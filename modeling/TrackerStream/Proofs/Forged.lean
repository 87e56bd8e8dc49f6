import TrackerStream.Proofs.Ingest
import TrackerStream.Proofs.Certified

/-!
# Forged deliveries

A delivery that is refused is remembered by its name and sequence number, so that a forged one may keep a genuine
one out. `forged_harmless_iff` says which ones do: those with a record that verifies at the very sequence number,
whatever the document, as long as it is base64.
-/

namespace TrackerStream.Playlists
variable (lib : Lib)

/-- The entry is stored: `ingest_wire` says so, and the row of its name is another. -/
def Stored (s : Store) (w : PlaylistWire) (ω : Nat → Input) : Prop :=
  ((ingest_wire lib w).run (world lib) ω s).1 = .ok true ∧
    ((ingest_wire lib w).run (world lib) ω s).2.db.row w.name ≠ s.db.row w.name

/-- `ingest_wire` does not take the entry that is delivered, if there is one. -/
def Rejected (s : Store) (d : Delivery) (ω : Nat → Input) : Prop :=
  ∀ w, d.wire = some w → ((ingest_wire lib w).run (world lib) ω s).1 ≠ .ok true

/-- The delivery has a record that verifies for the name at the sequence number, and a document in base64. -/
def Poisons (name : String) (seq : UInt64) (d : Delivery) (ω : Nat → Input) : Prop :=
  ∃ w cid b, d.wire = some w ∧ w.name = name ∧
    verify_b64_seq lib.toIpnsLib (ω 0).now name w.record = .ok (cid, seq) ∧ unbase64 (trim w.doc) = some b

/-- The same rows and the same index. -/
def SameRows (s s' : Store) : Prop := s.db.playlists = s'.db.playlists ∧ s.db.fts = s'.db.fts

variable {lib} {s s' : Store} {name : String} {seq : UInt64} {d : Delivery} {ω : Nat → Input}

theorem SameRows.row (h : SameRows s s') (n : String) : s.db.row n = s'.db.row n := by rw [Db.row, h.1, Db.row]

theorem fate_of_answer {w : PlaylistWire} (h : ((ingest_wire lib w).run (world lib) ω s).1 = .ok true) :
    ∃ doc b seq, fate lib (ω 0).now s.db w = .stored doc b seq := by
  rw [run_ingest_wire] at h
  cases hf : fate lib (ω 0).now s.db w with
  | stored doc b seq => exact ⟨doc, b, seq, rfl⟩
  | failed e => rw [hf] at h; cases h
  | old => rw [hf] at h; cases h
  | refused e seq => rw [hf] at h; cases h

/-- A rejected delivery changes no row, and adds the pair to those refused exactly if it poisons it. -/
theorem rejected_step (h : Rejected lib s d ω) (hrow : (s.db.row name).any (fun r => seq ≤ as_u64 r.seq) = false) :
    SameRows ((Op.prog lib d.op).run (world lib) ω s).2 s ∧
      ((Op.prog lib d.op).run (world lib) ω s).2.pinned = s.pinned ∧
        ((name, as_i64 seq) ∈ ((Op.prog lib d.op).run (world lib) ω s).2.db.rejected ↔
          (name, as_i64 seq) ∈ s.db.rejected ∨ Poisons lib name seq d ω) := by
  obtain ⟨hdb, hpin⟩ := Prod.ext_iff.1 (run_delivery lib s ω d)
  dsimp only at hdb hpin
  rw [SameRows, hdb, hpin]
  cases hw : d.wire with
  | none => exact ⟨⟨rfl, rfl⟩, rfl, by simp [Poisons, hw]⟩
  | some w =>
    dsimp only
    -- What poisons the pair and leaves it as it was found it refused already.
    have hpoison (hno : ∀ doc b, fate lib (ω 0).now s.db w ≠ .stored doc b seq)
        (hno' : ∀ e, fate lib (ω 0).now s.db w ≠ .refused e seq) (hp : Poisons lib name seq d ω) :
        (name, as_i64 seq) ∈ s.db.rejected := by
      obtain ⟨w', cid, b, hw', rfl, hv, hb⟩ := hp
      rw [hw, Option.some.injEq] at hw'
      subst hw'
      cases hk : known s.db w.name seq with
      | true => simpa [known, hrow] using hk
      | false =>
        rcases fate_of_verified hv hk hb with ⟨doc, hf⟩ | ⟨e, hf⟩
        · exact absurd hf (hno doc b)
        · exact absurd hf (hno' e)
    cases hf : fate lib (ω 0).now s.db w with
    | failed e => exact ⟨⟨rfl, rfl⟩, rfl, .inl, Or.rec id (hpoison (by simp [hf]) (by simp [hf]))⟩
    | old => exact ⟨⟨rfl, rfl⟩, rfl, .inl, Or.rec id (hpoison (by simp [hf]) (by simp [hf]))⟩
    | stored doc b q => exact absurd (by rw [run_ingest_wire, hf]; rfl) (h w hw)
    | refused e q =>
      refine ⟨⟨Db.playlists_reject, Db.fts_reject⟩, rfl, Db.mem_rejected_reject.trans ⟨?_, ?_⟩⟩
      · rintro (hmem | heq)
        · exact .inl hmem
        · obtain ⟨rfl, hq⟩ := Prod.mk.inj heq
          obtain ⟨cid, b, hv, hb⟩ := fate_refused hf
          exact .inr ⟨w, cid, b, hw, rfl, as_i64_inj hq ▸ hv, hb⟩
      · rintro (hmem | hp)
        · exact .inl hmem
        · by_cases hq : seq = q
          · obtain ⟨w', -, -, hw', rfl, -⟩ := hp
            rw [hw, Option.some.injEq] at hw'
            exact .inr (by rw [hw', hq])
          · exact .inl (hpoison (by simp [hf]) (by simp [hf, Ne.symm hq]) hp)

/-- The operation of each delivery. -/
abbrev deliver (lib : Lib) (d : Delivery) : Desktop Unit := Op.prog lib d.op

theorem rejected_run {ds : List (Delivery × (Nat → Input))} (h : Prog.Along (deliver lib) (world lib) (Rejected lib) s ds)
    (hrow : (s.db.row name).any (fun r => seq ≤ as_u64 r.seq) = false) :
    SameRows (Prog.runs (deliver lib) (world lib) s ds) s ∧
      (Prog.runs (deliver lib) (world lib) s ds).pinned = s.pinned ∧
        ((name, as_i64 seq) ∈ (Prog.runs (deliver lib) (world lib) s ds).db.rejected ↔
          (name, as_i64 seq) ∈ s.db.rejected ∨ ∃ x ∈ ds, Poisons lib name seq x.1 x.2) := by
  induction ds generalizing s with
  | nil => exact ⟨⟨rfl, rfl⟩, rfl, by simp [Prog.runs]⟩
  | cons x ds ih =>
    obtain ⟨hsame, hpin, hrej⟩ := rejected_step h.1 hrow
    obtain ⟨hsame', hpin', hrej'⟩ := ih h.2 (by rw [hsame.row]; exact hrow)
    refine ⟨⟨hsame'.1.trans hsame.1, hsame'.2.trans hsame.2⟩, hpin'.trans hpin, hrej'.trans ?_⟩
    rw [hrej, List.exists_mem_cons_iff, or_assoc]

/-- A write looks at the rows and the index alone. -/
theorem ingest_row_congr {db db' : Db} {pinned : Option String} {doc : PlaylistDoc} {b : Bytes} {record : String}
    {now : Int} (hrows : db.playlists = db'.playlists) (hfts : db.fts = db'.fts) :
    (ingest_row lib db pinned name doc b record seq now).playlists =
        (ingest_row lib db' pinned name doc b record seq now).playlists ∧
      (ingest_row lib db pinned name doc b record seq now).fts =
        (ingest_row lib db' pinned name doc b record seq now).fts := by
  obtain ⟨rows, fts, rej⟩ := db
  obtain ⟨rows', fts', rej'⟩ := db'
  cases hrows
  cases hfts
  by_cases hdel : doc.del = true
  · by_cases hkeep : ((rows.lookup name).any (fun r => r.is_mine || r.held) || pinned = some name) = true
    · simp only [ingest_row, hdel, Db.row, hkeep, ↓reduceIte, Db.update]
      cases rows.lookup name <;> exact ⟨rfl, rfl⟩
    · simp only [ingest_row, hdel, Db.row, hkeep, ↓reduceIte]
      exact ⟨rfl, rfl⟩
  · simp only [ingest_row, hdel]
    exact ⟨rfl, rfl⟩

/-- Rejected deliveries before a genuine one that would be stored make no difference to the rows and the index
exactly if none of them poisons its sequence number. -/
theorem forged_harmless_iff {g : PlaylistWire} {cid : ContentId} {ds : List (Delivery × (Nat → Input))}
    (hverify : verify_b64_seq lib.toIpnsLib (ω 0).now g.name g.record = .ok (cid, seq)) (hstored : Stored lib s g ω)
    (hds : Prog.Along (deliver lib) (world lib) (Rejected lib) s ds) :
    SameRows ((ingest_wire lib g).run (world lib) ω (Prog.runs (deliver lib) (world lib) s ds)).2
        ((ingest_wire lib g).run (world lib) ω s).2 ↔
      ∀ x ∈ ds, ¬Poisons lib g.name seq x.1 x.2 := by
  obtain ⟨htrue, hchanged⟩ := hstored
  obtain ⟨doc, b, q, hf⟩ := fate_of_answer htrue
  obtain ⟨cid', hv, hk, hb, hm, hdoc⟩ := fate_stored hf
  rw [hverify] at hv
  cases hv
  simp only [known, Bool.or_eq_false_iff, decide_eq_false_iff_not] at hk
  obtain ⟨hsame, hpin, hrej⟩ := rejected_run hds hk.1
  set s₁ := Prog.runs (deliver lib) (world lib) s ds
  have hrej' : (g.name, as_i64 seq) ∈ s₁.db.rejected ↔ ∃ x ∈ ds, Poisons lib g.name seq x.1 x.2 := by
    rw [hrej]
    exact or_iff_right hk.2
  constructor
  · intro h x hx hp
    have hknown : known s₁.db g.name seq = true := by simp [known, hrej'.2 ⟨x, hx, hp⟩]
    rw [run_ingest_wire (s := s₁), fate_old hverify hknown] at h
    refine hchanged ?_
    rw [← h.row, ← hsame.row]
    rfl
  · intro h
    have hnot : (g.name, as_i64 seq) ∉ s₁.db.rejected := fun hmem => by
      obtain ⟨x, hx, hp⟩ := hrej'.1 hmem
      exact h x hx hp
    have hfate : fate lib (ω 0).now s₁.db g = .stored doc b seq := by
      rw [← hf]
      refine fate_congr hsame.row fun cid' seq' hv' => ?_
      rw [hverify] at hv'
      cases hv'
      exact iff_of_false hnot hk.2
    rw [run_ingest_wire, run_ingest_wire, hfate, hf]
    simp only [Fate.settle, hpin]
    exact ingest_row_congr hsame.1 hsame.2

theorem run_entry (lib : Lib) (s : Store) (ω : Nat → Input) (w : PlaylistWire) :
    ((deliver lib (.entry w)).run (world lib) ω s).2.db =
    ((fate lib (ω 0).now s.db w).settle lib (ω 2).now s w).db :=
  (Prod.ext_iff.1 (run_delivery lib s ω (.entry w))).1

/-! ### A genuine entry and a forged one -/

def docA : Bytes := utf8 "\x7b\"v\":2,\"t\":\"a\"\x7d"

def docB : Bytes := utf8 "\x7b\"v\":2,\"t\":\"b\"\x7d"

/-- What the checks make of the record and the documents. -/
theorem checks_sample :
    verify_record_seq sample.lib.toIpnsLib 1780000000 ownName recordA = .ok (⟨0x55, 0x12, digestA⟩, 1) ∧
      doc_matches_cid sample.lib.toIpnsLib ⟨0x55, 0x12, digestA⟩ docA = true ∧
        validate_doc sample.lib docA = .ok (newDoc "a" []) ∧
          doc_matches_cid sample.lib.toIpnsLib ⟨0x55, 0x12, digestA⟩ docB = false ∧
            verify_b64_seq sample.lib.toIpnsLib 1780000000 ownName "" = .error "decode ipns record" := by
  decide +kernel

/-- The genuine entry. -/
def genuine : PlaylistWire := ⟨ownName, 1, base64 recordA, base64 docA⟩

/-- The record of the genuine entry stapled to another document. -/
def forged : PlaylistWire := ⟨ownName, 1, base64 recordA, base64 docB⟩

theorem verify_genuine : verify_b64_seq sample.lib.toIpnsLib 1780000000 ownName (base64 recordA) =
    .ok (⟨0x55, 0x12, digestA⟩, 1) :=
  (verify_b64_seq_base64 ..).trans checks_sample.1

theorem unbase64_trim (b : Bytes) : unbase64 (trim (base64 b)) = some b := by rw [trim_base64, unbase64_base64]

theorem fate_genuine {db : Db} (h : known db ownName 1 = false) :
    fate sample.lib 1780000000 db genuine = .stored (newDoc "a" []) docA 1 :=
  fate_of_valid verify_genuine h (unbase64_trim docA) checks_sample.2.1 checks_sample.2.2.1

theorem fate_genuine_old {db : Db} (h : known db ownName 1 = true) : fate sample.lib 1780000000 db genuine = .old :=
  fate_old (w := genuine) verify_genuine h

theorem fate_forged {db : Db} (h : known db ownName 1 = false) :
    fate sample.lib 1780000000 db forged = .refused s!"doc does not hash to record cid for {ownName}" 1 :=
  fate_of_mismatch verify_genuine h (unbase64_trim docB) checks_sample.2.2.2.1

/-- The clock, and nothing from the node. -/
def quiet : Input := { now := 1780000000 }

theorem known_freshStore : known freshStore.db ownName 1 = false := by decide

/-- The genuine entry is stored where nothing is known of it. -/
theorem run_genuine {s : Store} (h : known s.db ownName 1 = false) :
    (ingest_wire sample.lib genuine).run (world sample.lib) (fun _ => quiet) s = (.ok true, { s with
      db := ingest_row sample.lib s.db s.pinned ownName (newDoc "a" []) docA (base64 recordA) 1 1780000000 }) := by
  rw [run_ingest_wire, show ((fun _ => quiet) 0 : Input).now = 1780000000 from rfl, fate_genuine h]
  rfl

theorem run_genuine_old {s : Store} (h : known s.db ownName 1 = true) :
    (ingest_wire sample.lib genuine).run (world sample.lib) (fun _ => quiet) s = (.ok false, s) := by
  rw [run_ingest_wire, show ((fun _ => quiet) 0 : Input).now = 1780000000 from rfl, fate_genuine_old h]
  rfl

theorem row_genuine : ((ingest_wire sample.lib genuine).run (world sample.lib) (fun _ => quiet) freshStore).2.db.row
    ownName ≠ none := by
  have hdel : (newDoc "a" []).del = false := rfl
  rw [run_genuine known_freshStore]
  simp only [ingest_row, hdel, Bool.false_eq_true, ↓reduceIte, row_upsert_row]
  rintro ⟨⟩

theorem run_forged : (Prog.runs (deliver sample.lib) (world sample.lib) freshStore [(.entry forged, fun _ => quiet)]).db =
    freshStore.db.reject ownName (as_i64 1) := by
  have h := run_entry sample.lib freshStore (fun _ => quiet) forged
  rw [show ((fun _ => quiet) 0 : Input).now = 1780000000 from rfl, fate_forged known_freshStore, Fate.settle] at h
  rw [Prog.runs, List.foldl_cons, List.foldl_nil, h]
  rfl

/-- The forged entry keeps the genuine one out. -/
theorem forged_keeps_out :
    ¬SameRows ((ingest_wire sample.lib genuine).run (world sample.lib) (fun _ => quiet)
        (Prog.runs (deliver sample.lib) (world sample.lib) freshStore [(.entry forged, fun _ => quiet)])).2
      ((ingest_wire sample.lib genuine).run (world sample.lib) (fun _ => quiet) freshStore).2 := by
  intro h
  have hknown : known (freshStore.db.reject ownName (as_i64 1)) ownName 1 = true := by decide
  have hrow := h.row ownName
  rw [run_genuine_old (run_forged ▸ hknown), run_forged, Db.row_reject] at hrow
  exact row_genuine (hrow.symm.trans Db.row_empty)

/-- An entry whose record is not one. -/
def garbled : PlaylistWire := ⟨ownName, 7, "", base64 docB⟩

/-- A delivery whose record does not verify makes no difference. -/
theorem garbled_harmless :
    SameRows ((ingest_wire sample.lib genuine).run (world sample.lib) (fun _ => quiet)
        (Prog.runs (deliver sample.lib) (world sample.lib) freshStore [(.entry garbled, fun _ => quiet)])).2
      ((ingest_wire sample.lib genuine).run (world sample.lib) (fun _ => quiet) freshStore).2 := by
  have hstored : Stored sample.lib freshStore genuine fun _ => quiet := by
    refine ⟨?_, fun h => row_genuine (h.trans Db.row_empty)⟩
    rw [run_genuine known_freshStore]
  have hrejected : Rejected sample.lib freshStore (.entry garbled) fun _ => quiet := by
    rintro _ ⟨⟩ h
    obtain ⟨doc, b, seq, hf⟩ := fate_of_answer h
    obtain ⟨cid, hv, -⟩ := fate_stored hf
    cases hv.symm.trans checks_sample.2.2.2.2
  have hds : Prog.Along (deliver sample.lib) (world sample.lib) (Rejected sample.lib) freshStore
      [(.entry garbled, fun _ => quiet)] := ⟨hrejected, trivial⟩
  refine (forged_harmless_iff (g := genuine) (ω := fun _ => quiet) verify_genuine hstored hds).2 ?_
  rintro x hx ⟨w, cid, b, hw, -, hv, -⟩
  rw [List.mem_singleton.1 hx] at hw hv
  cases hw
  cases hv.symm.trans checks_sample.2.2.2.2

end TrackerStream.Playlists
