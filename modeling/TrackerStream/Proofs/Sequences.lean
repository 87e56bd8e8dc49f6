import TrackerStream.Proofs.Forged
import TrackerStream.Proofs.WebActs

/-!
# Sequence numbers on both clients

Records carry 64 bits. The desktop keeps them in a signed column, whose negative values are the sign to keep what is
there, and clamps below at zero; the browser keeps doubles. What is stored stands for the sequence of its record below
`2 ^ 63` on the desktop. In the browser it does below `2 ^ 53`, and for two doubles of four up to `2 ^ 54`.
-/

namespace TrackerStream

/-! ### The desktop -/

namespace Playlists
variable {lib : Lib} {db : Db} {pinned : Option String} {name record : String} {doc : PlaylistDoc} {b : Bytes}
  {s net : UInt64} {now : Int} {r : Row}

/-- What `next_seq` makes of the row's sequence and of what the node has seen. -/
def following (local_seq : Int) (net : UInt64) : UInt64 := if local_seq ≤ 0 then 1 else max (as_u64 local_seq) net + 1

theorem next_seq_eq (lib : Lib) (name : String) (local_seq : Int) : next_seq lib name local_seq =
    if local_seq ≤ 0 then return following local_seq 0
    else do
      let net ← net_seq lib name
      return following local_seq net := by
  unfold next_seq following
  split <;> rfl

/-- The entry of a row that is announced. -/
def announced (row : LibraryRow) : PlaylistWire :=
  ⟨row.name, as_u64 (max row.seq 0), row.record, base64 (utf8 row.doc_json)⟩

theorem announce_row_eq (lib : Lib) (entries : List PlaylistWire) (row : LibraryRow) : announce_row lib entries row = (do
    let now ← now_secs
    let alive := (verify_b64_seq lib.toIpnsLib now row.name row.record).isOk
    let now ← now_secs
    if row.is_mine && (!alive || record_near_eol lib.toIpnsLib now row.record) then
      let _ ← (publish lib row.name).attempt
      return entries
    else if !alive then return entries
    else return entries ++ [announced row]) := rfl

/-- The row `r` under `name` stands for the sequence `s`: in the check of newer records, in what is reported, and in the next
sequence, where the node has seen `net`. -/
structure Means (db : Db) (name : String) (r : Row) (s net : UInt64) : Prop where
  newest : ∀ t, t ≤ as_u64 r.seq ↔ t ≤ s
  manifest : ∀ e ∈ manifestRows db, e.name = name → e.seq = s
  announce : ∀ row ∈ libraryRows db, row.name = name → (announced row).seq = s
  next : s < following r.seq net ∧ net < following r.seq net

/-- A newer record leaves its sequence, or what was there before and is less. -/
theorem seq_ingest_row (hnew : known db name s = false)
    (hr : (ingest_row lib db pinned name doc b record s now).row name = some r) :
    r.seq = as_i64 s ∨ 2 ^ 63 ≤ s.toNat ∧ as_u64 r.seq < s := by
  rw [known, Bool.or_eq_false_iff] at hnew
  cases hdel : doc.del with
  | true =>
    rw [row_ingest_tombstone hdel, if_pos rfl] at hr
    split at hr
    · obtain ⟨old, -, rfl⟩ := Option.map_eq_some_iff.1 hr
      exact .inl rfl
    · cases hr
  | false =>
    rw [ingest_row_live hdel, row_upsert_row, if_pos rfl] at hr
    cases hr
    rcases Int.lt_or_le (as_i64 s) 0 with hneg | hpos
    · have hbig := as_i64_neg.1 hneg
      refine .inr ⟨hbig, ?_⟩
      cases hold : db.row name with
      | none =>
        simp only [upserted, max_eq_right hneg.le]
        rw [UInt64.lt_iff_toNat_lt, toNat_as_u64]
        simp only [Int.zero_emod, Int.toNat_zero]
        omega
      | some old =>
        simp only [upserted, if_pos hneg]
        have := hnew.1
        rw [hold, Option.any_some, decide_eq_false_iff_not] at this
        exact UInt64.not_le.1 this
    · refine .inl ?_
      cases db.row name with
      | none => exact max_eq_left hpos
      | some old => exact if_neg (Int.not_lt.2 hpos)

theorem as_u64_toNat (h : s.toNat < 2 ^ 63) : as_u64 s.toNat = s := by
  rw [← as_i64_of_lt h, as_u64_as_i64]

theorem seq_of_manifest {e : ManifestEntry} (he : e ∈ manifestRows db) :
    ∃ r, db.row e.name = some r ∧ e.seq = as_u64 (max r.seq 0) := by
  obtain ⟨x, hx, rfl⟩ := List.mem_map.1 he
  have hmem := List.mem_mergeSort.1 (List.mem_of_mem_take hx)
  exact ⟨x.2, Db.mem_rows.1 (List.mem_filter.1 hmem).1, rfl⟩

theorem seq_of_library {row : LibraryRow} (hrow : row ∈ libraryRows db) :
    ∃ r, db.row row.name = some r ∧ row.seq = r.seq := by
  obtain ⟨x, hx, hsome⟩ := List.mem_filterMap.1 hrow
  split at hsome
  · obtain ⟨record, -, rfl⟩ := Option.map_eq_some_iff.1 hsome
    exact ⟨x.2, Db.mem_rows.1 hx, rfl⟩
  · cases hsome

theorem toNat_max (a b : UInt64) : (max a b).toNat = max a.toNat b.toNat := by
  change (if a ≤ b then b else a).toNat = _
  split
  · rename_i h
    exact (Nat.max_eq_right (UInt64.le_iff_toNat_le.1 h)).symm
  · rename_i h
    exact (Nat.max_eq_left (UInt64.le_iff_toNat_le.1 (UInt64.le_of_lt (UInt64.not_le.1 h)))).symm

/-- The next sequence is above both, where none is the last one and a row of sequence 0 has nothing to recover. -/
theorem lt_following (h : s.toNat < 2 ^ 63) :
    s < following s.toNat net ∧ net < following s.toNat net ↔ (s = 0 → net = 0) ∧ net.toNat < 2 ^ 64 - 1 := by
  have hnet := UInt64.toNat_lt net
  by_cases hs : s = 0
  · subst hs
    have hone : following (0 : UInt64).toNat net = 1 := rfl
    rw [hone, UInt64.lt_iff_toNat_lt, UInt64.lt_iff_toNat_lt, UInt64.toNat_one, UInt64.toNat_zero]
    constructor
    · rintro ⟨-, hzero⟩
      exact ⟨fun _ => UInt64.toNat_inj.1 (Nat.lt_one_iff.1 hzero), by omega⟩
    · rintro ⟨hzero, -⟩
      rw [hzero rfl]
      exact ⟨Nat.one_pos, Nat.one_pos⟩
  · have hpos : s.toNat ≠ 0 := fun h0 => hs (UInt64.toNat_inj.1 h0)
    have hnext : following s.toNat net = max s net + 1 := by rw [following, if_neg (by omega), as_u64_toNat h]
    rw [hnext, UInt64.lt_iff_toNat_lt, UInt64.lt_iff_toNat_lt, UInt64.toNat_add, toNat_max, UInt64.toNat_one]
    constructor
    · rintro ⟨-, hlt⟩
      exact ⟨fun h0 => absurd h0 hs, by omega⟩
    · rintro ⟨-, hroom⟩
      omega

/-- What a record leaves means its sequence exactly where that is below `2 ^ 63`, and the node has seen none but the last. -/
theorem means_iff (hnew : known db name s = false)
    (hr : (ingest_row lib db pinned name doc b record s now).row name = some r) :
    Means (ingest_row lib db pinned name doc b record s now) name r s net ↔
      s.toNat < 2 ^ 63 ∧ (s = 0 → net = 0) ∧ net.toNat < 2 ^ 64 - 1 := by
  constructor
  · intro h
    have hself : s ≤ as_u64 r.seq := (h.newest s).2 (UInt64.le_refl s)
    have hseq : r.seq = as_i64 s := (seq_ingest_row hnew hr).resolve_right fun hright =>
      absurd hself (UInt64.not_le.2 hright.2)
    have hnext := h.next
    rw [hseq] at hnext
    rcases Nat.lt_or_ge s.toNat (2 ^ 63) with hsmall | hbig
    · rw [as_i64_of_lt hsmall] at hnext
      exact ⟨hsmall, (lt_following hsmall).1 hnext⟩
    · have hone : following (as_i64 s) net = 1 := if_pos (as_i64_neg.2 hbig).le
      rw [hone, UInt64.lt_iff_toNat_lt, UInt64.toNat_one] at hnext
      omega
  · rintro ⟨hsmall, hzero, hroom⟩
    have hseq : r.seq = s.toNat := by
      rcases seq_ingest_row hnew hr with h | h
      · rw [h, as_i64_of_lt hsmall]
      · omega
    have hreport : as_u64 (max r.seq 0) = s := by
      rw [hseq, max_eq_left (Int.natCast_nonneg _), as_u64_toNat hsmall]
    refine ⟨fun t => by rw [hseq, as_u64_toNat hsmall], fun e he hname => ?_, fun row hrow hname => ?_, ?_⟩
    · obtain ⟨r', hr', heq⟩ := seq_of_manifest he
      rw [hname, hr, Option.some.injEq] at hr'
      rw [heq, ← hr', hreport]
    · obtain ⟨r', hr', heq⟩ := seq_of_library hrow
      rw [hname, hr, Option.some.injEq] at hr'
      rw [announced, heq, ← hr']
      exact hreport
    · rw [hseq]
      exact (lt_following hsmall).2 ⟨hzero, hroom⟩

/-- An entry that `ingest_wire` says it stored. -/
theorem stored_of_run {w : PlaylistWire} {ω : Nat → Input} {st : Store} {cid : ContentId}
    (hverify : verify_b64_seq lib.toIpnsLib (ω 0).now w.name w.record = .ok (cid, s))
    (hrun : ((ingest_wire lib w).run (world lib) ω st).1 = .ok true) : known st.db w.name s = false ∧
    ∃ doc b, ((ingest_wire lib w).run (world lib) ω st).2.db =
      ingest_row lib st.db st.pinned w.name doc b w.record s (ω 2).now := by
  rw [run_ingest_wire] at hrun ⊢
  cases hfate : fate lib (ω 0).now st.db w with
  | failed e =>
    rw [hfate] at hrun
    cases hrun
  | old =>
    rw [hfate] at hrun
    cases hrun
  | refused e seq =>
    rw [hfate] at hrun
    cases hrun
  | stored doc b seq =>
    obtain ⟨cid', hverify', hnew, -⟩ := fate_stored hfate
    rw [hverify] at hverify'
    cases hverify'
    exact ⟨hnew, doc, b, rfl⟩

end Playlists

/-! ### The browser -/

namespace WebPlaylists
open Playlists (Row Db)
variable {lib : WebLib} {name : String} {rec doc : Bytes} {s : UInt64} {ω : Nat → Input} {st : Store} {n : Nat} {r : Row}

/-- The row `r` stands for the sequence `s`. -/
structure Means (r : Row) (s : UInt64) : Prop where
  newest : ∀ t : UInt64, (toNumber t.toNat : Int) ≤ r.seq ↔ t ≤ s
  manifest : r.seq = s.toNat
  next : s.toNat < nextSeq r.seq ∧ nextSeq r.seq < 2 ^ 64

theorem toNumber_lt_two_pow_54 (h : 2 ^ 53 ≤ n) (h' : n < 2 ^ 54) : toNumber n = if n % 4 = 3 then n + 1 else n - n % 2 := by
  have hlog : n.log2 = 53 := (Nat.log2_eq_iff (by omega)).2 ⟨h, h'⟩
  rw [toNumber, if_neg (by omega), hlog]
  dsimp only
  split <;> split <;> omega

/-- From `2 ^ 54` on, the number after a double is taken for it. -/
theorem toNumber_succ (h : 2 ^ 54 ≤ n) (hn : toNumber n = n) : toNumber (n + 1) = n := by
  have hlog : 54 ≤ n.log2 := (Nat.le_log2 (by omega)).2 h
  have hunit : 2 ^ (n.log2 - 52) = 4 * 2 ^ (n.log2 - 54) := by
    calc 2 ^ (n.log2 - 52) = 2 ^ (2 + (n.log2 - 54)) := by congr 1; omega
      _ = 4 * 2 ^ (n.log2 - 54) := Nat.pow_add 2 2 _
  have htop : 2 ^ (n.log2 + 1) = 4 * (2 ^ 53 * 2 ^ (n.log2 - 54)) := by
    calc 2 ^ (n.log2 + 1) = 2 ^ (53 + (2 + (n.log2 - 54))) := by congr 1; omega
      _ = 2 ^ 53 * (4 * 2 ^ (n.log2 - 54)) := by rw [Nat.pow_add, Nat.pow_add]
      _ = _ := Nat.mul_left_comm _ _ _
  have hpos : 0 < 2 ^ (n.log2 - 54) := Nat.two_pow_pos _
  have hsplit := Nat.div_add_mod n (2 ^ (n.log2 - 52))
  have hless := Nat.mod_lt n (Nat.two_pow_pos (n.log2 - 52))
  have hmul : n / 2 ^ (n.log2 - 52) * 2 ^ (n.log2 - 52) = n := by
    have := hn
    rw [toNumber, if_neg (by omega)] at this
    dsimp only at this
    split at this
    · rw [Nat.add_mul, Nat.mul_comm, Nat.one_mul] at this
      omega
    · exact this
  have hmod : (n + 1) % 2 ^ (n.log2 - 52) = 1 := by
    calc (n + 1) % 2 ^ (n.log2 - 52) = (n / 2 ^ (n.log2 - 52) * 2 ^ (n.log2 - 52) + 1) % 2 ^ (n.log2 - 52) := by rw [hmul]
      _ = 1 := by rw [Nat.mul_add_mod_self_right, Nat.mod_eq_of_lt (by omega)]
  have hdiv : (n + 1) / 2 ^ (n.log2 - 52) = n / 2 ^ (n.log2 - 52) := by
    have := Nat.div_add_mod (n + 1) (2 ^ (n.log2 - 52))
    rw [hmod, Nat.add_right_cancel_iff, Nat.mul_comm] at this
    exact Nat.eq_of_mul_eq_mul_right (Nat.two_pow_pos _) (this.trans hmul.symm)
  have hsame : (n + 1).log2 = n.log2 := by
    have hlow := Nat.log2_self_le (by omega : n ≠ 0)
    have hhigh := Nat.lt_log2_self (n := n)
    refine (Nat.log2_eq_iff (by omega)).2 ⟨by omega, ?_⟩
    rw [hunit, Nat.mul_left_comm] at hmul
    omega
  rw [toNumber, if_neg (by omega), hsame]
  dsimp only
  rw [hmod, hdiv, if_neg (by omega), hmul]

theorem toNumber_le_iff (h : n < 2 ^ 53 ∨ n < 2 ^ 54 ∧ n % 4 = 2) (t : Nat) : toNumber t ≤ n ↔ t ≤ n := by
  rcases Nat.lt_or_ge t (2 ^ 53) with hsmall | hbig
  · rw [toNumber_of_lt hsmall]
  rcases Nat.lt_or_ge t (2 ^ 54) with hmid | hlarge
  · rw [toNumber_lt_two_pow_54 hbig hmid]
    split <;> omega
  · have := two_pow_le_toNumber hlarge
    omega

theorem nextSeq_natCast (n : Nat) : nextSeq n = toNumber (n + 1) := by
  rw [nextSeq, max_eq_left (Int.natCast_nonneg n), Int.toNat_natCast]

/-- What is kept of a record means its sequence exactly below `2 ^ 53`, and for every other double up to `2 ^ 54`. -/
theorem means_iff (hr : r.seq = toNumber s.toNat) :
    Means r s ↔ s.toNat < 2 ^ 53 ∨ s.toNat < 2 ^ 54 ∧ s.toNat % 4 = 2 := by
  constructor
  · rintro ⟨hnewest, hmanifest, -⟩
    have hfix : toNumber s.toNat = s.toNat := Int.natCast_inj.1 (hr.symm.trans hmanifest)
    have hbound := UInt64.toNat_lt s
    have hnot : s.toNat + 1 < 2 ^ 64 → ¬toNumber (s.toNat + 1) ≤ s.toNat := by
      intro hroom hle
      have hnat : (UInt64.ofNat (s.toNat + 1)).toNat = s.toNat + 1 := UInt64.toNat_ofNat_of_lt' hroom
      have := (hnewest (.ofNat (s.toNat + 1))).1 (by rw [hnat, hmanifest]; exact Int.ofNat_le.2 hle)
      rw [UInt64.le_iff_toNat_le, hnat] at this
      omega
    by_contra hcon
    rcases Nat.lt_or_ge s.toNat (2 ^ 54) with hmid | hlarge
    · have hexact := toNumber_lt_two_pow_54 (by omega) hmid
      rcases Nat.lt_or_ge (s.toNat + 1) (2 ^ 54) with hnext | hnext
      · refine hnot (by omega) ?_
        rw [toNumber_lt_two_pow_54 (by omega) hnext]
        split at hexact <;> split <;> omega
      · split at hexact <;> omega
    · have hroom : s.toNat ≠ 2 ^ 64 - 1 := by
        intro heq
        rw [heq] at hfix
        exact absurd hfix (by decide)
      exact hnot (by omega) (toNumber_succ hlarge hfix).le
  · intro h
    have hfix : toNumber s.toNat = s.toNat := by
      rcases Nat.lt_or_ge s.toNat (2 ^ 53) with hsmall | hbig
      · exact toNumber_of_lt hsmall
      · rw [toNumber_lt_two_pow_54 hbig (by omega)]
        split <;> omega
    rw [hfix] at hr
    refine ⟨fun t => ?_, hr, ?_⟩
    · rw [hr, Int.ofNat_le, toNumber_le_iff h, UInt64.le_iff_toNat_le]
    · have habove := mt (toNumber_le_iff h (s.toNat + 1)).1 (by omega)
      refine hr ▸ ⟨by rw [nextSeq_natCast]; omega, ?_⟩
      rw [nextSeq_natCast]
      rcases Nat.lt_or_ge (s.toNat + 1) (2 ^ 53) with hsmall | hbig
      · rw [toNumber_of_lt hsmall]
        omega
      · rcases Nat.lt_or_ge (s.toNat + 1) (2 ^ 54) with hmid | hlarge
        · rw [toNumber_lt_two_pow_54 hbig hmid]
          split <;> omega
        · omega

/-- Where there is a row under `name`, its sequence is `seq`. -/
def Keeps (name : String) (seq : Int) (db : Db) : Prop := ∀ r, db.row name = some r → r.seq = seq

theorem Keeps.erase {name other : String} {seq : Int} {db : Db} (h : Keeps name seq db) :
    Keeps name seq (db.erase other) := by
  intro r hr
  rw [Db.row_erase] at hr
  split at hr
  · cases hr
  · exact h r hr

/-- What an ingest does after its insert. -/
def afterInsert (name : String) (parsed : PlaylistDoc) : Web Unit := do
  index name parsed
  act (.removePending name)
  act (.markSeen name)
  enforceBudget BUDGET_BYTES

theorem run_afterInsert {seq : Int} (parsed : PlaylistDoc) (h : Keeps name seq st.db) :
    Keeps name seq ((afterInsert name parsed).run world ω st).2.db := by
  have hrest : (afterInsert name parsed).Only fun e => ∀ i st, Keeps name seq st.db →
    Keeps name seq (world e i st).2.db := by
    refine (only_index (fun i st hst => hst) fun e i st hst => hst).bind fun _ => ?_
    refine .bind ⟨fun i st hst => hst, fun _ => trivial⟩ fun _ => ?_
    refine .bind ⟨fun i st hst => hst, fun _ => trivial⟩ fun _ => ?_
    exact only_enforceBudget (fun i st hst => hst) (fun n i st hst => hst.erase) fun n i st hst => hst
  exact Prog.run_invariant (I := fun st => Keeps name seq st.db) (Prog.fits_true _ _ _)
    (hrest.wp (fun e i st he _ hst => he i st hst) h)

theorem run_ingestVerified {parsed : PlaylistDoc}
    (hany : ((st.db.row name).any fun r => (toNumber s.toNat : Int) ≤ r.seq) = false)
    (hdoc : validateDoc lib doc = .ok parsed) : (ingestVerified lib name rec doc s).run world ω st =
      (afterInsert name parsed).run world (fun n => ω (n + 2)) (world (.insert name parsed doc (some (base64 rec))
        (toNumber s.toNat) (recordEolSecs lib rec)) (ω 1) st).2 := by
  rw [ingestVerified, getRow, act, Prog.call, Prog.act_bind, Prog.run_act, Prog.ret_bind]
  split
  · rename_i hknown
    exact absurd (hknown.symm.trans hany) (by decide)
  · rw [hdoc]
    rfl

/-- In the budget nothing is deleted. -/
theorem row_afterInsert (parsed : PlaylistDoc) (h : ((seenSizes st.db).map (·.2)).sum ≤ BUDGET_BYTES) :
    ((afterInsert name parsed).run world ω st).2.db.row name = st.db.row name := by
  have hevict (rows : List (String × Int)) (total : Int) (hle : total ≤ BUDGET_BYTES) :
      evictRows BUDGET_BYTES rows total = pure () := by
    cases rows with
    | nil => rfl
    | cons x xs => exact if_pos hle
  simp only [afterInsert, index, enforceBudget, act, Prog.call, Prog.act_bind, Prog.ret_bind, Prog.run_act]
  change (Prog.run world (evictRows BUDGET_BYTES (seenSizes st.db) ((seenSizes st.db).map (·.2)).sum) _ _).2.db.row name = _
  rw [hevict _ _ h]
  rfl

/-- What is left of the row once the browser has stored a record. -/
theorem seq_ingestVerified {parsed : PlaylistDoc} (hnew : ∀ old, st.db.row name = some old → old.seq < toNumber s.toNat)
    (hdoc : validateDoc lib doc = .ok parsed)
    (hr : ((ingestVerified lib name rec doc s).run world ω st).2.db.row name = some r) : r.seq = toNumber s.toNat := by
  have hany : (st.db.row name).any (fun r => (toNumber s.toNat : Int) ≤ r.seq) = false := by
    cases hold : st.db.row name with
    | none => rfl
    | some old => exact decide_eq_false (not_le.2 (hnew old hold))
  rw [run_ingestVerified hany hdoc] at hr
  refine run_afterInsert parsed (fun r' hr' => ?_) r hr
  rw [world, Db.row_put, if_pos rfl, Option.some.injEq] at hr'
  cases hr'
  cases st.db.row name <;> rfl

end WebPlaylists

/-! ### Both clients -/

section
open Playlists (PlaylistWire ingest_wire ownName recordA digestA docA genuine freshStore quiet)

/-- The document titled `a`, as the browser reads it. -/
def webDoc : WebPlaylists.PlaylistDoc := { v := some 2, t := .text "a" }

def webTables (t : Playlists.Tables) : WebPlaylists.WebLib :=
  { t.lib.toIpnsLib with
    parse := fun text => if text = "\x7b\"v\":2,\"t\":\"a\"\x7d" then .ok webDoc else .error "Unexpected token"
    stringify := fun _ => "\x7b\"v\":2,\"t\":\"a\"\x7d" }

theorem validateDoc_webTables (t : Playlists.Tables) : WebPlaylists.validateDoc (webTables t) docA = .ok webDoc := by
  rfl

def webStore : WebPlaylists.Store := { db := .empty }

/-- The row the browser makes of the document titled `a`. -/
def webRow (t : Playlists.Tables) (rec : Bytes) (s : UInt64) : Playlists.Row :=
  WebPlaylists.upserted none webDoc docA (some (base64 rec)) (WebPlaylists.toNumber s.toNat)
    (WebPlaylists.recordEolSecs (webTables t) rec) 0

theorem row_web (t : Playlists.Tables) (rec : Bytes) (s : UInt64) :
    ((WebPlaylists.ingestVerified (webTables t) ownName rec docA s).run WebPlaylists.world (fun _ => {}) webStore).2.db.row
      ownName = some (webRow t rec s) := by
  rw [WebPlaylists.run_ingestVerified (by rfl) (validateDoc_webTables t)]
  rw [WebPlaylists.row_afterInsert]
  · exact Playlists.Db.row_put.trans (if_pos rfl)
  · have hrow : (Playlists.Db.empty.put ownName (webRow t rec s)).rows = [(ownName, webRow t rec s)] := rfl
    change ((WebPlaylists.seenSizes (Playlists.Db.empty.put ownName (webRow t rec s))).map (·.2)).sum ≤ _
    rw [WebPlaylists.seenSizes, hrow, List.filter_cons_of_pos (by rfl), List.filter_nil, List.mergeSort_singleton]
    exact (by decide : (15 : Int) ≤ WebPlaylists.BUDGET_BYTES)

/-- What a client stores of a record means its sequence exactly on the desktop below `2 ^ 63`, as long as the node has
seen no last sequence and none for a row at 0, and in the browser below `2 ^ 53`, and for every other double up to
`2 ^ 54`. -/
theorem sequences_iff (lib : Playlists.Lib) (web : WebPlaylists.WebLib) :
    (∀ (w : PlaylistWire) (ω : Nat → Playlists.Input) (st : Playlists.Store) (cid : ContentId)
      (s net : UInt64) (r : Playlists.Row), verify_b64_seq lib.toIpnsLib (ω 0).now w.name w.record = .ok (cid, s) →
      ((ingest_wire lib w).run (Playlists.world lib) ω st).1 = .ok true →
      ((ingest_wire lib w).run (Playlists.world lib) ω st).2.db.row w.name = some r →
        (Playlists.Means ((ingest_wire lib w).run (Playlists.world lib) ω st).2.db w.name r s net ↔
          s.toNat < 2 ^ 63 ∧ (s = 0 → net = 0) ∧ net.toNat < 2 ^ 64 - 1)) ∧
    ∀ (name : String) (rec doc : Bytes) (parsed : WebPlaylists.PlaylistDoc) (s : UInt64) (ω : Nat → WebPlaylists.Input)
      (st : WebPlaylists.Store) (r : Playlists.Row),
      (∀ old, st.db.row name = some old → old.seq < WebPlaylists.toNumber s.toNat) →
      WebPlaylists.validateDoc web doc = .ok parsed →
      ((WebPlaylists.ingestVerified web name rec doc s).run WebPlaylists.world ω st).2.db.row name = some r →
        (WebPlaylists.Means r s ↔ s.toNat < 2 ^ 53 ∨ s.toNat < 2 ^ 54 ∧ s.toNat % 4 = 2) := by
  constructor
  · intro w ω st cid s net r hverify hrun hr
    obtain ⟨hnew, doc, b, hdb⟩ := Playlists.stored_of_run hverify hrun
    rw [hdb] at hr ⊢
    exact Playlists.means_iff hnew hr
  · intro name rec doc parsed s ω st r hnew hdoc hr
    exact WebPlaylists.means_iff (WebPlaylists.seq_ingestVerified hnew hdoc hr)

/-- A record of sequence 1. -/
theorem sequences_iff_one :
    (∃ r, Playlists.Means
      ((ingest_wire Playlists.sample.lib genuine).run (Playlists.world Playlists.sample.lib)
        (fun _ => quiet) freshStore).2.db
        ownName r 1 0) ∧
      WebPlaylists.Means (webRow Playlists.sample recordA 1) 1 := by
  have hrun := Playlists.run_genuine Playlists.known_freshStore
  obtain ⟨r, hr⟩ := Option.ne_none_iff_exists'.1 Playlists.row_genuine
  refine ⟨⟨r, ?_⟩, ?_⟩
  · refine ((sequences_iff Playlists.sample.lib (webTables Playlists.sample)).1 genuine
    (fun _ => quiet) freshStore _ 1 0 r Playlists.verify_genuine ?_ hr).2 ?_
    · rw [hrun]
    · decide
  · refine ((sequences_iff Playlists.sample.lib (webTables Playlists.sample)).2 ownName recordA docA webDoc 1 (fun _ => {}) webStore _ ?_
      (validateDoc_webTables _) (row_web _ _ _)).2 (.inl (by decide))
    rintro _ ⟨⟩

/-- The record of the document titled `a` with sequence `2 ^ 63`. -/
def recordTop : Bytes :=
  [10, 65, 47, 105, 112, 102, 115, 47, 98, 97, 102, 107, 114, 101, 105, 101, 105, 112, 121, 111, 51, 99, 97, 50,
  102, 116, 99, 110, 97, 122, 114, 115, 114, 107, 121, 51, 116, 120, 51, 53, 53, 100, 106, 105, 116, 119, 112,
  115, 121, 54, 121, 107, 120, 101, 113, 101, 104, 103, 122, 106, 51, 114, 52, 101, 50, 106, 97, 18, 64, 148, 82,
  214, 112, 83, 205, 242, 76, 15, 4, 138, 131, 176, 175, 40, 9, 176, 98, 150, 11, 126, 180, 242, 208, 247, 176,
  75, 10, 38, 87, 67, 49, 189, 46, 80, 72, 57, 63, 214, 49, 53, 17, 156, 246, 218, 147, 112, 60, 179, 207, 158,
  70, 26, 99, 206, 90, 5, 144, 23, 53, 51, 41, 181, 2, 24, 0, 34, 20, 50, 48, 50, 54, 45, 48, 54, 45, 48, 52, 84,
  50, 48, 58, 50, 54, 58, 52, 48, 90, 40, 128, 128, 128, 128, 128, 128, 128, 128, 128, 1, 48, 128, 192, 226, 133,
  227, 104, 66, 64, 79, 204, 174, 82, 223, 83, 235, 40, 135, 180, 78, 100, 131, 231, 103, 78, 159, 114, 215, 98,
  181, 164, 159, 131, 31, 73, 164, 52, 56, 112, 220, 206, 211, 112, 175, 231, 147, 99, 81, 119, 67, 110, 137, 55,
  45, 230, 102, 255, 190, 157, 10, 65, 241, 123, 198, 162, 253, 61, 109, 228, 97, 206, 116, 2, 74, 149, 1, 165,
  99, 84, 84, 76, 27, 0, 0, 3, 70, 48, 184, 160, 0, 101, 86, 97, 108, 117, 101, 88, 65, 47, 105, 112, 102, 115,
  47, 98, 97, 102, 107, 114, 101, 105, 101, 105, 112, 121, 111, 51, 99, 97, 50, 102, 116, 99, 110, 97, 122, 114,
  115, 114, 107, 121, 51, 116, 120, 51, 53, 53, 100, 106, 105, 116, 119, 112, 115, 121, 54, 121, 107, 120, 101,
  113, 101, 104, 103, 122, 106, 51, 114, 52, 101, 50, 106, 97, 104, 83, 101, 113, 117, 101, 110, 99, 101, 27, 128,
  0, 0, 0, 0, 0, 0, 0, 104, 86, 97, 108, 105, 100, 105, 116, 121, 84, 50, 48, 50, 54, 45, 48, 54, 45, 48, 52, 84,
  50, 48, 58, 50, 54, 58, 52, 48, 90, 108, 86, 97, 108, 105, 100, 105, 116, 121, 84, 121, 112, 101, 0]

/-- `2 ^ 63`. -/
def topSeq : UInt64 := 9223372036854775808

/-- What the libraries say of that record. -/
def topTables : Playlists.Tables :=
  { Playlists.sample with
    records := [(ownName, recordTop, ⟨"/ipfs/bafkreieipyo3ca2ftcnazrsrky3tx355djitwpsy6ykxeqehgzj3r4e2ja", topSeq,
      some 1780604800⟩)] }

def topWire : PlaylistWire := ⟨ownName, topSeq, base64 recordTop, base64 docA⟩

theorem checks_topTables :
    verify_record_seq topTables.lib.toIpnsLib 1780000000 ownName recordTop = .ok (⟨0x55, 0x12, digestA⟩, topSeq) ∧
      doc_matches_cid topTables.lib.toIpnsLib ⟨0x55, 0x12, digestA⟩ docA = true ∧
        Playlists.validate_doc topTables.lib docA = .ok (Playlists.newDoc "a" []) := by
  refine ⟨?_, ?_, ?_⟩
  · simp [verify_record_seq, topTables, Playlists.Tables.lib, Playlists.sample]
  · simp [doc_matches_cid, topTables, Playlists.Tables.lib, Playlists.sample, docA]
  · decide

theorem run_top : (ingest_wire topTables.lib topWire).run (Playlists.world topTables.lib) (fun _ => quiet) freshStore =
    (.ok true, { freshStore with
      db := Playlists.ingest_row topTables.lib freshStore.db none ownName (Playlists.newDoc "a" []) docA (base64 recordTop)
        topSeq 1780000000 }) := by
  have hfate : Playlists.fate topTables.lib 1780000000 freshStore.db topWire =
      .stored (Playlists.newDoc "a" []) docA topSeq :=
    Playlists.fate_of_valid ((verify_b64_seq_base64 ..).trans checks_topTables.1) (by decide) (Playlists.unbase64_trim docA)
      checks_topTables.2.1 checks_topTables.2.2
  rw [Playlists.run_ingest_wire, show ((fun _ => quiet) 0 : Playlists.Input).now = 1780000000 from rfl, hfate]
  rfl

/-- The record is stored on both clients, and what is stored does not mean its sequence. -/
theorem sequences_lost :
    (∃ r,
      ((ingest_wire topTables.lib topWire).run (Playlists.world topTables.lib) (fun _ => quiet) freshStore).1 = .ok true ∧
      ((ingest_wire topTables.lib topWire).run (Playlists.world topTables.lib)
        (fun _ => quiet) freshStore).2.db.row ownName =
        some r ∧ ¬Playlists.Means
          ((ingest_wire topTables.lib topWire).run (Playlists.world topTables.lib) (fun _ => quiet) freshStore).2.db ownName
          r topSeq 0) ∧
    ∃ r, ((WebPlaylists.ingestVerified (webTables topTables) ownName recordTop docA topSeq).run WebPlaylists.world
      (fun _ => {}) webStore).2.db.row ownName = some r ∧ ¬WebPlaylists.Means r topSeq := by
  have htop : topSeq.toNat = 2 ^ 63 := rfl
  constructor
  · obtain ⟨r, hr⟩ : ∃ r, (Playlists.ingest_row topTables.lib freshStore.db none ownName (Playlists.newDoc "a" []) docA
        (base64 recordTop) topSeq 1780000000).row ownName = some r := by
      rw [Playlists.ingest_row_live rfl, Playlists.row_upsert_row, if_pos rfl]
      exact ⟨_, rfl⟩
    rw [run_top]
    refine ⟨r, rfl, hr, fun h => ?_⟩
    have hlt := ((Playlists.means_iff rfl hr).1 h).1
    rw [htop] at hlt
    exact lt_irrefl _ hlt
  · refine ⟨_, row_web topTables recordTop topSeq, ?_⟩
    rw [WebPlaylists.means_iff rfl, htop]
    omega

end

end TrackerStream
