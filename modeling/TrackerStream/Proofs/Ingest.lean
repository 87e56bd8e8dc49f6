import TrackerStream.Proofs.Acts

/-!
# Ingest in one step

What `ingest_wire` makes of an entry when nothing comes between its acts, and what the entries it refuses leave
behind.
-/

namespace TrackerStream.Playlists
variable (lib : Lib)

/-- What becomes of an entry: it fails with nothing written, it is not newer, it is refused with its sequence
number, or it is stored. -/
inductive Fate
  | failed (error : String)
  | old
  | refused (error : String) (seq : UInt64)
  | stored (doc : PlaylistDoc) (doc_bytes : Bytes) (seq : UInt64)

def fate (now : Int) (db : Db) (w : PlaylistWire) : Fate :=
  match verify_b64_seq lib.toIpnsLib now w.name w.record with
  | .error e => .failed e
  | .ok (cid, seq) =>
    if known db w.name seq then .old
    else
      match unbase64 (trim w.doc) with
      | none => .failed "doc not base64"
      | some doc_bytes =>
        if !doc_matches_cid lib.toIpnsLib cid doc_bytes then
          .refused s!"doc does not hash to record cid for {w.name}" seq
        else
          match validate_doc lib doc_bytes with
          | .error e => .refused e seq
          | .ok doc => .stored doc doc_bytes seq

def Fate.answer : Fate → Except String Bool
  | failed e => .error e
  | old => .ok false
  | refused e _ => .error e
  | stored .. => .ok true

def Fate.settle (now : Int) (s : Store) (w : PlaylistWire) : Fate → Store
  | refused _ seq => { s with db := s.db.reject w.name (as_i64 seq) }
  | stored doc doc_bytes seq =>
    { s with db := ingest_row lib s.db s.pinned w.name doc doc_bytes w.record seq now }
  | _ => s

variable {lib} {s : Store} {w : PlaylistWire} {ω : Nat → Input}

theorem run_ingest_wire : (ingest_wire lib w).run (world lib) ω s =
    ((fate lib (ω 0).now s.db w).answer, (fate lib (ω 0).now s.db w).settle lib (ω 2).now s w) := by
  simp only [ingest_wire, remember_rejected, now_secs, act, Prog.call, Prog.act_bind, Prog.ret_bind, Prog.run_act, world,
    fate]
  cases verify_b64_seq lib.toIpnsLib (ω 0).now w.name w.record with
  | error e => rfl
  | ok x =>
    obtain ⟨cid, seq⟩ := x
    simp only [Prog.ofExcept, Prog.ret_bind, Prog.run_act, world]
    by_cases hk : known s.db w.name seq = true
    · simp only [hk, ↓reduceIte]
      rfl
    simp only [hk, ↓reduceIte, Bool.false_eq_true]
    cases unbase64 (trim w.doc) with
    | none => rfl
    | some doc_bytes =>
      by_cases hm : doc_matches_cid lib.toIpnsLib cid doc_bytes = true
      · cases hv : validate_doc lib doc_bytes with
        | error e => simp [hm, hv, Fate.answer, Fate.settle, world]
        | ok doc => simp [hm, hv, Fate.answer, Fate.settle, world]
      · simp [hm, Fate.answer, Fate.settle, world]

theorem run_op_ingest :
    ((Op.prog lib (.ingest_wire w)).run (world lib) ω s).2 = ((ingest_wire lib w).run (world lib) ω s).2 :=
  Prog.run_bind_frame (P := Reads) (g := id) (fun _ => Prog.Only.pure ()) fun _ i s he => world_of_reads he i s

theorem lt_of_not_known {db : Db} {name : String} {seq : UInt64} {r : Row} (h : known db name seq = false)
    (hr : db.row name = some r) : as_u64 r.seq < seq := by
  simp only [known, hr, Option.any_some, Bool.or_eq_false_iff, decide_eq_false_iff_not] at h
  exact UInt64.not_le.1 h.1

/-- An entry that is stored passed every check. -/
theorem fate_stored {now : Int} {db : Db} {doc : PlaylistDoc} {b : Bytes} {seq : UInt64}
    (h : fate lib now db w = .stored doc b seq) : ∃ cid,
      verify_b64_seq lib.toIpnsLib now w.name w.record = .ok (cid, seq) ∧ known db w.name seq = false ∧
        unbase64 (trim w.doc) = some b ∧ doc_matches_cid lib.toIpnsLib cid b = true ∧ validate_doc lib b = .ok doc := by
  simp only [fate] at h
  split at h
  · cases h
  next cid seq' hv =>
    split at h
    · cases h
    next hk =>
      split at h
      · cases h
      next b' hb =>
        split at h
        · cases h
        next hm =>
          split at h
          · cases h
          next doc' hdoc =>
            cases h
            exact ⟨cid, hv, by simpa using hk, hb, by simpa using hm, hdoc⟩

/-- And an entry that passes them is. -/
theorem fate_of_valid {now : Int} {db : Db} {doc : PlaylistDoc} {cid : ContentId} {b : Bytes} {seq : UInt64}
    (hv : verify_b64_seq lib.toIpnsLib now w.name w.record = .ok (cid, seq)) (hk : known db w.name seq = false)
    (hb : unbase64 (trim w.doc) = some b) (hm : doc_matches_cid lib.toIpnsLib cid b = true)
    (hdoc : validate_doc lib b = .ok doc) : fate lib now db w = .stored doc b seq := by
  simp only [fate, hv, hk, hb, hm, hdoc, Bool.not_true, Bool.false_eq_true, ↓reduceIte]

theorem fate_of_mismatch {now : Int} {db : Db} {cid : ContentId} {b : Bytes} {seq : UInt64}
    (hv : verify_b64_seq lib.toIpnsLib now w.name w.record = .ok (cid, seq)) (hk : known db w.name seq = false)
    (hb : unbase64 (trim w.doc) = some b) (hm : doc_matches_cid lib.toIpnsLib cid b = false) :
    fate lib now db w = .refused s!"doc does not hash to record cid for {w.name}" seq := by
  simp only [fate, hv, hk, hb, hm, Bool.not_false, Bool.false_eq_true, ↓reduceIte]

/-- An entry is refused once its record has verified and its document has been read. -/
theorem fate_refused {now : Int} {db : Db} {e : String} {seq : UInt64} (h : fate lib now db w = .refused e seq) :
    ∃ cid b, verify_b64_seq lib.toIpnsLib now w.name w.record = .ok (cid, seq) ∧ unbase64 (trim w.doc) = some b := by
  simp only [fate] at h
  split at h
  · cases h
  next cid seq' hv =>
    split at h
    · cases h
    split at h
    · cases h
    next b hb =>
      refine ⟨cid, b, ?_, hb⟩
      split at h
      · cases h; exact hv
      split at h
      · cases h; exact hv
      · cases h

/-- An entry with such a record and such a document, whose sequence number is neither stored nor refused yet, is
either stored or refused with it. -/
theorem fate_of_verified {now : Int} {db : Db} {cid : ContentId} {seq : UInt64} {b : Bytes}
    (hv : verify_b64_seq lib.toIpnsLib now w.name w.record = .ok (cid, seq)) (hk : known db w.name seq = false)
    (hb : unbase64 (trim w.doc) = some b) :
    (∃ doc, fate lib now db w = .stored doc b seq) ∨ ∃ e, fate lib now db w = .refused e seq := by
  simp only [fate, hv, hk, hb, Bool.false_eq_true, ↓reduceIte]
  split
  · exact .inr ⟨_, rfl⟩
  split
  · exact .inr ⟨_, rfl⟩
  · exact .inl ⟨_, rfl⟩

/-- An entry at most as new as the copy that is stored is not stored. -/
theorem fate_old {now : Int} {db : Db} {cid : ContentId} {seq : UInt64}
    (hv : verify_b64_seq lib.toIpnsLib now w.name w.record = .ok (cid, seq)) (hk : known db w.name seq = true) :
    fate lib now db w = .old := by
  simp only [fate, hv, hk, ↓reduceIte]

/-- What an entry does depends on the rows, on what was refused, and on what is playing. -/
theorem fate_congr {now : Int} {db db' : Db} (h : ∀ n, db.row n = db'.row n)
    (hrej : ∀ cid seq, verify_b64_seq lib.toIpnsLib now w.name w.record = .ok (cid, seq) →
      ((w.name, as_i64 seq) ∈ db.rejected ↔ (w.name, as_i64 seq) ∈ db'.rejected)) :
    fate lib now db w = fate lib now db' w := by
  simp only [fate]
  split
  · rfl
  next cid seq hv =>
    have : known db w.name seq = known db' w.name seq := by
      simp only [known, h, hrej cid seq hv]
    rw [this]

/-! ### Deliveries -/

/-- An entry the node has drained, or a link. -/
inductive Delivery
  | entry (w : PlaylistWire)
  | link (url : String)

def Delivery.op : Delivery → Op
  | entry w => .ingest_wire w
  | link url => .ingest_link url

/-- The entry that reaches `ingest_wire`. -/
def Delivery.wire : Delivery → Option PlaylistWire
  | entry w => some w
  | link url =>
    match parse_link url with
    | .ok (name, some env) =>
      match decode_envelope env with
      | .ok (env_name, record, doc) => if env_name != name then none else some ⟨name, 0, base64 record, base64 doc⟩
      | .error _ => none
    | _ => none

theorem pinned_settle {f : Fate} {now : Int} : (f.settle lib now s w).pinned = s.pinned := by cases f <;> rfl

/-- A delivery leaves the database as its entry does, and does not change what is playing. -/
theorem run_delivery (lib : Lib) (s : Store) (ω : Nat → Input) (d : Delivery) : (((Op.prog lib d.op).run (world lib) ω s).2.db,
      ((Op.prog lib d.op).run (world lib) ω s).2.pinned) =
    (match d.wire with
      | some w => ((fate lib (ω 0).now s.db w).settle lib (ω 2).now s w).db
      | none => s.db, s.pinned) := by
  have hreads (e : Act) (i : Input) (s : Store) (he : Reads e) :
      ((world lib e i s).2.db, (world lib e i s).2.pinned) = (s.db, s.pinned) := by rw [world_of_reads he]
  have hwire (w : PlaylistWire) : (((ingest_wire lib w).run (world lib) ω s).2.db,
      ((ingest_wire lib w).run (world lib) ω s).2.pinned) =
        (((fate lib (ω 0).now s.db w).settle lib (ω 2).now s w).db, s.pinned) := by
    rw [run_ingest_wire, pinned_settle]
  cases d with
  | entry w =>
    have := Prog.run_bind_frame (W := world lib) (g := fun s => (s.db, s.pinned)) (p := ingest_wire lib w) (s := s) (ω := ω)
      (f := fun _ => (pure () : Desktop Unit)) (fun _ => Prog.Only.pure ()) hreads
    exact this.trans (hwire w)
  | link url =>
    refine (Prog.run_bind_frame (W := world lib) (g := fun s => (s.db, s.pinned)) (p := ingest_link lib url) (s := s)
      (ω := ω) (f := fun _ => (pure () : Desktop Unit)) (fun _ => Prog.Only.pure ()) hreads).trans ?_
    simp only [ingest_link, Delivery.wire]
    cases parse_link url with
    | error e => rfl
    | ok x =>
      obtain ⟨name, envelope⟩ := x
      simp only [Prog.ofExcept, Prog.ret_bind]
      cases envelope with
      | none =>
        have hpend (e : Act) (i : Input) (s : Store) (he : Reads e ∨ e = .add_pending name) :
            ((world lib e i s).2.db, (world lib e i s).2.pinned) = (s.db, s.pinned) := by
          rcases he with he | rfl
          · exact hreads e i s he
          · rfl
        refine Prog.Only.run_frame (g := fun s : Store => (s.db, s.pinned))
          (P := fun e => Reads e ∨ e = .add_pending name) ?_ hpend
        refine .bind ⟨.inl trivial, fun _ => trivial⟩ fun row => ?_
        cases row with
        | some r => trivial
        | none =>
          refine .bind ⟨.inr rfl, fun _ => trivial⟩ fun _ => .bind ?_ fun _ => trivial
          exact reads_request_from_peers.mono fun _ => .inl
      | some env =>
        dsimp only
        cases decode_envelope env with
        | error e => rfl
        | ok x =>
          obtain ⟨env_name, record, doc⟩ := x
          simp only [Prog.ret_bind]
          split
          · rfl
          · refine (Prog.run_bind_frame (P := Reads) (g := fun s : Store => (s.db, s.pinned)) (fun _ => ?_) hreads).trans (hwire _)
            refine .bind ⟨trivial, fun _ => trivial⟩ fun row => ?_
            cases row <;> trivial

end TrackerStream.Playlists
