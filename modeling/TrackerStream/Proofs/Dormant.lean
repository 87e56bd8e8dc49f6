import TrackerStream.Proofs.Forged

/-!
# Tombstones that stay

A tombstone keeps the rows of the library, with its sequence number, and deletes the seen ones with theirs. While
the row is there no older document comes back (`older_not_revived`); once it is gone, nothing is known of the
deletion any more.
-/

namespace TrackerStream.Playlists

/-- What a client does with the playlists of others. -/
def Receives : Op → Prop
  | .ingest_wire _ | .set_held .. | .pin_playing _ | .enforce_budget | .decay_expired => True
  | _ => False

/-- The row of `name`, if there is one, is at least as new as `seq`. -/
def AtLeast (name : String) (seq : UInt64) (s : Store) : Prop := ∀ r, s.db.row name = some r → seq ≤ as_u64 r.seq

variable {lib : Lib} {s : Store} {name : String} {seq : UInt64}

/-- The acts that leave sequence numbers alone. -/
def KeepsSeq : Act → Prop
  | .evict _ | .delete_row _ | .set_held .. | .pin_playing _ => True
  | e => Reads e

theorem keepsSeq_of_reads (e : Act) (h : Reads e) : KeepsSeq e := by cases e <;> trivial

theorem AtLeast.act {e : Act} (he : KeepsSeq e) (i : Input) (h : AtLeast name seq s) :
    AtLeast name seq (world lib e i s).2 := by
  cases e with
  | evict pinned =>
    intro r hr
    rcases @row_evict s.budget pinned (s.db.rows.length + 1) s.db false name with heq | heq
    · exact h r (heq ▸ hr)
    · cases heq.1.symm.trans hr
  | delete_row n =>
    intro r hr
    rw [world, Db.row_delete] at hr
    split at hr
    · cases hr
    · exact h r hr
  | set_held n held =>
    intro r hr
    rw [world, Db.row_update] at hr
    split at hr
    next heq =>
      subst heq
      obtain ⟨r', hr', rfl⟩ := Option.map_eq_some_iff.1 hr
      have := h r' hr'
      split <;> exact this
    next => exact h r hr
  | _ => first | exact h | cases he

theorem AtLeast.ingest {w : PlaylistWire} {ω : Nat → Input} (hrow : s.db.row name ≠ none) (h : AtLeast name seq s) :
    AtLeast name seq ((ingest_wire lib w).run (world lib) ω s).2 := by
  rw [run_ingest_wire]
  cases hf : fate lib (ω 0).now s.db w with
  | failed e => exact h
  | old => exact h
  | refused e q => exact fun r hr => h r (Db.row_reject ▸ hr)
  | stored doc b q =>
    obtain ⟨r, hr⟩ := Option.ne_none_iff_exists'.1 hrow
    obtain ⟨-, -, hk, -⟩ := fate_stored hf
    have hnew (heq : name = w.name) : seq ≤ q :=
      UInt64.le_trans (h r hr) (UInt64.le_of_lt (lt_of_not_known hk (heq ▸ hr)))
    intro r' hr'
    rw [Fate.settle] at hr'
    cases hdel : doc.del with
    | true =>
      rw [row_ingest_tombstone hdel] at hr'
      split at hr'
      next heq =>
        split at hr'
        · obtain ⟨_, -, rfl⟩ := Option.map_eq_some_iff.1 hr'
          rw [as_u64_as_i64]
          exact hnew heq
        · cases hr'
      next => exact h r' hr'
    | false =>
      rw [ingest_row_live hdel, row_upsert_row] at hr'
      split at hr'
      next heq =>
        rw [← heq, hr, Option.some.injEq] at hr'
        rw [← hr', upserted]
        split
        · exact h r hr
        · rw [as_u64_as_i64]
          exact hnew heq
      next => exact h r' hr'

theorem AtLeast.op {o : Op} {ω : Nat → Input} (ho : Receives o) (hrow : s.db.row name ≠ none)
    (h : AtLeast name seq s) : AtLeast name seq ((Op.prog lib o).run (world lib) ω s).2 := by
  have honly (hp : (Op.prog lib o).Only KeepsSeq) : AtLeast name seq ((Op.prog lib o).run (world lib) ω s).2 :=
    Prog.run_invariant (Prog.fits_true _ ω s) (hp.wp (fun e i s he _ hs => AtLeast.act he i hs) h)
  cases o with
  | ingest_wire w =>
    rw [run_op_ingest]
    exact h.ingest hrow
  | set_held | pin_playing => exact honly ⟨trivial, fun _ => trivial⟩
  | enforce_budget => exact honly ((only_enforce_budget keepsSeq_of_reads fun _ => trivial).bind fun _ => trivial)
  | decay_expired => exact honly ((only_decay_expired keepsSeq_of_reads fun _ => trivial).bind fun _ => trivial)
  | _ => cases ho

theorem AtLeast.runs {ops : List (Op × (Nat → Input))}
    (hops : Prog.Along (Op.prog lib) (world lib) (fun s o _ => Receives o ∧ s.db.row name ≠ none) s ops)
    (h : AtLeast name seq s) : AtLeast name seq (Prog.runs (Op.prog lib) (world lib) s ops) :=
  Prog.runs_invariant _ (fun _ _ _ h hl => h.op hl.1 hl.2) h hops

def docTomb : Bytes := utf8 "\x7b\"v\":2,\"del\":true\x7d"

/-- The record of the tombstone, sequence number 2. -/
def recordTomb : Bytes :=
  [10, 65, 47, 105, 112, 102, 115, 47, 98, 97, 102, 107, 114, 101, 105, 99, 97, 104, 110, 114, 50, 105, 119, 52, 108,
  54, 52, 120, 100, 53, 104, 53, 113, 98, 103, 116, 111, 121, 50, 112, 106, 54, 52, 104, 112, 119, 54, 106, 51, 102,
  107, 119, 50, 119, 100, 110, 53, 110, 105, 54, 116, 103, 54, 118, 117, 53, 113, 18, 64, 205, 92, 112, 84, 25, 41,
  141, 44, 134, 75, 62, 5, 77, 132, 148, 32, 149, 179, 108, 71, 100, 74, 176, 144, 164, 120, 87, 3, 168, 25, 235,
  252, 85, 43, 70, 113, 9, 193, 204, 214, 35, 199, 55, 40, 91, 100, 10, 158, 130, 3, 35, 95, 140, 79, 159, 32, 61,
  232, 168, 239, 108, 240, 125, 3, 24, 0, 34, 20, 50, 48, 50, 54, 45, 48, 54, 45, 48, 52, 84, 50, 48, 58, 50, 54,
  58, 52, 48, 90, 40, 2, 48, 128, 192, 226, 133, 227, 104, 66, 64, 179, 244, 25, 139, 133, 169, 176, 11, 246, 130,
  217, 7, 85, 60, 173, 103, 232, 234, 147, 9, 233, 243, 151, 120, 13, 173, 67, 83, 204, 104, 198, 220, 174, 128,
  213, 61, 4, 241, 207, 14, 202, 241, 177, 93, 120, 58, 45, 104, 9, 98, 41, 234, 105, 1, 227, 215, 252, 151, 25,
  180, 1, 157, 230, 0, 74, 141, 1, 165, 99, 84, 84, 76, 27, 0, 0, 3, 70, 48, 184, 160, 0, 101, 86, 97, 108, 117,
  101, 88, 65, 47, 105, 112, 102, 115, 47, 98, 97, 102, 107, 114, 101, 105, 99, 97, 104, 110, 114, 50, 105, 119, 52,
  108, 54, 52, 120, 100, 53, 104, 53, 113, 98, 103, 116, 111, 121, 50, 112, 106, 54, 52, 104, 112, 119, 54, 106, 51,
  102, 107, 119, 50, 119, 100, 110, 53, 110, 105, 54, 116, 103, 54, 118, 117, 53, 113, 104, 83, 101, 113, 117, 101,
  110, 99, 101, 2, 104, 86, 97, 108, 105, 100, 105, 116, 121, 84, 50, 48, 50, 54, 45, 48, 54, 45, 48, 52, 84, 50,
  48, 58, 50, 54, 58, 52, 48, 90, 108, 86, 97, 108, 105, 100, 105, 116, 121, 84, 121, 112, 101, 0]

def deleted : Tables :=
  { sample with
    records := (ownName, recordTomb, ⟨"/ipfs/bafkreicahnr2iw4l64xd5h5qbgtoy2pj64hpw6j3fkw2wdn5ni6tg6vu5q", 2,
      some 1780604800⟩) :: sample.records }

def tombstone : PlaylistWire := ⟨ownName, 2, base64 recordTomb, base64 docTomb⟩

/-- What the checks make of the tombstone and of the live document. -/
theorem checks_deleted :
    verify_record_seq deleted.lib.toIpnsLib 1780000000 ownName recordTomb = .ok (⟨0x55, 0x12, digestTomb⟩, 2) ∧
      verify_record_seq deleted.lib.toIpnsLib 1780000000 ownName recordA = .ok (⟨0x55, 0x12, digestA⟩, 1) ∧
        doc_matches_cid deleted.lib.toIpnsLib ⟨0x55, 0x12, digestTomb⟩ docTomb = true ∧
          doc_matches_cid deleted.lib.toIpnsLib ⟨0x55, 0x12, digestA⟩ docA = true ∧
            validate_doc deleted.lib docA = .ok (newDoc "a" []) ∧ validate_doc deleted.lib docTomb = .ok tombDoc := by
  decide +kernel

theorem verify_tombstone : verify_b64_seq deleted.lib.toIpnsLib 1780000000 ownName (base64 recordTomb) =
    .ok (⟨0x55, 0x12, digestTomb⟩, 2) :=
  (verify_b64_seq_base64 ..).trans checks_deleted.1

theorem verify_live : verify_b64_seq deleted.lib.toIpnsLib 1780000000 ownName (base64 recordA) =
    .ok (⟨0x55, 0x12, digestA⟩, 1) :=
  (verify_b64_seq_base64 ..).trans checks_deleted.2.1

theorem valid_docTomb : validate_doc deleted.lib docTomb = .ok tombDoc := checks_deleted.2.2.2.2.2

/-- The playlist is held when its author deletes it, then no more; it stays, and stays deleted. -/
def heldStore : Store :=
  { freshStore with db := .put .empty ownName { doc_json := "\x7b\"v\":2,\"t\":\"a\"\x7d", seq := 1, held := true } }

end TrackerStream.Playlists
