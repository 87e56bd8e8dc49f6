import TrackerStream.WebPlaylists

/-!
# The acts of the browser's programs
-/

namespace TrackerStream.WebPlaylists

variable {P : Act → Prop}

theorem only_index {name : String} {doc : PlaylistDoc} (hu : P (.unindex name)) (hi : ∀ e, P (.index e)) :
    (index name doc).Only P :=
  .bind ⟨hu, fun _ => trivial⟩ fun _ => ⟨hi _, fun _ => trivial⟩

theorem only_removeRow {name : String} (hd : ∀ n, P (.deleteRow n)) (hu : ∀ n, P (.unindex n)) :
    (removeRow name).Only P :=
  .bind ⟨hd name, fun _ => trivial⟩ fun _ => ⟨hu name, fun _ => trivial⟩

theorem only_evictRows {budget total : Int} {rows : List (String × Int)} (hd : ∀ n, P (.deleteRow n))
    (hu : ∀ n, P (.unindex n)) : (evictRows budget rows total).Only P := by
  induction rows generalizing total with
  | nil => trivial
  | cons r rows ih =>
    rw [evictRows]
    split
    · trivial
    · exact (only_removeRow hd hu).bind fun _ => ih

theorem only_enforceBudget {budget : Int} (hs : P .seenSizes) (hd : ∀ n, P (.deleteRow n)) (hu : ∀ n, P (.unindex n)) :
    (enforceBudget budget).Only P :=
  .bind ⟨hs, fun _ => trivial⟩ fun _ => only_evictRows hd hu

theorem only_copyLink {name : String} (hg : P (.get name)) : (copyLink name).Only P := by
  refine .bind ⟨hg, fun _ => trivial⟩ fun x => ?_
  cases x with
  | none => trivial
  | some row =>
    dsimp only
    split
    · trivial
    · exact .ofExcept _

end TrackerStream.WebPlaylists
