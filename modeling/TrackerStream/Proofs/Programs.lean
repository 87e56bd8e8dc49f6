import TrackerStream.Proofs.Acts

/-!
# What the operations write

Three acts write a document: one for a row that is created, one for an edit, one for a delivery. A property of acts
that holds of these three, as the programs perform them, and of the acts that write none, holds of every act of every
operation.
-/

namespace TrackerStream.Playlists
open Prog

/-- The acts that write no document. -/
def NoDoc : Act → Prop
  | .ingest_row .. | .create_row .. | .edit_row .. => False
  | _ => True

variable {lib : Lib} {P : Act → Prop} {n title url : String} {tracks : List TrackRef} {cursor : Nat}

theorem noDoc_of_reads {e : Act} (h : Reads e) : NoDoc e := by cases e <;> trivial

/-- An author's document is of the title and the tracks. -/
theorem only_newBytes {α : Type} {f : Bytes → Desktop α} (h : (f (utf8 (lib.toJson (newDoc title tracks)))).Only P) :
    (newBytes lib title tracks >>= f).Only P := by
  cases hv : validate_doc lib (utf8 (lib.toJson (newDoc title tracks))) with
  | error e =>
    rw [newBytes, hv]
    trivial
  | ok doc =>
    rw [newBytes, hv]
    exact h

section
variable (hP : ∀ e, NoDoc e → P e)
include hP

theorem only_of_reads {α : Type} {p : Desktop α} (hp : p.Only Reads) : p.Only P :=
  hp.mono fun e he => hP e (noDoc_of_reads he)

theorem only_publish : (publish lib n).Only P := by
  refine .bind ⟨hP _ trivial, fun _ => trivial⟩ fun x => ?_
  split
  · trivial
  split
  · trivial
  split
  · trivial
  · refine (only_of_reads hP reads_next_seq).bind fun seq => (only_playlist_publish (hP _ trivial)).bind fun x => ?_
    dsimp only
    split
    · trivial
    · exact ⟨hP _ trivial, fun _ => trivial⟩

theorem only_announce_row {entries : List PlaylistWire} {row : LibraryRow} : (announce_row lib entries row).Only P := by
  refine .bind ⟨hP _ trivial, fun _ => trivial⟩ fun now => .bind ⟨hP _ trivial, fun _ => trivial⟩ fun now' => ?_
  split
  · exact (only_publish hP).attempt.bind fun _ => trivial
  split <;> trivial

theorem only_announce_once : (announce_once lib).Only P := by
  refine (only_decay_expired (fun e he => hP e (noDoc_of_reads he)) fun _ => hP _ trivial).bind fun decayed =>
    .bind ⟨hP _ trivial, fun _ => trivial⟩ fun rows => (Only.foldlM fun _ _ => only_announce_row hP).bind fun entries => ?_
  split
  · trivial
  · exact .bind ⟨hP _ trivial, fun _ => trivial⟩ fun _ => trivial

end

section
variable (hP : ∀ e, NoDoc e → P e)
  (hcreate : ∀ n key title tracks, P (.create_row n key (newDoc title tracks) (utf8 (lib.toJson (newDoc title tracks)))))
include hP hcreate

theorem only_create : (create lib title tracks).Only P := by
  refine .bind ⟨hP _ trivial, fun _ => trivial⟩ fun now => .bind ⟨hP _ trivial, fun _ => trivial⟩ fun r =>
    (Prog.Only.ofExcept _).bind fun name => ?_
  refine only_newBytes (.bind ⟨hcreate name _ title tracks, fun _ => trivial⟩ fun _ => ?_)
  refine (only_of_reads hP reads_get).bind fun x => ?_
  split <;> trivial

theorem only_ensure_liked : (ensure_liked lib).Only P := by
  have h : (liked_or_create lib).Only P := by
    refine .bind ⟨hP _ trivial, fun _ => trivial⟩ fun x => ?_
    cases x with
    | some name => trivial
    | none => exact (only_create hP hcreate).bind fun _ => .bind ⟨hP _ trivial, fun _ => trivial⟩ fun _ => trivial
  refine .bind ⟨hP _ trivial, fun _ => trivial⟩ fun _ => h.attempt.bind fun r => ?_
  exact .bind ⟨hP _ trivial, fun _ => trivial⟩ fun _ => .ofExcept r

end

section
variable (hP : ∀ e, NoDoc e → P e)
  (hedit : ∀ n title tracks, P (.edit_row n (newDoc title tracks) (utf8 (lib.toJson (newDoc title tracks)))))
include hP hedit

theorem only_update : (update lib n title tracks).Only P := by
  refine .bind ⟨hP _ trivial, fun _ => trivial⟩ fun x => ?_
  split
  · trivial
  · refine only_newBytes (.bind ⟨hedit n title tracks, fun _ => trivial⟩ fun _ => ?_)
    split
    · exact only_publish hP
    · trivial

theorem only_like_toggle {track : TrackRef}
    (hcreate : ∀ n key title tracks, P (.create_row n key (newDoc title tracks) (utf8 (lib.toJson (newDoc title tracks))))) :
    (like_toggle lib track).Only P := by
  refine (only_ensure_liked hP hcreate).bind fun name => .bind ⟨hP _ trivial, fun _ => trivial⟩ fun x => ?_
  cases x with
  | none => trivial
  | some row =>
    refine (Prog.Only.ofExcept _).bind fun doc => ?_
    split <;> exact (only_update hP hedit).bind fun _ => trivial

end

section
variable (hP : ∀ e, NoDoc e → P e)
  (hingest : ∀ n doc b record seq, validate_doc lib b = .ok doc → P (.ingest_row n doc b record seq))
include hP hingest

theorem only_ingest_wire {w : PlaylistWire} : (ingest_wire lib w).Only P := by
  refine .bind ⟨hP _ trivial, fun _ => trivial⟩ fun now => (Prog.Only.ofExcept _).bind fun x =>
    .bind ⟨hP _ trivial, fun _ => trivial⟩ fun known => ?_
  split
  · trivial
  split
  · trivial
  split
  · exact .bind ⟨hP _ trivial, fun _ => trivial⟩ fun _ => trivial
  split
  · exact .bind ⟨hP _ trivial, fun _ => trivial⟩ fun _ => trivial
  next hdoc => exact .bind ⟨hingest _ _ _ _ _ hdoc, fun _ => trivial⟩ fun _ => trivial

theorem only_ingest_link : (ingest_link lib url).Only P := by
  refine (Prog.Only.ofExcept _).bind fun x => ?_
  obtain ⟨name, envelope⟩ := x
  cases envelope with
  | some env =>
    refine (Prog.Only.ofExcept _).bind fun y => ?_
    dsimp only
    split
    · trivial
    · refine (only_ingest_wire hP hingest).bind fun _ => .bind ⟨hP _ trivial, fun _ => trivial⟩ fun x => ?_
      cases x <;> trivial
  | none =>
    refine .bind ⟨hP _ trivial, fun _ => trivial⟩ fun x => ?_
    cases x with
    | some row => trivial
    | none =>
      refine .bind ⟨hP _ trivial, fun _ => trivial⟩ fun _ => ?_
      exact (only_of_reads hP reads_request_from_peers).bind fun _ => trivial

theorem only_sync_once : (sync_once lib cursor).Only P := by
  refine .bind ⟨hP _ trivial, fun _ => trivial⟩ fun r => ?_
  cases r with
  | error e => trivial
  | ok x =>
    refine (Prog.Only.foldlM fun changed w => ?_).bind fun changed => ?_
    · refine (only_ingest_wire hP hingest).attempt.bind fun r => ?_
      split <;> trivial
    · split
      · trivial
      · exact (only_enforce_budget (fun e he => hP e (noDoc_of_reads he)) fun _ => hP _ trivial).bind fun _ => trivial

end

/-- Every act of an operation is one that writes no document, or one of the three writes. -/
theorem only_op (o : Op) (hP : ∀ e, NoDoc e → P e)
    (hcreate : ∀ n key title tracks, P (.create_row n key (newDoc title tracks) (utf8 (lib.toJson (newDoc title tracks)))))
    (hedit : ∀ n title tracks, P (.edit_row n (newDoc title tracks) (utf8 (lib.toJson (newDoc title tracks)))))
    (hingest : ∀ n doc b record seq, validate_doc lib b = .ok doc → P (.ingest_row n doc b record seq)) :
    (Op.prog lib o).Only P := by
  have hreads : ∀ e, Reads e → P e := fun e he => hP e (noDoc_of_reads he)
  cases o with
  | create title tracks => exact (only_create hP hcreate).bind fun _ => trivial
  | update name title tracks => exact only_update hP hedit
  | publish name => exact only_publish hP
  | unpublish name => exact only_unpublish hreads (fun _ _ => hP _ trivial) fun _ => hP _ trivial
  | delete name => exact only_delete hreads (fun _ _ => hP _ trivial) (hP _ trivial)
  | ensure_liked => exact (only_ensure_liked hP hcreate).bind fun _ => trivial
  | like_toggle track => exact (only_like_toggle hP hedit hcreate).bind fun _ => trivial
  | ingest_wire w => exact (only_ingest_wire hP hingest).bind fun _ => trivial
  | ingest_link url => exact (only_ingest_link hP hingest).bind fun _ => trivial
  | copy_link name => exact (only_of_reads hP reads_copy_link).bind fun _ => trivial
  | set_held name held => exact ⟨hP _ trivial, fun _ => trivial⟩
  | mark_played name => exact ⟨hP _ trivial, fun _ => trivial⟩
  | pin_playing name => exact ⟨hP _ trivial, fun _ => trivial⟩
  | enforce_budget => exact (only_enforce_budget hreads fun _ => hP _ trivial).bind fun _ => trivial
  | decay_expired => exact (only_decay_expired hreads fun _ => hP _ trivial).bind fun _ => trivial
  | sync_once cursor => exact (only_sync_once hP hingest).bind fun _ => trivial
  | push_manifest => exact only_push_manifest hreads (fun _ => hP _ trivial) fun _ => hP _ trivial
  | announce_once => exact (only_announce_once hP).bind fun _ => trivial

end TrackerStream.Playlists
