import TrackerStream.Playlists

/-!
# The acts of the programs

Most of what the programs do between two writes is reading, which leaves the store as it is.
-/

namespace TrackerStream.Playlists

/-- The acts that leave the store as it is. -/
def Reads : Act → Prop
  | .now_secs | .select _ | .known .. | .liked_name | .pinned_name | .seen_rows | .library | .manifest | .manifest_hash
  | .key_gen _ | .routing_get _ | .playlist_records _ | .swarm_peers | .playlist_peer_list .. => True
  | _ => False

variable {lib : Lib} {name : String}

theorem world_of_reads {e : Act} (h : Reads e) (i : Input) (s : Store) : (world lib e i s).2 = s := by
  cases e <;> first | rfl | cases h

theorem reads_net_seq : (net_seq lib name).Only Reads := by
  refine .bind ⟨trivial, fun _ => trivial⟩ fun x => ?_
  cases x with
  | error e => trivial
  | ok record =>
    refine .bind ⟨trivial, fun _ => trivial⟩ fun now => ?_
    split <;> trivial

theorem reads_next_seq {n : Int} : (next_seq lib name n).Only Reads := by
  rw [next_seq]
  split
  · trivial
  · exact reads_net_seq.bind fun _ => trivial

theorem reads_get : (get lib name).Only Reads := by
  refine .bind ⟨trivial, fun _ => trivial⟩ fun x => ?_
  cases x with
  | none => trivial
  | some row => exact .bind ⟨trivial, fun _ => trivial⟩ fun now => (Prog.Only.ofExcept _).bind fun _ => trivial

theorem reads_newBytes {title : String} {tracks : List TrackRef} : (newBytes lib title tracks).Only Reads :=
  (Prog.Only.ofExcept _).bind fun _ => trivial

theorem reads_ask_peers {peers : List String} {asked : Nat} : (ask_peers lib name peers asked).Only Reads := by
  induction peers generalizing asked with
  | nil => trivial
  | cons p peers ih =>
    rw [ask_peers]
    split
    · exact ih
    · refine .bind ⟨trivial, fun _ => trivial⟩ fun x => ?_
      cases x with
      | error e => exact ih
      | ok x =>
        dsimp only
        split
        · trivial
        · exact ih

theorem reads_request_from_peers : (request_from_peers lib name).Only Reads := by
  refine .bind ⟨trivial, fun _ => trivial⟩ fun x => ?_
  cases x with
  | error e => trivial
  | ok peers => exact reads_ask_peers

theorem reads_copy_link : (copy_link lib name).Only Reads := by
  refine .bind ⟨trivial, fun _ => trivial⟩ fun x => ?_
  cases x with
  | none => trivial
  | some row =>
    dsimp only
    split
    · trivial
    split
    · trivial
    · refine .bind ⟨trivial, fun _ => trivial⟩ fun now => ?_
      split
      · trivial
      · exact .ofExcept _

/-! ### Programs that write little -/

variable {P : Act → Prop}

theorem only_playlist_publish {key : String} {seq : UInt64} {doc : Bytes} (h : P (.playlist_publish key seq doc)) :
    (playlist_publish key seq doc).Only P :=
  .bind ⟨h, fun _ => trivial⟩ fun r => .ofExcept r

variable (hP : ∀ e, Reads e → P e)
include hP

theorem only_publish_tombstone {key : String} {n : Int}
    (h : ∀ seq, P (.playlist_publish key seq (utf8 (lib.toJson tombDoc)))) :
    (publish_tombstone lib name key n).Only P :=
  (reads_next_seq.mono hP).bind fun seq => (only_playlist_publish (h seq)).bind fun _ => trivial

theorem only_decay_expired (h : ∀ n, P (.delete_row n)) : (decay_expired lib).Only P := by
  refine .bind ⟨hP _ trivial, fun _ => trivial⟩ fun pinned => .bind ⟨hP _ trivial, fun _ => trivial⟩ fun seen => ?_
  refine .foldlM fun removed x => ?_
  split
  · trivial
  · refine .bind ⟨hP _ trivial, fun _ => trivial⟩ fun now => ?_
    split
    · trivial
    · exact .bind ⟨h _, fun _ => trivial⟩ fun _ => trivial

theorem only_enforce_budget (h : ∀ pinned, P (.evict pinned)) : enforce_budget.Only P :=
  ⟨hP _ trivial, fun pinned => ⟨h pinned, fun _ => trivial⟩⟩

theorem only_push_manifest (h : ∀ entries, P (.playlist_manifest entries)) (h' : ∀ hash, P (.set_manifest_hash hash)) :
    (push_manifest lib).Only P := by
  refine .bind ⟨hP _ trivial, fun _ => trivial⟩ fun entries => .bind ⟨hP _ trivial, fun _ => trivial⟩ fun posted => ?_
  split
  · trivial
  · refine .bind ⟨h _, fun _ => trivial⟩ fun sent => ?_
    cases sent with
    | ok _ => exact ⟨h' _, fun _ => trivial⟩
    | error e => trivial

theorem only_delete (h : ∀ key seq, P (.playlist_publish key seq (utf8 (lib.toJson tombDoc))))
    (h' : P (.delete_row name)) : (delete lib name).Only P := by
  refine .bind ⟨hP _ trivial, fun _ => trivial⟩ fun x => ?_
  cases x with
  | none => trivial
  | some row =>
    dsimp only
    split
    · trivial
    cases row.key_name with
    | none => exact ⟨h', fun _ => trivial⟩
    | some key =>
      dsimp only
      split
      · exact (only_publish_tombstone hP (h key)).attempt.bind fun _ => ⟨h', fun _ => trivial⟩
      · exact ⟨h', fun _ => trivial⟩

theorem only_unpublish (h : ∀ key seq, P (.playlist_publish key seq (utf8 (lib.toJson tombDoc))))
    (h' : ∀ seq, P (.make_private name seq)) : (unpublish lib name).Only P := by
  refine .bind ⟨hP _ trivial, fun _ => trivial⟩ fun x => ?_
  split
  · trivial
  split
  · split
    · refine (only_publish_tombstone hP (h _)).attempt.bind fun x => ?_
      cases x <;> exact ⟨h' _, fun _ => trivial⟩
    · exact ⟨h' _, fun _ => trivial⟩
  · exact ⟨h' _, fun _ => trivial⟩

end TrackerStream.Playlists
