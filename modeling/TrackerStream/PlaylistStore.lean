import TrackerStream.PlaylistDb
import TrackerStream.Pool
import Mathlib

/-!
# The desktop's playlist store

The acts `playlists.rs` is made of: one for each time the database or another lock is held, and one for each
request to the node. `world` says what an act does to the store and what it is answered; the clock and the
node's answers are the environment's `Input`. The log has what the database does not show: what was signed,
announced, disclosed and edited.
-/

namespace TrackerStream.Playlists

def LIKED_TITLE : String := "Liked Tracks"

/-! ### What the node answers -/

/-- How a request to sign a document ends: refused, signed with the answer lost, or answered with the name
signed under and the record. -/
inductive Publish
  | refused (text : String)
  | lost (text : String)
  | answered (name record : String)

/-- What the environment puts in at an act: the time, and the node's answer to the request the act makes. -/
structure Input where
  now : Int := 0
  key_gen : Except String Unit := .ok ()
  routing_get : Except String String := .error ""
  publish : Publish := .refused ""
  records : Except String (Nat × List PlaylistWire) := .error ""
  sent : Except String Unit := .ok ()
  swarm_peers : Except String (List String) := .error ""
  peer_list : Except String (List ManifestEntry × Nat × Bool) := .error ""

/-! ### The store -/

inductive Event
  | signed (key : String) (seq : UInt64) (doc : Bytes)
  | announced (entries : List PlaylistWire)
  | disclosed (entries : List ManifestEntry)
  | edited (name : String) (doc : Bytes)

structure Store where
  db : Db
  budget : Int
  pinned : Option String := none
  manifest_hash : Option UInt64 := none
  pending : List (String × Int) := []
  /-- Whether `liked_guard` is held. -/
  liked_guard : Bool := false
  /-- Latest first. -/
  log : List Event := []

variable (lib : Lib)

/-- The row an upsert leaves; a negative `seq` or `eol` keeps what the row has. -/
def upserted (old : Option Row) (doc : PlaylistDoc) (doc_bytes : Bytes) (record_b64 : Option String)
    (seq eol now : Int) : Row :=
  let doc_json := (from_utf8 doc_bytes).getD ""
  match old with
  | none =>
    { title := doc.t, doc_json, record_b64, seq := max seq 0, size_bytes := doc_bytes.length, last_update_at := now,
      eol := max eol 0 }
  | some r =>
    { r with
      title := doc.t, doc_json, record_b64 := record_b64.or r.record_b64, seq := if seq < 0 then r.seq else seq,
      eol := if eol < 0 then r.eol else eol, tombstoned := false, size_bytes := doc_bytes.length,
      last_update_at := now }

/-- Write the row and its index entry. -/
def upsert_row (db : Db) (name : String) (doc : PlaylistDoc) (doc_bytes : Bytes) (record_b64 : Option String)
    (seq eol now : Int) : Db :=
  ((db.put name (upserted (db.row name) doc doc_bytes record_b64 seq eol now)).unindex name).index
    ⟨name, doc.t, tracksText doc⟩

theorem row_upsert_row {db : Db} {name n : String} {doc : PlaylistDoc} {b : Bytes} {record : Option String}
    {seq eol now : Int} : (upsert_row db name doc b record seq eol now).row n =
      if n = name then some (upserted (db.row name) doc b record seq eol now) else db.row n := by
  rw [upsert_row, Db.row_index, Db.row_unindex, Db.row_put]

@[simp] theorem doc_json_upserted {old : Option Row} {doc : PlaylistDoc} {b : Bytes} {record : Option String}
    {seq eol now : Int} : (upserted old doc b record seq eol now).doc_json = (from_utf8 b).getD "" := by
  cases old <;> rfl

/-- Whether a copy of at least this sequence is stored, or the sequence was refused before. -/
def known (db : Db) (name : String) (seq : UInt64) : Bool :=
  (db.row name).any (fun r => seq ≤ as_u64 r.seq) || (name, as_i64 seq) ∈ db.rejected

/-- The write of `ingest_wire`. -/
def ingest_row (db : Db) (pinned : Option String) (name : String) (doc : PlaylistDoc) (doc_bytes : Bytes)
    (record : String) (seq : UInt64) (now : Int) : Db :=
  if doc.del then
    let in_library := (db.row name).any fun r => r.is_mine || r.held
    if in_library || pinned = some name then
      db.update name fun r =>
        { r with seq := as_i64 seq, record_b64 := none, tombstoned := true, published := false, last_update_at := now }
    else db.delete name
  else upsert_row db name doc doc_bytes (some record) (as_i64 seq) (record_eol_secs lib.toIpnsLib record) now

section
variable {lib} {db : Db} {pinned : Option String} {name n : String} {doc : PlaylistDoc} {b : Bytes} {record : String}
  {seq : UInt64} {now : Int}

theorem ingest_row_live (h : doc.del = false) : ingest_row lib db pinned name doc b record seq now =
    upsert_row db name doc b (some record) (as_i64 seq) (record_eol_secs lib.toIpnsLib record) now :=
  if_neg (by simp [h])

/-- A tombstone changes the row of its name, or deletes it. -/
theorem row_ingest_tombstone (h : doc.del = true) : (ingest_row lib db pinned name doc b record seq now).row n =
    if n = name then
      if (db.row name).any (fun r => r.is_mine || r.held) || pinned = some name then
        (db.row name).map fun r =>
          { r with seq := as_i64 seq, record_b64 := none, tombstoned := true, published := false, last_update_at := now }
      else none
    else db.row n := by
  rw [ingest_row, if_pos h]
  dsimp only
  split
  · rw [Db.row_update]
  · rw [Db.row_delete]

end

/-- The rows the budget governs. -/
def seenRows (db : Db) : List (String × Row) := db.rows.filter fun x => !x.2.is_mine && !x.2.held

def used (db : Db) : Int := ((seenRows db).map (·.2.size_bytes)).sum

/-- The order of the integers by an instance that computes. -/
local instance intPreorder : Preorder Int := Int.instLinearOrder.toPreorder

/-- The seen row updated longest ago, but for the pinned one. -/
def victim (db : Db) (pinned : Option String) : Option String :=
  (((seenRows db).filter fun x => pinned ≠ some x.1).argmin (·.2.last_update_at)).map (·.1)

/-- Evict until the seen rows are in the budget or there is none to evict; `n` rows at most. -/
def evict (budget : Int) (pinned : Option String) : Nat → Db → Bool → Db × Bool
  | 0, db, evicted => (db, evicted)
  | n + 1, db, evicted =>
    if used db ≤ budget then (db, evicted)
    else
      match victim db pinned with
      | none => (db, evicted)
      | some name => evict budget pinned n (db.delete name) true

/-- Eviction only takes rows away, and none that is mine, held or pinned. -/
theorem row_evict {budget : Int} {pinned : Option String} {n : Nat} {db : Db} {evicted : Bool} {name : String} :
    (evict budget pinned n db evicted).1.row name = db.row name ∨
      (evict budget pinned n db evicted).1.row name = none ∧ pinned ≠ some name ∧
        ∀ r, db.row name = some r → r.is_mine = false ∧ r.held = false := by
  induction n generalizing db evicted with
  | zero => exact .inl rfl
  | succ n ih =>
    rw [evict]
    split
    · exact .inl rfl
    split
    · exact .inl rfl
    next v hv =>
      obtain ⟨⟨w, r⟩, hmem, hw⟩ := Option.map_eq_some_iff.1 hv
      obtain ⟨hmem, hpin⟩ := List.mem_filter.1 (List.argmin_mem hmem)
      obtain ⟨hmem, hseen⟩ := List.mem_filter.1 hmem
      replace hmem := Db.mem_rows.1 hmem
      simp only [Bool.and_eq_true, Bool.not_eq_true', decide_eq_true_eq] at hseen hpin hw
      subst hw
      have hdel : (db.delete w).row name = if name = w then none else db.row name := Db.row_delete
      rcases eq_or_ne name w with heq | hne
      · subst heq
        rw [if_pos rfl] at hdel
        have hgone : (evict budget pinned n (db.delete name) true).1.row name = none := by
          rcases @ih (db.delete name) true with h | h
          · rw [h, hdel]
          · exact h.1
        exact .inr ⟨hgone, hpin, fun r' hr' => by rw [hmem] at hr'; cases hr'; exact hseen⟩
      · rw [if_neg hne] at hdel
        rw [← hdel]
        exact ih

theorem Db.All.evict {P : String → Row → Prop} {db : Db} (h : db.All P) {budget : Int} {pinned : Option String}
    {n : Nat} {evicted : Bool} : (evict budget pinned n db evicted).1.All P := by
  intro name r hr
  rcases @row_evict budget pinned n db evicted name with heq | heq
  · exact h name r (heq ▸ hr)
  · rw [heq.1] at hr
    cases hr

theorem Db.All.upsert {P : String → Row → Prop} {db : Db} (h : db.All P) {name : String} {doc : PlaylistDoc}
    {b : Bytes} {record : Option String} {seq eol now : Int}
    (hr : P name (upserted (db.row name) doc b record seq eol now)) :
    (upsert_row db name doc b record seq eol now).All P := by
  intro n r hrow
  rw [row_upsert_row] at hrow
  split at hrow
  next heq => cases hrow; exact heq ▸ hr
  next => exact h n r hrow

/-- A row of the announce query. -/
structure LibraryRow where
  name : String
  seq : Int
  record : String
  doc_json : String
  is_mine : Bool

def libraryRows (db : Db) : List LibraryRow :=
  db.rows.filterMap fun x =>
    if x.2.is_mine || x.2.held then x.2.record_b64.map (⟨x.1, x.2.seq, ·, x.2.doc_json, x.2.is_mine⟩) else none

/-- Whether a row is in the disclosure set. -/
def Row.disclosed (r : Row) : Bool :=
  r.record_b64.isSome && !r.tombstoned && (r.held || (r.is_mine && r.published))

/-- The disclosure set. -/
def manifestRows (db : Db) : List ManifestEntry :=
  (((db.rows.filter (·.2.disclosed)).mergeSort fun x y => x.1 ≤ y.1).take 1024).map fun x =>
    ⟨x.1, as_u64 (max x.2.seq 0), x.2.title⟩

/-! ### Acts -/

inductive Act
  | now_secs
  | select (name : String)
  | known (name : String) (seq : UInt64)
  | remember_rejected (name : String) (seq : UInt64)
  | ingest_row (name : String) (doc : PlaylistDoc) (doc_bytes : Bytes) (record : String) (seq : UInt64)
  | evict (pinned : Option String)
  | mark_published (name : String) (seq : UInt64) (record : String)
  | create_row (name key_name : String) (doc : PlaylistDoc) (doc_bytes : Bytes)
  | edit_row (name : String) (doc : PlaylistDoc) (doc_bytes : Bytes)
  | delete_row (name : String)
  | make_private (name : String) (seq : Int)
  | lock_liked
  | unlock_liked
  | liked_name
  | set_liked (name : String)
  | set_held (name : String) (held : Bool)
  | mark_played (name : String)
  | pin_playing (name : Option String)
  | pinned_name
  | add_pending (name : String)
  | seen_rows
  | library
  | manifest
  | manifest_hash
  | set_manifest_hash (hash : UInt64)
  | key_gen (key_name : String)
  | routing_get (name : String)
  | playlist_publish (key_name : String) (seq : UInt64) (doc : Bytes)
  | playlist_records (cursor : Nat)
  | playlist_announce (entries : List PlaylistWire)
  | playlist_manifest (entries : List ManifestEntry)
  | swarm_peers
  | playlist_peer_list (peer : String) (want : List String)

abbrev Ans : Act → Type
  | .now_secs => Int
  | .select _ => Option Row
  | .known _ _ => Bool
  | .evict _ => Bool
  | .liked_name => Option String
  | .pinned_name => Option String
  | .seen_rows => List (String × Option String)
  | .library => List LibraryRow
  | .manifest => List ManifestEntry
  | .manifest_hash => Option UInt64
  | .key_gen _ => Except String String
  | .routing_get _ => Except String String
  | .playlist_publish _ _ _ => Except String (String × String)
  | .playlist_records _ => Except String (Nat × List PlaylistWire)
  | .playlist_announce _ => Except String Unit
  | .playlist_manifest _ => Except String Unit
  | .swarm_peers => Except String (List String)
  | .playlist_peer_list _ _ => Except String (List ManifestEntry × Nat × Bool)
  | _ => Unit

/-- The store with the event in its log. -/
def Store.did (s : Store) (e : Event) : Store := { s with log := e :: s.log }

/-- What each act does and is answered. -/
def world : Prog.World Act Ans Input Store
  | .now_secs, i, s => (i.now, s)
  | .select name, _, s => (s.db.row name, s)
  | .known name seq, _, s => (Playlists.known s.db name seq, s)
  | .remember_rejected name seq, _, s => ((), { s with db := s.db.reject name (as_i64 seq) })
  | .ingest_row name doc doc_bytes record seq, i, s =>
    ((), { s with db := Playlists.ingest_row lib s.db s.pinned name doc doc_bytes record seq i.now })
  | .evict pinned, _, s =>
    let r := Playlists.evict s.budget pinned (s.db.rows.length + 1) s.db false
    (r.2, { s with db := r.1 })
  | .mark_published name seq record, i, s =>
    ((), { s with db := s.db.update name fun r =>
      { r with seq := as_i64 seq, published := true, record_b64 := some record, last_update_at := i.now,
               eol := record_eol_secs lib.toIpnsLib record } })
  | .create_row name key_name doc doc_bytes, i, s =>
    ((), { s with db := (upsert_row s.db name doc doc_bytes none 0 0 i.now).update name fun r =>
      { r with is_mine := true, key_name := some key_name } })
  | .edit_row name doc doc_bytes, i, s =>
    ((), { s with db := upsert_row s.db name doc doc_bytes none (-1) (-1) i.now }.did (.edited name doc_bytes))
  | .delete_row name, _, s => ((), { s with db := s.db.delete name })
  | .make_private name seq, i, s =>
    ((), { s with db := s.db.update name fun r =>
      { r with published := false, record_b64 := none, eol := 0, tombstoned := false, seq, last_update_at := i.now } })
  | .lock_liked, _, s => ((), { s with liked_guard := true })
  | .unlock_liked, _, s => ((), { s with liked_guard := false })
  | .liked_name, _, s => ((s.db.rows.find? (·.2.liked)).map (·.1), s)
  | .set_liked name, _, s => ((), { s with db := s.db.update name fun r => { r with liked := true } })
  | .set_held name held, _, s =>
    ((), { s with db := s.db.update name fun r => if r.is_mine then r else { r with held } })
  | .mark_played name, i, s =>
    ((), { s with db := s.db.update name fun r => { r with last_played_at := some i.now } })
  | .pin_playing name, _, s => ((), { s with pinned := name })
  | .pinned_name, _, s => (s.pinned, s)
  | .add_pending name, i, s => ((), { s with pending := (name, i.now) :: s.pending.filter (·.1 != name) })
  | .seen_rows, _, s => ((seenRows s.db).map fun x => (x.1, x.2.record_b64), s)
  | .library, _, s => (libraryRows s.db, s)
  | .manifest, _, s => (manifestRows s.db, s)
  | .manifest_hash, _, s => (s.manifest_hash, s)
  | .set_manifest_hash hash, _, s => ((), { s with manifest_hash := some hash })
  | .key_gen key_name, i, s => (i.key_gen.map fun _ => lib.keyId key_name, s)
  | .routing_get _, i, s => (i.routing_get, s)
  | .playlist_publish key_name seq doc, i, s =>
    match i.publish with
    | .refused text => (.error text, s)
    | .lost text => (.error text, s.did (.signed key_name seq doc))
    | .answered name record => (.ok (name, record), s.did (.signed key_name seq doc))
  | .playlist_records _, i, s => (i.records, s)
  | .playlist_announce entries, i, s => (i.sent, s.did (.announced entries))
  | .playlist_manifest entries, i, s => (i.sent, s.did (.disclosed entries))
  | .swarm_peers, i, s => (i.swarm_peers, s)
  | .playlist_peer_list _ _, i, s => (i.peer_list, s)

/-- `liked_guard` is waited for; nothing else is. -/
def enabled : Act → Store → Bool
  | .lock_liked, s => !s.liked_guard
  | _, _ => true

end TrackerStream.Playlists
