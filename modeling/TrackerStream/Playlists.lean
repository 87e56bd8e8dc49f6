import TrackerStream.PlaylistLink
import TrackerStream.PlaylistStore
import TrackerStream.Pool

/-!
# The desktop's playlists

`playlists.rs` as programs over the acts of the store: ingest, the publish path, the backends of the user's
commands, links, and the sync and announce loops. What a function does between two acts may be interleaved with
the acts of any other.
-/

namespace TrackerStream.Playlists
variable (lib : Lib)

abbrev Desktop (α : Type) := Prog Act Ans String α

/-! ### One act -/

def act (e : Act) : Desktop (Ans e) := .call e

def now_secs : Desktop Int := act .now_secs
def select (name : String) : Desktop (Option Row) := act (.select name)
def delete_row (name : String) : Desktop Unit := act (.delete_row name)
def pinned_name : Desktop (Option String) := act .pinned_name
def key_gen (key_name : String) : Desktop (Except String String) := act (.key_gen key_name)
def routing_get (name : String) : Desktop (Except String String) := act (.routing_get name)

/-- A request whose failure is the caller's. -/
def playlist_publish (key_name : String) (seq : UInt64) (doc : Bytes) : Desktop (String × String) := do
  let r ← act (.playlist_publish key_name seq doc)
  .ofExcept r

/-! ### Ingest -/

def remember_rejected (name : String) (seq : UInt64) : Desktop Unit := act (.remember_rejected name seq)

/-- Verify and store one wire entry; whether it was stored. -/
def ingest_wire (w : PlaylistWire) : Desktop Bool := do
  let now ← now_secs
  let (cid, seq) ← .ofExcept (verify_b64_seq lib.toIpnsLib now w.name w.record)
  let known : Bool ← act (.known w.name seq)
  if known then return false
  else
    match unbase64 (trim w.doc) with
    | none => .fail "doc not base64"
    | some doc_bytes =>
      if !doc_matches_cid lib.toIpnsLib cid doc_bytes then
        remember_rejected w.name seq
        .fail s!"doc does not hash to record cid for {w.name}"
      else
        match validate_doc lib doc_bytes with
        | .error e =>
          remember_rejected w.name seq
          .fail e
        | .ok doc =>
          act (.ingest_row w.name doc doc_bytes w.record seq)
          return true

def enforce_budget : Desktop Bool := do
  let pinned ← pinned_name
  act (.evict pinned)

/-! ### Publishing -/

/-- The sequence number the node has seen, 0 if it has none that verifies. -/
def net_seq (name : String) : Desktop UInt64 := do
  match ← routing_get name with
  | .error _ => return 0
  | .ok record =>
    let now ← now_secs
    match verify_b64_seq lib.toIpnsLib now name record with
    | .error _ => return 0
    | .ok (_, seq) => return seq

/-- The next sequence number: above the row's and above what the node has seen. -/
def next_seq (name : String) (local_seq : Int) : Desktop UInt64 := do
  if local_seq ≤ 0 then return 1
  else
    let net ← net_seq lib name
    return max (as_u64 local_seq) net + 1

/-- What `publish` does once it has read the row. -/
def publish_row (name key_name doc_json : String) (local_seq : Int) : Desktop Unit := do
  let seq ← next_seq lib name local_seq
  let (pub_name, record) ← playlist_publish key_name seq (utf8 doc_json)
  if pub_name != name then .fail s!"publish name mismatch: {pub_name} != {name}"
  else act (.mark_published name seq record)

def publish (name : String) : Desktop Unit := do
  match (← select name).filter (·.is_mine) with
  | none => .fail s!"not my playlist: {name}"
  | some row =>
    if row.liked then .fail "the Liked Tracks playlist is private and cannot be shared"
    else
      match row.key_name with
      | none => .fail s!"playlist {name} has no key"
      | some key_name => publish_row lib name key_name row.doc_json row.seq

/-! ### The user's commands -/

def row_meta (now : Int) (name : String) (r : Row) : PlaylistMeta where
  name := name
  title := r.title
  tracks := match lib.fromJson (utf8 r.doc_json) with
    | .ok d => d.ts.length
    | .error _ => 0
  is_mine := r.is_mine
  held := r.held
  published := r.published
  dormant := r.tombstoned || (!r.is_mine && 0 < r.eol && r.eol < now)
  tombstoned := r.tombstoned
  liked := r.liked
  size_bytes := r.size_bytes
  last_update_at := r.last_update_at
  last_played_at := r.last_played_at

def get (name : String) : Desktop (Option (PlaylistMeta × List TrackRef)) := do
  match ← select name with
  | none => return none
  | some row =>
    let now ← now_secs
    let doc ← .ofExcept (lib.fromJson (utf8 row.doc_json))
    return some (row_meta lib now name row, doc.ts)

def hexDigit (n : Nat) : Char := if n < 10 then .ofNat (48 + n) else .ofNat (87 + n)

def hex (b : Bytes) : String := .ofList (b.flatMap fun x => [hexDigit (x.toNat / 16), hexDigit (x.toNat % 16)])

/-- The bytes of an author's document, checked as everyone else's are. -/
def newBytes (title : String) (tracks : List TrackRef) : Desktop Bytes := do
  let bytes := utf8 (lib.toJson (newDoc title tracks))
  let _ ← .ofExcept (validate_doc lib bytes)
  return bytes

def create (title : String) (tracks : List TrackRef) : Desktop PlaylistMeta := do
  let now ← now_secs
  let key_name := "playlist-" ++ hex ((lib.sha256 (utf8 s!"{now}:{title}")).take 8)
  let name ← .ofExcept (← key_gen key_name)
  let bytes ← newBytes lib title tracks
  act (.create_row name key_name (newDoc title tracks) bytes)
  match ← get lib name with
  | some (info, _) => return info
  | none => .fail "create lost row"

/-- An edit of an own playlist; one that is shared is published again. -/
def update (name title : String) (tracks : List TrackRef) : Desktop Unit := do
  match (← select name).filter (·.is_mine) with
  | none => .fail s!"not my playlist: {name}"
  | some row =>
    let bytes ← newBytes lib title tracks
    act (.edit_row name (newDoc title tracks) bytes)
    if row.published then publish lib name
    else return ()

/-- Sign the tombstone at the next sequence number. -/
def publish_tombstone (name key_name : String) (seq : Int) : Desktop UInt64 := do
  let next ← next_seq lib name seq
  let _ ← playlist_publish key_name next (utf8 (lib.toJson tombDoc))
  return next

def delete (name : String) : Desktop Unit := do
  match ← select name with
  | none => return ()
  | some row =>
    if row.liked then .fail "the Liked Tracks playlist cannot be deleted"
    else
      match row.key_name with
      | some key_name =>
        if row.is_mine && row.published then
          let _ ← (publish_tombstone lib name key_name row.seq).attempt
          delete_row name
        else delete_row name
      | none => delete_row name

def unpublish (name : String) : Desktop Unit := do
  match (← select name).filter (·.is_mine) with
  | none => .fail s!"not my playlist: {name}"
  | some row =>
    match row.key_name with
    | some key_name =>
      if row.published then
        match ← (publish_tombstone lib name key_name row.seq).attempt with
        | .ok next => act (.make_private name (as_i64 next))
        | .error _ => act (.make_private name row.seq)
      else act (.make_private name row.seq)
    | none => act (.make_private name row.seq)

/-- The name of the liked playlist, which is created on first use. -/
def liked_or_create : Desktop String := do
  match ← act .liked_name with
  | some name => return name
  | none =>
    let info ← create lib LIKED_TITLE []
    act (.set_liked info.name)
    return info.name

def ensure_liked : Desktop String := do
  act .lock_liked
  let r ← (liked_or_create lib).attempt
  act .unlock_liked
  .ofExcept r

def like_toggle (track : TrackRef) : Desktop Bool := do
  let name ← ensure_liked lib
  match ← select name with
  | none => .fail "Query returned no rows"
  | some row =>
    let doc ← .ofExcept (lib.fromJson (utf8 row.doc_json))
    match doc.ts.findIdx? (·.md5 == track.md5) with
    | some pos =>
      update lib name row.title (doc.ts.eraseIdx pos)
      return false
    | none =>
      update lib name row.title (doc.ts ++ [track])
      return true

def set_held (name : String) (held : Bool) : Desktop Unit := act (.set_held name held)

def mark_played (name : String) : Desktop Unit := act (.mark_played name)

def pin_playing (name : Option String) : Desktop Unit := act (.pin_playing name)

/-! ### Links -/

def playlist_peer_list (peer : String) (want : List String) :
    Desktop (Except String (List ManifestEntry × Nat × Bool)) := act (.playlist_peer_list peer want)

/-- Ask the peers for the name, eight of them at most, until one has it. -/
def ask_peers (name : String) : List String → Nat → Desktop Unit
  | [], _ => return ()
  | p :: peers, asked => do
    if p = lib.master_peer_id ∨ 8 ≤ asked then ask_peers name peers asked
    else
      match ← playlist_peer_list p [name] with
      | .ok (entries, reann, _) =>
        if 0 < reann || entries.any (·.name = name) then return ()
        else ask_peers name peers (asked + 1)
      | .error _ => ask_peers name peers (asked + 1)

def request_from_peers (name : String) : Desktop Unit := do
  let peers : Except String (List String) ← act .swarm_peers
  match peers with
  | .error _ => return ()
  | .ok peers => ask_peers lib name peers 0

/-- The name of a link, and whether its playlist is `"ready"` or `"pending"`. -/
def ingest_link (url : String) : Desktop (String × String) := do
  let (name, envelope) ← .ofExcept (parse_link url)
  match envelope with
  | some env =>
    let (env_name, record, doc) ← .ofExcept (decode_envelope env)
    if env_name != name then .fail "link name does not match its payload"
    else
      let _ ← ingest_wire lib ⟨name, 0, base64 record, base64 doc⟩
      match ← select name with
      | some _ => return (name, "ready")
      | none => .fail "link payload was rejected"
  | none =>
    match ← select name with
    | some _ => return (name, "ready")
    | none =>
      act (.add_pending name)
      request_from_peers lib name
      return (name, "pending")

def copy_link (name : String) : Desktop String := do
  match ← select name with
  | none => .fail "unknown playlist"
  | some row =>
    if row.tombstoned then .fail "this playlist was deleted by its author — nothing to link to"
    else
      match row.record_b64 with
      | none => .fail "share the playlist first — links carry the signed record"
      | some record =>
        let now ← now_secs
        match verify_b64_seq lib.toIpnsLib now name record with
        | .error _ => .fail "this playlist's record has expired — it can't be shared onward"
        | .ok _ => .ofExcept (build_link name record row.doc_json)

/-! ### The loops -/

/-- Post the disclosure set to the node if it changed. -/
def push_manifest : Desktop Unit := do
  let entries : List ManifestEntry ← act .manifest
  let posted : Option UInt64 ← act .manifest_hash
  if posted = some (lib.manifestHash entries) then return ()
  else
    let sent : Except String Unit ← act (.playlist_manifest entries)
    match sent with
    | .ok _ => act (.set_manifest_hash (lib.manifestHash entries))
    | .error _ => return ()

/-- Ingest what the node sent; whether anything was stored. -/
def ingest_all (recs : List PlaylistWire) : Desktop Bool :=
  recs.foldlM (fun changed w => do
    match ← (ingest_wire lib w).attempt with
    | .ok true => return true
    | _ => return changed) false

/-- Drain the node's buffer from `cursor`; the next cursor, and whether the store changed. -/
def sync_once (cursor : Nat) : Desktop (Nat × Bool) := do
  let drained : Except String (Nat × List PlaylistWire) ← act (.playlist_records cursor)
  match drained with
  | .error _ => return (cursor, false)
  | .ok (ver, recs) =>
    let changed ← ingest_all lib recs
    if recs.isEmpty then return (ver, changed)
    else
      let evicted ← enforce_budget
      return (ver, changed || evicted)

/-- Purge the seen rows whose record does not verify any more; whether there were any. -/
def decay_expired : Desktop Bool := do
  let pinned ← pinned_name
  let seen : List (String × Option String) ← act .seen_rows
  seen.foldlM (fun removed x => do
    if pinned = some x.1 then return removed
    else
      let now ← now_secs
      if x.2.any fun record => (verify_b64_seq lib.toIpnsLib now x.1 record).isOk then return removed
      else
        delete_row x.1
        return true) false

/-- One row of the announce pass: renewed, dropped, or added to the entries. -/
def announce_row (entries : List PlaylistWire) (row : LibraryRow) : Desktop (List PlaylistWire) := do
  let now ← now_secs
  let alive := (verify_b64_seq lib.toIpnsLib now row.name row.record).isOk
  let now ← now_secs
  if row.is_mine && (!alive || record_near_eol lib.toIpnsLib now row.record) then
    let _ ← (publish lib row.name).attempt
    return entries
  else if !alive then return entries
  else
    return entries ++ [⟨row.name, as_u64 (max row.seq 0), row.record, base64 (utf8 row.doc_json)⟩]

def announce_once : Desktop Bool := do
  let decayed ← decay_expired lib
  let rows : List LibraryRow ← act .library
  let entries ← rows.foldlM (announce_row lib) []
  if entries.isEmpty then return decayed
  else
    let _ : Except String Unit ← act (.playlist_announce entries)
    return decayed

/-! ### Operations -/

inductive Op
  | create (title : String) (tracks : List TrackRef)
  | update (name title : String) (tracks : List TrackRef)
  | publish (name : String)
  | unpublish (name : String)
  | delete (name : String)
  | ensure_liked
  | like_toggle (track : TrackRef)
  | ingest_wire (w : PlaylistWire)
  | ingest_link (url : String)
  | copy_link (name : String)
  | set_held (name : String) (held : Bool)
  | mark_played (name : String)
  | pin_playing (name : Option String)
  | enforce_budget
  | decay_expired
  | sync_once (cursor : Nat)
  | push_manifest
  | announce_once

/-- The program of an operation; what it returns is the caller's. -/
def Op.prog : Op → Desktop Unit
  | create title tracks => do let _ ← Playlists.create lib title tracks
  | update name title tracks => Playlists.update lib name title tracks
  | publish name => Playlists.publish lib name
  | unpublish name => Playlists.unpublish lib name
  | delete name => Playlists.delete lib name
  | ensure_liked => do let _ ← Playlists.ensure_liked lib
  | like_toggle track => do let _ ← Playlists.like_toggle lib track
  | ingest_wire w => do let _ ← Playlists.ingest_wire lib w
  | ingest_link url => do let _ ← Playlists.ingest_link lib url
  | copy_link name => do let _ ← Playlists.copy_link lib name
  | set_held name held => Playlists.set_held name held
  | mark_played name => Playlists.mark_played name
  | pin_playing name => Playlists.pin_playing name
  | enforce_budget => do let _ ← Playlists.enforce_budget
  | decay_expired => do let _ ← Playlists.decay_expired lib
  | sync_once cursor => do let _ ← Playlists.sync_once lib cursor
  | push_manifest => Playlists.push_manifest lib
  | announce_once => do let _ ← Playlists.announce_once lib

/-- The desktop as a system of operations side by side. -/
def desktop : Prog.System Act Ans String Input Store Op where
  world := world lib
  enabled := enabled
  prog := Op.prog lib

end TrackerStream.Playlists
