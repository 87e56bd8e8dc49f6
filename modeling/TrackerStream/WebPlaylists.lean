import TrackerStream.Pool
import TrackerStream.WebStore

/-!
# The browser's playlists

`index.ts` as programs over the acts of the store: ingest, the surface the user sees, links, the announce and
beacon loops, and the disclosure to peers. What a function does between two acts may be interleaved with the
acts of any other.
-/

namespace TrackerStream.WebPlaylists
open Playlists (Row Db FtsEntry PlaylistMeta DOC_VERSION)

variable (lib : WebLib)

abbrev Web (α : Type) := Prog Act Ans String α

/-! ### One act -/

def act (e : Act) : Web (Ans e) := .call e

def nowSecs : Web Int := act .nowSecs
def getRow (name : String) : Web (Option Row) := act (.get name)
def list : Web (List (String × Row)) := act .list
def loadKey (name : String) : Web Bool := act (.loadKey name)
def createKey : Web (Except String String) := act .createKey

/-- A signature whose failure is the caller's. -/
def sign (name : String) (doc : Bytes) (seq : Nat) : Web Bytes := do
  let r ← act (.sign name doc seq)
  .ofExcept r

def gossip (name : String) (rec doc : Bytes) : Web Unit := do
  let r : Except String Unit ← act (.publish name rec doc)
  .ofExcept r
  act (.markSeen name)

def recordEolSecs (rec : Bytes) : Int := ((lib.decode rec).bind (·.validity)).getD 0

/-! ### The store -/

def index (name : String) (doc : PlaylistDoc) : Web Unit := do
  act (.unindex name)
  act (.index ⟨name, doc.t.or "", tracksText doc⟩)

/-- `upsert` with none of the optional fields. -/
def upsert (name : String) (doc : PlaylistDoc) (docBytes : Bytes) (recordB64 : Option String) (seq eol : Int) :
    Web Unit := do
  act (.insert name doc docBytes recordB64 seq eol)
  index name doc

/-- `upsert` of an author's new row. -/
def upsertMine (name : String) (doc : PlaylistDoc) (docBytes : Bytes) : Web Unit := do
  act (.insert name doc docBytes none 0 0)
  act (.setMine name (some true) (some name))
  index name doc

/-- `upsert` of a published row. -/
def upsertPublished (name : String) (doc : PlaylistDoc) (docBytes : Bytes) (recordB64 : String) (seq eol : Int) :
    Web Unit := do
  act (.insert name doc docBytes (some recordB64) seq eol)
  act (.setPublished name true)
  index name doc

def removeRow (name : String) : Web Unit := do
  act (.deleteRow name)
  act (.unindex name)

/-- Evict in order until the rest is in the budget. -/
def evictRows (budgetBytes : Int) : List (String × Int) → Int → Web Unit
  | [], _ => return ()
  | r :: rows, total => do
    if total ≤ budgetBytes then return ()
    else
      removeRow r.1
      evictRows budgetBytes rows (total - r.2)

def enforceBudget (budgetBytes : Int) : Web Unit := do
  let rows : List (String × Int) ← act .seenSizes
  evictRows budgetBytes rows (rows.map (·.2)).sum

def BUDGET_BYTES : Int := 50 * 1024 * 1024

/-! ### Ingest -/

def ingestVerified (name : String) (rec doc : Bytes) (seq : UInt64) : Web Unit := do
  let existing ← getRow name
  if existing.any fun r => (toNumber seq.toNat : Int) ≤ r.seq then return ()
  else
    let parsed ← .ofExcept (validateDoc lib doc)
    upsert name parsed doc (some (base64 rec)) (toNumber seq.toNat) (recordEolSecs lib rec)
    act (.removePending name)
    act (.markSeen name)
    enforceBudget BUDGET_BYTES

/-- Verify a message and store what it holds. -/
def ingestMessage (name : String) (rec doc : Bytes) : Web Unit := do
  let now ← nowSecs
  let seq ← .ofExcept (validatePlaylistMsg lib now name rec doc)
  ingestVerified lib name rec doc seq

def ingestWire (bytes : Bytes) : Web Unit := do
  let (name, rec, doc) ← .ofExcept (decodePlaylistMsg bytes)
  ingestMessage lib name rec doc

/-! ### The user's commands -/

def metaOf (now : Int) (name : String) (r : Row) : Except String PlaylistMeta :=
  match lib.parse (if r.doc_json = "" then "\x7b\x7d" else r.doc_json) with
  | .error e => .error e
  | .ok doc => .ok
    { name := name
      title := r.title
      tracks := (doc.ts.getD []).length
      is_mine := r.is_mine
      held := r.held
      published := r.published
      dormant := r.tombstoned || (0 < r.eol && r.eol < now)
      tombstoned := r.tombstoned
      liked := r.liked
      size_bytes := r.size_bytes
      last_update_at := r.last_update_at
      last_played_at := r.last_played_at }

/-- The document of an author's playlist. -/
def newDoc (title : String) (tracks : List TrackRef) : PlaylistDoc :=
  { v := some DOC_VERSION, t := .text title, ts := some tracks }

/-- The tombstone. -/
def tombDoc : PlaylistDoc := { v := some DOC_VERSION, del := true }

/-- The bytes of an author's document, checked as everyone else's are. -/
def newBytes (title : String) (tracks : List TrackRef) : Web Bytes := do
  let bytes := encodeDoc lib (newDoc title tracks)
  let _ ← .ofExcept (validateDoc lib bytes)
  return bytes

def create (title : String) (tracks : List TrackRef) : Web PlaylistMeta := do
  let name ← .ofExcept (← createKey)
  let bytes ← newBytes lib title tracks
  upsertMine name (newDoc title tracks) bytes
  match ← getRow name with
  | none => .fail "Cannot read properties of null"
  | some r =>
    let now ← nowSecs
    .ofExcept (metaOf lib now name r)

def publish (name : String) : Web Unit := do
  match (← getRow name).filter (·.is_mine) with
  | none => .fail "not my playlist"
  | some row =>
    let key ← loadKey name
    if !key then .fail s!"playlist key for {name} is missing"
    else
      let doc := utf8 row.doc_json
      let rec ← sign name doc (nextSeq row.seq)
      let parsed ← .ofExcept (lib.parse row.doc_json)
      upsertPublished name parsed doc (base64 rec) (nextSeq row.seq) (recordEolSecs lib rec)
      gossip name rec doc

/-- An edit of an own playlist; one that is shared is published again. -/
def update (name title : String) (tracks : List TrackRef) : Web Unit := do
  match (← getRow name).filter (·.is_mine) with
  | none => .fail "not my playlist"
  | some row =>
    let bytes ← newBytes lib title tracks
    upsert name (newDoc title tracks) bytes row.record_b64 row.seq row.eol
    if row.published then publish lib name
    else return ()

/-- Sign and gossip the tombstone of a shared playlist. -/
def tombstone (name : String) : Web Unit := do
  match (← getRow name).filter fun r => r.is_mine && r.published with
  | none => return ()
  | some row =>
    let key ← loadKey name
    if !key then return ()
    else
      let doc := encodeDoc lib tombDoc
      let rec ← sign name doc (nextSeq row.seq)
      gossip name rec doc
      act (.tombstoneRow name (nextSeq row.seq) (base64 rec))

def unpublish (name : String) : Web Unit := do
  tombstone lib name
  act (.setPublished name false)

def remove (name : String) : Web Unit := do
  let row ← getRow name
  if row.any fun r => r.is_mine && r.published then
    let _ ← (tombstone lib name).attempt
    removeRow name
    act (.deleteKey name)
  else
    removeRow name
    act (.deleteKey name)

def hold (name : String) (held : Bool) : Web Unit := act (.setHeld name held)

def played (name : String) : Web Unit := act (.setPlayed name)

def LIKED_TITLE : String := "Liked Tracks"

/-- The row of the liked playlist, which is created on first use. -/
def likedRow : Web (String × Row) := do
  let rows ← list
  match rows.find? (·.2.liked) with
  | some found => return found
  | none =>
    let info ← create lib LIKED_TITLE []
    act (.setLiked info.name)
    match ← getRow info.name with
    | some row => return (info.name, row)
    | none => .fail "Cannot read properties of null"

def likeToggle (track : TrackRef) : Web Bool := do
  let (name, row) ← likedRow lib
  let doc ← .ofExcept (lib.parse row.doc_json)
  let ts := doc.ts.getD []
  match ts.findIdx? (·.md5 = track.md5) with
  | none =>
    update lib name (doc.t.or LIKED_TITLE) (ts ++ [track])
    return true
  | some at' =>
    update lib name (doc.t.or LIKED_TITLE) (ts.eraseIdx at')
    return false

/-! ### Links -/

/-- The record of a row, if it has one to show. -/
def liveRecord (row : Row) : Option String := row.record_b64.filter (· ≠ "")

def copyLink (name : String) : Web String := do
  match ← getRow name with
  | none => .fail "playlist has no live record — share it first"
  | some row =>
    match liveRecord row with
    | none => .fail "playlist has no live record — share it first"
    | some record => .ofExcept (buildLink name record row.doc_json)

/-- The name of a link, and whether its playlist is `"ready"` or `"pending"`. -/
def ingestLink (url : String) : Web (String × String) := do
  let (name, envelope) ← .ofExcept (parseLink url)
  match envelope with
  | none =>
    act (.addPending name)
    return (name, "pending")
  | some env =>
    let (n, record, doc) ← .ofExcept (decodeEnvelope env)
    if n ≠ name then .fail "link name does not match its payload"
    else
      ingestMessage lib n record doc
      return (name, "ready")

/-! ### The loops -/

def RENEW_MARGIN_SECS : Int := 24 * 3600

/-- Gossip the record a row holds with its document. -/
def regossip (name record docJson : String) : Web Unit :=
  match atob record with
  | none => .fail "The string to be decoded is not correctly encoded."
  | some rec => gossip name rec (utf8 docJson)

/-- One row of the announce pass: re-signed near the end of its record's life, or gossiped again. -/
def announceRow (now : Int) (name : String) (row : Row) : Web Unit := do
  if !row.is_mine && !row.held then return ()
  else if row.tombstoned then return ()
  else
    let seen : Option Int ← act (.seen name)
    if now - seen.getD 0 < 4 * 60 then return ()
    else if row.is_mine && row.published then
      let key ← loadKey name
      if !key then return ()
      else if 0 < row.eol && row.eol < now + RENEW_MARGIN_SECS then
        let doc := utf8 row.doc_json
        let rec ← sign name doc (nextSeq row.seq)
        act (.renewRow name (nextSeq row.seq) (base64 rec) (recordEolSecs lib rec))
        gossip name rec doc
      else
        match liveRecord row with
        | some record => regossip name record row.doc_json
        | none => return ()
    else
      match liveRecord row with
      | some record => if row.held then regossip name record row.doc_json else return ()
      | none => return ()

def announceOnce : Web Unit := do
  let now ← nowSecs
  let rows ← list
  rows.foldlM (fun _ x => announceRow lib now x.1 x.2) ()

/-- Whether a row is in the disclosure set. -/
def disclosed (r : Row) : Bool := !r.tombstoned && ((r.is_mine && r.published) || r.held)

def disclosureRows : Web (List (String × Row)) := do
  let rows ← list
  return rows.filter fun x => disclosed x.2

def beaconOnce : Web Unit := do
  let mine ← disclosureRows
  if mine.isEmpty then return ()
  else act (.beacon (mine.map (·.1)))

def PL_MAX_ENTRIES : Nat := 256

/-- Gossip a name a peer asked for, if it is in the disclosure set; how many there were. -/
def reannounce (manifest : List (String × Row)) (reannounced : Nat) (name : String) : Web Nat :=
  match manifest.find? (·.1 = name) with
  | none => return reannounced
  | some x =>
    match liveRecord x.2 with
    | none => return reannounced
    | some record => do
      let allowed : Bool ← act (.allowReannounce name)
      if !allowed then return reannounced
      else
        regossip name record x.2.doc_json
        return reannounced + 1

def serveList : Web Unit := do
  let req : Except String (List String) ← act .readRequest
  let want ← .ofExcept req
  let manifest ← disclosureRows
  let reannounced ← want.foldlM (reannounce manifest) 0
  let sent : Except String Unit ← act (.respond (manifest.take PL_MAX_ENTRIES) reannounced)
  .ofExcept sent

def handlePlaylistList (peer : String) : Web Unit := do
  let allowed : Bool ← act (.allowRequest peer)
  if !allowed then return ()
  else
    let _ ← serveList.attempt
    return ()

/-! ### Operations -/

inductive Op
  | create (title : String) (tracks : List TrackRef)
  | update (name title : String) (tracks : List TrackRef)
  | publish (name : String)
  | unpublish (name : String)
  | remove (name : String)
  | hold (name : String) (held : Bool)
  | played (name : String)
  | likedRow
  | likeToggle (track : TrackRef)
  | copyLink (name : String)
  | ingestWire (bytes : Bytes)
  | ingestLink (url : String)
  | announceOnce
  | beaconOnce
  | handlePlaylistList (peer : String)

/-- The program of an operation. What it returns is the caller's; the names the user shares are noted. -/
def Op.prog : Op → Web Unit
  | create title tracks => do let _ ← WebPlaylists.create lib title tracks
  | update name title tracks => WebPlaylists.update lib name title tracks
  | publish name => do
    act (.share name)
    WebPlaylists.publish lib name
  | unpublish name => do
    WebPlaylists.unpublish lib name
    act (.unshare name)
  | remove name => do
    WebPlaylists.remove lib name
    act (.unshare name)
  | hold name held => WebPlaylists.hold name held
  | played name => WebPlaylists.played name
  | likedRow => do let _ ← WebPlaylists.likedRow lib
  | likeToggle track => do let _ ← WebPlaylists.likeToggle lib track
  | copyLink name => do let _ ← WebPlaylists.copyLink name
  | ingestWire bytes => WebPlaylists.ingestWire lib bytes
  | ingestLink url => do let _ ← WebPlaylists.ingestLink lib url
  | announceOnce => WebPlaylists.announceOnce lib
  | beaconOnce => WebPlaylists.beaconOnce
  | handlePlaylistList peer => WebPlaylists.handlePlaylistList peer

/-- The browser as a system of operations side by side. -/
def browser : Prog.System Act Ans String Input Store Op where
  world := world
  enabled _ _ := true
  prog := Op.prog lib

end TrackerStream.WebPlaylists
