import TrackerStream.Ipns

/-!
# Playlist documents

The compact document a playlist travels as, and the desktop's check of untrusted document bytes. `serde_json`
is a library of the code, a parameter.
-/

namespace TrackerStream.Playlists

def DOC_MAX : Nat := 2 ^ 20
def TRACKS_MAX : Nat := 20000
def TITLE_MAX : Nat := 300
def FIELD_MAX : Nat := 512
def MD5_MAX : Nat := 64
def DOC_VERSION : Nat := 2

/-- One track: `[md5, module name, song title]`. -/
structure TrackRef where
  md5 : String
  mod_name : String
  title : String
deriving DecidableEq, Repr

structure PlaylistDoc where
  v : Nat
  t : String := ""
  del : Bool := false
  ts : List TrackRef := []
deriving DecidableEq, Repr

/-- A record and its document in base64, as the node sends and takes them. -/
structure PlaylistWire where
  name : String
  seq : UInt64
  record : String
  doc : String
deriving DecidableEq, Repr

/-- An entry of the disclosure set. -/
structure ManifestEntry where
  name : String
  seq : UInt64
  title : String
deriving DecidableEq, Repr

/-- The crates the playlists rest on, the node's keystore and the peer that is never asked. -/
structure Lib extends IpnsLib where
  /-- `serde_json::from_slice::<PlaylistDoc>`. -/
  fromJson : Bytes → Except String PlaylistDoc
  /-- `serde_json::to_vec`, whose bytes are a text. -/
  toJson : PlaylistDoc → String
  /-- The PeerId of the key of a name. -/
  keyId : String → String
  /-- The first bytes of the hash of a manifest. -/
  manifestHash : List ManifestEntry → UInt64
  master_peer_id : String

def check_tracks : List TrackRef → Except String Unit
  | [] => .ok ()
  | t :: ts =>
    if t.md5.utf8ByteSize = 0 ∨ MD5_MAX < t.md5.utf8ByteSize then .error "track md5 key out of bounds"
    else if FIELD_MAX < t.mod_name.utf8ByteSize ∨ FIELD_MAX < t.title.utf8ByteSize then .error "track field too long"
    else check_tracks ts

/-- Parse and check untrusted document bytes. -/
def validate_doc (lib : Lib) (bytes : Bytes) : Except String PlaylistDoc :=
  if bytes.isEmpty || DOC_MAX < bytes.length then .error s!"doc size {bytes.length} out of bounds"
  else
    match lib.fromJson bytes with
    | .error e => .error e
    | .ok doc =>
      if doc.v < DOC_VERSION then .error s!"obsolete doc version {doc.v}"
      else if doc.del then .ok doc
      else if TITLE_MAX < doc.t.utf8ByteSize then .error "title too long"
      else if TRACKS_MAX < doc.ts.length then .error s!"too many tracks ({doc.ts.length})"
      else
        match check_tracks doc.ts with
        | .error e => .error e
        | .ok _ => .ok doc

/-- The document of an author's playlist. -/
def newDoc (title : String) (tracks : List TrackRef) : PlaylistDoc := { v := DOC_VERSION, t := title, ts := tracks }

/-- The tombstone. -/
def tombDoc : PlaylistDoc := { v := DOC_VERSION, del := true }

theorem newDoc_del (title : String) (tracks : List TrackRef) : (newDoc title tracks).del = false := rfl

/-- A text per track, in order. -/
def tracksText (doc : PlaylistDoc) : String :=
  " ".intercalate (doc.ts.map fun t => s!"{t.mod_name} {t.title}")

/-! ### Tables -/

/-- What the libraries say of the few texts and records an example needs. -/
structure Tables where
  /-- Names of keys and the PeerIds they have. -/
  keys : List (String × String)
  peers : List String := []
  docs : List (PlaylistDoc × String)
  digests : List (String × Bytes)
  /-- The values of records with the digests of the CIDs in them. -/
  values : List (String × Bytes)
  /-- Records with their signers. -/
  records : List (String × Bytes × IpnsRecord)

def Tables.lib (t : Tables) : Lib where
  sha256 b := ((t.digests.find? fun x => utf8 x.1 = b).map (·.2)).getD []
  isPeer n := t.keys.any (·.2 = n) || t.peers.contains n
  valueCid v := (t.values.find? (·.1 = v)).map (⟨0x55, 0x12, ·.2⟩)
  decode b := (t.records.find? (·.2.1 = b)).map (·.2.2)
  signed n b := t.records.any fun x => x.1 = n && x.2.1 = b
  fromJson b :=
    match t.docs.find? fun x => utf8 x.2 = b with
    | some x => .ok x.1
    | none => .error "expected value at line 1 column 1"
  toJson d := ((t.docs.find? (·.1 = d)).map (·.2)).getD ""
  keyId k := ((t.keys.find? (·.1 = k)).map (·.2)).getD ""
  manifestHash entries := .ofNat entries.length
  master_peer_id := ""

end TrackerStream.Playlists
