import TrackerStream.Ipld
import TrackerStream.Lru

/-!
# Catalog records

The ingest points the catalog's IPNS name at each new catalog by `KuboRpc.namePublish`; the node signs the
record and pushes it on the catalog topic, and every subscriber keeps the records it accepts in its `ipnsStore`.
CIDs, keys, records and durations are libraries of the code, the parameters `Libs`.
-/

namespace TrackerStream.Catalog

/-- What the Go packages do, in nanoseconds. -/
structure Libs (Key Cid Pid Record : Type) where
  cidDecode : String → Option Cid
  cidString : Cid → String
  parseDuration : String → Option Int
  /-- `ipns.DefaultRecordLifetime`. -/
  defaultLifetime : Int
  idFromKey : Key → Option Pid
  pidString : Pid → String
  peerDecode : String → Option Pid
  /-- `ipns.NewRecord`: key, value, sequence number and end of life. -/
  newRecord : Key → String → UInt64 → Int → Option Record
  marshal : Record → Option Bytes
  unmarshal : Bytes → Option Record
  sequence : Record → Option UInt64
  /-- `ipns.ValidateWithName` at a time. -/
  validate : Int → Record → Pid → Bool

variable {Key Cid Pid Record : Type} (lib : Libs Key Cid Pid Record)

/-! ### The store -/

def catalogStoreEnts : Nat := 512

/-- The records by name. -/
abbrev IpnsStore := Lru String Bytes catalogStoreEnts

def newIpnsStore : IpnsStore := .empty

/-- The sequence number of a record that can be read. -/
def seqOf (b : Bytes) : Option UInt64 := (lib.unmarshal b).bind lib.sequence

def ingestGossip (now : Int) (s : IpnsStore) (name : String) (rec : Bytes) : Except String IpnsStore :=
  match lib.peerDecode name with
  | none => .error s!"bad ipns name {name.quote}"
  | some pid =>
    match lib.unmarshal rec with
    | none => .error "unmarshal"
    | some incoming =>
      if !lib.validate now incoming pid then .error s!"invalid record for {name}"
      else
        match lib.sequence incoming with
        | none => .error "sequence"
        | some inSeq =>
          match s.find name with
          | none => .ok (s.add name rec)
          | some cur =>
            if (seqOf lib cur).any (inSeq ≤ ·) then .ok (s.touch name)
            else .ok ((s.touch name).add name rec)

/-- A message of the catalog topic. -/
structure CatalogMsg where
  name : String
  record : Bytes
deriving DecidableEq, Repr

/-- A message and the time it comes at. -/
structure Delivery where
  now : Int
  msg : CatalogMsg
deriving DecidableEq, Repr

/-- The subscriber's sink, which logs what is rejected. -/
def onCatalogRecord (s : IpnsStore) (d : Delivery) : IpnsStore :=
  match ingestGossip lib d.now s d.msg.name d.msg.record with
  | .ok s' => s'
  | .error _ => s

def deliver (s : IpnsStore) (ds : List Delivery) : IpnsStore := ds.foldl (onCatalogRecord lib) s

/-! ### Publishing -/

/-- The publishing node: the key `GetOrCreate` gives for a name, and its own store. -/
structure Node (Key : Type) where
  keystore : String → Option Key
  ipns : IpnsStore

def signIPNS (key : Key) (now : Int) (c : Cid) (lifetime : Int) (seq : UInt64) : Option Record :=
  let lifetime := if lifetime ≤ 0 then lib.defaultLifetime else lifetime
  lib.newRecord key ("/ipfs/" ++ lib.cidString c) seq (now + lifetime)

/-- The node after it published, and the message it pushes. -/
def publishIPNS (n : Node Key) (now : Int) (keyName : String) (c : Cid) (lifetime : Int) (seq : UInt64) :
    Option (Node Key × CatalogMsg) := do
  let key ← n.keystore keyName
  let pid ← lib.idFromKey key
  let rec' ← signIPNS lib key now c lifetime seq
  let marshaled ← lib.marshal rec'
  let name := lib.pidString pid
  return ({ n with ipns := n.ipns.add name marshaled }, ⟨name, marshaled⟩)

/-- The parameters of a request. -/
abbrev Query := List (String × String)

/-- The first value of a parameter, empty if it has none. -/
def Query.get (q : Query) (key : String) : String := ((q.find? (·.1 = key)).map (·.2)).getD ""

def hour : Int := 3600 * 10 ^ 9

def parseDuration (s : String) (dflt : Int) : Int := if s = "" then dflt else (lib.parseDuration s).getD dflt

/-- A call the ingest makes: the catalog's root, and the time it is signed at. -/
structure Call where
  cid : String
  now : Int

end TrackerStream.Catalog
