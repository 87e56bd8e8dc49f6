import TrackerStream.Catalog
import TrackerStream.Ipns
import TrackerStream.PlaylistRelay

/-!
# Resolving a name

The node answers `routing/get` by `ResolveIPNS`: from its `ipnsStore`, from the buffer of playlists, or from the DHT,
for whose answer it waits; records also come by gossip and by its own publications. The desktop's `resolve_ipns_name`
asks up to six times and keeps the last record it verified. A step is one of these up to its next wait.
-/

namespace TrackerStream.Resolve
open Catalog (IpnsStore CatalogMsg)

/-- A call of `ResolveIPNS` past its look into the stores; without an answer it waits for the DHT's. -/
structure Lookup where
  name : String
  answer : Option (Option Bytes)
deriving DecidableEq

/-- Where a call of `resolve_ipns_name` stands: before its next request, waiting for an answer, or back. -/
inductive Phase
  | asking
  | asked (lookup : Nat)
  | returned (cid : Option ContentId)
deriving DecidableEq

structure Call where
  name : String
  attempt : Nat
  phase : Phase
deriving DecidableEq

structure Resolver (Key : Type) where
  node : Catalog.Node Key
  playlists : Option Relay.PlaylistStore
  hasDht : Bool
  lookups : List Lookup := []
  calls : List Call := []
  /-- The desktop's `IpnsCache`. -/
  cache : AList fun _ : String => String

inductive Act (Cid : Type)
  | gossip (now : Int) (msg : CatalogMsg)
  | publish (now : Int) (keyName : String) (c : Cid) (lifetime : Int) (seq : UInt64)
  | playlist (now : Int) (orders : Nat → Relay.MapOrder) (name : String) (record doc : Bytes) (seq : UInt64)
  | lookup (name : String)
  | found (lookup : Nat) (answer : Option Bytes)
  | resolve (name : String)
  | ask (call : Nat)
  /-- The answer to a request is in, unless it was lost. -/
  | receive (call : Nat) (now : Int) (lost : Bool)

variable {Key Cid Pid Record : Type} (lib : Catalog.Libs Key Cid Pid Record) (rlib : IpnsLib) (caps : Relay.Caps)

namespace Resolver

/-! ### The node -/

/-- `ResolveIPNS` up to the wait. -/
def ResolveIPNS (r : Resolver Key) (name : String) : Resolver Key :=
  match r.node.ipns.find name with
  | some rec => { r with
      node := { r.node with ipns := r.node.ipns.touch name }
      lookups := r.lookups ++ [⟨name, some (some rec)⟩] }
  | none =>
    match r.playlists.bind (·.getRecord name) with
    | some rec => { r with lookups := r.lookups ++ [⟨name, some (some rec)⟩] }
    | none =>
      if (lib.peerDecode name).isNone || !r.hasDht then { r with lookups := r.lookups ++ [⟨name, some none⟩] }
      else { r with lookups := r.lookups ++ [⟨name, none⟩] }

/-- The DHT's answer to a lookup that waits for it. -/
def found (r : Resolver Key) (i : Nat) (answer : Option Bytes) : Resolver Key :=
  match r.lookups[i]? with
  | some ⟨name, none⟩ => { r with
      node := match answer with
        | some rec => { r.node with ipns := r.node.ipns.add name rec }
        | none => r.node
      lookups := r.lookups.set i ⟨name, some answer⟩ }
  | _ => r

/-! ### The desktop -/

def ask (r : Resolver Key) (c : Nat) : Resolver Key :=
  match r.calls[c]? with
  | some ⟨name, attempt, .asking⟩ =>
    { r.ResolveIPNS lib name with calls := r.calls.set c ⟨name, attempt, .asked r.lookups.length⟩ }
  | _ => r

/-- The answer a request gets: `routing_get` fails without a record and for an empty one. -/
def answer (r : Resolver Key) (i : Nat) (lost : Bool) : Option (Option String) :=
  if lost then some none
  else ((r.lookups[i]?).bind (·.answer)).map fun answer => (answer.filter (· ≠ [])).map base64

/-- One attempt of `resolve_ipns_name`: what is written to the cache, and what is returned. -/
def attempt (cache : AList fun _ : String => String) (now : Int) (name : String) (answer : Option String) :
    Option String × Option ContentId :=
  match answer.bind fun record => (verify_b64_seq rlib now name record).toOption.map (record, ·.1) with
  | some (record, cid) => (some record, some cid)
  | none => (none, (cache.lookup name).bind fun b64 => (verify_b64_seq rlib now name b64).toOption.map (·.1))

/-- What an attempt does. -/
def attempted (r : Resolver Key) (c : Nat) (now : Int) (lost : Bool) : Option (Call × Option String × Option ContentId) :=
  match r.calls[c]? with
  | some ⟨name, n, .asked i⟩ => (r.answer i lost).map fun answer => (⟨name, n, .asked i⟩, attempt rlib r.cache now name answer)
  | _ => none

def receive (r : Resolver Key) (c : Nat) (now : Int) (lost : Bool) : Resolver Key :=
  match r.attempted rlib c now lost with
  | some (call, written, cid) => { r with
      cache := match written with
        | some record => r.cache.insert call.name record
        | none => r.cache
      calls := r.calls.set c
        { call with
          attempt := call.attempt + 1
          phase := if cid.isSome || call.attempt = 5 then .returned cid else .asking } }
  | none => r

/-! ### Runs -/

def step (r : Resolver Key) : Act Cid → Resolver Key
  | .gossip now msg => { r with node := { r.node with ipns := Catalog.onCatalogRecord lib r.node.ipns ⟨now, msg⟩ } }
  | .publish now keyName c lifetime seq =>
    match Catalog.publishIPNS lib r.node now keyName c lifetime seq with
    | some (node, _) => { r with node }
    | none => r
  | .playlist now orders name record doc seq =>
    { r with playlists := r.playlists.map fun s => (s.ingest caps now orders name record doc seq).1 }
  | .lookup name => r.ResolveIPNS lib name
  | .found i answer => r.found i answer
  | .resolve name => { r with calls := r.calls ++ [⟨name, 0, .asking⟩] }
  | .ask c => r.ask lib c
  | .receive c now lost => r.receive rlib c now lost

def after (r : Resolver Key) (acts : List (Act Cid)) (k : Nat) : Resolver Key := Runs.state (step lib rlib caps) r acts k

/-- The sequence number of the record the store holds of a name. -/
def storedSeq (name : String) (r : Resolver Key) : Option Nat :=
  ((r.node.ipns.find name).bind (Catalog.seqOf lib)).map (·.toNat)

/-- The sequence number of the record the desktop's cache holds of a name. -/
def cachedSeq (name : String) (r : Resolver Key) : Option Nat :=
  ((r.cache.lookup name).bind (recordOf rlib)).map (·.sequence.toNat)

/-- A message of the topic is valid and newer than the record held. -/
def Takes (s : IpnsStore) (now : Int) (msg : CatalogMsg) : Prop :=
  ∃ pid incoming inSeq, lib.peerDecode msg.name = some pid ∧ lib.unmarshal msg.record = some incoming ∧
    lib.validate now incoming pid = true ∧ lib.sequence incoming = some inSeq ∧
      ∀ cur q, s.find msg.name = some cur → Catalog.seqOf lib cur = some q → q < inSeq

/-- A step puts a record under a name without a look at the one that is held: a publication, or a DHT's answer. -/
def Puts (r : Resolver Key) (name : String) (rec : Bytes) : Act Cid → Prop
  | .publish now keyName c lifetime seq =>
    ∃ node, Catalog.publishIPNS lib r.node now keyName c lifetime seq = some (node, ⟨name, rec⟩)
  | .found i answer => r.lookups[i]? = some ⟨name, none⟩ ∧ answer = some rec
  | _ => False

/-- A step stores a record under a name. -/
def Stores (r : Resolver Key) (name : String) (rec : Bytes) : Act Cid → Prop
  | .gossip now msg => msg = ⟨name, rec⟩ ∧ Takes lib r.node.ipns now msg
  | act => r.Puts lib name rec act

/-- A step that puts a record puts none older than the one held; what the desktop accepts is not older than what it
has. -/
structure Current (r : Resolver Key) (act : Act Cid) : Prop where
  puts : ∀ name rec q q', r.Puts lib name rec act → storedSeq lib name r = some q → Catalog.seqOf lib rec = some q' →
    q ≤ q'.toNat
  accepts : ∀ c now lost call record cid q q', act = .receive c now lost →
    r.attempted rlib c now lost = some (call, some record, cid) → cachedSeq rlib call.name r = some q →
      (recordOf rlib record).map (·.sequence.toNat) = some q' → q ≤ q'

end Resolver

end TrackerStream.Resolve
