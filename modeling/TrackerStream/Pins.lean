import TrackerStream.Ipld
import TrackerStream.Runs
import TrackerStream.WriteBehind

/-!
# The node's pins (`pins.go`)

`Pinset` keeps the pinned CIDs with their kinds in memory and one entry for each in the datastore. `add` and `Remove`
change the memory under the lock and the datastore outside it, so calls overlap; `newPinset` folds the blob that older
nodes kept into entries and loads them. CIDs and JSON are libraries of the code, the parameters `Lib`.
-/

namespace TrackerStream.Pins

abbrev PinKind := UInt8

def KindRoot : PinKind := 0
def KindTrackRoot : PinKind := 1
def KindCatalogPiece : PinKind := 2

structure Lib (Cid : Type) where
  /-- `cid.Decode`. -/
  decode : String → Option Cid
  string : Cid → String
  unmarshalMap : Bytes → Option (AList fun _ : String => PinKind)
  unmarshalArray : Bytes → Option (List String)

/-- The blob under `pinKey`, and the entries under `pinPrefix` by the last part of their key. -/
structure Datastore where
  blob : Option Bytes := none
  items : AList fun _ : String => Bytes := ∅

/-- The order a map is ranged over in. -/
structure RangeOrder where
  list : List (Sigma fun _ : String => PinKind) → List (Sigma fun _ : String => PinKind)
  perm : ∀ es, (list es).Perm es

/-- What `newPinset` asks of the datastore, each of which may fail. -/
inductive LoadStep
  | get | batch | put | delete | commit | query | next

variable {Cid : Type} [DecidableEq Cid] (lib : Lib Cid)

/-- The CIDs in memory with their kinds. -/
abbrev Roots (Cid : Type) := AList fun _ : Cid => PinKind

/-! ### Loading -/

/-- The strings of the blob with their kinds: a map, or else an array of roots. -/
def blobPins (order : RangeOrder) (data : Bytes) : List (String × PinKind) :=
  match lib.unmarshalMap data with
  | some kinds => (order.list kinds.entries).map fun e => (e.1, e.2)
  | none => ((lib.unmarshalArray data).getD []).map (·, KindRoot)

/-- A string that is not a CID is skipped. -/
def pin (roots : Roots Cid) (p : String × PinKind) : Roots Cid :=
  match lib.decode p.1 with
  | some c => roots.insert c p.2
  | none => roots

def pinAll (roots : Roots Cid) (pins : List (String × PinKind)) : Roots Cid := pins.foldl (pin lib) roots

def parseLegacyPins (order : RangeOrder) (data : Bytes) : Roots Cid := pinAll lib ∅ (blobPins lib order data)

def kindOf : Bytes → PinKind
  | [k] => k
  | _ => KindRoot

/-- The entries loaded over what the memory has. -/
def loadItems (roots : Roots Cid) (items : AList fun _ : String => Bytes) : Roots Cid :=
  pinAll lib roots (items.entries.map fun e => (e.1, kindOf e.2))

def put (items : AList fun _ : String => Bytes) (c : Cid) (k : PinKind) : AList fun _ : String => Bytes :=
  items.insert (lib.string c) [k]

/-- The datastore's step of a call. -/
def write (ds : Datastore) (c : Cid) : Option PinKind → Datastore
  | some k => { ds with items := put lib ds.items c k }
  | none => { ds with items := ds.items.erase (lib.string c) }

/-- What the batch makes of a datastore. -/
def migrated (ds : Datastore) (legacy : Roots Cid) : Datastore :=
  { blob := none, items := legacy.entries.foldl (fun items e => put lib items e.1 e.2) ds.items }

/-- The datastore after a load, and the memory if none of its steps failed. -/
def newPinset (order : RangeOrder) (fails : LoadStep → Bool) (ds : Datastore) : Datastore × Option (Roots Cid) :=
  let load (ds : Datastore) (roots : Roots Cid) :=
    if fails .query || fails .next then (ds, none) else (ds, some (loadItems lib roots ds.items))
  if fails .get then (ds, none)
  else
    match ds.blob with
    | none => load ds ∅
    | some data =>
      let legacy := parseLegacyPins lib order data
      if fails .batch || !legacy.entries.isEmpty && fails .put || fails .delete || fails .commit then (ds, none)
      else load (migrated lib ds legacy) legacy

/-! ### Calls -/

inductive Op
  | Add | AddTrackRoot | AddCatalogPiece | Remove

/-- The kind a CID has after a call, none if it is removed. -/
def Op.kind : Op → Option PinKind
  | Add => some KindRoot
  | AddTrackRoot => some KindTrackRoot
  | AddCatalogPiece => some KindCatalogPiece
  | Remove => none

/-- A call past its step in memory; `found` is what that step replaced. -/
structure Call (Cid : Type) where
  id : Nat
  cid : Cid
  op : Op
  found : Option PinKind

structure Pinset (Cid : Type) where
  roots : Roots Cid
  ds : Datastore
  calls : List (Call Cid) := []
  /-- The number of the next call. -/
  next : Nat := 0

/-- The two steps of a call: in memory, and in the datastore, where it may fail. -/
inductive Act (Cid : Type)
  | call (c : Cid) (op : Op)
  | finish (id : Nat) (fails : Bool)

namespace Pinset

def step (p : Pinset Cid) : Act Cid → Pinset Cid
  | .call c op => { p with
      roots := match op.kind with
        | some k => p.roots.insert c k
        | none => p.roots.erase c
      calls := p.calls ++ [⟨p.next, c, op, p.roots.lookup c⟩]
      next := p.next + 1 }
  | .finish id fails =>
    match p.calls.find? (·.id = id) with
    | none => p
    | some call => { p with
        ds := if fails then p.ds else write lib p.ds call.cid call.op.kind
        calls := p.calls.filter (·.id ≠ id) }

def after (p : Pinset Cid) (acts : List (Act Cid)) (k : Nat) : Pinset Cid := Runs.state (step lib) p acts k

/-- What `newPinset` would load. -/
def Loads (ds : Datastore) (roots : Roots Cid) : Prop :=
  ∀ order, ∃ roots', (newPinset lib order (fun _ => false) ds).2 = some roots' ∧ ∀ c, roots.lookup c = roots'.lookup c

/-- Without a call in progress the memory is what would be loaded, and a call that returned an error changed neither. -/
structure Durable (p : Pinset Cid) (acts : List (Act Cid)) : Prop where
  settled : ∀ k, (p.after lib acts k).calls = [] → Loads lib (p.after lib acts k).ds (p.after lib acts k).roots
  errors : ∀ j k c op, acts[j]? = some (.call c op) → acts[k]? = some (.finish (p.after lib acts j).next true) →
    (∃ call ∈ (p.after lib acts k).calls, call.id = (p.after lib acts j).next) →
      (∀ c', (p.after lib acts (j + 1)).roots.lookup c' = (p.after lib acts j).roots.lookup c') ∧
        (p.after lib acts (k + 1)).ds = (p.after lib acts k).ds

/-- The datastore's step of a call overtakes no call on its CID with another effect, and fails only if the memory's step
changed nothing. -/
def InOrder (p : Pinset Cid) : Act Cid → Prop
  | .call _ _ => True
  | .finish id fails => ∀ call ∈ p.calls, call.id = id →
    (fails = true → call.op.kind = call.found) ∧
      (fails = false → ∀ call' ∈ p.calls, call'.id < id → call'.cid = call.cid → call'.op.kind = call.op.kind)

instance (p : Pinset Cid) : (act : Act Cid) → Decidable (p.InOrder act)
  | .call _ _ => isTrue trivial
  | .finish id fails => inferInstanceAs (Decidable (∀ call ∈ p.calls, call.id = id →
      (fails = true → call.op.kind = call.found) ∧
        (fails = false → ∀ call' ∈ p.calls, call'.id < id → call'.cid = call.cid → call'.op.kind = call.op.kind)))

end Pinset

/-! ### The blob -/

/-- The entries have the keys of CIDs, or keys that are not read. -/
def Datastore.Canonical (ds : Datastore) : Prop := ∀ s c, s ∈ ds.items → lib.decode s = some c → s = lib.string c

/-- The pins of the blob, with a kind it gives them, and besides these the entries. -/
def Yields (ds : Datastore) (roots : Roots Cid) : Prop :=
  ∀ c, (∃ order data s k, ds.blob = some data ∧ (s, k) ∈ blobPins lib order data ∧ lib.decode s = some c ∧
      roots.lookup c = some k) ∨
    (∀ order data s k, ds.blob = some data → (s, k) ∈ blobPins lib order data → lib.decode s ≠ some c) ∧
      roots.lookup c = (ds.items.lookup (lib.string c)).map kindOf

/-- A load, and whether each of its steps fails. -/
structure Load where
  order : RangeOrder
  fails : LoadStep → Bool

/-- The datastore after loads one after another. -/
def afterLoads (ds : Datastore) (loads : List Load) : Datastore :=
  loads.foldl (fun ds l => (newPinset lib l.order l.fails ds).1) ds

end TrackerStream.Pins
