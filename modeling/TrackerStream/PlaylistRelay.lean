import TrackerStream.Ipld
import TrackerStream.Runs

/-!
# The node's buffer of playlists (`playlist.go`)

`PlaylistStore` keeps the newest record of each name, drops the names seen longest ago when it is over its caps, and
numbers its writes; `since` is what a client polls with the number it got last. Go ranges over a map in an order of its
own, which is an input of each eviction, as the clock is. The store's own number does not wrap around.
-/

namespace TrackerStream.Relay

structure PlEntry where
  record : Bytes
  doc : Bytes
  seq : UInt64
  ver : Nat
  lastSeen : Int

/-- `playlistStoreEnts` and `playlistStoreBytes`. -/
structure Caps where
  ents : Nat := 8192
  bytes : Int := 16 * 2 ^ 20

structure PlaylistStore where
  entries : AList fun _ : String => PlEntry := ∅
  storeDocs : Bool
  docBytes : Int := 0
  version : Nat := 0

/-- An entry with its name, as a range over the map gives it. -/
abbrev Ranged := Sigma fun _ : String => PlEntry

/-- The order a map is ranged over in. -/
structure MapOrder where
  list : List Ranged → List Ranged
  perm : ∀ es, (list es).Perm es

structure PlaylistRecord where
  name : String
  seq : UInt64
  record : Bytes
  doc : Bytes
deriving DecidableEq

namespace PlaylistStore
variable (caps : Caps)

def entry (s : PlaylistStore) (name : String) : Option PlEntry := s.entries.lookup name

def getRecord (s : PlaylistStore) (name : String) : Option Bytes := (s.entry name).map (·.record)

/-- One step of the range for the entry seen longest ago, with the name and time found so far. -/
def older (o : String × Int) (e : Ranged) : String × Int :=
  if o.1 = "" ∨ e.2.lastSeen < o.2 then (e.1, e.2.lastSeen) else o

def oldest (es : List Ranged) : String := (es.foldl older ("", 0)).1

def remove (s : PlaylistStore) (name : String) : PlaylistStore :=
  { s with
    entries := s.entries.erase name
    docBytes := s.docBytes - ((s.entry name).map (·.doc.length)).getD 0 }

def tooBig (s : PlaylistStore) : Prop := 0 < s.entries.entries.length ∧ (caps.ents < s.entries.entries.length ∨ caps.bytes < s.docBytes)

instance (s : PlaylistStore) : Decidable (s.tooBig caps) := inferInstanceAs (Decidable (_ ∧ _))

/-- `n` entries at most are evicted; `orders` are the orders of the ranges. -/
def evictLocked (s : PlaylistStore) (orders : Nat → MapOrder) : Nat → PlaylistStore
  | 0 => s
  | n + 1 =>
    if s.tooBig caps then (s.remove (oldest ((orders n).list s.entries.entries))).evictLocked orders n else s

/-- The write of `ingest`. -/
def write (s : PlaylistStore) (now : Int) (name : String) (record doc : Bytes) (seq : UInt64) : PlaylistStore :=
  let kept := if s.storeDocs then doc else []
  { s with
    entries := s.entries.insert name ⟨record, kept, seq, s.version + 1, now⟩
    docBytes := s.docBytes - ((s.entry name).map (·.doc.length)).getD 0 + kept.length
    version := s.version + 1 }

/-- The store, and whether the message was newer. -/
def ingest (s : PlaylistStore) (now : Int) (orders : Nat → MapOrder) (name : String) (record doc : Bytes) (seq : UInt64) :
    PlaylistStore × Bool :=
  match s.entry name with
  | some e =>
    if seq ≤ e.seq then ({ s with entries := s.entries.insert name { e with lastSeen := now } }, false)
    else
      let s := s.write now name record doc seq
      (s.evictLocked caps orders s.entries.entries.length, true)
  | none =>
    let s := s.write now name record doc seq
    (s.evictLocked caps orders s.entries.entries.length, true)

/-- What was written after version `v`, and the version. -/
def since (s : PlaylistStore) (v : Nat) : Nat × List PlaylistRecord :=
  (s.version, (s.entries.entries.filter fun e => v < e.2.ver).map fun e => ⟨e.1, e.2.seq, e.2.record, e.2.doc⟩)

end PlaylistStore

/-- A node's buffer and the cursor of a client that polls it. -/
structure Sync where
  store : PlaylistStore
  cursor : Nat := 0

inductive Event
  | ingest (now : Int) (orders : Nat → MapOrder) (name : String) (record doc : Bytes) (seq : UInt64)
  /-- A poll, and whether its answer comes back. -/
  | poll (returned : Bool)

namespace Sync
variable (caps : Caps)

/-- What a poll is answered. -/
def answer (s : Sync) : Nat × List PlaylistRecord := s.store.since s.cursor

def step (s : Sync) : Event → Sync
  | .ingest now orders name record doc seq => { s with store := (s.store.ingest caps now orders name record doc seq).1 }
  | .poll returned => if returned then { s with cursor := s.answer.1 } else s

/-- After the first `k` events, from an empty buffer. -/
def after (storeDocs : Bool) (es : List Event) (k : Nat) : Sync :=
  Runs.state (step caps) { store := { storeDocs } } es k

/-- The event stores the message under its name. -/
def Stores (s : Sync) (e : Event) (name : String) (record : Bytes) (seq : UInt64) : Prop :=
  ∃ now orders doc, e = .ingest now orders name record doc seq ∧ (s.store.ingest caps now orders name record doc seq).2 = true

/-- Each message stored at `j` is in the next answer that comes back, at `k`, if it was not evicted or replaced by a
newer one before. -/
def Complete (storeDocs : Bool) (es : List Event) : Prop :=
  ∀ j k e name record seq, es[j]? = some e → (after caps storeDocs es j).Stores caps e name record seq → j < k →
    es[k]? = some (.poll true) → (∀ m, j < m → m < k → es[m]? ≠ some (.poll true)) →
      (∃ doc, ⟨name, seq, record, doc⟩ ∈ (after caps storeDocs es k).answer.2) ∨
        ∃ m, j < m ∧ m ≤ k ∧ ∀ e, (after caps storeDocs es m).store.entry name = some e → seq < e.seq

/-- No answer that comes back, at `k`, has a record older than one of its name in an earlier such answer, at `j`. -/
def NotOlder (storeDocs : Bool) (es : List Event) : Prop :=
  ∀ j k, j < k → es[j]? = some (.poll true) → es[k]? = some (.poll true) →
    ∀ r ∈ (after caps storeDocs es j).answer.2, ∀ r' ∈ (after caps storeDocs es k).answer.2, r.name = r'.name → r.seq ≤ r'.seq

/-- The same, but for names evicted in between. -/
def NotOlderUnlessEvicted (storeDocs : Bool) (es : List Event) : Prop :=
  ∀ j k, j < k → es[j]? = some (.poll true) → es[k]? = some (.poll true) →
    ∀ r ∈ (after caps storeDocs es j).answer.2, ∀ r' ∈ (after caps storeDocs es k).answer.2, r.name = r'.name →
      r.seq ≤ r'.seq ∨ ∃ m, j < m ∧ m < k ∧ (after caps storeDocs es m).store.entry r.name = none

end Sync

end TrackerStream.Relay
