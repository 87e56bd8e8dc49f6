import TrackerStream.Lru
import TrackerStream.Pool
import TrackerStream.Text
import TrackerStream.Windows

/-!
# Serving playlist lists (`playlistlist.go`)

A peer asks for the list of what a node discloses, and for some of its playlists to be gossiped again. Requests are served
side by side, a goroutine each; they share a token bucket for each peer and the time each name was last gossiped on request,
both in caches. `rate.Limiter` is the parameter `RateLib`; what the peers send, the node's buffer of playlists and the gossip
answer is the environment's `Input`.
-/

namespace TrackerStream.PlaylistList

structure PlaylistListEntry where
  Name : String
  Seq : UInt64
  Title : Bytes
deriving DecidableEq

def plListMaxEntries : Nat := 256
def plListManifestMax : Nat := 1024
def plListWantMax : Nat := 64
def plListTitleMax : Nat := 300
def plListPeerLims : Nat := 4096
def plWantCoolEnts : Nat := 1024
def playlistNameMax : Nat := 128

/-- Seconds, and requests for each of them. -/
def plWantCooldown : ℚ := 30
def plListPeerRate : ℚ := 1 / 10
def plListPeerBurst : ℚ := 4

/-- `rate.Limiter`: a new one of `plListPeerRate` and `plListPeerBurst`, and `Allow` at a time. -/
structure RateLib where
  Limiter : Type
  newLimiter : Limiter
  allow : ℚ → Limiter → Bool × Limiter

variable (lib : RateLib)

/-- The tables of `plListState`, the limiters made so far, and what was let through. -/
structure State where
  clock : ℚ := 0
  manifest : List PlaylistListEntry := []
  limiters : List lib.Limiter := []
  lims : Lru String Nat plListPeerLims := .empty
  cool : Lru String ℚ plWantCoolEnts := .empty
  /-- The peers of the requests that were admitted. -/
  admitted : List String := []
  /-- The names that were let be gossiped again. -/
  reannounced : List String := []

/-- What the environment puts in at an act. -/
structure Input where
  /-- The time since the last act. -/
  elapsed : ℚ≥0 := 0
  /-- The frame of a request. -/
  request : Except String (List String) := .error ""
  /-- What the buffer has of a name. -/
  full : Option (Bytes × Bytes × UInt64) := none
  /-- Whether a message could be gossiped. -/
  sent : Bool := true

inductive Act
  | limsGet (p : String)
  /-- A new limiter for a peer. -/
  | limsAdd (p : String)
  | allow (p : String) (l : Nat)
  | readRequest
  | inManifest (name : String)
  | getFull (name : String)
  | coolGet (name : String)
  | since (t : ℚ)
  | coolAdd (name : String)
  | publishPlaylist (name : String) (rec doc : Bytes)
  | ingest (name : String) (rec doc : Bytes) (seq : UInt64)
  | snapshot (max : Nat)
  | writeMsg (entries : List PlaylistListEntry) (reann : Nat)
  | reset
  | setManifest (entries : List PlaylistListEntry)

abbrev Ans : Act → Type
  | .limsGet _ => Option Nat
  | .limsAdd _ => Nat
  | .allow _ _ => Bool
  | .readRequest => Except String (List String)
  | .inManifest _ => Bool
  | .getFull _ => Option (Bytes × Bytes × UInt64)
  | .coolGet _ => Option ℚ
  | .since _ => ℚ
  | .publishPlaylist _ _ _ => Bool
  | .snapshot _ => List PlaylistListEntry
  | _ => Unit

/-- The entries that `setManifest` keeps, with their titles clamped. -/
def keptEntries (entries : List PlaylistListEntry) : List PlaylistListEntry :=
  ((entries.take plListManifestMax).filter fun e => e.Name ≠ "" ∧ e.Name.utf8ByteSize ≤ playlistNameMax).map
    fun e => { e with Title := e.Title.take plListTitleMax }

/-- What each act does and is answered at the time it is done. -/
def serve : (e : Act) → Input → State lib → Ans e × State lib
  | .limsGet p, _, s => (s.lims.find p, { s with lims := s.lims.touch p })
  | .limsAdd p, _, s =>
    (s.limiters.length, { s with limiters := s.limiters ++ [lib.newLimiter], lims := s.lims.add p s.limiters.length })
  | .allow p l, _, s =>
    match s.limiters[l]? with
    | some limiter =>
      ((lib.allow s.clock limiter).1,
        { s with
          limiters := s.limiters.set l (lib.allow s.clock limiter).2
          admitted := if (lib.allow s.clock limiter).1 then p :: s.admitted else s.admitted })
    | none => (false, s)
  | .readRequest, i, s => (i.request, s)
  | .inManifest name, _, s => (s.manifest.any (·.Name = name), s)
  | .getFull _, i, s => (i.full, s)
  | .coolGet name, _, s => (s.cool.find name, { s with cool := s.cool.touch name })
  | .since t, _, s => (s.clock - t, s)
  | .coolAdd name, _, s => ((), { s with cool := s.cool.add name s.clock, reannounced := name :: s.reannounced })
  | .publishPlaylist _ _ _, i, s => (i.sent, s)
  | .ingest _ _ _ _, _, s => ((), s)
  | .snapshot max, _, s => (s.manifest.take max, s)
  | .writeMsg _ _, _, s => ((), s)
  | .reset, _, s => ((), s)
  | .setManifest entries, _, s => ((), { s with manifest := keptEntries entries })

def world : Prog.World Act Ans Input (State lib) := fun e i s => serve lib e i { s with clock := s.clock + i.elapsed }

abbrev Serving (α : Type) := Prog Act Ans String α

def act (e : Act) : Serving (Ans e) := .call e

/-- Charge one request against the bucket of the peer. -/
def allow (p : String) : Serving Bool := do
  let l : Option Nat ← act (.limsGet p)
  match l with
  | some l => act (.allow p l)
  | none =>
    let l : Nat ← act (.limsAdd p)
    act (.allow p l)

def wantAllowed (name : String) : Serving Bool := do
  let t : Option ℚ ← act (.coolGet name)
  match t with
  | some t =>
    let since : ℚ ← act (.since t)
    if since < plWantCooldown then return false
    else
      act (.coolAdd name)
      return true
  | none =>
    act (.coolAdd name)
    return true

/-- One name of a request; how many were gossiped again. -/
def reannounce (reann : Nat) (name : String) : Serving Nat := do
  let listed : Bool ← act (.inManifest name)
  if !listed then return reann
  else
    let full : Option (Bytes × Bytes × UInt64) ← act (.getFull name)
    match full with
    | none => return reann
    | some (rec, doc, seq) =>
      let allowed ← wantAllowed name
      if !allowed then return reann
      else
        let sent : Bool ← act (.publishPlaylist name rec doc)
        if !sent then return reann
        else
          act (.ingest name rec doc seq)
          return reann + 1

def handlePlaylistList (p : String) : Serving Unit := do
  let allowed ← allow p
  if !allowed then act .reset
  else
    let req : Except String (List String) ← act .readRequest
    match req with
    | .error _ => act .reset
    | .ok want =>
      let reann ← (want.take plListWantMax).foldlM reannounce 0
      let entries : List PlaylistListEntry ← act (.snapshot plListMaxEntries)
      act (.writeMsg entries reann)

inductive Op
  | handlePlaylistList (p : String)
  | setManifest (entries : List PlaylistListEntry)

def Op.prog : Op → Serving Unit
  | handlePlaylistList p => PlaylistList.handlePlaylistList p
  | setManifest entries => act (.setManifest entries)

def system : Prog.System Act Ans String Input (State lib) Op := ⟨world lib, fun _ _ => true, Op.prog⟩

end TrackerStream.PlaylistList
