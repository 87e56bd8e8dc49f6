import TrackerStream.Ipns
import TrackerStream.Pool

/-!
# Fetching blocks away from the seed (`blockfetch.ts`)

`makeOffloadFetch`: a block is read from the local store, else asked of a donor that lately delivered, else of
those that say they have it, one after the other, else of the seed, and at last of everyone by Helia's own `get`.
All fetches of a page share who delivered and how often, and until when no donors are looked for. A peer is its
id's text, the seed is `masterId`; a want is sent by one act and comes to its end, an answer or a failure, in
another. Every act is one step, also those that the code does without an `await` between them.
-/

namespace TrackerStream
namespace BlockFetch

def HAVER_TTL_MS : ℚ := 30000
def NO_DONOR_COOLDOWN_MS : ℚ := 4000
def SEED_ATTEMPTS : Nat := 3

/-- `sha256.code` -/
def SHA2_256 : Nat := 0x12

structure SessionResult where
  has : Bool
  block : Option Bytes := none
deriving DecidableEq

/-- The connected peers that speak bitswap. -/
abbrev PeerSet := {l : List String // l.Nodup}

structure State where
  firstResponder : String → Option Nat := fun _ => none
  recentHavers : String → Option ℚ := fun _ => none
  noDonorUntil : ℚ := 0
  /-- The blocks the fetches have put in the store. -/
  stored : List (ContentId × Bytes) := []

inductive Act
  | localGet (cid : ContentId)
  | peers
  | now
  | known (cands : List String) (now : ℚ)
  | choose (peers : List String)
  | cooling (now : ℚ)
  | wantSessionPresence (cid : ContentId) (peer : String)
  | presence (cid : ContentId) (peer : String)
  | backOff (now : ℚ)
  | wantSessionBlock (cid : ContentId) (peer : String)
  | answer (cid : ContentId) (peer : String)
  | digest (bytes : Bytes)
  | put (cid : ContentId) (bytes : Bytes)
  | delivered (peer : String) (now : ℚ)
  | get (cid : ContentId)
  | got (cid : ContentId)
  | resolve (cid : ContentId) (bytes : Bytes)

/-- `get` is answered with the peers it sends the want to. -/
def Ans : Act → Type
  | .localGet _ => Option Bytes
  | .peers => PeerSet
  | .now => ℚ
  | .known .. => List String
  | .choose _ => String
  | .cooling _ => Bool
  | .presence .. => Except String SessionResult
  | .answer .. => Except String SessionResult
  | .digest _ => Except String Bytes
  | .put .. => Except String Unit
  | .get _ => List String
  | .got _ => Except String Bytes
  | _ => Unit

/-- What the environment puts in at an act. -/
structure Input where
  resident : Option Bytes := none
  connected : PeerSet := ⟨[], .nil⟩
  now : ℚ := 0
  random : ℚ := 0
  answer : Except String SessionResult := .error "aborted"
  /-- Whether the hash could be computed, and the block stored. -/
  hashed : Except String Unit := .ok ()
  stored : Except String Unit := .ok ()
  got : Except String Bytes := .error "aborted"

section
variable (firstResponder : String → Option Nat)

def weight (p : String) : ℚ := (firstResponder p).getD 0 + 1

/-- The walk over the peers; it comes to `last` when it runs off their end. -/
def pick (last : String) : ℚ → List String → String
  | _, [] => last
  | r, p :: ps => if r - weight firstResponder p ≤ 0 then p else pick last (r - weight firstResponder p) ps

def choose (random : ℚ) (peers : List String) : String :=
  pick firstResponder (peers.getLastD "") (random * (peers.map (weight firstResponder)).sum) peers

end

/-- The peers that delivered within the last `HAVER_TTL_MS`. -/
def recent (recentHavers : String → Option ℚ) (cands : List String) (now : ℚ) : List String :=
  cands.filter fun p => (recentHavers p).any fun t => now - t < HAVER_TTL_MS

/-- `pool.splice(pool.indexOf(pick), 1)` -/
def splice (pool : List String) (pick : String) : List String :=
  match pool.idxOf? pick with
  | some i => pool.eraseIdx i
  | none => pool.dropLast

variable (sha256 : Bytes → Bytes) (masterId : String)

def world : Prog.World Act Ans Input State
  | .localGet _, i, s => (i.resident, s)
  | .peers, i, s => (i.connected, s)
  | .now, i, s => (i.now, s)
  | .known cands now, _, s => (recent s.recentHavers cands now, s)
  | .choose peers, i, s => (choose s.firstResponder i.random peers, s)
  | .cooling now, _, s => (decide (now < s.noDonorUntil), s)
  | .wantSessionPresence .., _, s => ((), s)
  | .presence .., i, s => (i.answer, s)
  | .backOff now, _, s => ((), { s with noDonorUntil := now + NO_DONOR_COOLDOWN_MS })
  | .wantSessionBlock .., _, s => ((), s)
  | .answer .., i, s => (i.answer, s)
  | .digest bytes, i, s => (i.hashed.map fun _ => sha256 bytes, s)
  | .put cid bytes, i, s =>
    (i.stored, match i.stored with
      | .ok _ => { s with stored := (cid, bytes) :: s.stored }
      | .error _ => s)
  | .delivered peer now, _, s =>
    ((), { s with
      firstResponder := Function.update s.firstResponder peer (some ((s.firstResponder peer).getD 0 + 1))
      recentHavers := Function.update s.recentHavers peer (some now) })
  | .get _, i, s => (i.connected.1, s)
  | .got _, i, s => (i.got, s)
  | .resolve .., _, s => ((), s)

abbrev Fetching (α : Type) := Prog Act Ans String α

def act (e : Act) : Fetching (Ans e) := .call e

variable (cid : ContentId)

/-- The connected peers but the seed. -/
def donors : Fetching (List String) := do
  let peers : PeerSet ← act .peers
  return peers.1.filter (· ≠ masterId)

def verifyPut (bytes : Bytes) : Fetching Unit := do
  if cid.hashCode = SHA2_256 then
    let mh : Except String Bytes ← act (.digest bytes)
    let digest ← .ofExcept mh
    if digest ≠ cid.digest then .fail "block hash mismatch"
  let stored : Except String Unit ← act (.put cid bytes)
  .ofExcept stored

/-- The `try` of `wantBlockFrom`. -/
def deliver (peer : String) (now : ℚ) : Fetching (Option Bytes) := do
  act (.wantSessionBlock cid peer)
  let r : Except String SessionResult ← act (.answer cid peer)
  let r ← .ofExcept r
  match r.has, r.block with
  | true, some block => do
    verifyPut cid block
    act (.delivered peer now)
    return some block
  | _, _ => return none

def wantBlockFrom (peer : String) (now : ℚ) : Fetching (Option Bytes) := do
  match ← (deliver cid peer now).attempt with
  | .ok got => return got
  | .error _ => return none

/-- The end of one WANT-HAVE. -/
def hear (havers : List String) (p : String) : Fetching (List String) := do
  let r : Except String SessionResult ← act (.presence cid p)
  return match r with
    | .ok r => if r.has then havers ++ [p] else havers
    | .error _ => havers

/-- The wants go out side by side, and the answers are taken as they come to their end. -/
def discover (cands : List String) : Fetching (List String) := do
  cands.foldlM (fun _ p => act (.wantSessionPresence cid p)) ()
  cands.foldlM (hear cid) []

/-- The loop over the pool, which is shorter by one after each round. -/
def drain (now : ℚ) : Nat → List String → Fetching (Option Bytes)
  | 0, _ => return none
  | _ + 1, [] => return none
  | n + 1, pool => do
    let pick : String ← act (.choose pool)
    match ← wantBlockFrom cid pick now with
    | some got => return some got
    | none => drain now n (splice pool pick)

/-- The round of `tryOffload` that asks the donors who has the block. -/
def offloadRound (cands : List String) (now : ℚ) : Fetching (Option Bytes) := do
  let cooling : Bool ← act (.cooling now)
  if cooling then return none
  else
    let havers ← discover cid cands
    if havers.isEmpty then
      act (.backOff now)
      return none
    else drain cid now havers.length havers

def tryOffload : Fetching (Option Bytes) := do
  let cands ← donors masterId
  if cands.isEmpty then return none
  else
    let now : ℚ ← act .now
    let known : List String ← act (.known cands now)
    if known.isEmpty then offloadRound cid cands now
    else
      let first : String ← act (.choose known)
      match ← wantBlockFrom cid first now with
      | some got => return some got
      | none => offloadRound cid cands now

def wantSeed : Nat → Fetching (Option Bytes)
  | 0 => return none
  | i + 1 => do
    let now : ℚ ← act .now
    match ← wantBlockFrom cid masterId now with
    | some got => return some got
    | none => wantSeed i

/-- Helia's own `get`, which sends the want to every connected peer. -/
def lastResort : Fetching Unit := do
  let _ : List String ← act (.get cid)
  let r : Except String Bytes ← act (.got cid)
  let bytes ← .ofExcept r
  act (.resolve cid bytes)

def fetch : Fetching Unit := do
  let resident : Option Bytes ← act (.localGet cid)
  match resident with
  | some bytes => act (.resolve cid bytes)
  | none =>
    match ← (tryOffload masterId cid).attempt with
    | .ok (some bytes) => act (.resolve cid bytes)
    | _ =>
      match ← wantSeed masterId cid SEED_ATTEMPTS with
      | some bytes => act (.resolve cid bytes)
      | none => lastResort cid

/-- Wants of `wantSessionPresence` and `wantSessionBlock` end by their timeouts; when Helia's `get` has an end is up to Helia
and the peers it asks. -/
def system (ends : ContentId → State → Bool) : Prog.System Act Ans String Input State ContentId where
  world := world sha256
  enabled
    | .got cid, s => ends cid s
    | _, _ => true
  prog := fetch masterId

end BlockFetch
end TrackerStream
