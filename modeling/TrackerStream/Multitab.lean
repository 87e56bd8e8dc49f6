import TrackerStream.Rpc
import TrackerStream.Runs

/-!
# Tabs of one origin (`multitab/`)

One tab holds the Web Lock and runs the node; the others post their calls on a BroadcastChannel and take the replies
addressed to them. When the leader's tab goes, the lock wakes a follower, which starts a node of its own, serves the
others, and gives up what it had in flight, as every follower does when it hears of another leader.

A tab has two channels, the follower's and the server's; what a channel posts is queued for each other one that is open,
and read in order from each sender. The ids of `randomUUID` are the tabs' numbers.
-/

namespace TrackerStream.Multitab
open Rpc

structure Request (Arg : Type) where
  method : String
  args : List Arg
deriving DecidableEq

/-- Methods with a streaming callback, and its place among the arguments. -/
def STREAMING_ARG (method : String) : Option Nat :=
  if method = "catalog.searchStream" ∨ method = "media.startStream" then some 1 else none

inductive Msg (Arg : Type)
  | req (sender id : Nat) (r : Request Arg)
  /-- `cb`, `ok` and `err`. -/
  | reply (target id : Nat) (r : Reply Arg)
  | probe (sender : Nat)
  | hello (leader : Nat)
  | changed
deriving DecidableEq

inductive Chan
  | follower (tab : Nat)
  | server (tab : Nat)
deriving DecidableEq

structure Follower where
  seq : Nat := 0
  inflight : List Nat := []
  leaderId : Option Nat := none
  ready : Bool := false
  /-- `local` is set and the channel closed. -/
  promoted : Bool := false
deriving DecidableEq

/-- A call gets the next id. -/
def Follower.send (f : Follower) : Follower := { f with seq := f.seq + 1, inflight := f.inflight ++ [f.seq + 1] }

/-- A request as it was posted: the leader the follower knew of, and the one that was listening. -/
structure Posted (Arg : Type) where
  request : Request Arg
  addressed : Option Nat
  listening : Option Nat
deriving DecidableEq

structure World (Arg : Type) where
  opened : Nat := 0
  alive : Nat → Bool := fun _ => false
  follower : Nat → Option Follower := fun _ => none
  /-- The tab's leader server has started. -/
  serving : Nat → Bool := fun _ => false
  lock : Option Nat := none
  /-- What is on its way from one channel to another. -/
  queue : Chan → Chan → List (Msg Arg) := fun _ _ => []
  posted : Nat → Nat → Option (Posted Arg) := fun _ _ => none
  /-- The executions of a follower's request. -/
  execs : Nat → Nat → List (Execution Nat (Request Arg) Arg) := fun _ _ => []
  /-- What the caller of a follower's call has seen. -/
  seen : Nat → Nat → List (Event Arg) := fun _ _ => []
  /-- The leaders, in the order their servers started in. -/
  terms : List Nat := []

inductive Act (Arg : Type)
  | boot
  | grant (tab : Nat)
  /-- `WebClient.create` is done in the tab that holds the lock. -/
  | created (tab : Nat)
  | die (tab : Nat)
  | probe (tab : Nat)
  | call (tab : Nat) (r : Request Arg)
  | deliver (s r : Chan)
  | emit (follower id i : Nat) (arg : Arg)
  | finish (follower id i : Nat) (result : Except String Arg)
  | changed (tab : Nat)

namespace World
variable {Arg : Type}

def isOpen (w : World Arg) : Chan → Bool
  | .follower t => w.alive t && (w.follower t).any fun f => !f.promoted
  | .server t => w.alive t && w.serving t

/-- The tab whose server is listening. -/
def listening (w : World Arg) : Option Nat := w.lock.filter fun t => w.isOpen (.server t)

def post (w : World Arg) (s : Chan) (m : Msg Arg) : World Arg :=
  { w with queue := fun s' r => if s' = s ∧ r ≠ s ∧ w.isOpen r = true then w.queue s' r ++ [m] else w.queue s' r }

def pop (w : World Arg) (s r : Chan) : World Arg :=
  { w with queue := fun s' r' => if s' = s ∧ r' = r then (w.queue s r).tail else w.queue s' r' }

def setFollower (w : World Arg) (t : Nat) (f : Follower) : World Arg :=
  { w with follower := Function.update w.follower t (some f) }

def see (w : World Arg) (t id : Nat) (e : Event Arg) : World Arg :=
  { w with seen := fun t' id' => if t' = t ∧ id' = id then w.seen t' id' ++ [e] else w.seen t' id' }

/-! ### The follower -/

def failInflight (w : World Arg) (t : Nat) (f : Follower) (why : String) : World Arg :=
  { w.setFollower t { f with inflight := [] } with
    seen := fun t' id => if t' = t ∧ id ∈ f.inflight then w.seen t' id ++ [.settled (.lost why)] else w.seen t' id }

def onMsg (w : World Arg) (t : Nat) (f : Follower) : Msg Arg → World Arg
  | .hello leader =>
    let f' := { f with leaderId := some leader, ready := true }
    if f.leaderId.any (· ≠ leader) then w.failInflight t f' "leader changed" else w.setFollower t f'
  | .reply target id r =>
    if target = t ∧ id ∈ f.inflight then
      (if r.isResult then w.setFollower t { f with inflight := f.inflight.filter (· ≠ id) } else w).see t id r.event
    else w
  | _ => w

/-- A call before the tab was promoted; after that it goes to the tab's own node. -/
def rpc (w : World Arg) (t : Nat) (f : Follower) (r : Request Arg) : World Arg :=
  { (w.setFollower t f.send).post (.follower t) (.req t f.send.seq r) with
    posted := fun t' id' => if t' = t ∧ id' = f.send.seq then some ⟨r, f.leaderId, w.listening⟩ else w.posted t' id' }

/-! ### The leader -/

def startLeaderServer (w : World Arg) (t : Nat) : World Arg :=
  { w with serving := Function.update w.serving t true, terms := w.terms ++ [t] }.post (.server t) (.hello t)

/-- `promote` once the node is there. -/
def promote (w : World Arg) (t : Nat) (f : Follower) : World Arg :=
  (w.startLeaderServer t).failInflight t { f with ready := true, promoted := true } "promoted to leader"

def onRequest (w : World Arg) (t : Nat) : Msg Arg → World Arg
  | .probe _ => w.post (.server t) (.hello t)
  | .req sender id r => { w with execs := fun t' id' =>
      if t' = sender ∧ id' = id then w.execs t' id' ++ [{ server := t, request := r }] else w.execs t' id' }
  | _ => w

def resultReply : Except String Arg → Reply Arg
  | .ok value => .ok value
  | .error message => .err message

/-- An execution posts a reply. -/
def answer (w : World Arg) (t id i : Nat) (e : Execution Nat (Request Arg) Arg) (r : Reply Arg) : World Arg :=
  { w with execs := fun t' id' =>
      if t' = t ∧ id' = id then (w.execs t id).set i { e with posted := e.posted ++ [r] } else w.execs t' id' }.post
    (.server e.server) (.reply t id r)

/-! ### Steps -/

def step (w : World Arg) : Act Arg → World Arg
  | .boot =>
    let w' := { w with opened := w.opened + 1, alive := Function.update w.alive w.opened true }
    if w.lock = none then { w' with lock := some w.opened } else w'.setFollower w.opened {}
  | .grant t => if w.lock = none ∧ w.alive t ∧ (w.follower t).isSome then { w with lock := some t } else w
  | .created t =>
    if w.lock = some t ∧ w.alive t ∧ !w.serving t then
      match w.follower t with
      | none => w.startLeaderServer t
      | some f => w.promote t f
    else w
  | .die t => { w with alive := Function.update w.alive t false, lock := if w.lock = some t then none else w.lock }
  | .probe t =>
    if w.isOpen (.follower t) ∧ (w.follower t).any (·.leaderId.isNone) then w.post (.follower t) (.probe t) else w
  | .call t r =>
    match w.follower t with
    | some f => if w.isOpen (.follower t) ∧ f.ready then w.rpc t f r else w
    | none => w
  | .deliver s r =>
    match w.queue s r with
    | [] => w
    | m :: _ =>
      if w.isOpen r then
        match r with
        | .follower t =>
          match w.follower t with
          | some f => (w.pop s r).onMsg t f m
          | none => w
        | .server t => (w.pop s r).onRequest t m
      else w
  | .emit t id i arg =>
    match (w.execs t id)[i]? with
    | some e =>
      if w.isOpen (.server e.server) ∧ (STREAMING_ARG e.request.method).isSome then w.answer t id i e (.cb arg) else w
    | none => w
  | .finish t id i result =>
    match (w.execs t id)[i]? with
    | some e =>
      if w.isOpen (.server e.server) ∧ e.posted.all (!·.isResult) then
        w.answer t id i e (resultReply result)
      else w
    | none => w
  | .changed t => if w.isOpen (.server t) then w.post (.server t) .changed else w

def after (acts : List (Act Arg)) (k : Nat) : World Arg := Runs.state step {} acts k

/-! ### What is to hold -/

/-- The second server started after the first. -/
def ElectedAfter (w : World Arg) (a b : Nat) : Prop := [a, b].Sublist w.terms

/-- What was given up is executed by no leader after the one it was addressed to. -/
def NotRepeated (acts : List (Act Arg)) : Prop :=
  ∀ t id why k, .settled (.lost why) ∈ (after acts k).seen t id → ∀ m, ∀ e ∈ (after acts m).execs t id, ∀ a,
    ((after acts m).posted t id).bind (·.addressed) = some a → ¬ ElectedAfter (after acts m) a e.server

/-- A call is made while the server that listens, if any, is the leader its follower knows of. -/
def informed (w : World Arg) : Act Arg → Bool
  | .call t _ => !w.isOpen (.follower t) || (w.follower t).all fun f => w.listening.all fun l => f.leaderId = some l
  | _ => true

end World

end TrackerStream.Multitab
