import TrackerStream.Processor

/-!
# Playing a track on the main thread (`player.svelte.ts`, `ModPlayer.svelte.ts`)

`playModule` may be called while earlier calls are still running. A call is known by its `playEpoch`; what it waits
for is a `Wait`, and so is what a handler of its stream waits for. Between two waits the code runs undisturbed:
`resume` is what it does once a wait is over. A `Post` tells which call a message to the worklet is from.
-/

namespace TrackerStream.Player

structure ModuleHit where
  rootCid : String
  title : String
deriving DecidableEq, Repr

/-- `nowPlaying`. -/
structure NowPlaying where
  hit : Option ModuleHit := none
  pct : Nat := 0
  streaming : Bool := false
  buffering : Bool := false
  bufferedSeconds : ℚ := 0
  error : String := ""
deriving DecidableEq

inductive StreamEvent
  | skeleton (samples : Nat) (plan : Plan)
  | sample (index frames : Nat)
  | complete
  | error (message : String)

/-- What a call of `playModule` keeps for its stream. -/
structure Call where
  hit : ModuleHit
  /-- `startStream` has been called. -/
  streaming : Bool := false
  total : Nat := 0
  got : Nat := 0
  /-- `inited` has resolved. -/
  inited : Bool := false

/-- What is being waited for. -/
inductive Wait
  /-- `player.init()`, in its `addModule`. -/
  | addModule
  | init
  /-- `connectPeer`, with so many addresses left. -/
  | connectPeer (left : Nat)
  | ensureConnected
  | startStream
  | getSkeleton (plan : Plan)
  /-- `player.loadStream`, in the `addModule` of its `init`. -/
  | loadAddModule (skeleton : Bytes) (plan : Plan)
  | loadInit (skeleton : Bytes) (plan : Plan)
  | loadStream
  /-- `player.play`, in the `addModule` of its `init`. -/
  | playAddModule
  | playInit
  | resumeContext
  | play
  | getSample (index frames : Nat)
  | inited (index frames : Nat) (pcm : Bytes)

/-- A wait of a handler of the stream; the others are of `playModule` itself. -/
def Wait.ofHandler : Wait → Bool
  | addModule | init | connectPeer _ | ensureConnected | startStream => false
  | _ => true

structure Task where
  call : Nat
  wait : Wait

/-- A message to the worklet: its node, and the call it is from. -/
structure Post where
  node : Nat
  call : Nat
  msg : ToWorklet

/-- How a wait ends: with the bytes that were asked for, if any, or with an error. -/
inductive Outcome
  | ok (bytes : Bytes)
  | reject (err : String)

end Player

open Player

structure Player where
  playEpoch : Nat := 0
  nowPlaying : NowPlaying := {}
  bufferFence : Option Fence := none
  planOrderSeconds : List OrderSeconds := []
  connected : Bool := false
  /-- `ModPlayer`: the nodes made so far, of which it has the last, and what it knows of the module. -/
  nodes : Nat := 0
  durationSeconds : Option ℚ := none
  playing : Bool := false
  calls : Nat → Call := fun _ => ⟨⟨"", ""⟩, false, 0, 0, false⟩
  tasks : List Task := []
  posted : List Post := []

namespace Player

def updateCall (s : Player) (k : Nat) (f : Call → Call) : Player :=
  { s with calls := Function.update s.calls k (f (s.calls k)) }

def send (s : Player) (k : Nat) (msg : ToWorklet) : Player :=
  if s.nodes = 0 then s else { s with posted := s.posted ++ [⟨s.nodes, k, msg⟩] }

def recomputeBuffered (s : Player) : Player :=
  match s.bufferFence with
  | none => s
  | some f =>
    let last := (s.planOrderSeconds.getLast?.map (·.seconds)).getD 0
    let dur := match s.durationSeconds with
      | some d => if d = 0 then last else d
      | none => last
    { s with nowPlaying := { s.nowPlaying with bufferedSeconds := f.playableSeconds s.planOrderSeconds dur } }

/-! ### `ModPlayer` -/

/-- `init()`: at once if there is a graph, else after `addModule`. -/
def awaitInit (s : Player) (done adding : Wait) : Wait := if s.nodes ≠ 0 then done else adding

/-- The end of `init`: the node is made. -/
def makeNode (s : Player) : Player := { s with nodes := s.nodes + 1 }

/-- `loadStream` after its `init`. -/
def load (s : Player) (k : Nat) (skeleton : Bytes) (plan : Plan) : Player :=
  { s with durationSeconds := none, playing := false }.send k (.init skeleton plan)

def provideSample (s : Player) (k index frames : Nat) (pcm : Bytes) : Player := s.send k (.provideSample index frames pcm)

/-- `play` after its waits. -/
def startPlaying (s : Player) (k : Nat) : Player := { s with playing := true }.send k .play

/-! ### `playModule` -/

/-- `ensureConnected`: nothing to do, or the first address. -/
def ensureConnected (s : Player) (addrs : Nat) : Wait :=
  if s.connected then .ensureConnected
  else
    match addrs with
    | 0 => .ensureConnected
    | left + 1 => .connectPeer left

/-- What `playModule` does up to its first wait. -/
def playModule (s : Player) (hit : ModuleHit) : Player :=
  let epoch := s.playEpoch + 1
  { s with
    nowPlaying := { hit := some hit, pct := 0, streaming := true, buffering := true, bufferedSeconds := 0, error := "" }
    bufferFence := none
    planOrderSeconds := []
    playEpoch := epoch
    calls := Function.update s.calls epoch { hit }
    tasks := s.tasks ++ [⟨epoch, s.awaitInit .init .addModule⟩] }

/-- The outer `catch`. -/
def caught (s : Player) (err : String) : Player :=
  { s with nowPlaying := { s.nowPlaying with error := err, streaming := false, buffering := false } }

/-- The `catch` of the stream's handler. -/
def handlerCaught (s : Player) (k : Nat) (err : String) : Player :=
  if k = s.playEpoch then { s with nowPlaying := { s.nowPlaying with error := err } } else s

/-- A handler's sample, once the instance has been made. -/
def patch (s : Player) (k index frames : Nat) (pcm : Bytes) : Player :=
  let s := s.provideSample k index frames pcm
  let s := { s with bufferFence := s.bufferFence.map (Fence.provide · index) }.recomputeBuffered
  let s := s.updateCall k fun c => { c with got := c.got + 1 }
  let c := s.calls k
  if c.total = 0 then s
  else
    { s with nowPlaying := { s.nowPlaying with pct := max s.nowPlaying.pct ((200 * c.got + c.total) / (2 * c.total)) } }

/-- What the code does after a wait has ended, and what it waits for next. -/
def resume (s : Player) (addrs k : Nat) : Wait → Outcome → Player × Option Wait
  | .addModule, .ok _ => (s.makeNode, some .init)
  | .init, .ok _ => (s, some (s.ensureConnected addrs))
  | .connectPeer _, .ok _ => ({ s with connected := true }, some .ensureConnected)
  | .connectPeer 0, .reject _ => (s, some .ensureConnected)
  | .connectPeer (left + 1), .reject _ => (s, some (.connectPeer left))
  | .ensureConnected, _ => (s.updateCall k fun c => { c with streaming := true }, some .startStream)
  | .startStream, .ok _ => (s, none)
  | .addModule, .reject err | .init, .reject err | .startStream, .reject err => (s.caught err, none)
  | .getSkeleton plan, .ok skeleton =>
    if k ≠ s.playEpoch then (s, none) else (s, some (s.awaitInit (.loadInit skeleton plan) (.loadAddModule skeleton plan)))
  | .loadAddModule skeleton plan, .ok _ => (s.makeNode, some (.loadInit skeleton plan))
  | .loadInit skeleton plan, .ok _ => (s.load k skeleton plan, some .loadStream)
  | .loadStream, _ => (s, some (s.awaitInit .playInit .playAddModule))
  | .playAddModule, .ok _ => (s.makeNode, some .playInit)
  | .playInit, .ok _ => (s, some .resumeContext)
  | .resumeContext, .ok _ => (s.startPlaying k, some .play)
  | .play, _ => (s.updateCall k fun c => { c with inited := true }, none)
  | .getSample index frames, .ok pcm => (s, some (.inited index frames pcm))
  | .inited index frames pcm, _ => if k ≠ s.playEpoch then (s, none) else (s.patch k index frames pcm, none)
  | .getSkeleton _, .reject err | .loadAddModule _ _, .reject err | .loadInit _ _, .reject err
  | .playAddModule, .reject err | .playInit, .reject err | .resumeContext, .reject err
  | .getSample _ _, .reject err => (s.handlerCaught k err, none)

/-- The stream's handler up to its first wait. -/
def onEvent (s : Player) (k : Nat) (e : StreamEvent) : Player :=
  if k ≠ s.playEpoch then s
  else
    match e with
    | .skeleton samples plan =>
      let s := s.updateCall k fun c => { c with total := samples }
      { s with
        bufferFence := some (.new plan)
        planOrderSeconds := plan.orderSeconds
        tasks := s.tasks ++ [⟨k, .getSkeleton plan⟩] }
    | .sample index frames => { s with tasks := s.tasks ++ [⟨k, .getSample index frames⟩] }
    | .complete => { s with nowPlaying := { s.nowPlaying with streaming := false, pct := 100 } }
    | .error message => { s with nowPlaying := { s.nowPlaying with error := message } }

/-- What the worklet tells that the player heeds. -/
inductive Told
  | loaded (durationSeconds : ℚ)
  | pos
  | buffering (active : Bool)
  | ended

def onTold (s : Player) : Told → Player
  | .loaded d => { s with durationSeconds := some d }
  | .pos => s.recomputeBuffered
  | .buffering active => { s with nowPlaying := { s.nowPlaying with buffering := active } }
  | .ended => { s with playing := false }

/-! ### Interleavings -/

inductive Input
  | playModule (hit : ModuleHit)
  /-- An event on the stream of a call. -/
  | event (call : Nat) (e : StreamEvent)
  /-- The wait of the `i`-th task ends. -/
  | resume (i : Nat) (o : Outcome)
  | told (t : Told)

/-- Whether a wait can end: a sample's ends once its call has posted `init`. -/
def ready (s : Player) (t : Task) : Bool :=
  match t.wait with
  | .inited .. => (s.calls t.call).inited
  | _ => true

/-- The task `i` goes on to its next wait, or is over. -/
def goOn (s : Player) (i : Nat) (t : Task) : Option Wait → Player
  | some wait => { s with tasks := s.tasks.set i ⟨t.call, wait⟩ }
  | none => { s with tasks := s.tasks.eraseIdx i }

/-- One input; `addrs` is the number of bootstrap addresses. -/
def step (addrs : Nat) (s : Player) : Input → Player
  | .playModule hit => s.playModule hit
  | .event k e => if (s.calls k).streaming then s.onEvent k e else s
  | .resume i o =>
    match s.tasks[i]? with
    | some t => if s.ready t then (s.resume addrs t.call t.wait o).1.goOn i t (s.resume addrs t.call t.wait o).2 else s
    | none => s
  | .told t => s.onTold t

/-- The player after the first `k` inputs. -/
def after (addrs : Nat) (is : List Input) (k : Nat) : Player := Runs.state (step addrs) {} is k

/-- The call whose step an input is. -/
def caller (s : Player) : Input → Option Nat
  | .event k _ => some k
  | .resume i _ => (s.tasks[i]?).map (·.call)
  | _ => none

/-- The input is a step of a call after which another has started. -/
def Superseded (s : Player) (i : Input) : Prop := ∃ k, s.caller i = some k ∧ k < s.playEpoch

/-- A message of the kinds a call posts. -/
def Steers : ToWorklet → Prop
  | .init .. | .provideSample .. | .play => True
  | _ => False

/-- What is shown is as before, and nothing has been posted to the worklet that steers it. -/
structure Untouched (s s' : Player) : Prop where
  nowPlaying : s'.nowPlaying = s.nowPlaying
  bufferFence : s'.bufferFence = s.bufferFence
  planOrderSeconds : s'.planOrderSeconds = s.planOrderSeconds
  posted : ∀ p ∈ s'.posted.drop s.posted.length, ¬ Steers p.msg

/-- The last `init` posted is from the latest call that posted one. -/
def LatestInit (s : Player) : Prop :=
  ∀ p before after, s.posted = before ++ p :: after → p.msg.isInit = true → (∀ q ∈ after, q.msg.isInit = false) →
    ∀ q ∈ s.posted, q.msg.isInit = true → q.call ≤ p.call

/-- The wait of `loadStream` for `init`, or of `play` for the audio context, ends well; or one of `playModule`
itself ends with an error that is not shown already. -/
def Slips (s : Player) : Wait → Outcome → Prop
  | .loadInit .., .ok _ | .resumeContext, .ok _ => True
  | .addModule, .reject err | .init, .reject err | .startStream, .reject err =>
    (s.nowPlaying.error, s.nowPlaying.streaming, s.nowPlaying.buffering) ≠ (err, false, false)
  | _, _ => False

/-- The input is one at which a superseded call goes wrong. -/
def SlipsAt (s : Player) : Input → Prop
  | .resume i o => ∃ t, s.tasks[i]? = some t ∧ s.Slips t.wait o
  | _ => False

end Player

end TrackerStream
