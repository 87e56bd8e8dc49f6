import TrackerStream.Fence
import TrackerStream.Runs

/-!
# The audio worklet (`player.worklet.ts`)

`TrackerProcessor` holds one libopenmpt instance and hands it the samples that stream in. Messages are numbered by
their place in the run, and what is kept of a message keeps its place, so that `calls`, the calls made on
libopenmpt, say which message each sample came with and which `init` the instance was made for. What libopenmpt
answers is an input of each event.
-/

namespace TrackerStream

/-- From the main thread to the worklet (`messages.ts`). -/
inductive ToWorklet
  | init (skeleton : Bytes) (plan : Plan)
  | provideSample (index frames : Nat) (pcm : Bytes)
  | play
  | pause
  | stop
  | seekOrderRow (order row : Int)
  | seekSeconds (seconds : Rat)
  | selectSubsong (index : Int)
  | setInterpolation (value : Int)
  | setRepeat (count : Int)

def ToWorklet.isInit : ToWorklet → Bool
  | init .. => true
  | _ => false

/-- From the worklet to the main thread, less what the messages tell of the module and the position. -/
inductive FromWorklet
  | ready
  | loaded
  | pos
  | buffering (active : Bool) (order : Nat)
  | ended
  | error (message : String)

namespace TrackerProcessor

structure PendingInit where
  posted : Nat
  skeleton : Bytes
  plan : Plan

structure PendingProvide where
  posted : Nat
  index : Nat
  frames : Nat
  pcm : Bytes

/-- Calls on libopenmpt; `mod` is the place of the `init` an instance is made for. -/
inductive LibCall
  | create (mod : Nat) (skeleton : Bytes) (made : Bool)
  | destroy (mod : Nat)
  | provideSample (mod : Nat) (sample : PendingProvide) (ok : Bool)
  | setRenderParam (mod : Nat) (param value : Int)
  | setRepeatCount (mod : Nat) (count : Int)
  | setPositionOrderRow (mod : Nat) (order row : Int)
  | setPositionSeconds (mod : Nat) (seconds : Rat)
  | selectSubsong (mod : Nat) (index : Int)
  | read (mod frames : Nat)

/-- What libopenmpt answers during an event: whether an instance is made, whether the `n`-th sample is taken, the
current order, and how many frames are rendered. -/
structure Openmpt where
  created : Bool := true
  provided : Nat → Bool := fun _ => true
  order : Nat := 0
  got : Nat := 128

end TrackerProcessor

open TrackerProcessor

structure TrackerProcessor where
  lib : Bool := false
  mod : Option Nat := none
  fence : Option Fence := none
  playing : Bool := false
  posCounter : Nat := 0
  wasBuffering : Bool := false
  bufferingReported : Bool := false
  pendingInit : Option PendingInit := none
  pendingProvides : List PendingProvide := []
  calls : List LibCall := []
  sent : List FromWorklet := []

def RENDER_INTERPOLATIONFILTER_LENGTH : Int := 3

def SINC_INTERPOLATION : Int := 8

namespace TrackerProcessor

def call (s : TrackerProcessor) (c : LibCall) : TrackerProcessor := { s with calls := s.calls ++ [c] }

def send (s : TrackerProcessor) (msg : FromWorklet) : TrackerProcessor := { s with sent := s.sent ++ [msg] }

/-- A call on the instance, if there is one. -/
def onMod (s : TrackerProcessor) (c : Nat → LibCall) : TrackerProcessor :=
  match s.mod with
  | some mod => if s.lib then s.call (c mod) else s
  | none => s

/-- Patch one sample's decoded PCM into the instance, and mark it resident in the fence. -/
def applyProvide (s : TrackerProcessor) (ok : Bool) (p : PendingProvide) : TrackerProcessor :=
  match s.mod with
  | some mod =>
    let s := s.call (.provideSample mod p ok)
    if ok then { s with fence := s.fence.map (·.provide p.index) }
    else s.send (.error s!"provide_sample failed (slot {p.index})")
  | none => s

/-- Hand the instance what was queued before it. -/
def flush (s : TrackerProcessor) (provided : Nat → Bool) : TrackerProcessor :=
  { s.pendingProvides.zipIdx.foldl (fun s x => s.applyProvide (provided x.2) x.1) s with pendingProvides := [] }

/-- The old instance goes, and nothing plays. -/
def destroy (s : TrackerProcessor) : TrackerProcessor :=
  let s := match s.mod with
    | some mod => { s.call (.destroy mod) with mod := none }
    | none => s
  { s with playing := false, wasBuffering := false, bufferingReported := false }

def doInit (s : TrackerProcessor) (env : Openmpt) (p : PendingInit) : TrackerProcessor :=
  let s := s.destroy.call (.create p.posted p.skeleton env.created)
  if !env.created then s.send (.error "openmpt_module_create_from_memory failed (skeleton)")
  else
    let s := { s with mod := some p.posted }
    let s := (s.call (.setRenderParam p.posted RENDER_INTERPOLATIONFILTER_LENGTH SINC_INTERPOLATION)).call
      (.setRepeatCount p.posted 0)
    let s := { s with fence := some (.new p.plan) }
    (s.flush env.provided).send .loaded

def onMessage (s : TrackerProcessor) (env : Openmpt) (posted : Nat) : ToWorklet → TrackerProcessor
  | .init skeleton plan =>
    let p : PendingInit := ⟨posted, skeleton, plan⟩
    if !s.lib then { s with pendingInit := some p } else s.doInit env p
  | .provideSample index frames pcm =>
    let p : PendingProvide := ⟨posted, index, frames, pcm⟩
    if !s.lib || s.mod.isNone then { s with pendingProvides := s.pendingProvides ++ [p] }
    else s.applyProvide (env.provided 0) p
  | .play => { s with playing := s.mod.isSome }
  | .pause => { s with playing := false }
  | .stop => { s with playing := false }.onMod fun mod => .setPositionOrderRow mod 0 0
  | .seekOrderRow order row => s.onMod fun mod => .setPositionOrderRow mod order row
  | .seekSeconds seconds => s.onMod fun mod => .setPositionSeconds mod seconds
  | .selectSubsong index => s.onMod fun mod => .selectSubsong mod index
  | .setInterpolation value => s.onMod fun mod => .setRenderParam mod RENDER_INTERPOLATIONFILTER_LENGTH value
  | .setRepeat count => s.onMod fun mod => .setRepeatCount mod count

/-- libopenmpt has finished loading. -/
def loaded (s : TrackerProcessor) (env : Openmpt) : TrackerProcessor :=
  let s := { s with lib := true }.send .ready
  match s.pendingInit with
  | some p => { s with pendingInit := none }.doInit env p
  | none => s

/-- The instance renders a quantum. -/
def render (s : TrackerProcessor) (env : Openmpt) (mod frames : Nat) : TrackerProcessor :=
  let s := s.call (.read mod frames)
  if env.got = 0 then { s with playing := false }.send .ended
  else if s.posCounter + 1 ≥ 4 then { s with posCounter := 0 }.send .pos
  else { s with posCounter := s.posCounter + 1 }

/-- Tell the main thread that nothing stalls, if it does not know, and render. -/
def proceed (s : TrackerProcessor) (env : Openmpt) (mod frames : Nat) : TrackerProcessor :=
  if s.wasBuffering || !s.bufferingReported then
    ({ s with wasBuffering := false, bufferingReported := true }.send (.buffering false env.order)).render env mod frames
  else s.render env mod frames

/-- The fence holds the output. -/
def hold (s : TrackerProcessor) (env : Openmpt) : TrackerProcessor :=
  if s.wasBuffering then s
  else { s with wasBuffering := true, bufferingReported := true }.send (.buffering true env.order)

/-- One quantum of `frames` frames. -/
def process (s : TrackerProcessor) (env : Openmpt) (frames : Nat) : TrackerProcessor :=
  match s.mod with
  | none => s
  | some mod =>
    if !s.lib || !s.playing then s
    else
      match s.fence.map (·.ready env.order) with
      | some (false, f) => { s with fence := some f }.hold env
      | some (true, f) => { s with fence := some f }.proceed env mod frames
      | none => s.proceed env mod frames

/-- What the processor is given: a message, the end of loading libopenmpt, or a quantum to render. -/
inductive Event
  | message (msg : ToWorklet)
  | loaded
  | failed (err : String)
  | quantum (frames : Nat)

def Event.isInit : Event → Bool
  | message msg => msg.isInit
  | _ => false

/-- An event at its place, and the answers of libopenmpt during it. -/
def step (s : TrackerProcessor) : (Event × Openmpt) × Nat → TrackerProcessor
  | ((.message msg, env), posted) => s.onMessage env posted msg
  | ((.loaded, env), _) => s.loaded env
  | ((.failed err, _), _) => s.send (.error err)
  | ((.quantum frames, env), _) => s.process env frames

/-- The processor after the first `k` events. -/
def after (es : List (Event × Openmpt)) (k : Nat) : TrackerProcessor := Runs.state step {} es.zipIdx k

/-- The event creates an instance. -/
def Creates (s : TrackerProcessor) (e : Event × Openmpt) : Prop :=
  e.2.created = true ∧ (e.1.isInit = true ∧ s.lib = true ∨ e.1 = .loaded ∧ s.pendingInit.isSome = true)

/-- The event at a place is an `init`. -/
def InitAt (es : List (Event × Openmpt)) (k : Nat) : Prop := ∃ e, es[k]? = some e ∧ e.1.isInit = true

/-- The sample came with a message after the `init` an instance was made for, and before the next `init`. -/
structure Own (es : List (Event × Openmpt)) (mod : Nat) (p : PendingProvide) : Prop where
  message : ∃ env, es[p.posted]? = some (.message (.provideSample p.index p.frames p.pcm), env)
  init : InitAt es mod
  lt : mod < p.posted
  between : ∀ q, mod < q → q < p.posted → ¬ InitAt es q

/-- Every sample an instance was given is its own. -/
def Isolated (es : List (Event × Openmpt)) (s : TrackerProcessor) : Prop :=
  ∀ mod p ok, .provideSample mod p ok ∈ s.calls → Own es mod p

/-- An `init` that finds samples in the queue is not followed by an instance. -/
def NoneStale (es : List (Event × Openmpt)) : Prop :=
  ∀ i, InitAt es i → (after es i).pendingProvides ≠ [] → ∀ j e, i ≤ j → es[j]? = some e → ¬ (after es j).Creates e

/-- The slots the fence in use marks were given to the instance there is. -/
def FenceOwn (s : TrackerProcessor) : Prop :=
  ∀ mod f, s.mod = some mod → s.fence = some f →
    ∀ index ∈ f.provided, ∃ p, p.index = index ∧ .provideSample mod p true ∈ s.calls

end TrackerProcessor

end TrackerStream
