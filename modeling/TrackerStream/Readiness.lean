import TrackerStream.Processor

/-!
# When libopenmpt gets ready

Messages to the worklet may come before libopenmpt is loaded. `run` puts the end of loading at any place among them, with
a libopenmpt whose answers depend on what it is given alone, and `final` is what the worklet has then come to. Before the
end of loading only `init` and `provideSample` are kept.
-/

namespace TrackerStream.TrackerProcessor

/-! ### The instance, by the calls made on it -/

inductive Move
  | orderRow (order row : Int)
  | seconds (seconds : Rat)
  | subsong (index : Int)

structure Instance where
  /-- The place of the `init` it was made for. -/
  init : Nat
  skeleton : Bytes
  moves : List Move := []
  interpolation : Int := 0
  repeatCount : Int := 0
  /-- The samples it has taken. -/
  samples : List PendingProvide := []

def Instance.move (i : Instance) (m : Move) : Instance := { i with moves := i.moves ++ [m] }

/-- What a call leaves of the instance before it. -/
def Instance.called (i : Option Instance) : LibCall → Option Instance
  | .create mod skeleton made => if made then some { init := mod, skeleton } else none
  | .destroy _ => none
  | .provideSample _ p ok => i.map fun i => if ok then { i with samples := i.samples ++ [p] } else i
  | .setRenderParam _ param value => i.map fun i =>
    if param = RENDER_INTERPOLATIONFILTER_LENGTH then { i with interpolation := value } else i
  | .setRepeatCount _ count => i.map fun i => { i with repeatCount := count }
  | .setPositionOrderRow _ order row => i.map (·.move (.orderRow order row))
  | .setPositionSeconds _ seconds => i.map (·.move (.seconds seconds))
  | .selectSubsong _ index => i.map (·.move (.subsong index))
  | .read .. => i

def inst (s : TrackerProcessor) : Option Instance := s.calls.foldl Instance.called none

/-- libopenmpt: which skeletons an instance is made of, which samples it takes, and the position its moves lead to. -/
structure Lib (Pos : Type) where
  creates : Bytes → Bool
  takes (skeleton : Bytes) (index frames : Nat) (pcm : Bytes) : Bool
  position : Bytes → List Move → Pos

structure Shown (Pos : Type) where
  init : Nat
  position : Pos
  interpolation : Int
  repeatCount : Int
  /-- The message each slot's sample came with. -/
  slots : Nat → Option Nat

/-- The message the last sample of a slot came with. -/
def lastOf (slot : Nat) (samples : List PendingProvide) : Option Nat :=
  ((samples.filter (·.index = slot)).getLast?).map (·.posted)

namespace Lib
variable {Pos : Type} (lib : Lib Pos)

def accepts (skeleton : Bytes) (p : PendingProvide) : Bool := lib.takes skeleton p.index p.frames p.pcm

/-- The answers when an instance is made of a skeleton. -/
def creating (s : TrackerProcessor) (skeleton : Bytes) : Openmpt where
  created := lib.creates skeleton
  provided n := (s.pendingProvides[n]?).any (lib.accepts skeleton)

def answers (s : TrackerProcessor) : Event → Openmpt
  | .message (.init skeleton _) => lib.creating s skeleton
  | .message (.provideSample index frames pcm) =>
    { provided := fun _ => s.inst.any fun i => lib.takes i.skeleton index frames pcm }
  | .loaded =>
    match s.pendingInit with
    | some p => lib.creating s p.skeleton
    | none => {}
  | _ => {}

def hear (s : TrackerProcessor) (e : Event) (posted : Nat) : TrackerProcessor := s.step ((e, lib.answers s e), posted)

def hearAll (s : TrackerProcessor) (ms : List (ToWorklet × Nat)) : TrackerProcessor :=
  ms.foldl (fun s m => lib.hear s (.message m.1) m.2) s

/-- The messages with the end of loading before the `k`-th. -/
def run (ms : List ToWorklet) (k : Nat) : TrackerProcessor :=
  lib.hearAll (lib.hear (lib.hearAll {} (ms.zipIdx.take k)) .loaded 0) (ms.zipIdx.drop k)

def shown (i : Instance) : Shown Pos where
  init := i.init
  position := lib.position i.skeleton i.moves
  interpolation := i.interpolation
  repeatCount := i.repeatCount
  slots slot := lastOf slot i.samples

/-- The playing flag and the instance. -/
def final (s : TrackerProcessor) : Bool × Option (Shown Pos) := (s.playing, s.inst.map lib.shown)

/-- The end is the same wherever loading ends. -/
def Transparent (ms : List ToWorklet) : Prop := ∀ k ≤ ms.length, lib.final (lib.run ms k) = lib.final (lib.run ms 0)

end Lib

/-! ### Messages that are not kept -/

/-- The last value written, or `b`. -/
def lastWrite {α β : Type} (write : α → Option β) (b : β) (xs : List α) : β := xs.foldl (fun b x => (write x).getD b) b

def plays : ToWorklet → Option Bool
  | .play => some true
  | .pause => some false
  | .stop => some false
  | _ => none

def setsInterpolation : ToWorklet → Option Int
  | .setInterpolation value => some value
  | _ => none

def setsRepeat : ToWorklet → Option Int
  | .setRepeat count => some count
  | _ => none

def moved : ToWorklet → Option Move
  | .stop => some (.orderRow 0 0)
  | .seekOrderRow order row => some (.orderRow order row)
  | .seekSeconds seconds => some (.seconds seconds)
  | .selectSubsong index => some (.subsong index)
  | _ => none

/-- The sample a message brings. -/
def provided : ToWorklet × Nat → Option PendingProvide
  | (.provideSample index frames pcm, posted) => some ⟨posted, index, frames, pcm⟩
  | _ => none

namespace Lib
variable {Pos : Type} (lib : Lib Pos)

/-- Whether there is an instance after some messages, and the samples none was there for since the last one was made. -/
def unclaimed (ms : List (ToWorklet × Nat)) : Bool × List PendingProvide :=
  ms.foldl (fun s m => match m.1 with
    | .init skeleton _ => if lib.creates skeleton then (true, []) else (false, s.2)
    | _ => if s.1 then s else (false, s.2 ++ (provided m).toList)) (false, [])

/-- The messages after the last `init` leave the flag, the position and the settings as an instance has them at first, and
the last sample of each slot that the instance takes is none that an earlier one was there for. -/
structure Leaves (before : List ToWorklet) (skeleton : Bytes) (after : List ToWorklet) : Prop where
  playing : lastWrite plays false after = false
  interpolation : lastWrite setsInterpolation SINC_INTERPOLATION after = SINC_INTERPOLATION
  repeatCount : lastWrite setsRepeat 0 after = 0
  position : ∀ n, lib.position skeleton ((after.drop n).filterMap moved) = lib.position skeleton (after.filterMap moved)
  slots : ∀ slot, lastOf slot (((lib.unclaimed before.zipIdx).2 ++ (after.zipIdx (before.length + 1)).filterMap provided).filter
      (lib.accepts skeleton)) =
    lastOf slot ((before.zipIdx.filterMap provided ++ (after.zipIdx (before.length + 1)).filterMap provided).filter
      (lib.accepts skeleton))

/-- Nothing depends on when loading ends. -/
def Settled (ms : List ToWorklet) : Prop :=
  ∀ before skeleton plan after, ms = before ++ .init skeleton plan :: after → (∀ m ∈ after, m.isInit = false) →
    lib.creates skeleton = true → lib.Leaves before skeleton after

end Lib

end TrackerStream.TrackerProcessor
