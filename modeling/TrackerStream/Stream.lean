import TrackerStream.Plan
import TrackerStream.Traced

/-!
# What a stream does

Both clients stream a module the same way: they fetch blocks, store bytes for the player to pull, and tell
it what has arrived. The trace of a run has all three, in the order they happen.
-/

namespace TrackerStream

inductive StreamEvent
  /-- The skeleton is there; the plan, and how many samples will be streamed. -/
  | skeleton (plan : Plan) (samples : Nat)
  | sample (index frames : Nat)
  | complete
  | error (fault : Fault)

inductive Act
  /-- A batch of blocks, and whether all of it came. -/
  | fetch (cids : List Cid) (ok : Bool)
  | storeSkeleton (bytes : Bytes)
  | storeSample (index : Nat) (pcm : Bytes)
  | send (event : StreamEvent)

abbrev Stream (α : Type) := Traced Act Fault α

/-- The sample slots a trace has announced. -/
def announced (trace : List Act) : List Nat :=
  trace.filterMap fun
    | .send (.sample index _) => some index
    | _ => none

@[simp] theorem announced_append (as bs : List Act) : announced (as ++ bs) = announced as ++ announced bs :=
  List.filterMap_append

/-- The PCM of a sample stored, then announced. -/
def delivery (index frames : Nat) (pcm : Bytes) : List Act := [.storeSample index pcm, .send (.sample index frames)]

def deliver (index frames : Nat) (pcm : Except Fault Bytes) : Stream PUnit := do
  let pcm ← Traced.lift pcm
  Traced.act (.storeSample index pcm)
  Traced.act (.send (.sample index frames))

theorem deliver_ok {index frames : Nat} {pcm : Except Fault Bytes} {u : PUnit}
    (h : (deliver index frames pcm).result = .ok u) :
    ∃ bytes, pcm = .ok bytes ∧ (deliver index frames pcm).trace = delivery index frames bytes := by
  obtain ⟨bytes, hpcm, -, htrace⟩ := Traced.bind_ok h
  exact ⟨bytes, hpcm, htrace⟩

end TrackerStream
