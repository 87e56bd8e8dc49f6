import TrackerStream.Fence

/-!
# Playback behind the fence

What the checkpoints and the fence are for. A player goes through the orders of a module in any way the
module may send it: it plays some rows of the order it is at, then enters the next order, or one it jumps
to, once the fence has let it in. A note on a cell that names no sample plays the one its channel named
last, along the path played; the tables were made along the order list instead.
-/

namespace TrackerStream

/-- The samples named last on each channel after the cells `es`. -/
def latchAfter (latch : Latch) (es : List SimEvent) : Latch := es.foldl (fun latch e => e.latch latch) latch

def SimEvent.inRows (start stop : Nat) (e : SimEvent) : Bool := decide (start ≤ e.row) && decide (e.row < stop)

/-- The samples named last before the order at position `pos`, in the order list. -/
def SimModel.listLatch (m : SimModel) (pos : Nat) : Latch :=
  latchAfter (fun _ => none) ((m.orderPats.take pos).flatMap fun op => m.events op.2)

/-- The checkpoints of the simulation, keyed by PCM offset. -/
def SimModel.offsetPlan (m : SimModel) : Plan where
  orderSeconds := (simulateTables m).orderSeconds
  checkpoints := (simulateTables m).checkpoints.map fun cp => ⟨cp.order, cp.residentOffsets⟩

/-- A player: the position it is at in the played orders, what its channels named last, the offsets it has
sounded, and those of them that were not resident when they did. -/
structure Playback where
  fence : Fence
  pos : Option Nat
  latch : Latch
  sounded : List Nat
  missed : List Nat

inductive Move
  /-- A sample arrives. -/
  | provide (offset : Nat)
  /-- The fence is asked, and playback stays where it is. -/
  | poll (order : Nat)
  /-- The fence lets playback in at a position of the played orders. -/
  | enter (pos : Nat)
  /-- Rows of the current order are played, from `start` up to `stop`. -/
  | play (start stop : Nat)

namespace SimModel
variable (m : SimModel)

def idle (lookahead : Nat) : Playback := ⟨.new m.offsetPlan lookahead, none, fun _ => none, [], []⟩

/-- The cells of a pattern on the rows from `start` up to `stop`. -/
def segment (pat start stop : Nat) : List SimEvent := (m.events pat).filter (SimEvent.inRows start stop)

/-- One move; `none` if it cannot be made. Playback begins at the first order. -/
def move (p : Playback) : Move → Option Playback
  | .provide offset => some { p with fence := p.fence.provide offset }
  | .poll order => some { p with fence := (p.fence.ready order).2 }
  | .enter pos =>
    match m.orderPats[pos]? with
    | some (order, _) =>
      if (p.fence.ready order).1 ∧ (p.pos.isSome ∨ pos = 0) then
        some { p with fence := (p.fence.ready order).2, pos := some pos }
      else none
    | none => none
  | .play start stop =>
    match p.pos.bind (m.orderPats[·]?) with
    | some (_, pat) =>
      let (offs, latch) := m.trigger p.latch (m.segment pat start stop)
      some
        { p with
          latch
          sounded := p.sounded ++ offs
          missed := p.missed ++ offs.filter fun o => !p.fence.isProvided o }
    | none => none

/-- The states of a playback all of whose moves meet `P`. -/
inductive Plays (lookahead : Nat) (P : Playback → Move → Prop) : Playback → Prop
  | idle : Plays lookahead P (m.idle lookahead)
  | move {p p' : Playback} {a : Move} : Plays lookahead P p → P p a → m.move p a = some p' → Plays lookahead P p'

/-- Every note played that names no sample plays the one named last on its channel in the order list, or one
that has sounded on the path before. -/
def Relatches (p : Playback) : Move → Prop
  | .play start stop =>
    ∀ pos order pat before e after, p.pos = some pos → m.orderPats[pos]? = some (order, pat) →
      m.events pat = before ++ e :: after → e.inRows start stop = true → e.hasNote = true → e.explicitSample = none →
      ∀ s, latchAfter p.latch (before.filter (SimEvent.inRows start stop)) e.ch = some s →
        latchAfter (m.listLatch pos) before e.ch = some s ∨
          ∀ o, m.offsetOf s = some o →
            o ∈ p.sounded ++ (m.trigger p.latch (before.filter (SimEvent.inRows start stop))).1
  | _ => True

end SimModel

end TrackerStream
