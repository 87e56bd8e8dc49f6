import TrackerStream.Parse
import Mathlib

/-!
# The held-note checkpoint engine (`seek.ts`, `simulateTables`)

A format adapter decodes its patterns into `SimEvent`s; the engine walks the order list once in a straight
line, and for every `stride`-th order entry keeps the samples still held there and the samples triggered up
to the next one. Seconds are exact rationals (the source computes with doubles); no theorem depends on them
beyond passing them on.
-/

namespace TrackerStream

structure OrderSeconds where
  order : Nat
  seconds : ℚ

structure SeekCheckpoint where
  order : Nat
  residentOffsets : List Nat
deriving DecidableEq, Repr

structure SeekTables where
  orderSeconds : List OrderSeconds
  segment0Offsets : List Nat
  checkpoints : List SeekCheckpoint

/-- `(speed * 2.5) / tempo`. -/
def ROWSEC (speed tempo : Nat) : ℚ := (speed * (5 / 2)) / tempo

def MAX_CHECKPOINTS : Nat := 512

/-- A JavaScript set of offsets, sorted ascending. -/
def sortedSet (offs : List Nat) : List Nat := offs.dedup.insertionSort (· ≤ ·)

theorem mem_sortedSet {offs : List Nat} {o : Nat} : o ∈ sortedSet offs ↔ o ∈ offs := by
  rw [sortedSet, List.mem_insertionSort, List.mem_dedup]

/-- One pattern cell: `explicitSample` is the sample it names, `hasNote` whether a note triggers on it. -/
structure SimEvent where
  row : Nat
  ch : Nat
  explicitSample : Option Nat
  hasNote : Bool
  note : Nat
  off : Bool
  setSpeed : Nat
  setTempo : Nat
deriving DecidableEq, Repr

/-- The cells of a pattern, row by row. -/
structure Pattern where
  rows : Nat
  events : List SimEvent
  sorted : events.Pairwise fun a b => a.row ≤ b.row
  row_lt : ∀ e ∈ events, e.row < rows

/-- What an adapter supplies. The orders are those of the order list, in list order, and no cell is on a
channel past `numChannels`. -/
structure SimModel where
  orderPats : List (Nat × Nat)
  speed0 : Nat
  tempo0 : Nat
  numChannels : Nat
  decode : Nat → Option Pattern
  offsetOf : Nat → Option Nat
  orders_increasing : orderPats.Pairwise fun a b => a.1 < b.1
  ch_lt : ∀ pat p, decode pat = some p → ∀ e ∈ p.events, e.ch < numChannels

structure HeldNote where
  sample : Nat
  note : Nat
  tOn : ℚ

/-- The sample last named on each channel. -/
abbrev Latch := Nat → Option Nat

/-- A cell that names a sample latches it. -/
def SimEvent.latch (e : SimEvent) (latch : Latch) : Latch :=
  match e.explicitSample with
  | some s => Function.update latch e.ch (some s)
  | none => latch

/-- The sample a note on the cell plays: the one it names, else the channel's latched one. -/
def SimEvent.sampleWith (e : SimEvent) (latch : Latch) : Option Nat := e.explicitSample <|> latch e.ch

structure Walk where
  held : Nat → Option HeldNote
  latch : Latch
  speed : Nat
  tempo : Nat
  t : ℚ

def SimModel.walk0 (m : SimModel) : Walk := ⟨fun _ => none, fun _ => none, m.speed0, m.tempo0, 0⟩

/-- Advance per-channel held and latch state for one event. -/
def applySim (e : SimEvent) (w : Walk) : Walk :=
  let held := if e.off then Function.update w.held e.ch none else w.held
  let latch := e.latch w.latch
  match e.hasNote, e.sampleWith latch with
  | true, some s =>
    { w with
      held := Function.update held e.ch (some ⟨s, e.note, w.t⟩)
      latch := Function.update latch e.ch (some s) }
  | _, _ => { w with held, latch }

/-- One event of the straight walk: notes, then speed and tempo. -/
def Walk.event (w : Walk) (e : SimEvent) : Walk :=
  let w := applySim e w
  { w with
    speed := if e.setSpeed ≠ 0 then e.setSpeed else w.speed
    tempo := if e.setTempo ≠ 0 then e.setTempo else w.tempo }

/-- The events of one row, taken from the front of those still ahead. -/
def Walk.row (row : Nat) : List SimEvent → Walk → List SimEvent × Walk
  | [], w => ([], w)
  | e :: es, w => if e.row = row then Walk.row row es (w.event e) else (e :: es, w)

/-- `n` rows from `row` on. -/
def Walk.rows : Nat → Nat → List SimEvent → Walk → Walk
  | 0, _, _, w => w
  | n + 1, row, es, w =>
    let (es, w) := w.row row es
    Walk.rows n (row + 1) es { w with t := w.t + ROWSEC w.speed w.tempo }

/-- One played order; a pattern that does not decode lasts 64 rows. -/
def SimModel.walkPattern (m : SimModel) (w : Walk) (pat : Nat) : Walk :=
  match m.decode pat with
  | some p => w.rows p.rows 0 p.events
  | none => w.rows 64 0 []

/-- The walk over the first `vi` played orders. -/
def SimModel.walkTo (m : SimModel) (vi : Nat) : Walk :=
  (m.orderPats.take vi).foldl (fun w op => m.walkPattern w op.2) m.walk0

/-- Cumulative seconds at the start of each played order. -/
def SimModel.orderSecondsFrom (m : SimModel) : List (Nat × Nat) → Walk → List OrderSeconds
  | [], _ => []
  | (order, pat) :: ops, w => ⟨order, w.t⟩ :: m.orderSecondsFrom ops (m.walkPattern w pat)

/-- The PCM offsets a list of events triggers, from the latches `latch` on, and the latches behind it. -/
def SimModel.trigger (m : SimModel) (latch : Latch) : List SimEvent → List Nat × Latch
  | [] => ([], latch)
  | e :: es =>
    let latch := e.latch latch
    let hit := if e.hasNote then ((e.sampleWith latch).bind m.offsetOf).toList else []
    let (offs, latch) := m.trigger latch es
    (hit ++ offs, latch)

/-- The events of a pattern, none when it does not decode. -/
def SimModel.events (m : SimModel) (pat : Nat) : List SimEvent := ((m.decode pat).map Pattern.events).getD []

/-- `trigger` over the patterns of a list of orders. -/
def SimModel.triggerOrders (m : SimModel) (latch : Latch) : List (Nat × Nat) → List Nat × Latch
  | [] => ([], latch)
  | op :: ops =>
    let (offs, latch) := m.trigger latch (m.events op.2)
    let (offs', latch) := m.triggerOrders latch ops
    (offs ++ offs', latch)

/-- Offsets of the notes still held on the channels of a walk. -/
def SimModel.heldOffsets (m : SimModel) (w : Walk) : List Nat :=
  (List.range m.numChannels).filterMap fun c => (w.held c).bind fun h => m.offsetOf h.sample

def SimModel.stride (m : SimModel) : Nat := max 1 ((m.orderPats.length + (MAX_CHECKPOINTS - 1)) / MAX_CHECKPOINTS)

/-- The checkpoint at position `vi` of the played orders: held there, and triggered before the next one. -/
def SimModel.checkpointAt (m : SimModel) (vi : Nat) : SeekCheckpoint :=
  let w := m.walkTo vi
  let span := (m.orderPats.drop vi).take m.stride
  { order := ((m.orderPats[vi]?).map Prod.fst).getD 0
    residentOffsets := sortedSet (m.heldOffsets w ++ (m.triggerOrders w.latch span).1) }

/-- How many checkpoints a walk of `len` orders at `stride` makes: one at every multiple below `len`. -/
def checkpointCount (len stride : Nat) : Nat := (len + (stride - 1)) / stride

def SimModel.segment0 (m : SimModel) : List Nat :=
  match m.orderPats with
  | [] => []
  | op :: _ => sortedSet (m.trigger (fun _ => none) (m.events op.2)).1

def simulateTables (m : SimModel) : SeekTables where
  orderSeconds := m.orderSecondsFrom m.orderPats m.walk0
  segment0Offsets := m.segment0
  checkpoints := (List.range (checkpointCount m.orderPats.length m.stride)).map fun k => m.checkpointAt (k * m.stride)

end TrackerStream
