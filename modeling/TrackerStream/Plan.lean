import TrackerStream.Ipld
import TrackerStream.SeekSim
import Mathlib

/-!
# Plans and the floor of an order

A plan lists what must be resident at each checkpoint. Three pieces of code ask what is required at an
order: the bake (`requiredAtZero`), the fence of the player, and the prefetch on the desktop. All of them
sort the checkpoints by order and take the last one at or before the order and the one behind it; in a
sorted list `countLe` of them are at or before the order, so the floor is at `countLe - 1`, or `-1`.
-/

namespace TrackerStream

/-- A checkpoint of a manifest: `samples` are indices into its sample list (v1) or sample slots (v2 on). -/
structure Checkpoint where
  order : Nat
  samples : List Nat
deriving DecidableEq, Repr

/-- The seek table of a v1 manifest and the plan of the later ones have the same two fields. -/
structure Plan where
  orderSeconds : List OrderSeconds
  checkpoints : List Checkpoint

def OrderSeconds.toIpld (s : OrderSeconds) : Ipld := .map [("order", .nat s.order), ("seconds", .number s.seconds)]

def Checkpoint.toIpld (cp : Checkpoint) : Ipld := .map [("order", .nat cp.order), ("samples", .nats cp.samples)]

def Plan.toIpld (p : Plan) : Ipld :=
  .map [("checkpoints", .list (p.checkpoints.map Checkpoint.toIpld)),
    ("orderSeconds", .list (p.orderSeconds.map OrderSeconds.toIpld))]

/-- Keep the slots `keep` names, and the checkpoints that then list any. -/
def Plan.prune (keep : List Nat) (p : Plan) : Plan :=
  { p with
    checkpoints := (p.checkpoints.map fun cp => Checkpoint.mk cp.order (cp.samples.filter keep.contains)).filter
      fun cp => !cp.samples.isEmpty }

theorem mem_prune {keep : List Nat} {p : Plan} {cp : Checkpoint} (h : cp ∈ (p.prune keep).checkpoints) :
    ∀ s ∈ cp.samples, s ∈ keep := by
  obtain ⟨hmem, -⟩ := List.mem_filter.1 h
  obtain ⟨cp, -, rfl⟩ := List.mem_map.1 hmem
  intro s hs
  simpa using (List.mem_filter.1 hs).2

/-- `[...cps].sort((a, b) => a.order - b.order)`. -/
def sortByOrder (cps : List Checkpoint) : List Checkpoint := cps.insertionSort (·.order ≤ ·.order)

/-- The checkpoints are in the order of their orders. -/
def SortedByOrder (cps : List Checkpoint) : Prop := cps.Pairwise (·.order ≤ ·.order)

theorem sortedByOrder_sortByOrder (cps : List Checkpoint) : SortedByOrder (sortByOrder cps) := by
  have : Std.Total fun a b : Checkpoint => a.order ≤ b.order := ⟨fun a b => Nat.le_total _ _⟩
  have : IsTrans Checkpoint fun a b => a.order ≤ b.order := ⟨fun _ _ _ => Nat.le_trans⟩
  exact List.pairwise_insertionSort _ cps

theorem mem_sortByOrder {cps : List Checkpoint} {cp : Checkpoint} : cp ∈ sortByOrder cps ↔ cp ∈ cps :=
  List.mem_insertionSort _

/-- How many checkpoints are at or before `order`. -/
def countLe (cps : List Checkpoint) (order : Nat) : Nat := cps.countP fun cp => cp.order ≤ order

theorem countLe_le_length (cps : List Checkpoint) (order : Nat) : countLe cps order ≤ cps.length := List.countP_le_length

theorem countLe_cons (cp : Checkpoint) (cps : List Checkpoint) (order : Nat) :
    countLe (cp :: cps) order = countLe cps order + if cp.order ≤ order then 1 else 0 := by
  simp [countLe, List.countP_cons]

theorem countLe_eq_zero {cps : List Checkpoint} {order : Nat} (h : ∀ cp ∈ cps, order < cp.order) :
    countLe cps order = 0 := by
  rw [countLe, List.countP_eq_zero]
  intro cp hcp
  have := h cp hcp
  simp only [decide_eq_true_eq]
  omega

/-- In a sorted list those at or before an order are the first ones. -/
theorem order_le_iff {cps : List Checkpoint} (h : SortedByOrder cps) {k order : Nat} {cp : Checkpoint}
    (hk : cps[k]? = some cp) : cp.order ≤ order ↔ k < countLe cps order := by
  induction cps generalizing k with
  | nil => simp at hk
  | cons a cps ih =>
    obtain ⟨hle, htail⟩ := List.pairwise_cons.1 h
    have hnone (ha : ¬ a.order ≤ order) : countLe cps order = 0 :=
      countLe_eq_zero fun b hb => Nat.lt_of_lt_of_le (Nat.lt_of_not_le ha) (hle b hb)
    rw [countLe_cons]
    cases k with
    | zero =>
      obtain rfl : a = cp := Option.some.inj hk
      split
      · simp_all
      · have := hnone ‹_›
        omega
    | succ k =>
      have hk' : cps[k]? = some cp := hk
      rw [ih htail hk']
      split
      · omega
      · have := hnone ‹_›
        omega

/-- The last index at which `p` holds, else `-1`. -/
def lastIdx (p : Checkpoint → Bool) (cps : List Checkpoint) : Int :=
  cps.zipIdx.foldl (fun res e => if p e.1 then e.2 else res) (-1)

theorem lastIdx_append (p : Checkpoint → Bool) (cps : List Checkpoint) (cp : Checkpoint) :
    lastIdx p (cps ++ [cp]) = if p cp then (cps.length : Int) else lastIdx p cps := by
  rw [lastIdx, List.zipIdx_append, List.foldl_append]
  simp [lastIdx]

theorem lastIdx_eq {cps : List Checkpoint} (h : SortedByOrder cps) (order : Nat) :
    lastIdx (fun cp => cp.order ≤ order) cps = countLe cps order - 1 := by
  induction cps using List.reverseRecOn with
  | nil => rfl
  | append_singleton cps cp ih =>
    obtain ⟨hinit, -, hlast⟩ := List.pairwise_append.1 h
    rw [lastIdx_append, ih hinit, countLe, countLe, List.countP_append]
    by_cases hcp : cp.order ≤ order
    · have hall : cps.countP (fun cp => decide (cp.order ≤ order)) = cps.length := by
        rw [List.countP_eq_length]
        intro b hb
        have := hlast b hb cp (by simp)
        simp; omega
      simp [hcp, hall]
    · simp [hcp]

/-- The samples of the checkpoints from `start` to `stop`, both clamped to the list; a set has no duplicates. -/
def unionRange (cps : List Checkpoint) (start stop : Int) : List Nat :=
  let lo := max 0 start
  let hi := min stop (cps.length - 1)
  (((cps.take (hi + 1).toNat).drop lo.toNat).flatMap Checkpoint.samples).eraseDups

theorem mem_unionRange {cps : List Checkpoint} {start stop : Int} {s : Nat} :
    s ∈ unionRange cps start stop ↔
      ∃ (k : Nat) (cp : Checkpoint), cps[k]? = some cp ∧ start ≤ k ∧ (k : Int) ≤ stop ∧ s ∈ cp.samples := by
  simp only [unionRange, List.mem_eraseDups, List.mem_flatMap]
  constructor
  · rintro ⟨cp, hcp, hs⟩
    obtain ⟨i, hi⟩ := List.mem_iff_getElem?.1 hcp
    rw [List.getElem?_drop, List.getElem?_take] at hi
    split at hi
    · exact ⟨_, cp, hi, by omega, by omega, hs⟩
    · cases hi
  · rintro ⟨k, cp, hk, h₁, h₂, hs⟩
    obtain ⟨hlt, -⟩ := List.getElem?_eq_some_iff.1 hk
    refine ⟨cp, List.mem_iff_getElem?.2 ⟨k - (max 0 start).toNat, ?_⟩, hs⟩
    rw [List.getElem?_drop, List.getElem?_take, if_pos (by omega)]
    rwa [Nat.add_sub_cancel' (by omega)]

/-- Slot indices that must be resident to start playback at order 0 (the bake's own copy). -/
def requiredAtZero (plan : Plan) : List Nat :=
  let cps := sortByOrder plan.checkpoints
  if cps.isEmpty then []
  else
    let floor := lastIdx (fun cp => cp.order ≤ 0) cps
    unionRange cps (max floor 0) (min (max (floor + 1) 0) (cps.length - 1))

end TrackerStream
