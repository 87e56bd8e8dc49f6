import TrackerStream.Plan

/-!
# The client fence (`fence.ts`)

Playback may proceed at an order once the samples of its floor checkpoint and of the one behind it are
resident; after a stall the fence also waits for `lookahead` checkpoints more. The floor is found by binary
search, which on the sorted checkpoints of a fence gives `countLe - 1`.
-/

namespace TrackerStream

structure Fence where
  cps : List Checkpoint
  provided : List Nat
  stalled : Bool
  lookahead : Nat
  sorted : SortedByOrder cps

namespace Fence

/-- `new Fence(plan, lookahead)`. -/
def new (plan : Plan) (lookahead : Nat := 1) : Fence :=
  ⟨sortByOrder plan.checkpoints, [], false, lookahead, sortedByOrder_sortByOrder _⟩

/-- Mark a sample slot as resident. -/
def provide (f : Fence) (index : Nat) : Fence := { f with provided := index :: f.provided }

def isProvided (f : Fence) (index : Nat) : Bool := f.provided.contains index

def buffering (f : Fence) : Bool := f.stalled

/-- The search of `floorIdx` between `lo` and `hi`; every step narrows the range. -/
def search (cps : List Checkpoint) (order : Nat) : Nat → Int → Int → Int → Int
  | 0, _, _, res => res
  | fuel + 1, lo, hi, res =>
    if lo ≤ hi then
      let m := (lo + hi) / 2
      if (cps[m.toNat]?).any (·.order ≤ order) then search cps order fuel (m + 1) hi m
      else search cps order fuel lo (m - 1) res
    else res

/-- Greatest checkpoint index with order at or before `order`, or `-1`. -/
def floorIdx (f : Fence) (order : Nat) : Int := search f.cps order f.cps.length 0 (f.cps.length - 1) (-1)

def allProvided (f : Fence) (samples : List Nat) : Bool := samples.all f.isProvided

/-- Sample slots that must be resident to play at `order`. -/
def requiredAt (f : Fence) (order : Nat) : List Nat :=
  let i := f.floorIdx order
  unionRange f.cps i (i + 1)

/-- Start time of `order` in the plan's map. -/
def secondsForOrder (orderSeconds : List OrderSeconds) (order : Nat) : ℚ :=
  orderSeconds.foldl (fun best os => if os.order ≤ order ∧ best < os.seconds then os.seconds else best) 0

/-- Seconds from the start that can be played with what is resident. -/
def playableSeconds (f : Fence) (orderSeconds : List OrderSeconds) (duration : ℚ) : ℚ :=
  if f.cps.isEmpty then duration
  else if !f.allProvided (f.requiredAt 0) then secondsForOrder orderSeconds 0
  else
    match f.cps.find? fun cp => !f.allProvided (f.requiredAt cp.order) with
    | some cp => secondsForOrder orderSeconds cp.order
    | none => duration

/-- May playback proceed at `order`? The answer and the fence with its new stall state. -/
def ready (f : Fence) (order : Nat) : Bool × Fence :=
  let i := f.floorIdx order
  let base := unionRange f.cps i (i + 1)
  if base.isEmpty then (true, f)
  else if !f.stalled then if f.allProvided base then (true, f) else (false, { f with stalled := true })
  else if f.allProvided (unionRange f.cps i (i + 1 + f.lookahead)) then (true, { f with stalled := false })
  else (false, f)

/-! ### The floor -/

theorem search_eq {cps : List Checkpoint} (h : SortedByOrder cps) (order fuel : Nat) {lo hi : Int} (hlo : 0 ≤ lo)
    (hhi : hi < cps.length) (hle : lo ≤ countLe cps order) (hge : countLe cps order ≤ hi + 1)
    (hfuel : hi + 1 - lo ≤ fuel) : search cps order fuel lo hi (lo - 1) = countLe cps order - 1 := by
  induction fuel generalizing lo hi with
  | zero =>
    have : lo = countLe cps order := by omega
    rw [search, this]
  | succ fuel ih =>
    simp only [search]
    split
    · obtain ⟨cp, hcp⟩ : ∃ cp, cps[((lo + hi) / 2).toNat]? = some cp := ⟨_, List.getElem?_eq_getElem (by omega)⟩
      have hiff : cp.order ≤ order ↔ _ := order_le_iff h hcp
      rw [hcp, Option.any_some]
      by_cases hcmp : cp.order ≤ order
      · have := hiff.1 hcmp
        rw [if_pos (by simpa using hcmp)]
        have hstep := @ih ((lo + hi) / 2 + 1) hi (by omega) hhi (by omega) hge (by omega)
        rwa [Int.add_sub_cancel] at hstep
      · have := fun hlt => hcmp (hiff.2 hlt)
        rw [if_neg (by simpa using hcmp)]
        exact ih hlo (by omega) hle (by omega) (by omega)
    · have : lo = countLe cps order := by omega
      rw [this]

theorem floorIdx_eq (f : Fence) (order : Nat) : f.floorIdx order = countLe f.cps order - 1 := by
  have hle := countLe_le_length f.cps order
  exact search_eq f.sorted order f.cps.length (by omega) (by omega) (by omega) (by omega) (by omega)

theorem mem_requiredAt {f : Fence} {order s : Nat} :
    s ∈ f.requiredAt order ↔ ∃ (k : Nat) (cp : Checkpoint), f.cps[k]? = some cp ∧ countLe f.cps order ≤ k + 1 ∧
      k ≤ countLe f.cps order ∧ s ∈ cp.samples := by
  simp only [requiredAt, mem_unionRange, floorIdx_eq]
  constructor
  · rintro ⟨k, cp, hk, h₁, h₂, hs⟩
    exact ⟨k, cp, hk, by omega, by omega, hs⟩
  · rintro ⟨k, cp, hk, h₁, h₂, hs⟩
    exact ⟨k, cp, hk, by omega, by omega, hs⟩

/-! ### What `ready` says -/

section Ready
variable {f : Fence} {order : Nat}

theorem allProvided_iff {samples : List Nat} : f.allProvided samples = true ↔ ∀ s ∈ samples, s ∈ f.provided := by
  simp [allProvided, isProvided]

/-- `ready` changes nothing but the stall state. -/
theorem ready_frame (f : Fence) (order : Nat) :
    (f.ready order).2.cps = f.cps ∧ (f.ready order).2.provided = f.provided ∧
      (f.ready order).2.lookahead = f.lookahead := by
  simp only [ready]
  repeat' split
  all_goals exact ⟨rfl, rfl, rfl⟩

theorem floor_subset_margin {s : Nat} (h : s ∈ f.requiredAt order) :
    s ∈ unionRange f.cps (f.floorIdx order) (f.floorIdx order + 1 + f.lookahead) := by
  obtain ⟨k, cp, hk, h₁, h₂, hs⟩ := mem_unionRange.1 h
  exact mem_unionRange.2 ⟨k, cp, hk, h₁, by omega, hs⟩

/-- Playback is only let in with everything resident that the order requires. -/
theorem provided_of_ready (h : (f.ready order).1 = true) : ∀ s ∈ f.requiredAt order, s ∈ f.provided := by
  intro s hs
  simp only [ready] at h
  split at h
  · rename_i hempty
    rw [requiredAt, List.isEmpty_iff.1 hempty] at hs
    simp at hs
  split at h
  · split at h
    · exact allProvided_iff.1 ‹_› s hs
    · cases h
  · split at h
    · exact allProvided_iff.1 ‹_› s (floor_subset_margin hs)
    · cases h

/-- Everything resident that a stalled fence waits for lets playback in. -/
theorem ready_of_margin
    (h : ∀ s ∈ unionRange f.cps (f.floorIdx order) (f.floorIdx order + 1 + f.lookahead), s ∈ f.provided) :
    (f.ready order).1 = true := by
  have hbase : f.allProvided (unionRange f.cps (f.floorIdx order) (f.floorIdx order + 1)) = true :=
    allProvided_iff.2 fun s hs => h s (floor_subset_margin hs)
  simp only [ready, hbase, allProvided_iff.2 h, if_true]
  repeat' split
  all_goals rfl

theorem ready_of_empty (h : f.requiredAt order = []) : (f.ready order).1 = true := by
  have hbase : (unionRange f.cps (f.floorIdx order) (f.floorIdx order + 1)).isEmpty = true := List.isEmpty_iff.2 h
  simp only [ready, hbase, if_true]

/-- A stalled fence lets playback in only with its whole margin resident, where anything is required. -/
theorem margin_of_ready (hstall : f.stalled = true) (hreq : f.requiredAt order ≠ []) (h : (f.ready order).1 = true) :
    ∀ s ∈ unionRange f.cps (f.floorIdx order) (f.floorIdx order + 1 + f.lookahead), s ∈ f.provided := by
  have hne : (unionRange f.cps (f.floorIdx order) (f.floorIdx order + 1)).isEmpty = false := by
    rw [List.isEmpty_eq_false_iff]
    exact hreq
  simp only [ready, hne, hstall, Bool.not_true, Bool.false_eq_true, if_false] at h
  split at h
  · exact allProvided_iff.1 ‹_›
  · cases h

/-- A fence with nothing resident stalls at the first order that requires anything. -/
theorem ready_stalls (hprov : f.provided = []) (hstall : f.stalled = false) (hreq : f.requiredAt order ≠ []) :
    (f.ready order).2.stalled = true := by
  have hne : (unionRange f.cps (f.floorIdx order) (f.floorIdx order + 1)).isEmpty = false := by
    rw [List.isEmpty_eq_false_iff]
    exact hreq
  have hnot : f.allProvided (unionRange f.cps (f.floorIdx order) (f.floorIdx order + 1)) = false := by
    obtain ⟨s, hs⟩ := List.exists_mem_of_ne_nil _ hreq
    rw [Bool.eq_false_iff]
    intro hall
    have := allProvided_iff.1 hall s hs
    rw [hprov] at this
    simp at this
  simp [ready, hne, hnot, hstall]

end Ready

/-! ### Whole histories -/

/-- A call on a fence. -/
inductive Call
  | provide (index : Nat)
  | ready (order : Nat)

def call (f : Fence) : Call → Fence
  | .provide index => f.provide index
  | .ready order => (f.ready order).2

/-- The fence after a history of calls. -/
def calls (f : Fence) (cs : List Call) : Fence := cs.foldl call f

theorem call_frame (f : Fence) (c : Call) : (f.call c).cps = f.cps ∧ (f.call c).lookahead = f.lookahead := by
  cases c with
  | provide index => exact ⟨rfl, rfl⟩
  | ready order => exact ⟨(f.ready_frame order).1, (f.ready_frame order).2.2⟩

theorem calls_frame (f : Fence) (cs : List Call) :
    (f.calls cs).cps = f.cps ∧ (f.calls cs).lookahead = f.lookahead := by
  induction cs generalizing f with
  | nil => exact ⟨rfl, rfl⟩
  | cons c cs ih =>
    obtain ⟨h₁, h₂⟩ := ih (f.call c)
    obtain ⟨h₃, h₄⟩ := f.call_frame c
    exact ⟨h₁.trans h₃, h₂.trans h₄⟩

theorem mem_call_provided {f : Fence} {c : Call} {s : Nat} :
    s ∈ (f.call c).provided ↔ s ∈ f.provided ∨ c = .provide s := by
  cases c with
  | provide index => simp [call, provide, eq_comm, or_comm]
  | ready order => simp [call, (f.ready_frame order).2.1]

/-- A history has made resident what it has provided. -/
theorem mem_calls_provided {f : Fence} {cs : List Call} {s : Nat} :
    s ∈ (f.calls cs).provided ↔ s ∈ f.provided ∨ .provide s ∈ cs := by
  induction cs generalizing f with
  | nil => simp [calls]
  | cons c cs ih =>
    have hstep : s ∈ (f.calls (c :: cs)).provided ↔ _ := @ih (f.call c)
    rw [hstep, mem_call_provided, or_assoc, List.mem_cons, eq_comm]

end Fence

end TrackerStream
