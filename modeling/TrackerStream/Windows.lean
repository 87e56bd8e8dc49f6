import Mathlib

/-!
# Limits on what happens in a window

A run passes states with a clock, the entry of one key in a table, and a count of what was let through for the key. The
entry is a token bucket, charged for what it lets through, or the time something was last let through. `bucket_window`
and `cooldown_window` bound what is let through in a window in which the entry is not dropped, where every step does one
of the few things a step may do to it.
-/

namespace Windows
variable {σ L : Type}

/-- Between the `j`-th state and the `k`-th no step drops the entry. -/
def Kept (entry : σ → Option L) (state : Nat → σ) (j k : Nat) : Prop :=
  ∀ m, j ≤ m → m < k → entry (state m) ≠ none → entry (state (m + 1)) ≠ none

theorem kept_of_all {entry : σ → Option L} {state : Nat → σ} {j k : Nat}
    (h : ((List.range' j (k - j)).all fun m => (entry (state m)).isNone || (entry (state (m + 1))).isSome) = true) :
    Kept entry state j k := by
  intro m hjm hmk hsome hnone
  have := List.all_eq_true.1 h m (List.mem_range'_1.2 ⟨hjm, by omega⟩)
  rw [hnone, Option.isSome_none, Bool.or_false, Option.isNone_iff_eq_none] at this
  exact hsome this

/-! ### Token buckets -/

/-- A bucket that is charged at a time, and what it holds then: `burst` tokens at most, refilled at `rate`; what is let
through takes one. -/
structure TokenBucket (allow : ℚ → L → Bool × L) (tokens : L → ℚ → ℚ) (burst rate : ℚ) : Prop where
  nonneg : ∀ l t, 0 ≤ tokens l t
  le_burst : ∀ l t, tokens l t ≤ burst
  refill : ∀ l t t', t ≤ t' → tokens l t' ≤ tokens l t + rate * (t' - t)
  charge : ∀ l t, tokens (allow t l).2 t + (if (allow t l).1 then 1 else 0) ≤ tokens l t

variable {clock : σ → ℚ} {count : σ → Nat} {state : Nat → σ}

/-- What a step may do to a bucket and the count of what it let through. -/
inductive BucketStep (allow : ℚ → L → Bool × L) (clock : σ → ℚ) (bucket : σ → Option L) (count : σ → Nat) (s s' : σ) : Prop
  | idle (hbucket : bucket s' = bucket s) (hcount : count s' = count s)
  | opened (hbucket : bucket s = none) (hcount : count s' = count s)
  | charged (l : L) (hold : bucket s = none ∨ bucket s = some l) (hnew : bucket s' = some (allow (clock s') l).2)
    (hcount : count s' ≤ count s + if (allow (clock s') l).1 then 1 else 0)
  | dropped (hbucket : bucket s' = none) (hcount : count s' = count s)

section
variable {allow : ℚ → L → Bool × L} {tokens : L → ℚ → ℚ} {burst rate : ℚ} {bucket : σ → Option L} {s s' : σ}

/-- What can be let through at once: the tokens of the bucket, and as much as a bucket may hold where there is none. -/
def credit (tokens : L → ℚ → ℚ) (burst : ℚ) (clock : σ → ℚ) (bucket : σ → Option L) (s : σ) : ℚ :=
  match bucket s with
  | some l => tokens l (clock s)
  | none => burst

theorem credit_some {l : L} (h : bucket s = some l) : credit tokens burst clock bucket s = tokens l (clock s) := by
  rw [credit, h]

theorem credit_none (h : bucket s = none) : credit tokens burst clock bucket s = burst := by rw [credit, h]

theorem TokenBucket.credit_le (h : TokenBucket allow tokens burst rate) (s : σ) :
    credit tokens burst clock bucket s ≤ burst := by
  cases hb : bucket s with
  | none => exact (credit_none hb).le
  | some l => exact (credit_some hb).trans_le (h.le_burst l _)

theorem TokenBucket.credit_nonneg (h : TokenBucket allow tokens burst rate) (hburst : 0 ≤ burst) (s : σ) :
    0 ≤ credit tokens burst clock bucket s := by
  cases hb : bucket s with
  | none => exact hburst.trans_eq (credit_none hb).symm
  | some l => exact (h.nonneg l _).trans_eq (credit_some hb).symm

/-- What is charged was there at the time of the step. -/
theorem TokenBucket.charged (h : TokenBucket allow tokens burst rate) {l : L}
    (hnew : bucket s' = some (allow (clock s') l).2)
    (hcount : count s' ≤ count s + if (allow (clock s') l).1 then 1 else 0) :
    (count s' : ℚ) + credit tokens burst clock bucket s' ≤ count s + tokens l (clock s') := by
  have hcharge := h.charge l (clock s')
  have hcast : (count s' : ℚ) ≤ count s + if (allow (clock s') l).1 then 1 else 0 := by exact_mod_cast hcount
  rw [credit_some hnew]
  linarith

/-- A first step lets through no more than a bucket may hold. -/
theorem BucketStep.first (hs : BucketStep allow clock bucket count s s') (h : TokenBucket allow tokens burst rate) :
    (count s' : ℚ) + credit tokens burst clock bucket s' ≤ count s + burst := by
  have hle : credit tokens burst clock bucket s' ≤ burst := h.credit_le s'
  cases hs with
  | idle _ hcount | opened _ hcount | dropped _ hcount =>
    rw [hcount]
    linarith
  | charged l _ hnew hcount =>
    have := h.charged hnew hcount
    have := h.le_burst l (clock s')
    linarith

/-- A later one adds what was refilled since. -/
theorem BucketStep.next (hs : BucketStep allow clock bucket count s s') (h : TokenBucket allow tokens burst rate)
    (hrate : 0 ≤ rate) (hclock : clock s ≤ clock s') (hkept : bucket s ≠ none → bucket s' ≠ none) :
    (count s' : ℚ) + credit tokens burst clock bucket s' ≤
      count s + credit tokens burst clock bucket s + rate * (clock s' - clock s) := by
  have hrefill : 0 ≤ rate * (clock s' - clock s) := mul_nonneg hrate (sub_nonneg.2 hclock)
  have hle : credit tokens burst clock bucket s' ≤ burst := h.credit_le s'
  have hempty (hnone : bucket s = none) (hcount : (count s' : ℚ) = count s) :
      (count s' : ℚ) + credit tokens burst clock bucket s' ≤
        count s + credit tokens burst clock bucket s + rate * (clock s' - clock s) := by
    rw [hcount, credit_none hnone]
    linarith
  cases hs with
  | idle hbucket hcount =>
    cases hb : bucket s with
    | none => exact hempty hb (by rw [hcount])
    | some l =>
      have := h.refill l _ _ hclock
      rw [hcount, credit_some hb, credit_some (hbucket.trans hb)]
      linarith
  | opened hnone hcount => exact hempty hnone (by rw [hcount])
  | charged l hold hnew hcount =>
    have hcharged := h.charged hnew hcount
    rcases hold with hnone | hb
    · have := h.le_burst l (clock s')
      rw [credit_none hnone]
      linarith
    · have := h.refill l _ _ hclock
      rw [credit_some hb]
      linarith
  | dropped hnone hcount =>
    refine hempty ?_ (by rw [hcount])
    by_contra hb
    exact hkept hb hnone

/-- In the steps from the `j`-th state to the `k`-th no more is let through than a bucket may hold and is refilled from the
first of them to the last. -/
theorem bucket_window (h : TokenBucket allow tokens burst rate) (hburst : 0 ≤ burst) (hrate : 0 ≤ rate)
    (hclock : ∀ m, clock (state m) ≤ clock (state (m + 1)))
    (hstep : ∀ m, BucketStep allow clock bucket count (state m) (state (m + 1))) {j k : Nat} (hjk : j < k)
    (hkept : Kept bucket state j k) :
    (count (state k) : ℚ) ≤ count (state j) + burst + rate * (clock (state k) - clock (state (j + 1))) := by
  have hall : (count (state k) : ℚ) + credit tokens burst clock bucket (state k) ≤
      count (state j) + burst + rate * (clock (state k) - clock (state (j + 1))) := by
    induction k, hjk using Nat.le_induction with
    | base =>
      have := (hstep j).first h
      linarith
    | succ k hjk ih =>
      have hnext := (hstep k).next h hrate (hclock k) (hkept k (Nat.le_of_succ_le hjk) (Nat.lt_succ_self k))
      have hsofar := ih fun m hjm hmk => hkept m hjm (Nat.lt_succ_of_lt hmk)
      linarith
  have hnonneg : 0 ≤ credit tokens burst clock bucket (state k) := h.credit_nonneg hburst (state k)
  linarith

end

/-- A bucket that is refilled when it is charged, up to `burst`. -/
structure Meter where
  tokens : ℚ
  since : ℚ
deriving DecidableEq

namespace Meter

def refilled (burst rate : ℚ) (b : Meter) (t : ℚ) : ℚ := min burst (b.tokens + (t - b.since) * rate)

def charge (burst rate t : ℚ) (b : Meter) : Bool × Meter :=
  if b.refilled burst rate t < 1 then (false, ⟨b.refilled burst rate t, t⟩)
  else (true, ⟨b.refilled burst rate t - 1, t⟩)

theorem refilled_at {burst rate x t : ℚ} (hx : x ≤ burst) : refilled burst rate ⟨x, t⟩ t = x := by
  rw [refilled, sub_self, zero_mul, add_zero, min_eq_right hx]

theorem tokenBucket {burst rate : ℚ} (hburst : 0 ≤ burst) (hrate : 0 ≤ rate) :
    TokenBucket (charge burst rate) (fun b t => max 0 (b.refilled burst rate t)) burst rate where
  nonneg b t := le_max_left 0 _
  le_burst b t := max_le hburst (min_le_left burst _)
  refill b t t' ht := by
    have hmore : 0 ≤ rate * (t' - t) := mul_nonneg hrate (sub_nonneg.2 ht)
    have hmono : b.refilled burst rate t' ≤ b.refilled burst rate t + rate * (t' - t) := by
      rw [refilled, refilled, ← min_add_add_right]
      refine min_le_min (le_add_of_nonneg_right hmore) (le_of_eq ?_)
      ring
    refine max_le (add_nonneg (le_max_left 0 _) hmore) (hmono.trans ?_)
    exact add_le_add_left (le_max_right 0 _) _
  charge b t := by
    have hle : b.refilled burst rate t ≤ burst := min_le_left burst _
    by_cases h : b.refilled burst rate t < 1
    · simp only [Meter.charge, if_pos h, refilled_at hle, Bool.false_eq_true, if_false, add_zero, le_refl]
    · simp only [Meter.charge, if_neg h, if_true]
      rw [refilled_at (by linarith), max_eq_right (by linarith), sub_add_cancel]
      exact le_max_right 0 _

end Meter

/-! ### Cooldowns -/

/-- What a step may do to an entry that holds the time something was last let through. -/
inductive CooldownStep (gap : ℚ) (clock : σ → ℚ) (entry : σ → Option ℚ) (count : σ → Nat) (s s' : σ) : Prop
  | idle (hentry : entry s' = entry s) (hcount : count s' = count s)
  | recorded (hold : ∀ a, entry s = some a → a + gap ≤ clock s') (hnew : entry s' = some (clock s'))
    (hcount : count s' = count s + 1)
  | dropped (hentry : entry s' = none) (hcount : count s' = count s)

variable {gap : ℚ} {entry : σ → Option ℚ}

/-- In the steps from the `j`-th state to the `k`-th, all within the gap, one thing is let through at most. -/
theorem cooldown_window (hclock : ∀ m, clock (state m) ≤ clock (state (m + 1)))
    (hstep : ∀ m, CooldownStep gap clock entry count (state m) (state (m + 1))) {j k : Nat} (hjk : j < k)
    (hkept : Kept entry state j k) (hgap : clock (state k) < clock (state (j + 1)) + gap) :
    count (state k) ≤ count (state j) + 1 := by
  have hall : count (state k) = count (state j) ∨
      count (state k) = count (state j) + 1 ∧ ∃ a, entry (state k) = some a ∧ clock (state (j + 1)) ≤ a := by
    induction k, hjk using Nat.le_induction with
    | base =>
      cases hstep j with
      | idle _ hcount | dropped _ hcount => exact .inl hcount
      | recorded _ hnew hcount => exact .inr ⟨hcount, _, hnew, le_rfl⟩
    | succ k hjk ih =>
      have hmono : clock (state (j + 1)) ≤ clock (state (k + 1)) :=
        monotone_nat_of_le_succ (f := fun m => clock (state m)) hclock (Nat.succ_le_succ (Nat.le_of_succ_le hjk))
      have hsofar := ih (fun m hjm hmk => hkept m hjm (Nat.lt_succ_of_lt hmk)) ((hclock k).trans_lt hgap)
      cases hstep k with
      | idle hentry hcount =>
        rw [hcount, hentry]
        exact hsofar
      | recorded hold hnew hcount =>
        rcases hsofar with heq | ⟨-, a, ha, hle⟩
        · exact .inr ⟨by rw [hcount, heq], _, hnew, hmono⟩
        · have := hold a ha
          linarith
      | dropped hentry hcount =>
        rcases hsofar with heq | ⟨-, a, ha, -⟩
        · exact .inl (hcount.trans heq)
        · refine absurd hentry (hkept k (Nat.le_of_succ_le hjk) (Nat.lt_succ_self k) ?_)
          rw [ha]
          exact Option.some_ne_none a
  rcases hall with heq | ⟨heq, -⟩ <;> omega

/-- What is let through in a window: for a key, as long as its bucket is not dropped, no more than a burst and what the rate
adds from the first step to the last; for a name, as long as its entry is not dropped, one thing in a gap. -/
structure Limited {K : Type} (clock : σ → ℚ) (bucket : K → σ → Option L) (entry : K → σ → Option ℚ)
    (admissions announces : K → σ → Nat) (burst rate gap : ℚ) (state : Nat → σ) : Prop where
  requests : ∀ p j k, j < k → Kept (bucket p) state j k →
    (admissions p (state k) : ℚ) ≤ admissions p (state j) + burst + rate * (clock (state k) - clock (state (j + 1)))
  announcements : ∀ name j k, j < k → Kept (entry name) state j k → clock (state k) < clock (state (j + 1)) + gap →
    announces name (state k) ≤ announces name (state j) + 1

/-- Steps that do to buckets and entries what they may are limited. -/
theorem limited {K : Type} {allow : ℚ → L → Bool × L} {tokens : L → ℚ → ℚ} {burst rate : ℚ}
    {bucket : K → σ → Option L} {entry : K → σ → Option ℚ} {admissions announces : K → σ → Nat}
    (h : TokenBucket allow tokens burst rate) (hburst : 0 ≤ burst) (hrate : 0 ≤ rate)
    (hclock : ∀ m, clock (state m) ≤ clock (state (m + 1)))
    (hbucket : ∀ m p, BucketStep allow clock (bucket p) (admissions p) (state m) (state (m + 1)))
    (hentry : ∀ m n, CooldownStep gap clock (entry n) (announces n) (state m) (state (m + 1))) :
    Limited clock bucket entry admissions announces burst rate gap state where
  requests p _ _ hjk hkept := bucket_window h hburst hrate hclock (fun m => hbucket m p) hjk hkept
  announcements n _ _ hjk hkept hgap := cooldown_window hclock (fun m => hentry m n) hjk hkept hgap

end Windows
