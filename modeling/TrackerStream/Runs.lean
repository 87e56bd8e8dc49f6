import Mathlib

/-!
# Runs of a machine

A machine takes inputs one after another. `state` is where it stands after the first of them; `invariant` and
`chain` are the rules for what holds of every state of a run, and between an earlier state and a later one.
-/

namespace Runs
variable {σ ι : Type*} (step : σ → ι → σ)

/-- The state after the first `k` inputs. -/
def state (s : σ) (is : List ι) (k : Nat) : σ := (is.take k).foldl step s

/-- Each input meets `C` in the state it comes in. -/
def Along (C : σ → ι → Prop) (s : σ) (is : List ι) : Prop := ∀ k i, is[k]? = some i → C (state step s is k) i

variable {step} {s : σ} {is : List ι} {i : ι} {j k : Nat}

@[simp] theorem state_zero : state step s is 0 = s := rfl

theorem state_cons : state step s (i :: is) (k + 1) = state step (step s i) is k := rfl

theorem state_succ (h : is[k]? = some i) : state step s is (k + 1) = step (state step s is k) i := by
  rw [state, state, List.take_add_one, h, Option.toList_some, List.foldl_append, List.foldl_cons, List.foldl_nil]

theorem state_of_le (h : is.length ≤ k) : state step s is k = state step s is is.length := by
  rw [state, state, List.take_of_length_le h, List.take_length]

theorem state_length : state step s is is.length = is.foldl step s := by rw [state, List.take_length]

theorem along_iff {C : σ → ι → Prop} : Along step C s is ↔ ∀ k < is.length, ∀ i ∈ is[k]?, C (state step s is k) i :=
  ⟨fun h k _ i hi => h k i hi, fun h k i hi => h k (List.getElem?_eq_some_iff.1 hi).1 i hi⟩

theorem along_nil {C : σ → ι → Prop} : Along step C s [] := fun _ _ h => by simp at h

theorem along_cons {C : σ → ι → Prop} (hi : C s i) (h : Along step C (step s i) is) : Along step C s (i :: is) := by
  intro k i' hi'
  cases k with
  | zero =>
    rw [List.getElem?_cons_zero, Option.some.injEq] at hi'
    exact hi' ▸ hi
  | succ k => exact h k i' hi'

theorem invariant {I : Nat → σ → Prop} (hs : I 0 s)
    (hstep : ∀ k i, is[k]? = some i → I k (state step s is k) → I (k + 1) (step (state step s is k) i)) :
    ∀ k, k ≤ is.length → I k (state step s is k) := by
  intro k
  induction k with
  | zero => exact fun _ => hs
  | succ k ih =>
    intro hk
    have hi : is[k]? = some is[k] := List.getElem?_eq_getElem hk
    rw [state_succ hi]
    exact hstep k _ hi (ih (Nat.le_of_lt hk))

/-- What holds at first and is kept by every step holds always. -/
theorem always {I : σ → Prop} (hs : I s) (hstep : ∀ s i, I s → I (step s i)) (k : Nat) : I (state step s is k) :=
  List.foldlRecOn _ step hs fun s h i _ => hstep s i h

/-- What every step taken under `C` keeps holds always in a run along `C`. -/
theorem Along.always {C : σ → ι → Prop} {I : σ → Prop} (h : Along step C s is) (hs : I s) (hstep : ∀ s i, C s i → I s → I (step s i))
    (k : Nat) : I (state step s is k) := by
  rcases Nat.le_total k is.length with hk | hk
  · exact invariant (I := fun _ => I) hs (fun j i hi hI => hstep _ i (h j i hi) hI) k hk
  · rw [state_of_le hk]
    exact invariant (I := fun _ => I) hs (fun j i hi hI => hstep _ i (h j i hi) hI) _ le_rfl

/-- Where the steps taken under `C` are those that keep the invariant, and any other shows at once in `P`, the states of a run
all have `P` exactly when it runs along `C`. -/
theorem always_iff_along {V C : σ → ι → Prop} {I P : σ → Prop} (hs : I s) (hP : ∀ s, I s → P s)
    (hkeep : ∀ s i, V s i → C s i → I s → I (step s i)) (hshow : ∀ s i, V s i → I s → P (step s i) → C s i) (hV : Along step V s is) :
    (∀ k, P (state step s is k)) ↔ Along step C s is := by
  constructor
  · intro h
    have hI : ∀ k, k ≤ is.length → I (state step s is k) :=
      invariant (I := fun _ => I) hs fun k i hi hI =>
        hkeep _ i (hV k i hi) (hshow _ i (hV k i hi) hI (@state_succ _ _ step s _ _ _ hi ▸ h (k + 1))) hI
    intro k i hi
    have hnext : state step s is (k + 1) = step (state step s is k) i := state_succ hi
    exact hshow _ i (hV k i hi) (hI k (Nat.le_of_lt (List.getElem?_eq_some_iff.1 hi).1)) (hnext ▸ h (k + 1))
  · intro h k
    have hVC : Along step (fun s i => V s i ∧ C s i) s is := fun k i hi => ⟨hV k i hi, h k i hi⟩
    exact hP _ (hVC.always hs (fun s i hi => hkeep s i hi.1 hi.2) k)

/-- What a step keeps or ends, a run keeps or has ended. -/
theorem holds_or_ended {P Q : Nat → Prop} (hj : P j) (hstep : ∀ m, j ≤ m → m < k → P m → P (m + 1) ∨ Q (m + 1))
    (hjk : j ≤ k) : P k ∨ ∃ m, j < m ∧ m ≤ k ∧ Q m := by
  induction k, hjk using Nat.le_induction with
  | base => exact .inl hj
  | succ k hjk ih =>
    rcases ih fun m hjm hmk => hstep m hjm (Nat.lt_succ_of_lt hmk) with hP | ⟨m, hjm, hmk, hQ⟩
    · rcases hstep k hjk (Nat.lt_succ_self k) hP with hP | hQ
      · exact .inl hP
      · exact .inr ⟨k + 1, Nat.lt_succ_of_le hjk, le_rfl, hQ⟩
    · exact .inr ⟨m, hjm, Nat.le_succ_of_le hmk, hQ⟩

/-- What each step does not lower, a run does not lower. -/
theorem chain {R : σ → σ → Prop} (hrefl : ∀ s, R s s) (htrans : ∀ {a b c}, R a b → R b c → R a c)
    (hstep : ∀ m i, j ≤ m → m < k → is[m]? = some i → R (state step s is m) (step (state step s is m) i))
    (hjk : j ≤ k) : R (state step s is j) (state step s is k) := by
  induction k, hjk using Nat.le_induction with
  | base => exact hrefl _
  | succ k hjk ih =>
    refine htrans (ih fun m i hjm hmk hi => hstep m i hjm (Nat.lt_succ_of_lt hmk) hi) ?_
    cases hi : is[k]? with
    | some i =>
      rw [state_succ hi]
      exact hstep k i hjk (Nat.lt_succ_self k) hi
    | none =>
      have hlen := List.getElem?_eq_none_iff.1 hi
      rw [state_of_le hlen, state_of_le (Nat.le_succ_of_le hlen)]
      exact hrefl _

/-! ### Values that are written now and then -/

variable {Q : Type*} [Preorder Q] {held : σ → Option Q}

end Runs
