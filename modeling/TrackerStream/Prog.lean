import Mathlib

/-!
# Programs of atomic acts

A `Prog` acts on a world it shares with others, one atomic act at a time, and goes on with the answer. It is
run alone by `run`, with what the environment puts in at each act. `wp` is the weakest precondition of a
program under a `Contract` for its acts: the state may be the world itself (`run_wp`), or whatever is to be
remembered of the acts done so far, with any answers the contract admits.
-/

universe u

/-- A program whose acts `e : E` are answered in `Ans e`; it may fail with an `ε`. -/
inductive Prog (E : Type) (Ans : E → Type) (ε : Type) (α : Type)
  | ret (a : α)
  | fail (x : ε)
  | act (e : E) (k : Ans e → Prog E Ans ε α)

namespace Prog
variable {E : Type} {Ans : E → Type} {ε α β γ ι σ : Type}

protected def bind : Prog E Ans ε α → (α → Prog E Ans ε β) → Prog E Ans ε β
  | ret a, f => f a
  | fail x, _ => fail x
  | act e k, f => act e fun r => (k r).bind f

instance : Monad (Prog E Ans ε) where
  pure := ret
  bind := Prog.bind

/-- One act and its answer. -/
def call (e : E) : Prog E Ans ε (Ans e) := act e ret

def ofExcept : Except ε α → Prog E Ans ε α
  | .ok a => ret a
  | .error x => fail x

/-- The program with its failure as a value. -/
def attempt : Prog E Ans ε α → Prog E Ans ε (Except ε α)
  | ret a => ret (.ok a)
  | fail x => ret (.error x)
  | act e k => act e fun r => (k r).attempt

/-- Whether a program has come to its end. -/
def ended : Prog E Ans ε α → Bool
  | act _ _ => false
  | _ => true

@[simp] theorem ret_bind (a : β) (f : β → Prog E Ans ε α) : (ret a >>= f) = f a := rfl

@[simp] theorem fail_bind (x : ε) (f : β → Prog E Ans ε α) : (fail x >>= f) = fail x := rfl

@[simp] theorem act_bind (e : E) (k : Ans e → Prog E Ans ε β) (f : β → Prog E Ans ε α) :
    (act e k >>= f) = act e fun r => k r >>= f := rfl

/-! ### Contracts -/

/-- What is asked of the state before an act, and how the act's answer and the state after it are related to
the state before. -/
structure Contract (E : Type) (Ans : E → Type) (σ : Type) where
  pre : E → σ → Prop
  post : (e : E) → σ → Ans e → σ → Prop

/-- Each act of the program finds what the contract asks, and the program ends in `Q` or fails in `R`. -/
def wp (K : Contract E Ans σ) : Prog E Ans ε α → (α → σ → Prop) → (ε → σ → Prop) → σ → Prop
  | ret a, Q, _, s => Q a s
  | fail x, _, R, s => R x s
  | act e k, Q, R, s => K.pre e s ∧ ∀ r s', K.post e s r s' → (k r).wp K Q R s'

variable {K : Contract E Ans σ} {Q Q' : α → σ → Prop} {R R' : ε → σ → Prop} {s : σ}

@[simp] theorem wp_pure (a : α) : wp K (pure a : Prog E Ans ε α) Q R s ↔ Q a s := Iff.rfl

@[simp] theorem wp_ret (a : α) : wp K (ret a : Prog E Ans ε α) Q R s ↔ Q a s := Iff.rfl

@[simp] theorem wp_fail (x : ε) : wp K (fail x : Prog E Ans ε α) Q R s ↔ R x s := Iff.rfl

@[simp] theorem wp_act (e : E) (k : Ans e → Prog E Ans ε α) :
    wp K (act e k) Q R s ↔ K.pre e s ∧ ∀ r s', K.post e s r s' → wp K (k r) Q R s' := Iff.rfl

@[simp] theorem wp_call (e : E) {Q : Ans e → σ → Prop} :
    wp K (call e : Prog E Ans ε (Ans e)) Q R s ↔ K.pre e s ∧ ∀ r s', K.post e s r s' → Q r s' := Iff.rfl

@[simp] theorem wp_bind (p : Prog E Ans ε β) (f : β → Prog E Ans ε α) :
    wp K (p >>= f) Q R s ↔ wp K p (fun b s' => wp K (f b) Q R s') R s := by
  induction p generalizing s with
  | ret b => exact Iff.rfl
  | fail x => exact Iff.rfl
  | act e k ih => exact and_congr Iff.rfl (forall_congr' fun r => forall_congr' fun s' => imp_congr Iff.rfl (ih r))

@[simp] theorem wp_attempt (p : Prog E Ans ε β) {Q : Except ε β → σ → Prop} :
    wp K (attempt p) Q R s ↔ wp K p (fun b => Q (.ok b)) (fun x => Q (.error x)) s := by
  induction p generalizing s with
  | ret b => exact Iff.rfl
  | fail x => exact Iff.rfl
  | act e k ih => exact and_congr Iff.rfl (forall_congr' fun r => forall_congr' fun s' => imp_congr Iff.rfl (ih r))

theorem wp_ofExcept (x : Except ε α) :
    wp K (ofExcept x) Q R s ↔ (∀ a, x = .ok a → Q a s) ∧ ∀ y, x = .error y → R y s := by
  cases x <;> simp [ofExcept]

theorem wp_mono (p : Prog E Ans ε α) (h : wp K p Q R s) (hQ : ∀ a s, Q a s → Q' a s)
    (hR : ∀ x s, R x s → R' x s) : wp K p Q' R' s := by
  induction p generalizing s with
  | ret a => exact hQ a s h
  | fail x => exact hR x s h
  | act e k ih => exact ⟨h.1, fun r s' hs => ih r (h.2 r s' hs)⟩

/-- A loop keeps what each of its rounds keeps. -/
theorem wp_foldlM {f : γ → β → Prog E Ans ε γ} (I : γ → σ → Prop) {xs : List β}
    (h : ∀ x ∈ xs, ∀ c s, I c s → wp K (f c x) I R s) {c : γ} (hc : I c s) : wp K (xs.foldlM f c) I R s := by
  induction xs generalizing c s with
  | nil => exact hc
  | cons x xs ih =>
    rw [List.foldlM_cons, wp_bind]
    exact wp_mono _ (h x (by simp) c s hc) (fun c' s' hc' => ih (fun y hy => h y (by simp [hy])) hc')
      fun _ _ hx => hx

/-! ### Runs -/

/-- How the world answers: an act in a state, with what the environment puts in, gives the answer and the
state after. -/
abbrev World (E : Type) (Ans : E → Type) (ι σ : Type) := (e : E) → ι → σ → Ans e × σ

/-- The program run alone from `s`; the `n`-th act gets the `n`-th input. -/
def run (W : World E Ans ι σ) : Prog E Ans ε α → (Nat → ι) → σ → Except ε α × σ
  | ret a, _, s => (.ok a, s)
  | fail x, _, s => (.error x, s)
  | act e k, ω, s => (k (W e (ω 0) s).1).run W (fun n => ω (n + 1)) (W e (ω 0) s).2

@[simp] theorem run_ret (W : World E Ans ι σ) (a : α) (ω : Nat → ι) (s : σ) :
    (ret a : Prog E Ans ε α).run W ω s = (.ok a, s) := rfl

@[simp] theorem run_pure (W : World E Ans ι σ) (a : α) (ω : Nat → ι) (s : σ) :
    (pure a : Prog E Ans ε α).run W ω s = (.ok a, s) := rfl

@[simp] theorem run_fail (W : World E Ans ι σ) (x : ε) (ω : Nat → ι) (s : σ) :
    (fail x : Prog E Ans ε α).run W ω s = (.error x, s) := rfl

@[simp] theorem run_act (W : World E Ans ι σ) (e : E) (k : Ans e → Prog E Ans ε α) (ω : Nat → ι) (s : σ) :
    (act e k).run W ω s = (k (W e (ω 0) s).1).run W (fun n => ω (n + 1)) (W e (ω 0) s).2 := rfl

/-- Every act of the run is one `C` admits, with its input and in the state it is done in. -/
def Fits (W : World E Ans ι σ) (C : E → ι → σ → Prop) : Prog E Ans ε α → (Nat → ι) → σ → Prop
  | act e k, ω, s => C e (ω 0) s ∧ (k (W e (ω 0) s).1).Fits W C (fun n => ω (n + 1)) (W e (ω 0) s).2
  | _, _, _ => True

/-- The world as a contract: nothing is asked, and what comes after is what some admitted input makes of it. -/
def ofWorld (W : World E Ans ι σ) (C : E → ι → σ → Prop) : Contract E Ans σ where
  pre _ _ := True
  post e s r s' := ∃ i, C e i s ∧ W e i s = (r, s')

variable {W : World E Ans ι σ} {C C' : E → ι → σ → Prop}

theorem Fits.mono {p : Prog E Ans ε α} {ω : Nat → ι} (h : p.Fits W C ω s) (hC : ∀ e i s, C e i s → C' e i s) :
    p.Fits W C' ω s := by
  induction p generalizing ω s with
  | ret a => trivial
  | fail x => trivial
  | act e k ih => exact ⟨hC _ _ _ h.1, ih _ h.2⟩

theorem Fits.and {p : Prog E Ans ε α} {ω : Nat → ι} (h : p.Fits W C ω s) (h' : p.Fits W C' ω s) :
    p.Fits W (fun e i s => C e i s ∧ C' e i s) ω s := by
  induction p generalizing ω s with
  | ret a => trivial
  | fail x => trivial
  | act e k ih => exact ⟨⟨h.1, h'.1⟩, ih _ h.2 h'.2⟩

theorem fits_of_forall {ω : Nat → ι} (h : ∀ n e s, C e (ω n) s) (p : Prog E Ans ε α) (s : σ) : p.Fits W C ω s := by
  induction p generalizing ω s with
  | ret a => trivial
  | fail x => trivial
  | act e k ih => exact ⟨h 0 e s, ih _ (fun n => h (n + 1)) _⟩

theorem fits_true (p : Prog E Ans ε α) (ω : Nat → ι) (s : σ) : p.Fits W (fun _ _ _ => True) ω s := by
  induction p generalizing ω s with
  | ret a => trivial
  | fail x => trivial
  | act e k ih => exact ⟨trivial, ih _ _ _⟩

/-- The world with the one input `x`, where each act is to be one `C` admits. -/
def withInput (W : World E Ans ι σ) (C : E → ι → σ → Prop) (x : ι) : Contract E Ans σ where
  pre e s := C e x s
  post e s r s' := W e x s = (r, s')

theorem wp_act_withInput {x : ι} (e : E) (k : Ans e → Prog E Ans ε α) :
    wp (withInput W C x) (act e k) Q R s ↔ C e x s ∧ wp (withInput W C x) (k (W e x s).1) Q R (W e x s).2 := by
  refine and_congr Iff.rfl ⟨fun h => h _ _ rfl, ?_⟩
  rintro h r s' heq
  rwa [show W e x s = (r, s') from heq] at h

theorem fits_of_wp {x : ι} {p : Prog E Ans ε α} (h : p.wp (withInput W C x) Q R s) : p.Fits W C (fun _ => x) s := by
  induction p generalizing s with
  | ret a => trivial
  | fail y => trivial
  | act e k ih => exact ⟨h.1, ih _ (h.2 _ _ rfl)⟩

theorem wp_act_world (e : E) (k : Ans e → Prog E Ans ε α) :
    wp (ofWorld W C) (act e k) Q R s ↔
      ∀ i, C e i s → wp (ofWorld W C) (k (W e i s).1) Q R (W e i s).2 := by
  constructor
  · exact fun h i hi => h.2 _ _ ⟨i, hi, rfl⟩
  · rintro h
    refine ⟨trivial, ?_⟩
    rintro r s' ⟨i, hi, heq⟩
    have := h i hi
    rwa [heq] at this

/-- What holds of every outcome under the contract holds of the run. -/
theorem run_wp {p : Prog E Ans ε α} {ω : Nat → ι} (hf : p.Fits W C ω s) (h : p.wp (ofWorld W C) Q R s) :
    (∀ a, (p.run W ω s).1 = .ok a → Q a (p.run W ω s).2) ∧
      ∀ x, (p.run W ω s).1 = .error x → R x (p.run W ω s).2 := by
  induction p generalizing ω s with
  | ret a => exact ⟨by rintro _ ⟨⟩; exact h, by rintro _ ⟨⟩⟩
  | fail x => exact ⟨by rintro _ ⟨⟩, by rintro _ ⟨⟩; exact h⟩
  | act e k ih => exact ih _ hf.2 (h.2 _ _ ⟨ω 0, hf.1, rfl⟩)

/-- An invariant of every act of the program is an invariant of its run. -/
theorem run_invariant {I : σ → Prop} {p : Prog E Ans ε α} {ω : Nat → ι} (hf : p.Fits W C ω s)
    (h : p.wp (ofWorld W C) (fun _ => I) (fun _ => I) s) : I (p.run W ω s).2 := by
  cases hx : (p.run W ω s).1 with
  | ok a => exact (run_wp hf h).1 a hx
  | error x => exact (run_wp hf h).2 x hx

/-- The world as a contract in which each act is to meet `P`. -/
def asking (W : World E Ans ι σ) (C : E → ι → σ → Prop) (P : E → σ → Prop) : Contract E Ans σ where
  pre := P
  post e s r s' := ∃ i, C e i s ∧ W e i s = (r, s')

variable {P : E → σ → Prop}

theorem wp_act_asking (e : E) (k : Ans e → Prog E Ans ε α) :
    wp (asking W C P) (act e k) Q R s ↔
      P e s ∧ ∀ i, C e i s → wp (asking W C P) (k (W e i s).1) Q R (W e i s).2 := by
  refine and_congr Iff.rfl ⟨fun h i hi => h _ _ ⟨i, hi, rfl⟩, ?_⟩
  rintro h r s' ⟨i, hi, heq⟩
  have := h i hi
  rwa [heq] at this

/-- What the contract asks of the acts, the acts of the run meet. -/
theorem run_asking {p : Prog E Ans ε α} {ω : Nat → ι} (hf : p.Fits W C ω s) (h : p.wp (asking W C P) Q R s) :
    ((∀ a, (p.run W ω s).1 = .ok a → Q a (p.run W ω s).2) ∧
      ∀ x, (p.run W ω s).1 = .error x → R x (p.run W ω s).2) ∧ p.Fits W (fun e _ s => P e s) ω s := by
  induction p generalizing ω s with
  | ret a => exact ⟨⟨by rintro _ ⟨⟩; exact h, by rintro _ ⟨⟩⟩, trivial⟩
  | fail x => exact ⟨⟨by rintro _ ⟨⟩, by rintro _ ⟨⟩; exact h⟩, trivial⟩
  | act e k ih =>
    obtain ⟨hrun, hfits⟩ := ih _ hf.2 (h.2 _ _ ⟨ω 0, hf.1, rfl⟩)
    exact ⟨hrun, h.1, hfits⟩

theorem run_asking_invariant {I : σ → Prop} {p : Prog E Ans ε α} {ω : Nat → ι} (hf : p.Fits W C ω s)
    (h : p.wp (asking W C P) (fun _ => I) (fun _ => I) s) :
    I (p.run W ω s).2 ∧ p.Fits W (fun e _ s => P e s) ω s := by
  obtain ⟨hrun, hfits⟩ := run_asking hf h
  refine ⟨?_, hfits⟩
  cases hx : (p.run W ω s).1 with
  | ok a => exact hrun.1 a hx
  | error x => exact hrun.2 x hx

/-! ### Programs of few acts -/

/-- Every act of the program is one of `P`, whatever it is answered. -/
def Only (P : E → Prop) : Prog E Ans ε α → Prop
  | act e k => P e ∧ ∀ r, (k r).Only P
  | _ => True

section
variable {P : E → Prop}

theorem Only.pure (a : α) : (Pure.pure a : Prog E Ans ε α).Only P := trivial

theorem Only.mono {P' : E → Prop} {p : Prog E Ans ε α} (hp : p.Only P) (h : ∀ e, P e → P' e) : p.Only P' := by
  induction p with
  | ret b => trivial
  | fail x => trivial
  | act e k ih => exact ⟨h e hp.1, fun r => ih r (hp.2 r)⟩

theorem Only.bind {p : Prog E Ans ε β} {f : β → Prog E Ans ε α} (hp : p.Only P) (hf : ∀ b, (f b).Only P) :
    (p >>= f).Only P := by
  induction p with
  | ret b => exact hf b
  | fail x => trivial
  | act e k ih => exact ⟨hp.1, fun r => ih r (hp.2 r)⟩

theorem Only.attempt {p : Prog E Ans ε α} (hp : p.Only P) : p.attempt.Only P := by
  induction p with
  | ret b => trivial
  | fail x => trivial
  | act e k ih => exact ⟨hp.1, fun r => ih r (hp.2 r)⟩

theorem Only.ofExcept (x : Except ε α) : (ofExcept x : Prog E Ans ε α).Only P := by cases x <;> trivial

theorem Only.foldlM {f : γ → β → Prog E Ans ε γ} (hf : ∀ c x, (f c x).Only P) {xs : List β} {c : γ} :
    (xs.foldlM f c).Only P := by
  induction xs generalizing c with
  | nil => trivial
  | cons x xs ih =>
    rw [List.foldlM_cons]
    exact (hf c x).bind fun _ => ih

theorem Only.fits {p : Prog E Ans ε α} {ω : Nat → ι} (hp : p.Only P) (h : ∀ e i s, P e → C e i s) : p.Fits W C ω s := by
  induction p generalizing ω s with
  | ret b => trivial
  | fail x => trivial
  | act e k ih => exact ⟨h _ _ _ hp.1, ih _ (hp.2 _)⟩

/-- What no act of `P` changes, a program of such acts leaves as it is. -/
theorem Only.run_frame {τ : Type} {g : σ → τ} {p : Prog E Ans ε α} {ω : Nat → ι} (hp : p.Only P)
    (step : ∀ e i s, P e → g (W e i s).2 = g s) : g (p.run W ω s).2 = g s := by
  induction p generalizing ω s with
  | ret b => rfl
  | fail x => rfl
  | act e k ih => rw [run_act, ih _ (hp.2 _), step e _ _ hp.1]

theorem run_bind_frame {τ : Type} {g : σ → τ} {p : Prog E Ans ε β} {f : β → Prog E Ans ε α} {ω : Nat → ι}
    (hf : ∀ b, (f b).Only P) (step : ∀ e i s, P e → g (W e i s).2 = g s) :
    g ((p >>= f).run W ω s).2 = g (p.run W ω s).2 := by
  induction p generalizing ω s with
  | ret b => exact (hf b).run_frame step
  | fail x => rfl
  | act e k ih => exact ih _

/-- What every act of `P` keeps, a program of such acts keeps. -/
theorem Only.wp {p : Prog E Ans ε α} {I : σ → Prop} (hp : p.Only P)
    (step : ∀ e i s, P e → C e i s → I s → I (W e i s).2) (hs : I s) :
    p.wp (ofWorld W C) (fun _ => I) (fun _ => I) s := by
  induction p generalizing s with
  | ret b => exact hs
  | fail x => exact hs
  | act e k ih =>
    rw [wp_act_world]
    exact fun i hi => ih _ (hp.2 _) (step e i s hp.1 hi hs)

/-- What every act of `P` meets and keeps, a program of such acts meets and keeps. -/
theorem Only.wp_asking {A : E → σ → Prop} {p : Prog E Ans ε α} {I : σ → Prop} (hp : p.Only P)
    (step : ∀ e i s, P e → C e i s → I s → I (W e i s).2) (ask : ∀ e s, P e → I s → A e s) (hs : I s) :
    p.wp (asking W C A) (fun _ => I) (fun _ => I) s := by
  induction p generalizing s with
  | ret b => exact hs
  | fail x => exact hs
  | act e k ih =>
    rw [wp_act_asking]
    exact ⟨ask e s hp.1 hs, fun i hi => ih _ (hp.2 _) (step e i s hp.1 hi hs)⟩

end

/-! ### One program after another -/

variable {O : Type} (prog : O → Prog E Ans ε Unit)

/-- Operations run one after another, each with its own inputs. -/
def runs (W : World E Ans ι σ) (s : σ) (ops : List (O × (Nat → ι))) : σ :=
  ops.foldl (fun s x => ((prog x.1).run W x.2 s).2) s

/-- Every operation of the list meets `C` in the state it starts in. -/
def Along (W : World E Ans ι σ) (C : σ → O → (Nat → ι) → Prop) : σ → List (O × (Nat → ι)) → Prop
  | _, [] => True
  | s, x :: ops => C s x.1 x.2 ∧ Along W C ((prog x.1).run W x.2 s).2 ops

theorem runs_invariant {C : σ → O → (Nat → ι) → Prop} {I : σ → Prop}
    (step : ∀ s o ω, I s → C s o ω → I ((prog o).run W ω s).2) {ops : List (O × (Nat → ι))}
    (hs : I s) (h : Along prog W C s ops) : I (runs prog W s ops) := by
  induction ops generalizing s with
  | nil => exact hs
  | cons x ops ih => exact ih (step _ _ _ hs h.1) h.2

/-- Operations that each keep `I` and whose acts meet `P` keep it one after another, and all the acts meet `P`. -/
theorem runs_asking {C : σ → O → (Nat → ι) → Prop} {I : σ → Prop}
    (step : ∀ s o ω, I s → C s o ω →
      I ((prog o).run W ω s).2 ∧ (prog o).Fits W (fun e _ s => P e s) ω s) {ops : List (O × (Nat → ι))}
    (hs : I s) (h : Along prog W C s ops) :
    I (runs prog W s ops) ∧ Along prog W (fun s o ω => (prog o).Fits W (fun e _ s => P e s) ω s) s ops := by
  induction ops generalizing s with
  | nil => exact ⟨hs, trivial⟩
  | cons x ops ih =>
    obtain ⟨hstep, hfits⟩ := step _ _ _ hs h.1
    obtain ⟨hruns, halong⟩ := ih hstep h.2
    exact ⟨hruns, hfits, halong⟩

end Prog
