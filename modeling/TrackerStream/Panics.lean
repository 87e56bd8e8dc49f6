import TrackerStream.Buffer
import Mathlib

/-!
# Panics

Results that are a value, an error or a panic, the checked operations of a 64-bit machine that panic, and how far such a
computation is from the one over numbers: it refines it when, unless it panics, it gives the same.
-/

namespace Panics

inductive Halt (ε : Type)
  | err (e : ε)
  | panic
deriving DecidableEq

abbrev Run (ε α : Type) := Except (Halt ε) α

variable {ε α β σ : Type}

def NoPanic (x : Run ε α) : Prop := x ≠ .error .panic

/-- A result that cannot panic. -/
def lift : Except ε α → Run ε α
  | .ok a => .ok a
  | .error e => .error (.err e)

/-! ### Checked operations -/

def USIZE_BITS : Nat := 64
def ISIZE_MAX : Nat := 2 ^ 63 - 1

/-- `a + b` in a `usize`. -/
def add (a b : Nat) : Run ε Nat := if a + b < 2 ^ USIZE_BITS then .ok (a + b) else .error .panic

/-- `a - b` in a `usize`. -/
def sub (a b : Nat) : Run ε Nat := if b ≤ a then .ok (a - b) else .error .panic

/-- A buffer of bytes that is made or grown to `b`. -/
def grow (b : List α) : Run ε (List α) := if b.length ≤ ISIZE_MAX then .ok b else .error .panic

/-- `&b[i..j]`. -/
def slice (b : List α) (i j : Nat) : Run ε (List α) :=
  if i ≤ j ∧ j ≤ b.length then .ok (Buffer.slice b i j) else .error .panic

/-- `out[i..j].copy_from_slice(src)`. -/
def copy (out : List α) (i j : Nat) (src : List α) : Run ε (List α) :=
  if i ≤ j ∧ j ≤ out.length ∧ src.length = j - i then .ok (Buffer.blit out i src) else .error .panic

/-- Indexing a buffer of `len` elements at each of `is`. -/
def touch (len : Nat) (is : List Nat) : Run ε Unit := if ∀ i ∈ is, i < len then .ok () else .error .panic

/-! ### Panic freedom -/

@[simp] theorem noPanic_ok (a : α) : NoPanic (.ok a : Run ε α) := by simp [NoPanic]

@[simp] theorem noPanic_pure (a : α) : NoPanic (pure a : Run ε α) := noPanic_ok a

@[simp] theorem noPanic_err (e : ε) : NoPanic (.error (.err e) : Run ε α) := by simp [NoPanic]

@[simp] theorem not_noPanic_panic : ¬ NoPanic (.error .panic : Run ε α) := not_not_intro rfl

@[simp] theorem noPanic_lift (x : Except ε α) : NoPanic (lift x) := by
  cases x with
  | ok a => exact noPanic_ok a
  | error e => exact noPanic_err e

@[simp] theorem lift_ok (a : α) : (lift (.ok a) : Run ε α) = .ok a := rfl

theorem lift_eq_ok {x : Except ε α} {a : α} : lift x = .ok a ↔ x = .ok a := by
  cases x with
  | ok b => simp [lift]
  | error e => simp [lift]

theorem noPanic_bind {x : Run ε α} {f : α → Run ε β} :
    NoPanic (x >>= f) ↔ NoPanic x ∧ ∀ a, x = .ok a → NoPanic (f a) := by
  cases x with
  | ok a => exact ⟨fun h => ⟨noPanic_ok a, fun b hb => by cases hb; exact h⟩, fun h => h.2 a rfl⟩
  | error e => exact ⟨fun h => ⟨fun he => h (by cases he; rfl), fun a ha => by cases ha⟩, fun h he => h.1 (by cases he; rfl)⟩

/-- A checked operation with its test. -/
theorem noPanic_ite {p : Prop} [Decidable p] {a : α} : NoPanic (if p then .ok a else .error .panic : Run ε α) ↔ p := by
  split <;> simp [*]

theorem noPanic_lift_bind {x : Except ε α} {f : α → Run ε β} :
    NoPanic (lift x >>= f) ↔ ∀ a, x = .ok a → NoPanic (f a) := by
  rw [noPanic_bind]
  simp only [noPanic_lift, true_and, lift_eq_ok]

theorem mapM_lift (f : α → Except ε β) (xs : List α) : (xs.mapM fun x => lift (f x)) = lift (xs.mapM f) := by
  induction xs with
  | nil => rfl
  | cons x xs ih =>
    rw [List.mapM_cons, List.mapM_cons, ih]
    cases f x with
    | error e => rfl
    | ok y =>
      cases xs.mapM f with
      | error e => rfl
      | ok ys => rfl

/-! ### What a computation comes to -/

/-- It panics exactly when something does not fit, gives an error when it fits and something else is wrong, and else a value. -/
inductive Ends (fits good : Prop) (post : α → Prop) (x : Run ε α) : Prop
  | panic (h : ¬ fits) (hx : x = .error .panic)
  | err (h : fits) (hbad : ¬ good) (e : ε) (hx : x = .error (.err e))
  | ok (h : fits) (hgood : good) (a : α) (ha : post a) (hx : x = .ok a)

section
variable {fits good fits' good' F G : Prop} {post : α → Prop} {post' : β → Prop} {x : Run ε α} {f : α → Run ε β}

theorem Ends.noPanic (h : Ends fits good post x) : NoPanic x ↔ fits := by
  rcases h with ⟨hf, rfl⟩ | ⟨hf, -, e, rfl⟩ | ⟨hf, -, a, -, rfl⟩ <;> simp [hf]

theorem Ends.bind (h : Ends fits good post x) (hf : good → ∀ a, post a → Ends fits' good' post' (f a))
    (hfits : F ↔ fits ∧ (good → fits')) (hgood : G ↔ good ∧ good') : Ends F G post' (x >>= f) := by
  rw [hfits, hgood]
  rcases h with ⟨h, rfl⟩ | ⟨h, hbad, e, rfl⟩ | ⟨h, hg, a, ha, rfl⟩
  · exact .panic (fun hF => h hF.1) rfl
  · exact .err ⟨h, fun hg => absurd hg hbad⟩ (fun hG => hbad hG.1) e rfl
  · rcases hf hg a ha with ⟨h', hx⟩ | ⟨h', hbad, e, hx⟩ | ⟨h', hg', b, hb, hx⟩
    · exact .panic (fun hF => h' (hF.2 hg)) hx
    · exact .err ⟨h, fun _ => h'⟩ (fun hG => hbad hG.2) e hx
    · exact .ok ⟨h, fun _ => h'⟩ ⟨hg, hg'⟩ b hb hx

theorem Ends.congr {post' : α → Prop} (h : Ends fits good post x) (hfits : F ↔ fits) (hgood : G ↔ good)
    (hpost : ∀ a, post a → post' a) : Ends F G post' x := by
  rw [hfits, hgood]
  rcases h with ⟨h, hx⟩ | ⟨h, hbad, e, hx⟩ | ⟨h, hg, a, ha, hx⟩
  · exact .panic h hx
  · exact .err h hbad e hx
  · exact .ok h hg a (hpost a ha) hx

/-- A check that gives `a` or panics. -/
theorem Ends.check {p : Prop} [Decidable p] {a : α} (ha : post a) :
    Ends p True post (if p then .ok a else .error .panic : Run ε α) := by
  by_cases hp : p
  · exact .ok hp trivial a ha (if_pos hp)
  · exact .panic hp (if_neg hp)

theorem Ends.value {a : α} (ha : post a) : Ends True True post (.ok a : Run ε α) := .ok trivial trivial a ha rfl

end

/-! ### Refinement -/

/-- Unless it panics, it gives the same. -/
structure Refines (x : Run ε α) (y : Except ε α) : Prop where
  eq : NoPanic x → x = lift y

theorem refines_lift (y : Except ε α) : Refines (lift y) y := ⟨fun _ => rfl⟩

theorem refines_pure (a : α) : Refines (pure a : Run ε α) (pure a) := ⟨fun _ => rfl⟩

theorem refines_err (e : ε) : Refines (.error (.err e) : Run ε α) (.error e) := ⟨fun _ => rfl⟩

theorem refines_panic (y : Except ε α) : Refines (.error .panic) y := ⟨fun hno => absurd rfl hno⟩

theorem Refines.bind {x : Run ε α} {y : Except ε α} {f : α → Run ε β} {g : α → Except ε β} (h : Refines x y)
    (hf : ∀ a, Refines (f a) (g a)) : Refines (x >>= f) (y >>= g) := by
  refine ⟨fun hno => ?_⟩
  obtain ⟨hx, hfx⟩ := noPanic_bind.1 hno
  have hxy := h.eq hx
  cases y with
  | ok a =>
    rw [hxy]
    exact (hf a).eq (hfx a hxy)
  | error e => rw [hxy]; rfl

/-- A checked operation on the way, which has a value over numbers. -/
theorem Refines.step {x : Run ε α} {a : α} {f : α → Run ε β} {y : Except ε β} (hx : Refines x (.ok a)) (hf : Refines (f a) y) :
    Refines (x >>= f) y := by
  refine ⟨fun hno => ?_⟩
  obtain ⟨hx', hfx⟩ := noPanic_bind.1 hno
  have ha := hx.eq hx'
  rw [ha]
  exact hf.eq (hfx a ha)

theorem refines_check {p : Prop} [Decidable p] (a : α) : Refines (if p then .ok a else .error .panic : Run ε α) (.ok a) := by
  split
  · exact refines_pure a
  · exact refines_panic _

theorem Refines.foldlM {f : σ → α → Run ε σ} {g : σ → α → Except ε σ} (h : ∀ s a, Refines (f s a) (g s a)) (xs : List α) (s : σ) :
    Refines (xs.foldlM f s) (xs.foldlM g s) := by
  induction xs generalizing s with
  | nil => exact refines_pure s
  | cons x xs ih => exact (h s x).bind ih

end Panics
