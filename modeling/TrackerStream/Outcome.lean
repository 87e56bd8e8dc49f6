import Mathlib

/-!
# Loops that may fail

Rules for `List.mapM` and `List.foldlM` over `Except`: a loop whose every step succeeds succeeds, an
invariant of the steps is an invariant of the loop, and a loop that succeeds has made every step.
-/

namespace Outcome
universe u
variable {ε : Type*} {α β σ : Type u}

@[simp] theorem ok_bind (a : α) (f : α → Except ε β) : (Except.ok a >>= f) = f a := rfl

theorem mapM_ok {f : α → Except ε β} {g : α → β} {xs : List α} (h : ∀ x ∈ xs, f x = .ok (g x)) :
    xs.mapM f = .ok (xs.map g) := by
  induction xs with
  | nil => rfl
  | cons x xs ih =>
    rw [List.mapM_cons, h x (by simp), ih fun y hy => h y (by simp [hy])]
    rfl

theorem mapM_ok_mem {f : α → Except ε β} {xs : List α} {ys : List β} (h : xs.mapM f = .ok ys) :
    ∀ x ∈ xs, ∃ y ∈ ys, f x = .ok y := by
  induction xs generalizing ys with
  | nil => simp
  | cons x xs ih =>
    rw [List.mapM_cons] at h
    cases hx : f x with
    | error e => rw [hx] at h; cases h
    | ok y =>
      cases hxs : xs.mapM f with
      | error e => rw [hx, hxs] at h; cases h
      | ok ys' =>
        rw [hx, hxs] at h
        cases h
        intro z hz
        rcases List.mem_cons.1 hz with rfl | hz
        · exact ⟨y, by simp, hx⟩
        · obtain ⟨w, hw, hfw⟩ := ih hxs z hz
          exact ⟨w, by simp [hw], hfw⟩

/-- When each result carries its argument, the results are the arguments again with what was added. -/
theorem mapM_ok_map {f : α → Except ε β} {g : β → α} (hg : ∀ x y, f x = .ok y → g y = x) {xs : List α} {ys : List β}
    (h : xs.mapM f = .ok ys) : ys.map g = xs ∧ ∀ y ∈ ys, f (g y) = .ok y := by
  induction xs generalizing ys with
  | nil => cases h; simp
  | cons x xs ih =>
    rw [List.mapM_cons] at h
    cases hx : f x with
    | error e => rw [hx] at h; cases h
    | ok y =>
      cases hxs : xs.mapM f with
      | error e => rw [hx, hxs] at h; cases h
      | ok ys' =>
        rw [hx, hxs] at h
        cases h
        obtain ⟨hmap, hmem⟩ := ih hxs
        refine ⟨by rw [List.map_cons, hg x y hx, hmap], fun z hz => ?_⟩
        rcases List.mem_cons.1 hz with rfl | hz
        · rw [hg x _ hx, hx]
        · exact hmem z hz

/-- A loop succeeds and keeps an invariant of the part of the list still ahead when every step does. -/
theorem foldlM_invariant {f : σ → α → Except ε σ} (I : List α → σ → Prop)
    (step : ∀ x xs s, I (x :: xs) s → ∃ s', f s x = .ok s' ∧ I xs s') (xs : List α) (s : σ) (h : I xs s) :
    ∃ s', xs.foldlM f s = .ok s' ∧ I [] s' := by
  induction xs generalizing s with
  | nil => exact ⟨s, rfl, h⟩
  | cons x xs ih =>
    obtain ⟨s', hs', h'⟩ := step x xs s h
    obtain ⟨r, hr, hI⟩ := ih s' h'
    exact ⟨r, by rw [List.foldlM_cons, hs']; exact hr, hI⟩

/-- The value of a successful bind comes from a value of its first part. -/
theorem bind_ok {x : Except ε α} {f : α → Except ε β} {b : β} (h : x >>= f = .ok b) :
    ∃ a, x = .ok a ∧ f a = .ok b := by
  cases x with
  | error e => cases h
  | ok a => exact ⟨a, rfl, h⟩

/-! ### More results -/

/-- Where the one gives a result, the other gives the same. -/
def Refines (x y : Except ε α) : Prop := ∀ a, x = .ok a → y = .ok a

section
variable {x y : Except ε α} {f g : α → Except ε β}

theorem Refines.refl (x : Except ε α) : Refines x x := fun _ h => h

theorem Refines.bind (hx : Refines x y) (hf : ∀ a, Refines (f a) (g a)) : Refines (x >>= f) (y >>= g) := by
  intro b hb
  cases hxa : x with
  | error e =>
    rw [hxa] at hb
    cases hb
  | ok a =>
    rw [hxa] at hb
    rw [hx a hxa]
    exact hf a b hb

theorem Refines.mapM (hf : ∀ a, Refines (f a) (g a)) (xs : List α) : Refines (xs.mapM f) (xs.mapM g) := by
  induction xs with
  | nil => exact .refl _
  | cons x xs ih =>
    rw [List.mapM_cons, List.mapM_cons]
    exact (hf x).bind fun _ => ih.bind fun _ => .refl _

theorem Refines.foldlM {f g : σ → α → Except ε σ} (hf : ∀ s a, Refines (f s a) (g s a)) (xs : List α) (s : σ) :
    Refines (xs.foldlM f s) (xs.foldlM g s) := by
  induction xs generalizing s with
  | nil => exact .refl _
  | cons x xs ih =>
    rw [List.foldlM_cons, List.foldlM_cons]
    exact (hf s x).bind fun s' => ih s'

end

end Outcome
