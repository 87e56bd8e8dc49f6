import Mathlib

/-!
# A worklist without an order of its own

A list from which a loop takes an element with the smallest key each time and fills the gap with the last
element. `Picks` says what such a loop gives: all elements, each smallest among those not yet taken, whatever
the keys are by then.
-/

namespace Worklist
variable {α : Type*}

/-- Remove the element at `i`; the last one takes its place. -/
def swapRemove (xs : List α) (i : Nat) : List α :=
  match xs.getLast? with
  | some last => (xs.set i last).dropLast
  | none => []

theorem perm_swapRemove {xs : List α} {i : Nat} {x : α} (h : xs[i]? = some x) : xs.Perm (x :: swapRemove xs i) := by
  obtain ⟨hi, hx⟩ := List.getElem?_eq_some_iff.1 h
  obtain ⟨init, last, rfl⟩ : ∃ init last, xs = init ++ [last] :=
    ⟨xs.dropLast, xs.getLast (by rintro rfl; simp at hi), (List.dropLast_append_getLast _).symm⟩
  rw [swapRemove, List.getLast?_concat]
  dsimp only
  by_cases hlt : i < init.length
  · rw [List.set_append_left _ _ hlt, List.dropLast_concat]
    have hx' : init[i] = x := by rwa [List.getElem_append_left hlt] at hx
    have hinit : init = init.take i ++ x :: init.drop (i + 1) := by
      rw [← hx', ← List.drop_eq_getElem_cons hlt, List.take_append_drop]
    have hset : init.set i last = init.take i ++ last :: init.drop (i + 1) := List.set_eq_take_append_cons_drop .. |>.trans (if_pos hlt)
    rw [hset]
    conv_lhs => rw [hinit]
    refine (List.perm_append_singleton last _).trans ?_
    refine (List.Perm.cons last List.perm_middle).trans ?_
    exact (List.Perm.swap x last _).trans (List.Perm.cons x List.perm_middle.symm)
  · have hi' : i = init.length := by
      rw [List.length_append, List.length_singleton] at hi
      omega
    subst hi'
    obtain rfl : last = x := by simpa using hx
    rw [List.set_append_right _ _ (Nat.le_refl _), Nat.sub_self, List.set_cons_zero, List.dropLast_concat]
    exact List.perm_append_singleton _ _

/-- The first position of a smallest key, found by a scan that starts with the sentinel `bound`. -/
def firstMin (bound : Nat) (key : α → Nat) (xs : List α) : Nat :=
  (xs.zipIdx.foldl
    (fun (best, best_key) (x, i) => if key x < best_key then (i, key x) else (best, best_key))
    (0, bound)).1

theorem foldl_firstMin (key : α → Nat) (xs : List α) (k best bound : Nat) :
    let r := (xs.zipIdx k).foldl
      (fun (best, best_key) (x, i) => if key x < best_key then (i, key x) else (best, best_key)) (best, bound)
    r = (best, bound) ∧ (∀ y ∈ xs, bound ≤ key y) ∨
      ∃ j x, xs[j]? = some x ∧ r = (k + j, key x) ∧ key x < bound ∧ ∀ y ∈ xs, key x ≤ key y := by
  induction xs generalizing k best bound with
  | nil => simp
  | cons x xs ih =>
    simp only [List.zipIdx_cons, List.foldl_cons]
    by_cases hlt : key x < bound
    · rw [if_pos hlt]
      rcases ih (k + 1) k (key x) with ⟨hr, hall⟩ | ⟨j, y, hy, hr, hylt, hall⟩
      · refine .inr ⟨0, x, rfl, hr, hlt, fun y hy => ?_⟩
        rcases List.mem_cons.1 hy with rfl | hy
        · exact Nat.le_refl _
        · exact hall y hy
      · refine .inr ⟨j + 1, y, hy, by rw [hr, Nat.add_right_comm, Nat.add_assoc], by omega, fun z hz => ?_⟩
        rcases List.mem_cons.1 hz with rfl | hz
        · omega
        · exact hall z hz
    · rw [if_neg hlt]
      rcases ih (k + 1) best bound with ⟨hr, hall⟩ | ⟨j, y, hy, hr, hylt, hall⟩
      · refine .inl ⟨hr, fun y hy => ?_⟩
        rcases List.mem_cons.1 hy with rfl | hy
        · omega
        · exact hall y hy
      · refine .inr ⟨j + 1, y, hy, by rw [hr, Nat.add_right_comm, Nat.add_assoc], hylt, fun z hz => ?_⟩
        rcases List.mem_cons.1 hz with rfl | hz
        · omega
        · exact hall z hz

/-- With all keys below the sentinel the scan ends at a smallest one. -/
theorem firstMin_spec {bound : Nat} {key : α → Nat} {xs : List α} (hne : xs ≠ []) (hlt : ∀ x ∈ xs, key x < bound) :
    ∃ x, xs[firstMin bound key xs]? = some x ∧ ∀ y ∈ xs, key x ≤ key y := by
  rcases foldl_firstMin key xs 0 0 bound with ⟨-, hall⟩ | ⟨j, x, hx, hr, -, hall⟩
  · obtain ⟨x, hx⟩ := List.exists_mem_of_ne_nil _ hne
    have := hall x hx
    have := hlt x hx
    omega
  · refine ⟨x, ?_, hall⟩
    rw [firstMin, hr, Nat.zero_add]
    exact hx

/-- The keys at step `i` are `key i`; each element taken is smallest among it and those taken later. -/
def Picks (key : Nat → α → Nat) : Nat → List α → Prop
  | _, [] => True
  | i, x :: xs => (∀ y ∈ xs, key i x ≤ key i y) ∧ Picks key (i + 1) xs

theorem Picks.get {key : Nat → α → Nat} {i : Nat} {xs : List α} (h : Picks key i xs) {k : Nat} {x : α}
    (hx : xs[k]? = some x) : ∀ y ∈ xs.drop k, key (i + k) x ≤ key (i + k) y := by
  induction xs generalizing i k with
  | nil => simp at hx
  | cons a xs ih =>
    cases k with
    | zero =>
      obtain rfl : a = x := Option.some.inj hx
      intro y hy
      rcases List.mem_cons.1 hy with rfl | hy
      · exact Nat.le_refl _
      · exact h.1 y hy
    | succ k =>
      have hrest := ih h.2 hx
      rwa [Nat.add_right_comm] at hrest

end Worklist
