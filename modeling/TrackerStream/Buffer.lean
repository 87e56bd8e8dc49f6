import Mathlib

/-!
# Buffers

Finite buffers as lists: `slice` (a view of a range), `blit` (overwrite a range), `fill` (overwrite a
range with one value) and their pointwise readings. `[i]?` is the one observation everything is
stated with, so that two ways of building a buffer are compared position by position.
-/

namespace Buffer
variable {α : Type*}

/-- The elements of `b` at positions `i ≤ k < j`, clamped to the end of `b`. -/
def slice (b : List α) (i j : Nat) : List α := (b.take j).drop i

/-- `out` with the elements from position `off` on replaced by `src`. -/
def blit (out : List α) (off : Nat) (src : List α) : List α :=
  out.take off ++ src ++ out.drop (off + src.length)

/-- `blit` that refuses to write past the end. -/
def blit? (out : List α) (off : Nat) (src : List α) : Option (List α) :=
  if off + src.length ≤ out.length then some (blit out off src) else none

/-- `out` with the positions `i ≤ k < j` overwritten by `v`. -/
def fill (v : α) (i j : Nat) (out : List α) : List α :=
  out.mapIdx fun k x => if i ≤ k ∧ k < j then v else x

@[simp] theorem length_slice (b : List α) (i j : Nat) : (slice b i j).length = min j b.length - i := by
  simp [slice]

theorem getElem?_slice (b : List α) (i j k : Nat) :
    (slice b i j)[k]? = if i + k < j then b[i + k]? else none := by
  rw [slice, List.getElem?_drop, List.getElem?_take]

@[simp] theorem slice_self (b : List α) (i : Nat) : slice b i i = [] := by
  rw [slice]
  exact List.drop_eq_nil_of_le (by rw [List.length_take]; omega)

theorem slice_all (b : List α) : slice b 0 b.length = b := by simp [slice]

theorem slice_append (b : List α) {i j k : Nat} (hij : i ≤ j) (hjk : j ≤ k) (hj : j ≤ b.length) :
    slice b i j ++ slice b j k = slice b i k := by
  apply List.ext_getElem?
  intro p
  rw [List.getElem?_append, length_slice, getElem?_slice, getElem?_slice, getElem?_slice,
    Nat.min_eq_left hj]
  by_cases hp : p < j - i
  · rw [if_pos hp, if_pos (by omega), if_pos (by omega)]
  · rw [if_neg hp, show j + (p - (j - i)) = i + p by omega]

theorem slice_of_length_le (b : List α) (i : Nat) {j : Nat} (h : b.length ≤ j) :
    slice b i j = b.drop i := by
  rw [slice, List.take_of_length_le h]

theorem length_blit (out : List α) {off : Nat} {src : List α} (h : off + src.length ≤ out.length) :
    (blit out off src).length = out.length := by
  simp only [blit, List.length_append, List.length_take, List.length_drop]
  omega

theorem getElem?_blit (out : List α) {off : Nat} {src : List α} (h : off + src.length ≤ out.length)
    (k : Nat) :
    (blit out off src)[k]? = if off ≤ k ∧ k < off + src.length then src[k - off]? else out[k]? := by
  have htake : (out.take off).length = off := by rw [List.length_take]; omega
  by_cases h₁ : k < off
  · rw [if_neg (by omega), blit, List.append_assoc, List.getElem?_append_left (by omega),
      List.getElem?_take_of_lt h₁]
  · by_cases h₂ : k < off + src.length
    · rw [if_pos ⟨by omega, h₂⟩, blit, List.getElem?_append_left (by simp [htake]; omega),
        List.getElem?_append_right (by omega), htake]
    · rw [if_neg (by omega), blit, List.getElem?_append_right (by simp [htake]; omega),
        List.getElem?_drop]
      congr 1
      simp only [List.length_append, htake]
      omega

theorem blit?_eq (out : List α) {off : Nat} {src : List α} (h : off + src.length ≤ out.length) :
    blit? out off src = some (blit out off src) := if_pos h

theorem blit?_eq_some {out r : List α} {off : Nat} {src : List α} (h : blit? out off src = some r) :
    off + src.length ≤ out.length ∧ r = blit out off src := by
  unfold blit? at h
  split at h
  · exact ⟨‹_›, (Option.some.inj h).symm⟩
  · cases h

/-- Two writes one behind the other are one write of the concatenation. -/
theorem blit_blit_append (out : List α) {off : Nat} (s t : List α)
    (h : off + s.length + t.length ≤ out.length) :
    blit (blit out off s) (off + s.length) t = blit out off (s ++ t) := by
  apply List.ext_getElem?
  intro k
  rw [getElem?_blit _ (by rw [length_blit _ (by omega)]; exact h), getElem?_blit _ (by omega),
    getElem?_blit _ (by simp; omega), List.length_append]
  by_cases h₁ : off + s.length ≤ k ∧ k < off + s.length + t.length
  · rw [if_pos h₁, if_pos (by omega), List.getElem?_append_right (by omega)]
    congr 1; omega
  · rw [if_neg h₁]
    by_cases h₂ : off ≤ k ∧ k < off + s.length
    · rw [if_pos h₂, if_pos (by omega), List.getElem?_append_left (by omega)]
    · rw [if_neg h₂, if_neg (by omega)]

/-- Writing nothing changes nothing. -/
@[simp] theorem blit_nil (out : List α) (off : Nat) : blit out off [] = out := by simp [blit]

@[simp] theorem length_fill (v : α) (i j : Nat) (out : List α) : (fill v i j out).length = out.length := by
  simp [fill]

theorem getElem?_fill (v : α) (i j : Nat) (out : List α) (k : Nat) :
    (fill v i j out)[k]? = if i ≤ k ∧ k < j then out[k]?.map (fun _ => v) else out[k]? := by
  rw [fill, List.getElem?_mapIdx]
  split <;> simp_all

/-- Filling with the value that a position already holds changes nothing there. -/
theorem getElem?_fill_eq_self {v : α} {i j k : Nat} {out : List α} (h : out[k]? = some v) :
    (fill v i j out)[k]? = some v := by
  rw [getElem?_fill]; split <;> simp [h]

/-! ### Blocks of one length -/

/-- Reading a list at each of its positions gives the list. -/
theorem map_getD_range (l : List α) (d : α) : (List.range l.length).map (fun i => l.getD i d) = l := by
  apply List.ext_getElem
  · simp
  · intro i h₁ h₂
    simp [h₂]

/-- A double loop over rows of `k` positions is one loop over all positions. -/
theorem flatMap_range_map {β : Type*} (g : Nat → β) (m k : Nat) :
    ((List.range m).flatMap fun f => (List.range k).map fun b => g (f * k + b)) = (List.range (m * k)).map g := by
  induction m with
  | zero => simp
  | succ m ih =>
    rw [List.range_succ, List.flatMap_append, ih, List.flatMap_singleton, Nat.succ_mul, List.range_add,
      List.map_append, List.map_map]
    rfl

theorem length_flatMap_const {β : Type*} {g : α → List β} {k : Nat} (hk : ∀ x, (g x).length = k) (xs : List α) :
    (xs.flatMap g).length = xs.length * k := by
  induction xs with
  | nil => simp
  | cons x xs ih => rw [List.flatMap_cons, List.length_append, ih, hk, List.length_cons, Nat.succ_mul, Nat.add_comm]

/-- Element `j` of block `i` when all blocks are `k` long. -/
theorem getElem?_flatMap_const {β : Type*} {g : α → List β} {k : Nat} (hk : ∀ x, (g x).length = k)
    (xs : List α) (i : Nat) {j : Nat} (hj : j < k) :
    (xs.flatMap g)[i * k + j]? = xs[i]?.bind fun x => (g x)[j]? := by
  induction xs generalizing i with
  | nil => simp
  | cons x xs ih =>
    rw [List.flatMap_cons]
    cases i with
    | zero => rw [List.getElem?_append_left (by rw [hk]; omega)]; simp
    | succ i =>
      rw [List.getElem?_append_right (by rw [hk, Nat.succ_mul]; omega), hk, List.getElem?_cons_succ, ← ih,
        show (i + 1) * k + j - k = i * k + j by rw [Nat.succ_mul]; omega]

end Buffer
