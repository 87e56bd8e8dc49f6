import Mathlib

/-!
# The pieces between separators

`pieces p l` are the runs of elements of `l` that are no separators. It does not matter whether `l` is split at every
separator or at every run of them (`filter_splitRuns`), nor what separators stand at its ends.
-/

namespace Pieces
variable {α : Type*} (p : α → Bool)

def pieces (l : List α) : List (List α) := (l.splitOnP p).filter (!·.isEmpty)

/-- `l` split at every run of separators. -/
def splitRuns : List α → List (List α)
  | [] => [[]]
  | a :: l => if p a then [] :: splitRuns (l.dropWhile p) else (splitRuns l).modifyHead (a :: ·)
termination_by l => l.length
decreasing_by
  · exact Nat.lt_succ_of_le (List.dropWhile_suffix p).length_le
  · exact Nat.lt_succ_self _

variable {p} {l : List α} {a : α}

@[simp] theorem pieces_nil : pieces p [] = [] := rfl

theorem pieces_cons_pos (h : p a = true) (l : List α) : pieces p (a :: l) = pieces p l := by
  rw [pieces, List.splitOnP_cons_eq_if_modifyHead, if_pos h]
  rfl

/-- Separators in front change nothing. -/
theorem pieces_dropWhile {s : α → Bool} (h : ∀ a, s a = true → p a = true) (l : List α) :
    pieces p (l.dropWhile s) = pieces p l := by
  induction l with
  | nil => rfl
  | cons a l ih =>
    rw [List.dropWhile_cons]
    split
    · rename_i ha
      rw [ih, pieces_cons_pos (h a ha)]
    · rfl

/-- Separators at the end change nothing. -/
theorem pieces_rdropWhile {s : α → Bool} (h : ∀ a, s a = true → p a = true) (l : List α) :
    pieces p (l.rdropWhile s) = pieces p l := by
  induction l using List.reverseRecOn with
  | nil => rfl
  | append_singleton l a ih =>
    rw [List.rdropWhile_concat]
    split
    · rename_i ha
      rw [ih, pieces, pieces, List.splitOnP_append_cons l [] (h a ha), List.splitOnP_nil, List.filter_append]
      exact (List.append_nil _).symm
    · rfl

theorem splitRuns_ne_nil (l : List α) : splitRuns p l ≠ [] := by
  induction l using splitRuns.induct p with
  | case1 => rw [splitRuns]; exact List.cons_ne_nil _ _
  | case2 a l ha ih => rw [splitRuns, if_pos ha]; exact List.cons_ne_nil _ _
  | case3 a l ha ih =>
    rw [splitRuns, if_neg ha]
    cases h : splitRuns p l with
    | nil => exact absurd h ih
    | cons x xs => exact List.cons_ne_nil _ _

/-- Split either way, a list has the same first part, and the same parts behind it but for empty ones. -/
def SameParts (xs ys : List (List α)) : Prop :=
  ∃ x xs' ys', xs = x :: xs' ∧ ys = x :: ys' ∧ xs'.filter (!·.isEmpty) = ys'.filter (!·.isEmpty)

theorem SameParts.filter {xs ys : List (List α)} (h : SameParts xs ys) :
    xs.filter (!·.isEmpty) = ys.filter (!·.isEmpty) := by
  obtain ⟨x, xs', ys', rfl, rfl, h⟩ := h
  rw [List.filter_cons, List.filter_cons, h]

theorem sameParts_splitRuns (l : List α) : SameParts (splitRuns p l) (l.splitOnP p) := by
  induction l using splitRuns.induct p with
  | case1 => exact ⟨[], [], [], by rw [splitRuns], rfl, rfl⟩
  | case2 a l ha ih =>
    rw [splitRuns, if_pos ha, List.splitOnP_cons_eq_if_modifyHead, if_pos ha]
    exact ⟨[], _, _, rfl, rfl, ih.filter.trans (pieces_dropWhile (fun _ h => h) l)⟩
  | case3 a l ha ih =>
    rw [splitRuns, if_neg ha, List.splitOnP_cons_eq_if_modifyHead, if_neg ha]
    obtain ⟨x, xs', ys', hxs, hys, h⟩ := ih
    rw [hxs, hys]
    exact ⟨a :: x, xs', ys', rfl, rfl, h⟩

theorem filter_splitRuns (l : List α) : (splitRuns p l).filter (!·.isEmpty) = pieces p l := (sameParts_splitRuns l).filter

theorem flatten_splitOnP (l : List α) : (l.splitOnP p).flatten = l.filter (!p ·) := by
  induction l with
  | nil => rfl
  | cons a l ih =>
    rw [List.splitOnP_cons_eq_if_modifyHead, List.filter_cons, ← ih]
    by_cases ha : p a = true
    · rw [if_pos ha, ha]
      rfl
    · obtain ⟨x, xs, h⟩ := List.exists_cons_of_ne_nil (List.splitOnP_ne_nil p l)
      rw [if_neg ha, Bool.eq_false_iff.2 ha, h]
      rfl

theorem flatten_pieces (l : List α) : (pieces p l).flatten = l.filter (!p ·) := by
  rw [pieces, List.flatten_filter_not_isEmpty, flatten_splitOnP]

theorem exists_mem_pieces : (∃ w ∈ pieces p l, a ∈ w) ↔ a ∈ l ∧ p a = false := by
  rw [← List.mem_flatten, flatten_pieces, List.mem_filter, Bool.not_eq_true']

theorem pieces_eq_nil_iff : pieces p l = [] ↔ ∀ a ∈ l, p a = true := by
  constructor
  · intro h a ha
    by_contra hp
    obtain ⟨w, hw, -⟩ := exists_mem_pieces.2 ⟨ha, Bool.eq_false_iff.2 hp⟩
    rw [h] at hw
    exact absurd hw List.not_mem_nil
  · intro h
    by_contra hne
    obtain ⟨w, hw⟩ := List.exists_mem_of_ne_nil _ hne
    obtain ⟨a, ha⟩ := List.exists_mem_of_ne_nil w (by simpa using (List.mem_filter.1 hw).2)
    obtain ⟨hal, hpa⟩ := exists_mem_pieces.1 ⟨w, hw, ha⟩
    rw [h a hal] at hpa
    cases hpa

/-- Separators that agree on the list cut the same pieces. -/
theorem pieces_congr {q : α → Bool} (h : ∀ a ∈ l, p a = q a) : pieces p l = pieces q l := by
  have hsplit : l.splitOnP p = l.splitOnP q := by
    induction l with
    | nil => rfl
    | cons a l ih =>
      rw [List.splitOnP_cons_eq_if_modifyHead, List.splitOnP_cons_eq_if_modifyHead, h a List.mem_cons_self,
        ih fun b hb => h b (List.mem_cons_of_mem a hb)]
  rw [pieces, pieces, hsplit]

end Pieces
