import Mathlib

/-!
# The floor of a key

Of a list of keyed items `window` gives those a position between two keys depends on: the last item at or before it and the
first one behind. Leaving items out keeps in the window what is left of it (`mem_window_filterMap`), and the window
changes at keys only (`exists_window_eq`).
-/

namespace Floors

section Sorting
variable {α β : Type*} {r : α → α → Prop} {r' : β → β → Prop} [DecidableRel r] [DecidableRel r'] {g : α → Option β}

theorem orderedInsert_of_forall {a : β} {l : List β} (h : ∀ b ∈ l, r' a b) : l.orderedInsert r' a = a :: l := by
  cases l with
  | nil => rfl
  | cons b l => exact List.orderedInsert_cons_of_le r' l (h b List.mem_cons_self)

variable (hg : ∀ a b, ∀ a' ∈ g a, ∀ b' ∈ g b, r' a' b' ↔ r a b)
include hg

theorem filterMap_orderedInsert_some {a : α} {a' : β} (ha : g a = some a') {l : List α} (hl : l.Pairwise r) [IsTrans α r] :
    (l.orderedInsert r a).filterMap g = (l.filterMap g).orderedInsert r' a' := by
  induction l with
  | nil => simp [ha]
  | cons b l ih =>
    obtain ⟨hb, htail⟩ := List.pairwise_cons.1 hl
    by_cases hab : r a b
    · rw [List.orderedInsert_cons_of_le r l hab, List.filterMap_cons_some ha, orderedInsert_of_forall]
      intro c' hc'
      obtain ⟨c, hc, hgc⟩ := List.mem_filterMap.1 hc'
      refine (hg a c a' ha c' hgc).2 ?_
      rcases List.mem_cons.1 hc with rfl | hc
      · exact hab
      · exact IsTrans.trans a b c hab (hb c hc)
    · rw [List.orderedInsert_of_not_le r l hab]
      cases hgb : g b with
      | none => rw [List.filterMap_cons_none hgb, List.filterMap_cons_none hgb, ih htail]
      | some b' =>
        rw [List.filterMap_cons_some hgb, List.filterMap_cons_some hgb,
          List.orderedInsert_of_not_le r' _ fun h => hab ((hg a b a' ha b' hgb).1 h), ih htail]

omit hg in
theorem filterMap_orderedInsert_none {a : α} (ha : g a = none) (l : List α) :
    (l.orderedInsert r a).filterMap g = l.filterMap g := by
  induction l with
  | nil => simp [ha]
  | cons b l ih =>
    by_cases hab : r a b
    · rw [List.orderedInsert_cons_of_le r l hab, List.filterMap_cons_none ha]
    · rw [List.orderedInsert_of_not_le r l hab, List.filterMap_cons, ih, ← List.filterMap_cons]

/-- The sort is stable: items may be left out before it or after it. -/
theorem insertionSort_filterMap [IsTrans α r] [Std.Total r] (l : List α) :
    (l.filterMap g).insertionSort r' = (l.insertionSort r).filterMap g := by
  induction l with
  | nil => rfl
  | cons a l ih =>
    rw [List.insertionSort_cons]
    cases ha : g a with
    | none => rw [List.filterMap_cons_none ha, ih, filterMap_orderedInsert_none ha]
    | some a' =>
      rw [List.filterMap_cons_some ha, List.insertionSort_cons, ih,
        filterMap_orderedInsert_some hg ha (List.pairwise_insertionSort r l)]

end Sorting

variable {α β κ : Type*} [LinearOrder κ] (key : α → κ)

/-- The last item at or before `o` and the first one behind it. -/
def window (l : List α) (o : κ) : List α :=
  (l.filter fun a => key a ≤ o).getLast?.toList ++ (l.filter fun a => o < key a).head?.toList

variable {key} {l : List α} {o o' : κ} {a : α}

theorem mem_window : a ∈ window key l o ↔
    (l.filter fun a => key a ≤ o).getLast? = some a ∨ (l.filter fun a => o < key a).head? = some a := by
  simp [window, List.mem_append, Option.mem_toList]

theorem mem_of_mem_window (h : a ∈ window key l o) : a ∈ l := by
  rcases mem_window.1 h with h | h
  · exact (List.mem_filter.1 (List.mem_of_getLast? h)).1
  · exact (List.mem_filter.1 (List.mem_of_mem_head? h)).1

theorem window_congr (h : ∀ a ∈ l, key a ≤ o ↔ key a ≤ o') : window key l o = window key l o' := by
  have hle : (l.filter fun a => key a ≤ o) = l.filter fun a => key a ≤ o' :=
    List.filter_congr fun a ha => by simp only [h a ha]
  have hlt : (l.filter fun a => o < key a) = l.filter fun a => o' < key a :=
    List.filter_congr fun a ha => by simp only [← not_le, h a ha]
  rw [window, window, hle, hlt]

section Keep
variable {key' : β → κ} {g : α → Option β} (hg : ∀ a, ∀ b ∈ g a, key' b = key a)
include hg

omit [LinearOrder κ] in
theorem filter_filterMap_key (p : κ → Bool) :
    (l.filterMap g).filter (fun b => p (key' b)) = (l.filter fun a => p (key a)).filterMap g := by
  induction l with
  | nil => rfl
  | cons a l ih =>
    cases ha : g a with
    | none =>
      rw [List.filterMap_cons_none ha, ih, List.filter_cons]
      split
      · rw [List.filterMap_cons_none ha]
      · rfl
    | some b =>
      rw [List.filterMap_cons_some ha, List.filter_cons, List.filter_cons, hg a b ha, ih]
      split
      · rw [List.filterMap_cons_some ha]
      · rfl

/-- What is left of an item in the window is in the window of what is left. -/
theorem mem_window_filterMap {b : β} (ha : a ∈ window key l o) (hb : g a = some b) : b ∈ window key' (l.filterMap g) o := by
  rw [mem_window, filter_filterMap_key hg fun k => k ≤ o, filter_filterMap_key hg fun k => o < k]
  rcases mem_window.1 ha with h | h
  · left
    obtain ⟨front, hfront⟩ := List.getLast?_eq_some_iff.1 h
    rw [hfront, List.filterMap_append, List.filterMap_cons_some hb, List.filterMap_nil,
      List.getLast?_append_of_ne_nil _ (by simp),
      List.getLast?_singleton]
  · right
    obtain ⟨tail, htail⟩ := List.head?_eq_some_iff.1 h
    rw [htail, List.filterMap_cons_some hb, List.head?_cons]

end Keep

/-- Down to the next key, or to the bottom, the window is the same. -/
theorem exists_window_eq [OrderBot κ] (key : α → κ) (l : List α) (o : κ) :
    ∃ o' ≤ o, window key l o' = window key l o ∧ (o' = ⊥ ∨ ∃ a ∈ l, key a = o') := by
  by_cases hnone : ∀ a ∈ l, ¬key a ≤ o
  · refine ⟨⊥, bot_le, window_congr fun a ha => ⟨fun h => h.trans bot_le, fun h => absurd h (hnone a ha)⟩, .inl rfl⟩
  · push Not at hnone
    obtain ⟨b, hb, hbo⟩ := hnone
    have hne : (l.filter fun a => key a ≤ o) ≠ [] := List.ne_nil_of_mem (List.mem_filter.2 ⟨hb, by simpa using hbo⟩)
    obtain ⟨a, ha⟩ : ∃ a, (l.filter fun a => key a ≤ o).argmax key = some a :=
      Option.ne_none_iff_exists'.1 fun h => hne (List.argmax_eq_none.1 h)
    obtain ⟨hal, hao⟩ := List.mem_filter.1 (List.argmax_mem ha)
    have hao : key a ≤ o := by simpa using hao
    refine ⟨key a, hao, window_congr fun b hb => ⟨fun h => h.trans hao, fun h => List.le_of_mem_argmax ?_ ha⟩,
      .inr ⟨a, hal, rfl⟩⟩
    exact List.mem_filter.2 ⟨hb, by simpa using h⟩

end Floors
