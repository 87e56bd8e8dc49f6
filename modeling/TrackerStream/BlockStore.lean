import Mathlib

/-!
# Put-if-absent stores

A store is the list of its values in the order they were put; a value whose key is already there is
dropped. When equal keys mean equal values (a content address without collisions), every value that
was ever put can be looked up by its key (`find_putAll`), whatever was dropped.
-/

namespace BlockStore
variable {κ β : Type*} [DecidableEq κ] (key : β → κ)

/-- The value stored under `k`. -/
def find (store : List β) (k : κ) : Option β := store.find? fun b => decide (key b = k)

/-- Store `b` unless its key is taken. -/
def put (store : List β) (b : β) : List β := if (find key store (key b)).isSome then store else store ++ [b]

/-- Put the values of a list one after the other. -/
def putAll (store : List β) (bs : List β) : List β := bs.foldl (put key) store

/-- Among the values of `bs`, equal keys mean equal values. -/
def CollisionFree (bs : List β) : Prop := ∀ b ∈ bs, ∀ b' ∈ bs, key b = key b' → b = b'

variable {key}

theorem find_some {store : List β} {k : κ} {b : β} (h : find key store k = some b) : b ∈ store ∧ key b = k :=
  ⟨List.mem_of_find?_eq_some h, of_decide_eq_true (List.find?_some (p := fun b => decide (key b = k)) h)⟩

theorem find_put (store : List β) (b : β) : ∃ b', find key (put key store b) (key b) = some b' := by
  by_cases h : (find key store (key b)).isSome
  · rw [put, if_pos h]
    exact Option.isSome_iff_exists.1 h
  · rw [put, if_neg h]
    rw [Option.not_isSome_iff_eq_none] at h
    exact ⟨b, by rw [find, List.find?_append, ← find, h]; simp [List.find?]⟩

theorem find_put_of_some {store : List β} {b b' : β} {k : κ} (h : find key store k = some b') :
    find key (put key store b) k = some b' := by
  unfold put
  split
  · exact h
  · rw [find, List.find?_append, ← find, h]; rfl

theorem find_putAll_of_some {bs store : List β} {b' : β} {k : κ} (h : find key store k = some b') :
    find key (putAll key store bs) k = some b' := by
  induction bs generalizing store with
  | nil => exact h
  | cons b bs ih => exact ih (find_put_of_some h)

theorem find_putAll_of_mem {bs : List β} {b : β} (hb : b ∈ bs) (store : List β) :
    ∃ b', find key (putAll key store bs) (key b) = some b' := by
  induction bs generalizing store with
  | nil => simp at hb
  | cons c bs ih =>
    rcases List.mem_cons.1 hb with rfl | hb
    · obtain ⟨b', h⟩ : ∃ b', find key (put key store b) (key b) = some b' := find_put store b
      exact ⟨b', show find key (putAll key (put key store b) bs) (key b) = some b' from find_putAll_of_some h⟩
    · exact ih hb _

theorem mem_put {store : List β} {b b' : β} (h : b' ∈ put key store b) : b' ∈ store ∨ b' = b := by
  unfold put at h
  split at h
  · exact .inl h
  · simpa using h

theorem mem_putAll {bs store : List β} {b : β} (h : b ∈ putAll key store bs) : b ∈ store ∨ b ∈ bs := by
  induction bs generalizing store with
  | nil => exact .inl h
  | cons c bs ih =>
    rcases ih h with h | h
    · rcases mem_put h with h | rfl
      · exact .inl h
      · exact .inr (List.mem_cons_self ..)
    · exact .inr (List.mem_cons_of_mem _ h)

theorem sum_put_le (f : β → Nat) (store : List β) (b : β) : ((put key store b).map f).sum ≤ (store.map f).sum + f b := by
  unfold put
  split
  · exact Nat.le_add_right _ _
  · simp

/-- A store weighs no more than what was put into it. -/
theorem sum_putAll_le (f : β → Nat) (store bs : List β) :
    ((putAll key store bs).map f).sum ≤ (store.map f).sum + (bs.map f).sum := by
  induction bs generalizing store with
  | nil => exact Nat.le_refl _
  | cons b bs ih =>
    have hput := @sum_put_le _ _ _ key f store b
    have hrest := ih (put key store b)
    rw [List.map_cons, List.sum_cons]
    show ((putAll key (put key store b) bs).map f).sum ≤ _
    omega

/-- The values of different keys weigh no more than the store. -/
theorem sum_find_le (f : β → Nat) (store : List β) {ks : List κ} (hks : ks.Nodup) :
    (ks.map fun k => ((find key store k).map f).getD 0).sum ≤ (store.map f).sum := by
  induction store with
  | nil => simp [find]
  | cons b store ih =>
    have hone : (ks.map fun k => if key b = k then f b else 0).sum ≤ f b := by
      clear ih
      induction hks with
      | nil => exact Nat.zero_le _
      | @cons k ks hk _ ih =>
        rw [List.map_cons, List.sum_cons]
        by_cases hkey : key b = k
        · have hrest : ks.map (fun k => if key b = k then f b else 0) = ks.map fun _ => 0 := by
            refine List.map_congr_left fun k' hk' => if_neg ?_
            rintro rfl
            exact hk _ hk' hkey.symm
          rw [if_pos hkey, hrest]
          simp
        · rw [if_neg hkey, Nat.zero_add]
          exact ih
    have hsplit : (ks.map fun k => ((find key (b :: store) k).map f).getD 0).sum ≤
        (ks.map fun k => if key b = k then f b else 0).sum + (ks.map fun k => ((find key store k).map f).getD 0).sum := by
      clear hone ih hks
      induction ks with
      | nil => exact Nat.le_refl _
      | cons k ks ih =>
        have hk : ((find key (b :: store) k).map f).getD 0 ≤
            (if key b = k then f b else 0) + ((find key store k).map f).getD 0 := by
          rw [find, List.find?_cons]
          by_cases hkey : key b = k
          · rw [decide_eq_true hkey, if_pos hkey]
            exact Nat.le_add_right _ _
          · rw [decide_eq_false hkey, if_neg hkey, Nat.zero_add]
            exact Nat.le_refl _
        simp only [List.map_cons, List.sum_cons]
        omega
    rw [List.map_cons, List.sum_cons]
    omega

end BlockStore
