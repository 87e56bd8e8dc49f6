import Mathlib

/-!
# Caches that drop what was used longest ago

`Lru K V cap` holds at most `cap` entries, latest used first. `find_add_of_behind` is the rule for an entry's
stay: it is still there as long as the keys used after it are fewer than `cap`.
-/

structure Lru (K V : Type) (cap : Nat) where
  entries : List (K × V)
  nodup : (entries.map (·.1)).Nodup
  length_le : entries.length ≤ cap

namespace Lru
variable {K V : Type} {cap : Nat} [DecidableEq K]

def empty : Lru K V cap := ⟨[], .nil, Nat.zero_le _⟩

/-- The value of a key, which is not used by this. -/
def find (c : Lru K V cap) (k : K) : Option V := (c.entries.find? (·.1 = k)).map (·.2)

/-- The entries of the other keys. -/
def others (c : Lru K V cap) (k : K) : List (K × V) := c.entries.filter (·.1 ≠ k)

theorem nodup_front (c : Lru K V cap) (k : K) (v : V) : (((k, v) :: c.others k).map (·.1)).Nodup := by
  refine List.nodup_cons.2 ⟨?_, c.nodup.sublist (List.filter_sublist.map _)⟩
  simp [others]

/-- The key gets the value and is the latest used. -/
def add (c : Lru K V cap) (k : K) (v : V) : Lru K V cap where
  entries := ((k, v) :: c.others k).take cap
  nodup := (c.nodup_front k v).sublist ((List.take_sublist _ _).map _)
  length_le := List.length_take_le ..

/-- The key, if it has a value, is the latest used. -/
def touch (c : Lru K V cap) (k : K) : Lru K V cap :=
  match c.find k with
  | some v => c.add k v
  | none => c

variable {c : Lru K V cap} {k n : K} {v : V} {A : Finset K}

theorem find_eq_some_iff : c.find n = some v ↔ ∃ l₁ l₂, c.entries = l₁ ++ (n, v) :: l₂ := by
  constructor
  · intro h
    obtain ⟨⟨n', v'⟩, hfind, rfl⟩ := Option.map_eq_some_iff.1 h
    obtain ⟨hn, l₁, l₂, heq, -⟩ := List.find?_eq_some_iff_append.1 hfind
    obtain rfl : n' = n := by simpa using hn
    exact ⟨l₁, l₂, heq⟩
  · rintro ⟨l₁, l₂, heq⟩
    have hnodup := c.nodup
    rw [heq, List.map_append, List.nodup_append'] at hnodup
    rw [find, heq, List.find?_append, List.find?_eq_none.2, Option.none_or, List.find?_cons_of_pos (by simp)]
    · rfl
    · intro x hx hxn
      exact hnodup.2.2 (List.mem_map_of_mem hx) (by simp [of_decide_eq_true hxn])

theorem find_add_self (hcap : 0 < cap) : (c.add k v).find k = some v := by
  obtain ⟨m, rfl⟩ := Nat.exists_eq_succ_of_ne_zero hcap.ne'
  exact find_eq_some_iff.2 ⟨[], (c.others k).take m, rfl⟩

omit [DecidableEq K] in
/-- A key has one place in the cache. -/
theorem split_unique {l₁ l₂ l₁' l₂' : List (K × V)} {v' : V} (h : c.entries = l₁ ++ (n, v) :: l₂)
    (h' : c.entries = l₁' ++ (n, v') :: l₂') : l₁ = l₁' := by
  have hnodup := c.nodup
  rw [h] at h' hnodup
  rcases List.append_eq_append_iff.1 h' with ⟨m, rfl, hm⟩ | ⟨m, rfl, hm⟩
  all_goals
    cases m with
    | nil => simp
    | cons y m =>
      obtain ⟨rfl, rfl⟩ := List.cons.inj hm
      simp [List.nodup_append, List.nodup_cons] at hnodup

/-- An entry stays with another one added, or is dropped. -/
theorem find_add_ne (hne : n ≠ k) : (c.add k v).find n = none ∨ (c.add k v).find n = c.find n := by
  rcases hfind : (c.add k v).find n with _ | w
  · exact .inl rfl
  · obtain ⟨l₁, l₂, heq⟩ := find_eq_some_iff.1 hfind
    have hmem : (n, w) ∈ (c.add k v).entries := by simp [heq]
    rcases List.mem_cons.1 (List.mem_of_mem_take hmem) with h | h
    · exact absurd (congrArg Prod.fst h) hne
    · obtain ⟨m₁, m₂, hsplit⟩ := List.append_of_mem (List.mem_of_mem_filter h)
      exact .inr (find_eq_some_iff.2 ⟨m₁, m₂, hsplit⟩).symm

/-- The keys used after `n`, if `n` is in the cache, are in `A`. -/
def Behind (c : Lru K V cap) (n : K) (A : Finset K) : Prop :=
  ∀ l₁ v l₂, c.entries = l₁ ++ (n, v) :: l₂ → ∀ x ∈ l₁, x.1 ∈ A

theorem behind_of_find_eq_none (h : c.find n = none) : c.Behind n A := by
  intro l₁ v l₂ heq
  rw [find_eq_some_iff.2 ⟨l₁, l₂, heq⟩] at h
  cases h

omit [DecidableEq K] in
theorem behind_of_split {l₁ l₂ : List (K × V)} (heq : c.entries = l₁ ++ (n, v) :: l₂) (h : ∀ x ∈ l₁, x.1 ∈ A) :
    c.Behind n A :=
  fun _ _ _ heq' => split_unique heq heq' ▸ h

theorem behind_add_self (hcap : 0 < cap) : (c.add n v).Behind n A := by
  obtain ⟨m, rfl⟩ := Nat.exists_eq_succ_of_ne_zero hcap.ne'
  have hsplit : (c.add n v).entries = [] ++ (n, v) :: (c.others n).take m := rfl
  exact behind_of_split hsplit (by simp)

/-- An entry stays where fewer keys than the cache holds are used after it. -/
theorem find_add_of_behind (hne : n ≠ k) (h : c.Behind n A) (hk : k ∈ A) (hA : A.card < cap) :
    (c.add k v).find n = c.find n ∧ (c.add k v).Behind n A := by
  cases hfind : c.find n with
  | none =>
    have hgone : (c.add k v).find n = none := by
      rw [find, Option.map_eq_none_iff, List.find?_eq_none] at hfind ⊢
      intro x hx
      rcases List.mem_cons.1 (List.mem_of_mem_take hx) with rfl | hx
      · simpa using hne.symm
      · exact hfind x (List.mem_of_mem_filter hx)
    exact ⟨hgone, behind_of_find_eq_none hgone⟩
  | some w =>
    obtain ⟨l₁, l₂, heq⟩ := find_eq_some_iff.1 hfind
    have hothers : c.others k = l₁.filter (·.1 ≠ k) ++ (n, w) :: l₂.filter (·.1 ≠ k) := by
      rw [others, heq, List.filter_append, List.filter_cons_of_pos (by simpa using hne)]
    have hmem : ∀ x ∈ (k, v) :: l₁.filter (·.1 ≠ k), x.1 ∈ A := by
      intro x hx
      rcases List.mem_cons.1 hx with rfl | hx
      · exact hk
      · exact h l₁ w l₂ heq x (List.mem_of_mem_filter hx)
    have hlen : ((k, v) :: l₁.filter (·.1 ≠ k)).length ≤ A.card := by
      have hnodup := c.nodup_front k v
      rw [hothers, ← List.cons_append, List.map_append] at hnodup
      rw [← List.length_map (·.1), ← List.toFinset_card_of_nodup (List.nodup_append'.1 hnodup).1]
      refine Finset.card_le_card fun x hx => ?_
      obtain ⟨y, hy, rfl⟩ := List.mem_map.1 (List.mem_toFinset.1 hx)
      exact hmem y hy
    have hentries : (c.add k v).entries = ((k, v) :: l₁.filter (·.1 ≠ k)) ++
        (n, w) :: (l₂.filter (·.1 ≠ k)).take (cap - ((k, v) :: l₁.filter (·.1 ≠ k)).length - 1) := by
      change ((k, v) :: c.others k).take cap = _
      rw [hothers, ← List.cons_append, List.take_append, List.take_of_length_le (by omega),
        List.take_cons (by omega)]
    exact ⟨find_eq_some_iff.2 ⟨_, _, hentries⟩, behind_of_split hentries hmem⟩

theorem find_touch (hcap : 0 < cap) : (c.touch n).find n = c.find n := by
  rw [touch]
  split
  next v hv => rw [find_add_self hcap, hv]
  next h => exact h.symm ▸ rfl

theorem find_touch_ne (hne : n ≠ k) : (c.touch k).find n = none ∨ (c.touch k).find n = c.find n := by
  rw [touch]
  split
  · exact find_add_ne hne
  · exact .inr rfl

theorem behind_touch (hcap : 0 < cap) (h : c.Behind n A) : (c.touch n).Behind n A := by
  rw [touch]
  split
  · exact behind_add_self hcap
  · exact h

theorem find_touch_of_behind (hne : n ≠ k) (h : c.Behind n A) (hk : k ∈ A) (hA : A.card < cap) :
    (c.touch k).find n = c.find n ∧ (c.touch k).Behind n A := by
  rw [touch]
  split
  · exact find_add_of_behind hne h hk hA
  · exact ⟨rfl, h⟩

/-! ### Which entry goes -/

/-- The key that another one put into a full cache drops. -/
def victim (c : Lru K V cap) : Option K := if c.entries.length < cap then none else (c.entries.map (·.1)).getLast?

theorem isSome_find_iff : (c.find n).isSome ↔ n ∈ c.entries.map (·.1) := by
  rw [find, Option.isSome_map, List.find?_isSome]
  simp

/-- Using an entry drops none. -/
theorem isSome_find_touch : ((c.touch k).find n).isSome ↔ (c.find n).isSome := by
  rw [touch]
  split
  next v hv =>
    have hk : k ∈ c.entries.map (·.1) := isSome_find_iff.1 (by rw [hv]; rfl)
    have hfew : (c.others k).length < c.entries.length := by
      rw [others, List.length_filter_lt_length_iff_exists]
      obtain ⟨x, hx, rfl⟩ := List.mem_map.1 hk
      exact ⟨x, hx, by simp⟩
    have hall : (c.add k v).entries = (k, v) :: c.others k :=
      List.take_of_length_le (by have := c.length_le; rw [List.length_cons]; omega)
    rw [isSome_find_iff, isSome_find_iff, hall, List.map_cons, List.mem_cons, others]
    constructor
    · rintro (rfl | h)
      · exact hk
      · exact (List.filter_sublist.map _).subset h
    · intro h
      by_cases hne : n = k
      · exact .inl hne
      · obtain ⟨x, hx, rfl⟩ := List.mem_map.1 h
        exact .inr (List.mem_map_of_mem (List.mem_filter.2 ⟨hx, by simpa using hne⟩))
  next => rfl

/-- A new entry drops the victim and no other. -/
theorem isSome_find_add (hcap : 0 < cap) (hk : c.find k = none) :
    ((c.add k v).find n).isSome ↔ n = k ∨ (c.find n).isSome ∧ c.victim ≠ some n := by
  have hnot : k ∉ c.entries.map (·.1) := fun h => by simpa [hk] using isSome_find_iff.2 h
  have hothers : c.others k = c.entries := by
    rw [others, List.filter_eq_self]
    intro x hx
    have : x.1 ≠ k := fun h => hnot (h ▸ List.mem_map_of_mem hx)
    simpa using this
  have hentries : (c.add k v).entries = ((k, v) :: c.entries).take cap := by
    show ((k, v) :: c.others k).take cap = _
    rw [hothers]
  have hle := c.length_le
  rw [isSome_find_iff, isSome_find_iff, hentries, victim]
  split
  next hlt =>
    rw [List.take_of_length_le (by rw [List.length_cons]; omega), List.map_cons, List.mem_cons]
    simp
  next hfull =>
    obtain ⟨m, rfl⟩ := Nat.exists_eq_succ_of_ne_zero hcap.ne'
    have hne : c.entries ≠ [] := List.ne_nil_of_length_pos (by omega)
    obtain ⟨front, last, hsplit⟩ : ∃ front last, c.entries = front ++ [last] :=
      ⟨_, _, (List.dropLast_append_getLast hne).symm⟩
    have hlen : front.length = m := by
      rw [hsplit, List.length_append, List.length_singleton] at hfull hle
      omega
    have hlast : last.1 ∉ front.map (·.1) := by
      have := c.nodup
      rw [hsplit, List.map_append, List.nodup_append'] at this
      exact fun h => this.2.2 h (by simp)
    rw [List.take_succ_cons, hsplit, List.take_left' hlen, List.map_cons, List.mem_cons, List.map_append, List.mem_append,
      List.map_singleton, List.getLast?_append_of_ne_nil _ (by simp), List.getLast?_singleton, List.mem_singleton]
    constructor
    · rintro (rfl | h)
      · exact .inl rfl
      · exact .inr ⟨.inl h, fun heq => hlast (by rw [Option.some.inj heq]; exact h)⟩
    · rintro (rfl | ⟨h | rfl, hvictim⟩)
      · exact .inl rfl
      · exact .inr h
      · exact absurd rfl hvictim

end Lru
