import Mathlib

/-!
# Walks of a list of events

Events sorted by row are walked row by row, with a tick between the rows; what the ticks leave alone is a fold over the
list (`walkRows_fold`). On every channel the last event that sounds is held until another event cuts it or sounds
(`held_iff`); `Rings` collects what is held before a span of events and what sounds in it.
-/

namespace Channels

/-! ### Rows -/

section
variable {α σ τ : Type*} (row : α → Nat) (f : σ → α → σ) (tick : σ → σ)

/-- The events of one row, taken from the front of those still ahead. -/
def walkRow (r : Nat) : List α → σ → List α × σ
  | [], w => ([], w)
  | e :: es, w => if row e = r then walkRow r es (f w e) else (e :: es, w)

/-- `n` rows from `r` on. -/
def walkRows : Nat → Nat → List α → σ → σ
  | 0, _, _, w => w
  | n + 1, r, es, w => walkRows n (r + 1) (walkRow row f r es w).1 (tick (walkRow row f r es w).2)

variable {row f tick} {π : σ → τ} {step : τ → α → τ} (hevent : ∀ w e, π (f w e) = step (π w) e)
include hevent

theorem walkRow_fold {r : Nat} {es : List α} (hsort : es.Pairwise fun a b => row a ≤ row b) (hle : ∀ e ∈ es, r ≤ row e) (w : σ) :
    ∃ done, es = done ++ (walkRow row f r es w).1 ∧ π (walkRow row f r es w).2 = done.foldl step (π w) ∧
      ∀ e ∈ (walkRow row f r es w).1, r + 1 ≤ row e := by
  induction es generalizing w with
  | nil => exact ⟨[], rfl, rfl, by simp [walkRow]⟩
  | cons e es ih =>
    obtain ⟨hhead, htail⟩ := List.pairwise_cons.1 hsort
    rw [walkRow]
    split
    · obtain ⟨done, h₁, h₂, h₃⟩ := ih htail (fun e' he' => hle e' (by simp [he'])) (f w e)
      refine ⟨e :: done, by rw [List.cons_append, ← h₁], ?_, h₃⟩
      rw [h₂, hevent, List.foldl_cons]
    · have := hle e (by simp)
      refine ⟨[], rfl, rfl, fun e' he' => ?_⟩
      rcases List.mem_cons.1 he' with rfl | he'
      · omega
      · have := hhead e' he'
        omega

/-- What the ticks leave alone is folded over the events. -/
theorem walkRows_fold (htick : ∀ w, π (tick w) = π w) {n r : Nat} {es : List α}
    (hsort : es.Pairwise fun a b => row a ≤ row b) (hrows : ∀ e ∈ es, r ≤ row e ∧ row e < r + n) (w : σ) :
    π (walkRows row f tick n r es w) = es.foldl step (π w) := by
  induction n generalizing r es w with
  | zero =>
    have : es = [] := List.eq_nil_iff_forall_not_mem.2 fun e he => by
      have := hrows e he
      omega
    subst this; rfl
  | succ n ih =>
    obtain ⟨done, h₁, h₂, h₃⟩ := walkRow_fold hevent hsort (fun e he => (hrows e he).1) w
    rw [walkRows, ih ((List.pairwise_append.1 (h₁ ▸ hsort)).2.1) fun e he => ⟨h₃ e he, ?_⟩]
    · conv_rhs => rw [h₁, List.foldl_append, ← h₂]
      rw [htick]
    · have := (hrows e (h₁ ▸ List.mem_append_right _ he)).2
      omega

end

/-! ### Holding -/

section
variable {α κ σ : Type*} (ch : α → κ) (cut : α → Bool) (sound : List α → α → Option σ)

/-- Event `j` sounds `s`, behind the events before it. -/
structure Sounds (es : List α) (j : Nat) (e : α) (s : σ) : Prop where
  event : es[j]? = some e
  sound : sound (es.take j) e = some s

/-- It is held at the end: no later event of its channel cuts it or sounds. -/
structure Holds (es : List α) (j : Nat) (e : α) (s : σ) : Prop where
  sounds : Sounds sound es j e s
  last : ∀ k e', j < k → es[k]? = some e' → ch e' = ch e → cut e' = false ∧ sound (es.take k) e' = none

/-- What is held behind the events `before`, and what sounds in the `span` that follows them. -/
def Rings (before span : List α) (s : σ) : Prop :=
  (∃ j e, Holds ch cut sound before j e s) ∨ ∃ j e, before.length ≤ j ∧ Sounds sound (before ++ span) j e s

variable {ch cut sound} {es es' : List α} {e e' : α} {j : Nat} {s : σ}

theorem Sounds.lt (h : Sounds sound es j e s) : j < es.length := (List.getElem?_eq_some_iff.1 h.event).1

theorem sounds_append (hj : j < es.length) : Sounds sound (es ++ es') j e s ↔ Sounds sound es j e s := by
  have hevent : (es ++ es')[j]? = es[j]? := List.getElem?_append_left hj
  have htake : (es ++ es').take j = es.take j := List.take_append_of_le_length hj.le
  constructor
  · exact fun h => ⟨hevent ▸ h.event, htake ▸ h.sound⟩
  · exact fun h => ⟨hevent ▸ h.event, by rw [htake]; exact h.sound⟩

/-- The event behind a list. -/
theorem sounds_length : Sounds sound (es ++ e' :: es') es.length e s ↔ e' = e ∧ sound es e = some s := by
  have hevent : (es ++ e' :: es')[es.length]? = some e' := by simp
  have htake : (es ++ e' :: es').take es.length = es := List.take_left
  constructor
  · exact fun h => ⟨Option.some.inj (hevent.symm.trans h.event), htake ▸ h.sound⟩
  · rintro ⟨rfl, h⟩
    exact ⟨hevent, by rw [htake]; exact h⟩

theorem holds_append_singleton : Holds ch cut sound (es ++ [e']) j e s ↔
    (Holds ch cut sound es j e s ∧ (ch e' = ch e → cut e' = false ∧ sound es e' = none)) ∨
      j = es.length ∧ e' = e ∧ sound es e = some s := by
  have hlast : (es ++ [e'])[es.length]? = some e' := by simp
  constructor
  · intro h
    have hj := h.sounds.lt
    rw [List.length_append, List.length_singleton] at hj
    by_cases hlt : j < es.length
    · refine .inl ⟨⟨(sounds_append hlt).1 h.sounds, fun k e₁ hk he₁ hch => ?_⟩, fun hch => ?_⟩
      · have hklt := (List.getElem?_eq_some_iff.1 he₁).1
        obtain ⟨hcut, hnone⟩ := h.last k e₁ hk (by rwa [List.getElem?_append_left hklt]) hch
        exact ⟨hcut, by rwa [List.take_append_of_le_length hklt.le] at hnone⟩
      · obtain ⟨hcut, hnone⟩ := h.last _ e' hlt hlast hch
        exact ⟨hcut, by rwa [List.take_left] at hnone⟩
    · obtain rfl : j = es.length := by omega
      exact .inr ⟨rfl, sounds_length.1 h.sounds⟩
  · rintro (⟨h, hnew⟩ | ⟨rfl, h⟩)
    · refine ⟨(sounds_append h.sounds.lt).2 h.sounds, fun k e₁ hk he₁ hch => ?_⟩
      have hklt := (List.getElem?_eq_some_iff.1 he₁).1
      rw [List.length_append, List.length_singleton] at hklt
      by_cases hlt : k < es.length
      · rw [List.getElem?_append_left hlt] at he₁
        rw [List.take_append_of_le_length hlt.le]
        exact h.last k e₁ hk he₁ hch
      · obtain rfl : k = es.length := by omega
        obtain rfl : e' = e₁ := Option.some.inj (hlast.symm.trans he₁)
        rw [List.take_left]
        exact hnew hch
    · refine ⟨sounds_length.2 h, fun k e₁ hk he₁ _ => ?_⟩
      have hklt := (List.getElem?_eq_some_iff.1 he₁).1
      rw [List.length_append, List.length_singleton] at hklt
      omega

/-- What a state of the channels keeps, updated event by event, is what they hold. -/
theorem held_iff [DecidableEq κ] {H : List α → κ → Option σ} (hnil : ∀ c, H [] c = none)
    (hsnoc : ∀ es e c, H (es ++ [e]) c =
      if ch e = c then if (sound es e).isSome then sound es e else if cut e then none else H es c else H es c)
    (es : List α) (c : κ) (s : σ) : H es c = some s ↔ ∃ j e, Holds ch cut sound es j e s ∧ ch e = c := by
  induction es using List.reverseRecOn generalizing s with
  | nil =>
    refine iff_of_false (by simp [hnil]) ?_
    rintro ⟨j, e, h, -⟩
    exact absurd h.sounds.lt (Nat.not_lt_zero j)
  | append_singleton es e' ih =>
    rw [hsnoc]
    by_cases hc : ch e' = c
    · rw [if_pos hc]
      cases hnew : sound es e' with
      | some s' =>
        rw [Option.isSome_some, if_pos rfl, Option.some.injEq]
        constructor
        · rintro rfl
          exact ⟨_, e', holds_append_singleton.2 (.inr ⟨rfl, rfl, hnew⟩), hc⟩
        · rintro ⟨j, e, h, hch⟩
          rcases holds_append_singleton.1 h with ⟨-, hlast⟩ | ⟨-, rfl, hs⟩
          · have := (hlast (hc.trans hch.symm)).2
            rw [hnew] at this
            cases this
          · exact Option.some.inj (hnew.symm.trans hs)
      | none =>
        rw [Option.isSome_none, if_neg Bool.false_ne_true]
        cases hcut : cut e' with
        | true =>
          refine iff_of_false (by simp) ?_
          rintro ⟨j, e, h, hch⟩
          rcases holds_append_singleton.1 h with ⟨-, hlast⟩ | ⟨-, rfl, hs⟩
          · rw [hcut] at hlast
            cases (hlast (hc.trans hch.symm)).1
          · rw [hnew] at hs
            cases hs
        | false =>
          rw [if_neg Bool.false_ne_true, ih]
          constructor
          · rintro ⟨j, e, h, hch⟩
            exact ⟨j, e, holds_append_singleton.2 (.inl ⟨h, fun _ => ⟨hcut, hnew⟩⟩), hch⟩
          · rintro ⟨j, e, h, hch⟩
            rcases holds_append_singleton.1 h with ⟨h, -⟩ | ⟨-, rfl, hs⟩
            · exact ⟨j, e, h, hch⟩
            · rw [hnew] at hs
              cases hs
    · rw [if_neg hc, ih]
      constructor
      · rintro ⟨j, e, h, hch⟩
        exact ⟨j, e, holds_append_singleton.2 (.inl ⟨h, fun hch' => absurd (hch'.trans hch) hc⟩), hch⟩
      · rintro ⟨j, e, h, hch⟩
        rcases holds_append_singleton.1 h with ⟨h, -⟩ | ⟨-, rfl, -⟩
        · exact ⟨j, e, h, hch⟩
        · exact absurd hch hc

/-- The sounds of a span, split where one of them stands. -/
theorem exists_sounds_iff {before span : List α} {s : σ} : (∃ j e, before.length ≤ j ∧ Sounds sound (before ++ span) j e s) ↔
    ∃ done e after, span = done ++ e :: after ∧ sound (before ++ done) e = some s := by
  constructor
  · rintro ⟨j, e, hj, h⟩
    obtain ⟨i, rfl⟩ := Nat.exists_eq_add_of_le hj
    have hevent := h.event
    rw [List.getElem?_append_right (Nat.le_add_right _ _), Nat.add_sub_cancel_left] at hevent
    obtain ⟨hi, hget⟩ := List.getElem?_eq_some_iff.1 hevent
    have hsound := h.sound
    rw [List.take_length_add_append] at hsound
    exact ⟨span.take i, e, span.drop (i + 1), by rw [← hget, ← List.drop_eq_getElem_cons hi, List.take_append_drop], hsound⟩
  · rintro ⟨done, e, after, rfl, h⟩
    refine ⟨(before ++ done).length, e, by simp, ?_⟩
    rw [← List.append_assoc]
    exact sounds_length.2 ⟨rfl, h⟩

end

end Channels
