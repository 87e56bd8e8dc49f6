import Mathlib

/-!
# Chunkers

A `Chunker` cuts a list behind a first chunk, in a place that what comes after the chunk has no part in. `chunks`
cuts all of it: the chunks are the list cut up (`flatten_chunks`), those behind a boundary are the chunks of the
rest alone (`chunks_of_append`), and more at the end changes the last one only (`dropLast_chunks_prefix`).
-/

structure Chunker (α : Type*) where
  cut : List α → Nat
  cut_pos : ∀ b, b ≠ [] → 0 < cut b
  cut_le : ∀ b, cut b ≤ b.length
  cut_append : ∀ b more, cut b < b.length → cut (b ++ more) = cut b

namespace Chunker
variable {α : Type*} (K : Chunker α)

theorem length_drop_cut {b : List α} (h : b ≠ []) : (b.drop (K.cut b)).length < b.length := by
  rw [List.length_drop]
  exact Nat.sub_lt (List.length_pos_iff.2 h) (K.cut_pos b h)

def chunks (b : List α) : List (List α) :=
  if h : b = [] then [] else b.take (K.cut b) :: chunks (b.drop (K.cut b))
termination_by b.length
decreasing_by exact K.length_drop_cut h

@[simp] theorem chunks_nil : K.chunks [] = [] := by rw [chunks, dif_pos rfl]

variable {K} {b : List α}

theorem chunks_cons (h : b ≠ []) : K.chunks b = b.take (K.cut b) :: K.chunks (b.drop (K.cut b)) := by
  rw [chunks, dif_neg h]

/-- The chunks, by the first of them and the rest. -/
theorem chunks_induction {P : List α → List (List α) → Prop} (nil : P [] [])
    (cons : ∀ b, b ≠ [] → P (b.drop (K.cut b)) (K.chunks (b.drop (K.cut b))) →
      P b (b.take (K.cut b) :: K.chunks (b.drop (K.cut b)))) (b : List α) : P b (K.chunks b) := by
  induction b using chunks.induct K with
  | case1 => exact K.chunks_nil ▸ nil
  | case2 b h ih => exact chunks_cons h ▸ cons b h ih

@[simp] theorem flatten_chunks (b : List α) : (K.chunks b).flatten = b := by
  refine chunks_induction (K := K) (P := fun b cs => cs.flatten = b) rfl (fun b h ih => ?_) b
  rw [List.flatten_cons, ih, List.take_append_drop]

theorem chunks_eq_nil : K.chunks b = [] ↔ b = [] := by
  constructor
  · intro h
    rw [← flatten_chunks (K := K) b, h, List.flatten_nil]
  · rintro rfl
    exact K.chunks_nil

/-- What holds of every first chunk holds of every chunk. -/
theorem forall_chunks {P : List α → Prop} (h : ∀ b, b ≠ [] → P (b.take (K.cut b))) (b : List α) :
    ∀ c ∈ K.chunks b, P c :=
  chunks_induction (K := K) (P := fun _ cs => ∀ c ∈ cs, P c) (fun _ hc => absurd hc List.not_mem_nil)
    (fun b hb ih => List.forall_mem_cons.2 ⟨h b hb, ih⟩) b

/-- What holds of every first chunk that is not all of its list holds of every chunk but the last. -/
theorem forall_dropLast_chunks {P : List α → Prop} (h : ∀ b, K.cut b < b.length → P (b.take (K.cut b))) (b : List α) :
    ∀ c ∈ (K.chunks b).dropLast, P c := by
  refine chunks_induction (K := K) (P := fun _ cs => ∀ c ∈ cs.dropLast, P c) (fun _ hc => absurd hc List.not_mem_nil)
    (fun b hb ih => ?_) b
  rcases (K.cut_le b).lt_or_eq with hlt | heq
  · have hrest : K.chunks (b.drop (K.cut b)) ≠ [] := fun hnil => by
      have := congrArg List.length (chunks_eq_nil.1 hnil)
      rw [List.length_drop, List.length_nil] at this
      omega
    rw [List.dropLast_cons_of_ne_nil hrest]
    exact List.forall_mem_cons.2 ⟨h b hlt, ih⟩
  · rw [heq, List.drop_length, chunks_nil]
    exact fun _ hc => absurd hc List.not_mem_nil

/-- The chunks behind a boundary are the chunks of the rest alone. -/
theorem chunks_of_append {xs ys : List (List α)} (h : K.chunks b = xs ++ ys) :
    K.chunks (b.drop xs.flatten.length) = ys := by
  induction xs generalizing b with
  | nil => rwa [List.flatten_nil, List.length_nil, List.drop_zero]
  | cons x xs ih =>
    have hb : b ≠ [] := by
      rintro rfl
      rw [chunks_nil] at h
      exact absurd h.symm (List.cons_ne_nil _ _)
    rw [chunks_cons hb, List.cons_append] at h
    obtain ⟨rfl, hrest⟩ := List.cons.inj h
    rw [List.flatten_cons, List.length_append, List.length_take_of_le (K.cut_le b), ← List.drop_drop]
    exact ih hrest

/-- More at the end changes the last chunk only. -/
theorem dropLast_chunks_prefix (b more : List α) : (K.chunks b).dropLast <+: K.chunks (b ++ more) := by
  refine chunks_induction (K := K) (P := fun b cs => cs.dropLast <+: K.chunks (b ++ more)) List.nil_prefix
    (fun b hb ih => ?_) b
  rcases (K.cut_le b).lt_or_eq with hlt | heq
  · have hcut := K.cut_append b more hlt
    have hmore : b ++ more ≠ [] := fun hnil => hb (List.append_eq_nil_iff.1 hnil).1
    have hrest : K.chunks (b.drop (K.cut b)) ≠ [] := fun hnil => by
      have := congrArg List.length (chunks_eq_nil.1 hnil)
      rw [List.length_drop, List.length_nil] at this
      omega
    rw [List.dropLast_cons_of_ne_nil hrest, chunks_cons hmore, hcut, List.take_append_of_le_length hlt.le,
      List.drop_append_of_le_length hlt.le]
    exact (List.prefix_cons_inj _).2 ih
  · rw [heq, List.drop_length, chunks_nil]
    exact List.nil_prefix

end Chunker
