import TrackerStream.Buffer
import Mathlib

/-!
# Half-open spans

A span `(a, b)` stands for the positions `a ≤ k < b`. `coalesce` merges a list sorted by start into
disjoint spans in ascending order with the same positions (`covers_coalesce`, `Ordered.coalesce`);
`mask` overwrites the covered positions of a buffer, and `weave` is the run-length reading of the same
buffer: what lies between the spans, and a constant run for each of them (`weave_eq_mask`).
-/

namespace Spans

abbrev Span := Nat × Nat

/-- Some span of `spans` holds the position `k`. -/
def covers (spans : List Span) (k : Nat) : Bool := spans.any fun s => decide (s.1 ≤ k) && decide (k < s.2)

/-- The spans are not empty and follow one another from position `lo` on. -/
def Ordered : Nat → List Span → Prop
  | _, [] => True
  | lo, s :: ss => lo ≤ s.1 ∧ s.1 < s.2 ∧ Ordered s.2 ss

/-- One step of the merge of spans sorted by start: `out` is the result so far, its last span first. -/
def mergeInto (out : List Span) (s : Span) : List Span :=
  match out with
  | [] => [s]
  | last :: out => if s.1 ≤ last.2 then (last.1, max last.2 s.2) :: out else s :: last :: out

/-- Merge the overlapping and adjacent spans of a list sorted by start. -/
def coalesce (spans : List Span) : List Span := (spans.foldl mergeInto []).reverse

theorem mergeInto_cons (last : Span) (out : List Span) (s : Span) :
    mergeInto (last :: out) s =
      if s.1 ≤ last.2 then (last.1, max last.2 s.2) :: out else s :: last :: out := rfl

theorem covers_iff {spans : List Span} {k : Nat} : covers spans k = true ↔ ∃ s ∈ spans, s.1 ≤ k ∧ k < s.2 := by
  simp [covers]

@[simp] theorem covers_nil (k : Nat) : covers [] k = false := rfl

theorem covers_cons (s : Span) (ss : List Span) (k : Nat) :
    covers (s :: ss) k = (decide (s.1 ≤ k) && decide (k < s.2) || covers ss k) := rfl

theorem covers_append (ss ts : List Span) (k : Nat) : covers (ss ++ ts) k = (covers ss k || covers ts k) := by
  simp [covers]

theorem covers_congr {ss ts : List Span} (h : ∀ s, s ∈ ss ↔ s ∈ ts) (k : Nat) : covers ss k = covers ts k := by
  rw [Bool.eq_iff_iff, covers_iff, covers_iff]
  simp only [h]

theorem covers_reverse (ss : List Span) (k : Nat) : covers ss.reverse k = covers ss k :=
  covers_congr (fun _ => List.mem_reverse) k

namespace Ordered

theorem mono {lo lo' : Nat} {ss : List Span} (h : Ordered lo ss) (hle : lo' ≤ lo) : Ordered lo' ss := by
  cases ss with
  | nil => trivial
  | cons s ss => exact ⟨Nat.le_trans hle h.1, h.2⟩

theorem append_single {lo : Nat} {ss : List Span} {s : Span} (h : Ordered lo ss) (hlo : lo ≤ s.1)
    (hs : s.1 < s.2) (hlast : ∀ t ∈ ss, t.2 ≤ s.1) : Ordered lo (ss ++ [s]) := by
  induction ss generalizing lo with
  | nil => exact ⟨hlo, hs, trivial⟩
  | cons t ss ih =>
    exact ⟨h.1, h.2.1, ih h.2.2 (hlast t (by simp)) fun u hu => hlast u (by simp [hu])⟩

theorem le_start {lo : Nat} {ss : List Span} (h : Ordered lo ss) : ∀ s ∈ ss, lo ≤ s.1 := by
  induction ss generalizing lo with
  | nil => simp
  | cons t ss ih =>
    intro s hs
    rcases List.mem_cons.1 hs with rfl | hs
    · exact h.1
    · have := ih h.2.2 s hs
      have := h.1
      have := h.2.1
      omega

theorem not_covers {lo k : Nat} {ss : List Span} (h : Ordered lo ss) (hk : k < lo) : covers ss k = false := by
  rw [Bool.eq_false_iff, Ne, covers_iff]
  rintro ⟨s, hs, h₁, -⟩
  have := h.le_start s hs
  omega

end Ordered

/-- The accumulator of the merge: not empty spans, the last one first, each before the ones in front of it. -/
def Descending : List Span → Prop
  | [] => True
  | s :: out => s.1 < s.2 ∧ (∀ t ∈ out, t.2 ≤ s.1) ∧ Descending out

theorem Descending.ordered_reverse {out : List Span} (h : Descending out) : Ordered 0 out.reverse := by
  induction out with
  | nil => trivial
  | cons s out ih =>
    rw [List.reverse_cons]
    exact (ih h.2.2).append_single (Nat.zero_le _) h.1 fun t ht => h.2.1 t (List.mem_reverse.1 ht)

theorem Descending.mergeInto {out : List Span} {s : Span} (h : Descending out) (hs : s.1 < s.2) :
    Descending (mergeInto out s) := by
  cases out with
  | nil => exact ⟨hs, by simp, trivial⟩
  | cons last out =>
    rw [mergeInto_cons]
    split
    · exact ⟨Nat.lt_of_lt_of_le h.1 (Nat.le_max_left _ _), h.2.1, h.2.2⟩
    · refine ⟨hs, fun t ht => ?_, h⟩
      rcases List.mem_cons.1 ht with rfl | ht
      · omega
      · have := h.2.1 t ht
        have := h.1
        omega

/-- The start of the last span of the accumulator, below which no further span of a sorted list starts. -/
def lastStart (out : List Span) : Nat := (out.head?.map Prod.fst).getD 0

theorem covers_mergeInto {out : List Span} {s : Span} (hlast : lastStart out ≤ s.1) (hd : Descending out)
    (k : Nat) : covers (mergeInto out s) k = (covers out k || covers [s] k) := by
  cases out with
  | nil => simp [mergeInto, covers_cons]
  | cons last out =>
    have hle : last.1 ≤ s.1 := hlast
    have hlt := hd.1
    rw [mergeInto_cons]
    split
    · rename_i hadj
      simp only [covers_cons, covers_nil, Bool.or_false]
      rw [Bool.or_right_comm]
      congr 1
      rw [Bool.eq_iff_iff]
      simp only [Bool.and_eq_true, Bool.or_eq_true, decide_eq_true_eq]
      omega
    · simp only [covers_cons, covers_nil, Bool.or_false]
      rw [Bool.or_comm]

theorem lastStart_mergeInto_le {out : List Span} {s : Span} (hlast : lastStart out ≤ s.1) :
    lastStart (mergeInto out s) ≤ s.1 := by
  cases out with
  | nil => exact Nat.le_refl _
  | cons last out =>
    rw [mergeInto_cons]
    split
    · exact hlast
    · exact Nat.le_refl _

theorem foldl_mergeInto {spans : List Span} (hs : ∀ s ∈ spans, s.1 < s.2)
    (hsort : spans.Pairwise (fun a b => a.1 ≤ b.1)) (out : List Span) (hd : Descending out)
    (hlast : ∀ s ∈ spans, lastStart out ≤ s.1) :
    Descending (spans.foldl mergeInto out) ∧
      ∀ k, covers (spans.foldl mergeInto out) k = (covers out k || covers spans k) := by
  induction spans generalizing out with
  | nil => simp [hd]
  | cons s spans ih =>
    obtain ⟨hle, hsort⟩ := List.pairwise_cons.1 hsort
    have hl := hlast s (by simp)
    obtain ⟨hd', hc⟩ := ih (fun t ht => hs t (by simp [ht])) hsort _ (hd.mergeInto (hs s (by simp)))
      fun t ht => Nat.le_trans (lastStart_mergeInto_le hl) (hle t ht)
    refine ⟨hd', fun k => ?_⟩
    rw [List.foldl_cons, hc, covers_mergeInto hl hd, Bool.or_assoc, ← covers_append, List.singleton_append]

theorem Ordered.coalesce {spans : List Span} (hs : ∀ s ∈ spans, s.1 < s.2)
    (hsort : spans.Pairwise (fun a b => a.1 ≤ b.1)) : Ordered 0 (coalesce spans) :=
  (foldl_mergeInto hs hsort [] trivial fun _ _ => Nat.zero_le _).1.ordered_reverse

theorem covers_coalesce {spans : List Span} (hs : ∀ s ∈ spans, s.1 < s.2)
    (hsort : spans.Pairwise (fun a b => a.1 ≤ b.1)) (k : Nat) : covers (coalesce spans) k = covers spans k := by
  rw [coalesce, covers_reverse, (foldl_mergeInto hs hsort [] trivial fun _ _ => Nat.zero_le _).2]
  simp

/-- No span made by the merge ends past a bound on the ends of the spans merged. -/
theorem coalesce_end_le {spans : List Span} {len : Nat} (h : ∀ s ∈ spans, s.2 ≤ len) :
    ∀ s ∈ coalesce spans, s.2 ≤ len := by
  suffices ∀ out : List Span, (∀ s ∈ out, s.2 ≤ len) → ∀ s ∈ spans.foldl mergeInto out, s.2 ≤ len from
    fun s hs => this [] (by simp) s (List.mem_reverse.1 hs)
  induction spans with
  | nil => exact fun out hout => hout
  | cons s spans ih =>
    intro out hout
    refine ih (fun t ht => h t (by simp [ht])) _ fun t ht => ?_
    have hs := h s (by simp)
    cases out with
    | nil => rw [List.mem_singleton.1 ht]; exact hs
    | cons last out =>
      rw [mergeInto_cons] at ht
      split at ht
      · rcases List.mem_cons.1 ht with rfl | ht
        · exact Nat.max_le.2 ⟨hout last (by simp), hs⟩
        · exact hout t (by simp [ht])
      · rcases List.mem_cons.1 ht with rfl | ht
        · exact hs
        · exact hout t ht

/-! ### Masked buffers -/

variable {α : Type*}

/-- `b` with every position covered by `spans` overwritten by `z`. -/
def mask (z : α) (spans : List Span) (b : List α) : List α :=
  b.mapIdx fun k x => if covers spans k then z else x

/-- From position `pos` on: the elements of `b` up to the next span, a run of `z` as long as the span, and
so on to the end of `b`. -/
def weave (z : α) (b : List α) : Nat → List Span → List α
  | pos, [] => Buffer.slice b pos b.length
  | pos, s :: ss => Buffer.slice b pos s.1 ++ List.replicate (s.2 - s.1) z ++ weave z b s.2 ss

@[simp] theorem length_mask (z : α) (spans : List Span) (b : List α) : (mask z spans b).length = b.length := by
  simp [mask]

theorem getElem?_mask (z : α) (spans : List Span) (b : List α) (k : Nat) :
    (mask z spans b)[k]? = if covers spans k then b[k]?.map (fun _ => z) else b[k]? := by
  rw [mask, List.getElem?_mapIdx]
  split <;> simp_all

theorem mask_congr {z : α} {ss ts : List Span} (h : ∀ k, covers ss k = covers ts k) (b : List α) :
    mask z ss b = mask z ts b := by
  simp only [mask, h]

theorem weave_eq_slice_mask {z : α} {b : List α} {pos : Nat} {ss : List Span} (h : Ordered pos ss)
    (hend : ∀ s ∈ ss, s.2 ≤ b.length) (hpos : pos ≤ b.length) :
    weave z b pos ss = Buffer.slice (mask z ss b) pos b.length := by
  induction ss generalizing pos with
  | nil =>
    have hb : mask z [] b = b := List.ext_getElem? fun k => by rw [getElem?_mask]; simp
    rw [hb]; rfl
  | cons s ss ih =>
    have hs := hend s (by simp)
    have h₁ := h.1
    have h₂ := h.2.1
    rw [weave, ih h.2.2 (fun t ht => hend t (by simp [ht])) hs, List.append_assoc]
    apply List.ext_getElem?
    intro k
    have hlen : (Buffer.slice b pos s.1).length = s.1 - pos := by rw [Buffer.length_slice]; omega
    rw [Buffer.getElem?_slice, getElem?_mask, covers_cons]
    by_cases hk₁ : pos + k < s.1
    · have hn : covers ss (pos + k) = false := h.2.2.not_covers (by omega)
      have hc : (decide (s.1 ≤ pos + k) && decide (pos + k < s.2) || covers ss (pos + k)) = false := by
        rw [hn, decide_eq_false (by omega)]; rfl
      rw [List.getElem?_append_left (by omega), Buffer.getElem?_slice, if_pos hk₁, if_pos (by omega), hc]
      rfl
    · rw [List.getElem?_append_right (by omega), hlen]
      by_cases hk₂ : pos + k < s.2
      · have hc : (decide (s.1 ≤ pos + k) && decide (pos + k < s.2) || covers ss (pos + k)) = true := by
          rw [decide_eq_true (by omega : s.1 ≤ pos + k), decide_eq_true hk₂]; rfl
        rw [List.getElem?_append_left (by simp; omega), if_pos (by omega), hc, if_pos rfl,
          List.getElem?_replicate, if_pos (by omega), List.getElem?_eq_getElem (by omega)]
        rfl
      · have hc : (decide (s.1 ≤ pos + k) && decide (pos + k < s.2) || covers ss (pos + k)) = covers ss (pos + k) := by
          rw [decide_eq_false hk₂, Bool.and_false, Bool.false_or]
        rw [List.getElem?_append_right (by simp; omega), List.length_replicate, Buffer.getElem?_slice, hc,
          getElem?_mask, show s.2 + (k - (s.1 - pos) - (s.2 - s.1)) = pos + k by omega]

/-- The run-length reading of a buffer with ordered spans is the masked buffer. -/
theorem weave_eq_mask {z : α} {b : List α} {ss : List Span} (h : Ordered 0 ss)
    (hend : ∀ s ∈ ss, s.2 ≤ b.length) : weave z b 0 ss = mask z ss b := by
  rw [weave_eq_slice_mask h hend (Nat.zero_le _), ← length_mask z ss b, Buffer.slice_all]

end Spans
