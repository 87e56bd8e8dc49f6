import TrackerStream.DagV2

/-!
# The skeleton of the later bakes

What a client assembles from the recipe of a bake is the bake's skeleton with every zero span overwritten
by zeros (`assemble_bakeSkeleton`). Without compressed slots that is the module with the streamed regions
zeroed.
-/

namespace TrackerStream

/-! ### Merging -/

theorem clamped_spec {spans : List Spans.Span} {len : Nat} :
    ∀ s ∈ (spans.map fun s => (min s.1 len, min s.2 len)).filter fun s => s.2 > s.1, s.1 < s.2 ∧ s.2 ≤ len := by
  intro s hs
  obtain ⟨hmem, hlt⟩ := List.mem_filter.1 hs
  obtain ⟨t, -, rfl⟩ := List.mem_map.1 hmem
  exact ⟨of_decide_eq_true hlt, Nat.min_le_right _ _⟩

theorem covers_clamped (spans : List Spans.Span) {len k : Nat} (hk : k < len) :
    Spans.covers ((spans.map fun s => (min s.1 len, min s.2 len)).filter fun s => s.2 > s.1) k =
      Spans.covers spans k := by
  rw [Bool.eq_iff_iff, Spans.covers_iff, Spans.covers_iff]
  constructor
  · rintro ⟨s, hs, h₁, h₂⟩
    obtain ⟨t, ht, rfl⟩ := List.mem_map.1 (List.mem_filter.1 hs).1
    exact ⟨t, ht, by dsimp only at h₁ h₂; omega, by dsimp only at h₁ h₂; omega⟩
  · rintro ⟨t, ht, h₁, h₂⟩
    refine ⟨_, List.mem_filter.2 ⟨List.mem_map_of_mem ht, ?_⟩, by dsimp only; omega, by dsimp only; omega⟩
    simp only [gt_iff_lt, decide_eq_true_eq]
    omega

theorem sorted_insertionSort (ss : List Spans.Span) : (ss.insertionSort (·.1 ≤ ·.1)).Pairwise fun a b => a.1 ≤ b.1 := by
  have : Std.Total fun a b : Spans.Span => a.1 ≤ b.1 := ⟨fun a b => Nat.le_total _ _⟩
  have : IsTrans Spans.Span fun a b => a.1 ≤ b.1 := ⟨fun _ _ _ => Nat.le_trans⟩
  exact List.pairwise_insertionSort _ ss

theorem mergeSpans_ordered (spans : List Spans.Span) (len : Nat) : Spans.Ordered 0 (mergeSpans spans len) :=
  Spans.Ordered.coalesce (fun s hs => (clamped_spec s ((List.mem_insertionSort _).1 hs)).1) (sorted_insertionSort _)

theorem mergeSpans_end_le (spans : List Spans.Span) (len : Nat) : ∀ s ∈ mergeSpans spans len, s.2 ≤ len :=
  Spans.coalesce_end_le fun s hs => (clamped_spec s ((List.mem_insertionSort _).1 hs)).2

/-- Inside the buffer merging changes no position. -/
theorem covers_mergeSpans (spans : List Spans.Span) {len k : Nat} (hk : k < len) :
    Spans.covers (mergeSpans spans len) k = Spans.covers spans k := by
  rw [mergeSpans, Spans.covers_coalesce (fun s hs => (clamped_spec s ((List.mem_insertionSort _).1 hs)).1)
      (sorted_insertionSort _), Spans.covers_congr (fun s => List.mem_insertionSort _), covers_clamped _ hk]

theorem mask_mergeSpans (z : UInt8) (spans : List Spans.Span) (b : Bytes) :
    Spans.mask z (mergeSpans spans b.length) b = Spans.mask z spans b := by
  apply List.ext_getElem?
  intro k
  rw [Spans.getElem?_mask, Spans.getElem?_mask]
  by_cases hk : k < b.length
  · rw [covers_mergeSpans _ hk]
  · rw [List.getElem?_eq_none (by omega)]
    simp

/-! ### The recipe -/

@[simp] theorem runChunks_cons (r : Run) (rs : List Run) : runChunks (r :: rs) = r.1 ++ runChunks rs := rfl

@[simp] theorem runLayout_cons (r : Run) (rs : List Run) : runLayout (r :: rs) = r.1.length :: r.2 :: runLayout rs := rfl

/-- The bytes of a list of runs. -/
def runBytes (runs : List Run) : Bytes := runs.flatMap fun r => r.1.flatten ++ List.replicate r.2 0

theorem assembleRuns_ok (runs : List Run) : assembleRuns (runLayout runs) (runChunks runs) = .ok (runBytes runs) := by
  induction runs with
  | nil => rfl
  | cons r rs ih =>
    rw [runLayout_cons, runChunks_cons, assembleRuns, if_pos (by simp), List.drop_left, ih, List.take_left]
    rfl

/-- The client's walk of a recipe that a bake wrote. -/
theorem assembleSkeletonV2_ok (runs : List Run) :
    assembleSkeletonV2 (runChunks runs) (some (runLayout runs)) = .ok (runBytes runs) := by
  cases runs with
  | nil => rfl
  | cons r rs => exact assembleRuns_ok (r :: rs)

theorem runBytes_skeletonRuns (sk : Bytes) (cdc : CdcConfig) {pos : Nat} {ss : List Spans.Span}
    (h : Spans.Ordered pos ss) : runBytes (skeletonRuns sk cdc pos ss) = Spans.weave 0 sk pos ss := by
  induction ss generalizing pos with
  | nil =>
    unfold skeletonRuns Spans.weave
    split
    · simp [runBytes, flatten_cdcChunks]
    · rw [Buffer.slice_of_length_le _ _ (Nat.le_refl _), List.drop_eq_nil_of_le (by omega)]; rfl
  | cons s ss ih =>
    have hle := h.1
    rw [skeletonRuns, Spans.weave, ← ih h.2.2]
    have hgap : (if s.1 > pos then cdcChunks (Buffer.slice sk pos s.1) cdc else []).flatten = Buffer.slice sk pos s.1 := by
      split
      · exact flatten_cdcChunks _ _
      · rw [show s.1 = pos by omega, Buffer.slice_self]; rfl
    simp only [runBytes, List.flatMap_cons, hgap]

/-- What the client assembles: the skeleton with its zero spans overwritten. -/
theorem assemble_bakeSkeleton (data : Bytes) (streamed : List SampleSlot) (cdc : CdcConfig) :
    assembleSkeletonV2 (runChunks (bakeSkeleton data streamed cdc)) (some (runLayout (bakeSkeleton data streamed cdc))) =
      .ok (Spans.mask 0 (buildSkeletonV2 data streamed).2 (buildSkeletonV2 data streamed).1) := by
  rw [assembleSkeletonV2_ok, bakeSkeleton, runBytes_skeletonRuns _ _ (mergeSpans_ordered _ _),
    Spans.weave_eq_mask (mergeSpans_ordered _ _) (mergeSpans_end_le _ _), mask_mergeSpans]

theorem foldl_fillSpan (slots : List SampleSlot) (sk : Bytes) :
    slots.foldl (fun sk s => fillSpan sk (rawSpan s)) sk = Spans.mask 0 (slots.map rawSpan) sk := by
  induction slots generalizing sk with
  | nil => exact List.ext_getElem? fun k => by rw [Spans.getElem?_mask]; simp
  | cons s slots ih =>
    rw [List.foldl_cons, ih]
    apply List.ext_getElem?
    intro k
    rw [Spans.getElem?_mask, Spans.getElem?_mask, fillSpan, Buffer.getElem?_fill, List.map_cons, Spans.covers_cons]
    by_cases hs : (rawSpan s).1 ≤ k ∧ k < (rawSpan s).2
    · rw [if_pos hs, decide_eq_true hs.1, decide_eq_true hs.2]
      cases sk[k]? <;> simp
    · have hb : (decide ((rawSpan s).1 ≤ k) && decide (k < (rawSpan s).2)) = false := by
        simpa [Nat.not_lt] using fun h => Nat.le_of_not_lt fun h' => hs ⟨h, h'⟩
      rw [if_neg hs, hb, Bool.false_or]

/-- The regions of uncompressed slots are zeroed and nothing else is touched. -/
theorem buildSkeletonV2_raw {data : Bytes} {streamed : List SampleSlot} (h : ∀ s ∈ streamed, s.compressed = false) :
    buildSkeletonV2 data streamed = (Spans.mask 0 (streamed.map rawSpan) data, streamed.map rawSpan) := by
  have hraw : streamed.filter (fun s => !s.compressed) = streamed := List.filter_eq_self.2 fun s hs => by simp [h s hs]
  have hcomp : streamed.filter (fun s => s.compressed) = [] := List.filter_eq_nil_iff.2 fun s hs => by simp [h s hs]
  simp only [buildSkeletonV2, hraw, hcomp, foldl_fillSpan]
  simp

/-- A module without compressed streamed slots: the client assembles the file with their regions zeroed. -/
theorem assemble_bakeSkeleton_raw {data : Bytes} {streamed : List SampleSlot} (cdc : CdcConfig)
    (h : ∀ s ∈ streamed, s.compressed = false) :
    assembleSkeletonV2 (runChunks (bakeSkeleton data streamed cdc)) (some (runLayout (bakeSkeleton data streamed cdc))) =
      .ok (Spans.mask 0 (streamed.map rawSpan) data) := by
  rw [assemble_bakeSkeleton, buildSkeletonV2_raw h]
  congr 1
  apply List.ext_getElem?
  intro k
  rw [Spans.getElem?_mask, Spans.getElem?_mask]
  split
  · cases data[k]? <;> rfl
  · rfl

end TrackerStream
