import TrackerStream.Ipfs

/-!
# The v1 round trip

Both splicers run over the same picture: what lies in front of `prevEnd` is done, and the skeleton from
the cursor on is the gaps still ahead (`Spliced`). A region of the partition takes the picture one step on
(`Spliced.step`), and behind the last region one write finishes the file (`Spliced.finish`).
-/

namespace TrackerStream

/-- The bytes from `pos` on that lie in no region. -/
def gaps (data : Bytes) : Nat → List SampleRegion → Bytes
  | pos, [] => Buffer.slice data pos data.length
  | pos, r :: rs => Buffer.slice data pos r.offset ++ gaps data r.stop rs

/-- A write at the end of what is done, into a buffer that has room for it. -/
theorem take_blit {out done src : Bytes} {w : Nat} (hdone : out.take w = done) (h : w + src.length ≤ out.length) :
    (Buffer.blit out w src).take (w + src.length) = done ++ src := by
  have htake : (out.take w).length = w := by rw [List.length_take]; omega
  rw [Buffer.blit, hdone, List.take_append_of_le_length (by simp [← hdone]; omega), List.take_of_length_le]
  simp [← hdone]

/-- What is copied, and what is still ahead, make up the skeleton. -/
structure Copied (data goal : Bytes) (s : SkeletonCopy) (rest : List SampleRegion) : Prop where
  partition : Partition data.length s.prevEnd rest
  made : s.skel.take s.w ++ gaps data s.prevEnd rest = goal
  room : s.skel.length = goal.length
  w_le : s.w ≤ s.skel.length

theorem Copied.step {data goal : Bytes} {s : SkeletonCopy} {r : SampleRegion} {rest : List SampleRegion}
    (h : Copied data goal s (r :: rest)) : ∃ s', copyGap data s r = .ok s' ∧ Copied data goal s' rest := by
  have hr := h.partition.1
  have hstop := h.partition.2.le_length
  have hmade := h.made
  have hlen := congrArg List.length hmade
  simp only [gaps, List.length_append, List.length_take] at hlen
  have hw := h.w_le
  have hroom := h.room
  have hfit : s.w + (Buffer.slice data s.prevEnd r.offset).length ≤ s.skel.length := by omega
  refine ⟨⟨Buffer.blit s.skel s.w (Buffer.slice data s.prevEnd r.offset),
    s.w + (Buffer.slice data s.prevEnd r.offset).length, r.stop⟩, ?_, h.partition.2, ?_, ?_, ?_⟩
  · simp only [copyGap, subarray_nat, setAt_ok hfit]
    rfl
  · rw [take_blit rfl hfit, List.append_assoc]
    exact hmade
  · rw [Buffer.length_blit _ hfit, hroom]
  · rw [Buffer.length_blit _ hfit]; exact hfit

/-- What a splicer has reached. -/
structure Spliced (data skeleton out : Bytes) (cursor prevEnd : Nat) (rest : List SampleRegion) : Prop where
  partition : Partition data.length prevEnd rest
  length_out : out.length = data.length
  done : ∀ k < prevEnd, out[k]? = data[k]?
  cursor_le : cursor ≤ skeleton.length
  ahead : skeleton.drop cursor = gaps data prevEnd rest

namespace Spliced
variable {data skeleton out : Bytes} {cursor prevEnd : Nat} {r : SampleRegion} {rest : List SampleRegion}

theorem init {regions : List SampleRegion} (h : Partition data.length 0 regions) :
    Spliced data (gaps data 0 regions) (List.replicate data.length 0) 0 0 regions :=
  ⟨h, by simp, by simp, Nat.zero_le _, rfl⟩

/-- The next bytes of the skeleton are the gap in front of the next region. -/
theorem gap_eq (h : Spliced data skeleton out cursor prevEnd (r :: rest)) :
    Buffer.slice skeleton cursor (cursor + (r.offset - prevEnd)) = Buffer.slice data prevEnd r.offset := by
  have hr := h.partition.1
  have hstop := h.partition.2.le_length
  have hlen : (Buffer.slice data prevEnd r.offset).length = r.offset - prevEnd := by
    simp only [SampleRegion.stop] at hstop
    rw [Buffer.length_slice]; omega
  rw [Buffer.slice, List.drop_take, h.ahead, gaps, Nat.add_sub_cancel_left, ← hlen, List.take_left]

theorem cursor_add_le (h : Spliced data skeleton out cursor prevEnd (r :: rest)) :
    cursor + (r.offset - prevEnd) ≤ skeleton.length := by
  have hlen := congrArg List.length h.gap_eq
  have hr := h.partition.1
  have hstop := h.partition.2.le_length
  have hc := h.cursor_le
  simp only [SampleRegion.stop] at hstop
  simp only [Buffer.length_slice] at hlen
  omega

theorem bounds (h : Spliced data skeleton out cursor prevEnd (r :: rest)) :
    prevEnd ≤ r.offset ∧ r.offset + r.length ≤ out.length :=
  ⟨h.partition.1, h.length_out ▸ h.partition.2.le_length⟩

/-- One gap and one region. -/
theorem step (h : Spliced data skeleton out cursor prevEnd (r :: rest)) :
    Spliced data skeleton
      (Buffer.blit (Buffer.blit out prevEnd (Buffer.slice data prevEnd r.offset)) r.offset
        (Buffer.slice data r.offset r.stop))
      (cursor + (r.offset - prevEnd)) r.stop rest := by
  obtain ⟨hr, hstop⟩ := h.bounds
  have hout := h.length_out
  have hfit₁ : prevEnd + (Buffer.slice data prevEnd r.offset).length ≤ out.length := by
    rw [Buffer.length_slice]; omega
  have hlen₁ := Buffer.length_blit out hfit₁
  have hfit₂ : r.offset + (Buffer.slice data r.offset r.stop).length ≤
      (Buffer.blit out prevEnd (Buffer.slice data prevEnd r.offset)).length := by
    rw [hlen₁, Buffer.length_slice, SampleRegion.stop]; omega
  refine ⟨h.partition.2, ?_, ?_, h.cursor_add_le, ?_⟩
  · rw [Buffer.length_blit _ hfit₂, hlen₁, hout]
  · intro k hk
    rw [Buffer.getElem?_blit _ hfit₂, Buffer.getElem?_blit _ hfit₁]
    simp only [Buffer.length_slice, Buffer.getElem?_slice, SampleRegion.stop] at hk ⊢
    by_cases hreg : r.offset ≤ k
    · rw [if_pos (by omega), if_pos (by omega), Nat.add_sub_cancel' hreg]
    · rw [if_neg (by omega)]
      by_cases hgap : prevEnd ≤ k
      · rw [if_pos (by omega), if_pos (by omega), Nat.add_sub_cancel' hgap]
      · rw [if_neg (by omega)]
        exact h.done k (by omega)
  · rw [← List.drop_drop, h.ahead, gaps]
    refine List.drop_left' ?_
    rw [Buffer.length_slice]; omega

/-- Behind the last region the rest of the skeleton completes the file. -/
theorem finish (h : Spliced data skeleton out cursor prevEnd []) :
    prevEnd ≤ out.length ∧ (Buffer.slice skeleton cursor skeleton.length).length = out.length - prevEnd ∧
      Buffer.blit out prevEnd (Buffer.slice skeleton cursor skeleton.length) = data := by
  have hp : prevEnd ≤ data.length := h.partition
  have hout := h.length_out
  have htail : Buffer.slice skeleton cursor skeleton.length = Buffer.slice data prevEnd data.length := by
    rw [Buffer.slice_of_length_le _ _ (Nat.le_refl _)]; exact h.ahead
  have hlen : (Buffer.slice data prevEnd data.length).length = data.length - prevEnd := by
    rw [Buffer.length_slice, Nat.min_self]
  rw [htail]
  refine ⟨by omega, by omega, List.ext_getElem? fun k => ?_⟩
  rw [Buffer.getElem?_blit _ (by omega), Buffer.getElem?_slice]
  by_cases hk : prevEnd ≤ k ∧ k < prevEnd + (Buffer.slice data prevEnd data.length).length
  · rw [if_pos hk, if_pos (by omega), Nat.add_sub_cancel' hk.1]
  · rw [if_neg hk]
    by_cases hlt : k < prevEnd
    · exact h.done k hlt
    · rw [List.getElem?_eq_none (by omega), List.getElem?_eq_none (by omega)]

end Spliced

end TrackerStream
