import TrackerStream.Proofs.PlanComplete

/-!
# The join key (`parse.ts`, `seek.ts`)

A slot and the seek tables know a sample by the offset of its PCM. Both walk the headers on their own; slot `i + 1` has the
offset that the tables use for sample `i`, for every format (`join_key`).
-/

namespace TrackerStream

/-- The PCM offset that the tables of a format use for the 0-based sample `s`. -/
def seekOffset (b : Bytes) (format : Format) (s : Nat) : Option Nat :=
  match format with
  | .mod => (modModel b (modChannels (tag4 b 1080))).offsetOf s
  | .s3m => (s3mModel b).offsetOf s
  | .xm => (xmPatterns b (u16le b 70) (60 + u32le b 60)).bind fun parts =>
      (xmModel b parts.1 (xmSamples b (u16le b 72) parts.2 ⟨[], []⟩)).offsetOf s
  | .it | .mptm => (readHeader b).bind fun h => (ItModel.mk b h (itSampleOffsets b h)).offOf s
  | .mo3 => none

variable {b : Bytes}

/-! ### MOD -/

theorem modSlotsFrom_key {fileLen i off : Nat} {ns : List Nat} :
    ∀ s ∈ modSlotsFrom fileLen ns i off, ∃ j, s.index = i + j + 1 ∧ (modOffsets fileLen ns off)[j]? =
      some (some s.offset) := by
  induction ns generalizing i off with
  | nil => simp [modSlotsFrom]
  | cons n ns ih =>
    have hnext : ∀ {off' : Nat} {head : Option Nat} {s : SampleSlot}, s ∈ modSlotsFrom fileLen ns (i + 1) off' →
        ∃ j, s.index = i + j + 1 ∧ (head :: modOffsets fileLen ns off')[j]? = some (some s.offset) := by
      intro off' head s hs
      obtain ⟨j, hindex, hget⟩ := ih s hs
      exact ⟨j + 1, by omega, hget⟩
    have hfound : ∀ {length : Nat} {rest : List (Option Nat)} {s : SampleSlot}, s ∈ (if length > 0 then
        [({ index := i + 1, offset := off, length, bitDepth := 8, channels := 1 } : SampleSlot)] else []) →
        ∃ j, s.index = i + j + 1 ∧ (some off :: rest)[j]? = some (some s.offset) := by
      intro length rest s hs
      split at hs
      · rw [List.mem_singleton.1 hs]
        exact ⟨0, rfl, rfl⟩
      · simp at hs
    intro s hs
    unfold modSlotsFrom at hs
    rw [modOffsets]
    split_ifs at hs ⊢ with hempty hcut
    · exact hnext hs
    · simp only at hs
      exact hfound hs
    · simp only at hs
      exact (List.mem_append.1 hs).elim hfound hnext

/-! ### IT and S3M -/

theorem itSlot_key {i so : Nat} {s : SampleSlot} (h : itSlot b i so = some s) : ¬(so = 0 ∨ so + 0x50 > b.length) ∧
    (hasBit (at0 b (so + 0x12)) 1 = true ∧ u32le b (so + 0x30) ≠ 0 ∧ u32le b (so + 0x48) ≠ 0) ∧
    u32le b (so + 0x48) = s.offset := by
  simp only [itSlot] at h
  generalize (if hasBit (at0 b (so + 0x12)) 2 = true then 16 else 8) = bitDepth at h
  generalize (if hasBit (at0 b (so + 0x12)) 4 = true then 2 else 1) = channels at h
  split at h
  · cases h
  next hfile =>
    split at h
    · cases h
    next hheader =>
      simp only [not_or, Bool.not_eq_true', Bool.not_eq_false] at hheader
      refine ⟨hfile, hheader, ?_⟩
      split at h
      · split at h
        · cases h
          rfl
        · cases h
      · split at h
        · cases h
          rfl
        · cases h

theorem it_key {h : ItHeader} (hh : readHeader b = some h) {s : SampleSlot} (hs : s ∈ itLikeSlots b) :
    0 < s.index ∧ (ItModel.mk b h (itSampleOffsets b h)).offOf (s.index - 1) = some s.offset := by
  obtain ⟨⟨so, i⟩, hmem, hslot⟩ := List.mem_filterMap.1 hs
  have hget : (itHeaderOffsets b)[i]? = some so := List.mem_zipIdx_iff_getElem?.1 hmem
  obtain ⟨hfile, hheader, hoffset⟩ := itSlot_key hslot
  have hindex := itSlot_index hslot
  have hbase : h.smpNum = u16le b 0x24 ∧ h.smpOffBase = 0xc0 + u16le b 0x20 + u16le b 0x22 * 4 := by
    rw [readHeader] at hh
    split at hh
    · cases hh
    · simp only at hh
      split at hh
      · cases hh
      · cases hh
        exact ⟨rfl, rfl⟩
  have hentry : i < h.smpNum ∧ u32le b (h.smpOffBase + i * 4) = so := by
    simp only [itHeaderOffsets, ← hbase.1, ← hbase.2, List.getElem?_map, Option.map_eq_some_iff] at hget
    obtain ⟨j, hj, hso⟩ := hget
    obtain ⟨hlt, rfl⟩ := List.getElem?_eq_some_iff.1 hj
    rw [List.length_range] at hlt
    rw [List.getElem_range] at hso
    exact ⟨hlt, hso⟩
  obtain ⟨hlt, rfl⟩ := hentry
  refine ⟨by omega, ?_⟩
  have hentry : (itSampleOffsets b h)[i]? = some (some s.offset) := by
    rw [itSampleOffsets, List.getElem?_map, List.getElem?_range hlt]
    simp only [if_neg hfile, if_pos hheader, Option.map_some]
    rw [hoffset]
  rw [hindex, Nat.add_sub_cancel]
  show ((itSampleOffsets b h)[i]?).join = some s.offset
  rw [hentry]
  rfl

theorem s3mSlot_key {i pp : Nat} {s : SampleSlot} (h : s3mSlot b i pp = some s) : s3mOffset b pp = some s.offset := by
  simp only [s3mSlot] at h
  generalize (if hasBit (at0 b (pp * 16 + 0x1f)) 4 = true then 16 else 8) = bitDepth at h
  generalize (if hasBit (at0 b (pp * 16 + 0x1f)) 2 = true then 2 else 1) = channels at h
  split at h
  · cases h
  next hfile =>
    split at h
    · cases h
    next hheader =>
      split at h
      next hdata =>
        cases h
        simp only [s3mOffset]
        rw [if_neg hfile, if_neg hheader, if_pos hdata.2]
      · cases h

theorem s3m_key {s : SampleSlot} (hs : s ∈ s3mSlots b) : 0 < s.index ∧ (s3mModel b).offsetOf (s.index - 1) =
    some s.offset := by
  obtain ⟨⟨pp, i⟩, hmem, hslot⟩ := List.mem_filterMap.1 hs
  have hget : (s3mParapointers b)[i]? = some pp := List.mem_zipIdx_iff_getElem?.1 hmem
  rw [s3mSlot_index hslot, Nat.add_sub_cancel]
  exact ⟨Nat.succ_pos i, Option.bind_eq_some_iff.2 ⟨pp, hget, s3mSlot_key hslot⟩⟩

/-! ### XM -/

theorem xmPatterns_stop (npat pos : Nat) : (xmPatterns b npat pos).map Prod.snd = xmSkipPatterns b npat pos := by
  induction npat generalizing pos with
  | zero => rfl
  | succ npat ih =>
    rw [xmPatterns, xmSkipPatterns]
    split
    · rfl
    · rw [← ih, Option.map_map]
      rfl

theorem xmPayloadSlots_key {fileLen slot data : Nat} {ms : List (Nat × Nat)} :
    ∀ s ∈ xmPayloadSlots fileLen ms slot data, ∃ j, s.index = slot + j + 1 ∧
      (xmOffsets fileLen (ms.map Prod.fst) data)[j]? = some (some s.offset) := by
  induction ms generalizing slot data with
  | nil => simp [xmPayloadSlots]
  | cons m ms ih =>
    obtain ⟨length, bitDepth⟩ := m
    have hnext : ∀ {head : Option Nat} {s : SampleSlot}, s ∈ xmPayloadSlots fileLen ms (slot + 1) (data + length) →
        ∃ j, s.index = slot + j + 1 ∧ (head :: xmOffsets fileLen (ms.map Prod.fst) (data + length))[j]? =
          some (some s.offset) := by
      intro head s hs
      obtain ⟨j, hindex, hget⟩ := ih s hs
      exact ⟨j + 1, by omega, hget⟩
    intro s hs
    rw [xmPayloadSlots] at hs
    rw [List.map_cons, xmOffsets]
    split_ifs at hs ⊢ with hin
    · rcases List.mem_cons.1 hs with rfl | hs
      · exact ⟨0, rfl, rfl⟩
      · exact hnext hs
    · exact hnext hs

theorem length_xmOffsets (fileLen data : Nat) (ns : List Nat) : (xmOffsets fileLen ns data).length = ns.length := by
  induction ns generalizing data with
  | nil => rfl
  | cons n ns ih => rw [xmOffsets, List.length_cons, List.length_cons, ih]

/-- The walk over the instruments only adds offsets. -/
theorem xmSamples_get {nins pos i : Nat} {acc : XmSamples} {x : Option Nat} (h : acc.offsets[i]? = some x) :
    (xmSamples b nins pos acc).offsets[i]? = some x := by
  induction nins generalizing pos acc with
  | zero => exact h
  | succ nins ih =>
    simp only [xmSamples]
    split
    · exact h
    split
    · exact @ih _ ⟨acc.offsets, _⟩ h
    · refine ih ?_
      rw [List.getElem?_append_left (List.getElem?_eq_some_iff.1 h).1, h]

theorem xmSlotsFrom_key {nins slot pos : Nat} {acc : XmSamples} (hslot : acc.offsets.length = slot) :
    ∀ s ∈ xmSlotsFrom b nins slot pos, 0 < s.index ∧ (xmSamples b nins pos acc).offsets[s.index - 1]? =
      some (some s.offset) := by
  induction nins generalizing slot pos acc with
  | zero => simp [xmSlotsFrom]
  | succ nins ih =>
    intro s hs
    simp only [xmSlotsFrom] at hs
    simp only [xmSamples]
    split_ifs at hs ⊢ with hcut hempty
    · simp at hs
    · have hrest := @ih slot (pos + u32le b pos)
        ⟨acc.offsets, acc.instruments ++ [(acc.offsets.length, List.replicate 96 0)]⟩
      exact hrest hslot s hs
    · rcases List.mem_append.1 hs with hs | hs
      · obtain ⟨j, hindex, hget⟩ := xmPayloadSlots_key s hs
        have hj : s.index - 1 = acc.offsets.length + j := by omega
        refine ⟨by omega, xmSamples_get ?_⟩
        rw [hj, List.getElem?_append_right (Nat.le_add_right _ _), Nat.add_sub_cancel_left, hget]
      · refine ih ?_ s hs
        rw [List.length_append, length_xmOffsets, List.length_map, hslot]

/-! ### The tables -/

/-- The offsets that the tables of a walk hold are offsets of samples. -/
theorem SimModel.trigger_offset {m : SimModel} {latch : Latch} {es : List SimEvent} {o : Nat} (h : o ∈ (m.trigger latch es).1) :
    ∃ s, m.offsetOf s = some o := by
  induction es generalizing latch with
  | nil => simp [trigger] at h
  | cons e es ih =>
    rcases List.mem_append.1 h with h | h
    · split at h
      · obtain ⟨s, -, hs⟩ := Option.bind_eq_some_iff.1 (Option.mem_toList.1 h)
        exact ⟨s, hs⟩
      · simp at h
    · exact ih h

theorem SimModel.triggerOrders_offset {m : SimModel} {latch : Latch} {ops : List (Nat × Nat)} {o : Nat}
    (h : o ∈ (m.triggerOrders latch ops).1) : ∃ s, m.offsetOf s = some o := by
  induction ops generalizing latch with
  | nil => simp [triggerOrders] at h
  | cons op ops ih => exact (List.mem_append.1 h).elim trigger_offset ih

/-- Every offset in the tables is the one of some sample. -/
def SeekTables.From (t : SeekTables) (f : Nat → Option Nat) : Prop :=
  (∀ cp ∈ t.checkpoints, ∀ o ∈ cp.residentOffsets, ∃ s, f s = some o) ∧ ∀ o ∈ t.segment0Offsets, ∃ s, f s = some o

theorem simulateTables_from (m : SimModel) : (simulateTables m).From m.offsetOf := by
  refine ⟨fun cp hcp o ho => ?_, fun o ho => ?_⟩
  · obtain ⟨k, -, rfl⟩ := List.mem_map.1 hcp
    rcases List.mem_append.1 (mem_sortedSet.1 ho) with ho | ho
    · obtain ⟨c, -, hc⟩ := List.mem_filterMap.1 ho
      obtain ⟨held, -, hs⟩ := Option.bind_eq_some_iff.1 hc
      exact ⟨held.sample, hs⟩
    · exact SimModel.triggerOrders_offset ho
  · rw [simulateTables] at ho
    simp only [SimModel.segment0] at ho
    split at ho
    · simp at ho
    · exact SimModel.trigger_offset (mem_sortedSet.1 ho)

theorem ItModel.triggered_offset {m : ItModel} {pat o : Nat} (h : o ∈ m.triggered pat) : ∃ s, m.offOf s = some o := by
  rw [triggered] at h
  split at h
  · simp at h
  · obtain ⟨e, -, he⟩ := List.mem_filterMap.1 h
    obtain ⟨note, -, he⟩ := Option.bind_eq_some_iff.1 he
    obtain ⟨s, -, hs⟩ := Option.bind_eq_some_iff.1 he
    exact ⟨s, hs⟩

theorem ItModel.tables_from (m : ItModel) : m.tables.From m.offOf := by
  refine ⟨fun cp hcp o ho => ?_, fun o ho => ?_⟩
  · obtain ⟨k, -, rfl⟩ := List.mem_map.1 hcp
    rcases List.mem_append.1 (mem_sortedSet.1 ho) with ho | ho
    · obtain ⟨c, -, hc⟩ := List.mem_filterMap.1 ho
      obtain ⟨held, -, hs⟩ := Option.bind_eq_some_iff.1 hc
      exact ⟨held.sample, hs⟩
    · obtain ⟨pat, -, hpat⟩ := List.mem_flatMap.1 ho
      exact triggered_offset hpat
  · simp only [tables] at ho
    split at ho
    · simp at ho
    · exact triggered_offset (mem_sortedSet.1 ho)

section
variable {hint : Option Format} {format : Format} {slots : List SampleSlot} {tables : SeekTables}

theorem tables_from (ht : computeSeekTables b format = some tables) : tables.From (seekOffset b format) := by
  have hit : computeItTables b = some tables →
      tables.From fun s => (readHeader b).bind fun h => (ItModel.mk b h (itSampleOffsets b h)).offOf s := by
    intro ht
    obtain ⟨h, hh, rfl⟩ := Option.map_eq_some_iff.1 ht
    simp only [hh, Option.bind_some]
    exact ItModel.tables_from _
  cases format with
  | mod =>
    rw [computeSeekTables, modTables] at ht
    split at ht
    · cases ht
    · simp only at ht
      split at ht
      · cases ht
      · rw [← Option.some.inj ht]
        exact simulateTables_from _
  | it => exact hit ht
  | mptm => exact hit ht
  | s3m =>
    rw [computeSeekTables, s3mTables] at ht
    split at ht
    · cases ht
    · rw [← Option.some.inj ht]
      exact simulateTables_from _
  | xm =>
    rw [computeSeekTables, xmTables] at ht
    split at ht
    · cases ht
    · simp only at ht
      split at ht
      · cases ht
      · cases hpats : xmPatterns b (u16le b 70) (60 + u32le b 60) with
        | none =>
          rw [hpats] at ht
          cases ht
        | some parts =>
          rw [hpats] at ht
          rw [← Option.some.inj ht]
          have hoffset : seekOffset b .xm = (xmModel b parts.1 (xmSamples b (u16le b 72) parts.2 ⟨[], []⟩)).offsetOf := by
            funext s
            rw [seekOffset, hpats, Option.bind_some]
          rw [hoffset]
          exact simulateTables_from _
  | mo3 => cases ht

theorem slot_key (h : sampleSlots b hint = some (format, slots)) (ht : computeSeekTables b format = some tables)
    {s : SampleSlot}
    (hs : s ∈ slots) : 0 < s.index ∧ seekOffset b format (s.index - 1) = some s.offset := by
  have hit : s ∈ itLikeSlots b → computeItTables b = some tables →
      0 < s.index ∧ ((readHeader b).bind fun h => (ItModel.mk b h (itSampleOffsets b h)).offOf (s.index - 1)) =
        some s.offset := by
    intro hmem ht
    obtain ⟨h, hh, -⟩ := Option.map_eq_some_iff.1 ht
    rw [hh, Option.bind_some]
    exact it_key hh hmem
  unfold sampleSlots at h
  split at h
  · cases h
  cases h
  have hmem := (List.mem_filter.1 hs).1
  cases format with
  | mod =>
    simp only [SLOT_EXTRACTORS, modSlots] at hmem
    split at hmem
    · simp at hmem
    · obtain ⟨j, hindex, hget⟩ := modSlotsFrom_key s hmem
      refine ⟨by omega, ?_⟩
      rw [hindex, show 0 + j + 1 - 1 = j by omega]
      show ((modOffsets _ _ _)[j]?).join = _
      rw [hget]
      rfl
  | it => exact hit hmem ht
  | mptm => exact hit hmem ht
  | s3m => exact s3m_key hmem
  | xm =>
    simp only [SLOT_EXTRACTORS, xmSlots] at hmem
    have hstop := xmPatterns_stop (b := b) (u16le b 70) (60 + u32le b 60)
    split at hmem
    · simp at hmem
    next pos hpos =>
      obtain ⟨⟨pats, pos'⟩, hpats, rfl⟩ := Option.map_eq_some_iff.1 (hstop.trans hpos)
      obtain ⟨hindex, hget⟩ := @xmSlotsFrom_key _ _ _ _ ⟨[], []⟩ rfl s hmem
      refine ⟨hindex, ?_⟩
      rw [seekOffset, hpats, Option.bind_some]
      show ((xmSamples b _ pos' ⟨[], []⟩).offsets[s.index - 1]?).join = _
      rw [hget]
      rfl
  | mo3 => simp [SLOT_EXTRACTORS] at hmem

/-- The tables speak of the offsets of samples; that of sample `i` is the offset of slot `i + 1`, where that is found, and
joins to it, or to the last of the slots that have the same PCM. -/
theorem join_key (h : sampleSlots b hint = some (format, slots)) (ht : computeSeekTables b format = some tables) :
    tables.From (seekOffset b format) ∧ ∀ s ∈ slots, 0 < s.index ∧ seekOffset b format (s.index - 1) = some s.offset ∧
      ∃ t ∈ slots, t.offset = s.offset ∧ idxByOffset slots s.offset = some t.index ∧ (LastAt slots s → t = s) := by
  have hslots := sampleSlots_indexed h
  refine ⟨tables_from ht, fun s hs => ?_⟩
  obtain ⟨hindex, hoffset⟩ := slot_key h ht hs
  refine ⟨hindex, hoffset, ?_⟩
  have hsome : (idxByOffset slots s.offset).isSome := by
    rw [idxByOffset, Option.isSome_map, List.find?_isSome]
    exact ⟨s, List.mem_reverse.2 hs, beq_self_eq_true _⟩
  obtain ⟨i, hi⟩ := Option.isSome_iff_exists.1 hsome
  obtain ⟨t, ht, hoff, rfl, hlast⟩ := idxByOffset_some hslots hi
  exact ⟨t, ht, hoff, hi, fun hslast =>
    eq_of_index hslots ht hs (Nat.le_antisymm (hslast t ht hoff) (hlast s hs hoff.symm))⟩

end

/-- Both samples of `sharedS3m` are at the offset that its tables use. -/
theorem join_key_sharedS3m : seekOffset sharedS3m .s3m 0 = some (sharedSlot 1).offset ∧
    seekOffset sharedS3m .s3m 1 = some (sharedSlot 2).offset := by
  obtain ⟨tables, htables, -⟩ := Option.map_eq_some_iff.1 seekTables_sharedS3m
  have hkey := (join_key sharedS3m_slots htables).2
  exact ⟨(hkey (sharedSlot 1) (by simp)).2.1, (hkey (sharedSlot 2) (by simp)).2.1⟩

end TrackerStream
