import TrackerStream.Parse

/-!
# What every sample slot is like

Whatever the file holds, a slot that `sampleSlots` gives is mono or stereo at 8 or 16 bit, lies inside the
file, and has an index that fits 32 bits (`sampleSlots_wellFormed`).
-/

namespace TrackerStream

/-- The data of a slot that no format leaves out of range; `bound` limits the index. -/
structure SampleSlot.WellFormed (bound : Nat) (s : SampleSlot) : Prop where
  index_le : s.index ≤ bound
  bitDepth : s.bitDepth = 8 ∨ s.bitDepth = 16
  channels : s.channels = 1 ∨ s.channels = 2
  /-- Only an IT header describes a compressed sample. -/
  header : s.compressed = true → s.headerOffset.isSome

theorem SampleSlot.WellFormed.mono {bound bound' : Nat} {s : SampleSlot} (h : s.WellFormed bound) (hle : bound ≤ bound') :
    s.WellFormed bound' :=
  { h with index_le := Nat.le_trans h.index_le hle }

theorem wellFormed_raw {index offset length bitDepth channels : Nat} (hd : bitDepth = 8 ∨ bitDepth = 16)
    (hc : channels = 1 ∨ channels = 2) : (SampleSlot.mk index offset length bitDepth channels false none none).WellFormed index :=
  ⟨Nat.le_refl _, hd, hc, by simp⟩

theorem bitDepth_of_flag (p : Bool) : (if p = true then 16 else 8) = 8 ∨ (if p = true then 16 else 8) = 16 := by
  cases p <;> simp

theorem channels_of_flag (p : Bool) : (if p = true then 2 else 1) = 1 ∨ (if p = true then 2 else 1) = 2 := by
  cases p <;> simp

theorem modSlotsFrom_wellFormed {fileLen : Nat} {ns : List Nat} {i off : Nat} :
    ∀ s ∈ modSlotsFrom fileLen ns i off, s.WellFormed (i + ns.length) := by
  induction ns generalizing i off with
  | nil => simp [modSlotsFrom]
  | cons n ns ih =>
    intro s hs
    have hbound : i + 1 + ns.length = i + (n :: ns).length := by rw [List.length_cons]; omega
    have hfound : ∀ length, s ∈ (if length > 0 then
        [({ index := i + 1, offset := off, length, bitDepth := 8, channels := 1 } : SampleSlot)] else []) →
        s.WellFormed (i + (n :: ns).length) := by
      intro length hmem
      split at hmem
      · rw [List.mem_singleton.1 hmem]
        exact (wellFormed_raw (.inl rfl) (.inl rfl)).mono (by omega)
      · simp at hmem
    unfold modSlotsFrom at hs
    split at hs
    · exact hbound ▸ ih s hs
    · dsimp only at hs
      split at hs
      · exact hfound _ hs
      · rcases List.mem_append.1 hs with hs | hs
        · exact hfound _ hs
        · exact hbound ▸ ih s hs

theorem itSlot_wellFormed {b : Bytes} {i so : Nat} {s : SampleSlot} (h : itSlot b i so = some s) : s.WellFormed (i + 1) := by
  have hd := bitDepth_of_flag (hasBit (at0 b (so + 0x12)) 2)
  have hc := channels_of_flag (hasBit (at0 b (so + 0x12)) 4)
  simp only [itSlot] at h
  generalize (if hasBit (at0 b (so + 0x12)) 2 = true then 16 else 8) = bitDepth at h hd
  generalize (if hasBit (at0 b (so + 0x12)) 4 = true then 2 else 1) = channels at h hc
  split at h
  · cases h
  split at h
  · cases h
  split at h
  · split at h
    · cases h
      exact ⟨Nat.le_refl _, hd, hc, fun _ => rfl⟩
    · cases h
  · split at h
    · cases h
      exact wellFormed_raw hd hc
    · cases h

theorem s3mSlot_wellFormed {b : Bytes} {i pp : Nat} {s : SampleSlot} (h : s3mSlot b i pp = some s) :
    s.WellFormed (i + 1) := by
  have hd := bitDepth_of_flag (hasBit (at0 b (pp * 16 + 0x1f)) 4)
  have hc := channels_of_flag (hasBit (at0 b (pp * 16 + 0x1f)) 2)
  simp only [s3mSlot] at h
  generalize (if hasBit (at0 b (pp * 16 + 0x1f)) 4 = true then 16 else 8) = bitDepth at h hd
  generalize (if hasBit (at0 b (pp * 16 + 0x1f)) 2 = true then 2 else 1) = channels at h hc
  split at h
  · cases h
  split at h
  · cases h
  split at h
  · cases h
    exact wellFormed_raw hd hc
  · cases h

/-- Numbering a list of 16-bit length and keeping what `read` accepts. -/
theorem zipIdx_wellFormed {xs : List Nat} (read : Nat → Nat → Option SampleSlot)
    (hread : ∀ x i s, read i x = some s → s.WellFormed (i + 1)) :
    ∀ s ∈ xs.zipIdx.filterMap (fun (x, i) => read i x), s.WellFormed xs.length := by
  intro s hs
  obtain ⟨⟨x, i⟩, hmem, hsome⟩ := List.mem_filterMap.1 hs
  have hi : i < xs.length := by
    have := List.mem_zipIdx hmem
    omega
  exact (hread x i s hsome).mono hi

theorem xmMeta_spec (b : Bytes) (shSize n hdr : Nat) :
    (xmMeta b shSize n hdr).1.length ≤ n ∧ ∀ m ∈ (xmMeta b shSize n hdr).1, m.2 = 8 ∨ m.2 = 16 := by
  induction n generalizing hdr with
  | zero => simp [xmMeta]
  | succ n ih =>
    unfold xmMeta
    split
    · simp
    · obtain ⟨hlen, hall⟩ := ih (hdr + shSize)
      refine ⟨by simpa using hlen, fun m hm => ?_⟩
      rcases List.mem_cons.1 hm with rfl | hm
      · dsimp only
        split <;> simp
      · exact hall m hm

theorem xmPayloadSlots_wellFormed {fileLen : Nat} {ms : List (Nat × Nat)} (h : ∀ m ∈ ms, m.2 = 8 ∨ m.2 = 16)
    (slot data : Nat) : ∀ s ∈ xmPayloadSlots fileLen ms slot data, s.WellFormed (slot + ms.length) := by
  induction ms generalizing slot data with
  | nil => simp [xmPayloadSlots]
  | cons m ms ih =>
    intro s hs
    have hbound : slot + 1 + ms.length = slot + (m :: ms).length := by rw [List.length_cons]; omega
    have htail := fun data' hmem => hbound ▸ ih (fun m hm => h m (by simp [hm])) (slot + 1) data' s hmem
    unfold xmPayloadSlots at hs
    split at hs
    · rcases List.mem_cons.1 hs with rfl | hs
      · exact (wellFormed_raw (h m (by simp)) (.inl rfl)).mono (by omega)
      · exact htail _ hs
    · exact htail _ hs

theorem xmSlotsFrom_wellFormed {b : Bytes} {nins slot pos : Nat} :
    ∀ s ∈ xmSlotsFrom b nins slot pos, s.WellFormed (slot + nins * (2 ^ 16 - 1)) := by
  induction nins generalizing slot pos with
  | zero => simp [xmSlotsFrom]
  | succ nins ih =>
    intro s hs
    have hnum := u16le_lt b (pos + 27)
    simp only [xmSlotsFrom] at hs
    split at hs
    · simp at hs
    split at hs
    · exact (ih s hs).mono (by omega)
    · obtain ⟨hlen, hdepth⟩ := xmMeta_spec b (u32le b (pos + 29)) (u16le b (pos + 27)) (pos + u32le b pos)
      rcases List.mem_append.1 hs with hs | hs
      · exact (xmPayloadSlots_wellFormed hdepth _ _ s hs).mono (by omega)
      · exact (ih s hs).mono (by omega)

theorem SLOT_EXTRACTORS_wellFormed {b : Bytes} {format : Format} :
    ∀ s ∈ SLOT_EXTRACTORS format b, s.WellFormed ((2 ^ 16 - 1) * (2 ^ 16 - 1)) := by
  have hit : ∀ s ∈ itLikeSlots b, s.WellFormed ((2 ^ 16 - 1) * (2 ^ 16 - 1)) := fun s hs => by
    have hlen : (itHeaderOffsets b).length < 2 ^ 16 := by
      simp only [itHeaderOffsets, List.length_map, List.length_range]
      exact u16le_lt _ _
    exact (zipIdx_wellFormed (itSlot b) (fun _ _ _ => itSlot_wellFormed) s hs).mono (by omega)
  intro s hs
  cases format with
  | mod =>
    simp only [SLOT_EXTRACTORS, modSlots] at hs
    split at hs
    · simp at hs
    · exact (modSlotsFrom_wellFormed s hs).mono (by simp [modLengths])
  | it => exact hit s hs
  | mptm => exact hit s hs
  | s3m =>
    have hlen : (s3mParapointers b).length < 2 ^ 16 := by
      simp only [s3mParapointers, List.length_map, List.length_range]
      exact u16le_lt _ _
    exact (zipIdx_wellFormed (s3mSlot b) (fun _ _ _ => s3mSlot_wellFormed) s hs).mono (by omega)
  | xm =>
    simp only [SLOT_EXTRACTORS, xmSlots] at hs
    split at hs
    · simp at hs
    · have hnins := u16le_lt b 72
      refine (xmSlotsFrom_wellFormed s hs).mono ?_
      rw [Nat.zero_add]
      exact Nat.mul_le_mul_right _ (by omega)
  | mo3 => simp [SLOT_EXTRACTORS] at hs

/-- A slot found in a file. -/
structure SampleSlot.InFile (fileLen : Nat) (s : SampleSlot) : Prop extends s.WellFormed (2 ^ 32 - 1) where
  length_pos : 0 < s.length
  stop_le : s.stop ≤ fileLen

theorem sampleSlots_inFile {b : Bytes} {hint : Option Format} {format : Format} {slots : List SampleSlot}
    (h : sampleSlots b hint = some (format, slots)) : ∀ s ∈ slots, s.InFile b.length := by
  unfold sampleSlots at h
  split at h
  · cases h
  · cases h
    intro s hs
    obtain ⟨hmem, hin⟩ := List.mem_filter.1 hs
    simp only [decide_eq_true_eq] at hin
    exact ⟨(SLOT_EXTRACTORS_wellFormed s hmem).mono (by decide), hin.1, hin.2⟩

/-! ### Indices -/

/-- The slots have indices above `lo`, and each a greater one than those before it. -/
def IndexedFrom (lo : Nat) (slots : List SampleSlot) : Prop :=
  (∀ s ∈ slots, lo < s.index) ∧ slots.Pairwise fun s t => s.index < t.index

theorem IndexedFrom.nil (lo : Nat) : IndexedFrom lo [] := ⟨by simp, .nil⟩

theorem IndexedFrom.mono {lo lo' : Nat} {slots : List SampleSlot} (h : IndexedFrom lo slots) (hle : lo' ≤ lo) :
    IndexedFrom lo' slots := ⟨fun s hs => Nat.lt_of_le_of_lt hle (h.1 s hs), h.2⟩

theorem IndexedFrom.append {lo mid : Nat} {ss ts : List SampleSlot} (hs : IndexedFrom lo ss) (ht : IndexedFrom mid ts)
    (hmid : ∀ s ∈ ss, s.index ≤ mid) (hlo : lo ≤ mid) : IndexedFrom lo (ss ++ ts) :=
  ⟨fun s h => (List.mem_append.1 h).elim (hs.1 s) fun h => Nat.lt_of_le_of_lt hlo (ht.1 s h),
    List.pairwise_append.2 ⟨hs.2, ht.2, fun s h t h' => Nat.lt_of_le_of_lt (hmid s h) (ht.1 t h')⟩⟩

theorem IndexedFrom.single {lo : Nat} {s : SampleSlot} (h : lo < s.index) : IndexedFrom lo [s] :=
  ⟨by simpa using h, List.pairwise_singleton _ _⟩

theorem modSlotsFrom_indexed (fileLen : Nat) (ns : List Nat) (i off : Nat) :
    IndexedFrom i (modSlotsFrom fileLen ns i off) := by
  induction ns generalizing i off with
  | nil => exact .nil i
  | cons n ns ih =>
    have hfound : ∀ length, IndexedFrom i (if length > 0 then
        [({ index := i + 1, offset := off, length, bitDepth := 8, channels := 1 } : SampleSlot)] else []) := by
      intro length
      split
      · exact .single (Nat.lt_succ_self i)
      · exact .nil i
    unfold modSlotsFrom
    split
    · exact (ih (i + 1) off).mono (Nat.le_succ i)
    dsimp only
    split
    · exact hfound _
    · refine (hfound _).append (ih (i + 1) (off + n)) (fun s hs => ?_) (Nat.le_succ i)
      split at hs
      · rw [List.mem_singleton.1 hs]
      · simp at hs

theorem zipIdx_indexed {xs : List Nat} (read : Nat → Nat → Option SampleSlot)
    (hread : ∀ x i s, read i x = some s → s.index = i + 1) :
    IndexedFrom 0 (xs.zipIdx.filterMap fun (x, i) => read i x) := by
  refine ⟨fun s hs => ?_, ?_⟩
  · obtain ⟨⟨x, i⟩, -, hsome⟩ := List.mem_filterMap.1 hs
    rw [hread x i s hsome]
    exact Nat.succ_pos i
  · have hpos : xs.zipIdx.Pairwise fun a b => a.2 < b.2 := by
      rw [List.zipIdx_eq_zip_range', List.pairwise_iff_getElem]
      intro i j hi hj hlt
      simpa using hlt
    refine hpos.filterMap _ fun a b hlt s hs t ht => ?_
    rw [hread _ _ _ hs, hread _ _ _ ht]
    exact Nat.succ_lt_succ hlt

theorem itSlot_index {b : Bytes} {i so : Nat} {s : SampleSlot} (h : itSlot b i so = some s) : s.index = i + 1 := by
  simp only [itSlot] at h
  repeat' split at h
  all_goals cases h
  all_goals rfl

theorem s3mSlot_index {b : Bytes} {i pp : Nat} {s : SampleSlot} (h : s3mSlot b i pp = some s) : s.index = i + 1 := by
  simp only [s3mSlot] at h
  repeat' split at h
  all_goals cases h
  all_goals rfl

theorem xmPayloadSlots_indexed (fileLen : Nat) (ms : List (Nat × Nat)) (slot data : Nat) :
    IndexedFrom slot (xmPayloadSlots fileLen ms slot data) ∧
      ∀ s ∈ xmPayloadSlots fileLen ms slot data, s.index ≤ slot + ms.length := by
  induction ms generalizing slot data with
  | nil => exact ⟨.nil slot, by simp [xmPayloadSlots]⟩
  | cons m ms ih =>
    obtain ⟨hidx, hle⟩ := ih (slot + 1) (data + m.1)
    rw [List.length_cons]
    unfold xmPayloadSlots
    split
    · refine ⟨IndexedFrom.append (.single (Nat.lt_succ_self slot)) hidx (by simp) (Nat.le_succ slot), fun s hs => ?_⟩
      rcases List.mem_cons.1 hs with rfl | hs
      · dsimp only
        omega
      · have := hle s hs
        omega
    · exact ⟨hidx.mono (Nat.le_succ slot), fun s hs => by have := hle s hs; omega⟩

theorem xmSlotsFrom_indexed (b : Bytes) (nins slot pos : Nat) : IndexedFrom slot (xmSlotsFrom b nins slot pos) := by
  induction nins generalizing slot pos with
  | zero => exact .nil slot
  | succ nins ih =>
    simp only [xmSlotsFrom]
    split
    · exact .nil slot
    split
    · exact ih slot _
    · obtain ⟨hidx, hle⟩ := xmPayloadSlots_indexed b.length
        (xmMeta b (u32le b (pos + 29)) (u16le b (pos + 27)) (pos + u32le b pos)).1 slot
        (xmMeta b (u32le b (pos + 29)) (u16le b (pos + 27)) (pos + u32le b pos)).2
      exact hidx.append (ih _ _) hle (Nat.le_add_right _ _)

/-- The slots of a file come in the order of their indices. -/
theorem sampleSlots_indexed {b : Bytes} {hint : Option Format} {format : Format} {slots : List SampleSlot}
    (h : sampleSlots b hint = some (format, slots)) : slots.Pairwise fun s t => s.index < t.index := by
  unfold sampleSlots at h
  split at h
  · cases h
  cases h
  refine List.Pairwise.filter _ ?_
  cases format with
  | mod =>
    simp only [SLOT_EXTRACTORS, modSlots]
    split
    · exact .nil
    · exact (modSlotsFrom_indexed _ _ _ _).2
  | it => exact (zipIdx_indexed (itSlot b) fun _ _ _ => itSlot_index).2
  | mptm => exact (zipIdx_indexed (itSlot b) fun _ _ _ => itSlot_index).2
  | s3m => exact (zipIdx_indexed (s3mSlot b) fun _ _ _ => s3mSlot_index).2
  | xm =>
    simp only [SLOT_EXTRACTORS, xmSlots]
    split
    · exact .nil
    · exact (xmSlotsFrom_indexed _ _ _ _).2
  | mo3 => exact .nil

end TrackerStream
