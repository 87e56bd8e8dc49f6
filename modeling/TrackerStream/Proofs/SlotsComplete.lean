import TrackerStream.DagV3
import TrackerStream.Proofs.Slots

/-!
# Which IT samples `sampleSlots` finds

A compressed slot's length is that of its decoded PCM, and the last filter takes it for a length in the file. So a compressed
sample is found exactly when its PCM, were it stored at its pointer, would end inside the file (`slots_complete_iff`).
-/

namespace TrackerStream

/-- The flags, frames and pointer of the IT sample header at `so`. -/
def itFlags (b : Bytes) (so : Nat) : Nat := at0 b (so + 0x12)
def itFrames (b : Bytes) (so : Nat) : Nat := u32le b (so + 0x30)
def itPointer (b : Bytes) (so : Nat) : Nat := u32le b (so + 0x48)

def itCompressed (b : Bytes) (so : Nat) : Bool := hasBit (itFlags b so) 8
def itBitDepth (b : Bytes) (so : Nat) : Nat := if hasBit (itFlags b so) 2 then 16 else 8
def itChannels (b : Bytes) (so : Nat) : Nat := if hasBit (itFlags b so) 4 then 2 else 1
def itDecodedBytes (b : Bytes) (so : Nat) : Nat := itFrames b so * (itBitDepth b so / 8) * itChannels b so

/-- Sample header `i` is at `so`, in the file, and describes data there. -/
structure ItSample (b : Bytes) (i so : Nat) : Prop where
  listed : (itHeaderOffsets b)[i]? = some so
  header : so ≠ 0 ∧ so + 0x50 ≤ b.length
  associated : hasBit (itFlags b so) 1 = true
  frames : itFrames b so ≠ 0
  pointer : itPointer b so ≠ 0
  stored : if itCompressed b so = true then
      (itCompressedSpan b (itPointer b so) (itFrames b so) (itBitDepth b so) (itChannels b so)).isSome = true
    else itPointer b so < b.length

/-- The header has one slot, and that says whether the sample is compressed. -/
def Listed (b : Bytes) (slots : List SampleSlot) (i so : Nat) : Prop :=
  ∃ s, slots.filter (fun s => s.index = i + 1) = [s] ∧ s.compressed = itCompressed b so

/-- The two bakes that take no compressed samples turn the file away. -/
def TurnedAway (b : Bytes) : Prop :=
  (∀ c decoded cdc, buildDagV3 c b decoded cdc = .error (.thrown "v3: module has compressed sample(s) — route to v1")) ∧
    ∀ c lib decoded cdc, buildDagV4 c lib b decoded cdc =
      .error (.thrown "v4: module has compressed sample(s) — route to v1")

variable {b : Bytes} {i so : Nat} {hint : Option Format} {format : Format} {slots : List SampleSlot}

theorem itDecodedBytes_pos (h : itFrames b so ≠ 0) : 0 < itDecodedBytes b so := by
  rw [itDecodedBytes, itBitDepth, itChannels]
  split <;> split <;> omega

/-- The slot of a sample in the file. -/
theorem ItSample.itSlot (h : ItSample b i so) : ∃ s, itSlot b i so = some s ∧ s.index = i + 1 ∧
    s.compressed = itCompressed b so ∧ s.offset = itPointer b so ∧ 0 < s.length ∧
    s.length =
      if itCompressed b so = true then itDecodedBytes b so else min (itDecodedBytes b so) (b.length - itPointer b so) := by
  have hpos := itDecodedBytes_pos h.frames
  have hheader : ¬(so = 0 ∨ so + 0x50 > b.length) := by
    rintro (hzero | hpast)
    · exact h.header.1 hzero
    · exact absurd h.header.2 (by omega)
  have hflags : ¬((!hasBit (at0 b (so + 0x12)) 1) = true ∨ u32le b (so + 0x30) = 0 ∨ u32le b (so + 0x48) = 0) := by
    rintro (hflag | hframes | hpointer)
    · simp [show hasBit (at0 b (so + 0x12)) 1 = true from h.associated] at hflag
    · exact h.frames hframes
    · exact h.pointer hpointer
  have hstored := h.stored
  rw [TrackerStream.itSlot, if_neg hheader]
  simp only
  rw [if_neg hflags]
  by_cases hc : itCompressed b so = true
  · rw [if_pos (show hasBit (at0 b (so + 0x12)) 8 = true from hc)]
    exact ⟨_, if_pos hpos, rfl, hc.symm, rfl, hpos, (if_pos hc).symm⟩
  · rw [if_neg hc] at hstored
    have hbytes : 0 < min (itDecodedBytes b so) (b.length - itPointer b so) := by omega
    rw [if_neg (show ¬hasBit (at0 b (so + 0x12)) 8 = true from hc)]
    exact ⟨_, if_pos hbytes, rfl, (Bool.eq_false_of_not_eq_true hc).symm, rfl, hbytes, (if_neg hc).symm⟩

/-- Where the indices rise, a slot is the only one with its index. -/
theorem filter_index_iff {s : SampleSlot} {n : Nat} (h : slots.Pairwise fun s t => s.index < t.index) :
    slots.filter (fun t => t.index = n) = [s] ↔ s ∈ slots ∧ s.index = n := by
  have hmem : s ∈ slots.filter (fun t => t.index = n) ↔ s ∈ slots ∧ s.index = n := by
    rw [List.mem_filter, decide_eq_true_eq]
  constructor
  · exact fun hs => hmem.1 (hs ▸ List.mem_singleton_self s)
  · intro hs
    obtain ⟨l, r, hlr⟩ := List.append_of_mem (hmem.2 hs)
    have hpair := h.filter (fun t => t.index = n)
    have hidx : ∀ t ∈ slots.filter (fun t => t.index = n), t.index = n := fun t ht => by simpa using (List.mem_filter.1 ht).2
    rw [hlr] at hpair hidx ⊢
    obtain ⟨-, hright, hleft⟩ := List.pairwise_append.1 hpair
    have hl : l = [] := by
      rw [List.eq_nil_iff_forall_not_mem]
      intro t ht
      have hlt := hleft t ht s List.mem_cons_self
      rw [hs.2, hidx t (by simp [ht])] at hlt
      exact absurd hlt (lt_irrefl n)
    have hr : r = [] := by
      rw [List.eq_nil_iff_forall_not_mem]
      intro t ht
      have hlt := (List.pairwise_cons.1 hright).1 t ht
      rw [hs.2, hidx t (by simp [ht])] at hlt
      exact absurd hlt (lt_irrefl n)
    rw [hl, hr, List.nil_append]

theorem sampleSlots_it (h : sampleSlots b hint = some (format, slots)) (hit : format = .it ∨ format = .mptm) :
    slots = (itLikeSlots b).filter fun s => s.length > 0 ∧ s.stop ≤ b.length := by
  unfold sampleSlots at h
  split at h
  · cases h
  · cases h
    rcases hit with rfl | rfl <;> rfl

theorem mem_itLikeSlots {s : SampleSlot} :
    s ∈ itLikeSlots b ↔ ∃ i so, (itHeaderOffsets b)[i]? = some so ∧ itSlot b i so = some s := by
  rw [itLikeSlots, List.mem_filterMap]
  constructor
  · rintro ⟨⟨so, i⟩, hmem, hs⟩
    exact ⟨i, so, List.mem_zipIdx_iff_getElem?.1 hmem, hs⟩
  · rintro ⟨i, so, hget, hs⟩
    exact ⟨(so, i), List.mem_zipIdx_iff_getElem?.2 hget, hs⟩

/-- A sample in the file is listed exactly when its slot ends inside the file. -/
theorem ItSample.listed_iff (hs : ItSample b i so) (h : sampleSlots b hint = some (format, slots))
    (hit : format = .it ∨ format = .mptm) :
    Listed b slots i so ↔ (itCompressed b so = true → itPointer b so + itDecodedBytes b so ≤ b.length) := by
  obtain ⟨s, hslot, hindex, hcomp, hoffset, hpos, hlength⟩ := hs.itSlot
  have hstop : s.stop ≤ b.length ↔ (itCompressed b so = true → itPointer b so + itDecodedBytes b so ≤ b.length) := by
    rw [SampleSlot.stop, hoffset, hlength]
    have hstored := hs.stored
    split
    next hc => exact ⟨fun hle _ => hle, fun hle => hle hc⟩
    next hc =>
      rw [if_neg hc] at hstored
      exact ⟨fun _ hc' => absurd hc' hc, fun _ => by omega⟩
  have hmem : s ∈ slots ↔ s.stop ≤ b.length := by
    rw [sampleSlots_it h hit, List.mem_filter, decide_eq_true_eq, mem_itLikeSlots]
    exact ⟨fun hin => hin.2.2, fun hle => ⟨⟨i, so, hs.listed, hslot⟩, hpos, hle⟩⟩
  rw [← hstop, ← hmem]
  constructor
  · rintro ⟨t, ht, -⟩
    obtain ⟨htmem, htindex⟩ := (filter_index_iff (sampleSlots_indexed h)).1 ht
    rw [sampleSlots_it h hit, List.mem_filter, mem_itLikeSlots] at htmem
    obtain ⟨⟨j, so', hget, htslot⟩, -⟩ := htmem
    obtain rfl : j = i := by
      have := itSlot_index htslot
      omega
    obtain rfl : so' = so := Option.some.inj (hget.symm.trans hs.listed)
    obtain rfl : t = s := Option.some.inj (htslot.symm.trans hslot)
    exact ((filter_index_iff (sampleSlots_indexed h)).1 ht).1
  · exact fun hin => ⟨s, (filter_index_iff (sampleSlots_indexed h)).2 ⟨hin, hindex⟩, hcomp⟩

/-- A compressed sample that is listed turns the file away. -/
theorem Listed.turnedAway (hs : Listed b slots i so) (hc : itCompressed b so = true)
    (h : sampleSlots b none = some (format, slots)) : TurnedAway b := by
  obtain ⟨s, hfilter, hcomp⟩ := hs
  have hmem : s ∈ slots := (List.mem_filter.1 (hfilter ▸ List.mem_singleton_self s)).1
  have hany : slots.any (fun s => s.compressed) = true := List.any_eq_true.2 ⟨s, hmem, hcomp.trans hc⟩
  have hparse : ∀ v, parseV3 v b = .error (.thrown s!"v{v}: module has compressed sample(s) — route to v1") := by
    intro v
    rw [parseV3, h]
    simp only
    rw [if_pos hany]
  refine ⟨fun c decoded cdc => ?_, fun c lib decoded cdc => ?_⟩
  · rw [buildDagV3, hparse]
    rfl
  · rw [buildDagV4, hparse]
    rfl

/-- Every sample in the file is listed, and one that is compressed turns the file away, exactly when the PCM of the
compressed ones would end inside the file. -/
theorem slots_complete_iff (h : sampleSlots b hint = some (format, slots)) (hit : format = .it ∨ format = .mptm) :
    ((∀ i so, ItSample b i so → Listed b slots i so) ∧
        (hint = none → ∀ i so, ItSample b i so → itCompressed b so = true → TurnedAway b)) ↔
      ∀ i so, ItSample b i so → itCompressed b so = true → itPointer b so + itDecodedBytes b so ≤ b.length := by
  constructor
  · exact fun hall i so hs => (hs.listed_iff h hit).1 (hall.1 i so hs)
  · intro hall
    refine ⟨fun i so hs => (hs.listed_iff h hit).2 (hall i so hs), fun hnone i so hs hc => ?_⟩
    subst hnone
    exact ((hs.listed_iff h hit).2 (hall i so hs)).turnedAway hc h

/-- An IT file with one compressed sample of `frames` frames, in four bytes. -/
def packedIt (frames : UInt8) : Bytes :=
  [0x49, 0x4d, 0x50, 0x4d] ++ List.replicate 32 0 ++ [1] ++ List.replicate 155 0 ++ [0xc4, 0, 0, 0] ++
    [0x49, 0x4d, 0x50, 0x53] ++ List.replicate 14 0 ++ [9] ++ List.replicate 29 0 ++ [frames, 0, 0, 0] ++
    List.replicate 20 0 ++ [0x14, 1, 0, 0] ++ List.replicate 4 0 ++ [2, 0, 7, 7]

/-- Four frames in four bytes are found. -/
theorem slots_complete_four : ∃ slots, sampleSlots (packedIt 4) none = some (.it, slots) ∧
    (∀ i so, ItSample (packedIt 4) i so → Listed (packedIt 4) slots i so) ∧
    ∀ i so, ItSample (packedIt 4) i so → itCompressed (packedIt 4) so = true → TurnedAway (packedIt 4) := by
  have hslots : ∃ slots, sampleSlots (packedIt 4) none = some (.it, slots) := by
    refine ⟨[⟨1, 0x114, 4, 8, 1, true, some 0xc4, some 4⟩], ?_⟩
    decide +kernel
  have hlist : itHeaderOffsets (packedIt 4) = [0xc4] := by decide
  have hstop : itPointer (packedIt 4) 0xc4 + itDecodedBytes (packedIt 4) 0xc4 ≤ (packedIt 4).length := by decide +kernel
  obtain ⟨slots, hslots⟩ := hslots
  obtain ⟨hlisted, haway⟩ := (slots_complete_iff hslots (.inl rfl)).2 fun i so hs _ => by
    have hget := hs.listed
    rw [hlist] at hget
    obtain ⟨hi, rfl⟩ := List.getElem?_eq_some_iff.1 hget
    obtain rfl : i = 0 := by simpa using hi
    exact hstop
  exact ⟨slots, hslots, hlisted, haway rfl⟩

theorem itSample_iff : ItSample b i so ↔ (itHeaderOffsets b)[i]? = some so ∧ (so ≠ 0 ∧ so + 0x50 ≤ b.length) ∧
    hasBit (itFlags b so) 1 = true ∧ itFrames b so ≠ 0 ∧ itPointer b so ≠ 0 ∧
    if itCompressed b so = true then
      (itCompressedSpan b (itPointer b so) (itFrames b so) (itBitDepth b so) (itChannels b so)).isSome = true
    else itPointer b so < b.length := by
  constructor
  · exact fun h => ⟨h.listed, h.header, h.associated, h.frames, h.pointer, h.stored⟩
  · rintro ⟨h₁, h₂, h₃, h₄, h₅, h₆⟩
    exact ⟨h₁, h₂, h₃, h₄, h₅, h₆⟩

instance : Decidable (ItSample b i so) := decidable_of_iff _ itSample_iff.symm

/-- A hundred are not: the sample is in the file, but there is no slot, and no bake takes the file for a compressed one. -/
theorem slots_incomplete : ItSample (packedIt 100) 0 0xc4 ∧ itCompressed (packedIt 100) 0xc4 = true ∧
    sampleSlots (packedIt 100) none = some (.it, []) ∧ ¬Listed (packedIt 100) [] 0 0xc4 ∧
    ∀ v, parseV3 v (packedIt 100) = .ok (.it, []) := by
  have hslots : sampleSlots (packedIt 100) none = some (.it, []) := by decide +kernel
  refine ⟨by decide +kernel, by decide +kernel, hslots, ?_, fun v => ?_⟩
  · rintro ⟨s, hs, -⟩
    simp at hs
  · rw [parseV3, hslots]
    rfl

end TrackerStream
