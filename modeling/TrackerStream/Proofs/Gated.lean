import TrackerStream.Proofs.PlanComplete

/-!
# What is streamed and what is gated

The final plan of a v2 bake lists streamed slots only, in checkpoints that are not empty, and every compressed one of
them. The skeleton clears and repoints the headers of those; a slot that has the same header as a streamed one is not
streamed itself, as the map from offsets keeps one of the two, but its header is rewritten too (`gated_iff`).
-/

namespace TrackerStream

/-- The headers that the skeleton clears and repoints. -/
def rewrittenHeaders (streamed : List SampleSlot) : List Nat :=
  (streamed.filter fun s => s.compressed).filterMap SampleSlot.headerOffset

/-- The plan of a bake that streams `streamed`: what it lists is in the manifest, and it lists what is compressed. -/
structure Fenced (d : BuiltDagV2 SampleV2) (streamed : List SampleSlot) : Prop where
  plan_sub : ∀ cp ∈ d.plan.checkpoints, ∀ i ∈ cp.samples, i ∈ d.samples.map fun s => s.index
  nonempty : ∀ cp ∈ d.plan.checkpoints, cp.samples ≠ []
  listed : ∀ s ∈ streamed, s.compressed = true → ∃ cp ∈ d.plan.checkpoints, s.index ∈ cp.samples

/-- Every slot with a rewritten header is in the manifest too. -/
structure Gated (d : BuiltDagV2 SampleV2) (slots streamed : List SampleSlot) : Prop extends Fenced d streamed where
  headers : ∀ s ∈ slots, ∀ ho ∈ s.headerOffset, ho ∈ rewrittenHeaders streamed → s.index ∈ d.samples.map fun s => s.index

/-- No other slot has the header of a compressed one that is streamed. -/
def OwnHeaders (slots streamed : List SampleSlot) : Prop :=
  ∀ t ∈ streamed, t.compressed = true → ∀ s ∈ slots, s.headerOffset = t.headerOffset → s = t

/-! ### The rewritten headers -/

/-- A byte that `repoint` writes. -/
def Touches (ho k : Nat) : Prop := k = ho + 0x12 ∨ ho + 0x48 ≤ k ∧ k < ho + 0x4c

theorem getElem?_repoint {sk : Bytes} {ho cursor k : Nat} (h : ¬Touches ho k) : (repoint sk ho cursor)[k]? = sk[k]? := by
  rw [Touches] at h
  simp only [repoint, List.getElem?_set', List.getElem?_modify]
  rw [if_neg (by omega), if_neg (by omega), if_neg (by omega), if_neg (by omega)]
  have hflag : ho + 0x12 ≠ k := by omega
  simp [hflag]

theorem getElem?_repoint_flags {sk : Bytes} {ho cursor : Nat} :
    (repoint sk ho cursor)[ho + 0x12]? = sk[ho + 0x12]?.map (· &&& 0xf7) := by
  rw [repoint]
  simp

theorem rewritten_singleton {data : Bytes} {s : SampleSlot} {ho : Nat} (hc : s.compressed = true)
    (hs : s.headerOffset = some ho) : rewritten data [s] = repoint data ho data.length := by
  simp [rewritten, rewriteHeader, hc, hs]

/-- Rewriting leaves every byte that belongs to none of the rewritten headers. -/
theorem getElem?_rewritten {data : Bytes} {streamed : List SampleSlot} {k : Nat}
    (h : ∀ ho ∈ rewrittenHeaders streamed, ¬Touches ho k) : (rewritten data streamed)[k]? = data[k]? := by
  rw [rewritten]
  rw [rewrittenHeaders] at h
  generalize streamed.filter (fun s => s.compressed) = comp at h
  suffices hall : ∀ s : Bytes × Nat, (comp.foldl rewriteHeader s).1[k]? = s.1[k]? from hall _
  induction comp with
  | nil => exact fun s => rfl
  | cons slot comp ih =>
    intro s
    rw [List.foldl_cons, ih fun ho hho => h ho (List.mem_filterMap.2 ?_)]
    · rw [rewriteHeader]
      cases hslot : slot.headerOffset with
      | none => rfl
      | some ho => exact getElem?_repoint (h ho (List.mem_filterMap.2 ⟨slot, List.mem_cons_self, hslot⟩))
    · obtain ⟨t, ht, hto⟩ := List.mem_filterMap.1 hho
      exact ⟨t, List.mem_cons_of_mem _ ht, hto⟩

theorem mem_rewrittenHeaders {streamed : List SampleSlot} {ho : Nat} :
    ho ∈ rewrittenHeaders streamed ↔ ∃ t ∈ streamed, t.compressed = true ∧ t.headerOffset = some ho := by
  simp [rewrittenHeaders, List.mem_filterMap, List.mem_filter, and_assoc]

/-! ### Headers of slots -/

theorem modSlotsFrom_header {fileLen : Nat} {ns : List Nat} {i off : Nat} :
    ∀ s ∈ modSlotsFrom fileLen ns i off, s.headerOffset = none := by
  induction ns generalizing i off with
  | nil => simp [modSlotsFrom]
  | cons n ns ih =>
    have hfound : ∀ length, ∀ s ∈ (if length > 0 then
        [({ index := i + 1, offset := off, length, bitDepth := 8, channels := 1 } : SampleSlot)] else []),
        s.headerOffset = none := by
      intro length s hs
      split at hs
      · rw [List.mem_singleton.1 hs]
      · simp at hs
    intro s hs
    unfold modSlotsFrom at hs
    split at hs
    · exact ih s hs
    · dsimp only at hs
      split at hs
      · exact hfound _ s hs
      · exact (List.mem_append.1 hs).elim (hfound _ s) (ih s)

theorem s3mSlot_header {b : Bytes} {i pp : Nat} {s : SampleSlot} (h : s3mSlot b i pp = some s) : s.headerOffset = none := by
  simp only [s3mSlot] at h
  repeat' split at h
  all_goals cases h
  all_goals rfl

theorem xmPayloadSlots_header {fileLen : Nat} {ms : List (Nat × Nat)} {slot data : Nat} :
    ∀ s ∈ xmPayloadSlots fileLen ms slot data, s.headerOffset = none := by
  induction ms generalizing slot data with
  | nil => simp [xmPayloadSlots]
  | cons m ms ih =>
    intro s hs
    unfold xmPayloadSlots at hs
    split at hs
    · rcases List.mem_cons.1 hs with rfl | hs
      · rfl
      · exact ih s hs
    · exact ih s hs

theorem xmSlotsFrom_header {b : Bytes} {nins slot pos : Nat} : ∀ s ∈ xmSlotsFrom b nins slot pos, s.headerOffset = none := by
  induction nins generalizing slot pos with
  | zero => simp [xmSlotsFrom]
  | succ nins ih =>
    intro s hs
    simp only [xmSlotsFrom] at hs
    split at hs
    · simp at hs
    split at hs
    · exact ih s hs
    · exact (List.mem_append.1 hs).elim (xmPayloadSlots_header s) (ih s)

theorem itSlot_header {b : Bytes} {i so ho : Nat} {s : SampleSlot} (h : itSlot b i so = some s)
    (hho : s.headerOffset = some ho) :
    s.compressed = true ∧ s.offset = u32le b (ho + 0x48) := by
  simp only [itSlot] at h
  generalize (if hasBit (at0 b (so + 0x12)) 2 = true then 16 else 8) = bitDepth at h
  generalize (if hasBit (at0 b (so + 0x12)) 4 = true then 2 else 1) = channels at h
  split at h
  · cases h
  split at h
  · cases h
  split at h
  · split at h
    · cases h
      cases hho
      exact ⟨rfl, rfl⟩
    · cases h
  · split at h
    · cases h
      cases hho
    · cases h

/-- Only a compressed slot has a header, which says where its data is. -/
theorem sampleSlots_header {b : Bytes} {hint : Option Format} {format : Format} {slots : List SampleSlot}
    {s : SampleSlot} {ho : Nat}
    (h : sampleSlots b hint = some (format, slots)) (hs : s ∈ slots) (hho : s.headerOffset = some ho) :
    s.compressed = true ∧ s.offset = u32le b (ho + 0x48) := by
  have hraw : s.headerOffset ≠ none := by simp [hho]
  have hit : s ∈ itLikeSlots b → s.compressed = true ∧ s.offset = u32le b (ho + 0x48) := by
    intro hmem
    obtain ⟨⟨so, i⟩, -, hsome⟩ := List.mem_filterMap.1 hmem
    exact itSlot_header hsome hho
  unfold sampleSlots at h
  split at h
  · cases h
  cases h
  have hmem := (List.mem_filter.1 hs).1
  cases format with
  | mod =>
    simp only [SLOT_EXTRACTORS, modSlots] at hmem
    split at hmem
    · simp at hmem
    · exact absurd (modSlotsFrom_header s hmem) hraw
  | it => exact hit hmem
  | mptm => exact hit hmem
  | s3m =>
    obtain ⟨⟨pp, i⟩, -, hsome⟩ := List.mem_filterMap.1 hmem
    exact absurd (s3mSlot_header hsome) hraw
  | xm =>
    simp only [SLOT_EXTRACTORS, xmSlots] at hmem
    split at hmem
    · simp at hmem
    · exact absurd (xmSlotsFrom_header s hmem) hraw
  | mo3 => simp [SLOT_EXTRACTORS] at hmem

/-! ### The bake -/

section Bake
variable {c : Codec} {data : Bytes} {decoded : List DecodedSample} {cdc : CdcConfig} {noCompressedStream : Bool}
  {format : Format} {slots : List SampleSlot} {d : BuiltDagV2 SampleV2}

/-- The slots that a v2 bake streams. -/
def streamedSlots (c : Codec) (data : Bytes) (decoded : List DecodedSample) (cdc : CdcConfig) (noCompressedStream : Bool)
    (format : Format) (slots : List SampleSlot) : List SampleSlot :=
  (selectV2 c data format (slots.filterMap (candidate decoded)) cdc noCompressedStream).map Candidate.slot

theorem prune_nonempty {keep : List Nat} {p : Plan} {cp : Checkpoint} (h : cp ∈ (p.prune keep).checkpoints) :
    cp.samples ≠ [] := by
  simpa using (List.mem_filter.1 h).2

theorem mem_streamedSlots {s : SampleSlot} (h : s ∈ streamedSlots c data decoded cdc noCompressedStream format slots) :
    s ∈ joinedV2 decoded slots ∧ s ∈ slots ∧ (s.compressed = true →
      (planJoin data format (joinedV2 decoded slots)).covered s.index = true) := by
  obtain ⟨cd, hcd, rfl⟩ := List.mem_map.1 h
  obtain ⟨hcand, hkeep⟩ := List.mem_filter.1 hcd
  obtain ⟨slot, hslot, hsome⟩ := List.mem_filterMap.1 hcand
  refine ⟨List.mem_map_of_mem hcand, (candidate_some hsome).1 ▸ hslot, fun hc => ?_⟩
  rw [hc] at hkeep
  simp only [Bool.not_true, Bool.false_or, Bool.and_eq_true] at hkeep
  exact hkeep.2

/-- A slot that the plan covers is the last one at its offset. -/
theorem lastAt_of_covered {joined : List SampleSlot} {s : SampleSlot} (hj : joined.Pairwise fun s t => s.index < t.index)
    (hs : s ∈ joined) (h : (planJoin data format joined).covered s.index = true) : LastAt joined s := by
  obtain ⟨cp, hcp, hmem⟩ := List.any_eq_true.1 h
  have hmem : s.index ∈ cp.samples := by simpa using hmem
  obtain ⟨offs, hoffs⟩ : ∃ offs, cp.samples = toSlots joined offs := by
    rw [planJoin] at hcp
    cases htables : computeSeekTables data format with
    | none =>
      rw [htables] at hcp
      cases hcp
    | some tables =>
      rw [htables] at hcp
      dsimp only at hcp
      split at hcp
      · obtain ⟨⟨cp', -, rfl⟩, -⟩ := mem_joinCheckpoints.1 hcp
        exact ⟨_, rfl⟩
      · split at hcp
        · cases hcp
        · rw [List.mem_singleton.1 hcp]
          exact ⟨_, rfl⟩
  rw [hoffs] at hmem
  exact ((mem_toSlots_iff hj hs).1 hmem).2

/-- The samples of a bake are the streamed slots. -/
theorem samples_index (h : buildDagV2 c data decoded cdc noCompressedStream = .ok d)
    (hparse : sampleSlots data none = some (format, slots)) :
    d.samples.map (fun s => s.index) =
        (streamedSlots c data decoded cdc noCompressedStream format slots).map (fun s => s.index) ∧
      d.plan = (planJoin data format (joinedV2 decoded slots)).prune
        ((streamedSlots c data decoded cdc noCompressedStream format slots).map fun s => s.index) := by
  obtain ⟨format', slots', hparse', rfl⟩ := buildDagV2_ok h
  obtain ⟨rfl, rfl⟩ : format' = format ∧ slots' = slots := by simpa using hparse'.symm.trans hparse
  rw [streamedSlots, List.map_map]
  refine ⟨?_, rfl⟩
  show List.map _ (List.map _ _) = _
  rw [List.map_map]
  rfl

theorem fenced (h : buildDagV2 c data decoded cdc noCompressedStream = .ok d)
    (hparse : sampleSlots data none = some (format, slots)) :
    Fenced d (streamedSlots c data decoded cdc noCompressedStream format slots) := by
  obtain ⟨hsamples, hplan⟩ := samples_index h hparse
  refine ⟨fun cp hcp i hi => ?_, fun cp hcp => ?_, fun s hs hc => ?_⟩
  · rw [hplan] at hcp
    rw [hsamples]
    exact mem_prune hcp i hi
  · rw [hplan] at hcp
    exact prune_nonempty hcp
  · obtain ⟨cp, hcp, hin⟩ := List.any_eq_true.1 ((mem_streamedSlots hs).2.2 hc)
    have hlists : (planJoin data format (joinedV2 decoded slots)).Lists cp.order s.index :=
      ⟨cp, hcp, rfl, by simpa using hin⟩
    obtain ⟨cp', hcp', -, hin'⟩ := (lists_prune (List.mem_map_of_mem hs)).2 hlists
    exact ⟨cp', hplan ▸ hcp', hin'⟩

/-- Of two streamed compressed slots each has a header of its own. -/
theorem eq_of_header (hparse : sampleSlots data none = some (format, slots)) {s t : SampleSlot} {ho : Nat}
    (hs : s ∈ streamedSlots c data decoded cdc noCompressedStream format slots)
    (ht : t ∈ streamedSlots c data decoded cdc noCompressedStream format slots) (hsho : s.headerOffset = some ho)
    (htho : t.headerOffset = some ho) : s = t := by
  have hslots := sampleSlots_indexed hparse
  obtain ⟨hsj, hsmem, hscov⟩ := mem_streamedSlots hs
  obtain ⟨htj, htmem, htcov⟩ := mem_streamedSlots ht
  obtain ⟨hsc, hsoff⟩ := sampleSlots_header hparse hsmem hsho
  obtain ⟨htc, htoff⟩ := sampleSlots_header hparse htmem htho
  have hslast := lastAt_of_covered (joinedV2_pairwise hslots) hsj (hscov hsc)
  have htlast := lastAt_of_covered (joinedV2_pairwise hslots) htj (htcov htc)
  exact eq_of_index hslots hsmem htmem
    (Nat.le_antisymm (htlast s hsj (hsoff.trans htoff.symm)) (hslast t htj (htoff.trans hsoff.symm)))

/-- The plan of a bake is always as it should be; the headers are exactly when no streamed compressed slot shares its own. -/
theorem gated_iff (h : buildDagV2 c data decoded cdc noCompressedStream = .ok d)
    (hparse : sampleSlots data none = some (format, slots)) :
    Fenced d (streamedSlots c data decoded cdc noCompressedStream format slots) ∧
      (Gated d slots (streamedSlots c data decoded cdc noCompressedStream format slots) ↔
        OwnHeaders slots (streamedSlots c data decoded cdc noCompressedStream format slots)) := by
  have hfenced := fenced h hparse
  obtain ⟨hsamples, -⟩ := samples_index h hparse
  refine ⟨hfenced, fun hg t ht hc s hs hheader => ?_, fun hown => ⟨hfenced, fun s hs ho hho hrewritten => ?_⟩⟩
  · obtain ⟨ho, hho⟩ := Option.isSome_iff_exists.1 ((sampleSlots_inFile hparse t (mem_streamedSlots ht).2.1).header hc)
    have hsho : s.headerOffset = some ho := hheader.trans hho
    have hindex := hg.headers s hs ho hsho (mem_rewrittenHeaders.2 ⟨t, ht, hc, hho⟩)
    rw [hsamples] at hindex
    obtain ⟨s', hs', hs'index⟩ := List.mem_map.1 hindex
    obtain rfl : s' = s := eq_of_index (sampleSlots_indexed hparse) (mem_streamedSlots hs').2.1 hs hs'index
    exact eq_of_header hparse hs' ht hsho hho
  · obtain ⟨t, ht, hc, hto⟩ := mem_rewrittenHeaders.1 hrewritten
    rw [hown t ht hc s hs (Eq.trans hho hto.symm), hsamples]
    exact List.mem_map_of_mem ht

end Bake

/-! ### The gate -/

/-- What is fetched before playing weighs no more than the leaves of the bake. -/
theorem warmBytes_le (c : Codec) (leaves : List Payload) (skeletonChunks : List Cid) (samples : List SampleV2)
    (plan : Plan) : warmBytes c leaves skeletonChunks samples plan ≤ (leaves.map fun p => (c.block p).bytes.length).sum := by
  have hfind := @BlockStore.sum_find_le _ _ _ Block.cid (fun b => b.bytes.length) (c.addAll leaves) _
    (List.nodup_dedup (skeletonChunks ++ (requiredAtZero plan).flatMap fun ix =>
      ((samples.reverse.find? fun s => s.index == ix).map SampleV2.chunks).getD []))
  have hput := @BlockStore.sum_putAll_le _ _ _ Block.cid (fun b => b.bytes.length) [] (leaves.map c.block)
  rw [List.map_nil, List.sum_nil, Nat.zero_add, List.map_map] at hput
  exact hfind.trans hput

/-- The chunks of a buffer weigh what it weighs. -/
theorem sum_leaves (c : Codec) (buf : Bytes) (cdc : CdcConfig) :
    ((leaves buf cdc).map fun p => (c.block p).bytes.length).sum = buf.length := by
  rw [leaves, List.map_map]
  show ((cdcChunks buf cdc).map List.length).sum = buf.length
  rw [← List.length_flatten, flatten_cdcChunks]

/-! ### Two samples of one header -/

/-- An IT file of one pattern, which plays sample 2; both entries of the sample table point to one header. -/
def sharedItHead : Bytes :=
  [0x49, 0x4d, 0x50, 0x4d] ++ List.replicate 28 0 ++ [1, 0, 0, 0, 2, 0, 1, 0] ++ List.replicate 10 0 ++ [6, 125] ++
    List.replicate 140 0 ++ [0] ++ [0xda, 0, 0, 0, 0xda, 0, 0, 0] ++ [0xcd, 0, 0, 0] ++
    [5, 0, 1, 0, 0, 0, 0, 0, 129, 3, 60, 2, 0] ++
    [0x49, 0x4d, 0x50, 0x53] ++ List.replicate 14 0 ++ [13] ++ List.replicate 29 0 ++ [1, 0x80, 0, 0] ++
    List.replicate 20 0 ++ [0x2a, 1, 0, 0] ++ List.replicate 4 0

/-- The sample is compressed and stereo: four blocks of 65535 bytes. -/
def sharedIt : Bytes := sharedItHead ++ List.replicate 262148 255

def sharedItSlot (index : Nat) : SampleSlot :=
  { index, offset := 298, length := 65538, bitDepth := 8, channels := 2, compressed := true, headerOffset := some 218,
    compressedBytes := some 262148 }

def sharedItDump (index : Nat) : DecodedSample := ⟨index, 32769, List.replicate 65538 0, by decide⟩

theorem length_sharedItHead : sharedItHead.length = 298 := by
  simp only [sharedItHead, List.length_append, List.length_cons, List.length_nil, List.length_replicate]

theorem length_sharedIt : sharedIt.length = 262446 := by
  rw [sharedIt, List.length_append, length_sharedItHead, List.length_replicate]

theorem at0_sharedIt {o : Nat} (h : o < 298) : at0 sharedIt o = at0 sharedItHead o := by
  rw [at0, at0, sharedIt, List.getD_append _ _ _ _ (by rw [length_sharedItHead]; exact h)]

theorem at0_sharedIt_data {o : Nat} (h₁ : 298 ≤ o) (h₂ : o < 262446) : at0 sharedIt o = 255 := by
  rw [at0, sharedIt, List.getD_append_right _ _ _ _ (by rw [length_sharedItHead]; exact h₁), length_sharedItHead,
    List.getD_replicate _ (by omega)]
  rfl

theorem u16le_sharedIt {o : Nat} (h : o + 1 < 298) : u16le sharedIt o = u16le sharedItHead o := by
  rw [u16le, u16le, at0_sharedIt (by omega), at0_sharedIt h]

theorem u32le_sharedIt {o : Nat} (h : o + 3 < 298) : u32le sharedIt o = u32le sharedItHead o := by
  rw [u32le, u32le, at0_sharedIt (by omega), at0_sharedIt (by omega), at0_sharedIt (by omega), at0_sharedIt h]

theorem itHeaderOffsets_sharedIt : itHeaderOffsets sharedIt = [218, 218] := by
  have h₁ : u16le sharedItHead 0x20 = 1 := by decide
  have h₂ : u16le sharedItHead 0x22 = 0 := by decide
  have h₃ : u16le sharedItHead 0x24 = 2 := by decide
  have h₄ : u32le sharedItHead 193 = 218 ∧ u32le sharedItHead 197 = 218 := by decide
  simp [itHeaderOffsets, u16le_sharedIt, h₁, h₂, h₃, List.range_succ, u32le_sharedIt, h₄]

theorem itSkipBlocks_sharedIt {off : Nat} (n next : Nat) (hoff : 298 ≤ off) (hnext : off + 65537 = next)
    (hle : next ≤ 262446) : itSkipBlocks sharedIt (n + 1) off = itSkipBlocks sharedIt n next := by
  have hlen : u16le sharedIt off = 65535 := by
    rw [u16le, at0_sharedIt_data hoff (by omega), at0_sharedIt_data (by omega) (by omega)]
    rfl
  have hadd : off + (2 + 65535) = next := by omega
  have hin : ¬next > sharedIt.length := by
    rw [length_sharedIt]
    omega
  have hhead : ¬off + 2 > sharedIt.length := by
    rw [length_sharedIt]
    omega
  rw [itSkipBlocks, if_neg hhead, hlen]
  simp only [hadd]
  rw [if_neg hin]

theorem itCompressedSpan_sharedIt : itCompressedSpan sharedIt 298 32769 8 2 = some 262148 := by
  have hspan : itCompressedSpan sharedIt 298 32769 8 2 = (itSkipChannels sharedIt 2 2 298).map (· - 298) := by
    norm_num [itCompressedSpan]
  have hleft : itSkipBlocks sharedIt 2 298 = some 131372 := by
    rw [itSkipBlocks_sharedIt 1 65835 (by decide) (by decide) (by decide),
      itSkipBlocks_sharedIt 0 131372 (by decide) (by decide) (by decide), itSkipBlocks]
  have hright : itSkipBlocks sharedIt 2 131372 = some 262446 := by
    rw [itSkipBlocks_sharedIt 1 196909 (by decide) (by decide) (by decide),
      itSkipBlocks_sharedIt 0 262446 (by decide) (by decide) (by decide), itSkipBlocks]
  rw [hspan, itSkipChannels, hleft, Option.bind_some, itSkipChannels, hright, Option.bind_some, itSkipChannels]
  rfl

theorem itSlot_sharedIt (i : Nat) : itSlot sharedIt i 218 = some (sharedItSlot (i + 1)) := by
  have hflags : at0 sharedItHead 236 = 13 := by decide
  have hframes : u32le sharedItHead 266 = 32769 := by decide
  have hpointer : u32le sharedItHead 290 = 298 := by decide
  have hbits : hasBit 13 1 = true ∧ hasBit 13 2 = false ∧ hasBit 13 4 = true ∧ hasBit 13 8 = true := by decide
  simp [itSlot, length_sharedIt, at0_sharedIt, u32le_sharedIt, hflags, hframes, hpointer, hbits, itCompressedSpan_sharedIt,
    sharedItSlot]

theorem sharedIt_slots : sampleSlots sharedIt none = some (.it, [sharedItSlot 1, sharedItSlot 2]) := by
  have htag : tag4 sharedIt 0 = ['I', 'M', 'P', 'M'] := by
    have h : tag4 sharedItHead 0 = ['I', 'M', 'P', 'M'] := by decide
    rw [← h]
    simp [tag4, at0_sharedIt]
  have hcwtv : u16le sharedItHead 0x28 = 0 := by decide
  have hfirst : at0 sharedItHead 0 = 0x49 := by decide
  have hformat : detectFormat sharedIt = some .it := by
    simp [detectFormat, length_sharedIt, htag, at0_sharedIt, hfirst, u16le_sharedIt, hcwtv]
  have hslots : itLikeSlots sharedIt = [sharedItSlot 1, sharedItSlot 2] := by
    simp [itLikeSlots, itHeaderOffsets_sharedIt, itSlot_sharedIt]
  rw [sampleSlots, hformat]
  simp [SLOT_EXTRACTORS, hslots, length_sharedIt, sharedItSlot, SampleSlot.stop]

theorem decodeEvents_sharedIt : decodeEvents sharedIt 205 = ⟨1, [⟨0, 0, some 60, 2, 0, 0⟩]⟩ := by
  have hlen : u16le sharedItHead 205 = 5 ∧ u16le sharedItHead 207 = 1 := by decide
  have hcell : at0 sharedItHead 213 = 129 ∧ at0 sharedItHead 214 = 3 ∧ at0 sharedItHead 216 = 2 ∧
      at0 sharedItHead 217 = 0 := by decide
  have hnote : at? sharedIt 215 = some 60 := by
    have h : at? sharedItHead 215 = some 60 := by decide
    rw [← h, at?, at?, sharedIt, List.getElem?_append_left (by rw [length_sharedItHead]; decide)]
  have hbits : hasBit 129 128 = true ∧ hasBit 3 1 = true ∧ hasBit 3 2 = true ∧ hasBit 3 4 = false ∧ hasBit 3 8 = false ∧
      hasBit 3 16 = false := by decide
  simp [decodeEvents, length_sharedIt, u16le_sharedIt, hlen, itEvents, itCell, at0_sharedIt, hcell, hnote, hbits]

/-- The walk of the file. -/
theorem readHeader_sharedIt : ∃ h, readHeader sharedIt = some h ∧ h.useInstruments = false ∧ h.smpNum = 2 ∧
    h.smpOffBase = 193 ∧ h.patOffBase = 201 ∧ h.orders = [0] ∧ h.ordNum = 1 := by
  have hnums : u16le sharedItHead 0x20 = 1 ∧ u16le sharedItHead 0x22 = 0 ∧ u16le sharedItHead 0x24 = 2 := by decide
  have horder : at0 sharedItHead 0xc0 = 0 := by decide
  simp [readHeader, length_sharedIt, u16le_sharedIt, at0_sharedIt, hnums, horder]

theorem asked_sharedIt (joined : List SampleSlot) (index : Nat) : Asked sharedIt .it joined 0 (sharedItSlot index) := by
  obtain ⟨h, hh, hins, hnum, hbase, hpats, horders, hord⟩ := readHeader_sharedIt
  set m : ItModel := ⟨sharedIt, h, itSampleOffsets sharedIt h⟩ with hm
  have hvalid : m.validOrders = [(0, 0)] := by simp [hm, ItModel.validOrders, ItModel.orderPats, horders]
  have hstride : m.stride = 1 := by simp [ItModel.stride, hvalid, MAX_CHECKPOINTS]
  have hoffset : m.offOf 1 = some 298 := by
    have hheader : u32le sharedItHead 197 = 218 := by decide
    have hsample : at0 sharedItHead 236 = 13 ∧ u32le sharedItHead 266 = 32769 ∧ u32le sharedItHead 290 = 298 := by
      decide
    have hbit : hasBit 13 1 = true := by decide
    simp [hm, ItModel.offOf, itSampleOffsets, hnum, hbase, u32le_sharedIt, hheader, length_sharedIt, at0_sharedIt,
      hsample, hbit]
  have hdecode : m.decode 0 = some ⟨1, [⟨0, 0, some 60, 2, 0, 0⟩]⟩ := by
    have hpattern : u32le sharedItHead 201 = 205 := by decide
    simp [hm, ItModel.decode, hpats, u32le_sharedIt, hpattern, decodeEvents_sharedIt]
  have htriggered : 298 ∈ m.triggered 0 := by
    have hsample : sampleForNote m.b m.h 2 60 = some 1 := by simp [sampleForNote, hm, hins]
    rw [ItModel.triggered, hdecode]
    refine List.mem_filterMap.2 ⟨_, List.mem_singleton_self _, ?_⟩
    show (sampleForNote m.b m.h 2 60).bind m.offOf = some 298
    rw [hsample]
    exact hoffset
  refine ⟨m.tables, ?_, .inl ⟨m.checkpointAt 0, ?_, ?_, ?_⟩⟩
  · rw [computeSeekTables, computeItTables, hh]
    rfl
  · simp [ItModel.tables, hvalid, hstride, checkpointCount]
  · simp [ItModel.checkpointAt, hvalid]
  · have hsong : m.h.orders = [0] ∧ m.h.ordNum = 1 := ⟨horders, hord⟩
    have hspan : 0 ∈ (m.h.orders.take (((m.validOrders[0 + m.stride]?).map Prod.fst).getD m.h.ordNum)).drop
        (((m.validOrders[0]?).map Prod.fst).getD m.h.ordNum) := by
      simp [hvalid, hstride, hsong]
    show 298 ∈ sortedSet _
    rw [mem_sortedSet]
    exact List.mem_append_right _ (List.mem_flatMap.2 ⟨0, hspan, htriggered⟩)

theorem planJoin_sharedIt : (planJoin sharedIt .it [sharedItSlot 1, sharedItSlot 2]).covered 1 = false ∧
    (planJoin sharedIt .it [sharedItSlot 1, sharedItSlot 2]).covered 2 = true := by
  have hj : [sharedItSlot 1, sharedItSlot 2].Pairwise fun s t => s.index < t.index := by decide
  constructor
  · by_contra hcov
    rw [Bool.not_eq_false] at hcov
    have hlast : LastAt _ (sharedItSlot 1) := lastAt_of_covered hj (by simp) hcov
    exact absurd (hlast (sharedItSlot 2) (by simp) rfl) (by decide)
  · have hlast : LastAt [sharedItSlot 1, sharedItSlot 2] (sharedItSlot 2) := by
      rw [LastAt]
      decide
    obtain ⟨cp, hcp, -, hmem⟩ := (lists_planJoin hj (by simp) (asked_sharedIt _ 2)).2 hlast
    exact List.any_eq_true.2 ⟨cp, hcp, List.contains_iff_mem.2 hmem⟩

theorem candidates_sharedIt : [sharedItSlot 1, sharedItSlot 2].filterMap (candidate [sharedItDump 1, sharedItDump 2]) =
    [⟨sharedItSlot 1, sharedItDump 1⟩, ⟨sharedItSlot 2, sharedItDump 2⟩] := by
  have hlen : ∀ i, (sharedItDump i).data.length = 65538 := fun i => List.length_replicate
  have h₁ : dumpByIndex [sharedItDump 1, sharedItDump 2] 1 = some (sharedItDump 1) := rfl
  have h₂ : dumpByIndex [sharedItDump 1, sharedItDump 2] 2 = some (sharedItDump 2) := rfl
  simp [candidate, sharedItSlot, h₁, h₂, hlen]

theorem buildSkeletonV2_spec (data : Bytes) (streamed : List SampleSlot) :
    (buildSkeletonV2 data streamed).1.length = data.length +
      ((streamed.filter fun s => s.compressed).map SampleSlot.length).sum ∧
      (buildSkeletonV2 data streamed).2 = (streamed.filter fun s => !s.compressed).map rawSpan ++
        (streamed.filter fun s => s.compressed).filterMap orphanSpan ++
        if ((streamed.filter fun s => s.compressed).map SampleSlot.length).sum > 0 then
          [(data.length, (buildSkeletonV2 data streamed).1.length)]
        else [] := by
  refine ⟨?_, rfl⟩
  simp only [buildSkeletonV2, foldl_fillSpan]
  rw [length_foldl_synthesize, Spans.length_mask, List.length_append, List.length_replicate]

/-- The skeleton of the file with sample 2 taken out: its structure, and zeros. -/
theorem bakeSkeleton_sharedIt (cdc : CdcConfig) : bakeSkeleton sharedIt [sharedItSlot 2] cdc =
    [(cdcChunks (Buffer.slice (buildSkeletonV2 sharedIt [sharedItSlot 2]).1 0 298) cdc, 327686)] := by
  have hlen : (buildSkeletonV2 sharedIt [sharedItSlot 2]).1.length = 327984 := by
    rw [(buildSkeletonV2_spec _ _).1, length_sharedIt]
    simp [sharedItSlot]
  have hspans : (buildSkeletonV2 sharedIt [sharedItSlot 2]).2 = [(298, 262446), (262446, 327984)] := by
    rw [(buildSkeletonV2_spec _ _).2, hlen, length_sharedIt]
    simp [sharedItSlot, orphanSpan]
  have hmerge : mergeSpans [(298, 262446), (262446, 327984)] 327984 = [(298, 327984)] := by decide
  rw [bakeSkeleton]
  simp only
  rw [hspans, hlen, hmerge]
  simp [skeletonRuns, hlen]

/-- Sample 2 is streamed, and that saves enough. -/
theorem selectV2_sharedIt (c : Codec) (cdc : CdcConfig) :
    selectV2 c sharedIt .it [⟨sharedItSlot 1, sharedItDump 1⟩, ⟨sharedItSlot 2, sharedItDump 2⟩] cdc false =
      [⟨sharedItSlot 2, sharedItDump 2⟩] := by
  have hcovered : ∀ p : Plan, p.covered 1 = false → p.covered 2 = true → streamedV2 p false
      [⟨sharedItSlot 1, sharedItDump 1⟩, ⟨sharedItSlot 2, sharedItDump 2⟩] = [⟨sharedItSlot 2, sharedItDump 2⟩] := by
    intro p h₁ h₂
    simp [streamedV2, sharedItSlot, h₁, h₂]
  have hselect := hcovered _ planJoin_sharedIt.1 planJoin_sharedIt.2
  have hgate : gateV2 c sharedIt .it [⟨sharedItSlot 1, sharedItDump 1⟩, ⟨sharedItSlot 2, sharedItDump 2⟩] cdc = false := by
    simp only [gateV2, List.map_cons, List.map_nil, hselect, List.flatMap_cons, List.flatMap_nil, List.append_nil,
      bakeSkeleton_sharedIt]
    have hchunks : ∀ chunks : List Bytes, runChunks [(chunks, 327686)] = chunks := fun chunks => List.append_nil chunks
    have hslice := Buffer.length_slice (buildSkeletonV2 sharedIt [sharedItSlot 2]).1 0 298
    have hdump : (sharedItDump 2).data.length = 65538 := List.length_replicate
    have hwarm := fun chunks samples plan => warmBytes_le c (leaves (sharedItDump 2).data cdc ++
      leaves (Buffer.slice (buildSkeletonV2 sharedIt [sharedItSlot 2]).1 0 298) cdc) chunks samples plan
    simp only [List.map_append, List.sum_append, sum_leaves, hdump] at hwarm
    rw [hchunks, length_sharedIt, COMPRESSED_STREAM_MIN_SAVING, ← leaves, Bool.and_eq_false_iff, decide_eq_false_iff_not]
    right
    generalize bakeV2 c sharedIt .it _ cdc false = d
    have hle := hwarm d.skeletonChunks d.samples d.plan
    omega
  rw [selectV2, rebakeV2, hgate]
  exact hselect

/-- The flags of the header lose the compression bit in the skeleton. -/
theorem flags_sharedIt : sharedIt[236]? = some 13 ∧
    (Spans.mask 0 (buildSkeletonV2 sharedIt [sharedItSlot 2]).2 (buildSkeletonV2 sharedIt [sharedItSlot 2]).1)[236]? =
      some 5 := by
  have hfile : sharedIt[236]? = some 13 := by
    have h : sharedItHead[236]? = some 13 := by decide
    rw [sharedIt, List.getElem?_append_left (by rw [length_sharedItHead]; decide), h]
  refine ⟨hfile, ?_⟩
  have hcovers : Spans.covers ([sharedItSlot 2].filterMap SampleSlot.span) 236 = false := by
    simp [sharedItSlot, SampleSlot.span, orphanSpan, Spans.covers]
  rw [getElem?_skeleton _ _ (by rw [length_sharedIt]; decide), hcovers, @rewritten_singleton _ (sharedItSlot 2) 218 rfl rfl,
    @getElem?_repoint_flags _ 218, hfile]
  rfl

/-- Sample 1 of `sharedIt` is to be played from the skeleton, where its header, that of sample 2, says that it is not
compressed. -/
theorem not_gated_sharedIt : ∃ d, buildDagV2 sharedCodec sharedIt [sharedItDump 1, sharedItDump 2] DEFAULT_CDC false =
    .ok d ∧
    d.samples.map (fun s => s.index) = [2] ∧
    streamedSlots sharedCodec sharedIt [sharedItDump 1, sharedItDump 2] DEFAULT_CDC false .it
      [sharedItSlot 1, sharedItSlot 2] = [sharedItSlot 2] ∧
    ¬Gated d [sharedItSlot 1, sharedItSlot 2] [sharedItSlot 2] ∧ sharedIt[236]? = some 13 ∧
    (Spans.mask 0 (buildSkeletonV2 sharedIt [sharedItSlot 2]).2
      (buildSkeletonV2 sharedIt [sharedItSlot 2]).1)[236]? = some 5 := by
  obtain ⟨d, hd⟩ : ∃ d, buildDagV2 sharedCodec sharedIt [sharedItDump 1, sharedItDump 2] DEFAULT_CDC false = .ok d := by
    rw [buildDagV2, sharedIt_slots]
    exact ⟨_, rfl⟩
  have hstreamed : streamedSlots sharedCodec sharedIt [sharedItDump 1, sharedItDump 2] DEFAULT_CDC false .it
      [sharedItSlot 1, sharedItSlot 2] = [sharedItSlot 2] := by
    rw [streamedSlots, candidates_sharedIt, selectV2_sharedIt]
    rfl
  have hsamples := (samples_index hd sharedIt_slots).1
  rw [hstreamed] at hsamples
  refine ⟨d, hd, hsamples, hstreamed, fun hg => ?_, flags_sharedIt⟩
  have hlisted := hg.headers (sharedItSlot 1) (by simp) 218 rfl
    (mem_rewrittenHeaders.2 ⟨sharedItSlot 2, by simp, rfl, rfl⟩)
  rw [hsamples] at hlisted
  exact absurd hlisted (by decide)

/-- Without compressed slots no header is rewritten. -/
theorem gated_sharedS3m : ∃ d, buildDagV2 sharedCodec sharedS3m [sharedS3mDump] DEFAULT_CDC false = .ok d ∧
    Gated d [sharedSlot 1, sharedSlot 2] (streamedSlots sharedCodec sharedS3m [sharedS3mDump] DEFAULT_CDC false .s3m
      [sharedSlot 1, sharedSlot 2]) := by
  refine ⟨_, buildDagV2_sharedS3m, (gated_iff buildDagV2_sharedS3m sharedS3m_slots).2.2 fun t ht hc => ?_⟩
  rcases List.mem_pair.1 (mem_streamedSlots ht).2.1 with rfl | rfl <;> cases hc

end TrackerStream
