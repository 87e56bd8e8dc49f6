import TrackerStream.Proofs.Resident

/-!
# What a plan lists

The seek tables ask for PCM offsets; a plan lists slots. The map between them keeps one slot for an offset,
the last one of those joined, so a plan lists a slot that is asked for exactly when no slot behind it has the
same offset (`listed_iff`). Pruning loses no slot that is streamed.
-/

namespace TrackerStream

/-- A checkpoint at `order` lists the slot. -/
def Plan.Lists (p : Plan) (order index : Nat) : Prop := ∃ cp ∈ p.checkpoints, cp.order = order ∧ index ∈ cp.samples

/-- The seek tables of the module need the slot at `order`: by a checkpoint or, where no checkpoint is left of the
join with `joined`, by the opening. -/
def Asked (data : Bytes) (format : Format) (joined : List SampleSlot) (order : Nat) (s : SampleSlot) : Prop :=
  ∃ tables, computeSeekTables data format = some tables ∧
    ((∃ cp ∈ tables.checkpoints, cp.order = order ∧ s.offset ∈ cp.residentOffsets) ∨
      joinCheckpoints joined tables.checkpoints = [] ∧ order = 0 ∧ s.offset ∈ tables.segment0Offsets)

/-- No joined slot behind `s` has its offset. -/
def LastAt (joined : List SampleSlot) (s : SampleSlot) : Prop := ∀ t ∈ joined, t.offset = s.offset → t.index ≤ s.index

/-! ### The map from offsets -/

section Join
variable {joined : List SampleSlot} {s t : SampleSlot}

theorem eq_of_index (hj : joined.Pairwise fun s t => s.index < t.index) (hs : s ∈ joined) (ht : t ∈ joined)
    (h : s.index = t.index) : s = t :=
  List.inj_on_of_nodup_map (List.pairwise_map.2 (hj.imp Nat.ne_of_lt)) hs ht h

/-- The slot an offset is joined to is the last one there. -/
theorem idxByOffset_some (hj : joined.Pairwise fun s t => s.index < t.index) {o i : Nat} (h : idxByOffset joined o = some i) :
    ∃ s ∈ joined, s.offset = o ∧ s.index = i ∧ LastAt joined s := by
  obtain ⟨s, hfind, rfl⟩ := Option.map_eq_some_iff.1 h
  obtain ⟨hs, behind, front, hrev, hbehind⟩ := List.find?_eq_some_iff_append.1 hfind
  have hs : s.offset = o := eq_of_beq hs
  have hmem : ∀ t, t ∈ joined ↔ t ∈ behind ++ s :: front := fun t => by rw [← hrev, List.mem_reverse]
  refine ⟨s, (hmem s).2 (by simp), hs, rfl, fun t ht hoff => ?_⟩
  have hpair : (behind ++ s :: front).Pairwise fun s t => t.index < s.index := by
    rw [← hrev]
    exact List.pairwise_reverse.2 hj
  rcases List.mem_append.1 ((hmem t).1 ht) with hb | hb
  · have hne := hbehind t hb
    rw [hoff, hs, beq_self_eq_true] at hne
    cases hne
  · rcases List.mem_cons.1 hb with rfl | hb
    · exact Nat.le_refl _
    · exact Nat.le_of_lt ((List.pairwise_cons.1 (List.pairwise_append.1 hpair).2.1).1 t hb)

theorem idxByOffset_iff (hj : joined.Pairwise fun s t => s.index < t.index) (hs : s ∈ joined) :
    idxByOffset joined s.offset = some s.index ↔ LastAt joined s := by
  constructor
  · intro h
    obtain ⟨t, ht, -, hindex, hlast⟩ := idxByOffset_some hj h
    rwa [← eq_of_index hj ht hs hindex]
  · intro hlast
    have hsome : (idxByOffset joined s.offset).isSome := by
      rw [idxByOffset, Option.isSome_map, List.find?_isSome]
      exact ⟨s, List.mem_reverse.2 hs, beq_self_eq_true _⟩
    obtain ⟨i, hi⟩ := Option.isSome_iff_exists.1 hsome
    obtain ⟨t, ht, hoff, rfl, hlast'⟩ := idxByOffset_some hj hi
    rw [hi, Nat.le_antisymm (hlast t ht hoff) (hlast' s hs hoff.symm)]

theorem mem_toSlots {offs : List Nat} {i : Nat} : i ∈ toSlots joined offs ↔ ∃ o ∈ offs, idxByOffset joined o = some i :=
  List.mem_filterMap

/-- A joined slot is in the slots of a list of offsets only by its own offset. -/
theorem mem_toSlots_iff (hj : joined.Pairwise fun s t => s.index < t.index) (hs : s ∈ joined) {offs : List Nat} :
    s.index ∈ toSlots joined offs ↔ s.offset ∈ offs ∧ LastAt joined s := by
  rw [mem_toSlots]
  constructor
  · rintro ⟨o, ho, hidx⟩
    obtain ⟨t, ht, rfl, hindex, hlast⟩ := idxByOffset_some hj hidx
    obtain rfl := eq_of_index hj ht hs hindex
    exact ⟨ho, hlast⟩
  · rintro ⟨ho, hlast⟩
    exact ⟨s.offset, ho, (idxByOffset_iff hj hs).2 hlast⟩

/-! ### The plan -/

theorem mem_joinCheckpoints {cps : List SeekCheckpoint} {cp : Checkpoint} :
    cp ∈ joinCheckpoints joined cps ↔
      (∃ c ∈ cps, Checkpoint.mk c.order (toSlots joined c.residentOffsets) = cp) ∧ cp.samples ≠ [] := by
  simp [joinCheckpoints]

theorem lists_planJoin {data : Bytes} {format : Format} {order : Nat} (hj : joined.Pairwise fun s t => s.index < t.index)
    (hs : s ∈ joined) (hasked : Asked data format joined order s) :
    (planJoin data format joined).Lists order s.index ↔ LastAt joined s := by
  obtain ⟨tables, htables, hasked⟩ := hasked
  rw [Plan.Lists, planJoin, htables]
  dsimp only
  constructor
  · rintro ⟨cp, hcp, -, hmem⟩
    split at hcp
    · obtain ⟨⟨c, -, rfl⟩, -⟩ := mem_joinCheckpoints.1 hcp
      exact ((mem_toSlots_iff hj hs).1 hmem).2
    · split at hcp
      · cases hcp
      · rw [List.mem_singleton.1 hcp] at hmem
        exact ((mem_toSlots_iff hj hs).1 hmem).2
  · intro hlast
    rcases hasked with ⟨c, hc, horder, hoff⟩ | ⟨hnone, horder, hoff⟩
    · have hmem := (mem_toSlots_iff hj hs).2 ⟨hoff, hlast⟩
      have hcp := mem_joinCheckpoints.2 ⟨⟨c, hc, rfl⟩, List.ne_nil_of_mem hmem⟩
      rw [if_pos (by simpa using List.ne_nil_of_mem hcp)]
      exact ⟨_, hcp, horder, hmem⟩
    · have hmem := (mem_toSlots_iff hj hs).2 ⟨hoff, hlast⟩
      rw [hnone, if_neg (by simp), if_neg (by simpa using List.ne_nil_of_mem hmem)]
      exact ⟨_, List.mem_singleton_self _, horder.symm, hmem⟩

/-- Pruning to slots that are kept loses none of them. -/
theorem lists_prune {p : Plan} {keep : List Nat} {order index : Nat} (h : index ∈ keep) :
    (p.prune keep).Lists order index ↔ p.Lists order index := by
  constructor
  · rintro ⟨cp, hcp, horder, hmem⟩
    obtain ⟨hcp, -⟩ := List.mem_filter.1 hcp
    obtain ⟨cp', hcp', rfl⟩ := List.mem_map.1 hcp
    exact ⟨cp', hcp', horder, (List.mem_filter.1 hmem).1⟩
  · rintro ⟨cp, hcp, horder, hmem⟩
    have hkeep : index ∈ cp.samples.filter keep.contains := List.mem_filter.2 ⟨hmem, by simpa using h⟩
    refine ⟨⟨cp.order, cp.samples.filter keep.contains⟩, List.mem_filter.2 ⟨List.mem_map_of_mem hcp, ?_⟩, horder, hkeep⟩
    simpa using List.ne_nil_of_mem hkeep

end Join

/-! ### The bakes -/

section Bakes
variable {c : Codec} {lib : FlacLib} {v : Nat} {data : Bytes} {decoded : List DecodedSample} {cdc : CdcConfig}
  {entry : Encoded → Ipld} {root : Cid} {made : List Payload} {plan : Plan} {format : Format} {slots : List SampleSlot}
  {items : List Encoded}

/-- The slots that a v2 bake joins. -/
def joinedV2 (decoded : List DecodedSample) (slots : List SampleSlot) : List SampleSlot :=
  (slots.filterMap (candidate decoded)).map Candidate.slot

/-- The slots that a v3 or v4 bake joins. -/
def joinedV3 (data : Bytes) (decoded : List DecodedSample) (slots : List SampleSlot) : List SampleSlot :=
  (slots.filterMap (streamedV3 data decoded)).map fun s => s.slot

/-- Keeping some of the slots keeps their order. -/
theorem pairwise_index_filterMap {β : Type} {f : SampleSlot → Option β} {g : β → SampleSlot}
    (hg : ∀ s b, f s = some b → g b = s) (hslots : slots.Pairwise fun s t => s.index < t.index) :
    ((slots.filterMap f).map g).Pairwise fun s t => s.index < t.index := by
  rw [List.pairwise_map]
  refine hslots.filterMap _ fun s t hst b hb b' hb' => ?_
  rw [hg s b hb, hg t b' hb']
  exact hst

theorem joinedV2_pairwise (hslots : slots.Pairwise fun s t => s.index < t.index) :
    (joinedV2 decoded slots).Pairwise fun s t => s.index < t.index :=
  pairwise_index_filterMap (fun _ _ h => (candidate_some h).1) hslots

theorem joinedV3_pairwise (hslots : slots.Pairwise fun s t => s.index < t.index) :
    (joinedV3 data decoded slots).Pairwise fun s t => s.index < t.index := by
  refine pairwise_index_filterMap (fun s b h => ?_) hslots
  unfold streamedV3 at h
  split at h
  · cases h
  · obtain ⟨enc, -, rfl⟩ := Option.map_eq_some_iff.1 h
    exact (candidate_some ‹_›).1

theorem baked_lists_iff (hb : Baked c v data decoded cdc entry root made plan format slots items) {s : SampleSlot}
    (hs : s ∈ slots) (hindex : s.index ∈ items.map fun e => e.slot.index) {order : Nat}
    (hasked : Asked data format (joinedV3 data decoded slots) order s) :
    plan.Lists order s.index ↔ LastAt (joinedV3 data decoded slots) s := by
  have hslots := sampleSlots_indexed hb.parse
  have hjoined : items.map (fun e => e.slot) = joinedV3 data decoded slots := by
    rw [joinedV3, ← hb.streamed, List.map_map]; rfl
  obtain ⟨e, he, hei⟩ := List.mem_map.1 hindex
  obtain rfl := eq_of_index hslots (hb.streamedFrom he).mem hs hei
  rw [hb.plan_eq, hjoined]
  exact lists_planJoin (joinedV3_pairwise hslots) (hjoined ▸ List.mem_map_of_mem he) hasked

/-- For every streamed slot that the seek tables ask for at an order, when the plan lists it there. -/
theorem lists_streamed_iff (lib : FlacLib) (hparse : sampleSlots data none = some (format, slots)) :
    (∀ noCompressedStream d, buildDagV2 c data decoded cdc noCompressedStream = .ok d →
      ∀ s ∈ slots, s.index ∈ (d.samples.map fun s => s.index) → ∀ order, Asked data format (joinedV2 decoded slots) order s →
        (d.plan.Lists order s.index ↔ LastAt (joinedV2 decoded slots) s)) ∧
    (∀ d, buildDagV3 c data decoded cdc = .ok d →
      ∀ s ∈ slots, s.index ∈ (d.samples.map fun s => s.index) →
        ∀ order, Asked data format (joinedV3 data decoded slots) order s →
          (d.plan.Lists order s.index ↔ LastAt (joinedV3 data decoded slots) s)) ∧
    ∀ d, buildDagV4 c lib data decoded cdc = .ok d →
      ∀ s ∈ slots, s.index ∈ (d.samples.map fun s => s.index) →
        ∀ order, Asked data format (joinedV3 data decoded slots) order s →
          (d.plan.Lists order s.index ↔ LastAt (joinedV3 data decoded slots) s) := by
  have hslots := sampleSlots_indexed hparse
  refine ⟨fun noCompressedStream d hd s hs hindex order hasked => ?_, fun d hd s hs hindex order hasked => ?_,
    fun d hd s hs hindex order hasked => ?_⟩
  · obtain ⟨format', slots', hparse', rfl⟩ := buildDagV2_ok hd
    obtain ⟨rfl, rfl⟩ : format' = format ∧ slots' = slots := by simpa using hparse'.symm.trans hparse
    have hkeep : s.index ∈ (selectV2 c data format' (slots'.filterMap (candidate decoded)) cdc noCompressedStream).map
        fun cd => cd.slot.index := by
      obtain ⟨sample, hsample, hi⟩ := List.mem_map.1 hindex
      obtain ⟨cd, hcd, rfl⟩ := List.mem_map.1 hsample
      exact List.mem_map.2 ⟨cd, hcd, hi⟩
    obtain ⟨cd, hcd, hi⟩ := List.mem_map.1 hkeep
    have hcand := (List.mem_filter.1 hcd).1
    obtain ⟨slot, hslot, hsome⟩ := List.mem_filterMap.1 hcand
    obtain rfl : cd.slot = s := eq_of_index hslots ((candidate_some hsome).1 ▸ hslot) hs hi
    exact (lists_prune hkeep).trans
      (lists_planJoin (joinedV2_pairwise hslots) (List.mem_map_of_mem hcand) hasked)
  · obtain ⟨format', slots', items, hb, hsamples, -⟩ := buildDagV3_baked hd
    obtain ⟨rfl, rfl⟩ : format' = format ∧ slots' = slots := by simpa using hb.parse.symm.trans hparse
    rw [hsamples, List.map_map] at hindex
    exact baked_lists_iff hb hs hindex hasked
  · obtain ⟨format', slots', items, hb, hsamples, -⟩ := buildDagV4_baked hd
    obtain ⟨rfl, rfl⟩ : format' = format ∧ slots' = slots := by simpa using hb.parse.symm.trans hparse
    rw [hsamples, List.map_map] at hindex
    exact baked_lists_iff hb hs hindex hasked

end Bakes

theorem seekTables_sharedS3m :
    ((computeSeekTables sharedS3m .s3m).map fun t => t.checkpoints.map fun cp => (cp.order, cp.residentOffsets)) =
      some [(0, [288])] := by decide +kernel

/-- The opening of `sharedS3m` asks for the offset of both samples. -/
theorem asked_sharedS3m (joined : List SampleSlot) (index : Nat) : Asked sharedS3m .s3m joined 0 (sharedSlot index) := by
  obtain ⟨tables, htables, hcps⟩ := Option.map_eq_some_iff.1 seekTables_sharedS3m
  obtain ⟨cp, hcp, hfields⟩ := List.map_eq_singleton_iff.1 hcps
  obtain ⟨horder, hoffs⟩ : cp.order = 0 ∧ cp.residentOffsets = [288] := Prod.mk.inj hfields
  exact ⟨tables, htables, .inl ⟨cp, by simp [hcp], horder, by simp [hoffs, sharedSlot]⟩⟩

/-- With the dump of one sample only, the plan lists that sample. -/
theorem lists_streamed_iff_sharedS3m : ∃ d, buildDagV2 sharedCodec sharedS3m [sharedS3mDump] DEFAULT_CDC false = .ok d ∧
    d.plan.Lists 0 1 :=
  ⟨_, buildDagV2_sharedS3m, ((lists_streamed_iff tinyFlac sharedS3m_slots).1 false _ buildDagV2_sharedS3m (sharedSlot 1)
    (by simp) (by decide) 0 (asked_sharedS3m _ 1)).2 (by
      rw [LastAt]
      decide)⟩

/-- The dump of sample 2 of `sharedS3m`. -/
def sharedS3mDump₂ : DecodedSample := { sharedS3mDump with index := 2 }

set_option maxRecDepth 4000 in
theorem planJoin_both_sharedS3m :
    planJoin sharedS3m .s3m [sharedSlot 1, sharedSlot 2] = ⟨[⟨0, 0⟩], [⟨0, [2]⟩]⟩ := by rfl

/-- With both dumps sample 1 is streamed and played at order 0, and the plan does not list it. -/
theorem not_lists_sharedS3m : ¬ ∀ (c : Codec) (data : Bytes) (decoded : List DecodedSample) (cdc : CdcConfig)
    (noCompressedStream : Bool) (format : Format) (slots : List SampleSlot) (d : BuiltDagV2 SampleV2) (tables : SeekTables),
    sampleSlots data none = some (format, slots) → buildDagV2 c data decoded cdc noCompressedStream = .ok d →
    computeSeekTables data format = some tables →
    ∀ cp ∈ tables.checkpoints, ∀ s ∈ slots, s.index ∈ (d.samples.map fun s => s.index) → s.offset ∈ cp.residentOffsets →
      d.plan.Lists cp.order s.index := by
  intro h
  have hbuild : buildDagV2 sharedCodec sharedS3m [sharedS3mDump, sharedS3mDump₂] DEFAULT_CDC false = .ok (bakeV2 sharedCodec
      sharedS3m .s3m [⟨sharedSlot 1, sharedS3mDump⟩, ⟨sharedSlot 2, sharedS3mDump₂⟩] DEFAULT_CDC (rebakeV2 sharedCodec
      sharedS3m .s3m [⟨sharedSlot 1, sharedS3mDump⟩, ⟨sharedSlot 2, sharedS3mDump₂⟩] DEFAULT_CDC false)) := by
    rw [buildDagV2, sharedS3m_slots]; rfl
  have hkeep : ∀ plan rebake, streamedV2 plan rebake [⟨sharedSlot 1, sharedS3mDump⟩, ⟨sharedSlot 2, sharedS3mDump₂⟩] =
      [⟨sharedSlot 1, sharedS3mDump⟩, ⟨sharedSlot 2, sharedS3mDump₂⟩] := fun _ _ => rfl
  obtain ⟨tables, htables, hcps⟩ := Option.map_eq_some_iff.1 seekTables_sharedS3m
  obtain ⟨cp, hcp, hfields⟩ := List.map_eq_singleton_iff.1 hcps
  obtain ⟨horder, hoffs⟩ : cp.order = 0 ∧ cp.residentOffsets = [288] := Prod.mk.inj hfields
  have hlists := h sharedCodec sharedS3m _ DEFAULT_CDC false .s3m _ _ tables sharedS3m_slots hbuild htables cp
    (by simp [hcp]) (sharedSlot 1) (by simp) (by simp [bakeV2, packManifest, hkeep, Candidate.sampleV2]) (by simp [hoffs, sharedSlot])
  simp only [bakeV2, packManifest, hkeep, List.map_cons, List.map_nil, planJoin_both_sharedS3m] at hlists
  obtain ⟨cp', hcp', -, hmem⟩ := (lists_prune (by decide)).1 hlists
  rw [List.mem_singleton.1 hcp'] at hmem
  exact absurd hmem (by decide)

end TrackerStream
