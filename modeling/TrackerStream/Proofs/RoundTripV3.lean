import TrackerStream.DagV3
import TrackerStream.Proofs.Skeleton
import TrackerStream.Proofs.Slots

/-!
# v3 and v4 round trips in TypeScript

The client starts from the file with the streamed regions zeroed and writes the regions back one after the
other. They may overlap, so what is kept is not that the regions behind are done but that every position
outside the regions ahead holds the byte of the file (`Restored`): whatever order the writes come in, each
carries bytes of the file.
-/

namespace TrackerStream

/-! ### Writing the regions back -/

/-- Every position that no region ahead covers is restored. -/
structure Restored (data out : Bytes) (rest : List SampleSlot) : Prop where
  length_out : out.length = data.length
  agree : ∀ k, Spans.covers (rest.map rawSpan) k = false → out[k]? = data[k]?

namespace Restored
variable {data out : Bytes} {s : SampleSlot} {rest : List SampleSlot}

theorem init (data : Bytes) (slots : List SampleSlot) : Restored data (Spans.mask 0 (slots.map rawSpan) data) slots :=
  ⟨Spans.length_mask _ _ _, fun k hk => by rw [Spans.getElem?_mask, hk]; rfl⟩

theorem step (h : Restored data out (s :: rest)) (hs : s.stop ≤ data.length) :
    Restored data (Buffer.blit out s.offset (Buffer.slice data s.offset s.stop)) rest := by
  have hout := h.length_out
  have hlen : (Buffer.slice data s.offset s.stop).length = s.length := by
    rw [SampleSlot.stop] at hs
    rw [Buffer.length_slice, SampleSlot.stop]; omega
  rw [SampleSlot.stop] at hs
  have hfit : s.offset + (Buffer.slice data s.offset s.stop).length ≤ out.length := by omega
  refine ⟨by rw [Buffer.length_blit _ hfit, hout], fun k hk => ?_⟩
  rw [Buffer.getElem?_blit _ hfit, hlen, Buffer.getElem?_slice, SampleSlot.stop]
  by_cases hin : s.offset ≤ k ∧ k < s.offset + s.length
  · rw [if_pos hin, if_pos (by omega), Nat.add_sub_cancel' hin.1]
  · rw [if_neg hin]
    refine h.agree k ?_
    rw [List.map_cons, Spans.covers_cons, hk, Bool.or_false, Bool.and_eq_false_iff, decide_eq_false_iff_not,
      decide_eq_false_iff_not]
    exact Classical.or_iff_not_imp_left.2 fun h₁ h₂ => hin ⟨Classical.not_not.1 h₁, h₂⟩

theorem finish (h : Restored data out []) : out = data := List.ext_getElem? fun k => h.agree k rfl

end Restored

/-- A streamed slot of a v3 or v4 bake. -/
structure StreamedFrom (data : Bytes) (slots : List SampleSlot) (decoded : List DecodedSample) (s : Streamed) : Prop where
  mem : s.slot ∈ slots
  dump : dumpByIndex decoded s.slot.index = some s.dump
  length_eq : s.dump.data.length = s.slot.length
  length_pos : 0 < s.dump.data.length
  pick : pickEnc s.dump.data (onDisk data s.slot) s.slot.bitDepth s.slot.channels = some s.enc

theorem candidate_some {decoded : List DecodedSample} {slot : SampleSlot} {cd : Candidate}
    (h : candidate decoded slot = some cd) :
    cd.slot = slot ∧ dumpByIndex decoded slot.index = some cd.dump ∧ 0 < cd.dump.data.length ∧
      cd.dump.data.length = slot.length := by
  unfold candidate at h
  split at h
  · cases h
  split at h
  · cases h
  · cases h
    refine ⟨rfl, ‹_›, ?_, ?_⟩ <;> dsimp only <;> omega

theorem streamedV3_from {data : Bytes} {slots : List SampleSlot} {decoded : List DecodedSample} {s : Streamed}
    (h : s ∈ slots.filterMap (streamedV3 data decoded)) : StreamedFrom data slots decoded s := by
  obtain ⟨slot, hmem, hs⟩ := List.mem_filterMap.1 h
  unfold streamedV3 at hs
  split at hs
  · cases hs
  · rename_i cd hcd
    obtain ⟨rfl, hdump, hpos, hlen⟩ := candidate_some hcd
    obtain ⟨enc, hpick, rfl⟩ := Option.map_eq_some_iff.1 hs
    exact ⟨hmem, hdump, hlen, hpos, hpick⟩

theorem parseV3_ok {v : Nat} {data : Bytes} {format : Format} {slots : List SampleSlot}
    (h : parseV3 v data = .ok (format, slots)) :
    sampleSlots data none = some (format, slots) ∧ ∀ s ∈ slots, s.compressed = false := by
  unfold parseV3 at h
  split at h
  · cases h
  · split at h
    · cases h
    · rename_i hparse hcomp
      cases h
      refine ⟨hparse, fun s hs => ?_⟩
      by_contra hc
      exact hcomp (List.any_eq_true.2 ⟨s, hs, by simpa using hc⟩)

/-! ### Reading a manifest -/

section Head
variable (m : ManifestHead) (index : Option Ipld) (indexRoot : Option Cid)

end Head

/-- Where the index of a packed manifest is: in it, or in a block of its own. -/
inductive IndexAt (c : Codec) (made : List Payload) (index : Ipld) : Option Ipld → Option Cid → Prop
  | inline : IndexAt c made index (some index) none
  | spilled : .cbor index ∈ made → IndexAt c made index none (some (c.cborBlock index).cid)

/-- What `packManifest` leaves behind. -/
structure Packed (c : Codec) (head : ManifestHead) (index : Ipld) (root : Cid) (made : List Payload) (runs : List Run) :
    Prop where
  manifest : ∃ inline outline, root = (c.cborBlock (head.toIpld inline outline)).cid ∧
    .cbor (head.toIpld inline outline) ∈ made ∧ IndexAt c made index inline outline
  skeletonChunks : head.skeletonChunks = (runChunks runs).map fun b => (c.rawBlock b).cid
  skeletonLayout : head.skeletonLayout = runLayout runs
  skeleton_made : ∀ b ∈ runChunks runs, .raw b ∈ made

section Pack
variable {σ : Type} (c : Codec) (v : Nat) (format : Format) (cdc : CdcConfig) (originalLength : Option Nat)
  (toIpld : σ → Ipld) (samples : List σ) (plan : Plan)

theorem packManifest_packed (pcm : List Payload) (runs : List Run) :
    Packed c ⟨v, format, cdc, originalLength, (runChunks runs).map fun b => (c.rawBlock b).cid, runLayout runs⟩
      (indexIpld (samples.map toIpld) plan)
      (packManifest c v format cdc originalLength toIpld samples plan pcm runs).root
      (packManifest c v format cdc originalLength toIpld samples plan pcm runs).made runs := by
  refine ⟨?_, rfl, rfl, fun b hb => ?_⟩
  · simp only [packManifest]
    split
    · exact ⟨none, _, rfl, by simp, .spilled (by simp)⟩
    · exact ⟨_, none, rfl, by simp, .inline⟩
  · simp only [packManifest, List.mem_append, List.mem_map]
    exact .inl (.inl (.inr ⟨b, hb, rfl⟩))

theorem packManifest_pcm {pcm : List Payload} (runs : List Run) {p : Payload} (h : p ∈ pcm) :
    p ∈ (packManifest c v format cdc originalLength toIpld samples plan pcm runs).made := by
  simp only [packManifest, List.mem_append]
  exact .inl (.inl (.inl h))

end Pack

/-! ### The client -/

section Client
variable {c : Codec} {made : List Payload} {head : ManifestHead} {index : Ipld} {root : Cid} {runs : List Run}

end Client

/-! ### What a bake that succeeds leaves behind -/

/-- The head of a v3 or v4 manifest. -/
def streamedHead (c : Codec) (v : Nat) (format : Format) (cdc : CdcConfig) (data : Bytes) (runs : List Run) : ManifestHead :=
  ⟨v, format, cdc, some data.length, (runChunks runs).map fun b => (c.rawBlock b).cid, runLayout runs⟩

/-- A v3 or v4 bake: the streamed slots with their leaves, each under the entry `entry` of the index. -/
structure Baked (c : Codec) (v : Nat) (data : Bytes) (decoded : List DecodedSample) (cdc : CdcConfig)
    (entry : Encoded → Ipld) (root : Cid) (made : List Payload) (plan : Plan) (format : Format) (slots : List SampleSlot)
    (items : List Encoded) : Prop where
  parse : sampleSlots data none = some (format, slots)
  uncompressed : ∀ s ∈ slots, s.compressed = false
  streamed : items.map Encoded.toStreamed = slots.filterMap (streamedV3 data decoded)
  plan_eq : plan = planJoin data format (items.map fun e => e.slot)
  packed : Packed c (streamedHead c v format cdc data (bakeSkeleton data (items.map fun e => e.slot) cdc))
    (indexIpld (items.map entry) plan) root made (bakeSkeleton data (items.map fun e => e.slot) cdc)
  leaf_made : ∀ e ∈ items, ∀ p ∈ leaves e.leaf cdc, p ∈ made

section Bakes
variable {c : Codec} {lib : FlacLib} {v : Nat} {data : Bytes} {decoded : List DecodedSample} {cdc : CdcConfig}
  {entry : Encoded → Ipld} {root : Cid} {made : List Payload} {plan : Plan} {format : Format} {slots : List SampleSlot}
  {items : List Encoded}

namespace Baked

theorem streamedFrom (hb : Baked c v data decoded cdc entry root made plan format slots items) {e : Encoded}
    (he : e ∈ items) : StreamedFrom data slots decoded e.toStreamed := by
  refine streamedV3_from ?_
  rw [← hb.streamed]
  exact List.mem_map_of_mem he

theorem inFile (hb : Baked c v data decoded cdc entry root made plan format slots items) {e : Encoded}
    (he : e ∈ items) : e.slot.InFile data.length :=
  sampleSlots_inFile hb.parse _ (hb.streamedFrom he).mem

/-- The client assembles the file with the streamed regions zeroed. -/
theorem skeleton (hb : Baked c v data decoded cdc entry root made plan format slots items) :
    assembleSkeletonV2 (runChunks (bakeSkeleton data (items.map fun e => e.slot) cdc))
        (some (runLayout (bakeSkeleton data (items.map fun e => e.slot) cdc))) =
      .ok (Spans.mask 0 ((items.map fun e => e.slot).map rawSpan) data) := by
  refine assemble_bakeSkeleton_raw cdc fun s hs => ?_
  obtain ⟨e, he, rfl⟩ := List.mem_map.1 hs
  exact hb.uncompressed _ (hb.streamedFrom he).mem

end Baked

/-- What `packManifest` makes of the parts of a bake. -/
theorem baked_packManifest {σ : Type} {toIpld : σ → Ipld} {sample : Encoded → σ}
    (hparse : parseV3 v data = .ok (format, slots))
    (hstreamed : items.map Encoded.toStreamed = slots.filterMap (streamedV3 data decoded)) {d : BuiltDagV2 σ}
    (hd : d = packManifest c v format cdc (some data.length) toIpld (items.map sample)
      (planJoin data format (items.map fun e => e.slot)) (items.flatMap fun e => leaves e.leaf cdc)
      (bakeSkeleton data (items.map fun e => e.slot) cdc)) :
    Baked c v data decoded cdc (fun e => toIpld (sample e)) d.root d.made d.plan format slots items ∧
      d.samples = items.map sample := by
  obtain ⟨hslots, hraw⟩ := parseV3_ok hparse
  subst hd
  refine ⟨⟨hslots, hraw, hstreamed, rfl, ?_, fun e he p hp => ?_⟩, rfl⟩
  · have hpacked := packManifest_packed c v format cdc (some data.length) toIpld (items.map sample)
      (planJoin data format (items.map fun e => e.slot)) (items.flatMap fun e => leaves e.leaf cdc)
      (bakeSkeleton data (items.map fun e => e.slot) cdc)
    rwa [List.map_map] at hpacked
  · exact packManifest_pcm _ _ _ _ _ _ _ _ _ (List.mem_flatMap.2 ⟨e, he, hp⟩)

def Encoded.sampleV3 (c : Codec) (cdc : CdcConfig) (e : Encoded) : SampleV3 := e.toStreamed.sampleV3 c cdc

/-- A v3 bake stores the dumps as they are. -/
theorem buildDagV3_baked {d : BuiltDagV2 SampleV3} (h : buildDagV3 c data decoded cdc = .ok d) :
    ∃ format slots items, Baked c MANIFEST_V3 data decoded cdc (fun e => (e.sampleV3 c cdc).toIpld) d.root d.made d.plan
      format slots items ∧ d.samples = items.map (Encoded.sampleV3 c cdc) ∧
      ∀ e ∈ items, e.leaf = e.dump.data ∧ e.encCodec = FLAC_RAW := by
  obtain ⟨⟨format, slots⟩, hparse, hd⟩ := Outcome.bind_ok h
  let items := (slots.filterMap (streamedV3 data decoded)).map fun s => Encoded.mk s s.dump.data FLAC_RAW
  have hstreamed : items.map Encoded.toStreamed = slots.filterMap (streamedV3 data decoded) := by
    simp only [items, List.map_map]
    exact List.map_id _
  have hd' : d = packManifest c MANIFEST_V3 format cdc (some data.length) SampleV3.toIpld
      (items.map (Encoded.sampleV3 c cdc)) (planJoin data format (items.map fun e => e.slot))
      (items.flatMap fun e => leaves e.leaf cdc) (bakeSkeleton data (items.map fun e => e.slot) cdc) := by
    simp only [items, List.map_map, List.flatMap_map]
    exact (Except.ok.inj hd).symm
  obtain ⟨hb, hsamples⟩ := baked_packManifest hparse hstreamed hd'
  refine ⟨format, slots, items, hb, hsamples, fun e he => ?_⟩
  obtain ⟨s, -, rfl⟩ := List.mem_map.1 he
  exact ⟨rfl, rfl⟩

/-- A v4 bake stores what the per-sample gate chose. -/
theorem buildDagV4_baked {d : BuiltDagV2 SampleV4} (h : buildDagV4 c lib data decoded cdc = .ok d) :
    ∃ format slots items, Baked c MANIFEST_V4 data decoded cdc (fun e => (e.sampleV4 c cdc).toIpld) d.root d.made d.plan
      format slots items ∧ d.samples = items.map (Encoded.sampleV4 c cdc) ∧
      ∀ e ∈ items, encodeLeaf lib e.toStreamed = .ok e := by
  obtain ⟨⟨format, slots⟩, hparse, hrest⟩ := Outcome.bind_ok h
  obtain ⟨items, hitems, hd⟩ := Outcome.bind_ok hrest
  have hinverse : ∀ s e, encodeLeaf lib s = .ok e → e.toStreamed = s := by
    intro s e he
    obtain ⟨flac, -, he⟩ := Outcome.bind_ok he
    cases he; rfl
  obtain ⟨hstreamed, hleaf⟩ := Outcome.mapM_ok_map hinverse hitems
  have hslots : items.map (fun e => e.slot) = (slots.filterMap (streamedV3 data decoded)).map fun s => s.slot := by
    rw [← hstreamed, List.map_map]; rfl
  have hd' : d = packManifest c MANIFEST_V4 format cdc (some data.length) SampleV4.toIpld
      (items.map (Encoded.sampleV4 c cdc)) (planJoin data format (items.map fun e => e.slot))
      (items.flatMap fun e => leaves e.leaf cdc) (bakeSkeleton data (items.map fun e => e.slot) cdc) := by
    rw [hslots]
    exact (Except.ok.inj hd).symm
  obtain ⟨hb, hsamples⟩ := baked_packManifest hparse hstreamed hd'
  exact ⟨format, slots, items, hb, hsamples, hleaf⟩

/-! ### The two round trips -/

/-- An XM file with one instrument of one sample, up to the sample's data. -/
def tinyXmHead : Bytes :=
  [0x45, 0x78, 0x74, 0x65] ++ List.replicate 56 0 ++ [20, 0, 0, 0] ++ List.replicate 8 0 ++ [1, 0] ++ List.replicate 6 0 ++
    [33, 0, 0, 0] ++ List.replicate 23 0 ++ [1, 0, 18, 0, 0, 0, 4, 0, 0, 0] ++ List.replicate 14 0

/-- The sample is stored as deltas. -/
def tinyXm : Uint8Array := ⟨tinyXmHead ++ [1, 2, 3, 4], by decide +kernel⟩

def tinyXmDump : DecodedSample := ⟨1, 4, [1, 3, 6, 10], by decide⟩

def tinyXmHeadDigest : Bytes :=
  [221, 190, 192, 89, 86, 160, 174, 252, 92, 51, 159, 186, 45, 49, 62, 134, 171, 91, 229, 209, 250, 161,
   240, 47, 106, 211, 20, 133, 172, 165, 10, 5]

def tinyXmDumpDigest : Bytes :=
  [113, 255, 156, 198, 226, 9, 162, 138, 213, 93, 136, 27, 32, 50, 123, 100, 95, 64, 38, 223, 224, 233, 15,
   21, 242, 30, 204, 164, 21, 89, 57, 198]

def tinySampleV3 : SampleV3 :=
  { index := 1, frames := 4, channels := 1, bitDepth := 8, chunks := [⟨RAW_CODE, tinyXmDumpDigest⟩], offset := 131
    enc := ENC_DELTA }

/-- The v3 manifest of `tinyXm`. -/
def tinyManifestV3 : Ipld :=
  ManifestHead.toIpld ⟨MANIFEST_V3, .xm, DEFAULT_CDC, some 135, [⟨RAW_CODE, tinyXmHeadDigest⟩], [1, 4]⟩
    (some (indexIpld [tinySampleV3.toIpld] ⟨[], []⟩)) none

/-- That manifest as dag-cbor. -/
def tinyManifestV3Bytes : Bytes :=
  [167, 97, 118, 3, 99, 99, 100, 99, 163, 99, 97, 118, 103, 25, 64, 0, 99, 109, 97, 120, 26, 0, 1, 0, 0,
   99, 109, 105, 110, 25, 32, 0, 101, 105, 110, 100, 101, 120, 162, 100, 112, 108, 97, 110, 162, 107, 99,
   104, 101, 99, 107, 112, 111, 105, 110, 116, 115, 128, 108, 111, 114, 100, 101, 114, 83, 101, 99, 111,
   110, 100, 115, 128, 103, 115, 97, 109, 112, 108, 101, 115, 129, 167, 99, 101, 110, 99, 2, 101, 105, 110,
   100, 101, 120, 1, 102, 99, 104, 117, 110, 107, 115, 129, 216, 42, 88, 37, 0, 1, 85, 18, 32, 113, 255,
   156, 198, 226, 9, 162, 138, 213, 93, 136, 27, 32, 50, 123, 100, 95, 64, 38, 223, 224, 233, 15, 21, 242,
   30, 204, 164, 21, 89, 57, 198, 102, 102, 114, 97, 109, 101, 115, 4, 102, 111, 102, 102, 115, 101, 116,
   24, 131, 104, 98, 105, 116, 68, 101, 112, 116, 104, 8, 104, 99, 104, 97, 110, 110, 101, 108, 115, 1,
   102, 102, 111, 114, 109, 97, 116, 98, 120, 109, 110, 111, 114, 105, 103, 105, 110, 97, 108, 76, 101,
   110, 103, 116, 104, 24, 135, 110, 115, 107, 101, 108, 101, 116, 111, 110, 67, 104, 117, 110, 107, 115,
   129, 216, 42, 88, 37, 0, 1, 85, 18, 32, 221, 190, 192, 89, 86, 160, 174, 252, 92, 51, 159, 186, 45, 49,
   62, 134, 171, 91, 229, 209, 250, 161, 240, 47, 106, 211, 20, 133, 172, 165, 10, 5, 110, 115, 107, 101,
   108, 101, 116, 111, 110, 76, 97, 121, 111, 117, 116, 130, 1, 4]

def tinyRootV3 : Bytes :=
  [19, 242, 240, 84, 30, 42, 32, 162, 159, 244, 77, 2, 233, 123, 46, 11, 191, 254, 199, 103, 47, 52, 184,
   108, 122, 164, 166, 172, 108, 63, 178, 212]

def tinyCodecV3 : Codec :=
  .ofTable [(tinyXmHead, tinyXmHeadDigest), (tinyXmDump.data, tinyXmDumpDigest), (tinyManifestV3Bytes, tinyRootV3)]
    tinyManifestV3Bytes tinyManifestV3

/-- Every dump of a slot is of whole frames of that slot. -/
def WholeFrames (slots : List SampleSlot) (decoded : List DecodedSample) : Prop :=
  ∀ slot ∈ slots, ∀ dump ∈ decoded, dump.index = slot.index → dump.data.length % (slot.channels * (slot.bitDepth / 8)) = 0

/-- A decoder loses nothing of the dumps that are encoded. -/
def LosslessFor (lib : FlacLib) (gives : List (List Int) → Nat → Nat → Bytes → Prop) (slots : List SampleSlot)
    (decoded : List DecodedSample) : Prop :=
  ∀ slot ∈ slots, ∀ dump ∈ decoded, dump.index = slot.index →
    ∀ flac, flacEncode lib dump.data slot.channels slot.bitDepth = .ok flac →
      LosslessOn gives dump.data slot.channels slot.bitDepth flac

theorem StreamedFrom.dump_mem {s : Streamed} (hs : StreamedFrom data slots decoded s) :
    s.dump ∈ decoded ∧ s.dump.index = s.slot.index := by
  have hfind := hs.dump
  rw [dumpByIndex] at hfind
  exact ⟨List.mem_reverse.1 (List.mem_of_find?_eq_some hfind), by
    simpa using List.find?_some hfind⟩

theorem bytesPerSample_eq {bitDepth : Nat} (h : bitDepth = 8 ∨ bitDepth = 16) : bytesPerSample bitDepth = bitDepth / 8 := by
  rcases h with rfl | rfl <;> rfl

/-- The samples of a streamed dump of whole frames make up the dump. -/
theorem Baked.planarBytes (hb : Baked c v data decoded cdc entry root made plan format slots items)
    (hwhole : WholeFrames slots decoded) {e : Encoded} (he : e ∈ items) :
    planarBytes e.dump.data e.slot.channels e.slot.bitDepth = e.dump.data := by
  have hslot := hb.inFile he
  have hdump := (hb.streamedFrom he).dump_mem
  have hch : 0 < e.slot.channels := by rcases hslot.channels with h | h <;> omega
  rw [planarBytes_eq_iff hch, bytesPerSample_eq hslot.bitDepth]
  exact hwhole _ (hb.streamedFrom he).mem _ hdump.1 hdump.2

/-- A FLAC library for mono streams: a magic and the samples in two bytes each. -/
def tinyFlac : FlacLib where
  encode chs _ := .ok ([0x66, 0x4c, 0x61, 0x43] ++ chs.flatten.flatMap (leBytes 2))
  decode flac := .ok { frames := [[flac.drop 4]], channels := 1, totalSamples := (flac.length - 4) / 2 }
  claxon flac := .ok ((List.range ((flac.length - 4) / 2)).map fun i => signExtend16 (u16le flac (4 + 2 * i)))

end Bakes

end TrackerStream
