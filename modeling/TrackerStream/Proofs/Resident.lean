import TrackerStream.WebStream
import TrackerStream.Proofs.RoundTripIpfs

/-!
# Resident slots in the skeleton

A slot that is not streamed is played from the skeleton. There the bytes of the streamed slots are zero and
the headers of the compressed ones rewritten, whoever else uses them: slots may share or overlap their PCM.
So a resident slot keeps its bytes exactly when nothing of that shows in them (`Kept`, `Spared`).
-/

namespace TrackerStream

/-- The on-disk bytes of a slot, where they are known. -/
def SampleSlot.span (s : SampleSlot) : Option Spans.Span := if s.compressed then orphanSpan s else some (rawSpan s)

/-- Every slot that is not streamed has its on-disk bytes where they were. -/
def Kept (data skeleton : Bytes) (slots : List SampleSlot) (streamed : List Nat) : Prop :=
  ∀ s ∈ slots, s.index ∉ streamed → ∀ k x, Spans.covers s.span.toList k → data[k]? = some x → skeleton[k]? = some x

/-- The header of a compressed slot when its data is moved to `s.2`. -/
def rewriteHeader (s : Bytes × Nat) (slot : SampleSlot) : Bytes × Nat :=
  (match slot.headerOffset with
    | some ho => repoint s.1 ho s.2
    | none => s.1, s.2 + slot.length)

/-- The file with the headers of the streamed compressed slots rewritten, their data behind its end. -/
def rewritten (data : Bytes) (streamed : List SampleSlot) : Bytes :=
  ((streamed.filter fun s => s.compressed).foldl rewriteHeader (data, data.length)).1

theorem getElem?_repoint_congr {sk sk' : Bytes} {k : Nat} (h : sk[k]? = sk'[k]?) (ho cursor : Nat) :
    (repoint sk ho cursor)[k]? = (repoint sk' ho cursor)[k]? := by
  simp only [repoint, List.getElem?_set', List.getElem?_modify, h]

theorem length_repoint (sk : Bytes) (ho cursor : Nat) : (repoint sk ho cursor).length = sk.length := by
  simp [repoint]

theorem length_synthesize (s : Bytes × Nat) (slot : SampleSlot) : (synthesize s slot).1.length = s.1.length := by
  unfold synthesize
  cases orphanSpan slot <;> cases slot.headerOffset <;> simp [length_repoint, fillSpan]

/-- Outside its orphaned bytes a compressed slot changes the skeleton as it changes the file. -/
theorem getElem?_synthesize {s s' : Bytes × Nat} {k : Nat} (h : s.1[k]? = s'.1[k]?) (hcur : s.2 = s'.2) (slot : SampleSlot)
    (hk : Spans.covers (orphanSpan slot).toList k = false) :
    (synthesize s slot).1[k]? = (rewriteHeader s' slot).1[k]? ∧ (synthesize s slot).2 = (rewriteHeader s' slot).2 := by
  obtain ⟨sk, cursor⟩ := s
  obtain ⟨sk', cursor'⟩ := s'
  obtain rfl : cursor = cursor' := hcur
  refine ⟨?_, rfl⟩
  simp only [synthesize, rewriteHeader]
  cases horphan : orphanSpan slot with
  | none =>
    cases slot.headerOffset with
    | none => exact h
    | some ho => exact getElem?_repoint_congr h ho cursor
  | some span =>
    rw [horphan] at hk
    have hout : ¬ (span.1 ≤ k ∧ k < span.2) := fun hin => by
      rw [Spans.covers_iff.2 ⟨span, by simp, hin⟩] at hk
      cases hk
    have hfill : (fillSpan sk span)[k]? = sk'[k]? := by
      rw [fillSpan, Buffer.getElem?_fill, if_neg hout]
      exact h
    cases slot.headerOffset with
    | none => exact hfill
    | some ho => exact getElem?_repoint_congr hfill ho cursor

theorem getElem?_foldl_synthesize {comp : List SampleSlot} {k : Nat} (hk : Spans.covers (comp.filterMap orphanSpan) k = false)
    {s s' : Bytes × Nat} (h : s.1[k]? = s'.1[k]?) (hcur : s.2 = s'.2) :
    (comp.foldl synthesize s).1[k]? = (comp.foldl rewriteHeader s').1[k]? := by
  induction comp generalizing s s' with
  | nil => exact h
  | cons slot comp ih =>
    have hsplit : (slot :: comp).filterMap orphanSpan = (orphanSpan slot).toList ++ comp.filterMap orphanSpan := by
      cases horphan : orphanSpan slot <;> simp [horphan]
    rw [hsplit, Spans.covers_append, Bool.or_eq_false_iff] at hk
    obtain ⟨hbyte, hcursor⟩ := getElem?_synthesize h hcur slot hk.1
    exact ih hk.2 hbyte hcursor

theorem length_foldl_synthesize (comp : List SampleSlot) (s : Bytes × Nat) :
    (comp.foldl synthesize s).1.length = s.1.length := by
  induction comp generalizing s with
  | nil => rfl
  | cons slot comp ih => rw [List.foldl_cons, ih, length_synthesize]

/-- The spans that are zeroed inside the file are those of the streamed slots. -/
theorem covers_span (streamed : List SampleSlot) (k : Nat) :
    Spans.covers (((streamed.filter fun s => !s.compressed).map rawSpan) ++
      (streamed.filter fun s => s.compressed).filterMap orphanSpan) k =
    Spans.covers (streamed.filterMap SampleSlot.span) k := by
  refine Spans.covers_congr (fun span => ?_) k
  simp only [List.mem_append, List.mem_map, List.mem_filterMap, List.mem_filter, SampleSlot.span]
  constructor
  · rintro (⟨s, ⟨hs, hraw⟩, rfl⟩ | ⟨s, ⟨hs, hcomp⟩, hspan⟩)
    · exact ⟨s, hs, by simp_all⟩
    · exact ⟨s, hs, by rw [if_pos hcomp, hspan]⟩
  · rintro ⟨s, hs, hspan⟩
    split at hspan
    · exact .inr ⟨s, ⟨hs, ‹_›⟩, hspan⟩
    · exact .inl ⟨s, ⟨hs, by simp_all⟩, Option.some.inj hspan⟩

/-- A byte of the file in the skeleton that a client assembles. -/
theorem getElem?_skeleton (data : Bytes) (streamed : List SampleSlot) {k : Nat} (hk : k < data.length) :
    (Spans.mask 0 (buildSkeletonV2 data streamed).2 (buildSkeletonV2 data streamed).1)[k]? =
      if Spans.covers (streamed.filterMap SampleSlot.span) k then some 0 else (rewritten data streamed)[k]? := by
  set raw := streamed.filter fun s => !s.compressed with hraw
  set comp := streamed.filter fun s => s.compressed with hcomp
  set extra := (comp.map SampleSlot.length).sum
  have hcovers := covers_span streamed k
  rw [← hraw, ← hcomp] at hcovers
  have hskel : (buildSkeletonV2 data streamed).1 = (comp.foldl synthesize
      (Spans.mask 0 (raw.map rawSpan) (data ++ List.replicate extra 0), data.length)).1 := by
    simp only [buildSkeletonV2, foldl_fillSpan]
    rfl
  have htail : ∀ len, Spans.covers (if extra > 0 then [(data.length, len)] else []) k = false := fun len => by
    split
    · rw [Spans.covers_cons, decide_eq_false (by omega)]; rfl
    · rfl
  have hspans : Spans.covers (buildSkeletonV2 data streamed).2 k = Spans.covers (streamed.filterMap SampleSlot.span) k := by
    show Spans.covers (raw.map rawSpan ++ comp.filterMap orphanSpan ++ if extra > 0 then [_] else []) k = _
    rw [Spans.covers_append, htail, Bool.or_false, hcovers]
  rw [Spans.getElem?_mask, hspans]
  by_cases hk' : Spans.covers (streamed.filterMap SampleSlot.span) k = true
  · have hlen : k < (buildSkeletonV2 data streamed).1.length := by
      rw [hskel, length_foldl_synthesize, Spans.length_mask, List.length_append]
      omega
    rw [if_pos hk', if_pos hk', List.getElem?_eq_getElem hlen]
    rfl
  · rw [if_neg hk', if_neg hk', hskel, rewritten, ← hcomp]
    rw [Bool.not_eq_true, ← hcovers, Spans.covers_append, Bool.or_eq_false_iff] at hk'
    refine getElem?_foldl_synthesize hk'.2 ?_ rfl
    rw [Spans.getElem?_mask, hk'.1, List.getElem?_append_left hk]
    rfl

section Client
variable {c : Codec} {made : List Payload} {head : ManifestHead} {index : Ipld} {root : Cid} {runs : List Run}

end Client

/-! ### The bakes -/

/-- The candidates that a v2 bake streams. -/
def selectV2 (c : Codec) (data : Bytes) (format : Format) (candidates : List Candidate) (cdc : CdcConfig)
    (noCompressedStream : Bool) : List Candidate :=
  streamedV2 (planJoin data format (candidates.map Candidate.slot)) (rebakeV2 c data format candidates cdc noCompressedStream)
    candidates

section Bakes
variable {c : Codec} {lib : FlacLib} {v : Nat} {data : Bytes} {decoded : List DecodedSample} {cdc : CdcConfig}
  {entry : Encoded → Ipld} {root : Cid} {made : List Payload} {plan : Plan} {format : Format} {slots : List SampleSlot}
  {items : List Encoded}

end Bakes

/-- An S3M of one order and one cell, which plays sample 1; both of its samples have the same data. -/
def sharedS3mHead : Bytes :=
  List.replicate 32 0 ++ [1, 0, 2, 0, 1, 0] ++ List.replicate 6 0 ++ [83, 67, 82, 77, 0, 6, 125] ++
    List.replicate 45 0 ++ [0, 7, 0, 12, 0, 17, 0] ++ List.replicate 9 0 ++
    ([1] ++ List.replicate 13 0 ++ [18, 0, 4] ++ List.replicate 63 0) ++
    ([1] ++ List.replicate 13 0 ++ [18, 0, 4] ++ List.replicate 63 0) ++
    ([4, 0, 0x20, 64, 1, 0] ++ List.replicate 10 0)

def sharedS3m : Bytes := sharedS3mHead ++ [1, 2, 3, 4]

theorem four_lt : 4 < 2 ^ 32 := by decide

/-- The dump of sample 1; there is none of sample 2. -/
def sharedS3mDump : DecodedSample := ⟨1, 4, [129, 130, 131, 132], four_lt⟩

def sharedS3mHeadDigest : Bytes :=
  [28, 174, 151, 95, 78, 145, 174, 150, 35, 252, 229, 107, 145, 170, 212, 85, 213, 133, 73, 121, 235, 147, 211,
   242, 53, 90, 124, 131, 182, 249, 106, 138]

def sharedS3mDumpDigest : Bytes :=
  [38, 75, 163, 220, 193, 190, 58, 219, 233, 122, 241, 116, 221, 170, 11, 8, 134, 29, 176, 111, 179, 239, 193,
   43, 127, 136, 235, 171, 173, 60, 203, 45]

def sharedSample : SampleV2 :=
  { index := 1, frames := 4, channels := 1, bitDepth := 8, chunks := [⟨RAW_CODE, sharedS3mDumpDigest⟩] }

def sharedPlan : Plan := ⟨[⟨0, 0⟩], [⟨0, [1]⟩]⟩

/-- The v2 manifest of `sharedS3m`. -/
def sharedManifest : Ipld :=
  ManifestHead.toIpld ⟨MANIFEST_V2, .s3m, DEFAULT_CDC, none, [⟨RAW_CODE, sharedS3mHeadDigest⟩], [1, 4]⟩
    (some (indexIpld [sharedSample.toIpld] sharedPlan)) none

/-- That manifest as dag-cbor. -/
def sharedManifestBytes : Bytes :=
  [166, 97, 118, 2, 99, 99, 100, 99, 163, 99, 97, 118, 103, 25, 64, 0, 99, 109, 97, 120, 26, 0, 1, 0, 0, 99,
   109, 105, 110, 25, 32, 0, 101, 105, 110, 100, 101, 120, 162, 100, 112, 108, 97, 110, 162, 107, 99, 104, 101,
   99, 107, 112, 111, 105, 110, 116, 115, 129, 162, 101, 111, 114, 100, 101, 114, 0, 103, 115, 97, 109, 112, 108,
   101, 115, 129, 1, 108, 111, 114, 100, 101, 114, 83, 101, 99, 111, 110, 100, 115, 129, 162, 101, 111, 114, 100,
   101, 114, 0, 103, 115, 101, 99, 111, 110, 100, 115, 0, 103, 115, 97, 109, 112, 108, 101, 115, 129, 165, 101,
   105, 110, 100, 101, 120, 1, 102, 99, 104, 117, 110, 107, 115, 129, 216, 42, 88, 37, 0, 1, 85, 18, 32, 38, 75,
   163, 220, 193, 190, 58, 219, 233, 122, 241, 116, 221, 170, 11, 8, 134, 29, 176, 111, 179, 239, 193, 43, 127,
   136, 235, 171, 173, 60, 203, 45, 102, 102, 114, 97, 109, 101, 115, 4, 104, 98, 105, 116, 68, 101, 112, 116,
   104, 8, 104, 99, 104, 97, 110, 110, 101, 108, 115, 1, 102, 102, 111, 114, 109, 97, 116, 99, 115, 51, 109, 110,
   115, 107, 101, 108, 101, 116, 111, 110, 67, 104, 117, 110, 107, 115, 129, 216, 42, 88, 37, 0, 1, 85, 18, 32,
   28, 174, 151, 95, 78, 145, 174, 150, 35, 252, 229, 107, 145, 170, 212, 85, 213, 133, 73, 121, 235, 147, 211,
   242, 53, 90, 124, 131, 182, 249, 106, 138, 110, 115, 107, 101, 108, 101, 116, 111, 110, 76, 97, 121, 111, 117,
   116, 130, 1, 4]

def sharedRoot : Bytes :=
  [214, 186, 126, 41, 64, 47, 42, 197, 6, 120, 241, 231, 92, 152, 158, 7, 2, 177, 75, 141, 162, 61, 144, 159,
   140, 30, 107, 3, 196, 50, 129, 72]

def sharedCodec : Codec :=
  .ofTable [(sharedS3mHead, sharedS3mHeadDigest), (sharedS3mDump.data, sharedS3mDumpDigest), (sharedManifestBytes, sharedRoot)]
    sharedManifestBytes sharedManifest

/-- Both samples of `sharedS3m`, but for the index. -/
def sharedSlot (index : Nat) : SampleSlot := { index, offset := 288, length := 4, bitDepth := 8, channels := 1 }

theorem sharedS3m_slots : sampleSlots sharedS3m none = some (.s3m, [sharedSlot 1, sharedSlot 2]) := by decide +kernel

set_option maxRecDepth 4000 in
theorem buildSkeletonV2_sharedS3m :
    buildSkeletonV2 sharedS3m [sharedSlot 1] = (sharedS3mHead ++ [0, 0, 0, 0], [(288, 292)]) := by
  rw [buildSkeletonV2_raw (by decide)]
  show (Spans.mask 0 [(288, 292)] sharedS3m, _) = _
  rw [← Spans.weave_eq_mask (by simp [Spans.Ordered]) (by decide)]
  rfl

set_option maxRecDepth 4000 in
theorem bakeSkeleton_sharedS3m : bakeSkeleton sharedS3m [sharedSlot 1] DEFAULT_CDC = [([sharedS3mHead], 4)] := by
  rw [bakeSkeleton, buildSkeletonV2_sharedS3m]
  rfl

set_option maxRecDepth 4000 in
theorem planJoin_sharedS3m : planJoin sharedS3m .s3m [sharedSlot 1] = sharedPlan := by rfl

set_option maxRecDepth 4000 in
theorem buildDagV2_sharedS3m : buildDagV2 sharedCodec sharedS3m [sharedS3mDump] DEFAULT_CDC false =
    .ok ⟨⟨DAG_CBOR_CODE, sharedRoot⟩, [⟨RAW_CODE, sharedS3mHeadDigest⟩], [1, 4], [sharedSample], sharedPlan, false,
      [.raw sharedS3mDump.data, .raw sharedS3mHead, .cbor sharedManifest]⟩ := by
  have hcandidates : [sharedSlot 1, sharedSlot 2].filterMap (candidate [sharedS3mDump]) =
      [⟨sharedSlot 1, sharedS3mDump⟩] := rfl
  have hselect : ∀ rebake, streamedV2 sharedPlan rebake [⟨sharedSlot 1, sharedS3mDump⟩] =
      [⟨sharedSlot 1, sharedS3mDump⟩] := fun _ => rfl
  have hgate : gateV2 sharedCodec sharedS3m .s3m [⟨sharedSlot 1, sharedS3mDump⟩] DEFAULT_CDC = false := by
    simp only [gateV2, List.map_cons, List.map_nil, planJoin_sharedS3m, hselect]
    rfl
  simp only [buildDagV2, sharedS3m_slots, hcandidates, hgate, bakeV2, List.map_cons, List.map_nil, planJoin_sharedS3m,
    hselect, bakeSkeleton_sharedS3m]
  rfl

end TrackerStream
