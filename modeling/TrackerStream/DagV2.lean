import TrackerStream.DagV1
import TrackerStream.Spans

/-!
# The v2 DAG (`dag.ts`, second part)

The decoded PCM of each streamed slot is stored by slot; the skeleton is the module with the streamed PCM
zeroed, and the zero runs are not stored but listed in a run-length recipe. The plan joins the seek tables,
which speak of PCM byte offsets, to slot indices. Most of the pieces here are shared by the v3 and v4 bakes.
-/

namespace TrackerStream

def MANIFEST_V2 : Nat := 2
def INDEX_SPILL_BYTES : Nat := 256 * 1024
def COMPRESSED_STREAM_MIN_SAVING : Nat := 128 * 1024

/-- The decoded native-layout PCM of one sample slot, as dumped from libopenmpt; `debug_sample_frames` is a
`size_t` of 32-bit wasm. -/
structure DecodedSample where
  index : Nat
  frames : Nat
  data : Bytes
  frames_lt : frames < 2 ^ 32

structure SampleV2 where
  index : Nat
  frames : Nat
  channels : Nat
  bitDepth : Nat
  chunks : List Cid

def SampleV2.toIpld (s : SampleV2) : Ipld :=
  .map [("index", .nat s.index), ("chunks", .links s.chunks), ("frames", .nat s.frames), ("bitDepth", .nat s.bitDepth),
    ("channels", .nat s.channels)]

/-! ### Candidates and the plan -/

/-- The dump of a slot; of two dumps for one slot the later one counts. -/
def dumpByIndex (decoded : List DecodedSample) (index : Nat) : Option DecodedSample :=
  decoded.reverse.find? fun d => d.index == index

/-- A locatable slot and the dump whose length matches it. -/
structure Candidate where
  slot : SampleSlot
  dump : DecodedSample

def candidate (decoded : List DecodedSample) (slot : SampleSlot) : Option Candidate :=
  match dumpByIndex decoded slot.index with
  | none => none
  | some dump => if dump.data.length = 0 ∨ dump.data.length ≠ slot.length then none else some ⟨slot, dump⟩

/-- The slot a PCM offset is joined to: of several slots at one offset, the last one. -/
def idxByOffset (slots : List SampleSlot) (o : Nat) : Option Nat :=
  (slots.reverse.find? fun s => s.offset == o).map SampleSlot.index

def toSlots (slots : List SampleSlot) (offs : List Nat) : List Nat := offs.filterMap (idxByOffset slots)

/-- The checkpoints of the seek tables in terms of slots, those without any dropped. -/
def joinCheckpoints (slots : List SampleSlot) (cps : List SeekCheckpoint) : List Checkpoint :=
  (cps.map fun cp => Checkpoint.mk cp.order (toSlots slots cp.residentOffsets)).filter fun cp => !cp.samples.isEmpty

/-- The seek tables of a module joined to `slots`. Without any checkpoint left, the samples of the opening
make one at order 0. -/
def planJoin (data : Bytes) (format : Format) (slots : List SampleSlot) : Plan :=
  match computeSeekTables data format with
  | none => ⟨[], []⟩
  | some tables =>
    let checkpoints := joinCheckpoints slots tables.checkpoints
    let seg0 := toSlots slots tables.segment0Offsets
    { orderSeconds := tables.orderSeconds
      checkpoints := if !checkpoints.isEmpty then checkpoints else if seg0.isEmpty then [] else [⟨0, seg0⟩] }

/-- Some checkpoint lists the slot. -/
def Plan.covered (p : Plan) (index : Nat) : Bool := p.checkpoints.any fun cp => cp.samples.contains index

/-! ### The skeleton -/

def rawSpan (s : SampleSlot) : Spans.Span := (s.offset, s.offset + s.length)

/-- The on-disk bytes of a compressed slot that are orphaned, where they are known. -/
def orphanSpan (s : SampleSlot) : Option Spans.Span :=
  match s.compressedBytes with
  | none => none
  | some n => if n = 0 then none else some (s.offset, s.offset + n)

def fillSpan (sk : Bytes) (s : Spans.Span) : Bytes := Buffer.fill 0 s.1 s.2 sk

/-- Clear the compression flag of the IT header at `ho` and point its data to `cursor`. -/
def repoint (sk : Bytes) (ho cursor : Nat) : Bytes :=
  let sk := sk.modify (ho + 0x12) (· &&& 0xf7)
  let sk := sk.set (ho + 0x48) (UInt8.ofNat cursor)
  let sk := sk.set (ho + 0x49) (UInt8.ofNat (cursor / 2 ^ 8))
  let sk := sk.set (ho + 0x4a) (UInt8.ofNat (cursor / 2 ^ 16))
  sk.set (ho + 0x4b) (UInt8.ofNat (cursor / 2 ^ 24))

/-- One compressed slot: zero the orphaned bytes, then repoint its header to the next appended zeros. -/
def synthesize (s : Bytes × Nat) (slot : SampleSlot) : Bytes × Nat :=
  let sk := match orphanSpan slot with
    | some span => fillSpan s.1 span
    | none => s.1
  let sk := match slot.headerOffset with
    | some ho => repoint sk ho s.2
    | none => sk
  (sk, s.2 + slot.length)

/-- Copy of `data` with each streamed slot's on-disk PCM zeroed, and the byte ranges that are now zero. -/
def buildSkeletonV2 (data : Bytes) (streamed : List SampleSlot) : Bytes × List Spans.Span :=
  let raw := streamed.filter fun s => !s.compressed
  let comp := streamed.filter fun s => s.compressed
  let extra := (comp.map SampleSlot.length).sum
  let sk := raw.foldl (fun sk s => fillSpan sk (rawSpan s)) (data ++ List.replicate extra 0)
  let (sk, _) := comp.foldl synthesize (sk, data.length)
  let tail := if extra > 0 then [(data.length, sk.length)] else []
  (sk, raw.map rawSpan ++ comp.filterMap orphanSpan ++ tail)

/-- Sort and merge zero spans into disjoint ascending ranges clamped to `[0, len]`. -/
def mergeSpans (spans : List Spans.Span) (len : Nat) : List Spans.Span :=
  let norm := (spans.map fun s => (min s.1 len, min s.2 len)).filter fun s => s.2 > s.1
  Spans.coalesce (norm.insertionSort (·.1 ≤ ·.1))

/-- A run of the recipe: content chunks, then so many zeros. -/
abbrev Run := List Bytes × Nat

/-- Split the skeleton at the zero spans. -/
def skeletonRuns (sk : Bytes) (cdc : CdcConfig) : Nat → List Spans.Span → List Run
  | pos, [] => if pos < sk.length then [(cdcChunks (Buffer.slice sk pos sk.length) cdc, 0)] else []
  | pos, (a, b) :: ss =>
    ((if a > pos then cdcChunks (Buffer.slice sk pos a) cdc else []), b - a) :: skeletonRuns sk cdc b ss

def runChunks (runs : List Run) : List Bytes := runs.flatMap Prod.fst

def runLayout (runs : List Run) : List Nat := runs.flatMap fun r => [r.1.length, r.2]

/-- The runs of the skeleton with the streamed slots taken out. -/
def bakeSkeleton (data : Bytes) (streamed : List SampleSlot) (cdc : CdcConfig) : List Run :=
  let (skeleton, zeroSpans) := buildSkeletonV2 data streamed
  skeletonRuns skeleton cdc 0 (mergeSpans zeroSpans skeleton.length)

/-! ### The manifest -/

/-- A v2, v3 or v4 bake with samples of type `σ`. -/
structure BuiltDagV2 (σ : Type) where
  root : Cid
  skeletonChunks : List Cid
  skeletonLayout : List Nat
  samples : List σ
  plan : Plan
  spilled : Bool
  made : List Payload

def BuiltDagV2.blocks {σ : Type} (c : Codec) (d : BuiltDagV2 σ) : List Block := c.addAll d.made

def indexIpld (samples : List Ipld) (plan : Plan) : Ipld := .map [("plan", plan.toIpld), ("samples", .list samples)]

/-- What a manifest says besides the index. -/
structure ManifestHead where
  v : Nat
  format : Format
  cdc : CdcConfig
  originalLength : Option Nat
  skeletonChunks : List Cid
  skeletonLayout : List Nat

/-- A manifest with its index inline, or with a pointer to it. -/
def ManifestHead.toIpld (m : ManifestHead) (index : Option Ipld) (indexRoot : Option Cid) : Ipld :=
  .map <|
    [("v", .nat m.v), ("cdc", m.cdc.toIpld)] ++ (index.map fun v => ("index", v)).toList ++
    [("format", .str m.format.name)] ++ (indexRoot.map fun cid => ("indexRoot", .link cid)).toList ++
    (m.originalLength.map fun n => ("originalLength", .nat n)).toList ++
    [("skeletonChunks", .links m.skeletonChunks), ("skeletonLayout", .nats m.skeletonLayout)]

/-- Inline the index, or spill it to its own block when the manifest gets too big. -/
def packManifest {σ : Type} (c : Codec) (v : Nat) (format : Format) (cdc : CdcConfig) (originalLength : Option Nat)
    (toIpld : σ → Ipld) (samples : List σ) (plan : Plan) (pcm : List Payload) (runs : List Run) : BuiltDagV2 σ :=
  let skeletonChunks := (runChunks runs).map fun b => (c.rawBlock b).cid
  let head : ManifestHead := ⟨v, format, cdc, originalLength, skeletonChunks, runLayout runs⟩
  let index := indexIpld (samples.map toIpld) plan
  let leaves := pcm ++ (runChunks runs).map .raw
  let inline := head.toIpld (some index) none
  let outline := head.toIpld none (some (c.cborBlock index).cid)
  let spilled := decide ((c.encode inline).length > INDEX_SPILL_BYTES)
  let manifest := if spilled then outline else inline
  { root := (c.cborBlock manifest).cid
    skeletonChunks
    skeletonLayout := runLayout runs
    samples
    plan
    spilled
    made := leaves ++ (if spilled then [.cbor index] else []) ++ [.cbor manifest] }

/-! ### The v2 bake -/

def Candidate.sampleV2 (c : Codec) (cdc : CdcConfig) (cd : Candidate) : SampleV2 :=
  { index := cd.slot.index, frames := cd.dump.frames, channels := cd.slot.channels, bitDepth := cd.slot.bitDepth
    chunks := chunkToCids c cd.dump.data cdc }

/-- The bytes a client fetches before it can play: structure chunks and required-at-0 sample chunks, deduped. -/
def warmBytes (c : Codec) (leaves : List Payload) (skeletonChunks : List Cid) (samples : List SampleV2) (plan : Plan) : Nat :=
  let required := (requiredAtZero plan).flatMap fun ix =>
    ((samples.reverse.find? fun s => s.index == ix).map SampleV2.chunks).getD []
  ((skeletonChunks ++ required).dedup.map fun k =>
    ((BlockStore.find Block.cid (c.addAll leaves) k).map fun b => b.bytes.length).getD 0).sum

/-- A compressed slot is streamed only if the plan covers it, and not at all in a re-bake. -/
def streamedV2 (plan : Plan) (noCompressedStream : Bool) (candidates : List Candidate) : List Candidate :=
  candidates.filter fun cd => !cd.slot.compressed || (!noCompressedStream && plan.covered cd.slot.index)

/-- One pass of the bake. -/
def bakeV2 (c : Codec) (data : Bytes) (format : Format) (candidates : List Candidate) (cdc : CdcConfig)
    (noCompressedStream : Bool) : BuiltDagV2 SampleV2 :=
  let joined := planJoin data format (candidates.map Candidate.slot)
  let streamed := streamedV2 joined noCompressedStream candidates
  let plan := joined.prune (streamed.map fun cd => cd.slot.index)
  packManifest c MANIFEST_V2 format cdc none SampleV2.toIpld (streamed.map (Candidate.sampleV2 c cdc)) plan
    (streamed.flatMap fun cd => leaves cd.dump.data cdc) (bakeSkeleton data (streamed.map Candidate.slot) cdc)

/-- The no-regression gate: a compressed slot was streamed, and that does not save enough. -/
def gateV2 (c : Codec) (data : Bytes) (format : Format) (candidates : List Candidate) (cdc : CdcConfig) : Bool :=
  let joined := planJoin data format (candidates.map Candidate.slot)
  let streamed := streamedV2 joined false candidates
  let d := bakeV2 c data format candidates cdc false
  let leaves := (streamed.flatMap fun cd => leaves cd.dump.data cdc) ++
    (runChunks (bakeSkeleton data (streamed.map Candidate.slot) cdc)).map .raw
  streamed.any (fun cd => cd.slot.compressed) &&
    decide ((data.length : Int) - warmBytes c leaves d.skeletonChunks d.samples d.plan < COMPRESSED_STREAM_MIN_SAVING)

/-- Build the v2 DAG for a parsed module. -/
def buildDagV2 (c : Codec) (data : Bytes) (decoded : List DecodedSample) (cdc : CdcConfig) (noCompressedStream : Bool) :
    Except Fault (BuiltDagV2 SampleV2) :=
  match sampleSlots data none with
  | none => .error (.thrown "unparseable module (cannot locate sample slots)")
  | some (format, slots) =>
    let candidates := slots.filterMap (candidate decoded)
    let rebake := !noCompressedStream && gateV2 c data format candidates cdc
    .ok (bakeV2 c data format candidates cdc (noCompressedStream || rebake))

/-- Whether the bake leaves compressed slots alone, by request or by its own gate. -/
def rebakeV2 (c : Codec) (data : Bytes) (format : Format) (candidates : List Candidate) (cdc : CdcConfig)
    (noCompressedStream : Bool) : Bool :=
  noCompressedStream || (!noCompressedStream && gateV2 c data format candidates cdc)

/-- A v2 bake that succeeds is one pass over the candidates. -/
theorem buildDagV2_ok {c : Codec} {data : Bytes} {decoded : List DecodedSample} {cdc : CdcConfig} {noCompressedStream : Bool}
    {d : BuiltDagV2 SampleV2} (h : buildDagV2 c data decoded cdc noCompressedStream = .ok d) :
    ∃ format slots, sampleSlots data none = some (format, slots) ∧
      d = bakeV2 c data format (slots.filterMap (candidate decoded)) cdc
        (rebakeV2 c data format (slots.filterMap (candidate decoded)) cdc noCompressedStream) := by
  unfold buildDagV2 at h
  split at h
  · cases h
  · exact ⟨_, _, ‹_›, (Except.ok.inj h).symm⟩

/-! ### The skeleton on the client -/

/-- The recipe walked over the content chunks; an odd last entry has no zeros. -/
def assembleRuns : List Nat → List Bytes → Except Fault Bytes
  | [], _ => .ok []
  | [nc], parts => if nc ≤ parts.length then .ok (parts.take nc).flatten else .error .typeError
  | nc :: z :: layout, parts =>
    if nc ≤ parts.length then do
      let rest ← assembleRuns layout (parts.drop nc)
      return (parts.take nc).flatten ++ List.replicate z 0 ++ rest
    else .error .typeError

/-- Reconstruct the normalized skeleton from its content chunks and the zero-fill recipe. -/
def assembleSkeletonV2 (parts : List Bytes) (layout : Option (List Nat)) : Except Fault Bytes :=
  match layout with
  | none | some [] => .ok parts.flatten
  | some layout => assembleRuns layout parts

end TrackerStream
