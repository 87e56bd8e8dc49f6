import TrackerStream.Cdc
import TrackerStream.SeekFormats
import TrackerStream.Plan

/-!
# The v1 DAG (`dag.ts`, first part)

A module is cut into its sample regions, each under a pcm-root of its own, and the skeleton of everything
else; `reassemble` splices them back. `made` lists what a bake passes to `add`, in that order, so that
`c.addAll made` is its list of unique blocks.
-/

namespace TrackerStream

structure SampleEntry where
  offset : Nat
  length : Nat
  pcmRoot : Cid
deriving DecidableEq, Repr

structure Manifest where
  format : String
  originalLength : Nat
  cdc : CdcConfig
  skeletonChunks : List Cid
  samples : List SampleEntry
  segment0 : Option (List Nat)
  seek : Option Plan

def CdcConfig.toIpld (cfg : CdcConfig) : Ipld := .map [("avg", .int cfg.avg), ("max", .int cfg.max), ("min", .int cfg.min)]

def SampleEntry.toIpld (s : SampleEntry) : Ipld :=
  .map [("length", .nat s.length), ("offset", .nat s.offset), ("pcmRoot", .link s.pcmRoot)]

def pcmRootIpld (chunks : List Cid) (length : Nat) : Ipld := .map [("chunks", .links chunks), ("length", .nat length)]

def Manifest.toIpld (m : Manifest) : Ipld :=
  .map <|
    [("v", .nat 1), ("cdc", m.cdc.toIpld)] ++
    (m.seek.map fun p => ("seek", p.toIpld)).toList ++
    [("format", .str m.format), ("samples", .list (m.samples.map SampleEntry.toIpld))] ++
    (m.segment0.map fun ixs => ("segment0", .nats ixs)).toList ++
    [("originalLength", .nat m.originalLength), ("skeletonChunks", .links m.skeletonChunks)]

/-- `out.set(src, off)`. -/
def setAt (out src : Bytes) (off : Nat) : Except Fault Bytes :=
  match Buffer.blit? out off src with
  | some r => .ok r
  | none => .error .rangeError

theorem setAt_ok {out src : Bytes} {off : Nat} (h : off + src.length ≤ out.length) :
    setAt out src off = .ok (Buffer.blit out off src) := by
  rw [setAt, Buffer.blit?_eq _ h]

/-! ### The bake -/

structure SkeletonCopy where
  skel : Bytes
  w : Nat
  prevEnd : Nat

/-- Copy the gap in front of one region. -/
def copyGap (data : Bytes) (s : SkeletonCopy) (r : SampleRegion) : Except Fault SkeletonCopy := do
  let gap := subarray data s.prevEnd r.offset
  let skel ← setAt s.skel gap s.w
  return ⟨skel, s.w + gap.length, r.offset + r.length⟩

/-- Concatenate the non-sample byte runs in file order. -/
def buildSkeleton (data : Bytes) (regions : List SampleRegion) : Except Fault Bytes := do
  let total := (regions.map SampleRegion.length).sum
  if data.length < total then throw .rangeError
  let s ← regions.foldlM (copyGap data) ⟨List.replicate (data.length - total) 0, 0, 0⟩
  setAt s.skel (subarray data s.prevEnd data.length) s.w

/-- The leaves of a buffer and the ordered chunk CIDs (`chunkToCids`). -/
def leaves (buf : Bytes) (cdc : CdcConfig) : List Payload := (cdcChunks buf cdc).map .raw

def chunkToCids (c : Codec) (buf : Bytes) (cdc : CdcConfig) : List Cid := (cdcChunks buf cdc).map fun b => (c.rawBlock b).cid

structure BuiltDag where
  root : Cid
  manifest : Manifest
  made : List Payload

/-- Unique blocks (deduped by CID within this module). -/
def BuiltDag.blocks (c : Codec) (d : BuiltDag) : List Block := c.addAll d.made

def regionPcm (data : Bytes) (r : SampleRegion) : Bytes := subarray data r.offset (r.offset + r.length : Nat)

/-- The pcm-root of one region. -/
def pcmRoot (c : Codec) (data : Bytes) (cdc : CdcConfig) (r : SampleRegion) : Ipld :=
  pcmRootIpld (chunkToCids c (regionPcm data r) cdc) r.length

/-- Offsets to indices into `samples[]`; of two samples at one offset the later one is meant. -/
def toIdx (samples : List SampleEntry) (offs : List Nat) : List Nat :=
  offs.filterMap fun o => (samples.zipIdx.reverse.find? fun (s, _) => s.offset == o).map Prod.snd

def Format.ofName? (name : String) : Option Format :=
  [Format.mod, .it, .s3m, .xm, .mptm, .mo3].find? fun f => f.name == name

/-- The seek-support fields of a manifest. -/
def seekFields (data : Bytes) (format : String) (samples : List SampleEntry) : Option (List Nat) × Option Plan :=
  match (Format.ofName? format).bind (computeSeekTables data) with
  | none => (none, none)
  | some tables =>
    let segment0 := toIdx samples tables.segment0Offsets
    let checkpoints := (tables.checkpoints.map fun cp => Checkpoint.mk cp.order (toIdx samples cp.residentOffsets)).filter
      fun cp => !cp.samples.isEmpty
    (if segment0.isEmpty then none else some segment0,
      if checkpoints.isEmpty then none else some ⟨tables.orderSeconds, checkpoints⟩)

def buildFromRegions (c : Codec) (data : Bytes) (format : String) (regions : List SampleRegion) (cdc : CdcConfig) :
    Except Fault BuiltDag := do
  let samples := regions.map fun r => SampleEntry.mk r.offset r.length (c.cborBlock (pcmRoot c data cdc r)).cid
  let skeleton ← buildSkeleton data regions
  let (segment0, seek) := if regions.isEmpty then (none, none) else seekFields data format samples
  let manifest : Manifest :=
    { format, originalLength := data.length, cdc, skeletonChunks := chunkToCids c skeleton cdc, samples, segment0, seek }
  return {
    root := (c.cborBlock manifest.toIpld).cid
    manifest
    made := (regions.flatMap fun r => leaves (regionPcm data r) cdc ++ [.cbor (pcmRoot c data cdc r)]) ++
      leaves skeleton cdc ++ [.cbor manifest.toIpld] }

/-- Build the content-addressed DAG for a module buffer (sample-level dedup). -/
def buildDag (c : Codec) (data : Bytes) (cdc : CdcConfig) : Except Fault BuiltDag :=
  match sampleRegions data none with
  | none => .error (.thrown "unparseable module (cannot locate sample regions)")
  | some (format, regions) => buildFromRegions c data format.name regions cdc

/-- Whole-file CDC DAG (no sample separation). -/
def buildFlatDag (c : Codec) (data : Bytes) (format : String) (cdc : CdcConfig) : Except Fault BuiltDag :=
  buildFromRegions c data format [] cdc

/-! ### Reassembly -/

structure Splice where
  out : Bytes
  skelCursor : Int
  prevEnd : Int

/-- `out.set(src, off)` for an offset that may be negative. -/
def setAtInt (out src : Bytes) (off : Int) : Except Fault Bytes :=
  if off < 0 then .error .rangeError else setAt out src off.toNat

/-- Write one leaf behind those written before. -/
def writeLeaf (c : Codec) (get : BlockGetter) (verify : Bool) (s : Bytes × Nat) (cid : Cid) : Except Fault (Bytes × Nat) := do
  let chunk ← fetchVerified c get verify cid
  let out ← setAt s.1 chunk s.2
  return (out, s.2 + chunk.length)

/-- The gap in front of a sample, then the sample. -/
def spliceSample (c : Codec) (get : BlockGetter) (verify : Bool) (skeleton : Bytes) (s : Splice) (entry : Ipld) :
    Except Fault Splice := do
  let offset ← entry.get "offset" Ipld.nat?
  let gap := offset - s.prevEnd
  let out ← setAtInt s.out (subarray skeleton s.skelCursor (s.skelCursor + gap)) s.prevEnd
  let pcmRoot ← fetchCbor c get verify (← entry.get "pcmRoot" Ipld.link?)
  let chunks ← pcmRoot.get "chunks" (Ipld.listOf? Ipld.link?)
  let (out, _) ← chunks.foldlM (writeLeaf c get verify) (out, offset)
  let length ← entry.get "length" Ipld.nat?
  return ⟨out, s.skelCursor + gap, offset + length⟩

/-- Reassemble the exact original module bytes from its DAG, fetching blocks via `get`. -/
def reassemble (c : Codec) (get : BlockGetter) (verify : Bool) (root : Cid) : Except Fault Bytes := do
  let manifest ← fetchCbor c get verify root
  let skeletonChunks ← manifest.get "skeletonChunks" (Ipld.listOf? Ipld.link?)
  let skelParts ← skeletonChunks.mapM (fetchVerified c get verify)
  let skeleton := skelParts.flatten
  let originalLength ← manifest.get "originalLength" Ipld.nat?
  let samples ← manifest.get "samples" Ipld.list?
  let s ← samples.foldlM (spliceSample c get verify skeleton) ⟨List.replicate originalLength 0, 0, 0⟩
  setAtInt s.out (subarray skeleton s.skelCursor skeleton.length) s.prevEnd

end TrackerStream
