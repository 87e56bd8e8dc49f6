import TrackerStream.DagV2
import TrackerStream.Flac

/-!
# The v3 and v4 DAGs (`dag.ts`, third part)

v3 adds to each streamed sample its file offset and the `enc` mask that takes its PCM to the bytes on disk,
so that the file can be written back; v4 stores the PCM as FLAC where that is smaller. Neither takes a
module with a compressed slot.
-/

namespace TrackerStream

def MANIFEST_V3 : Nat := 3
def MANIFEST_V4 : Nat := 4

/-- Leaves are planar native PCM. -/
def FLAC_RAW : Nat := 0
/-- Leaves are a FLAC stream. -/
def FLAC_CODEC : Nat := 1

structure SampleV3 extends SampleV2 where
  offset : Nat
  enc : Nat

structure SampleV4 extends SampleV3 where
  encCodec : Nat

def SampleV3.toIpld (s : SampleV3) : Ipld :=
  .map [("enc", .nat s.enc), ("index", .nat s.index), ("chunks", .links s.chunks), ("frames", .nat s.frames),
    ("offset", .nat s.offset), ("bitDepth", .nat s.bitDepth), ("channels", .nat s.channels)]

def SampleV4.toIpld (s : SampleV4) : Ipld :=
  .map [("enc", .nat s.enc), ("index", .nat s.index), ("chunks", .links s.chunks), ("frames", .nat s.frames),
    ("offset", .nat s.offset), ("bitDepth", .nat s.bitDepth), ("channels", .nat s.channels),
    ("encCodec", .nat s.encCodec)]

/-! ### The bakes -/

/-- A candidate and the mask that takes its dump to the bytes on disk. -/
structure Streamed extends Candidate where
  enc : Nat

/-- The on-disk bytes of an uncompressed slot. -/
def onDisk (data : Bytes) (slot : SampleSlot) : Bytes := subarray data slot.offset (slot.offset + slot.length : Nat)

/-- A slot is streamed when its dump matches in length and some mask reproduces the bytes on disk. -/
def streamedV3 (data : Bytes) (decoded : List DecodedSample) (slot : SampleSlot) : Option Streamed :=
  match candidate decoded slot with
  | none => none
  | some cd => (pickEnc cd.dump.data (onDisk data slot) slot.bitDepth slot.channels).map fun enc => ⟨cd, enc⟩

/-- What v3 and v4 both start from. -/
def parseV3 (v : Nat) (data : Bytes) : Except Fault (Format × List SampleSlot) :=
  match sampleSlots data none with
  | none => .error (.thrown "unparseable module (cannot locate sample slots)")
  | some (format, slots) =>
    if slots.any fun s => s.compressed then .error (.thrown s!"v{v}: module has compressed sample(s) — route to v1")
    else .ok (format, slots)

def Streamed.sampleV3 (c : Codec) (cdc : CdcConfig) (s : Streamed) : SampleV3 :=
  { s.toCandidate.sampleV2 c cdc with offset := s.slot.offset, enc := s.enc }

/-- Build the v3 DAG: v2 streaming and byte-exact reassembly metadata. -/
def buildDagV3 (c : Codec) (data : Bytes) (decoded : List DecodedSample) (cdc : CdcConfig) :
    Except Fault (BuiltDagV2 SampleV3) := do
  let (format, slots) ← parseV3 MANIFEST_V3 data
  let streamed := slots.filterMap (streamedV3 data decoded)
  return packManifest c MANIFEST_V3 format cdc (some data.length) SampleV3.toIpld (streamed.map (Streamed.sampleV3 c cdc))
    (planJoin data format (streamed.map fun s => s.slot)) (streamed.flatMap fun s => leaves s.dump.data cdc)
    (bakeSkeleton data (streamed.map fun s => s.slot) cdc)

/-- A streamed slot with the leaf bytes that are stored for it. -/
structure Encoded extends Streamed where
  leaf : Bytes
  encCodec : Nat

/-- FLAC-compress a dump, keep it raw if that does not shrink it. -/
def encodeLeaf (lib : FlacLib) (s : Streamed) : Except Fault Encoded := do
  let flac ← flacEncode lib s.dump.data s.slot.channels s.slot.bitDepth
  let useFlac := decide (flac.length < s.dump.data.length)
  return ⟨s, if useFlac then flac else s.dump.data, if useFlac then FLAC_CODEC else FLAC_RAW⟩

def Encoded.sampleV4 (c : Codec) (cdc : CdcConfig) (e : Encoded) : SampleV4 :=
  { e.toStreamed.sampleV3 c cdc with chunks := chunkToCids c e.leaf cdc, encCodec := e.encCodec }

/-- Build the v4 DAG: a v3 DAG whose sample leaves may be FLAC. -/
def buildDagV4 (c : Codec) (lib : FlacLib) (data : Bytes) (decoded : List DecodedSample) (cdc : CdcConfig) :
    Except Fault (BuiltDagV2 SampleV4) := do
  let (format, slots) ← parseV3 MANIFEST_V4 data
  let streamed := slots.filterMap (streamedV3 data decoded)
  let encoded ← streamed.mapM (encodeLeaf lib)
  return packManifest c MANIFEST_V4 format cdc (some data.length) SampleV4.toIpld (encoded.map (Encoded.sampleV4 c cdc))
    (planJoin data format (streamed.map fun s => s.slot)) (encoded.flatMap fun e => leaves e.leaf cdc)
    (bakeSkeleton data (streamed.map fun s => s.slot) cdc)

/-! ### Reassembly -/

/-- Decode a v4 sample's assembled leaf bytes back to its native PCM. -/
def decodeV4Sample (lib : FlacLib) (leafBytes : Bytes) (s : Ipld) : Except Fault Bytes := do
  if s.get? "encCodec" Ipld.nat? = some FLAC_CODEC then
    flacDecode lib leafBytes (← s.get "bitDepth" Ipld.nat?)
  else return leafBytes

/-- The inline index, else the spilled one. -/
def readIndex (c : Codec) (get : BlockGetter) (verify : Bool) (manifest : Ipld) : Except Fault Ipld :=
  match manifest.field? "index" with
  | none | some .null => do fetchCbor c get verify (← manifest.get "indexRoot" Ipld.link?)
  | some index => .ok index

/-- The skeleton of a manifest. -/
def fetchSkeleton (c : Codec) (get : BlockGetter) (verify : Bool) (manifest : Ipld) : Except Fault Bytes := do
  let skeletonChunks ← manifest.get "skeletonChunks" (Ipld.listOf? Ipld.link?)
  let parts ← skeletonChunks.mapM (fetchVerified c get verify)
  match manifest.field? "skeletonLayout" with
  | none => assembleSkeletonV2 parts none
  | some _ => do assembleSkeletonV2 parts (some (← manifest.get "skeletonLayout" (Ipld.listOf? Ipld.nat?)))

/-- The concatenated leaves of a sample. -/
def fetchLeaves (c : Codec) (get : BlockGetter) (verify : Bool) (s : Ipld) : Except Fault Bytes := do
  let chunks ← (← s.get "chunks" (Ipld.listOf? Ipld.link?)).mapM (fetchVerified c get verify)
  return chunks.flatten

/-- Write `enc(decodedPCM)` back into a sample's file offset. -/
def writeSample (c : Codec) (get : BlockGetter) (verify : Bool) (decode : Bytes → Ipld → Except Fault Bytes) (out : Bytes)
    (s : Ipld) : Except Fault Bytes := do
  let pcm ← decode (← fetchLeaves c get verify s) s
  let enc ← s.get "enc" Ipld.nat?
  let bitDepth ← s.get "bitDepth" Ipld.nat?
  let channels ← s.get "channels" Ipld.nat?
  setAt out (applyEnc enc pcm bitDepth channels) (← s.get "offset" Ipld.nat?)

/-- Reassembly of a manifest of version `v` whose leaves `decode` reads. -/
def reassembleStreamed (v : Nat) (decode : Bytes → Ipld → Except Fault Bytes) (c : Codec) (get : BlockGetter)
    (verify : Bool) (root : Cid) : Except Fault Bytes := do
  let manifest ← fetchCbor c get verify root
  let got := manifest.get? "v" Ipld.nat?
  let shown := got.elim "undefined" toString
  if got ≠ some v then throw (.thrown s!"not a v{v} manifest (v={shown})")
  let index ← readIndex c get verify manifest
  let out ← fetchSkeleton c get verify manifest
  let originalLength ← manifest.get "originalLength" Ipld.nat?
  let n := out.length
  if n ≠ originalLength then throw (.thrown s!"v{v} skeleton length {n} != originalLength {originalLength}")
  let samples ← index.get "samples" Ipld.list?
  samples.foldlM (writeSample c get verify decode) out

/-- Reassemble the byte-exact original file from a v3 root. -/
def reassembleV3 (c : Codec) (get : BlockGetter) (verify : Bool) (root : Cid) : Except Fault Bytes :=
  reassembleStreamed MANIFEST_V3 (fun leaves _ => .ok leaves) c get verify root

/-- Reassemble the byte-exact original file from a v4 root. -/
def reassembleV4 (c : Codec) (lib : FlacLib) (get : BlockGetter) (verify : Bool) (root : Cid) : Except Fault Bytes :=
  reassembleStreamed MANIFEST_V4 (decodeV4Sample lib) c get verify root

end TrackerStream
