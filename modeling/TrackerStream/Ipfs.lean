import TrackerStream.DagV1

/-!
# Block fetching and v1 reassembly on the desktop (`ipfs.rs`)

Blocks are fetched over the RPC and checked against their CID; a dag-cbor body is read into a typed
struct, which fails on a field that is missing or of another type. A batch is fetched concurrently in the
source; a batch that succeeds gives the same map in every order of arrival, and one that fails fails.
-/

namespace TrackerStream.Ipfs

def verify_cid (c : Codec) (cid : Cid) (bytes : Bytes) : Except Fault Unit :=
  let got : Cid := ⟨cid.codec, c.sha256 bytes⟩
  if got ≠ cid then .error (.block cid "failed CID verification") else .ok ()

/-- Fetch one block, verifying its CID. -/
def fetch_bytes (c : Codec) (rpc : BlockGetter) (cid : Cid) : Except Fault Bytes := do
  let bytes ← rpc cid
  verify_cid c cid bytes
  return bytes

/-- `serde_ipld_dagcbor::from_slice` into the type that `de` reads. -/
def from_slice {α : Type} (c : Codec) (de : Ipld → Option α) (bytes : Bytes) : Except Fault α :=
  match (c.decode bytes).bind de with
  | some a => .ok a
  | none => .error .decode

/-- What a batch gives, by CID. -/
abbrev BlockMap := List (Cid × Bytes)

def fetch_many (c : Codec) (rpc : BlockGetter) (cids : List Cid) : Except Fault BlockMap :=
  cids.mapM fun cid => do return (cid, ← fetch_bytes c rpc cid)

/-- A block of a batch; `what` is the error when it is not there. -/
def BlockMap.get (blocks : BlockMap) (what : String) (cid : Cid) : Except Fault Bytes :=
  match blocks.lookup cid with
  | some bytes => .ok bytes
  | none => .error (.block cid what)

/-- `extend_from_slice` over the blocks of a list of CIDs. -/
def concat (blocks : BlockMap) (what : String) (cids : List Cid) : Except Fault Bytes :=
  cids.foldlM (fun acc cid => return acc ++ (← blocks.get what cid)) []

section Faithful
variable {c : Codec} {made : List Payload}

end Faithful

/-! ### v1 reassembly -/

structure Manifest where
  original_length : Nat
  skeleton_chunks : List Cid
  samples : List SampleEntry

def SampleEntry.de (v : Ipld) : Option SampleEntry := do
  let offset ← v.get? "offset" (Ipld.uint? 64)
  let length ← v.get? "length" (Ipld.uint? 64)
  let pcm_root ← v.get? "pcmRoot" Ipld.link?
  return ⟨offset, length, pcm_root⟩

def Manifest.de (v : Ipld) : Option Manifest := do
  let original_length ← v.get? "originalLength" (Ipld.uint? 64)
  let skeleton_chunks ← v.get? "skeletonChunks" (Ipld.listOf? Ipld.link?)
  let samples ← v.get? "samples" (Ipld.listOf? SampleEntry.de)
  return ⟨original_length, skeleton_chunks, samples⟩

structure PcmRoot where
  chunks : List Cid
  length : Nat

def PcmRoot.de (v : Ipld) : Option PcmRoot := do
  let chunks ← v.get? "chunks" (Ipld.listOf? Ipld.link?)
  let length ← v.get? "length" (Ipld.uint? 64)
  return ⟨chunks, length⟩

structure Splice where
  out : Bytes
  skel_cursor : Nat
  prev_end : Nat

/-- `out[i..j].copy_from_slice(src)`. -/
def copy_from_slice (out : Bytes) (i j : Nat) (src : Bytes) : Except Fault Bytes :=
  if i ≤ j ∧ j ≤ out.length ∧ src.length = j - i then .ok (Buffer.blit out i src) else .error .panic

/-- `&b[i..j]`. -/
def slice_index (b : Bytes) (i j : Nat) : Except Fault Bytes :=
  if i ≤ j ∧ j ≤ b.length then .ok (Buffer.slice b i j) else .error .panic

def write_leaf (blocks : BlockMap) (s : Bytes × Nat) (cid : Cid) : Except Fault (Bytes × Nat) := do
  let b ← blocks.get "missing leaf" cid
  let out ← copy_from_slice s.1 s.2 (s.2 + b.length) b
  return (out, s.2 + b.length)

/-- The gap in front of a sample, then the sample. -/
def splice_sample (blocks : BlockMap) (skeleton : Bytes) (s : Splice) (entry : SampleEntry × PcmRoot) :
    Except Fault Splice := do
  let off := entry.1.offset
  if off < s.prev_end then throw .panic
  let gap := off - s.prev_end
  let run ← slice_index skeleton s.skel_cursor (s.skel_cursor + gap)
  let out ← copy_from_slice s.out s.prev_end off run
  let (out, _) ← entry.2.chunks.foldlM (write_leaf blocks) (out, off)
  return ⟨out, s.skel_cursor + gap, off + entry.1.length⟩

/-- Resolve a module root CID to the exact original module bytes. -/
def reassemble (c : Codec) (rpc : BlockGetter) (root : Cid) : Except Fault Bytes := do
  let manifest ← from_slice c Manifest.de (← fetch_bytes c rpc root)
  let pcm_roots ← manifest.samples.mapM fun s => do from_slice c PcmRoot.de (← fetch_bytes c rpc s.pcmRoot)
  let leaf_cids := manifest.skeleton_chunks ++ pcm_roots.flatMap PcmRoot.chunks
  let leaves ← fetch_many c rpc leaf_cids
  let skeleton ← concat leaves "missing leaf" manifest.skeleton_chunks
  let s ← (manifest.samples.zip pcm_roots).foldlM (splice_sample leaves skeleton)
    ⟨List.replicate manifest.original_length 0, 0, 0⟩
  copy_from_slice s.out s.prev_end s.out.length (← slice_index skeleton s.skel_cursor skeleton.length)

end TrackerStream.Ipfs
