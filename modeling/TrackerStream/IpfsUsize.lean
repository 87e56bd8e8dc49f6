import TrackerStream.IpfsV3
import TrackerStream.Panics

/-!
# Reassembly on a 64-bit machine (`ipfs.rs`)

`reassemble` and `reassemble_v3` with what a Rust build checks: `usize` arithmetic, the ranges of slices and copies, indices,
and the size of a buffer. A panic is apart from an `Err`. What does not panic is reassembly over numbers
(`reassemble_refines`, `reassemble_v3_refines`). Memory that runs out below the largest size is left out.
-/

namespace TrackerStream.Ipfs.Usize
open Panics

abbrev Rust (α : Type) := Run Fault α

/-- `extend_from_slice` over the blocks of a list of CIDs. -/
def extend (blocks : BlockMap) (what : String) (out : Bytes) (cids : List Cid) : Rust Bytes :=
  cids.foldlM (fun acc cid => do grow (acc ++ (← lift (blocks.get what cid)))) out

/-! ### v1 -/

def write_leaf (blocks : BlockMap) (s : Bytes × Nat) (cid : Cid) : Rust (Bytes × Nat) := do
  let b ← lift (blocks.get "missing leaf" cid)
  let w ← add s.2 b.length
  let out ← copy s.1 s.2 w b
  return (out, w)

def splice_sample (blocks : BlockMap) (skeleton : Bytes) (s : Splice) (entry : SampleEntry × PcmRoot) : Rust Splice := do
  let off := entry.1.offset
  let gap ← sub off s.prev_end
  let skel_cursor ← add s.skel_cursor gap
  let run ← slice skeleton s.skel_cursor skel_cursor
  let out ← copy s.out s.prev_end off run
  let (out, _) ← entry.2.chunks.foldlM (write_leaf blocks) (out, off)
  let prev_end ← add off entry.1.length
  return ⟨out, skel_cursor, prev_end⟩

/-- The rest of the skeleton, behind the last sample. -/
def splice_rest (skeleton : Bytes) (s : Splice) : Rust Bytes := do
  let run ← slice skeleton s.skel_cursor skeleton.length
  copy s.out s.prev_end s.out.length run

def splice (leaves : BlockMap) (skeleton : Bytes) (total : Nat) (samples : List (SampleEntry × PcmRoot)) : Rust Bytes := do
  let out ← grow (List.replicate total 0)
  let s ← samples.foldlM (splice_sample leaves skeleton) ⟨out, 0, 0⟩
  splice_rest skeleton s

def reassemble (c : Codec) (rpc : BlockGetter) (root : Cid) : Rust Bytes := do
  let manifest ← lift (fetch_bytes c rpc root >>= from_slice c Manifest.de)
  let pcm_roots ← lift (manifest.samples.mapM fun s => do from_slice c PcmRoot.de (← fetch_bytes c rpc s.pcmRoot))
  let leaf_cids := manifest.skeleton_chunks ++ pcm_roots.flatMap PcmRoot.chunks
  let leaves ← lift (fetch_many c rpc leaf_cids)
  let skeleton ← extend leaves "missing leaf" [] manifest.skeleton_chunks
  splice leaves skeleton manifest.original_length (manifest.samples.zip pcm_roots)

/-! ### v3 and v4 -/

def emit_chunks (blocks : BlockMap) : Nat → List Cid → Bytes → Rust (Bytes × List Cid)
  | 0, chunks, out => .ok (out, chunks)
  | _ + 1, [], _ => .error (.err (.thrown "skeleton layout overruns chunk list"))
  | nc + 1, c :: chunks, out => do
    let b ← lift (blocks.get "missing skeleton chunk" c)
    let out ← grow (out ++ b)
    emit_chunks blocks nc chunks out

/-- `out.resize(out.len() + z, 0)`. -/
def resize (out : Bytes) (z : Nat) : Rust Bytes := do
  let _ ← add out.length z
  grow (out ++ List.replicate z 0)

def walk_layout (blocks : BlockMap) : List Nat → List Cid → Bytes → Rust Bytes
  | [], _, out => .ok out
  | [nc], chunks, out => do
    let s ← emit_chunks blocks nc chunks out
    resize s.1 0
  | nc :: z :: layout, chunks, out => do
    let s ← emit_chunks blocks nc chunks out
    let out ← resize s.1 z
    walk_layout blocks layout s.2 out

def assemble_skeleton (chunks : List Cid) (layout : List Nat) (blocks : BlockMap) : Rust Bytes :=
  if layout.isEmpty then extend blocks "missing skeleton chunk" [] chunks else walk_layout blocks layout chunks []

/-- The positions at which the loop over stereo frames reads and writes, channel by channel on one side. -/
def frameIndices (bps frames : Nat) : List Nat :=
  (List.range frames).flatMap fun f => (List.range 2).flatMap fun c => (List.range bps).flatMap fun b =>
    [(f * 2 + c) * bps + b, (c * frames + f) * bps + b]

def apply_enc (enc : Nat) (d : Bytes) (bit_depth channels : Nat) : Rust Bytes := do
  let bps := bytesPerSample bit_depth
  let deint := hasBit enc ENC_DEINT && channels == 2
  touch d.length (if deint && d.length % (bps * 2) == 0 then frameIndices bps (d.length / (bps * 2)) else [])
  touch d.length (if hasBit enc ENC_DELTA then (deltaWrites bps (if deint then 2 else 1) d).map (·.1) else [])
  return Ipfs.apply_enc enc d bit_depth channels

def flac_decode (lib : FlacLib) (bytes : Bytes) (channels bit_depth : Nat) : Rust Bytes := do
  let samples ← lift (lib.claxon bytes)
  let bps := bytesPerSample bit_depth
  let inter ← grow (samples.flatMap (leBytes bps))
  touch inter.length (if channels = 2 ∧ inter.length % (2 * bps) = 0 then frameIndices bps (inter.length / (2 * bps)) else [])
  lift (Ipfs.flac_decode lib bytes channels bit_depth)

def decode_sample (lib : FlacLib) (leaf : Bytes) (channels bit_depth enc_codec : Nat) : Rust Bytes :=
  if enc_codec = FLAC_CODEC then flac_decode lib leaf channels bit_depth else .ok leaf

def write_sample (lib : FlacLib) (blocks : BlockMap) (out : Bytes) (s : SampleV3) : Rust Bytes := do
  let leaf ← extend blocks "missing sample chunk" [] s.chunks
  let pcm ← decode_sample lib leaf s.channels s.bit_depth s.enc_codec
  let enc ← apply_enc s.enc pcm s.bit_depth s.channels
  let off := s.offset
  let n := enc.length
  let len := out.length
  let stop ← add off n
  if stop > len then throw (.err (.thrown s!"v3 sample at {off} (+{n}) overruns {len}"))
  copy out off stop enc

def reassemble_v3 (c : Codec) (lib : FlacLib) (rpc : BlockGetter) (root : Cid) : Rust Bytes := do
  let manifest ← lift (fetch_bytes c rpc root >>= from_slice c ManifestV3.de)
  let index ← lift (manifest.read_index c rpc)
  let all := manifest.skeleton_chunks ++ index.samples.flatMap SampleV3.chunks
  let blocks ← lift (fetch_many c rpc all)
  let out ← assemble_skeleton manifest.skeleton_chunks manifest.skeleton_layout blocks
  let n := out.length
  let original_length := manifest.original_length
  if n ≠ original_length then throw (.err (.thrown s!"v3 skeleton length {n} != originalLength {original_length}"))
  index.samples.foldlM (write_sample lib blocks) out

/-! ### What is in a DAG -/

/-- The bytes a fetch of `cid` gives. -/
def held (c : Codec) (rpc : BlockGetter) (cid : Cid) : Bytes :=
  match fetch_bytes c rpc cid with
  | .ok b => b
  | .error _ => []

def size (c : Codec) (rpc : BlockGetter) (cids : List Cid) : Nat := (cids.map fun cid => (held c rpc cid).length).sum

def Fetched (c : Codec) (rpc : BlockGetter) (cids : List Cid) : Prop := ∀ cid ∈ cids, ∃ b, fetch_bytes c rpc cid = .ok b

/-- All of a v1 DAG is there. -/
structure V1Dag (c : Codec) (rpc : BlockGetter) (root : Cid) (m : Manifest) (roots : List PcmRoot) : Prop where
  manifest : (fetch_bytes c rpc root >>= from_slice c Manifest.de) = .ok m
  pcm_roots : (m.samples.mapM fun s => do from_slice c PcmRoot.de (← fetch_bytes c rpc s.pcmRoot)) = .ok roots
  leaves : Fetched c rpc (m.skeleton_chunks ++ roots.flatMap PcmRoot.chunks)

/-- Samples one behind the other from `pos` on within `total` bytes, each with the size of its leaves. -/
def InOrder (total : Nat) : Nat → List (SampleEntry × Nat) → Prop
  | pos, [] => pos ≤ total
  | pos, s :: samples =>
    pos ≤ s.1.offset ∧ s.1.offset + s.2 ≤ total ∧ InOrder total (s.1.offset + s.1.length) samples

/-- The samples and the skeleton make up the file. -/
structure Laid (c : Codec) (rpc : BlockGetter) (m : Manifest) (roots : List PcmRoot) : Prop where
  addressable : m.original_length ≤ ISIZE_MAX
  in_order : InOrder m.original_length 0 (m.samples.zip (roots.map fun r => size c rpc r.chunks))
  skeleton : size c rpc m.skeleton_chunks + (m.samples.map (·.length)).sum = m.original_length

/-- All of a v3 DAG is there. -/
structure V3Dag (c : Codec) (rpc : BlockGetter) (root : Cid) (m : ManifestV3) (index : IndexV3) : Prop where
  manifest : (fetch_bytes c rpc root >>= from_slice c ManifestV3.de) = .ok m
  index_read : m.read_index c rpc = .ok index
  blocks : Fetched c rpc (m.skeleton_chunks ++ index.samples.flatMap SampleV3.chunks)

/-- The chunks a recipe asks for. -/
def contents : List Nat → Nat
  | [] => 0
  | [nc] => nc
  | nc :: _ :: layout => nc + contents layout

/-- The bytes a recipe emits with chunks of these sizes, up to where it overruns them. -/
def emitted : List Nat → List Nat → Nat
  | [], _ => 0
  | [nc], sizes => (sizes.take nc).sum
  | nc :: z :: layout, sizes =>
    (sizes.take nc).sum + if nc ≤ sizes.length then z + emitted layout (sizes.drop nc) else 0

def skeletonSize (layout sizes : List Nat) : Nat := if layout.isEmpty then sizes.sum else emitted layout sizes

section
variable (c : Codec) (lib : FlacLib) (rpc : BlockGetter)

def leafBytes (s : SampleV3) : Bytes := s.chunks.flatMap (held c rpc)

def decoded (s : SampleV3) : Except Fault Bytes :=
  Ipfs.decode_sample lib (leafBytes c rpc s) s.channels s.bit_depth s.enc_codec

/-- A sample that is decoded and lies within `total` bytes. -/
def Placed (total : Nat) (s : SampleV3) : Prop := ∃ pcm, decoded c lib rpc s = .ok pcm ∧ s.offset + pcm.length ≤ total

/-- A sample whose leaves, decoded samples and end can be addressed. -/
structure Addressable (s : SampleV3) : Prop where
  leaf : (leafBytes c rpc s).length ≤ ISIZE_MAX
  unpacked : s.enc_codec = FLAC_CODEC → ∀ samples, lib.claxon (leafBytes c rpc s) = .ok samples →
    samples.length * bytesPerSample s.bit_depth ≤ ISIZE_MAX
  stop : ∀ pcm, decoded c lib rpc s = .ok pcm → s.offset + pcm.length < 2 ^ USIZE_BITS

/-- The recipe and every sample up to the first that fails can be addressed. -/
structure Bounded (m : ManifestV3) (index : IndexV3) : Prop where
  skeleton : skeletonSize m.skeleton_layout (m.skeleton_chunks.map fun cid => (held c rpc cid).length) ≤ ISIZE_MAX
  samples : contents m.skeleton_layout ≤ m.skeleton_chunks.length →
    skeletonSize m.skeleton_layout (m.skeleton_chunks.map fun cid => (held c rpc cid).length) = m.original_length →
    ∀ before s after, index.samples = before ++ s :: after → (∀ p ∈ before, Placed c lib rpc m.original_length p) →
      Addressable c lib rpc s

end

end TrackerStream.Ipfs.Usize
