import TrackerStream.Ipfs
import TrackerStream.Flac

/-!
# v3 and v4 reassembly on the desktop (`ipfs.rs`)

The same walk as in TypeScript over typed bodies: one batch for all blocks, the skeleton from the recipe,
then `enc` of each sample's decoded PCM at its offset.
-/

namespace TrackerStream.Ipfs

structure SampleV3 where
  index : Nat
  frames : Nat
  channels : Nat
  bit_depth : Nat
  chunks : List Cid
  offset : Nat
  enc : Nat
  enc_codec : Nat

def SampleV3.de (v : Ipld) : Option SampleV3 := do
  let index ← v.get? "index" (Ipld.uint? 32)
  let frames ← v.get? "frames" (Ipld.uint? 32)
  let channels ← v.get? "channels" (Ipld.uint? 32)
  let bit_depth ← v.get? "bitDepth" (Ipld.uint? 32)
  let chunks ← v.get? "chunks" (Ipld.listOf? Ipld.link?)
  let offset ← v.get? "offset" (Ipld.uint? 64)
  let enc ← v.get? "enc" (Ipld.uint? 32)
  let enc_codec ← v.getD? "encCodec" (Ipld.uint? 8) 0
  return ⟨index, frames, channels, bit_depth, chunks, offset, enc, enc_codec⟩

structure IndexV3 where
  samples : List SampleV3

def IndexV3.de (v : Ipld) : Option IndexV3 := do return ⟨← v.get? "samples" (Ipld.listOf? SampleV3.de)⟩

structure ManifestV3 where
  original_length : Nat
  skeleton_chunks : List Cid
  skeleton_layout : List Nat
  index : Option IndexV3
  index_root : Option Cid

def ManifestV3.de (v : Ipld) : Option ManifestV3 := do
  let original_length ← v.get? "originalLength" (Ipld.uint? 64)
  let skeleton_chunks ← v.get? "skeletonChunks" (Ipld.listOf? Ipld.link?)
  let skeleton_layout ← v.getD? "skeletonLayout" (Ipld.listOf? (Ipld.uint? 64)) []
  let index ← v.getOpt? "index" IndexV3.de
  let index_root ← v.getOpt? "indexRoot" Ipld.link?
  return ⟨original_length, skeleton_chunks, skeleton_layout, index, index_root⟩

/-- v4 leaf codec. -/
def FLAC_CODEC : Nat := 1

/-- Turn a sample's assembled leaf bytes into its decoded native PCM. -/
def decode_sample (lib : FlacLib) (leaf : Bytes) (channels bit_depth enc_codec : Nat) : Except Fault Bytes :=
  if enc_codec = FLAC_CODEC then flac_decode lib leaf channels bit_depth else .ok leaf

/-- Emit `nc` content chunks; gives those still ahead. -/
def emit_chunks (blocks : BlockMap) : Nat → List Cid → Bytes → Except Fault (Bytes × List Cid)
  | 0, chunks, out => .ok (out, chunks)
  | _ + 1, [], _ => .error (.thrown "skeleton layout overruns chunk list")
  | nc + 1, c :: chunks, out => do emit_chunks blocks nc chunks (out ++ (← blocks.get "missing skeleton chunk" c))

/-- The recipe pair by pair; an odd last entry has no zeros. -/
def walk_layout (blocks : BlockMap) : List Nat → List Cid → Bytes → Except Fault Bytes
  | [], _, out => .ok out
  | [nc], chunks, out => do return (← emit_chunks blocks nc chunks out).1
  | nc :: z :: layout, chunks, out => do
    let (out, chunks) ← emit_chunks blocks nc chunks out
    walk_layout blocks layout chunks (out ++ List.replicate z 0)

/-- Reconstruct the normalized skeleton from its content chunks and the zero-fill recipe. -/
def assemble_skeleton (chunks : List Cid) (layout : List Nat) (blocks : BlockMap) : Except Fault Bytes :=
  if layout.isEmpty then concat blocks "missing skeleton chunk" chunks else walk_layout blocks layout chunks []

/-- Decode one sample and write its on-disk bytes. -/
def write_sample (lib : FlacLib) (blocks : BlockMap) (out : Bytes) (s : SampleV3) : Except Fault Bytes := do
  let pcm ← concat blocks "missing sample chunk" s.chunks
  let pcm ← decode_sample lib pcm s.channels s.bit_depth s.enc_codec
  let enc := apply_enc s.enc pcm s.bit_depth s.channels
  let off := s.offset
  let n := enc.length
  let len := out.length
  if off + n > len then throw (.thrown s!"v3 sample at {off} (+{n}) overruns {len}")
  copy_from_slice out off (off + n) enc

/-- The inline index, else the spilled one. -/
def ManifestV3.read_index (c : Codec) (rpc : BlockGetter) (manifest : ManifestV3) : Except Fault IndexV3 :=
  match manifest.index, manifest.index_root with
  | some ix, _ => .ok ix
  | none, none => .error (.thrown "v3 manifest missing index + indexRoot")
  | none, some ir => do from_slice c IndexV3.de (← fetch_bytes c rpc ir)

/-- Reassemble the byte-exact original from a v3 or v4 root. -/
def reassemble_v3 (c : Codec) (lib : FlacLib) (rpc : BlockGetter) (root : Cid) : Except Fault Bytes := do
  let manifest ← from_slice c ManifestV3.de (← fetch_bytes c rpc root)
  let index ← manifest.read_index c rpc
  let all := manifest.skeleton_chunks ++ index.samples.flatMap SampleV3.chunks
  let blocks ← fetch_many c rpc all
  let out ← assemble_skeleton manifest.skeleton_chunks manifest.skeleton_layout blocks
  let n := out.length
  let original_length := manifest.original_length
  if n ≠ original_length then throw (.thrown s!"v3 skeleton length {n} != originalLength {original_length}")
  index.samples.foldlM (write_sample lib blocks) out

end TrackerStream.Ipfs
