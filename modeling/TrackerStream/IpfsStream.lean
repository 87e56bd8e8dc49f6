import TrackerStream.IpfsV3
import TrackerStream.Stream
import TrackerStream.Worklist

/-!
# Streaming on the desktop (`ipfs.rs`, `stream_v2`)

The skeleton and the samples required at order 0 come in one batch; the others follow one by one, each time
the one whose next checkpoint is nearest ahead of the playhead. Blocks may answer differently at every step
and the playhead moves, so a run sees a `World`.
-/

namespace TrackerStream.Ipfs

structure SampleV2 where
  index : Nat
  frames : Nat
  channels : Nat
  bit_depth : Nat
  chunks : List Cid
  enc_codec : Nat

def SampleV2.de (v : Ipld) : Option SampleV2 := do
  let index ← v.get? "index" (Ipld.uint? 32)
  let frames ← v.get? "frames" (Ipld.uint? 32)
  let channels ← v.getD? "channels" (Ipld.uint? 32) 0
  let bit_depth ← v.getD? "bitDepth" (Ipld.uint? 32) 0
  let chunks ← v.get? "chunks" (Ipld.listOf? Ipld.link?)
  let enc_codec ← v.getD? "encCodec" (Ipld.uint? 8) 0
  return ⟨index, frames, channels, bit_depth, chunks, enc_codec⟩

def CheckpointV2.de (v : Ipld) : Option Checkpoint := do
  let order ← v.get? "order" (Ipld.uint? 32)
  let samples ← v.get? "samples" (Ipld.listOf? (Ipld.uint? 32))
  return ⟨order, samples⟩

def OrderSec.de (v : Ipld) : Option OrderSeconds := do
  let order ← v.get? "order" (Ipld.uint? 32)
  let seconds ← v.get? "seconds" Ipld.number?
  return ⟨order, seconds⟩

def PlanV2.de : Ipld → Option Plan
  | .map fields => do
    let checkpoints ← (Ipld.map fields).getD? "checkpoints" (Ipld.listOf? CheckpointV2.de) []
    let order_seconds ← (Ipld.map fields).getD? "orderSeconds" (Ipld.listOf? OrderSec.de) []
    return ⟨order_seconds, checkpoints⟩
  | _ => none

structure IndexV2 where
  samples : List SampleV2
  plan : Plan

def IndexV2.de (v : Ipld) : Option IndexV2 := do
  let samples ← v.get? "samples" (Ipld.listOf? SampleV2.de)
  let plan ← v.getD? "plan" PlanV2.de ⟨[], []⟩
  return ⟨samples, plan⟩

structure ManifestV2 where
  skeleton_chunks : List Cid
  skeleton_layout : List Nat
  index : Option IndexV2
  index_root : Option Cid

def ManifestV2.de (v : Ipld) : Option ManifestV2 := do
  let skeleton_chunks ← v.get? "skeletonChunks" (Ipld.listOf? Ipld.link?)
  let skeleton_layout ← v.getD? "skeletonLayout" (Ipld.listOf? (Ipld.uint? 64)) []
  let index ← v.getOpt? "index" IndexV2.de
  let index_root ← v.getOpt? "indexRoot" Ipld.link?
  return ⟨skeleton_chunks, skeleton_layout, index, index_root⟩

/-- Just the manifest version; a body without one, or one that does not decode, reads as 0. -/
def manifest_version (c : Codec) (bytes : Bytes) : Nat :=
  ((c.decode bytes).bind fun v => v.getD? "v" (Ipld.uint? 8) 0).getD 0

/-- Sample slots that must be resident before playback may proceed at `order`. -/
def required_at (plan : Plan) (order : Nat) : List Nat :=
  let cps := sortByOrder plan.checkpoints
  if cps.isEmpty then []
  else
    let floor := lastIdx (fun cp => cp.order ≤ order) cps
    sortedSet (unionRange cps (max floor 0) (min (max (floor + 1) 0) (cps.length - 1)))

/-- The orders of the checkpoints that list a slot. -/
def orders_for (plan : Plan) (index : Nat) : Option (List Nat) :=
  let orders := plan.checkpoints.flatMap fun cp => (cp.samples.filter (· == index)).map fun _ => cp.order
  if orders.isEmpty then none else some orders

/-- Forward distance from the playhead to the nearest checkpoint that needs a sample; those all behind it come
after those ahead, and those in no checkpoint last. -/
def need_key (orders : Option (List Nat)) (ph : Nat) : Nat :=
  match orders with
  | none | some [] => 2 ^ 64 - 2
  | some os =>
    match (os.filter (ph ≤ ·)).min? with
    | some fwd => fwd - ph
    | none => 1000000000 + (ph - os.max?.getD 0)

/-- What a run meets: at each step the blocks it can get, and the playhead. The manifest is fetched at step 0, the
index at 1, the first batch at 2 and the `i`-th of the other samples at `3 + i`. -/
structure World where
  rpc : Nat → BlockGetter
  playhead : Nat → Nat
  playhead_lt : ∀ i, playhead i < 2 ^ 32

section Run
variable (c : Codec) (lib : FlacLib) (world : World)

/-- The position of a remaining sample with the smallest key: the first of those. -/
def best_of (plan : Plan) (remaining : List SampleV2) (ph : Nat) : Nat :=
  Worklist.firstMin (2 ^ 64 - 1) (fun s => need_key (orders_for plan s.index) ph) remaining

/-- The leaves of a sample out of a batch, decoded. -/
def sample_pcm (blocks : BlockMap) (what : String) (s : SampleV2) : Except Fault Bytes := do
  decode_sample lib (← concat blocks what s.chunks) s.channels s.bit_depth s.enc_codec

/-- The loop over the samples not required at order 0, from its `i`-th step on. -/
def stream_remaining (plan : Plan) : Nat → Nat → List SampleV2 → Stream PUnit
  | 0, _, _ => pure ⟨⟩
  | n + 1, i, remaining =>
    let best := best_of plan remaining (world.playhead i)
    match remaining[best]? with
    | none => pure ⟨⟩
    | some s => do
      let blocks ← Traced.log (.fetch s.chunks) (fetch_many c (world.rpc (3 + i)) s.chunks)
      deliver s.index s.frames (sample_pcm lib blocks "missing chunk" s)
      stream_remaining plan n (i + 1) (Worklist.swapRemove remaining best)

/-- The inline index, else the spilled one. -/
def ManifestV2.read_index (manifest : ManifestV2) : Stream IndexV2 :=
  match manifest.index, manifest.index_root with
  | some ix, _ => pure ix
  | none, none => Traced.lift (.error (.thrown "v2 manifest missing index + indexRoot"))
  | none, some ir => do
    let bytes ← Traced.log (.fetch [ir]) (fetch_bytes c (world.rpc 1) ir)
    Traced.lift (from_slice c IndexV2.de bytes)

/-- The plan without the slots that are not streamed. -/
def IndexV2.pruned (ix : IndexV2) : Plan := ix.plan.prune (ix.samples.map SampleV2.index)

/-- The samples that the plan requires at order 0. -/
def IndexV2.required0 (ix : IndexV2) : List SampleV2 :=
  ix.samples.filter fun s => (required_at ix.pruned 0).contains s.index

def IndexV2.remaining (ix : IndexV2) : List SampleV2 :=
  let delivered := ix.required0.map SampleV2.index
  ix.samples.filter fun s => !delivered.contains s.index

def ManifestV2.warm_cids (manifest : ManifestV2) (ix : IndexV2) : List Cid :=
  manifest.skeleton_chunks ++ ix.required0.flatMap SampleV2.chunks

/-- The streaming of a v2, v3 or v4 root, up to its end. -/
def stream_index (manifest : ManifestV2) (ix : IndexV2) : Stream PUnit := do
  let warm ← Traced.log (.fetch (manifest.warm_cids ix)) (fetch_many c (world.rpc 2) (manifest.warm_cids ix))
  let skel ← Traced.lift (assemble_skeleton manifest.skeleton_chunks manifest.skeleton_layout warm)
  Traced.act (.storeSkeleton skel)
  Traced.act (.send (.skeleton ix.pruned ix.samples.length))
  Traced.each (fun s => deliver s.index s.frames (sample_pcm lib warm "missing sample chunk" s)) ix.required0
  stream_remaining c lib world ix.pruned ix.remaining.length 0 ix.remaining

/-- All of a run before its `Complete`. -/
def stream_root (root : Cid) : Stream PUnit := do
  let manifest_bytes ← Traced.log (.fetch [root]) (fetch_bytes c (world.rpc 0) root)
  let ver := manifest_version c manifest_bytes
  if ver = 2 ∨ ver = 3 ∨ ver = 4 then do
    let manifest ← Traced.lift (from_slice c ManifestV2.de manifest_bytes)
    let ix ← manifest.read_index c world
    stream_index c lib world manifest ix
  else if ver = 0 ∨ ver = 1 then do
    let bytes ← Traced.lift (reassemble c (world.rpc 1) root)
    Traced.act (.storeSkeleton bytes)
    Traced.act (.send (.skeleton ⟨[], []⟩ 0))
  else Traced.lift (.error (.thrown s!"unsupported manifest version {ver}; please update trackerstream"))

/-- Stream a root: skeleton and plan, then the samples in the order of the playhead. -/
def stream_v2 (root : Cid) : Stream PUnit := do
  stream_root c lib world root
  Traced.act (.send .complete)

end Run

end TrackerStream.Ipfs
