import TrackerStream.DagV3
import TrackerStream.Fence
import TrackerStream.JsNumber
import TrackerStream.Stream

/-!
# Streaming in the browser (`stream.ts`)

The counterpart of the desktop's `stream_v2`: the samples required at order 0 are fetched together, then all
the others together. In a batch every sample is told as it lands; which lands when is up to the network, so a
run sees an order of `Arrivals`. The first failure in a batch is told as an error and nothing is started
after it, but what is under way still lands.
-/

namespace TrackerStream.Web

/-- Re-hash a block against its CID. -/
def fetchVerified (c : Codec) (get : BlockGetter) (cid : Cid) : Except Fault Bytes := do
  let bytes ← get cid
  let expect : Cid := ⟨cid.codec, c.sha256 bytes⟩
  if expect ≠ cid then throw (.block cid "failed CID verification")
  return bytes

def fetchCbor (c : Codec) (get : BlockGetter) (cid : Cid) : Except Fault Ipld := do
  match c.decode (← fetchVerified c get cid) with
  | some v => return v
  | none => throw .decode

section Faithful
variable {c : Codec} {made : List Payload}

end Faithful

/-- Decode one sample's leaves into playable PCM. -/
def decodeSample (c : Codec) (lib : FlacLib) (get : BlockGetter) (s : Ipld) : Except Fault Bytes := do
  let leaves ← (← s.get "chunks" (Ipld.listOf? Ipld.link?)).mapM (fetchVerified c get)
  let raw := leaves.flatten
  match s.field? "encCodec" with
  | none | some (.int 0) => do
    let enc ← match s.field? "enc" with
      | none | some .null => pure 0
      | some _ => s.get "enc" Ipld.nat?
    if enc ≠ 0 then return applyEnc enc raw (← s.get "bitDepth" Ipld.nat?) (← s.get "channels" Ipld.nat?)
    else return raw
  | some _ => decodeV4Sample lib raw s

/-- `Number(manifest.v ?? 1)`; `none` is `NaN`, which is on neither side of a comparison. -/
def manifestVersion (manifest : Ipld) : Option ℚ :=
  match manifest.field? "v" with
  | none | some .null => some 1
  | some v => Js.number v

/-- The inline index, else the spilled one. -/
def readIndex (c : Codec) (get : BlockGetter) (manifest : Ipld) : Except Fault Ipld :=
  match manifest.field? "index" with
  | none | some .null => do fetchCbor c get (← manifest.get "indexRoot" Ipld.link?)
  | some index => .ok index

/-- An entry of `samples[]` with the fields the stream goes by. -/
structure Entry where
  index : Nat
  frames : Nat
  value : Ipld

def readEntry (v : Ipld) : Except Fault Entry := do
  return ⟨← v.get "index" Ipld.nat?, ← v.get "frames" Ipld.nat?, v⟩

def readSamples (index : Ipld) : Except Fault (List Entry) := do (← index.get "samples" Ipld.list?).mapM readEntry

def checkpoint? (v : Ipld) : Option Checkpoint := do
  return ⟨← v.get? "order" Ipld.nat?, ← v.get? "samples" (Ipld.listOf? Ipld.nat?)⟩

def orderSeconds? (v : Ipld) : Option OrderSeconds := do
  return ⟨← v.get? "order" Ipld.nat?, ← v.get? "seconds" Ipld.number?⟩

/-- A plan; either list may be left out. -/
def plan? (v : Ipld) : Option Plan := do
  let orderSeconds ← v.getOpt? "orderSeconds" (Ipld.listOf? orderSeconds?)
  let checkpoints ← v.getOpt? "checkpoints" (Ipld.listOf? checkpoint?)
  return ⟨orderSeconds.getD [], checkpoints.getD []⟩

/-- The skeleton of a manifest. -/
def fetchSkeleton (c : Codec) (get : BlockGetter) (manifest : Ipld) : Except Fault Bytes := do
  let parts ← (← manifest.get "skeletonChunks" (Ipld.listOf? Ipld.link?)).mapM (fetchVerified c get)
  match manifest.field? "skeletonLayout" with
  | none => assembleSkeletonV2 parts none
  | some _ => do assembleSkeletonV2 parts (some (← manifest.get "skeletonLayout" (Ipld.listOf? Ipld.nat?)))

/-- The order in which the samples of a batch land. -/
structure Arrivals where
  order : List Entry → List Entry
  perm : ∀ es, (order es).Perm es

section Run
variable (c : Codec) (lib : FlacLib) (get : BlockGetter)

/-- What of the rest of a batch lands after its first failure. -/
def landed (es : List Entry) : List Act :=
  es.flatMap fun s =>
    match decodeSample c lib get s.value with
    | .ok pcm => delivery s.index s.frames pcm
    | .error _ => []

/-- A batch whose samples land in the order given. -/
def settle : List Entry → Stream PUnit
  | [] => pure ⟨⟩
  | s :: es =>
    match decodeSample c lib get s.value with
    | .ok pcm => do
      deliver s.index s.frames (.ok pcm)
      settle es
    | .error e => ⟨.send (.error e) :: landed c lib get es, .error e⟩

/-- The sample of a slot: of several, the last one. -/
def bySlot (samples : List Entry) (slot : Nat) : Option Entry := samples.reverse.find? fun s => s.index == slot

/-- Both batches and the end. -/
def batches (arrivals : Arrivals) (samples : List Entry) (plan : Plan) : Stream PUnit := do
  let requiredAt0 := (Fence.new plan).requiredAt 0
  settle c lib get (arrivals.order (requiredAt0.filterMap (bySlot samples)))
  settle c lib get (arrivals.order (samples.filter fun s => !requiredAt0.contains s.index))
  Traced.act (.send .complete)

/-- Begin streaming `root`. -/
def startStream (arrivals : Arrivals) (root : Cid) : Stream PUnit := do
  let manifest ← Traced.lift (fetchCbor c get root)
  let v := manifestVersion manifest
  if v.any (· < 2) then do
    let bytes ← Traced.lift (reassemble c get true root)
    Traced.act (.storeSkeleton bytes)
    Traced.act (.send (.skeleton ⟨[], []⟩ 0))
    Traced.act (.send .complete)
  else if v.any (4 < ·) then
    Traced.lift (.error (.thrown s!"stream: manifest v{v.getD 0} is newer than this client understands"))
  else do
    let index ← Traced.lift (readIndex c get manifest)
    let samples ← Traced.lift (readSamples index)
    let plan ← Traced.lift (index.get "plan" plan?)
    let skeleton ← Traced.lift (fetchSkeleton c get manifest)
    Traced.act (.storeSkeleton skeleton)
    Traced.act (.send (.skeleton plan samples.length))
    (batches c lib get arrivals samples plan).caught

end Run

end TrackerStream.Web
