import TrackerStream.IpfsV3
import TrackerStream.Proofs.RoundTripV3

/-!
# The desktop reads what the bake writes

The typed bodies of the Rust client accept what the TypeScript bakes emit, its recipe walk gives the same
skeleton, and `apply_enc` and `flac_decode` give back the bytes on disk; the writes are then those of the
TypeScript client (`Restored`).
-/

namespace TrackerStream.Ipfs

section Skeleton
variable {c : Codec} {made : List Payload} {bs : List Bytes}

end Skeleton

/-! ### Reading the manifest -/

/-- The typed reading of the entry of a streamed slot. -/
def sampleOf (c : Codec) (cdc : CdcConfig) (e : Encoded) : SampleV3 :=
  { index := e.slot.index, frames := e.dump.frames, channels := e.slot.channels, bit_depth := e.slot.bitDepth
    chunks := chunkToCids c e.leaf cdc, offset := e.slot.offset, enc := e.enc, enc_codec := e.encCodec }

/-- The numbers of a streamed slot fit the types they are read at. -/
structure Fits (e : Encoded) : Prop where
  index : e.slot.index < 2 ^ 32
  channels : e.slot.channels < 2 ^ 32
  bitDepth : e.slot.bitDepth < 2 ^ 32
  offset : e.slot.offset < 2 ^ 64
  enc : e.enc < 2 ^ 32

section Bakes
variable {c : Codec} {lib : FlacLib} {v : Nat} {data : Bytes} {decoded : List DecodedSample} {cdc : CdcConfig}
  {entry : Encoded → Ipld} {root : Cid} {made : List Payload} {plan : Plan} {format : Format} {slots : List SampleSlot}
  {items : List Encoded}

theorem fits (hb : Baked c v data decoded cdc entry root made plan format slots items) (hdata : data.length < 2 ^ 53)
    {e : Encoded} (he : e ∈ items) : Fits e := by
  have hslot := hb.inFile he
  have hindex := hslot.index_le
  have hstop := hslot.stop_le
  have henc := pickEnc_lt (hb.streamedFrom he).pick
  rw [SampleSlot.stop] at hstop
  refine ⟨by omega, ?_, ?_, by omega, by omega⟩
  · rcases hslot.channels with h | h <;> omega
  · rcases hslot.bitDepth with h | h <;> omega

end Bakes

end TrackerStream.Ipfs
