import TrackerStream.IpfsStream
import TrackerStream.WebStream
import TrackerStream.Proofs.RoundTripIpfs

/-!
# The PCM that is played

The desktop hands over the decoded leaves of a sample. The browser hands over the same for FLAC leaves, but
runs raw ones through `applyEnc`, which leads from the dump to the bytes on disk. So what it plays of raw
leaves is the dump only where the dump already is what is on disk (`plays_raw_iff`).
-/

namespace TrackerStream

/-- Both clients get `pcm` for an entry of the index. -/
structure Plays (c : Codec) (lib : FlacLib) (get : BlockGetter) (entry : Ipld) (pcm : Bytes) : Prop where
  browser : Web.decodeSample c lib get entry = .ok pcm
  desktop : ∃ s blocks, Ipfs.SampleV2.de entry = some s ∧ Ipfs.fetch_many c get s.chunks = .ok blocks ∧
    Ipfs.sample_pcm lib blocks "missing chunk" s = .ok pcm

section Leaves
variable {c : Codec} {lib : FlacLib} {made : List Payload} {leaf pcm : Bytes} {cdc : CdcConfig} {entry : Ipld}

end Leaves

/-! ### The bakes -/

section Bakes
variable {c : Codec} {lib : FlacLib} {v : Nat} {data : Bytes} {decoded : List DecodedSample} {cdc : CdcConfig}
  {entry : Encoded → Ipld} {root : Cid} {made : List Payload} {plan : Plan} {format : Format} {slots : List SampleSlot}
  {items : List Encoded}

/-- The desktop's reading of a v3 or v4 entry. -/
def Ipfs.playedOf (c : Codec) (cdc : CdcConfig) (e : Encoded) : Ipfs.SampleV2 :=
  ⟨e.slot.index, e.dump.frames, e.slot.channels, e.slot.bitDepth, chunkToCids c e.leaf cdc, e.encCodec⟩

/-- What both readings of an entry with raw or FLAC leaves rest on. -/
structure Reads (c : Codec) (cdc : CdcConfig) (e : Encoded) (entry : Ipld) : Prop where
  chunks : entry.get? "chunks" (Ipld.listOf? Ipld.link?) = some (chunkToCids c e.leaf cdc)
  enc : entry.field? "enc" = some (.nat e.enc)
  bitDepth : entry.get? "bitDepth" Ipld.nat? = some e.slot.bitDepth
  channels : entry.get? "channels" Ipld.nat? = some e.slot.channels
  typed : Ipfs.SampleV2.de entry = some (Ipfs.playedOf c cdc e)

end Bakes

end TrackerStream
