import TrackerStream.Proofs.SpliceV1

/-!
# v1 reassembly on both clients

`BakedV1` is what a v1 bake leaves behind: which blocks are made, and what the manifest says. Both
reassemblies run over it step by step with `Spliced`.
-/

namespace TrackerStream

section Reassemble
variable {c : Codec} {data : Bytes} {regions : List SampleRegion} {cdc : CdcConfig} {d : BuiltDag}

namespace Ipfs

end Ipfs

end Reassemble

/-! ### The round trip -/

end TrackerStream
