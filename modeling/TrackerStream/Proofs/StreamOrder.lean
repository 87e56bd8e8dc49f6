import TrackerStream.IpfsStream
import TrackerStream.DagV2

/-!
# The order of a desktop stream

A run that succeeds has a trace of one shape: the blocks it opens with, the skeleton, the samples required at
order 0, the others each fetched first and each nearest to the playhead when it is taken, and the end. What
can make a run fail is a fetch, a skeleton recipe that takes more chunks than there are, or a leaf that does
not decode; then the end is not told.
-/

namespace TrackerStream.Ipfs

/-! ### Keys -/

/-- The orders of a plan fit the `u32` they are read into. -/
def OrdersU32 (plan : Plan) : Prop := ∀ cp ∈ plan.checkpoints, cp.order < 2 ^ 32

theorem need_key_lt {orders : Option (List Nat)} {ph : Nat} (ho : ∀ os, orders = some os → ∀ o ∈ os, o < 2 ^ 32)
    (hph : ph < 2 ^ 32) : need_key orders ph < 2 ^ 64 - 1 := by
  unfold need_key
  split
  · decide
  · decide
  · rename_i os _
    split
    · rename_i fwd hmin
      have := ho os rfl fwd (List.mem_filter.1 (List.min?_mem hmin)).1
      omega
    · omega

theorem orders_for_lt {plan : Plan} (h : OrdersU32 plan) (index : Nat) :
    ∀ os, orders_for plan index = some os → ∀ o ∈ os, o < 2 ^ 32 := by
  intro os hos o ho
  simp only [orders_for] at hos
  split at hos
  · cases hos
  · cases hos
    obtain ⟨cp, hcp, ho⟩ := List.mem_flatMap.1 ho
    obtain ⟨-, -, rfl⟩ := List.mem_map.1 ho
    exact h cp hcp

theorem OrdersU32.prune {plan : Plan} (h : OrdersU32 plan) (keep : List Nat) : OrdersU32 (plan.prune keep) := by
  intro cp hcp
  obtain ⟨cp', hcp', rfl⟩ := List.mem_map.1 (List.mem_filter.1 hcp).1
  exact h cp' hcp'

theorem IndexV2.pruned_orders {ix : IndexV2} (h : OrdersU32 ix.plan) : OrdersU32 ix.pruned := h.prune _

theorem mem_of_listOf? {α : Type} {read : Ipld → Option α} {v : Ipld} {xs : List α} (h : Ipld.listOf? read v = some xs) :
    ∀ x ∈ xs, ∃ w, read w = some x := by
  obtain ⟨vs, -, hvs⟩ := Option.bind_eq_some_iff.1 h
  clear h
  induction vs generalizing xs with
  | nil => cases hvs; simp
  | cons v vs ih =>
    rw [List.mapM_cons] at hvs
    obtain ⟨y, hy, hvs⟩ := Option.bind_eq_some_iff.1 hvs
    obtain ⟨ys, hys, hvs⟩ := Option.bind_eq_some_iff.1 hvs
    cases hvs
    intro x hx
    rcases List.mem_cons.1 hx with rfl | hx
    · exact ⟨v, hy⟩
    · exact ih hys x hx

theorem PlanV2.de_orders {v : Ipld} {plan : Plan} (h : PlanV2.de v = some plan) : OrdersU32 plan := by
  unfold PlanV2.de at h
  split at h
  · obtain ⟨cps, hcps, h⟩ := Option.bind_eq_some_iff.1 h
    obtain ⟨os, -, h⟩ := Option.bind_eq_some_iff.1 h
    cases h
    intro cp hcp
    unfold Ipld.getD? at hcps
    split at hcps
    · cases hcps; simp at hcp
    · obtain ⟨w, hw⟩ := mem_of_listOf? hcps cp hcp
      obtain ⟨order, horder, hw⟩ := Option.bind_eq_some_iff.1 hw
      obtain ⟨samples, -, hw⟩ := Option.bind_eq_some_iff.1 hw
      cases hw
      obtain ⟨f, -, hf⟩ := Option.bind_eq_some_iff.1 horder
      simpa using (Option.filter_eq_some_iff.1 hf).2
  · cases h

theorem IndexV2.de_orders {v : Ipld} {ix : IndexV2} (h : IndexV2.de v = some ix) : OrdersU32 ix.plan := by
  obtain ⟨samples, -, h⟩ := Option.bind_eq_some_iff.1 h
  obtain ⟨plan, hplan, h⟩ := Option.bind_eq_some_iff.1 h
  cases h
  unfold Ipld.getD? at hplan
  split at hplan
  · cases hplan
    intro cp hcp
    cases hcp
  · exact PlanV2.de_orders hplan

theorem ManifestV2.de_orders {v : Ipld} {m : ManifestV2} (h : ManifestV2.de v = some m) {ix : IndexV2}
    (hix : m.index = some ix) : OrdersU32 ix.plan := by
  obtain ⟨chunks, -, h⟩ := Option.bind_eq_some_iff.1 h
  obtain ⟨layout, -, h⟩ := Option.bind_eq_some_iff.1 h
  obtain ⟨index, hindex, h⟩ := Option.bind_eq_some_iff.1 h
  obtain ⟨index_root, -, h⟩ := Option.bind_eq_some_iff.1 h
  cases h
  cases hix
  unfold Ipld.getOpt? at hindex
  split at hindex
  · cases hindex
  · cases hindex
  · obtain ⟨ix', hix', heq⟩ := Option.map_eq_some_iff.1 hindex
    cases heq
    exact IndexV2.de_orders hix'

theorem from_slice_some {α : Type} {c : Codec} {de : Ipld → Option α} {bytes : Bytes} {a : α}
    (h : from_slice c de bytes = .ok a) : ∃ v, c.decode bytes = some v ∧ de v = some a := by
  unfold from_slice at h
  split at h
  · rename_i b hb
    cases h
    exact Option.bind_eq_some_iff.1 hb
  · cases h

/-! ### Batches -/

/-- The bytes of a list of leaves, each verified against its CID. -/
def LeafOf (c : Codec) (cids : List Cid) (leaf : Bytes) : Prop :=
  ∃ bs, List.Forall₂ (fun cid b => verify_cid c cid b = .ok ()) cids bs ∧ bs.flatten = leaf

/-- Every block of a batch verifies. -/
def Verified (c : Codec) (blocks : BlockMap) : Prop := ∀ cid b, blocks.lookup cid = some b → verify_cid c cid b = .ok ()

/-- A batch has the blocks `cids`. -/
def Has (blocks : BlockMap) (cids : List Cid) : Prop := ∀ cid ∈ cids, ∃ b, blocks.lookup cid = some b

section Batch
variable {c : Codec} {rpc : BlockGetter} {blocks : BlockMap} {cids : List Cid}

theorem fetch_many_spec (h : fetch_many c rpc cids = .ok blocks) : Verified c blocks ∧ Has blocks cids := by
  have hfst : ∀ cid (e : Cid × Bytes), (do return (cid, ← fetch_bytes c rpc cid)) = Except.ok e → e.1 = cid := by
    intro cid e he
    obtain ⟨b, -, he⟩ := Outcome.bind_ok he
    cases he; rfl
  obtain ⟨hmap, hblocks⟩ := Outcome.mapM_ok_map hfst h
  refine ⟨fun cid b hlookup => ?_, fun cid hcid => ?_⟩
  · obtain ⟨l₁, l₂, rfl, -⟩ := List.lookup_eq_some_iff.1 hlookup
    obtain ⟨b', hb', heq⟩ := Outcome.bind_ok (hblocks (cid, b) (by simp))
    obtain rfl : b' = b := by cases heq; rfl
    obtain ⟨b'', -, hverify⟩ := Outcome.bind_ok hb'
    obtain ⟨⟨⟩, hverify, heq⟩ := Outcome.bind_ok hverify
    cases heq
    exact hverify
  · rw [← hmap] at hcid
    obtain ⟨e, he, rfl⟩ := List.mem_map.1 hcid
    cases hlookup : blocks.lookup e.1 with
    | some b => exact ⟨b, rfl⟩
    | none =>
      have := List.lookup_eq_none_iff.1 hlookup e he
      simp at this

theorem Has.get (h : Has blocks cids) (what : String) (cid : Cid) (hcid : cid ∈ cids) :
    ∃ b, blocks.get what cid = .ok b ∧ blocks.lookup cid = some b := by
  obtain ⟨b, hb⟩ := h cid hcid
  exact ⟨b, by rw [BlockMap.get, hb], hb⟩

theorem concat_total (h : Has blocks cids) (what : String) : ∃ leaf, concat blocks what cids = .ok leaf := by
  obtain ⟨leaf, hleaf, -⟩ := Outcome.foldlM_invariant
    (f := fun acc cid => return acc ++ (← BlockMap.get blocks what cid))
    (fun rest (_ : Bytes) => ∀ cid ∈ rest, cid ∈ cids)
    (fun cid rest acc hrest => by
      obtain ⟨b, hb, -⟩ := h.get what cid (hrest cid (by simp))
      exact ⟨acc ++ b, by rw [hb]; rfl, fun cid' hcid' => hrest cid' (by simp [hcid'])⟩)
    cids [] fun _ h => h
  exact ⟨leaf, hleaf⟩

theorem concat_leafOf (hv : Verified c blocks) {what : String} {leaf : Bytes} (h : concat blocks what cids = .ok leaf) :
    LeafOf c cids leaf := by
  suffices ∀ acc, cids.foldlM (fun acc cid => return acc ++ (← BlockMap.get blocks what cid)) acc = .ok leaf →
      ∃ bs, List.Forall₂ (fun cid b => verify_cid c cid b = .ok ()) cids bs ∧ acc ++ bs.flatten = leaf from this [] h
  clear h
  induction cids with
  | nil =>
    intro acc h
    cases h
    exact ⟨[], .nil, by simp⟩
  | cons cid cids ih =>
    intro acc h
    rw [List.foldlM_cons] at h
    obtain ⟨acc', hacc', h⟩ := Outcome.bind_ok h
    obtain ⟨b, hb, heq⟩ := Outcome.bind_ok hacc'
    obtain rfl : acc ++ b = acc' := by cases heq; rfl
    obtain ⟨bs, hbs, rfl⟩ := ih _ h
    refine ⟨b :: bs, .cons ?_ hbs, by rw [List.flatten_cons, List.append_assoc]⟩
    unfold BlockMap.get at hb
    split at hb
    · rename_i hlookup
      cases hb
      exact hv _ _ hlookup
    · cases hb

end Batch

/-! ### The skeleton -/

/-- How many content chunks a recipe takes. -/
def layoutChunks : List Nat → Nat
  | [] => 0
  | [nc] => nc
  | nc :: _ :: layout => nc + layoutChunks layout

section Skeleton
variable {blocks : BlockMap}

theorem emit_chunks_total (nc : Nat) {chunks : List Cid} (h : Has blocks chunks) (hnc : nc ≤ chunks.length) (out : Bytes) :
    ∃ out', emit_chunks blocks nc chunks out = .ok (out', chunks.drop nc) := by
  induction nc generalizing chunks out with
  | zero => exact ⟨out, by rw [emit_chunks]; rfl⟩
  | succ nc ih =>
    cases chunks with
    | nil => simp at hnc
    | cons cid chunks =>
      obtain ⟨b, hb, -⟩ := h.get "missing skeleton chunk" cid (by simp)
      obtain ⟨out', hout'⟩ := @ih chunks (fun cid hcid => h cid (by simp [hcid])) (by simpa using hnc) (out ++ b)
      exact ⟨out', by rw [emit_chunks, hb]; exact hout'⟩

theorem walk_layout_total {layout : List Nat} {chunks : List Cid} (h : Has blocks chunks)
    (hle : layoutChunks layout ≤ chunks.length) (out : Bytes) : ∃ out', walk_layout blocks layout chunks out = .ok out' := by
  induction layout using layoutChunks.induct generalizing chunks out with
  | case1 => exact ⟨out, rfl⟩
  | case2 nc =>
    obtain ⟨out', hout'⟩ := emit_chunks_total nc h hle out
    exact ⟨out', by rw [walk_layout, hout']; rfl⟩
  | case3 nc z layout ih =>
    rw [layoutChunks] at hle
    obtain ⟨out', hout'⟩ := emit_chunks_total nc h (by omega) out
    obtain ⟨r, hr⟩ := @ih (chunks.drop nc) (fun cid hcid => h cid (List.mem_of_mem_drop hcid))
      (by rw [List.length_drop]; omega) (out' ++ List.replicate z 0)
    exact ⟨r, by rw [walk_layout, hout']; exact hr⟩

/-- The recipe gives a skeleton when there are the chunks it takes. -/
theorem assemble_skeleton_total {chunks : List Cid} {layout : List Nat} (h : Has blocks chunks)
    (hle : layoutChunks layout ≤ chunks.length) : ∃ skel, assemble_skeleton chunks layout blocks = .ok skel := by
  unfold assemble_skeleton
  split
  · exact concat_total h _
  · exact walk_layout_total h hle []

end Skeleton

/-! ### Samples -/

section Run
variable {c : Codec} {lib : FlacLib} {world : World} {plan : Plan}

/-- `pcm` is decoded from leaves of the sample. -/
def PcmOf (c : Codec) (lib : FlacLib) (s : SampleV2) (pcm : Bytes) : Prop :=
  ∃ leaf, LeafOf c s.chunks leaf ∧ decode_sample lib leaf s.channels s.bit_depth s.enc_codec = .ok pcm

/-- Whatever leaves of the sample come, they decode. -/
def Decodes (c : Codec) (lib : FlacLib) (s : SampleV2) : Prop :=
  ∀ leaf, LeafOf c s.chunks leaf → ∃ pcm, decode_sample lib leaf s.channels s.bit_depth s.enc_codec = .ok pcm

theorem sample_pcm_ok {blocks : BlockMap} (hv : Verified c blocks) {what : String} {s : SampleV2} {pcm : Bytes}
    (h : sample_pcm lib blocks what s = .ok pcm) : PcmOf c lib s pcm := by
  obtain ⟨leaf, hleaf, hpcm⟩ := Outcome.bind_ok h
  exact ⟨leaf, concat_leafOf hv hleaf, hpcm⟩

theorem sample_pcm_total {blocks : BlockMap} {s : SampleV2} (hv : Verified c blocks) (hh : Has blocks s.chunks)
    (hd : Decodes c lib s) (what : String) : ∃ pcm, sample_pcm lib blocks what s = .ok pcm := by
  obtain ⟨leaf, hleaf⟩ := concat_total hh what
  obtain ⟨pcm, hpcm⟩ := hd leaf (concat_leafOf hv hleaf)
  exact ⟨pcm, by rw [sample_pcm, hleaf]; exact hpcm⟩

/-- A sample with the PCM delivered for it. -/
abbrev Delivered := SampleV2 × Bytes

/-- A sample out of the first batch: stored and told. -/
def Delivered.acts (e : Delivered) : List Act := delivery e.1.index e.1.frames e.2

/-- A sample of the loop: fetched, stored and told. -/
def Delivered.fetched (e : Delivered) : List Act := .fetch e.1.chunks true :: e.acts

theorem deliver_sample {blocks : BlockMap} (hv : Verified c blocks) {what : String} {s : SampleV2} {u : PUnit}
    (h : (deliver s.index s.frames (sample_pcm lib blocks what s)).result = .ok u) :
    ∃ pcm, PcmOf c lib s pcm ∧
      (deliver s.index s.frames (sample_pcm lib blocks what s)).trace = Delivered.acts (s, pcm) := by
  obtain ⟨pcm, hpcm, htrace⟩ := deliver_ok h
  exact ⟨pcm, sample_pcm_ok hv hpcm, htrace⟩

theorem each_deliver {blocks : BlockMap} (hv : Verified c blocks) {what : String} {ss : List SampleV2} {u : PUnit}
    (h : (Traced.each (fun s => deliver s.index s.frames (sample_pcm lib blocks what s)) ss).result = .ok u) :
    ∃ first : List Delivered, first.map Prod.fst = ss ∧ (∀ e ∈ first, PcmOf c lib e.1 e.2) ∧
      (Traced.each (fun s => deliver s.index s.frames (sample_pcm lib blocks what s)) ss).trace =
        first.flatMap Delivered.acts := by
  obtain ⟨hall, htrace⟩ := Traced.each_ok h
  rw [htrace]
  clear h htrace
  induction ss with
  | nil => exact ⟨[], rfl, by simp, rfl⟩
  | cons s ss ih =>
    obtain ⟨pcm, hpcm, hs⟩ := deliver_sample hv (hall s (by simp))
    obtain ⟨first, rfl, hfirst, hrest⟩ := ih fun t ht => hall t (by simp [ht])
    refine ⟨(s, pcm) :: first, rfl, fun e he => ?_, by rw [List.flatMap_cons, List.flatMap_cons, hs, hrest]⟩
    rcases List.mem_cons.1 he with rfl | he
    · exact hpcm
    · exact hfirst e he

/-! ### The loop -/

/-- The key of a sample at a step of the loop. -/
def stepKey (world : World) (plan : Plan) (i : Nat) (s : SampleV2) : Nat :=
  need_key (orders_for plan s.index) (world.playhead i)

theorem best_of_spec (world : World) (hplan : OrdersU32 plan) {remaining : List SampleV2} (hne : remaining ≠ [])
    (i : Nat) :
    ∃ s, remaining[best_of plan remaining (world.playhead i)]? = some s ∧
      ∀ t ∈ remaining, stepKey world plan i s ≤ stepKey world plan i t :=
  Worklist.firstMin_spec hne fun s _ => need_key_lt (orders_for_lt hplan s.index) (world.playhead_lt i)

/-- The loop delivers all samples, each nearest to the playhead when it is taken. -/
theorem stream_remaining_ok (hplan : OrdersU32 plan) {n i : Nat} {remaining : List SampleV2} {u : PUnit}
    (hn : remaining.length = n) (h : (stream_remaining c lib world plan n i remaining).result = .ok u) :
    ∃ rest : List Delivered, (rest.map Prod.fst).Perm remaining ∧
      Worklist.Picks (stepKey world plan) i (rest.map Prod.fst) ∧ (∀ e ∈ rest, PcmOf c lib e.1 e.2) ∧
      (stream_remaining c lib world plan n i remaining).trace = rest.flatMap Delivered.fetched := by
  induction n generalizing i remaining u with
  | zero =>
    obtain rfl := List.length_eq_zero_iff.1 hn
    exact ⟨[], .refl _, trivial, by simp, rfl⟩
  | succ n ih =>
    obtain ⟨s, hs, hmin⟩ := best_of_spec world hplan (List.ne_nil_of_length_eq_add_one hn) i
    have hperm := Worklist.perm_swapRemove hs
    have hlen := hperm.length_eq
    simp only [stream_remaining, hs] at h ⊢
    obtain ⟨blocks, hblocks, h, htrace₁⟩ := Traced.bind_ok h
    obtain ⟨⟨⟩, hdeliver, h, htrace₂⟩ := Traced.bind_ok h
    obtain ⟨rest, hrest, hpicks, hpcms, htrace₃⟩ := ih (by rw [List.length_cons] at hlen; omega) h
    replace hblocks : fetch_many c (world.rpc (3 + i)) s.chunks = .ok blocks := hblocks
    obtain ⟨pcm, hpcm, htrace₄⟩ := deliver_sample (fetch_many_spec hblocks).1 hdeliver
    refine ⟨(s, pcm) :: rest, (hrest.cons s).trans hperm.symm, ⟨fun t ht => ?_, hpicks⟩, fun e he => ?_, ?_⟩
    · exact hmin t (hperm.mem_iff.2 (List.mem_cons_of_mem _ (hrest.mem_iff.1 ht)))
    · rcases List.mem_cons.1 he with rfl | he
      · exact hpcm
      · exact hpcms e he
    · rw [htrace₁, htrace₂, htrace₃, htrace₄, List.flatMap_cons, hblocks]
      rfl

/-- With no fetch failed the loop goes to its end when all samples decode. -/
theorem stream_remaining_total (hplan : OrdersU32 plan) {n i : Nat} {remaining : List SampleV2}
    (hn : remaining.length = n) (hd : ∀ s ∈ remaining, Decodes c lib s)
    (h : ∀ cids, .fetch cids false ∉ (stream_remaining c lib world plan n i remaining).trace) :
    (stream_remaining c lib world plan n i remaining).result = .ok ⟨⟩ := by
  induction n generalizing i remaining with
  | zero => rfl
  | succ n ih =>
    obtain ⟨s, hs, -⟩ := best_of_spec world hplan (List.ne_nil_of_length_eq_add_one hn) i
    have hperm := Worklist.perm_swapRemove hs
    have hlen := hperm.length_eq
    simp only [stream_remaining, hs] at h ⊢
    obtain ⟨blocks, hblocks, heq⟩ := Traced.log_bind_of_not_mem (h s.chunks)
    rw [heq] at h ⊢
    obtain ⟨hv, hh⟩ := fetch_many_spec hblocks
    obtain ⟨pcm, hpcm⟩ := sample_pcm_total hv hh (hd s (hperm.mem_iff.2 (by simp))) "missing chunk"
    have hdeliver : (deliver s.index s.frames (sample_pcm lib blocks "missing chunk" s)).result = .ok ⟨⟩ := by
      rw [hpcm]; rfl
    rw [Traced.bind_of_ok hdeliver] at h ⊢
    refine ih (by rw [List.length_cons] at hlen; omega)
      (fun t ht => hd t (hperm.mem_iff.2 (List.mem_cons_of_mem _ ht))) fun cids hmem => h cids ?_
    exact List.mem_cons_of_mem _ (List.mem_append_right _ hmem)

/-! ### The whole run -/

theorem remaining_eq (ix : IndexV2) :
    ix.remaining = ix.samples.filter fun s => !(required_at ix.pruned 0).contains s.index := by
  refine List.filter_congr fun s hs => ?_
  congr 1
  rw [Bool.eq_iff_iff, List.contains_iff_mem]
  constructor
  · intro h
    obtain ⟨t, ht, hidx⟩ := List.mem_map.1 h
    rw [← hidx]
    exact (List.mem_filter.1 ht).2
  · exact fun h => List.mem_map_of_mem (List.mem_filter.2 ⟨hs, h⟩)

/-- The samples of a run that goes to its end, in the order they are told. -/
structure InOrder (c : Codec) (lib : FlacLib) (world : World) (ix : IndexV2) (first rest : List Delivered) : Prop where
  first_eq : first.map Prod.fst = ix.required0
  rest_perm : (rest.map Prod.fst).Perm (ix.samples.filter fun s => !(required_at ix.pruned 0).contains s.index)
  nearest : ∀ i e, rest[i]? = some e → ∀ e' ∈ rest.drop i, stepKey world ix.pruned i e.1 ≤ stepKey world ix.pruned i e'.1
  pcm : ∀ e ∈ first ++ rest, PcmOf c lib e.1 e.2

/-- Such a run behind the blocks it opens with. -/
def runActs (ix : IndexV2) (skel : Bytes) (first rest : List Delivered) : List Act :=
  .storeSkeleton skel :: .send (.skeleton ix.pruned ix.samples.length) ::
    (first.flatMap Delivered.acts ++ rest.flatMap Delivered.fetched)

variable {m : ManifestV2} {ix : IndexV2}

theorem stream_index_ok (hplan : OrdersU32 ix.plan) {u : PUnit} (h : (stream_index c lib world m ix).result = .ok u) :
    ∃ skel first rest, InOrder c lib world ix first rest ∧
      (stream_index c lib world m ix).trace = .fetch (m.warm_cids ix) true :: runActs ix skel first rest := by
  obtain ⟨warm, hwarm, h, htrace₁⟩ := Traced.bind_ok h
  obtain ⟨skel, hskel, h, htrace₂⟩ := Traced.bind_ok h
  obtain ⟨⟨⟩, -, h, htrace₃⟩ := Traced.bind_ok h
  obtain ⟨⟨⟩, -, h, htrace₄⟩ := Traced.bind_ok h
  obtain ⟨⟨⟩, hfirst, h, htrace₅⟩ := Traced.bind_ok h
  replace hwarm : fetch_many c (world.rpc 2) (m.warm_cids ix) = .ok warm := hwarm
  obtain ⟨first, hmap, hpcm, htrace₆⟩ := each_deliver (fetch_many_spec hwarm).1 hfirst
  obtain ⟨rest, hperm, hpicks, hpcm', htrace₇⟩ := stream_remaining_ok (IndexV2.pruned_orders hplan) rfl h
  refine ⟨skel, first, rest, ⟨hmap, remaining_eq ix ▸ hperm, fun i e he e' he' => ?_, fun e he => ?_⟩, ?_⟩
  · have hpick := hpicks.get (x := e.1) (by rw [List.getElem?_map, he]; rfl) e'.1 (by
      rw [← List.map_drop]
      exact List.mem_map_of_mem he')
    rwa [Nat.zero_add] at hpick
  · exact (List.mem_append.1 he).elim (hpcm e) (hpcm' e)
  · rw [stream_index, htrace₁, htrace₂, htrace₃, htrace₄, htrace₅, htrace₆, htrace₇, hwarm]
    rfl

theorem stream_index_total (hplan : OrdersU32 ix.plan) (hlayout : layoutChunks m.skeleton_layout ≤ m.skeleton_chunks.length)
    (hd : ∀ s ∈ ix.samples, Decodes c lib s) (h : ∀ cids, .fetch cids false ∉ (stream_index c lib world m ix).trace) :
    (stream_index c lib world m ix).result = .ok ⟨⟩ := by
  rw [stream_index] at h ⊢
  obtain ⟨warm, hwarm, heq⟩ := Traced.log_bind_of_not_mem (h _)
  rw [heq] at h ⊢
  obtain ⟨hv, hh⟩ := fetch_many_spec hwarm
  obtain ⟨skel, hskel⟩ := assemble_skeleton_total (fun cid hcid => hh cid (List.mem_append_left _ hcid)) hlayout
  rw [hskel, Traced.lift_ok_bind, Traced.act_bind, Traced.act_bind] at h ⊢
  have hfirst : (Traced.each (fun s => deliver s.index s.frames (sample_pcm lib warm "missing sample chunk" s))
      ix.required0).result = .ok ⟨⟩ := by
    rw [Traced.each_of_ok fun s hs => ?_]
    have hwarm_s : Has warm s.chunks := fun cid hcid =>
      hh cid (List.mem_append_right _ (List.mem_flatMap.2 ⟨s, hs, hcid⟩))
    obtain ⟨pcm, hpcm⟩ := sample_pcm_total hv hwarm_s (hd s (List.mem_filter.1 hs).1) "missing sample chunk"
    rw [hpcm]
    rfl
  rw [Traced.bind_of_ok hfirst] at h ⊢
  refine stream_remaining_total (IndexV2.pruned_orders hplan) rfl (fun s hs => hd s (List.mem_filter.1 hs).1) fun cids hmem => h cids ?_
  exact List.mem_cons_of_mem _ (List.mem_cons_of_mem _ (List.mem_cons_of_mem _ (List.mem_append_right _ hmem)))

/-- The root is that of a v2, v3 or v4 manifest `m` with the index `ix`. -/
structure Opens (c : Codec) (world : World) (root : Cid) (m : ManifestV2) (ix : IndexV2) : Prop where
  manifest : ∃ bytes, fetch_bytes c (world.rpc 0) root = .ok bytes ∧
    (manifest_version c bytes = 2 ∨ manifest_version c bytes = 3 ∨ manifest_version c bytes = 4) ∧
    from_slice c ManifestV2.de bytes = .ok m
  index : (m.read_index c world).result = .ok ix

theorem read_index_spec (h : (m.read_index c world).result = .ok ix) :
    (∀ a ∈ (m.read_index c world).trace, ∃ cids, a = .fetch cids true) ∧ (m.index = some ix ∨
      ∃ bytes, from_slice c IndexV2.de bytes = .ok ix) := by
  unfold ManifestV2.read_index at h ⊢
  split at h
  · cases h
    exact ⟨fun a ha => (by cases ha), .inl ‹_›⟩
  · cases h
  · rename_i ir _ _
    obtain ⟨bytes, hbytes, hix, htrace⟩ := Traced.bind_ok h
    replace hbytes : fetch_bytes c (world.rpc 1) ir = .ok bytes := hbytes
    refine ⟨fun a ha => ⟨[ir], ?_⟩, .inr ⟨bytes, hix⟩⟩
    rw [htrace, hbytes] at ha
    exact List.mem_singleton.1 ha

theorem Opens.orders {root : Cid} (ho : Opens c world root m ix) : OrdersU32 ix.plan := by
  obtain ⟨bytes, -, -, hm⟩ := ho.manifest
  obtain ⟨v, -, hv⟩ := from_slice_some hm
  rcases (read_index_spec ho.index).2 with hix | ⟨bytes, hix⟩
  · exact ManifestV2.de_orders hv hix
  · obtain ⟨v, -, hv⟩ := from_slice_some hix
    exact IndexV2.de_orders hv

/-- A run on such a root is the streaming of its index behind the blocks it opens with. -/
theorem Opens.stream_root {root : Cid} (ho : Opens c world root m ix) :
    stream_root c lib world root =
      ⟨.fetch [root] true :: ((m.read_index c world).trace ++ (stream_index c lib world m ix).trace),
        (stream_index c lib world m ix).result⟩ := by
  obtain ⟨bytes, hbytes, hver, hm⟩ := ho.manifest
  rw [Ipfs.stream_root, hbytes, Traced.log_ok_bind]
  simp only [if_pos hver, hm, Traced.lift_ok_bind, Traced.bind_of_ok ho.index]

theorem Opens.complete {root : Cid} (ho : Opens c world root m ix)
    (h : (stream_index c lib world m ix).result = .ok ⟨⟩) :
    ∃ opening skel first rest, (∀ a ∈ opening, ∃ cids, a = .fetch cids true) ∧ InOrder c lib world ix first rest ∧
      (stream_v2 c lib world root).trace = opening ++ runActs ix skel first rest ++ [.send .complete] := by
  obtain ⟨skel, first, rest, horder, htrace⟩ := stream_index_ok ho.orders h
  refine ⟨.fetch [root] true :: ((m.read_index c world).trace ++ [.fetch (m.warm_cids ix) true]), skel, first, rest,
    fun a ha => ?_, horder, ?_⟩
  · rcases List.mem_cons.1 ha with rfl | ha
    · exact ⟨_, rfl⟩
    rcases List.mem_append.1 ha with ha | ha
    · exact (read_index_spec ho.index).1 a ha
    · exact ⟨_, List.mem_singleton.1 ha⟩
  · have hroot : (Ipfs.stream_root c lib world root).result = .ok ⟨⟩ := by rw [ho.stream_root, h]
    rw [stream_v2, Traced.bind_of_ok hroot, ho.stream_root, htrace]
    simp [Traced.act]

/-! ### Ends -/

theorem deliver_all {p : Act → Prop} {index frames : Nat} {pcm : Except Fault Bytes} (h₁ : ∀ i b, p (.storeSample i b))
    (h₂ : ∀ i f, p (.send (.sample i f))) : (deliver index frames pcm).All p :=
  .bind (.lift _) fun _ => .bind (.act (h₁ _ _)) fun _ => .act (h₂ _ _)

theorem stream_remaining_quiet (n i : Nat) (remaining : List SampleV2) :
    (stream_remaining c lib world plan n i remaining).All (· ≠ .send .complete) := by
  induction n generalizing i remaining with
  | zero => exact .pure _
  | succ n ih =>
    simp only [stream_remaining]
    split
    · exact .pure _
    · exact .bind (.log (fun _ => by rintro ⟨⟩) _) fun _ => .bind (deliver_all (fun _ _ => by rintro ⟨⟩) fun _ _ => by rintro ⟨⟩) fun _ => ih _ _

/-- The end is not told before it. -/
theorem stream_root_quiet (root : Cid) : (stream_root c lib world root).All (· ≠ .send .complete) := by
  refine .bind (.log (fun _ => by rintro ⟨⟩) _) fun bytes => ?_
  dsimp only
  split
  · refine .bind (.lift _) fun m => .bind ?_ fun ix => .bind (.log (fun _ => by rintro ⟨⟩) _) fun warm => .bind (.lift _) fun skel => ?_
    · unfold ManifestV2.read_index
      split
      · exact .pure _
      · exact .lift _
      · exact .bind (.log (fun _ => by rintro ⟨⟩) _) fun _ => .lift _
    · exact .bind (.act (by rintro ⟨⟩)) fun _ => .bind (.act (by rintro ⟨⟩)) fun _ =>
        .bind (.each (fun _ => deliver_all (fun _ _ => by rintro ⟨⟩) fun _ _ => by rintro ⟨⟩) _) fun _ => stream_remaining_quiet _ _ _
  split
  · exact .bind (.lift _) fun _ => .bind (.act (by rintro ⟨⟩)) fun _ => .act (by rintro ⟨⟩)
  · exact .lift _

theorem stream_remaining_sound (n i : Nat) (remaining : List SampleV2) :
    (stream_remaining c lib world plan n i remaining).Sound fun a => ∀ cids, a ≠ .fetch cids false := by
  induction n generalizing i remaining with
  | zero => exact (Traced.All.pure _).sound
  | succ n ih =>
    simp only [stream_remaining]
    split
    · exact (Traced.All.pure _).sound
    · exact .bind (.log (fun _ => by rintro ⟨⟩) _) fun _ => .bind (deliver_all (fun _ _ _ => by rintro ⟨⟩) fun _ _ _ => by rintro ⟨⟩).sound fun _ => ih _ _

/-- A run that succeeds has had no fetch fail. -/
theorem stream_root_sound (root : Cid) :
    (stream_root c lib world root).Sound fun a => ∀ cids, a ≠ .fetch cids false := by
  refine .bind (.log (fun _ => by rintro ⟨⟩) _) fun bytes => ?_
  dsimp only
  split
  · refine .bind (Traced.All.lift _).sound fun m => .bind ?_ fun ix => .bind (.log (fun _ => by rintro ⟨⟩) _) fun warm =>
      .bind (Traced.All.lift _).sound fun skel => ?_
    · unfold ManifestV2.read_index
      split
      · exact (Traced.All.pure _).sound
      · exact (Traced.All.lift _).sound
      · exact .bind (.log (fun _ => by rintro ⟨⟩) _) fun _ => (Traced.All.lift _).sound
    · exact .bind (Traced.All.act fun _ => by rintro ⟨⟩).sound fun _ => .bind (Traced.All.act fun _ => by rintro ⟨⟩).sound fun _ =>
        .bind (.each (fun _ => (deliver_all (fun _ _ _ => by rintro ⟨⟩) fun _ _ _ => by rintro ⟨⟩).sound) _) fun _ => stream_remaining_sound _ _ _
  split
  · exact .bind (Traced.All.lift _).sound fun _ => .bind (Traced.All.act fun _ => by rintro ⟨⟩).sound fun _ => (Traced.All.act fun _ => by rintro ⟨⟩).sound
  · exact (Traced.All.lift _).sound

/-- The end is told only by a run that succeeds, and then no fetch has failed. -/
theorem stream_v2_complete {root : Cid} (h : .send .complete ∈ (stream_v2 c lib world root).trace) :
    (stream_root c lib world root).result = .ok ⟨⟩ ∧ ∀ cids, .fetch cids false ∉ (stream_v2 c lib world root).trace := by
  cases hr : (stream_root c lib world root).result with
  | error e =>
    rw [stream_v2, Traced.bind_of_error hr] at h
    exact absurd rfl (stream_root_quiet root _ h)
  | ok u =>
    refine ⟨rfl, fun cids hmem => ?_⟩
    rw [stream_v2, Traced.bind_of_ok hr] at hmem
    rcases List.mem_append.1 hmem with hmem | hmem
    · exact stream_root_sound root u hr _ hmem cids rfl
    · exact Act.noConfusion (List.mem_singleton.1 hmem)

theorem announced_eq_nil {as : List Act} (h : ∀ a ∈ as, ∃ cids, a = .fetch cids true) : announced as = [] := by
  refine List.filterMap_eq_nil_iff.2 fun a ha => ?_
  obtain ⟨cids, rfl⟩ := h a ha
  rfl

theorem announced_run (skel : Bytes) (first rest : List Delivered) :
    announced (runActs ix skel first rest) = (first ++ rest).map fun e => e.1.index := by
  have hacts : ∀ es : List Delivered, announced (es.flatMap Delivered.acts) = es.map fun e => e.1.index := by
    intro es
    induction es with
    | nil => rfl
    | cons e es ih =>
      rw [List.flatMap_cons, announced_append, ih]
      rfl
  have hfetched : ∀ es : List Delivered, announced (es.flatMap Delivered.fetched) = es.map fun e => e.1.index := by
    intro es
    induction es with
    | nil => rfl
    | cons e es ih =>
      rw [List.flatMap_cons, announced_append, ih]
      rfl
  rw [List.map_append, ← hacts, ← hfetched, ← announced_append]
  rfl

/-- One sample event for each sample of the manifest. -/
theorem InOrder.announced {first rest : List Delivered} (h : InOrder c lib world ix first rest) :
    ((first ++ rest).map fun e => e.1.index).Perm (ix.samples.map SampleV2.index) := by
  have hall : ((first ++ rest).map Prod.fst).Perm ix.samples := by
    rw [List.map_append, h.first_eq]
    exact (List.Perm.append_left _ h.rest_perm).trans (List.filter_append_perm _ _)
  have hmap := hall.map SampleV2.index
  rwa [List.map_map] at hmap

end Run

/-- A run without a failed fetch, on a manifest whose recipe has the chunks it takes and whose samples decode, goes
through the samples in order and to its end; a run in which anything fails does not tell the end. -/
theorem stream_v2_order (c : Codec) (lib : FlacLib) (world : World) (root : Cid) :
    (∀ m ix, Opens c world root m ix → layoutChunks m.skeleton_layout ≤ m.skeleton_chunks.length →
      (∀ s ∈ ix.samples, Decodes c lib s) → (∀ cids, .fetch cids false ∉ (stream_v2 c lib world root).trace) →
      ∃ opening skel first rest, (∀ a ∈ opening, ∃ cids, a = .fetch cids true) ∧ InOrder c lib world ix first rest ∧
        (stream_v2 c lib world root).trace = opening ++ runActs ix skel first rest ++ [.send .complete] ∧
        (announced (stream_v2 c lib world root).trace).Perm (ix.samples.map SampleV2.index)) ∧
    (∀ cids, .fetch cids false ∈ (stream_v2 c lib world root).trace →
      .send .complete ∉ (stream_v2 c lib world root).trace) ∧
    ∀ e, (stream_v2 c lib world root).result = .error e → .send .complete ∉ (stream_v2 c lib world root).trace := by
  refine ⟨fun m ix ho hlayout hd hfetch => ?_, fun cids hmem hend => (stream_v2_complete hend).2 cids hmem,
    fun e he hend => ?_⟩
  · have hindex : (stream_index c lib world m ix).result = .ok ⟨⟩ := by
      refine stream_index_total ho.orders hlayout hd fun cids hmem => hfetch cids (Traced.mem_bind ?_ _)
      rw [ho.stream_root]
      exact List.mem_cons_of_mem _ (List.mem_append_right _ hmem)
    obtain ⟨opening, skel, first, rest, hopening, horder, htrace⟩ := ho.complete hindex
    refine ⟨opening, skel, first, rest, hopening, horder, htrace, ?_⟩
    rw [htrace, announced_append, announced_append, announced_eq_nil hopening, announced_run, List.nil_append]
    exact (List.append_nil _).symm ▸ horder.announced
  · rw [stream_v2, Traced.bind_of_ok (stream_v2_complete hend).1] at he
    cases he

/-- A codec whose digests are the bytes, with `body` in every dag-cbor block. -/
def plainCodec (body : Ipld) : Codec := ⟨fun b => b, fun _ => [], fun _ => some body⟩

/-- A world that has every block, with the playhead at `ph`. -/
def plainWorld (ph : Nat) (h : ph < 2 ^ 32) : World := ⟨fun _ cid => .ok cid.digest, fun _ => ph, fun _ => h⟩

def plainFlac : FlacLib := ⟨fun _ _ => .error .panic, fun _ => .error .panic, fun _ => .error .panic⟩

def plainRoot : Cid := ⟨DAG_CBOR_CODE, []⟩

def plainSample (index : Nat) : SampleV2 := ⟨index, 1, 1, 8, [⟨RAW_CODE, [UInt8.ofNat index]⟩], 0⟩

/-- Four samples, each with a checkpoint of its own. -/
def plainIndex : IndexV2 :=
  ⟨[plainSample 3, plainSample 1, plainSample 2, plainSample 4], ⟨[], [⟨0, [1]⟩, ⟨4, [2]⟩, ⟨8, [3]⟩, ⟨12, [4]⟩]⟩⟩

def plainManifest : Ipld :=
  .map [("v", .nat 2),
    ("index", indexIpld
      (plainIndex.samples.map fun s => (TrackerStream.SampleV2.mk s.index s.frames s.channels s.bit_depth s.chunks).toIpld)
      plainIndex.plan),
    ("skeletonChunks", .links [⟨RAW_CODE, [9]⟩]), ("skeletonLayout", .nats [1, 3])]

/-- Not a fetch that failed. -/
def Act.arrived : Act → Bool
  | .fetch _ ok => ok
  | _ => true

/-- With the playhead behind the checkpoint of sample 3, sample 4 comes before it. -/
theorem stream_v2_order_playhead :
    announced (stream_v2 (plainCodec plainManifest) plainFlac (plainWorld 10 (by decide)) plainRoot).trace = [1, 2, 4, 3] ∧
    ∃ opening skel first rest,
      InOrder (plainCodec plainManifest) plainFlac (plainWorld 10 (by decide)) plainIndex first rest ∧
      (stream_v2 (plainCodec plainManifest) plainFlac (plainWorld 10 (by decide)) plainRoot).trace =
        opening ++ runActs plainIndex skel first rest ++ [.send .complete] := by
  have hfetch : (stream_v2 (plainCodec plainManifest) plainFlac (plainWorld 10 (by decide)) plainRoot).trace.all
      Act.arrived = true := by decide
  have hopens : Opens (plainCodec plainManifest) (plainWorld 10 (by decide)) plainRoot
      ⟨[⟨RAW_CODE, [9]⟩], [1, 3], some plainIndex, none⟩ plainIndex := ⟨⟨[], rfl, .inl rfl, rfl⟩, rfl⟩
  have hdecodes : ∀ s ∈ plainIndex.samples, Decodes (plainCodec plainManifest) plainFlac s := by
    intro s hs leaf _
    refine ⟨leaf, ?_⟩
    have : s.enc_codec = 0 := by
      simp only [plainIndex, List.mem_cons, List.not_mem_nil, or_false] at hs
      rcases hs with rfl | rfl | rfl | rfl <;> rfl
    rw [this]
    rfl
  obtain ⟨opening, skel, first, rest, -, horder, htrace, -⟩ :=
    (stream_v2_order (plainCodec plainManifest) plainFlac (plainWorld 10 (by decide)) plainRoot).1 _ _ hopens
      (by decide) hdecodes fun cids hmem => Bool.noConfusion (List.all_eq_true.1 hfetch _ hmem)
  exact ⟨by decide, opening, skel, first, rest, horder, htrace⟩

/-- A v2 manifest whose recipe takes a chunk of which there are none. -/
def overrunManifest : Ipld :=
  .map [("v", .nat 2), ("index", indexIpld [] ⟨[], []⟩), ("skeletonChunks", .links []), ("skeletonLayout", .nats [1, 0])]

/-- On such a manifest no fetch fails, and still the run does not tell its end. -/
theorem stream_v2_overrun : ¬ ∀ (c : Codec) (lib : FlacLib) (world : World) (root : Cid) (m : ManifestV2) (ix : IndexV2),
    Opens c world root m ix → (ix.samples.map SampleV2.index).Nodup →
    (∀ cids, .fetch cids false ∉ (stream_v2 c lib world root).trace) →
    .send .complete ∈ (stream_v2 c lib world root).trace := by
  intro h
  have htrace : (stream_v2 (plainCodec overrunManifest) plainFlac (plainWorld 0 (by decide)) plainRoot).trace =
      [.fetch [plainRoot] true, .fetch [] true] := rfl
  have hend := h (plainCodec overrunManifest) plainFlac (plainWorld 0 (by decide)) plainRoot
    ⟨[], [1, 0], some ⟨[], ⟨[], []⟩⟩, none⟩ ⟨[], ⟨[], []⟩⟩ ⟨⟨[], rfl, .inl rfl, rfl⟩, rfl⟩ .nil
  rw [htrace] at hend
  simp at hend

end TrackerStream.Ipfs
