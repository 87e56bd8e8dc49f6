import TrackerStream.WebStream
import TrackerStream.Proofs.StreamOrder

/-!
# No order waits for ever

Once a client has told the end of a stream, a fence over the plan it was given has all it waits for: on the
desktop, where the plan is pruned to the slots that are streamed, always; in the browser, where the plan is
handed on as it is in the manifest, when the slots that the fence may ask for are streamed.
-/

namespace TrackerStream

/-- After the end, a fence over the plan that was told lets every order in, whatever it was asked and given before,
as long as that was the samples told. -/
def NeverStuck (trace : List Act) : Prop :=
  .send .complete ∈ trace → ∀ plan samples, .send (.skeleton plan samples) ∈ trace →
    ∀ calls, (∀ index, Fence.Call.provide index ∈ calls ↔ index ∈ announced trace) →
      ∀ order, (((Fence.new plan).calls calls).ready order).1 = true

/-- Every slot that a fence over `plan` may ask for at an order that requires any is one of `streamed`. -/
def Served (plan : Plan) (streamed : List Nat) : Prop :=
  ∀ order, (Fence.new plan).requiredAt order ≠ [] →
    ∀ s ∈ unionRange (Fence.new plan).cps ((Fence.new plan).floorIdx order)
      ((Fence.new plan).floorIdx order + 1 + (Fence.new plan).lookahead), s ∈ streamed

/-- A plan all of whose slots are streamed. -/
theorem served_of_subset {plan : Plan} {streamed : List Nat} (h : ∀ cp ∈ plan.checkpoints, ∀ s ∈ cp.samples, s ∈ streamed) :
    Served plan streamed := by
  intro order _ s hs
  obtain ⟨k, cp, hk, -, -, hcp⟩ := mem_unionRange.1 hs
  exact h cp (mem_sortByOrder.1 (List.mem_of_getElem? hk)) s hcp

namespace Fence

theorem floorIdx_calls (f : Fence) (cs : List Call) (order : Nat) : (f.calls cs).floorIdx order = f.floorIdx order := by
  rw [floorIdx_eq, floorIdx_eq, (f.calls_frame cs).1]

theorem requiredAt_calls (f : Fence) (cs : List Call) (order : Nat) :
    (f.calls cs).requiredAt order = f.requiredAt order := by
  simp only [requiredAt, floorIdx_calls, (f.calls_frame cs).1]

/-- With all of `streamed` provided, a served plan holds nothing back. -/
theorem ready_of_served {plan : Plan} {streamed : List Nat} (h : Served plan streamed) {cs : List Call}
    (hcs : ∀ s ∈ streamed, .provide s ∈ cs) (order : Nat) : (((Fence.new plan).calls cs).ready order).1 = true := by
  by_cases hreq : (Fence.new plan).requiredAt order = []
  · exact ready_of_empty (by rw [requiredAt_calls, hreq])
  · refine ready_of_margin fun s hs => mem_calls_provided.2 (.inr (hcs s (h order hreq s ?_)))
    rwa [floorIdx_calls, (calls_frame _ cs).1, (calls_frame _ cs).2] at hs

theorem provides_stalled (f : Fence) (streamed : List Nat) :
    (f.calls (streamed.map Call.provide)).stalled = f.stalled := by
  induction streamed generalizing f with
  | nil => rfl
  | cons s streamed ih => exact ih (f.provide s)

/-- Where a fence is asked before anything is provided, it then waits for its whole margin. -/
theorem served_of_ready {plan : Plan} {streamed : List Nat}
    (h : ∀ cs, (∀ index, Call.provide index ∈ cs ↔ index ∈ streamed) → ∀ order,
      (((Fence.new plan).calls cs).ready order).1 = true) : Served plan streamed := by
  intro order hreq s hs
  let cs := Call.ready order :: streamed.map Call.provide
  have hprovides : ∀ index, Call.provide index ∈ cs ↔ index ∈ streamed := by
    intro index
    simp [cs]
  have hstalled : ((Fence.new plan).calls cs).stalled = true :=
    (provides_stalled _ streamed).trans (ready_stalls rfl rfl hreq)
  have hmargin := margin_of_ready hstalled (by rwa [requiredAt_calls]) (h cs hprovides order) s (by
    rwa [floorIdx_calls, (calls_frame _ cs).1, (calls_frame _ cs).2])
  rw [mem_calls_provided] at hmargin
  exact (hprovides s).1 (hmargin.resolve_left (by rintro ⟨⟩))

end Fence

/-! ### The desktop -/

namespace Ipfs
variable {c : Codec} {lib : FlacLib} {world : World} {root : Cid}

/-- What a run that is not a stream tells: an empty plan. -/
theorem stream_root_cases (h : (stream_root c lib world root).result = .ok ⟨⟩) :
    (∃ m ix, Opens c world root m ix ∧ (stream_index c lib world m ix).result = .ok ⟨⟩) ∨
      ∀ plan n, .send (.skeleton plan n) ∈ (stream_root c lib world root).trace → plan = ⟨[], []⟩ := by
  obtain ⟨bytes, hbytes, h, htrace⟩ := Traced.bind_ok h
  rw [stream_root, htrace]
  dsimp only at h ⊢
  split at h
  · rename_i hver
    obtain ⟨m, hm, h, -⟩ := Traced.bind_ok h
    obtain ⟨ix, hix, h, -⟩ := Traced.bind_ok h
    exact .inl ⟨m, ix, ⟨⟨bytes, hbytes, hver, hm⟩, hix⟩, h⟩
  · rename_i hver
    rw [if_neg hver]
    split at h
    · rename_i hver'
      obtain ⟨b, hb, -, htrace'⟩ := Traced.bind_ok h
      refine .inr fun plan n hmem => ?_
      rw [if_pos hver', htrace', Traced.act_bind] at hmem
      simp only [Traced.log, Traced.lift, Traced.act, List.mem_append, List.mem_cons, List.not_mem_nil,
        or_false, false_or, reduceCtorEq, Act.send.injEq, StreamEvent.skeleton.injEq] at hmem
      exact hmem.1
    · cases h

/-- The plan that a run to the end tells. -/
theorem plan_of_told {opening : List Act} (hopening : ∀ a ∈ opening, ∃ cids, a = .fetch cids true) {ix : IndexV2}
    {skel : Bytes} {first rest : List Delivered} {plan : Plan} {n : Nat}
    (h : .send (.skeleton plan n) ∈ opening ++ runActs ix skel first rest ++ [.send .complete]) : plan = ix.pruned := by
  simp only [runActs, Delivered.fetched, Delivered.acts, delivery, List.mem_append, List.mem_cons, List.mem_flatMap,
    List.not_mem_nil, or_false, false_or, reduceCtorEq, Act.send.injEq, StreamEvent.skeleton.injEq, and_false,
    exists_false] at h
  rcases h with h | h
  · obtain ⟨cids, h⟩ := hopening _ h
    cases h
  · exact h.1

theorem stream_v2_neverStuck (c : Codec) (lib : FlacLib) (world : World) (root : Cid) :
    NeverStuck (stream_v2 c lib world root).trace := by
  intro hend plan n hplan calls hcalls order
  have hroot := (stream_v2_complete hend).1
  rcases stream_root_cases hroot with ⟨m, ix, ho, hindex⟩ | hempty
  · obtain ⟨opening, skel, first, rest, hopening, horder, htrace⟩ := ho.complete hindex
    obtain rfl : plan = ix.pruned := plan_of_told hopening (htrace ▸ hplan)
    refine Fence.ready_of_served (served_of_subset fun cp hcp s hs => mem_prune hcp s hs) (fun s hs => (hcalls s).2 ?_) order
    rw [htrace, announced_append, announced_append, announced_eq_nil hopening, announced_run]
    exact List.mem_append_left _ (horder.announced.mem_iff.2 hs)
  · obtain rfl : plan = ⟨[], []⟩ := by
      rw [stream_v2, Traced.bind_of_ok hroot] at hplan
      exact hempty plan n ((List.mem_append.1 hplan).resolve_right fun h => by cases List.mem_singleton.1 h)
    have hserved : Served ⟨[], []⟩ [] := served_of_subset (by simp)
    exact Fence.ready_of_served hserved (by simp) order

end Ipfs

/-! ### The browser -/

namespace Web
variable {c : Codec} {lib : FlacLib} {get : BlockGetter} {arrivals : Arrivals} {root : Cid} {samples : List Entry} {plan : Plan}

/-- The root is that of a v2, v3 or v4 manifest with these samples and this plan. -/
structure Opens (c : Codec) (get : BlockGetter) (root : Cid) (samples : List Entry) (plan : Plan) : Prop where
  reads : ∃ manifest index v, fetchCbor c get root = .ok manifest ∧ manifest.get? "v" Ipld.nat? = some v ∧ 2 ≤ v ∧ v ≤ 4 ∧
    readIndex c get manifest = .ok index ∧ readSamples index = .ok samples ∧ index.get "plan" plan? = .ok plan

theorem landed_spec {es : List Entry} : ∀ a ∈ landed c lib get es, a ≠ .send .complete ∧
    ∀ plan n, a ≠ .send (.skeleton plan n) := by
  intro a ha
  obtain ⟨s, -, ha⟩ := List.mem_flatMap.1 ha
  split at ha
  · simp only [delivery, List.mem_cons, List.not_mem_nil, or_false] at ha
    rcases ha with rfl | rfl <;> simp
  · cases ha

/-- A batch tells neither the end nor a plan. -/
theorem settle_quiet (es : List Entry) : (settle c lib get es).All fun a => a ≠ .send .complete ∧
    ∀ plan n, a ≠ .send (.skeleton plan n) := by
  induction es with
  | nil => exact .pure _
  | cons s es ih =>
    rw [settle]
    split
    · exact .bind (Ipfs.deliver_all (fun _ _ => by simp) fun _ _ => by simp) fun _ => ih
    · intro a ha
      rcases List.mem_cons.1 ha with rfl | ha
      · simp
      · exact landed_spec a ha

/-- A batch in which nothing fails tells each of its samples. -/
theorem settle_ok {es : List Entry} {u : PUnit} (h : (settle c lib get es).result = .ok u) :
    announced (settle c lib get es).trace = es.map Entry.index := by
  induction es with
  | nil => rfl
  | cons s es ih =>
    rw [settle] at h ⊢
    split
    · rename_i pcm hpcm
      simp only [hpcm] at h
      obtain ⟨⟨⟩, hs, h, htrace⟩ := Traced.bind_ok h
      obtain ⟨bytes, -, hacts⟩ := deliver_ok hs
      rw [htrace, announced_append, ih h, hacts]
      rfl
    · rename_i e he
      simp only [he] at h
      cases h

theorem mem_bySlot {slot : Nat} {s : Entry} (h : bySlot samples slot = some s) : s ∈ samples ∧ s.index = slot :=
  ⟨List.mem_reverse.1 (List.mem_of_find?_eq_some h), by simpa using List.find?_some h⟩

theorem bySlot_isSome {s : Entry} (hs : s ∈ samples) : ∃ t, bySlot samples s.index = some t :=
  Option.isSome_iff_exists.1 (List.find?_isSome.2 ⟨s, List.mem_reverse.2 hs, by simp⟩)

/-- The two batches have all the samples between them. -/
theorem batches_spec : (batches c lib get arrivals samples plan).All (∀ plan n, · ≠ .send (.skeleton plan n)) ∧
    (.send .complete ∈ (batches c lib get arrivals samples plan).trace → ∀ index,
      index ∈ announced (batches c lib get arrivals samples plan).trace ↔ index ∈ samples.map Entry.index) := by
  set required := (Fence.new plan).requiredAt 0 with hrequired
  set es₁ := arrivals.order (required.filterMap (bySlot samples)) with hes₁
  set es₂ := arrivals.order (samples.filter fun s => !required.contains s.index) with hes₂
  have hbatches : batches c lib get arrivals samples plan =
      settle c lib get es₁ >>= fun _ => settle c lib get es₂ >>= fun _ => Traced.act (.send .complete) := rfl
  refine ⟨?_, fun hend index => ?_⟩
  · rw [hbatches]
    exact .bind (fun a ha => (settle_quiet _ a ha).2) fun _ =>
      .bind (fun a ha => (settle_quiet _ a ha).2) fun _ => .act (by simp)
  rw [hbatches] at hend ⊢
  cases h₁ : (settle c lib get es₁).result with
  | error e =>
    rw [Traced.bind_of_error h₁] at hend
    exact absurd rfl (settle_quiet _ _ hend).1
  | ok u₁ =>
    rw [Traced.bind_of_ok h₁] at hend ⊢
    cases h₂ : (settle c lib get es₂).result with
    | error e =>
      rw [Traced.bind_of_error h₂] at hend
      exact (List.mem_append.1 hend).elim (fun h => absurd rfl (settle_quiet _ _ h).1)
        fun h => absurd rfl (settle_quiet _ _ h).1
    | ok u₂ =>
      rw [Traced.bind_of_ok h₂]
      simp only [announced_append, settle_ok h₁, settle_ok h₂, List.mem_append]
      have hperm₁ := (arrivals.perm (required.filterMap (bySlot samples))).map Entry.index
      have hperm₂ := (arrivals.perm (samples.filter fun s => !required.contains s.index)).map Entry.index
      rw [hperm₁.mem_iff, hperm₂.mem_iff]
      constructor
      · rintro (h | h | h)
        · obtain ⟨s, hs, rfl⟩ := List.mem_map.1 h
          obtain ⟨slot, -, hslot⟩ := List.mem_filterMap.1 hs
          exact List.mem_map_of_mem (mem_bySlot hslot).1
        · obtain ⟨s, hs, rfl⟩ := List.mem_map.1 h
          exact List.mem_map_of_mem (List.mem_filter.1 hs).1
        · cases h
      · intro h
        obtain ⟨s, hs, rfl⟩ := List.mem_map.1 h
        by_cases hreq : s.index ∈ required
        · obtain ⟨t, ht⟩ := bySlot_isSome hs
          exact .inl (List.mem_map.2 ⟨t, List.mem_filterMap.2 ⟨_, hreq, ht⟩, (mem_bySlot ht).2⟩)
        · exact .inr (.inl (List.mem_map_of_mem (List.mem_filter.2 ⟨hs, by simpa using hreq⟩)))

/-- What a run on such a root tells once it has told the end. -/
theorem startStream_complete (ho : Opens c get root samples plan)
    (hend : .send .complete ∈ (startStream c lib get arrivals root).trace) :
    .send (.skeleton plan samples.length) ∈ (startStream c lib get arrivals root).trace ∧
    (∀ plan' n, .send (.skeleton plan' n) ∈ (startStream c lib get arrivals root).trace → plan' = plan) ∧
    ∀ index, index ∈ announced (startStream c lib get arrivals root).trace ↔ index ∈ samples.map Entry.index := by
  obtain ⟨manifest, index, v, hmanifest, hv, hv₂, hv₄, hindex, hsamples, hplan⟩ := ho.reads
  have hversion : manifestVersion manifest = some (v : ℚ) := by
    obtain ⟨w, hw, hnat⟩ := Option.bind_eq_some_iff.1 hv
    rw [manifestVersion, hw]
    cases w with
    | int n =>
      simp only [Ipld.nat?] at hnat
      split at hnat
      · rename_i hn
        cases hnat
        change some (Js.intNumber n) = _
        rw [Js.intNumber, if_pos (by omega), Option.some.injEq]
        exact_mod_cast (Int.toNat_of_nonneg hn).symm
      · cases hnat
    | _ => cases hnat
  have hlow : ¬ (some (v : ℚ)).any (· < 2) = true := by
    have hle : (2 : ℚ) ≤ v := by exact_mod_cast hv₂
    rw [Option.any_some, decide_eq_true_iff]
    exact not_lt_of_ge hle
  have hhigh : ¬ (some (v : ℚ)).any (4 < ·) = true := by
    have hle : (v : ℚ) ≤ 4 := by exact_mod_cast hv₄
    rw [Option.any_some, decide_eq_true_iff]
    exact not_lt_of_ge hle
  have hrun : startStream c lib get arrivals root = (do
      let skeleton ← Traced.lift (fetchSkeleton c get manifest)
      Traced.act (.storeSkeleton skeleton)
      Traced.act (.send (.skeleton plan samples.length))
      (batches c lib get arrivals samples plan).caught) := by
    rw [startStream]
    simp only [hmanifest, Traced.lift_ok_bind, hversion, if_neg hlow, if_neg hhigh, hindex, hsamples, hplan]
  rw [hrun] at hend ⊢
  cases hskel : fetchSkeleton c get manifest with
  | error e =>
    rw [hskel] at hend
    cases hend
  | ok skeleton =>
    rw [hskel] at hend
    simp only [Traced.lift_ok_bind, Traced.act_bind, Traced.caught, List.mem_cons, reduceCtorEq, false_or,
      Act.send.injEq, StreamEvent.skeleton.injEq] at hend ⊢
    obtain ⟨hquiet, hall⟩ := @batches_spec c lib get arrivals samples plan
    refine ⟨by simp, fun plan' n h => ?_, hall hend⟩
    rcases h with ⟨rfl, -⟩ | h
    · rfl
    · exact absurd rfl (hquiet _ h plan' n)

/-- In the browser the plan has to be served by the samples. -/
theorem startStream_neverStuck (ho : Opens c get root samples plan)
    (hend : .send .complete ∈ (startStream c lib get arrivals root).trace) :
    NeverStuck (startStream c lib get arrivals root).trace ↔ Served plan (samples.map Entry.index) := by
  obtain ⟨htold, honly, hall⟩ := startStream_complete ho hend
  constructor
  · exact fun h => Fence.served_of_ready fun cs hcs => h hend plan _ htold cs fun index => (hcs index).trans (hall index).symm
  · intro h _ plan' n hplan' cs hcs order
    obtain rfl := honly plan' n hplan'
    exact Fence.ready_of_served h (fun s hs => (hcs s).2 ((hall s).2 hs)) order

end Web

/-- After the end of a stream no order is held back: on the desktop always, in the browser exactly when every slot
that the fence may ask for is in the manifest's `samples[]`. -/
theorem ready_after_complete (c : Codec) (lib : FlacLib) :
    (∀ world root, NeverStuck (Ipfs.stream_v2 c lib world root).trace) ∧
    ∀ get arrivals root samples plan, Web.Opens c get root samples plan →
      .send .complete ∈ (Web.startStream c lib get arrivals root).trace →
      (NeverStuck (Web.startStream c lib get arrivals root).trace ↔ Served plan (samples.map Web.Entry.index)) :=
  ⟨fun world root => Ipfs.stream_v2_neverStuck c lib world root, fun _ _ _ _ _ ho hend => Web.startStream_neverStuck ho hend⟩

/-- Samples land as they are asked for. -/
def inOrder : Web.Arrivals := ⟨fun es => es, fun _ => .refl _⟩

def plainGet : BlockGetter := fun cid => .ok cid.digest

/-- A v2 manifest whose plan names slot 1, with no sample streamed. -/
def staleManifest : Ipld :=
  .map [("v", .nat 2), ("index", indexIpld [] ⟨[], [⟨0, [1]⟩]⟩), ("skeletonChunks", .links []), ("skeletonLayout", .nats [])]

/-- In the browser that stream ends, and order 0 is held back for ever. -/
theorem stuck_staleManifest : ¬ ∀ (c : Codec) (lib : FlacLib) (get : BlockGetter) (arrivals : Web.Arrivals) (root : Cid)
    (samples : List Web.Entry) (plan : Plan), Web.Opens c get root samples plan →
    NeverStuck (Web.startStream c lib get arrivals root).trace := by
  intro h
  have hopens : Web.Opens (Ipfs.plainCodec staleManifest) plainGet Ipfs.plainRoot [] ⟨[], [⟨0, [1]⟩]⟩ :=
    ⟨_, _, 2, rfl, rfl, by decide, by decide, rfl, rfl, rfl⟩
  have htrace : (Web.startStream (Ipfs.plainCodec staleManifest) Ipfs.plainFlac plainGet inOrder Ipfs.plainRoot).trace =
      [.storeSkeleton [], .send (.skeleton ⟨[], [⟨0, [1]⟩]⟩ 0), .send .complete] := rfl
  have hready := h _ Ipfs.plainFlac _ inOrder _ _ _ hopens (htrace ▸ by simp) ⟨[], [⟨0, [1]⟩]⟩ 0 (htrace ▸ by simp) []
    (fun index => by rw [htrace]; simp [announced]) 0
  exact absurd hready (by decide)

/-- A manifest whose plan names only streamed slots lets every order in. -/
theorem ready_after_complete_plainManifest :
    NeverStuck (Web.startStream (Ipfs.plainCodec Ipfs.plainManifest) Ipfs.plainFlac plainGet inOrder Ipfs.plainRoot).trace := by
  have hopens : Web.Opens (Ipfs.plainCodec Ipfs.plainManifest) plainGet Ipfs.plainRoot
      (Ipfs.plainIndex.samples.map fun s =>
        ⟨s.index, s.frames, (SampleV2.mk s.index s.frames s.channels s.bit_depth s.chunks).toIpld⟩) Ipfs.plainIndex.plan :=
    ⟨_, _, 2, rfl, rfl, by decide, by decide, rfl, rfl, rfl⟩
  refine ((ready_after_complete _ Ipfs.plainFlac).2 _ inOrder _ _ _ hopens (List.mem_of_getLast? rfl)).2
    (served_of_subset ?_)
  decide

end TrackerStream
