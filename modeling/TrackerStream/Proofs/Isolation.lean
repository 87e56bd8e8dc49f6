import TrackerStream.Player

/-!
# What a superseded call still does

`untouched_iff`: the steps of calls that another has superseded touch nothing if and only if none of them is one of
four slips. After `loadStream`'s wait and after `play`'s waits the epoch is not asked for again, and neither is it
in the `catch` of `playModule`.
-/

namespace TrackerStream.Player

variable {s s' : Player} {addrs k : Nat} {wait : Wait} {o : Outcome}

/-! ### What a step touches -/

/-- Two states that show and post the same. -/
structure Same (s s' : Player) : Prop where
  nowPlaying : s'.nowPlaying = s.nowPlaying
  bufferFence : s'.bufferFence = s.bufferFence
  planOrderSeconds : s'.planOrderSeconds = s.planOrderSeconds
  posted : s'.posted = s.posted

theorem Same.refl (s : Player) : Same s s := ⟨rfl, rfl, rfl, rfl⟩

theorem Same.untouched (h : Same s s') : Untouched s s' :=
  ⟨h.nowPlaying, h.bufferFence, h.planOrderSeconds, by simp [h.posted]⟩

theorem same_goOn (i : Nat) (t : Task) (w : Option Wait) : Same s (s.goOn i t w) := by
  cases w <;> exact ⟨rfl, rfl, rfl, rfl⟩

theorem Same.untouched_congr {s'' : Player} (h : Same s' s'') : Untouched s s'' ↔ Untouched s s' := by
  constructor <;> intro hu
  · exact ⟨h.nowPlaying ▸ hu.nowPlaying, h.bufferFence ▸ hu.bufferFence, h.planOrderSeconds ▸ hu.planOrderSeconds,
      h.posted ▸ hu.posted⟩
  · exact ⟨h.nowPlaying.trans hu.nowPlaying, h.bufferFence.trans hu.bufferFence,
      h.planOrderSeconds.trans hu.planOrderSeconds, by rw [h.posted]; exact hu.posted⟩

/-- A post that steers is not nothing. -/
theorem not_untouched_send {msg : ToWorklet} (hnodes : s.nodes ≠ 0) (hsteers : Steers msg)
    (hposted : s'.posted = s.posted ++ [⟨s.nodes, k, msg⟩]) : ¬ Untouched s s' := by
  intro h
  refine h.posted ⟨s.nodes, k, msg⟩ ?_ hsteers
  rw [hposted, List.drop_left]
  exact List.mem_singleton_self _

/-- The waits that come after a node has been made. -/
def Wait.afterNode : Wait → Bool
  | .init | .loadInit .. | .loadStream | .playInit | .resumeContext | .play => true
  | _ => false

/-- A step of a superseded call touches something just if it slips. -/
theorem untouched_resume_iff (hk : k < s.playEpoch) (hnode : wait.afterNode = true → s.nodes ≠ 0) :
    Untouched s (s.resume addrs k wait o).1 ↔ ¬ s.Slips wait o := by
  have hne : k ≠ s.playEpoch := Nat.ne_of_lt hk
  have hsame : ∀ s', Same s s' → (Untouched s s' ↔ ¬ False) := fun s' h => iff_of_true h.untouched not_false
  have hcaught : ∀ err, Untouched s (s.caught err) ↔
      ¬ (s.nowPlaying.error, s.nowPlaying.streaming, s.nowPlaying.buffering) ≠ (err, false, false) := by
    intro err
    rw [not_ne_iff, Prod.mk.injEq, Prod.mk.injEq]
    constructor
    · intro h
      have hnow := h.nowPlaying
      rw [← hnow]
      exact ⟨rfl, rfl, rfl⟩
    · rintro ⟨h₁, h₂, h₃⟩
      refine Same.untouched ⟨?_, rfl, rfl, rfl⟩
      rw [caught]
      cases hnow : s.nowPlaying
      simp_all
  have hhandler : ∀ err, Same s (s.handlerCaught k err) := by
    intro err
    rw [handlerCaught, if_neg hne]
    exact .refl s
  cases wait <;> cases o
  case addModule.reject err | init.reject err | startStream.reject err => exact hcaught err
  case loadInit.ok skeleton plan bytes =>
    refine iff_of_false (not_untouched_send (k := k) (hnode rfl) (show Steers (.init skeleton plan) from trivial) ?_) (fun h => h trivial)
    simp only [resume, load, send, hnode rfl, if_false]
  case resumeContext.ok bytes =>
    refine iff_of_false (not_untouched_send (k := k) (hnode rfl) (show Steers .play from trivial) ?_) (fun h => h trivial)
    simp only [resume, startPlaying, send, hnode rfl, if_false]
  case connectPeer.reject left err => cases left <;> exact hsame _ ⟨rfl, rfl, rfl, rfl⟩
  case getSkeleton.ok plan bytes =>
    refine hsame _ ?_
    simp only [resume, if_pos hne]
    exact .refl s
  case inited.ok | inited.reject =>
    refine hsame _ ?_
    simp only [resume, if_pos hne]
    exact .refl s
  case getSkeleton.reject err | loadAddModule.reject err | loadInit.reject err | playAddModule.reject err |
      playInit.reject err | resumeContext.reject err | getSample.reject err => exact hsame _ (hhandler err)
  all_goals exact hsame _ ⟨rfl, rfl, rfl, rfl⟩

/-! ### What holds of every state -/

/-- What a step does besides: the epoch, the nodes and the tasks. -/
structure Frame (s s' : Player) : Prop where
  playEpoch : s'.playEpoch = s.playEpoch
  nodes : s'.nodes = s.nodes
  tasks : s'.tasks = s.tasks

theorem Frame.refl (s : Player) : Frame s s := ⟨rfl, rfl, rfl⟩

theorem Frame.trans {s'' : Player} (h : Frame s s') (h' : Frame s' s'') : Frame s s'' :=
  ⟨h'.playEpoch.trans h.playEpoch, h'.nodes.trans h.nodes, h'.tasks.trans h.tasks⟩

theorem frame_send (msg : ToWorklet) : Frame s (s.send k msg) := by
  unfold send
  split <;> exact ⟨rfl, rfl, rfl⟩

theorem frame_recomputeBuffered : Frame s s.recomputeBuffered := by
  unfold recomputeBuffered
  split <;> exact ⟨rfl, rfl, rfl⟩

/-- The calls of the `init`s posted, in order. -/
def inits (s : Player) : List Nat := s.posted.filterMap fun p => if p.msg.isInit then some p.call else none

theorem inits_send_of_not {msg : ToWorklet} (h : msg.isInit = false) : (s.send k msg).inits = s.inits := by
  unfold send
  split
  · rfl
  · simp [inits, h]

theorem inits_send_init (skeleton : Bytes) (plan : Plan) :
    (s.send k (.init skeleton plan)).inits = s.inits ∨ (s.send k (.init skeleton plan)).inits = s.inits ++ [k] := by
  unfold send
  split
  · exact .inl rfl
  · exact .inr (by simp [inits, ToWorklet.isInit])

theorem inits_recomputeBuffered : s.recomputeBuffered.inits = s.inits := by
  unfold recomputeBuffered
  split <;> rfl

theorem patch_spec (index frames : Nat) (pcm : Bytes) :
    Frame s (s.patch k index frames pcm) ∧ (s.patch k index frames pcm).inits = s.inits := by
  have hsend := frame_send (s := s) (k := k) (.provideSample index frames pcm)
  have hinits := inits_send_of_not (s := s) (k := k) (show (ToWorklet.provideSample index frames pcm).isInit = false from rfl)
  have hfence : Frame (s.send k (.provideSample index frames pcm)) { s.send k (.provideSample index frames pcm) with
      bufferFence := (s.send k (.provideSample index frames pcm)).bufferFence.map (Fence.provide · index) } :=
    ⟨rfl, rfl, rfl⟩
  have hframe := (hsend.trans hfence).trans frame_recomputeBuffered
  unfold patch
  dsimp only
  split
  · exact ⟨⟨hframe.playEpoch, hframe.nodes, hframe.tasks⟩, inits_recomputeBuffered.trans hinits⟩
  · exact ⟨⟨hframe.playEpoch, hframe.nodes, hframe.tasks⟩, inits_recomputeBuffered.trans hinits⟩

/-- What a wait's end does besides: only `loadStream` posts an `init`, and a wait for what needs a node comes after
one has been made. -/
structure Resumed (s : Player) (addrs k : Nat) (wait : Wait) (o : Outcome) : Prop where
  playEpoch : (s.resume addrs k wait o).1.playEpoch = s.playEpoch
  tasks : (s.resume addrs k wait o).1.tasks = s.tasks
  nodes : s.nodes ≠ 0 → (s.resume addrs k wait o).1.nodes ≠ 0
  next : ∀ w, (s.resume addrs k wait o).2 = some w → w.afterNode = true → (s.resume addrs k wait o).1.nodes ≠ 0
  inits : (s.resume addrs k wait o).1.inits = s.inits ∨
    s.Slips wait o ∧ (s.resume addrs k wait o).1.inits = s.inits ++ [k]

theorem Resumed.of_frame (h : Frame s (s.resume addrs k wait o).1)
    (hnext : ∀ w, (s.resume addrs k wait o).2 = some w → w.afterNode = true → s.nodes ≠ 0)
    (hinits : (s.resume addrs k wait o).1.inits = s.inits) : Resumed s addrs k wait o :=
  ⟨h.playEpoch, h.tasks, fun hn => h.nodes ▸ hn, fun w hw ha => h.nodes ▸ hnext w hw ha, .inl hinits⟩

theorem awaitInit_afterNode {done adding w : Wait} (hadding : adding.afterNode = false)
    (h : some (s.awaitInit done adding) = some w) (ha : w.afterNode = true) : s.nodes ≠ 0 := by
  unfold awaitInit at h
  split at h
  · assumption
  · rw [← Option.some.inj h, hadding] at ha
    cases ha

theorem resumed (hnode : wait.afterNode = true → s.nodes ≠ 0) : Resumed s addrs k wait o := by
  have hhandler : ∀ err, Frame s (s.handlerCaught k err) ∧ (s.handlerCaught k err).inits = s.inits := by
    intro err
    unfold handlerCaught
    split <;> exact ⟨⟨rfl, rfl, rfl⟩, rfl⟩
  cases wait <;> cases o
  case addModule.ok | loadAddModule.ok | playAddModule.ok =>
    exact ⟨rfl, rfl, fun _ => Nat.succ_ne_zero _, fun _ _ _ => Nat.succ_ne_zero _, .inl rfl⟩
  case init.ok | playInit.ok =>
    exact .of_frame (.refl s) (fun _ _ _ => hnode rfl) rfl
  case loadInit.ok skeleton plan bytes =>
    have hset : Frame s { s with durationSeconds := none, playing := false } := ⟨rfl, rfl, rfl⟩
    have hframe : Frame s (s.load k skeleton plan) := hset.trans (frame_send _)
    refine ⟨hframe.playEpoch, hframe.tasks, fun hn => hframe.nodes ▸ hn, fun _ _ _ => hframe.nodes ▸ hnode rfl, ?_⟩
    exact (inits_send_init (s := { s with durationSeconds := none, playing := false }) skeleton plan).imp id
      fun h => ⟨trivial, h⟩
  case resumeContext.ok bytes =>
    have hset : Frame s { s with playing := true } := ⟨rfl, rfl, rfl⟩
    have hframe : Frame s (s.startPlaying k) := hset.trans (frame_send _)
    exact .of_frame hframe (fun _ _ _ => hnode rfl) (inits_send_of_not (s := { s with playing := true }) rfl)
  case connectPeer.reject left err =>
    cases left <;> exact .of_frame ⟨rfl, rfl, rfl⟩ (by rintro _ ⟨⟩ ⟨⟩) rfl
  case getSkeleton.ok plan bytes =>
    by_cases hne : k ≠ s.playEpoch
    · refine .of_frame ?_ ?_ ?_ <;> simp only [resume, if_pos hne]
      · exact .refl s
      · rintro _ ⟨⟩
    · refine .of_frame ?_ ?_ ?_ <;> simp only [resume, if_neg hne]
      · exact .refl s
      · exact fun w hw ha => awaitInit_afterNode rfl hw ha
  case loadStream.ok | loadStream.reject => exact .of_frame (.refl s) (fun w hw ha => awaitInit_afterNode rfl hw ha) rfl
  case inited.ok | inited.reject =>
    refine .of_frame ?_ ?_ ?_ <;> simp only [resume] <;> split
    all_goals first | rfl | exact .refl s | exact (patch_spec ..).1 | exact (patch_spec ..).2 | rintro _ ⟨⟩
  case getSkeleton.reject err | loadAddModule.reject err | loadInit.reject err | playAddModule.reject err |
      playInit.reject err | resumeContext.reject err | getSample.reject err =>
    exact .of_frame (hhandler err).1 (by rintro _ ⟨⟩) (hhandler err).2
  all_goals exact .of_frame ⟨rfl, rfl, rfl⟩ (by rintro _ ⟨⟩ ⟨⟩) rfl

structure Inv (s : Player) : Prop where
  call : ∀ t ∈ s.tasks, t.call ≤ s.playEpoch
  node : ∀ t ∈ s.tasks, t.wait.afterNode = true → s.nodes ≠ 0

theorem Inv.append {t : Task} (h : Inv s) (htasks : s'.tasks = s.tasks ++ [t]) (hepoch : s.playEpoch ≤ s'.playEpoch)
    (hnodes : s'.nodes = s.nodes) (hcall : t.call ≤ s'.playEpoch) (hnode : t.wait.afterNode = true → s.nodes ≠ 0) :
    Inv s' := by
  constructor <;> intro t' ht' <;> rw [htasks, List.mem_append, List.mem_singleton] at ht'
  · rcases ht' with ht' | rfl
    · exact (h.call t' ht').trans hepoch
    · exact hcall
  · rw [hnodes]
    rcases ht' with ht' | rfl
    · exact h.node t' ht'
    · exact hnode

theorem Inv.of_frame (h : Inv s) (hf : Frame s s') : Inv s' :=
  ⟨by rw [hf.tasks, hf.playEpoch]; exact h.call, by rw [hf.tasks, hf.nodes]; exact h.node⟩

theorem inv_step (h : Inv s) (i : Input) : Inv (step addrs s i) := by
  cases i with
  | playModule hit =>
    refine h.append (t := ⟨s.playEpoch + 1, s.awaitInit .init .addModule⟩) rfl (Nat.le_succ _) rfl (Nat.le_refl _) ?_
    exact fun ha => awaitInit_afterNode rfl rfl ha
  | event k e =>
    simp only [step]
    split
    · unfold onEvent
      split
      · exact h
      next hk =>
        have hk := not_not.1 hk
        cases e with
        | skeleton samples plan =>
          exact h.append (t := ⟨k, .getSkeleton plan⟩) rfl (Nat.le_refl _) rfl (Nat.le_of_eq hk) (by rintro ⟨⟩)
        | sample index frames =>
          exact h.append (t := ⟨k, .getSample index frames⟩) rfl (Nat.le_refl _) rfl (Nat.le_of_eq hk) (by rintro ⟨⟩)
        | complete => exact h.of_frame ⟨rfl, rfl, rfl⟩
        | error message => exact h.of_frame ⟨rfl, rfl, rfl⟩
    · exact h
  | resume i o =>
    simp only [step]
    split
    next t ht =>
      have hmem := List.mem_of_getElem? ht
      split
      · have hres : Resumed s addrs t.call t.wait o := resumed (h.node t hmem)
        have hnodes (t' : Task) (ht' : t' ∈ s.tasks) (ha : t'.wait.afterNode = true) := hres.nodes (h.node t' ht' ha)
        cases hnext : (s.resume addrs t.call t.wait o).2 with
        | none =>
          constructor <;> intro t' ht' <;> simp only [goOn, hres.tasks] at ht' ⊢
          · exact hres.playEpoch ▸ h.call t' (List.mem_of_mem_eraseIdx ht')
          · exact hnodes t' (List.mem_of_mem_eraseIdx ht')
        | some w =>
          constructor <;> intro t' ht' <;> simp only [goOn, hres.tasks] at ht' ⊢
          all_goals rcases List.mem_or_eq_of_mem_set ht' with ht' | rfl
          · exact hres.playEpoch ▸ h.call t' ht'
          · exact hres.playEpoch ▸ h.call t hmem
          · exact hnodes t' ht'
          · exact hres.next w hnext
      · exact h
    · exact h
  | told t =>
    cases t with
    | pos => exact h.of_frame frame_recomputeBuffered
    | _ => exact h.of_frame ⟨rfl, rfl, rfl⟩

theorem inv_after {is : List Input} {k : Nat} (hk : k ≤ is.length) : Inv (after addrs is k) :=
  Runs.invariant (I := fun _ => Inv) ⟨by rintro t ⟨⟩, by rintro t ⟨⟩⟩ (fun _ i _ h => inv_step h i) k hk

/-! ### Runs -/

/-- A step of a superseded call touches something just if it slips. -/
theorem untouched_step_iff (h : Inv s) {i : Input} (hi : s.Superseded i) :
    Untouched s (step addrs s i) ↔ ¬ s.SlipsAt i := by
  obtain ⟨k, hcaller, hk⟩ := hi
  cases i with
  | playModule hit => cases hcaller
  | told t => cases hcaller
  | event k' e =>
    obtain rfl : k' = k := Option.some.inj hcaller
    refine iff_of_true (Same.untouched ?_) fun h => h
    simp only [step, onEvent, Nat.ne_of_lt hk, ne_eq, not_false_eq_true, ↓reduceIte, ite_self]
    exact .refl s
  | resume i o =>
    obtain ⟨t, ht, rfl⟩ := Option.map_eq_some_iff.1 hcaller
    have hslips : s.SlipsAt (.resume i o) ↔ s.Slips t.wait o := by
      constructor
      · rintro ⟨t', ht', hs⟩
        obtain rfl := Option.some.inj (ht.symm.trans ht')
        exact hs
      · exact fun hs => ⟨t, ht, hs⟩
    rw [hslips]
    by_cases hr : s.ready t = true
    · rw [← untouched_resume_iff hk (h.node t (List.mem_of_getElem? ht))]
      simp only [step, ht, hr, ↓reduceIte]
      exact (same_goOn ..).untouched_congr
    · simp only [step, ht, hr]
      obtain ⟨call, wait⟩ := t
      cases wait <;> try exact absurd rfl hr
      cases o <;> exact iff_of_true (Same.refl s).untouched fun h => h

/-- Of the `init`s posted each is from a later call than the one before, or from the same. -/
structure InOrder (s : Player) : Prop where
  pairwise : s.inits.Pairwise (· ≤ ·)
  le : ∀ k ∈ s.inits, k ≤ s.playEpoch

theorem InOrder.latestInit (h : InOrder s) : LatestInit s := by
  intro p before after hposted hp hafter q hq hinit
  have hpair := h.pairwise
  rw [hposted] at hq
  rw [inits, hposted, List.filterMap_append, List.filterMap_cons, hp, if_pos rfl, List.pairwise_append] at hpair
  rcases List.mem_append.1 hq with hq | hq
  · exact hpair.2.2 q.call (List.mem_filterMap.2 ⟨q, hq, by rw [hinit, if_pos rfl]⟩) p.call (List.mem_cons_self ..)
  · rcases List.mem_cons.1 hq with rfl | hq
    · exact Nat.le_refl _
    · rw [hafter q hq] at hinit
      cases hinit

theorem InOrder.of_same (h : InOrder s) (hinits : s'.inits = s.inits) (hepoch : s.playEpoch ≤ s'.playEpoch) : InOrder s' :=
  ⟨hinits ▸ h.pairwise, fun k hk => (h.le k (hinits ▸ hk)).trans hepoch⟩

theorem InOrder.step (h : InOrder s) (hinv : Inv s) {i : Input} (hi : s.Superseded i → ¬ s.SlipsAt i) :
    InOrder (step addrs s i) := by
  cases i with
  | playModule hit => exact h.of_same rfl (Nat.le_succ _)
  | event k e =>
    simp only [Player.step]
    split
    · unfold onEvent
      split
      · exact h
      · cases e <;> exact h.of_same rfl (Nat.le_refl _)
    · exact h
  | resume i o =>
    simp only [Player.step]
    split
    next t ht =>
      have hmem := List.mem_of_getElem? ht
      split
      · have hres : Resumed s addrs t.call t.wait o := resumed (hinv.node t hmem)
        have hgo : ∀ w, ((s.resume addrs t.call t.wait o).1.goOn i t w).inits = (s.resume addrs t.call t.wait o).1.inits ∧
            ((s.resume addrs t.call t.wait o).1.goOn i t w).playEpoch = s.playEpoch := by
          intro w
          cases w <;> exact ⟨rfl, hres.playEpoch⟩
        obtain ⟨hinits, hepoch⟩ := hgo (s.resume addrs t.call t.wait o).2
        rcases hres.inits with heq | ⟨hslips, heq⟩
        · exact h.of_same (hinits.trans heq) (Nat.le_of_eq hepoch.symm)
        · have hcall : t.call = s.playEpoch := by
            rcases Nat.lt_or_eq_of_le (hinv.call t hmem) with hlt | heq
            · exact absurd ⟨t, ht, hslips⟩ (hi ⟨t.call, by rw [caller, ht]; rfl, hlt⟩)
            · exact heq
          constructor
          · rw [hinits, heq, List.pairwise_append]
            refine ⟨h.pairwise, List.pairwise_singleton .., fun a ha b hb => ?_⟩
            rw [List.mem_singleton.1 hb, hcall]
            exact h.le a ha
          · rw [hinits, heq, hepoch]
            intro k hk
            rcases List.mem_append.1 hk with hk | hk
            · exact h.le k hk
            · rw [List.mem_singleton.1 hk, hcall]
      · exact h
    · exact h
  | told t =>
    cases t with
    | pos => exact h.of_same inits_recomputeBuffered (Nat.le_of_eq frame_recomputeBuffered.playEpoch.symm)
    | _ => exact h.of_same rfl (Nat.le_refl _)

theorem untouched_iff (addrs : Nat) (is : List Input) :
    ((∀ k i, is[k]? = some i → (after addrs is k).Superseded i → Untouched (after addrs is k) (after addrs is (k + 1))) ↔
        ∀ k i, is[k]? = some i → (after addrs is k).Superseded i → ¬ (after addrs is k).SlipsAt i) ∧
      ((∀ k i, is[k]? = some i → (after addrs is k).Superseded i → ¬ (after addrs is k).SlipsAt i) →
        ∀ k, LatestInit (after addrs is k)) := by
  have hinv {k : Nat} {i : Input} (hi : is[k]? = some i) : Inv (after addrs is k) :=
    inv_after (Nat.le_of_lt (List.getElem?_eq_some_iff.1 hi).1)
  constructor
  · refine forall_congr' fun k => forall_congr' fun i => forall_congr' fun hi => forall_congr' fun hs => ?_
    rw [← untouched_step_iff (hinv hi) hs, after, after, Runs.state_succ hi]
  · intro h k
    have hle (k : Nat) (hk : k ≤ is.length) : InOrder (after addrs is k) :=
      Runs.invariant (I := fun _ => InOrder) ⟨.nil, by rintro k ⟨⟩⟩
        (fun k i hi hs => hs.step (hinv hi) (h k i hi)) k hk
    rcases Nat.le_total k is.length with hk | hk
    · exact (hle k hk).latestInit
    · rw [after, Runs.state_of_le hk]
      exact (hle is.length (Nat.le_refl _)).latestInit

/-- A track is left while its `loadStream` waits for `init`. -/
def leftLoading : List Input :=
  [.playModule ⟨"a", ""⟩, .resume 0 (.ok []), .resume 0 (.ok []), .resume 0 (.ok []), .event 1 (.skeleton 0 ⟨[], []⟩),
    .resume 1 (.ok []), .playModule ⟨"b", ""⟩, .resume 1 (.ok [])]

/-- Its `init` is posted all the same. -/
theorem leftLoading_touches : ¬ ∀ k i, leftLoading[k]? = some i → (after 0 leftLoading k).Superseded i →
    Untouched (after 0 leftLoading k) (after 0 leftLoading (k + 1)) := by
  intro h
  have hposted := (h 7 (.resume 1 (.ok [])) rfl ⟨1, rfl, by decide⟩).posted ⟨1, 1, .init [] ⟨[], []⟩⟩
  exact hposted (List.mem_of_getElem? (i := 0) rfl) trivial

end TrackerStream.Player
