import TrackerStream.Processor

/-!
# Samples and the instance they are for

`isolated_iff`: an instance is given only samples that came after its `init` and before the next, if and only if
no `init` that finds samples in the queue is followed by an instance. The queue has no mark of the track it is for;
it is emptied when an instance is made and only then.
-/

namespace TrackerStream.TrackerProcessor

variable {s : TrackerProcessor} {env : Openmpt} {c : LibCall} {p : PendingProvide} {ok : Bool} {k : Nat}

/-- What a call gives to which instance. -/
def LibCall.gives : LibCall → Option (Nat × PendingProvide)
  | .provideSample mod p _ => some (mod, p)
  | _ => none

/-- The samples given so far. -/
def given (s : TrackerProcessor) : List (Nat × PendingProvide) := s.calls.filterMap LibCall.gives

theorem isolated_iff_given {es : List (Event × Openmpt)} : Isolated es s ↔ ∀ x ∈ s.given, Own es x.1 x.2 := by
  constructor
  · intro h x hx
    obtain ⟨c, hc, hgives⟩ := List.mem_filterMap.1 hx
    cases c <;> simp only [LibCall.gives, reduceCtorEq, Option.some.injEq] at hgives
    rw [← hgives]
    exact h _ _ _ hc
  · intro h mod p ok hmem
    exact h (mod, p) (List.mem_filterMap.2 ⟨_, hmem, rfl⟩)

/-! ### What each function leaves as it is -/

/-- The two agree on what is loaded, queued and given. -/
structure Same (s s' : TrackerProcessor) : Prop where
  lib : s'.lib = s.lib
  mod : s'.mod = s.mod
  pendingInit : s'.pendingInit = s.pendingInit
  pendingProvides : s'.pendingProvides = s.pendingProvides
  given : s'.given = s.given

/-- The two differ only in what is told, rendered and played, and in calls that give nothing. -/
structure Quiet (s s' : TrackerProcessor) : Prop extends Same s s' where
  marks : s'.fence.map (·.provided) = s.fence.map (·.provided)
  calls : ∀ c ∈ s.calls, c ∈ s'.calls

theorem Quiet.refl : Quiet s s := ⟨⟨rfl, rfl, rfl, rfl, rfl⟩, rfl, fun _ => id⟩

theorem Quiet.trans {s' s'' : TrackerProcessor} (h : Quiet s s') (h' : Quiet s' s'') : Quiet s s'' where
  lib := h'.lib.trans h.lib
  mod := h'.mod.trans h.mod
  pendingInit := h'.pendingInit.trans h.pendingInit
  pendingProvides := h'.pendingProvides.trans h.pendingProvides
  given := h'.given.trans h.given
  marks := h'.marks.trans h.marks
  calls c hc := h'.calls c (h.calls c hc)

theorem quiet_send (msg : FromWorklet) : Quiet s (s.send msg) := ⟨⟨rfl, rfl, rfl, rfl, rfl⟩, rfl, fun _ => id⟩

/-- Whether it plays and what it reported is of no matter. -/
theorem quiet_flags (playing wasBuffering bufferingReported : Bool) :
    Quiet s { s with
      playing := playing
      wasBuffering := wasBuffering
      bufferingReported := bufferingReported } :=
  ⟨⟨rfl, rfl, rfl, rfl, rfl⟩, rfl, fun _ => id⟩

theorem given_call : (s.call c).given = s.given ++ (c.gives).toList := by
  rw [given, call, List.filterMap_append]
  cases h : c.gives <;> simp [h, given]

theorem quiet_call (h : c.gives = none) : Quiet s (s.call c) where
  lib := rfl
  mod := rfl
  pendingInit := rfl
  pendingProvides := rfl
  given := by rw [given_call, h, Option.toList_none, List.append_nil]
  marks := rfl
  calls _ hc := List.mem_append_left _ hc

theorem quiet_onMod {c : Nat → LibCall} (h : ∀ mod, (c mod).gives = none) : Quiet s (s.onMod c) := by
  unfold onMod
  split
  · split
    · exact quiet_call (h _)
    · exact .refl
  · exact .refl

theorem quiet_render {mod frames : Nat} : Quiet s (s.render env mod frames) := by
  have hread : Quiet s (s.call (.read mod frames)) := quiet_call rfl
  unfold render
  dsimp only
  split_ifs
  · exact (hread.trans (quiet_flags ..)).trans (quiet_send _)
  all_goals exact hread.trans ⟨⟨rfl, rfl, rfl, rfl, rfl⟩, rfl, fun _ => id⟩

theorem quiet_proceed {mod frames : Nat} : Quiet s (s.proceed env mod frames) := by
  unfold proceed
  split
  · exact ((quiet_flags ..).trans (quiet_send _)).trans quiet_render
  · exact quiet_render

/-- Asking the fence changes nothing but its stall. -/
theorem quiet_ready {f : Fence} {b : Bool} (h : s.fence.map (·.ready env.order) = some (b, f)) :
    Quiet s { s with fence := some f } := by
  obtain ⟨f₀, hf₀, hready⟩ := Option.map_eq_some_iff.1 h
  refine ⟨⟨rfl, rfl, rfl, rfl, rfl⟩, ?_, fun _ => id⟩
  rw [hf₀, Option.map_some, Option.map_some, ← (f₀.ready_frame env.order).2.1, hready]

theorem quiet_process {frames : Nat} : Quiet s (s.process env frames) := by
  unfold process
  split
  · exact .refl
  split
  · exact .refl
  split
  next hready =>
    refine (quiet_ready hready).trans ?_
    unfold hold
    split
    · exact .refl
    · exact (quiet_flags ..).trans (quiet_send _)
  next hready => exact (quiet_ready hready).trans quiet_proceed
  · exact quiet_proceed

theorem quiet_destroy : Quiet { s with mod := none } s.destroy := by
  unfold destroy
  cases hmod : s.mod with
  | none =>
    refine ⟨⟨rfl, hmod, rfl, rfl, rfl⟩, rfl, fun _ => id⟩
  | some mod =>
    have h := quiet_call (s := s) (c := .destroy mod) rfl
    exact ⟨⟨rfl, rfl, rfl, rfl, h.given⟩, rfl, h.calls⟩

/-! ### What is given -/

variable (s ok p) in
theorem applyProvide_frame : (s.applyProvide ok p).lib = s.lib ∧ (s.applyProvide ok p).mod = s.mod ∧
    (s.applyProvide ok p).pendingInit = s.pendingInit ∧ (s.applyProvide ok p).pendingProvides = s.pendingProvides := by
  unfold applyProvide
  split
  · dsimp only
    split <;> exact ⟨rfl, rfl, rfl, rfl⟩
  · exact ⟨rfl, rfl, rfl, rfl⟩

theorem given_applyProvide : (s.applyProvide ok p).given = s.given ++ (s.mod.map (·, p)).toList := by
  unfold applyProvide
  split
  next mod hmod =>
    rw [hmod]
    dsimp only
    split
    · exact given_call
    · exact (quiet_send _).given.trans given_call
  next hmod => rw [hmod, Option.map_none, Option.toList_none, List.append_nil]

theorem foldl_applyProvide (provided : Nat → Bool) (xs : List (PendingProvide × Nat)) :
    let s' := xs.foldl (fun s x => s.applyProvide (provided x.2) x.1) s
    (s'.lib = s.lib ∧ s'.mod = s.mod ∧ s'.pendingInit = s.pendingInit) ∧
      s'.given = s.given ++ xs.flatMap fun x => (s.mod.map (·, x.1)).toList := by
  induction xs generalizing s with
  | nil => simp
  | cons x xs ih =>
    obtain ⟨hlib, hmod, hinit, -⟩ := applyProvide_frame s x.1 (provided x.2)
    obtain ⟨⟨hlib', hmod', hinit'⟩, hgiven⟩ := ih (s := s.applyProvide (provided x.2) x.1)
    refine ⟨⟨hlib'.trans hlib, hmod'.trans hmod, hinit'.trans hinit⟩, ?_⟩
    rw [List.foldl_cons, hgiven, given_applyProvide, hmod, List.flatMap_cons, List.append_assoc]

theorem given_flush {mod : Nat} (hmod : s.mod = some mod) (provided : Nat → Bool) :
    (s.flush provided).given = s.given ++ s.pendingProvides.map (mod, ·) := by
  have h := (foldl_applyProvide (s := s) provided s.pendingProvides.zipIdx).2
  rw [hmod] at h
  refine h.trans ?_
  congr 1
  simp only [Option.map_some, Option.toList_some]
  rw [← List.map_eq_flatMap]
  conv_rhs => rw [← List.zipIdx_map_fst 0 s.pendingProvides, List.map_map]
  rfl

theorem Quiet.withMod {s' : TrackerProcessor} (h : Quiet s s') (mod : Option Nat) :
    Quiet { s with mod := mod } { s' with mod := mod } :=
  ⟨⟨h.lib, rfl, h.pendingInit, h.pendingProvides, h.given⟩, h.marks, h.calls⟩

/-- The processor of a new instance, before the queue goes to it. -/
def fresh (s : TrackerProcessor) (q : PendingInit) : TrackerProcessor :=
  { (({ s.destroy.call (.create q.posted q.skeleton true) with mod := some q.posted }.call
      (.setRenderParam q.posted RENDER_INTERPOLATIONFILTER_LENGTH SINC_INTERPOLATION)).call
        (.setRepeatCount q.posted 0)) with fence := some (.new q.plan) }

theorem same_fresh (q : PendingInit) : Same { s with mod := some q.posted } (s.fresh q) := by
  have hcreate := (quiet_destroy (s := s)).trans (quiet_call (c := .create q.posted q.skeleton true) rfl)
  have h := ((hcreate.withMod (some q.posted)).trans
    (quiet_call (c := .setRenderParam q.posted RENDER_INTERPOLATIONFILTER_LENGTH SINC_INTERPOLATION) rfl)).trans
      (quiet_call (c := .setRepeatCount q.posted 0) rfl)
  exact ⟨h.lib, h.mod, h.pendingInit, h.pendingProvides, h.given⟩

theorem doInit_created (q : PendingInit) (h : env.created = true) :
    s.doInit env q = ((s.fresh q).flush env.provided).send .loaded := by
  rw [doInit, h]
  rfl

/-- What is made of an `init`: with an instance the queue goes to it, without one it stays. -/
theorem doInit_cases (env : Openmpt) (q : PendingInit) :
    ((s.doInit env q).lib = s.lib ∧ (s.doInit env q).pendingInit = s.pendingInit) ∧
      (env.created = true ∧ (s.doInit env q).mod = some q.posted ∧ (s.doInit env q).pendingProvides = [] ∧
          (s.doInit env q).given = s.given ++ s.pendingProvides.map (q.posted, ·) ∨
        env.created = false ∧ (s.doInit env q).mod = none ∧ (s.doInit env q).pendingProvides = s.pendingProvides ∧
          (s.doInit env q).given = s.given) := by
  cases hcreated : env.created with
  | false =>
    have h := ((quiet_destroy (s := s)).trans (quiet_call (c := .create q.posted q.skeleton false) rfl)).trans
      (quiet_send (.error "openmpt_module_create_from_memory failed (skeleton)"))
    rw [doInit, hcreated]
    exact ⟨⟨h.lib, h.pendingInit⟩, .inr ⟨rfl, h.mod, h.pendingProvides, h.given⟩⟩
  | true =>
    have hfresh := same_fresh (s := s) q
    obtain ⟨⟨hlib, hmod, hinit⟩, -⟩ := foldl_applyProvide (s := s.fresh q) env.provided (s.fresh q).pendingProvides.zipIdx
    have hgiven := given_flush hfresh.mod env.provided
    rw [hfresh.given, hfresh.pendingProvides] at hgiven
    rw [doInit_created q hcreated]
    exact ⟨⟨hlib.trans hfresh.lib, hinit.trans hfresh.pendingInit⟩, .inl ⟨rfl, hmod.trans hfresh.mod, rfl, hgiven⟩⟩

/-! ### One event -/

/-- The `init` an event makes something of. -/
def attempts (s : TrackerProcessor) (e : Event) (posted : Nat) : Option PendingInit :=
  match e with
  | .message (.init skeleton plan) => if s.lib then some ⟨posted, skeleton, plan⟩ else none
  | .loaded => s.pendingInit
  | _ => none

theorem creates_iff {e : Event × Openmpt} : s.Creates e ↔ e.2.created = true ∧ (s.attempts e.1 k).isSome = true := by
  rcases e with ⟨_ | _ | _ | _, env⟩
  case message msg => cases msg <;> cases hlib : s.lib <;> simp [Creates, Event.isInit, ToWorklet.isInit, attempts, hlib]
  all_goals simp [Creates, Event.isInit, attempts]

/-- What an event does that makes something of an `init`. -/
theorem step_of_attempts {e : Event × Openmpt} {q : PendingInit} (h : s.attempts e.1 k = some q)
    (hlib : s.pendingInit.isSome = true → s.lib = false) :
    ((step s (e, k)).lib = true ∧ (step s (e, k)).pendingInit = none) ∧
      (e.2.created = true ∧ (step s (e, k)).mod = some q.posted ∧ (step s (e, k)).pendingProvides = [] ∧
          (step s (e, k)).given = s.given ++ s.pendingProvides.map (q.posted, ·) ∨
        e.2.created = false ∧ (step s (e, k)).mod = none ∧ (step s (e, k)).pendingProvides = s.pendingProvides ∧
          (step s (e, k)).given = s.given) := by
  rcases e with ⟨_ | _ | _ | _, env⟩
  case message msg =>
    cases msg <;> simp only [attempts, reduceCtorEq] at h
    case init skeleton plan =>
      cases hs : s.lib with
      | false => simp [hs] at h
      | true =>
        obtain rfl : ⟨k, skeleton, plan⟩ = q := by simpa [hs] using h
        have hnone : s.pendingInit = none := by
          by_contra hne
          rw [hlib (Option.isSome_iff_ne_none.2 hne)] at hs
          cases hs
        obtain ⟨⟨hl, hi⟩, hcases⟩ := doInit_cases (s := s) env ⟨k, skeleton, plan⟩
        simp only [step, onMessage, hs, Bool.not_true, Bool.false_eq_true, ↓reduceIte]
        exact ⟨⟨hl.trans hs, hi.trans hnone⟩, hcases⟩
  case loaded =>
    have hq : s.pendingInit = some q := h
    have hstep : step s ((.loaded, env), k) = ({ { s with lib := true }.send .ready with pendingInit := none }).doInit env q := by
      simp only [step, loaded, send, hq]
    rw [hstep]
    obtain ⟨⟨hl, hi⟩, hcases⟩ := doInit_cases
      (s := { { s with lib := true }.send .ready with pendingInit := none }) env q
    exact ⟨⟨hl, hi⟩, hcases⟩
  all_goals cases h

/-- What any other event does. -/
theorem step_of_not_attempts {e : Event × Openmpt} (h : s.attempts e.1 k = none) :
    (e.1.isInit = true ∧ s.lib = false ∧ ∃ q : PendingInit, q.posted = k ∧ step s (e, k) = { s with pendingInit := some q }) ∨
      (e.1 = .loaded ∧ Quiet { s with lib := true } (step s (e, k))) ∨
      (∃ p : PendingProvide, p.posted = k ∧ e.1 = .message (.provideSample p.index p.frames p.pcm) ∧
        ((s.lib = false ∨ s.mod = none) ∧ step s (e, k) = { s with pendingProvides := s.pendingProvides ++ [p] } ∨
          ∃ mod, s.mod = some mod ∧ s.lib = true ∧ step s (e, k) = s.applyProvide (e.2.provided 0) p)) ∨
      (e.1.isInit = false ∧ e.1 ≠ .loaded ∧ (∀ index frames pcm, e.1 ≠ .message (.provideSample index frames pcm)) ∧
        Quiet s (step s (e, k))) := by
  rcases e with ⟨_ | _ | _ | _, env⟩
  case message msg =>
    cases msg
    case init skeleton plan =>
      cases hs : s.lib with
      | true => simp [attempts, hs] at h
      | false => exact .inl ⟨rfl, rfl, ⟨k, skeleton, plan⟩, rfl, by simp [step, onMessage, hs]⟩
    case provideSample index frames pcm =>
      refine .inr (.inr (.inl ⟨⟨k, index, frames, pcm⟩, rfl, rfl, ?_⟩))
      simp only [step, onMessage]
      cases hs : s.lib with
      | false => exact .inl ⟨.inl rfl, by simp⟩
      | true =>
        cases hm : s.mod with
        | none => exact .inl ⟨.inr rfl, by simp⟩
        | some mod => exact .inr ⟨mod, rfl, rfl, by simp⟩
    all_goals refine .inr (.inr (.inr ⟨rfl, by simp, by simp, ?_⟩))
    case play => exact quiet_flags ..
    case pause => exact quiet_flags ..
    case stop =>
      exact (quiet_flags ..).trans (quiet_onMod (s := { s with playing := false }) fun _ => rfl)
    all_goals exact quiet_onMod fun _ => rfl
  case loaded =>
    have hq : s.pendingInit = none := h
    refine .inr (.inl ⟨rfl, ?_⟩)
    have hstep : step s ((.loaded, env), k) = { s with lib := true }.send .ready := by
      simp only [step, loaded, send, hq]
    rw [hstep]
    exact quiet_send _
  case failed err => exact .inr (.inr (.inr ⟨rfl, by simp, by simp, quiet_send _⟩))
  case quantum frames => exact .inr (.inr (.inr ⟨rfl, by simp, by simp, quiet_process⟩))

/-! ### The fence -/

theorem Quiet.fenceOwn {s' : TrackerProcessor} (h : Quiet s s') (hs : FenceOwn s) : FenceOwn s' := by
  intro mod f hmod hf index hindex
  have hmarks := h.marks
  rw [hf, Option.map_some, eq_comm, Option.map_eq_some_iff] at hmarks
  obtain ⟨f₀, hf₀, heq⟩ := hmarks
  obtain ⟨p, hp, hmem⟩ := hs mod f₀ (h.mod ▸ hmod) hf₀ index (heq ▸ hindex)
  exact ⟨p, hp, h.calls _ hmem⟩

theorem fenceOwn_applyProvide (hs : FenceOwn s) : FenceOwn (s.applyProvide ok p) := by
  unfold applyProvide
  split
  next mod hmod =>
    dsimp only
    split
    next hok =>
      subst hok
      intro mod' f' hmod' hf' index hindex
      obtain ⟨f, hf, rfl⟩ := Option.map_eq_some_iff.1 hf'
      rcases List.mem_cons.1 hindex with rfl | hindex
      · obtain rfl : mod = mod' := Option.some.inj (hmod.symm.trans hmod')
        exact ⟨p, rfl, List.mem_append_right _ (List.mem_singleton_self _)⟩
      · obtain ⟨p', hp', hmem⟩ := hs mod' f hmod' hf index hindex
        exact ⟨p', hp', List.mem_append_left _ hmem⟩
    next =>
      refine (quiet_send _).fenceOwn fun mod' f hmod' hf index hindex => ?_
      obtain ⟨p', hp', hmem⟩ := hs mod' f hmod' hf index hindex
      exact ⟨p', hp', List.mem_append_left _ hmem⟩
  next => exact hs

theorem fenceOwn_doInit (q : PendingInit) : FenceOwn (s.doInit env q) := by
  cases hcreated : env.created with
  | false =>
    intro mod f hmod
    rcases (doInit_cases (s := s) env q).2 with ⟨h, -⟩ | ⟨-, h, -⟩
    · rw [hcreated] at h
      cases h
    · rw [h] at hmod
      cases hmod
  | true =>
    have hfresh : FenceOwn (s.fresh q) := by
      rintro mod f - ⟨⟩ index hindex
      cases hindex
    have hfold (xs : List (PendingProvide × Nat)) (s : TrackerProcessor) (hs : FenceOwn s) :
        FenceOwn (xs.foldl (fun s x => s.applyProvide (env.provided x.2) x.1) s) := by
      induction xs generalizing s with
      | nil => exact hs
      | cons x xs ih => exact ih _ (fenceOwn_applyProvide hs)
    rw [doInit_created q hcreated]
    exact (quiet_send _).fenceOwn (hfold _ _ hfresh)

theorem fenceOwn_step (hs : FenceOwn s) (x : (Event × Openmpt) × Nat) : FenceOwn (step s x) := by
  obtain ⟨⟨_ | _ | _ | _, env⟩, k⟩ := x
  case message msg =>
    cases msg
    case init skeleton plan =>
      simp only [step, onMessage]
      split
      · exact hs
      · exact fenceOwn_doInit _
    case provideSample index frames pcm =>
      simp only [step, onMessage]
      split
      · exact hs
      · exact fenceOwn_applyProvide hs
    case play => exact (quiet_flags ..).fenceOwn hs
    case pause => exact (quiet_flags ..).fenceOwn hs
    case stop => exact ((quiet_flags ..).trans (quiet_onMod (s := { s with playing := false }) fun _ => rfl)).fenceOwn hs
    all_goals exact (quiet_onMod fun _ => rfl).fenceOwn hs
  case loaded =>
    simp only [step, loaded]
    split
    · exact fenceOwn_doInit _
    · exact hs
  case failed err => exact (quiet_send _).fenceOwn hs
  case quantum frames => exact quiet_process.fenceOwn hs

/-! ### Runs -/

variable {es : List (Event × Openmpt)} {e : Event × Openmpt} {n : Nat}

/-- The last `init` of the first `n` events. -/
structure Last (es : List (Event × Openmpt)) (n m : Nat) : Prop where
  init : InitAt es m
  lt : m < n
  between : ∀ q, m < q → q < n → ¬ InitAt es q

theorem Last.succ {m : Nat} (h : Last es n m) (he : es[n]? = some e) (hinit : e.1.isInit = false) : Last es (n + 1) m := by
  refine ⟨h.init, Nat.lt_succ_of_lt h.lt, fun q hmq hqn => ?_⟩
  rcases Nat.lt_succ_iff_lt_or_eq.1 hqn with hlt | rfl
  · exact h.between q hmq hlt
  · rintro ⟨e', he', hinit'⟩
    rw [he, Option.some.injEq] at he'
    rw [he', hinit'] at hinit
    cases hinit

theorem last_succ (he : es[n]? = some e) (hinit : e.1.isInit = true) : Last es (n + 1) n :=
  ⟨⟨e, he, hinit⟩, Nat.lt_succ_self n, fun q h₁ h₂ => by omega⟩

/-- The sample came with a message among the first `n` events. -/
def Came (es : List (Event × Openmpt)) (n : Nat) (p : PendingProvide) : Prop :=
  p.posted < n ∧ ∃ env, es[p.posted]? = some (.message (.provideSample p.index p.frames p.pcm), env)

theorem Came.succ (h : Came es n p) : Came es (n + 1) p := ⟨Nat.lt_succ_of_lt h.1, h.2⟩

theorem Came.not_initAt (h : Came es n p) : ¬ InitAt es p.posted := by
  obtain ⟨-, env, hmsg⟩ := h
  rintro ⟨e, he, hinit⟩
  rw [hmsg, Option.some.injEq] at he
  rw [← he] at hinit
  cases hinit

/-- What holds after the first `n` events, whatever they are. -/
structure Inv (es : List (Event × Openmpt)) (n : Nat) (s : TrackerProcessor) : Prop where
  queue : ∀ p ∈ s.pendingProvides, Came es n p
  given : ∀ x ∈ s.given, Came es n x.2
  mod : ∀ m, s.mod = some m → Last es n m ∧ s.lib = true
  pending : ∀ q, s.pendingInit = some q → Last es n q.posted ∧ s.lib = false
  early : s.lib = false → ∀ p, Came es n p → p ∈ s.pendingProvides

theorem Inv.waits (h : Inv es n s) (hsome : s.pendingInit.isSome = true) : s.lib = false := by
  obtain ⟨q, hq⟩ := Option.isSome_iff_exists.1 hsome
  exact (h.pending q hq).2

/-- The `init` an event makes something of is the last one. -/
theorem Inv.last_of_attempts (h : Inv es n s) (he : es[n]? = some e) {q : PendingInit}
    (hq : s.attempts e.1 n = some q) : Last es (n + 1) q.posted := by
  rcases e with ⟨_ | _ | _ | _, env⟩
  case message msg =>
    cases msg <;> simp only [attempts, reduceCtorEq] at hq
    case init skeleton plan =>
      split at hq
      · obtain rfl := Option.some.inj hq
        exact last_succ he rfl
      · cases hq
  case loaded => exact (h.pending q hq).1.succ he rfl
  all_goals cases hq

theorem came_succ {p : PendingProvide} (h : Came es (n + 1) p) (he : es[n]? = some e)
    (hne : ∀ index frames pcm, e.1 ≠ .message (.provideSample index frames pcm)) : Came es n p := by
  obtain ⟨hlt, env, hmsg⟩ := h
  rcases Nat.lt_succ_iff_lt_or_eq.1 hlt with hlt | rfl
  · exact ⟨hlt, env, hmsg⟩
  · rw [he, Option.some.injEq] at hmsg
    exact absurd (by rw [hmsg]) (hne p.index p.frames p.pcm)

theorem Inv.step (h : Inv es n s) (he : es[n]? = some e) : Inv es (n + 1) (step s (e, n)) := by
  cases hatt : s.attempts e.1 n with
  | some q =>
    obtain ⟨⟨hlib, hinit⟩, hcases⟩ := step_of_attempts hatt h.waits
    have hlast := h.last_of_attempts he hatt
    rcases hcases with ⟨-, hmod, hqueue, hgiven⟩ | ⟨-, hmod, hqueue, hgiven⟩
    · refine ⟨?_, ?_, ?_, ?_, ?_⟩
      · rw [hqueue]
        simp
      · intro x hx
        rw [hgiven, List.mem_append, List.mem_map] at hx
        rcases hx with hx | ⟨p, hp, rfl⟩
        · exact (h.given x hx).succ
        · exact (h.queue p hp).succ
      · intro m hm
        rw [hmod, Option.some.injEq] at hm
        exact ⟨hm ▸ hlast, hlib⟩
      · simp [hinit]
      · simp [hlib]
    · refine ⟨?_, ?_, ?_, ?_, ?_⟩
      · rw [hqueue]
        exact fun p hp => (h.queue p hp).succ
      · rw [hgiven]
        exact fun x hx => (h.given x hx).succ
      · simp [hmod]
      · simp [hinit]
      · simp [hlib]
  | none =>
    rcases step_of_not_attempts hatt with ⟨hi, hlib, q, hq, heq⟩ | ⟨hl, hquiet⟩ | ⟨p, hp, hmsg, hcases⟩ | ⟨hi, hl, hne, hquiet⟩
    · have hne (index frames : Nat) (pcm : Bytes) : e.1 ≠ .message (.provideSample index frames pcm) := by
        intro heq
        rw [heq] at hi
        cases hi
      rw [heq]
      refine ⟨fun p hp => (h.queue p hp).succ, fun x hx => (h.given x hx).succ, ?_, ?_, ?_⟩
      · intro m hm
        have := (h.mod m hm).2
        rw [hlib] at this
        cases this
      · intro q' hq'
        obtain rfl := Option.some.inj hq'
        rw [hq]
        exact ⟨last_succ he hi, hlib⟩
      · exact fun _ p hp => h.early hlib p (came_succ hp he hne)
    · have hi : e.1.isInit = false := by rw [hl]; rfl
      have hnone : s.pendingInit = none := by rwa [hl] at hatt
      have hne (index frames : Nat) (pcm : Bytes) : e.1 ≠ .message (.provideSample index frames pcm) := by
        rw [hl]
        rintro ⟨⟩
      refine ⟨?_, ?_, ?_, ?_, ?_⟩
      · rw [hquiet.pendingProvides]
        exact fun p hp => (h.queue p hp).succ
      · rw [hquiet.given]
        exact fun x hx => (h.given x hx).succ
      · rw [hquiet.mod, hquiet.lib]
        exact fun m hm => ⟨(h.mod m hm).1.succ he hi, rfl⟩
      · rw [hquiet.pendingInit, hnone]
        rintro q ⟨⟩
      · rw [hquiet.lib]
        rintro ⟨⟩
    · have hcame : Came es (n + 1) p := ⟨hp ▸ Nat.lt_succ_self _, e.2, by rw [hp, he, ← hmsg]⟩
      have hi : e.1.isInit = false := by rw [hmsg]; rfl
      rcases hcases with ⟨hwait, heq⟩ | ⟨mod, hmod, hlib, heq⟩
      · rw [heq]
        refine ⟨?_, fun x hx => (h.given x hx).succ, ?_, ?_, ?_⟩
        · intro p' hp'
          rcases List.mem_append.1 hp' with hp' | hp'
          · exact (h.queue p' hp').succ
          · rwa [List.mem_singleton.1 hp']
        · exact fun m hm => ⟨(h.mod m hm).1.succ he hi, (h.mod m hm).2⟩
        · exact fun q hq => ⟨(h.pending q hq).1.succ he hi, (h.pending q hq).2⟩
        · intro hlib p' hp'
          obtain ⟨hlt, env, hmsg'⟩ := hp'
          rcases Nat.lt_succ_iff_lt_or_eq.1 hlt with hlt | hlt
          · exact List.mem_append_left _ (h.early hlib p' ⟨hlt, env, hmsg'⟩)
          · obtain ⟨posted, index, frames, pcm⟩ := p
            obtain ⟨posted', index', frames', pcm'⟩ := p'
            obtain rfl : posted = n := hp
            obtain rfl : posted' = posted := hlt
            rw [he, Option.some.injEq] at hmsg'
            rw [hmsg'] at hmsg
            cases hmsg
            exact List.mem_append_right _ (List.mem_singleton_self _)
      · obtain ⟨hl, hm, hin, hq⟩ := applyProvide_frame s p (e.2.provided 0)
        rw [heq]
        refine ⟨?_, ?_, ?_, ?_, ?_⟩
        · rw [hq]
          exact fun p hp => (h.queue p hp).succ
        · rw [given_applyProvide, hmod]
          intro x hx
          rcases List.mem_append.1 hx with hx | hx
          · exact (h.given x hx).succ
          · rwa [List.mem_singleton.1 hx]
        · rw [hm, hl]
          exact fun m hm => ⟨(h.mod m hm).1.succ he hi, (h.mod m hm).2⟩
        · rw [hin, hl]
          exact fun q hq => ⟨(h.pending q hq).1.succ he hi, (h.pending q hq).2⟩
        · rw [hl, hlib]
          rintro ⟨⟩
    · refine ⟨?_, ?_, ?_, ?_, ?_⟩
      · rw [hquiet.pendingProvides]
        exact fun p hp => (h.queue p hp).succ
      · rw [hquiet.given]
        exact fun x hx => (h.given x hx).succ
      · rw [hquiet.mod, hquiet.lib]
        exact fun m hm => ⟨(h.mod m hm).1.succ he hi, (h.mod m hm).2⟩
      · rw [hquiet.pendingInit, hquiet.lib]
        exact fun q hq => ⟨(h.pending q hq).1.succ he hi, (h.pending q hq).2⟩
      · rw [hquiet.lib, hquiet.pendingProvides]
        exact fun hlib p hp => h.early hlib p (came_succ hp he hne)

theorem zipIdx_get? : es.zipIdx[n]? = es[n]?.map (·, n) := by simp

theorem after_succ (he : es[n]? = some e) : after es (n + 1) = step (after es n) (e, n) :=
  Runs.state_succ (by rw [zipIdx_get?, he, Option.map_some])

theorem inv_after (hn : n ≤ es.length) : Inv es n (after es n) := by
  refine Runs.invariant (I := Inv es) ?_ ?_ n (by rwa [List.length_zipIdx])
  · refine ⟨?_, ?_, ?_, ?_, ?_⟩
    · rintro p ⟨⟩
    · rintro x ⟨⟩
    · rintro m ⟨⟩
    · rintro q ⟨⟩
    · rintro - p ⟨hlt, -⟩
      cases hlt
  · rintro k ⟨e, k'⟩ hi h
    rw [zipIdx_get?, Option.map_eq_some_iff] at hi
    obtain ⟨e', he, heq⟩ := hi
    cases heq
    exact h.step he

/-- Nothing is unloaded or taken back, and what leaves the queue goes to the instance of the last `init`. -/
theorem Inv.grows (h : Inv es n s) :
    (s.lib = true → (TrackerProcessor.step s (e, n)).lib = true) ∧
      (∀ x ∈ s.given, x ∈ (TrackerProcessor.step s (e, n)).given) ∧
        ∀ p ∈ s.pendingProvides, p ∈ (TrackerProcessor.step s (e, n)).pendingProvides ∨
          ∃ q, s.attempts e.1 n = some q ∧ (q.posted, p) ∈ (TrackerProcessor.step s (e, n)).given := by
  cases hatt : s.attempts e.1 n with
  | some q =>
    obtain ⟨⟨hlib, -⟩, ⟨-, -, hqueue, hgiven⟩ | ⟨-, -, hqueue, hgiven⟩⟩ := step_of_attempts hatt h.waits
    · rw [hgiven]
      refine ⟨fun _ => hlib, fun x hx => List.mem_append_left _ hx, fun p hp => .inr ⟨q, rfl, ?_⟩⟩
      exact List.mem_append_right _ (List.mem_map.2 ⟨p, hp, rfl⟩)
    · rw [hgiven, hqueue]
      exact ⟨fun _ => hlib, fun x hx => hx, fun p hp => .inl hp⟩
  | none =>
    rcases step_of_not_attempts hatt with ⟨-, -, q, -, heq⟩ | ⟨-, hquiet⟩ | ⟨p, -, -, ⟨-, heq⟩ | ⟨mod, -, -, heq⟩⟩ |
      ⟨-, -, -, hquiet⟩
    · rw [heq]
      exact ⟨id, fun x hx => hx, fun p hp => .inl hp⟩
    · rw [hquiet.given, hquiet.pendingProvides]
      exact ⟨fun _ => hquiet.lib, fun x hx => hx, fun p hp => .inl hp⟩
    · rw [heq]
      exact ⟨id, fun x hx => hx, fun p hp => .inl (List.mem_append_left _ hp)⟩
    · obtain ⟨hl, -, -, hq⟩ := applyProvide_frame s p (e.2.provided 0)
      rw [heq, given_applyProvide, hl, hq]
      exact ⟨id, fun x hx => List.mem_append_left _ hx, fun p hp => .inl hp⟩
    · rw [hquiet.lib, hquiet.given, hquiet.pendingProvides]
      exact ⟨id, fun x hx => hx, fun p hp => .inl hp⟩

theorem lib_after {j : Nat} (hjn : j ≤ n) (hn : n ≤ es.length) (h : (after es j).lib = true) : (after es n).lib = true := by
  induction n, hjn using Nat.le_induction with
  | base => exact h
  | succ n hjn ih =>
    rw [after_succ (List.getElem?_eq_getElem hn)]
    exact (inv_after (Nat.le_of_lt hn)).grows.1 (ih (Nat.le_of_lt hn))

/-- A sample in the queue of a new instance came after its `init`, if none is stale. -/
theorem NoneStale.lt (h : NoneStale es) (hn : n < es.length) {q : PendingInit}
    (hatt : (after es n).attempts es[n].1 n = some q) (hcreated : es[n].2.created = true) {p : PendingProvide}
    (hp : p ∈ (after es n).pendingProvides) : q.posted < p.posted := by
  have hinv := inv_after (Nat.le_of_lt hn)
  have he : es[n]? = some es[n] := List.getElem?_eq_getElem hn
  have hlast := hinv.last_of_attempts he hatt
  have hcame := hinv.queue p hp
  have hcreates : (after es n).Creates es[n] := (creates_iff (k := n)).2 ⟨hcreated, by rw [hatt]; rfl⟩
  have hle : q.posted ≤ n := Nat.lt_succ_iff.1 hlast.lt
  by_contra hnot
  have hne : p.posted ≠ q.posted := fun heq => hcame.not_initAt (heq ▸ hlast.init)
  refine h q.posted hlast.init (fun hnil => ?_) n _ hle he hcreates
  -- at the `init` the sample had come, and stood in the queue: nothing was loaded, or the `init` is this event
  have hmem : p ∈ (after es q.posted).pendingProvides := by
    rcases Nat.lt_or_eq_of_le hle with hlt | heq
    · refine (inv_after (Nat.le_of_lt (hlt.trans hn))).early ?_ p ⟨by omega, hcame.2⟩
      rw [Bool.eq_false_iff]
      intro hlib
      have hlib := lib_after hle (Nat.le_of_lt hn) hlib
      rcases hev : es[n] with ⟨_ | _ | _ | _, env⟩ <;> rw [hev] at hatt
      case message msg =>
        cases msg <;> simp only [attempts, reduceCtorEq, hlib, if_true, Option.some.injEq] at hatt
        rw [← hatt] at hlt
        exact absurd hlt (Nat.lt_irrefl _)
      case loaded =>
        rw [(hinv.pending q hatt).2] at hlib
        cases hlib
      all_goals cases hatt
    · rwa [heq]
  rw [hnil] at hmem
  cases hmem

/-- With none stale, every sample is given to its own instance. -/
theorem NoneStale.own (h : NoneStale es) (hn : n ≤ es.length) : ∀ x ∈ (after es n).given, Own es x.1 x.2 := by
  induction n with
  | zero => rintro x ⟨⟩
  | succ n ih =>
    have hinv := inv_after (Nat.le_of_lt hn)
    have he : es[n]? = some es[n] := List.getElem?_eq_getElem hn
    have ih := ih (Nat.le_of_lt hn)
    have hown {m : Nat} {p : PendingProvide} (hlast : Last es (n + 1) m) (hcame : Came es (n + 1) p)
        (hlt : m < p.posted) : Own es m p :=
      ⟨hcame.2, hlast.init, hlt, fun q h₁ h₂ => hlast.between q h₁ (h₂.trans hcame.1)⟩
    rw [after_succ he]
    intro x hx
    cases hatt : (after es n).attempts es[n].1 n with
    | some q =>
      rcases (step_of_attempts hatt hinv.waits).2 with ⟨hcreated, -, -, hgiven⟩ | ⟨-, -, -, hgiven⟩
      · rw [hgiven, List.mem_append, List.mem_map] at hx
        rcases hx with hx | ⟨p, hp, rfl⟩
        · exact ih x hx
        · exact hown (hinv.last_of_attempts he hatt) (hinv.queue p hp).succ (h.lt hn hatt hcreated hp)
      · rw [hgiven] at hx
        exact ih x hx
    | none =>
      rcases step_of_not_attempts hatt with ⟨-, -, q, -, heq⟩ | ⟨-, hquiet⟩ |
        ⟨p, hp, hmsg, ⟨-, heq⟩ | ⟨mod, hmod, -, heq⟩⟩ | ⟨-, -, -, hquiet⟩
      · rw [heq] at hx
        exact ih x hx
      · rw [hquiet.given] at hx
        exact ih x hx
      · rw [heq] at hx
        exact ih x hx
      · rw [heq, given_applyProvide, hmod, List.mem_append] at hx
        rcases hx with hx | hx
        · exact ih x hx
        · rw [List.mem_singleton.1 hx]
          have hlast := (hinv.mod mod hmod).1
          have hi : es[n].1.isInit = false := by rw [hmsg]; rfl
          exact hown (hlast.succ he hi) ⟨hp ▸ Nat.lt_succ_self _, _, by rw [hp, he, ← hmsg]⟩ (hp ▸ hlast.lt)
      · rw [hquiet.given] at hx
        exact ih x hx

/-- With every sample given to its own instance, what is in the queue at an `init` stays there. -/
theorem stays_queued (h : ∀ k, Isolated es (after es k)) {i : Nat} (hi : InitAt es i) {p : PendingProvide}
    (hp : p ∈ (after es i).pendingProvides) (hin : i ≤ n) (hn : n ≤ es.length) : p ∈ (after es n).pendingProvides := by
  induction n, hin using Nat.le_induction with
  | base => exact hp
  | succ n hin ih =>
    have hinv := inv_after (Nat.le_of_lt hn)
    have he : es[n]? = some es[n] := List.getElem?_eq_getElem hn
    have hlt := ((inv_after (hin.trans (Nat.le_of_lt hn))).queue p hp).1
    rw [after_succ he]
    rcases hinv.grows.2.2 p (ih (Nat.le_of_lt hn)) with hmem | ⟨q, hatt, hmem⟩
    · exact hmem
    · have hown := isolated_iff_given.1 (h (n + 1)) (q.posted, p) (by rwa [after_succ he])
      have hlast := hinv.last_of_attempts he hatt
      have hlt' : q.posted < p.posted := hown.lt
      exact absurd hi (hlast.between i (by omega) (by omega))

theorem isolated_iff (es : List (Event × Openmpt)) :
    (∀ k, Isolated es (after es k) ∧ FenceOwn (after es k)) ↔ NoneStale es := by
  have hlen (k : Nat) : after es k = after es (min k es.length) := by
    rcases Nat.le_total k es.length with hk | hk
    · rw [Nat.min_eq_left hk]
    · rw [Nat.min_eq_right hk, after, Runs.state_of_le (by rwa [List.length_zipIdx]), List.length_zipIdx]
      rfl
  constructor
  · intro h i hi hne j e hij he hcreates
    obtain ⟨p, hp⟩ := List.exists_mem_of_ne_nil _ hne
    have hj : j < es.length := (List.getElem?_eq_some_iff.1 he).1
    have hinv := inv_after (Nat.le_of_lt hj)
    have hqueue := stays_queued (fun k => (h k).1) hi hp hij (Nat.le_of_lt hj)
    obtain ⟨hcreated, hatt⟩ := (creates_iff (k := j)).1 hcreates
    obtain ⟨q, hatt⟩ := Option.isSome_iff_exists.1 hatt
    have hstep := (step_of_attempts hatt hinv.waits).2
    rw [← after_succ he] at hstep
    have hgone : (after es (j + 1)).pendingProvides = [] := by
      rcases hstep with ⟨-, -, hgone, -⟩ | ⟨hno, -⟩
      · exact hgone
      · rw [hcreated] at hno
        cases hno
    have hmem := stays_queued (fun k => (h k).1) hi hp (Nat.le_succ_of_le hij) hj
    rw [hgone] at hmem
    cases hmem
  · intro h k
    rw [hlen k]
    refine ⟨isolated_iff_given.2 (h.own (Nat.min_le_right ..)), ?_⟩
    refine Runs.invariant (I := fun _ => FenceOwn) ?_ (fun _ x _ hs => fenceOwn_step hs x) _ (by simp)
    rintro mod f ⟨⟩

/-- The first track is left before libopenmpt is there, and its sample goes to the second. -/
def mixed : List (Event × Openmpt) :=
  [(.message (.init [] ⟨[], []⟩), {}), (.message (.provideSample 1 4 [0, 0, 0, 0]), {}), (.message (.init [] ⟨[], []⟩), {}),
    (.loaded, {})]

theorem mixed_not_isolated : ¬ ∀ k, Isolated mixed (after mixed k) ∧ FenceOwn (after mixed k) := by
  intro h
  have hown := (h 4).1 2 ⟨1, 1, 4, [0, 0, 0, 0]⟩ true (List.mem_of_getElem? (i := 3) rfl)
  exact absurd hown.lt (by decide)

end TrackerStream.TrackerProcessor
