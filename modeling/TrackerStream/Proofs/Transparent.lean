import TrackerStream.Readiness

/-!
# The end of loading and what is lost before it

`Live` is the processor with libopenmpt ready: an instance, the flag, and the samples that wait for one. Messages before the
end of loading come to the last `init` and all samples (`begin`), so an end after the last `init` loses what came between
them, and hands its instance the samples of earlier ones.
-/

namespace TrackerStream.TrackerProcessor

variable {Pos : Type} {lib : Lib Pos} {s : TrackerProcessor}

structure Live where
  inst : Option Instance
  playing : Bool
  pend : List PendingProvide

namespace Live

/-- An `init` makes an instance, which takes the samples that wait. -/
def start (a : Live) (lib : Lib Pos) (posted : Nat) (skeleton : Bytes) : Live :=
  if lib.creates skeleton then
    ⟨some { init := posted, skeleton, interpolation := SINC_INTERPOLATION, samples := a.pend.filter (lib.accepts skeleton) }, false, []⟩
  else ⟨none, false, a.pend⟩

def hear (lib : Lib Pos) (a : Live) (m : ToWorklet × Nat) : Live :=
  match m.1 with
  | .init skeleton _ => a.start lib m.2 skeleton
  | .provideSample index frames pcm =>
    match a.inst with
    | some i => { a with inst := some { i with
        samples := i.samples ++ [⟨m.2, index, frames, pcm⟩].filter (lib.accepts i.skeleton) } }
    | none => { a with pend := a.pend ++ [⟨m.2, index, frames, pcm⟩] }
  | .play => { a with playing := a.inst.isSome }
  | .pause => { a with playing := false }
  | .stop => { a with playing := false, inst := a.inst.map (·.move (.orderRow 0 0)) }
  | .seekOrderRow order row => { a with inst := a.inst.map (·.move (.orderRow order row)) }
  | .seekSeconds seconds => { a with inst := a.inst.map (·.move (.seconds seconds)) }
  | .selectSubsong index => { a with inst := a.inst.map (·.move (.subsong index)) }
  | .setInterpolation value => { a with inst := a.inst.map fun i => { i with interpolation := value } }
  | .setRepeat count => { a with inst := a.inst.map fun i => { i with repeatCount := count } }

end Live

variable {a : Live} {i : Instance} {p : PendingProvide}

/-! ### The processor with libopenmpt ready -/

@[simp] theorem inst_call (c : LibCall) : (s.call c).inst = Instance.called s.inst c := by
  rw [inst, call, List.foldl_append]
  rfl

@[simp] theorem inst_send (msg : FromWorklet) : (s.send msg).inst = s.inst := rfl

structure Ready (s : TrackerProcessor) (a : Live) : Prop where
  lib : s.lib = true
  inst : s.inst = a.inst
  mod : s.mod = a.inst.map (·.init)
  playing : s.playing = a.playing
  pendingInit : s.pendingInit = none
  pend : s.pendingProvides = a.pend

namespace Ready

theorem applyProvide (h : Ready s a) (hi : a.inst = some i) (accepts : PendingProvide → Bool) (p : PendingProvide) :
    Ready (s.applyProvide (accepts p) p) { a with inst := some { i with samples := i.samples ++ [p].filter accepts } } := by
  have hmod : s.mod = some i.init := by rw [h.mod, hi, Option.map_some]
  have hinst : s.inst = some i := h.inst.trans hi
  rw [TrackerProcessor.applyProvide, hmod]
  cases hok : accepts p with
  | true =>
    refine ⟨h.lib, ?_, hmod, h.playing, h.pendingInit, h.pend⟩
    change (s.call _).inst = _
    rw [inst_call, hinst, List.filter_cons_of_pos hok]
    rfl
  | false =>
    refine ⟨h.lib, ?_, hmod, h.playing, h.pendingInit, h.pend⟩
    change ((s.call _).send _).inst = _
    rw [inst_send, inst_call, hinst, List.filter_cons_of_neg (by simp [hok]), List.filter_nil, List.append_nil]
    rfl

theorem applyProvides (h : Ready s a) (hi : a.inst = some i) (accepts : PendingProvide → Bool) (provided : Nat → Bool)
    (xs : List (PendingProvide × Nat)) (hxs : ∀ x ∈ xs, provided x.2 = accepts x.1) :
    Ready (xs.foldl (fun s x => s.applyProvide (provided x.2) x.1) s)
      { a with inst := some { i with samples := i.samples ++ (xs.map (·.1)).filter accepts } } := by
  induction xs generalizing s a i with
  | nil => simpa [← hi] using h
  | cons x xs ih =>
    have hx := h.applyProvide hi accepts x.1
    rw [← hxs x List.mem_cons_self] at hx
    have hrest := ih hx rfl fun y hy => hxs y (List.mem_cons_of_mem _ hy)
    rw [List.append_assoc, ← List.filter_append] at hrest
    exact hrest

theorem flush (h : Ready s a) (hi : a.inst = some i) (accepts : PendingProvide → Bool) (provided : Nat → Bool)
    (hprovided : ∀ x ∈ a.pend.zipIdx, provided x.2 = accepts x.1) :
    Ready (s.flush provided) ⟨some { i with samples := i.samples ++ a.pend.filter accepts }, a.playing, []⟩ := by
  have hall := h.applyProvides hi accepts provided a.pend.zipIdx hprovided
  rw [List.zipIdx_map_fst] at hall
  rw [TrackerProcessor.flush, h.pend]
  exact ⟨hall.lib, hall.inst, hall.mod, hall.playing, hall.pendingInit, rfl⟩

/-- The instance is made and takes what waits, wherever the processor came from. -/
theorem doInit (hlib : s.lib = true) (hpending : s.pendingInit = none) (p : PendingInit) :
    Ready (s.doInit (lib.creating s p.skeleton) p) ((⟨none, false, s.pendingProvides⟩ : Live).start lib p.posted p.skeleton) := by
  have hdestroy : s.destroy.lib = s.lib ∧ s.destroy.mod = none ∧ s.destroy.playing = false ∧
      s.destroy.pendingInit = s.pendingInit ∧ s.destroy.pendingProvides = s.pendingProvides := by
    unfold destroy
    split
    next => exact ⟨rfl, rfl, rfl, rfl, rfl⟩
    next hmod => exact ⟨rfl, hmod, rfl, rfl, rfl⟩
  obtain ⟨hlib', hmod', hplaying', hpending', hprovides'⟩ := hdestroy
  rw [TrackerProcessor.doInit, Live.start]
  cases hcreates : lib.creates p.skeleton with
  | false =>
    have hcreated : (lib.creating s p.skeleton).created = false := hcreates
    rw [hcreated]
    exact ⟨hlib'.trans hlib, by simp [Instance.called], hmod', hplaying', hpending'.trans hpending, hprovides'⟩
  | true =>
    have hcreated : (lib.creating s p.skeleton).created = true := hcreates
    rw [hcreated]
    have hmade : Ready ({ (({ s.destroy.call (.create p.posted p.skeleton true) with mod := some p.posted }.call
        (.setRenderParam p.posted RENDER_INTERPOLATIONFILTER_LENGTH SINC_INTERPOLATION)).call (.setRepeatCount p.posted 0)) with
          fence := some (.new p.plan) } : TrackerProcessor)
        ⟨some { init := p.posted, skeleton := p.skeleton, interpolation := SINC_INTERPOLATION }, false, s.pendingProvides⟩ := by
      refine ⟨hlib'.trans hlib, ?_, rfl, hplaying', hpending'.trans hpending, hprovides'⟩
      change ((({ s.destroy.call _ with mod := some p.posted } : TrackerProcessor).call _).call _).inst = _
      rw [inst_call, inst_call]
      change Instance.called (Instance.called (s.destroy.call _).inst _) _ = _
      rw [inst_call]
      rfl
    have hprovided : ∀ x ∈ s.pendingProvides.zipIdx, (lib.creating s p.skeleton).provided x.2 = lib.accepts p.skeleton x.1 := by
      intro x hx
      change (s.pendingProvides[x.2]?).any _ = _
      rw [List.mk_mem_zipIdx_iff_getElem?.1 hx, Option.any_some]
    have hflush := hmade.flush rfl (lib.accepts p.skeleton) (lib.creating s p.skeleton).provided hprovided
    exact ⟨hflush.lib, hflush.inst, hflush.mod, hflush.playing, hflush.pendingInit, hflush.pend⟩

theorem start_eq {b : Live} (h : b.pend = a.pend) (posted : Nat) (skeleton : Bytes) :
    b.start lib posted skeleton = a.start lib posted skeleton := by
  rw [Live.start, Live.start, h]

/-- A call on the instance, if there is one. -/
theorem onMod (h : Ready s a) (c : Nat → LibCall) (f : Instance → Instance)
    (hc : ∀ i, Instance.called (some i) (c i.init) = some (f i)) (hf : ∀ i, (f i).init = i.init) :
    Ready (s.onMod c) { a with inst := a.inst.map f } := by
  have hmod := h.mod
  rw [TrackerProcessor.onMod]
  cases hi : a.inst with
  | none =>
    rw [hi, Option.map_none] at hmod
    rw [hmod]
    exact ⟨h.lib, h.inst.trans hi, hmod, h.playing, h.pendingInit, h.pend⟩
  | some i =>
    rw [hi, Option.map_some] at hmod
    rw [hmod]
    dsimp only
    rw [if_pos h.lib]
    refine ⟨h.lib, ?_, ?_, h.playing, h.pendingInit, h.pend⟩
    · rw [inst_call, h.inst, hi, hc i]
      rfl
    · change s.mod = some (f i).init
      rw [hmod, hf i]

theorem withPlaying (h : Ready s a) (b : Bool) : Ready { s with playing := b } { a with playing := b } :=
  ⟨h.lib, h.inst, h.mod, rfl, h.pendingInit, h.pend⟩

theorem hear (h : Ready s a) (m : ToWorklet × Nat) : Ready (lib.hear s (.message m.1) m.2) (a.hear lib m) := by
  obtain ⟨msg, posted⟩ := m
  cases msg with
  | init skeleton plan =>
    have hinit : Ready (s.doInit (lib.creating s skeleton) ⟨posted, skeleton, plan⟩) _ := doInit h.lib h.pendingInit ⟨posted, skeleton, plan⟩
    rw [start_eq (a := a) h.pend] at hinit
    change Ready (if !s.lib then _ else _) _
    rw [if_neg (by simp [h.lib])]
    exact hinit
  | provideSample index frames pcm =>
    change Ready (if !s.lib || s.mod.isNone then _ else _) _
    rw [Live.hear]
    cases hi : a.inst with
    | none =>
      have hmod : s.mod = none := by rw [h.mod, hi, Option.map_none]
      rw [if_pos (by simp [hmod])]
      exact ⟨h.lib, h.inst.trans hi, hmod, h.playing, h.pendingInit, congrArg (· ++ [_]) h.pend⟩
    | some i =>
      have hmod : s.mod = some i.init := by rw [h.mod, hi, Option.map_some]
      have hprovide := h.applyProvide hi (lib.accepts i.skeleton) ⟨posted, index, frames, pcm⟩
      have hok : (lib.answers s (.message (.provideSample index frames pcm))).provided 0 =
          lib.accepts i.skeleton ⟨posted, index, frames, pcm⟩ := by
        change s.inst.any _ = _
        rw [h.inst, hi, Option.any_some]
        rfl
      rw [if_neg (by simp [h.lib, hmod])]
      rw [← hok] at hprovide
      exact hprovide
  | play =>
    have hplay := h.withPlaying a.inst.isSome
    have heq : s.mod.isSome = a.inst.isSome := by rw [h.mod, Option.isSome_map]
    rw [← heq] at hplay
    change Ready { s with playing := s.mod.isSome } { a with playing := a.inst.isSome }
    rw [← heq]
    exact hplay
  | pause => exact h.withPlaying false
  | stop => exact (h.withPlaying false).onMod _ (·.move (.orderRow 0 0)) (fun _ => rfl) fun _ => rfl
  | seekOrderRow order row => exact h.onMod _ (·.move (.orderRow order row)) (fun _ => rfl) fun _ => rfl
  | seekSeconds seconds => exact h.onMod _ (·.move (.seconds seconds)) (fun _ => rfl) fun _ => rfl
  | selectSubsong index => exact h.onMod _ (·.move (.subsong index)) (fun _ => rfl) fun _ => rfl
  | setInterpolation value => exact h.onMod _ (fun i => { i with interpolation := value }) (fun _ => rfl) fun _ => rfl
  | setRepeat count => exact h.onMod _ (fun i => { i with repeatCount := count }) (fun _ => rfl) fun _ => rfl

theorem hearAll (h : Ready s a) (ms : List (ToWorklet × Nat)) : Ready (lib.hearAll s ms) (ms.foldl (Live.hear lib) a) := by
  induction ms generalizing s a with
  | nil => exact h
  | cons m ms ih => exact ih (h.hear m)

end Ready

/-! ### Before that -/

/-- The last `init`. -/
def lastInit (ms : List (ToWorklet × Nat)) : Option PendingInit :=
  ms.foldl (fun o m => match m.1 with
    | .init skeleton plan => some ⟨m.2, skeleton, plan⟩
    | _ => o) none

/-- The processor when loading ends after these messages. -/
def begin (lib : Lib Pos) (ms : List (ToWorklet × Nat)) : Live :=
  match lastInit ms with
  | some p => (⟨none, false, ms.filterMap provided⟩ : Live).start lib p.posted p.skeleton
  | none => ⟨none, false, ms.filterMap provided⟩

structure Waits (s : TrackerProcessor) (ms : List (ToWorklet × Nat)) : Prop where
  lib : s.lib = false
  mod : s.mod = none
  playing : s.playing = false
  calls : s.calls = []
  pendingInit : s.pendingInit = lastInit ms
  pend : s.pendingProvides = ms.filterMap provided

theorem Waits.hear {ms : List (ToWorklet × Nat)} (h : Waits s ms) (m : ToWorklet × Nat) :
    Waits (lib.hear s (.message m.1) m.2) (ms ++ [m]) := by
  have hinit : lastInit (ms ++ [m]) = match m.1 with
      | .init skeleton plan => some ⟨m.2, skeleton, plan⟩
      | _ => lastInit ms := by
    rw [lastInit, List.foldl_append]
    rfl
  obtain ⟨msg, posted⟩ := m
  have hkept : provided (msg, posted) = none → ∀ s' : TrackerProcessor, s'.pendingProvides = s.pendingProvides →
      s'.pendingProvides = (ms ++ [(msg, posted)]).filterMap provided := by
    intro hnone s' hs'
    rw [hs', h.pend, List.filterMap_append, List.filterMap_cons_none hnone, List.filterMap_nil, List.append_nil]
  have hnoMod : ∀ (s' : TrackerProcessor) c, s'.mod = none → s'.onMod c = s' := by
    intro s' c hmod
    rw [onMod, hmod]
  cases msg with
  | init skeleton plan =>
    change Waits (if !s.lib then _ else _) _
    rw [if_pos (by simp [h.lib])]
    exact ⟨h.lib, h.mod, h.playing, h.calls, hinit.symm, hkept rfl { s with pendingInit := _ } rfl⟩
  | provideSample index frames pcm =>
    change Waits (if !s.lib || s.mod.isNone then _ else _) _
    rw [if_pos (by simp [h.lib])]
    refine ⟨h.lib, h.mod, h.playing, h.calls, h.pendingInit.trans hinit.symm, ?_⟩
    change s.pendingProvides ++ _ = _
    rw [h.pend, List.filterMap_append]
    rfl
  | play => exact ⟨h.lib, h.mod, by change s.mod.isSome = false; rw [h.mod]; rfl, h.calls, h.pendingInit.trans hinit.symm,
      hkept rfl { s with playing := _ } rfl⟩
  | pause => exact ⟨h.lib, h.mod, rfl, h.calls, h.pendingInit.trans hinit.symm, hkept rfl { s with playing := _ } rfl⟩
  | stop =>
    change Waits (({ s with playing := false } : TrackerProcessor).onMod _) _
    rw [hnoMod { s with playing := false } _ h.mod]
    exact ⟨h.lib, h.mod, rfl, h.calls, h.pendingInit.trans hinit.symm, hkept rfl { s with playing := _ } rfl⟩
  | seekOrderRow | seekSeconds | selectSubsong | setInterpolation | setRepeat =>
    change Waits (s.onMod _) _
    rw [hnoMod s _ h.mod]
    exact ⟨h.lib, h.mod, h.playing, h.calls, h.pendingInit.trans hinit.symm, hkept rfl s rfl⟩

theorem waits_hearAll (ms : List (ToWorklet × Nat)) : Waits (lib.hearAll {} ms) ms := by
  induction ms using List.reverseRecOn with
  | nil => exact ⟨rfl, rfl, rfl, rfl, rfl, rfl⟩
  | append_singleton ms m ih =>
    rw [Lib.hearAll, List.foldl_append]
    exact ih.hear m

theorem Waits.loaded {ms : List (ToWorklet × Nat)} (h : Waits s ms) : Ready (lib.hear s .loaded 0) (begin lib ms) := by
  have hpending := h.pendingInit
  rw [begin]
  cases hlast : lastInit ms with
  | none =>
    rw [hlast] at hpending
    change Ready (TrackerProcessor.loaded s _) _
    rw [TrackerProcessor.loaded]
    dsimp only
    rw [show (({ s with lib := true } : TrackerProcessor).send .ready).pendingInit = none from hpending]
    refine ⟨rfl, ?_, h.mod, h.playing, hpending, h.pend⟩
    change s.calls.foldl _ none = none
    rw [h.calls]
    rfl
  | some p =>
    rw [hlast] at hpending
    have hanswers : lib.answers s .loaded = lib.creating s p.skeleton := by rw [Lib.answers, hpending]
    change Ready (TrackerProcessor.loaded s (lib.answers s .loaded)) _
    rw [hanswers, TrackerProcessor.loaded]
    dsimp only
    rw [show (({ s with lib := true } : TrackerProcessor).send .ready).pendingInit = some p from hpending, ← h.pend]
    exact Ready.doInit (s := { ({ s with lib := true } : TrackerProcessor).send .ready with pendingInit := none }) rfl rfl p

/-- The processor at the end, with the end of loading after `before`. -/
theorem ready_run (ms : List ToWorklet) (k : Nat) :
    Ready (lib.run ms k) ((ms.zipIdx.drop k).foldl (Live.hear lib) (begin lib (ms.zipIdx.take k))) :=
  (waits_hearAll _).loaded.hearAll _

theorem Ready.final (h : Ready s a) : lib.final s = (a.playing, a.inst.map lib.shown) := by
  rw [Lib.final, h.inst, h.playing]

/-! ### The messages after the last `init` -/

section
variable {α β : Type} {write : α → Option β} {b c : β} {xs ys : List α}

theorem lastWrite_append : lastWrite write b (xs ++ ys) = lastWrite write (lastWrite write b xs) ys := List.foldl_append

theorem lastWrite_eq_or (xs : List α) : (∀ c, lastWrite write c xs = lastWrite write b xs) ∨ ∀ c, lastWrite write c xs = c := by
  induction xs using List.reverseRecOn with
  | nil => exact .inr fun _ => rfl
  | append_singleton xs x ih =>
    simp only [lastWrite_append]
    cases hx : write x with
    | some v => exact .inl fun c => by simp [lastWrite, hx]
    | none =>
      have hsame : ∀ c, lastWrite write c [x] = c := fun c => by simp [lastWrite, hx]
      simp only [hsame]
      exact ih

/-- What is left as it was is so by its last messages too. -/
theorem lastWrite_drop (h : lastWrite write b xs = b) (n : Nat) : lastWrite write b (xs.drop n) = b := by
  rw [← List.take_append_drop n xs, lastWrite_append] at h
  have hor : (∀ c, lastWrite write c (xs.drop n) = lastWrite write b (xs.drop n)) ∨ ∀ c, lastWrite write c (xs.drop n) = c :=
    lastWrite_eq_or (xs.drop n)
  rcases hor with hsame | hkeeps
  · rw [← hsame]
    exact h
  · exact hkeeps b

end

def Instance.after (i : Instance) (lib : Lib Pos) (ms : List (ToWorklet × Nat)) : Instance :=
  { i with
    moves := i.moves ++ (ms.map (·.1)).filterMap moved
    interpolation := lastWrite setsInterpolation i.interpolation (ms.map (·.1))
    repeatCount := lastWrite setsRepeat i.repeatCount (ms.map (·.1))
    samples := i.samples ++ (ms.filterMap provided).filter (lib.accepts i.skeleton) }

theorem after_after (i : Instance) (xs ys : List (ToWorklet × Nat)) :
    (i.after lib xs).after lib ys = i.after lib (xs ++ ys) := by
  simp [Instance.after, lastWrite_append]

theorem hear_some {m : ToWorklet × Nat} (h : m.1.isInit = false) (i : Instance) (b : Bool) (pend : List PendingProvide) :
    (⟨some i, b, pend⟩ : Live).hear lib m = ⟨some (i.after lib [m]), lastWrite plays b [m.1], pend⟩ := by
  obtain ⟨msg, posted⟩ := m
  cases msg with
  | init => cases h
  | _ => simp [Live.hear, Instance.after, Instance.move, lastWrite, moved, provided, plays, setsInterpolation, setsRepeat,
      List.filterMap_cons]

theorem foldl_hear_some {ms : List (ToWorklet × Nat)} (h : ∀ m ∈ ms, m.1.isInit = false) (i : Instance) (b : Bool)
    (pend : List PendingProvide) : ms.foldl (Live.hear lib) ⟨some i, b, pend⟩ =
      ⟨some (i.after lib ms), lastWrite plays b (ms.map (·.1)), pend⟩ := by
  induction ms generalizing i b with
  | nil => simp [Instance.after, lastWrite]
  | cons m ms ih =>
    rw [List.foldl_cons, hear_some (h m List.mem_cons_self), ih fun m hm => h m (List.mem_cons_of_mem _ hm), after_after]
    rfl

theorem foldl_hear_none {ms : List (ToWorklet × Nat)} (h : ∀ m ∈ ms, m.1.isInit = false) (pend : List PendingProvide) :
    ms.foldl (Live.hear lib) ⟨none, false, pend⟩ = ⟨none, false, pend ++ ms.filterMap provided⟩ := by
  induction ms generalizing pend with
  | nil => simp
  | cons m ms ih =>
    have hms := ih fun m hm => h m (List.mem_cons_of_mem _ hm)
    have hm := h m List.mem_cons_self
    obtain ⟨msg, posted⟩ := m
    cases msg with
    | init => cases hm
    | _ => simp [Live.hear, hms, provided, List.filterMap_cons]

theorem lastInit_append {ms : List (ToWorklet × Nat)} (h : ∀ m ∈ ms, m.1.isInit = false) (before : List (ToWorklet × Nat))
    (skeleton : Bytes) (plan : Plan) (posted : Nat) :
    lastInit (before ++ (.init skeleton plan, posted) :: ms) = some ⟨posted, skeleton, plan⟩ := by
  rw [lastInit, List.foldl_append, List.foldl_cons]
  dsimp only
  induction ms with
  | nil => rfl
  | cons m ms ih =>
    have hm := h m List.mem_cons_self
    rw [List.foldl_cons]
    obtain ⟨msg, posted'⟩ := m
    cases msg with
    | init => cases hm
    | _ => exact ih fun m hm => h m (List.mem_cons_of_mem _ hm)

/-! ### The samples no instance was there for -/

theorem hear_isSome {m : ToWorklet × Nat} (h : m.1.isInit = false) (a : Live) :
    (a.hear lib m).inst.isSome = a.inst.isSome ∧
      (a.hear lib m).pend = if a.inst.isSome then a.pend else a.pend ++ (provided m).toList := by
  obtain ⟨inst, playing, pend⟩ := a
  cases inst with
  | some i =>
    rw [hear_some h]
    exact ⟨rfl, rfl⟩
  | none =>
    obtain ⟨msg, posted⟩ := m
    cases msg with
    | init => cases h
    | _ => exact ⟨rfl, by simp [Live.hear, provided]⟩

theorem start_isSome (a : Live) (posted : Nat) (skeleton : Bytes) :
    (a.start lib posted skeleton).inst.isSome = lib.creates skeleton ∧
      (a.start lib posted skeleton).pend = if lib.creates skeleton then [] else a.pend := by
  rw [Live.start]
  cases lib.creates skeleton <;> exact ⟨rfl, rfl⟩

theorem unclaimed_eq (ms : List (ToWorklet × Nat)) : lib.unclaimed ms =
    ((ms.foldl (Live.hear lib) (begin lib [])).inst.isSome, (ms.foldl (Live.hear lib) (begin lib [])).pend) := by
  induction ms using List.reverseRecOn with
  | nil => rfl
  | append_singleton ms m ih =>
    have hstep : lib.unclaimed (ms ++ [m]) = match m.1 with
        | .init skeleton _ => if lib.creates skeleton then (true, []) else (false, (lib.unclaimed ms).2)
        | _ => if (lib.unclaimed ms).1 then lib.unclaimed ms else (false, (lib.unclaimed ms).2 ++ (provided m).toList) := by
      rw [Lib.unclaimed, List.foldl_append]
      rfl
    rw [List.foldl_append, List.foldl_cons, List.foldl_nil, hstep]
    generalize ms.foldl (Live.hear lib) (begin lib []) = a at ih
    rw [ih]
    by_cases hm : m.1.isInit = true
    · obtain ⟨msg, posted⟩ := m
      cases msg with
      | init skeleton plan =>
        change _ = ((a.start lib posted skeleton).inst.isSome, (a.start lib posted skeleton).pend)
        rw [(start_isSome a posted skeleton).1, (start_isSome a posted skeleton).2]
        dsimp only
        cases lib.creates skeleton <;> rfl
      | _ => cases hm
    · have hm : m.1.isInit = false := by simpa using hm
      rw [(hear_isSome hm a).1, (hear_isSome hm a).2]
      obtain ⟨msg, posted⟩ := m
      cases msg with
      | init => cases hm
      | _ =>
        dsimp only
        cases a.inst.isSome <;> rfl

/-- Two ends of loading leave an instance in both cases or in none, the earlier one with fewer samples that wait. -/
structure Fewer (a b : Live) (ps : List PendingProvide) : Prop where
  inst : a.inst.isSome = b.inst.isSome
  fewer : a.pend.Sublist b.pend
  all : b.pend.Sublist ps

theorem Fewer.start {b : Live} {ps : List PendingProvide} (h : a.pend.Sublist b.pend) (hall : b.pend.Sublist ps) (posted : Nat)
    (skeleton : Bytes) : Fewer (a.start lib posted skeleton) (b.start lib posted skeleton) ps := by
  refine ⟨(start_isSome a ..).1.trans (start_isSome b ..).1.symm, ?_, ?_⟩
  · rw [(start_isSome a ..).2, (start_isSome b ..).2]
    split
    · exact .refl _
    · exact h
  · rw [(start_isSome b ..).2]
    split
    · exact List.nil_sublist _
    · exact hall

theorem Fewer.hear {b : Live} {ps : List PendingProvide} (h : Fewer a b ps) (m : ToWorklet × Nat) :
    Fewer (a.hear lib m) (b.hear lib m) (ps ++ (provided m).toList) := by
  by_cases hm : m.1.isInit = true
  · obtain ⟨msg, posted⟩ := m
    cases msg with
    | init skeleton plan => exact .start h.fewer (h.all.trans (List.sublist_append_left _ _)) posted skeleton
    | _ => cases hm
  · have hm : m.1.isInit = false := by simpa using hm
    refine ⟨(hear_isSome hm a).1.trans (h.inst.trans (hear_isSome hm b).1.symm), ?_, ?_⟩
    · rw [(hear_isSome hm a).2, (hear_isSome hm b).2, h.inst]
      split
      · exact h.fewer
      · exact h.fewer.append (.refl _)
    · rw [(hear_isSome hm b).2]
      split
      · exact h.all.trans (List.sublist_append_left _ _)
      · exact h.all.append (.refl _)

theorem filterMap_provided_cons (m : ToWorklet × Nat) (ms : List (ToWorklet × Nat)) :
    (m :: ms).filterMap provided = (provided m).toList ++ ms.filterMap provided := by
  cases hp : provided m with
  | none =>
    rw [List.filterMap_cons_none hp]
    rfl
  | some p =>
    rw [List.filterMap_cons_some hp]
    rfl

theorem Fewer.foldl {b : Live} {ps : List PendingProvide} (h : Fewer a b ps) (ms : List (ToWorklet × Nat)) :
    Fewer (ms.foldl (Live.hear lib) a) (ms.foldl (Live.hear lib) b) (ps ++ ms.filterMap provided) := by
  induction ms generalizing a b ps with
  | nil => simpa using h
  | cons m ms ih =>
    have hm : Fewer (a.hear lib m) (b.hear lib m) (ps ++ (provided m).toList) := h.hear m
    have hall := ih hm
    rw [List.append_assoc, ← filterMap_provided_cons] at hall
    exact hall

/-- The end of loading after some messages, and before them. -/
theorem fewer_begin (ms : List (ToWorklet × Nat)) :
    Fewer (ms.foldl (Live.hear lib) (begin lib [])) (begin lib ms) (ms.filterMap provided) := by
  induction ms using List.reverseRecOn with
  | nil => exact ⟨rfl, .refl _, .refl _⟩
  | append_singleton ms m ih =>
    have hprovided : [m].filterMap provided = (provided m).toList := by
      rw [filterMap_provided_cons, List.filterMap_nil, List.append_nil]
    rw [List.foldl_append, List.foldl_cons, List.foldl_nil, List.filterMap_append, hprovided]
    generalize ms.foldl (Live.hear lib) (begin lib []) = a at ih
    by_cases hm : m.1.isInit = true
    · obtain ⟨msg, posted⟩ := m
      cases msg with
      | init skeleton plan =>
        have hlast : lastInit (ms ++ [(.init skeleton plan, posted)]) = some ⟨posted, skeleton, plan⟩ :=
          lastInit_append (by simp) ms skeleton plan posted
        rw [begin, hlast, List.filterMap_append, hprovided]
        exact .start ((ih.fewer.trans ih.all).trans (List.sublist_append_left _ _)) (.refl _) posted skeleton
      | _ => cases hm
    · have hm : m.1.isInit = false := by simpa using hm
      have hlast : lastInit (ms ++ [m]) = lastInit ms := by
        rw [lastInit, List.foldl_append]
        obtain ⟨msg, posted⟩ := m
        cases msg with
        | init => cases hm
        | _ => rfl
      have hbegin : (begin lib (ms ++ [m])).inst.isSome = (begin lib ms).inst.isSome ∧ (begin lib (ms ++ [m])).pend =
          if (begin lib ms).inst.isSome then (begin lib ms).pend else (begin lib ms).pend ++ (provided m).toList := by
        rw [begin, begin, hlast, List.filterMap_append, hprovided]
        cases lastInit ms with
        | none => exact ⟨rfl, rfl⟩
        | some p =>
          dsimp only
          rw [(start_isSome _ p.posted p.skeleton).1, (start_isSome _ p.posted p.skeleton).2,
            (start_isSome _ p.posted p.skeleton).1, (start_isSome _ p.posted p.skeleton).2]
          cases lib.creates p.skeleton <;> exact ⟨rfl, rfl⟩
      refine ⟨(hear_isSome hm a).1.trans (ih.inst.trans hbegin.1.symm), ?_, ?_⟩
      · rw [(hear_isSome hm a).2, hbegin.2, ih.inst]
        split
        · exact ih.fewer
        · exact ih.fewer.append (.refl _)
      · rw [hbegin.2]
        split
        · exact ih.all.trans (List.sublist_append_left _ _)
        · exact ih.all.append (.refl _)

/-! ### The last sample of a slot -/

theorem posted_sublist (ms : List (ToWorklet × Nat)) :
    ((ms.filterMap provided).map (·.posted)).Sublist (ms.map (·.2)) := by
  induction ms with
  | nil => exact .refl _
  | cons m ms ih =>
    rw [filterMap_provided_cons, List.map_append, List.map_cons]
    obtain ⟨msg, posted⟩ := m
    cases msg with
    | provideSample index frames pcm => exact ih.cons_cons posted
    | _ => exact ih.cons posted

theorem nodup_provided (before after : List ToWorklet) (m : ToWorklet) :
    ((before.zipIdx.filterMap provided ++ (after.zipIdx (before.length + 1)).filterMap provided).map (·.posted)).Nodup := by
  have hnodup : ((before ++ m :: after).zipIdx.map (·.2)).Nodup := by
    rw [List.zipIdx_map_snd]
    exact List.nodup_range'
  rw [List.zipIdx_append, List.zipIdx_cons, Nat.zero_add, List.map_append, List.map_cons] at hnodup
  have hsub := (posted_sublist before.zipIdx).append ((posted_sublist (after.zipIdx (before.length + 1))).cons before.length)
  rw [← List.map_append] at hsub
  exact hnodup.sublist hsub

/-- A list between two has the last sample of a slot that they share. -/
theorem lastOf_between {slot : Nat} {xs ys zs : List PendingProvide} (hxy : xs.Sublist ys) (hyz : ys.Sublist zs)
    (hnodup : (zs.map (·.posted)).Nodup) (hlast : lastOf slot xs = lastOf slot zs) : lastOf slot ys = lastOf slot zs := by
  rw [lastOf, lastOf] at hlast ⊢
  have hxy := hxy.filter (·.index = slot)
  have hyz := hyz.filter (·.index = slot)
  have hnodup : ((zs.filter (·.index = slot)).map (·.posted)).Nodup := hnodup.sublist (List.filter_sublist.map _)
  generalize xs.filter (·.index = slot) = xs at *
  generalize ys.filter (·.index = slot) = ys at *
  generalize zs.filter (·.index = slot) = zs at *
  rcases List.eq_nil_or_concat zs with rfl | ⟨zs, z, rfl⟩
  · rw [List.sublist_nil.1 hyz]
  · rw [List.concat_eq_append] at *
    rw [List.getLast?_concat] at hlast ⊢
    obtain ⟨x, hx, hposted⟩ := Option.map_eq_some_iff.1 hlast
    have hmem : x ∈ ys := hxy.subset (List.mem_of_getLast? hx)
    have hxz : x = z := List.inj_on_of_nodup_map hnodup (hyz.subset hmem) (by simp) hposted
    obtain ⟨ys₁, ys₂, rfl, hys₁, hys₂⟩ := List.sublist_append_iff.1 hyz
    rcases List.sublist_singleton.1 hys₂ with rfl | rfl
    · rw [List.append_nil, hxz] at hmem
      rw [List.map_append, List.nodup_append'] at hnodup
      exact absurd (by simp) (hnodup.2.2 (List.mem_map_of_mem (hys₁.subset hmem)))
    · rw [List.getLast?_concat]

/-! ### Early and late ends of loading -/

section
variable {before after : List ToWorklet} {skeleton : Bytes} {plan : Plan}

/-- An instance that has got the samples, and `after` since. -/
def shownAfter (lib : Lib Pos) (init : Nat) (skeleton : Bytes) (after : List ToWorklet) (samples : List PendingProvide) : Shown Pos where
  init
  position := lib.position skeleton (after.filterMap moved)
  interpolation := lastWrite setsInterpolation SINC_INTERPOLATION after
  repeatCount := lastWrite setsRepeat 0 after
  slots slot := lastOf slot (samples.filter (lib.accepts skeleton))

theorem shownAfter_inj {init : Nat} {xs ys : List ToWorklet} {ps qs : List PendingProvide} :
    shownAfter lib init skeleton xs ps = shownAfter lib init skeleton ys qs ↔
      lib.position skeleton (xs.filterMap moved) = lib.position skeleton (ys.filterMap moved) ∧
        lastWrite setsInterpolation SINC_INTERPOLATION xs = lastWrite setsInterpolation SINC_INTERPOLATION ys ∧
          lastWrite setsRepeat 0 xs = lastWrite setsRepeat 0 ys ∧
            ∀ slot, lastOf slot (ps.filter (lib.accepts skeleton)) = lastOf slot (qs.filter (lib.accepts skeleton)) := by
  simp [shownAfter, funext_iff]

theorem zipIdx_split (before after : List ToWorklet) (m : ToWorklet) :
    (before ++ m :: after).zipIdx = before.zipIdx ++ (m, before.length) :: after.zipIdx (before.length + 1) := by
  rw [List.zipIdx_append, List.zipIdx_cons, Nat.zero_add]

theorem noInit_zipIdx (hafter : ∀ m ∈ after, m.isInit = false) (n : Nat) : ∀ m ∈ after.zipIdx n, m.1.isInit = false :=
  fun _ hm => hafter _ (List.fst_mem_of_mem_zipIdx hm)

/-- What an instance comes to from its `init` on. -/
theorem final_start (hcreates : lib.creates skeleton = true) {ms : List (ToWorklet × Nat)} (hms : ∀ m ∈ ms, m.1.isInit = false)
    {s : TrackerProcessor} {a : Live} {posted : Nat} (h : Ready s (ms.foldl (Live.hear lib) (a.start lib posted skeleton))) :
    lib.final s = (lastWrite plays false (ms.map (·.1)),
      some (shownAfter lib posted skeleton (ms.map (·.1)) (a.pend ++ ms.filterMap provided))) := by
  rw [h.final, Live.start, if_pos hcreates, foldl_hear_some hms, Option.map_some, shownAfter]
  simp only [List.filter_append]
  rfl

/-- Without an instance nothing plays. -/
theorem final_none {ms : List (ToWorklet × Nat)} (hms : ∀ m ∈ ms, m.1.isInit = false) {s : TrackerProcessor}
    {pend : List PendingProvide} (h : Ready s (ms.foldl (Live.hear lib) ⟨none, false, pend⟩)) : lib.final s = (false, none) := by
  rw [h.final, foldl_hear_none hms]
  rfl

/-- The processor when loading ends with the last `init` still to come. -/
theorem ready_early {k : Nat} (hk : k ≤ before.length) :
    Ready (lib.run (before ++ .init skeleton plan :: after) k) ((after.zipIdx (before.length + 1)).foldl (Live.hear lib)
      (((before.zipIdx.drop k).foldl (Live.hear lib) (begin lib (before.zipIdx.take k))).start lib before.length skeleton)) := by
  have hready : Ready (lib.run (before ++ .init skeleton plan :: after) k) _ := ready_run _ k
  have hlen : k ≤ before.zipIdx.length := by rwa [List.length_zipIdx]
  rw [zipIdx_split, List.take_append_of_le_length hlen, List.drop_append_of_le_length hlen, List.foldl_append,
    List.foldl_cons] at hready
  exact hready

/-- The processor when loading ends after the last `init`. -/
theorem ready_late (hafter : ∀ m ∈ after, m.isInit = false) (j : Nat) :
    Ready (lib.run (before ++ .init skeleton plan :: after) (before.length + 1 + j))
      (((after.zipIdx (before.length + 1)).drop j).foldl (Live.hear lib)
        ((⟨none, false, before.zipIdx.filterMap provided ++ ((after.zipIdx (before.length + 1)).take j).filterMap provided⟩ : Live).start
          lib before.length skeleton)) := by
  have hready : Ready (lib.run (before ++ .init skeleton plan :: after) (before.length + 1 + j)) _ := ready_run _ _
  have hlen : before.length + 1 + j = before.zipIdx.length + (1 + j) := by rw [List.length_zipIdx, Nat.add_assoc]
  have hlast : lastInit (before.zipIdx ++ (.init skeleton plan, before.length) :: (after.zipIdx (before.length + 1)).take j) =
      some ⟨before.length, skeleton, plan⟩ :=
    lastInit_append (fun m hm => noInit_zipIdx hafter _ m (List.mem_of_mem_take hm)) _ _ _ _
  have htake : (before.zipIdx ++ (ToWorklet.init skeleton plan, before.length) :: after.zipIdx (before.length + 1)).take
      (before.zipIdx.length + (1 + j)) =
      before.zipIdx ++ (.init skeleton plan, before.length) :: (after.zipIdx (before.length + 1)).take j := by
    rw [List.take_append, List.take_of_length_le (by omega), Nat.add_sub_cancel_left, Nat.add_comm 1 j, List.take_succ_cons]
  have hdrop : (before.zipIdx ++ (ToWorklet.init skeleton plan, before.length) :: after.zipIdx (before.length + 1)).drop
      (before.zipIdx.length + (1 + j)) = (after.zipIdx (before.length + 1)).drop j := by
    rw [List.drop_append, List.drop_of_length_le (by omega), Nat.add_sub_cancel_left, Nat.add_comm 1 j, List.drop_succ_cons,
      List.nil_append]
  rw [zipIdx_split, hlen, htake, hdrop, begin, hlast, List.filterMap_append, filterMap_provided_cons] at hready
  rw [hlen]
  exact hready

theorem final_early (hcreates : lib.creates skeleton = true) (hafter : ∀ m ∈ after, m.isInit = false) {k : Nat}
    (hk : k ≤ before.length) : lib.final (lib.run (before ++ .init skeleton plan :: after) k) = (lastWrite plays false after,
      some (shownAfter lib before.length skeleton after
        (((before.zipIdx.drop k).foldl (Live.hear lib) (begin lib (before.zipIdx.take k))).pend ++
          (after.zipIdx (before.length + 1)).filterMap provided))) := by
  rw [final_start hcreates (noInit_zipIdx hafter _) (ready_early hk), List.zipIdx_map_fst]

theorem final_late (hcreates : lib.creates skeleton = true) (hafter : ∀ m ∈ after, m.isInit = false) (j : Nat) :
    lib.final (lib.run (before ++ .init skeleton plan :: after) (before.length + 1 + j)) = (lastWrite plays false (after.drop j),
      some (shownAfter lib before.length skeleton (after.drop j)
        (before.zipIdx.filterMap provided ++ (after.zipIdx (before.length + 1)).filterMap provided))) := by
  rw [final_start hcreates (fun m hm => noInit_zipIdx hafter _ m (List.mem_of_mem_drop hm)) (ready_late hafter j), List.map_drop,
    List.zipIdx_map_fst, List.append_assoc, ← List.filterMap_append, List.take_append_drop]

end

/-- There is a last `init`, or none. -/
theorem exists_lastInit (ms : List ToWorklet) : (∀ m ∈ ms, m.isInit = false) ∨ ∃ before skeleton plan after,
    ms = before ++ .init skeleton plan :: after ∧ ∀ m ∈ after, m.isInit = false := by
  induction ms with
  | nil => exact .inl (by simp)
  | cons m ms ih =>
    rcases ih with hnone | ⟨before, skeleton, plan, after, rfl, hafter⟩
    · cases m with
      | init skeleton plan => exact .inr ⟨[], skeleton, plan, ms, rfl, hnone⟩
      | _ => exact .inl (List.forall_mem_cons.2 ⟨rfl, hnone⟩)
    · exact .inr ⟨m :: before, skeleton, plan, after, rfl, hafter⟩

theorem final_of_noInit {ms : List ToWorklet} (h : ∀ m ∈ ms, m.isInit = false) (k : Nat) :
    lib.final (lib.run ms k) = (false, none) := by
  have hready : Ready (lib.run ms k) _ := ready_run ms k
  have hlast : lastInit (ms.zipIdx.take k) = none := by
    have hall : ∀ m ∈ ms.zipIdx.take k, m.1.isInit = false := fun m hm => noInit_zipIdx h 0 m (List.mem_of_mem_take hm)
    generalize ms.zipIdx.take k = xs at hall
    induction xs using List.reverseRecOn with
    | nil => rfl
    | append_singleton xs x ih =>
      have hx := hall x (by simp)
      rw [lastInit, List.foldl_append]
      obtain ⟨msg, posted⟩ := x
      cases msg with
      | init => cases hx
      | _ => exact ih fun m hm => hall m (by simp [hm])
  rw [begin, hlast] at hready
  exact final_none (fun m hm => noInit_zipIdx h 0 m (List.mem_of_mem_drop hm)) hready

/-- The end is the same wherever loading ends if and only if what comes after the last `init` leaves the instance as it was
made, but for samples, and these are not mixed with those of earlier instances. -/
theorem transparent_iff (lib : Lib Pos) (ms : List ToWorklet) : lib.Transparent ms ↔ lib.Settled ms := by
  constructor
  · rintro h before skeleton plan after rfl hafter hcreates
    have hlen : (before ++ .init skeleton plan :: after).length = before.length + 1 + after.length := by
      rw [List.length_append, List.length_cons]
      omega
    have hsame : ∀ j ≤ after.length, lastWrite plays false (after.drop j) = lastWrite plays false after ∧
        shownAfter lib before.length skeleton (after.drop j)
          (before.zipIdx.filterMap provided ++ (after.zipIdx (before.length + 1)).filterMap provided) =
        shownAfter lib before.length skeleton after
          ((lib.unclaimed before.zipIdx).2 ++ (after.zipIdx (before.length + 1)).filterMap provided) := by
      intro j hj
      have heq := h (before.length + 1 + j) (by omega)
      rw [final_late hcreates hafter j, final_early hcreates hafter (Nat.zero_le _), Prod.mk.injEq, Option.some.injEq] at heq
      rw [unclaimed_eq]
      exact heq
    obtain ⟨hplaying, hend⟩ := hsame after.length le_rfl
    rw [List.drop_length] at hplaying hend
    obtain ⟨hposition, hinterpolation, hrepeat, hslots⟩ := shownAfter_inj.1 hend
    refine ⟨hplaying.symm, hinterpolation.symm, hrepeat.symm, fun n => ?_, fun slot => (hslots slot).symm⟩
    by_cases hn : n ≤ after.length
    · exact (shownAfter_inj.1 (hsame n hn).2).1
    · rw [List.drop_of_length_le (Nat.le_of_not_le hn)]
      exact hposition
  · intro h k hk
    rcases exists_lastInit ms with hnone | ⟨before, skeleton, plan, after, rfl, hafter⟩
    · rw [final_of_noInit hnone, final_of_noInit hnone]
    by_cases hcreates : lib.creates skeleton = true
    · have hleaves := h before skeleton plan after rfl hafter hcreates
      have hslots := hleaves.slots
      rw [unclaimed_eq] at hslots
      by_cases hlate : before.length + 1 ≤ k
      · obtain ⟨j, rfl⟩ := Nat.exists_eq_add_of_le hlate
        rw [final_late hcreates hafter j, final_early hcreates hafter (Nat.zero_le _), Prod.mk.injEq, Option.some.injEq]
        refine ⟨?_, shownAfter_inj.2 ⟨hleaves.position j, ?_, ?_, fun slot => (hslots slot).symm⟩⟩
        · rw [hleaves.playing, lastWrite_drop hleaves.playing]
        · rw [hleaves.interpolation, lastWrite_drop hleaves.interpolation]
        · rw [hleaves.repeatCount, lastWrite_drop hleaves.repeatCount]
      · rw [final_early hcreates hafter (by omega), final_early hcreates hafter (Nat.zero_le _), Prod.mk.injEq, Option.some.injEq]
        refine ⟨rfl, shownAfter_inj.2 ⟨rfl, rfl, rfl, fun slot => ?_⟩⟩
        have hbegin : Fewer ((before.zipIdx.take k).foldl (Live.hear lib) (begin lib [])) (begin lib (before.zipIdx.take k)) _ :=
          fewer_begin _
        have hfewer : Fewer ((before.zipIdx.drop k).foldl (Live.hear lib) _) ((before.zipIdx.drop k).foldl (Live.hear lib) _) _ :=
          hbegin.foldl _
        rw [← List.foldl_append, ← List.filterMap_append, List.take_append_drop] at hfewer
        have hnodup := (nodup_provided before after (.init skeleton plan)).sublist
          ((List.filter_sublist (p := lib.accepts skeleton)).map (·.posted))
        have hbetween := lastOf_between ((hfewer.fewer.append (.refl _)).filter _) ((hfewer.all.append (.refl _)).filter _)
          hnodup (hslots slot)
        exact hbetween.trans (hslots slot).symm
    · have hno : ∀ (a : Live) (posted : Nat), a.start lib posted skeleton = ⟨none, false, a.pend⟩ := fun a posted => if_neg hcreates
      have hnone : ∀ k ≤ (before ++ .init skeleton plan :: after).length,
          lib.final (lib.run (before ++ .init skeleton plan :: after) k) = (false, none) := by
        intro k hk
        by_cases hlate : before.length + 1 ≤ k
        · obtain ⟨j, rfl⟩ := Nat.exists_eq_add_of_le hlate
          have hready : Ready (lib.run (before ++ .init skeleton plan :: after) _) _ := ready_late hafter j
          rw [hno] at hready
          exact final_none (fun m hm => noInit_zipIdx hafter _ m (List.mem_of_mem_drop hm)) hready
        · have hready : Ready (lib.run (before ++ .init skeleton plan :: after) k) _ := ready_early (by omega)
          rw [hno] at hready
          exact final_none (noInit_zipIdx hafter _) hready
      rw [hnone k hk, hnone 0 (Nat.zero_le _)]

/-! ### An `init` and `play` -/

def anything : Lib Nat := ⟨fun _ => true, fun _ _ _ _ => true, fun _ moves => moves.length⟩

/-- Ready before them, the worklet plays; ready after them, it does not. -/
theorem initPlay_not_transparent : ¬ anything.Transparent [.init [] ⟨[], []⟩, .play] := by
  intro h
  have hplaying := congrArg Prod.fst (h 2 le_rfl)
  exact absurd hplaying (by decide)

end TrackerStream.TrackerProcessor
