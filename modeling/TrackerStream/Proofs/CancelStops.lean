import TrackerStream.PageReads

/-!
# Cancelled queries

A wave of fetches has the epoch its guard captured, and each of its fetches looks at it. The desktop captures it when the
query opens its file. The browser captures it at each read, so a query that was queued or between two reads when `cancel`
came goes on to fetch; it does not where `cancel` only ever meets a query that waits for its pages.
-/

namespace TrackerStream.PageReads
open Guards (Work Prompt Stops Unaffected)

/-- The query of a wave captured its epoch. -/
def Guarded (g : Guards Nat) (b : Batch) : Prop := (b.query, b.epoch) ∈ g.captured

variable {man : TszcatManifest} {e : Engine} {r : Running} {b : Batch} {g : Guards Nat} {i j : Nat} {plain : Option Bytes}

theorem turn_work (b : Batch) (g : Guards Nat) :
    Work b.query b.epoch g (b.turn g).2 ∧ (b.turn g).1.query = b.query ∧ (b.turn g).1.epoch = b.epoch := by
  rw [Batch.turn]
  split
  · exact ⟨.refl g, rfl, rfl⟩
  · split
    next heq => exact ⟨.start heq, rfl, rfl⟩
    next hne => exact ⟨.cut hne, rfl, rfl⟩

theorem turns_work (n : Nat) (b : Batch) (g : Guards Nat) :
    Work b.query b.epoch g ((fun x : Batch × Guards Nat => x.1.turn x.2)^[n] (b, g)).2 ∧
      ((fun x : Batch × Guards Nat => x.1.turn x.2)^[n] (b, g)).1.query = b.query ∧
        ((fun x : Batch × Guards Nat => x.1.turn x.2)^[n] (b, g)).1.epoch = b.epoch := by
  induction n generalizing b g with
  | zero => exact ⟨.refl g, rfl, rfl⟩
  | succ n ih =>
    obtain ⟨hwork, hquery, hepoch⟩ := turn_work b g
    obtain ⟨hwork', hquery', hepoch'⟩ := ih (b.turn g).1 (b.turn g).2
    rw [hquery, hepoch] at hwork'
    exact ⟨hwork.trans hwork', hquery'.trans hquery, hepoch'.trans hepoch⟩

/-! ### The browser -/

namespace Engine

/-- A read captures the epoch, and what it starts is guarded by that. -/
theorem ensure_cases (man : TszcatManifest) (e : Engine) (r : Running) (first last : Nat) : ∃ cache seqRun lastEnd g reading unwound,
    e.ensure man r first last = { e with cache, seqRun, lastEnd, guards := g, running := some ⟨r.query, reading, unwound⟩ } ∧
      Work r.query e.guards.epoch (e.guards.capture r.query) g ∧
        ∀ b, reading = some b → b.query = r.query ∧ b.epoch = e.guards.epoch := by
  rw [ensure]
  generalize (if advancing e.lastEnd first = true then e.seqRun + 1 else 0) = seqRun
  dsimp only
  generalize List.filter (fun i => (e.cache.find (man.root, i)).isNone) _ = missing
  split
  · exact ⟨_, _, _, _, none, _, rfl, .refl _, by rintro _ ⟨⟩⟩
  · have hpooled := turns_work (min FETCH_CONCURRENCY missing.length)
      { query := r.query, epoch := e.guards.epoch, first, last, missing } ((e.guards.capture r.query).start r.query)
    refine ⟨_, _, _, _, some _, r.unwound, rfl, Work.trans (Work.start rfl) hpooled.1, ?_⟩
    rintro b ⟨⟩
    exact hpooled.2

/-- A fetch that is done changes nothing but its own wave; a read that is through was not cancelled. -/
theorem fetched_cases (man : TszcatManifest) (e : Engine) (r : Running) (b : Batch) (i : Nat) (plain : Option Bytes) :
    ∃ cache g reading unwound orphans,
      e.fetched man r b i plain = { e with cache, guards := g, running := some ⟨r.query, reading, unwound⟩, orphans } ∧
        Work b.query b.epoch e.guards g ∧ (∀ b', reading = some b' → b'.query = b.query ∧ b'.epoch = b.epoch) ∧
          (∀ b' ∈ orphans, b' ∈ e.orphans ∨ b'.query = b.query ∧ b'.epoch = b.epoch) ∧
            (reading = none → unwound = false → e.guards.epoch = b.epoch) := by
  cases plain with
  | none =>
    refine ⟨_, _, none, true, _, rfl, .refl _, by rintro _ ⟨⟩, fun b' hb' => ?_, fun _ => by rintro ⟨⟩⟩
    rcases List.mem_append.1 hb' with hb' | hb'
    · exact .inl hb'
    · rw [List.mem_singleton.1 hb']
      exact .inr ⟨rfl, rfl⟩
  | some plain =>
    obtain ⟨hwork, hquery, hepoch⟩ := turn_work (b.landed i (some plain)) e.guards
    rw [fetched]
    split
    · refine ⟨_, _, some _, r.unwound, _, rfl, hwork, ?_, fun _ => .inl, by rintro ⟨⟩⟩
      rintro b' ⟨⟩
      exact ⟨hquery, hepoch⟩
    split
    next hne => exact ⟨_, _, none, true, _, rfl, hwork.trans (.cut hne), by rintro _ ⟨⟩, fun _ => .inl, fun _ => by rintro ⟨⟩⟩
    next heq =>
      refine ⟨_, _, none, _, _, rfl, hwork, by rintro _ ⟨⟩, fun _ => .inl, fun _ _ => ?_⟩
      rw [← hwork.epoch]
      exact not_not.1 heq

theorem orphaned_cases (e : Engine) (j : Nat) (b : Batch) (i : Nat) (plain : Option Bytes) : ∃ g orphans,
    e.orphaned j b i plain = { e with guards := g, orphans } ∧ Work b.query b.epoch e.guards g ∧
      ∀ b' ∈ orphans, b' ∈ e.orphans ∨ b'.query = b.query ∧ b'.epoch = b.epoch := by
  have hset : ∀ x b', b' ∈ e.orphans.set j x → b' ∈ e.orphans ∨ b' = x := fun _ _ => List.mem_or_eq_of_mem_set
  cases plain with
  | none =>
    refine ⟨_, _, rfl, .refl _, fun b' hb' => ?_⟩
    rcases hset _ b' hb' with hb' | rfl
    · exact .inl hb'
    · exact .inr ⟨rfl, rfl⟩
  | some plain =>
    obtain ⟨hwork, hquery, hepoch⟩ := turn_work (b.landed i (some plain)) e.guards
    refine ⟨_, _, rfl, hwork, fun b' hb' => ?_⟩
    rcases hset _ b' hb' with hb' | rfl
    · exact .inl hb'
    · exact .inr ⟨hquery, hepoch⟩

/-- What a step does. -/
inductive Moves (man : TszcatManifest) (e : Engine) : Act → Engine → Prop
  | same (act) : Moves man e act e
  | query : Moves man e .query { e with asked := e.asked + 1, guards := e.guards.ask e.asked, queue := e.queue ++ [e.asked] }
  | start (q rest) (hq : e.queue = q :: rest) : Moves man e .start { e with queue := rest, running := some { query := q } }
  | read (act r cache seqRun lastEnd g reading unwound) (hr : e.running = some r) (hidle : r.reading = none)
      (hunwound : r.unwound = false) (hwork : Work r.query e.guards.epoch (e.guards.capture r.query) g)
      (hreading : ∀ b, reading = some b → b.query = r.query ∧ b.epoch = e.guards.epoch) :
      Moves man e act { e with cache, seqRun, lastEnd, guards := g, running := some ⟨r.query, reading, unwound⟩ }
  | fetched (act r b cache g reading unwound orphans) (hr : e.running = some r) (hb : r.reading = some b)
      (hwork : Work b.query b.epoch e.guards g) (hreading : ∀ b', reading = some b' → b'.query = b.query ∧ b'.epoch = b.epoch)
      (horphans : ∀ b' ∈ orphans, b' ∈ e.orphans ∨ b'.query = b.query ∧ b'.epoch = b.epoch)
      (hthrough : reading = none → unwound = false → e.guards.epoch = b.epoch) :
      Moves man e act { e with cache, guards := g, running := some ⟨r.query, reading, unwound⟩, orphans }
  | orphaned (act b g orphans) (hb : b ∈ e.orphans) (hwork : Work b.query b.epoch e.guards g)
      (horphans : ∀ b' ∈ orphans, b' ∈ e.orphans ∨ b'.query = b.query ∧ b'.epoch = b.epoch) :
      Moves man e act { e with guards := g, orphans }
  | finish : Moves man e .finish { e with running := none }
  | cancel : Moves man e .cancel { e with guards := e.guards.cancel }

theorem step_moves (e : Engine) (act : Act) : Moves man e act (e.step man act) := by
  cases act with
  | query => exact .query
  | start =>
    rw [step]
    split
    next q rest _ hq => exact .start q rest hq
    next => exact .same _
  | read offset len =>
    rw [step]
    split
    next r hr =>
      split
      next hidle =>
        rw [jRead]
        split
        · exact .same _
        · obtain ⟨cache, seqRun, lastEnd, g, reading, unwound, heq, hwork, hreading⟩ :=
            ensure_cases man e r (offset / man.pageSize)
              ((min (offset + len) (man.pageSize * man.pageCount) - 1) / man.pageSize)
          rw [heq]
          exact .read _ r _ _ _ g _ _ hr hidle.1 (by simpa using hidle.2) hwork hreading
      next => exact .same _
    next => exact .same _
  | fetched orphan i plain =>
    cases orphan with
    | none =>
      rw [step]
      split
      next r hr =>
        split
        next b hb =>
          split
          · obtain ⟨cache, g, reading, unwound, orphans, heq, hwork, hreading, horphans, hthrough⟩ :=
              fetched_cases man e r b i plain
            rw [heq]
            exact .fetched _ r b _ g _ _ _ hr hb hwork hreading horphans hthrough
          · exact .same _
        next => exact .same _
      next => exact .same _
    | some j =>
      rw [step]
      split
      next b hb =>
        split
        · obtain ⟨g, orphans, heq, hwork, horphans⟩ := orphaned_cases e j b i plain
          rw [heq]
          exact .orphaned _ b g _ (List.mem_of_getElem? hb) hwork horphans
        · exact .same _
      next => exact .same _
  | finish =>
    rw [step]
    split
    · exact .finish
    · exact .same _
  | cancel => exact .cancel

structure Inv (e : Engine) : Prop where
  guards : e.guards.Inv
  fresh : ∀ q, e.asked ≤ q → e.guards.asked q = none
  queue : ∀ q ∈ e.queue, ∃ a, e.guards.asked q = some a
  running : ∀ r, e.running = some r → ∃ a, e.guards.asked r.query = some a
  reading : ∀ r b, e.running = some r → r.reading = some b → b.query = r.query ∧ Guarded e.guards b
  orphans : ∀ b ∈ e.orphans, Guarded e.guards b

theorem Inv.step {e' : Engine} {act : Act} (h : Inv e) (hmoves : Moves man e act e') : Inv e' := by
  cases hmoves with
  | same => exact h
  | query =>
    have hfresh := h.fresh e.asked le_rfl
    have hkept : ∀ q, (∃ a, e.guards.asked q = some a) → ∃ a, (e.guards.ask e.asked).asked q = some a := by
      rintro q ⟨a, ha⟩
      exact ⟨a, Guards.asked_ask hfresh ha⟩
    refine ⟨h.guards.ask hfresh, fun q hq => ?_, fun q hq => ?_, fun r hr => hkept _ (h.running r hr), h.reading, h.orphans⟩
    · change e.asked + 1 ≤ q at hq
      exact (Function.update_of_ne (by omega) ..).trans (h.fresh q (by omega))
    · rcases List.mem_append.1 hq with hq | hq
      · exact hkept q (h.queue q hq)
      · rw [List.mem_singleton.1 hq]
        exact ⟨_, Function.update_self ..⟩
  | start q rest hq =>
    have hmem : q ∈ e.queue := by simp [hq]
    refine ⟨h.guards, h.fresh, fun q' hq' => h.queue q' (by simp [hq, hq']), ?_, ?_, h.orphans⟩
    · rintro r ⟨⟩
      exact h.queue q hmem
    · rintro r b ⟨⟩ ⟨⟩
  | read act r cache seqRun lastEnd g reading unwound hr hidle hunwound hwork hreading =>
    obtain ⟨a, ha⟩ := h.running r hr
    have hcaptured := h.guards.capture ha
    have hself : (r.query, e.guards.epoch) ∈ (e.guards.capture r.query).captured := by simp [Guards.capture]
    have hkept : ∀ b, Guarded e.guards b → Guarded g b := by
      intro b hb
      rw [Guarded, hwork.captured]
      exact List.mem_append_left _ hb
    refine ⟨hwork.inv hcaptured hself, ?_, ?_, ?_, ?_, fun b hb => hkept b (h.orphans b hb)⟩
    · rw [hwork.asked]
      exact h.fresh
    · rw [hwork.asked]
      exact h.queue
    · rintro r' ⟨⟩
      rw [hwork.asked]
      exact ⟨a, ha⟩
    · rintro r' b ⟨⟩ hb
      obtain ⟨hquery, hepoch⟩ := hreading b hb
      refine ⟨hquery, ?_⟩
      rw [Guarded, hwork.captured, hquery, hepoch]
      exact hself
  | fetched act r b cache g reading unwound orphans hr hb hwork hreading horphans hthrough =>
    obtain ⟨hquery, hguarded⟩ := h.reading r b hr hb
    have hkept : ∀ b', b'.query = b.query ∧ b'.epoch = b.epoch → Guarded g b' := by
      rintro b' ⟨hquery', hepoch'⟩
      rw [Guarded, hwork.captured, hquery', hepoch']
      exact hguarded
    refine ⟨hwork.inv h.guards hguarded, ?_, ?_, ?_, ?_, fun b' hb' => ?_⟩
    · rw [hwork.asked]
      exact h.fresh
    · rw [hwork.asked]
      exact h.queue
    · rintro r' ⟨⟩
      rw [hwork.asked]
      exact h.running r hr
    · rintro r' b' ⟨⟩ hb'
      exact ⟨(hreading b' hb').1.trans hquery, hkept b' (hreading b' hb')⟩
    · rcases horphans b' hb' with hb' | hsame
      · rw [Guarded, hwork.captured]
        exact h.orphans b' hb'
      · exact hkept b' hsame
  | orphaned act b g orphans hb hwork horphans =>
    have hguarded := h.orphans b hb
    refine ⟨hwork.inv h.guards hguarded, ?_, ?_, ?_, fun r b' hr hb' => ?_, fun b' hb' => ?_⟩
    · rw [hwork.asked]
      exact h.fresh
    · rw [hwork.asked]
      exact h.queue
    · rw [hwork.asked]
      exact h.running
    · rw [Guarded, hwork.captured]
      exact h.reading r b' hr hb'
    · rw [Guarded, hwork.captured]
      rcases horphans b' hb' with hb' | ⟨hquery, hepoch⟩
      · exact h.orphans b' hb'
      · rw [hquery, hepoch]
        exact hguarded
  | finish =>
    refine ⟨h.guards, h.fresh, h.queue, ?_, ?_, h.orphans⟩
    · rintro r ⟨⟩
    · rintro r b ⟨⟩
  | cancel => exact ⟨h.guards.cancel, h.fresh, h.queue, h.running, h.reading, h.orphans⟩

/-- The queries that may still read were asked for after the last cancellation. -/
structure Current (e : Engine) : Prop where
  prompt : Prompt e.guards
  queue : ∀ q ∈ e.queue, e.guards.asked q = some e.guards.epoch
  running : ∀ r, e.running = some r → r.reading = none → r.unwound = false → e.guards.asked r.query = some e.guards.epoch

theorem Current.step {e' : Engine} {act : Act} (h : Current e) (hinv : Inv e) (hmoves : Moves man e act e')
    (hact : e.onlyReading act = true) : Current e' := by
  cases hmoves with
  | same => exact h
  | query =>
    have hfresh := hinv.fresh e.asked le_rfl
    refine ⟨h.prompt.ask hfresh, fun q hq => ?_, fun r hr hidle hunwound => Guards.asked_ask hfresh (h.running r hr hidle hunwound)⟩
    rcases List.mem_append.1 hq with hq | hq
    · exact Guards.asked_ask hfresh (h.queue q hq)
    · rw [List.mem_singleton.1 hq]
      exact Function.update_self ..
  | start q rest hq =>
    refine ⟨h.prompt, fun q' hq' => h.queue q' (by simp [hq, hq']), ?_⟩
    rintro r ⟨⟩ - -
    exact h.queue q (by simp [hq])
  | read act r cache seqRun lastEnd g reading unwound hr hidle hunwound hwork hreading =>
    have hasked := h.running r hr hidle hunwound
    refine ⟨hwork.prompt (h.prompt.capture hasked), ?_, ?_⟩
    · rw [hwork.asked, hwork.epoch]
      exact h.queue
    · rintro r' ⟨⟩ - -
      rw [hwork.asked, hwork.epoch]
      exact hasked
  | fetched act r b cache g reading unwound orphans hr hb hwork hreading horphans hthrough =>
    refine ⟨hwork.prompt h.prompt, ?_, ?_⟩
    · rw [hwork.asked, hwork.epoch]
      exact h.queue
    · rintro r' ⟨⟩ hidle hunwound
      obtain ⟨hquery, hguarded⟩ := hinv.reading r b hr hb
      rw [hwork.asked, hwork.epoch, hthrough hidle hunwound, ← hquery]
      exact h.prompt _ _ hguarded
  | orphaned act b g orphans hb hwork horphans =>
    refine ⟨hwork.prompt h.prompt, ?_, ?_⟩
    · rw [hwork.asked, hwork.epoch]
      exact h.queue
    · rw [hwork.asked, hwork.epoch]
      exact h.running
  | finish => exact ⟨h.prompt, h.queue, by rintro r ⟨⟩⟩
  | cancel =>
    simp only [onlyReading, decide_eq_true_eq, Option.all_eq_true, Bool.or_eq_true] at hact
    obtain ⟨hqueue, hrunning⟩ := hact
    refine ⟨h.prompt, ?_, fun r hr hidle hunwound => ?_⟩
    · rw [hqueue]
      rintro q ⟨⟩
    · have hr : e.running = some r := hr
      rcases hrunning r hr with hreading | hunwound'
      · rw [hidle] at hreading
        cases hreading
      · rw [hunwound] at hunwound'
        cases hunwound'

theorem inv_idle (cache : PageCache) : Inv (idle cache) := by
  refine ⟨Guards.inv_empty, fun _ _ => rfl, ?_, ?_, ?_, ?_⟩
  · rintro _ ⟨⟩
  · rintro _ ⟨⟩
  · rintro _ _ ⟨⟩
  · rintro _ ⟨⟩

theorem current_idle (cache : PageCache) : Current (idle cache) := by
  refine ⟨?_, ?_, ?_⟩
  · rintro _ _ ⟨⟩
  · rintro _ ⟨⟩
  · rintro _ ⟨⟩

theorem inv_after (man : TszcatManifest) (h : Inv e) (acts : List Act) (k : Nat) : Inv (after man e acts k) :=
  Runs.always (I := Inv) h (fun e act h => h.step (step_moves e act)) k

theorem stops_of_onlyReading (man : TszcatManifest) (hinv : Inv e) (hcurrent : Current e) (acts : List Act)
    (h : Runs.Along (step man) (fun e act => e.onlyReading act) e acts) (k : Nat) : Stops (after man e acts k).guards := by
  have hrun : ∀ k, k ≤ acts.length → Current (after man e acts k) :=
    Runs.invariant (I := fun _ e => Current e) hcurrent fun k act hact hk =>
      hk.step (inv_after man hinv acts k) (step_moves _ act) (h k act hact)
  refine (inv_after man hinv acts k).guards.stops ?_
  by_cases hk : k ≤ acts.length
  · exact (hrun k hk).prompt
  · rw [after, Runs.state_of_le (Nat.le_of_not_le hk)]
    exact (hrun acts.length le_rfl).prompt

end Engine

/-! ### The desktop -/

namespace Vfs
variable {v v' : Vfs} {f : CatalogFile} {q : Nat}

/-- A file of the same query, with the same epoch, whose waves have both. -/
def Same (f f' : CatalogFile) : Prop :=
  f'.query = f.query ∧ f'.epoch = f.epoch ∧ ∀ b, f'.reading = some b → b.query = f.query ∧ b.epoch = f.epoch

/-- What a step of one query's file does to the others, and to its own guard. -/
structure Moves (f : CatalogFile) (v v' : Vfs) : Prop where
  guards : Work f.query f.epoch v.guards v'.guards
  asked : v'.asked = v.asked
  waiting : v'.waiting = v.waiting
  files : ∀ q f', v'.files q = some f' → v.files q = some f' ∨ q = f.query ∧ Same f f'

namespace Moves

theorem refl (f : CatalogFile) (v : Vfs) : Moves f v v := ⟨.refl _, rfl, rfl, fun _ _ => .inl⟩

theorem setFile {g : Guards Nat} {cache : PageCache} {known : AList fun _ : String => Format} {f' : CatalogFile}
    (hwork : Work f.query f.epoch v.guards g) (hsame : Same f f') :
    Moves f v (({ v with guards := g, cache, known } : Vfs).setFile f') := by
  refine ⟨hwork, rfl, rfl, fun q f'' hf'' => ?_⟩
  rw [Vfs.setFile] at hf''
  dsimp only at hf''
  by_cases hq : q = f'.query
  · rw [hq, Function.update_self, Option.some.injEq] at hf''
    exact .inr ⟨hq.trans hsame.1, hf'' ▸ hsame⟩
  · rw [Function.update_of_ne hq] at hf''
    exact .inl hf''

theorem close {g : Guards Nat} (hwork : Work f.query f.epoch v.guards g) : Moves f v (({ v with guards := g } : Vfs).close f.query) := by
  refine ⟨hwork, rfl, rfl, fun q f' hf' => ?_⟩
  rw [Vfs.close] at hf'
  dsimp only at hf'
  by_cases hq : q = f.query
  · rw [hq, Function.update_self] at hf'
    cases hf'
  · rw [Function.update_of_ne hq] at hf'
    exact .inl hf'

theorem fetch_range (hf : ∀ b, f.reading = some b → b.query = f.query ∧ b.epoch = f.epoch) (v : Vfs) :
    Moves f v (v.fetch_range f) := by
  rw [Vfs.fetch_range, cancelled]
  split
  next hne => exact close (.cut (by simpa using hne))
  next heq => exact setFile (.start (by simpa using heq)) ⟨rfl, rfl, hf⟩

theorem serve {f' : CatalogFile} (hquery : f'.query = f.query) (hepoch : f'.epoch = f.epoch) (v : Vfs) (cache : PageCache)
    (format : Format) (first last : Nat) : Moves f v (({ v with cache } : Vfs).serve f' format first last) := by
  refine setFile (.refl _) ⟨hquery, hepoch, ?_⟩
  rintro _ ⟨⟩

theorem ensure {f' : CatalogFile} (hquery : f'.query = f.query) (hepoch : f'.epoch = f.epoch) (hidle : f'.reading = none) (v : Vfs)
    (format : Format) (first last : Nat) : Moves f v (v.ensure f' format first last) := by
  rw [Vfs.ensure, cancelled, hquery, hepoch]
  split
  next hne =>
    refine setFile (.cut (by simpa using hne)) ⟨hquery, hepoch, fun b hb => ?_⟩
    rw [hidle] at hb
    cases hb
  next heq =>
    split
    · exact serve hquery hepoch v v.cache format first last
    · refine setFile (.start (by simpa using heq)) ⟨rfl, rfl, ?_⟩
      rintro b ⟨⟩
      exact ⟨rfl, rfl⟩

theorem dial {b : Batch} (hquery : b.query = f.query) (hepoch : b.epoch = f.epoch) (v : Vfs) : Moves f v (v.dial f b) := by
  have hsame : ∀ b', b'.query = f.query → b'.epoch = f.epoch → Same f { f with reading := some b' } := by
    intro b' hquery' hepoch'
    refine ⟨rfl, rfl, ?_⟩
    rintro _ ⟨⟩
    exact ⟨hquery', hepoch'⟩
  rw [Vfs.dial, hquery, hepoch]
  split
  · split
    · split
      next heq => exact setFile (.start heq) (hsame _ rfl rfl)
      next hne => exact setFile (.cut hne) (hsame _ rfl rfl)
    · exact .refl f v
  · exact .refl f v

theorem settle (v : Vfs) (format : Format) (b : Batch) : Moves f v (v.settle f format b) := by
  rw [Vfs.settle]
  split
  · exact serve rfl rfl v _ format b.first b.last
  · refine setFile (.refl _) ⟨rfl, rfl, ?_⟩
    rintro _ ⟨⟩

end Moves

structure Inv (v : Vfs) : Prop where
  guards : v.guards.Inv
  fresh : ∀ q, v.asked ≤ q → v.guards.asked q = none
  waiting : ∀ q cid, (q, cid) ∈ v.waiting → ∃ a, v.guards.asked q = some a
  files : ∀ q f, v.files q = some f → f.query = q ∧ (q, f.epoch) ∈ v.guards.captured ∧
    ∀ b, f.reading = some b → b.query = q ∧ b.epoch = f.epoch

theorem Inv.moves (h : Inv v) (hf : v.files q = some f) (hmoves : Moves f v v') : Inv v' := by
  obtain ⟨hquery, hcaptured, -⟩ := h.files q f hf
  rw [← hquery] at hcaptured
  refine ⟨hmoves.guards.inv h.guards hcaptured, ?_, ?_, fun q' f' hf' => ?_⟩
  · rw [hmoves.guards.asked, hmoves.asked]
    exact h.fresh
  · rw [hmoves.guards.asked, hmoves.waiting]
    exact h.waiting
  · rw [hmoves.guards.captured]
    rcases hmoves.files q' f' hf' with hf' | ⟨rfl, hquery', hepoch', hreading⟩
    · exact h.files q' f' hf'
    · refine ⟨hquery', hepoch' ▸ hcaptured, fun b hb => ?_⟩
      rw [hepoch']
      exact hreading b hb

theorem fileIf_eq {p : CatalogFile → Bool} (h : v.fileIf q p = some f) : v.files q = some f ∧ p f = true := by
  obtain ⟨hp, heq⟩ := Option.filter_eq_some_iff.1 h
  exact ⟨hp, heq⟩

/-- Every step but three is one of a query's file. -/
theorem step_cases (h : Inv v) (act : Act) : (∃ q f, v.files q = some f ∧ Moves f v (v.step act)) ∨ v.step act = v ∨
    (∃ cid, act = .query cid) ∨ (∃ q cid, act = .start q ∧ v.waiting.lookup q = some cid) ∨ act = .cancel := by
  have hreading : ∀ {q f}, v.files q = some f → ∀ b, f.reading = some b → b.query = f.query ∧ b.epoch = f.epoch := by
    intro q f hf b hb
    obtain ⟨hquery, -, hwave⟩ := h.files q f hf
    rw [hquery]
    exact hwave b hb
  cases act with
  | query cid => exact .inr (.inr (.inl ⟨cid, rfl⟩))
  | start q =>
    cases hq : v.waiting.lookup q with
    | some cid => exact .inr (.inr (.inr (.inl ⟨q, cid, rfl, hq⟩)))
    | none =>
      refine .inr (.inl ?_)
      rw [step, hq]
  | cancel => exact .inr (.inr (.inr (.inr rfl)))
  | opens q =>
    rw [step]
    split
    next f hif =>
      obtain ⟨hf, -⟩ := fileIf_eq hif
      have hwave := hreading hf
      refine .inl ⟨q, f, hf, ?_⟩
      rw [opens]
      split
      · exact .setFile (.refl _) ⟨rfl, rfl, hwave⟩
      · exact .fetch_range hwave v
    next => exact .inr (.inl rfl)
  | probed q answer =>
    rw [step]
    split
    next f hif =>
      obtain ⟨hf, -⟩ := fileIf_eq hif
      have hwave := hreading hf
      refine .inl ⟨q, f, hf, ?_⟩
      cases answer with
      | failed => exact .close (.refl _)
      | manifest => exact .fetch_range hwave v
      | format format => exact .setFile (.refl _) ⟨rfl, rfl, hwave⟩
    next => exact .inr (.inl rfl)
  | read q offset len =>
    rw [step]
    split
    next f hif =>
      obtain ⟨hf, hidle⟩ := fileIf_eq hif
      split
      next format hformat =>
        rw [read_exact_at]
        split
        · exact .inr (.inl rfl)
        · refine .inl ⟨q, f, hf, ?_⟩
          refine Moves.ensure ?_ ?_ ?_ v format _ _
          · rfl
          · rfl
          · simpa using hidle
      next => exact .inr (.inl rfl)
    next => exact .inr (.inl rfl)
  | dial q =>
    rw [step]
    split
    next f hf =>
      split
      next b hb => exact .inl ⟨q, f, hf, .dial (hreading hf b hb).1 (hreading hf b hb).2 v⟩
      next => exact .inr (.inl rfl)
    next => exact .inr (.inl rfl)
  | fetched q i bytes =>
    rw [step]
    split
    next f hf =>
      split
      next b hb =>
        split
        · refine .inl ⟨q, f, hf, .setFile (.refl _) ⟨rfl, rfl, ?_⟩⟩
          rintro _ ⟨⟩
          exact hreading hf b hb
        · exact .inr (.inl rfl)
      next => exact .inr (.inl rfl)
    next => exact .inr (.inl rfl)
  | drop q =>
    rw [step]
    split
    next f hif =>
      obtain ⟨hf, hcut⟩ := fileIf_eq hif
      rw [Bool.and_eq_true, cancelled, decide_eq_true_eq] at hcut
      refine .inl ⟨q, f, hf, .setFile (.cut hcut.1) ⟨rfl, rfl, ?_⟩⟩
      rintro _ ⟨⟩
    next => exact .inr (.inl rfl)
  | settle q =>
    rw [step]
    split
    next f hf =>
      split
      next format b hformat hb =>
        split
        · exact .inl ⟨q, f, hf, .settle v format b⟩
        · exact .inr (.inl rfl)
      next => exact .inr (.inl rfl)
    next => exact .inr (.inl rfl)
  | close q =>
    rw [step]
    split
    next hsome =>
      obtain ⟨f, hif⟩ := Option.isSome_iff_exists.1 hsome
      obtain ⟨hf, -⟩ := fileIf_eq hif
      refine .inl ⟨q, f, hf, ?_⟩
      rw [← (h.files q f hf).1]
      exact .close (.refl _)
    next => exact .inr (.inl rfl)

theorem mem_of_lookup {waiting : List (Nat × String)} {cid : String} (h : waiting.lookup q = some cid) : (q, cid) ∈ waiting := by
  obtain ⟨l₁, l₂, heq, -⟩ := List.lookup_eq_some_iff.1 h
  simp [heq]

theorem Inv.step (h : Inv v) (act : Act) : Inv (v.step act) := by
  rcases step_cases h act with ⟨q, f, hf, hmoves⟩ | hsame | ⟨cid, rfl⟩ | ⟨q, cid, rfl, hq⟩ | rfl
  · exact h.moves hf hmoves
  · rw [hsame]
    exact h
  · have hfresh := h.fresh v.asked le_rfl
    refine ⟨h.guards.ask hfresh, fun q hq => ?_, fun q cid' hq => ?_, h.files⟩
    · change v.asked + 1 ≤ q at hq
      exact (Function.update_of_ne (by omega) ..).trans (h.fresh q (by omega))
    · rcases List.mem_append.1 hq with hq | hq
      · obtain ⟨a, ha⟩ := h.waiting q cid' hq
        exact ⟨a, Guards.asked_ask hfresh ha⟩
      · obtain ⟨rfl, -⟩ := Prod.mk.inj (List.mem_singleton.1 hq)
        exact ⟨_, Function.update_self ..⟩
  · obtain ⟨a, ha⟩ := h.waiting q cid (mem_of_lookup hq)
    rw [Vfs.step, hq]
    refine ⟨h.guards.capture ha, h.fresh, fun q' cid' hq' => h.waiting q' cid' (List.mem_of_mem_filter hq'), fun q' f hf => ?_⟩
    by_cases hne : q' = q
    · subst hne
      have hf := (Function.update_self ..).symm.trans hf
      rw [Option.some.injEq] at hf
      subst hf
      exact ⟨rfl, List.mem_append_right _ (List.mem_singleton.2 rfl), by rintro _ ⟨⟩⟩
    · obtain ⟨hquery, hcaptured, hwave⟩ := h.files q' f ((Function.update_of_ne hne ..).symm.trans hf)
      exact ⟨hquery, List.mem_append_left _ hcaptured, hwave⟩
  · exact ⟨h.guards.cancel, h.fresh, h.waiting, h.files⟩

/-- The queries that have not begun were asked for after the last cancellation. -/
structure Current (v : Vfs) : Prop where
  prompt : Prompt v.guards
  waiting : ∀ q cid, (q, cid) ∈ v.waiting → v.guards.asked q = some v.guards.epoch

theorem Current.step (h : Current v) (hinv : Inv v) {act : Act} (hact : v.allStarted act = true) : Current (v.step act) := by
  rcases step_cases hinv act with ⟨q, f, hf, hmoves⟩ | hsame | ⟨cid, rfl⟩ | ⟨q, cid, rfl, hq⟩ | rfl
  · refine ⟨hmoves.guards.prompt h.prompt, ?_⟩
    rw [hmoves.guards.asked, hmoves.guards.epoch, hmoves.waiting]
    exact h.waiting
  · rw [hsame]
    exact h
  · have hfresh := hinv.fresh v.asked le_rfl
    refine ⟨h.prompt.ask hfresh, fun q cid' hq => ?_⟩
    rcases List.mem_append.1 hq with hq | hq
    · exact Guards.asked_ask hfresh (h.waiting q cid' hq)
    · obtain ⟨rfl, -⟩ := Prod.mk.inj (List.mem_singleton.1 hq)
      exact Function.update_self ..
  · rw [Vfs.step, hq]
    exact ⟨h.prompt.capture (h.waiting q cid (mem_of_lookup hq)), fun q' cid' hq' => h.waiting q' cid' (List.mem_of_mem_filter hq')⟩
  · have hnone : v.waiting = [] := by simpa [allStarted] using hact
    refine ⟨h.prompt, fun q cid hq => ?_⟩
    have hq : (q, cid) ∈ v.waiting := hq
    rw [hnone] at hq
    cases hq

theorem inv_after (v : Vfs) (h : Inv v) (acts : List Act) (k : Nat) : Inv (after v acts k) :=
  Runs.always (I := Inv) h (fun _ act h => h.step act) k

theorem stops_of_allStarted {v : Vfs} (hinv : Inv v) (hcurrent : Current v) (acts : List Act)
    (h : Runs.Along step (fun v act => v.allStarted act) v acts) (k : Nat) : Stops (after v acts k).guards := by
  have hrun : ∀ k, k ≤ acts.length → Current (after v acts k) :=
    Runs.invariant (I := fun _ v => Current v) hcurrent fun k act hact hk => hk.step (inv_after v hinv acts k) (h k act hact)
  refine (inv_after v hinv acts k).guards.stops ?_
  by_cases hk : k ≤ acts.length
  · exact (hrun k hk).prompt
  · rw [after, Runs.state_of_le (Nat.le_of_not_le hk)]
    exact (hrun acts.length le_rfl).prompt

theorem inv_idle (cache : PageCache) (known : AList fun _ : String => Format) : Inv (idle cache known) := by
  refine ⟨Guards.inv_empty, fun _ _ => rfl, ?_, ?_⟩
  · rintro _ _ ⟨⟩
  · rintro _ _ ⟨⟩

theorem current_idle (cache : PageCache) (known : AList fun _ : String => Format) : Current (idle cache known) := by
  refine ⟨?_, ?_⟩
  · rintro _ _ ⟨⟩
  · rintro _ _ ⟨⟩

end Vfs

/-- In every run of the browser where `cancel` only meets queries that wait for their pages or unwind, and in every run of
the desktop where it only meets queries that have begun, nothing is started for a query after a `cancel` that came after
the query; and in every run of either nothing is cut short but after such a `cancel`. -/
theorem cancel_stops (man : TszcatManifest) (cache : PageCache) (known : AList fun _ : String => Format) :
    (∀ acts, Runs.Along (Engine.step man) (fun e act => e.onlyReading act) (.idle cache) acts →
        ∀ k, Stops (Engine.after man (.idle cache) acts k).guards) ∧
      (∀ acts k, Unaffected (Engine.after man (.idle cache) acts k).guards) ∧
      (∀ acts, Runs.Along Vfs.step (fun v act => v.allStarted act) (.idle cache known) acts →
        ∀ k, Stops (Vfs.after (.idle cache known) acts k).guards) ∧
      ∀ acts k, Unaffected (Vfs.after (.idle cache known) acts k).guards :=
  ⟨Engine.stops_of_onlyReading man (Engine.inv_idle cache) (Engine.current_idle cache),
    fun acts k => (Engine.inv_after man (Engine.inv_idle cache) acts k).guards.cuts,
    Vfs.stops_of_allStarted (Vfs.inv_idle cache known) (Vfs.current_idle cache known),
    fun acts k => (Vfs.inv_after _ (Vfs.inv_idle cache known) acts k).guards.cuts⟩

/-! ### A queued query -/

def small : TszcatManifest := ⟨"root", 16384, 3⟩

/-- The second query is queued when `cancel` comes, and reads after it. -/
def queued : List Engine.Act :=
  [.query, .start, .read 0 100, .query, .cancel, .fetched none 0 (some []), .finish, .start, .read 0 100]

theorem queued_goes_on : ¬ Stops (Engine.after small (.idle .empty) queued 9).guards := by
  intro h
  have hstart : (1, 1) ∈ (Engine.after small (.idle .empty) queued 9).guards.starts := by decide
  exact absurd (h 1 1 hstart) (by decide)

/-- The query that reads when `cancel` comes; another one after it. -/
def superseded : List Engine.Act := [.query, .start, .read 0 40000, .cancel, .query, .fetched none 1 (some []),
  .fetched none 0 (some []), .fetched none 2 (some []), .finish, .start, .read 0 100]

def supersededFile : List Vfs.Act :=
  [.query "root", .start 0, .opens 0, .probed 0 (.format (.raw 40000)), .read 0 0 40000, .dial 0, .cancel, .dial 0, .drop 0]

theorem superseded_stops : Stops (Engine.after small (.idle .empty) superseded 11).guards ∧
    Stops (Vfs.after (.idle .empty ∅) supersededFile 9).guards ∧
      (Engine.after small (.idle .empty) superseded 11).guards.cuts = [(0, 1)] ∧
        (Vfs.after (.idle .empty ∅) supersededFile 9).guards.cuts = [(0, 1), (0, 1)] := by
  have h := cancel_stops small .empty ∅
  refine ⟨h.1 superseded (Runs.along_iff.2 (by decide)) 11, h.2.2.1 supersededFile (Runs.along_iff.2 (by decide)) 9,
    by decide, by decide⟩

end TrackerStream.PageReads
