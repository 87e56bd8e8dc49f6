import TrackerStream.Proofs.CallsSettle

/-!
# Calls given up

A request is executed by the server that listened when it was posted. That is the leader the follower addressed as long as
each call is made when the follower knows who listens; a call made between the start of a new server and its hello is
executed by the new leader and given up all the same.
-/

namespace TrackerStream.Multitab.World
open Rpc

variable {Arg : Type} {w : World Arg} {t id l : Nat} {f : Follower} {act : Act Arg}

/-! ### What a step does to terms and requests -/

/-- What no step but one changes. -/
def Kept (w w' : World Arg) : Prop := w'.terms = w.terms ∧ w'.serving = w.serving ∧ w'.posted = w.posted

theorem Kept.onMsg (m : Msg Arg) : Kept w (w.onMsg t f m) := by
  cases m with
  | hello leader =>
    rw [World.onMsg]
    split <;> exact ⟨rfl, rfl, rfl⟩
  | reply t' id r =>
    rw [World.onMsg]
    split
    · split <;> exact ⟨rfl, rfl, rfl⟩
    · exact ⟨rfl, rfl, rfl⟩
  | _ => exact ⟨rfl, rfl, rfl⟩

theorem Kept.onRequest (m : Msg Arg) : Kept w (w.onRequest t m) := by
  cases m <;> exact ⟨rfl, rfl, rfl⟩

theorem step_kept (w : World Arg) (act : Act Arg) : Kept w (w.step act) ∨
    (∃ t, w.serving t = false ∧ (w.step act).terms = w.terms ++ [t] ∧ (w.step act).serving = Function.update w.serving t true ∧
      (w.step act).posted = w.posted) ∨
    ∃ t r f, act = .call t r ∧ w.isOpen (.follower t) = true ∧ w.follower t = some f ∧ w.step act = w.rpc t f r := by
  cases act with
  | boot =>
    refine .inl ?_
    rw [step]
    dsimp only
    split <;> exact ⟨rfl, rfl, rfl⟩
  | grant t =>
    refine .inl ?_
    rw [step]
    split <;> exact ⟨rfl, rfl, rfl⟩
  | created t =>
    rw [step]
    split
    next hcreated =>
      refine .inr (.inl ⟨t, by simpa using hcreated.2.2, ?_⟩)
      split <;> exact ⟨rfl, rfl, rfl⟩
    next => exact .inl ⟨rfl, rfl, rfl⟩
  | die t => exact .inl ⟨rfl, rfl, rfl⟩
  | probe t =>
    refine .inl ?_
    rw [step]
    split <;> exact ⟨rfl, rfl, rfl⟩
  | call t r =>
    rw [step]
    split
    next f hf =>
      split
      next hcall => exact .inr (.inr ⟨t, r, f, rfl, hcall.1, hf, rfl⟩)
      next => exact .inl ⟨rfl, rfl, rfl⟩
    next => exact .inl ⟨rfl, rfl, rfl⟩
  | deliver s r =>
    refine .inl ?_
    rw [step]
    split
    next => exact ⟨rfl, rfl, rfl⟩
    next m rest hqueue =>
      split
      · cases r with
        | follower t =>
          dsimp only
          split
          · exact Kept.onMsg (w := w.pop s (.follower t)) m
          · exact ⟨rfl, rfl, rfl⟩
        | server t => exact Kept.onRequest (w := w.pop s (.server t)) m
      · exact ⟨rfl, rfl, rfl⟩
  | emit t id i arg =>
    refine .inl ?_
    rw [step]
    split
    · split <;> exact ⟨rfl, rfl, rfl⟩
    · exact ⟨rfl, rfl, rfl⟩
  | finish t id i result =>
    refine .inl ?_
    rw [step]
    split
    · split <;> exact ⟨rfl, rfl, rfl⟩
    · exact ⟨rfl, rfl, rfl⟩
  | changed t =>
    refine .inl ?_
    rw [step]
    split <;> exact ⟨rfl, rfl, rfl⟩

/-- Each server starts once. -/
structure Started (w : World Arg) : Prop where
  nodup : w.terms.Nodup
  serving : ∀ t ∈ w.terms, w.serving t = true

theorem Started.step (h : Started w) (act : Act Arg) : Started (w.step act) := by
  rcases step_kept w act with ⟨hterms, hserving, -⟩ | ⟨t, ht, hterms, hserving, -⟩ | ⟨t, r, f, rfl, -, -, heq⟩
  · refine ⟨by rw [hterms]; exact h.nodup, fun t ht => ?_⟩
    rw [hterms] at ht
    rw [hserving]
    exact h.serving t ht
  · have hnew : t ∉ w.terms := by
      intro hmem
      rw [h.serving t hmem] at ht
      cases ht
    refine ⟨?_, fun t' ht' => ?_⟩
    · rw [hterms]
      exact List.Nodup.append h.nodup (List.nodup_singleton t) (List.disjoint_singleton.2 hnew)
    · rw [hserving]
      by_cases hne : t' = t
      · rw [hne, Function.update_self]
      · rw [hterms, List.mem_append, List.mem_singleton, or_iff_left hne] at ht'
        rw [Function.update_of_ne hne]
        exact h.serving t' ht'
  · rw [heq]
    exact ⟨h.nodup, h.serving⟩

/-- A request that some server received was addressed to it. -/
def Addressed (w : World Arg) : Prop :=
  ∀ t id p, w.posted t id = some p → ∀ l, p.listening = some l → p.addressed = some l

theorem Addressed.step (h : Addressed w) (hact : w.informed act = true) : Addressed (w.step act) := by
  rcases step_kept w act with ⟨-, -, hposted⟩ | ⟨_, -, -, -, hposted⟩ | ⟨t, r, f, rfl, hopen, hf, heq⟩
  · rwa [Addressed, hposted]
  · rwa [Addressed, hposted]
  · rw [heq]
    intro t' id p hp l hl
    have hp : (if t' = t ∧ id = f.send.seq then some ⟨r, f.leaderId, w.listening⟩ else w.posted t' id) = some p := hp
    split at hp
    · rw [Option.some.injEq] at hp
      subst hp
      have hl : w.listening = some l := hl
      rw [informed, hopen, hf, hl] at hact
      simpa using hact
    · exact h t' id p hp l hl

/-- If each call is made when the follower knows who listens, no call that was given up is executed by a later leader. -/
theorem notRepeated_of_informed (acts : List (Act Arg)) (h : Runs.Along step (fun w act => w.informed act) {} acts) : NotRepeated acts := by
  have hinv : ∀ k, k ≤ acts.length → Started (after acts k) ∧ Addressed (after acts k) := by
    refine Runs.invariant (I := fun _ w => Started w ∧ Addressed w) ⟨⟨List.nodup_nil, ?_⟩, ?_⟩ fun k act hact hk =>
      ⟨hk.1.step act, hk.2.step (h k act hact)⟩
    · rintro _ ⟨⟩
    · rintro _ _ _ ⟨⟩
  intro t id why k _ m e he a ha hafter
  obtain ⟨hstarted, haddressed⟩ : Started (after acts m) ∧ Addressed (after acts m) := by
    by_cases hm : m ≤ acts.length
    · exact hinv m hm
    · rw [after, Runs.state_of_le (Nat.le_of_not_le hm)]
      exact hinv acts.length le_rfl
  obtain ⟨p, hp, heq⟩ := Option.map_eq_some_iff.1 (((holds_after acts m).2 t id).execs e he)
  have hserver : p.addressed = some e.server := haddressed t id p hp e.server (congrArg Prod.snd heq)
  rw [hp, Option.bind_some, hserver, Option.some.injEq] at ha
  subst ha
  exact absurd (hafter.nodup hstarted.nodup) (by simp)

/-! ### A new leader -/

def create : Request Unit := ⟨"playlists.create", []⟩

/-- A leader and two followers that know of it. -/
def start : List (Act Unit) :=
  [.boot, .created 0, .boot, .boot, .probe 1, .probe 2, .deliver (.follower 1) (.server 0), .deliver (.follower 2) (.server 0),
    .deliver (.server 0) (.follower 1), .deliver (.server 0) (.follower 2), .deliver (.server 0) (.follower 2)]

/-- A call posted when the new leader listens, before its hello is read. -/
def early : List (Act Unit) := start ++ [.die 0, .grant 1, .created 1, .call 2 create, .deliver (.follower 2) (.server 1),
  .deliver (.server 1) (.follower 2)]

theorem early_repeated : ¬ NotRepeated early := by
  intro h
  have hlost : .settled (.lost "leader changed") ∈ (after early 17).seen 2 1 := by decide
  refine h 2 1 "leader changed" 17 hlost 17 ⟨1, create, []⟩ (by decide) 0 (by decide) ?_
  unfold ElectedAfter
  decide

/-- A call posted to the leader that goes then. -/
def known : List (Act Unit) := start ++ [.call 1 create, .deliver (.follower 1) (.server 0), .die 0, .grant 1, .created 1]

theorem known_notRepeated : .settled (.lost "promoted to leader") ∈ (after known 16).seen 1 1 ∧
    (after known 16).execs 1 1 = [⟨0, create, []⟩] ∧ NotRepeated known :=
  ⟨by decide, by decide, notRepeated_of_informed known (Runs.along_iff.2 (by decide))⟩

end TrackerStream.Multitab.World
