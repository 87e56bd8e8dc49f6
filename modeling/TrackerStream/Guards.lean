import Mathlib

/-!
# Work that an epoch stops

A task is asked for, captures the epoch when it gets to it, and starts work as long as the epoch it captured is the
current one; a cancellation moves the epoch on. `Stops` says that no work is started for a task after a cancellation that
came after it was asked for, which holds if no task captures a later epoch than the one it was asked in.
-/

structure Guards (Task : Type) where
  epoch : Nat := 0
  /-- The epoch a task was asked for in. -/
  asked : Task → Option Nat := fun _ => none
  captured : List (Task × Nat) := []
  /-- What was started, in which epoch. -/
  starts : List (Task × Nat) := []
  /-- What was given up because of a cancellation. -/
  cuts : List (Task × Nat) := []

namespace Guards
variable {Task : Type}

def cancel (g : Guards Task) : Guards Task := { g with epoch := g.epoch + 1 }

def ask [DecidableEq Task] (g : Guards Task) (t : Task) : Guards Task := { g with asked := Function.update g.asked t (some g.epoch) }

def capture (g : Guards Task) (t : Task) : Guards Task := { g with captured := g.captured ++ [(t, g.epoch)] }

def start (g : Guards Task) (t : Task) : Guards Task := { g with starts := g.starts ++ [(t, g.epoch)] }

def cut (g : Guards Task) (t : Task) : Guards Task := { g with cuts := g.cuts ++ [(t, g.epoch)] }

/-- Nothing is started for a task that was asked for before the last cancellation. -/
def Stops (g : Guards Task) : Prop := ∀ t e, (t, e) ∈ g.starts → g.asked t = some e

/-- What is given up was asked for before the last cancellation. -/
def Unaffected (g : Guards Task) : Prop := ∀ t e, (t, e) ∈ g.cuts → ∃ a < e, g.asked t = some a

structure Inv (g : Guards Task) : Prop where
  asked : ∀ t a, g.asked t = some a → a ≤ g.epoch
  captured : ∀ t e, (t, e) ∈ g.captured → e ≤ g.epoch ∧ ∃ a ≤ e, g.asked t = some a
  starts : ∀ t e, (t, e) ∈ g.starts → (t, e) ∈ g.captured
  cuts : Unaffected g

/-- Each task captured the epoch it was asked for in. -/
def Prompt (g : Guards Task) : Prop := ∀ t e, (t, e) ∈ g.captured → g.asked t = some e

variable {g : Guards Task} {t : Task} {e : Nat}

theorem inv_empty : Inv ({} : Guards Task) := by
  refine ⟨?_, ?_, ?_, ?_⟩
  · rintro _ _ ⟨⟩
  · rintro _ _ ⟨⟩
  · rintro _ _ ⟨⟩
  · rintro _ _ ⟨⟩

theorem Inv.stops (h : Inv g) (hprompt : Prompt g) : Stops g := fun t e hstart => hprompt t e (h.starts t e hstart)

theorem Inv.cancel (h : Inv g) : Inv g.cancel :=
  ⟨fun t a ha => Nat.le_succ_of_le (h.asked t a ha),
    fun t e he => ⟨Nat.le_succ_of_le (h.captured t e he).1, (h.captured t e he).2⟩, h.starts, h.cuts⟩

theorem asked_ask [DecidableEq Task] (hfresh : g.asked t = none) {t' : Task} {a : Nat} (ha : g.asked t' = some a) : (g.ask t).asked t' = some a := by
  have hne : t' ≠ t := by
    rintro rfl
    rw [hfresh] at ha
    cases ha
  exact (Function.update_of_ne hne ..).trans ha

theorem Inv.ask [DecidableEq Task] (h : Inv g) (hfresh : g.asked t = none) : Inv (g.ask t) := by
  refine ⟨fun t' a ha => ?_, fun t' e he => ?_, h.starts, fun t' e he => ?_⟩
  · rw [Guards.ask] at ha
    dsimp only at ha
    by_cases ht : t' = t
    · rw [ht, Function.update_self, Option.some.injEq] at ha
      exact ha.symm.le
    · rw [Function.update_of_ne ht] at ha
      exact h.asked t' a ha
  · obtain ⟨hle, a, ha, hasked⟩ := h.captured t' e he
    exact ⟨hle, a, ha, asked_ask hfresh hasked⟩
  · obtain ⟨a, ha, hasked⟩ := h.cuts t' e he
    exact ⟨a, ha, asked_ask hfresh hasked⟩

theorem Inv.capture (h : Inv g) {a : Nat} (ha : g.asked t = some a) : Inv (g.capture t) := by
  refine ⟨h.asked, fun t' e he => ?_, fun t' e he => List.mem_append_left _ (h.starts t' e he), h.cuts⟩
  rcases List.mem_append.1 he with he | he
  · exact h.captured t' e he
  · obtain ⟨rfl, rfl⟩ := Prod.mk.inj (List.mem_singleton.1 he)
    exact ⟨le_rfl, a, h.asked t' a ha, ha⟩

theorem Inv.start (h : Inv g) (hcaptured : (t, g.epoch) ∈ g.captured) : Inv (g.start t) := by
  refine ⟨h.asked, h.captured, fun t' e he => ?_, h.cuts⟩
  rcases List.mem_append.1 he with he | he
  · exact h.starts t' e he
  · rw [List.mem_singleton.1 he]
    exact hcaptured

theorem Inv.cut (h : Inv g) (hcaptured : (t, e) ∈ g.captured) (hne : g.epoch ≠ e) : Inv (g.cut t) := by
  refine ⟨h.asked, h.captured, h.starts, fun t' e' he => ?_⟩
  rcases List.mem_append.1 he with he | he
  · exact h.cuts t' e' he
  · obtain ⟨rfl, rfl⟩ := Prod.mk.inj (List.mem_singleton.1 he)
    obtain ⟨hle, a, ha, hasked⟩ := h.captured t' e hcaptured
    exact ⟨a, by omega, hasked⟩

theorem Prompt.ask [DecidableEq Task] (h : Prompt g) (hfresh : g.asked t = none) : Prompt (g.ask t) :=
  fun t' e he => asked_ask hfresh (h t' e he)

theorem Prompt.capture (h : Prompt g) (ht : g.asked t = some g.epoch) : Prompt (g.capture t) := by
  intro t' e he
  rcases List.mem_append.1 he with he | he
  · exact h t' e he
  · obtain ⟨rfl, rfl⟩ := Prod.mk.inj (List.mem_singleton.1 he)
    exact ht

/-- Work and cuts under a guard. -/
structure Work (t : Task) (e : Nat) (g g' : Guards Task) : Prop where
  epoch : g'.epoch = g.epoch
  asked : g'.asked = g.asked
  captured : g'.captured = g.captured
  inv : Inv g → (t, e) ∈ g.captured → Inv g'

namespace Work
variable {g' g'' : Guards Task}

theorem refl (g : Guards Task) : Work t e g g := ⟨rfl, rfl, rfl, fun h _ => h⟩

theorem start (h : g.epoch = e) : Work t e g (g.start t) := ⟨rfl, rfl, rfl, fun hinv hmem => hinv.start (h ▸ hmem)⟩

theorem cut (h : g.epoch ≠ e) : Work t e g (g.cut t) := ⟨rfl, rfl, rfl, fun hinv hmem => hinv.cut hmem h⟩

theorem trans (h : Work t e g g') (h' : Work t e g' g'') : Work t e g g'' :=
  ⟨h'.epoch.trans h.epoch, h'.asked.trans h.asked, h'.captured.trans h.captured,
    fun hinv hmem => h'.inv (h.inv hinv hmem) (h.captured ▸ hmem)⟩

theorem prompt (h : Work t e g g') (hprompt : Prompt g) : Prompt g' := by
  rw [Prompt, h.captured, h.asked]
  exact hprompt

end Work

end Guards
