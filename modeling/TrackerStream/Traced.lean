import Mathlib

/-!
# Computations that leave a trace

A computation that may fail and that has done some acts by the time it ends, whichever way it does. The rules
go from the parts of a sequence to the whole: what a success says about the parts (`bind_ok`), what holds of
every act (`All`), and what holds of every act of a run that succeeds (`Sound`).
-/

universe u

structure Traced (ω ε : Type*) (α : Type u) where
  trace : List ω
  result : Except ε α

namespace Traced
variable {ω ε : Type*} {α β : Type u}

/-- One act. -/
def act (w : ω) : Traced ω ε PUnit := ⟨[w], .ok ⟨⟩⟩

/-- A step that is not seen. -/
def lift (x : Except ε α) : Traced ω ε α := ⟨[], x⟩

/-- A step that is seen, with whether it went well. -/
def log (w : Bool → ω) (x : Except ε α) : Traced ω ε α := ⟨[w x.isOk], x⟩

protected def bind (x : Traced ω ε α) (f : α → Traced ω ε β) : Traced ω ε β :=
  match x.result with
  | .ok a => ⟨x.trace ++ (f a).trace, (f a).result⟩
  | .error e => ⟨x.trace, .error e⟩

instance : Monad (Traced ω ε) where
  pure a := ⟨[], .ok a⟩
  bind := Traced.bind

/-- A failure that is dealt with; what was done stays done. -/
def caught (x : Traced ω ε PUnit) : Traced ω ε PUnit := ⟨x.trace, .ok ⟨⟩⟩

/-- `f` on each element, up to the first failure. -/
def each (f : α → Traced ω ε PUnit) : List α → Traced ω ε PUnit
  | [] => pure ⟨⟩
  | x :: xs => do
    f x
    each f xs

theorem bind_of_ok {x : Traced ω ε α} {a : α} (h : x.result = .ok a) (f : α → Traced ω ε β) :
    x >>= f = ⟨x.trace ++ (f a).trace, (f a).result⟩ := by
  show Traced.bind x f = _
  rw [Traced.bind, h]

theorem bind_of_error {x : Traced ω ε α} {e : ε} (h : x.result = .error e) (f : α → Traced ω ε β) :
    x >>= f = ⟨x.trace, .error e⟩ := by
  show Traced.bind x f = _
  rw [Traced.bind, h]

/-- A sequence that succeeds has gone through both its parts. -/
theorem bind_ok {x : Traced ω ε α} {f : α → Traced ω ε β} {b : β} (h : (x >>= f).result = .ok b) :
    ∃ a, x.result = .ok a ∧ (f a).result = .ok b ∧ (x >>= f).trace = x.trace ++ (f a).trace := by
  cases hx : x.result with
  | error e => rw [bind_of_error hx] at h; cases h
  | ok a =>
    rw [bind_of_ok hx] at h ⊢
    exact ⟨a, rfl, h, rfl⟩

/-- What the first part of a sequence has done stays done. -/
theorem mem_bind {x : Traced ω ε α} {w : ω} (h : w ∈ x.trace) (f : α → Traced ω ε β) : w ∈ (x >>= f).trace := by
  cases hx : x.result with
  | error e => rwa [bind_of_error hx]
  | ok a =>
    rw [bind_of_ok hx]
    exact List.mem_append_left _ h

@[simp] theorem pure_bind (a : α) (f : α → Traced ω ε β) : (pure a : Traced ω ε α) >>= f = f a := rfl

@[simp] theorem act_bind (w : ω) (f : PUnit → Traced ω ε β) :
    act w >>= f = ⟨w :: (f ⟨⟩).trace, (f ⟨⟩).result⟩ := rfl

@[simp] theorem lift_ok_bind (a : α) (f : α → Traced ω ε β) : (lift (.ok a) : Traced ω ε α) >>= f = f a := rfl

theorem log_ok_bind (w : Bool → ω) (a : α) (f : α → Traced ω ε β) :
    log w (.ok a) >>= f = ⟨w true :: (f a).trace, (f a).result⟩ := rfl

/-- Where no failure was seen, a step that is seen has gone well. -/
theorem log_bind_of_not_mem {w : Bool → ω} {x : Except ε α} {f : α → Traced ω ε β}
    (h : w false ∉ (log w x >>= f).trace) :
    ∃ a, x = .ok a ∧ log w x >>= f = ⟨w true :: (f a).trace, (f a).result⟩ := by
  cases x with
  | ok a => exact ⟨a, rfl, rfl⟩
  | error e => exact absurd (List.mem_singleton.2 rfl) h

theorem each_ok {f : α → Traced ω ε PUnit} {xs : List α} {b : PUnit} (h : (each f xs).result = .ok b) :
    (∀ x ∈ xs, (f x).result = .ok ⟨⟩) ∧ (each f xs).trace = xs.flatMap fun x => (f x).trace := by
  induction xs with
  | nil => exact ⟨by simp, rfl⟩
  | cons x xs ih =>
    obtain ⟨⟨⟩, hx, hxs, htrace⟩ := bind_ok h
    obtain ⟨hall, hrest⟩ := ih hxs
    refine ⟨fun y hy => ?_, ?_⟩
    · rcases List.mem_cons.1 hy with rfl | hy
      · exact hx
      · exact hall y hy
    · rw [List.flatMap_cons, ← hrest]
      exact htrace

theorem each_of_ok {f : α → Traced ω ε PUnit} {xs : List α} (h : ∀ x ∈ xs, (f x).result = .ok ⟨⟩) :
    each f xs = ⟨xs.flatMap fun x => (f x).trace, .ok ⟨⟩⟩ := by
  induction xs with
  | nil => rfl
  | cons x xs ih =>
    rw [each, bind_of_ok (h x (by simp)), ih fun y hy => h y (by simp [hy]), List.flatMap_cons]

/-! ### What holds of every act -/

def All (p : ω → Prop) (x : Traced ω ε α) : Prop := ∀ w ∈ x.trace, p w

/-- The acts of a run that succeeds. -/
def Sound (p : ω → Prop) (x : Traced ω ε α) : Prop := ∀ a, x.result = .ok a → ∀ w ∈ x.trace, p w

section Rules
variable {p : ω → Prop}

theorem All.bind {x : Traced ω ε α} {f : α → Traced ω ε β} (hx : x.All p) (hf : ∀ a, (f a).All p) : (x >>= f).All p := by
  intro w hw
  cases hr : x.result with
  | error e =>
    rw [bind_of_error hr] at hw
    exact hx w hw
  | ok a =>
    rw [bind_of_ok hr] at hw
    exact (List.mem_append.1 hw).elim (hx w) (hf a w)

theorem All.pure (a : α) : (pure a : Traced ω ε α).All p := by
  intro w hw
  cases hw

theorem All.act {w : ω} (h : p w) : (act w : Traced ω ε PUnit).All p := fun _ hw => List.mem_singleton.1 hw ▸ h

theorem All.lift (x : Except ε α) : (lift x : Traced ω ε α).All p := by
  intro w hw
  cases hw

theorem All.log {w : Bool → ω} (h : ∀ ok, p (w ok)) (x : Except ε α) : (log w x).All p :=
  fun _ hw => List.mem_singleton.1 hw ▸ h _

theorem All.each {f : α → Traced ω ε PUnit} (h : ∀ a, (f a).All p) (xs : List α) : (each f xs).All p := by
  induction xs with
  | nil => exact .pure _
  | cons x xs ih => exact .bind (h x) fun _ => ih

theorem All.sound {x : Traced ω ε α} (h : x.All p) : x.Sound p := fun _ _ => h

theorem Sound.bind {x : Traced ω ε α} {f : α → Traced ω ε β} (hx : x.Sound p) (hf : ∀ a, (f a).Sound p) :
    (x >>= f).Sound p := by
  intro b hb w hw
  obtain ⟨a, ha, hfa, htrace⟩ := bind_ok hb
  rw [htrace] at hw
  exact (List.mem_append.1 hw).elim (hx a ha w) (hf a b hfa w)

theorem Sound.log {w : Bool → ω} (h : p (w true)) (x : Except ε α) : (log w x).Sound p := by
  rintro a (rfl : x = .ok a)
  exact fun _ hw => List.mem_singleton.1 hw ▸ h

theorem Sound.each {f : α → Traced ω ε PUnit} (h : ∀ a, (f a).Sound p) (xs : List α) : (each f xs).Sound p := by
  induction xs with
  | nil => exact (All.pure _).sound
  | cons x xs ih => exact .bind (h x) fun _ => ih

end Rules

end Traced
