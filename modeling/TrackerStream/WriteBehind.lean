import Mathlib

/-!
# A copy that lags behind

A map is changed at once and its copy later, by writes that may come in another order or fail. `Lags` is what holds
as long as no write overtakes another one of its key, and only those fail that changed nothing: the copy with the
writes still to come is the map.
-/

namespace WriteBehind
variable {K V : Type*}

/-- A write of the copy: what the map got, and what it had before. -/
structure Write (K V : Type*) where
  key : K
  value : Option V
  found : Option V

variable [DecidableEq K]

/-- The copy with the writes to come, in the order the map was changed in. -/
def applied (copy : K → Option V) (ws : List (Write K V)) : K → Option V :=
  ws.foldl (fun m w => Function.update m w.key w.value) copy

/-- A write that changed nothing in the map changes nothing when its turn comes. -/
def Idles (copy : K → Option V) : List (Write K V) → Prop
  | [] => True
  | w :: ws => (w.value = w.found → copy w.key = w.value) ∧ Idles (Function.update copy w.key w.value) ws

structure Lags (map copy : K → Option V) (ws : List (Write K V)) : Prop where
  applied : applied copy ws = map
  idles : Idles copy ws

variable {map copy : K → Option V} {w : Write K V} {ws ws' : List (Write K V)} {k : K} {v : Option V}

@[simp] theorem applied_cons : applied copy (w :: ws) = applied (Function.update copy w.key w.value) ws := rfl

theorem applied_append : applied copy (ws ++ ws') = applied (applied copy ws) ws' := List.foldl_append

theorem idles_append : Idles copy (ws ++ ws') ↔ Idles copy ws ∧ Idles (applied copy ws) ws' := by
  induction ws generalizing copy with
  | nil => simp [Idles, applied]
  | cons w ws ih =>
    rw [List.cons_append, Idles, Idles, ih, and_assoc]
    rfl

/-- A write commutes with those before it that give its key the same value. -/
theorem applied_update (h : ∀ y ∈ ws, y.key = w.key → y.value = w.value) :
    applied (Function.update copy w.key w.value) ws = Function.update (applied copy ws) w.key w.value := by
  induction ws generalizing copy with
  | nil => rfl
  | cons y ws ih =>
    have hrest : applied (Function.update (Function.update copy y.key y.value) w.key w.value) ws = _ :=
      ih fun z hz => h z (List.mem_cons_of_mem _ hz)
    rw [applied_cons, applied_cons]
    by_cases hkey : y.key = w.key
    · have hvalue := h y List.mem_cons_self hkey
      rw [hkey, hvalue] at hrest
      rw [hkey, hvalue, hrest]
    · rw [Function.update_comm (Ne.symm hkey), hrest]

theorem idles_update (h : ∀ y ∈ ws, y.key = w.key → y.value = w.value) (hidles : Idles copy ws) :
    Idles (Function.update copy w.key w.value) ws := by
  induction ws generalizing copy with
  | nil => trivial
  | cons y ws ih =>
    obtain ⟨hy, hws⟩ := hidles
    have hrest := ih (fun z hz => h z (List.mem_cons_of_mem _ hz)) hws
    by_cases hkey : y.key = w.key
    · have hvalue := h y List.mem_cons_self hkey
      refine ⟨fun _ => ?_, ?_⟩
      · rw [hkey, Function.update_self, hvalue]
      · rw [hkey, hvalue] at hrest ⊢
        exact hrest
    · refine ⟨fun hidle => ?_, ?_⟩
      · rw [Function.update_of_ne hkey]
        exact hy hidle
      · rw [Function.update_comm (Ne.symm hkey)]
        exact hrest

namespace Lags

theorem refl (map : K → Option V) : Lags map map [] := ⟨rfl, trivial⟩

theorem settled (h : Lags map copy []) : map = copy := h.applied.symm

/-- The map is changed. -/
theorem begin (h : Lags map copy ws) : Lags (Function.update map k v) copy (ws ++ [⟨k, v, map k⟩]) := by
  refine ⟨?_, idles_append.2 ⟨h.idles, fun hidle => ?_, trivial⟩⟩
  · rw [applied_append, h.applied]
    rfl
  · rw [h.applied]
    exact hidle.symm

/-- A write is done that overtakes no other one of its key. -/
theorem finish (h : Lags map copy (ws ++ w :: ws')) (hw : ∀ y ∈ ws, y.key = w.key → y.value = w.value) :
    Lags map (Function.update copy w.key w.value) (ws ++ ws') := by
  obtain ⟨hws, -, hws'⟩ := idles_append.1 h.idles
  refine ⟨?_, idles_append.2 ⟨idles_update hw hws, ?_⟩⟩
  · rw [applied_append, applied_update hw, ← h.applied, applied_append]
    rfl
  · rw [applied_update hw]
    exact hws'

/-- A write that changed nothing fails. -/
theorem fail (h : Lags map copy (ws ++ w :: ws')) (hw : w.value = w.found) : Lags map copy (ws ++ ws') := by
  obtain ⟨hws, hidle, hws'⟩ := idles_append.1 h.idles
  have hsame : Function.update (WriteBehind.applied copy ws) w.key w.value = WriteBehind.applied copy ws := by
    rw [← hidle hw, Function.update_eq_self]
  refine ⟨?_, idles_append.2 ⟨hws, ?_⟩⟩
  · rw [← h.applied, applied_append, applied_append, applied_cons, hsame]
  · rw [hsame] at hws'
    exact hws'

end Lags

end WriteBehind
