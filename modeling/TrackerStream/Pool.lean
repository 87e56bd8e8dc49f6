import TrackerStream.Prog
import TrackerStream.Runs

/-!
# Operations side by side

A `Pool` is a shared state and the operations in flight on it, each a program with the acts it has done so far.
A move starts an operation or lets one of them do its next act. `moves_invariant` is the rule for what holds in
every state of every interleaving whose moves obey the `Rules`. A `Monitor` follows one task by its acts and
their answers alone.
-/

namespace Prog
variable (E : Type) (Ans : E → Type) (ε ι σ O : Type)

/-- A world, when an act has to wait, and the program of each operation. -/
structure System where
  world : World E Ans ι σ
  enabled : E → σ → Bool
  prog : O → Prog E Ans ε Unit

/-- An operation in flight: its acts so far with their answers, latest first, and the rest of its program. -/
structure Task where
  op : O
  past : List (Σ e, Ans e)
  rest : Prog E Ans ε Unit

structure Pool where
  state : σ
  tasks : List (Task E Ans ε O)

inductive Move
  | start (o : O)
  | step (i : Nat) (inp : ι)

variable {E Ans ε ι σ O}

/-- The task after its act `e` was answered `r`. -/
def Task.answered (t : Task E Ans ε O) (e : E) (r : Ans e) (k : Ans e → Prog E Ans ε Unit) : Task E Ans ε O :=
  ⟨t.op, ⟨e, r⟩ :: t.past, k r⟩

namespace Pool
variable (S : System E Ans ε ι σ O)

/-- A move. A task that has ended, or has to wait, does nothing. -/
def move (p : Pool E Ans ε σ O) : Move ι O → Pool E Ans ε σ O
  | .start o => ⟨p.state, p.tasks ++ [⟨o, [], S.prog o⟩]⟩
  | .step i inp =>
    match p.tasks[i]? with
    | some t =>
      match t.rest with
      | .act e k =>
        if S.enabled e p.state then
          ⟨(S.world e inp p.state).2, p.tasks.set i (t.answered e (S.world e inp p.state).1 k)⟩
        else p
      | _ => p
    | none => p

def moves (p : Pool E Ans ε σ O) (ms : List (Move ι O)) : Pool E Ans ε σ O := ms.foldl (move S) p

@[simp] theorem moves_nil (p : Pool E Ans ε σ O) : moves S p [] = p := rfl

/-- What is asked of the moves of an interleaving: which operations may start, and which act a task may do, both
in a state and with other tasks in flight. -/
structure Rules (E : Type) (Ans : E → Type) (ε ι σ O : Type) where
  start : σ → List (Task E Ans ε O) → O → Prop
  act : σ → List (Task E Ans ε O) → Task E Ans ε O → E → ι → Prop

/-- The move obeys the rules in the pool. -/
def Obeys (C : Rules E Ans ε ι σ O) (p : Pool E Ans ε σ O) : Move ι O → Prop
  | .start o => C.start p.state p.tasks o
  | .step i inp => ∀ l₁ t l₂ e k, p.tasks = l₁ ++ t :: l₂ → l₁.length = i → t.rest = .act e k →
      S.enabled e p.state = true → C.act p.state (l₁ ++ l₂) t e inp

/-- Every move obeys the rules in the pool it is made in. -/
def Lawful (C : Rules E Ans ε ι σ O) : Pool E Ans ε σ O → List (Move ι O) → Prop
  | _, [] => True
  | p, m :: ms => Obeys S C p m ∧ Lawful C (p.move S m) ms

variable {S} {C : Rules E Ans ε ι σ O} {p : Pool E Ans ε σ O}

/-- A move of a task is nothing, or the next act of one of them. -/
theorem move_step (i : Nat) (inp : ι) : p.move S (.step i inp) = p ∨ ∃ l₁ t l₂ e k,
    p.tasks = l₁ ++ t :: l₂ ∧ l₁.length = i ∧ t.rest = .act e k ∧ S.enabled e p.state = true ∧
      p.move S (.step i inp) =
        ⟨(S.world e inp p.state).2, l₁ ++ t.answered e (S.world e inp p.state).1 k :: l₂⟩ := by
  simp only [move]
  split
  next t h =>
    split
    next e k hrest =>
      split
      next hen =>
        obtain ⟨hi, hget⟩ := List.getElem?_eq_some_iff.1 h
        refine .inr ⟨p.tasks.take i, t, p.tasks.drop (i + 1), e, k, ?_, by simp; omega, hrest, hen, ?_⟩
        · rw [← hget, List.getElem_cons_drop, List.take_append_drop]
        · rw [List.set_eq_take_append_cons_drop, if_pos hi]
      next => exact .inl rfl
    next => exact .inl rfl
  next => exact .inl rfl

/-- The turn of a task that need not wait is its next act. -/
theorem move_of_enabled {i : Nat} {inp : ι} {t : Task E Ans ε O} {e : E} {k : Ans e → Prog E Ans ε Unit}
    (hget : p.tasks[i]? = some t) (hrest : t.rest = .act e k) (hen : S.enabled e p.state = true) :
    (p.move S (.step i inp)).tasks[i]? = some (t.answered e (S.world e inp p.state).1 k) := by
  have hlt := (List.getElem?_eq_some_iff.1 hget).1
  simp only [move, hget, hrest, hen, if_true]
  rw [List.getElem?_set_self hlt]

section
variable [∀ s ts o, Decidable (C.start s ts o)] [∀ s ts t e inp, Decidable (C.act s ts t e inp)]

variable (C) in
/-- `Obeys`, as it is computed. -/
def checks (p : Pool E Ans ε σ O) : Move ι O → Bool
  | .start o => decide (C.start p.state p.tasks o)
  | .step i inp =>
    match p.tasks[i]? with
    | some t =>
      match t.rest with
      | .act e _ => decide (C.act p.state (p.tasks.eraseIdx i) t e inp)
      | _ => true
    | none => true

theorem obeys_of_checks {m : Move ι O} (h : checks C p m = true) : Obeys S C p m := by
  cases m with
  | start o => exact (of_decide_eq_true h : C.start p.state p.tasks o)
  | step i inp =>
    rintro l₁ t l₂ e k htasks rfl hrest -
    have hget : p.tasks[l₁.length]? = some t := by
      rw [htasks, List.getElem?_append_right (Nat.le_refl _), Nat.sub_self, List.getElem?_cons_zero]
    have herase : p.tasks.eraseIdx l₁.length = l₁ ++ l₂ := by
      rw [htasks, List.eraseIdx_append_of_length_le (Nat.le_refl _), Nat.sub_self, List.eraseIdx_cons_zero]
    rw [checks, hget] at h
    simp only [hrest, herase] at h
    exact of_decide_eq_true h

theorem along_of_checks {ms : List (Move ι O)}
    (h : ((List.range ms.length).all fun k => ms[k]?.all (checks C (Runs.state (move S) p ms k))) = true) :
    Runs.Along (move S) (Obeys S C) p ms := by
  intro k m hm
  have := List.all_eq_true.1 h k (List.mem_range.2 (List.getElem?_eq_some_iff.1 hm).1)
  rw [hm, Option.all_some] at this
  exact obeys_of_checks this

end

/-- A lawful move does nothing to the state, or what one lawful act does. -/
theorem state_move {m : Move ι O} (h : Obeys S C p m) : (p.move S m).state = p.state ∨ ∃ l₁ t l₂ e k inp,
    p.tasks = l₁ ++ t :: l₂ ∧ t.rest = .act e k ∧ C.act p.state (l₁ ++ l₂) t e inp ∧
      (p.move S m).state = (S.world e inp p.state).2 := by
  cases m with
  | start o => exact .inl rfl
  | step i inp =>
    rcases move_step i inp with heq | ⟨l₁, t, l₂, e, k, htasks, hi, hrest, hen, heq⟩
    · exact .inl (by rw [heq])
    · exact .inr ⟨l₁, t, l₂, e, k, inp, htasks, hrest, h l₁ t l₂ e k htasks hi hrest hen, by rw [heq]⟩

theorem state_runs {ms : List (Move ι O)} (h : Runs.Along (move S) (Obeys S C) p ms) (k : Nat) :
    (Runs.state (move S) p ms (k + 1)).state = (Runs.state (move S) p ms k).state ∨ ∃ l₁ t l₂ e rest inp,
      (Runs.state (move S) p ms k).tasks = l₁ ++ t :: l₂ ∧ t.rest = .act e rest ∧
        C.act (Runs.state (move S) p ms k).state (l₁ ++ l₂) t e inp ∧
          (Runs.state (move S) p ms (k + 1)).state = (S.world e inp (Runs.state (move S) p ms k).state).2 := by
  cases hm : ms[k]? with
  | none =>
    have hlen := List.getElem?_eq_none_iff.1 hm
    rw [Runs.state_of_le hlen, Runs.state_of_le (Nat.le_succ_of_le hlen)]
    exact .inl rfl
  | some m =>
    rw [Runs.state_succ hm]
    exact state_move (h k m hm)

/-- What is kept by every lawful start and act is kept by every lawful move. -/
theorem move_invariant {I : σ → List (Task E Ans ε O) → Prop}
    (start : ∀ s ts o, I s ts → C.start s ts o → I s (ts ++ [⟨o, [], S.prog o⟩]))
    (act : ∀ s l₁ t l₂ e k inp, I s (l₁ ++ t :: l₂) → t.rest = .act e k → S.enabled e s = true →
      C.act s (l₁ ++ l₂) t e inp → I (S.world e inp s).2 (l₁ ++ t.answered e (S.world e inp s).1 k :: l₂))
    {m : Move ι O} (hp : I p.state p.tasks) (h : Obeys S C p m) : I (p.move S m).state (p.move S m).tasks := by
  cases m with
  | start o => exact start _ _ _ hp h
  | step i inp =>
    rcases move_step i inp with heq | ⟨l₁, t, l₂, e, k, htasks, hi, hrest, hen, heq⟩
    · rw [heq]
      exact hp
    · rw [heq]
      exact act _ _ _ _ _ _ _ (htasks ▸ hp) hrest hen (h _ _ _ _ _ htasks hi hrest hen)

/-- What every start and act keeps holds after every interleaving. -/
theorem moves_always {I : σ → List (Task E Ans ε O) → Prop}
    (start : ∀ s ts o, I s ts → I s (ts ++ [⟨o, [], S.prog o⟩]))
    (act : ∀ s l₁ t l₂ e k inp, I s (l₁ ++ t :: l₂) → t.rest = .act e k → S.enabled e s = true →
      I (S.world e inp s).2 (l₁ ++ t.answered e (S.world e inp s).1 k :: l₂))
    (ms : List (Move ι O)) (hp : I p.state p.tasks) : I (moves S p ms).state (moves S p ms).tasks := by
  induction ms generalizing p with
  | nil => exact hp
  | cons m ms ih =>
    refine ih (move_invariant (C := ⟨fun _ _ _ => True, fun _ _ _ _ _ => True⟩) (fun s ts o h _ => start s ts o h)
      (fun s l₁ t l₂ e k inp h hrest hen _ => act s l₁ t l₂ e k inp h hrest hen) hp ?_)
    cases m with
    | start o => trivial
    | step i inp => exact fun _ _ _ _ _ _ _ _ _ => trivial

/-- A task that has to wait for good stays as it is. -/
theorem moves_waiting {t : Task E Ans ε O} {i : Nat} {e : E} {k : Ans e → Prog E Ans ε Unit} (hrest : t.rest = .act e k)
    (hwait : ∀ s, S.enabled e s = false) (ms : List (Move ι O)) (hp : p.tasks[i]? = some t) :
    (moves S p ms).tasks[i]? = some t := by
  induction ms generalizing p with
  | nil => exact hp
  | cons m ms ih =>
    refine ih ?_
    cases m with
    | start o => exact List.getElem?_append_left (List.getElem?_eq_some_iff.1 hp).1 ▸ hp
    | step j inp =>
      rcases move_step j inp with heq | ⟨l₁, u, l₂, e', k', htasks, hj, hrest', hen, heq⟩
      · rw [heq]
        exact hp
      · have hne : i ≠ l₁.length := by
          rintro rfl
          rw [htasks, List.getElem?_append_right le_rfl, Nat.sub_self, List.getElem?_cons_zero] at hp
          obtain rfl := Option.some.inj hp
          rw [hrest] at hrest'
          obtain ⟨rfl, -⟩ := Prog.act.inj hrest'
          exact absurd hen (by rw [hwait]; exact Bool.false_ne_true)
        rw [heq]
        rw [htasks] at hp
        rcases Nat.lt_or_gt_of_ne hne with hlt | hgt
        · rwa [List.getElem?_append_left hlt] at hp ⊢
        · obtain ⟨d, hd⟩ : ∃ d, i - l₁.length = d + 1 := ⟨i - l₁.length - 1, by omega⟩
          rw [List.getElem?_append_right (by omega), hd, List.getElem?_cons_succ] at hp ⊢
          exact hp

section
variable {s : σ} {t : Task E Ans ε O} {e : E} {r : Ans e → Prog E Ans ε Unit} {i : ι} {ms : List (Move ι O)}

theorem move_alone (hrest : t.rest = .act e r) (hen : S.enabled e s = true) :
    move S ⟨s, [t]⟩ (.step 0 i) = ⟨(S.world e i s).2, [t.answered e (S.world e i s).1 r]⟩ := by
  simp only [move, List.getElem?_cons_zero, hrest, hen, if_true, List.set_cons_zero]

theorem state_alone {n : Nat} (hrest : t.rest = .act e r) (hen : S.enabled e s = true) :
    Runs.state (move S) ⟨s, [t]⟩ (.step 0 i :: ms) (n + 1) =
      Runs.state (move S) ⟨(S.world e i s).2, [t.answered e (S.world e i s).1 r]⟩ ms n := by
  rw [Runs.state_cons, move_alone hrest hen]

/-- The next move of a task alone. -/
theorem along_alone (hrest : t.rest = .act e r) (hen : S.enabled e s = true) (hact : C.act s [] t e i)
    (h : Runs.Along (move S) (Obeys S C) ⟨(S.world e i s).2, [t.answered e (S.world e i s).1 r]⟩ ms) :
    Runs.Along (move S) (Obeys S C) ⟨s, [t]⟩ (.step 0 i :: ms) := by
  refine Runs.along_cons ?_ (move_alone hrest hen ▸ h)
  intro l₁ u l₂ e' k' htasks hlen hrest' _
  obtain rfl := List.length_eq_zero_iff.1 hlen
  obtain ⟨rfl, rfl⟩ := List.cons.inj htasks
  rw [hrest] at hrest'
  obtain ⟨rfl, -⟩ := Prog.act.inj hrest'
  exact hact

end

end Pool

/-! ### Following one task -/

/-- What is remembered of a task by its acts and their answers: where it starts, how it goes on, which acts are
in order, and which answers are looked for. -/
structure Monitor (E : Type) (Ans : E → Type) (O Q : Type) where
  init : O → Q
  track : Q → (e : E) → Ans e → Q
  legal : Q → E → Prop
  allow : (e : E) → Ans e → Prop

namespace Monitor
variable {Q α : Type} (M : Monitor E Ans O Q)

def contract : Contract E Ans Q where
  pre e q := M.legal q e
  post e q r q' := M.allow e r ∧ q' = M.track q e r

/-- The program does only legal acts from `q` on, and ends as `F` says. -/
def Follows (F : Q → Prop) (p : Prog E Ans ε α) (q : Q) : Prop :=
  wp M.contract p (fun _ => F) (fun _ => F) q

/-- What is remembered of a task. -/
def view (t : Task E Ans ε O) : Q := t.past.foldr (fun x q => M.track q x.1 x.2) (M.init t.op)

variable {M} {F : Q → Prop} {t : Task E Ans ε O} {e : E} {k : Ans e → Prog E Ans ε Unit} {r : Ans e}

@[simp] theorem view_start (o : O) (p : Prog E Ans ε Unit) : M.view ⟨o, [], p⟩ = M.init o := rfl

@[simp] theorem view_answered : M.view (t.answered e r k) = M.track (M.view t) e r := rfl

@[simp] theorem rest_answered : (t.answered e r k).rest = k r := rfl

@[simp] theorem op_answered : (t.answered e r k).op = t.op := rfl

theorem legal_of_follows (h : M.Follows F t.rest (M.view t)) (hrest : t.rest = .act e k) : M.legal (M.view t) e := by
  rw [Follows, hrest] at h
  exact h.1

/-- A task that follows the monitor does so after its next act. -/
theorem follows_answered (h : M.Follows F t.rest (M.view t)) (hrest : t.rest = .act e k) (hr : M.allow e r) :
    M.Follows F (t.answered e r k).rest (M.view (t.answered e r k)) := by
  rw [Follows, hrest] at h
  exact h.2 r _ ⟨hr, rfl⟩

/-- A program whose acts are all legal at `q` and leave it as it is. -/
theorem follows_of_only {P : E → Prop} {p : Prog E Ans ε α} {q : Q} (hp : p.Only P)
    (h : ∀ e, P e → M.legal q e ∧ ∀ r, M.track q e r = q) (hF : F q) : M.Follows F p q := by
  induction p with
  | ret a => exact hF
  | fail x => exact hF
  | act e k ih =>
    refine ⟨(h e hp.1).1, ?_⟩
    rintro r _ ⟨-, rfl⟩
    rw [(h e hp.1).2 r]
    exact ih r (hp.2 r)

/-- From what is remembered in `F` the program follows the monitor and ends in `F`. -/
def Rounds (M : Monitor E Ans O Q) (F : Q → Prop) (p : Prog E Ans ε α) : Prop := ∀ q, F q → M.Follows F p q

section
variable {β γ : Type} {p : Prog E Ans ε β} {f : β → Prog E Ans ε α}

theorem Rounds.pure (a : α) : M.Rounds F (Pure.pure a : Prog E Ans ε α) := fun _ h => h

theorem Rounds.fail (x : ε) : M.Rounds F (Prog.fail x : Prog E Ans ε α) := fun _ h => h

theorem Rounds.ofExcept (x : Except ε α) : M.Rounds F (Prog.ofExcept x : Prog E Ans ε α) := by
  cases x <;> exact fun _ h => h

theorem Rounds.bind (hp : M.Rounds F p) (hf : ∀ b, M.Rounds F (f b)) : M.Rounds F (p >>= f) := fun q hq =>
  (wp_bind _ _).2 (wp_mono _ (hp q hq) (fun b q hq => hf b q hq) fun _ _ h => h)

theorem Rounds.attempt (hp : M.Rounds F p) : M.Rounds F p.attempt := fun q hq => (wp_attempt _).2 (hp q hq)

theorem Rounds.foldlM {f : γ → β → Prog E Ans ε γ} (hf : ∀ c x, M.Rounds F (f c x)) {xs : List β} {c : γ} :
    M.Rounds F (xs.foldlM f c) := fun _ hq => wp_foldlM (fun _ => F) (fun x _ c q h => hf c x q h) hq

theorem Rounds.of_only {P : E → Prop} (hp : p.Only P) (h : ∀ e, P e → ∀ q, M.legal q e ∧ ∀ r, M.track q e r = q) :
    M.Rounds F p := fun q hq => follows_of_only hp (fun e he => h e he q) hq

end

/-- Each task follows the monitor, and `J` holds of what is remembered of those in flight. -/
def Watched (M : Monitor E Ans O Q) (J : σ → Q → Prop) (s : σ) (ts : List (Task E Ans ε O)) : Prop :=
  ∀ t ∈ ts, M.Follows (fun _ => True) t.rest (M.view t) ∧ (t.rest.ended = false → J s (M.view t))

variable {J : σ → Q → Prop} {s s' : σ} {l₁ l₂ ts : List (Task E Ans ε O)}

theorem Watched.start {o : O} {p : Prog E Ans ε Unit} (h : M.Watched J s ts)
    (hp : M.Follows (fun _ => True) p (M.init o)) (hJ : J s (M.init o)) : M.Watched J s (ts ++ [⟨o, [], p⟩]) := by
  intro t ht
  rcases List.mem_append.1 ht with ht | ht
  · exact h t ht
  · obtain rfl := List.mem_singleton.1 ht
    exact ⟨hp, fun _ => hJ⟩

/-- What is remembered of the task that acts goes on with the act, and of the others in flight it stays true. -/
theorem Watched.act (h : M.Watched J s (l₁ ++ t :: l₂)) (hrest : t.rest = .act e k) (hr : M.allow e r)
    (own : M.legal (M.view t) e → J s (M.view t) → J s' (M.track (M.view t) e r))
    (others : M.legal (M.view t) e → J s (M.view t) → ∀ u ∈ l₁ ++ l₂, u.rest.ended = false → J s (M.view u) → J s' (M.view u)) :
    M.Watched J s' (l₁ ++ t.answered e r k :: l₂) := by
  obtain ⟨hfollows, hJ⟩ := h t (by simp)
  have hlegal := legal_of_follows hfollows hrest
  have hJt := hJ (by rw [hrest]; rfl)
  intro u hu
  rcases List.mem_append.1 hu with hu | hu
  · obtain ⟨hf, hJu⟩ := h u (by simp [hu])
    exact ⟨hf, fun hen => others hlegal hJt u (by simp [hu]) hen (hJu hen)⟩
  rcases List.mem_cons.1 hu with rfl | hu
  · exact ⟨follows_answered hfollows hrest hr, fun _ => own hlegal hJt⟩
  · obtain ⟨hf, hJu⟩ := h u (by simp [hu])
    exact ⟨hf, fun hen => others hlegal hJt u (by simp [hu]) hen (hJu hen)⟩

end Monitor
end Prog
