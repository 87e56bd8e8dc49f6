import TrackerStream.Pool

/-!
# Programs among others

Rely and guarantee for operations side by side. `Terms` is what every state keeps, what an operation bears of the
others between two of its acts, and what it promises of each of its own. A program that keeps its promises under
`among` does so wherever the others act in between; where the promises of each are what the rest bear,
`Pool.among_always` is the rule for every interleaving.
-/

namespace Prog
variable {E : Type} {Ans : E → Type} {ε ι σ O α β γ : Type}

structure Terms (σ O : Type) where
  inv : σ → Prop
  /-- What the others may do between two acts. -/
  rely : O → σ → σ → Prop
  /-- What an act does. -/
  guar : O → σ → σ → Prop
  refl : ∀ o s, rely o s s
  trans : ∀ {o s s' s''}, rely o s s' → rely o s' s'' → rely o s s''

/-- Whatever the others do before it, an act keeps the invariant and the promise. -/
def among (W : World E Ans ι σ) (T : Terms σ O) (o : O) : Contract E Ans σ where
  pre e s := ∀ s', T.rely o s s' → T.inv s' → ∀ i, T.inv (W e i s').2 ∧ T.guar o s' (W e i s').2
  post e s r s'' := ∃ s' i, T.rely o s s' ∧ T.inv s' ∧ W e i s' = (r, s'')

section
variable {W : World E Ans ι σ} {T : Terms σ O} {o : O} {Q : α → σ → Prop} {R : ε → σ → Prop} {s s' : σ}
  {e : E} {k : Ans e → Prog E Ans ε α} {p : Prog E Ans ε α}

theorem wp_act_among : wp (among W T o) (act e k) Q R s ↔ ∀ s', T.rely o s s' → T.inv s' → ∀ i,
    T.inv (W e i s').2 ∧ T.guar o s' (W e i s').2 ∧ wp (among W T o) (k (W e i s').1) Q R (W e i s').2 := by
  constructor
  · intro h s' hs hinv i
    obtain ⟨hkeeps, hguar⟩ := h.1 s' hs hinv i
    exact ⟨hkeeps, hguar, h.2 _ _ ⟨s', i, hs, hinv, rfl⟩⟩
  · intro h
    refine ⟨fun s' hs hinv i => ⟨(h s' hs hinv i).1, (h s' hs hinv i).2.1⟩, ?_⟩
    rintro r s'' ⟨s', i, hs, hinv, heq⟩
    have := (h s' hs hinv i).2.2
    rwa [heq] at this

/-- The program keeps the terms of `o` to its end. -/
def Keeps (W : World E Ans ι σ) (T : Terms σ O) (o : O) (p : Prog E Ans ε α) (s : σ) : Prop :=
  wp (among W T o) p (fun _ _ => True) (fun _ _ => True) s

theorem keeps_of_wp (h : wp (among W T o) p Q R s) : Keeps W T o p s :=
  wp_mono p h (fun _ _ _ => trivial) fun _ _ _ => trivial

theorem keeps_of_ended (h : p.ended = true) : Keeps W T o p s := by
  cases p with
  | ret a => trivial
  | fail x => trivial
  | act e k => cases h

theorem keeps_act : Keeps W T o (act e k) s ↔ ∀ s', T.rely o s s' → T.inv s' → ∀ i,
    T.inv (W e i s').2 ∧ T.guar o s' (W e i s').2 ∧ Keeps W T o (k (W e i s').1) (W e i s').2 := wp_act_among

/-- What the others may do leaves a program as it was proved. -/
theorem Keeps.rely (h : Keeps W T o p s) (hs : T.rely o s s') : Keeps W T o p s' := by
  cases p with
  | ret a => trivial
  | fail x => trivial
  | act e k => exact keeps_act.2 fun s'' hs' hinv i => keeps_act.1 h s'' (T.trans hs hs') hinv i

end

namespace Pool
variable {S : System E Ans ε ι σ O} {T : Terms σ O} {apart : O → O → Prop} {C : Rules E Ans ε ι σ O}

/-- Each operation keeps its terms, and those in flight get along. -/
structure Settled (S : System E Ans ε ι σ O) (T : Terms σ O) (apart : O → O → Prop) (s : σ)
    (ts : List (Task E Ans ε O)) : Prop where
  inv : T.inv s
  keeps : ∀ t ∈ ts, Keeps S.world T t.op t.rest s
  apart : ts.Pairwise fun t u => t.rest.ended = false → u.rest.ended = false → apart t.op u.op

variable {s : σ} {ts l₁ l₂ : List (Task E Ans ε O)} {t : Task E Ans ε O} {e : E} {k : Ans e → Prog E Ans ε Unit}

theorem Settled.start {o : O} (h : Settled S T apart s ts) (hprog : Keeps S.world T o (S.prog o) s)
    (hapart : ∀ t ∈ ts, t.rest.ended = false → apart t.op o) : Settled S T apart s (ts ++ [⟨o, [], S.prog o⟩]) := by
  refine ⟨h.inv, fun t ht => ?_, ?_⟩
  · rcases List.mem_append.1 ht with ht | ht
    · exact h.keeps t ht
    · obtain rfl := List.mem_singleton.1 ht
      exact hprog
  · rw [List.pairwise_append]
    refine ⟨h.apart, List.pairwise_singleton _ _, fun t ht u hu hlive _ => ?_⟩
    obtain rfl := List.mem_singleton.1 hu
    exact hapart t ht hlive

/-- Where getting along is symmetric, the task in the middle may as well be the first. -/
theorem pairwise_task (hsymm : ∀ o o', apart o o' → apart o' o) :
    ((l₁ ++ t :: l₂).Pairwise fun t u => t.rest.ended = false → u.rest.ended = false → apart t.op u.op) ↔
      (t :: (l₁ ++ l₂)).Pairwise fun t u => t.rest.ended = false → u.rest.ended = false → apart t.op u.op :=
  List.pairwise_middle fun hr hy hx => hsymm _ _ (hr hx hy)

/-- Of the tasks in flight, one gets along with every other. -/
theorem Settled.others (h : Settled S T apart s (l₁ ++ t :: l₂)) (hsymm : ∀ o o', apart o o' → apart o' o)
    (ht : t.rest.ended = false) {u : Task E Ans ε O} (hu : u ∈ l₁ ++ l₂) (hlive : u.rest.ended = false) :
    apart t.op u.op :=
  (List.pairwise_cons.1 ((pairwise_task hsymm).1 h.apart)).1 u hu ht hlive

theorem Settled.act (h : Settled S T apart s (l₁ ++ t :: l₂)) (hrest : t.rest = .act e k)
    (hsymm : ∀ o o', apart o o' → apart o' o)
    (hbears : ∀ o o' s s', apart o o' → T.inv s → T.guar o s s' → T.rely o' s s') (i : ι) :
    Settled S T apart (S.world e i s).2 (l₁ ++ t.answered e (S.world e i s).1 k :: l₂) := by
  have ht : t.rest.ended = false := by rw [hrest]; rfl
  have hkeeps := h.keeps t (by simp)
  rw [hrest] at hkeeps
  obtain ⟨hinv, hguar, hnext⟩ := keeps_act.1 hkeeps s (T.refl _ s) h.inv i
  have hother : ∀ u ∈ l₁ ++ l₂, Keeps S.world T u.op u.rest (S.world e i s).2 := by
    intro u hu
    cases hlive : u.rest.ended with
    | true => exact keeps_of_ended hlive
    | false =>
      have hu' : u ∈ l₁ ++ t :: l₂ := by
        rcases List.mem_append.1 hu with hu | hu <;> simp [hu]
      exact (h.keeps u hu').rely (hbears _ _ _ _ (h.others hsymm ht hu hlive) h.inv hguar)
  refine ⟨hinv, fun u hu => ?_, ?_⟩
  · rcases List.mem_append.1 hu with hu | hu
    · exact hother u (List.mem_append_left _ hu)
    rcases List.mem_cons.1 hu with rfl | hu
    · exact hnext
    · exact hother u (List.mem_append_right _ hu)
  · obtain ⟨hfirst, hothers⟩ := List.pairwise_cons.1 ((pairwise_task hsymm).1 h.apart)
    exact (pairwise_task hsymm).2 (List.pairwise_cons.2 ⟨fun u hu _ hlive => hfirst u hu ht hlive, hothers⟩)

end Pool
end Prog
