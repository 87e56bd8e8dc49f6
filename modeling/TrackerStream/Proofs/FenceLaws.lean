import TrackerStream.Floors
import TrackerStream.Proofs.StreamReady

/-!
# One requirement

What must be resident at an order is what the window of the order lists (`Plan.Requires`), for the fence, the desktop and the
bake alike. Pruning keeps of it what is streamed; the fence lets nothing else in, over whole histories of calls; and
the seconds that can be played end where the requirement is first not met.
-/

namespace TrackerStream

/-- The floor of `order` or the checkpoint behind it lists the slot. -/
def Plan.Requires (p : Plan) (order s : Nat) : Prop :=
  ∃ cp ∈ Floors.window Checkpoint.order (sortByOrder p.checkpoints) order, s ∈ cp.samples

/-! ### The window of a sorted list -/

section Sorted
variable {cps : List Checkpoint} {order : Nat}

theorem filter_le_eq_take (h : SortedByOrder cps) :
    (cps.filter fun cp => cp.order ≤ order) = cps.take (countLe cps order) := by
  induction cps with
  | nil => rfl
  | cons cp cps ih =>
    obtain ⟨hle, htail⟩ := List.pairwise_cons.1 h
    rw [countLe_cons]
    by_cases hcp : cp.order ≤ order
    · rw [List.filter_cons_of_pos (by simpa using hcp), if_pos hcp, List.take_succ_cons, ih htail]
    · have hnone : ∀ b ∈ cps, order < b.order := fun b hb => Nat.lt_of_lt_of_le (Nat.lt_of_not_le hcp) (hle b hb)
      rw [List.filter_cons_of_neg (by simpa using hcp), if_neg hcp, countLe_eq_zero hnone, List.take_zero,
        List.filter_eq_nil_iff]
      intro b hb
      have := hnone b hb
      simp only [decide_eq_true_eq]
      omega

theorem filter_lt_eq_drop (h : SortedByOrder cps) :
    (cps.filter fun cp => order < cp.order) = cps.drop (countLe cps order) := by
  induction cps with
  | nil => rfl
  | cons cp cps ih =>
    obtain ⟨hle, htail⟩ := List.pairwise_cons.1 h
    rw [countLe_cons]
    by_cases hcp : cp.order ≤ order
    · rw [List.filter_cons_of_neg (by simpa using hcp), if_pos hcp, List.drop_succ_cons, ih htail]
    · have hall : ∀ b ∈ cps, order < b.order := fun b hb => Nat.lt_of_lt_of_le (Nat.lt_of_not_le hcp) (hle b hb)
      rw [List.filter_cons_of_pos (by simpa using hcp), if_neg hcp, countLe_eq_zero hall, List.drop_zero,
        List.filter_eq_self.2]
      intro b hb
      simpa using hall b hb

theorem mem_window_sorted (h : SortedByOrder cps) {cp : Checkpoint} :
    cp ∈ Floors.window Checkpoint.order cps order ↔
      ∃ k : Nat, cps[k]? = some cp ∧ countLe cps order ≤ k + 1 ∧ k ≤ countLe cps order := by
  have hlen := countLe_le_length cps order
  rw [Floors.mem_window, filter_le_eq_take h, filter_lt_eq_drop h, List.head?_drop]
  constructor
  · rintro (hlast | hnext)
    · rw [List.getLast?_eq_getElem?, List.length_take, Nat.min_eq_left hlen, List.getElem?_take] at hlast
      split_ifs at hlast with hlt
      exact ⟨_, hlast, by omega, by omega⟩
    · exact ⟨_, hnext, by omega, by omega⟩
  · rintro ⟨k, hk, hge, hle⟩
    rcases Nat.eq_or_lt_of_le hle with rfl | hlt
    · exact .inr hk
    · left
      rw [List.getLast?_eq_getElem?, List.length_take, Nat.min_eq_left hlen, List.getElem?_take, if_pos (by omega)]
      obtain rfl : k = countLe cps order - 1 := by omega
      exact hk

end Sorted

section Required
variable {p : Plan} {order s : Nat}

theorem requires_iff : p.Requires order s ↔ ∃ (k : Nat) (cp : Checkpoint), (sortByOrder p.checkpoints)[k]? = some cp ∧
    countLe (sortByOrder p.checkpoints) order ≤ k + 1 ∧ k ≤ countLe (sortByOrder p.checkpoints) order ∧ s ∈ cp.samples := by
  simp only [Plan.Requires, mem_window_sorted (sortedByOrder_sortByOrder _)]
  constructor
  · rintro ⟨cp, ⟨k, hk, hge, hle⟩, hs⟩
    exact ⟨k, cp, hk, hge, hle, hs⟩
  · rintro ⟨k, cp, hk, hge, hle, hs⟩
    exact ⟨cp, ⟨k, hk, hge, hle⟩, hs⟩

theorem Fence.mem_requiredAt_window {f : Fence} :
    s ∈ f.requiredAt order ↔ ∃ cp ∈ Floors.window Checkpoint.order f.cps order, s ∈ cp.samples := by
  simp only [mem_requiredAt, mem_window_sorted f.sorted]
  constructor
  · rintro ⟨k, cp, hk, hge, hle, hs⟩
    exact ⟨cp, ⟨k, hk, hge, hle⟩, hs⟩
  · rintro ⟨cp, ⟨k, hk, hge, hle⟩, hs⟩
    exact ⟨k, cp, hk, hge, hle, hs⟩

theorem mem_fence_requiredAt {lookahead : Nat} : s ∈ (Fence.new p lookahead).requiredAt order ↔ p.Requires order s :=
  Fence.mem_requiredAt_window

/-- The two clamped ranges of the desktop and of the bake. -/
theorem mem_unionRange_floor : (sortByOrder p.checkpoints ≠ [] ∧ s ∈ unionRange (sortByOrder p.checkpoints)
      (max (lastIdx (fun cp => cp.order ≤ order) (sortByOrder p.checkpoints)) 0)
      (min (max (lastIdx (fun cp => cp.order ≤ order) (sortByOrder p.checkpoints) + 1) 0)
        ((sortByOrder p.checkpoints).length - 1))) ↔
    p.Requires order s := by
  rw [requires_iff, mem_unionRange, lastIdx_eq (sortedByOrder_sortByOrder _)]
  constructor
  · rintro ⟨-, k, cp, hk, hge, hle, hs⟩
    exact ⟨k, cp, hk, by omega, by omega, hs⟩
  · rintro ⟨k, cp, hk, hge, hle, hs⟩
    obtain ⟨hlt, -⟩ := List.getElem?_eq_some_iff.1 hk
    exact ⟨List.ne_nil_of_length_pos (by omega), k, cp, hk, by omega, by omega, hs⟩

theorem mem_required_at : s ∈ Ipfs.required_at p order ↔ p.Requires order s := by
  rw [← mem_unionRange_floor, Ipfs.required_at]
  split
  · simp_all
  · simp_all [mem_sortedSet]

theorem mem_requiredAtZero : s ∈ requiredAtZero p ↔ p.Requires 0 s := by
  rw [← mem_unionRange_floor, requiredAtZero]
  split <;> simp_all

/-- The fence, the desktop and the bake require the same. -/
theorem required_agree (p : Plan) (order : Nat) :
    (∀ s, s ∈ (Fence.new p).requiredAt order ↔ s ∈ Ipfs.required_at p order) ∧
      ∀ s, s ∈ requiredAtZero p ↔ s ∈ Ipfs.required_at p 0 :=
  ⟨fun _ => mem_fence_requiredAt.trans mem_required_at.symm, fun _ => mem_requiredAtZero.trans mem_required_at.symm⟩

/-! ### Pruning -/

/-- What pruning leaves of a checkpoint. -/
def Checkpoint.pruned (keep : List Nat) (cp : Checkpoint) : Option Checkpoint :=
  if (cp.samples.filter keep.contains).isEmpty then none else some ⟨cp.order, cp.samples.filter keep.contains⟩

theorem Checkpoint.pruned_some {keep : List Nat} {cp cp' : Checkpoint} (h : cp.pruned keep = some cp') :
    cp' = ⟨cp.order, cp.samples.filter keep.contains⟩ := by
  rw [pruned] at h
  split_ifs at h
  exact (Option.some.inj h).symm

theorem prune_checkpoints (keep : List Nat) (p : Plan) :
    (p.prune keep).checkpoints = p.checkpoints.filterMap (Checkpoint.pruned keep) := by
  show ((p.checkpoints.map fun cp => Checkpoint.mk cp.order (cp.samples.filter keep.contains)).filter fun cp =>
    !cp.samples.isEmpty) = _
  induction p.checkpoints with
  | nil => rfl
  | cons cp cps ih =>
    rw [List.map_cons, List.filter_cons, ih]
    by_cases hnone : (cp.samples.filter keep.contains).isEmpty = true
    · rw [List.filterMap_cons_none (by rw [Checkpoint.pruned, if_pos hnone]), if_neg (by simp [hnone])]
    · rw [List.filterMap_cons_some (by rw [Checkpoint.pruned, if_neg hnone]), if_pos (by simpa using hnone)]

theorem sortByOrder_prune (keep : List Nat) (p : Plan) :
    sortByOrder (p.prune keep).checkpoints = (sortByOrder p.checkpoints).filterMap (Checkpoint.pruned keep) := by
  have : Std.Total fun a b : Checkpoint => a.order ≤ b.order := ⟨fun a b => Nat.le_total _ _⟩
  have : IsTrans Checkpoint fun a b => a.order ≤ b.order := ⟨fun _ _ _ => Nat.le_trans⟩
  rw [prune_checkpoints]
  refine Floors.insertionSort_filterMap (r := fun a b : Checkpoint => a.order ≤ b.order) (fun a b a' ha b' hb => ?_) _
  rw [Checkpoint.pruned_some ha, Checkpoint.pruned_some hb]

/-- A pruned plan requires what is streamed of what the plan requires, and nothing that is not streamed. -/
theorem requires_prune {keep : List Nat} :
    (s ∈ keep → p.Requires order s → (p.prune keep).Requires order s) ∧ ((p.prune keep).Requires order s → s ∈ keep) := by
  constructor
  · rintro hkeep ⟨cp, hcp, hs⟩
    have hmem : s ∈ cp.samples.filter keep.contains := List.mem_filter.2 ⟨hs, by simpa using hkeep⟩
    have hpruned : cp.pruned keep = some ⟨cp.order, cp.samples.filter keep.contains⟩ := by
      rw [Checkpoint.pruned, if_neg (by simpa using List.ne_nil_of_mem hmem)]
    refine ⟨⟨cp.order, cp.samples.filter keep.contains⟩, ?_, hmem⟩
    rw [sortByOrder_prune]
    exact Floors.mem_window_filterMap (fun a b hb => by rw [Checkpoint.pruned_some hb]) hcp hpruned
  · rintro ⟨cp, hcp, hs⟩
    exact mem_prune (mem_sortByOrder.1 (Floors.mem_of_mem_window hcp)) s hs

/-- Of what a plan requires anywhere pruning loses nothing that is streamed, and it leaves nothing else, whoever asks. -/
theorem prune_keeps_fence (p : Plan) (keep : List Nat) (order : Nat) :
    ((∀ s ∈ keep, s ∈ (Fence.new p).requiredAt order → s ∈ (Fence.new (p.prune keep)).requiredAt order) ∧
      ∀ s ∈ (Fence.new (p.prune keep)).requiredAt order, s ∈ keep) ∧
    (∀ s ∈ keep, s ∈ Ipfs.required_at p order → s ∈ Ipfs.required_at (p.prune keep) order) ∧
      ∀ s ∈ Ipfs.required_at (p.prune keep) order, s ∈ keep := by
  simp only [mem_fence_requiredAt, mem_required_at]
  exact ⟨⟨fun _ hs => requires_prune.1 hs, fun _ => requires_prune.2⟩,
    fun _ hs => requires_prune.1 hs, fun _ => requires_prune.2⟩

end Required

namespace Fence

/-! ### Whole histories -/

/-- No call of a history lets playback in at an order that requires anything. -/
def Barred : Fence → List Call → Prop
  | _, [] => True
  | f, .provide index :: cs => Barred (f.provide index) cs
  | f, .ready order :: cs => ((f.ready order).1 = true → f.requiredAt order = []) ∧ Barred (f.ready order).2 cs

section Stall
variable {f : Fence} {order : Nat}

theorem stalled_of_false (h : (f.ready order).1 = false) : (f.ready order).2.stalled = true := by
  simp only [ready] at h ⊢
  split_ifs at h ⊢ with hempty hstall hbase hmargin
  · rfl
  · simpa using hstall

/-- A stalled fence is let go only by a true answer where anything is required. -/
theorem stalled_ready (hstall : f.stalled = true) (h : (f.ready order).1 = true → f.requiredAt order = []) :
    (f.ready order).2.stalled = true := by
  cases hans : (f.ready order).1 with
  | false => exact stalled_of_false hans
  | true =>
    have hbase : (unionRange f.cps (f.floorIdx order) (f.floorIdx order + 1)).isEmpty = true := List.isEmpty_iff.2 (h hans)
    simpa [ready, hbase] using hstall

theorem Barred.stalled {cs : List Call} (h : f.Barred cs) (hstall : f.stalled = true) : (f.calls cs).stalled = true := by
  induction cs generalizing f with
  | nil => exact hstall
  | cons c cs ih =>
    cases c with
    | provide index => exact @ih (f.provide index) h hstall
    | ready order => exact ih h.2 (stalled_ready hstall h.1)

end Stall

/-- Over whole histories: nothing is let in whose samples were not provided, after a stall nothing without the margin,
and with all that the plan names provided everything is let in. -/
theorem gate_calls (plan : Plan) (lookahead : Nat) :
    (∀ cs order, (((new plan lookahead).calls cs).ready order).1 = true →
      ∀ s ∈ (new plan lookahead).requiredAt order, .provide s ∈ cs) ∧
    (∀ before order between order',
      (((new plan lookahead).calls before).ready order).1 = false →
      Barred (((new plan lookahead).calls before).ready order).2 between →
      (new plan lookahead).requiredAt order' ≠ [] →
      (((new plan lookahead).calls (before ++ .ready order :: between)).ready order').1 = true →
      ∀ s ∈ unionRange (new plan lookahead).cps ((new plan lookahead).floorIdx order')
        ((new plan lookahead).floorIdx order' + 1 + lookahead), .provide s ∈ before ++ .ready order :: between) ∧
    ∀ cs, (∀ cp ∈ plan.checkpoints, ∀ s ∈ cp.samples, .provide s ∈ cs) →
      ∀ order, (((new plan lookahead).calls cs).ready order).1 = true := by
  refine ⟨fun cs order h s hs => ?_, fun before order between order' hfalse hbarred hreq h s hs => ?_, fun cs h order => ?_⟩
  · rw [← requiredAt_calls _ cs] at hs
    exact (mem_calls_provided.1 (provided_of_ready h s hs)).resolve_left (by rintro ⟨⟩)
  · have hcalls : (new plan lookahead).calls (before ++ .ready order :: between) =
        ((((new plan lookahead).calls before).ready order).2).calls between := by
      rw [calls, List.foldl_append, List.foldl_cons]; rfl
    have hstall : ((new plan lookahead).calls (before ++ .ready order :: between)).stalled = true := by
      rw [hcalls]
      exact hbarred.stalled (stalled_of_false hfalse)
    have hmargin := margin_of_ready hstall (by rwa [requiredAt_calls]) h s
      (by rwa [floorIdx_calls, (calls_frame _ _).1, (calls_frame _ _).2])
    exact (mem_calls_provided.1 hmargin).resolve_left (by rintro ⟨⟩)
  · refine ready_of_margin fun s hs => mem_calls_provided.2 (.inr ?_)
    obtain ⟨k, cp, hk, -, -, hcp⟩ := mem_unionRange.1 hs
    rw [(calls_frame _ cs).1] at hk
    exact h cp (mem_sortByOrder.1 (List.mem_of_getElem? hk)) s hcp

/-! ### The buffered edge -/

/-- The start of an order in a map: the seconds of the latest mapped order at or before it, and of a song's start
without one. -/
def mappedStart (orderSeconds : List OrderSeconds) (order : Nat) : ℚ :=
  match (orderSeconds.filter fun os => os.order ≤ order).argmax OrderSeconds.order with
  | some os => max 0 os.seconds
  | none => 0

/-- Something that the order requires has not been provided. -/
def Missing (f : Fence) (order : Nat) : Prop := ∃ s ∈ f.requiredAt order, s ∉ f.provided

section Edge
variable {f f' : Fence} {orderSeconds : List OrderSeconds} {duration : ℚ} {order order' : Nat}

/-- The greatest of the seconds mapped up to an order, and of `best`. -/
theorem foldl_seconds (best : ℚ) :
    let r := orderSeconds.foldl (fun best os => if os.order ≤ order ∧ best < os.seconds then os.seconds else best) best
    best ≤ r ∧ (∀ os ∈ orderSeconds, os.order ≤ order → os.seconds ≤ r) ∧
      (r = best ∨ ∃ os ∈ orderSeconds, os.order ≤ order ∧ r = os.seconds) := by
  induction orderSeconds generalizing best with
  | nil => simp
  | cons a orderSeconds ih =>
    obtain ⟨hbest, hall, hex⟩ := ih (if a.order ≤ order ∧ best < a.seconds then a.seconds else best)
    simp only [List.foldl_cons]
    refine ⟨le_trans ?_ hbest, fun os hos hle => ?_, ?_⟩
    · split_ifs with hc
      · exact le_of_lt hc.2
      · exact le_refl _
    · rcases List.mem_cons.1 hos with rfl | hos
      · refine le_trans ?_ hbest
        split_ifs with hc
        · exact le_refl _
        · exact not_lt.1 fun hlt => hc ⟨hle, hlt⟩
      · exact hall os hos hle
    · rcases hex with hex | ⟨os, hos, hle, hr⟩
      · rw [hex]
        split_ifs with hc
        · exact .inr ⟨a, List.mem_cons_self, hc.1, rfl⟩
        · exact .inl rfl
      · exact .inr ⟨os, List.mem_cons_of_mem a hos, hle, hr⟩

theorem secondsForOrder_mono (hle : order ≤ order') :
    secondsForOrder orderSeconds order ≤ secondsForOrder orderSeconds order' := by
  obtain ⟨-, -, hex⟩ := @foldl_seconds orderSeconds order 0
  obtain ⟨h0, hall, -⟩ := @foldl_seconds orderSeconds order' 0
  rcases hex with hex | ⟨os, hos, hos', hr⟩
  · rw [secondsForOrder, hex]
    exact h0
  · rw [secondsForOrder, hr]
    exact hall os hos (hos'.trans hle)

/-- Where the seconds do not decrease with the orders, the greatest seconds are those of the latest order. -/
theorem secondsForOrder_eq (hmono : ∀ a ∈ orderSeconds, ∀ b ∈ orderSeconds, a.order ≤ b.order → a.seconds ≤ b.seconds) :
    secondsForOrder orderSeconds order = mappedStart orderSeconds order := by
  obtain ⟨h0, hall, hex⟩ := @foldl_seconds orderSeconds order 0
  change 0 ≤ secondsForOrder orderSeconds order at h0
  rw [mappedStart]
  split
  · rename_i os hos
    obtain ⟨hmem, hle⟩ := List.mem_filter.1 (List.argmax_mem hos)
    have hle : os.order ≤ order := by simpa using hle
    have hlast : ∀ e ∈ orderSeconds, e.order ≤ order → e.order ≤ os.order := fun e he heo =>
      List.le_of_mem_argmax (List.mem_filter.2 ⟨he, by simpa using heo⟩) hos
    refine le_antisymm ?_ (max_le h0 (hall os hmem hle))
    rcases hex with hex | ⟨e, he, heo, hr⟩
    · rw [secondsForOrder, hex]
      exact le_max_left _ _
    · rw [secondsForOrder, hr]
      exact le_max_of_le_right (hmono e he os hmem (hlast e he heo))
  · rename_i hnone
    have hnone := List.argmax_eq_none.1 hnone
    rcases hex with hex | ⟨e, he, heo, -⟩
    · exact hex
    · have : e ∈ orderSeconds.filter fun os => os.order ≤ order := List.mem_filter.2 ⟨he, by simpa using heo⟩
      rw [hnone] at this
      cases this

theorem not_allProvided_iff : (!f.allProvided (f.requiredAt order)) = true ↔ f.Missing order := by
  rw [Bool.not_eq_true', ← Bool.not_eq_true, allProvided_iff, Missing]
  push Not
  rfl

/-- The requirement changes at checkpoints only. -/
theorem missing_floor (h : f.Missing order) : ∃ o ≤ order, f.Missing o ∧ (o = 0 ∨ ∃ cp ∈ f.cps, cp.order = o) := by
  obtain ⟨s, hs, hmiss⟩ := h
  obtain ⟨o, hle, hwindow, hkey⟩ := Floors.exists_window_eq Checkpoint.order f.cps order
  refine ⟨o, hle, ⟨s, ?_, hmiss⟩, hkey⟩
  rw [mem_requiredAt_window] at hs ⊢
  rwa [hwindow]

theorem playableSeconds_least (h : IsLeast {o | f.Missing o} order) :
    f.playableSeconds orderSeconds duration = secondsForOrder orderSeconds order := by
  obtain ⟨hmiss, hleast⟩ := h
  have hmiss : f.Missing order := hmiss
  obtain ⟨o, hle, ho, hkey⟩ := missing_floor hmiss
  obtain rfl : o = order := le_antisymm hle (hleast ho)
  have hne : f.cps.isEmpty = false := by
    obtain ⟨s, hs, -⟩ := hmiss
    obtain ⟨cp, hcp, -⟩ := mem_requiredAt_window.1 hs
    rw [List.isEmpty_eq_false_iff]
    exact List.ne_nil_of_mem (Floors.mem_of_mem_window hcp)
  rw [playableSeconds, hne, if_neg Bool.false_ne_true]
  by_cases hzero : f.Missing 0
  · rw [if_pos (not_allProvided_iff.2 hzero), Nat.le_zero.1 (hleast hzero)]
  · rw [if_neg fun h => hzero (not_allProvided_iff.1 h)]
    rcases hkey with rfl | ⟨cp, hcp, rfl⟩
    · exact absurd ho hzero
    · obtain ⟨cp', hfind⟩ : ∃ cp', (f.cps.find? fun cp => !f.allProvided (f.requiredAt cp.order)) = some cp' :=
        Option.isSome_iff_exists.1 (List.find?_isSome.2 ⟨cp, hcp, not_allProvided_iff.2 ho⟩)
      rw [hfind]
      have hmiss' : f.Missing cp'.order := by
        have := List.find?_some hfind
        exact not_allProvided_iff.1 this
      have hge : cp.order ≤ cp'.order := hleast hmiss'
      obtain ⟨-, front, back, heq, hfront⟩ := List.find?_eq_some_iff_append.1 hfind
      have hle' : cp'.order ≤ cp.order := by
        have hsorted := f.sorted
        rw [SortedByOrder, heq] at hsorted
        rw [heq] at hcp
        rcases List.mem_append.1 hcp with hcp | hcp
        · exact absurd (not_allProvided_iff.2 ho) (by simpa using hfront cp hcp)
        · rcases List.mem_cons.1 hcp with rfl | hcp
          · exact le_refl _
          · exact (List.pairwise_cons.1 (List.pairwise_append.1 hsorted).2.1).1 cp hcp
      show secondsForOrder orderSeconds cp'.order = _
      rw [le_antisymm hle' hge]

theorem playableSeconds_all (h : ∀ o, ¬f.Missing o) : f.playableSeconds orderSeconds duration = duration := by
  rw [playableSeconds]
  split_ifs with hempty hzero
  · rfl
  · exact absurd (not_allProvided_iff.1 hzero) (h 0)
  · rw [List.find?_eq_none.2 fun cp _ hcp => h cp.order (not_allProvided_iff.1 hcp)]

/-- The first order that waits is later with more provided. -/
theorem playableSeconds_mono (hcps : f'.cps = f.cps) (hprov : ∀ s ∈ f.provided, s ∈ f'.provided)
    (hdur : ∀ o, secondsForOrder orderSeconds o ≤ duration) :
    f.playableSeconds orderSeconds duration ≤ f'.playableSeconds orderSeconds duration := by
  have hreq : ∀ o, f'.Missing o → f.Missing o := by
    rintro o ⟨s, hs, hmiss⟩
    refine ⟨s, ?_, fun h => hmiss (hprov s h)⟩
    rw [mem_requiredAt_window] at hs ⊢
    rwa [hcps] at hs
  by_cases hall : ∃ o, f.Missing o
  · classical
    have hleast : IsLeast {o | f.Missing o} (Nat.find hall) := ⟨Nat.find_spec hall, fun o ho => Nat.find_min' hall ho⟩
    rw [playableSeconds_least hleast]
    by_cases hall' : ∃ o, f'.Missing o
    · have hleast' : IsLeast {o | f'.Missing o} (Nat.find hall') := ⟨Nat.find_spec hall', fun o ho => Nat.find_min' hall' ho⟩
      rw [playableSeconds_least hleast']
      exact secondsForOrder_mono (hleast.2 (hreq _ (Nat.find_spec hall')))
    · push Not at hall'
      rw [playableSeconds_all hall']
      exact hdur _
  · push Not at hall
    rw [playableSeconds_all hall, playableSeconds_all fun o ho => hall o (hreq o ho)]

theorem foldl_provide_frame (f : Fence) (slots : List Nat) :
    (slots.foldl provide f).cps = f.cps ∧ ∀ s ∈ f.provided, s ∈ (slots.foldl provide f).provided := by
  induction slots generalizing f with
  | nil => exact ⟨rfl, fun _ => id⟩
  | cons slot slots ih =>
    obtain ⟨hcps, hprov⟩ := ih (f.provide slot)
    exact ⟨hcps, fun s hs => hprov s (List.mem_cons_of_mem _ hs)⟩

/-- The buffered edge is the start of the first order that waits for a sample, or the end, and providing samples never
moves it back. -/
theorem playableSeconds_edge (f : Fence) {orderSeconds : List OrderSeconds} (duration : ℚ)
    (hmono : ∀ a ∈ orderSeconds, ∀ b ∈ orderSeconds, a.order ≤ b.order → a.seconds ≤ b.seconds) :
    (∀ order, IsLeast {o | f.Missing o} order → f.playableSeconds orderSeconds duration = mappedStart orderSeconds order) ∧
      ((∀ o, ¬f.Missing o) → f.playableSeconds orderSeconds duration = duration) ∧
      ((∀ o, mappedStart orderSeconds o ≤ duration) → ∀ slots : List Nat,
        f.playableSeconds orderSeconds duration ≤ (slots.foldl provide f).playableSeconds orderSeconds duration) := by
  refine ⟨fun order h => ?_, playableSeconds_all, fun hdur slots => ?_⟩
  · rw [playableSeconds_least h, secondsForOrder_eq hmono]
  · have hframe := foldl_provide_frame f slots
    exact playableSeconds_mono hframe.1 hframe.2 fun o => (secondsForOrder_eq hmono).trans_le (hdur o)

/-- A map of two orders, on a fence that waits for sample 1. -/
theorem playableSeconds_edge_two :
    (∀ order, IsLeast {o | (new ⟨[], [⟨0, [1]⟩]⟩).Missing o} order →
      (new ⟨[], [⟨0, [1]⟩]⟩).playableSeconds [⟨0, 0⟩, ⟨1, 2⟩] 5 = mappedStart [⟨0, 0⟩, ⟨1, 2⟩] order) ∧
      IsLeast {o | (new ⟨[], [⟨0, [1]⟩]⟩).Missing o} 0 :=
  ⟨(playableSeconds_edge _ 5 (by decide)).1, ⟨⟨1, by decide, by decide⟩, fun _ _ => Nat.zero_le _⟩⟩

end Edge

end Fence

end TrackerStream
