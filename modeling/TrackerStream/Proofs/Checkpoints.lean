import TrackerStream.Proofs.FenceSound

/-!
# What the checkpoints list

What a list of events sounds and holds is said over the list alone: a note sounds the sample it names or, without one,
the one its channel named or sounded last, and is held until its channel is cut or sounds another. A checkpoint lists
exactly the notes held before it and those that sound up to the next.
-/

namespace TrackerStream

/-- The sample that a channel named or sounded last, the latest event first. -/
def recent (ch : Nat) : List SimEvent → Option Nat
  | [] => none
  | e :: before =>
    if e.ch = ch ∧ (e.explicitSample.isSome ∨ e.hasNote) then e.explicitSample <|> recent ch before else recent ch before

/-- Event `j` is a note that sounds sample `s`. -/
structure Sounds (es : List SimEvent) (j : Nat) (e : SimEvent) (s : Nat) : Prop where
  event : es[j]? = some e
  hasNote : e.hasNote = true
  sample : (e.explicitSample <|> recent e.ch (es.take j).reverse) = some s

/-- It is held at the end: no later event of its channel cuts it or sounds. -/
structure Holds (es : List SimEvent) (j : Nat) (e : SimEvent) (s : Nat) : Prop where
  sounds : Sounds es j e s
  last : ∀ k e', j < k → es[k]? = some e' → e'.ch = e.ch → e'.off = false ∧ ∀ s', ¬Sounds es k e' s'

/-- The events of the first `n` positions, in list order. -/
def SimModel.played (m : SimModel) (n : Nat) : List SimEvent := (m.orderPats.take n).flatMap fun op => m.events op.2

/-- What of a walk's state the sets depend on: the sample held on each channel, and the latches. -/
abbrev Voices := (Nat → Option Nat) × Latch

def Walk.voices (w : Walk) : Voices := (fun c => (w.held c).map HeldNote.sample, w.latch)

/-- What an event does to them. -/
def Voices.step (v : Voices) (e : SimEvent) : Voices :=
  let held := if e.off then Function.update v.1 e.ch none else v.1
  let latch := e.latch v.2
  (if e.hasNote then (latch e.ch).elim held fun s => Function.update held e.ch (some s) else held, latch)

theorem SimEvent.latch_apply (e : SimEvent) (latch : Latch) (c : Nat) :
    e.latch latch c = if e.ch = c then e.explicitSample <|> latch c else latch c := by
  rw [SimEvent.latch]
  cases e.explicitSample with
  | none => exact (ite_self _).symm
  | some s =>
    simp only [Function.update_apply]
    by_cases hc : e.ch = c
    · rw [if_pos hc, if_pos hc.symm]
      rfl
    · rw [if_neg hc, if_neg (Ne.symm hc)]

/-- What is held on a channel: a note that sounds there, else nothing behind a cut, else what was held. -/
theorem Voices.step_held (v : Voices) (e : SimEvent) (c : Nat) : (v.step e).1 c =
    if e.ch = c then
      if e.hasNote = true ∧ (e.latch v.2 c).isSome then e.latch v.2 c else if e.off then none else v.1 c
    else v.1 c := by
  have hcut : (if e.off then Function.update v.1 e.ch none else v.1) c = if e.ch = c then if e.off then none else v.1 c else v.1 c := by
    by_cases hc : e.ch = c
    · subst hc
      cases e.off <;> simp
    · cases e.off <;> simp [hc, Ne.symm hc]
  rw [Voices.step]
  generalize (if e.off then Function.update v.1 e.ch none else v.1) = held at hcut
  cases hnote : e.hasNote with
  | false => simpa using hcut
  | true =>
    cases hs : e.latch v.2 e.ch with
    | none =>
      by_cases hc : e.ch = c
      · subst hc
        simpa [hs] using hcut
      · simpa [hc] using hcut
    | some s =>
      by_cases hc : e.ch = c
      · subst hc
        simp [hs]
      · rw [if_neg hc] at hcut ⊢
        exact (Function.update_of_ne (β := fun _ => Option Nat) (Ne.symm hc) (some s) held).trans hcut

theorem Walk.event_voices (w : Walk) (e : SimEvent) : (w.event e).voices = w.voices.step e := by
  have hsample := e.sampleWith_latch w.latch
  have hheld : (fun c => ((if e.off then Function.update w.held e.ch none else w.held) c).map HeldNote.sample) =
      if e.off then Function.update w.voices.1 e.ch none else w.voices.1 := by
    cases e.off with
    | true => exact Function.comp_update (Option.map HeldNote.sample) w.held e.ch none
    | false => rfl
  show (applySim e w).voices = _
  rw [applySim, Voices.step, ← hheld]
  simp only [hsample]
  cases e.hasNote with
  | false => rfl
  | true =>
    cases hs : e.latch w.latch e.ch with
    | none =>
      show (_, _) = (_, _)
      rw [if_pos rfl]
      simp only [Walk.voices, hs]
      rfl
    | some s =>
      show (_, _) = (_, _)
      rw [if_pos rfl]
      simp only [Walk.voices, hs, Option.elim_some]
      refine Prod.ext ?_ ?_
      · exact Function.comp_update (Option.map HeldNote.sample) _ e.ch (some ⟨s, e.note, w.t⟩)
      · show Function.update (e.latch w.latch) e.ch (some s) = e.latch w.latch
        rw [← hs, Function.update_eq_self]

/-! ### Sounding and holding -/

section
variable {es : List SimEvent} {e e' : SimEvent} {j s : Nat}

theorem recent_eq (c : Nat) (es : List SimEvent) : recent c es.reverse = latchAfter (fun _ => none) es c := by
  induction es using List.reverseRecOn with
  | nil => rfl
  | append_singleton es e ih =>
    rw [List.reverse_append, List.reverse_singleton, List.singleton_append, recent, latchAfter_append, ih]
    show _ = e.latch (latchAfter (fun _ => none) es) c
    rw [SimEvent.latch_apply]
    by_cases hc : e.ch = c
    · rw [if_pos hc]
      cases e.explicitSample with
      | none => exact ite_self _
      | some s => exact if_pos ⟨hc, .inl rfl⟩
    · rw [if_neg hc, if_neg fun h => hc h.1]

/-- The sample of a note behind a list of events. -/
theorem sample_eq (e : SimEvent) (es : List SimEvent) :
    (e.explicitSample <|> recent e.ch es.reverse) = e.latch (latchAfter (fun _ => none) es) e.ch := by
  rw [recent_eq, SimEvent.latch_apply, if_pos rfl]

/-- What an event sounds behind a list of events. -/
def SimEvent.sounded (before : List SimEvent) (e : SimEvent) : Option Nat :=
  if e.hasNote then e.explicitSample <|> recent e.ch before.reverse else none

theorem SimEvent.sounded_eq_some : e.sounded es = some s ↔
    e.hasNote = true ∧ (e.explicitSample <|> recent e.ch es.reverse) = some s := by
  rw [sounded]
  cases e.hasNote <;> simp

theorem sounds_iff : Sounds es j e s ↔ Channels.Sounds (fun es e => e.sounded es) es j e s := by
  constructor
  · exact fun h => ⟨h.event, SimEvent.sounded_eq_some.2 ⟨h.hasNote, h.sample⟩⟩
  · exact fun h => ⟨h.event, (SimEvent.sounded_eq_some.1 h.sound).1, (SimEvent.sounded_eq_some.1 h.sound).2⟩

theorem holds_iff : Holds es j e s ↔ Channels.Holds SimEvent.ch SimEvent.off (fun es e => e.sounded es) es j e s := by
  have hnone : ∀ k e', es[k]? = some e' → ((∀ s', ¬Sounds es k e' s') ↔ e'.sounded (es.take k) = none) := by
    intro k e' he'
    rw [Option.eq_none_iff_forall_ne_some]
    exact forall_congr' fun s' => not_congr (sounds_iff.trans ⟨Channels.Sounds.sound, Channels.Sounds.mk he'⟩)
  constructor
  · intro h
    refine ⟨sounds_iff.1 h.sounds, fun k e' hk he' hch => ?_⟩
    obtain ⟨hoff, hnot⟩ := h.last k e' hk he' hch
    exact ⟨hoff, (hnone k e' he').1 hnot⟩
  · intro h
    refine ⟨sounds_iff.2 h.sounds, fun k e' hk he' hch => ?_⟩
    obtain ⟨hoff, hnot⟩ := h.last k e' hk he' hch
    exact ⟨hoff, (hnone k e' he').2 hnot⟩

theorem voices_latch (v : Voices) (es : List SimEvent) : (es.foldl Voices.step v).2 = latchAfter v.2 es := by
  induction es generalizing v with
  | nil => rfl
  | cons e es ih => exact ih _

/-- The voices behind a list of events hold its notes. -/
theorem held_foldl (es : List SimEvent) (c s : Nat) :
    (es.foldl Voices.step ((fun _ => none), (fun _ => none))).1 c = some s ↔ ∃ j e, Holds es j e s ∧ e.ch = c := by
  simp only [holds_iff]
  refine Channels.held_iff (H := fun es c => (es.foldl Voices.step ((fun _ => none), (fun _ => none))).1 c)
    (fun _ => rfl) (fun es e c => ?_) es c s
  rw [List.foldl_append, List.foldl_cons, List.foldl_nil, Voices.step_held, voices_latch]
  by_cases hc : e.ch = c
  · subst hc
    rw [if_pos rfl, if_pos rfl, SimEvent.sounded, sample_eq]
    cases e.hasNote <;> simp
  · rw [if_neg hc, if_neg hc]

end

/-! ### The sets -/

theorem sortedSet_pairwise (offs : List Nat) : (sortedSet offs).Pairwise (· < ·) := by
  have hle := List.pairwise_insertionSort (· ≤ ·) offs.dedup
  have hne : (sortedSet offs).Nodup := ((List.perm_insertionSort (· ≤ ·) offs.dedup).nodup_iff).2 offs.nodup_dedup
  exact (hle.and hne).imp fun h => lt_of_le_of_ne h.1 h.2

/-- The checkpoints of `n` positions, one every `stride` of them. -/
theorem checkpointList_get {n stride k : Nat} {at' : Nat → SeekCheckpoint} {c : SeekCheckpoint} (hpos : 0 < stride) :
    ((List.range (checkpointCount n stride)).map fun k => at' (k * stride))[k]? = some c ↔ k * stride < n ∧ at' (k * stride) = c := by
  have hcount : k < checkpointCount n stride ↔ k * stride < n := by
    rw [checkpointCount, Nat.lt_div_iff_mul_lt hpos]
    omega
  rw [List.getElem?_map, ← hcount]
  by_cases hk : k < checkpointCount n stride
  · rw [List.getElem?_range hk, Option.map_some, Option.some.injEq, and_iff_right hk]
  · rw [List.getElem?_eq_none (by rw [List.length_range]; omega)]
    exact iff_of_false (by simp) fun h => hk h.1

namespace SimModel
variable (m : SimModel)

theorem trigger_append (latch : Latch) (es es' : List SimEvent) :
    (m.trigger latch (es ++ es')).1 = (m.trigger latch es).1 ++ (m.trigger (latchAfter latch es) es').1 := by
  induction es generalizing latch with
  | nil => rfl
  | cons e es ih =>
    simp only [List.cons_append, trigger, List.append_assoc]
    rw [ih]
    rfl

theorem triggerOrders_eq (latch : Latch) (ops : List (Nat × Nat)) :
    (m.triggerOrders latch ops).1 = (m.trigger latch (ops.flatMap fun op => m.events op.2)).1 := by
  induction ops generalizing latch with
  | nil => rfl
  | cons op ops ih =>
    simp only [triggerOrders]
    rw [List.flatMap_cons, trigger_append, ih, trigger_latch]

theorem walkTo_voices (n : Nat) : (m.walkTo n).voices = (m.played n).foldl Voices.step ((fun _ => none), (fun _ => none)) :=
  m.walkTo_fold Walk.event_voices (fun _ _ => rfl) n

theorem ch_lt_played {n : Nat} {e : SimEvent} (h : e ∈ m.played n) : e.ch < m.numChannels := by
  obtain ⟨op, -, he⟩ := List.mem_flatMap.1 h
  rw [events] at he
  cases hp : m.decode op.2 with
  | none =>
    rw [hp] at he
    cases he
  | some p =>
    rw [hp] at he
    exact m.ch_lt op.2 p hp e he

theorem mem_heldOffsets {n o : Nat} :
    o ∈ m.heldOffsets (m.walkTo n) ↔ ∃ j e s, Holds (m.played n) j e s ∧ m.offsetOf s = some o := by
  have hheld : ∀ c s, ((m.walkTo n).held c).map HeldNote.sample = some s ↔ ∃ j e, Holds (m.played n) j e s ∧ e.ch = c := by
    intro c s
    rw [← held_foldl, ← walkTo_voices]
    rfl
  rw [heldOffsets, List.mem_filterMap]
  constructor
  · rintro ⟨c, -, h⟩
    obtain ⟨note, hnote, ho⟩ := Option.bind_eq_some_iff.1 h
    obtain ⟨j, e, hholds, -⟩ := (hheld c note.sample).1 (by rw [hnote]; rfl)
    exact ⟨j, e, note.sample, hholds, ho⟩
  · rintro ⟨j, e, s, hholds, ho⟩
    obtain ⟨note, hnote, rfl⟩ := Option.map_eq_some_iff.1 ((hheld e.ch s).2 ⟨j, e, hholds, rfl⟩)
    refine ⟨e.ch, List.mem_range.2 (m.ch_lt_played (List.mem_of_getElem? hholds.sounds.event)), ?_⟩
    rw [hnote]
    exact ho

theorem played_add (n k : Nat) :
    m.played (n + k) = m.played n ++ ((m.orderPats.drop n).take k).flatMap fun op => m.events op.2 := by
  rw [played, List.take_add, List.flatMap_append]
  rfl

theorem mem_triggered {n k o : Nat} :
    o ∈ (m.triggerOrders (m.walkTo n).latch ((m.orderPats.drop n).take k)).1 ↔
      ∃ j e s, (m.played n).length ≤ j ∧ Sounds (m.played (n + k)) j e s ∧ m.offsetOf s = some o := by
  have hsounds : (∃ j e s, (m.played n).length ≤ j ∧ Sounds (m.played (n + k)) j e s ∧ m.offsetOf s = some o) ↔
      ∃ s, (∃ j e, (m.played n).length ≤ j ∧ Channels.Sounds (fun es e => e.sounded es) (m.played (n + k)) j e s) ∧
        m.offsetOf s = some o := by
    simp only [sounds_iff]
    constructor
    · rintro ⟨j, e, s, hj, h, ho⟩
      exact ⟨s, ⟨j, e, hj, h⟩, ho⟩
    · rintro ⟨s, ⟨j, e, hj, h⟩, ho⟩
      exact ⟨j, e, s, hj, h, ho⟩
  rw [hsounds, triggerOrders_eq, walkTo_latch, mem_trigger, played_add]
  simp only [Channels.exists_sounds_iff]
  have hlatch : ∀ before e, latchAfter (m.listLatch n) (before ++ [e]) e.ch =
      (e.explicitSample <|> recent e.ch (m.played n ++ before).reverse) := by
    intro before e
    rw [sample_eq, latchAfter_append, latchAfter_append]
    rfl
  constructor
  · rintro ⟨before, e, after, hspan, hnote, h⟩
    obtain ⟨s, hs, ho⟩ := Option.bind_eq_some_iff.1 h
    exact ⟨s, ⟨before, e, after, hspan, SimEvent.sounded_eq_some.2 ⟨hnote, (hlatch before e).symm.trans hs⟩⟩, ho⟩
  · rintro ⟨s, ⟨before, e, after, hspan, h⟩, ho⟩
    obtain ⟨hnote, hs⟩ := SimEvent.sounded_eq_some.1 h
    exact ⟨before, e, after, hspan, hnote, by rw [hlatch, hs]; exact ho⟩

theorem checkpoints_get {k : Nat} {c : SeekCheckpoint} : (simulateTables m).checkpoints[k]? = some c ↔
    k * m.stride < m.orderPats.length ∧ m.checkpointAt (k * m.stride) = c := checkpointList_get m.stride_pos

theorem checkpoints_length : (simulateTables m).checkpoints.length ≤ MAX_CHECKPOINTS := by
  show ((List.range _).map _).length ≤ _
  have hpos := m.stride_pos
  rw [List.length_map, List.length_range, checkpointCount, ← Nat.lt_add_one_iff, Nat.div_lt_iff_lt_mul hpos]
  have hle : m.orderPats.length ≤ MAX_CHECKPOINTS * m.stride := by
    have hdiv : (m.orderPats.length + (MAX_CHECKPOINTS - 1)) / MAX_CHECKPOINTS ≤ m.stride := Nat.le_max_right _ _
    rw [Nat.div_le_iff_le_mul_add_pred (by decide)] at hdiv
    omega
  rw [Nat.succ_mul]
  omega

theorem mem_residentOffsets {pos o : Nat} : o ∈ (m.checkpointAt pos).residentOffsets ↔
    (∃ j e s, Holds (m.played pos) j e s ∧ m.offsetOf s = some o) ∨
      ∃ j e s, (m.played pos).length ≤ j ∧ Sounds (m.played (pos + m.stride)) j e s ∧ m.offsetOf s = some o := by
  rw [checkpointAt, mem_sortedSet, List.mem_append, mem_heldOffsets, mem_triggered]

theorem checkpointAt_order {pos : Nat} (hpos : pos < m.orderPats.length) :
    (m.orderPats[pos]?).map Prod.fst = some (m.checkpointAt pos).order := by
  rw [checkpointAt, List.getElem?_eq_getElem hpos]
  rfl

/-- A checkpoint every `stride` positions, at its position's order, of what is held there and sounds up to the next. -/
theorem checkpoints_exact :
    (simulateTables m).checkpoints.length ≤ MAX_CHECKPOINTS ∧
    ((simulateTables m).checkpoints.map SeekCheckpoint.order).Pairwise (· < ·) ∧
    (∀ i < m.orderPats.length, ∃ k c, (simulateTables m).checkpoints[k]? = some c ∧
      k * m.stride ≤ i ∧ i < k * m.stride + m.stride) ∧
    ∀ k c, (simulateTables m).checkpoints[k]? = some c →
      (m.orderPats[k * m.stride]?).map Prod.fst = some c.order ∧ c.residentOffsets.Pairwise (· < ·) ∧
      ∀ o, o ∈ c.residentOffsets ↔
        (∃ j e s, Holds (m.played (k * m.stride)) j e s ∧ m.offsetOf s = some o) ∨
        ∃ j e s, (m.played (k * m.stride)).length ≤ j ∧ Sounds (m.played (k * m.stride + m.stride)) j e s ∧
          m.offsetOf s = some o := by
  have horder : ∀ k c, (simulateTables m).checkpoints[k]? = some c → (m.orderPats[k * m.stride]?).map Prod.fst = some c.order := by
    intro k c hc
    obtain ⟨hk, rfl⟩ := m.checkpoints_get.1 hc
    exact m.checkpointAt_order hk
  refine ⟨m.checkpoints_length, ?_, ?_, fun k c hc => ⟨horder k c hc, ?_⟩⟩
  · refine List.pairwise_iff_getElem.2 fun i j hi hj hlt => ?_
    rw [List.length_map] at hi hj
    rw [List.getElem_map, List.getElem_map]
    obtain ⟨a, ha, hai⟩ := Option.map_eq_some_iff.1 (horder i _ (List.getElem?_eq_getElem hi))
    obtain ⟨b, hb, hbj⟩ := Option.map_eq_some_iff.1 (horder j _ (List.getElem?_eq_getElem hj))
    rw [← hai, ← hbj, ← Nat.not_le, m.orders_le hb ha, Nat.not_le]
    exact Nat.mul_lt_mul_of_pos_right hlt m.stride_pos
  · intro i hi
    have hle := Nat.div_mul_le_self i m.stride
    exact ⟨_, _, m.checkpoints_get.2 ⟨by omega, rfl⟩, hle, Nat.lt_div_mul_add m.stride_pos⟩
  · obtain ⟨-, rfl⟩ := m.checkpoints_get.1 hc
    exact ⟨sortedSet_pairwise _, fun o => m.mem_residentOffsets⟩

end SimModel

end TrackerStream
