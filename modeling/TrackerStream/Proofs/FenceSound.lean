import TrackerStream.Channels
import TrackerStream.Playback
import TrackerStream.SeekFormats

/-!
# What the checkpoints cover

The checkpoint of an order holds every sample the order triggers with the latches of the order list
(`mem_checkpointAt`). A playback that was let in at the order has them resident, and so a note that names
its sample, or relatches the one of the order list, finds it there.
-/

namespace TrackerStream

/-! ### Latches -/

theorem latchAfter_append (latch : Latch) (es es' : List SimEvent) :
    latchAfter latch (es ++ es') = latchAfter (latchAfter latch es) es' := List.foldl_append

theorem SimEvent.sampleWith_latch (e : SimEvent) (latch : Latch) : e.sampleWith (e.latch latch) = e.latch latch e.ch := by
  rw [sampleWith, SimEvent.latch]
  cases e.explicitSample with
  | none => rfl
  | some s => simp

theorem applySim_latch (e : SimEvent) (w : Walk) : (applySim e w).latch = e.latch w.latch := by
  rw [applySim]
  split
  · rename_i s _ hs
    rw [e.sampleWith_latch] at hs
    simp only
    rw [← hs, Function.update_eq_self]
  · rfl

theorem Walk.event_latch (w : Walk) (e : SimEvent) : (w.event e).latch = e.latch w.latch := applySim_latch e w

/-! ### Rows -/

/-- The time a row takes. -/
def Walk.tick (w : Walk) : Walk := { w with t := w.t + ROWSEC w.speed w.tempo }

theorem Walk.row_eq (row : Nat) (es : List SimEvent) (w : Walk) :
    Walk.row row es w = Channels.walkRow SimEvent.row Walk.event row es w := by
  induction es generalizing w with
  | nil => rfl
  | cons e es ih => rw [Walk.row, Channels.walkRow, ih]

theorem Walk.rows_eq (n row : Nat) (es : List SimEvent) (w : Walk) :
    Walk.rows n row es w = Channels.walkRows SimEvent.row Walk.event Walk.tick n row es w := by
  induction n generalizing row es w with
  | zero => rfl
  | succ n ih =>
    rw [Walk.rows, Channels.walkRows, ← Walk.row_eq]
    exact ih _ _ _

section
variable {σ : Type} {π : Walk → σ} {step : σ → SimEvent → σ} (hevent : ∀ w e, π (w.event e) = step (π w) e)
include hevent

theorem SimModel.walkPattern_fold (htime : ∀ w t, π { w with t } = π w) (m : SimModel) (w : Walk) (pat : Nat) :
    π (m.walkPattern w pat) = (m.events pat).foldl step (π w) := by
  rw [walkPattern, events]
  cases m.decode pat with
  | none =>
    show π (Walk.rows 64 0 [] w) = _
    rw [Walk.rows_eq]
    exact Channels.walkRows_fold hevent (fun _ => htime _ _) .nil (by simp) w
  | some p =>
    show π (Walk.rows p.rows 0 p.events w) = _
    rw [Walk.rows_eq]
    exact Channels.walkRows_fold hevent (fun _ => htime _ _) p.sorted (fun e he => ⟨Nat.zero_le _, by simpa using p.row_lt e he⟩) w

/-- So does the walk over the first played orders. -/
theorem SimModel.walkTo_fold (htime : ∀ w t, π { w with t } = π w) (m : SimModel) (pos : Nat) :
    π (m.walkTo pos) = ((m.orderPats.take pos).flatMap fun op => m.events op.2).foldl step (π m.walk0) := by
  have hfold : ∀ (ops : List (Nat × Nat)) (w : Walk), π (ops.foldl (fun w op => m.walkPattern w op.2) w) =
      (ops.flatMap fun op => m.events op.2).foldl step (π w) := by
    intro ops
    induction ops with
    | nil => exact fun _ => rfl
    | cons op ops ih => exact fun w => by rw [List.foldl_cons, ih, walkPattern_fold hevent htime, List.flatMap_cons, List.foldl_append]
  exact hfold _ _

end

namespace SimModel
variable (m : SimModel)

theorem walkTo_latch (pos : Nat) : (m.walkTo pos).latch = m.listLatch pos :=
  m.walkTo_fold (π := Walk.latch) Walk.event_latch (fun _ _ => rfl) pos

theorem trigger_latch (latch : Latch) (es : List SimEvent) : (m.trigger latch es).2 = latchAfter latch es := by
  induction es generalizing latch with
  | nil => rfl
  | cons e es ih => exact ih _

/-- What a list of cells triggers: each note, with the sample latched at its cell. -/
theorem mem_trigger {latch : Latch} {es : List SimEvent} {o : Nat} :
    o ∈ (m.trigger latch es).1 ↔ ∃ before e after, es = before ++ e :: after ∧ e.hasNote = true ∧
      (latchAfter latch (before ++ [e]) e.ch).bind m.offsetOf = some o := by
  induction es generalizing latch with
  | nil => simp [trigger]
  | cons e es ih =>
    simp only [trigger, List.mem_append, ih]
    constructor
    · rintro (h | ⟨before, e', after, rfl, hnote, hs⟩)
      · split at h
        · refine ⟨[], e, es, rfl, ‹_›, ?_⟩
          rw [e.sampleWith_latch] at h
          exact Option.mem_toList.1 h
        · simp at h
      · exact ⟨e :: before, e', after, rfl, hnote, hs⟩
    · rintro ⟨before, e', after, heq, hnote, hs⟩
      cases before with
      | nil =>
        obtain ⟨rfl, rfl⟩ : e = e' ∧ es = after := by simpa using heq
        left
        rw [if_pos hnote, e.sampleWith_latch]
        exact Option.mem_toList.2 hs
      | cons b before =>
        obtain ⟨rfl, rfl⟩ : e = b ∧ es = before ++ e' :: after := by simpa using heq
        exact .inr ⟨before, e', after, rfl, hnote, hs⟩

theorem mem_triggerOrders {latch : Latch} {ops : List (Nat × Nat)} {i : Nat} {op : Nat × Nat} {o : Nat}
    (hop : ops[i]? = some op)
    (h : o ∈ (m.trigger (latchAfter latch ((ops.take i).flatMap fun op => m.events op.2)) (m.events op.2)).1) :
    o ∈ (m.triggerOrders latch ops).1 := by
  induction ops generalizing latch i with
  | nil => simp at hop
  | cons op' ops ih =>
    simp only [triggerOrders, List.mem_append]
    cases i with
    | zero =>
      obtain rfl : op' = op := Option.some.inj hop
      exact .inl h
    | succ i =>
      refine .inr (ih (i := i) hop ?_)
      rw [List.take_succ_cons, List.flatMap_cons, latchAfter_append] at h
      rwa [m.trigger_latch]

/-! ### Checkpoints -/

theorem stride_pos : 0 < m.stride := by
  rw [stride]; omega

/-- The checkpoint in front of a position lists all that the order there triggers along the order list. -/
theorem mem_checkpointAt {pos : Nat} {op : Nat × Nat} {o : Nat} (hop : m.orderPats[pos]? = some op)
    (h : o ∈ (m.trigger (m.listLatch pos) (m.events op.2)).1) :
    o ∈ (m.checkpointAt (pos / m.stride * m.stride)).residentOffsets := by
  have hle := Nat.div_mul_le_self pos m.stride
  have hlt := Nat.lt_div_mul_add m.stride_pos (a := pos)
  set vi := pos / m.stride * m.stride
  have hspan : ((m.orderPats.drop vi).take m.stride)[pos - vi]? = some op := by
    rw [List.getElem?_take, if_pos (by omega), List.getElem?_drop, Nat.add_sub_cancel' hle, hop]
  have htake : (m.orderPats.take vi) ++ (((m.orderPats.drop vi).take m.stride).take (pos - vi)) = m.orderPats.take pos := by
    rw [List.take_take, Nat.min_eq_left (by omega), ← List.take_add, Nat.add_sub_cancel' hle]
  simp only [checkpointAt, mem_sortedSet, List.mem_append]
  refine .inr (m.mem_triggerOrders hspan ?_)
  rwa [walkTo_latch, listLatch, ← latchAfter_append, ← List.flatMap_append, htake]

/-! ### What the fence holds back for -/

theorem orders_le {i j : Nat} {a b : Nat × Nat} (ha : m.orderPats[i]? = some a) (hb : m.orderPats[j]? = some b) :
    a.1 ≤ b.1 ↔ i ≤ j := by
  obtain ⟨hi, rfl⟩ := List.getElem?_eq_some_iff.1 ha
  obtain ⟨hj, rfl⟩ := List.getElem?_eq_some_iff.1 hb
  have hlt := List.pairwise_iff_getElem.1 m.orders_increasing
  rcases Nat.lt_trichotomy i j with h | rfl | h
  · have := hlt i j hi hj h
    omega
  · simp
  · have := hlt j i hj hi h
    omega

theorem offsetPlan_get {k : Nat} (hk : k * m.stride < m.orderPats.length) :
    ∃ op, m.orderPats[k * m.stride]? = some op ∧
      m.offsetPlan.checkpoints[k]? = some ⟨op.1, (m.checkpointAt (k * m.stride)).residentOffsets⟩ := by
  have hpos := m.stride_pos
  refine ⟨_, List.getElem?_eq_getElem hk, ?_⟩
  have hcount : k < checkpointCount m.orderPats.length m.stride := by
    rw [checkpointCount, Nat.lt_div_iff_mul_lt hpos]
    omega
  simp only [offsetPlan, simulateTables, List.getElem?_map, List.getElem?_range hcount, Option.map_some, checkpointAt,
    List.getElem?_eq_getElem hk, Option.getD_some]

theorem offsetPlan_length : m.offsetPlan.checkpoints.length = checkpointCount m.orderPats.length m.stride := by
  simp [offsetPlan, simulateTables]

theorem offsetPlan_index {k : Nat} (hk : k < m.offsetPlan.checkpoints.length) : k * m.stride < m.orderPats.length := by
  have hpos := m.stride_pos
  rw [offsetPlan_length, checkpointCount, Nat.lt_div_iff_mul_lt hpos] at hk
  omega

theorem offsetPlan_sorted : SortedByOrder m.offsetPlan.checkpoints := by
  refine List.pairwise_iff_getElem.2 fun i j hi hj hlt => ?_
  obtain ⟨a, ha, hcpa⟩ := m.offsetPlan_get (m.offsetPlan_index hi)
  obtain ⟨b, hb, hcpb⟩ := m.offsetPlan_get (m.offsetPlan_index hj)
  rw [(List.getElem?_eq_some_iff.1 hcpa).2, (List.getElem?_eq_some_iff.1 hcpb).2]
  exact (m.orders_le ha hb).2 (Nat.mul_le_mul_right _ (Nat.le_of_lt hlt))

/-- The floor of the order at a position is the checkpoint in front of it. -/
theorem countLe_offsetPlan {pos : Nat} {op : Nat × Nat} (hop : m.orderPats[pos]? = some op) :
    countLe m.offsetPlan.checkpoints op.1 = pos / m.stride + 1 := by
  have hpos := m.stride_pos
  have hlen := (List.getElem?_eq_some_iff.1 hop).1
  have hle := Nat.div_mul_le_self pos m.stride
  have hlt := Nat.lt_div_mul_add hpos (a := pos)
  obtain ⟨a, ha, hcp⟩ := m.offsetPlan_get (k := pos / m.stride) (by omega)
  have hfloor := (order_le_iff m.offsetPlan_sorted hcp).1 ((m.orders_le ha hop).2 hle)
  by_contra hne
  have hnext : pos / m.stride + 1 < m.offsetPlan.checkpoints.length := by
    have := countLe_le_length m.offsetPlan.checkpoints op.1
    omega
  obtain ⟨b, hb, hcp⟩ := m.offsetPlan_get (m.offsetPlan_index hnext)
  have := (m.orders_le hb hop).1 ((order_le_iff m.offsetPlan_sorted hcp).2 (by omega))
  rw [Nat.add_mul] at this
  omega

/-- A fence that lets playback in at a position has resident all that the order there triggers. -/
theorem provided_of_enter {f : Fence} (hcps : f.cps = m.offsetPlan.checkpoints) {pos : Nat} {op : Nat × Nat}
    (hop : m.orderPats[pos]? = some op) (h : (f.ready op.1).1 = true) :
    ∀ o ∈ (m.trigger (m.listLatch pos) (m.events op.2)).1, o ∈ f.provided := by
  intro o ho
  have hlen := (List.getElem?_eq_some_iff.1 hop).1
  have hle := Nat.div_mul_le_self pos m.stride
  obtain ⟨a, -, hcp⟩ := m.offsetPlan_get (k := pos / m.stride) (by omega)
  have hcount := m.countLe_offsetPlan hop
  refine Fence.provided_of_ready h o (Fence.mem_requiredAt.2 ?_)
  rw [hcps]
  exact ⟨_, _, hcp, by omega, by omega, m.mem_checkpointAt hop ho⟩

/-! ### Playing -/

/-- What the fence has done for a playback so far. -/
structure Guarded (p : Playback) : Prop where
  cps : p.fence.cps = m.offsetPlan.checkpoints
  sounded : ∀ o ∈ p.sounded, o ∈ p.fence.provided
  entered : ∀ pos op, p.pos = some pos → m.orderPats[pos]? = some op →
    ∀ o ∈ (m.trigger (m.listLatch pos) (m.events op.2)).1, o ∈ p.fence.provided
  missed : p.missed = []

theorem trigger_snoc (latch : Latch) (es : List SimEvent) (e : SimEvent) :
    (m.trigger latch (es ++ [e])).1 = (m.trigger latch es).1 ++
      if e.hasNote then ((latchAfter latch (es ++ [e]) e.ch).bind m.offsetOf).toList else [] := by
  induction es generalizing latch with
  | nil => simp only [trigger, List.nil_append, List.append_nil, e.sampleWith_latch]; rfl
  | cons b es ih => simp only [List.cons_append, trigger, ih, List.append_assoc]; rfl

variable {m} {p : Playback}

/-- All that a segment sounds is resident when its notes relatch. -/
theorem Guarded.play (h : m.Guarded p) {start stop pos order pat : Nat} (hp : p.pos = some pos)
    (hop : m.orderPats[pos]? = some (order, pat)) (hrel : m.Relatches p (.play start stop)) :
    ∀ o ∈ (m.trigger p.latch (m.segment pat start stop)).1, o ∈ p.fence.provided := by
  suffices hpre : ∀ played rest, m.segment pat start stop = played ++ rest →
      ∀ o ∈ (m.trigger p.latch played).1, o ∈ p.fence.provided from hpre _ [] (List.append_nil _).symm
  intro played
  induction played using List.reverseRecOn with
  | nil => simp [trigger]
  | append_singleton played e ih =>
    intro rest hsplit o ho
    rw [List.append_assoc] at hsplit
    rw [trigger_snoc, List.mem_append] at ho
    rcases ho with ho | ho
    · exact ih _ hsplit o ho
    split at ho
    · rename_i hnote
      obtain ⟨s, hs, hoff⟩ := Option.bind_eq_some_iff.1 (Option.mem_toList.1 ho)
      obtain ⟨l₁, l₂, hevents, rfl, hl₂⟩ := List.filter_eq_append_iff.1 hsplit
      obtain ⟨skipped, after, rfl, hskip, hin, -⟩ := List.filter_eq_cons_iff.1 hl₂
      have hnil : skipped.filter (SimEvent.inRows start stop) = [] := List.filter_eq_nil_iff.2 hskip
      -- the cell in the pattern: the cells before it on the rows played are the ones played before it
      have hcell : m.events pat = (l₁ ++ skipped) ++ e :: after := by rw [hevents, List.append_assoc]
      have hbefore : (l₁ ++ skipped).filter (SimEvent.inRows start stop) = l₁.filter (SimEvent.inRows start stop) := by
        rw [List.filter_append, hnil, List.append_nil]
      have hlist (hlatch : latchAfter (m.listLatch pos) (l₁ ++ skipped ++ [e]) e.ch = some s) : o ∈ p.fence.provided :=
        h.entered pos _ hp hop o (m.mem_trigger.2 ⟨_, e, after, hcell, hnote, by rw [hlatch]; exact hoff⟩)
      rw [latchAfter_append] at hs hlist
      cases he : e.explicitSample with
      | some t =>
        have hnamed : ∀ latch, latchAfter latch [e] e.ch = some t := by
          intro latch
          simp [latchAfter, SimEvent.latch, he]
        rw [hnamed] at hs hlist
        exact hlist hs
      | none =>
        have hkept : ∀ latch, latchAfter latch [e] e.ch = latch e.ch := by
          intro latch
          simp [latchAfter, SimEvent.latch, he]
        rw [hkept] at hs hlist
        rcases hrel pos order pat _ e after hp hop hcell hin hnote he s (hbefore ▸ hs) with hsame | hbefore'
        · exact hlist hsame
        · rw [hbefore] at hbefore'
          rcases List.mem_append.1 (hbefore' o hoff) with ho | ho
          · exact h.sounded o ho
          · exact ih _ hsplit o ho
    · simp at ho

theorem Guarded.move (h : m.Guarded p) {a : Move} (hrel : m.Relatches p a) {p' : Playback} (hp' : m.move p a = some p') :
    m.Guarded p' := by
  cases a with
  | provide offset =>
    cases hp'
    exact ⟨h.cps, fun o ho => List.mem_cons_of_mem _ (h.sounded o ho),
      fun pos op hp hop o ho => List.mem_cons_of_mem _ (h.entered pos op hp hop o ho), h.missed⟩
  | poll order =>
    cases hp'
    obtain ⟨hcps, hprov, -⟩ := p.fence.ready_frame order
    exact ⟨hcps.trans h.cps, hprov ▸ h.sounded, hprov ▸ h.entered, h.missed⟩
  | enter pos =>
    simp only [SimModel.move] at hp'
    split at hp'
    · rename_i order pat hop
      split at hp'
      · rename_i hready
        cases hp'
        obtain ⟨hcps, hprov, -⟩ := p.fence.ready_frame order
        refine ⟨hcps.trans h.cps, hprov ▸ h.sounded, fun pos' op hp hop' => ?_, h.missed⟩
        obtain rfl : pos = pos' := Option.some.inj hp
        obtain rfl : (order, pat) = op := Option.some.inj (hop.symm.trans hop')
        exact hprov ▸ m.provided_of_enter h.cps hop hready.1
      · cases hp'
    · cases hp'
  | play start stop =>
    simp only [SimModel.move] at hp'
    split at hp'
    · rename_i order pat hop
      obtain ⟨pos, hp, hop⟩ := Option.bind_eq_some_iff.1 hop
      have hplay := h.play hp hop hrel
      cases hp'
      refine ⟨h.cps, fun o ho => (List.mem_append.1 ho).elim (h.sounded o) (hplay o), h.entered, ?_⟩
      rw [h.missed, List.nil_append, List.filter_eq_nil_iff]
      intro o ho
      simpa [Fence.isProvided] using hplay o ho
    · cases hp'

/-- Behind the fence no note sounds that is not resident, when every note played names its sample, relatches the
one the order list has latched, or replays one that has sounded. -/
theorem missed_eq_nil (m : SimModel) (lookahead : Nat) {p : Playback} (h : m.Plays lookahead m.Relatches p) :
    p.missed = [] := by
  suffices m.Guarded p from this.missed
  induction h with
  | idle => exact ⟨List.Pairwise.insertionSort_eq m.offsetPlan_sorted, by simp [idle], by simp [idle], rfl⟩
  | move _ hrel hp' ih => exact ih.move hrel hp'

theorem Plays.moves {m : SimModel} {lookahead : Nat} {P : Playback → Move → Prop} (hP : ∀ p a, P p a) {as : List Move}
    {p p' : Playback} (h : m.Plays lookahead P p) (hp' : as.foldlM m.move p = some p') : m.Plays lookahead P p' := by
  induction as generalizing p with
  | nil => cases hp'; exact h
  | cons a as ih =>
    rw [List.foldlM_cons] at hp'
    obtain ⟨q, hq, hp'⟩ := Option.bind_eq_some_iff.1 hp'
    exact ih (.move h (hP p a) hq) hp'

end SimModel

/-- An S3M of three orders of one cell each: the first only names sample 1, the second plays sample 2, the third plays
the sample named last. -/
def relatchS3m : Bytes :=
  List.replicate 32 0 ++ [3, 0, 2, 0, 3, 0] ++ List.replicate 6 0 ++ [83, 67, 82, 77, 0, 6, 125] ++
    List.replicate 45 0 ++ [0, 1, 2, 7, 0, 12, 0, 17, 0, 18, 0, 19, 0, 0, 0, 0] ++
    ([1] ++ List.replicate 13 0 ++ [20, 0, 1] ++ List.replicate 63 0) ++
    ([1] ++ List.replicate 13 0 ++ [21, 0, 1] ++ List.replicate 63 0) ++
    ([4, 0, 0x20, 255, 1, 0] ++ List.replicate 10 0) ++ ([4, 0, 0x20, 64, 2, 0] ++ List.replicate 10 0) ++
    ([4, 0, 0x20, 64, 0, 0] ++ List.replicate 27 0)

/-- A jump over the second order leaves sample 1 latched, which no checkpoint lists. -/
theorem missed_of_jump : ¬ ∀ (m : SimModel) (lookahead : Nat) (p : Playback), m.Plays lookahead (fun _ _ => True) p →
    p.missed = [] := by
  intro h
  have hrun : ([.provide 336, .enter 0, .play 0 64, .enter 2, .play 0 64].foldlM (s3mModel relatchS3m).move
      ((s3mModel relatchS3m).idle 1)).map Playback.missed = some [320] := by decide +kernel
  obtain ⟨p, hp, hmissed⟩ := Option.map_eq_some_iff.1 hrun
  rw [h _ 1 p (.moves (fun _ _ => trivial) .idle hp)] at hmissed
  cases hmissed

/-- On a pattern of one cell only the latch of its channel counts. -/
theorem SimModel.relatches_cell {m : SimModel} {p : Playback} (pos : Nat) (op : Nat × Nat) (e : SimEvent)
    (hp : p.pos = some pos) (hop : m.orderPats[pos]? = some op) (hevents : m.events op.2 = [e])
    (h : p.latch e.ch = m.listLatch pos e.ch) (start stop : Nat) : m.Relatches p (.play start stop) := by
  intro pos' order pat before e' after hp' hop' hcell _ _ _ s hs
  obtain rfl : pos = pos' := Option.some.inj (hp.symm.trans hp')
  obtain rfl : op = (order, pat) := Option.some.inj (hop.symm.trans hop')
  rw [hevents] at hcell
  obtain ⟨rfl, rfl⟩ : before = [] ∧ e = e' := by
    cases before with
    | nil => simp_all
    | cons b before => simp at hcell
  exact .inl (h.symm.trans hs)

theorem missed_eq_nil_relatchS3m : ∃ p : Playback, p.sounded = [336, 336] ∧ p.missed = [] := by
  have step (p : Playback) (a : Move) (hp : (s3mModel relatchS3m).Plays 1 (s3mModel relatchS3m).Relatches p)
      (ha : (s3mModel relatchS3m).Relatches p a) (hsome : ((s3mModel relatchS3m).move p a).isSome) :
      (s3mModel relatchS3m).Plays 1 (s3mModel relatchS3m).Relatches (((s3mModel relatchS3m).move p a).get hsome) :=
    .move hp ha (Option.some_get _).symm
  have h₁ := step _ (.provide 336) .idle trivial rfl
  have h₂ := step _ (.enter 0) h₁ trivial (by decide +kernel)
  have h₃ := step _ (.play 0 64) h₂ (SimModel.relatches_cell 0 (0, 0) ⟨0, 0, some 0, false, 0, true, 0, 0⟩
    (by decide +kernel) (by decide +kernel) (by decide +kernel) (by decide +kernel) 0 64) (by decide +kernel)
  have h₄ := step _ (.enter 1) h₃ trivial (by decide +kernel)
  have h₅ := step _ (.play 0 64) h₄ (SimModel.relatches_cell 1 (1, 1) ⟨0, 0, some 1, true, 48, false, 0, 0⟩
    (by decide +kernel) (by decide +kernel) (by decide +kernel) (by decide +kernel) 0 64) (by decide +kernel)
  have h₆ := step _ (.enter 2) h₅ trivial (by decide +kernel)
  have h₇ := step _ (.play 0 64) h₆ (SimModel.relatches_cell 2 (2, 2) ⟨0, 0, none, true, 48, false, 0, 0⟩
    (by decide +kernel) (by decide +kernel) (by decide +kernel) (by decide +kernel) 0 64) (by decide +kernel)
  exact ⟨_, by decide +kernel, SimModel.missed_eq_nil _ 1 h₇⟩

end TrackerStream
