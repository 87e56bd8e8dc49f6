import TrackerStream.Runs

/-!
# A race of workers

Workers look for a value each and offer what they find on a buffered channel; when all have left, a second channel is
closed. A caller waits for a value, for the close or for its own cancellation, and takes any of those that are ready. No
worker is ever stuck (`Inv.room`), and the caller gives up on a value only if it takes the close while one is in the buffer
(`noFalseMiss`).
-/

namespace Race
variable {ρ β : Type*}

/-- Where a worker stands; from `offering` on with the value it found. -/
inductive Arm (β : Type*)
  | running
  | offering (b : β)
  | leaving (found : Option β)
  | finished (found : Option β)

def Arm.found : Arm β → Option β
  | .running => none
  | .offering b => some b
  | .leaving found | .finished found => found

/-- The worker may still send. -/
def Arm.pending : Arm β → Bool
  | .running | .offering _ => true
  | _ => false

def Arm.work : Arm β → Nat
  | .running => 3
  | .offering _ => 2
  | .leaving _ => 1
  | .finished _ => 0

def Arm.isFinished : Arm β → Bool
  | .finished _ => true
  | _ => false

inductive Answer (β : Type*)
  | got (b : β)
  | missed
  | cancelled
deriving DecidableEq

structure World (β : Type*) where
  arms : List (Arm β)
  buffer : List β := []
  /-- All workers have left, and the second channel is closed. -/
  closed : Bool := false
  /-- The caller is cancelled. -/
  cancelled : Bool := false
  answer : Option (Answer β) := none

inductive Act (ρ : Type*)
  /-- Worker `i` ends its search. -/
  | search (i : Nat) (x : ρ)
  /-- It sends, or finds its context cancelled instead; the answer cancels the workers. -/
  | send (i : Nat)
  | drop (i : Nat)
  | leave (i : Nat)
  | close
  /-- The caller takes a value, the close, or its cancellation. -/
  | take
  | miss
  | stop
  | cancel

variable (outcome : Nat → ρ → Option β) (capacity : Nat)

/-- What can happen in a world, and what it makes of it. -/
inductive Move : World β → Act ρ → World β → Prop
  | search {w : World β} {i : Nat} {x : ρ} (hi : w.arms[i]? = some .running) :
    Move w (.search i x) { w with arms := w.arms.set i ((outcome i x).elim (.leaving none) .offering) }
  | send {w : World β} {i : Nat} {b : β} (hi : w.arms[i]? = some (.offering b)) (hroom : w.buffer.length < capacity) :
    Move w (.send i) { w with arms := w.arms.set i (.leaving (some b)), buffer := w.buffer ++ [b] }
  | drop {w : World β} {i : Nat} {b : β} (hi : w.arms[i]? = some (.offering b))
    (hover : w.cancelled = true ∨ w.answer.isSome) :
    Move w (.drop i) { w with arms := w.arms.set i (.leaving (some b)) }
  | leave {w : World β} {i : Nat} {found : Option β} (hi : w.arms[i]? = some (.leaving found)) :
    Move w (.leave i) { w with arms := w.arms.set i (.finished found) }
  | close {w : World β} (hopen : w.closed = false) (hall : ∀ a ∈ w.arms, a.isFinished = true) :
    Move w .close { w with closed := true }
  | take {w : World β} {b : β} {buffer : List β} (hwait : w.answer = none) (hbuf : w.buffer = b :: buffer) :
    Move w .take { w with buffer, answer := some (.got b) }
  | miss {w : World β} (hwait : w.answer = none) (hclosed : w.closed = true) : Move w .miss { w with answer := some .missed }
  | stop {w : World β} (hwait : w.answer = none) (hcancel : w.cancelled = true) :
    Move w .stop { w with answer := some .cancelled }
  | cancel {w : World β} : Move w .cancel { w with cancelled := true }

/-- An act that is not enabled does nothing. -/
def step (w : World β) : Act ρ → World β
  | .search i x =>
    match w.arms[i]? with
    | some .running =>
      { w with arms := w.arms.set i ((outcome i x).elim (.leaving none) .offering) }
    | _ => w
  | .send i =>
    match w.arms[i]? with
    | some (.offering b) =>
      if w.buffer.length < capacity then
        { w with arms := w.arms.set i (.leaving (some b)), buffer := w.buffer ++ [b] }
      else w
    | _ => w
  | .drop i =>
    match w.arms[i]? with
    | some (.offering b) => if w.cancelled || w.answer.isSome then { w with arms := w.arms.set i (.leaving (some b)) } else w
    | _ => w
  | .leave i =>
    match w.arms[i]? with
    | some (.leaving found) => { w with arms := w.arms.set i (.finished found) }
    | _ => w
  | .close => if !w.closed && w.arms.all Arm.isFinished then { w with closed := true } else w
  | .take =>
    match w.answer, w.buffer with
    | none, b :: buffer => { w with buffer, answer := some (.got b) }
    | _, _ => w
  | .miss => if w.answer.isNone && w.closed then { w with answer := some .missed } else w
  | .stop => if w.answer.isNone && w.cancelled then { w with answer := some .cancelled } else w
  | .cancel => { w with cancelled := true }

def start (n : Nat) : World β := { arms := List.replicate n .running }

def after (n : Nat) (acts : List (Act ρ)) (k : Nat) : World β := Runs.state (step outcome capacity) (start n) acts k

variable {outcome capacity} {w w' : World β} {act : Act ρ}

theorem Move.step (h : Move outcome capacity w act w') : step outcome capacity w act = w' := by
  cases h <;> simp_all [Race.step]

variable (outcome capacity) in
/-- An act moves the world, or does nothing. -/
theorem step_move (w : World β) (act : Act ρ) :
    Move outcome capacity w act (step outcome capacity w act) ∨ step outcome capacity w act = w := by
  cases act with
  | search i x =>
    rw [step]
    split
    · exact .inl (.search ‹_›)
    · exact .inr rfl
  | send i =>
    rw [step]
    split
    · split
      · exact .inl (.send ‹_› ‹_›)
      · exact .inr rfl
    · exact .inr rfl
  | drop i =>
    rw [step]
    split
    · split
      · rename_i hover
        exact .inl (.drop ‹_› (by simpa using hover))
      · exact .inr rfl
    · exact .inr rfl
  | leave i =>
    rw [step]
    split
    · exact .inl (.leave ‹_›)
    · exact .inr rfl
  | close =>
    rw [step]
    split
    · rename_i hall
      have hall : w.closed = false ∧ ∀ a ∈ w.arms, a.isFinished = true := by simpa using hall
      exact .inl (.close hall.1 hall.2)
    · exact .inr rfl
  | take =>
    rw [step]
    split
    · exact .inl (.take ‹_› ‹_›)
    · exact .inr rfl
  | miss =>
    rw [step]
    split
    · rename_i h
      have h : w.answer = none ∧ w.closed = true := by simpa using h
      exact .inl (.miss h.1 h.2)
    · exact .inr rfl
  | stop =>
    rw [step]
    split
    · rename_i h
      have h : w.answer = none ∧ w.cancelled = true := by simpa using h
      exact .inl (.stop h.1 h.2)
    · exact .inr rfl
  | cancel => exact .inl .cancel

/-! ### What stays -/

section
variable {i : Nat} {a a' : Arm β} {b : β}

theorem mem_set_arm {x : Arm β} (hx : x ∈ w.arms.set i a') : x ∈ w.arms ∨ x = a' := List.mem_or_eq_of_mem_set hx

/-- What the workers found stays found. -/
theorem found_set (hi : w.arms[i]? = some a) (hfound : a.found = none ∨ a'.found = a.found)
    (h : ∃ x ∈ w.arms, x.found = some b) : ∃ x ∈ w.arms.set i a', x.found = some b := by
  obtain ⟨x, hx, hb⟩ := h
  obtain ⟨hlt, hget⟩ := List.getElem?_eq_some_iff.1 hi
  obtain ⟨j, hj⟩ := List.mem_iff_getElem?.1 hx
  by_cases hij : i = j
  · subst hij
    obtain rfl : a = x := Option.some.inj (hi.symm.trans hj)
    refine ⟨a', List.mem_set hlt a', ?_⟩
    rcases hfound with hfound | hfound
    · rw [hfound] at hb
      cases hb
    · rw [hfound, hb]
  · exact ⟨x, List.mem_of_getElem? (i := j) (by rw [List.getElem?_set_ne hij, hj]), hb⟩

variable (a') in
theorem countP_set_arm (hi : w.arms[i]? = some a) :
    (w.arms.set i a').countP Arm.pending + (if a.pending then 1 else 0) =
      w.arms.countP Arm.pending + (if a'.pending then 1 else 0) := by
  obtain ⟨hlt, hget⟩ := List.getElem?_eq_some_iff.1 hi
  have hpos : a.pending = true → 0 < w.arms.countP Arm.pending :=
    fun h => List.countP_pos_iff.2 ⟨a, List.mem_of_getElem? hi, h⟩
  rw [List.countP_set hlt, hget]
  cases hp : a.pending with
  | false => simp
  | true =>
    have := hpos hp
    simp only [if_true]
    omega

end

/-- The caller takes the close only when no value is in the buffer. -/
def PrefersValue (w : World β) (act : Act ρ) : Prop := match act with
  | .miss => w.answer = none → w.closed = true → w.buffer = []
  | _ => True

/-- What holds in every state of a race, and of one whose caller prefers a value. -/
structure Inv (capacity : Nat) (prefers : Prop) (w : World β) : Prop where
  room : w.buffer.length + w.arms.countP Arm.pending ≤ capacity
  closed : w.closed = true → ∀ a ∈ w.arms, a.isFinished = true
  kept : w.answer = none → w.cancelled = false → ∀ a ∈ w.arms, a.pending = false → ∀ b, a.found = some b → b ∈ w.buffer
  found : ∀ b ∈ w.buffer, ∃ a ∈ w.arms, a.found = some b
  got : ∀ b, w.answer = some (.got b) → ∃ a ∈ w.arms, a.found = some b
  missed : w.answer = some .missed → w.closed = true ∧ (prefers → w.cancelled = false → ∀ a ∈ w.arms, a.found = none)
  stopped : w.answer = some .cancelled → w.cancelled = true

variable {prefers : Prop}

theorem Inv.start {n : Nat} (h : n ≤ capacity) : Inv capacity prefers (start n : World β) where
  room := by simpa [Race.start, List.countP_replicate, Arm.pending] using h
  closed := by simp [Race.start]
  kept _ _ a ha hp := by
    rw [List.eq_of_mem_replicate ha] at hp
    cases hp
  found := by simp [Race.start]
  got := by simp [Race.start]
  missed := by simp [Race.start]
  stopped := by simp [Race.start]

/-- A worker goes on, and may have put what it found into the buffer. -/
theorem Inv.arm (h : Inv capacity prefers w) {i : Nat} {a a' : Arm β} {buffer : List β} (hi : w.arms[i]? = some a)
    (hbusy : a.isFinished = false) (hfound : a.found = none ∨ a'.found = a.found)
    (hroom : buffer.length + (if a'.pending then 1 else 0) ≤ w.buffer.length + (if a.pending then 1 else 0))
    (hbuf : ∀ b ∈ w.buffer, b ∈ buffer) (hnew : ∀ b ∈ buffer, b ∈ w.buffer ∨ a'.found = some b)
    (hkept : w.answer = none → w.cancelled = false → a'.pending = false → ∀ b, a'.found = some b → b ∈ buffer) :
    Inv capacity prefers { w with arms := w.arms.set i a', buffer := buffer } := by
  have hmem := List.mem_of_getElem? hi
  have hopen : w.closed = true → False := fun hclosed => by
    have := h.closed hclosed a hmem
    rw [hbusy] at this
    cases this
  have hset : a' ∈ w.arms.set i a' := List.mem_set (List.getElem?_eq_some_iff.1 hi).1 a'
  constructor
  · show buffer.length + (w.arms.set i a').countP Arm.pending ≤ capacity
    have hcount := countP_set_arm a' hi
    have := h.room
    omega
  · exact fun hclosed => absurd hclosed fun hclosed => hopen hclosed
  · intro hwait hlive x hx hp b hb
    rcases mem_set_arm hx with hx | rfl
    · exact hbuf b (h.kept hwait hlive x hx hp b hb)
    · exact hkept hwait hlive hp b hb
  · intro b hb
    rcases hnew b hb with hb | hb
    · exact found_set hi hfound (h.found b hb)
    · exact ⟨a', hset, hb⟩
  · exact fun b hb => found_set hi hfound (h.got b hb)
  · exact fun hmissed => absurd (h.missed hmissed).1 fun hclosed => hopen hclosed
  · exact h.stopped

theorem Inv.move (h : Inv capacity prefers w) (hpref : prefers → PrefersValue w act) (hm : Move outcome capacity w act w') :
    Inv capacity prefers w' := by
  cases hm with
  | @search i x hi =>
    refine h.arm hi rfl (.inl rfl) ?_ (fun _ => id) (fun _ => .inl) fun _ _ hp b hb => ?_
    · cases outcome i x <;> simp [Arm.pending]
    · cases hout : outcome i x with
      | none =>
        rw [hout] at hb
        cases hb
      | some b' =>
        rw [hout] at hp
        cases hp
  | @send i b hi hroom =>
    refine h.arm hi rfl (.inr rfl) (by simp [Arm.pending]) (fun _ => List.mem_append_left _) (fun b' hb' => ?_)
      fun _ _ _ b' hb' => ?_
    · rcases List.mem_append.1 hb' with hb' | hb'
      · exact .inl hb'
      · rw [List.mem_singleton.1 hb']
        exact .inr rfl
    · obtain rfl : b = b' := Option.some.inj hb'
      simp
  | @drop i b hi hover =>
    refine h.arm hi rfl (.inr rfl) (by simp [Arm.pending]) (fun _ => id) (fun _ => .inl) fun hwait hlive _ b' hb' => ?_
    rcases hover with hover | hover
    · rw [hlive] at hover
      cases hover
    · rw [hwait] at hover
      cases hover
  | @leave i found hi =>
    exact h.arm hi rfl (.inr rfl) (by simp [Arm.pending]) (fun _ => id) (fun _ => .inl)
      fun hwait hlive _ b hb => h.kept hwait hlive _ (List.mem_of_getElem? hi) rfl b hb
  | close hopen hall =>
    exact ⟨h.room, fun _ => hall, h.kept, h.found, h.got, fun hmissed => ⟨rfl, (h.missed hmissed).2⟩, h.stopped⟩
  | @take b buffer hwait hbuf =>
    have hin : b ∈ w.buffer := by rw [hbuf]; exact List.mem_cons_self
    refine ⟨?_, h.closed, fun hnone => by simp at hnone, fun b' hb' => h.found b'
      (by rw [hbuf]; exact List.mem_cons_of_mem _ hb'),
      fun b' hb' => ?_, fun hmissed => by simp at hmissed, fun hstop => by simp at hstop⟩
    · have := h.room
      rw [hbuf, List.length_cons] at this
      show buffer.length + w.arms.countP Arm.pending ≤ capacity
      omega
    · obtain rfl : b = b' := by simpa using hb'
      exact h.found b hin
  | miss hwait hclosed =>
    refine ⟨h.room, h.closed, fun hnone => by simp at hnone, h.found, fun b hb => by simp at hb,
      fun _ => ⟨hclosed, fun hp hlive a ha => ?_⟩, fun hstop => by simp at hstop⟩
    cases hb : a.found with
    | none => rfl
    | some b =>
      have hleft : a.pending = false := by
        have := h.closed hclosed a ha
        cases a <;> first | rfl | cases this
      have := h.kept hwait hlive a ha hleft b hb
      rw [hpref hp hwait hclosed] at this
      cases this
  | stop hwait hcancel =>
    exact ⟨h.room, h.closed, fun hnone => by simp at hnone, h.found, fun b hb => by simp at hb, fun hmissed =>
      by simp at hmissed,
      fun _ => hcancel⟩
  | cancel =>
    exact ⟨h.room, h.closed, fun _ hlive => by simp at hlive, h.found, h.got,
      fun hmissed => ⟨(h.missed hmissed).1, fun _ hlive => by simp at hlive⟩, fun _ => rfl⟩

theorem Inv.step (h : Inv capacity prefers w) (hpref : prefers → PrefersValue w act) :
    Inv capacity prefers (step outcome capacity w act) := by
  rcases step_move outcome capacity w act with hm | hm
  · exact h.move hpref hm
  · rw [hm]
    exact h

/-! ### Ends -/

/-- Some worker found a value. -/
def World.Found (w : World β) : Prop := ∃ a ∈ w.arms, a.found.isSome

/-- Nothing moves but searches and the caller's cancellation. -/
def Quiet (outcome : Nat → ρ → Option β) (capacity : Nat) (w : World β) : Prop :=
  ∀ act w', Move outcome capacity w act w' → (∃ i x, act = .search i x) ∨ act = .cancel

/-- What is still to be done. -/
def World.work (w : World β) : Nat :=
  (w.arms.map Arm.work).sum + (if w.closed then 0 else 1) + (if w.answer.isSome then 0 else 1)

theorem work_set {arms : List (Arm β)} {i : Nat} {a : Arm β} (a' : Arm β) (hi : arms[i]? = some a) :
    ((arms.set i a').map Arm.work).sum + a.work = (arms.map Arm.work).sum + a'.work := by
  induction arms generalizing i with
  | nil => simp at hi
  | cons x arms ih =>
    cases i with
    | zero =>
      obtain rfl : x = a := by simpa using hi
      simp only [List.set_cons_zero, List.map_cons, List.sum_cons]
      omega
    | succ i =>
      have := ih (i := i) (by simpa using hi)
      simp only [List.set_cons_succ, List.map_cons, List.sum_cons]
      omega

/-- Every move but the cancellation brings the race nearer to its end. -/
theorem Move.work_lt (hm : Move outcome capacity w act w') (hact : act ≠ .cancel) : w'.work < w.work := by
  cases hm with
  | @search i x hi =>
    have hset := work_set ((outcome i x).elim (.leaving none) .offering) hi
    have hle : ((outcome i x).elim (.leaving none) .offering : Arm β).work ≤ 2 := by
      cases outcome i x <;> simp [Arm.work]
    have h3 : (Arm.running : Arm β).work = 3 := rfl
    simp only [World.work]
    omega
  | @send i b hi hroom =>
    have hset := work_set (.leaving (some b)) hi
    simp only [World.work, Arm.work] at hset ⊢
    omega
  | @drop i b hi hover =>
    have hset := work_set (.leaving (some b)) hi
    simp only [World.work, Arm.work] at hset ⊢
    omega
  | @leave i found hi =>
    have hset := work_set (.finished found) hi
    simp only [World.work, Arm.work] at hset ⊢
    omega
  | close hopen hall => simp [World.work, hopen]
  | take hwait hbuf => simp [World.work, hwait]
  | miss hwait hclosed => simp [World.work, hwait]
  | stop hwait hcancel => simp [World.work, hwait]
  | cancel => exact absurd rfl hact

/-- A race that goes quiet after some worker found a value has answered. -/
theorem Inv.answered (h : Inv capacity prefers w) (hfound : w.Found) (hquiet : Quiet outcome capacity w) :
    w.answer.isSome := by
  have hno : ∀ act w', (∀ i x, act ≠ .search i x) → act ≠ .cancel → ¬Move outcome capacity w act w' := by
    intro act w' hs hc hm
    rcases hquiet act w' hm with ⟨i, x, rfl⟩ | rfl
    · exact hs i x rfl
    · exact hc rfl
  cases hwait : w.answer with
  | some r => rfl
  | none =>
    exfalso
    obtain ⟨a, ha, hsome⟩ := hfound
    obtain ⟨i, hi⟩ := List.mem_iff_getElem?.1 ha
    cases hlive : w.cancelled with
    | true => exact hno .stop _ (by simp) (by simp) (.stop hwait hlive)
    | false =>
      cases hp : a.pending with
      | false =>
        obtain ⟨b, hb⟩ := Option.isSome_iff_exists.1 hsome
        have hin := h.kept hwait hlive a ha hp b hb
        cases hbuf : w.buffer with
        | nil =>
          rw [hbuf] at hin
          cases hin
        | cons b buffer => exact hno .take _ (by simp) (by simp) (.take hwait hbuf)
      | true =>
        have hpos : 0 < w.arms.countP Arm.pending := List.countP_pos_iff.2 ⟨a, ha, hp⟩
        have hroom := h.room
        cases a with
        | running => cases hsome
        | offering b => exact hno (.send i) _ (by simp) (by simp) (.send hi (by omega))
        | leaving found => cases hp
        | finished found => cases hp

/-- Uncancelled, the answer is a value that a worker found, if any found one. -/
theorem Inv.hit (h : Inv capacity True w) (hlive : w.cancelled = false) (hfound : w.Found) {r : Answer β}
    (hr : w.answer = some r) :
    ∃ b, r = .got b ∧ ∃ a ∈ w.arms, a.found = some b := by
  cases r with
  | got b => exact ⟨b, rfl, h.got b hr⟩
  | missed =>
    obtain ⟨a, ha, hsome⟩ := hfound
    rw [(h.missed hr).2 trivial hlive a ha] at hsome
    cases hsome
  | cancelled =>
    rw [h.stopped hr] at hlive
    cases hlive

/-- The workers have all left. -/
def World.Over (w : World β) : Prop := w.closed = true ∧ ∀ a ∈ w.arms, a.isFinished = true

/-- The acts of the workers. -/
def Act.ofWorker : Act ρ → Bool
  | .search _ _ | .send _ | .drop _ | .leave _ | .close => true
  | _ => false

variable (outcome capacity) in
/-- After the answer some worker can move, until all have left. -/
theorem worker_moves (hanswer : w.answer.isSome) (hover : ¬w.Over) (x : ρ) :
    ∃ act w', Move outcome capacity w act w' ∧ act.ofWorker = true ∧ w'.answer = w.answer := by
  by_cases hall : ∀ a ∈ w.arms, a.isFinished = true
  · have hopen : w.closed = false := by
      cases hc : w.closed with
      | false => rfl
      | true => exact absurd ⟨hc, hall⟩ hover
    exact ⟨.close, _, .close hopen hall, rfl, rfl⟩
  · push Not at hall
    obtain ⟨a, ha, hbusy⟩ := hall
    obtain ⟨i, hi⟩ := List.mem_iff_getElem?.1 ha
    cases a with
    | running => exact ⟨.search i x, _, .search hi, rfl, rfl⟩
    | offering b => exact ⟨.drop i, _, .drop hi (.inr hanswer), rfl, rfl⟩
    | leaving found => exact ⟨.leave i, _, .leave hi, rfl, rfl⟩
    | finished found => exact absurd rfl hbusy

/-- After the answer every worker leaves, whatever the searches still give. -/
theorem finishes (hanswer : w.answer.isSome) (x : ρ) :
    ∃ acts : List (Act ρ), (∀ act ∈ acts, act.ofWorker = true) ∧ (acts.foldl (step outcome capacity) w).Over := by
  induction hn : w.work using Nat.strong_induction_on generalizing w with
  | _ n ih =>
    by_cases hover : w.Over
    · exact ⟨[], by simp, hover⟩
    · obtain ⟨act, w', hm, hworker, hsame⟩ := worker_moves outcome capacity hanswer hover x
      have hlt : w'.work < n := hn ▸ hm.work_lt (by rintro rfl; cases hworker)
      obtain ⟨acts, hacts, hend⟩ := ih _ hlt (hsame ▸ hanswer) rfl
      refine ⟨act :: acts, fun act' hact' => ?_, by rwa [List.foldl_cons, hm.step]⟩
      rcases List.mem_cons.1 hact' with rfl | hact'
      · exact hworker
      · exact hacts act' hact'

/-- What the workers found are outcomes of their own searches. -/
def World.Searched (outcome : Nat → ρ → Option β) (w : World β) : Prop :=
  ∀ i a b, w.arms[i]? = some a → a.found = some b → ∃ x, outcome i x = some b

theorem searched_set (h : w.Searched outcome) {i : Nat} {a' : Arm β}
    (ha' : ∀ b, a'.found = some b → ∃ x, outcome i x = some b)
    {j : Nat} {a : Arm β} {b : β} (hj : (w.arms.set i a')[j]? = some a) (hb : a.found = some b) :
    ∃ x, outcome j x = some b := by
  rw [List.getElem?_set] at hj
  split_ifs at hj with hij hlt
  · subst hij
    obtain rfl : a' = a := by simpa using hj
    exact ha' b hb
  · exact h j a b hj hb

theorem World.Searched.move (h : w.Searched outcome) (hm : Move outcome capacity w act w') : w'.Searched outcome := by
  cases hm with
  | @search i x hi =>
    refine fun j a b => searched_set h fun b' hb' => ⟨x, ?_⟩
    cases hout : outcome i x with
    | none =>
      rw [hout] at hb'
      cases hb'
    | some b'' =>
      rw [hout] at hb'
      exact hb'
  | @send i b hi hroom =>
    refine fun j a b' hj hb' => searched_set h ?_ hj hb'
    exact fun b'' hb'' => h i _ b'' hi hb''
  | @drop i b hi hover =>
    refine fun j a b' hj hb' => searched_set h ?_ hj hb'
    exact fun b'' hb'' => h i _ b'' hi hb''
  | @leave i found hi =>
    refine fun j a b' hj hb' => searched_set h ?_ hj hb'
    exact fun b'' hb'' => h i _ b'' hi hb''
  | close | take | miss | stop | cancel => exact h

section
variable {n : Nat} {acts : List (Act ρ)} {k : Nat}

theorem inv_after (hcap : n ≤ capacity) : Inv capacity False (after outcome capacity n acts k) :=
  Runs.always (I := Inv capacity False) (.start hcap) (fun _ _ h => h.step False.elim) k

/-- What a race promises: if a worker found a value it is answered, by a value where the caller `prefers` one, every
move but the caller's cancellation brings its end nearer, and after the answer every worker leaves, whatever the
searches still give. -/
structure Served (outcome : Nat → ρ → Option β) (capacity : Nat) (prefers : Prop) (w : World β) : Prop where
  hit : prefers → w.cancelled = false → w.Found → ∀ r, w.answer = some r → ∃ b, r = .got b ∧ ∃ a ∈ w.arms, a.found = some b
  answered : w.Found → Quiet outcome capacity w → w.answer.isSome
  nearer : ∀ act w', Move outcome capacity w act w' → act ≠ .cancel → w'.work < w.work
  finishes : w.answer.isSome → ∀ _ : ρ, ∃ acts : List (Act ρ), (∀ act ∈ acts, act.ofWorker = true) ∧
    (acts.foldl (step outcome capacity) w).Over

theorem served (hcap : n ≤ capacity) :
    Served outcome capacity (Runs.Along (step outcome capacity) PrefersValue (start n) acts)
    (after outcome capacity n acts k) where
  hit hprefers hlive hfound _ hr :=
    (hprefers.always (I := Inv capacity True) (.start hcap) (fun _ _ hp hs => hs.step fun _ => hp) k).hit hlive hfound hr
  answered := (inv_after hcap).answered
  nearer _ _ hm := hm.work_lt
  finishes := finishes

end

end Race
