import TrackerStream.Runs
import TrackerStream.Text

/-!
# The pool of bake workers

`Semaphore` and `BakePool` of `bake-pool.ts`: a counting semaphore with its queue of waiters, and a fixed pool of workers
with the jobs that wait for one. A worker is the number of its `spawn`; it answers a job at most once, may crash at any
time, and sends nothing after that.
-/

namespace TrackerStream

/-! ### The semaphore -/

/-- The slots taken and the calls of `acquire` that wait; a call is its number. -/
structure Semaphore where
  max : Nat
  cur : Int := 0
  q : List Nat := []
  /-- The calls so far, those that were resolved, and the slots given back. -/
  acquired : Nat := 0
  granted : List Nat := []
  released : Nat := 0

namespace Semaphore

def acquire (s : Semaphore) : Semaphore :=
  if s.cur < s.max then { s with cur := s.cur + 1, granted := s.granted ++ [s.acquired], acquired := s.acquired + 1 }
  else { s with q := s.q ++ [s.acquired], acquired := s.acquired + 1 }

def release (s : Semaphore) : Semaphore :=
  match s.q with
  | w :: q => { s with q, granted := s.granted ++ [w], released := s.released + 1 }
  | [] => { s with cur := s.cur - 1, released := s.released + 1 }

inductive Call
  | acquire
  | release

def step (s : Semaphore) : Call → Semaphore
  | .acquire => s.acquire
  | .release => s.release

/-- A slot is given back by one who holds it. -/
def Allowed (s : Semaphore) : Call → Prop
  | .acquire => True
  | .release => s.released < s.granted.length

/-- The slots are held as they are counted. -/
structure Inv (max : Nat) (s : Semaphore) : Prop where
  max : s.max = max
  cur : s.cur = s.granted.length - s.released
  released : s.released ≤ s.granted.length
  bound : s.cur ≤ s.max
  full : s.q ≠ [] → s.cur = s.max
  order : s.granted ++ s.q = List.range s.acquired

/-- No more than `max` hold a slot, none waits while one is free, and the calls are resolved in order, each once. -/
structure Counts (max : Nat) (s : Semaphore) : Prop where
  holders : s.granted.length - s.released ≤ max
  waiters : s.q ≠ [] → max ≤ s.granted.length - s.released
  order : s.granted ++ s.q = List.range s.acquired

variable {max : Nat} {s : Semaphore}

theorem Inv.start (max : Nat) : Inv max { max } := ⟨rfl, rfl, le_rfl, Int.natCast_nonneg max, fun h => absurd rfl h, rfl⟩

theorem Inv.acquire (h : Inv max s) : Inv max s.acquire := by
  unfold Semaphore.acquire
  have hcur := h.cur
  have hle := h.released
  split
  · rename_i hroom
    have hq : s.q = [] := by
      by_contra hne
      exact absurd (h.full hne) (Int.ne_of_lt hroom)
    have horder := h.order
    rw [hq, List.append_nil] at horder
    refine ⟨h.max, ?_, ?_, ?_, fun hne => absurd hq hne, ?_⟩
    · rw [List.length_append, List.length_singleton]
      dsimp only
      omega
    · rw [List.length_append]
      exact Nat.le_add_right_of_le hle
    · exact hroom
    · rw [hq, List.append_nil, horder, List.range_succ]
  · rename_i hroom
    refine ⟨h.max, hcur, hle, h.bound, fun _ => le_antisymm h.bound (not_lt.1 hroom), ?_⟩
    dsimp only
    rw [← List.append_assoc, h.order, List.range_succ]

theorem Inv.release (h : Inv max s) (hheld : s.released < s.granted.length) : Inv max s.release := by
  unfold Semaphore.release
  have hcur := h.cur
  have hbound := h.bound
  split
  · rename_i w q hq
    have hfull := h.full (by rw [hq]; exact List.cons_ne_nil w q)
    refine ⟨h.max, ?_, ?_, hbound, fun _ => hfull, ?_⟩
    · rw [List.length_append, List.length_singleton]
      dsimp only
      omega
    · rw [List.length_append]
      exact Nat.add_le_add_right h.released 1
    · dsimp only
      rw [List.append_assoc, List.singleton_append, ← hq]
      exact h.order
  · rename_i hq
    refine ⟨h.max, ?_, hheld, ?_, fun hne => absurd hq hne, h.order⟩
    · dsimp only
      omega
    · dsimp only
      omega

theorem Inv.counts (h : Inv max s) : Counts max s := by
  have hcur := h.cur
  have hle := h.released
  have hmax := h.max
  have hbound := h.bound
  refine ⟨by omega, fun hne => ?_, h.order⟩
  have := h.full hne
  omega

/-- Every run of calls in which slots are given back by who holds them. -/
theorem counts {is : List Call} (h : Runs.Along step Allowed { max } is) (k : Nat) :
    Counts max (Runs.state step { max } is k) := by
  refine (h.always (Inv.start max) (fun s i hi hs => ?_) k).counts
  cases i with
  | acquire => exact hs.acquire
  | release => exact hs.release hi

end Semaphore

/-! ### The pool -/

structure BakeResult where
  id : Nat
  ok : Bool
  root : Option String := none
  isFlat : Option Bool := none
  blocks : Option (List (String × Bytes)) := none
  error : Option String := none
deriving DecidableEq

structure BakeJob where
  id : Nat
  bytes : Bytes
  name : String
deriving DecidableEq

/-- The fields of the class, and what is around it. A worker is the number of its `spawn`, a promise that of its `run`. -/
structure BakePool where
  workers : List Nat := []
  free : List Nat := []
  jobs : Nat → Option Nat := fun _ => none
  busy : Nat → Option Nat := fun _ => none
  pending : List BakeJob := []
  nextId : Nat := 0
  closed : Bool := false
  spawned : Nat := 0
  /-- The workers whose error has come. -/
  crashed : List Nat := []
  /-- The jobs a worker has: it was posted them and has not answered. -/
  inbox : Nat → List BakeJob := fun _ => []
  /-- The job each call of `run` makes. -/
  calls : List BakeJob := []
  /-- The promises resolved, and with what. -/
  settled : List (Nat × BakeResult) := []

namespace BakePool

def crashResult (jobId : Nat) (e : String) : BakeResult :=
  { id := jobId, ok := false, error := some s!"bake worker crashed: {e}" }

def spawn (s : BakePool) : BakePool :=
  { s with workers := s.workers ++ [s.spawned], free := s.free ++ [s.spawned], spawned := s.spawned + 1 }

/-- Give the first pending job to the worker. -/
def assign (s : BakePool) (w : Nat) (job : BakeJob) (pending : List BakeJob) : BakePool :=
  { s with
    free := s.free.dropLast
    pending
    busy := Function.update s.busy w (some job.id)
    inbox := Function.update s.inbox w (s.inbox w ++ [job]) }

def pumpJobs : List BakeJob → BakePool → BakePool
  | [], s => s
  | job :: pending, s =>
    match s.free.getLast? with
    | none => s
    | some w => pumpJobs pending (s.assign w job pending)

def pump (s : BakePool) : BakePool := pumpJobs s.pending s

/-- Resolve the promise of a job, if there is one. -/
def settle (s : BakePool) (id : Nat) (r : BakeResult) : BakePool :=
  { s with
    jobs := Function.update s.jobs id none
    settled := s.settled ++ ((s.jobs id).map fun p => (p, r)).toList }

/-- A job is answered. -/
def answered (s : BakePool) (w : Nat) (m : BakeResult) : BakePool :=
  { s.settle m.id m with
    busy := Function.update s.busy w none
    free := s.free ++ [w]
    inbox := Function.update s.inbox w ((s.inbox w).filter (·.id ≠ m.id)) }

/-- The handler of a worker's messages. -/
def message (s : BakePool) (w : Nat) (m : BakeResult) : BakePool := (s.answered w m).pump

/-- A worker is gone. -/
def drop (s : BakePool) (w : Nat) : BakePool :=
  { s with
    busy := Function.update s.busy w none
    workers := s.workers.filter (· ≠ w)
    free := s.free.filter (· ≠ w)
    crashed := s.crashed ++ [w]
    inbox := Function.update s.inbox w [] }

/-- The handler of a worker's error. -/
def error (s : BakePool) (w : Nat) (e : String) : BakePool :=
  let jobId := s.busy w
  let s := s.drop w
  let s := match jobId with
    | some id => s.settle id (crashResult id e)
    | none => s
  if s.closed then s else s.spawn.pump

/-- A job joins the queue. -/
def enqueue (s : BakePool) (bytes : Bytes) (name : String) : BakePool :=
  let job : BakeJob := ⟨s.nextId, bytes, name⟩
  { s with
    nextId := s.nextId + 1
    jobs := Function.update s.jobs s.nextId (some s.calls.length)
    pending := s.pending ++ [job]
    calls := s.calls ++ [job] }

def run (s : BakePool) (bytes : Bytes) (name : String) : BakePool := (s.enqueue bytes name).pump

def close (s : BakePool) : BakePool := { s with closed := true }

/-- The constructor. -/
def start (n : Nat) : BakePool := spawn^[n] {}

inductive Event
  | run (bytes : Bytes) (name : String)
  | message (w : Nat) (m : BakeResult)
  | error (w : Nat) (e : String)
  | close

def step (s : BakePool) : Event → BakePool
  | .run bytes name => s.run bytes name
  | .message w m => s.message w m
  | .error w e => s.error w e
  | .close => s.close

def Live (s : BakePool) (w : Nat) : Prop := w < s.spawned ∧ w ∉ s.crashed

instance (s : BakePool) (w : Nat) : Decidable (s.Live w) := inferInstanceAs (Decidable (_ ∧ _))

/-- A live worker answers a job it was posted, or crashes; the pool is not closed. -/
def Allowed (s : BakePool) : Event → Prop
  | .run _ _ => True
  | .message w m => s.Live w ∧ ∃ job ∈ s.inbox w, job.id = m.id
  | .error w _ => s.Live w
  | .close => False

/-- What the promise `p` is resolved with by an event: the answer of a worker to the job of its call, or the crash of
the worker that has it. -/
inductive Own (s : BakePool) : Event → Nat → BakeResult → Prop
  | answer {w p : Nat} {m : BakeResult} {job : BakeJob} (hjob : job ∈ s.inbox w) (hid : job.id = m.id)
    (hcall : s.calls[p]? = some job) : Own s (.message w m) p m
  | crash {w p : Nat} {e : String} {job : BakeJob} (hjob : job ∈ s.inbox w) (hcall : s.calls[p]? = some job) :
    Own s (.error w e) p (crashResult job.id e)

/-- What the pool says of its workers and jobs at the end of every event. -/
structure Accounted (n : Nat) (s : BakePool) : Prop where
  once : (s.settled.map (·.1)).Nodup
  single : ∀ w, (s.inbox w).length ≤ 1
  live : ∀ w, w ∈ s.workers ↔ s.Live w
  size : s.workers.Nodup ∧ s.workers.length = n
  idle : ∀ w, s.Live w → s.inbox w = [] → s.pending = []

/-- The collections are in step. -/
structure Sound (n : Nat) (s : BakePool) : Prop where
  opened : s.closed = false
  nodup : s.workers.Nodup
  size : s.workers.length = n
  live : ∀ w, w ∈ s.workers ↔ s.Live w
  born : ∀ w, s.spawned ≤ w → w ∉ s.crashed ∧ s.busy w = none ∧ s.inbox w = []
  free_nodup : s.free.Nodup
  free : ∀ w, w ∈ s.free ↔ w ∈ s.workers ∧ s.busy w = none
  busy : ∀ w, s.busy w ≠ none → w ∈ s.workers
  inbox : ∀ w ∈ s.workers, (s.inbox w).map (·.id) = (s.busy w).toList
  single : ∀ w, (s.inbox w).length ≤ 1
  count : s.nextId = s.calls.length
  jobs : ∀ id p, s.jobs id = some p → p = id ∧ id < s.nextId
  active : ∀ id, s.jobs id ≠ none ↔ (∃ w, s.busy w = some id) ∨ id ∈ s.pending.map (·.id)
  once : (s.settled.map (·.1)).Nodup
  resolved : ∀ p, p ∈ s.settled.map (·.1) ↔ p < s.nextId ∧ s.jobs p = none
  pending_nodup : (s.pending.map (·.id)).Nodup
  busy_inj : ∀ w w' id, s.busy w = some id → s.busy w' = some id → w = w'
  apart : ∀ w id, s.busy w = some id → id ∉ s.pending.map (·.id)
  called : ∀ job, (job ∈ s.pending ∨ ∃ w, job ∈ s.inbox w) → s.calls[job.id]? = some job

theorem nodup_snoc {l : List Nat} {a : Nat} (h : l.Nodup) (ha : a ∉ l) : (l ++ [a]).Nodup := by
  rw [← List.concat_eq_append]
  exact h.concat ha

variable {n w id : Nat} {s : BakePool} {job : BakeJob} {pending : List BakeJob} {m : BakeResult} {e : String}

theorem Sound.inbox_of_free (h : Sound n s) (hw : w ∈ s.free) : s.inbox w = [] := by
  obtain ⟨hlive, hbusy⟩ := (h.free w).1 hw
  have := h.inbox w hlive
  rwa [hbusy, Option.toList_none, List.map_eq_nil_iff] at this

/-- A job goes from the queue to a free worker. -/
theorem Sound.assign (h : Sound n s) (hfree : s.free.getLast? = some w) (hp : s.pending = job :: pending) :
    Sound n (s.assign w job pending) := by
  have hw : w ∈ s.free := List.mem_of_getLast? hfree
  obtain ⟨hlive, hbusy⟩ := (h.free w).1 hw
  have hempty := h.inbox_of_free hw
  have hsplit : s.free = s.free.dropLast ++ [w] := (List.dropLast_append_getLast? w hfree).symm
  have hnodup := h.free_nodup
  rw [hsplit, List.nodup_append] at hnodup
  have hout : w ∉ s.free.dropLast := fun hmem => hnodup.2.2 w hmem w (List.mem_singleton_self w) rfl
  have hmem (v : Nat) : v ∈ s.free ↔ v ∈ s.free.dropLast ∨ v = w := by
    rw [hsplit, List.mem_append, List.mem_singleton, ← hsplit]
  have hborn : w < s.spawned := ((h.live w).1 hlive).1
  have hnew (v id : Nat) : (s.assign w job pending).busy v = some id ↔ v = w ∧ id = job.id ∨ s.busy v = some id := by
    by_cases hv : v = w
    · subst hv
      simp [BakePool.assign, hbusy, eq_comm]
    · simp [BakePool.assign, hv]
  have hids : s.pending.map (·.id) = job.id :: pending.map (·.id) := by rw [hp, List.map_cons]
  have hpending := h.pending_nodup
  rw [hids, List.nodup_cons] at hpending
  have hjob : ∀ v, s.busy v ≠ some job.id := fun v hv => h.apart v job.id hv (hids ▸ List.mem_cons_self)
  refine {
    opened := h.opened, nodup := h.nodup, size := h.size, live := h.live, born := fun v hv => ?_,
    free_nodup := hnodup.1, free := fun v => ?_, busy := fun v hv => ?_, inbox := fun v hv => ?_,
    single := fun v => ?_, count := h.count, jobs := h.jobs, active := fun id => ?_, once := h.once,
    resolved := h.resolved, pending_nodup := hpending.2, busy_inj := fun v v' id hv hv' => ?_,
    apart := fun v id hv => ?_, called := fun j hj => ?_ }
  · obtain ⟨hcrashed, hnone, hnil⟩ := h.born v hv
    have hne : v ≠ w := fun heq => absurd hv (not_le.2 (heq ▸ hborn))
    simp [BakePool.assign, hne, hcrashed, hnone, hnil]
  · rw [Option.eq_none_iff_forall_ne_some]
    simp only [ne_eq, hnew, not_or, forall_and]
    have := (h.free v).trans (and_congr_right fun _ => Option.eq_none_iff_forall_ne_some)
    rw [hmem] at this
    by_cases hv : v = w
    · subst hv
      exact iff_of_false hout fun hcon => hcon.2.1 job.id ⟨rfl, rfl⟩
    · simpa [BakePool.assign, hv] using this
  · obtain ⟨id, hid⟩ := Option.ne_none_iff_exists'.1 hv
    rcases (hnew v id).1 hid with ⟨rfl, -⟩ | hold
    · exact hlive
    · exact h.busy v (by rw [hold]; exact Option.some_ne_none id)
  · by_cases hv' : v = w
    · subst hv'
      simp [BakePool.assign, hempty]
    · simpa [BakePool.assign, hv'] using h.inbox v hv
  · by_cases hv' : v = w
    · subst hv'
      simp [BakePool.assign, hempty]
    · simpa [BakePool.assign, hv'] using h.single v
  · rw [show (s.assign w job pending).jobs = s.jobs from rfl, h.active, hids, List.mem_cons]
    simp only [hnew, exists_or, exists_eq_left]
    exact or_left_comm.trans or_assoc.symm |>.trans (by tauto)
  · rcases (hnew v id).1 hv with ⟨rfl, rfl⟩ | hold <;> rcases (hnew v' _).1 hv' with ⟨rfl, heq⟩ | hold'
    · rfl
    · exact absurd hold' (hjob v')
    · exact absurd (heq ▸ hold) (hjob v)
    · exact h.busy_inj v v' id hold hold'
  · rcases (hnew v id).1 hv with ⟨-, rfl⟩ | hold
    · exact hpending.1
    · intro hin
      exact h.apart v id hold (hids ▸ List.mem_cons_of_mem _ hin)
  · refine h.called j ?_
    rcases hj with hj | ⟨v, hj⟩
    · exact .inl (hp ▸ List.mem_cons_of_mem _ hj)
    · by_cases hv : v = w
      · subst hv
        simp only [BakePool.assign, Function.update_self, hempty, List.nil_append, List.mem_singleton] at hj
        exact .inl (hp ▸ hj ▸ List.mem_cons_self)
      · exact .inr ⟨v, by simpa [BakePool.assign, hv] using hj⟩

theorem Sound.pump (h : Sound n s) : Sound n s.pump ∧ (s.pump.free = [] ∨ s.pump.pending = []) := by
  rw [BakePool.pump]
  generalize hp : s.pending = jobs
  induction jobs generalizing s with
  | nil => exact ⟨h, .inr hp⟩
  | cons job pending ih =>
    rw [pumpJobs]
    cases hfree : s.free.getLast? with
    | none => exact ⟨h, .inl (List.getLast?_eq_none_iff.1 hfree)⟩
    | some w => exact ih (h.assign hfree hp) rfl

theorem Sound.spawn (h : Sound n s) : Sound (n + 1) s.spawn := by
  obtain ⟨hcrashed, hbusy, hinbox⟩ := h.born s.spawned le_rfl
  have hout : s.spawned ∉ s.workers := fun hmem => lt_irrefl _ ((h.live _).1 hmem).1
  have hfree : s.spawned ∉ s.free := fun hmem => hout ((h.free _).1 hmem).1
  have hmem (v : Nat) : v ∈ s.spawn.workers ↔ v ∈ s.workers ∨ v = s.spawned := by simp [BakePool.spawn]
  refine { h with
    nodup := ?_, size := ?_, live := fun v => ?_, born := fun v hv => h.born v (Nat.le_of_succ_le hv),
    free_nodup := ?_, free := fun v => ?_, busy := fun v hv => ?_, inbox := fun v hv => ?_ }
  · exact nodup_snoc h.nodup hout
  · rw [BakePool.spawn, List.length_append, h.size, List.length_singleton]
  · rw [hmem, h.live]
    simp only [Live, BakePool.spawn]
    constructor
    · rintro (⟨hlt, hno⟩ | rfl)
      · exact ⟨Nat.lt_succ_of_lt hlt, hno⟩
      · exact ⟨Nat.lt_succ_self _, hcrashed⟩
    · rintro ⟨hlt, hno⟩
      rcases Nat.lt_succ_iff_lt_or_eq.1 hlt with hlt | heq
      · exact .inl ⟨hlt, hno⟩
      · exact .inr heq
  · exact nodup_snoc h.free_nodup hfree
  · rw [hmem, BakePool.spawn, List.mem_append, List.mem_singleton, h.free, or_and_right]
    refine or_congr_right ⟨?_, And.left⟩
    rintro rfl
    exact ⟨rfl, hbusy⟩
  · exact (hmem v).2 (.inl (h.busy v hv))
  · rcases (hmem v).1 hv with hold | rfl
    · exact h.inbox v hold
    · rw [show s.spawn.inbox = s.inbox from rfl, hinbox, show s.spawn.busy = s.busy from rfl, hbusy]
      rfl

/-- A live worker that has a job has the one it is busy with. -/
theorem Sound.busy_of_inbox (h : Sound n s) (hw : w ∈ s.workers) (hjob : job ∈ s.inbox w) :
    s.busy w = some job.id ∧ s.inbox w = [job] := by
  have hone : s.inbox w = [job] := by
    have hsingle := h.single w
    cases hlist : s.inbox w with
    | nil =>
      rw [hlist] at hjob
      cases hjob
    | cons j js =>
      rw [hlist, List.length_cons] at hsingle
      rw [hlist, List.length_eq_zero_iff.1 (Nat.le_zero.1 (Nat.le_of_succ_le_succ hsingle)), List.mem_singleton] at hjob
      rw [List.length_eq_zero_iff.1 (Nat.le_zero.1 (Nat.le_of_succ_le_succ hsingle)), hjob]
  have hmap := h.inbox w hw
  rw [hone, List.map_singleton] at hmap
  exact ⟨Option.toList_eq_singleton_iff.1 hmap.symm, hone⟩

/-- A promise whose job is on its way is there to be resolved. -/
theorem Sound.jobs_of_busy (h : Sound n s) (hbusy : s.busy w = some id) : s.jobs id = some id := by
  obtain ⟨p, hp⟩ := Option.ne_none_iff_exists'.1 ((h.active id).2 (.inl ⟨w, hbusy⟩))
  rw [hp, (h.jobs id p hp).1]

theorem Sound.settled_answered (h : Sound n s) (hbusy : s.busy w = some m.id) :
    (s.answered w m).settled = s.settled ++ [(m.id, m)] := by
  rw [BakePool.answered, settle, h.jobs_of_busy hbusy, Option.map_some, Option.toList_some]

theorem Sound.answered (h : Sound n s) (hbusy : s.busy w = some m.id) (hjob : s.inbox w = [job]) (hid : job.id = m.id) :
    Sound n (s.answered w m) := by
  have hw := h.busy w (by rw [hbusy]; exact Option.some_ne_none m.id)
  have hprom := h.jobs_of_busy hbusy
  have hout : w ∉ s.free := fun hmem => by
    rw [((h.free w).1 hmem).2] at hbusy
    cases hbusy
  have hmap : (s.answered w m).settled.map (·.1) = s.settled.map (·.1) ++ [m.id] := by
    rw [h.settled_answered hbusy, List.map_append, List.map_singleton]
  have hnew (v id : Nat) : (s.answered w m).busy v = some id ↔ v ≠ w ∧ s.busy v = some id := by
    by_cases hv : v = w
    · subst hv
      simp [BakePool.answered]
    · simp [BakePool.answered, hv]
  have hjobs (id : Nat) : (s.answered w m).jobs id = if id = m.id then none else s.jobs id := Function.update_apply ..
  have hnil (v : Nat) : (s.answered w m).inbox v = if v = w then [] else s.inbox v := by
    by_cases hv : v = w
    · subst hv
      simp [BakePool.answered, hjob, hid]
    · simp [BakePool.answered, hv]
  have hpast : m.id ∉ s.settled.map (·.1) := fun hmem => by
    rw [((h.resolved m.id).1 hmem).2] at hprom
    cases hprom
  have hother : ∀ v, v ≠ w → s.busy v ≠ some m.id := fun v hv hcon => hv (h.busy_inj v w m.id hcon hbusy)
  refine { h with
    born := fun v hv => ?_, free_nodup := ?_, free := fun v => ?_, busy := fun v hv => ?_,
    inbox := fun v hv => ?_, single := fun v => ?_, jobs := fun id p hp => ?_, active := fun id => ?_,
    once := ?_, resolved := fun p => ?_, busy_inj := fun v v' id hv hv' => ?_, apart := fun v id hv => ?_,
    called := fun j hj => ?_ }
  · obtain ⟨hcrashed, hnone, hempty⟩ := h.born v hv
    have hne : v ≠ w := fun heq => absurd hv (not_le.2 (heq ▸ ((h.live w).1 hw).1))
    refine ⟨hcrashed, (Function.update_of_ne hne ..).trans hnone, ?_⟩
    rw [hnil, if_neg hne, hempty]
  · exact nodup_snoc h.free_nodup hout
  · rw [show (s.answered w m).free = s.free ++ [w] from rfl, List.mem_append, List.mem_singleton, h.free]
    by_cases hv : v = w
    · subst hv
      exact iff_of_true (.inr rfl) ⟨hw, Function.update_self ..⟩
    · rw [show (s.answered w m).busy v = s.busy v from Function.update_of_ne hv ..]
      exact or_iff_left hv
  · obtain ⟨id, hid⟩ := Option.ne_none_iff_exists'.1 hv
    exact h.busy v (by rw [((hnew v id).1 hid).2]; exact Option.some_ne_none id)
  · rw [hnil]
    split
    · rename_i heq
      subst heq
      rw [show (s.answered v m).busy v = none from Function.update_self ..]
      rfl
    · rename_i hne
      rw [show (s.answered w m).busy v = s.busy v from Function.update_of_ne hne ..]
      exact h.inbox v hv
  · rw [hnil]
    split
    · exact Nat.zero_le 1
    · exact h.single v
  · rw [hjobs] at hp
    split at hp
    · cases hp
    · exact h.jobs id p hp
  · simp only [hjobs, hnew]
    split
    · rename_i heq
      subst heq
      refine iff_of_false (fun hcon => hcon rfl) ?_
      rintro (⟨v, hne, hv⟩ | hin)
      · exact hother v hne hv
      · exact h.apart w m.id hbusy hin
    · rename_i hne
      rw [h.active id]
      refine or_congr_left (exists_congr fun v => ⟨fun hv => ⟨?_, hv⟩, And.right⟩)
      rintro rfl
      exact hne (Option.some.inj (hv.symm.trans hbusy))
  · rw [hmap]
    exact nodup_snoc h.once hpast
  · rw [hmap, List.mem_append, List.mem_singleton, h.resolved, hjobs]
    split
    · rename_i heq
      exact iff_of_true (.inr heq) ⟨heq ▸ (h.jobs _ _ hprom).2, rfl⟩
    · rename_i hne
      exact or_iff_left hne
  · exact h.busy_inj v v' id ((hnew v id).1 hv).2 ((hnew v' id).1 hv').2
  · exact h.apart v id ((hnew v id).1 hv).2
  · refine h.called j (hj.imp_right ?_)
    rintro ⟨v, hv⟩
    rw [hnil] at hv
    split at hv
    · cases hv
    · exact ⟨v, hv⟩

theorem Sound.drop (h : Sound (n + 1) s) (hw : w ∈ s.workers) (hbusy : s.busy w = none) : Sound n (s.drop w) := by
  have hempty : s.inbox w = [] := by
    have := h.inbox w hw
    rwa [hbusy, Option.toList_none, List.map_eq_nil_iff] at this
  have hbusy' : (s.drop w).busy = s.busy := by
    rw [BakePool.drop, ← hbusy]
    exact Function.update_eq_self ..
  have hinbox' : (s.drop w).inbox = s.inbox := by
    rw [BakePool.drop, ← hempty]
    exact Function.update_eq_self ..
  have hmem (v : Nat) : v ∈ (s.drop w).workers ↔ v ∈ s.workers ∧ v ≠ w := by simp [BakePool.drop]
  have hborn := ((h.live w).1 hw).1
  refine { h with
    nodup := h.nodup.filter _, size := ?_, live := fun v => ?_, born := fun v hv => ?_,
    free_nodup := h.free_nodup.filter _, free := fun v => ?_, busy := fun v hv => ?_,
    inbox := fun v hv => ?_, single := fun v => ?_, active := fun id => ?_, busy_inj := ?_, apart := ?_,
    called := ?_ }
  · have herase : (s.drop w).workers = s.workers.erase w := by
      rw [h.nodup.erase_eq_filter]
      exact List.filter_congr fun v _ => Bool.eq_iff_iff.2 (by simp)
    rw [herase, List.length_erase_of_mem hw, h.size, Nat.add_sub_cancel]
  · rw [hmem, h.live]
    simp only [Live, BakePool.drop, List.mem_append, List.mem_singleton, not_or, and_assoc, ne_eq]
  · obtain ⟨hcrashed, hnone, hnil⟩ := h.born v hv
    refine ⟨?_, hbusy' ▸ hnone, hinbox' ▸ hnil⟩
    rw [show (s.drop w).crashed = s.crashed ++ [w] from rfl, List.mem_append, List.mem_singleton, not_or]
    exact ⟨hcrashed, fun heq => absurd hv (not_le.2 (heq ▸ hborn))⟩
  · rw [hmem, hbusy', and_right_comm, ← h.free]
    simp [BakePool.drop]
  · rw [hbusy'] at hv
    refine (hmem v).2 ⟨h.busy v hv, ?_⟩
    rintro rfl
    exact hv hbusy
  · rw [hinbox', hbusy']
    exact h.inbox v ((hmem v).1 hv).1
  · rw [hinbox']
    exact h.single v
  · rw [hbusy']
    exact h.active id
  · rw [hbusy']
    exact h.busy_inj
  · rw [hbusy']
    exact h.apart
  · rw [hinbox']
    exact h.called

/-- A crash with a job is its answer and then a crash without. -/
theorem drop_settle : (s.drop w).settle m.id m = (s.answered w m).drop w := by
  simp [BakePool.drop, BakePool.answered, settle, List.filter_append]

/-- What the handler of an error does before it pumps. -/
theorem Sound.error (h : Sound n s) (ha : s.Allowed (.error w e)) : ∃ s', Sound n s' ∧ s.error w e = s'.pump ∧
    s'.calls = s.calls ∧ s'.settled = s.settled ++ ((s.inbox w).map fun job => (job.id, crashResult job.id e)) := by
  have hw := (h.live w).2 ha
  obtain ⟨k, rfl⟩ : ∃ k, n = k + 1 := by
    refine Nat.exists_eq_succ_of_ne_zero fun hzero => ?_
    rw [List.length_eq_zero_iff.1 (h.size.trans hzero)] at hw
    cases hw
  cases hbusy : s.busy w with
  | none =>
    have hnil : s.inbox w = [] := by
      have := h.inbox w hw
      rwa [hbusy, Option.toList_none, List.map_eq_nil_iff] at this
    have hdrop := h.drop hw hbusy
    refine ⟨(s.drop w).spawn, hdrop.spawn, ?_, rfl, ?_⟩
    · rw [BakePool.error, hbusy]
      exact if_neg (by rw [hdrop.opened]; exact Bool.false_ne_true)
    · rw [hnil, List.map_nil, List.append_nil]
      rfl
  | some id =>
    have hmap := h.inbox w hw
    rw [hbusy, Option.toList_some, List.map_eq_singleton_iff] at hmap
    obtain ⟨job, hone, rfl⟩ := hmap
    have hans := h.answered (m := crashResult job.id e) hbusy hone rfl
    have hdrop := hans.drop hw (Function.update_self ..)
    refine ⟨((s.answered w (crashResult job.id e)).drop w).spawn, hdrop.spawn, ?_, rfl, ?_⟩
    · have herror : s.error w e =
          let s' := (s.drop w).settle (crashResult job.id e).id (crashResult job.id e)
          if s'.closed then s' else s'.spawn.pump := by
        rw [BakePool.error, hbusy]
        rfl
      rw [herror, drop_settle]
      exact if_neg (by rw [hdrop.opened]; exact Bool.false_ne_true)
    · rw [hone, List.map_singleton]
      simp [BakePool.spawn, BakePool.drop, BakePool.answered, settle, crashResult, h.jobs_of_busy hbusy]

theorem Sound.enqueue (h : Sound n s) (bytes : Bytes) (name : String) : Sound n (s.enqueue bytes name) := by
  have hfresh : s.jobs s.nextId = none := by
    cases hjob : s.jobs s.nextId with
    | none => rfl
    | some p => exact absurd (h.jobs _ _ hjob).2 (lt_irrefl _)
  have hidle := mt (h.active s.nextId).2 (not_not_intro hfresh)
  rw [not_or, not_exists] at hidle
  have hjobs (id : Nat) : (s.enqueue bytes name).jobs id = if id = s.nextId then some s.nextId else s.jobs id := by
    refine (Function.update_apply ..).trans ?_
    rw [h.count]
  have hids : (s.enqueue bytes name).pending.map (·.id) = s.pending.map (·.id) ++ [s.nextId] := by
    rw [BakePool.enqueue, List.map_append, List.map_singleton]
  refine { h with
    count := ?_, jobs := fun id p hp => ?_, active := fun id => ?_, resolved := fun p => ?_,
    pending_nodup := ?_, apart := fun w id hw => ?_, called := fun j hj => ?_ }
  · rw [show (s.enqueue bytes name).calls = s.calls ++ [⟨s.nextId, bytes, name⟩] from rfl, List.length_append, ← h.count]
    rfl
  · rw [hjobs] at hp
    split at hp
    · rename_i heq
      exact ⟨heq ▸ (Option.some.inj hp).symm, heq ▸ Nat.lt_succ_self _⟩
    · exact (h.jobs id p hp).imp_right Nat.lt_succ_of_lt
  · rw [hjobs, hids, List.mem_append, List.mem_singleton, ← or_assoc]
    split
    · rename_i heq
      exact iff_of_true (Option.some_ne_none _) (.inr heq)
    · rename_i hne
      exact (h.active id).trans (or_iff_left hne).symm
  · rw [hjobs]
    refine (h.resolved p).trans ?_
    split
    · rename_i heq
      refine iff_of_false (fun hcon => lt_irrefl _ (heq ▸ hcon.1)) ?_
      rintro ⟨-, ⟨⟩⟩
    · rename_i hne
      exact and_congr_left fun _ => ⟨Nat.lt_succ_of_lt, fun hlt => (Nat.lt_succ_iff_lt_or_eq.1 hlt).resolve_right hne⟩
  · rw [hids]
    exact nodup_snoc h.pending_nodup hidle.2
  · rw [hids, List.mem_append, List.mem_singleton, not_or]
    refine ⟨h.apart w id hw, ?_⟩
    rintro rfl
    exact hidle.1 w hw
  · have hold (hj : j ∈ s.pending ∨ ∃ w, j ∈ s.inbox w) : (s.enqueue bytes name).calls[j.id]? = some j := by
      have hcall := h.called j hj
      rw [BakePool.enqueue, List.getElem?_append_left (List.getElem?_eq_some_iff.1 hcall).1, hcall]
    rcases hj with hj | hj
    · rcases List.mem_append.1 hj with hj | hj
      · exact hold (.inl hj)
      · rw [List.mem_singleton.1 hj, BakePool.enqueue, h.count]
        exact List.getElem?_concat_length
    · exact hold (.inr hj)

theorem Sound.start (n : Nat) : Sound n (start n) := by
  have hempty : Sound 0 {} := by
    constructor <;> simp [Live]
  induction n with
  | zero => exact hempty
  | succ n ih =>
    rw [BakePool.start, Function.iterate_succ_apply']
    exact ih.spawn

theorem pumpJobs_frame (jobs : List BakeJob) (s : BakePool) :
    (pumpJobs jobs s).settled = s.settled ∧ (pumpJobs jobs s).calls = s.calls := by
  induction jobs generalizing s with
  | nil => exact ⟨rfl, rfl⟩
  | cons job pending ih =>
    rw [pumpJobs]
    split
    · exact ⟨rfl, rfl⟩
    · exact ih _

theorem settled_pump (s : BakePool) : s.pump.settled = s.settled := (pumpJobs_frame _ s).1

theorem Sound.step {i : Event} (h : Sound n s) (ha : s.Allowed i) :
    Sound n (s.step i) ∧ ((s.step i).free = [] ∨ (s.step i).pending = []) := by
  cases i with
  | run bytes name =>
    exact (h.enqueue bytes name).pump
  | message w m =>
    obtain ⟨hlive, job, hjob, hid⟩ := ha
    obtain ⟨hbusy, hone⟩ := h.busy_of_inbox ((h.live w).2 hlive) hjob
    exact (h.answered (hid ▸ hbusy) hone hid).pump
  | error w e =>
    obtain ⟨s', hs', heq, -, -⟩ := h.error ha
    rw [BakePool.step, heq]
    exact hs'.pump
  | close => exact ha.elim

/-- An event resolves the promises that are its own. -/
theorem Sound.own {i : Event} (h : Sound n s) (ha : s.Allowed i) {x : Nat × BakeResult} (hx : x ∈ (s.step i).settled) :
    x ∈ s.settled ∨ Own s i x.1 x.2 := by
  cases i with
  | run bytes name =>
    rw [BakePool.step, BakePool.run, settled_pump] at hx
    exact .inl hx
  | message w m =>
    obtain ⟨hlive, job, hjob, hid⟩ := ha
    have hbusy := (h.busy_of_inbox ((h.live w).2 hlive) hjob).1
    rw [BakePool.step, BakePool.message, settled_pump, h.settled_answered (hid ▸ hbusy), List.mem_append,
      List.mem_singleton] at hx
    refine hx.imp_right ?_
    rintro rfl
    exact .answer hjob hid (hid ▸ h.called job (.inr ⟨w, hjob⟩))
  | error w e =>
    obtain ⟨s', -, heq, -, hsettled⟩ := h.error ha
    rw [BakePool.step, heq, settled_pump, hsettled, List.mem_append] at hx
    refine hx.imp_right fun hx => ?_
    obtain ⟨job, hjob, rfl⟩ := List.mem_map.1 hx
    exact .crash hjob (h.called job (.inr ⟨w, hjob⟩))
  | close => exact ha.elim

theorem Sound.accounted (h : Sound n s) (hidle : s.free = [] ∨ s.pending = []) : Accounted n s := by
  refine ⟨h.once, h.single, h.live, ⟨h.nodup, h.size⟩, fun w hw hnil => hidle.resolve_left fun hfree => ?_⟩
  have hmem := (h.live w).2 hw
  have hbusy := h.inbox w hmem
  rw [hnil, List.map_nil] at hbusy
  have := (h.free w).2 ⟨hmem, Option.toList_eq_nil_iff.1 hbusy.symm⟩
  rw [hfree] at this
  cases this

/-- Every call is resolved, waits for a worker, or a live worker has its job. -/
theorem Sound.not_lost (h : Sound n s) {p : Nat} (hp : p < s.calls.length) :
    p ∈ s.settled.map (·.1) ∨ p ∈ s.pending.map (·.id) ∨ ∃ w, s.Live w ∧ p ∈ (s.inbox w).map (·.id) := by
  by_cases hjob : s.jobs p = none
  · exact .inl ((h.resolved p).2 ⟨h.count ▸ hp, hjob⟩)
  · rcases (h.active p).1 hjob with ⟨w, hw⟩ | hin
    · have hmem := h.busy w (by rw [hw]; exact Option.some_ne_none p)
      refine .inr (.inr ⟨w, (h.live w).1 hmem, ?_⟩)
      rw [h.inbox w hmem, hw]
      exact List.mem_singleton_self p
    · exact .inr (.inl hin)

section
variable {is : List Event}

theorem sound_runs (h : Runs.Along step Allowed (start n) is) (k : Nat) : Sound n (Runs.state step (start n) is k) :=
  h.always (Sound.start n) (fun _ _ hi hs => (hs.step hi).1) k

theorem pending_start (n : Nat) : (start n).pending = [] := by
  induction n with
  | zero => rfl
  | succ n ih => rwa [start, Function.iterate_succ_apply']

theorem idle_runs (h : Runs.Along step Allowed (start n) is) (k : Nat) :
    (Runs.state step (start n) is k).free = [] ∨ (Runs.state step (start n) is k).pending = [] := by
  exact (h.always (I := fun s => Sound n s ∧ (s.free = [] ∨ s.pending = [])) ⟨Sound.start n, .inr (pending_start n)⟩
    (fun _ _ hi hs => hs.1.step hi) k).2

/-- No call is lost, in every run. -/
theorem not_lost (h : Runs.Along step Allowed (start n) is) (k : Nat) {p : Nat}
    (hp : p < (Runs.state step (start n) is k).calls.length) :
    p ∈ (Runs.state step (start n) is k).settled.map (·.1) ∨ p ∈ (Runs.state step (start n) is k).pending.map (·.id) ∨
      ∃ w, (Runs.state step (start n) is k).Live w ∧ p ∈ ((Runs.state step (start n) is k).inbox w).map (·.id) :=
  (sound_runs h k).not_lost hp

end
end BakePool

/-- The pool accounts for its workers and jobs, and the semaphore for its slots, in every run. -/
theorem pool_accounted :
    (∀ (n : Nat) (is : List BakePool.Event), Runs.Along BakePool.step BakePool.Allowed (BakePool.start n) is →
      (∀ k, BakePool.Accounted n (Runs.state BakePool.step (BakePool.start n) is k)) ∧
        ∀ k i, is[k]? = some i → ∀ x ∈ (Runs.state BakePool.step (BakePool.start n) is (k + 1)).settled,
          x ∈ (Runs.state BakePool.step (BakePool.start n) is k).settled ∨
            BakePool.Own (Runs.state BakePool.step (BakePool.start n) is k) i x.1 x.2) ∧
    ∀ (max : Nat) (is : List Semaphore.Call), Runs.Along Semaphore.step Semaphore.Allowed { max } is →
      ∀ k, Semaphore.Counts max (Runs.state Semaphore.step { max } is k) := by
  refine ⟨fun n is h => ⟨fun k => (BakePool.sound_runs h k).accounted (BakePool.idle_runs h k), fun k i hi x hx => ?_⟩,
    fun max is h k => Semaphore.counts h k⟩
  rw [Runs.state_succ hi] at hx
  exact (BakePool.sound_runs h k).own (h k i hi) hx

/-- One worker and two jobs: the first is answered, and the second crashes it. -/
def twoJobs : List BakePool.Event :=
  [.run [1] "a.mod", .run [2] "b.mod", .message 0 { id := 0, ok := true, root := some "bafy" }, .error 0 "out of memory"]

/-- One slot for two. -/
def twoCalls : List Semaphore.Call := [.acquire, .acquire, .release]

theorem pool_accounted_two :
    BakePool.Accounted 1 (Runs.state BakePool.step (BakePool.start 1) twoJobs 4) ∧
      BakePool.Own (Runs.state BakePool.step (BakePool.start 1) twoJobs 3) (.error 0 "out of memory") 1
        (BakePool.crashResult 1 "out of memory") ∧
      Semaphore.Counts 1 (Runs.state Semaphore.step { max := 1 } twoCalls 3) := by
  have hjobs : Runs.Along BakePool.step BakePool.Allowed (BakePool.start 1) twoJobs := by
    refine Runs.along_cons trivial (Runs.along_cons trivial (Runs.along_cons ?_ (Runs.along_cons ?_ Runs.along_nil)))
    · exact ⟨by decide, ⟨0, [1], "a.mod"⟩, by decide, rfl⟩
    · exact ⟨by decide, by decide⟩
  have hcalls : Runs.Along Semaphore.step Semaphore.Allowed { max := 1 } twoCalls :=
    Runs.along_cons trivial (Runs.along_cons trivial (Runs.along_cons (by decide : 0 < 1) Runs.along_nil))
  have hpool := pool_accounted.1 1 twoJobs hjobs
  refine ⟨hpool.1 4, ?_, pool_accounted.2 1 twoCalls hcalls 3⟩
  exact (hpool.2 3 _ rfl (1, BakePool.crashResult 1 "out of memory") (by decide)).resolve_left (by decide)

end TrackerStream
