import Mathlib

/-!
# The life of a call

A request is posted to the server that listens, if there is one. The server takes it up and posts callbacks and one
result, which reach the caller in that order as long as it waits. `Step` is all that can happen to a call, `Inv` what
holds of it at any time: it is executed once at most, and the caller sees a prefix of what was posted.
-/

namespace Rpc

inductive Reply (Val : Type)
  | cb (arg : Val)
  | ok (value : Val)
  | err (message : String)
deriving DecidableEq

/-- A result settles the call. -/
def Reply.isResult {Val : Type} : Reply Val → Bool
  | cb _ => false
  | _ => true

inductive Outcome (Val : Type)
  | value (value : Val)
  | error (message : String)
  /-- The caller gave up. -/
  | lost (why : String)
deriving DecidableEq

/-- What a caller sees of its call. -/
inductive Event (Val : Type)
  | callback (arg : Val)
  | settled (outcome : Outcome Val)
deriving DecidableEq

def Reply.event {Val : Type} : Reply Val → Event Val
  | cb arg => .callback arg
  | ok value => .settled (.value value)
  | err message => .settled (.error message)

theorem Reply.event_injective {Val : Type} : Function.Injective (Reply.event : Reply Val → Event Val) := by
  intro r r' h
  cases r <;> cases r' <;> cases h <;> rfl

structure Execution (Server Req Val : Type) where
  server : Server
  request : Req
  posted : List (Reply Val) := []
deriving DecidableEq

structure Life (Server Req Val : Type) where
  /-- The request, and the server that listened when it was posted. -/
  request : Option (Req × Option Server)
  /-- The requests on their way to a server. -/
  queued : Server → Nat
  execs : List (Execution Server Req Val)
  /-- The replies on their way from a server. -/
  traffic : Server → List (Reply Val)
  pending : Bool
  seen : List (Event Val)

variable {Server Req Val : Type} [DecidableEq Server]

inductive Step : Life Server Req Val → Life Server Req Val → Prop
  | same (l) : Step l l
  | post (l) (r : Req) (target : Option Server) (h : l.request = none) : Step l { l with
      request := some (r, target)
      queued := fun s => if target = some s then 1 else 0
      pending := true }
  | take (l) (s : Server) (r : Req) (h : 0 < l.queued s) (hr : l.request.map (·.1) = some r) : Step l { l with
      queued := Function.update l.queued s (l.queued s - 1)
      execs := l.execs ++ [{ server := s, request := r }] }
  | answer (l) (i : Nat) (e : Execution Server Req Val) (r : Reply Val) (reaches : Bool) (he : l.execs[i]? = some e)
      (hr : r.isResult = true → ∀ x ∈ e.posted, x.isResult = false) (hreaches : l.pending = true → reaches = true) :
      Step l { l with
        execs := l.execs.set i { e with posted := e.posted ++ [r] }
        traffic := if reaches then Function.update l.traffic e.server (l.traffic e.server ++ [r]) else l.traffic }
  | receive (l) (s : Server) (r : Reply Val) (rest : List (Reply Val)) (h : l.traffic s = r :: rest)
      (hpending : l.pending = true) : Step l { l with
        traffic := Function.update l.traffic s rest
        pending := !r.isResult
        seen := l.seen ++ [r.event] }
  | ignore (l) (s : Server) (r : Reply Val) (rest : List (Reply Val)) (h : l.traffic s = r :: rest)
      (hpending : l.pending = false) : Step l { l with traffic := Function.update l.traffic s rest }
  | lose (l) (why : String) (hpending : l.pending = true) : Step l { l with
      pending := false
      seen := l.seen ++ [.settled (.lost why)] }
  | drop (l) : Step l { l with pending := false }

/-- The callbacks `args` and the outcome are what the caller saw. -/
structure Seen (l : Life Server Req Val) (args : List Val) (o : Option (Outcome Val)) : Prop where
  seen : l.seen = args.map .callback ++ (o.map .settled).toList
  idle : l.execs = [] → args = []
  order : ∀ e ∈ l.execs, args.map .cb <+: e.posted
  waits : l.pending = true → o = none ∧ ∀ e ∈ l.execs, args.map .cb ++ l.traffic e.server = e.posted
  outcome : ∀ r : Reply Val, r.isResult = true → o.map .settled = some r.event → ∃ e ∈ l.execs, args.map .cb ++ [r] <+: e.posted

structure Inv (l : Life Server Req Val) : Prop where
  fresh : l.request = none → l.execs = [] ∧ l.seen = [] ∧ l.pending = false ∧ ∀ s, l.queued s = 0
  once : ∀ s, l.queued s + l.execs.length ≤ 1
  target : ∀ s, 0 < l.queued s → ∃ r, l.request = some (r, some s)
  execs : ∀ e ∈ l.execs, l.request = some (e.request, some e.server)
  result : ∀ e ∈ l.execs, (e.posted.filter (·.isResult)).length ≤ 1
  traffic : ∀ s, (∀ e ∈ l.execs, e.server ≠ s) → l.traffic s = []
  seen : ∃ args o, Seen l args o

variable {l l' : Life Server Req Val} {s : Server} {e e' : Execution Server Req Val} {r : Reply Val}

namespace Inv

/-- The execution of a call is its only one, and no request is on its way. -/
theorem execs_eq (h : Inv l) (he : e ∈ l.execs) : l.execs = [e] ∧ ∀ s, l.queued s = 0 := by
  have hpos := List.length_pos_of_mem he
  refine ⟨?_, fun s => ?_⟩
  · have hone : l.execs.length = 1 := by
      have := h.once e.server
      omega
    obtain ⟨e', he'⟩ := List.length_eq_one_iff.1 hone
    rw [he'] at he ⊢
    rw [List.mem_singleton.1 he]
  · have := h.once s
    omega

theorem post (h : Inv l) (hrequest : l.request = none) (r : Req) (target : Option Server) : Inv { l with
    request := some (r, target)
    queued := fun s => if target = some s then 1 else 0
    pending := true } := by
  obtain ⟨hexecs, hseen, -, -⟩ := h.fresh hrequest
  refine ⟨?_, fun s => ?_, fun s hs => ?_, ?_, h.result, h.traffic, [], none, ?_⟩
  · rintro ⟨⟩
  · rw [hexecs]
    dsimp only
    split <;> exact Nat.le_of_ble_eq_true rfl
  · by_cases htarget : target = some s
    · exact ⟨r, by rw [htarget]⟩
    · simp [htarget] at hs
  · simp [hexecs]
  · refine ⟨hseen, fun _ => rfl, ?_, fun _ => ⟨rfl, ?_⟩, ?_⟩
    · simp [hexecs]
    · simp [hexecs]
    · rintro r - ⟨⟩

theorem take (h : Inv l) {r : Req} (hs : 0 < l.queued s) (hr : l.request.map (·.1) = some r) : Inv { l with
    queued := Function.update l.queued s (l.queued s - 1)
    execs := l.execs ++ [{ server := s, request := r }] } := by
  have hexecs : l.execs = [] := by
    have := h.once s
    exact List.eq_nil_of_length_eq_zero (by omega)
  obtain ⟨r', hrequest⟩ := h.target s hs
  obtain rfl : r' = r := by simpa [hrequest] using hr
  have hzero : ∀ s', Function.update l.queued s (l.queued s - 1) s' = 0 := by
    intro s'
    by_cases hne : s' = s
    · subst hne
      have := h.once s'
      rw [Function.update_self]
      omega
    · rw [Function.update_of_ne hne]
      by_contra hpos
      obtain ⟨r', hrequest'⟩ := h.target s' (Nat.pos_of_ne_zero hpos)
      rw [hrequest, Option.some.injEq, Prod.mk.injEq, Option.some.injEq] at hrequest'
      exact hne hrequest'.2.symm
  have htraffic : ∀ s, l.traffic s = [] := fun s => h.traffic s (by simp [hexecs])
  obtain ⟨args, o, hseen⟩ := h.seen
  have hargs := hseen.idle hexecs
  subst hargs
  refine ⟨fun hnone => ?_, fun s' => ?_, fun s' hs' => ?_, ?_, ?_, fun s' _ => htraffic s', [], o, hseen.seen, fun _ => rfl,
    ?_, fun hpending => ⟨(hseen.waits hpending).1, ?_⟩, fun r hr hout => ?_⟩
  · rw [hrequest] at hnone
    cases hnone
  · simp [hexecs, hzero s']
  · exact absurd (hzero s') (Nat.pos_iff_ne_zero.1 hs')
  · simp [hexecs, hrequest]
  · simp [hexecs]
  · simp
  · simp [hexecs, htraffic]
  · obtain ⟨e, he, -⟩ := hseen.outcome r hr hout
    rw [hexecs] at he
    cases he

theorem answer (h : Inv l) {i : Nat} (he : l.execs[i]? = some e)
    (hr : r.isResult = true → ∀ x ∈ e.posted, x.isResult = false) (reaches : Bool)
    (hreaches : l.pending = true → reaches = true) : Inv { l with
      execs := l.execs.set i { e with posted := e.posted ++ [r] }
      traffic := if reaches then Function.update l.traffic e.server (l.traffic e.server ++ [r]) else l.traffic } := by
  have hmem := List.mem_of_getElem? he
  obtain ⟨hexecs, hqueued⟩ := h.execs_eq hmem
  have hi : i = 0 := by
    have hlt := (List.getElem?_eq_some_iff.1 he).1
    rw [hexecs, List.length_singleton] at hlt
    omega
  subst hi
  have hset : l.execs.set 0 { e with posted := e.posted ++ [r] } = [{ e with posted := e.posted ++ [r] }] := by rw [hexecs]; rfl
  rw [hset]
  obtain ⟨args, o, hseen⟩ := h.seen
  have hprefix : e.posted <+: e.posted ++ [r] := List.prefix_append _ _
  refine ⟨fun hnone => ?_, fun s => ?_, h.target, ?_, ?_, fun s hs => ?_, args, o, hseen.seen, ?_, ?_, fun hpending => ?_,
    fun r' hr' hout => ?_⟩
  · rw [(h.fresh hnone).1] at hexecs
    cases hexecs
  · simp [hqueued s]
  · rintro _ hmem'
    rw [List.mem_singleton.1 hmem']
    exact h.execs e hmem
  · rintro _ hmem'
    rw [List.mem_singleton.1 hmem']
    dsimp only
    rw [List.filter_append, List.length_append]
    cases hres : r.isResult with
    | false =>
      simp only [hres, List.filter_singleton, Bool.false_eq_true, if_false, List.length_nil]
      exact h.result e hmem
    | true =>
      rw [List.filter_eq_nil_iff.2 fun x hx => by simp [hr hres x hx]]
      simp [hres]
  · have hne : s ≠ e.server := fun heq => hs _ List.mem_cons_self heq.symm
    have hnil : l.traffic s = [] := h.traffic s (by simpa [hexecs] using hne.symm)
    dsimp only
    split
    · rw [Function.update_of_ne hne, hnil]
    · exact hnil
  · rintro ⟨⟩
  · rintro _ hmem'
    rw [List.mem_singleton.1 hmem']
    exact (hseen.order e hmem).trans hprefix
  · obtain ⟨hnone, hwaits⟩ := hseen.waits hpending
    refine ⟨hnone, ?_⟩
    rintro _ hmem'
    rw [List.mem_singleton.1 hmem']
    dsimp only
    rw [if_pos (hreaches hpending), Function.update_self, ← List.append_assoc, hwaits e hmem]
  · obtain ⟨e', he', hprefix'⟩ := hseen.outcome r' hr' hout
    rw [hexecs, List.mem_singleton] at he'
    subst he'
    exact ⟨_, List.mem_cons_self, hprefix'.trans hprefix⟩

theorem ignore (h : Inv l) {rest : List (Reply Val)} (hs : l.traffic s = r :: rest) (hpending : l.pending = false) :
    Inv { l with traffic := Function.update l.traffic s rest } := by
  obtain ⟨args, o, hseen⟩ := h.seen
  refine ⟨h.fresh, h.once, h.target, h.execs, h.result, fun s' hs' => ?_, args, o, hseen.seen, hseen.idle, hseen.order,
    fun hp => ?_, hseen.outcome⟩
  · have hnil := h.traffic s' hs'
    have hne : s' ≠ s := by
      rintro rfl
      rw [hs] at hnil
      cases hnil
    dsimp only
    rw [Function.update_of_ne hne, hnil]
  · rw [hpending] at hp
    cases hp

theorem receive (h : Inv l) {rest : List (Reply Val)} (hs : l.traffic s = r :: rest) (hpending : l.pending = true) :
    Inv { l with
      traffic := Function.update l.traffic s rest
      pending := !r.isResult
      seen := l.seen ++ [r.event] } := by
  obtain ⟨e, he, rfl⟩ : ∃ e ∈ l.execs, e.server = s := by
    by_contra hnone
    push Not at hnone
    rw [h.traffic s hnone] at hs
    cases hs
  have hexecs := (h.execs_eq he).1
  obtain ⟨args, o, hseen⟩ := h.seen
  obtain ⟨rfl, hwaits⟩ := hseen.waits hpending
  have hposted := hwaits e he
  rw [hs] at hposted
  have honly : ∀ e' ∈ l.execs, e' = e := by simp [hexecs]
  have htraffic : ∀ s', (∀ e ∈ l.execs, e.server ≠ s') → Function.update l.traffic e.server rest s' = [] := by
    intro s' hs'
    rw [Function.update_of_ne (hs' e he).symm, h.traffic s' hs']
  have hseen' : l.seen = args.map .callback := by rw [hseen.seen]; simp
  have hfresh : l.request = none → False := by
    intro hnone
    rw [(h.fresh hnone).1] at he
    cases he
  cases hres : r.isResult with
  | false =>
    obtain ⟨a, rfl⟩ : ∃ a, r = .cb a := by
      cases r with
      | cb a => exact ⟨a, rfl⟩
      | ok | err => cases hres
    refine ⟨fun hnone => (hfresh hnone).elim, h.once, h.target, h.execs, h.result, htraffic, args ++ [a], none, ?_, ?_, ?_,
      fun _ => ⟨rfl, ?_⟩, ?_⟩
    · simp [hseen', Reply.event]
    · intro hnil
      rw [hexecs] at hnil
      cases hnil
    · intro e' he'
      rw [honly e' he', ← hposted]
      exact ⟨rest, by simp⟩
    · intro e' he'
      rw [honly e' he', ← hposted]
      simp
    · rintro r - ⟨⟩
  | true =>
    obtain ⟨o, hevent⟩ : ∃ o, r.event = .settled o := by
      cases r with
      | cb a => cases hres
      | ok v => exact ⟨_, rfl⟩
      | err m => exact ⟨_, rfl⟩
    refine ⟨fun hnone => (hfresh hnone).elim, h.once, h.target, h.execs, h.result, htraffic, args, some o, ?_, hseen.idle,
      hseen.order, (fun hp => by cases hp), fun r' _ hout => ⟨e, he, ?_⟩⟩
    · simp [hseen', hevent]
    · rw [Option.map_some, Option.some.injEq, ← hevent] at hout
      rw [← Reply.event_injective hout, ← hposted]
      exact ⟨rest, by simp⟩

theorem lose (h : Inv l) (why : String) (hpending : l.pending = true) :
    Inv { l with
      pending := false
      seen := l.seen ++ [.settled (.lost why)] } := by
  obtain ⟨args, o, hseen⟩ := h.seen
  obtain ⟨rfl, -⟩ := hseen.waits hpending
  refine ⟨fun hnone => ?_, h.once, h.target, h.execs, h.result, h.traffic, args, some (.lost why), ?_, hseen.idle, hseen.order,
    (fun hp => by cases hp), fun r _ hout => ?_⟩
  · have := (h.fresh hnone).2.2.1
    rw [hpending] at this
    cases this
  · simp [hseen.seen]
  · cases r <;> cases hout

theorem drop (h : Inv l) : Inv { l with pending := false } := by
  obtain ⟨args, o, hseen⟩ := h.seen
  exact ⟨fun hnone => ⟨(h.fresh hnone).1, (h.fresh hnone).2.1, rfl, (h.fresh hnone).2.2.2⟩, h.once, h.target, h.execs, h.result,
    h.traffic, args, o, hseen.seen, hseen.idle, hseen.order, (fun hp => by cases hp), hseen.outcome⟩

theorem step (h : Inv l) (hstep : Step l l') : Inv l' := by
  cases hstep with
  | same => exact h
  | post r target hrequest => exact h.post hrequest r target
  | take s r hs hr => exact h.take hs hr
  | answer i e r reaches he hr hreaches => exact h.answer he hr reaches hreaches
  | receive s r rest hs hpending => exact h.receive hs hpending
  | ignore s r rest hs hpending => exact h.ignore hs hpending
  | lose why hpending => exact h.lose why hpending
  | drop => exact h.drop

end Inv

end Rpc
