import TrackerStream.Multitab

/-!
# Calls across tabs

`life` is what the tabs have of one call. Every step of the tabs is a step in the life of each call (`life_step`), so what
holds of a life holds of every call; and a follower has nothing in flight right after it hears of another leader.
-/

namespace TrackerStream.Multitab
open Rpc

variable {Arg : Type} {w : World Arg} {t t₀ id id₀ i l : Nat} {s r : Chan} {m : Msg Arg} {f f₀ : Follower}

/-! ### The life of a call -/

def isReq (t id : Nat) : Msg Arg → Bool
  | .req t' id' _ => t' = t ∧ id' = id
  | _ => false

def replyTo (t id : Nat) : Msg Arg → Option (Reply Arg)
  | .reply t' id' r => if t' = t ∧ id' = id then some r else none
  | _ => none

namespace World

def pending (w : World Arg) (t id : Nat) : Bool := w.alive t && (w.follower t).any fun f => decide (id ∈ f.inflight)

/-- The call's request, as often as it is on its way to a server. -/
def queued (w : World Arg) (t id l : Nat) : Nat := (w.queue (.follower t) (.server l)).countP (isReq t id)

def traffic (w : World Arg) (t id l : Nat) : List (Reply Arg) :=
  (w.queue (.server l) (.follower t)).filterMap (replyTo t id)

def life (w : World Arg) (t id : Nat) : Life Nat (Request Arg) Arg where
  request := (w.posted t id).map fun p => (p.request, p.listening)
  queued := w.queued t id
  execs := w.execs t id
  traffic := w.traffic t id
  pending := w.pending t id
  seen := w.seen t id

/-- A message that is neither the call's request nor a reply to it. -/
def Quiet (t id : Nat) (m : Msg Arg) : Prop := isReq t id m = false ∧ replyTo t id m = none

theorem queue_post (s' r : Chan) : (w.post s m).queue s' r =
    w.queue s' r ++ if s' = s ∧ r ≠ s ∧ w.isOpen r = true then [m] else [] := by
  rw [post]
  dsimp only
  split
  · rfl
  · rw [List.append_nil]

theorem queued_post (id : Nat) : (w.post s m).queued t id l =
    w.queued t id l + if s = .follower t ∧ w.isOpen (.server l) = true ∧ isReq t id m = true then 1 else 0 := by
  have hne : Chan.server l ≠ .follower t := by rintro ⟨⟩
  rw [queued, queued, queue_post, List.countP_append]
  by_cases hs : s = .follower t
  · subst hs
    cases hreq : isReq t id m <;> cases hopen : w.isOpen (.server l) <;> simp [hreq]
  · simp [hs, Ne.symm hs]

theorem traffic_post (id : Nat) : (w.post s m).traffic t id l =
    w.traffic t id l ++ if s = .server l ∧ w.isOpen (.follower t) = true then (replyTo t id m).toList else [] := by
  have hne : Chan.follower t ≠ .server l := by rintro ⟨⟩
  rw [traffic, traffic, queue_post, List.filterMap_append]
  by_cases hs : s = .server l
  · subst hs
    cases hreply : replyTo t id m <;> cases hopen : w.isOpen (.follower t) <;> simp [hreply]
  · simp [hs, Ne.symm hs]

theorem mem_post {m' : Msg Arg} {s' : Chan} (h : m' ∈ (w.post s m).queue s' r) : m' ∈ w.queue s' r ∨ s' = s ∧ m' = m := by
  rw [queue_post] at h
  rcases List.mem_append.1 h with h | h
  · exact .inl h
  · split at h
    next hs => exact .inr ⟨hs.1, List.mem_singleton.1 h⟩
    next => cases h

theorem mem_pop {m' : Msg Arg} {s' r' : Chan} (h : m' ∈ (w.pop s r).queue s' r') : m' ∈ w.queue s' r' := by
  rw [pop] at h
  dsimp only at h
  split at h
  next heq =>
    obtain ⟨rfl, rfl⟩ := heq
    exact List.mem_of_mem_tail h
  next => exact h

theorem queue_pop {rest : List (Msg Arg)} (hqueue : w.queue s r = m :: rest) (s' r' : Chan) :
    w.queue s' r' = (if s' = s ∧ r' = r then [m] else []) ++ (w.pop s r).queue s' r' := by
  rw [pop]
  dsimp only
  split
  next heq =>
    obtain ⟨rfl, rfl⟩ := heq
    rw [hqueue]
    rfl
  next => rfl

theorem queued_pop {rest : List (Msg Arg)} (hqueue : w.queue s r = m :: rest) : w.queued t id l =
    (if s = .follower t ∧ r = .server l ∧ isReq t id m = true then 1 else 0) + (w.pop s r).queued t id l := by
  rw [queued, queued, queue_pop hqueue, List.countP_append]
  congr 1
  by_cases hs : s = .follower t ∧ r = .server l
  · obtain ⟨rfl, rfl⟩ := hs
    cases hreq : isReq t id m <;> simp [hreq]
  · have hs' : ¬ (.follower t = s ∧ .server l = r) := fun h => hs ⟨h.1.symm, h.2.symm⟩
    rw [if_neg hs', if_neg fun h => hs ⟨h.1, h.2.1⟩]
    rfl

theorem traffic_pop {rest : List (Msg Arg)} (hqueue : w.queue s r = m :: rest) : w.traffic t id l =
    (if s = .server l ∧ r = .follower t then (replyTo t id m).toList else []) ++ (w.pop s r).traffic t id l := by
  rw [traffic, traffic, queue_pop hqueue, List.filterMap_append]
  congr 1
  by_cases hs : s = .server l ∧ r = .follower t
  · obtain ⟨rfl, rfl⟩ := hs
    cases hreply : replyTo t id m <;> simp [hreply]
  · have hs' : ¬ (.server l = s ∧ .follower t = r) := fun h => hs ⟨h.1.symm, h.2.symm⟩
    rw [if_neg hs', if_neg hs]
    rfl

theorem life_post (h : Quiet t id m) : (w.post s m).life t id = w.life t id := by
  have hqueued : (w.post s m).queued t id = w.queued t id := by
    funext l
    simp [queued_post, h.1]
  have htraffic : (w.post s m).traffic t id = w.traffic t id := by
    funext l
    simp [traffic_post, h.2]
  rw [life, hqueued, htraffic]
  rfl

theorem life_pop {rest : List (Msg Arg)} (hqueue : w.queue s r = m :: rest)
    (hreq : ∀ l, s = .follower t → r = .server l → isReq t id m = false)
    (hreply : ∀ l, s = .server l → r = .follower t → replyTo t id m = none) : (w.pop s r).life t id = w.life t id := by
  have hqueued : (w.pop s r).queued t id = w.queued t id := by
    funext l
    rw [queued_pop hqueue, if_neg, Nat.zero_add]
    rintro ⟨hs, hr, h⟩
    rw [hreq l hs hr] at h
    cases h
  have htraffic : (w.pop s r).traffic t id = w.traffic t id := by
    funext l
    rw [traffic_pop hqueue]
    split
    next h => rw [hreply l h.1 h.2, Option.toList_none, List.nil_append]
    next => rfl
  rw [life, hqueued, htraffic]
  rfl

/-- Other fields of a follower are no part of its calls' lives. -/
theorem life_setFollower (hf : w.follower t₀ = some f₀) (h : f.inflight = f₀.inflight) :
    (w.setFollower t₀ f).life t id = w.life t id := by
  have hpending : (w.setFollower t₀ f).pending t id = w.pending t id := by
    rw [pending, pending, setFollower]
    dsimp only
    by_cases ht : t = t₀
    · subst ht
      rw [Function.update_self, hf, Option.any_some, Option.any_some, h]
    · rw [Function.update_of_ne ht]
  simp only [life, hpending]
  rfl

theorem life_failInflight (halive : w.alive t₀ = true) (hf : w.follower t₀ = some f₀) (h : f.inflight = f₀.inflight)
    (why : String) (t id : Nat) : Step (w.life t id) ((w.failInflight t₀ f why).life t id) := by
  have hpending : (w.failInflight t₀ f why).pending t id = if t = t₀ then false else w.pending t id := by
    rw [pending, pending, failInflight, setFollower]
    dsimp only
    split
    next ht =>
      subst ht
      rw [Function.update_self, Option.any_some]
      simp
    next ht => rw [Function.update_of_ne ht]
  by_cases hin : t = t₀ ∧ id ∈ f.inflight
  · obtain ⟨rfl, hin⟩ := hin
    have hbefore : (w.life t id).pending = true := by
      rw [life, pending, halive, hf, Option.any_some, ← h]
      simpa using hin
    have hseen : (w.failInflight t f why).seen t id = w.seen t id ++ [.settled (.lost why)] := if_pos ⟨rfl, hin⟩
    have hstep := Step.lose (w.life t id) why hbefore
    simp only [life, hpending, hseen, if_true]
    exact hstep
  · have hsame : (if t = t₀ then false else w.pending t id) = w.pending t id := by
      split
      next ht =>
        subst ht
        rw [pending, hf, Option.any_some, ← h, decide_eq_false fun hid => hin ⟨rfl, hid⟩, Bool.and_false]
      next => rfl
    have hseen : (w.failInflight t₀ f why).seen t id = w.seen t id := if_neg hin
    simp only [life, hpending, hseen, hsame]
    exact Step.same _

theorem life_startLeaderServer : (w.startLeaderServer t₀).life t id = w.life t id := life_post ⟨rfl, rfl⟩

/-- What is known of the tabs, besides the lives of the calls. -/
structure Tabs (w : World Arg) : Prop where
  dormant : ∀ t, w.opened ≤ t → w.alive t = false ∧ w.follower t = none ∧ w.serving t = false
  lock : ∀ t, w.isOpen (.server t) = true → w.lock = some t
  fromFollower : ∀ t r m, m ∈ w.queue (.follower t) r →
    (∃ id p, m = .req t id p.request ∧ w.posted t id = some p) ∨ m = .probe t
  fromServer : ∀ t r m, m ∈ w.queue (.server t) r → (∃ leader, m = .hello leader) ∨ m = .changed ∨ ∃ t' id r, m = .reply t' id r
  ids : ∀ t id, w.posted t id ≠ none → ∃ f, w.follower t = some f ∧ id ≤ f.seq
  idle : ∀ t f, w.follower t = some f → f.promoted = true ∨ f.leaderId = none → f.inflight = []
  ready : ∀ t f, w.follower t = some f → f.ready = true → f.promoted = true ∨ f.leaderId ≠ none
  flight : ∀ t f, w.follower t = some f → ∀ id ∈ f.inflight, (w.posted t id).map (·.addressed) = some f.leaderId

theorem isOpen_follower : w.isOpen (.follower t) = true ↔ w.alive t = true ∧ ∃ f, w.follower t = some f ∧ f.promoted = false := by
  simp [isOpen, Option.any_eq_true]

theorem Tabs.isOpen_of_pending (h : Tabs w) (hp : w.pending t id = true) : w.isOpen (.follower t) = true := by
  simp only [pending, Bool.and_eq_true, Option.any_eq_true, decide_eq_true_eq] at hp
  obtain ⟨halive, f, hf, hid⟩ := hp
  refine isOpen_follower.2 ⟨halive, f, hf, ?_⟩
  by_contra hpromoted
  rw [h.idle t f hf (.inl (by simpa using hpromoted))] at hid
  cases hid

theorem Tabs.listening_eq (h : Tabs w) : w.listening = some l ↔ w.isOpen (.server l) = true := by
  rw [listening, Option.filter_eq_some_iff]
  exact ⟨fun h => h.2, fun hopen => ⟨h.lock l hopen, hopen⟩⟩

/-- An execution posts a reply, which reaches the follower if its channel is open. -/
theorem life_answer (h : Tabs w) {e : Execution Nat (Request Arg) Arg} {r : Reply Arg} (he : (w.execs t₀ id₀)[i]? = some e)
    (hr : r.isResult = true → ∀ x ∈ e.posted, x.isResult = false) :
    Step (w.life t id) ((w.answer t₀ id₀ i e r).life t id) := by
  by_cases hkey : t = t₀ ∧ id = id₀
  · obtain ⟨rfl, rfl⟩ := hkey
    have hstep := Step.answer (w.life t id) i e r (w.isOpen (.follower t)) he hr h.isOpen_of_pending
    have hqueued : (w.answer t id i e r).queued t id = w.queued t id := by
      funext l
      rw [answer, queued_post, if_neg (by rintro ⟨⟨⟩, -⟩)]
      rfl
    have htraffic : (w.answer t id i e r).traffic t id = if w.isOpen (.follower t) then
        Function.update (w.traffic t id) e.server (w.traffic t id e.server ++ [r]) else w.traffic t id := by
      funext l
      have hreply : replyTo t id (.reply t id r) = some r := if_pos ⟨rfl, rfl⟩
      rw [answer, traffic_post, hreply]
      change w.traffic t id l ++ (if _ ∧ w.isOpen (.follower t) = true then _ else _) = _
      by_cases hopen : w.isOpen (.follower t) = true
      · by_cases hl : l = e.server
        · subst hl
          simp [hopen]
        · simp [hopen, Function.update_of_ne hl, Ne.symm hl]
      · simp [hopen]
    have hexecs : (w.answer t id i e r).execs t id = (w.execs t id).set i { e with posted := e.posted ++ [r] } :=
      if_pos ⟨rfl, rfl⟩
    simp only [life, hqueued, htraffic, hexecs]
    exact hstep
  · have hquiet : Quiet t id (.reply t₀ id₀ r) := ⟨rfl, if_neg fun heq => hkey ⟨heq.1.symm, heq.2.symm⟩⟩
    rw [answer, life_post hquiet]
    simp only [life, if_neg hkey]
    exact Step.same _

theorem pending_setFollower : (w.setFollower t₀ f).pending t id =
    if t = t₀ then w.alive t && decide (id ∈ f.inflight) else w.pending t id := by
  rw [pending, pending, setFollower]
  dsimp only
  split
  next ht =>
    subst ht
    rw [Function.update_self, Option.any_some]
  next ht => rw [Function.update_of_ne ht]

theorem life_see_self (e : Event Arg) : (w.see t id e).life t id = { w.life t id with seen := w.seen t id ++ [e] } := by
  have hseen : (w.see t id e).seen t id = w.seen t id ++ [e] := if_pos ⟨rfl, rfl⟩
  rw [life, hseen]
  rfl

theorem life_see_of_ne (h : ¬ (t = t₀ ∧ id = id₀)) (e : Event Arg) : (w.see t₀ id₀ e).life t id = w.life t id := by
  have hseen : (w.see t₀ id₀ e).seen t id = w.seen t id := if_neg h
  rw [life, hseen]
  rfl

theorem life_settle_self : (w.setFollower t { f with inflight := f.inflight.filter (· ≠ id) }).life t id =
    { w.life t id with pending := false } := by
  have hpending : (w.setFollower t { f with inflight := f.inflight.filter (· ≠ id) }).pending t id = false := by
    rw [pending_setFollower, if_pos rfl]
    simp
  rw [life, hpending]
  rfl

theorem life_settle_of_ne (hf : w.follower t₀ = some f) (h : ¬ (t = t₀ ∧ id = id₀)) :
    (w.setFollower t₀ { f with inflight := f.inflight.filter (· ≠ id₀) }).life t id = w.life t id := by
  have hpending : (w.setFollower t₀ { f with inflight := f.inflight.filter (· ≠ id₀) }).pending t id = w.pending t id := by
    rw [pending_setFollower]
    split
    next ht =>
      subst ht
      have hid : id ≠ id₀ := fun hid => h ⟨rfl, hid⟩
      rw [pending, hf, Option.any_some]
      simp [hid]
    next => rfl
  rw [life, hpending]
  rfl

/-- A call is posted, and is on its way to the server that listens. -/
theorem life_rpc (h : Tabs w) (hlife : Inv (w.life t id)) (hf : w.follower t₀ = some f)
    (hopen : w.isOpen (.follower t₀) = true) (r : Request Arg) : Step (w.life t id) ((w.rpc t₀ f r).life t id) := by
  have halive := (isOpen_follower.1 hopen).1
  have hpending : (w.rpc t₀ f r).pending t id = if t = t₀ then w.alive t && decide (id ∈ f.send.inflight) else w.pending t id :=
    (pending_setFollower : (w.setFollower t₀ f.send).pending t id = _)
  have hqueued : ∀ l, (w.rpc t₀ f r).queued t id l =
      w.queued t id l + if t₀ = t ∧ w.isOpen (.server l) = true ∧ f.send.seq = id then 1 else 0 := by
    intro l
    have hpost := queued_post (w := w.setFollower t₀ f.send) (s := .follower t₀) (m := .req t₀ f.send.seq r) (t := t) (l := l) id
    refine hpost.trans (congrArg (w.queued t id l + ·) (if_congr ?_ rfl rfl))
    change _ ∧ w.isOpen (.server l) = true ∧ _ ↔ _
    simp only [isReq, Chan.follower.injEq, decide_eq_true_eq]
    exact ⟨fun h => ⟨h.1, h.2.1, h.2.2.2⟩, fun h => ⟨h.1, h.2.1, h.1, h.2.2⟩⟩
  have htraffic : (w.rpc t₀ f r).traffic t id = w.traffic t id := by
    funext l
    have hpost := traffic_post (w := w.setFollower t₀ f.send) (s := .follower t₀) (m := .req t₀ f.send.seq r) (t := t) (l := l) id
    refine hpost.trans ?_
    rw [if_neg (by rintro ⟨⟨⟩, -⟩), List.append_nil]
    rfl
  by_cases hkey : t = t₀ ∧ id = f.send.seq
  · obtain ⟨rfl, rfl⟩ := hkey
    have hnone : w.posted t f.send.seq = none := by
      by_contra hsome
      obtain ⟨f', hf', hle⟩ := h.ids t _ hsome
      rw [hf, Option.some.injEq] at hf'
      rw [← hf'] at hle
      exact absurd hle (Nat.not_succ_le_self _)
    have hrequest : (w.life t f.send.seq).request = none := by rw [life, hnone]; rfl
    obtain ⟨-, -, -, hzero⟩ := hlife.fresh hrequest
    have hqueued : (w.rpc t f r).queued t f.send.seq = fun l => if w.listening = some l then 1 else 0 := by
      funext l
      have hzero : w.queued t f.send.seq l = 0 := hzero l
      rw [hqueued, hzero, Nat.zero_add]
      simp only [true_and, and_true, h.listening_eq]
    have heq : (w.rpc t f r).life t f.send.seq = { w.life t f.send.seq with
        request := some (r, w.listening)
        queued := fun l => if w.listening = some l then 1 else 0
        pending := true } := by
      rw [life, hqueued, htraffic, hpending, if_pos rfl, halive, show (w.rpc t f r).posted t f.send.seq =
        some ⟨r, f.leaderId, w.listening⟩ from if_pos ⟨rfl, rfl⟩]
      have hmem : decide (f.send.seq ∈ f.send.inflight) = true := by simp [Follower.send]
      rw [hmem]
      rfl
    rw [heq]
    exact Step.post _ r w.listening hrequest
  · have heq : (w.rpc t₀ f r).life t id = w.life t id := by
      have hsame : (w.rpc t₀ f r).queued t id = w.queued t id := by
        funext l
        rw [hqueued, if_neg fun h => hkey ⟨h.1.symm, h.2.2.symm⟩, Nat.add_zero]
      have hkept : (if t = t₀ then w.alive t && decide (id ∈ f.send.inflight) else w.pending t id) = w.pending t id := by
        split
        next ht =>
          subst ht
          have hmem : id ∈ f.send.inflight ↔ id ∈ f.inflight := by
            rw [Follower.send, List.mem_append, List.mem_singleton]
            exact or_iff_left fun hid => hkey ⟨rfl, hid⟩
          rw [pending, hf, Option.any_some, decide_eq_decide.2 hmem]
        next => rfl
      rw [life, hsame, htraffic, hpending, hkept, show (w.rpc t₀ f r).posted t id = w.posted t id from if_neg hkey]
      rfl
    rw [heq]
    exact Step.same _

/-- A server takes a request up. -/
theorem life_onRequest (h : Tabs w) {rest : List (Msg Arg)} (hqueue : w.queue s (.server t₀) = m :: rest) (t id : Nat) :
    Step (w.life t id) (((w.pop s (.server t₀)).onRequest t₀ m).life t id) := by
  have hmem : m ∈ w.queue s (.server t₀) := by simp [hqueue]
  have hpop : (∀ sender id r, m ≠ .req sender id r) → (w.pop s (.server t₀)).life t id = w.life t id := by
    intro hne
    refine life_pop hqueue (fun _ _ _ => ?_) fun _ _ h => by cases h
    cases m with
    | req sender id r => exact absurd rfl (hne sender id r)
    | _ => rfl
  cases m with
  | probe sender =>
    have hsame := hpop fun _ _ _ h => by cases h
    rw [onRequest, life_post (w := w.pop s (.server t₀)) (m := .hello t₀) ⟨rfl, rfl⟩, hsame]
    exact Step.same _
  | hello leader => exact hpop (fun _ _ _ h => by cases h) ▸ Step.same _
  | changed => exact hpop (fun _ _ _ h => by cases h) ▸ Step.same _
  | reply t' id' r => exact hpop (fun _ _ _ h => by cases h) ▸ Step.same _
  | req sender id' r =>
    obtain ⟨rfl, p, hposted, rfl⟩ : s = .follower sender ∧ ∃ p, w.posted sender id' = some p ∧ p.request = r := by
      cases s with
      | follower t' =>
        rcases h.fromFollower t' _ _ hmem with ⟨id₁, p, hreq, hposted⟩ | hprobe
        · cases hreq
          exact ⟨rfl, p, hposted, rfl⟩
        · cases hprobe
      | server t' =>
        rcases h.fromServer t' _ _ hmem with ⟨_, h⟩ | h | ⟨_, _, _, h⟩ <;> cases h
    have hqueued : ∀ l, w.queued t id l = _ := fun l => queued_pop hqueue
    have htraffic : (w.pop (.follower sender) (.server t₀)).traffic t id = w.traffic t id := by
      funext l
      rw [traffic_pop hqueue, if_neg (by rintro ⟨⟨⟩, -⟩), List.nil_append]
    by_cases hkey : t = sender ∧ id = id'
    · obtain ⟨rfl, rfl⟩ := hkey
      have hreq : isReq t id (.req t id p.request) = true := by simp [isReq]
      have hpos : 0 < w.queued t id t₀ := by
        rw [hqueued t₀, if_pos ⟨rfl, rfl, hreq⟩]
        exact Nat.add_pos_left Nat.one_pos _
      have hafter : (w.pop (.follower t) (.server t₀)).queued t id = Function.update (w.queued t id) t₀ (w.queued t id t₀ - 1) := by
        funext l
        by_cases hl : l = t₀
        · subst hl
          rw [Function.update_self, hqueued l, if_pos ⟨rfl, rfl, hreq⟩, Nat.add_sub_cancel_left]
        · rw [Function.update_of_ne hl, hqueued l, if_neg, Nat.zero_add]
          rintro ⟨-, hs, -⟩
          exact hl (by cases hs; rfl)
      have hrequest : (w.life t id).request.map (·.1) = some p.request := by rw [life, hposted]; rfl
      have heq : ((w.pop (.follower t) (.server t₀)).onRequest t₀ (.req t id p.request)).life t id = { w.life t id with
          queued := Function.update (w.queued t id) t₀ (w.queued t id t₀ - 1)
          execs := w.execs t id ++ [{ server := t₀, request := p.request }] } := by
        have hexecs : ((w.pop (.follower t) (.server t₀)).onRequest t₀ (.req t id p.request)).execs t id =
            w.execs t id ++ [{ server := t₀, request := p.request }] := if_pos ⟨rfl, rfl⟩
        have hqueued' : ((w.pop (.follower t) (.server t₀)).onRequest t₀ (.req t id p.request)).queued t id = _ := hafter
        have htraffic' : ((w.pop (.follower t) (.server t₀)).onRequest t₀ (.req t id p.request)).traffic t id = _ := htraffic
        rw [life, hqueued', htraffic', hexecs]
        rfl
      rw [heq]
      exact Step.take _ t₀ p.request hpos hrequest
    · have hreq : isReq t id (.req sender id' p.request) = false := by
        simp only [isReq, decide_eq_false_iff_not]
        exact fun h => hkey ⟨h.1.symm, h.2.symm⟩
      have heq : ((w.pop (.follower sender) (.server t₀)).onRequest t₀ (.req sender id' p.request)).life t id = w.life t id := by
        have hexecs : ((w.pop (.follower sender) (.server t₀)).onRequest t₀ (.req sender id' p.request)).execs t id =
            w.execs t id := if_neg hkey
        rw [← life_pop hqueue (fun _ _ _ => hreq) (fun _ h => by cases h), life, hexecs]
        rfl
      rw [heq]
      exact Step.same _

/-- A message that is no reply to the call and no hello changes nothing for it. -/
theorem life_onMsg (h : Tabs w) {rest : List (Msg Arg)} (hqueue : w.queue s (.follower t₀) = m :: rest)
    (hopen : w.isOpen (.follower t₀) = true) (hf : w.follower t₀ = some f) (t id : Nat) :
    Step (w.life t id) (((w.pop s (.follower t₀)).onMsg t₀ f m).life t id) := by
  have hmem : m ∈ w.queue s (.follower t₀) := by simp [hqueue]
  have halive := (isOpen_follower.1 hopen).1
  have hpop : replyTo t id m = none → (w.pop s (.follower t₀)).life t id = w.life t id := by
    intro hreply
    exact life_pop hqueue (fun _ _ h => by cases h) fun _ _ _ => hreply
  cases m with
  | probe sender => exact hpop rfl ▸ Step.same _
  | changed => exact hpop rfl ▸ Step.same _
  | req sender id' r => exact hpop rfl ▸ Step.same _
  | hello leader =>
    rw [onMsg, ← hpop rfl]
    split
    · exact life_failInflight (w := w.pop s (.follower t₀)) (f := { f with leaderId := some leader, ready := true })
        halive hf rfl "leader changed" t id
    · rw [life_setFollower (w := w.pop s (.follower t₀)) (f := { f with leaderId := some leader, ready := true }) hf rfl]
      exact Step.same _
  | reply t' id' r =>
    obtain ⟨l, rfl⟩ : ∃ l, s = .server l := by
      cases s with
      | server l => exact ⟨l, rfl⟩
      | follower t'' => rcases h.fromFollower t'' _ _ hmem with ⟨_, _, h, -⟩ | h <;> cases h
    rw [onMsg]
    by_cases hkey : t = t₀ ∧ t' = t ∧ id' = id
    · obtain ⟨rfl, rfl, rfl⟩ := hkey
      have hreply : replyTo t' id' (.reply t' id' r) = some r := if_pos ⟨rfl, rfl⟩
      have htraffic : w.traffic t' id' l = r :: (w.pop (.server l) (.follower t')).traffic t' id' l := by
        rw [traffic_pop hqueue, if_pos ⟨rfl, rfl⟩, hreply]
        rfl
      have hafter : (w.pop (.server l) (.follower t')).traffic t' id' =
          Function.update (w.traffic t' id') l ((w.pop (.server l) (.follower t')).traffic t' id' l) := by
        funext l'
        by_cases hl : l' = l
        · subst hl
          rw [Function.update_self]
        · rw [Function.update_of_ne hl, traffic_pop hqueue, if_neg, List.nil_append]
          rintro ⟨hs, -⟩
          exact hl (by cases hs; rfl)
      have hqueued : (w.pop (.server l) (.follower t')).queued t' id' = w.queued t' id' := by
        funext l'
        rw [queued_pop hqueue, if_neg (by rintro ⟨⟨⟩, -⟩), Nat.zero_add]
      have hpending : w.pending t' id' = decide (id' ∈ f.inflight) := by
        rw [pending, halive, hf, Option.any_some, Bool.true_and]
      by_cases hin : id' ∈ f.inflight
      · rw [if_pos ⟨rfl, hin⟩]
        have hpending := hpending.trans (decide_eq_true hin)
        have hstep := Step.receive (w.life t' id') l r _ htraffic hpending
        have heq : (((if r.isResult then (w.pop (.server l) (.follower t')).setFollower t'
            { f with inflight := f.inflight.filter (· ≠ id') } else w.pop (.server l) (.follower t')).see t' id'
              r.event).life t' id') = { w.life t' id' with
            traffic := Function.update (w.traffic t' id') l ((w.pop (.server l) (.follower t')).traffic t' id' l)
            pending := !r.isResult
            seen := w.seen t' id' ++ [r.event] } := by
          rw [life_see_self, ← hafter]
          cases r.isResult with
          | true =>
            rw [if_pos rfl, life_settle_self, life, hqueued]
            rfl
          | false =>
            have hwaits : (w.pop (.server l) (.follower t')).pending t' id' = true := hpending
            rw [if_neg Bool.false_ne_true, life, hqueued, hwaits]
            rfl
        rw [heq]
        exact hstep
      · rw [if_neg fun h => hin h.2]
        have hstep := Step.ignore (w.life t' id') l r _ htraffic (hpending.trans (decide_eq_false hin))
        have heq : (w.pop (.server l) (.follower t')).life t' id' = { w.life t' id' with
            traffic := Function.update (w.traffic t' id') l ((w.pop (.server l) (.follower t')).traffic t' id' l) } := by
          rw [← hafter, life, hqueued]
          rfl
        rw [heq]
        exact hstep
    · have hsame : (w.pop (.server l) (.follower t₀)).life t id = w.life t id := by
        refine life_pop hqueue (fun _ h => by cases h) fun _ _ hr => if_neg fun h => ?_
        cases hr
        exact hkey ⟨rfl, h⟩
      rw [← hsame]
      split
      next htaken =>
        have hne : ¬ (t = t₀ ∧ id = id') := fun h => hkey ⟨h.1, htaken.1.trans h.1.symm, h.2.symm⟩
        rw [life_see_of_ne hne]
        split
        · rw [life_settle_of_ne (w := w.pop (.server l) (.follower t₀)) hf hne]
          exact Step.same _
        · exact Step.same _
      next => exact Step.same _

theorem life_step (h : Tabs w) (act : Act Arg) (t id : Nat) (hlife : Inv (w.life t id)) : Step (w.life t id) ((w.step act).life t id) := by
  cases act with
  | boot =>
    have hsame : (w.step .boot).life t id = w.life t id := by
      have hpending : (w.step .boot).pending t id = w.pending t id := by
        obtain ⟨halive, hnone, -⟩ := h.dormant w.opened le_rfl
        by_cases ht : t = w.opened
        · subst ht
          rw [step]
          split
          · simp [pending, hnone]
          · rw [pending_setFollower, if_pos rfl, pending, halive]
            simp
        · rw [step]
          split
          · simp [pending, Function.update_of_ne ht]
          · rw [pending_setFollower, if_neg ht]
            simp [pending, Function.update_of_ne ht]
      rw [life, hpending, step]
      split <;> rfl
    exact hsame ▸ Step.same _
  | grant t₀ =>
    rw [step]
    split <;> exact Step.same _
  | created t₀ =>
    rw [step]
    split
    next hcreated =>
      split
      next => exact life_startLeaderServer ▸ Step.same _
      next f hf =>
        have hlose := life_failInflight (w := w.startLeaderServer t₀)
          (f := { f with ready := true, promoted := true }) hcreated.2.1 hf rfl "promoted to leader" t id
        rw [life_startLeaderServer] at hlose
        exact hlose
    next => exact Step.same _
  | die t₀ =>
    by_cases ht : t = t₀
    · subst ht
      have heq : (w.step (.die t)).life t id = { w.life t id with pending := false } := by
        have hpending : (w.step (.die t)).pending t id = false := by
          rw [step, pending]
          dsimp only
          rw [Function.update_self, Bool.false_and]
        rw [life, hpending]
        rfl
      rw [heq]
      exact Step.drop _
    · have heq : (w.step (.die t₀)).life t id = w.life t id := by
        have hpending : (w.step (.die t₀)).pending t id = w.pending t id := by
          rw [step, pending, pending]
          dsimp only
          rw [Function.update_of_ne ht]
        rw [life, hpending]
        rfl
      rw [heq]
      exact Step.same _
  | probe t₀ =>
    rw [step]
    split
    · exact life_post (m := .probe t₀) ⟨rfl, rfl⟩ ▸ Step.same _
    · exact Step.same _
  | call t₀ r =>
    rw [step]
    split
    next f hf =>
      split
      next hready => exact life_rpc h hlife hf hready.1 r
      next => exact Step.same _
    next => exact Step.same _
  | deliver s r =>
    rw [step]
    split
    next => exact Step.same _
    next m rest hqueue =>
      split
      next hopen =>
        cases r with
        | follower t₀ =>
          dsimp only
          split
          next f hf => exact life_onMsg h hqueue hopen hf t id
          next => exact Step.same _
        | server t₀ => exact life_onRequest h hqueue t id
      next => exact Step.same _
  | emit t₀ id₀ i arg =>
    rw [step]
    split
    next e he =>
      split
      next => exact life_answer h he (by rintro ⟨⟩)
      next => exact Step.same _
    next => exact Step.same _
  | finish t₀ id₀ i result =>
    rw [step]
    split
    next e he =>
      split
      next hopen => exact life_answer h he fun _ x hx => by simpa using List.all_eq_true.1 hopen.2 x hx
      next => exact Step.same _
    next => exact Step.same _
  | changed t₀ =>
    have hpost : (w.post (.server t₀) .changed).life t id = w.life t id := life_post ⟨rfl, rfl⟩
    change Step _ ((if w.isOpen (.server t₀) then w.post (.server t₀) .changed else w).life t id)
    split
    · exact hpost ▸ Step.same _
    · exact Step.same _

/-! ### What holds of the tabs -/

/-- A channel posts messages of its own kind. -/
def Speaks (w : World Arg) : Chan → Msg Arg → Prop
  | .follower t, m => (∃ id p, m = .req t id p.request ∧ w.posted t id = some p) ∨ m = .probe t
  | .server _, m => (∃ leader, m = .hello leader) ∨ m = .changed ∨ ∃ t' id r, m = .reply t' id r

namespace Tabs

theorem post (h : Tabs w) (hm : Speaks w s m) : Tabs (w.post s m) := by
  refine ⟨h.dormant, h.lock, fun t r m' hm' => ?_, fun t r m' hm' => ?_, h.ids, h.idle, h.ready, h.flight⟩
  · rcases mem_post hm' with hmem | ⟨rfl, rfl⟩
    · exact h.fromFollower t r m' hmem
    · exact hm
  · rcases mem_post hm' with hmem | ⟨rfl, rfl⟩
    · exact h.fromServer t r m' hmem
    · exact hm

theorem pop (h : Tabs w) (s r : Chan) : Tabs (w.pop s r) :=
  ⟨h.dormant, h.lock, fun t r' m' hm' => h.fromFollower t r' m' (mem_pop hm'),
    fun t r' m' hm' => h.fromServer t r' m' (mem_pop hm'), h.ids, h.idle, h.ready, h.flight⟩

theorem lt_opened (h : Tabs w) (hf : w.follower t = some f) : t < w.opened := by
  by_contra hle
  rw [(h.dormant t (by omega)).2.1] at hf
  cases hf

theorem le_seq (h : Tabs w) (hf : w.follower t = some f) (hid : w.posted t id ≠ none) : id ≤ f.seq := by
  obtain ⟨f', hf', hle⟩ := h.ids t id hid
  rw [hf, Option.some.injEq] at hf'
  rwa [hf']

theorem setFollower (h : Tabs w) (ht : t < w.opened) (hseq : ∀ id, w.posted t id ≠ none → id ≤ f.seq)
    (hidle : f.promoted = true ∨ f.leaderId = none → f.inflight = [])
    (hready : f.ready = true → f.promoted = true ∨ f.leaderId ≠ none)
    (hflight : ∀ id ∈ f.inflight, (w.posted t id).map (·.addressed) = some f.leaderId) : Tabs (w.setFollower t f) := by
  have hcases : ∀ t' f', (w.setFollower t f).follower t' = some f' → t' = t ∧ f' = f ∨ w.follower t' = some f' := by
    intro t' f' hf'
    by_cases ht : t' = t
    · subst ht
      rw [World.setFollower] at hf'
      dsimp only at hf'
      rw [Function.update_self, Option.some.injEq] at hf'
      exact .inl ⟨rfl, hf'.symm⟩
    · rw [World.setFollower] at hf'
      dsimp only at hf'
      rw [Function.update_of_ne ht] at hf'
      exact .inr hf'
  refine ⟨fun t' ht' => ?_, h.lock, h.fromFollower, h.fromServer, fun t' id hid => ?_, fun t' f' hf' => ?_, fun t' f' hf' => ?_,
    fun t' f' hf' => ?_⟩
  · have hne : t' ≠ t := by
      rintro rfl
      exact absurd ht (by change w.opened ≤ t' at ht'; omega)
    obtain ⟨halive, hnone, hserving⟩ := h.dormant t' ht'
    exact ⟨halive, (Function.update_of_ne hne ..).trans hnone, hserving⟩
  · by_cases ht : t' = t
    · subst ht
      exact ⟨f, Function.update_self .., hseq id hid⟩
    · obtain ⟨f', hf', hle⟩ := h.ids t' id hid
      exact ⟨f', (Function.update_of_ne ht ..).trans hf', hle⟩
  · rcases hcases t' f' hf' with ⟨rfl, rfl⟩ | hf'
    · exact hidle
    · exact h.idle t' f' hf'
  · rcases hcases t' f' hf' with ⟨rfl, rfl⟩ | hf'
    · exact hready
    · exact h.ready t' f' hf'
  · rcases hcases t' f' hf' with ⟨rfl, rfl⟩ | hf'
    · exact hflight
    · exact h.flight t' f' hf'

theorem failInflight (h : Tabs w) (hf : w.follower t = some f₀) (hseq : f₀.seq ≤ f.seq)
    (hready : f.ready = true → f.promoted = true ∨ f.leaderId ≠ none) (why : String) : Tabs (w.failInflight t f why) := by
  have hset := h.setFollower (f := { f with inflight := [] }) (h.lt_opened hf) (fun id hid => (h.le_seq hf hid).trans hseq)
    (fun _ => rfl) hready fun id hid => by cases hid
  exact ⟨hset.dormant, hset.lock, hset.fromFollower, hset.fromServer, hset.ids, hset.idle, hset.ready, hset.flight⟩

theorem see (h : Tabs w) (t id : Nat) (e : Event Arg) : Tabs (w.see t id e) :=
  ⟨h.dormant, h.lock, h.fromFollower, h.fromServer, h.ids, h.idle, h.ready, h.flight⟩

theorem onMsg (h : Tabs w) (hf : w.follower t = some f) (m : Msg Arg) : Tabs (w.onMsg t f m) := by
  have hseq : ∀ id, w.posted t id ≠ none → id ≤ f.seq := fun id hid => h.le_seq hf hid
  have hidle := h.idle t f hf
  have hready := h.ready t f hf
  have hflight := h.flight t f hf
  cases m with
  | hello leader =>
    rw [World.onMsg]
    have hknown : ({ f with leaderId := some leader, ready := true } : Follower).ready = true →
        f.promoted = true ∨ some leader ≠ none := fun _ => .inr (Option.some_ne_none leader)
    split
    · exact h.failInflight (f := { f with leaderId := some leader, ready := true }) hf le_rfl hknown _
    next hsame =>
      refine h.setFollower (h.lt_opened hf) hseq (fun hor => ?_) hknown fun id hid => ?_
      · rcases hor with hpromoted | hnone
        · exact hidle (.inl hpromoted)
        · cases hnone
      · rw [hflight id hid]
        cases hleader : f.leaderId with
        | none =>
          have hid : id ∈ f.inflight := hid
          rw [hidle (.inr hleader)] at hid
          cases hid
        | some leader' =>
          rw [hleader, Option.any_some] at hsame
          simp only [ne_eq, decide_not, Bool.not_eq_true', decide_eq_false_iff_not, not_not] at hsame
          rw [hsame]
  | reply t' id r =>
    rw [World.onMsg]
    split
    next =>
      refine see ?_ ..
      split
      · refine h.setFollower (h.lt_opened hf) hseq (fun hor => ?_) hready fun id' hid' => hflight id' (List.mem_of_mem_filter hid')
        rw [hidle hor]
        rfl
      · exact h
    next => exact h
  | req sender id r => exact h
  | probe sender => exact h
  | changed => exact h

theorem startLeaderServer (h : Tabs w) (hlock : w.lock = some t) (ht : t < w.opened) : Tabs (w.startLeaderServer t) := by
  have hserves : Tabs { w with serving := Function.update w.serving t true, terms := w.terms ++ [t] } := by
    refine ⟨fun t' ht' => ?_, fun t' hopen => ?_, h.fromFollower, h.fromServer, h.ids, h.idle, h.ready, h.flight⟩
    · obtain ⟨halive, hnone, hserving⟩ := h.dormant t' ht'
      have hne : t' ≠ t := by
        rintro rfl
        exact absurd ht (by change w.opened ≤ t' at ht'; omega)
      exact ⟨halive, hnone, (Function.update_of_ne hne ..).trans hserving⟩
    · by_cases hne : t' = t
      · subst hne
        exact hlock
      · refine h.lock t' ?_
        rw [isOpen] at hopen
        dsimp only at hopen
        rw [Function.update_of_ne hne] at hopen
        exact hopen
  exact hserves.post (.inl ⟨t, rfl⟩)

theorem onRequest (h : Tabs w) (t : Nat) (m : Msg Arg) : Tabs (w.onRequest t m) := by
  cases m with
  | probe sender => exact h.post (.inl ⟨t, rfl⟩)
  | req sender id r => exact ⟨h.dormant, h.lock, h.fromFollower, h.fromServer, h.ids, h.idle, h.ready, h.flight⟩
  | hello leader => exact h
  | reply t' id r => exact h
  | changed => exact h

theorem answer (h : Tabs w) (t id i : Nat) (e : Execution Nat (Request Arg) Arg) (r : Reply Arg) :
    Tabs (w.answer t id i e r) := by
  refine post ?_ (.inr (.inr ⟨t, id, r, rfl⟩))
  exact ⟨h.dormant, h.lock, h.fromFollower, h.fromServer, h.ids, h.idle, h.ready, h.flight⟩

theorem rpc (h : Tabs w) (hf : w.follower t = some f) (hopen : w.isOpen (.follower t) = true) (hready : f.ready = true)
    (r : Request Arg) : Tabs (w.rpc t f r) := by
  have hpromoted : f.promoted = false := by
    obtain ⟨f', hf', hpromoted⟩ := (isOpen_follower.1 hopen).2
    rw [hf, Option.some.injEq] at hf'
    rw [hf', hpromoted]
  have hknown : f.leaderId ≠ none := by
    rcases h.ready t f hf hready with h | h
    · rw [hpromoted] at h
      cases h
    · exact h
  let posted' : Nat → Nat → Option (Posted Arg) := fun t' id' =>
    if t' = t ∧ id' = f.send.seq then some ⟨r, f.leaderId, w.listening⟩ else w.posted t' id'
  have hkept : ∀ t' id', w.posted t' id' ≠ none → posted' t' id' = w.posted t' id' := by
    intro t' id' hid
    refine if_neg ?_
    rintro ⟨rfl, rfl⟩
    exact absurd (h.le_seq hf hid) (Nat.not_succ_le_self _)
  have hself : posted' t f.send.seq = some ⟨r, f.leaderId, w.listening⟩ := if_pos ⟨rfl, rfl⟩
  have hsplit : w.rpc t f r = (({ w.setFollower t { f with seq := f.seq + 1 } with
      posted := posted' } : World Arg).setFollower t f.send).post (.follower t) (.req t f.send.seq r) := by
    have hset : w.setFollower t f.send = (w.setFollower t { f with seq := f.seq + 1 }).setFollower t f.send := by
      simp [World.setFollower]
    rw [World.rpc, hset]
    rfl
  have hcount : Tabs (w.setFollower t { f with seq := f.seq + 1 }) := h.setFollower (f := { f with seq := f.seq + 1 }) (h.lt_opened hf)
    (fun id hid => (h.le_seq hf hid).trans (Nat.le_succ _)) (h.idle t f hf) (h.ready t f hf) (h.flight t f hf)
  have hposts : Tabs { w.setFollower t { f with seq := f.seq + 1 } with posted := posted' } := by
    refine ⟨hcount.dormant, hcount.lock, fun t' r m hm => ?_, hcount.fromServer, fun t' id hid => ?_, hcount.idle, hcount.ready,
      fun t' f' hf' id hid => ?_⟩
    · rcases hcount.fromFollower t' r m hm with ⟨id, p, rfl, hp⟩ | rfl
      · have hsome : w.posted t' id = some p := hp
        exact .inl ⟨id, p, rfl, (hkept t' id (by simp [hsome])).trans hsome⟩
      · exact .inr rfl
    · by_cases hkey : t' = t ∧ id = f.send.seq
      · obtain ⟨rfl, rfl⟩ := hkey
        exact ⟨_, Function.update_self .., le_rfl⟩
      · refine hcount.ids t' id fun hnone => hid ?_
        exact (if_neg hkey).trans hnone
    · have hposted : (w.posted t' id).map (·.addressed) = some f'.leaderId := hcount.flight t' f' hf' id hid
      change (posted' t' id).map (·.addressed) = some f'.leaderId
      have hsome : w.posted t' id ≠ none := by
        intro hnone
        rw [hnone] at hposted
        cases hposted
      rw [hkept t' id hsome, hposted]
  rw [hsplit]
  refine (hposts.setFollower (f := f.send) (h.lt_opened hf) (fun id hid => ?_) (fun hor => ?_) (h.ready t f hf) fun id hid => ?_).post
    (.inl ⟨f.send.seq, _, rfl, hself⟩)
  · obtain ⟨f', hf', hle⟩ := hposts.ids t id hid
    have hf' := (Function.update_self ..).symm.trans hf'
    rw [Option.some.injEq] at hf'
    rwa [← hf'] at hle
  · rcases hor with hpromoted' | hnone
    · rw [show f.send.promoted = false from hpromoted] at hpromoted'
      cases hpromoted'
    · exact absurd hnone hknown
  · rcases List.mem_append.1 hid with hid | hid
    · exact hposts.flight t { f with seq := f.seq + 1 } (Function.update_self ..) id hid
    · rw [List.mem_singleton.1 hid]
      change (posted' t f.send.seq).map (·.addressed) = some f.leaderId
      rw [hself]
      rfl

theorem step (h : Tabs w) (act : Act Arg) : Tabs (w.step act) := by
  cases act with
  | boot =>
    have hopens : Tabs { w with opened := w.opened + 1, alive := Function.update w.alive w.opened true } := by
      refine ⟨fun t ht => ?_, fun t hopen => ?_, h.fromFollower, h.fromServer, h.ids, h.idle, h.ready, h.flight⟩
      · change w.opened + 1 ≤ t at ht
        obtain ⟨halive, hrest⟩ := h.dormant t (by omega)
        exact ⟨(Function.update_of_ne (by omega) ..).trans halive, hrest⟩
      · rw [isOpen] at hopen
        dsimp only at hopen
        by_cases ht : t = w.opened
        · rw [ht, (h.dormant w.opened le_rfl).2.2, Bool.and_false] at hopen
          cases hopen
        · rw [Function.update_of_ne ht] at hopen
          exact h.lock t hopen
    rw [World.step]
    dsimp only
    split
    next hnone =>
      refine ⟨hopens.dormant, fun t hopen => ?_, h.fromFollower, h.fromServer, h.ids, h.idle, h.ready, h.flight⟩
      have := hopens.lock t hopen
      rw [show _ = none from hnone] at this
      cases this
    next =>
      refine hopens.setFollower (f := {}) (Nat.lt_succ_self _) (fun id hid => ?_) (fun _ => rfl) (by rintro ⟨⟩) (by rintro id ⟨⟩)
      obtain ⟨f, hf, -⟩ := h.ids w.opened id hid
      rw [(h.dormant w.opened le_rfl).2.1] at hf
      cases hf
  | grant t =>
    rw [World.step]
    split
    next hgrant =>
      refine ⟨h.dormant, fun t' hopen => ?_, h.fromFollower, h.fromServer, h.ids, h.idle, h.ready, h.flight⟩
      have := h.lock t' hopen
      rw [hgrant.1] at this
      cases this
    next => exact h
  | created t =>
    rw [World.step]
    split
    next hcreated =>
      have ht : t < w.opened := by
        by_contra hle
        have := (h.dormant t (by omega)).1
        rw [hcreated.2.1] at this
        cases this
      split
      next => exact h.startLeaderServer hcreated.1 ht
      next f hf =>
        exact (h.startLeaderServer hcreated.1 ht).failInflight (f := { f with ready := true, promoted := true }) hf le_rfl
          (fun _ => .inl rfl) _
    next => exact h
  | die t =>
    have hcases : ∀ t', (w.step (.die t)).isOpen (.server t') = true → t' ≠ t ∧ w.isOpen (.server t') = true := by
      intro t' hopen
      rw [World.step, isOpen] at hopen
      dsimp only at hopen
      by_cases ht : t' = t
      · rw [ht, Function.update_self, Bool.false_and] at hopen
        cases hopen
      · rw [Function.update_of_ne ht] at hopen
        exact ⟨ht, hopen⟩
    refine ⟨fun t' ht' => ?_, fun t' hopen => ?_, h.fromFollower, h.fromServer, h.ids, h.idle, h.ready, h.flight⟩
    · obtain ⟨halive, hrest⟩ := h.dormant t' ht'
      refine ⟨?_, hrest⟩
      by_cases ht : t' = t
      · rw [ht]
        exact Function.update_self ..
      · exact (Function.update_of_ne ht ..).trans halive
    · obtain ⟨hne, hopen⟩ := hcases t' hopen
      have hlock := h.lock t' hopen
      change (if w.lock = some t then none else w.lock) = some t'
      rw [if_neg, hlock]
      rw [hlock, Option.some.injEq]
      exact hne
  | probe t =>
    rw [World.step]
    split
    · exact h.post (.inr rfl)
    · exact h
  | call t r =>
    rw [World.step]
    split
    next f hf =>
      split
      next hcall => exact h.rpc hf hcall.1 hcall.2 r
      next => exact h
    next => exact h
  | deliver s r =>
    rw [World.step]
    split
    next => exact h
    next m rest hqueue =>
      split
      next =>
        cases r with
        | follower t =>
          dsimp only
          split
          next f hf => exact (h.pop s (.follower t)).onMsg hf m
          next => exact h
        | server t => exact (h.pop s (.server t)).onRequest t m
      next => exact h
  | emit t id i arg =>
    rw [World.step]
    split
    next e he =>
      split
      · exact h.answer t id i e (.cb arg)
      · exact h
    next => exact h
  | finish t id i result =>
    rw [World.step]
    split
    next e he =>
      split
      · exact h.answer t id i e (resultReply result)
      · exact h
    next => exact h
  | changed t =>
    rw [World.step]
    split
    · exact h.post (.inr (.inl rfl))
    · exact h

end Tabs

/-! ### What holds of every run -/

theorem holds_after (acts : List (Act Arg)) (k : Nat) :
    Tabs (after acts k) ∧ ∀ t id, Inv ((after acts k).life t id) := by
  refine Runs.always (I := fun w : World Arg => Tabs w ∧ ∀ t id, Inv (w.life t id)) ⟨?_, fun t id => ?_⟩
    (fun w act h => ⟨h.1.step act, fun t id => ?_⟩) k
  · refine ⟨fun _ _ => ⟨rfl, rfl, rfl⟩, ?_, ?_, ?_, ?_, ?_, ?_, ?_⟩
    · rintro _ ⟨⟩
    · rintro _ _ _ ⟨⟩
    · rintro _ _ _ ⟨⟩
    · exact fun _ _ h => absurd rfl h
    · rintro _ _ ⟨⟩
    · rintro _ _ ⟨⟩
    · rintro _ _ ⟨⟩
  · refine ⟨fun _ => ⟨rfl, rfl, rfl, fun _ => rfl⟩, fun _ => Nat.zero_le _, ?_, ?_, ?_, fun _ _ => rfl, [], none, rfl,
      fun _ => rfl, ?_, ?_, ?_⟩
    · rintro _ ⟨⟩
    · rintro _ ⟨⟩
    · rintro _ ⟨⟩
    · rintro _ ⟨⟩
    · rintro ⟨⟩
    · rintro _ - ⟨⟩
  · exact (h.2 t id).step (life_step h.1 act t id (h.2 t id))

end World

end TrackerStream.Multitab
