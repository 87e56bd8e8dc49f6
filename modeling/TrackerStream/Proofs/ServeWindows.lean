import TrackerStream.PlaylistList
import TrackerStream.Runs
import TrackerStream.WebPlaylistList

/-!
# What requests for playlist lists can cost

The tables that requests share bound what a peer is served and how often a name is gossiped again, as long as no other
request has changed the entry that a request looked up before it acts on it.
-/

namespace TrackerStream.PlaylistList
open Prog Windows

variable {lib : RateLib}

/-! ### The goroutines of the node -/

/-- The bucket of a peer. -/
def bucket (p : String) (s : State lib) : Option lib.Limiter := (s.lims.find p).bind fun l => s.limiters[l]?

def admissions (p : String) (s : State lib) : Nat := s.admitted.count p

def announces (name : String) (s : State lib) : Nat := s.reannounced.count name

/-- What a request found of the last name it looked up. -/
def lastLook : List (Σ e, Ans e) → Option ℚ
  | [] => none
  | ⟨.coolGet _, r⟩ :: _ => r
  | _ :: past => lastLook past

/-- What a request acts on is still what it looked up: a peer that had no bucket has none, a bucket it charges is that of
the peer, and a name has the time it had, or none. -/
def unraced : Pool.Rules Act Ans String Input (State lib) Op where
  start _ _ _ := True
  act s _ t e _ :=
    match e with
    | .limsAdd p => s.lims.find p = none
    | .allow p l => s.lims.find p = some l
    | .coolAdd name => s.cool.find name = lastLook t.past ∨ s.cool.find name = none
    | _ => True

instance (s : State lib) (ts : List (Task Act Ans String Op)) (o : Op) : Decidable (unraced.start s ts o) :=
  inferInstanceAs (Decidable True)

instance (s : State lib) (ts : List (Task Act Ans String Op)) (t : Task Act Ans String Op) (e : Act) (i : Input) :
    Decidable (unraced.act s ts t e i) :=
  match e with
  | .limsAdd p => inferInstanceAs (Decidable (s.lims.find p = none))
  | .allow p l => inferInstanceAs (Decidable (s.lims.find p = some l))
  | .coolAdd name => inferInstanceAs (Decidable (s.cool.find name = lastLook t.past ∨ s.cool.find name = none))
  | .limsGet _ | .readRequest | .inManifest _ | .getFull _ | .coolGet _ | .since _ | .publishPlaylist _ _ _
  | .ingest _ _ _ _ | .snapshot _ | .writeMsg _ _ | .reset | .setManifest _ => inferInstanceAs (Decidable True)

variable {s : State lib} {e : Act} {i : Input} {p name : String}

theorem clock_world : (world lib e i s).2.clock = s.clock + i.elapsed := by
  cases e <;> try rfl
  rename_i l
  simp only [world, serve]
  split <;> rfl

theorem clock_le_world : s.clock ≤ (world lib e i s).2.clock := by
  rw [clock_world]
  exact le_add_of_nonneg_right i.elapsed.2

theorem bucketStep_world (hadd : ∀ q, e = .limsAdd q → s.lims.find q = none)
    (hallow : ∀ q l, e = .allow q l → s.lims.find q = some l) :
    BucketStep lib.allow State.clock (bucket p) (admissions p) s (world lib e i s).2 := by
  have hkeep {lims : Lru String Nat plListPeerLims} (h : lims.find p = none ∨ lims.find p = s.lims.find p)
      {s' : State lib} (hlims : s'.lims = lims) (hlimiters : s'.limiters = s.limiters)
      (hadmitted : s'.admitted = s.admitted) : BucketStep lib.allow State.clock (bucket p) (admissions p) s s' := by
    rcases h with hnone | hsame
    · exact .dropped (by rw [bucket, hlims, hnone]; rfl) (by rw [admissions, admissions, hadmitted])
    · exact .idle (by rw [bucket, bucket, hlims, hsame, hlimiters]) (by rw [admissions, admissions, hadmitted])
  cases e with
  | limsGet q =>
    refine hkeep ?_ rfl rfl rfl
    by_cases hq : p = q
    · subst hq
      exact .inr (Lru.find_touch (by decide))
    · exact Lru.find_touch_ne hq
  | limsAdd q =>
    by_cases hq : p = q
    · subst hq
      exact .opened (by rw [bucket, hadd p rfl]; rfl) rfl
    · rcases Lru.find_add_ne (v := s.limiters.length) (c := s.lims) hq with hnone | hsame
      · exact .dropped (by rw [bucket]; exact (congrArg (Option.bind · _) hnone).trans rfl) rfl
      · cases hb : bucket p s with
        | none => exact .opened hb rfl
        | some l =>
          obtain ⟨n, hn, hl⟩ := Option.bind_eq_some_iff.1 hb
          refine .idle ?_ rfl
          calc bucket p (world lib (.limsAdd q) i s).2 = (s.limiters ++ [lib.newLimiter])[n]? := by
                rw [bucket]
                exact (congrArg (Option.bind · _) (hsame.trans hn)).trans rfl
            _ = bucket p s := by rw [List.getElem?_append_left (List.getElem?_eq_some_iff.1 hl).1, hl, hb]
  | allow q l =>
    have hq := hallow q l rfl
    cases hl : s.limiters[l]? with
    | none =>
      have hsame : (world lib (.allow q l) i s).2 = { s with clock := s.clock + i.elapsed } := by
        simp only [world, serve, hl]
      rw [hsame]
      exact .idle rfl rfl
    | some limiter =>
      have hworld : (world lib (.allow q l) i s).2 = { s with
          clock := s.clock + i.elapsed
          limiters := s.limiters.set l (lib.allow (s.clock + i.elapsed) limiter).2
          admitted := if (lib.allow (s.clock + i.elapsed) limiter).1 then q :: s.admitted else s.admitted } := by
        simp only [world, serve, hl]
      rw [hworld]
      cases hp : s.lims.find p with
      | none =>
        have hne : q ≠ p := by
          rintro rfl
          rw [hp] at hq
          cases hq
        refine .dropped (by rw [bucket, hp]; rfl) ?_
        rw [admissions]
        split
        · exact List.count_cons_of_ne hne
        · rfl
      | some n =>
        by_cases hn : n = l
        · subst hn
          refine .charged limiter (.inr (by rw [bucket, hp]; exact hl)) ?_ ?_
          · rw [bucket, hp]
            exact List.getElem?_set_self (List.getElem?_eq_some_iff.1 hl).1
          · rw [admissions]
            split
            · rw [List.count_cons]
              exact Nat.add_le_add_left (by split <;> decide) _
            · exact Nat.le_refl _
        · have hne : q ≠ p := by
            rintro rfl
            rw [hp] at hq
            exact hn (Option.some.inj hq)
          refine .idle ?_ ?_
          · rw [bucket, bucket, hp]
            exact List.getElem?_set_ne (Ne.symm hn)
          · rw [admissions]
            split
            · exact List.count_cons_of_ne hne
            · rfl
  | _ => exact hkeep (.inr rfl) rfl rfl rfl

/-- The names are recorded when their time has come. -/
theorem cooldownStep_world (hadd : ∀ n, e = .coolAdd n → ∀ a, s.cool.find n = some a → a + plWantCooldown ≤ s.clock) :
    CooldownStep plWantCooldown State.clock (fun s => s.cool.find name) (announces name) s (world lib e i s).2 := by
  cases e with
  | coolGet n =>
    have hfind : (s.cool.touch n).find name = none ∨ (s.cool.touch n).find name = s.cool.find name := by
      by_cases hn : name = n
      · subst hn
        exact .inr (Lru.find_touch (by decide))
      · exact Lru.find_touch_ne hn
    exact hfind.elim (fun h => .dropped h rfl) fun h => .idle h rfl
  | coolAdd n =>
    by_cases hn : name = n
    · subst hn
      refine .recorded (fun a ha => (hadd name rfl a ha).trans clock_le_world) (Lru.find_add_self (by decide)) ?_
      exact List.count_cons_self
    · have hcount : announces name (world lib (.coolAdd n) i s).2 = announces name s :=
        List.count_cons_of_ne (Ne.symm hn)
      rcases Lru.find_add_ne (v := s.clock + i.elapsed) (c := s.cool) hn with h | h
      · exact .dropped h hcount
      · exact .idle h hcount
  | allow q l =>
    simp only [world, serve]
    split <;> exact .idle rfl rfl
  | _ => exact .idle rfl rfl

/-- What is remembered of a request: what it found of the last name, and whether that has cooled down. -/
def looking : Monitor Act Ans Op (Option ℚ × Bool) where
  init _ := (none, false)
  track q e r :=
    match e, r with
    | .coolGet _, r => (r, r.isNone)
    | .since a, d => (q.1, q.1 = some a && plWantCooldown ≤ d)
    | _, _ => q
  legal q e :=
    match e with
    | .coolAdd _ => q.2 = true
    | _ => True
  allow _ _ := True

def Cooled (s : State lib) (q : Option ℚ × Bool) : Prop := q.2 = true → ∀ a, q.1 = some a → a + plWantCooldown ≤ s.clock

theorem lastLook_view (t : Task Act Ans String Op) : lastLook t.past = (looking.view t).1 := by
  obtain ⟨op, past, rest⟩ := t
  induction past with
  | nil => rfl
  | cons x past ih =>
    obtain ⟨e, r⟩ := x
    cases e with
    | coolGet n => rfl
    | _ => exact ih

/-- A name is recorded when it was not found, or has cooled down. -/
theorem follows_wantAllowed (q : Option ℚ × Bool) :
    (wantAllowed name).wp looking.contract (fun _ _ => True) (fun _ _ => True) q := by
  simp only [wantAllowed, act, wp_bind, wp_call]
  refine ⟨trivial, ?_⟩
  rintro r _ ⟨-, rfl⟩
  cases r with
  | none =>
    simp only [wp_bind, wp_call]
    exact ⟨rfl, fun _ _ _ => trivial⟩
  | some a =>
    simp only [wp_bind, wp_call]
    refine ⟨trivial, ?_⟩
    rintro d _ ⟨-, rfl⟩
    split
    · trivial
    · rename_i hcooled
      simp only [wp_bind, wp_call]
      refine ⟨?_, fun _ _ _ => trivial⟩
      exact Bool.and_eq_true_iff.2 ⟨decide_eq_true rfl, decide_eq_true (not_lt.1 hcooled)⟩

theorem follows_reannounce (reann : Nat) (q : Option ℚ × Bool) :
    (reannounce reann name).wp looking.contract (fun _ _ => True) (fun _ _ => True) q := by
  simp only [reannounce, act, wp_bind, wp_call]
  refine ⟨trivial, fun listed q' _ => ?_⟩
  split
  · trivial
  · simp only [wp_bind, wp_call]
    refine ⟨trivial, fun full q'' _ => ?_⟩
    split
    · trivial
    · simp only [wp_bind]
      refine wp_mono _ (follows_wantAllowed _) (fun allowed q _ => ?_) fun _ _ _ => trivial
      split
      · trivial
      · simp only [wp_bind, wp_call]
        refine ⟨trivial, fun sent q _ => ?_⟩
        split
        · trivial
        · simp only [wp_bind, wp_call]
          exact ⟨trivial, fun _ _ _ => trivial⟩

theorem follows_allow (q : Option ℚ × Bool) :
    (allow p).wp looking.contract (fun _ _ => True) (fun _ _ => True) q := by
  simp only [allow, act, wp_bind, wp_call]
  refine ⟨trivial, fun l q' _ => ?_⟩
  cases l with
  | some l => exact ⟨trivial, fun _ _ _ => trivial⟩
  | none =>
    simp only [wp_bind, wp_call]
    exact ⟨trivial, fun _ _ _ => ⟨trivial, fun _ _ _ => trivial⟩⟩

theorem follows_prog (o : Op) (q : Option ℚ × Bool) : looking.Follows (fun _ => True) o.prog q := by
  cases o with
  | setManifest entries => exact ⟨trivial, fun _ _ _ => trivial⟩
  | handlePlaylistList p =>
    simp only [Monitor.Follows, Op.prog, handlePlaylistList, wp_bind]
    refine wp_mono _ (follows_allow _) (fun allowed q _ => ?_) fun _ _ _ => trivial
    split
    · exact ⟨trivial, fun _ _ _ => trivial⟩
    · simp only [act, wp_bind, wp_call]
      refine ⟨trivial, fun req q _ => ?_⟩
      cases req with
      | error e => exact ⟨trivial, fun _ _ _ => trivial⟩
      | ok want =>
        simp only [wp_bind]
        refine wp_mono _ (wp_foldlM (fun _ _ => True) (fun name _ reann q _ => follows_reannounce reann q) trivial)
          (fun reann q _ => ?_) fun _ _ _ => trivial
        simp only [wp_call]
        exact ⟨trivial, fun _ _ _ => ⟨trivial, fun _ _ _ => trivial⟩⟩

/-- What is remembered of a request stays true while others act. -/
theorem Cooled.mono {s' : State lib} {q : Option ℚ × Bool} (h : Cooled s q) (hclock : s.clock ≤ s'.clock) : Cooled s' q :=
  fun hq a ha => (h hq a ha).trans hclock

theorem Cooled.track {q : Option ℚ × Bool} (h : Cooled s q) :
    Cooled (world lib e i s).2 (looking.track q e (world lib e i s).1) := by
  cases e with
  | coolGet n =>
    intro hq a ha
    have hnone : s.cool.find n = none := Option.isNone_iff_eq_none.1 hq
    rw [show (looking.track q (.coolGet n) (world lib (.coolGet n) i s).1).1 = s.cool.find n from rfl, hnone] at ha
    cases ha
  | since b =>
    intro hq a ha
    obtain ⟨hb, hd⟩ := Bool.and_eq_true_iff.1 hq
    have heq : b = a := Option.some.inj ((of_decide_eq_true hb).symm.trans ha)
    have hgap : plWantCooldown ≤ s.clock + i.elapsed - b := of_decide_eq_true hd
    rw [clock_world, ← heq]
    linarith
  | _ => exact h.mono clock_le_world

theorem watched_moves {ms : List (Prog.Move Input Op)} {p₀ : Pool Act Ans String (State lib) Op} (hp : p₀.tasks = [])
    (h : Runs.Along (Pool.move (system lib)) (Pool.Obeys (system lib) unraced) p₀ ms) (k : Nat) :
    looking.Watched Cooled (Runs.state (Pool.move (system lib)) p₀ ms k).state
      (Runs.state (Pool.move (system lib)) p₀ ms k).tasks := by
  refine h.always (I := fun p => looking.Watched Cooled p.state p.tasks) (by rw [hp]; exact fun t ht => absurd ht List.not_mem_nil)
    (fun p m hm hI => Pool.move_invariant ?_ ?_ hI hm) k
  · intro s ts o hI _
    exact hI.start (follows_prog o _) fun hq => absurd hq Bool.false_ne_true
  · intro s l₁ t l₂ e k i hI hrest _ _
    exact hI.act hrest trivial (fun _ hJ => hJ.track) fun _ _ u _ _ hJ => hJ.mono clock_le_world

/-- What a move does to the tables: nothing, or what one act does that is not raced. -/
theorem move_cases {ms : List (Prog.Move Input Op)} {p₀ : Pool Act Ans String (State lib) Op} (hp : p₀.tasks = [])
    (h : Runs.Along (Pool.move (system lib)) (Pool.Obeys (system lib) unraced) p₀ ms) (k : Nat) :
    (Runs.state (Pool.move (system lib)) p₀ ms (k + 1)).state = (Runs.state (Pool.move (system lib)) p₀ ms k).state ∨
      ∃ e i, (Runs.state (Pool.move (system lib)) p₀ ms (k + 1)).state =
          (world lib e i (Runs.state (Pool.move (system lib)) p₀ ms k).state).2 ∧
        (∀ q, e = .limsAdd q → (Runs.state (Pool.move (system lib)) p₀ ms k).state.lims.find q = none) ∧
        (∀ q l, e = .allow q l → (Runs.state (Pool.move (system lib)) p₀ ms k).state.lims.find q = some l) ∧
        ∀ n, e = .coolAdd n → ∀ a, (Runs.state (Pool.move (system lib)) p₀ ms k).state.cool.find n = some a →
          a + plWantCooldown ≤ (Runs.state (Pool.move (system lib)) p₀ ms k).state.clock := by
  rcases Pool.state_runs h k with heq | ⟨l₁, t, l₂, e, rest, inp, htasks, hrest, hrule, heq⟩
  · exact .inl heq
  · refine .inr ⟨e, inp, heq, ?_, ?_, ?_⟩
    · rintro q rfl
      exact hrule
    · rintro q l rfl
      exact hrule
    · rintro n rfl a ha
      obtain ⟨hfollows, hcooled⟩ := watched_moves hp h k t (by rw [htasks]; simp)
      have hlook : lastLook t.past = some a := by
        rcases hrule with hsame | hnone
        · rw [← hsame, ha]
        · rw [hnone] at ha
          cases ha
      rw [lastLook_view] at hlook
      exact hcooled (by rw [hrest]; rfl) (Monitor.legal_of_follows hfollows hrest) a hlook

/-- The node's requests are limited, where none is raced. -/
theorem limited_node {c : ℚ} {tokens : lib.Limiter → ℚ → ℚ} (hlib : TokenBucket lib.allow tokens plListPeerBurst plListPeerRate)
    {ms : List (Prog.Move Input Op)} (h : Runs.Along (Pool.move (system lib)) (Pool.Obeys (system lib) unraced) ⟨{ clock := c }, []⟩ ms) :
    Limited State.clock bucket (fun name s => s.cool.find name) admissions announces plListPeerBurst plListPeerRate
      plWantCooldown fun k => (Runs.state (Pool.move (system lib)) ⟨{ clock := c }, []⟩ ms k).state := by
  refine limited hlib (by norm_num [plListPeerBurst]) (by norm_num [plListPeerRate]) (fun m => ?_) (fun m p => ?_) fun m n => ?_
  · rcases move_cases rfl h m with heq | ⟨e, i, heq, -⟩
    · exact (congrArg State.clock heq).ge
    · rw [heq]
      exact clock_le_world
  · rcases move_cases rfl h m with heq | ⟨e, i, heq, hadd, hallow, -⟩
    · rw [heq]
      exact .idle rfl rfl
    · rw [heq]
      exact bucketStep_world hadd hallow
  · rcases move_cases rfl h m with heq | ⟨e, i, heq, -, -, hadd⟩
    · rw [heq]
      exact .idle rfl rfl
    · rw [heq]
      exact cooldownStep_world hadd

end TrackerStream.PlaylistList

/-! ### The requests of the browser -/

namespace TrackerStream.WebPlaylistList
open Prog Windows

/-- A request asks for a name in the second it came in, or the name has not cooled down for it either. -/
def timely : Pool.Rules Act Ans String Input State String where
  start _ _ _ := True
  act s _ _ e i :=
    match e with
    | .allowName name now =>
      now = ((s.clock + i.elapsed : Int) : ℚ) ∨ ∃ last, s.plCooldown.get name = some last ∧ now - last < WANT_COOLDOWN_SECS
    | _ => True

instance (s : State) (ts : List (Task Act Ans String String)) (o : String) : Decidable (timely.start s ts o) :=
  inferInstanceAs (Decidable True)

instance (s : State) (ts : List (Task Act Ans String String)) (t : Task Act Ans String String) (e : Act) (i : Input) :
    Decidable (timely.act s ts t e i) :=
  match e with
  | .allowName name now => decidable_of_iff
      (now = ((s.clock + i.elapsed : Int) : ℚ) ∨ ∃ last ∈ s.plCooldown.get name, now - last < WANT_COOLDOWN_SECS) Iff.rfl
  | .admitPeer _ | .read | .list | .gossip _ _ _ | .write _ _ | .abort => inferInstanceAs (Decidable True)

def seconds (s : State) : ℚ := s.clock

def admissions (p : String) (s : State) : Nat := s.admitted.count p

def announces (name : String) (s : State) : Nat := s.reannounced.count name

/-- The tables keep to their caps. -/
def Capped (s : State) : Prop := s.plRate.size ≤ PEER_TABLE_MAX ∧ s.plCooldown.size ≤ COOLDOWN_TABLE_MAX

section
variable {buckets : JsMap Meter} {times : JsMap ℚ} {peer p name n : String} {now : ℚ}

theorem allowPeer_eq : allowPeer buckets peer now =
    ((Meter.charge PEER_BURST PEER_RATE_PER_SEC now ((buckets.get peer).getD ⟨PEER_BURST, now⟩)).1,
      ((match buckets.get peer with
        | none => if PEER_TABLE_MAX ≤ buckets.size then buckets.deleteFirst else buckets
        | some _ => buckets.delete peer).setLast peer
          (Meter.charge PEER_BURST PEER_RATE_PER_SEC now ((buckets.get peer).getD ⟨PEER_BURST, now⟩)).2)) := by
  rw [allowPeer]
  cases buckets.get peer with
  | none =>
    have hfull : Meter.refilled PEER_BURST PEER_RATE_PER_SEC ⟨PEER_BURST, now⟩ now = PEER_BURST := Meter.refilled_at le_rfl
    have hcharge : Meter.charge PEER_BURST PEER_RATE_PER_SEC now ⟨PEER_BURST, now⟩ = (true, ⟨PEER_BURST - 1, now⟩) := by
      rw [Meter.charge, hfull, if_neg (by norm_num [PEER_BURST])]
    rw [Option.getD_none, hcharge]
    exact if_neg (by norm_num [PEER_BURST])
  | some b =>
    rw [Option.getD_some]
    by_cases hlt : b.refilled PEER_BURST PEER_RATE_PER_SEC now < 1
    · have hcharge : Meter.charge PEER_BURST PEER_RATE_PER_SEC now b =
          (false, ⟨b.refilled PEER_BURST PEER_RATE_PER_SEC now, now⟩) := if_pos hlt
      rw [hcharge]
      exact if_pos hlt
    · have hcharge : Meter.charge PEER_BURST PEER_RATE_PER_SEC now b =
          (true, ⟨b.refilled PEER_BURST PEER_RATE_PER_SEC now - 1, now⟩) := if_neg hlt
      rw [hcharge]
      exact if_neg hlt

theorem get_allowPeer_ne (h : p ≠ peer) :
    (allowPeer buckets peer now).2.get p = none ∨ (allowPeer buckets peer now).2.get p = buckets.get p := by
  rw [allowPeer_eq, JsMap.get_setLast_ne h]
  split
  · split
    · exact JsMap.get_deleteFirst
    · exact .inr rfl
  · exact .inr (JsMap.get_delete_ne h)

theorem size_allowPeer (h : buckets.size ≤ PEER_TABLE_MAX) : (allowPeer buckets peer now).2.size ≤ PEER_TABLE_MAX := by
  rw [allowPeer_eq, JsMap.size_setLast]
  cases hb : buckets.get peer with
  | none =>
    dsimp only
    split
    · rename_i hfull
      have hshift : buckets.deleteFirst.size = buckets.size - 1 := List.length_tail
      have := @JsMap.size_delete_le _ buckets.deleteFirst peer
      have : 0 < PEER_TABLE_MAX := by decide
      omega
    · have := @JsMap.size_delete_le _ buckets peer
      omega
  | some b =>
    have hlt : (buckets.delete peer).size < buckets.size := JsMap.size_delete_lt (by rw [hb]; exact Option.some_ne_none b)
    have := @JsMap.size_delete_le _ (buckets.delete peer) peer
    dsimp only
    omega

theorem allowName_refused (h : (times.get name).any fun last => now - last < WANT_COOLDOWN_SECS) :
    allowName times name now = (false, times) := if_pos h

theorem allowName_eq (h : ¬((times.get name).any fun last => now - last < WANT_COOLDOWN_SECS) = true) :
    allowName times name now = (true,
      (if COOLDOWN_TABLE_MAX ≤ (times.delete name).size then (times.delete name).deleteFirst else times.delete name).setLast
        name now) := if_neg h

theorem get_allowName_ne (h : n ≠ name) :
    (allowName times name now).2.get n = none ∨ (allowName times name now).2.get n = times.get n := by
  by_cases hrefused : (times.get name).any fun last => now - last < WANT_COOLDOWN_SECS
  · exact .inr (by rw [allowName_refused hrefused])
  · rw [allowName_eq hrefused, JsMap.get_setLast_ne h]
    split
    · exact (@JsMap.get_deleteFirst _ (times.delete name) n).imp_right fun hsame => hsame.trans (JsMap.get_delete_ne h)
    · exact .inr (JsMap.get_delete_ne h)

theorem size_allowName (h : times.size ≤ COOLDOWN_TABLE_MAX) : (allowName times name now).2.size ≤ COOLDOWN_TABLE_MAX := by
  by_cases hrefused : (times.get name).any fun last => now - last < WANT_COOLDOWN_SECS
  · rwa [allowName_refused hrefused]
  · rw [allowName_eq hrefused, JsMap.size_setLast]
    have hdelete := @JsMap.size_delete_le _ times name
    split
    · have hshift : (times.delete name).deleteFirst.size = (times.delete name).size - 1 := List.length_tail
      have := @JsMap.size_delete_le _ (times.delete name).deleteFirst name
      have : 0 < COOLDOWN_TABLE_MAX := by decide
      omega
    · have := @JsMap.size_delete_le _ (times.delete name) name
      omega

end

section
variable {s : State} {e : Act} {i : Input} {p name : String}

theorem seconds_world : seconds (world e i s).2 = ((s.clock + i.elapsed : Int) : ℚ) := by cases e <;> rfl

theorem seconds_le_world : seconds s ≤ seconds (world e i s).2 := by
  rw [seconds_world, seconds]
  exact_mod_cast Int.le_add_of_nonneg_right (Int.natCast_nonneg i.elapsed)

theorem bucketStep_world : BucketStep (Meter.charge PEER_BURST PEER_RATE_PER_SEC) seconds (fun s => s.plRate.get p)
    (admissions p) s (world e i s).2 := by
  cases e with
  | admitPeer peer =>
    have hclock : seconds (world (.admitPeer peer) i s).2 = ((s.clock + i.elapsed : Int) : ℚ) := rfl
    have hcount : admissions p (world (.admitPeer peer) i s).2 = (if (allowPeer s.plRate peer (s.clock + i.elapsed : Int)).1 then
        peer :: s.admitted else s.admitted).count p := rfl
    by_cases hp : p = peer
    · subst hp
      refine .charged ((s.plRate.get p).getD ⟨PEER_BURST, (s.clock + i.elapsed : Int)⟩) ?_ ?_ ?_
      · cases s.plRate.get p with
        | none => exact .inl rfl
        | some b => exact .inr rfl
      · rw [hclock]
        change (allowPeer s.plRate p (s.clock + i.elapsed : Int)).2.get p = _
        rw [allowPeer_eq, JsMap.get_setLast_self]
      · rw [hcount, hclock, allowPeer_eq]
        dsimp only
        split
        · rw [List.count_cons_self]
          exact Nat.le_refl _
        · exact Nat.le_refl _
    · have hsame : admissions p (world (.admitPeer peer) i s).2 = admissions p s := by
        rw [hcount]
        split
        · exact List.count_cons_of_ne (Ne.symm hp)
        · rfl
      exact (get_allowPeer_ne hp).elim (fun h => .dropped h hsame) fun h => .idle h hsame
  | _ => exact .idle rfl rfl

theorem cooldownStep_world
    (htimely : ∀ n now, e = .allowName n now → now = ((s.clock + i.elapsed : Int) : ℚ) ∨
      ∃ last, s.plCooldown.get n = some last ∧ now - last < WANT_COOLDOWN_SECS) :
    CooldownStep WANT_COOLDOWN_SECS seconds (fun s => s.plCooldown.get name) (announces name) s (world e i s).2 := by
  cases e with
  | allowName n now =>
    have hcount : announces name (world (.allowName n now) i s).2 = (if (allowName s.plCooldown n now).1 then
        n :: s.reannounced else s.reannounced).count name := rfl
    by_cases hrefused : (s.plCooldown.get n).any fun last => now - last < WANT_COOLDOWN_SECS
    · refine .idle ?_ ?_
      · change (allowName s.plCooldown n now).2.get name = _
        rw [allowName_refused hrefused]
      · rw [hcount, allowName_refused hrefused]
        rfl
    · have hnow : now = ((s.clock + i.elapsed : Int) : ℚ) := by
        refine (htimely n now rfl).resolve_right ?_
        rintro ⟨last, hlast, hlt⟩
        rw [hlast] at hrefused
        exact hrefused (decide_eq_true hlt)
      rw [allowName_eq hrefused] at hcount
      by_cases hn : name = n
      · subst hn
        refine .recorded (fun a ha => ?_) ?_ (hcount.trans List.count_cons_self)
        · rw [seconds_world, ← hnow]
          rw [ha, Option.any_some, decide_eq_true_iff, not_lt] at hrefused
          linarith
        · rw [seconds_world, ← hnow]
          change (allowName s.plCooldown name now).2.get name = _
          rw [allowName_eq hrefused, JsMap.get_setLast_self]
      · have hsame := hcount.trans (List.count_cons_of_ne (Ne.symm hn))
        exact (get_allowName_ne hn).elim (fun h => .dropped h hsame) fun h => .idle h hsame
  | _ => exact .idle rfl rfl

theorem capped_world (h : Capped s) : Capped (world e i s).2 := by
  cases e with
  | admitPeer peer => exact ⟨size_allowPeer h.1, h.2⟩
  | allowName n now => exact ⟨h.1, size_allowName h.2⟩
  | _ => exact h

end

theorem move_cases {ms : List (Prog.Move Input String)} {p₀ : Pool Act Ans String State String}
    (h : Runs.Along (Pool.move system) (Pool.Obeys system timely) p₀ ms) (k : Nat) :
    (Runs.state (Pool.move system) p₀ ms (k + 1)).state = (Runs.state (Pool.move system) p₀ ms k).state ∨
      ∃ e i, (Runs.state (Pool.move system) p₀ ms (k + 1)).state =
          (world e i (Runs.state (Pool.move system) p₀ ms k).state).2 ∧
        ∀ n now, e = .allowName n now →
          now = (((Runs.state (Pool.move system) p₀ ms k).state.clock + i.elapsed : Int) : ℚ) ∨
            ∃ last, (Runs.state (Pool.move system) p₀ ms k).state.plCooldown.get n = some last ∧
              now - last < WANT_COOLDOWN_SECS := by
  rcases Pool.state_runs h k with heq | ⟨l₁, t, l₂, e, rest, inp, -, -, hrule, heq⟩
  · exact .inl heq
  · refine .inr ⟨e, inp, heq, ?_⟩
    rintro n now rfl
    exact hrule

/-- The browser's requests are limited, where each is timely. -/
theorem limited_web {c : Int} {ms : List (Prog.Move Input String)}
    (h : Runs.Along (Pool.move system) (Pool.Obeys system timely) ⟨{ clock := c }, []⟩ ms) :
    Limited seconds (fun p s => s.plRate.get p) (fun name s => s.plCooldown.get name) admissions announces PEER_BURST
        PEER_RATE_PER_SEC WANT_COOLDOWN_SECS (fun k => (Runs.state (Pool.move system) ⟨{ clock := c }, []⟩ ms k).state) ∧
      ∀ k, Capped (Runs.state (Pool.move system) ⟨{ clock := c }, []⟩ ms k).state := by
  have hburst : (0 : ℚ) ≤ PEER_BURST := by norm_num [PEER_BURST]
  have hrate : (0 : ℚ) ≤ PEER_RATE_PER_SEC := by norm_num [PEER_RATE_PER_SEC]
  refine ⟨limited (Meter.tokenBucket hburst hrate) hburst hrate (fun m => ?_) (fun m p => ?_) fun m n => ?_, fun k => ?_⟩
  · rcases move_cases h m with heq | ⟨e, i, heq, -⟩
    · exact (congrArg seconds heq).ge
    · rw [heq]
      exact seconds_le_world
  · rcases move_cases h m with heq | ⟨e, i, heq, -⟩
    · rw [heq]
      exact .idle rfl rfl
    · rw [heq]
      exact bucketStep_world
  · rcases move_cases h m with heq | ⟨e, i, heq, htimely⟩
    · rw [heq]
      exact .idle rfl rfl
    · rw [heq]
      exact cooldownStep_world htimely
  · induction k with
    | zero => exact ⟨Nat.zero_le _, Nat.zero_le _⟩
    | succ k ih =>
      rcases move_cases h k with heq | ⟨e, i, heq, -⟩
      · rwa [heq]
      · rw [heq]
        exact capped_world ih

end TrackerStream.WebPlaylistList

namespace TrackerStream.PlaylistList
open Prog Windows

/-- The requests of both clients are limited, where none of the node's is raced and each of the browser's is timely. -/
theorem serving_limited (lib : RateLib) (tokens : lib.Limiter → ℚ → ℚ) :
    (∀ (c : ℚ) (ms : List (Prog.Move Input Op)), TokenBucket lib.allow tokens plListPeerBurst plListPeerRate →
      Runs.Along (Pool.move (system lib)) (Pool.Obeys (system lib) unraced) ⟨{ clock := c }, []⟩ ms →
        Limited State.clock bucket (fun name s => s.cool.find name) admissions announces plListPeerBurst plListPeerRate
            plWantCooldown (fun k => (Runs.state (Pool.move (system lib)) ⟨{ clock := c }, []⟩ ms k).state) ∧
          ∀ k, (Runs.state (Pool.move (system lib)) ⟨{ clock := c }, []⟩ ms k).state.lims.entries.length ≤ plListPeerLims ∧
            (Runs.state (Pool.move (system lib)) ⟨{ clock := c }, []⟩ ms k).state.cool.entries.length ≤ plWantCoolEnts) ∧
    ∀ (c : Int) (ms : List (Prog.Move WebPlaylistList.Input String)),
      Runs.Along (Pool.move WebPlaylistList.system) (Pool.Obeys WebPlaylistList.system WebPlaylistList.timely)
          ⟨{ clock := c }, []⟩ ms →
        Limited WebPlaylistList.seconds (fun p s => s.plRate.get p) (fun name s => s.plCooldown.get name)
            WebPlaylistList.admissions WebPlaylistList.announces WebPlaylistList.PEER_BURST
            WebPlaylistList.PEER_RATE_PER_SEC WebPlaylistList.WANT_COOLDOWN_SECS
            (fun k => (Runs.state (Pool.move WebPlaylistList.system) ⟨{ clock := c }, []⟩ ms k).state) ∧
          ∀ k, WebPlaylistList.Capped (Runs.state (Pool.move WebPlaylistList.system) ⟨{ clock := c }, []⟩ ms k).state := by
  refine ⟨fun c ms hlib h => ⟨limited_node hlib h, fun k => ⟨?_, ?_⟩⟩, fun c ms h => WebPlaylistList.limited_web h⟩
  · exact (Runs.state (Pool.move (system lib)) ⟨{ clock := c }, []⟩ ms k).state.lims.length_le
  · exact (Runs.state (Pool.move (system lib)) ⟨{ clock := c }, []⟩ ms k).state.cool.length_le

/-- Limiters that are refilled when they are charged. -/
def meterLib : RateLib := ⟨Meter, ⟨plListPeerBurst, 0⟩, Meter.charge plListPeerBurst plListPeerRate⟩

theorem tokenBucket_meterLib : TokenBucket meterLib.allow (fun b t => max 0 (b.refilled plListPeerBurst plListPeerRate t))
    plListPeerBurst plListPeerRate :=
  Meter.tokenBucket (by norm_num [plListPeerBurst]) (by norm_num [plListPeerRate])

def peerA : String := "12D3KooWA82xcGErUhE66LCRMqmeAp8Jq7R1jZ2d2Ey4fXTNDNux"
def peerB : String := "12D3KooWQcfJNmGAEooFfPA2aYFYGEUb3gCAkSk528A8NGJVCtCZ"
def listName : String := "12D3KooWFZpzdF9iG4uGaGapTuMj2ipZCgvWMX4fJD9isSEB5N9H"

/-- A request for the one playlist. -/
def asking : Input := { request := .ok [listName], full := some ([], [], 1) }

/-- A held playlist. -/
def heldRow : Playlists.Row := { held := true, doc_json := "\x7b\"v\":2,\"t\":\"a\"\x7d", record_b64 := some "CkEv" }

def webAsking : WebPlaylistList.Input := { request := .ok [listName], rows := .ok [(listName, heldRow)] }

/-- A request, alone. -/
def oneAsks : List (Prog.Move Input Op) :=
  [.start (.setManifest [⟨listName, 1, []⟩]), .step 0 {}, .start (.handlePlaylistList peerA), .step 1 asking, .step 1 asking,
    .step 1 asking, .step 1 asking, .step 1 asking, .step 1 asking, .step 1 asking, .step 1 asking]

def oneAsksWeb : List (Prog.Move WebPlaylistList.Input String) :=
  [.start peerA, .step 0 webAsking, .step 0 webAsking, .step 0 webAsking, .step 0 webAsking]

theorem serving_limited_one :
    Limited State.clock bucket (fun name s => s.cool.find name) admissions announces plListPeerBurst plListPeerRate
      plWantCooldown (fun k => (Runs.state (Pool.move (system meterLib)) ⟨{ clock := 0 }, []⟩ oneAsks k).state) ∧
    Limited WebPlaylistList.seconds (fun p s => s.plRate.get p) (fun name s => s.plCooldown.get name)
      WebPlaylistList.admissions WebPlaylistList.announces WebPlaylistList.PEER_BURST WebPlaylistList.PEER_RATE_PER_SEC
      WebPlaylistList.WANT_COOLDOWN_SECS
      (fun k => (Runs.state (Pool.move WebPlaylistList.system) ⟨{ clock := 0 }, []⟩ oneAsksWeb k).state) ∧
    announces listName (Runs.state (Pool.move (system meterLib)) ⟨{ clock := 0 }, []⟩ oneAsks 11).state = 1 ∧
    WebPlaylistList.announces listName
      (Runs.state (Pool.move WebPlaylistList.system) ⟨{ clock := 0 }, []⟩ oneAsksWeb 5).state = 1 := by
  refine ⟨((serving_limited meterLib _).1 0 oneAsks tokenBucket_meterLib (Pool.along_of_checks ?_)).1,
    ((serving_limited meterLib fun _ _ => 0).2 0 oneAsksWeb (Pool.along_of_checks ?_)).1, ?_, ?_⟩
  all_goals decide +kernel

/-- Five requests of a peer that all look up its bucket before there is one. -/
def fiveAtOnce : List (Prog.Move Input Op) :=
  List.replicate 5 (.start (.handlePlaylistList peerA)) ++
    (List.range 5 ++ List.range 5 ++ List.range 5).map fun k => .step k {}

/-- Two peers ask for a name, and both requests look it up before it is recorded. -/
def bothAsk : List (Prog.Move Input Op) :=
  [.start (.setManifest [⟨listName, 1, []⟩]), .step 0 {}, .start (.handlePlaylistList peerA),
      .start (.handlePlaylistList peerB)] ++
    (List.replicate 7 1 ++ List.replicate 7 2 ++ [1, 2]).map fun k => .step k asking

/-- A request whose frame comes after a hundred seconds, and one that comes then. -/
def lateFrame : List (Prog.Move WebPlaylistList.Input String) :=
  [.start peerA, .start peerB, .step 0 {}, .step 1 { elapsed := 100 }] ++ ([0, 0, 0, 1, 1, 1]).map fun k => .step k webAsking

/-- The peer is admitted five times at once, and the name is gossiped twice at once on both clients. -/
theorem serving_unlimited :
    (¬Limited State.clock bucket (fun name s => s.cool.find name) admissions announces plListPeerBurst plListPeerRate
      plWantCooldown fun k => (Runs.state (Pool.move (system meterLib)) ⟨{ clock := 0 }, []⟩ fiveAtOnce k).state) ∧
    (¬Limited State.clock bucket (fun name s => s.cool.find name) admissions announces plListPeerBurst plListPeerRate
      plWantCooldown fun k => (Runs.state (Pool.move (system meterLib)) ⟨{ clock := 0 }, []⟩ bothAsk k).state) ∧
    ¬Limited WebPlaylistList.seconds (fun p s => s.plRate.get p) (fun name s => s.plCooldown.get name)
      WebPlaylistList.admissions WebPlaylistList.announces WebPlaylistList.PEER_BURST WebPlaylistList.PEER_RATE_PER_SEC
      WebPlaylistList.WANT_COOLDOWN_SECS
      fun k => (Runs.state (Pool.move WebPlaylistList.system) ⟨{ clock := 0 }, []⟩ lateFrame k).state := by
  refine ⟨fun h => ?_, fun h => ?_, fun h => ?_⟩
  · have hbound := h.requests peerA 15 20 (by decide) (kept_of_all (by decide +kernel))
    have hmany : admissions peerA (Runs.state (Pool.move (system meterLib)) ⟨{ clock := 0 }, []⟩ fiveAtOnce 20).state = 5 ∧
        admissions peerA (Runs.state (Pool.move (system meterLib)) ⟨{ clock := 0 }, []⟩ fiveAtOnce 15).state = 0 ∧
        (Runs.state (Pool.move (system meterLib)) ⟨{ clock := 0 }, []⟩ fiveAtOnce 20).state.clock = 0 ∧
        (Runs.state (Pool.move (system meterLib)) ⟨{ clock := 0 }, []⟩ fiveAtOnce 16).state.clock = 0 := by
      decide +kernel
    rw [hmany.1, hmany.2.1, hmany.2.2.1, hmany.2.2.2] at hbound
    norm_num [plListPeerBurst] at hbound
  · have hbound := h.announcements listName 18 20 (by decide) (kept_of_all (by decide +kernel)) (by decide +kernel)
    revert hbound
    decide +kernel
  · have hbound := h.announcements listName 6 10 (by decide) (kept_of_all (by decide +kernel)) (by decide +kernel)
    revert hbound
    decide +kernel

end TrackerStream.PlaylistList
