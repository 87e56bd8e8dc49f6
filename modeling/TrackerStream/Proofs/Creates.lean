import TrackerStream.Proofs.Acts
import TrackerStream.Proofs.Certified

/-!
# Playlists created side by side

The name of a new playlist's key is made of its title and the second. The node gives a request the key it holds under
that name or a new one, and the row is written over whatever has the name of the key. A create adds a row as long as
none is given the name of a row there is, or of another on its way.
-/

namespace TrackerStream.Playlists
open Prog

/-! ### The node's keys -/

/-- The store and the node's keystore: the PeerId of the key of each name. -/
structure Sidecar where
  store : Store
  keys : AList fun _ : String => String

/-- What the environment puts in, with the PeerId of the key that `GetOrCreate` would mint. -/
structure Asked extends Input where
  fresh : Option String := none
  /-- Whether its `Get` comes before the `put` of another call for the same key. -/
  missed : Bool := false

namespace Sidecar

def row (s : Sidecar) (name : String) : Option Row := s.store.db.row name

/-- The key `GetOrCreate` gives: the one it holds, or a new one. -/
def given (s : Sidecar) (key_name : String) (i : Asked) : Option String :=
  (if i.missed then none else s.keys.lookup key_name).or i.fresh

/-- The key an act is given. -/
def keyOf (s : Sidecar) : Act → Asked → Option String
  | .key_gen key_name, i => s.given key_name i
  | _, _ => none

/-- `key_gen` asks the keystore, and its answer may be lost; every other act is the store's. -/
def world (lib : Lib) : World Act Ans Asked Sidecar
  | .key_gen key_name, i, s =>
    match s.given key_name i with
    | none => (.error "", s)
    | some name => (i.key_gen.map fun _ => name, { s with keys := s.keys.insert key_name name })
  | e, i, s => ((Playlists.world lib e i.toInput s.store).1, { s with store := (Playlists.world lib e i.toInput s.store).2 })

end Sidecar

/-- Creates side by side, each with its title and tracks. -/
def creates (lib : Lib) : System Act Ans String Asked Sidecar (String × List TrackRef) where
  world := Sidecar.world lib
  enabled e s := enabled e s.store
  prog o := do let _ ← create lib o.1 o.2

abbrev Creation : Type := Task Act Ans String (String × List TrackRef)

/-- The names rows were written under. -/
def written (past : List (Σ e, Ans e)) : List String :=
  past.filterMap fun x => match x.1 with
    | .create_row name _ _ _ => some name
    | _ => none

/-- The key that was given last. -/
def keyed (past : List (Σ e, Ans e)) : Option String :=
  past.findSome? fun x => match x with
    | ⟨.key_gen _, r⟩ => (r : Except String String).toOption
    | _ => none

/-- The name a create will write a row under. -/
def awaited (t : Creation) : Option String := if t.rest.ended || written t.past ≠ [] then none else keyed t.past

/-- No row has the name, and no create is about to write one under it. -/
def Free (s : Sidecar) (ts : List Creation) (name : String) : Prop := s.row name = none ∧ ∀ t ∈ ts, awaited t ≠ some name

/-- Each create is given a free name: that of a key just made, or of one the keystore holds. -/
def givenFree : Pool.Rules Act Ans String Asked Sidecar (String × List TrackRef) where
  start _ _ _ := True
  act s ts _ e i := ∀ name ∈ s.keyOf e i, Free s ts name

/-- The row of a new playlist. -/
def ownRow (lib : Lib) (title : String) (tracks : List TrackRef) (key_name : String) (now : Int) : Row :=
  { upserted none (newDoc title tracks) (utf8 (lib.toJson (newDoc title tracks))) none 0 0 now with
    is_mine := true, key_name := some key_name }

/-- The rows of `s` are in `s'` as they were. -/
def Kept (s s' : Sidecar) : Prop := ∀ name r, s.row name = some r → s'.row name = some r

/-- A create as its acts have it: one key, and one row under its name. -/
def making (lib : Lib) : Monitor Act Ans (String × List TrackRef) ((String × List TrackRef) × List (Σ e, Ans e)) where
  init o := (o, [])
  track q e r := (q.1, ⟨e, r⟩ :: q.2)
  legal q e := match e with
    | .key_gen _ => keyed q.2 = none ∧ written q.2 = []
    | .create_row name _ doc b => keyed q.2 = some name ∧ written q.2 = [] ∧ doc = newDoc q.1.1 q.1.2 ∧
        b = utf8 (lib.toJson (newDoc q.1.1 q.1.2))
    | e => Reads e
  allow _ _ := True

variable {lib : Lib}

theorem view_making (t : Creation) : (making lib).view t = (t.op, t.past) := by
  rcases t with ⟨op, past, rest⟩
  induction past with
  | nil => rfl
  | cons x past ih => exact congrArg (fun q => (q.1, (⟨x.1, x.2⟩ :: q.2 : List (Σ e, Ans e)))) ih

/-- The create goes on as it should, and writes one row if it ends well. -/
def Makes (lib : Lib) (t : Creation) : Prop :=
  t.rest.wp (making lib).contract (fun _ q => (written q.2).length = 1) (fun _ _ => True) (t.op, t.past)

theorem makes_get {name : String} {q : (String × List TrackRef) × List (Σ e, Ans e)}
    (h : (written q.2).length = 1) : (get lib name).wp (making lib).contract (fun _ q' => (written q'.2).length = 1)
      (fun _ _ => True) q := by
  simp only [get, select, now_secs, act, wp_bind, wp_call]
  refine ⟨trivial, ?_⟩
  rintro x _ ⟨-, rfl⟩
  cases x with
  | none => exact h
  | some row =>
    simp only [wp_bind, wp_call, wp_ofExcept]
    refine ⟨trivial, ?_⟩
    rintro now _ ⟨-, rfl⟩
    exact ⟨fun _ _ => h, fun _ _ => trivial⟩

theorem makes_start (o : String × List TrackRef) : Makes lib ⟨o, [], (creates lib).prog o⟩ := by
  simp only [Makes, creates, create, now_secs, key_gen, newBytes, act, wp_bind, wp_call, wp_ofExcept]
  refine ⟨trivial, ?_⟩
  rintro now _ ⟨-, rfl⟩
  refine ⟨⟨rfl, rfl⟩, ?_⟩
  rintro r _ ⟨-, rfl⟩
  refine ⟨?_, fun _ _ => trivial⟩
  rintro name rfl
  refine ⟨fun _ _ => ⟨⟨rfl, rfl, rfl, rfl⟩, ?_⟩, fun _ _ => trivial⟩
  rintro _ _ ⟨-, rfl⟩
  refine wp_mono _ (makes_get rfl) ?_ fun _ _ h => h
  rintro (_ | ⟨info, _⟩) q h
  · trivial
  · exact h

variable {t : Creation} {e : Act} {k : Ans e → Prog Act Ans String Unit} {r : Ans e}

theorem Makes.legal (h : Makes lib t) (hrest : t.rest = .act e k) : (making lib).legal (t.op, t.past) e := by
  rw [Makes, hrest] at h
  exact h.1

theorem Makes.answered (h : Makes lib t) (hrest : t.rest = .act e k) : Makes lib (t.answered e r k) := by
  rw [Makes, hrest] at h
  exact h.2 r _ ⟨trivial, rfl⟩

theorem Makes.ended (h : Makes lib t) (hrest : t.rest = .ret ()) : (written t.past).length = 1 := by
  rw [Makes, hrest] at h
  exact h

/-! ### All of them -/

/-- The names the creates have written or will write are apart, those to be written have no row, and the rows are those there
were and those written. -/
structure Making (lib : Lib) (s₀ s : Sidecar) (ts : List Creation) : Prop where
  makes : ∀ t ∈ ts, Makes lib t
  kept : Kept s₀ s
  added : ∀ t ∈ ts, ∀ name ∈ written t.past, s₀.row name = none ∧
    ∃ key_name now, s.row name = some (ownRow lib t.op.1 t.op.2 key_name now)
  names : (ts.flatMap fun t => written t.past).Nodup
  free : ∀ t ∈ ts, ∀ name, awaited t = some name → s.row name = none
  apart : ts.Pairwise fun t u => ∀ name, awaited t = some name → awaited u ≠ some name
  only : ∀ name r, s.row name = some r → s₀.row name = some r ∨ ∃ t ∈ ts, name ∈ written t.past

variable {s₀ s s' : Sidecar} {ts l₁ l₂ : List Creation} {t' : Creation}

theorem awaited_eq_some {name : String} : awaited t = some name ↔
    t.rest.ended = false ∧ written t.past = [] ∧ keyed t.past = some name := by
  rw [awaited]
  split
  next h =>
    rw [Bool.or_eq_true, decide_eq_true_eq] at h
    refine ⟨by rintro ⟨⟩, ?_⟩
    rintro ⟨hended, hwritten, -⟩
    rcases h with h | h
    · rw [hended] at h
      cases h
    · exact absurd hwritten h
  next h =>
    rw [Bool.or_eq_true, decide_eq_true_eq, not_or, Bool.not_eq_true, not_not] at h
    exact ⟨fun hkeyed => ⟨h.1, h.2, hkeyed⟩, fun h' => h'.2.2⟩

variable {past : List (Σ e, Ans e)}

theorem written_quiet (h : Reads e) : written (⟨e, r⟩ :: past) = written past := by
  cases e <;> first | rfl | cases h

theorem keyed_quiet (h : ∀ key_name, e ≠ .key_gen key_name) : keyed (⟨e, r⟩ :: past) = keyed past := by
  cases e <;> first | rfl | exact absurd rfl (h _)

theorem world_quiet (h : ∀ key_name, e ≠ .key_gen key_name) (i : Asked) : Sidecar.world lib e i s =
    ((world lib e i.toInput s.store).1, { s with store := (world lib e i.toInput s.store).2 }) := by
  cases e <;> first | rfl | exact absurd rfl (h _)

theorem row_key_gen {i : Asked} {key_name : String} : (Sidecar.world lib (.key_gen key_name) i s).2.row = s.row := by
  rw [Sidecar.world]
  split <;> rfl

theorem given_of_key_gen {i : Asked} {key_name name : String}
    (h : (Sidecar.world lib (.key_gen key_name) i s).1 = Except.ok name) : s.given key_name i = some name := by
  rw [Sidecar.world] at h
  split at h
  next => cases h
  next given hgiven =>
    dsimp only at h
    cases hlost : i.key_gen with
    | error x =>
      rw [hlost] at h
      cases h
    | ok _ =>
      rw [hlost] at h
      cases h
      exact hgiven

theorem Making.start (h : Making lib s₀ s ts) (o : String × List TrackRef) :
    Making lib s₀ s (ts ++ [⟨o, [], (creates lib).prog o⟩]) := by
  have hawaits : awaited (⟨o, [], (creates lib).prog o⟩ : Creation) = none := ite_self _
  refine ⟨?_, h.kept, ?_, ?_, ?_, ?_, ?_⟩
  · intro t ht
    rcases List.mem_append.1 ht with ht | ht
    · exact h.makes t ht
    · obtain rfl := List.mem_singleton.1 ht
      exact makes_start o
  · intro t ht name hname
    rcases List.mem_append.1 ht with ht | ht
    · exact h.added t ht name hname
    · obtain rfl := List.mem_singleton.1 ht
      cases hname
  · rw [List.flatMap_append, List.flatMap_singleton]
    simpa [written] using h.names
  · intro t ht name hname
    rcases List.mem_append.1 ht with ht | ht
    · exact h.free t ht name hname
    · obtain rfl := List.mem_singleton.1 ht
      rw [hawaits] at hname
      cases hname
  · refine List.pairwise_append.2 ⟨h.apart, List.pairwise_singleton _ _, ?_⟩
    intro t _ u hu name _ hname
    obtain rfl := List.mem_singleton.1 hu
    rw [hawaits] at hname
    cases hname
  · intro name r hr
    refine (h.only name r hr).imp_right ?_
    rintro ⟨t, ht, hname⟩
    exact ⟨t, List.mem_append_left _ ht, hname⟩

theorem Making.perm {ts' : List Creation} (h : Making lib s₀ s ts) (hp : ts.Perm ts') : Making lib s₀ s ts' := by
  refine ⟨?_, h.kept, ?_, ?_, ?_, ?_, ?_⟩
  · exact fun t ht => h.makes t (hp.mem_iff.2 ht)
  · exact fun t ht => h.added t (hp.mem_iff.2 ht)
  · exact (hp.flatMap_right _).nodup_iff.1 h.names
  · exact fun t ht => h.free t (hp.mem_iff.2 ht)
  · exact hp.pairwise h.apart fun {t u} h name hu ht => h name ht hu
  · intro name r hr
    refine (h.only name r hr).imp_right ?_
    rintro ⟨t, ht, hname⟩
    exact ⟨t, hp.mem_iff.1 ht, hname⟩

/-- An act that writes no row: what the create waits for is as before, or free. -/
theorem Making.same (h : Making lib s₀ s (t :: ts)) (hmakes : Makes lib t') (hrow : s'.row = s.row) (hop : t'.op = t.op)
    (hwritten : written t'.past = written t.past)
    (hawaited : ∀ name, awaited t' = some name → awaited t = some name ∨ Free s ts name) : Making lib s₀ s' (t' :: ts) := by
  have hkeep : ∀ name, awaited t' = some name → s.row name = none ∧ ∀ u ∈ ts, awaited u ≠ some name := by
    intro name hname
    rcases hawaited name hname with hname | hfree
    · exact ⟨h.free t (by simp) name hname, fun u hu => (List.pairwise_cons.1 h.apart).1 u hu name hname⟩
    · exact hfree
  refine ⟨?_, ?_, ?_, ?_, ?_, ?_, ?_⟩
  · exact List.forall_mem_cons.2 ⟨hmakes, (List.forall_mem_cons.1 h.makes).2⟩
  · rw [Kept, hrow]
    exact h.kept
  · rw [hrow]
    obtain ⟨ht, hts⟩ := List.forall_mem_cons.1 h.added
    refine List.forall_mem_cons.2 ⟨?_, hts⟩
    rwa [hwritten, hop]
  · have hnames := h.names
    rw [List.flatMap_cons] at hnames ⊢
    rwa [hwritten]
  · rw [hrow]
    exact List.forall_mem_cons.2 ⟨fun name hname => (hkeep name hname).1, (List.forall_mem_cons.1 h.free).2⟩
  · exact List.pairwise_cons.2 ⟨fun u hu name hname => (hkeep name hname).2 u hu, h.apart.of_cons⟩
  · intro name r hr
    rw [hrow] at hr
    refine (h.only name r hr).imp_right ?_
    rw [List.exists_mem_cons_iff, List.exists_mem_cons_iff, hwritten]
    exact id

/-- The row is written under the name the create was given. -/
theorem Making.write (h : Making lib s₀ s (t :: ts)) (hmakes : Makes lib t') {name : String} {row : Row}
    (hawaited : awaited t = some name) (hwas : written t.past = []) (hwritten : written t'.past = [name])
    (hrow : ∀ n, s'.row n = if n = name then some row else s.row n)
    (hown : ∃ key_name now, row = ownRow lib t'.op.1 t'.op.2 key_name now) : Making lib s₀ s' (t' :: ts) ∧ Kept s s' := by
  have hfree : s.row name = none := h.free t (by simp) name hawaited
  have hkept : Kept s s' := by
    intro n r hr
    rw [hrow, if_neg, hr]
    rintro rfl
    rw [hfree] at hr
    cases hr
  have hno : awaited t' = none := by
    rw [awaited, hwritten]
    exact if_pos (by simp)
  have hnew : ∀ u ∈ ts, name ∉ written u.past := by
    intro u hu hname
    obtain ⟨-, _, _, hr⟩ := h.added u (by simp [hu]) name hname
    rw [hfree] at hr
    cases hr
  refine ⟨⟨?_, ?_, ?_, ?_, ?_, ?_, ?_⟩, hkept⟩
  · exact List.forall_mem_cons.2 ⟨hmakes, (List.forall_mem_cons.1 h.makes).2⟩
  · exact fun n r hr => hkept n r (h.kept n r hr)
  · refine List.forall_mem_cons.2 ⟨?_, ?_⟩
    · rw [hwritten]
      rintro n hn
      obtain rfl := List.mem_singleton.1 hn
      refine ⟨?_, ?_⟩
      · rw [Option.eq_none_iff_forall_ne_some]
        intro r hr
        rw [h.kept _ r hr] at hfree
        cases hfree
      · obtain ⟨key_name, now, hown⟩ := hown
        exact ⟨key_name, now, by rw [hrow, if_pos rfl, hown]⟩
    · intro u hu n hn
      obtain ⟨hnone, key_name, now, hr⟩ := h.added u (by simp [hu]) n hn
      exact ⟨hnone, key_name, now, hkept n _ hr⟩
  · have := h.names
    rw [List.flatMap_cons, hwas, List.nil_append] at this
    rw [List.flatMap_cons, hwritten, List.singleton_append]
    refine List.nodup_cons.2 ⟨?_, this⟩
    intro hmem
    obtain ⟨u, hu, hn⟩ := List.mem_flatMap.1 hmem
    exact hnew u hu hn
  · refine List.forall_mem_cons.2 ⟨by rw [hno]; rintro _ ⟨⟩, ?_⟩
    intro u hu n hn
    rw [hrow, if_neg]
    · exact h.free u (by simp [hu]) n hn
    · rintro rfl
      exact (List.pairwise_cons.1 h.apart).1 u hu n hawaited hn
  · refine List.pairwise_cons.2 ⟨?_, h.apart.of_cons⟩
    rw [hno]
    rintro _ _ _ ⟨⟩
  · intro n r hr
    rw [List.exists_mem_cons_iff, hwritten, List.mem_singleton]
    rw [hrow] at hr
    split at hr
    · next heq => exact .inr (.inl heq)
    · rcases h.only n r hr with hr | ⟨u, hu, hn⟩
      · exact .inl hr
      · rcases List.mem_cons.1 hu with rfl | hu
        · rw [hwas] at hn
          cases hn
        · exact .inr (.inr ⟨u, hu, hn⟩)

theorem Making.act {i : Asked} (h : Making lib s₀ s (t :: ts)) (hrest : t.rest = .act e k)
    (hrule : givenFree.act s ts t e i) :
    Making lib s₀ (Sidecar.world lib e i s).2 (t.answered e (Sidecar.world lib e i s).1 k :: ts) ∧
      Kept s (Sidecar.world lib e i s).2 := by
  have hmakes := h.makes t (by simp)
  have hlegal := hmakes.legal hrest
  have hopen : t.rest.ended = false := by
    rw [hrest]
    rfl
  have hquiet (hreads : Reads e) (hkey : ∀ key_name, e ≠ .key_gen key_name) :
      Making lib s₀ (Sidecar.world lib e i s).2 (t.answered e (Sidecar.world lib e i s).1 k :: ts) ∧
        Kept s (Sidecar.world lib e i s).2 := by
    have hrow : (Sidecar.world lib e i s).2.row = s.row := by
      rw [world_quiet hkey, world_of_reads hreads]
    refine ⟨h.same (hmakes.answered hrest) hrow rfl (written_quiet hreads) ?_, ?_⟩
    · intro name hname
      obtain ⟨-, hwritten, hkeyed⟩ := awaited_eq_some.1 hname
      rw [Task.answered, written_quiet hreads] at hwritten
      rw [Task.answered, keyed_quiet hkey] at hkeyed
      exact .inl (awaited_eq_some.2 ⟨hopen, hwritten, hkeyed⟩)
    · rw [Kept, hrow]
      exact fun _ _ => id
  cases e with
  | key_gen key_name =>
    refine ⟨h.same (hmakes.answered hrest) row_key_gen rfl rfl ?_, ?_⟩
    · intro name hname
      obtain ⟨-, -, hkeyed⟩ := awaited_eq_some.1 hname
      have hnone : keyed t.past = none := hlegal.1
      rw [Task.answered, keyed, List.findSome?_cons] at hkeyed
      cases hr : (Sidecar.world lib (.key_gen key_name) i s).1 with
      | error x =>
        rw [hr] at hkeyed
        cases hnone.symm.trans hkeyed
      | ok given =>
        rw [hr] at hkeyed
        cases hkeyed
        exact .inr (hrule _ (given_of_key_gen hr))
    · rw [Kept, row_key_gen]
      exact fun _ _ => id
  | create_row name key_name doc b =>
    obtain ⟨hkeyed, hwritten, rfl, rfl⟩ := hlegal
    have hawaited := awaited_eq_some.2 ⟨hopen, hwritten, hkeyed⟩
    have hfree : s.store.db.row name = none := h.free t (by simp) name hawaited
    refine h.write (hmakes.answered hrest) hawaited hwritten (congrArg (name :: ·) hwritten) ?_ ⟨key_name, i.now, rfl⟩
    intro n
    change ((upsert_row s.store.db name _ _ none 0 0 i.now).update name _).row n = _
    rw [Db.row_update, row_upsert_row, row_upsert_row, if_pos rfl, hfree]
    split
    · rfl
    · rfl
  | _ => first | exact hquiet trivial (by rintro _ ⟨⟩) | exact False.elim hlegal

instance decidableFree {s : Sidecar} {ts : List Creation} {name : String} : Decidable (Free s ts name) :=
  inferInstanceAs (Decidable (_ ∧ _))

instance decidableStart (s : Sidecar) (ts : List Creation) (o : String × List TrackRef) :
    Decidable (givenFree.start s ts o) :=
  inferInstanceAs (Decidable True)

instance decidableAct (s : Sidecar) (ts : List Creation) (t : Creation) (e : Act) (i : Asked) :
    Decidable (givenFree.act s ts t e i) :=
  inferInstanceAs (Decidable (∀ name ∈ s.keyOf e i, Free s ts name))

def asking : Asked := { now := 1780000000, fresh := some ownName }

end TrackerStream.Playlists
