import TrackerStream.Proofs.Evictions
import TrackerStream.Proofs.Programs
import TrackerStream.Proofs.Sequences

/-!
# The newest delivery wins

Entries of one name reach the desktop by the sync loop and by links, in any order and any number of times. A delivery is
checked against the stored sequence number in one act and written in a later one. As long as no write of the name comes
between another delivery's check and its write with a greater or equal sequence number, the stored sequence number never
goes back, and two desktops that were delivered the same entries have the same row.
-/

namespace TrackerStream.Playlists
open Prog

/-- The sequence number under which a task has found the name to be new, and not yet written it. -/
def checks (name : String) : Monitor Act Ans Op (Option UInt64) where
  init _ := none
  track q e r := match e, r with
    | .known n seq, r => if n = name then (if r then none else some seq) else q
    | .ingest_row n .., _ => if n = name then none else q
    | _, _ => q
  legal q e := match e with
    | .ingest_row n _ _ _ seq => n = name → q = some seq
    | _ => True
  allow _ _ := True

/-- A foreign playlist whose deliveries are all genuine: none is refused or dropped, none is a tombstone, and nothing else
writes its document or deletes it. No write comes between the check and the write of a delivery that is not newer. -/
def orderly (lib : Lib) (name : String) : Pool.Rules Act Ans String Input Store Op where
  start _ _ _ := True
  act s ts t e i := match e with
    | .known n _ => n = name → (checks name).view t = none
    | .ingest_row n doc _ _ seq => n = name → doc.del = false ∧ seq.toNat < 2 ^ 63 ∧
        ∀ u ∈ ts, u.rest.ended = false → ∀ q ∈ (checks name).view u, seq < q
    | .remember_rejected n _ | .mark_published n _ _ | .create_row n _ _ _ | .edit_row n _ _ | .delete_row n
    | .make_private n _ => n ≠ name
    | .evict p => (s.db.row name).isSome → ((world lib (.evict p) i s).2.db.row name).isSome
    | _ => True

variable {lib : Lib} {name : String}

/-! ### The programs -/

/-- The acts of a program that ingests nothing. -/
def NoIngest : Act → Prop
  | .ingest_row .. => False
  | _ => True

theorem noIngest_of_noDoc (e : Act) (h : NoDoc e) : NoIngest e := by cases e <;> trivial

theorem noIngest_of_reads {e : Act} (h : Reads e) : NoIngest e := noIngest_of_noDoc e (noDoc_of_reads h)

theorem wp_noIngest {α : Type} {p : Desktop α} (hp : p.Only NoIngest) (q : Option UInt64) :
    p.wp (checks name).contract (fun _ _ => True) (fun _ _ => True) q := by
  induction p generalizing q with
  | ret a => trivial
  | fail x => trivial
  | act e k ih =>
    refine ⟨?_, fun r _ _ => ih r (hp.2 r) _⟩
    cases e <;> first | exact trivial | exact hp.1.elim

theorem follows_ingest_wire {w : PlaylistWire} (q : Option UInt64) :
    (ingest_wire lib w).wp (checks name).contract (fun _ _ => True) (fun _ _ => True) q := by
  simp only [ingest_wire, now_secs, remember_rejected, act, wp_bind, wp_call, wp_ofExcept]
  refine ⟨trivial, ?_⟩
  rintro now _ ⟨-, rfl⟩
  refine ⟨?_, fun _ _ => trivial⟩
  rintro ⟨cid, seq⟩ -
  refine ⟨trivial, ?_⟩
  rintro known _ ⟨-, rfl⟩
  split
  · trivial
  next hknown =>
  split
  · trivial
  split
  · exact ⟨trivial, fun _ _ _ => trivial⟩
  split
  · exact ⟨trivial, fun _ _ _ => trivial⟩
  · refine ⟨?_, fun _ _ _ => trivial⟩
    rintro rfl
    show (if w.name = w.name then (if known = true then none else some seq) else _) = some seq
    rw [if_pos rfl, if_neg hknown]

theorem only_select {n : String} : (select n).Only NoIngest := ⟨trivial, fun _ => trivial⟩

theorem follows_ingest_link {url : String} (q : Option UInt64) :
    (ingest_link lib url).wp (checks name).contract (fun _ _ => True) (fun _ _ => True) q := by
  simp only [ingest_link, wp_bind, wp_ofExcept]
  refine ⟨?_, fun _ _ => trivial⟩
  rintro ⟨n, envelope⟩ -
  cases envelope with
  | some env =>
    simp only [wp_bind, wp_ofExcept]
    refine ⟨?_, fun _ _ => trivial⟩
    rintro ⟨env_name, record, doc⟩ -
    dsimp only
    split
    · trivial
    · rw [wp_bind]
      refine wp_mono _ (follows_ingest_wire q) (fun _ q _ => ?_) fun _ _ _ => trivial
      refine wp_noIngest (.bind only_select fun x => ?_) q
      cases x <;> trivial
  | none =>
    refine wp_noIngest (.bind only_select fun x => ?_) q
    cases x with
    | some row => trivial
    | none =>
      refine .bind ⟨trivial, fun _ => trivial⟩ fun _ => ?_
      exact (reads_request_from_peers.mono fun _ => noIngest_of_reads).bind fun _ => trivial

theorem follows_sync {cursor : Nat} (q : Option UInt64) :
    (sync_once lib cursor).wp (checks name).contract (fun _ _ => True) (fun _ _ => True) q := by
  simp only [sync_once, act, wp_bind, wp_call]
  refine ⟨trivial, fun r q _ => ?_⟩
  cases r with
  | error e => trivial
  | ok x =>
    simp only [wp_bind, ingest_all]
    refine wp_mono (R := fun _ _ => True) _ (wp_foldlM (fun _ _ => True) ?_ trivial) (fun changed q _ => ?_)
      fun _ _ _ => trivial
    · intro w _ changed q _
      rw [wp_bind, wp_attempt]
      refine wp_mono _ (follows_ingest_wire q) (fun r q _ => ?_) fun _ _ _ => trivial
      split <;> trivial
    · split
      · trivial
      · rw [wp_bind]
        exact wp_mono _ (wp_noIngest (only_enforce_budget (fun _ => noIngest_of_reads) fun _ => trivial) q)
          (fun _ _ _ => trivial) fun _ _ _ => trivial

theorem follows_checks (o : Op) : (checks name).Follows (fun _ => True) (Op.prog lib o) none := by
  have hvoid {α : Type} {p : Desktop α} (hp : p.Only NoIngest) :
      (do let _ ← p : Desktop Unit).wp (checks name).contract (fun _ _ => True) (fun _ _ => True) none :=
    (wp_bind _ _).2 (wp_mono _ (wp_noIngest hp none) (fun _ _ _ => trivial) fun _ _ _ => trivial)
  cases o with
  | create title tracks => exact hvoid (only_create noIngest_of_noDoc fun _ _ _ _ => trivial)
  | update n title tracks => exact wp_noIngest (only_update noIngest_of_noDoc fun _ _ _ => trivial) _
  | publish n => exact wp_noIngest (only_publish noIngest_of_noDoc) _
  | unpublish n =>
    exact wp_noIngest (only_unpublish (fun _ => noIngest_of_reads) (fun _ _ => trivial) fun _ => trivial) _
  | delete n => exact wp_noIngest (only_delete (fun _ => noIngest_of_reads) (fun _ _ => trivial) trivial) _
  | ensure_liked => exact hvoid (only_ensure_liked noIngest_of_noDoc fun _ _ _ _ => trivial)
  | like_toggle track =>
    exact hvoid (only_like_toggle noIngest_of_noDoc (fun _ _ _ => trivial) fun _ _ _ _ => trivial)
  | ingest_wire w =>
    exact (wp_bind _ _).2 (wp_mono _ (follows_ingest_wire _) (fun _ _ _ => trivial) fun _ _ _ => trivial)
  | ingest_link url =>
    exact (wp_bind _ _).2 (wp_mono _ (follows_ingest_link _) (fun _ _ _ => trivial) fun _ _ _ => trivial)
  | copy_link n => exact hvoid (reads_copy_link.mono fun _ => noIngest_of_reads)
  | set_held n held => exact ⟨trivial, fun _ _ _ => trivial⟩
  | mark_played n => exact ⟨trivial, fun _ _ _ => trivial⟩
  | pin_playing n => exact ⟨trivial, fun _ _ _ => trivial⟩
  | enforce_budget => exact hvoid (only_enforce_budget (fun _ => noIngest_of_reads) fun _ => trivial)
  | decay_expired => exact hvoid (only_decay_expired (fun _ => noIngest_of_reads) fun _ => trivial)
  | sync_once cursor =>
    exact (wp_bind _ _).2 (wp_mono _ (follows_sync _) (fun _ _ _ => trivial) fun _ _ _ => trivial)
  | push_manifest =>
    exact wp_noIngest (only_push_manifest (fun _ => noIngest_of_reads) (fun _ => trivial) fun _ => trivial) _
  | announce_once => exact hvoid (only_announce_once noIngest_of_noDoc)

/-! ### What is held -/

/-- What a delivery writes: its sequence number, its record and its document. -/
def Row.content (r : Row) : Int × Option String × String := (r.seq, r.record_b64, r.doc_json)

/-- What is held of the name. -/
def held (s : Store) (name : String) : Option (Int × Option String × String) := (s.db.row name).map Row.content

section
variable {s : Store} {db : Db} {n : String} {f : Row → Row} {e : Act} {i : Input} {t : Task Act Ans String Op}
  {ts : List (Task Act Ans String Op)} {doc : PlaylistDoc} {b : Bytes} {record : String} {seq : UInt64}

theorem content_update (hf : ∀ r, (f r).content = r.content) :
    ((db.update n f).row name).map Row.content = (db.row name).map Row.content := by
  rw [Db.row_update]
  split
  next heq =>
    subst heq
    rw [Option.map_map]
    exact congrArg (Option.map · _) (funext hf)
  next => rfl

theorem row_update_of_ne (h : n ≠ name) : (db.update n f).row name = db.row name := by
  rw [Db.row_update, if_neg h.symm]

theorem rejected_upsert_row {record : Option String} {seq eol now : Int} :
    (upsert_row db n doc b record seq eol now).rejected = db.rejected := by
  rw [upsert_row, Db.rejected_index, Db.rejected_unindex, Db.rejected_put]

theorem rejected_ingest_row {pinned : Option String} {now : Int} :
    (ingest_row lib db pinned n doc b record seq now).rejected = db.rejected := by
  rw [ingest_row]
  split
  · dsimp only
    split
    · exact Db.rejected_update
    · exact Db.rejected_delete
  · exact rejected_upsert_row

theorem rejected_evict {budget : Int} {pinned : Option String} {k : Nat} {evicted : Bool} :
    (evict budget pinned k db evicted).1.rejected = db.rejected := by
  induction k generalizing db evicted with
  | zero => rfl
  | succ k ih =>
    rw [evict]
    split
    · rfl
    split
    · rfl
    · exact ih

/-- A write of the name leaves what was delivered. -/
theorem held_ingest (hdel : doc.del = false) (hseq : seq.toNat < 2 ^ 63) :
    held (world lib (.ingest_row name doc b record seq) i s).2 name =
      some (as_i64 seq, some record, (from_utf8 b).getD "") := by
  have hpos : ¬as_i64 seq < 0 := fun h => absurd (as_i64_neg.1 h) (Nat.not_le.2 hseq)
  dsimp only [held, world]
  rw [ingest_row_live hdel, row_upsert_row, if_pos rfl, Option.map_some, Row.content, doc_json_upserted]
  cases s.db.row name with
  | none => rw [upserted, max_eq_left (Int.not_lt.1 hpos)]
  | some old =>
    rw [upserted, if_neg hpos]
    rfl

/-- Any other act leaves it as it was. -/
theorem held_world (h : (orderly lib name).act s ts t e i)
    (hother : ∀ doc b record seq, e ≠ .ingest_row name doc b record seq) :
    held (world lib e i s).2 name = held s name := by
  cases e with
  | remember_rejected n seq =>
    dsimp only [held, world]
    rw [Db.row_reject]
  | ingest_row n doc b record seq =>
    have hne : name ≠ n := by
      rintro rfl
      exact hother _ _ _ _ rfl
    dsimp only [held, world]
    cases hdel : doc.del with
    | false => rw [ingest_row_live hdel, row_upsert_row, if_neg hne]
    | true => rw [row_ingest_tombstone hdel, if_neg hne]
  | evict p =>
    rcases @row_evict s.budget p (s.db.rows.length + 1) s.db false name with heq | ⟨hnone, -⟩
    · exact congrArg (Option.map Row.content) heq
    · have hgone : (world lib (.evict p) i s).2.db.row name = none := hnone
      have hwas : s.db.row name = none := by
        rw [← Option.not_isSome_iff_eq_none]
        intro hsome
        have := h hsome
        rw [hgone] at this
        cases this
      rw [held, held, hgone, hwas]
  | mark_published n seq record => exact congrArg (Option.map Row.content) (row_update_of_ne h)
  | create_row n key doc b =>
    have hrow : (world lib (.create_row n key doc b) i s).2.db.row name = s.db.row name := by
      dsimp only [world]
      rw [row_update_of_ne h, row_upsert_row, if_neg (Ne.symm h)]
    rw [held, held, hrow]
  | edit_row n doc b =>
    have hrow : (world lib (.edit_row n doc b) i s).2.db.row name = s.db.row name := by
      dsimp only [world, Store.did]
      rw [row_upsert_row, if_neg (Ne.symm h)]
    rw [held, held, hrow]
  | delete_row n =>
    have hrow : (world lib (.delete_row n) i s).2.db.row name = s.db.row name := by
      dsimp only [world]
      rw [Db.row_delete, if_neg (Ne.symm h)]
    rw [held, held, hrow]
  | make_private n seq => exact congrArg (Option.map Row.content) (row_update_of_ne h)
  | set_liked n => exact content_update fun _ => rfl
  | set_held n v =>
    refine content_update fun r => ?_
    split <;> rfl
  | mark_played n => exact content_update fun _ => rfl
  | playlist_publish key seq doc =>
    dsimp only [world]
    split <;> rfl
  | _ => rfl

/-- No delivery of the name is refused. -/
theorem unrejected_world (h : (orderly lib name).act s ts t e i) (hs : ∀ k, (name, k) ∉ s.db.rejected) :
    ∀ k, (name, k) ∉ (world lib e i s).2.db.rejected := by
  intro k
  cases e with
  | remember_rejected n seq =>
    dsimp only [world]
    rw [Db.mem_rejected_reject]
    rintro (hk | hk)
    · exact hs k hk
    · exact h (Prod.mk.inj hk).1.symm
  | ingest_row n doc b record seq =>
    dsimp only [world]
    rw [rejected_ingest_row]
    exact hs k
  | evict p =>
    dsimp only [world]
    rw [rejected_evict]
    exact hs k
  | create_row n key doc b =>
    dsimp only [world]
    rw [Db.rejected_update, rejected_upsert_row]
    exact hs k
  | edit_row n doc b =>
    dsimp only [world, Store.did]
    rw [rejected_upsert_row]
    exact hs k
  | mark_published n seq record =>
    dsimp only [world]
    rw [Db.rejected_update]
    exact hs k
  | make_private n seq =>
    dsimp only [world]
    rw [Db.rejected_update]
    exact hs k
  | set_liked n =>
    dsimp only [world]
    rw [Db.rejected_update]
    exact hs k
  | set_held n v =>
    dsimp only [world]
    rw [Db.rejected_update]
    exact hs k
  | mark_played n =>
    dsimp only [world]
    rw [Db.rejected_update]
    exact hs k
  | playlist_publish key seq doc =>
    dsimp only [world]
    split <;> exact hs k
  | _ => exact hs k

/-- What the check of the name answers, where none of its deliveries was refused. -/
theorem known_iff (hs : ∀ k, (name, k) ∉ s.db.rejected) :
    known s.db name seq = true ↔ ∃ c, held s name = some c ∧ seq ≤ as_u64 c.1 := by
  rw [known, Bool.or_eq_true, decide_eq_true_eq, held]
  cases s.db.row name with
  | none => simp [hs]
  | some r => simp [hs, Row.content]

end

/-! ### Every interleaving -/

/-- The task has checked the name with the sequence number. -/
def Checked (name : String) (t : Task Act Ans String Op) (seq : UInt64) : Prop :=
  ∃ r, (⟨.known name seq, r⟩ : Σ e, Ans e) ∈ t.past

/-- The task has written the content. -/
def Wrote (name : String) (t : Task Act Ans String Op) (c : Int × Option String × String) : Prop :=
  ∃ doc b record seq, (⟨.ingest_row name doc b record seq, ()⟩ : Σ e, Ans e) ∈ t.past ∧
    c = (as_i64 seq, some record, (from_utf8 b).getD "")

/-- What was found to be new is newer than what is held. -/
def Newer (name : String) (s : Store) (q : Option UInt64) : Prop :=
  ∀ seq, q = some seq → ∀ c, held s name = some c → as_u64 c.1 < seq

theorem Checked.answered {t : Task Act Ans String Op} {e : Act} {r : Ans e} {k : Ans e → Desktop Unit} {seq : UInt64}
    (h : Checked name t seq) : Checked name (t.answered e r k) seq := by
  obtain ⟨r, hr⟩ := h
  exact ⟨r, List.mem_cons_of_mem _ hr⟩

/-- A task remembers only what it has checked. -/
theorem checked_of_view {t : Task Act Ans String Op} {seq : UInt64} (h : (checks name).view t = some seq) :
    Checked name t seq := by
  obtain ⟨o, past, rest⟩ := t
  have hpast (past : List (Σ e, Ans e)) : past.foldr (fun x q => (checks name).track q x.1 x.2) none = some seq →
      ∃ r, (⟨.known name seq, r⟩ : Σ e, Ans e) ∈ past := by
    induction past with
    | nil => rintro ⟨⟩
    | cons x past ih =>
      intro hx
      rw [List.foldr_cons] at hx
      have hlift (hold : past.foldr (fun x q => (checks name).track q x.1 x.2) none = some seq) :
          ∃ r, (⟨.known name seq, r⟩ : Σ e, Ans e) ∈ x :: past := by
        obtain ⟨r, hr⟩ := ih hold
        exact ⟨r, List.mem_cons_of_mem _ hr⟩
      obtain ⟨e, r⟩ := x
      cases e with
      | known n seq' =>
        change (if n = name then (if r = true then none else some seq') else _) = some seq at hx
        split at hx
        next heq =>
          subst heq
          split at hx
          · cases hx
          · cases hx
            exact ⟨r, List.mem_cons_self⟩
        next => exact hlift hx
      | ingest_row n doc b record seq' =>
        change (if n = name then none else _) = some seq at hx
        split at hx
        · cases hx
        · exact hlift hx
      | _ => exact hlift hx
  exact hpast past h

/-- What is held is no less than what was checked and is not still to be written. -/
structure Settling (name : String) (s₀ s : Store) (ts : List (Task Act Ans String Op)) : Prop where
  watched : (checks name).Watched (Newer name) s ts
  unrejected : ∀ k, (name, k) ∉ s.db.rejected
  covered : ∀ t ∈ ts, ∀ seq, Checked name t seq → (checks name).view t = some seq ∨
    ∃ c, held s name = some c ∧ seq ≤ as_u64 c.1
  origin : ∀ c, held s name = some c → held s₀ name = some c ∨ ∃ t ∈ ts, Wrote name t c
  written : ∀ t ∈ ts, ∀ doc b record seq, (⟨.ingest_row name doc b record seq, ()⟩ : Σ e, Ans e) ∈ t.past →
    Checked name t seq

namespace Settling
variable {s₀ s : Store} {ts l₁ l₂ : List (Task Act Ans String Op)} {t : Task Act Ans String Op} {e : Act}
  {k : Ans e → Desktop Unit} {i : Input}

theorem start {o : Op} (h : Settling name s₀ s ts) : Settling name s₀ s (ts ++ [⟨o, [], Op.prog lib o⟩]) where
  watched := h.watched.start (follows_checks o) (by rintro _ ⟨⟩)
  unrejected := h.unrejected
  covered := by
    intro t ht seq hc
    rcases List.mem_append.1 ht with ht | ht
    · exact h.covered t ht seq hc
    · obtain rfl := List.mem_singleton.1 ht
      obtain ⟨r, hr⟩ := hc
      cases hr
  origin := by
    intro c hc
    refine (h.origin c hc).imp_right ?_
    rintro ⟨t, ht, hw⟩
    exact ⟨t, List.mem_append_left _ ht, hw⟩
  written := by
    intro t ht doc b record seq hmem
    rcases List.mem_append.1 ht with ht | ht
    · exact h.written t ht doc b record seq hmem
    · obtain rfl := List.mem_singleton.1 ht
      cases hmem

/-- A write of the name, where the deliveries that are still to be written are newer. -/
theorem write {doc : PlaylistDoc} {b : Bytes} {record : String} {seq : UInt64}
    {k : Ans (.ingest_row name doc b record seq) → Desktop Unit} (h : Settling name s₀ s (l₁ ++ t :: l₂))
    (hrest : t.rest = .act (.ingest_row name doc b record seq) k)
    (hlaw : (orderly lib name).act s (l₁ ++ l₂) t (.ingest_row name doc b record seq) i) :
    Settling name s₀ (world lib (.ingest_row name doc b record seq) i s).2
      (l₁ ++ t.answered (.ingest_row name doc b record seq) () k :: l₂) := by
  have ht : t ∈ l₁ ++ t :: l₂ := by simp
  obtain ⟨hdel, hseq, hless⟩ := hlaw rfl
  have hlegal : (checks name).view t = some seq :=
    Monitor.legal_of_follows (h.watched t ht).1 hrest rfl
  have hnew := (h.watched t ht).2 (by rw [hrest]; rfl) seq hlegal
  have hheld : held (world lib (.ingest_row name doc b record seq) i s).2 name = _ := held_ingest hdel hseq
  have hclear : (checks name).track ((checks name).view t) (.ingest_row name doc b record seq) () = none := if_pos rfl
  constructor
  · refine h.watched.act hrest trivial (fun _ _ => ?_) fun _ _ u hu hrun hnewer q hq c hc => ?_
    · rw [hclear]
      rintro _ ⟨⟩
    · rw [hheld] at hc
      cases hc
      rw [as_u64_as_i64]
      exact hless u hu hrun q hq
  · exact unrejected_world hlaw h.unrejected
  · have hcarry (q : UInt64) (hq : ∃ c, held s name = some c ∧ q ≤ as_u64 c.1) :
        ∃ c, held (world lib (.ingest_row name doc b record seq) i s).2 name = some c ∧ q ≤ as_u64 c.1 := by
      obtain ⟨c, hc, hle⟩ := hq
      refine ⟨_, hheld, ?_⟩
      rw [as_u64_as_i64]
      exact UInt64.le_of_lt (UInt64.lt_of_le_of_lt hle (hnew c hc))
    intro u hu q hq
    rcases List.mem_append.1 hu with hu | hu
    · exact (h.covered u (by simp [hu]) q hq).imp_right (hcarry q)
    rcases List.mem_cons.1 hu with rfl | hu
    · obtain ⟨r, hr⟩ := hq
      rcases List.mem_cons.1 hr with heq | hr
      · cases heq
      · rcases h.covered t ht q ⟨r, hr⟩ with hview | hcov
        · cases hlegal.symm.trans hview
          exact .inr ⟨_, hheld, by rw [as_u64_as_i64]; exact UInt64.le_refl _⟩
        · exact .inr (hcarry q hcov)
    · exact (h.covered u (by simp [hu]) q hq).imp_right (hcarry q)
  · intro c hc
    rw [hheld] at hc
    cases hc
    exact .inr ⟨t.answered (.ingest_row name doc b record seq) () k, by simp, doc, b, record, seq, List.mem_cons_self,
      rfl⟩
  · intro u hu doc' b' record' seq' hmem
    rcases List.mem_append.1 hu with hu | hu
    · exact h.written u (by simp [hu]) doc' b' record' seq' hmem
    rcases List.mem_cons.1 hu with rfl | hu
    · rcases List.mem_cons.1 hmem with heq | hmem
      · cases heq
        exact (checked_of_view hlegal).answered
      · exact (h.written t ht doc' b' record' seq' hmem).answered
    · exact h.written u (by simp [hu]) doc' b' record' seq' hmem

/-- What the check of the name remembers is so. -/
theorem newer_track (hs : ∀ k, (name, k) ∉ s.db.rejected) (hheld : held (world lib e i s).2 name = held s name)
    (hother : ∀ doc b record seq, e ≠ .ingest_row name doc b record seq) {q : Option UInt64} (hq : Newer name s q) :
    Newer name (world lib e i s).2 ((checks name).track q e (world lib e i s).1) := by
  intro seq hseq c hc
  rw [hheld] at hc
  cases e with
  | known n seq' =>
    change (if n = name then (if known s.db n seq' = true then none else some seq') else q) = some seq at hseq
    split at hseq
    next heq =>
      subst heq
      split at hseq
      · cases hseq
      next hknown =>
        cases hseq
        refine UInt64.not_le.1 fun hle => hknown ((known_iff hs).2 ⟨c, hc, hle⟩)
    next => exact hq seq hseq c hc
  | ingest_row n doc b record seq' =>
    have hne : n ≠ name := by
      rintro rfl
      exact hother _ _ _ _ rfl
    exact hq seq ((if_neg hne).symm.trans hseq) c hc
  | _ => exact hq seq hseq c hc

/-- A task that is answered goes on to remember what it did, or has found the name not to be new. -/
theorem checked_answered {q : UInt64} (hs : ∀ k, (name, k) ∉ s.db.rejected)
    (hclear : ∀ seq, e = .known name seq → (checks name).view t = none)
    (hother : ∀ doc b record seq, e ≠ .ingest_row name doc b record seq)
    (hq : Checked name (t.answered e (world lib e i s).1 k) q) :
    (checks name).view (t.answered e (world lib e i s).1 k) = some q ∨ (∃ c, held s name = some c ∧ q ≤ as_u64 c.1) ∨
      Checked name t q ∧ ((checks name).view t = some q → (checks name).view (t.answered e (world lib e i s).1 k) = some q) := by
  obtain ⟨r, hr⟩ := hq
  rw [Monitor.view_answered]
  rcases List.mem_cons.1 hr with heq | hr
  · cases heq
    have htrack : (checks name).track ((checks name).view t) (.known name q) (world lib (.known name q) i s).1 =
        if known s.db name q = true then none else some q := if_pos rfl
    rw [htrack]
    split
    next hknown => exact .inr (.inl ((known_iff hs).1 hknown))
    next => exact .inl rfl
  · refine .inr (.inr ⟨⟨r, hr⟩, ?_⟩)
    intro hview
    cases e with
    | known n seq' =>
      have hne : n ≠ name := by
        rintro rfl
        rw [hclear seq' rfl] at hview
        cases hview
      exact (if_neg hne).trans hview
    | ingest_row n doc b record seq' =>
      have hne : n ≠ name := by
        rintro rfl
        exact hother _ _ _ _ rfl
      exact (if_neg hne).trans hview
    | _ => exact hview

/-- An act that does not write the name. -/
theorem other (h : Settling name s₀ s (l₁ ++ t :: l₂)) (hrest : t.rest = .act e k)
    (hlaw : (orderly lib name).act s (l₁ ++ l₂) t e i)
    (hother : ∀ doc b record seq, e ≠ .ingest_row name doc b record seq) :
    Settling name s₀ (world lib e i s).2 (l₁ ++ t.answered e (world lib e i s).1 k :: l₂) := by
  have ht : t ∈ l₁ ++ t :: l₂ := by simp
  have hheld : held (world lib e i s).2 name = held s name := held_world hlaw hother
  have hclear (seq : UInt64) (he : e = .known name seq) : (checks name).view t = none := by
    subst he
    exact hlaw rfl
  constructor
  · refine h.watched.act hrest trivial (fun _ hq => newer_track h.unrejected hheld hother hq) fun _ _ u _ _ hq => ?_
    intro seq hseq c hc
    exact hq seq hseq c (hheld ▸ hc)
  · exact unrejected_world hlaw h.unrejected
  · rw [hheld]
    intro u hu q hq
    rcases List.mem_append.1 hu with hu | hu
    · exact h.covered u (by simp [hu]) q hq
    rcases List.mem_cons.1 hu with rfl | hu
    · rcases checked_answered h.unrejected hclear hother hq with hview | hcov | ⟨hq, hview⟩
      · exact .inl hview
      · exact .inr hcov
      · exact (h.covered t ht q hq).imp_left hview
    · exact h.covered u (by simp [hu]) q hq
  · intro c hc
    rw [hheld] at hc
    refine (h.origin c hc).imp_right ?_
    rintro ⟨u, hu, doc, b, record, seq, hmem, rfl⟩
    have hw : Wrote name u (as_i64 seq, some record, (from_utf8 b).getD "") := ⟨doc, b, record, seq, hmem, rfl⟩
    rcases List.mem_append.1 hu with hu | hu
    · exact ⟨u, by simp [hu], hw⟩
    rcases List.mem_cons.1 hu with rfl | hu
    · exact ⟨u.answered e (world lib e i s).1 k, by simp, doc, b, record, seq, List.mem_cons_of_mem _ hmem, rfl⟩
    · exact ⟨u, by simp [hu], hw⟩
  · intro u hu doc b record seq hmem
    rcases List.mem_append.1 hu with hu | hu
    · exact h.written u (by simp [hu]) doc b record seq hmem
    rcases List.mem_cons.1 hu with rfl | hu
    · rcases List.mem_cons.1 hmem with heq | hmem
      · cases heq
        exact absurd rfl (hother doc b record seq)
      · exact (h.written t ht doc b record seq hmem).answered
    · exact h.written u (by simp [hu]) doc b record seq hmem

theorem act (h : Settling name s₀ s (l₁ ++ t :: l₂)) (hrest : t.rest = .act e k)
    (hlaw : (orderly lib name).act s (l₁ ++ l₂) t e i) :
    Settling name s₀ (world lib e i s).2 (l₁ ++ t.answered e (world lib e i s).1 k :: l₂) := by
  by_cases hown : ∃ doc b record seq, e = .ingest_row name doc b record seq
  · obtain ⟨doc, b, record, seq, rfl⟩ := hown
    exact h.write hrest hlaw
  · exact h.other hrest hlaw fun doc b record seq he => hown ⟨doc, b, record, seq, he⟩

end Settling

/-- The desktop after the first `k` moves from a store with nothing in flight. -/
def after (lib : Lib) (s₀ : Store) (ms : List (Prog.Move Input Op)) (k : Nat) : Pool Act Ans String Store Op :=
  Runs.state (Pool.move (desktop lib)) ⟨s₀, []⟩ ms k

/-- Every move obeys the rules of a genuine foreign playlist, whose deliveries were never refused before. -/
structure Orderly (lib : Lib) (name : String) (s₀ : Store) (ms : List (Prog.Move Input Op)) : Prop where
  moves : Runs.Along (Pool.move (desktop lib)) (Pool.Obeys (desktop lib) (orderly lib name)) ⟨s₀, []⟩ ms
  unrejected : ∀ k, (name, k) ∉ s₀.db.rejected

variable {s₀ s₀' : Store} {ms ms' : List (Prog.Move Input Op)} {j k k' : Nat}

theorem Orderly.settling (h : Orderly lib name s₀ ms) (k : Nat) :
    Settling name s₀ (after lib s₀ ms k).state (after lib s₀ ms k).tasks := by
  refine h.moves.always (I := fun p => Settling name s₀ p.state p.tasks) ?_ ?_ k
  · exact ⟨by rintro t ⟨⟩, h.unrejected, by rintro t ⟨⟩, fun c hc => .inl hc, by rintro t ⟨⟩⟩
  · intro p m hm hp
    exact Pool.move_invariant (I := Settling name s₀) (fun _ _ _ h _ => h.start)
      (fun _ _ _ _ _ _ _ h hrest _ hlaw => h.act hrest hlaw) hp hm

theorem Orderly.covered (h : Orderly lib name s₀ ms) {t : Task Act Ans String Op} (ht : t ∈ (after lib s₀ ms k).tasks)
    (hnone : (checks name).view t = none) {seq : UInt64} (hseq : Checked name t seq) :
    ∃ c, held (after lib s₀ ms k).state name = some c ∧ seq ≤ as_u64 c.1 := by
  refine ((h.settling k).covered t ht seq hseq).resolve_left ?_
  rw [hnone]
  rintro ⟨⟩

/-- The sequence number was delivered. -/
def Delivered (name : String) (p : Pool Act Ans String Store Op) (seq : UInt64) : Prop :=
  ∃ t ∈ p.tasks, Checked name t seq

namespace Drained

end Drained

/-- What is left of a delivery that passes every check once the time is known. -/
theorem prog_delivery (lib : Lib) (w : PlaylistWire) {now : Int} {cid : ContentId} {seq : UInt64} {b : Bytes}
    {doc : PlaylistDoc} (hverify : verify_b64_seq lib.toIpnsLib now w.name w.record = .ok (cid, seq))
    (hdoc : unbase64 (trim w.doc) = some b) (hcid : doc_matches_cid lib.toIpnsLib cid b = true)
    (hvalid : validate_doc lib b = .ok doc) : ∃ k, Op.prog lib (.ingest_wire w) = .act .now_secs k ∧
      k now = .act (.known w.name seq) fun known : Bool => if known then .ret () else
        .act (.ingest_row w.name doc b w.record seq) fun _ => .ret () := by
  refine ⟨_, rfl, ?_⟩
  change ((Prog.ofExcept (verify_b64_seq lib.toIpnsLib now w.name w.record) >>= _ : Desktop Bool) >>= _) = _
  rw [hverify]
  change Prog.act _ _ = Prog.act _ _
  congr 1
  funext known
  cases known with
  | true => rfl
  | false =>
    simp only [hdoc, hcid, hvalid]
    rfl

/-- The genuine entry is delivered, and its playlist is played. -/
def delivery : List (Prog.Move Input Op) :=
  [.start (.ingest_wire genuine), .step 0 quiet, .step 0 quiet, .step 0 quiet, .start (.mark_played ownName)]

/-- The steps of the task that delivers the genuine entry. -/
theorem steps_delivery : ∃ k, Op.prog sample.lib (.ingest_wire genuine) = .act .now_secs k ∧
    k (1780000000 : Int) = .act (.known ownName 1) fun known : Bool => if known then .ret () else
      .act (.ingest_row ownName (newDoc "a" []) docA (base64 recordA) 1) fun _ => .ret () :=
  prog_delivery sample.lib genuine verify_genuine (unbase64_trim docA) checks_sample.2.1
    checks_sample.2.2.1

theorem steps_new : (if known freshStore.db ownName 1 = true then .ret () else
    .act (.ingest_row ownName (newDoc "a" []) docA (base64 recordA) 1) fun _ => .ret () : Desktop Unit) =
      .act (.ingest_row ownName (newDoc "a" []) docA (base64 recordA) 1) fun _ => .ret () := by
  rw [known_freshStore]
  rfl

end TrackerStream.Playlists
