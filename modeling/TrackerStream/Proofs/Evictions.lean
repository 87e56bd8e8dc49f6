import TrackerStream.Proofs.Acts

/-!
# What the user keeps and what is evicted

`enforce_budget` and `decay_expired` read which rows are not the user's, and which one plays, before they delete. Rows that
are mine, held or pinned stay as long as nothing a pass has read to be unprotected becomes so before its last deletion. An
eviction alone brings the seen rows into the budget, or leaves none but the pinned one.
-/

namespace TrackerStream.Playlists
open Prog

/-! ### What a pass has read -/

/-- The pinned name and the rows that are neither mine nor held, as a pass has read them. -/
structure Pass where
  pinned : Option (Option String) := none
  seen : Option (List String) := none

/-- The act makes no row protected that a pass has read to be unprotected. -/
def Pass.Spares (q : Pass) : Act → Prop
  | .pin_playing (some name) => ∀ p, q.pinned = some p → p = some name ∨ ∃ l, q.seen = some l ∧ name ∉ l
  | .set_held name held => held = true → ∀ l, q.seen = some l → name ∉ l
  | .create_row name .. => ∀ l, q.seen = some l → name ∉ l
  | _ => True

/-- A pass deletes what it has read to be unprotected. -/
def passes : Monitor Act Ans Op Pass where
  init _ := {}
  track q e r := match e, r with
    | .pinned_name, r => ⟨some r, none⟩
    | .seen_rows, r => if q.seen = none then { q with seen := some (r.map (·.1)) } else {}
    | .library, _ | .pin_playing _, _ | .set_held .., _ | .create_row .., _ => {}
    | _, _ => q
  legal q e := match e with
    | .evict p => q = ⟨some p, none⟩
    | .delete_row n => ∃ p l, q = ⟨some p, some l⟩ ∧ p ≠ some n ∧ n ∈ l
    | _ => True
  allow _ _ := True

/-- No deletions but those of the passes, and no act protects what a pass in flight has read to be unprotected. -/
def sparing : Pool.Rules Act Ans String Input Store Op where
  start _ _ o := ∀ name, o ≠ .delete name
  act _ ts _ e _ := ∀ u ∈ ts, u.rest.ended = false → (passes.view u).Spares e

/-- Mine, held or pinned. -/
def Protected (s : Store) (n : String) (r : Row) : Prop := r.is_mine = true ∨ r.held = true ∨ s.pinned = some n

/-- No protected row goes. -/
def KeepsProtected (s s' : Store) : Prop := ∀ n r, s.db.row n = some r → Protected s n r → (s'.db.row n).isSome

/-- Neither mine nor held. -/
def Unclaimed (r : Row) : Prop := r.is_mine = false ∧ r.held = false

/-- What a pass has read to be unprotected is. -/
structure Pass.Current (s : Store) (q : Pass) : Prop where
  pinned : ∀ p, q.pinned = some p → ∀ n, s.pinned = some n → p = some n ∨ ∃ l, q.seen = some l ∧ n ∉ l
  seen : ∀ l, q.seen = some l → ∀ n ∈ l, ∀ r, s.db.row n = some r → Unclaimed r

/-! ### What the acts do -/

section
variable {db : Db} {n name : String} {f : Row → Row} {P : Row → Prop}

theorem Db.forall_row_update (h : ∀ r, db.row n = some r → P r) (hf : n = name → ∀ r, P r → P (f r)) :
    ∀ r, (db.update name f).row n = some r → P r := by
  intro r hr
  rw [Db.row_update] at hr
  split at hr
  next heq =>
    subst heq
    obtain ⟨r', hr', rfl⟩ := Option.map_eq_some_iff.1 hr
    exact hf rfl r' (h r' hr')
  next => exact h r hr

theorem Db.isSome_row_update (h : (db.row n).isSome) : ((db.update name f).row n).isSome := by
  rw [Db.row_update]
  split
  next heq =>
    subst heq
    rwa [Option.isSome_map]
  next => exact h

variable {doc : PlaylistDoc} {b : Bytes} {record : Option String} {seq eol now : Int}

theorem isSome_row_upsert_row (h : (db.row n).isSome) : ((upsert_row db name doc b record seq eol now).row n).isSome := by
  rw [row_upsert_row]
  split
  · rfl
  · exact h

theorem forall_row_upsert_row (h : ∀ r, db.row n = some r → Unclaimed r) :
    ∀ r, (upsert_row db name doc b record seq eol now).row n = some r → Unclaimed r := by
  intro r hr
  rw [row_upsert_row] at hr
  split at hr
  next heq =>
    subst heq
    cases hr
    cases hold : db.row n with
    | none => exact ⟨rfl, rfl⟩
    | some old => exact h old hold
  next => exact h r hr

end

variable {lib : Lib} {s : Store} {q : Pass} {e : Act} {i : Input} {n : String}

theorem unclaimed_world (h : ∀ r, s.db.row n = some r → Unclaimed r) (hheld : e ≠ .set_held n true)
    (hcreate : ∀ key doc b, e ≠ .create_row n key doc b) :
    ∀ r, (world lib e i s).2.db.row n = some r → Unclaimed r := by
  cases e with
  | remember_rejected name seq =>
    intro r hr
    exact h r (by rwa [world, Db.row_reject] at hr)
  | ingest_row name doc b record seq =>
    cases hdel : doc.del with
    | false =>
      dsimp only [world]
      rw [ingest_row_live hdel]
      exact forall_row_upsert_row h
    | true =>
      dsimp only [world]
      rw [row_ingest_tombstone hdel]
      intro r hr
      split at hr
      next heq =>
        subst heq
        split at hr
        next =>
          obtain ⟨r', hr', rfl⟩ := Option.map_eq_some_iff.1 hr
          exact h r' hr'
        next => cases hr
      next => exact h r hr
  | evict pinned =>
    intro r hr
    rcases @row_evict s.budget pinned (s.db.rows.length + 1) s.db false n with heq | ⟨hnone, -⟩
    · exact h r (heq ▸ hr)
    · cases hnone.symm.trans hr
  | mark_published name seq record => exact Db.forall_row_update h fun _ _ => id
  | create_row name key doc b =>
    have hne : n ≠ name := by
      rintro rfl
      exact hcreate key doc b rfl
    intro r hr
    dsimp only [world] at hr
    rw [Db.row_update, if_neg hne, row_upsert_row, if_neg hne] at hr
    exact h r hr
  | edit_row name doc b => exact forall_row_upsert_row h
  | delete_row name =>
    intro r hr
    dsimp only [world] at hr
    rw [Db.row_delete] at hr
    split at hr
    next => cases hr
    next => exact h r hr
  | make_private name seq => exact Db.forall_row_update h fun _ _ => id
  | set_liked name => exact Db.forall_row_update h fun _ _ => id
  | set_held name held =>
    refine Db.forall_row_update h fun heq r hr => ?_
    cases held with
    | false =>
      split
      next => exact hr
      next => exact ⟨hr.1, rfl⟩
    | true => exact absurd (heq ▸ rfl) hheld
  | mark_played name => exact Db.forall_row_update h fun _ _ => id
  | playlist_publish key seq doc =>
    dsimp only [world]
    split <;> exact h
  | _ => exact h

/-- Only an eviction or a deletion makes a protected row go. -/
theorem isSome_world {r : Row} (hr : s.db.row n = some r) (hp : Protected s n r) (hevict : ∀ p, e ≠ .evict p)
    (hdelete : e ≠ .delete_row n) : ((world lib e i s).2.db.row n).isSome := by
  have h : (s.db.row n).isSome := by
    rw [hr]
    rfl
  cases e with
  | remember_rejected name seq =>
    dsimp only [world]
    rwa [Db.row_reject]
  | ingest_row name doc b record seq =>
    cases hdel : doc.del with
    | false =>
      dsimp only [world]
      rw [ingest_row_live hdel]
      exact isSome_row_upsert_row h
    | true =>
      dsimp only [world]
      rw [row_ingest_tombstone hdel]
      split
      next heq =>
        subst heq
        rw [if_pos]
        · rwa [Option.isSome_map]
        · rw [hr, Option.any_some]
          simpa [Protected, or_assoc] using hp
      next => exact h
  | evict p => exact absurd rfl (hevict p)
  | mark_published name seq record => exact Db.isSome_row_update h
  | create_row name key doc b => exact Db.isSome_row_update (isSome_row_upsert_row h)
  | edit_row name doc b => exact isSome_row_upsert_row h
  | delete_row name =>
    dsimp only [world]
    rwa [Db.row_delete, if_neg]
    rintro rfl
    exact hdelete rfl
  | make_private name seq => exact Db.isSome_row_update h
  | set_liked name => exact Db.isSome_row_update h
  | set_held name held => exact Db.isSome_row_update h
  | mark_played name => exact Db.isSome_row_update h
  | playlist_publish key seq doc =>
    dsimp only [world]
    split <;> exact h
  | _ => exact h

theorem pinned_world (h : ∀ name, e ≠ .pin_playing name) : (world lib e i s).2.pinned = s.pinned := by
  cases e <;> first | rfl | exact absurd rfl (h _) | (dsimp only [world]; split <;> rfl)

theorem Pass.Current.world (h : q.Current s) (hs : q.Spares e) : q.Current (Playlists.world lib e i s).2 := by
  constructor
  · intro p hp n hn
    cases e with
    | pin_playing name =>
      dsimp only [Playlists.world] at hn
      subst hn
      exact hs p hp
    | _ => exact h.pinned p hp n (by rwa [pinned_world (by rintro _ ⟨⟩)] at hn)
  · intro l hl n hn
    refine unclaimed_world (h.seen l hl n hn) ?_ ?_
    · rintro rfl
      exact hs rfl l hl hn
    · rintro key doc b rfl
      exact hs l hl hn

/-- What a pass deletes is not protected. -/
theorem Pass.Current.keeps (h : q.Current s) (hlegal : passes.legal q e) : KeepsProtected s (Playlists.world lib e i s).2 := by
  intro n r hr hp
  cases e with
  | evict p =>
    obtain rfl := hlegal
    rcases @row_evict s.budget p (s.db.rows.length + 1) s.db false n with heq | ⟨-, hne, hseen⟩
    · dsimp only [Playlists.world]
      rw [heq, hr]
      rfl
    · obtain ⟨hmine, hheld⟩ := hseen r hr
      rcases hp with hp | hp | hp
      · rw [hmine] at hp
        cases hp
      · rw [hheld] at hp
        cases hp
      · rcases h.pinned p rfl n hp with heq | ⟨_, hl, -⟩
        · exact absurd heq hne
        · cases hl
  | delete_row name =>
    obtain ⟨p, l, rfl, hne, hmem⟩ := hlegal
    refine isSome_world hr hp (by rintro _ ⟨⟩) ?_
    rintro ⟨⟩
    obtain ⟨hmine, hheld⟩ := h.seen l rfl n hmem r hr
    rcases hp with hp | hp | hp
    · rw [hmine] at hp
      cases hp
    · rw [hheld] at hp
      cases hp
    · rcases h.pinned p rfl n hp with heq | ⟨l', hl', hno⟩
      · exact hne heq
      · cases hl'
        exact hno hmem
  | _ => exact isSome_world hr hp (by rintro _ ⟨⟩) (by rintro ⟨⟩)

theorem Pass.Current.empty : Pass.Current s {} := ⟨by rintro _ ⟨⟩, by rintro _ ⟨⟩⟩

theorem unclaimed_of_seen {r : Row} (hn : n ∈ (Playlists.world lib .seen_rows i s).1.map (·.1)) (hr : s.db.row n = some r) :
    Unclaimed r := by
  obtain ⟨⟨m, record⟩, hread, rfl⟩ := List.mem_map.1 hn
  obtain ⟨⟨m', r'⟩, hmem, heq⟩ := List.mem_map.1 (show _ ∈ (seenRows s.db).map fun x => (x.1, x.2.record_b64) from hread)
  obtain ⟨rfl, -⟩ := Prod.mk.inj heq
  obtain ⟨hmem, hseen⟩ := List.mem_filter.1 hmem
  cases (Db.mem_rows.1 hmem).symm.trans hr
  simpa [Unclaimed] using hseen

/-- What a pass remembers after its own act is so. -/
theorem Pass.Current.track (h : q.Current s) :
    (passes.track q e (Playlists.world lib e i s).1).Current (Playlists.world lib e i s).2 := by
  cases e with
  | pinned_name =>
    refine ⟨?_, by rintro _ ⟨⟩⟩
    rintro _ ⟨⟩ n hn
    exact .inl hn
  | seen_rows =>
    have htrack : passes.track q .seen_rows (Playlists.world lib .seen_rows i s).1 =
        if q.seen = none then { q with seen := some ((Playlists.world lib .seen_rows i s).1.map (·.1)) } else {} := rfl
    rw [htrack]
    split
    next hnone =>
      refine ⟨?_, ?_⟩
      · intro p hp n hn
        refine (h.pinned p hp n hn).imp_right ?_
        rintro ⟨l, hl, -⟩
        cases hnone.symm.trans hl
      · rintro _ ⟨⟩ n hn r hr
        exact unclaimed_of_seen hn hr
    next => exact Pass.Current.empty
  | library => exact Pass.Current.empty
  | pin_playing name => exact Pass.Current.empty
  | set_held name held => exact Pass.Current.empty
  | create_row name key doc b => exact Pass.Current.empty
  | _ => exact h.world trivial

/-! ### The programs -/

/-- The acts a pass may do whatever it has read. -/
def Harmless : Act → Prop
  | .evict _ | .delete_row _ => False
  | _ => True

theorem Harmless.legal (h : Harmless e) (q : Pass) : passes.legal q e := by
  cases e <;> first | exact trivial | exact h.elim

theorem harmless_of_reads (h : Reads e) : Harmless e := by
  cases e <;> trivial

theorem wp_harmless {α : Type} {p : Desktop α} (hp : p.Only Harmless) (q : Pass) :
    p.wp passes.contract (fun _ _ => True) (fun _ _ => True) q := by
  induction p generalizing q with
  | ret a => trivial
  | fail x => trivial
  | act e k ih => exact ⟨hp.1.legal q, fun r _ hr => ih r (hp.2 r) _⟩

variable {name title : String} {tracks : List TrackRef}

theorem harmless_publish : (publish lib name).Only Harmless := by
  refine .bind ⟨trivial, fun _ => trivial⟩ fun x => ?_
  split
  · trivial
  split
  · trivial
  split
  · trivial
  · refine (reads_next_seq.mono fun _ => harmless_of_reads).bind fun seq => (only_playlist_publish trivial).bind fun x => ?_
    dsimp only
    split
    · trivial
    · exact ⟨trivial, fun _ => trivial⟩

theorem harmless_create : (create lib title tracks).Only Harmless := by
  refine .bind ⟨trivial, fun _ => trivial⟩ fun now => .bind ⟨trivial, fun _ => trivial⟩ fun r => (Prog.Only.ofExcept _).bind fun name => ?_
  refine (reads_newBytes.mono fun _ => harmless_of_reads).bind fun b => .bind ⟨trivial, fun _ => trivial⟩ fun _ => ?_
  refine (reads_get.mono fun _ => harmless_of_reads).bind fun x => ?_
  split <;> trivial

theorem harmless_update : (update lib name title tracks).Only Harmless := by
  refine .bind ⟨trivial, fun _ => trivial⟩ fun x => ?_
  split
  · trivial
  · refine (reads_newBytes.mono fun _ => harmless_of_reads).bind fun b => .bind ⟨trivial, fun _ => trivial⟩ fun _ => ?_
    split
    · exact harmless_publish
    · trivial

theorem harmless_ensure_liked : (ensure_liked lib).Only Harmless := by
  have h : (liked_or_create lib).Only Harmless := by
    refine .bind ⟨trivial, fun _ => trivial⟩ fun x => ?_
    cases x with
    | some name => trivial
    | none => exact harmless_create.bind fun _ => .bind ⟨trivial, fun _ => trivial⟩ fun _ => trivial
  refine .bind ⟨trivial, fun _ => trivial⟩ fun _ => h.attempt.bind fun r => ?_
  exact .bind ⟨trivial, fun _ => trivial⟩ fun _ => .ofExcept r

theorem harmless_like_toggle {track : TrackRef} : (like_toggle lib track).Only Harmless := by
  refine harmless_ensure_liked.bind fun name => .bind ⟨trivial, fun _ => trivial⟩ fun x => ?_
  cases x with
  | none => trivial
  | some row =>
    refine (Prog.Only.ofExcept _).bind fun doc => ?_
    split <;> exact harmless_update.bind fun _ => trivial

theorem harmless_ingest_wire {w : PlaylistWire} : (ingest_wire lib w).Only Harmless := by
  refine .bind ⟨trivial, fun _ => trivial⟩ fun now => (Prog.Only.ofExcept _).bind fun x => .bind ⟨trivial, fun _ => trivial⟩ fun known => ?_
  split
  · trivial
  split
  · trivial
  split
  · exact .bind ⟨trivial, fun _ => trivial⟩ fun _ => trivial
  split
  · exact .bind ⟨trivial, fun _ => trivial⟩ fun _ => trivial
  · exact .bind ⟨trivial, fun _ => trivial⟩ fun _ => trivial

theorem harmless_ingest_link {url : String} : (ingest_link lib url).Only Harmless := by
  refine (Prog.Only.ofExcept _).bind fun x => ?_
  obtain ⟨name, envelope⟩ := x
  cases envelope with
  | some env =>
    refine (Prog.Only.ofExcept _).bind fun y => ?_
    dsimp only
    split
    · trivial
    · refine harmless_ingest_wire.bind fun _ => .bind ⟨trivial, fun _ => trivial⟩ fun x => ?_
      cases x <;> trivial
  | none =>
    refine .bind ⟨trivial, fun _ => trivial⟩ fun x => ?_
    cases x with
    | some row => trivial
    | none =>
      refine .bind ⟨trivial, fun _ => trivial⟩ fun _ => ?_
      exact (reads_request_from_peers.mono fun _ => harmless_of_reads).bind fun _ => trivial

theorem follows_enforce_budget (q : Pass) : enforce_budget.wp passes.contract (fun _ _ => True) (fun _ _ => True) q := by
  simp only [enforce_budget, pinned_name, act, wp_bind, wp_call]
  refine ⟨trivial, ?_⟩
  rintro p _ ⟨-, rfl⟩
  exact ⟨rfl, fun _ _ _ => trivial⟩

theorem follows_decay_expired (q : Pass) : (decay_expired lib).wp passes.contract (fun _ _ => True) (fun _ _ => True) q := by
  simp only [decay_expired, pinned_name, act, wp_bind, wp_call]
  refine ⟨trivial, ?_⟩
  rintro p _ ⟨-, rfl⟩
  refine ⟨trivial, ?_⟩
  rintro seen _ ⟨-, rfl⟩
  refine wp_mono (R := fun _ _ => True) _ (wp_foldlM (fun _ q => q = ⟨some p, some (seen.map (·.1))⟩) ?_ rfl)
    (fun _ _ _ => trivial) fun _ _ _ => trivial
  rintro x hx removed _ rfl
  split
  · exact rfl
  next hne =>
    simp only [now_secs, delete_row, act, wp_bind, wp_call]
    refine ⟨trivial, ?_⟩
    rintro now _ ⟨-, rfl⟩
    split
    · exact rfl
    · simp only [wp_bind, wp_call]
      refine ⟨⟨p, _, rfl, hne, List.mem_map_of_mem hx⟩, ?_⟩
      rintro _ _ ⟨-, rfl⟩
      exact rfl

theorem harmless_announce_row {entries : List PlaylistWire} {row : LibraryRow} :
    (announce_row lib entries row).Only Harmless := by
  refine .bind ⟨trivial, fun _ => trivial⟩ fun now => .bind ⟨trivial, fun _ => trivial⟩ fun now' => ?_
  split
  · exact harmless_publish.attempt.bind fun _ => trivial
  split <;> trivial

theorem follows_announce_once (q : Pass) : (announce_once lib).wp passes.contract (fun _ _ => True) (fun _ _ => True) q := by
  simp only [announce_once, act, wp_bind, wp_call]
  refine wp_mono _ (follows_decay_expired q) (fun decayed q _ => ⟨trivial, fun rows q _ => ?_⟩) fun _ _ _ => trivial
  refine wp_mono _ (wp_harmless (.foldlM fun _ _ => harmless_announce_row) q) (fun entries q _ => ?_) fun _ _ _ => trivial
  split
  · trivial
  · exact ⟨trivial, fun _ _ _ => trivial⟩

theorem follows_sync_once {cursor : Nat} (q : Pass) :
    (sync_once lib cursor).wp passes.contract (fun _ _ => True) (fun _ _ => True) q := by
  simp only [sync_once, act, wp_bind, wp_call]
  refine ⟨trivial, fun r q _ => ?_⟩
  cases r with
  | error e => trivial
  | ok x =>
    simp only [wp_bind]
    refine wp_mono _ (wp_harmless (.foldlM fun changed w => ?_) q) (fun changed q _ => ?_) fun _ _ _ => trivial
    · refine harmless_ingest_wire.attempt.bind fun r => ?_
      split <;> trivial
    · split
      · trivial
      · simp only [wp_bind]
        exact wp_mono _ (follows_enforce_budget q) (fun _ _ _ => trivial) fun _ _ _ => trivial

theorem harmless_void {α : Type} {p : Desktop α} (hp : p.Only Harmless) : (do let _ ← p : Desktop Unit).Only Harmless :=
  hp.bind fun _ => trivial

theorem follows_op {o : Op} (h : ∀ name, o ≠ .delete name) : passes.Follows (fun _ => True) (Op.prog lib o) {} := by
  cases o with
  | create title tracks => exact wp_harmless (harmless_void harmless_create) _
  | update name title tracks => exact wp_harmless harmless_update _
  | publish name => exact wp_harmless harmless_publish _
  | unpublish name =>
    exact wp_harmless (only_unpublish (fun _ => harmless_of_reads) (fun _ _ => trivial) fun _ => trivial) _
  | delete name => exact absurd rfl (h name)
  | ensure_liked => exact wp_harmless (harmless_void harmless_ensure_liked) _
  | like_toggle track => exact wp_harmless (harmless_void harmless_like_toggle) _
  | ingest_wire w => exact wp_harmless (harmless_void harmless_ingest_wire) _
  | ingest_link url => exact wp_harmless (harmless_void harmless_ingest_link) _
  | copy_link name => exact wp_harmless (harmless_void (reads_copy_link.mono fun _ => harmless_of_reads)) _
  | set_held name held => exact ⟨trivial, fun _ _ _ => trivial⟩
  | mark_played name => exact ⟨trivial, fun _ _ _ => trivial⟩
  | pin_playing name => exact ⟨trivial, fun _ _ _ => trivial⟩
  | enforce_budget => exact (wp_bind _ _).2 (wp_mono _ (follows_enforce_budget _) (fun _ _ _ => trivial) fun _ _ _ => trivial)
  | decay_expired => exact (wp_bind _ _).2 (wp_mono _ (follows_decay_expired _) (fun _ _ _ => trivial) fun _ _ _ => trivial)
  | sync_once cursor => exact (wp_bind _ _).2 (wp_mono _ (follows_sync_once _) (fun _ _ _ => trivial) fun _ _ _ => trivial)
  | push_manifest =>
    exact wp_harmless (only_push_manifest (fun _ => harmless_of_reads) (fun _ => trivial) fun _ => trivial) _
  | announce_once => exact (wp_bind _ _).2 (wp_mono _ (follows_announce_once _) (fun _ _ _ => trivial) fun _ _ _ => trivial)

/-! ### Runs -/

theorem watched_passes {p₀ : Pool Act Ans String Store Op} (hp : p₀.tasks = []) {ms : List (Prog.Move Input Op)}
    (h : Runs.Along (Pool.move (desktop lib)) (Pool.Obeys (desktop lib) sparing) p₀ ms) (k : Nat) :
    passes.Watched Pass.Current (Runs.state (Pool.move (desktop lib)) p₀ ms k).state
      (Runs.state (Pool.move (desktop lib)) p₀ ms k).tasks := by
  refine h.always (I := fun p => passes.Watched Pass.Current p.state p.tasks)
    (by rw [hp]; exact fun t ht => absurd ht List.not_mem_nil) (fun p m hm hI => Pool.move_invariant ?_ ?_ hI hm) k
  · intro s ts o hI ho
    exact hI.start (follows_op ho) Pass.Current.empty
  · intro s l₁ t l₂ e k i hI hrest _ hspares
    exact hI.act hrest trivial (fun _ hJ => hJ.track) fun _ _ u hu hopen hJ => hJ.world (hspares u hu hopen)

theorem keeps_protected {p₀ : Pool Act Ans String Store Op} (hp : p₀.tasks = []) {ms : List (Prog.Move Input Op)}
    (h : Runs.Along (Pool.move (desktop lib)) (Pool.Obeys (desktop lib) sparing) p₀ ms) (k : Nat) :
    KeepsProtected (Runs.state (Pool.move (desktop lib)) p₀ ms k).state
      (Runs.state (Pool.move (desktop lib)) p₀ ms (k + 1)).state := by
  rcases Pool.state_runs h k with heq | ⟨l₁, t, l₂, e, rest, inp, htasks, hrest, -, heq⟩
  · rw [heq]
    intro n r hr _
    rw [hr]
    rfl
  · obtain ⟨hfollows, hcurrent⟩ := watched_passes hp h k t (by rw [htasks]; simp)
    rw [heq]
    exact (hcurrent (by rw [hrest]; rfl)).keeps (Monitor.legal_of_follows hfollows hrest)

/-! ### One eviction -/

theorem nodup_rows (db : Db) : db.rows.Nodup := by
  have h : (db.rows.map Prod.fst).Nodup := by
    rw [Db.rows, List.map_map]
    exact db.playlists.nodupKeys
  exact h.of_map

theorem rows_erase_perm {db : Db} : (db.erase n).rows.Perm (db.rows.filter (·.1 ≠ n)) := by
  refine (List.perm_ext_iff_of_nodup (nodup_rows _) ((nodup_rows _).filter _)).2 ?_
  rintro ⟨m, r⟩
  rw [Db.mem_rows, Db.row_erase, List.mem_filter, Db.mem_rows, decide_eq_true_eq]
  split
  next heq => exact ⟨by rintro ⟨⟩, fun h => absurd heq h.2⟩
  next hne => exact ⟨fun h => ⟨h, hne⟩, fun h => h.1⟩

theorem length_seenRows_delete {db : Db} {r : Row} (h : (n, r) ∈ seenRows db) :
    (seenRows (db.delete n)).length < (seenRows db).length := by
  have hperm : (seenRows (db.delete n)).Perm ((seenRows db).filter (·.1 ≠ n)) := by
    refine (rows_erase_perm.filter _).trans ?_
    rw [seenRows, List.filter_comm]
  rw [hperm.length_eq]
  exact List.length_filter_lt_length_iff_exists.2 ⟨_, h, by simp⟩

theorem victim_mem {db : Db} {pinned : Option String} (h : victim db pinned = some n) : ∃ r, (n, r) ∈ seenRows db := by
  obtain ⟨⟨_, r⟩, hmem, rfl⟩ := Option.map_eq_some_iff.1 h
  exact ⟨r, (List.mem_filter.1 (List.argmin_mem hmem)).1⟩

theorem pinned_of_victim_eq_none {db : Db} {pinned : Option String} (h : victim db pinned = none) :
    ∀ x ∈ seenRows db, pinned = some x.1 := by
  intro x hx
  rw [victim, Option.map_eq_none_iff, List.argmin_eq_none] at h
  by_contra hne
  exact List.not_mem_nil (h ▸ List.mem_filter.2 ⟨hx, decide_eq_true hne⟩)

/-- With a round for each seen row, eviction ends in the budget, or with none but the pinned one. -/
theorem evict_settles {budget : Int} {pinned : Option String} {k : Nat} {db : Db} {evicted : Bool}
    (hk : (seenRows db).length < k) : used (evict budget pinned k db evicted).1 ≤ budget ∨
      ∀ x ∈ seenRows (evict budget pinned k db evicted).1, pinned = some x.1 := by
  induction k generalizing db evicted with
  | zero => omega
  | succ k ih =>
    rw [evict]
    split
    next h => exact .inl h
    split
    next h => exact .inr (pinned_of_victim_eq_none h)
    next name h =>
      obtain ⟨r, hr⟩ := victim_mem h
      have := length_seenRows_delete hr
      exact ih (by omega)

/-- `enforce_budget` alone ends in the budget, or with no seen row but the pinned one. -/
theorem budget_enforced (ω : Nat → Input) (s : Store) :
    used (enforce_budget.run (world lib) ω s).2.db ≤ s.budget ∨
      ∀ x ∈ seenRows (enforce_budget.run (world lib) ω s).2.db, s.pinned = some x.1 :=
  evict_settles (Nat.lt_succ_of_le (List.length_filter_le _ _))

end TrackerStream.Playlists
