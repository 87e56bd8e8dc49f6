import TrackerStream.Proofs.Certified
import TrackerStream.Proofs.Evictions
import TrackerStream.Proofs.WebActs

/-!
# Evictions in the browser

The store lists the rows that are neither mine nor held and then removes them one statement after another. Rows that are mine or
held stay as long as none of those listed becomes so before the pass is over; with the desktop's passes this is
`kept_while_spared`.
-/

namespace TrackerStream

namespace WebPlaylists
open Playlists (Row Db Unclaimed)
open Prog

/-- The names an eviction has listed. -/
abbrev Listed : Type := Option (List String)

/-- The act claims no row that an eviction has listed. -/
def Spares (q : Listed) : Act → Prop
  | .setHeld name held => held = true → ∀ l, q = some l → name ∉ l
  | .setMine name isMine _ => isMine = some true → ∀ l, q = some l → name ∉ l
  | _ => True

/-- An eviction deletes what it has listed. -/
def evictions : Monitor Act Ans Op Listed where
  init _ := none
  track q e r := match e, r with
    | .seenSizes, r => some (r.map (·.1))
    | .setHeld .., _ | .setMine .., _ => none
    | _, _ => q
  legal q e := match e with
    | .deleteRow n => ∃ l, q = some l ∧ n ∈ l
    | _ => True
  allow _ _ := True

/-- No deletions but those of evictions, and no act claims a row that one in flight has listed. -/
def sparing : Pool.Rules Act Ans String Input Store Op where
  start _ _ o := ∀ name, o ≠ .remove name
  act _ ts _ e _ := ∀ u ∈ ts, u.rest.ended = false → Spares (evictions.view u) e

/-- No row that is mine or held goes. -/
def KeepsClaimed (s s' : Store) : Prop :=
  ∀ n r, s.db.row n = some r → r.is_mine = true ∨ r.held = true → (s'.db.row n).isSome

/-- What an eviction has listed is neither mine nor held. -/
def Current (s : Store) (q : Listed) : Prop := ∀ l, q = some l → ∀ n ∈ l, ∀ r, s.db.row n = some r → Unclaimed r

variable {lib : WebLib} {s : Store} {q : Listed} {e : Act} {i : Input} {n : String}

theorem unclaimed_world (h : ∀ r, s.db.row n = some r → Unclaimed r) (hheld : e ≠ .setHeld n true)
    (hmine : ∀ key, e ≠ .setMine n (some true) key) : ∀ r, (world e i s).2.db.row n = some r → Unclaimed r := by
  cases e with
  | insert name doc b record seq eol =>
    intro r hr
    dsimp only [world] at hr
    rw [Db.row_put] at hr
    split at hr
    next heq =>
      subst heq
      cases hr
      cases hold : s.db.row n with
      | none => exact ⟨rfl, rfl⟩
      | some old => exact h old hold
    next => exact h r hr
  | setMine name isMine key =>
    refine Db.forall_row_update h fun heq r hr => ?_
    cases isMine with
    | none => exact hr
    | some mine =>
      cases mine with
      | false => exact ⟨rfl, hr.2⟩
      | true => exact absurd (heq ▸ rfl) (hmine key)
  | setHeld name held =>
    refine Db.forall_row_update h fun heq r hr => ?_
    cases held with
    | false => exact ⟨hr.1, rfl⟩
    | true => exact absurd (heq ▸ rfl) hheld
  | setPublished name published => exact Db.forall_row_update h fun _ _ => id
  | setLiked name => exact Db.forall_row_update h fun _ _ => id
  | setPlayed name => exact Db.forall_row_update h fun _ _ => id
  | tombstoneRow name seq record => exact Db.forall_row_update h fun _ _ => id
  | renewRow name seq record eol => exact Db.forall_row_update h fun _ _ => id
  | deleteRow name =>
    intro r hr
    dsimp only [world] at hr
    rw [Db.row_erase] at hr
    split at hr
    next => cases hr
    next => exact h r hr
  | createKey =>
    dsimp only [world]
    split <;> exact h
  | _ => exact h

theorem isSome_world {r : Row} (hr : s.db.row n = some r) (hdelete : e ≠ .deleteRow n) : ((world e i s).2.db.row n).isSome := by
  have h : (s.db.row n).isSome := by
    rw [hr]
    rfl
  cases e with
  | insert name doc b record seq eol =>
    dsimp only [world]
    rw [Db.row_put]
    split
    · rfl
    · exact h
  | setMine name isMine key => exact Db.isSome_row_update h
  | setHeld name held => exact Db.isSome_row_update h
  | setPublished name published => exact Db.isSome_row_update h
  | setLiked name => exact Db.isSome_row_update h
  | setPlayed name => exact Db.isSome_row_update h
  | tombstoneRow name seq record => exact Db.isSome_row_update h
  | renewRow name seq record eol => exact Db.isSome_row_update h
  | deleteRow name =>
    dsimp only [world]
    rwa [Db.row_erase, if_neg]
    rintro rfl
    exact hdelete rfl
  | createKey =>
    dsimp only [world]
    split <;> exact h
  | _ => exact h

theorem Current.world (h : Current s q) (hs : Spares q e) : Current (WebPlaylists.world e i s).2 q := by
  intro l hl n hn
  refine unclaimed_world (h l hl n hn) ?_ ?_
  · rintro rfl
    exact hs rfl l hl hn
  · rintro key rfl
    exact hs rfl l hl hn

theorem Current.track (h : Current s q) :
    Current (WebPlaylists.world e i s).2 (evictions.track q e (WebPlaylists.world e i s).1) := by
  cases e with
  | seenSizes =>
    rintro _ ⟨⟩ n hn r hr
    obtain ⟨⟨m, size⟩, hmem, rfl⟩ := List.mem_map.1 hn
    obtain ⟨r', hr', hmine, hheld, -⟩ := mem_seenSizes.1 hmem
    cases hr'.symm.trans hr
    exact ⟨hmine, hheld⟩
  | setHeld name held => rintro _ ⟨⟩
  | setMine name isMine key => rintro _ ⟨⟩
  | _ => exact h.world trivial

/-- What an eviction deletes is neither mine nor held. -/
theorem Current.keeps (h : Current s q) (hlegal : evictions.legal q e) : KeepsClaimed s (WebPlaylists.world e i s).2 := by
  intro n r hr hp
  refine isSome_world hr ?_
  rintro rfl
  obtain ⟨l, rfl, hn⟩ := hlegal
  obtain ⟨hmine, hheld⟩ := h l rfl n hn r hr
  rcases hp with hp | hp
  · rw [hmine] at hp
    cases hp
  · rw [hheld] at hp
    cases hp

/-! ### The programs -/

/-- The acts an operation may do whatever it has listed. -/
def Harmless : Act → Prop
  | .deleteRow _ => False
  | _ => True

theorem Harmless.legal (h : Harmless e) (q : Listed) : evictions.legal q e := by
  cases e <;> first | exact trivial | exact h.elim

theorem wp_harmless {α : Type} {p : Web α} (hp : p.Only Harmless) (q : Listed) :
    p.wp evictions.contract (fun _ _ => True) (fun _ _ => True) q := by
  induction p generalizing q with
  | ret a => trivial
  | fail x => trivial
  | act e k ih => exact ⟨hp.1.legal q, fun r _ hr => ih r (hp.2 r) _⟩

theorem harmless_void {α : Type} {p : Web α} (hp : p.Only Harmless) : (do let _ ← p : Web Unit).Only Harmless :=
  hp.bind fun _ => trivial

variable {name title : String} {tracks : List TrackRef} {doc : PlaylistDoc} {rec b : Bytes} {record : Option String}

theorem harmless_index : (index name doc).Only Harmless := only_index trivial fun _ => trivial

theorem harmless_gossip : (gossip name rec b).Only Harmless :=
  .bind ⟨trivial, fun _ => trivial⟩ fun _ => .bind (.ofExcept _) fun _ => ⟨trivial, fun _ => trivial⟩

theorem harmless_sign {seq : Nat} : (sign name b seq).Only Harmless :=
  .bind ⟨trivial, fun _ => trivial⟩ fun _ => .ofExcept _

theorem harmless_newBytes : (newBytes lib title tracks).Only Harmless := (Prog.Only.ofExcept _).bind fun _ => trivial

theorem harmless_upsert {seq eol : Int} : (upsert name doc b record seq eol).Only Harmless :=
  .bind ⟨trivial, fun _ => trivial⟩ fun _ => harmless_index

theorem harmless_create : (create lib title tracks).Only Harmless := by
  refine .bind ⟨trivial, fun _ => trivial⟩ fun r => (Prog.Only.ofExcept _).bind fun name => harmless_newBytes.bind fun b => ?_
  refine .bind (.bind ⟨trivial, fun _ => trivial⟩ fun _ => .bind ⟨trivial, fun _ => trivial⟩ fun _ => harmless_index) fun _ => ?_
  refine .bind ⟨trivial, fun _ => trivial⟩ fun x => ?_
  cases x with
  | none => trivial
  | some row => exact .bind ⟨trivial, fun _ => trivial⟩ fun _ => .ofExcept _

theorem harmless_publish : (publish lib name).Only Harmless := by
  refine .bind ⟨trivial, fun _ => trivial⟩ fun x => ?_
  split
  · trivial
  refine .bind ⟨trivial, fun _ => trivial⟩ fun key => ?_
  split
  · trivial
  refine harmless_sign.bind fun rec => (Prog.Only.ofExcept _).bind fun parsed => ?_
  refine .bind (.bind ⟨trivial, fun _ => trivial⟩ fun _ => .bind ⟨trivial, fun _ => trivial⟩ fun _ => harmless_index) fun _ => ?_
  exact harmless_gossip

theorem harmless_update : (update lib name title tracks).Only Harmless := by
  refine .bind ⟨trivial, fun _ => trivial⟩ fun x => ?_
  split
  · trivial
  refine harmless_newBytes.bind fun b => harmless_upsert.bind fun _ => ?_
  split
  · exact harmless_publish
  · trivial

theorem harmless_unpublish : (unpublish lib name).Only Harmless := by
  refine .bind ?_ fun _ => ⟨trivial, fun _ => trivial⟩
  refine .bind ⟨trivial, fun _ => trivial⟩ fun x => ?_
  split
  · trivial
  refine .bind ⟨trivial, fun _ => trivial⟩ fun key => ?_
  split
  · trivial
  exact harmless_sign.bind fun rec => harmless_gossip.bind fun _ => ⟨trivial, fun _ => trivial⟩

theorem harmless_likedRow : (likedRow lib).Only Harmless := by
  refine .bind ⟨trivial, fun _ => trivial⟩ fun rows => ?_
  split
  · trivial
  refine harmless_create.bind fun info => .bind ⟨trivial, fun _ => trivial⟩ fun _ => .bind ⟨trivial, fun _ => trivial⟩ fun x => ?_
  cases x <;> trivial

theorem harmless_likeToggle {track : TrackRef} : (likeToggle lib track).Only Harmless := by
  refine harmless_likedRow.bind fun x => (Prog.Only.ofExcept _).bind fun doc => ?_
  dsimp only
  split <;> exact harmless_update.bind fun _ => trivial

theorem harmless_regossip {text docJson : String} : (regossip name text docJson).Only Harmless := by
  rw [regossip]
  split
  · trivial
  · exact harmless_gossip

theorem harmless_announceRow {now : Int} {row : Row} : (announceRow lib now name row).Only Harmless := by
  rw [announceRow]
  split
  · trivial
  split
  · trivial
  refine .bind ⟨trivial, fun _ => trivial⟩ fun seen => ?_
  split
  · trivial
  split
  · refine .bind ⟨trivial, fun _ => trivial⟩ fun key => ?_
    split
    · trivial
    split
    · exact harmless_sign.bind fun rec => .bind ⟨trivial, fun _ => trivial⟩ fun _ => harmless_gossip
    split
    · exact harmless_regossip
    · trivial
  · split
    · split
      · exact harmless_regossip
      · trivial
    · trivial

theorem harmless_disclosureRows : disclosureRows.Only Harmless := .bind ⟨trivial, fun _ => trivial⟩ fun _ => trivial

theorem harmless_reannounce {manifest : List (String × Row)} {n : Nat} : (reannounce manifest n name).Only Harmless := by
  rw [reannounce]
  split
  · trivial
  split
  · trivial
  refine .bind ⟨trivial, fun _ => trivial⟩ fun allowed => ?_
  split
  · trivial
  · exact harmless_regossip.bind fun _ => trivial

theorem harmless_serveList : serveList.Only Harmless := by
  refine .bind ⟨trivial, fun _ => trivial⟩ fun req => (Prog.Only.ofExcept _).bind fun want => ?_
  refine harmless_disclosureRows.bind fun manifest => (Prog.Only.foldlM fun _ _ => harmless_reannounce).bind fun n => ?_
  exact .bind ⟨trivial, fun _ => trivial⟩ fun _ => .ofExcept _

theorem follows_evictRows {budget total : Int} {rows : List (String × Int)} {l : List String} (h : ∀ x ∈ rows, x.1 ∈ l) :
    (evictRows budget rows total).wp evictions.contract (fun _ _ => True) (fun _ _ => True) (some l) := by
  induction rows generalizing total with
  | nil => trivial
  | cons x rows ih =>
    rw [evictRows]
    split
    · trivial
    · simp only [removeRow, act, wp_bind, wp_call]
      refine ⟨⟨l, rfl, h x (by simp)⟩, ?_⟩
      rintro _ _ ⟨-, rfl⟩
      refine ⟨trivial, ?_⟩
      rintro _ _ ⟨-, rfl⟩
      exact ih fun y hy => h y (by simp [hy])

theorem follows_enforceBudget {budget : Int} (q : Listed) :
    (enforceBudget budget).wp evictions.contract (fun _ _ => True) (fun _ _ => True) q := by
  simp only [enforceBudget, act, wp_bind, wp_call]
  refine ⟨trivial, ?_⟩
  rintro rows _ ⟨-, rfl⟩
  exact follows_evictRows fun x hx => List.mem_map_of_mem hx

theorem follows_ingestMessage (q : Listed) :
    (ingestMessage lib name rec b).wp evictions.contract (fun _ _ => True) (fun _ _ => True) q := by
  simp only [ingestMessage, nowSecs, act, wp_bind, wp_call, wp_ofExcept]
  refine ⟨trivial, fun now q _ => ⟨fun seq _ => ?_, fun _ _ => trivial⟩⟩
  simp only [ingestVerified, getRow, act, wp_bind, wp_call]
  refine ⟨trivial, fun existing q _ => ?_⟩
  split
  · trivial
  simp only [wp_bind, wp_call, wp_ofExcept]
  refine ⟨fun parsed _ => wp_mono _ (wp_harmless harmless_upsert q) (fun _ q _ => ?_) fun _ _ _ => trivial, fun _ _ => trivial⟩
  exact ⟨trivial, fun _ q _ => ⟨trivial, fun _ q _ => follows_enforceBudget q⟩⟩

theorem follows_ingestLink {url : String} (q : Listed) :
    (ingestLink lib url).wp evictions.contract (fun _ _ => True) (fun _ _ => True) q := by
  simp only [ingestLink, wp_bind, wp_ofExcept]
  refine ⟨fun x _ => ?_, fun _ _ => trivial⟩
  obtain ⟨name, envelope⟩ := x
  cases envelope with
  | none => exact ⟨trivial, fun _ _ _ => trivial⟩
  | some env =>
    simp only [wp_bind, wp_ofExcept]
    refine ⟨fun y _ => ?_, fun _ _ => trivial⟩
    obtain ⟨n, record, doc⟩ := y
    dsimp only
    split
    · trivial
    · rw [wp_bind]
      exact wp_mono _ (follows_ingestMessage q) (fun _ _ _ => trivial) fun _ _ _ => trivial

theorem follows_op {o : Op} (h : ∀ name, o ≠ .remove name) : evictions.Follows (fun _ => True) (Op.prog lib o) none := by
  cases o with
  | create title tracks => exact wp_harmless (harmless_void harmless_create) _
  | update name title tracks => exact wp_harmless harmless_update _
  | publish name => exact wp_harmless (p := Op.prog lib (.publish name)) (.bind ⟨trivial, fun _ => trivial⟩ fun _ => harmless_publish) _
  | unpublish name =>
    exact wp_harmless (p := Op.prog lib (.unpublish name)) (harmless_unpublish.bind fun _ => ⟨trivial, fun _ => trivial⟩) _
  | remove name => exact absurd rfl (h name)
  | hold name held => exact ⟨trivial, fun _ _ _ => trivial⟩
  | played name => exact ⟨trivial, fun _ _ _ => trivial⟩
  | likedRow => exact wp_harmless (harmless_void harmless_likedRow) _
  | likeToggle track => exact wp_harmless (harmless_void harmless_likeToggle) _
  | copyLink name => exact wp_harmless (harmless_void (only_copyLink trivial)) _
  | ingestWire bytes =>
    refine (wp_bind _ _).2 ((wp_ofExcept _).2 ⟨fun x _ => ?_, fun _ _ => trivial⟩)
    exact follows_ingestMessage _
  | ingestLink url => exact (wp_bind _ _).2 (wp_mono _ (follows_ingestLink _) (fun _ _ _ => trivial) fun _ _ _ => trivial)
  | announceOnce =>
    refine wp_harmless (p := Op.prog lib .announceOnce) (.bind ⟨trivial, fun _ => trivial⟩ fun _ => ?_) _
    refine .bind ⟨trivial, fun _ => trivial⟩ fun _ => ?_
    exact .foldlM fun _ _ => harmless_announceRow
  | beaconOnce =>
    refine wp_harmless (p := Op.prog lib .beaconOnce) (harmless_disclosureRows.bind fun mine => ?_) _
    split
    · trivial
    · exact ⟨trivial, fun _ => trivial⟩
  | handlePlaylistList peer =>
    refine wp_harmless (p := Op.prog lib (.handlePlaylistList peer)) (.bind ⟨trivial, fun _ => trivial⟩ fun allowed => ?_) _
    split
    · trivial
    · exact harmless_serveList.attempt.bind fun _ => trivial

/-! ### Runs -/

theorem watched_evictions {p₀ : Pool Act Ans String Store Op} (hp : p₀.tasks = []) {ms : List (Prog.Move Input Op)}
    (h : Runs.Along (Pool.move (browser lib)) (Pool.Obeys (browser lib) sparing) p₀ ms) (k : Nat) :
    evictions.Watched Current (Runs.state (Pool.move (browser lib)) p₀ ms k).state
      (Runs.state (Pool.move (browser lib)) p₀ ms k).tasks := by
  refine h.always (I := fun p => evictions.Watched Current p.state p.tasks)
    (by rw [hp]; exact fun t ht => absurd ht List.not_mem_nil) (fun p m hm hI => Pool.move_invariant ?_ ?_ hI hm) k
  · intro s ts o hI ho
    exact hI.start (follows_op ho) (by rintro _ ⟨⟩)
  · intro s l₁ t l₂ e k i hI hrest _ hspares
    exact hI.act hrest trivial (fun _ hJ => hJ.track) fun _ _ u hu hopen hJ => hJ.world (hspares u hu hopen)

theorem keeps_claimed {p₀ : Pool Act Ans String Store Op} (hp : p₀.tasks = []) {ms : List (Prog.Move Input Op)}
    (h : Runs.Along (Pool.move (browser lib)) (Pool.Obeys (browser lib) sparing) p₀ ms) (k : Nat) :
    KeepsClaimed (Runs.state (Pool.move (browser lib)) p₀ ms k).state
      (Runs.state (Pool.move (browser lib)) p₀ ms (k + 1)).state := by
  rcases Pool.state_runs h k with heq | ⟨l₁, t, l₂, e, rest, inp, htasks, hrest, -, heq⟩
  · rw [heq]
    intro n r hr _
    rw [hr]
    rfl
  · obtain ⟨hfollows, hcurrent⟩ := watched_evictions hp h k t (by rw [htasks]; simp)
    rw [heq]
    exact (hcurrent (by rw [hrest]; rfl)).keeps (Monitor.legal_of_follows hfollows hrest)

/-! ### One eviction -/

/-- The bytes of the rows that are neither mine nor held. -/
def used (db : Db) : Int := ((seenSizes db).map (·.2)).sum

theorem seenSizes_perm (db : Db) :
    (seenSizes db).Perm ((db.rows.filter fun x => !x.2.is_mine && !x.2.held).map fun x => (x.1, x.2.size_bytes)) :=
  (List.mergeSort_perm _ _).map _

theorem nodup_seenSizes (db : Db) : ((seenSizes db).map Prod.fst).Nodup := by
  have h : (db.rows.map Prod.fst).Nodup := by
    rw [Db.rows, List.map_map]
    exact db.playlists.nodupKeys
  refine ((seenSizes_perm db).map _).nodup_iff.2 ?_
  rw [List.map_map]
  exact h.sublist (List.filter_sublist.map _)

theorem seenSizes_erase_perm {db : Db} : (seenSizes (db.erase n)).Perm ((seenSizes db).filter (·.1 ≠ n)) := by
  refine (seenSizes_perm _).trans (.trans ((Playlists.rows_erase_perm.filter _).map _) ?_)
  refine .trans (.of_eq ?_) ((seenSizes_perm db).filter _).symm
  rw [List.filter_comm, List.filter_map]
  rfl

theorem evictRows_settles {ω : Nat → Input} {budget total : Int} {rows : List (String × Int)} (hperm : (seenSizes s.db).Perm rows)
    (htotal : total = (rows.map (·.2)).sum) :
    used ((evictRows budget rows total).run world ω s).2.db ≤ budget ∨
      seenSizes ((evictRows budget rows total).run world ω s).2.db = [] := by
  induction rows generalizing ω s total with
  | nil => exact .inr hperm.eq_nil
  | cons x rows ih =>
    rw [evictRows]
    split
    next hle =>
      refine .inl ?_
      rw [used]
      change ((seenSizes s.db).map _).sum ≤ _
      rw [(hperm.map _).sum_eq, ← htotal]
      exact hle
    next =>
      have hnodup : ((x :: rows).map Prod.fst).Nodup := (hperm.map Prod.fst).nodup_iff.1 (nodup_seenSizes s.db)
      refine @ih { s with db := (s.db.erase x.1).unindex x.1 } (fun k => ω (k + 2)) _ ?_ ?_
      · refine seenSizes_erase_perm.trans ((hperm.filter _).trans (.of_eq ?_))
        rw [List.map_cons, List.nodup_cons] at hnodup
        rw [List.filter_cons_of_neg (by simp), List.filter_eq_self]
        intro y hy
        refine decide_eq_true ?_
        rintro heq
        exact hnodup.1 (heq ▸ List.mem_map_of_mem hy)
      · rw [htotal, List.map_cons, List.sum_cons]
        omega

/-- A budget enforced alone ends in the budget, or with no row that is neither mine nor held. -/
theorem budget_enforced (budget : Int) (ω : Nat → Input) (s : Store) :
    used ((enforceBudget budget).run world ω s).2.db ≤ budget ∨ seenSizes ((enforceBudget budget).run world ω s).2.db = [] :=
  evictRows_settles (.refl _) rfl

end WebPlaylists

/-! ### Both clients -/

section
open Playlists (Db Unclaimed ownName)
open Prog

/-- A row that is mine, held or pinned is not evicted and does not decay, where no act makes a row so that a pass in flight has
read not to be. A pass alone brings the rows that are neither mine nor held into the budget, or leaves none but the pinned one. -/
theorem kept_while_spared (lib : Playlists.Lib) (web : WebPlaylists.WebLib) :
    (∀ (s₀ : Playlists.Store) (ms : List (Prog.Move Playlists.Input Playlists.Op)),
      Runs.Along (Pool.move (Playlists.desktop lib)) (Pool.Obeys (Playlists.desktop lib) Playlists.sparing) ⟨s₀, []⟩ ms →
        ∀ k, Playlists.KeepsProtected (Runs.state (Pool.move (Playlists.desktop lib)) ⟨s₀, []⟩ ms k).state
          (Runs.state (Pool.move (Playlists.desktop lib)) ⟨s₀, []⟩ ms (k + 1)).state) ∧
    (∀ (s₀ : WebPlaylists.Store) (ms : List (Prog.Move WebPlaylists.Input WebPlaylists.Op)),
      Runs.Along (Pool.move (WebPlaylists.browser web)) (Pool.Obeys (WebPlaylists.browser web) WebPlaylists.sparing) ⟨s₀, []⟩ ms →
        ∀ k, WebPlaylists.KeepsClaimed (Runs.state (Pool.move (WebPlaylists.browser web)) ⟨s₀, []⟩ ms k).state
          (Runs.state (Pool.move (WebPlaylists.browser web)) ⟨s₀, []⟩ ms (k + 1)).state) ∧
    (∀ (ω : Nat → Playlists.Input) (s : Playlists.Store),
      Playlists.used (Playlists.enforce_budget.run (Playlists.world lib) ω s).2.db ≤ s.budget ∨
        ∀ n r, (Playlists.enforce_budget.run (Playlists.world lib) ω s).2.db.row n = some r → Unclaimed r → s.pinned = some n) ∧
    ∀ (budget : Int) (ω : Nat → WebPlaylists.Input) (s : WebPlaylists.Store),
      WebPlaylists.used ((WebPlaylists.enforceBudget budget).run WebPlaylists.world ω s).2.db ≤ budget ∨
        ∀ n r, ((WebPlaylists.enforceBudget budget).run WebPlaylists.world ω s).2.db.row n = some r → ¬Unclaimed r := by
  refine ⟨fun s₀ ms h => Playlists.keeps_protected rfl h, fun s₀ ms h => WebPlaylists.keeps_claimed rfl h, ?_, ?_⟩
  · intro ω s
    refine (Playlists.budget_enforced ω s).imp_right fun h n r hr hun => h (n, r) ?_
    refine List.mem_filter.2 ⟨Db.mem_rows.2 hr, ?_⟩
    rw [hun.1, hun.2]
    rfl
  · intro budget ω s
    refine (WebPlaylists.budget_enforced budget ω s).imp_right fun h n r hr hun => ?_
    have hmem := WebPlaylists.mem_seenSizes.2 ⟨r, hr, hun.1, hun.2, rfl⟩
    rw [h] at hmem
    exact List.not_mem_nil hmem

/-- A playlist that was deleted by its author while it played. -/
def dormantRow : Playlists.Row := { doc_json := "\x7b\"v\":2,\"t\":\"a\"\x7d", seq := 2, size_bytes := 15, tombstoned := true }

def dormantStore : Playlists.Store := { db := .put .empty ownName dormantRow, budget := 50 * 1024 * 1024 }

/-- The user holds it while a pass that has read it as not held goes on. -/
def heldMeanwhile : List (Prog.Move Playlists.Input Playlists.Op) :=
  [.start .decay_expired, .step 0 {}, .step 0 {}, .start (.set_held ownName true), .step 1 {}, .step 0 {}, .step 0 {}]

theorem held_decays : ¬∀ k, Playlists.KeepsProtected
    (Runs.state (Pool.move (Playlists.desktop Playlists.sample.lib)) ⟨dormantStore, []⟩ heldMeanwhile k).state
      (Runs.state (Pool.move (Playlists.desktop Playlists.sample.lib)) ⟨dormantStore, []⟩ heldMeanwhile (k + 1)).state := by
  intro h
  have hheld : (Runs.state (Pool.move (Playlists.desktop Playlists.sample.lib)) ⟨dormantStore, []⟩ heldMeanwhile 6).state.db.row
      ownName = some { dormantRow with held := true } := by decide +kernel
  have hgone := h 6 ownName _ hheld (.inr (.inl rfl))
  revert hgone
  decide +kernel

end

end TrackerStream
