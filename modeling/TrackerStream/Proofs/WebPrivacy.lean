import TrackerStream.Proofs.Certified
import TrackerStream.Proofs.WebActs

/-!
# Private playlists of the browser

The liked playlist, and an own playlist the user does not share, are not to be gossiped, beaconed or disclosed. Two
operations have no guard: the liked playlist can be published, and an own row can be held. In a history without them
every row that is shown may be.
-/

namespace TrackerStream.WebPlaylists
open Playlists (Row Db FtsEntry)

/-- A row that may be shown: it is not the liked one, and the user shares it if it is their own. -/
def MayShow (shared : List String) (name : String) (r : Row) : Prop :=
  r.liked = false ∧ (r.is_mine = true → name ∈ shared)

/-- What is gossiped, beaconed or disclosed may be shown. -/
def Shows : Act → Store → Prop
  | .publish name _ _, s => ∀ r, s.db.row name = some r → MayShow s.shared name r
  | .beacon names, s => ∀ name ∈ names, ∀ r, s.db.row name = some r → MayShow s.shared name r
  | .respond rows _, s => ∀ x ∈ rows, MayShow s.shared x.1 x.2
  | _, _ => True

/-- The flags of a row agree: the liked one is own and not published, an own one is not held, and one that is published
is shared. -/
structure Guarded (shared : List String) (name : String) (r : Row) : Prop where
  liked : r.liked = true → r.is_mine = true ∧ r.published = false
  held : r.is_mine = true → r.held = false
  published : r.is_mine = true → r.published = true → name ∈ shared

abbrev Private (s : Store) : Prop := s.db.All (Guarded s.shared)

/-! ### Which steps keep it -/

/-- The name of a new key is new. -/
def Fresh : Act → Input → Store → Prop
  | .createKey, i, s => ∀ name, i.createKey = .ok name → s.db.row name = none
  | _, _, _ => True

/-- The liked playlist is not published, and no own row is held. -/
def Unexposed (s : Store) : Op → Prop
  | .publish name => ∀ r, s.db.row name = some r → r.liked = false
  | .hold name held => held = true → ∀ r, s.db.row name = some r → r.is_mine = false
  | _ => True

/-- What is asked of an operation, its inputs and the store it starts in. -/
def Discreet (lib : WebLib) (s : Store) (o : Op) (ω : Nat → Input) : Prop :=
  (Op.prog lib o).Fits world Fresh ω s ∧ Unexposed s o

/-! ### Rows -/

variable {lib : WebLib} {shared : List String} {s : Store} {name : String} {r : Row} {α : Type}
  {R : String → Store → Prop}

theorem Guarded.not_liked (h : Guarded shared name r) (hpub : r.published = true) : r.liked = false := by
  by_contra hl
  have := (h.liked (by simpa using hl)).2
  rw [hpub] at this
  cases this

theorem Guarded.mayShow (h : Guarded shared name r) (hd : disclosed r = true) : MayShow shared name r := by
  simp only [disclosed, Bool.and_eq_true, Bool.or_eq_true, Bool.not_eq_true'] at hd
  rcases hd.2 with ⟨hmine, hpub⟩ | hheld
  · exact ⟨h.not_liked hpub, fun _ => h.published hmine hpub⟩
  · have hmine : r.is_mine ≠ true := fun hm => by rw [h.held hm] at hheld; cases hheld
    exact ⟨by by_contra hl; exact hmine (h.liked (by simpa using hl)).1, fun hm => absurd hm hmine⟩

theorem Guarded.mono {shared' : List String} (h : Guarded shared name r) (hsub : name ∈ shared → name ∈ shared') :
    Guarded shared' name r :=
  ⟨h.liked, h.held, fun hm hp => hsub (h.published hm hp)⟩

/-- A write of document and record leaves the flags as they were, and has none of a new row's set. -/
theorem Guarded.upserted {doc : PlaylistDoc} {b : Bytes} {record : Option String} {seq eol now : Int} {old : Option Row}
    (h : ∀ r, old = some r → Guarded shared name r) :
    Guarded shared name (WebPlaylists.upserted old doc b record seq eol now) := by
  cases old with
  | none => exact ⟨by rintro ⟨⟩, by rintro ⟨⟩, by rintro ⟨⟩⟩
  | some r => exact ⟨(h r rfl).liked, (h r rfl).held, (h r rfl).published⟩

/-! ### Acts -/

abbrev KP : Prog.Contract Act Ans Store := Prog.asking world Fresh Shows

@[simp] theorem wp_act_shows (e : Act) (k : Ans e → Web α) {Q : α → Store → Prop} :
    (Prog.act e k).wp KP Q R s ↔
      Shows e s ∧ ∀ i, Fresh e i s → (k (world e i s).1).wp KP Q R (world e i s).2 :=
  Prog.wp_act_asking e k

theorem Private.of_db {s' : Store} (h : Private s) (hdb : s'.db.row = s.db.row) (hshared : s'.shared = s.shared) :
    Private s' := by
  intro n r hr
  rw [hshared]
  exact h n r (by rwa [← hdb])

theorem Private.indexed (h : Private s) (name : String) (doc : PlaylistDoc) :
    Private { s with db := (s.db.unindex name).index ⟨name, doc.t.or "", tracksText doc⟩ } :=
  h.of_db rfl rfl

/-- The acts that show nothing and set no flag. -/
def Quiet : Act → Prop
  | .setMine .. | .setHeld .. | .setPublished _ true | .setLiked _ | .unshare _ | .publish .. | .beacon _ | .respond .. => False
  | _ => True

theorem quiet_shows (e : Act) (s : Store) (he : Quiet e) : Shows e s := by
  cases e <;> trivial

theorem Private.insert (h : Private s) (name : String) (doc : PlaylistDoc) (b : Bytes) (record : Option String)
    (seq eol now : Int) :
    Private { s with db := s.db.put name (upserted (s.db.row name) doc b record seq eol now) } :=
  Db.All.put h (.upserted fun r hr => h name r hr)

theorem Private.erase (h : Private s) (name : String) : Private { s with db := s.db.erase name } := by
  intro n r hr
  rw [Db.row_erase] at hr
  split at hr
  · cases hr
  · exact h n r hr

theorem Private.update (h : Private s) (name : String) (f : Row → Row)
    (hf : ∀ r, s.db.row name = some r → Guarded s.shared name r → Guarded s.shared name (f r)) :
    Private { s with db := s.db.update name f } :=
  Db.All.update h hf

theorem quiet_keeps (e : Act) (i : Input) (s : Store) (he : Quiet e) (hs : Private s) : Private (world e i s).2 := by
  cases e with
  | setMine | setHeld | setLiked | unshare | publish | beacon | respond => cases he
  | setPublished n published =>
    cases published with
    | true => cases he
    | false => exact hs.update n _ fun r _ hr => ⟨fun hl => ⟨(hr.liked hl).1, rfl⟩, hr.held, by rintro - ⟨⟩⟩
  | insert n doc b record seq eol => exact hs.insert n doc b record seq eol i.now
  | deleteRow n => exact hs.erase n
  | setPlayed | tombstoneRow | renewRow => exact hs.update _ _ fun _ _ hr => ⟨hr.liked, hr.held, hr.published⟩
  | share n => exact hs.mono fun _ _ hr => hr.mono (List.mem_cons_of_mem n)
  | createKey =>
    simp only [world]
    split
    · exact hs
    · exact hs
  | _ => exact hs.of_db rfl rfl

theorem wp_quiet {p : Web α} (hp : p.Only Quiet) (hs : Private s) :
    p.wp KP (fun _ => Private) (fun _ => Private) s :=
  hp.wp_asking (fun e i s he _ hs => quiet_keeps e i s he hs) (fun e s he _ => quiet_shows e s he) hs

theorem quiet_index {doc : PlaylistDoc} : (index name doc).Only Quiet := only_index trivial fun _ => trivial

/-! ### Publishing -/

theorem wp_sign_shows {doc : Bytes} {seq : Nat} {Q : Bytes → Store → Prop} (hok : ∀ rec, Q rec s)
    (hfail : ∀ text, R text s) : (sign name doc seq).wp KP Q R s := by
  simp only [sign, act, Prog.call, Prog.wp_bind, wp_act_shows, world, Prog.wp_ret, Prog.wp_ofExcept]
  exact ⟨trivial, fun i _ => ⟨fun rec _ => hok rec, fun text _ => hfail text⟩⟩

/-- Sending leaves the rows and what is shared. -/
theorem wp_gossip_shows {rec doc : Bytes} (hshow : ∀ r, s.db.row name = some r → MayShow s.shared name r) (h : Private s) :
    (gossip name rec doc).wp KP (fun _ s' => Private s' ∧ s'.db = s.db ∧ s'.shared = s.shared) (fun _ => Private) s := by
  simp only [gossip, act, Prog.call, Prog.wp_bind, wp_act_shows, world, Prog.wp_ret, Prog.wp_ofExcept]
  exact ⟨hshow, fun _ _ => ⟨fun _ _ => ⟨trivial, fun _ _ => ⟨h.of_db rfl rfl, trivial, trivial⟩⟩, fun _ _ => h⟩⟩

/-- What is published is not the liked one, and shared. -/
theorem wp_publish_shows (h : Private s)
    (hrow : ∀ r, s.db.row name = some r → r.is_mine = true → r.liked = false ∧ name ∈ s.shared) :
    (publish lib name).wp KP (fun _ => Private) (fun _ => Private) s := by
  simp only [publish, getRow, loadKey, act, Prog.call, Prog.wp_bind, wp_act_shows, world, Prog.wp_ret]
  refine ⟨trivial, fun i _ => ?_⟩
  split
  · exact h
  next r hsome =>
    obtain ⟨hr, hmine⟩ := Option.filter_eq_some_iff.1 hsome
    obtain ⟨hliked, hshared⟩ := hrow r hr hmine
    simp only [Prog.wp_bind, wp_act_shows, world, Prog.wp_ret]
    refine ⟨trivial, fun i _ => ?_⟩
    split
    · exact h
    rw [Prog.wp_bind]
    refine wp_sign_shows (fun rec => ?_) fun _ => h
    rw [Prog.wp_bind, Prog.wp_ofExcept]
    refine ⟨fun parsed _ => ?_, fun _ _ => h⟩
    simp only [upsertPublished, index, act, Prog.call, Prog.wp_bind, wp_act_shows, world, Prog.wp_ret]
    refine ⟨trivial, fun i _ => ⟨trivial, fun _ _ => ⟨trivial, fun _ _ => ⟨trivial, fun _ _ => ?_⟩⟩⟩⟩
    have hs := (h.insert name parsed (utf8 r.doc_json) (some (base64 rec)) (nextSeq r.seq) (recordEolSecs lib rec)
      i.now).update name (fun r => { r with published := true }) fun r' hr' hg =>
        ⟨fun hl => by
          rw [Db.row_put, if_pos rfl, hr, Option.some.injEq] at hr'
          rw [← hr'] at hl
          exact absurd (hl.symm.trans hliked) (by decide), hg.held, fun _ _ => hshared⟩
    refine Prog.wp_mono _ (wp_gossip_shows (fun r' hr' => ?_) (hs.of_db rfl rfl)) (fun _ _ hs => hs.1) fun _ _ hs => hs
    rw [Db.row_index, Db.row_unindex, Db.row_update, if_pos rfl, Db.row_put, if_pos rfl, hr, Option.map_some,
      Option.some.injEq] at hr'
    rw [← hr']
    exact ⟨hliked, fun _ => hshared⟩

/-! ### The user's commands -/

theorem wp_newBytes_shows {title : String} {tracks : List TrackRef} {Q : Bytes → Store → Prop}
    (h : ∀ bytes, Q bytes s) (hfail : ∀ text, R text s) : (newBytes lib title tracks).wp KP Q R s := by
  rw [newBytes, Prog.wp_bind, Prog.wp_ofExcept]
  exact ⟨fun _ _ => h _, fun text _ => hfail text⟩

theorem wp_update_shows {title : String} {tracks : List TrackRef} (h : Private s) :
    (update lib name title tracks).wp KP (fun _ => Private) (fun _ => Private) s := by
  simp only [update, getRow, act, Prog.call, Prog.wp_bind, wp_act_shows, world, Prog.wp_ret]
  refine ⟨trivial, fun i _ => ?_⟩
  split
  · exact h
  next r hsome =>
    obtain ⟨hr, hmine⟩ := Option.filter_eq_some_iff.1 hsome
    rw [Prog.wp_bind]
    refine wp_newBytes_shows (fun bytes => ?_) fun _ => h
    simp only [upsert, index, act, Prog.call, Prog.wp_bind, wp_act_shows, world, Prog.wp_ret]
    refine ⟨trivial, fun i _ => ⟨trivial, fun _ _ => ⟨trivial, fun _ _ => ?_⟩⟩⟩
    have hs := (h.insert name (newDoc title tracks) bytes r.record_b64 r.seq r.eol i.now)
    split
    next hpub =>
      refine wp_publish_shows (hs.of_db rfl rfl) fun r' hr' _ => ?_
      rw [Db.row_index, Db.row_unindex, Db.row_put, if_pos rfl, hr, Option.some.injEq] at hr'
      rw [← hr']
      exact ⟨(h name r hr).not_liked hpub, (h name r hr).published hmine hpub⟩
    next => exact hs.of_db rfl rfl

/-- A playlist that is made is not published. -/
theorem wp_create_shows {title : String} {tracks : List TrackRef} (h : Private s) :
    (create lib title tracks).wp KP
      (fun info s' => Private s' ∧ ∀ r, s'.db.row info.name = some r → r.is_mine = true ∧ r.published = false)
      (fun _ => Private) s := by
  simp only [create, createKey, act, Prog.call, Prog.wp_bind, wp_act_shows, Prog.wp_ret, Prog.wp_ofExcept]
  refine ⟨trivial, fun i hfresh => ?_⟩
  have hkeys := quiet_keeps .createKey i s trivial h
  have hnew (name : String) (hname : (world .createKey i s).1 = .ok name) : (world .createKey i s).2.db.row name = none := by
    simp only [world] at hname ⊢
    split at hname
    next n hn =>
      rw [Except.ok.injEq] at hname
      exact hname ▸ hfresh n hn
    next => cases hname
  generalize world .createKey i s = x at hkeys hnew ⊢
  obtain ⟨created, s'⟩ := x
  refine ⟨fun name hname => wp_newBytes_shows (fun bytes => ?_) fun _ => hkeys, fun _ _ => hkeys⟩
  have hrow : s'.db.row name = none := hnew name hname
  simp only [upsertMine, index, getRow, act, Prog.call, Prog.wp_bind, wp_act_shows, world, Prog.wp_ret]
  refine ⟨trivial, fun i _ => ⟨trivial, fun _ _ => ⟨trivial, fun _ _ => ⟨trivial, fun _ _ => ⟨trivial, fun _ _ => ?_⟩⟩⟩⟩⟩
  have hs := (hkeys.insert name (newDoc title tracks) bytes none 0 0 i.now).update name
    (fun r => { r with is_mine := true, key_name := (some name).or r.key_name }) fun r hr hg => by
      rw [Db.row_put, if_pos rfl, hrow, Option.some.injEq] at hr
      exact ⟨fun hl => ⟨rfl, (hg.liked hl).2⟩, fun _ => by rw [← hr]; rfl, fun _ hp => by rw [← hr] at hp; cases hp⟩
  replace hs := hs.indexed name (newDoc title tracks)
  split
  · exact hs
  next r hr =>
    simp only [nowSecs, act, Prog.call, Prog.wp_bind, wp_act_shows, world, Prog.wp_ret, Prog.wp_ofExcept]
    refine ⟨trivial, fun i' _ => ⟨fun info hinfo => ⟨hs, fun r' hr' => ?_⟩, fun _ _ => hs⟩⟩
    have hname : info.name = name := by
      rw [metaOf] at hinfo
      split at hinfo
      · cases hinfo
      · cases hinfo
        rfl
    rw [hname, Db.row_index, Db.row_unindex, Db.row_update, if_pos rfl, Db.row_put, if_pos rfl, hrow, Option.map_some,
      Option.some.injEq] at hr'
    rw [← hr']
    exact ⟨rfl, rfl⟩

theorem wp_likedRow_shows (h : Private s) : (likedRow lib).wp KP (fun _ => Private) (fun _ => Private) s := by
  simp only [likedRow, list, act, Prog.call, Prog.wp_bind, wp_act_shows, world, Prog.wp_ret]
  refine ⟨trivial, fun _ _ => ?_⟩
  split
  · exact h
  rw [Prog.wp_bind]
  refine Prog.wp_mono _ (wp_create_shows h) (fun info s' hs => ?_) fun _ _ hs => hs
  simp only [getRow, act, Prog.call, Prog.wp_bind, wp_act_shows, world, Prog.wp_ret]
  refine ⟨trivial, fun _ _ => ⟨trivial, fun _ _ => ?_⟩⟩
  have hs' := hs.1.update info.name (fun r => { r with liked := true }) fun r hr hg =>
    ⟨fun _ => hs.2 r hr, hg.held, hg.published⟩
  split
  · exact hs'
  · exact hs'

theorem wp_likeToggle_shows {track : TrackRef} (h : Private s) :
    (likeToggle lib track).wp KP (fun _ => Private) (fun _ => Private) s := by
  rw [likeToggle, Prog.wp_bind]
  refine Prog.wp_mono _ (wp_likedRow_shows h) (fun x s' hs => ?_) fun _ _ hs => hs
  rw [Prog.wp_bind, Prog.wp_ofExcept]
  refine ⟨fun doc _ => ?_, fun _ _ => hs⟩
  dsimp only
  split
  · rw [Prog.wp_bind]
    exact wp_update_shows hs
  · rw [Prog.wp_bind]
    exact wp_update_shows hs

/-- Only a playlist that is shared gets a tombstone. -/
theorem wp_tombstone_shows (h : Private s) :
    (tombstone lib name).wp KP (fun _ => Private) (fun _ => Private) s := by
  simp only [tombstone, getRow, loadKey, act, Prog.call, Prog.wp_bind, wp_act_shows, world, Prog.wp_ret]
  refine ⟨trivial, fun i _ => ?_⟩
  split
  · exact h
  next row hsome =>
    obtain ⟨hr, hown⟩ := Option.filter_eq_some_iff.1 hsome
    obtain ⟨hmine, hpub⟩ := Bool.and_eq_true_iff.1 hown
    have hg := h name row hr
    simp only [Prog.wp_bind, wp_act_shows, world, Prog.wp_ret]
    refine ⟨trivial, fun i _ => ?_⟩
    split
    · exact h
    rw [Prog.wp_bind]
    refine wp_sign_shows (fun rec => ?_) fun _ => h
    rw [Prog.wp_bind]
    refine Prog.wp_mono _ (wp_gossip_shows (fun r hr' => ?_) h) (fun _ s' hs => ?_) fun _ _ hs => hs
    · obtain rfl := Option.some.inj (hr.symm.trans hr')
      exact ⟨hg.not_liked hpub, fun _ => hg.published hmine hpub⟩
    · exact wp_quiet (p := act _) ⟨trivial, fun _ => trivial⟩ hs.1

/-- What is shared no more has no published row. -/
theorem Private.unshare (h : Private s) (hrow : ∀ r, s.db.row name = some r → r.is_mine = true → r.published = false) :
    Private { s with shared := s.shared.filter (· != name) } := by
  intro n r hr
  refine ⟨(h n r hr).liked, (h n r hr).held, fun hmine hpub => ?_⟩
  refine List.mem_filter.2 ⟨(h n r hr).published hmine hpub, ?_⟩
  have hne : n ≠ name := by
    rintro rfl
    rw [hrow r hr hmine] at hpub
    cases hpub
  simpa using hne

theorem wp_unpublish_shows (h : Private s) :
    (Op.prog lib (.unpublish name)).wp KP (fun _ => Private) (fun _ => Private) s := by
  simp only [Op.prog, unpublish, Prog.wp_bind]
  refine Prog.wp_mono _ (wp_tombstone_shows h) (fun _ s' hs => ?_) fun _ _ hs => hs
  simp only [act, Prog.call, wp_act_shows, world, Prog.wp_ret]
  refine ⟨trivial, fun _ _ => ⟨trivial, fun _ _ => ?_⟩⟩
  have hs' := quiet_keeps (.setPublished name false) {} s' trivial hs
  refine Private.unshare (s := { s' with db := s'.db.update name fun r => { r with published := false } }) hs' fun r hr _ => ?_
  rw [Db.row_update, if_pos rfl] at hr
  obtain ⟨r', -, rfl⟩ := Option.map_eq_some_iff.1 hr
  rfl

theorem wp_remove_shows (h : Private s) :
    (remove lib name).wp KP (fun _ s' => Private s' ∧ s'.db.row name = none) (fun _ => Private) s := by
  have hgone {s : Store} (hs : Private s) : (do removeRow name; act (.deleteKey name) : Web Unit).wp KP
      (fun _ s' => Private s' ∧ s'.db.row name = none) (fun _ => Private) s := by
    simp only [removeRow, act, Prog.call, Prog.wp_bind, wp_act_shows, world, Prog.wp_ret]
    refine ⟨trivial, fun _ _ => ⟨trivial, fun _ _ => ⟨trivial, fun _ _ => ⟨(hs.erase name).of_db rfl rfl, ?_⟩⟩⟩⟩
    rw [Db.row_unindex, Db.row_erase, if_pos rfl]
  simp only [remove, getRow, act, Prog.call, Prog.wp_bind, wp_act_shows, world, Prog.wp_ret]
  refine ⟨trivial, fun i _ => ?_⟩
  split
  · rw [Prog.wp_bind, Prog.wp_attempt]
    exact Prog.wp_mono _ (wp_tombstone_shows h) (fun _ _ hs => hgone hs) fun _ _ hs => hgone hs
  · exact hgone h

/-! ### The loops -/

theorem wp_regossip_shows {record docJson : String} (h : Private s)
    (hshow : ∀ r, s.db.row name = some r → MayShow s.shared name r) :
    (regossip name record docJson).wp KP (fun _ s' => Private s' ∧ s'.db = s.db ∧ s'.shared = s.shared)
      (fun _ => Private) s := by
  rw [regossip]
  split
  · exact h
  · exact wp_gossip_shows hshow h

/-- A row is announced if it may be shown; the other rows stay as they are. -/
theorem wp_announceRow_shows {now : Int} (h : Private s) (hrow : s.db.row name = some r) :
    (announceRow lib now name r).wp KP
      (fun _ s' => Private s' ∧ ∀ n, n ≠ name → s'.db.row n = s.db.row n) (fun _ => Private) s := by
  have hg := h name r hrow
  have hregossip {record : String} (hd : disclosed r = true) :
      (regossip name record r.doc_json).wp KP
        (fun _ s' => Private s' ∧ ∀ n, n ≠ name → s'.db.row n = s.db.row n) (fun _ => Private) s := by
    refine Prog.wp_mono _ (wp_regossip_shows h fun r' hr' => ?_) (fun _ s' hs => ⟨hs.1, fun _ _ => by rw [hs.2.1]⟩)
      fun _ _ hs => hs
    exact Option.some.inj (hrow.symm.trans hr') ▸ hg.mayShow hd
  rw [announceRow]
  split
  · exact ⟨h, fun _ _ => rfl⟩
  split
  · exact ⟨h, fun _ _ => rfl⟩
  next htomb =>
    replace htomb : r.tombstoned = false := by simpa using htomb
    simp only [loadKey, act, Prog.call, Prog.wp_bind, wp_act_shows, world, Prog.wp_ret]
    refine ⟨trivial, fun _ _ => ?_⟩
    split
    · exact ⟨h, fun _ _ => rfl⟩
    split
    next hown =>
      have hd : disclosed r = true := by simp [disclosed, htomb, hown]
      simp only [Prog.wp_bind, wp_act_shows, world, Prog.wp_ret]
      refine ⟨trivial, fun _ _ => ?_⟩
      split
      · exact ⟨h, fun _ _ => rfl⟩
      split
      · rw [Prog.wp_bind]
        refine wp_sign_shows (fun rec => ?_) fun _ => h
        simp only [gossip, act, Prog.call, Prog.wp_bind, wp_act_shows, world, Prog.wp_ret, Prog.wp_ofExcept]
        have hs := h.update name (fun old => { old with
          seq := nextSeq r.seq, record_b64 := some (base64 rec), eol := recordEolSecs lib rec })
            fun _ _ hr => ⟨hr.liked, hr.held, hr.published⟩
        refine ⟨trivial, fun i _ => ⟨fun r' hr' => ?_, fun _ _ => ⟨fun _ _ => ⟨trivial, fun _ _ => ⟨hs.of_db rfl rfl, ?_⟩⟩,
          fun _ _ => hs⟩⟩⟩
        · rw [Db.row_update, if_pos rfl, hrow, Option.map_some, Option.some.injEq] at hr'
          rw [← hr']
          exact hg.mayShow hd
        · intro n hn
          rw [Db.row_update, if_neg hn]
      · split
        · exact hregossip hd
        · exact ⟨h, fun _ _ => rfl⟩
    next =>
      split
      · split
        next hheld => exact hregossip (by simp [disclosed, htomb, hheld])
        next => exact ⟨h, fun _ _ => rfl⟩
      · exact ⟨h, fun _ _ => rfl⟩

theorem wp_announceRows_shows {now : Int} {xs : List (String × Row)} (hnodup : (xs.map Prod.fst).Nodup) (h : Private s)
    (hrows : ∀ x ∈ xs, s.db.row x.1 = some x.2) :
    (xs.foldlM (fun _ x => announceRow lib now x.1 x.2) ()).wp KP (fun _ => Private) (fun _ => Private) s := by
  induction xs generalizing s with
  | nil => exact h
  | cons x xs ih =>
    obtain ⟨hx, hnodup⟩ := List.nodup_cons.1 hnodup
    obtain ⟨hrow, hrows⟩ := List.forall_mem_cons.1 hrows
    rw [List.foldlM_cons, Prog.wp_bind]
    refine Prog.wp_mono _ (wp_announceRow_shows h hrow) (fun _ s' hs => ih hnodup hs.1 fun y hy => ?_) fun _ _ hs => hs
    have hne : y.1 ≠ x.1 := fun heq => hx (heq ▸ List.mem_map_of_mem hy)
    rw [hs.2 y.1 hne]
    exact hrows y hy

theorem wp_announceOnce_shows (h : Private s) :
    (announceOnce lib).wp KP (fun _ => Private) (fun _ => Private) s := by
  simp only [announceOnce, nowSecs, list, act, Prog.call, Prog.wp_bind, wp_act_shows, world, Prog.wp_ret]
  refine ⟨trivial, fun i _ => ⟨trivial, fun _ _ => ?_⟩⟩
  exact wp_announceRows_shows (nodup_listRows s.db) h fun x hx => mem_listRows.1 hx

/-- What `disclosureRows` returns may be shown. -/
theorem Private.disclosure (h : Private s) : ∀ x ∈ (listRows s.db).filter fun x => disclosed x.2,
    s.db.row x.1 = some x.2 ∧ MayShow s.shared x.1 x.2 := by
  intro x hx
  obtain ⟨hmem, hd⟩ := List.mem_filter.1 hx
  have hrow := mem_listRows.1 hmem
  exact ⟨hrow, (h x.1 x.2 hrow).mayShow hd⟩

theorem wp_beaconOnce_shows (h : Private s) : beaconOnce.wp KP (fun _ => Private) (fun _ => Private) s := by
  simp only [beaconOnce, disclosureRows, list, act, Prog.call, Prog.wp_bind, wp_act_shows, world, Prog.wp_ret]
  refine ⟨trivial, fun _ _ => ?_⟩
  rw [Prog.wp_pure]
  split
  · exact h
  · refine ⟨fun n hn r hr => ?_, fun _ _ => ?_⟩
    · obtain ⟨x, hx, rfl⟩ := List.mem_map.1 hn
      obtain ⟨hrow, hshow⟩ := h.disclosure x hx
      exact Option.some.inj (hrow.symm.trans hr) ▸ hshow
    · rintro ⟨i, -, heq⟩
      cases heq
      exact h

theorem wp_handlePlaylistList_shows {peer : String} (h : Private s) :
    (handlePlaylistList peer).wp KP (fun _ => Private) (fun _ => Private) s := by
  simp only [handlePlaylistList, act, Prog.call, Prog.wp_bind, wp_act_shows, world, Prog.wp_ret]
  refine ⟨trivial, fun _ _ => ?_⟩
  split
  · exact h
  rw [Prog.wp_bind, Prog.wp_attempt]
  simp only [serveList, disclosureRows, list, act, Prog.call, Prog.wp_bind, wp_act_shows, world, Prog.wp_ret,
    Prog.wp_ofExcept]
  refine ⟨trivial, fun _ _ => ⟨fun want _ => ⟨trivial, fun _ _ => ?_⟩, fun _ _ => h⟩⟩
  rw [Prog.wp_pure]
  have hloop : (want.foldlM (reannounce ((listRows s.db).filter fun x => disclosed x.2)) 0).wp KP
      (fun _ s' => Private s' ∧ s'.db = s.db ∧ s'.shared = s.shared) (fun _ => Private) s := by
    refine Prog.wp_foldlM (fun _ s' => Private s' ∧ s'.db = s.db ∧ s'.shared = s.shared) ?_ ⟨h, rfl, rfl⟩
    rintro n - c s' ⟨hs, hdb, hshared⟩
    rw [reannounce]
    split
    · exact ⟨hs, hdb, hshared⟩
    next x hfind =>
      have hname : x.1 = n := by simpa using List.find?_some hfind
      obtain ⟨hrow, hshow⟩ := h.disclosure x (List.mem_of_find?_eq_some hfind)
      split
      · exact ⟨hs, hdb, hshared⟩
      simp only [act, Prog.call, Prog.wp_bind, wp_act_shows, world, Prog.wp_ret]
      refine ⟨trivial, fun _ _ => ?_⟩
      split
      · exact ⟨hs, hdb, hshared⟩
      rw [Prog.wp_bind]
      refine Prog.wp_mono _ (wp_regossip_shows hs fun r hr => ?_) (fun _ s'' hs'' => ⟨hs''.1, hs''.2.1.trans hdb,
        hs''.2.2.trans hshared⟩) fun _ _ hs => hs
      rw [hdb, ← hname, hrow, Option.some.injEq] at hr
      rw [hshared, ← hname, ← hr]
      exact hshow
  refine Prog.wp_mono _ hloop (fun n s' hs => ⟨fun x hx => ?_, fun _ _ => ⟨fun _ _ => hs.1, fun _ _ => hs.1⟩⟩) fun _ _ hs => hs
  rw [hs.2.2]
  exact (h.disclosure x (List.mem_of_mem_take hx)).2

/-! ### Ingest -/

theorem quiet_ingestMessage {rec doc : Bytes} : (ingestMessage lib name rec doc).Only Quiet := by
  refine .bind ⟨trivial, fun _ => trivial⟩ fun now => .bind (.ofExcept _) fun seq => ?_
  refine .bind ⟨trivial, fun _ => trivial⟩ fun existing => ?_
  split
  · trivial
  refine .bind (.ofExcept _) fun parsed => .bind (.bind ⟨trivial, fun _ => trivial⟩ fun _ => quiet_index) fun _ => ?_
  refine .bind ⟨trivial, fun _ => trivial⟩ fun _ => .bind ⟨trivial, fun _ => trivial⟩ fun _ => ?_
  exact only_enforceBudget trivial (fun _ => trivial) fun _ => trivial

theorem quiet_ingestLink {url : String} : (ingestLink lib url).Only Quiet := by
  refine .bind (.ofExcept _) fun x => ?_
  obtain ⟨name, envelope⟩ := x
  cases envelope with
  | none => exact .bind ⟨trivial, fun _ => trivial⟩ fun _ => trivial
  | some env =>
    refine .bind (.ofExcept _) fun y => ?_
    obtain ⟨n, record, doc⟩ := y
    dsimp only
    split
    · trivial
    · exact quiet_ingestMessage.bind fun _ => trivial

/-! ### Runs -/

theorem op_private {o : Op} {ω : Nat → Input} (h : Private s) (hl : Discreet lib s o ω) :
    Private ((Op.prog lib o).run world ω s).2 ∧ (Op.prog lib o).Fits world (fun e _ s => Shows e s) ω s := by
  refine Prog.run_asking_invariant hl.1 ?_
  have hguard := hl.2
  cases o with
  | create title tracks =>
    rw [Op.prog, Prog.wp_bind]
    exact Prog.wp_mono _ (wp_create_shows h) (fun _ _ hs => hs.1) fun _ _ hs => hs
  | update name title tracks => exact wp_update_shows h
  | publish name =>
    simp only [Op.prog, act, Prog.call, Prog.wp_bind, wp_act_shows, world, Prog.wp_ret]
    refine ⟨trivial, fun _ _ => wp_publish_shows ?_ fun r hr _ => ⟨hguard r hr, List.mem_cons_self⟩⟩
    exact quiet_keeps (.share name) {} s trivial h
  | unpublish name => exact wp_unpublish_shows h
  | remove name =>
    rw [Op.prog, Prog.wp_bind]
    exact Prog.wp_mono _ (wp_remove_shows h) (fun _ s' hs => ⟨trivial, by
      rintro _ _ ⟨i, -, heq⟩
      cases heq
      exact hs.1.unshare fun r hr => by rw [hs.2] at hr; cases hr⟩) fun _ _ hs => hs
  | hold name held =>
    refine ⟨trivial, ?_⟩
    rintro _ _ ⟨i, -, heq⟩
    cases heq
    refine h.update name _ fun r hr hg => ⟨hg.liked, fun hmine => ?_, hg.published⟩
    cases held with
    | false => rfl
    | true => exact absurd (hmine.symm.trans (hguard rfl r hr)) (by decide)
  | played name => exact wp_quiet ⟨trivial, fun _ => trivial⟩ h
  | likedRow =>
    rw [Op.prog, Prog.wp_bind]
    exact Prog.wp_mono _ (wp_likedRow_shows h) (fun _ _ hs => hs) fun _ _ hs => hs
  | likeToggle track =>
    rw [Op.prog, Prog.wp_bind]
    exact Prog.wp_mono _ (wp_likeToggle_shows h) (fun _ _ hs => hs) fun _ _ hs => hs
  | copyLink name => exact wp_quiet ((only_copyLink trivial).bind fun _ => trivial) h
  | ingestWire bytes => exact wp_quiet (.bind (.ofExcept _) fun _ => quiet_ingestMessage) h
  | ingestLink url => exact wp_quiet (quiet_ingestLink.bind fun _ => trivial) h
  | announceOnce => exact wp_announceOnce_shows h
  | beaconOnce => exact wp_beaconOnce_shows h
  | handlePlaylistList peer => exact wp_handlePlaylistList_shows h

/-- A history without the unguarded operations: what `disclosureRows` returns may be shown, and so may all that was
gossiped, beaconed or disclosed. -/
theorem private_runs {s₀ : Store} (hdb : s₀.db = .empty) {ops : List (Op × (Nat → Input))}
    (h : Prog.Along (Op.prog lib) world (Discreet lib) s₀ ops) :
    (∀ x ∈ (listRows (Prog.runs (Op.prog lib) world s₀ ops).db).filter fun x => disclosed x.2,
      MayShow (Prog.runs (Op.prog lib) world s₀ ops).shared x.1 x.2) ∧
    Prog.Along (Op.prog lib) world (fun s o ω => (Op.prog lib o).Fits world (fun e _ s => Shows e s) ω s) s₀ ops := by
  have h₀ : Private s₀ := by
    rw [Private, hdb]
    exact .empty
  obtain ⟨hs, hshown⟩ := Prog.runs_asking (I := Private) (P := Shows) (Op.prog lib) (fun _ _ _ hs hl => op_private hs hl) h₀ h
  exact ⟨fun x hx => (hs.disclosure x hx).2, hshown⟩

/-! ### The liked playlist -/

section
open Playlists (ownName)

/-- The document of the fresh liked playlist. -/
def likedLib : WebLib :=
  { Playlists.sample.lib.toIpnsLib with
    parse := fun text =>
      if text = "\x7b\"v\":2,\"t\":\"Liked Tracks\"\x7d" then .ok { v := some 2, t := .text LIKED_TITLE }
      else .error "Unexpected token"
    stringify := fun _ => "\x7b\"v\":2,\"t\":\"Liked Tracks\"\x7d" }

def noStore : Store := { db := .empty }

def makingKey : Input := { createKey := .ok ownName }

/-- The liked playlist is made. -/
def liked : List (Op × (Nat → Input)) := [(.likedRow, fun _ => makingKey)]

/-- It is held. -/
def likedHeld : List (Op × (Nat → Input)) := liked ++ [(.hold ownName true, fun _ => makingKey)]

/-- What is held is disclosed, the liked playlist too. -/
theorem liked_disclosed :
    ¬∀ x ∈ (listRows (Prog.runs (Op.prog likedLib) world noStore likedHeld).db).filter fun x => disclosed x.2,
      MayShow (Prog.runs (Op.prog likedLib) world noStore likedHeld).shared x.1 x.2 := by
  intro h
  have hrow : ((Prog.runs (Op.prog likedLib) world noStore likedHeld).db.row ownName).any
      (fun r => disclosed r ∧ r.liked = true) = true := by
    decide +kernel
  obtain ⟨r, hr, hrow⟩ := (Option.any_eq_true ..).1 hrow
  obtain ⟨hd, hl⟩ := of_decide_eq_true hrow
  have := (h (ownName, r) (List.mem_filter.2 ⟨mem_listRows.2 hr, hd⟩)).1
  exact absurd (hl.symm.trans this) (by decide)

theorem discreet_liked : Discreet likedLib noStore .likedRow fun _ => makingKey := by
  have hrows : listRows noStore.db = [] := List.mergeSort_nil
  refine ⟨?_, trivial⟩
  simp only [Op.prog, likedRow, create, createKey, list, act, Prog.call, Prog.act_bind, Prog.ret_bind, Prog.Fits, world, hrows,
    List.find?_nil]
  refine ⟨trivial, fun _ _ => Db.row_empty, Prog.Only.fits (P := fun e => e ≠ .createKey) ?_ ?_⟩
  · refine .bind (.bind (.bind (.ofExcept _) fun name => ?_) fun info => ?_) fun _ => trivial
    · refine .bind (.bind (.ofExcept _) fun _ => trivial) fun bytes => ?_
      refine .bind (.bind ⟨by rintro ⟨⟩, fun _ => trivial⟩ fun _ => ?_) fun _ => ?_
      · exact .bind ⟨by rintro ⟨⟩, fun _ => trivial⟩ fun _ => only_index (by rintro ⟨⟩) fun _ => by rintro ⟨⟩
      · refine .bind ⟨by rintro ⟨⟩, fun _ => trivial⟩ fun row => ?_
        cases row with
        | none => trivial
        | some r => exact .bind ⟨by rintro ⟨⟩, fun _ => trivial⟩ fun _ => .ofExcept _
    · refine ⟨by rintro ⟨⟩, fun _ => .bind ⟨by rintro ⟨⟩, fun _ => trivial⟩ fun row => ?_⟩
      cases row <;> trivial
  · intro e i s he
    cases e with
    | createKey => exact absurd rfl he
    | _ => trivial

/-- As long as it is not held or published it is not. -/
theorem private_liked :
    (∀ x ∈ (listRows (Prog.runs (Op.prog likedLib) world noStore liked).db).filter fun x => disclosed x.2,
      MayShow (Prog.runs (Op.prog likedLib) world noStore liked).shared x.1 x.2) ∧
    Prog.Along (Op.prog likedLib) world (fun s o ω => (Op.prog likedLib o).Fits world (fun e _ s => Shows e s) ω s) noStore
      liked := by
  have hlawful : Prog.Along (Op.prog likedLib) world (Discreet likedLib) noStore liked := ⟨discreet_liked, trivial⟩
  exact private_runs rfl hlawful

end

end TrackerStream.WebPlaylists
