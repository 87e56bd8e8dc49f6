import TrackerStream.Proofs.Dormant
import TrackerStream.Proofs.Evictions

/-!
# Sharing a playlist

What a playlist that is shared has to have: it is published, not deleted, has a record for its document, is in the
disclosure set and in what is announced, and has a link. `publish` sets all of these but one, that the row may be marked
as deleted; and the disclosure set ends after 1024 names.
-/

namespace TrackerStream.Playlists
open Prog

/-! ### The first of a sorted list -/

section
variable {α β : Type} [LinearOrder β] {f : α → β} {l : List α} {x : α} {k : Nat}

/-- The first `k` of a list in order are those with less than `k` before them. -/
theorem mem_take_of_pairwise (hle : l.Pairwise fun a b => f a ≤ f b) (hnodup : (l.map f).Nodup) :
    x ∈ l.take k ↔ x ∈ l ∧ (l.filter fun a => decide (f a < f x)).length < k := by
  induction l generalizing k with
  | nil => simp
  | cons a l ih =>
    obtain ⟨ha, hle⟩ := List.pairwise_cons.1 hle
    rw [List.map_cons, List.nodup_cons] at hnodup
    obtain ⟨hnew, hnodup⟩ := hnodup
    cases k with
    | zero => simp
    | succ k =>
      rw [List.take_succ_cons, List.mem_cons, List.mem_cons, ih hle hnodup]
      by_cases heq : x = a
      · subst heq
        have hnone : ((x :: l).filter fun b => decide (f b < f x)) = [] := by
          rw [List.filter_eq_nil_iff]
          intro b hb
          rw [decide_eq_true_eq, not_lt]
          rcases List.mem_cons.1 hb with rfl | hb
          · exact le_rfl
          · exact ha b hb
        simp [hnone]
      · simp only [heq, false_or]
        refine and_congr_right fun hx => ?_
        have hlt : f a < f x := lt_of_le_of_ne (ha x hx) fun h => hnew (h ▸ List.mem_map_of_mem hx)
        rw [List.filter_cons_of_pos (p := fun b => decide (f b < f x)) (decide_eq_true hlt), List.length_cons,
          Nat.add_lt_add_iff_right]

end

/-! ### What is shared -/

variable (lib : Lib)

/-- The playlist of the name is shared, as far as can be seen at `now`. -/
structure Shared (s : Store) (name : String) (now : Int) : Prop where
  published : ∃ r, s.db.row name = some r ∧ r.is_mine = true ∧ r.published = true ∧ r.tombstoned = false
  /-- The row has a record of its document. -/
  record : ∃ r record cid seq, s.db.row name = some r ∧ r.record_b64 = some record ∧
    verify_b64_seq lib.toIpnsLib now name record = .ok (cid, seq) ∧
      doc_matches_cid lib.toIpnsLib cid (utf8 r.doc_json) = true
  listed : ∃ e ∈ manifestRows s.db, e.name = name
  /-- It is one of the own rows `announce_once` sends, or signs again. -/
  renewed : ∃ row ∈ libraryRows s.db, row.name = name ∧ row.is_mine = true
  linked : ∃ url, ((copy_link lib name).run (world lib) (fun _ => { now }) s).1 = .ok url

/-- A record the node answers with is one of the key's name and the document, which passes at `now`. -/
def Honest (now : Int) : Act → Input → Store → Prop
  | .playlist_publish _ _ doc, i, _ => ∀ name record, i.publish = .answered name record →
      ∃ cid seq, verify_b64_seq lib.toIpnsLib now name record = .ok (cid, seq) ∧
        doc_matches_cid lib.toIpnsLib cid doc = true
  | _, _, _ => True

/-- The disclosed rows before the name. -/
def before (db : Db) (name : String) : List (String × Row) :=
  db.rows.filter fun x => x.2.disclosed && decide (x.1 < name)

variable {lib} {s : Store} {name : String} {now : Int}

/-- The row `publish` leaves. -/
def publishedRow (r : Row) (record : String) (seq updated eol : Int) : Row :=
  { r with seq, published := true, record_b64 := some record, last_update_at := updated, eol }

theorem wp_publish_honest : (publish lib name).wp (ofWorld (world lib) (Honest lib now))
    (fun _ s' => ∃ r record cid q seq updated eol, s.db.row name = some r ∧ r.is_mine = true ∧
      verify_b64_seq lib.toIpnsLib now name record = .ok (cid, q) ∧
      doc_matches_cid lib.toIpnsLib cid (utf8 r.doc_json) = true ∧
      s'.db = s.db.update name fun r => publishedRow r record seq updated eol)
    (fun _ _ => True) s := by
  simp only [publish, select, act, call, wp_bind, wp_act_world, world, wp_ret]
  intro i _
  split
  · trivial
  next r hrow =>
  obtain ⟨hrow, hmine⟩ := Option.filter_eq_some_iff.1 hrow
  split
  · trivial
  split
  · trivial
  next key hkey =>
  rw [publish_row, wp_bind]
  have hseq : (next_seq lib name r.seq).wp (ofWorld (world lib) (Honest lib now)) (fun _ s' => s' = s)
      (fun _ s' => s' = s) s :=
    reads_next_seq.wp (fun e i s' he _ hs => (world_of_reads he i s').trans hs) rfl
  refine wp_mono _ hseq ?_ fun _ _ _ => trivial
  rintro seq _ rfl
  simp only [playlist_publish, act, call, wp_bind, wp_act_world, world, wp_ret, wp_ofExcept]
  intro i hhonest
  split
  next text hpub => exact ⟨by rintro _ ⟨⟩, fun _ _ => trivial⟩
  next text hpub => exact ⟨by rintro _ ⟨⟩, fun _ _ => trivial⟩
  next pub record hpub =>
  refine ⟨?_, fun _ _ => trivial⟩
  rintro _ ⟨⟩
  dsimp only
  split
  · trivial
  next hname =>
  obtain rfl : pub = name := by simpa using hname
  obtain ⟨cid, q, hverify, hcid⟩ := hhonest pub record hpub
  rw [wp_act_world]
  exact fun i _ => ⟨r, record, cid, q, _, _, _, hrow, hmine, hverify, hcid, rfl⟩

/-! ### What is disclosed -/

theorem listed_iff {db : Db} : (∃ e ∈ manifestRows db, e.name = name) ↔
    (∃ r, db.row name = some r ∧ r.disclosed = true) ∧ (before db name).length < 1024 := by
  have hnames : ((db.rows.filter (·.2.disclosed)).map Prod.fst).Nodup := by
    have h : (db.rows.map Prod.fst).Nodup := by
      rw [Db.rows, List.map_map]
      exact db.playlists.nodupKeys
    exact h.sublist (List.filter_sublist.map _)
  have hperm := List.mergeSort_perm (db.rows.filter (·.2.disclosed)) fun x y => decide (x.1 ≤ y.1)
  have hpair : ((db.rows.filter (·.2.disclosed)).mergeSort fun x y => decide (x.1 ≤ y.1)).Pairwise
      fun x y => x.1 ≤ y.1 := by
    refine (List.pairwise_mergeSort ?_ ?_ _).imp fun h => of_decide_eq_true h
    · intro a b c hab hbc
      exact decide_eq_true (le_trans (of_decide_eq_true hab) (of_decide_eq_true hbc))
    · intro a b
      simpa using le_total a.1 b.1
  have hmem (r : Row) :
      (name, r) ∈ ((db.rows.filter (·.2.disclosed)).mergeSort fun x y => decide (x.1 ≤ y.1)).take 1024 ↔
        (db.row name = some r ∧ r.disclosed = true) ∧ (before db name).length < 1024 := by
    rw [mem_take_of_pairwise hpair ((hperm.map _).nodup_iff.2 hnames), hperm.mem_iff, List.mem_filter, Db.mem_rows,
      (hperm.filter _).length_eq, List.filter_filter, before]
    simp only [Bool.and_comm]
  constructor
  · rintro ⟨e, he, rfl⟩
    obtain ⟨⟨n, r⟩, hx, rfl⟩ := List.mem_map.1 he
    obtain ⟨hr, hlt⟩ := (hmem r).1 hx
    exact ⟨⟨r, hr⟩, hlt⟩
  · rintro ⟨⟨r, hr⟩, hlt⟩
    exact ⟨_, List.mem_map_of_mem ((hmem r).2 ⟨hr, hlt⟩), rfl⟩

theorem length_before_update {db : Db} {f : Row → Row} :
    (before (db.update name f) name).length = (before db name).length := by
  have hnodup (db : Db) : (before db name).Nodup := (nodup_rows db).filter _
  refine ((List.perm_ext_iff_of_nodup (hnodup _) (hnodup _)).2 ?_).length_eq
  rintro ⟨n, r⟩
  simp only [before, List.mem_filter, Db.mem_rows, Db.row_update, Bool.and_eq_true, decide_eq_true_eq]
  refine ⟨?_, ?_⟩
  · rintro ⟨hr, hd, hlt⟩
    rw [if_neg hlt.ne] at hr
    exact ⟨hr, hd, hlt⟩
  · rintro ⟨hr, hd, hlt⟩
    rw [if_neg hlt.ne]
    exact ⟨hr, hd, hlt⟩

/-! ### Once it is published -/

variable {s' : Store} {r : Row} {record : String} {cid : ContentId} {q : UInt64} {seq updated eol : Int}

/-- The link of a live row whose record passes. -/
theorem linked_of_row (hrow : s.db.row name = some r) (hlive : r.tombstoned = false)
    (hrecord : r.record_b64 = some record)
    (hverify : verify_b64_seq lib.toIpnsLib now name record = .ok (cid, q)) :
    ∃ url, ((copy_link lib name).run (world lib) (fun _ => { now }) s).1 = .ok url := by
  have hlink : ∃ url, build_link name record r.doc_json = .ok url := by
    rw [build_link]
    cases hbytes : unbase64 (trim record) with
    | none =>
      rw [verify_b64_seq, hbytes] at hverify
      cases hverify
    | some bytes =>
      dsimp only
      split
      · exact ⟨_, rfl⟩
      · exact ⟨_, rfl⟩
  obtain ⟨url, hurl⟩ := hlink
  refine ⟨url, ?_⟩
  simp only [copy_link, select, now_secs, act, call, act_bind, ret_bind, run_act, world, hrow, hlive, hrecord, hverify,
    hurl, Bool.false_eq_true, if_false]
  rfl

theorem shared_iff_update (hrow : s.db.row name = some r) (hmine : r.is_mine = true)
    (hverify : verify_b64_seq lib.toIpnsLib now name record = .ok (cid, q))
    (hcid : doc_matches_cid lib.toIpnsLib cid (utf8 r.doc_json) = true)
    (hdb : s'.db = s.db.update name fun r => publishedRow r record seq updated eol) :
    Shared lib s' name now ↔ r.tombstoned = false ∧ (before s.db name).length < 1024 := by
  have hrow' : s'.db.row name = some (publishedRow r record seq updated eol) := by
    rw [hdb, Db.row_update, if_pos rfl, hrow]
    rfl
  constructor
  · intro h
    obtain ⟨r', hr', -, -, hlive⟩ := h.published
    cases hrow'.symm.trans hr'
    refine ⟨hlive, ?_⟩
    have := (listed_iff.1 h.listed).2
    rwa [hdb, length_before_update] at this
  · rintro ⟨hlive, hlt⟩
    refine ⟨⟨_, hrow', hmine, rfl, hlive⟩, ⟨_, record, cid, q, hrow', rfl, hverify, hcid⟩, ?_, ?_, ?_⟩
    · refine listed_iff.2 ⟨⟨_, hrow', ?_⟩, ?_⟩
      · simp [Row.disclosed, publishedRow, hlive, hmine]
      · rwa [hdb, length_before_update]
    · refine ⟨⟨name, seq, record, r.doc_json, true⟩, List.mem_filterMap.2 ⟨_, Db.mem_rows.2 hrow', ?_⟩, rfl, rfl⟩
      simp [publishedRow, hmine]
    · exact linked_of_row hrow' hlive rfl hverify

/-- What `publish` has shared is shared exactly if its row was not marked as deleted, and less than 1024 disclosed rows
are before it. -/
theorem publish_shares (lib : Lib) (name : String) (now : Int) (ω : Nat → Input) (s : Store)
    (hhonest : (publish lib name).Fits (world lib) (Honest lib now) ω s)
    (hok : ((publish lib name).run (world lib) ω s).1 = .ok ()) :
    Shared lib ((publish lib name).run (world lib) ω s).2 name now ↔
      (∀ r, s.db.row name = some r → r.tombstoned = false) ∧ (before s.db name).length < 1024 := by
  obtain ⟨r, record, cid, q, seq, updated, eol, hrow, hmine, hverify, hcid, hdb⟩ :=
    (run_wp hhonest wp_publish_honest).1 () hok
  rw [shared_iff_update hrow hmine hverify hcid hdb]
  refine and_congr_left fun _ => ⟨?_, fun h => h r hrow⟩
  intro hlive r' hr'
  cases hrow.symm.trans hr'
  exact hlive

/-! ### A playlist shared for the first time -/

/-- An own playlist that was never shared. -/
def ownStore : Store :=
  { freshStore with
    db := .put .empty ownName { key_name := some ownKey, doc_json := "\x7b\"v\":2,\"t\":\"a\"\x7d", is_mine := true } }

theorem publish_shares_first : Shared deleted.lib ((publish deleted.lib ownName).run (world deleted.lib)
    (fun _ => answering) ownStore).2 ownName 1780000000 := by
  have hpub : answering.publish = .answered ownName (base64 recordA) := rfl
  have hrow : ownStore.db.row ownName =
      some { key_name := some ownKey, doc_json := "\x7b\"v\":2,\"t\":\"a\"\x7d", is_mine := true } := by decide
  refine (publish_shares deleted.lib ownName 1780000000 (fun _ => answering) ownStore ?_ ?_).2 ⟨?_, ?_⟩
  · refine fits_of_wp (Q := fun _ _ => True) (R := fun _ _ => True) ?_
    simp only [publish, publish_row, playlist_publish, next_seq, select, act, call, wp_bind, wp_act_withInput,
      wp_ofExcept, wp_ret, wp_pure, Honest, world, true_and, hrow, Option.filter_some, hpub, le_refl, if_true,
      Bool.false_eq_true, if_false]
    refine ⟨?_, ?_⟩
    · rintro _ _ ⟨⟩
      exact ⟨_, _, verify_live, checks_deleted.2.2.2.1⟩
    · refine ⟨?_, by rintro _ ⟨⟩⟩
      rintro _ ⟨⟩
      split
      · trivial
      · exact ⟨trivial, fun _ _ _ => trivial⟩
  · rfl
  · rintro r hr
    cases hrow.symm.trans hr
    rfl
  · decide

end TrackerStream.Playlists
