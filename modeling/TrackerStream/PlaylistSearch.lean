import TrackerStream.Playlists
import TrackerStream.SearchTerms
import TrackerStream.WebPlaylists

/-!
# Searching the playlists

`search` and `list` of both clients. A search joins the entries of the full-text index that a query matches with the rows
of their names, so that what it finds is as good as the index: `Db.Indexed` says that every row has one entry, which is
its own, and that a name without a row has none. SQLite's FTS5 is a library of the code, a parameter.
-/

namespace TrackerStream.Playlists

/-- SQLite's full-text index. -/
structure Fts where
  /-- The entries an expression matches, as they are ranked; an expression may be malformed. -/
  select : String → List FtsEntry → Except String (List FtsEntry)
  hit : String → FtsEntry → Bool
  perm_of_select : ∀ expr fts hits, select expr fts = .ok hits → hits.Perm (fts.filter (hit expr))

/-! ### The queries -/

/-- `JOIN playlists p ON p.name = f.name` -/
def joined (db : Db) (hits : List FtsEntry) : List (String × Row) :=
  hits.filterMap fun e => (db.row e.name).map fun r => (e.name, r)

def SEARCH_LIMIT : Nat := 200
def LIST_LIMIT : Nat := 500

/-- The rows of a match, the first of them. -/
def found (fts : Fts) (db : Db) (expr : String) : Except String (List (String × Row)) :=
  (fts.select expr db.fts).map fun hits => (joined db hits).take SEARCH_LIMIT

def split_whitespace (q : String) : List String :=
  ((q.toList.splitOnP isWhitespace).filter (!·.isEmpty)).map .ofList

/-- Each token a phrase, the last one a prefix. -/
def matchExpr (q : String) : String :=
  " ".intercalate ((split_whitespace q).map fun t => .ofList (Char.ofNat 0x22 :: t.toList.filter (·.toNat ≠ 0x22) ++
    [Char.ofNat 0x22])) ++ "*"

/-- Whether a row is in the scope of a list. -/
def inScope (scope : String) (r : Row) : Bool :=
  if scope = "library" then r.is_mine || r.held
  else if scope = "seen" then !r.is_mine && !r.held
  else true

/-- The order of `list`: mine, held, updated or played last. -/
def listOrder (a b : Row) : Bool :=
  if a.is_mine ≠ b.is_mine then a.is_mine
  else if a.held ≠ b.held then a.held
  else max b.last_update_at (b.last_played_at.getD 0) ≤ max a.last_update_at (a.last_played_at.getD 0)

def listRows (db : Db) (scope : String) : List (String × Row) :=
  ((db.rows.filter fun x => inScope scope x.2).mergeSort fun x y => listOrder x.2 y.2).take LIST_LIMIT

def searchRows (fts : Fts) (db : Db) (q : String) : Except String (List (String × Row)) :=
  if trim q = "" then .ok (listRows db "all") else found fts db (matchExpr (trim q))

/-- `list` of the desktop, at a time. -/
def list (lib : Lib) (now : Int) (db : Db) (scope : String) : List PlaylistMeta :=
  (listRows db scope).map fun x => row_meta lib now x.1 x.2

/-- `search` of the desktop, at a time. -/
def search (lib : Lib) (fts : Fts) (now : Int) (db : Db) (q : String) : Except String (List PlaylistMeta) :=
  (searchRows fts db q).map (·.map fun x => row_meta lib now x.1 x.2)

/-! ### The index -/

namespace Db

/-- The index entries of a name. -/
def entries (db : Db) (name : String) : List FtsEntry := db.fts.filter (·.name = name)

/-- The row of the name has one entry, and a name without a row has none. -/
structure IndexedAt (E : FtsEntry → Row → Prop) (db : Db) (name : String) : Prop where
  one : ∀ r, db.row name = some r → ∃ e, db.entries name = [e] ∧ E e r
  none : db.row name = none → db.entries name = []

/-- The index is that of the rows. -/
def Indexed (E : FtsEntry → Row → Prop) (db : Db) : Prop := ∀ name, db.IndexedAt E name

variable {E : FtsEntry → Row → Prop} {db db' : Db} {name n : String} {e : FtsEntry} {r : Row} {f : Row → Row}

theorem entries_unindex : (db.unindex name).entries n = if n = name then [] else db.entries n := by
  rw [entries, unindex, List.filter_filter]
  split
  next h =>
    subst h
    simp
  next h =>
    refine List.filter_congr fun e _ => ?_
    by_cases he : e.name = n <;> simp [he, h]

theorem entries_index : (db.index e).entries n = if e.name = n then db.entries n ++ [e] else db.entries n := by
  rw [entries, index, List.filter_append]
  split
  next h => simp [entries, h]
  next h => simp [entries, h]

@[simp] theorem entries_put : (db.put name r).entries n = db.entries n := rfl

@[simp] theorem entries_erase : (db.erase name).entries n = db.entries n := rfl

@[simp] theorem entries_update : (db.update name f).entries n = db.entries n := by rw [entries, fts_update, entries]

theorem entries_delete : (db.delete name).entries n = if n = name then [] else db.entries n := entries_unindex

/-- What is left alone stays indexed. -/
theorem IndexedAt.congr (h : db.IndexedAt E n) (hrow : db'.row n = db.row n) (hentries : db'.entries n = db.entries n) :
    db'.IndexedAt E n :=
  ⟨fun r hr => hentries ▸ h.one r (hrow ▸ hr), fun hnone => hentries ▸ h.none (hrow ▸ hnone)⟩

theorem IndexedAt.update (h : db.IndexedAt E n) (hf : ∀ e r, E e r → E e (f r)) : (db.update name f).IndexedAt E n := by
  refine ⟨fun r hr => ?_, fun hnone => ?_⟩
  · rw [row_update] at hr
    rw [entries_update]
    split at hr
    next heq =>
      subst heq
      obtain ⟨r₀, hr₀, rfl⟩ := Option.map_eq_some_iff.1 hr
      obtain ⟨e, he, hE⟩ := h.one r₀ hr₀
      exact ⟨e, he, hf e r₀ hE⟩
    next => exact h.one r hr
  · rw [row_update] at hnone
    rw [entries_update]
    split at hnone
    next heq =>
      subst heq
      exact h.none (Option.map_eq_none_iff.1 hnone)
    next => exact h.none hnone

theorem Indexed.update (h : db.Indexed E) (hf : ∀ e r, E e r → E e (f r)) : (db.update name f).Indexed E :=
  fun n => (h n).update hf

theorem Indexed.delete (h : db.Indexed E) : (db.delete name).Indexed E := by
  intro n
  refine ⟨fun r hr => ?_, fun hnone => ?_⟩
  · rw [row_delete] at hr
    rw [entries_delete]
    split at hr
    next => cases hr
    next hne =>
      rw [if_neg hne]
      exact (h n).one r hr
  · rw [row_delete] at hnone
    rw [entries_delete]
    split
    next => rfl
    next hne =>
      rw [if_neg hne] at hnone
      exact (h n).none hnone

/-- A row that is written with its entry. -/
theorem Indexed.write (h : db.Indexed E) (hname : e.name = name) (hE : E e r) :
    (((db.put name r).unindex name).index e).Indexed E := by
  intro n
  rcases eq_or_ne n name with heq | hne
  · subst heq
    refine ⟨fun r' hr' => ⟨e, ?_, ?_⟩, fun hnone => ?_⟩
    · rw [entries_index, if_pos hname, entries_unindex, if_pos rfl, List.nil_append]
    · rw [row_index, row_unindex, row_put, if_pos rfl] at hr'
      cases hr'
      exact hE
    · rw [row_index, row_unindex, row_put, if_pos rfl] at hnone
      cases hnone
  · refine (h n).congr ?_ ?_
    · rw [row_index, row_unindex, row_put, if_neg hne]
    · rw [entries_index, if_neg fun heq => hne (heq.symm.trans hname), entries_unindex, if_neg hne, entries_put]

theorem Indexed.reject {seq : Int} (h : db.Indexed E) : (db.reject name seq).Indexed E := by
  intro n
  refine (h n).congr row_reject ?_
  rw [entries, fts_reject, entries]

theorem Indexed.empty : Db.empty.Indexed E := by
  intro n
  refine ⟨fun r hr => ?_, fun _ => rfl⟩
  rw [row_empty] at hr
  cases hr

theorem mem_entries : e ∈ db.entries n ↔ e ∈ db.fts ∧ e.name = n := by
  rw [entries, List.mem_filter, decide_eq_true_iff]

/-- An entry of the index is that of the row of its name. -/
theorem IndexedAt.of_mem (h : db.IndexedAt E e.name) (he : e ∈ db.fts) : ∃ r, db.row e.name = some r ∧ E e r := by
  have hmem : e ∈ db.entries e.name := mem_entries.2 ⟨he, rfl⟩
  cases hrow : db.row e.name with
  | none =>
    rw [h.none hrow] at hmem
    cases hmem
  | some r =>
    obtain ⟨e', he', hE⟩ := h.one r hrow
    rw [he', List.mem_singleton] at hmem
    subst hmem
    exact ⟨r, rfl, hE⟩

/-- The name has no two entries. -/
theorem IndexedAt.count_le_one (h : db.IndexedAt E n) : (db.fts.map (·.name)).count n ≤ 1 := by
  have hcount : (db.fts.map (·.name)).count n = (db.entries n).length := by
    rw [List.count_eq_countP, List.countP_map, List.countP_eq_length_filter, entries]
    congr 1
  rw [hcount]
  cases hrow : db.row n with
  | none => simp [h.none hrow]
  | some r =>
    obtain ⟨e, he, -⟩ := h.one r hrow
    simp [he]

end Db

/-! ### What is found -/

/-- Of the names in `N`, the rows whose entries are hit: each as it is, once, and all of them if there is room. -/
structure Finds (N : String → Prop) (E : FtsEntry → Row → Prop) (hit : FtsEntry → Bool) (db : Db)
    (rows : List (String × Row)) : Prop where
  row : ∀ x ∈ rows, db.row x.1 = some x.2
  matched : ∀ x ∈ rows, N x.1 → ∃ e, e.name = x.1 ∧ E e x.2 ∧ hit e = true
  once : ∀ n, N n → (rows.map Prod.fst).count n ≤ 1
  bounded : rows.length ≤ SEARCH_LIMIT
  all : rows.length < SEARCH_LIMIT → ∀ n r, N n → db.row n = some r → (∀ e, e.name = n → E e r → hit e = true) →
    (n, r) ∈ rows

variable {N : String → Prop} {E : FtsEntry → Row → Prop} {db : Db} {hits : List FtsEntry} {hit : FtsEntry → Bool}

theorem mem_joined {n : String} {r : Row} :
    (n, r) ∈ joined db hits ↔ ∃ e ∈ hits, e.name = n ∧ db.row n = some r := by
  simp only [joined, List.mem_filterMap, Option.map_eq_some_iff, Prod.mk.injEq]
  constructor
  · rintro ⟨e, he, r', hr', rfl, rfl⟩
    exact ⟨e, he, rfl, hr'⟩
  · rintro ⟨e, he, rfl, hr⟩
    exact ⟨e, he, r, hr, rfl, rfl⟩

theorem fst_joined_sublist : ((joined db hits).map Prod.fst).Sublist (hits.map (·.name)) := by
  induction hits with
  | nil => exact .slnil
  | cons e hits ih =>
    rw [joined, List.filterMap_cons]
    cases db.row e.name with
    | none => exact ih.cons _
    | some r => exact ih.cons_cons _

/-- Where the index is that of the rows, a match finds the rows it is to find. -/
theorem finds_of_indexed (h : ∀ n, N n → db.IndexedAt E n) (hperm : hits.Perm (db.fts.filter hit)) :
    Finds N E hit db ((joined db hits).take SEARCH_LIMIT) := by
  have hmem {e : FtsEntry} : e ∈ hits ↔ e ∈ db.fts ∧ hit e = true := by rw [hperm.mem_iff, List.mem_filter]
  refine ⟨fun x hx => ?_, fun x hx hN => ?_, fun n hN => ?_, List.length_take_le _ _, fun hlt n r hN hrow hhit => ?_⟩
  · obtain ⟨e, -, -, hrow⟩ := mem_joined.1 (List.mem_of_mem_take hx)
    exact hrow
  · obtain ⟨e, he, hname, hrow⟩ := mem_joined.1 (List.mem_of_mem_take hx)
    obtain ⟨hfts, hhit⟩ := hmem.1 he
    obtain ⟨r, hr, hE⟩ := (hname ▸ h x.1 hN : db.IndexedAt E e.name).of_mem hfts
    rw [hname, hrow] at hr
    cases hr
    exact ⟨e, hname, hE, hhit⟩
  · have hsub : (((joined db hits).take SEARCH_LIMIT).map Prod.fst).Sublist (hits.map (·.name)) :=
      ((List.take_sublist _ _).map _).trans fst_joined_sublist
    refine (hsub.count_le n).trans ?_
    rw [(hperm.map _).count_eq]
    exact ((List.filter_sublist.map _).count_le n).trans (h n hN).count_le_one
  · obtain ⟨e, he, hE⟩ := (h n hN).one r hrow
    obtain ⟨hfts, hname⟩ := Db.mem_entries.1 (he ▸ List.mem_singleton.2 rfl : e ∈ db.entries n)
    have hlen : (joined db hits).length ≤ SEARCH_LIMIT := by
      rw [List.length_take] at hlt
      omega
    rw [List.take_of_length_le hlen]
    exact mem_joined.2 ⟨e, hmem.2 ⟨hfts, hhit e hname hE⟩, hname, hrow⟩

end TrackerStream.Playlists

namespace TrackerStream.WebPlaylists
open Playlists (Row Db FtsEntry Fts found)

/-- `search` of the browser; a query without a term finds nothing. -/
def searchRows (js : SearchTerms.Ucd) (fts : Fts) (db : Db) (q : String) : Except String (List (String × Row)) :=
  let terms := (SearchTerms.jsTerms js q).map SearchTerms.quoted
  if terms.isEmpty then .ok [] else found fts db (" ".intercalate terms)

end TrackerStream.WebPlaylists
