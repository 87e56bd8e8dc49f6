import TrackerStream.Proofs.CatalogRestores

/-!
# The catalog's search index is that of its rows

A row and its two index entries are written by three statements, and other processes write in between. `reindexFts`,
run alone on whatever there is, gives every row its entry in each index; from then on no interleaving of the other
operations leaves an entry that is not some row's, or a row that has not exactly its own, but for rows whose insertion
is under way or was cut short.
-/

namespace TrackerStream.CatalogIngest
open Prog

variable {lib : Lib}

/-- The texts of each row, with its source. -/
def Db.texts (db : Db) : List (String × FtsRow) := db.modules.map fun x => (x.2.source, ftsRow x)

/-- One of the two indexes. -/
structure Index (α : Type) where
  table : Db → Option (List α)
  rowid : α → Nat
  entry : FtsRow → α
  rowid_entry : ∀ e, rowid (entry e) = e.rowid

def modules_fts : Index FtsRow := ⟨Db.modules_fts, FtsRow.rowid, id, fun _ => rfl⟩

def names_fts : Index NamesRow := ⟨Db.names_fts, NamesRow.rowid, fun e => ⟨e.rowid, e.title, e.filename⟩, fun _ => rfl⟩

namespace Index
variable {α : Type}

/-- Every entry is some row's, no row has two, and which has none is late. -/
structure Current (X : Index α) (db : Db) (late : String × FtsRow → Prop) : Prop where
  present : ∃ es, X.table db = some es
  own : ∀ es, X.table db = some es → ∀ e ∈ es, ∃ x ∈ db.texts, e = X.entry x.2
  once : ∀ es, X.table db = some es → (es.map X.rowid).Nodup
  late : ∀ es, X.table db = some es → ∀ x ∈ db.texts, X.entry x.2 ∈ es ∨ late x

/-- No entry has the id. -/
def Lacks (X : Index α) (db : Db) (id : Nat) : Prop := ∀ es, X.table db = some es → ∀ e ∈ es, X.rowid e ≠ id

def Has (X : Index α) (db : Db) (e : FtsRow) : Prop := ∀ es, X.table db = some es → X.entry e ∈ es

/-- The entries of a row that is not late are its own, once. -/
theorem Current.filter_eq {X : Index α} {db : Db} {late : String × FtsRow → Prop} (h : X.Current db late) {es : List α}
    (hes : X.table db = some es) {x : String × FtsRow} (hx : x ∈ db.texts) (hlate : ¬ late x) :
    es.filter (X.rowid · = x.2.rowid) = [X.entry x.2] := by
  have hmem := (h.late es hes x hx).resolve_right hlate
  obtain ⟨l₁, l₂, rfl⟩ := List.append_of_mem hmem
  have hnodup := h.once _ hes
  rw [List.map_append, List.map_cons, X.rowid_entry, List.nodup_middle, List.nodup_cons, List.mem_append] at hnodup
  have hnone : ∀ l : List α, x.2.rowid ∉ l.map X.rowid → l.filter (X.rowid · = x.2.rowid) = [] := fun l hl =>
    List.filter_eq_nil_iff.2 fun e he heq => hl (List.mem_map.2 ⟨e, he, of_decide_eq_true heq⟩)
  rw [List.filter_append, List.filter_cons_of_pos (by rw [X.rowid_entry]; exact decide_eq_true rfl),
    hnone l₁ fun h => hnodup.1 (.inl h), hnone l₂ fun h => hnodup.1 (.inr h), List.nil_append]

variable {X : Index α} {db db' : Db} {late late' : String × FtsRow → Prop} {x : String × FtsRow} {id : Nat}
  {es : List α} {e : α} {a : FtsRow}

theorem Lacks.congr (h : X.Lacks db id) (htable : X.table db' = X.table db) : X.Lacks db' id :=
  fun es hes => h es (htable ▸ hes)

theorem Has.congr (h : X.Has db a) (htable : X.table db' = X.table db) : X.Has db' a := fun es hes => h es (htable ▸ hes)

theorem Lacks.append (h : X.Lacks db id) (hes : X.table db = some es) (htable : X.table db' = some (es ++ [e]))
    (hne : X.rowid e ≠ id) : X.Lacks db' id := by
  intro es' hes' x hx
  obtain rfl := Option.some.inj (htable.symm.trans hes')
  rcases List.mem_append.1 hx with hx | hx
  · exact h es hes x hx
  · rwa [List.mem_singleton.1 hx]

theorem Has.append (h : X.Has db a) (hes : X.table db = some es) (htable : X.table db' = some (es ++ [e])) :
    X.Has db' a := by
  intro es' hes'
  obtain rfl := Option.some.inj (htable.symm.trans hes')
  exact List.mem_append_left _ (h es hes)

theorem Current.congr (h : X.Current db late) (htable : X.table db' = X.table db) (htexts : db'.texts = db.texts)
    (hlate : ∀ x, late x → late' x ∨ X.Has db x.2) : X.Current db' late' := by
  refine ⟨htable ▸ h.present, fun es hes e he => ?_, fun es hes => h.once es (htable ▸ hes), fun es hes x hx => ?_⟩
  · rw [htexts]
    exact h.own es (htable ▸ hes) e he
  · rcases h.late es (htable ▸ hes) x (htexts ▸ hx) with hin | hl
    · exact .inl hin
    · exact (hlate x hl).symm.imp (fun hhas => hhas es (htable ▸ hes)) fun hl => hl

/-- A row is added; it is late. -/
theorem Current.row (h : X.Current db late) (htable : X.table db' = X.table db) (htexts : db'.texts = db.texts ++ [x])
    (hlate : ∀ x, late x → late' x) (hx : late' x) : X.Current db' late' := by
  refine ⟨htable ▸ h.present, fun es hes e he => ?_, fun es hes => h.once es (htable ▸ hes), fun es hes y hy => ?_⟩
  · obtain ⟨y, hy, heq⟩ := h.own es (htable ▸ hes) e he
    exact ⟨y, htexts ▸ List.mem_append_left _ hy, heq⟩
  · rw [htexts] at hy
    rcases List.mem_append.1 hy with hy | hy
    · exact (h.late es (htable ▸ hes) y hy).imp id (hlate y)
    · rw [List.mem_singleton.1 hy]
      exact .inr hx

/-- The entry of a row that has none is added. -/
theorem Current.entry (h : X.Current db late) {es : List α} (hes : X.table db = some es)
    (htable : X.table db' = some (es ++ [X.entry x.2])) (htexts : db'.texts = db.texts) (hx : x ∈ db.texts)
    (hlacks : X.Lacks db x.2.rowid) (hlate : ∀ y ∈ db.texts, late y → late' y ∨ y.2 = x.2) : X.Current db' late' := by
  refine ⟨⟨_, htable⟩, ?_, ?_, ?_⟩ <;>
    rintro es' hes' <;> obtain rfl := Option.some.inj (htable.symm.trans hes')
  · intro e he
    rw [htexts]
    rcases List.mem_append.1 he with he | he
    · exact h.own es hes e he
    · exact ⟨x, hx, List.mem_singleton.1 he⟩
  · rw [List.map_append, List.map_singleton, X.rowid_entry]
    refine List.nodup_append.2 ⟨h.once es hes, List.nodup_singleton _, fun i hi j hj hij => ?_⟩
    obtain ⟨e, he, rfl⟩ := List.mem_map.1 hi
    exact hlacks es hes e he (hij.trans (List.mem_singleton.1 hj))
  · intro y hy
    rw [htexts] at hy
    rcases h.late es hes y hy with hin | hl
    · exact .inl (List.mem_append_left _ hin)
    · rcases hlate y hy hl with hl | heq
      · exact .inr hl
      · rw [heq]
        exact .inl (List.mem_append_right _ (List.mem_singleton.2 rfl))

end Index

/-! ### An insertion under way -/

/-- How far a task is with its row. -/
inductive Stage
  | before
  /-- The row may be there, without its id being known. -/
  | unsure (m : ModuleRow)
  | row (m : ModuleRow) (id : Nat)
  | fts (m : ModuleRow) (id : Nat)
  /-- An entry may be there or not. -/
  | cut (m : ModuleRow) (id : Nat)
  | over

/-- The row is one whose insertion is not over. -/
def Stage.Late : Stage → String × FtsRow → Prop
  | unsure m, x => x.1 = m.source
  | row m id, x | fts m id, x | cut m id, x => x.2 = Db.ftsRow (id, m)
  | _, _ => False

/-- The row, then its entry in each index. -/
def inserting : Monitor Act Ans Op Stage where
  init _ := .before
  track
    | .before, .insertRow m, .ok (some id) => .row m id
    | .before, .insertRow m, .error _ => .unsure m
    | .row m id, .insertFts _, .ok _ => .fts m id
    | .row m id, .insertFts _, .error _ => .cut m id
    | .fts _ _, .insertNames _, .ok _ => .over
    | .fts m id, .insertNames _, .error _ => .cut m id
    | q, _, _ => q
  legal q e := match e with
    | .insertRow _ => q = .before
    | .insertFts e => ∃ m id, q = .row m id ∧ e = Db.ftsRow (id, m)
    | .insertNames e => ∃ m id, q = .fts m id ∧ e = Db.namesRow (id, m)
    | .dropFts | .createFts | .fillFts | .dropNames | .createNames | .fillNames => False
    | _ => True
  allow _ _ := True

/-- The acts that have nothing to do with it. -/
def Aside : Act → Prop
  | .insertRow _ | .insertFts _ | .insertNames _ => False
  | .dropFts | .createFts | .fillFts | .dropNames | .createNames | .fillNames => False
  | _ => True

theorem follows_aside {α : Type} {p : Ingest α} (hp : p.Only Aside) (q : Stage) : inserting.Follows (· = q) p q := by
  refine Monitor.follows_of_only hp (fun e he => ?_) rfl
  cases e <;> first | exact he.elim | exact ⟨trivial, fun r => by cases q <;> rfl⟩

theorem only_ask (e : Act) (he : Aside e) : (ask e).Only Aside := ⟨he, fun r => .ofExcept r⟩

theorem only_loadDagToKubo {bs : List Block} {root : Cid} : (loadDagToKubo lib bs root).Only Aside := by
  refine .bind (.foldlM fun _ slice => ?_) fun _ => (only_ask (.pinAdd root) trivial).bind fun _ => trivial
  exact (only_ask (.blockPutMany slice) trivial).bind fun _ => trivial

theorem only_rebuild {source root phase : String} {d : Baked} : (rebuild lib source root d phase).Only Aside := by
  rw [rebuild]
  split
  · trivial
  refine only_loadDagToKubo.attempt.bind fun x => ?_
  split
  · trivial
  split
  · trivial
  refine .bind (.bind (only_ask (.getSourceMeta source) trivial) fun x => ?_) fun _ => ⟨trivial, fun _ => trivial⟩
  split
  · trivial
  · exact (only_ask (.setRoot _ _ _) trivial).bind fun _ => trivial

theorem follows_insert (m : ModuleRow) : inserting.Follows (fun _ => True) (insert m) .before := by
  rw [Monitor.Follows, insert, wp_bind]
  refine ⟨rfl, ?_⟩
  rintro r _ ⟨-, rfl⟩
  cases r with
  | error x => trivial
  | ok id =>
    cases id with
    | none => trivial
    | some id =>
      show wp inserting.contract (ask (.insertFts _) >>= fun _ => ask (.insertNames _)) _ _ (.row m id)
      rw [wp_bind]
      refine ⟨⟨m, id, rfl, rfl⟩, ?_⟩
      rintro r _ ⟨-, rfl⟩
      cases r with
      | error x => trivial
      | ok _ =>
        refine ⟨⟨m, id, rfl, rfl⟩, ?_⟩
        rintro r _ ⟨-, rfl⟩
        cases r <;> trivial

theorem follows_add {byMd5 : List (String × Nat)} {m : CorpusModule} {d : Baked} :
    inserting.Follows (fun _ => True) (add lib byMd5 m d) .before := by
  rw [Monitor.Follows, add, wp_bind]
  refine wp_mono _ (follows_aside only_loadDagToKubo.attempt .before) ?_ fun _ _ _ => trivial
  rintro x _ rfl
  split
  · trivial
  split
  · trivial
  split
  · trivial
  · rw [wp_bind]
    exact wp_mono _ (follows_insert _) (fun _ _ _ => trivial) fun _ _ _ => trivial

/-- Whatever is not the reindexing. -/
theorem follows_op {o : Op} (ho : o ≠ .reindexFts) : inserting.Follows (fun _ => True) (o.prog lib) .before := by
  have haside {α : Type} {p : Ingest α} (hp : p.Only Aside) : inserting.Follows (fun _ => True) p .before :=
    wp_mono _ (follows_aside hp _) (fun _ _ _ => trivial) fun _ _ _ => trivial
  have hvoid {p : Ingest Tally} (hp : inserting.Follows (fun _ => True) p .before) :
      inserting.Follows (fun _ => True) (do let _ ← p : Ingest Unit) .before :=
    (wp_bind _ _).2 (wp_mono _ hp (fun _ _ _ => trivial) fun _ _ _ => trivial)
  cases o with
  | reindexFts => exact absurd rfl ho
  | openCatalog => exact haside (only_ask .createTables trivial)
  | upsertGenres labels => exact haside (only_ask (.upsertGenres labels) trivial)
  | applyGenres byMd5 labels clearFirst =>
    exact haside ((only_ask (.upsertGenres labels) trivial).bind fun _ => only_ask (.stampGenres byMd5 clearFirst) trivial)
  | backfillMd5 m =>
    refine haside (.bind (only_ask (.md5Missing m.source) trivial) fun missing => ?_)
    split
    · exact only_ask (.setMd5 m.source (lib.md5 m.bytes)) trivial
    · trivial
  | rebakeModule opts m =>
    refine hvoid (haside (.bind (only_ask (.getSourceMeta m.source) trivial) fun existing => ?_))
    split
    · trivial
    split
    · trivial
    refine .bind ⟨trivial, fun _ => trivial⟩ fun x => ?_
    split
    · trivial
    · trivial
    refine only_rebuild.attempt.bind fun x => ?_
    split <;> trivial
  | ingestModule opts byMd5 m =>
    refine hvoid ?_
    rw [Monitor.Follows, CatalogIngest.ingestModule, wp_bind]
    refine wp_mono _ (follows_aside (only_ask (.getSourceMeta m.source) trivial) .before) ?_ fun _ _ _ => trivial
    rintro existing _ rfl
    split
    · trivial
    split
    · trivial
    split
    · exact haside only_rebuild
    · exact follows_add

/-! ### What an act does to the rows -/

namespace Db
variable {db : Db} {now : Int}

theorem texts_updateWhere {p : Nat × ModuleRow → Bool} {f : ModuleRow → ModuleRow}
    (hf : ∀ i m, ((f m).source, ftsRow (i, f m)) = (m.source, ftsRow (i, m))) : (db.updateWhere p f).texts = db.texts := by
  rw [texts, texts, updateWhere, List.map_map]
  refine List.map_congr_left fun x _ => ?_
  rw [Function.comp_apply]
  split
  · exact hf x.1 x.2
  · rfl

theorem texts_clearGenres : db.clearGenres.texts = db.texts := texts_updateWhere fun _ _ => rfl

theorem texts_stampGenre {x : String × Nat} : (db.stampGenre x).texts = db.texts := texts_updateWhere fun _ _ => rfl

theorem texts_foldl {α : Type} {f : Db → α → Db} (hf : ∀ db a, (f db a).texts = db.texts) (xs : List α) :
    (xs.foldl f db).texts = db.texts := by
  induction xs generalizing db with
  | nil => rfl
  | cons a xs ih => rw [List.foldl_cons, ih, hf]

theorem tables_foldl {α : Type} {f : Db → α → Db}
    (hf : ∀ db a, (f db a).modules_fts = db.modules_fts ∧ (f db a).names_fts = db.names_fts) (xs : List α) :
    (xs.foldl f db).modules_fts = db.modules_fts ∧ (xs.foldl f db).names_fts = db.names_fts := by
  induction xs generalizing db with
  | nil => exact ⟨rfl, rfl⟩
  | cons a xs ih => exact ⟨ih.1.trans (hf db a).1, ih.2.trans (hf db a).2⟩

theorem tables_upsertGenre (db : Db) (label : Nat × String) :
    (db.upsertGenre label).modules_fts = db.modules_fts ∧ (db.upsertGenre label).names_fts = db.names_fts := by
  rw [upsertGenre]
  split <;> exact ⟨rfl, rfl⟩

/-- A row's id is less than the next. -/
theorem rowid_lt_nextId {x : String × FtsRow} (hx : x ∈ db.texts) : x.2.rowid < db.nextId := by
  obtain ⟨y, hy, rfl⟩ := List.mem_map.1 hx
  exact lt_nextId (List.mem_map_of_mem (f := fun x : Nat × ModuleRow => Entry.mk x.1 x.2.source x.2.rootCid) hy)

end Db

/-- The texts and the indexes are as they were. -/
structure Unfilled (db db' : Db) : Prop where
  texts : db'.texts = db.texts
  modules_fts : db'.modules_fts = db.modules_fts
  names_fts : db'.names_fts = db.names_fts

theorem unfilled_effect {e : Act} (he : Aside e) (now : Int) {s : Store} {es : List FtsRow} {ns : List NamesRow}
    (hes : s.db.modules_fts = some es) (hns : s.db.names_fts = some ns) : Unfilled s.db (effect lib e now s).2.db := by
  cases e with
  | createTables => exact ⟨rfl, by simp [effect, onDb, hes], by simp [effect, onDb, hns]⟩
  | setRoot id root n => exact ⟨Db.texts_updateWhere fun _ _ => rfl, rfl, rfl⟩
  | setMd5 source md5 => exact ⟨Db.texts_updateWhere fun _ _ => rfl, rfl, rfl⟩
  | upsertGenres labels =>
    obtain ⟨hfts, hnames⟩ := Db.tables_foldl Db.tables_upsertGenre labels
    refine ⟨Db.texts_foldl (fun db label => ?_) labels, hfts, hnames⟩
    rw [Db.upsertGenre]
    split <;> rfl
  | stampGenres byMd5 clearFirst =>
    obtain ⟨hfts, hnames⟩ := Db.tables_foldl (f := Db.stampGenre) (fun _ _ => ⟨rfl, rfl⟩) byMd5
    have htexts : (if clearFirst then s.db.clearGenres else s.db).texts = s.db.texts := by
      split
      · exact Db.texts_clearGenres
      · rfl
    refine ⟨(Db.texts_foldl (fun _ _ => Db.texts_stampGenre) byMd5).trans htexts, hfts.trans ?_, hnames.trans ?_⟩ <;>
      split <;> rfl
  | insertRow m => exact he.elim
  | insertFts e => exact he.elim
  | insertNames e => exact he.elim
  | dropFts => exact he.elim
  | createFts => exact he.elim
  | fillFts => exact he.elim
  | dropNames => exact he.elim
  | createNames => exact he.elim
  | fillNames => exact he.elim
  | getSourceMeta source => exact ⟨rfl, rfl, rfl⟩
  | md5Missing source => exact ⟨rfl, rfl, rfl⟩
  | bakeWorker bakeV4 m => exact ⟨rfl, rfl, rfl⟩
  | blockPutMany bs => exact ⟨rfl, rfl, rfl⟩
  | pinAdd root => exact ⟨rfl, rfl, rfl⟩
  | pinRm root => exact ⟨rfl, rfl, rfl⟩

/-! ### The invariant -/

/-- The row a task is at. -/
def Stage.At : Stage → Nat → Prop
  | row _ i, id | fts _ i, id => i = id
  | _, _ => False

/-- What holds of the row of a task in flight. -/
def Holding (s : Store) : Stage → Prop
  | .row m id => (m.source, Db.ftsRow (id, m)) ∈ s.db.texts ∧ modules_fts.Lacks s.db id ∧ names_fts.Lacks s.db id
  | .fts m id => (m.source, Db.ftsRow (id, m)) ∈ s.db.texts ∧ modules_fts.Has s.db (Db.ftsRow (id, m)) ∧
      names_fts.Lacks s.db id
  | _ => True

/-- Some task has begun the row and not come to its end. -/
def Late (ts : List (Task Act Ans String Op)) (x : String × FtsRow) : Prop := ∃ t ∈ ts, (inserting.view t).Late x

/-- No two tasks in flight are at one row. -/
def Elsewhere (t u : Task Act Ans String Op) : Prop :=
  t.rest.ended = false → u.rest.ended = false → ∀ id, (inserting.view t).At id → ¬ (inserting.view u).At id

structure Filling (s : Store) (ts : List (Task Act Ans String Op)) : Prop where
  fts : modules_fts.Current s.db (Late ts)
  names : names_fts.Current s.db (Late ts)
  watched : inserting.Watched Holding s ts
  elsewhere : ts.Pairwise Elsewhere

theorem Elsewhere.symm {t u : Task Act Ans String Op} (h : Elsewhere t u) : Elsewhere u t :=
  fun hu ht id hu' ht' => h ht hu id ht' hu'

section
variable {s s' : Store} {l₁ l₂ ts : List (Task Act Ans String Op)} {t : Task Act Ans String Op} {e : Act} {r : Ans e}
  {k : Ans e → Ingest Unit}

/-- What a task's act makes of who is late. -/
theorem late_answered {P : String × FtsRow → Prop}
    (h : ∀ x, (inserting.view t).Late x → (inserting.view (t.answered e r k)).Late x ∨ P x) :
    ∀ x, Late (l₁ ++ t :: l₂) x → Late (l₁ ++ t.answered e r k :: l₂) x ∨ P x := by
  rintro x ⟨u, hu, hlate⟩
  rcases List.mem_append.1 hu with hu | hu
  · exact .inl ⟨u, List.mem_append_left _ hu, hlate⟩
  rcases List.mem_cons.1 hu with rfl | hu
  · exact (h x hlate).imp (fun hl => ⟨_, by simp, hl⟩) fun hp => hp
  · exact .inl ⟨u, List.mem_append_right _ (List.mem_cons_of_mem _ hu), hlate⟩

theorem Filling.others (h : Filling s (l₁ ++ t :: l₂)) (ht : t.rest.ended = false) {u : Task Act Ans String Op}
    (hu : u ∈ l₁ ++ l₂) (hlive : u.rest.ended = false) :
    Holding s (inserting.view u) ∧ ∀ id, (inserting.view t).At id → ¬ (inserting.view u).At id := by
  have hu' : u ∈ l₁ ++ t :: l₂ := by
    rcases List.mem_append.1 hu with hu | hu <;> simp [hu]
  refine ⟨(h.watched u hu').2 hlive, ?_⟩
  have hmiddle := (List.pairwise_middle Elsewhere.symm).1 h.elsewhere
  exact (List.pairwise_cons.1 hmiddle).1 u hu ht hlive

/-- The next act of a task: what it does to the indexes, and where the task and the others are then. -/
theorem Filling.answered (h : Filling s (l₁ ++ t :: l₂)) (hrest : t.rest = .act e k)
    (hfts : modules_fts.Current s'.db (Late (l₁ ++ t.answered e r k :: l₂)))
    (hnames : names_fts.Current s'.db (Late (l₁ ++ t.answered e r k :: l₂)))
    (hown : Holding s' (inserting.view (t.answered e r k)))
    (hothers : ∀ u ∈ l₁ ++ l₂, u.rest.ended = false → Holding s' (inserting.view u) ∧
      ∀ id, (inserting.view (t.answered e r k)).At id → ¬ (inserting.view u).At id) :
    Filling s' (l₁ ++ t.answered e r k :: l₂) := by
  refine ⟨hfts, hnames, h.watched.act hrest trivial (fun _ _ => hown) fun _ _ u hu hlive _ => (hothers u hu hlive).1, ?_⟩
  have hmiddle := (List.pairwise_middle Elsewhere.symm).1 h.elsewhere
  exact (List.pairwise_middle Elsewhere.symm).2 (List.pairwise_cons.2
    ⟨fun u hu _ hlive => (hothers u hu hlive).2, (List.pairwise_cons.1 hmiddle).2⟩)

/-- Rows may be added. -/
theorem Holding.mono {q : Stage} (h : Holding s q) (htexts : ∀ x ∈ s.db.texts, x ∈ s'.db.texts)
    (hfts : s'.db.modules_fts = s.db.modules_fts) (hnames : s'.db.names_fts = s.db.names_fts) : Holding s' q := by
  cases q with
  | row m id => exact ⟨htexts _ h.1, h.2.1.congr hfts, h.2.2.congr hnames⟩
  | fts m id => exact ⟨htexts _ h.1, h.2.1.congr hfts, h.2.2.congr hnames⟩
  | _ => trivial

/-- An act that leaves rows and indexes as they are. -/
theorem Filling.unfilled (h : Filling s (l₁ ++ t :: l₂)) (hrest : t.rest = .act e k) (hs : Unfilled s.db s'.db)
    (hlate : ∀ x, (inserting.view t).Late x → (inserting.view (t.answered e r k)).Late x)
    (hown : Holding s (inserting.view t) → Holding s (inserting.view (t.answered e r k)))
    (hat : ∀ id, (inserting.view (t.answered e r k)).At id → (inserting.view t).At id) :
    Filling s' (l₁ ++ t.answered e r k :: l₂) := by
  have ht : t.rest.ended = false := by rw [hrest]; rfl
  refine h.answered hrest (h.fts.congr hs.modules_fts hs.texts (late_answered fun x hx => .inl (hlate x hx)))
    (h.names.congr hs.names_fts hs.texts (late_answered fun x hx => .inl (hlate x hx)))
    ((hown ((h.watched t (by simp)).2 ht)).mono (fun _ hx => hs.texts ▸ hx) hs.modules_fts hs.names_fts) fun u hu hlive => ?_
  obtain ⟨hholding, helse⟩ := h.others ht hu hlive
  exact ⟨hholding.mono (fun _ hx => hs.texts ▸ hx) hs.modules_fts hs.names_fts, fun id hid => helse id (hat id hid)⟩

/-- The row is new. -/
theorem Filling.row (h : Filling s (l₁ ++ t :: l₂)) (hrest : t.rest = .act e k) {m : ModuleRow}
    (htexts : s'.db.texts = s.db.texts ++ [(m.source, Db.ftsRow (s.db.nextId, m))])
    (hfts : s'.db.modules_fts = s.db.modules_fts) (hnames : s'.db.names_fts = s.db.names_fts)
    (hbefore : inserting.view t = .before)
    (hnow : inserting.view (t.answered e r k) = .row m s.db.nextId ∨ inserting.view (t.answered e r k) = .unsure m) :
    Filling s' (l₁ ++ t.answered e r k :: l₂) := by
  have ht : t.rest.ended = false := by rw [hrest]; rfl
  have hnolate : ∀ x, (inserting.view t).Late x → False := fun x hx => by rwa [hbefore] at hx
  have hlate : ∀ x, Late (l₁ ++ t :: l₂) x → Late (l₁ ++ t.answered e r k :: l₂) x := fun x hx =>
    (late_answered (P := fun _ => False) (fun x hx => (hnolate x hx).elim) x hx).resolve_right id
  have hnew : Late (l₁ ++ t.answered e r k :: l₂) (m.source, Db.ftsRow (s.db.nextId, m)) := by
    refine ⟨_, List.mem_append_right _ List.mem_cons_self, ?_⟩
    rcases hnow with hnow | hnow <;> rw [hnow] <;> rfl
  have hlacks : ∀ {α : Type} {X : Index α} {late : String × FtsRow → Prop}, X.Current s.db late →
      X.table s'.db = X.table s.db → X.Lacks s'.db s.db.nextId := by
    intro α X late hX htable es hes x hx hid
    obtain ⟨y, hy, rfl⟩ := hX.own es (htable ▸ hes) x hx
    rw [X.rowid_entry] at hid
    exact Nat.ne_of_lt (Db.rowid_lt_nextId hy) hid
  refine h.answered hrest (h.fts.row hfts htexts hlate hnew) (h.names.row hnames htexts hlate hnew) ?_ fun u hu hlive => ?_
  · rcases hnow with hnow | hnow <;> rw [hnow]
    · exact ⟨htexts ▸ List.mem_append_right _ (List.mem_singleton.2 rfl), hlacks h.fts hfts, hlacks h.names hnames⟩
    · trivial
  · obtain ⟨hholding, -⟩ := h.others ht hu hlive
    have hlt : ∀ id, (inserting.view u).At id → id < s.db.nextId := by
      intro id hid
      generalize inserting.view u = q at hholding hid
      cases q with
      | row m' id' => exact hid ▸ Db.rowid_lt_nextId hholding.1
      | fts m' id' => exact hid ▸ Db.rowid_lt_nextId hholding.1
      | _ => cases hid
    refine ⟨hholding.mono (fun _ hx => htexts ▸ List.mem_append_left _ hx) hfts hnames, fun id hid hid' => ?_⟩
    rcases hnow with hnow | hnow <;> rw [hnow] at hid
    · exact Nat.ne_of_lt (hlt id hid') hid.symm
    · exact hid

/-- The row's entry in the one index. -/
theorem Filling.filledFts (h : Filling s (l₁ ++ t :: l₂)) (hrest : t.rest = .act e k) {m : ModuleRow} {id : Nat}
    {es : List FtsRow} (hes : s.db.modules_fts = some es) (htexts : s'.db.texts = s.db.texts)
    (hfts : s'.db.modules_fts = some (es ++ [Db.ftsRow (id, m)])) (hnames : s'.db.names_fts = s.db.names_fts)
    (hrow : inserting.view t = .row m id)
    (hnow : inserting.view (t.answered e r k) = .fts m id ∨ inserting.view (t.answered e r k) = .cut m id) :
    Filling s' (l₁ ++ t.answered e r k :: l₂) := by
  have ht : t.rest.ended = false := by rw [hrest]; rfl
  have hhold := (h.watched t (by simp)).2 ht
  rw [hrow] at hhold
  obtain ⟨hmem, hlacks, hlacks'⟩ := hhold
  have hlate : ∀ x, (inserting.view t).Late x → (inserting.view (t.answered e r k)).Late x := by
    intro x hx
    rw [hrow] at hx
    rcases hnow with hnow | hnow <;> rw [hnow] <;> exact hx
  refine h.answered hrest (h.fts.entry (x := (m.source, Db.ftsRow (id, m))) hes hfts htexts hmem hlacks fun y _ hy =>
      .inl ((late_answered (P := fun _ => False) (fun x hx => .inl (hlate x hx)) y hy).resolve_right fun h => h))
    (h.names.congr hnames htexts (late_answered fun x hx => .inl (hlate x hx))) ?_ fun u hu hlive => ?_
  · rcases hnow with hnow | hnow <;> rw [hnow]
    · refine ⟨htexts ▸ hmem, fun es' hes' => ?_, hlacks'.congr hnames⟩
      obtain rfl := Option.some.inj (hfts.symm.trans hes')
      exact List.mem_append_right _ (List.mem_singleton.2 rfl)
    · trivial
  · obtain ⟨hholding, helse⟩ := h.others ht hu hlive
    rw [hrow] at helse
    have hne := helse id rfl
    refine ⟨?_, fun id' hid => ?_⟩
    · generalize inserting.view u = q at hholding hne
      cases q with
      | row m' id' =>
        exact ⟨htexts ▸ hholding.1, hholding.2.1.append hes hfts fun h => hne h.symm, hholding.2.2.congr hnames⟩
      | fts m' id' => exact ⟨htexts ▸ hholding.1, hholding.2.1.append hes hfts, hholding.2.2.congr hnames⟩
      | _ => trivial
    · rcases hnow with hnow | hnow <;> rw [hnow] at hid
      · exact helse id' hid
      · cases hid

/-- And in the other. -/
theorem Filling.filledNames (h : Filling s (l₁ ++ t :: l₂)) (hrest : t.rest = .act e k) {m : ModuleRow} {id : Nat}
    {es : List NamesRow} (hes : s.db.names_fts = some es) (htexts : s'.db.texts = s.db.texts)
    (hfts : s'.db.modules_fts = s.db.modules_fts) (hnames : s'.db.names_fts = some (es ++ [Db.namesRow (id, m)]))
    (hrow : inserting.view t = .fts m id)
    (hnow : inserting.view (t.answered e r k) = .over ∨ inserting.view (t.answered e r k) = .cut m id) :
    Filling s' (l₁ ++ t.answered e r k :: l₂) := by
  have ht : t.rest.ended = false := by rw [hrest]; rfl
  have hhold := (h.watched t (by simp)).2 ht
  rw [hrow] at hhold
  obtain ⟨hmem, hhas, hlacks⟩ := hhold
  have hlate : ∀ x, (inserting.view t).Late x →
      (inserting.view (t.answered e r k)).Late x ∨ x.2 = Db.ftsRow (id, m) := by
    intro x hx
    rw [hrow] at hx
    exact .inr hx
  have hlate' : ∀ x, (inserting.view t).Late x →
      (inserting.view (t.answered e r k)).Late x ∨ modules_fts.Has s.db x.2 := by
    intro x hx
    rcases hlate x hx with hl | heq
    · exact .inl hl
    · rw [heq]
      exact .inr hhas
  refine h.answered hrest (h.fts.congr hfts htexts (late_answered hlate'))
    (h.names.entry (x := (m.source, Db.ftsRow (id, m))) hes hnames htexts hmem hlacks fun y _ hy =>
      late_answered hlate y hy) ?_ fun u hu hlive => ?_
  · rcases hnow with hnow | hnow <;> rw [hnow] <;> trivial
  · obtain ⟨hholding, helse⟩ := h.others ht hu hlive
    rw [hrow] at helse
    have hne := helse id rfl
    refine ⟨?_, fun id' hid => ?_⟩
    · generalize inserting.view u = q at hholding hne
      cases q with
      | row m' id' =>
        exact ⟨htexts ▸ hholding.1, hholding.2.1.congr hfts, hholding.2.2.append hes hnames fun h => hne h.symm⟩
      | fts m' id' =>
        exact ⟨htexts ▸ hholding.1, hholding.2.1.congr hfts, hholding.2.2.append hes hnames fun h => hne h.symm⟩
      | _ => trivial
    · rcases hnow with hnow | hnow <;> rw [hnow] at hid <;> cases hid

/-- An act that does nothing to the indexes leaves the task where it is, whatever the answer. -/
theorem Filling.aside (h : Filling s (l₁ ++ t :: l₂)) (hrest : t.rest = .act e k) (he : Aside e)
    (hs : Unfilled s.db s'.db) : Filling s' (l₁ ++ t.answered e r k :: l₂) := by
  have hview : inserting.view (t.answered e r k) = inserting.view t := by
    rw [Monitor.view_answered]
    cases e <;> first | exact he.elim | (cases inserting.view t <;> rfl)
  refine h.unfilled hrest hs ?_ ?_ ?_ <;> rw [hview]
  · exact fun _ hx => hx
  · exact fun hx => hx
  · exact fun _ hx => hx

/-- An act that is not done: the task goes no further. -/
theorem Filling.failed (h : Filling s (l₁ ++ t :: l₂)) (hrest : t.rest = .act e k) (x : String) :
    Filling s (l₁ ++ t.answered e (.error x) k :: l₂) := by
  refine h.unfilled hrest ⟨rfl, rfl, rfl⟩ ?_ ?_ ?_ <;> rw [Monitor.view_answered] <;>
    generalize inserting.view t = q
  · intro y hy
    cases q <;> cases e <;> first | exact hy | cases hy
  · intro hq
    cases q <;> cases e <;> first | exact hq | trivial
  · intro id hid
    cases q <;> cases e <;> first | exact hid | cases hid

/-- A new row, or none. -/
theorem Filling.insertRow {m : ModuleRow} {k : Ans (.insertRow m) → Ingest Unit} {r : Ans (.insertRow m)} {now : Int}
    (h : Filling s (l₁ ++ t :: l₂)) (hrest : t.rest = .act (.insertRow m) k) (hq : inserting.view t = .before)
    (hr : r = .ok (s.db.insertRow m now).1 ∨ ∃ x, r = .error x) :
    Filling { s with db := (s.db.insertRow m now).2 } (l₁ ++ t.answered (.insertRow m) r k :: l₂) := by
  by_cases hany : s.db.modules.any (·.2.source = m.source)
  · have hinsert : s.db.insertRow m now = (none, s.db) := by rw [Db.insertRow, if_pos hany]
    rw [hinsert] at hr ⊢
    rcases hr with rfl | ⟨x, rfl⟩
    · have hview : inserting.view (t.answered (.insertRow m) (.ok none) k) = inserting.view t := by
        rw [Monitor.view_answered, hq]
        rfl
      refine h.unfilled hrest ⟨rfl, rfl, rfl⟩ ?_ ?_ ?_ <;> rw [hview]
      · exact fun _ hx => hx
      · exact fun hx => hx
      · exact fun _ hx => hx
    · exact h.failed hrest x
  · have hinsert : s.db.insertRow m now =
        (some s.db.nextId, { s.db with modules := s.db.modules ++ [(s.db.nextId, { m with ingestedAt := now })] }) := by
      rw [Db.insertRow, if_neg hany]
    rw [hinsert] at hr ⊢
    refine h.row hrest (m := m) ?_ rfl rfl hq ?_
    · exact List.map_append
    · rw [Monitor.view_answered, hq]
      rcases hr with rfl | ⟨x, rfl⟩
      · exact .inl rfl
      · exact .inr rfl

/-- An act that is done, whether its answer comes or not. -/
theorem Filling.effect {now : Int} (h : Filling s (l₁ ++ t :: l₂)) (hrest : t.rest = .act e k)
    (hr : r = (CatalogIngest.effect lib e now s).1 ∨ ∃ x, r = .error x) :
    Filling (CatalogIngest.effect lib e now s).2 (l₁ ++ t.answered e r k :: l₂) := by
  have hlegal := Monitor.legal_of_follows (h.watched t (by simp)).1 hrest
  obtain ⟨es, hes⟩ : ∃ es, s.db.modules_fts = some es := h.fts.present
  obtain ⟨ns, hns⟩ : ∃ ns, s.db.names_fts = some ns := h.names.present
  by_cases he : Aside e
  · exact h.aside hrest he (unfilled_effect he now hes hns)
  cases e with
  | insertRow m => exact h.insertRow hrest hlegal hr
  | insertFts a =>
    obtain ⟨m, id, hq, rfl⟩ := hlegal
    have heffect : CatalogIngest.effect lib (.insertFts (Db.ftsRow (id, m))) now s =
        onDb s () { s.db with modules_fts := some (es ++ [Db.ftsRow (id, m)]) } := by
      rw [CatalogIngest.effect, hes]
    rw [heffect] at hr ⊢
    refine h.filledFts hrest hes rfl rfl rfl hq ?_
    rw [Monitor.view_answered, hq]
    rcases hr with rfl | ⟨x, rfl⟩
    · exact .inl rfl
    · exact .inr rfl
  | insertNames a =>
    obtain ⟨m, id, hq, rfl⟩ := hlegal
    have heffect : CatalogIngest.effect lib (.insertNames (Db.namesRow (id, m))) now s =
        onDb s () { s.db with names_fts := some (ns ++ [Db.namesRow (id, m)]) } := by
      rw [CatalogIngest.effect, hns]
    rw [heffect] at hr ⊢
    refine h.filledNames hrest hns rfl rfl rfl hq ?_
    rw [Monitor.view_answered, hq]
    rcases hr with rfl | ⟨x, rfl⟩
    · exact .inl rfl
    · exact .inr rfl
  | dropFts => exact hlegal.elim
  | createFts => exact hlegal.elim
  | fillFts => exact hlegal.elim
  | dropNames => exact hlegal.elim
  | createNames => exact hlegal.elim
  | fillNames => exact hlegal.elim
  | _ => exact absurd trivial he

theorem Filling.act (h : Filling s (l₁ ++ t :: l₂)) (hrest : t.rest = .act e k) (i : Input) :
    Filling (world lib e i s).2 (l₁ ++ t.answered e (world lib e i s).1 k :: l₂) := by
  rw [world]
  cases i.reply with
  | done => exact h.effect hrest (.inl rfl)
  | lost => exact h.effect hrest (.inr ⟨_, rfl⟩)
  | failed => exact h.failed hrest _

theorem Filling.start {o : Op} (h : Filling s ts) (ho : o ≠ .reindexFts) : Filling s (ts ++ [⟨o, [], o.prog lib⟩]) := by
  have hlate : ∀ x, Late ts x → Late (ts ++ [⟨o, [], o.prog lib⟩]) x := by
    rintro x ⟨u, hu, hx⟩
    exact ⟨u, List.mem_append_left _ hu, hx⟩
  refine ⟨h.fts.congr rfl rfl fun x hx => .inl (hlate x hx), h.names.congr rfl rfl fun x hx => .inl (hlate x hx),
    h.watched.start (follows_op ho) trivial, ?_⟩
  refine List.pairwise_append.2 ⟨h.elsewhere, List.pairwise_singleton _ _, fun u _ v hv _ _ id _ hid => ?_⟩
  rw [List.mem_singleton.1 hv] at hid
  exact hid

end

/-! ### The reindexing -/

/-- An index made of the rows. -/
theorem Index.current_of_map {α : Type} {X : Index α} {db : Db} (hids : (db.modules.map (·.1)).Nodup)
    (htable : X.table db = some (db.texts.map fun x => X.entry x.2)) : X.Current db fun _ => False := by
  refine ⟨⟨_, htable⟩, ?_, ?_, ?_⟩ <;> rintro es hes <;> obtain rfl := Option.some.inj (htable.symm.trans hes)
  · intro e he
    obtain ⟨x, hx, rfl⟩ := List.mem_map.1 he
    exact ⟨x, hx, rfl⟩
  · have hrowids : (db.texts.map fun x => X.entry x.2).map X.rowid = db.modules.map (·.1) := by
      rw [Db.texts, List.map_map, List.map_map]
      exact List.map_congr_left fun x _ => X.rowid_entry _
    rw [hrowids]
    exact hids
  · exact fun x hx => .inl (List.mem_map_of_mem hx)

/-- What an answered act does is all there is to say of it. -/
theorem wp_ask_world {C : Act → Input → Store → Prop} {e : Act} {Q : Res e → Store → Prop} {s : Store}
    (h : ∀ now a, (effect lib e now s).1 = .ok a → Q a (effect lib e now s).2) :
    wp (ofWorld (world lib) C) (ask e) Q (fun _ _ => True) s := by
  refine (wp_act_world e _).2 fun i _ => ?_
  rw [world]
  split
  · cases heffect : (effect lib e i.now s).1 with
    | ok a => exact h i.now a heffect
    | error x => trivial
  · trivial
  · trivial

/-- The rows stay, and the indexes are made of them. -/
theorem run_reindexFts {s s' : Store} {ω : Nat → Input} (hrun : reindexFts.run (world lib) ω s = (.ok (), s')) :
    s'.db = { s.db with
      modules_fts := some (s.db.modules.map Db.ftsRow), names_fts := some (s.db.modules.map Db.namesRow) } := by
  have hwp : wp (ofWorld (world lib) fun _ _ _ => True) reindexFts (fun _ s' => s'.db = { s.db with
      modules_fts := some (s.db.modules.map Db.ftsRow), names_fts := some (s.db.modules.map Db.namesRow) })
      (fun _ _ => True) s := by
    refine (wp_bind _ _).2 (wp_ask_world fun _ _ _ => ?_)
    refine (wp_bind _ _).2 (wp_ask_world fun _ _ _ => ?_)
    refine (wp_bind _ _).2 (wp_ask_world fun _ _ _ => ?_)
    refine (wp_bind _ _).2 (wp_ask_world fun _ _ _ => ?_)
    refine (wp_bind _ _).2 (wp_ask_world fun _ _ _ => ?_)
    exact wp_ask_world fun _ _ _ => rfl
  have h := (run_wp (fits_true _ ω s) hwp).1 ()
  rw [hrun] at h
  exact h rfl

/-- Nothing is late where the indexes were made of the rows. -/
theorem filling_reindexed {s s' : Store} {ω : Nat → Input} (hids : (s.db.modules.map (·.1)).Nodup)
    (hrun : reindexFts.run (world lib) ω s = (.ok (), s')) : Filling s' [] := by
  have hdb := run_reindexFts hrun
  have hids' : (s'.db.modules.map (·.1)).Nodup := by rwa [hdb]
  have hfts : modules_fts.table s'.db = some (s'.db.texts.map fun x => modules_fts.entry x.2) := by
    rw [Db.texts, List.map_map, hdb]
    rfl
  have hnames : names_fts.table s'.db = some (s'.db.texts.map fun x => names_fts.entry x.2) := by
    rw [Db.texts, List.map_map, hdb]
    rfl
  exact ⟨(Index.current_of_map hids' hfts).congr rfl rfl fun _ hx => hx.elim,
    (Index.current_of_map hids' hnames).congr rfl rfl fun _ hx => hx.elim,
    fun t ht => absurd ht List.not_mem_nil, .nil⟩

/-! ### Every interleaving -/

/-- Anything but a reindexing. -/
def indexed : Pool.Rules Act Ans String Input Store Op where
  start _ _ o := o ≠ .reindexFts
  act _ _ _ _ _ := True

/-- Reindexed, each row has in both indexes its own entry and no other, unless its insertion is under way or was cut
short, and no entry is of anything but a row. -/
theorem indexes_own {s s₀ : Store} {ω : Nat → Input} {ms : List (Prog.Move Input Op)}
    (hids : (s.db.modules.map (·.1)).Nodup) (hrun : reindexFts.run (world lib) ω s = (.ok (), s₀))
    (hms : Runs.Along (Pool.move (master lib)) (Pool.Obeys (master lib) indexed) ⟨s₀, []⟩ ms) (k : Nat) :
    let p := Runs.state (Pool.move (master lib)) ⟨s₀, []⟩ ms k
    ∃ es ns, p.state.db.modules_fts = some es ∧ p.state.db.names_fts = some ns ∧
      (∀ e ∈ es, ∃ x ∈ p.state.db.modules, e = Db.ftsRow x) ∧
      (∀ e ∈ ns, ∃ x ∈ p.state.db.modules, e = Db.namesRow x) ∧
      ∀ x ∈ p.state.db.modules, Late p.tasks (x.2.source, Db.ftsRow x) ∨
        es.filter (·.rowid = x.1) = [Db.ftsRow x] ∧ ns.filter (·.rowid = x.1) = [Db.namesRow x] := by
  intro p
  have hfilling : Filling p.state p.tasks := hms.always (I := fun p => Filling p.state p.tasks)
    (filling_reindexed hids hrun) (fun p m hm hp => Pool.move_invariant (I := Filling)
      (fun s ts o hI ho => hI.start ho) (fun s l₁ t l₂ e k i hI hrest _ _ => hI.act hrest i) hp hm) k
  obtain ⟨es, hes⟩ : ∃ es, p.state.db.modules_fts = some es := hfilling.fts.present
  obtain ⟨ns, hns⟩ : ∃ ns, p.state.db.names_fts = some ns := hfilling.names.present
  refine ⟨es, ns, hes, hns, fun e he => ?_, fun e he => ?_, fun x hx => ?_⟩
  · obtain ⟨y, hy, rfl⟩ := hfilling.fts.own es hes e he
    obtain ⟨x, hx, rfl⟩ := List.mem_map.1 hy
    exact ⟨x, hx, rfl⟩
  · obtain ⟨y, hy, rfl⟩ := hfilling.names.own ns hns e he
    obtain ⟨x, hx, rfl⟩ := List.mem_map.1 hy
    exact ⟨x, hx, rfl⟩
  · by_cases hlate : Late p.tasks (x.2.source, Db.ftsRow x)
    · exact .inl hlate
    · have hmem : (x.2.source, Db.ftsRow x) ∈ p.state.db.texts := List.mem_map_of_mem hx
      exact .inr ⟨hfilling.fts.filter_eq hes hmem hlate, hfilling.names.filter_eq hns hmem hlate⟩

/-- A catalog of one row that has no index yet. -/
def bare : Store := { db := { modules := [(1, tinyRow)] } }

/-- A module that is there already is ingested. -/
def againMoves : List (Prog.Move Input Op) := [.start tinyOp, .step 0 {}]

theorem indexes_own_again : ∃ s₀ : Store, reindexFts.run (world tinyLib) (fun _ => {}) bare = (.ok (), s₀) ∧
    let p := Runs.state (Pool.move (master tinyLib)) ⟨s₀, []⟩ againMoves 2
    ∃ es ns, p.state.db.modules_fts = some es ∧ p.state.db.names_fts = some ns ∧
      es.filter (·.rowid = 1) = [Db.ftsRow (1, tinyRow)] ∧ ns.filter (·.rowid = 1) = [Db.namesRow (1, tinyRow)] := by
  let s₀ : Store := { bare with db := { bare.db with
    modules_fts := some [Db.ftsRow (1, tinyRow)], names_fts := some [Db.namesRow (1, tinyRow)] } }
  have hrun : reindexFts.run (world tinyLib) (fun _ => {}) bare = (.ok (), s₀) := rfl
  obtain ⟨r, hr, hend⟩ : ∃ r, tinyOp.prog tinyLib = .act (.getSourceMeta "b.zip!!tiny.xm") r ∧
      r (.ok (some (1, tinyRow.rootCid))) = .ret () := ⟨_, rfl, rfl⟩
  have hms : Runs.Along (Pool.move (master tinyLib)) (Pool.Obeys (master tinyLib) indexed) ⟨s₀, []⟩ againMoves :=
    Runs.along_cons Op.noConfusion
      (Pool.along_alone (t := ⟨tinyOp, [], tinyOp.prog tinyLib⟩) hr rfl trivial Runs.along_nil)
  have hstate : Runs.state (Pool.move (master tinyLib)) ⟨s₀, []⟩ againMoves 2 =
      ⟨s₀, [⟨tinyOp, [⟨.getSourceMeta "b.zip!!tiny.xm", .ok (some (1, tinyRow.rootCid))⟩], .ret ()⟩]⟩ := by
    have hfirst : Runs.state (Pool.move (master tinyLib)) ⟨s₀, []⟩ againMoves 2 = _ := Runs.state_cons
    have hnext : Runs.state (Pool.move (master tinyLib)) ⟨s₀, [⟨tinyOp, [], tinyOp.prog tinyLib⟩]⟩ [.step 0 {}] 1 = _ :=
      Pool.state_alone hr rfl
    rw [← hend]
    exact hfirst.trans hnext
  refine ⟨s₀, hrun, ?_⟩
  obtain ⟨es, ns, hes, hns, -, -, hown⟩ := indexes_own (s := bare) (List.nodup_singleton 1) hrun hms 2
  rw [hstate] at hes hns hown ⊢
  refine ⟨es, ns, hes, hns, (hown (1, tinyRow) (List.mem_singleton.2 rfl)).resolve_left ?_⟩
  rintro ⟨t, ht, hlate⟩
  obtain rfl := List.mem_singleton.1 ht
  exact hlate

end TrackerStream.CatalogIngest
