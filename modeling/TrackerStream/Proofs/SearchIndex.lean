import TrackerStream.PlaylistSearch
import TrackerStream.Proofs.Forged
import TrackerStream.Proofs.Newest
import TrackerStream.Proofs.Programs

/-!
# What a search finds is current

The desktop writes a row and its index entry in one act, and takes both away in one. So in every interleaving each row
has one entry, of the document it holds, and a search finds the playlists whose documents it matches: none that is gone,
none by a text it had before, none twice.
-/

namespace TrackerStream.Playlists
open Prog

variable {lib : Lib}

/-- The entry is of the document the row holds, if what it holds is a text. -/
def IsEntry (lib : Lib) (e : FtsEntry) (r : Row) : Prop :=
  ∃ doc, r.title = doc.t ∧ (r.doc_json = "" ∨ lib.fromJson (utf8 r.doc_json) = .ok doc) ∧
    e.title = doc.t ∧ e.tracks = tracksText doc

/-- The documents the store writes itself are read back as they were. -/
def readsBack (lib : Lib) : Pool.Rules Act Ans String Input Store Op where
  start _ _ _ := True
  act _ _ _ e _ := match e with
    | .create_row _ _ doc b | .edit_row _ doc b => lib.fromJson b = .ok doc
    | _ => True

/-- What is delivered was read from the bytes that are stored. -/
def Reading (lib : Lib) : Act → Prop
  | .ingest_row _ doc b _ _ => lib.fromJson b = .ok doc
  | _ => True

theorem fromJson_of_validate_doc {b : Bytes} {doc : PlaylistDoc} (h : validate_doc lib b = .ok doc) :
    lib.fromJson b = .ok doc := by
  rw [validate_doc] at h
  split at h
  · cases h
  split at h
  · cases h
  next doc' hdoc =>
    suffices doc' = doc by rw [hdoc, this]
    repeat' split at h
    all_goals cases h
    all_goals rfl

theorem reading_op (o : Op) : (Op.prog lib o).Only (Reading lib) := by
  refine only_op o (fun e he => ?_) (fun _ _ _ _ => trivial) (fun _ _ _ => trivial)
    fun _ _ _ _ _ h => fromJson_of_validate_doc h
  cases e <;> first | exact trivial | exact he.elim

section
variable {db : Db} {name : String} {doc : PlaylistDoc} {b : Bytes} {record : Option String} {seq eol now : Int}
  {s : Store} {e : Act} {i : Input} {t : Task Act Ans String Op} {ts : List (Task Act Ans String Op)}

theorem isEntry_upserted {old : Option Row} (hdoc : lib.fromJson b = .ok doc) :
    IsEntry lib ⟨name, doc.t, tracksText doc⟩ (upserted old doc b record seq eol now) := by
  refine ⟨doc, by cases old <;> rfl, ?_, rfl, rfl⟩
  rw [doc_json_upserted]
  cases hb : from_utf8 b with
  | none => exact .inl rfl
  | some text =>
    rw [Option.getD_some, from_utf8_eq_some.1 hb]
    exact .inr hdoc

theorem indexed_upsert_row (h : db.Indexed (IsEntry lib)) (hdoc : lib.fromJson b = .ok doc) :
    (upsert_row db name doc b record seq eol now).Indexed (IsEntry lib) :=
  h.write rfl (isEntry_upserted hdoc)

theorem indexed_ingest_row {pinned : Option String} {record : String} {seq : UInt64} (h : db.Indexed (IsEntry lib))
    (hdoc : lib.fromJson b = .ok doc) :
    (ingest_row lib db pinned name doc b record seq now).Indexed (IsEntry lib) := by
  rw [ingest_row]
  split
  · dsimp only
    split
    · exact h.update fun _ _ hE => hE
    · exact h.delete
  · exact indexed_upsert_row h hdoc

theorem indexed_evict {budget : Int} {pinned : Option String} {k : Nat} {evicted : Bool} (h : db.Indexed (IsEntry lib)) :
    (evict budget pinned k db evicted).1.Indexed (IsEntry lib) := by
  induction k generalizing db evicted with
  | zero => exact h
  | succ k ih =>
    rw [evict]
    split
    · exact h
    split
    · exact h
    · exact ih h.delete

/-- Every act leaves the index that of the rows. -/
theorem indexed_world (h : s.db.Indexed (IsEntry lib)) (hread : Reading lib e) (hlaw : (readsBack lib).act s ts t e i) :
    (world lib e i s).2.db.Indexed (IsEntry lib) := by
  cases e with
  | remember_rejected n seq => exact h.reject
  | ingest_row n doc b record seq => exact indexed_ingest_row h hread
  | evict p => exact indexed_evict h
  | mark_published n seq record => exact h.update fun _ _ hE => hE
  | create_row n key doc b => exact (indexed_upsert_row h hlaw).update fun _ _ hE => hE
  | edit_row n doc b => exact indexed_upsert_row h hlaw
  | delete_row n => exact h.delete
  | make_private n seq => exact h.update fun _ _ hE => hE
  | set_liked n => exact h.update fun _ _ hE => hE
  | set_held n held =>
    refine h.update fun e r hE => ?_
    split <;> exact hE
  | mark_played n => exact h.update fun _ _ hE => hE
  | playlist_publish key seq doc =>
    dsimp only [world]
    split <;> exact h
  | _ => exact h

end

/-- The index is that of the rows, and nothing but documents that were read is delivered. -/
structure Indexing (lib : Lib) (s : Store) (ts : List (Task Act Ans String Op)) : Prop where
  index : s.db.Indexed (IsEntry lib)
  reading : ∀ t ∈ ts, t.rest.Only (Reading lib)

variable {s₀ : Store} {ms : List (Prog.Move Input Op)}

theorem indexing_after (h : s₀.db.Indexed (IsEntry lib))
    (hms : Runs.Along (Pool.move (desktop lib)) (Pool.Obeys (desktop lib) (readsBack lib)) ⟨s₀, []⟩ ms) (k : Nat) :
    Indexing lib (after lib s₀ ms k).state (after lib s₀ ms k).tasks := by
  refine hms.always (I := fun p => Indexing lib p.state p.tasks) ⟨h, by rintro t ⟨⟩⟩ (fun p m hm hp => ?_) k
  refine Pool.move_invariant (I := Indexing lib) (fun s ts o hI _ => ⟨hI.index, fun t ht => ?_⟩)
    (fun s l₁ t l₂ e rest i hI hrest _ hlaw => ?_) hp hm
  · rcases List.mem_append.1 ht with ht | ht
    · exact hI.reading t ht
    · rw [List.mem_singleton.1 ht]
      exact reading_op o
  · have hread := hI.reading t (by simp)
    rw [hrest] at hread
    refine ⟨indexed_world hI.index hread.1 hlaw, fun u hu => ?_⟩
    rcases List.mem_append.1 hu with hu | hu
    · exact hI.reading u (List.mem_append_left _ hu)
    rcases List.mem_cons.1 hu with rfl | hu
    · exact hread.2 _
    · exact hI.reading u (List.mem_append_right _ (List.mem_cons_of_mem _ hu))

/-- What is found is each playlist whose document is hit, as it is, once; all of them if there is room. -/
structure Current (lib : Lib) (now : Int) (db : Db) (hit : FtsEntry → Bool) (metas : List PlaylistMeta) : Prop where
  shown : ∀ m ∈ metas, ∃ r, db.row m.name = some r ∧ m = row_meta lib now m.name r ∧
    ∀ doc, lib.fromJson (utf8 r.doc_json) = .ok doc → hit ⟨m.name, doc.t, tracksText doc⟩ = true
  once : (metas.map (·.name)).Nodup
  bounded : metas.length ≤ SEARCH_LIMIT
  all : metas.length < SEARCH_LIMIT → ∀ n r doc, db.row n = some r → lib.fromJson (utf8 r.doc_json) = .ok doc →
    hit ⟨n, doc.t, tracksText doc⟩ = true → ∃ m ∈ metas, m.name = n

/-- A row has no entry but that of its document. -/
theorem entry_eq (hempty : ∀ doc, lib.fromJson [] ≠ .ok doc) {e : FtsEntry} {r : Row} {doc : PlaylistDoc}
    (hE : IsEntry lib e r) (hdoc : lib.fromJson (utf8 r.doc_json) = .ok doc) : e = ⟨e.name, doc.t, tracksText doc⟩ := by
  obtain ⟨doc', -, hread, ht, htracks⟩ := hE
  rcases hread with hnone | hread
  · rw [hnone] at hdoc
    exact absurd hdoc (hempty doc)
  · rw [hdoc] at hread
    cases hread
    rw [← ht, ← htracks]

theorem current_of_finds (hempty : ∀ doc, lib.fromJson [] ≠ .ok doc) {now : Int} {db : Db} {hit : FtsEntry → Bool}
    {rows : List (String × Row)} (h : Finds (fun _ => True) (IsEntry lib) hit db rows) :
    Current lib now db hit (rows.map fun x => row_meta lib now x.1 x.2) := by
  refine ⟨fun m hm => ?_, ?_, ?_, ?_⟩
  · obtain ⟨⟨n, r⟩, hx, rfl⟩ := List.mem_map.1 hm
    refine ⟨r, h.row _ hx, rfl, fun doc hdoc => ?_⟩
    obtain ⟨e, hname, hE, hhit⟩ := h.matched _ hx trivial
    rw [entry_eq hempty hE hdoc, hname] at hhit
    exact hhit
  · rw [List.map_map, List.nodup_iff_count_le_one]
    exact fun n => h.once n trivial
  · rw [List.length_map]
    exact h.bounded
  · intro hlt n r doc hrow hdoc hhit
    rw [List.length_map] at hlt
    refine ⟨_, List.mem_map_of_mem (h.all hlt n r trivial hrow fun e hname hE => ?_), rfl⟩
    rw [entry_eq hempty hE hdoc, hname]
    exact hhit

theorem search_current (lib : Lib) (fts : Fts) (hempty : ∀ doc, lib.fromJson [] ≠ .ok doc) (s₀ : Store)
    (h : s₀.db.Indexed (IsEntry lib)) (ms : List (Prog.Move Input Op))
    (hms : Runs.Along (Pool.move (desktop lib)) (Pool.Obeys (desktop lib) (readsBack lib)) ⟨s₀, []⟩ ms) (k : Nat)
    (now : Int) (q : String) (hq : trim q ≠ "") (metas : List PlaylistMeta)
    (hsearch : search lib fts now (after lib s₀ ms k).state.db q = .ok metas) :
    Current lib now (after lib s₀ ms k).state.db (fts.hit (matchExpr (trim q))) metas := by
  rw [search, searchRows, if_neg hq, found] at hsearch
  cases hhits : fts.select (matchExpr (trim q)) (after lib s₀ ms k).state.db.fts with
  | error e =>
    rw [hhits] at hsearch
    cases hsearch
  | ok hits =>
    rw [hhits] at hsearch
    cases hsearch
    exact current_of_finds hempty
      (finds_of_indexed (fun n _ => (indexing_after h hms k).index n) (fts.perm_of_select _ _ _ hhits))

/-! ### A delivery is found -/

/-- The index, where titles are single words. -/
def wordIndex : Fts where
  select expr fts := .ok (fts.filter fun e => matchExpr e.title = expr)
  hit expr e := matchExpr e.title = expr
  perm_of_select := by
    rintro expr fts hits h
    cases h
    exact .refl _

/-- The row that is delivered. -/
def deliveredRow : Row :=
  upserted none (newDoc "a" []) docA (some (base64 recordA)) (as_i64 1)
    (record_eol_secs sample.lib.toIpnsLib (base64 recordA)) 1780000000

theorem reading_delivery :
    Runs.Along (Pool.move (desktop sample.lib)) (Pool.Obeys (desktop sample.lib) (readsBack sample.lib))
      ⟨freshStore, []⟩ delivery := by
  obtain ⟨k, hprog, hk⟩ := steps_delivery
  refine Runs.along_cons trivial ?_
  refine Pool.along_alone (t := ⟨Op.ingest_wire genuine, [], Op.prog sample.lib (.ingest_wire genuine)⟩) hprog rfl trivial ?_
  refine Pool.along_alone hk rfl trivial ?_
  refine Pool.along_alone steps_new rfl trivial ?_
  exact Runs.along_cons trivial Runs.along_nil

theorem db_delivery : (after sample.lib freshStore delivery 4).state.db =
    ((Db.empty.put ownName deliveredRow).unindex ownName).index ⟨ownName, "a", ""⟩ := by
  obtain ⟨k, hprog, hk⟩ := steps_delivery
  have hstart : Pool.move (desktop sample.lib) ⟨freshStore, []⟩ (.start (.ingest_wire genuine)) =
      ⟨freshStore, [⟨.ingest_wire genuine, [], Op.prog sample.lib (.ingest_wire genuine)⟩]⟩ := rfl
  rw [after, Runs.state_succ (k := 3) (i := .step 0 quiet) rfl, Runs.state_succ (k := 2) (i := .step 0 quiet) rfl,
    Runs.state_succ (k := 1) (i := .step 0 quiet) rfl, Runs.state_succ (k := 0) (i := .start (.ingest_wire genuine)) rfl,
    Runs.state_zero, hstart, Pool.move_alone hprog rfl, Pool.move_alone hk rfl, Pool.move_alone steps_new rfl]
  rfl

theorem search_current_delivery : ∃ metas, search sample.lib wordIndex 1780000000
      (after sample.lib freshStore delivery 4).state.db "a" = .ok metas ∧ metas.length = 1 ∧
    Current sample.lib 1780000000 (after sample.lib freshStore delivery 4).state.db (wordIndex.hit (matchExpr (trim "a")))
      metas := by
  have htrim : trim "a" = "a" := by decide +kernel
  have hsearch : search sample.lib wordIndex 1780000000 (after sample.lib freshStore delivery 4).state.db "a" =
      .ok [row_meta sample.lib 1780000000 ownName deliveredRow] := by
    have hhits : [(⟨ownName, "a", ""⟩ : FtsEntry)].filter (fun e => matchExpr e.title = matchExpr (trim "a")) =
        [⟨ownName, "a", ""⟩] := by rw [htrim, List.filter_cons_of_pos (by simp), List.filter_nil]
    rw [db_delivery, search, searchRows, if_neg (by rw [htrim]; decide), found]
    show (Except.ok ((joined _ ([(⟨ownName, "a", ""⟩ : FtsEntry)].filter
      (fun e => matchExpr e.title = matchExpr (trim "a")))).take SEARCH_LIMIT) : Except String _).map _ = _
    rw [hhits, joined, List.filterMap_cons, Db.row_index, Db.row_unindex, Db.row_put, if_pos rfl]
    rfl
  refine ⟨_, hsearch, rfl, ?_⟩
  have hempty : (sample.docs.find? fun x => utf8 x.2 = []) = none := by decide +kernel
  refine search_current sample.lib wordIndex (fun doc h => ?_) freshStore .empty delivery reading_delivery 4 1780000000 "a"
    (by rw [htrim]; decide) _ hsearch
  simp only [Tables.lib, hempty] at h
  cases h

end TrackerStream.Playlists
