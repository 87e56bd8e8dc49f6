import TrackerStream.PlaylistDoc
import Mathlib

/-!
# playlists.db

The tables of the playlist store, which both clients create from the same SQL: one row a name, the search index
with its entries by name, and the (name, seq) pairs that were refused. `row_update`, `row_put` and `row_delete`
say what a statement does to the row of any name.
-/

namespace TrackerStream.Playlists

/-- A row, less its name, which is the key. -/
structure Row where
  key_name : Option String := none
  title : String := ""
  doc_json : String
  record_b64 : Option String := none
  seq : Int := 0
  size_bytes : Int := 0
  is_mine : Bool := false
  held : Bool := false
  published : Bool := false
  last_update_at : Int := 0
  last_played_at : Option Int := none
  eol : Int := 0
  tombstoned : Bool := false
  liked : Bool := false
deriving DecidableEq, Repr

/-- What the user is shown of a row. -/
structure PlaylistMeta where
  name : String
  title : String
  tracks : Nat
  is_mine : Bool
  held : Bool
  published : Bool
  dormant : Bool
  tombstoned : Bool
  liked : Bool
  size_bytes : Int
  last_update_at : Int
  last_played_at : Option Int

/-- An entry of the search index. -/
structure FtsEntry where
  name : String
  title : String
  tracks : String
deriving DecidableEq, Repr

structure Db where
  playlists : AList fun _ : String => Row
  fts : List FtsEntry
  rejected : List (String × Int)

namespace Db

def empty : Db := ⟨∅, [], []⟩

def row (db : Db) (name : String) : Option Row := db.playlists.lookup name

/-- All rows with their names. -/
def rows (db : Db) : List (String × Row) := db.playlists.entries.map fun e => (e.1, e.2)

/-- `UPDATE playlists SET .. WHERE name=?`. -/
def update (db : Db) (name : String) (f : Row → Row) : Db :=
  match db.row name with
  | some r => { db with playlists := db.playlists.insert name (f r) }
  | none => db

/-- The row of `name` becomes `r`, whether there was one or not. -/
def put (db : Db) (name : String) (r : Row) : Db := { db with playlists := db.playlists.insert name r }

/-- `DELETE FROM playlists WHERE name=?`. -/
def erase (db : Db) (name : String) : Db := { db with playlists := db.playlists.erase name }

/-- `DELETE FROM playlists_fts WHERE name=?`. -/
def unindex (db : Db) (name : String) : Db := { db with fts := db.fts.filter (·.name != name) }

/-- `INSERT INTO playlists_fts`. -/
def index (db : Db) (e : FtsEntry) : Db := { db with fts := db.fts ++ [e] }

/-- A row and its index entries go. -/
def delete (db : Db) (name : String) : Db := (db.erase name).unindex name

instance lawfulBEq_rejection : LawfulBEq (String × Int) := inferInstance

/-- `INSERT OR IGNORE INTO rejected`. -/
def reject (db : Db) (name : String) (seq : Int) : Db :=
  if (name, seq) ∈ db.rejected then db else { db with rejected := db.rejected ++ [(name, seq)] }

variable {db : Db} {name n : String} {f : Row → Row} {r : Row} {seq : Int} {e : FtsEntry}

theorem mem_rows : (n, r) ∈ db.rows ↔ db.row n = some r := by
  rw [row, ← Option.mem_def, AList.mem_lookup_iff, rows, List.mem_map]
  constructor
  · rintro ⟨⟨_, _⟩, he, rfl, rfl⟩
    exact he
  · exact fun h => ⟨_, h, rfl⟩

@[simp] theorem row_empty : empty.row n = none := AList.lookup_empty n

theorem row_update : (db.update name f).row n = if n = name then (db.row name).map f else db.row n := by
  rw [update]
  split
  next r hr =>
    rw [hr]
    split
    next h => subst h; exact AList.lookup_insert _
    next h => exact AList.lookup_insert_ne h
  next hr =>
    split
    next h => subst h; rw [hr]; rfl
    next => rfl

theorem row_put : (db.put name r).row n = if n = name then some r else db.row n := by
  rw [put]
  split
  next h => subst h; exact AList.lookup_insert _
  next h => exact AList.lookup_insert_ne h

@[simp] theorem row_unindex : (db.unindex name).row n = db.row n := rfl

@[simp] theorem row_index : (db.index e).row n = db.row n := rfl

theorem row_erase : (db.erase name).row n = if n = name then none else db.row n := by
  rw [erase]
  split
  next h => subst h; exact AList.lookup_erase _ _
  next h => exact AList.lookup_erase_ne h

theorem row_delete : (db.delete name).row n = if n = name then none else db.row n := row_erase

@[simp] theorem row_reject : (db.reject name seq).row n = db.row n := by
  rw [reject]
  split <;> rfl

@[simp] theorem rows_reject : (db.reject name seq).rows = db.rows := by
  rw [reject]
  split <;> rfl

@[simp] theorem playlists_reject : (db.reject name seq).playlists = db.playlists := by
  rw [reject]
  split <;> rfl

@[simp] theorem fts_reject : (db.reject name seq).fts = db.fts := by
  rw [reject]
  split <;> rfl

theorem mem_rejected_reject {x : String × Int} :
    x ∈ (db.reject name seq).rejected ↔ x ∈ db.rejected ∨ x = (name, seq) := by
  rw [reject]
  split
  next h => exact ⟨.inl, fun hx => hx.elim id fun hx => hx ▸ h⟩
  next => simp

@[simp] theorem fts_update : (db.update name f).fts = db.fts := by
  rw [update]
  split <;> rfl

@[simp] theorem rejected_update : (db.update name f).rejected = db.rejected := by
  rw [update]
  split <;> rfl

@[simp] theorem rejected_put : (db.put name r).rejected = db.rejected := rfl

@[simp] theorem rejected_index : (db.index e).rejected = db.rejected := rfl

@[simp] theorem rejected_unindex : (db.unindex name).rejected = db.rejected := rfl

@[simp] theorem rejected_delete : (db.delete name).rejected = db.rejected := rfl

/-! ### What holds of every row -/

/-- `P` holds of every row with its name. -/
def All (P : String → Row → Prop) (db : Db) : Prop := ∀ n r, db.row n = some r → P n r

variable {P P' : String → Row → Prop}

theorem All.empty : empty.All P := by
  intro n r h
  rw [row_empty] at h
  cases h

theorem All.mono (h : db.All P) (hP : ∀ n r, P n r → P' n r) : db.All P' := fun n r hr => hP n r (h n r hr)

theorem All.update (h : db.All P) (hf : ∀ r, db.row name = some r → P name r → P name (f r)) :
    (db.update name f).All P := by
  intro n r hr
  rw [row_update] at hr
  split at hr
  next heq =>
    subst heq
    obtain ⟨r', hr', rfl⟩ := Option.map_eq_some_iff.1 hr
    exact hf r' hr' (h n r' hr')
  next => exact h n r hr

theorem All.put (h : db.All P) (hr : P name r) : (db.put name r).All P := by
  intro n r' hr'
  rw [row_put] at hr'
  split at hr'
  next heq => cases hr'; exact heq ▸ hr
  next => exact h n r' hr'

theorem All.delete (h : db.All P) : (db.delete name).All P := by
  intro n r hr
  rw [row_delete] at hr
  split at hr
  next => cases hr
  next => exact h n r hr

theorem All.reject (h : db.All P) : (db.reject name seq).All P := fun n r hr => h n r (row_reject ▸ hr)

end Db
end TrackerStream.Playlists
