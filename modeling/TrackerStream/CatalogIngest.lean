import TrackerStream.DagV3
import TrackerStream.Rely

/-!
# Filling the catalog (`ingest.ts`, `catalog.ts`, `kubo.ts` `loadDagToKubo`)

The master's ingest takes each module of the corpus to a DAG on the node, a recursive pin of its root and a row of the
catalog with two full-text index entries. Every statement and every request to the node is an act: it is done, or it is
not, or it is and its answer is lost; whoever loses an answer fails there, as a process does that dies. Several
processes and workers run side by side.
-/

namespace TrackerStream.CatalogIngest

/-! ### The data -/

structure ModuleMeta where
  type : String
  title : String
  /-- The bits of a double. -/
  duration : UInt64
  channels : Nat
  numSamples : Nat
  numInstruments : Nat
  numSubsongs : Nat
  instruments : String
  comment : String
deriving DecidableEq

structure ModuleRow where
  source : String
  filename : String
  format : String
  title : String
  duration : UInt64
  channels : Nat
  numSamples : Nat
  numInstruments : Nat
  numSubsongs : Nat
  rootCid : String
  numBlocks : Nat
  sizeBytes : Nat
  instruments : String
  comment : String
  md5 : Option String
  genreId : Option Nat
  ingestedAt : Int := 0
deriving DecidableEq

structure CorpusModule where
  source : String
  name : String
  bytes : Bytes
deriving DecidableEq

/-- A row of `modules_fts`. -/
structure FtsRow where
  rowid : Nat
  title : String
  filename : String
  instruments : String
  comment : String
deriving DecidableEq

/-- A row of `names_fts`. -/
structure NamesRow where
  rowid : Nat
  title : String
  filename : String
deriving DecidableEq

/-- The tables; an index that was dropped is `none`. -/
structure Db where
  modules : List (Nat × ModuleRow) := []
  modules_fts : Option (List FtsRow) := none
  names_fts : Option (List NamesRow) := none
  genres : List (Nat × String) := []

/-- The catalog, and the blocks and recursive pins of the node. -/
structure Store where
  db : Db := {}
  blocks : List Block := []
  pins : List String := []

/-- libopenmpt, the codecs, the hash of the node and the text form of CIDs. -/
structure Lib where
  codec : Codec
  flac : FlacLib
  extractModule : Bytes → Option (ModuleMeta × List DecodedSample)
  md5 : Bytes → String
  toLowerCase : String → String
  nodeSha256 : Bytes → Bytes
  text : Cid → String
  parse : String → Option Cid
  parse_text : ∀ c, parse (text c) = some c

/-! ### The tables -/

namespace Db

def sourceMeta (db : Db) (source : String) : Option (Nat × String) :=
  (db.modules.find? fun x => x.2.source = source).map fun x => (x.1, x.2.rootCid)

def nextId (db : Db) : Nat := (db.modules.map (·.1)).foldr max 0 + 1

/-- `ON CONFLICT(source) DO NOTHING`; the id of the row, if it is new. -/
def insertRow (db : Db) (m : ModuleRow) (now : Int) : Option Nat × Db :=
  if db.modules.any (·.2.source = m.source) then (none, db)
  else (some db.nextId, { db with modules := db.modules ++ [(db.nextId, { m with ingestedAt := now })] })

def updateWhere (db : Db) (p : Nat × ModuleRow → Bool) (f : ModuleRow → ModuleRow) : Db :=
  { db with modules := db.modules.map fun x => if p x then (x.1, f x.2) else x }

def setRoot (db : Db) (id : Nat) (root : String) (numBlocks : Nat) : Db :=
  db.updateWhere (·.1 = id) fun m => { m with rootCid := root, numBlocks }

def setMd5 (db : Db) (source md5 : String) : Db :=
  db.updateWhere (fun x => x.2.source = source ∧ x.2.md5 = none) fun m => { m with md5 := some md5 }

/-- One row of `genres`. -/
def upsertGenre (db : Db) (label : Nat × String) : Db :=
  if db.genres.any (·.1 = label.1) then
    { db with genres := db.genres.map fun g => if g.1 = label.1 then label else g }
  else { db with genres := db.genres ++ [label] }

def clearGenres (db : Db) : Db := db.updateWhere (fun _ => true) fun m => { m with genreId := none }

def stampGenre (db : Db) (x : String × Nat) : Db :=
  db.updateWhere (·.2.md5 = some x.1) fun m => { m with genreId := some x.2 }

def ftsRow (x : Nat × ModuleRow) : FtsRow := ⟨x.1, x.2.title, x.2.filename, x.2.instruments, x.2.comment⟩

def namesRow (x : Nat × ModuleRow) : NamesRow := ⟨x.1, x.2.title, x.2.filename⟩

end Db

/-! ### The acts -/

inductive Act
  | createTables
  | getSourceMeta (source : String)
  | insertRow (m : ModuleRow)
  | insertFts (e : FtsRow)
  | insertNames (e : NamesRow)
  | setRoot (id : Nat) (root : String) (numBlocks : Nat)
  | md5Missing (source : String)
  | setMd5 (source md5 : String)
  | upsertGenres (labels : List (Nat × String))
  | stampGenres (byMd5 : List (String × Nat)) (clearFirst : Bool)
  | dropFts
  | createFts
  | fillFts
  | dropNames
  | createNames
  | fillNames
  /-- A worker thread bakes a module. -/
  | bakeWorker (bakeV4 : Bool) (m : CorpusModule)
  | blockPutMany (entries : List Block)
  | pinAdd (root : Cid)
  | pinRm (root : String)

/-- A bake: the root and what the blocks are made from. -/
structure Baked where
  root : Cid
  made : List Payload
  isFlat : Bool

abbrev Res : Act → Type
  | .getSourceMeta _ => Option (Nat × String)
  | .insertRow _ => Option Nat
  | .md5Missing _ => Bool
  | .bakeWorker _ _ => Option Baked
  | .blockPutMany _ => List Cid
  | _ => Unit

abbrev Ans (e : Act) : Type := Except String (Res e)

/-- What becomes of an act. -/
inductive Reply
  | done
  | lost
  | failed
deriving DecidableEq

structure Input where
  reply : Reply := .done
  now : Int := 0

/-! ### The bake -/

def ext (lib : Lib) (name : String) : String := lib.toLowerCase ((name.splitOn ".").getLast?.getD "")

def Baked.blocks (lib : Lib) (d : Baked) : List Block := lib.codec.addAll d.made

/-- v3 or v4 for what parses and decodes. -/
def bakeStreamed (lib : Lib) (bakeV4 : Bool) (bytes : Bytes) : Option Baked :=
  match lib.extractModule bytes, detectFormat bytes with
  | some mod, some fmt =>
    if fmt = .mo3 then none
    else if bakeV4 then
      (buildDagV4 lib.codec lib.flac bytes mod.2 DEFAULT_CDC).toOption.map fun d => ⟨d.root, d.made, false⟩
    else (buildDagV3 lib.codec bytes mod.2 DEFAULT_CDC).toOption.map fun d => ⟨d.root, d.made, false⟩
  | _, _ => none

/-- Else by its sample regions, else the whole file. -/
def bake (lib : Lib) (bakeV4 : Bool) (m : CorpusModule) : Option Baked :=
  bakeStreamed lib bakeV4 m.bytes <|>
    (buildDag lib.codec m.bytes DEFAULT_CDC).toOption.map (fun d => ⟨d.root, d.made, false⟩) <|>
    (buildFlatDag lib.codec m.bytes (ext lib m.name) DEFAULT_CDC).toOption.map fun d => ⟨d.root, d.made, true⟩

/-! ### What an act does -/

/-- How the node stores what it is sent. -/
def nodeBlock (lib : Lib) (b : Block) : Block := ⟨⟨b.cid.codec, lib.nodeSha256 b.bytes⟩, b.bytes⟩

def onDb {α : Type} (s : Store) (a : α) (db : Db) : Except String α × Store := (.ok a, { s with db })

def missing {α : Type} (s : Store) (table : String) : Except String α × Store := (.error s!"no such table: {table}", s)

def effect (lib : Lib) : (e : Act) → Int → Store → Ans e × Store
  | .createTables, _, s => onDb s () { s.db with
      modules_fts := some (s.db.modules_fts.getD []), names_fts := some (s.db.names_fts.getD []) }
  | .getSourceMeta source, _, s => (.ok (s.db.sourceMeta source), s)
  | .insertRow m, now, s => onDb s (s.db.insertRow m now).1 (s.db.insertRow m now).2
  | .insertFts e, _, s =>
    match s.db.modules_fts with
    | some fts => onDb s () { s.db with modules_fts := some (fts ++ [e]) }
    | none => missing s "modules_fts"
  | .insertNames e, _, s =>
    match s.db.names_fts with
    | some fts => onDb s () { s.db with names_fts := some (fts ++ [e]) }
    | none => missing s "names_fts"
  | .setRoot id root n, _, s => onDb s () (s.db.setRoot id root n)
  | .md5Missing source, _, s => (.ok (s.db.modules.any fun x => x.2.source = source ∧ x.2.md5 = none), s)
  | .setMd5 source md5, _, s => onDb s () (s.db.setMd5 source md5)
  | .upsertGenres labels, _, s => onDb s () (labels.foldl Db.upsertGenre s.db)
  | .stampGenres byMd5 clearFirst, _, s =>
    onDb s () (byMd5.foldl Db.stampGenre (if clearFirst then s.db.clearGenres else s.db))
  | .dropFts, _, s => onDb s () { s.db with modules_fts := none }
  | .createFts, _, s =>
    match s.db.modules_fts with
    | some _ => (.error "table modules_fts already exists", s)
    | none => onDb s () { s.db with modules_fts := some [] }
  | .fillFts, _, s =>
    match s.db.modules_fts with
    | some fts => onDb s () { s.db with modules_fts := some (fts ++ s.db.modules.map Db.ftsRow) }
    | none => missing s "modules_fts"
  | .dropNames, _, s => onDb s () { s.db with names_fts := none }
  | .createNames, _, s =>
    match s.db.names_fts with
    | some _ => (.error "table names_fts already exists", s)
    | none => onDb s () { s.db with names_fts := some [] }
  | .fillNames, _, s =>
    match s.db.names_fts with
    | some fts => onDb s () { s.db with names_fts := some (fts ++ s.db.modules.map Db.namesRow) }
    | none => missing s "names_fts"
  | .bakeWorker bakeV4 m, _, s => (.ok (bake lib bakeV4 m), s)
  | .blockPutMany entries, _, s => (.ok ((entries.map (nodeBlock lib)).map Block.cid),
      { s with blocks := BlockStore.putAll Block.cid s.blocks (entries.map (nodeBlock lib)) })
  | .pinAdd root, _, s => (.ok (), { s with pins := lib.text root :: s.pins })
  | .pinRm root, _, s => (.ok (), { s with pins := s.pins.filter (· ≠ root) })

def world (lib : Lib) : Prog.World Act Ans Input Store := fun e i s =>
  match i.reply with
  | .done => effect lib e i.now s
  | .lost => (.error "connection lost", (effect lib e i.now s).2)
  | .failed => (.error "not done", s)

/-! ### The programs -/

abbrev Ingest := Prog Act Ans String

/-- An act whose failure is the program's. -/
def ask (e : Act) : Ingest (Res e) := do Prog.ofExcept (← Prog.call e)

def getSourceMeta (source : String) : Ingest (Option (Nat × String)) := ask (.getSourceMeta source)

def md5Missing (source : String) : Ingest Bool := ask (.md5Missing source)

/-- A job for the pool, whose failure is an answer. -/
def runWorker (bakeV4 : Bool) (m : CorpusModule) : Ingest (Except String (Option Baked)) :=
  Prog.call (Act.bakeWorker bakeV4 m)

def CAP : Nat := 16 * 64

/-- The list in pieces of at most `cap`. -/
def slices {α : Type} (cap : Nat) (xs : List α) : List (List α) :=
  (List.range ((xs.length + cap - 1) / cap)).map fun i => (xs.drop (i * cap)).take cap

/-- The blocks that are not stored under their CIDs. -/
def mismatches (lib : Lib) (slice : List Block) (got : List Cid) : List String :=
  slice.zipIdx.filterMap fun (b, j) =>
    if got[j]?.map lib.text = some (lib.text b.cid) then none
    else some (lib.text b.cid ++ " != " ++ (got[j]?.map lib.text).getD "undefined")

def putSlice (lib : Lib) (mismatched : List String) (slice : List Block) : Ingest (List String) := do
  let got ← ask (.blockPutMany slice)
  return mismatched ++ mismatches lib slice got

/-- Put every block of a DAG and pin its root; what was mismatched. -/
def loadDagToKubo (lib : Lib) (blocks : List Block) (root : Cid) : Ingest (List String) := do
  let mismatched ← (slices CAP blocks).foldlM (putSlice lib) []
  ask (.pinAdd root)
  return mismatched

def insert (m : ModuleRow) : Ingest Unit := do
  match ← ask (.insertRow m) with
  | none => return
  | some id =>
    ask (.insertFts (Db.ftsRow (id, m)))
    ask (.insertNames (Db.namesRow (id, m)))

def updateRoot (source root : String) (numBlocks : Nat) : Ingest (Option Nat) := do
  match ← getSourceMeta source with
  | none => return none
  | some (id, _) =>
    ask (.setRoot id root numBlocks)
    return some id

structure IngestOpts where
  rebuild : Bool
  bakeV4 : Bool
deriving DecidableEq

/-- How a module is counted. -/
inductive Tally
  | skipped
  | unchanged
  | failed (reason : String)
  | rebuilt
  | processed (isFlat : Bool)

/-- A new DAG for a module that is catalogued under `root`. -/
def rebuild (lib : Lib) (source root : String) (dag : Baked) (phase : String) : Ingest Tally := do
  if lib.text dag.root = root then return .unchanged
  match ← (loadDagToKubo lib (dag.blocks lib) dag.root).attempt with
  | .error _ => return .failed "loadDagToKubo threw (rebuild)"
  | .ok mismatched =>
    if mismatched.length ≠ 0 then
      return .failed s!"loadDagToKubo: {mismatched.length} block(s) mismatched{phase}"
    else
      let _ ← updateRoot source (lib.text dag.root) (dag.blocks lib).length
      -- an orphan pin is harmless
      let _ ← Prog.call (.pinRm root)
      return .rebuilt

def newRow (lib : Lib) (byMd5 : List (String × Nat)) (m : CorpusModule) (dag : Baked) (info : ModuleMeta) : ModuleRow where
  source := m.source
  filename := m.name
  format := if info.type = "" then ext lib m.name else info.type
  title := if info.title = "" then m.name else info.title
  duration := info.duration
  channels := info.channels
  numSamples := info.numSamples
  numInstruments := info.numInstruments
  numSubsongs := info.numSubsongs
  rootCid := lib.text dag.root
  numBlocks := (dag.blocks lib).length
  sizeBytes := m.bytes.length
  instruments := info.instruments
  comment := info.comment
  md5 := some (lib.md5 m.bytes)
  genreId := byMd5.lookup (lib.md5 m.bytes)

/-- A module that is not catalogued yet. -/
def add (lib : Lib) (byMd5 : List (String × Nat)) (m : CorpusModule) (dag : Baked) : Ingest Tally := do
  match ← (loadDagToKubo lib (dag.blocks lib) dag.root).attempt with
  | .error _ => return .failed "loadDagToKubo threw (new)"
  | .ok mismatched =>
    if mismatched.length ≠ 0 then return .failed s!"loadDagToKubo: {mismatched.length} block(s) mismatched (new)"
    else
      match lib.extractModule m.bytes with
      | none => return .failed "no metadata (libopenmpt could not parse)"
      | some mod =>
        insert (newRow lib byMd5 m dag mod.1)
        return .processed dag.isFlat

/-- The main thread's way with a module. -/
def ingestModule (lib : Lib) (opts : IngestOpts) (byMd5 : List (String × Nat)) (m : CorpusModule) : Ingest Tally := do
  let existing ← getSourceMeta m.source
  if existing.isSome && !opts.rebuild then return .skipped
  match bake lib opts.bakeV4 m with
  | none => return .failed "buildFlatDag threw (unbakeable)"
  | some dag =>
    match existing with
    | some (_, root) => rebuild lib m.source root dag " (rebuild)"
    | none => add lib byMd5 m dag

/-- With worker threads only what is catalogued is baked again. -/
def rebakeModule (lib : Lib) (opts : IngestOpts) (m : CorpusModule) : Ingest Tally := do
  match ← getSourceMeta m.source with
  | none => return .skipped
  | some (_, root) =>
    if !opts.rebuild then return .skipped
    match ← runWorker opts.bakeV4 m with
    | .error _ => return .failed "bake/apply pipeline threw"
    | .ok none => return .failed "worker bake failed"
    | .ok (some dag) =>
      match ← (rebuild lib m.source root dag "").attempt with
      | .error _ => return .failed "bake/apply pipeline threw"
      | .ok tally => return tally

def backfillMd5 (lib : Lib) (m : CorpusModule) : Ingest Unit := do
  if ← md5Missing m.source then ask (.setMd5 m.source (lib.md5 m.bytes))

def applyGenres (byMd5 : List (String × Nat)) (labels : List (Nat × String)) (clearFirst : Bool) : Ingest Unit := do
  ask (.upsertGenres labels)
  ask (.stampGenres byMd5 clearFirst)

def reindexFts : Ingest Unit := do
  ask .dropFts
  ask .createFts
  ask .fillFts
  ask .dropNames
  ask .createNames
  ask .fillNames

inductive Op
  | openCatalog
  | upsertGenres (labels : List (Nat × String))
  | ingestModule (opts : IngestOpts) (byMd5 : List (String × Nat)) (m : CorpusModule)
  | rebakeModule (opts : IngestOpts) (m : CorpusModule)
  | backfillMd5 (m : CorpusModule)
  | applyGenres (byMd5 : List (String × Nat)) (labels : List (Nat × String)) (clearFirst : Bool)
  | reindexFts

def Op.prog (lib : Lib) : Op → Ingest Unit
  | openCatalog => ask .createTables
  | upsertGenres labels => ask (.upsertGenres labels)
  | ingestModule opts byMd5 m => do let _ ← CatalogIngest.ingestModule lib opts byMd5 m
  | rebakeModule opts m => do let _ ← CatalogIngest.rebakeModule lib opts m
  | backfillMd5 m => CatalogIngest.backfillMd5 lib m
  | applyGenres byMd5 labels clearFirst => CatalogIngest.applyGenres byMd5 labels clearFirst
  | reindexFts => CatalogIngest.reindexFts

/-- The master with any number of ingests. -/
def master (lib : Lib) : Prog.System Act Ans String Input Store Op := ⟨world lib, fun _ _ => true, Op.prog lib⟩

end TrackerStream.CatalogIngest
