import TrackerStream.Guards
import TrackerStream.Ipld
import TrackerStream.Lru
import TrackerStream.Runs

/-!
# Reading the catalog page by page

A query reads pages of the catalog's database; those the shared cache does not have are fetched as one wave, with some
read-ahead inside a forward scan. The browser's engine runs one query after another and has one scheduler for all of
them, which looks at its cancel epoch at each read (`scheduler.ts`, `engine.ts`, `vfs.ts`); on the desktop each query
opens a file of its own, which has the epoch of that moment (`catalog.rs`). `Guards` records what was started for whom.
-/

namespace TrackerStream.PageReads

/-- Also `PREFETCH_CHUNKS`. -/
def PREFETCH_PAGES : Nat := 15
def PREFETCH_MIN_RUN : Nat := 4
def FETCH_CONCURRENCY : Nat := 16
/-- Also `PAGE_CACHE_CHUNKS`. -/
def PAGE_CACHE_PAGES : Nat := 4096
def CHUNK : Nat := 16 * 1024

abbrev Key := String × Nat

abbrev PageCache := Lru Key Bytes PAGE_CACHE_PAGES

namespace PageCache

/-- An entry that is there is already correct. -/
def put (c : PageCache) (k : Key) (v : Bytes) : PageCache := if (c.find k).isSome then c else c.add k v

/-- Takes pages one after the other; `false` at the first that is not resident. -/
def serve (c : PageCache) : List Key → PageCache × Bool
  | [] => (c, true)
  | k :: ks => if (c.find k).isSome then serve (c.touch k) ks else (c, false)

end PageCache

def span (first last : Nat) : List Nat := List.range' first (last + 1 - first)

/-- A read that goes on where the one before it ended. -/
def advancing (lastEnd : Option Nat) (first : Nat) : Bool := lastEnd.any fun le => first = le ∨ first = le + 1

/-- The last page to fetch. -/
def readAhead (seqRun last lastPage : Nat) : Nat :=
  if PREFETCH_MIN_RUN ≤ seqRun then min (last + PREFETCH_PAGES) lastPage else last

/-- A wave of fetches for the read of pages `first` to `last`. -/
structure Batch where
  query : Nat
  epoch : Nat
  first : Nat
  last : Nat
  missing : List Nat
  next : Nat := 0
  inflight : List Nat := []
  /-- What came back, or `none` for a failure. -/
  got : List (Nat × Option Bytes) := []
deriving DecidableEq

def Batch.landed (b : Batch) (i : Nat) (result : Option Bytes) : Batch :=
  { b with inflight := b.inflight.erase i, got := b.got ++ [(i, result)] }

/-! ### The browser -/

structure TszcatManifest where
  root : String
  pageSize : Nat
  pageCount : Nat

/-- The query that holds the queue; once a read of it failed, its statement unwinds. -/
structure Running where
  query : Nat
  reading : Option Batch := none
  unwound : Bool := false
deriving DecidableEq

structure Engine where
  guards : Guards Nat := {}
  seqRun : Nat := 0
  lastEnd : Option Nat := none
  cache : PageCache := .empty
  asked : Nat := 0
  queue : List Nat := []
  running : Option Running := none
  /-- Waves of failed reads; their workers go on. -/
  orphans : List Batch := []

/-- A worker of `pooled` takes its next task. -/
def Batch.turn (b : Batch) (g : Guards Nat) : Batch × Guards Nat :=
  match b.missing[b.next]? with
  | none => (b, g)
  | some i =>
    if g.epoch = b.epoch then ({ b with next := b.next + 1, inflight := b.inflight ++ [i] }, g.start b.query)
    else ({ b with next := b.missing.length }, g.cut b.query)

inductive Engine.Act
  | query
  | start
  | read (offset len : Nat)
  /-- A fetch of the running read, or of an earlier wave, is done; `none` if it or the decoding failed. -/
  | fetched (orphan : Option Nat) (page : Nat) (plain : Option Bytes)
  | finish
  | cancel

namespace Engine
variable (man : TszcatManifest)

/-- `ensure` is through: the pages are taken. -/
def serve (e : Engine) (r : Running) (first last : Nat) : Engine :=
  let served := e.cache.serve ((span first last).map (man.root, ·))
  { e with cache := served.1, running := some { r with reading := none, unwound := !served.2 } }

def ensure (e : Engine) (r : Running) (first last : Nat) : Engine :=
  let seqRun := if advancing e.lastEnd first then e.seqRun + 1 else 0
  let pages := span first (readAhead seqRun last (man.pageCount - 1))
  let missing := pages.filter fun i => (e.cache.find (man.root, i)).isNone
  let guards := e.guards.capture r.query
  let e' := { e with
    seqRun
    guards
    lastEnd := some last
    cache := pages.foldl (fun c i => c.touch (man.root, i)) e.cache }
  if missing = [] then e'.serve man r first last
  else
    let pooled := (fun x => x.1.turn x.2)^[min FETCH_CONCURRENCY missing.length]
      (({ query := r.query, epoch := guards.epoch, first, last, missing } : Batch), guards.start r.query)
    { e' with guards := pooled.2, running := some { r with reading := some pooled.1 } }

def jRead (e : Engine) (r : Running) (offset len : Nat) : Engine :=
  let size := man.pageSize * man.pageCount
  if len = 0 ∨ size ≤ offset then e
  else e.ensure man r (offset / man.pageSize) ((min (offset + len) size - 1) / man.pageSize)

/-- A fetch of the wave a read waits for. The first failure fails the read. -/
def fetched (e : Engine) (r : Running) (b : Batch) (i : Nat) (plain : Option Bytes) : Engine :=
  match plain with
  | none => { e with
      running := some { r with reading := none, unwound := true }
      orphans := e.orphans ++ [b.landed i none] }
  | some plain =>
    let turned := (b.landed i (some plain)).turn e.guards
    if turned.1.inflight ≠ [] then { e with guards := turned.2, running := some { r with reading := some turned.1 } }
    else if turned.2.epoch ≠ b.epoch then { e with
      guards := turned.2.cut b.query
      running := some { r with reading := none, unwound := true } }
    else { e with
      guards := turned.2
      cache := b.missing.foldl (fun c i => match (turned.1.got.lookup i).join with
        | some plain => PageCache.put c (man.root, i) plain
        | none => c) e.cache }.serve man r b.first b.last

/-- A fetch of a wave nobody waits for. -/
def orphaned (e : Engine) (j : Nat) (b : Batch) (i : Nat) (plain : Option Bytes) : Engine :=
  match plain with
  | none => { e with orphans := e.orphans.set j (b.landed i none) }
  | some plain =>
    let turned := (b.landed i (some plain)).turn e.guards
    { e with guards := turned.2, orphans := e.orphans.set j turned.1 }

def step (e : Engine) : Act → Engine
  | .query => { e with asked := e.asked + 1, guards := e.guards.ask e.asked, queue := e.queue ++ [e.asked] }
  | .start =>
    match e.running, e.queue with
    | none, q :: rest => { e with queue := rest, running := some { query := q } }
    | _, _ => e
  | .read offset len =>
    match e.running with
    | some r => if r.reading = none ∧ !r.unwound then e.jRead man r offset len else e
    | none => e
  | .fetched none i plain =>
    match e.running with
    | some r =>
      match r.reading with
      | some b => if i ∈ b.inflight then e.fetched man r b i plain else e
      | none => e
    | none => e
  | .fetched (some j) i plain =>
    match e.orphans[j]? with
    | some b => if i ∈ b.inflight then e.orphaned j b i plain else e
    | none => e
  | .finish => if e.running.any (·.reading = none) then { e with running := none } else e
  | .cancel => { e with guards := e.guards.cancel }

/-- No query has been asked for yet; pages may be known. -/
def idle (cache : PageCache) : Engine := { cache }

def after (e : Engine) (acts : List Act) (k : Nat) : Engine := Runs.state (step man) e acts k

/-- A cancellation comes when no query is queued and the running one, if any, waits for pages or unwinds. -/
def onlyReading (e : Engine) : Act → Bool
  | .cancel => e.queue = [] ∧ e.running.all fun r => r.reading.isSome || r.unwound
  | _ => true

end Engine

/-! ### The desktop -/

inductive Format
  | raw (size : Nat)
  | zstd (pageSize : Nat) (pages : List String)

namespace Format

def size : Format → Nat
  | raw size => size
  | zstd pageSize pages => pageSize * pages.length

def unit : Format → Nat
  | raw _ => CHUNK
  | zstd pageSize _ => pageSize

def lastPage : Format → Nat
  | raw size => if size = 0 then 0 else (size - 1) / CHUNK
  | zstd _ pages => pages.length - 1

/-- A page's place in the shared cache. -/
def key (cid : String) (i : Nat) : Format → Key
  | raw _ => (cid, i)
  | zstd _ pages => (pages.getD i "", 0)

end Format

structure CatalogFile where
  query : Nat
  cid : String
  epoch : Nat
  /-- Known once the file is open. -/
  format : Option Format := none
  /-- A range of the header or of the manifest is being fetched. -/
  probing : Bool := false
  lastEnd : Option Nat := none
  seqRun : Nat := 0
  reading : Option Batch := none

/-- What the fetched range says. -/
inductive Probed
  | failed
  /-- The root is a manifest, which is fetched whole. -/
  | manifest
  | format (f : Format)

structure Vfs where
  /-- With `CANCEL_EPOCH`. -/
  guards : Guards Nat := {}
  cache : PageCache := .empty
  /-- `manifest_cache` and `size_cache`. -/
  known : AList fun _ : String => Format
  asked : Nat := 0
  /-- Queries whose blocking thread has not begun. -/
  waiting : List (Nat × String) := []
  files : Nat → Option CatalogFile := fun _ => none

inductive Vfs.Act
  | query (cid : String)
  | start (query : Nat)
  | opens (query : Nat)
  | probed (query : Nat) (answer : Probed)
  | read (query offset len : Nat)
  /-- `buffer_unordered` takes the next fetch. -/
  | dial (query : Nat)
  | fetched (query page : Nat) (bytes : Option Bytes)
  /-- The cancel arm of the race has won. -/
  | drop (query : Nat)
  | settle (query : Nat)
  | close (query : Nat)
  | cancel

namespace Vfs

def setFile (v : Vfs) (f : CatalogFile) : Vfs := { v with files := Function.update v.files f.query (some f) }

def close (v : Vfs) (q : Nat) : Vfs := { v with files := Function.update v.files q none }

def cancelled (v : Vfs) (f : CatalogFile) : Bool := v.guards.epoch ≠ f.epoch

def fetch_range (v : Vfs) (f : CatalogFile) : Vfs :=
  if v.cancelled f then { v with guards := v.guards.cut f.query }.close f.query
  else { v with guards := v.guards.start f.query }.setFile { f with probing := true }

def opens (v : Vfs) (f : CatalogFile) : Vfs :=
  match v.known.lookup f.cid with
  | some format => v.setFile { f with format := some format }
  | none => v.fetch_range f

def probed (v : Vfs) (f : CatalogFile) : Probed → Vfs
  | .failed => v.close f.query
  | .manifest => v.fetch_range f
  | .format format => { v with known := v.known.insert f.cid format }.setFile { f with probing := false, format := some format }

/-- The pages are taken. -/
def serve (v : Vfs) (f : CatalogFile) (format : Format) (first last : Nat) : Vfs :=
  let served := v.cache.serve ((span first last).map fun i => format.key f.cid i)
  { v with cache := served.1 }.setFile { f with
    reading := none
    lastEnd := if served.2 then some last else f.lastEnd }

/-- `ensure_chunks` and `ensure_pages`. -/
def ensure (v : Vfs) (f : CatalogFile) (format : Format) (first last : Nat) : Vfs :=
  if v.cancelled f then { v with guards := v.guards.cut f.query }.setFile f
  else if (span first last).all fun i => (v.cache.find (format.key f.cid i)).isSome then v.serve f format first last
  else
    let missing := (span first (readAhead f.seqRun last format.lastPage)).filter fun i =>
      (v.cache.find (format.key f.cid i)).isNone
    { v with guards := v.guards.start f.query }.setFile { f with
      reading := some { query := f.query, epoch := f.epoch, first, last, missing } }

def read_exact_at (v : Vfs) (f : CatalogFile) (format : Format) (offset len : Nat) : Vfs :=
  if len = 0 ∨ format.size < offset + len then v
  else
    let first := offset / format.unit
    let last := (offset + len - 1) / format.unit
    v.ensure { f with seqRun := if advancing f.lastEnd first then min (f.seqRun + 1) (2 ^ 64 - 1) else 0 } format first last

def dial (v : Vfs) (f : CatalogFile) (b : Batch) : Vfs :=
  match b.missing[b.next]? with
  | some i =>
    if b.inflight.length < FETCH_CONCURRENCY then
      if v.guards.epoch = b.epoch then { v with guards := v.guards.start b.query }.setFile { f with
        reading := some { b with next := b.next + 1, inflight := b.inflight ++ [i] } }
      else { v with guards := v.guards.cut b.query }.setFile { f with
        reading := some { b with next := b.next + 1, got := b.got ++ [(i, none)] } }
    else v
  | none => v

/-- Puts what was fetched up to the first failure. -/
def putAll (f : CatalogFile) (format : Format) (c : PageCache) : List (Nat × Option Bytes) → PageCache × Bool
  | [] => (c, true)
  | (i, some bytes) :: rest => putAll f format (c.put (format.key f.cid i) bytes) rest
  | (_, none) :: _ => (c, false)

def settle (v : Vfs) (f : CatalogFile) (format : Format) (b : Batch) : Vfs :=
  let put := putAll f format v.cache b.got
  if put.2 then { v with cache := put.1 }.serve f format b.first b.last
  else { v with cache := put.1 }.setFile { f with reading := none }

/-- The file of a query, if `p` holds of it. -/
def fileIf (v : Vfs) (q : Nat) (p : CatalogFile → Bool) : Option CatalogFile := (v.files q).filter p

def step (v : Vfs) : Act → Vfs
  | .query cid => { v with
      asked := v.asked + 1
      guards := v.guards.ask v.asked
      waiting := v.waiting ++ [(v.asked, cid)] }
  | .start q =>
    match v.waiting.lookup q with
    | some cid => { v with
        waiting := v.waiting.filter (·.1 ≠ q)
        guards := v.guards.capture q }.setFile { query := q, cid, epoch := v.guards.epoch }
    | none => v
  | .opens q =>
    match v.fileIf q fun f => f.format.isNone && !f.probing with
    | some f => v.opens f
    | none => v
  | .probed q answer =>
    match v.fileIf q (·.probing) with
    | some f => v.probed f answer
    | none => v
  | .read q offset len =>
    match v.fileIf q (·.reading.isNone) with
    | some f =>
      match f.format with
      | some format => v.read_exact_at f format offset len
      | none => v
    | none => v
  | .dial q =>
    match v.files q with
    | some f =>
      match f.reading with
      | some b => v.dial f b
      | none => v
    | none => v
  | .fetched q i bytes =>
    match v.files q with
    | some f =>
      match f.reading with
      | some b => if i ∈ b.inflight then v.setFile { f with reading := some (b.landed i bytes) } else v
      | none => v
    | none => v
  | .drop q =>
    match v.fileIf q fun f => v.cancelled f && f.reading.isSome with
    | some f => { v with guards := v.guards.cut f.query }.setFile { f with reading := none }
    | none => v
  | .settle q =>
    match v.files q with
    | some f =>
      match f.format, f.reading with
      | some format, some b => if b.inflight = [] ∧ b.next = b.missing.length then v.settle f format b else v
      | _, _ => v
    | none => v
  | .close q => if (v.fileIf q (·.reading.isNone)).isSome then v.close q else v
  | .cancel => { v with guards := v.guards.cancel }

/-- No query has been asked for yet; pages and formats may be known. -/
def idle (cache : PageCache) (known : AList fun _ : String => Format) : Vfs := { cache, known }

def after (v : Vfs) (acts : List Act) (k : Nat) : Vfs := Runs.state step v acts k

/-- A cancellation comes when each query that was asked for has begun. -/
def allStarted (v : Vfs) : Act → Bool
  | .cancel => v.waiting = []
  | _ => true

end Vfs

end TrackerStream.PageReads
