import TrackerStream.PlaylistDb
import TrackerStream.Prog
import TrackerStream.WebWire

/-!
# The browser's playlist store

The acts `index.ts` and `store.ts` are made of: one for each statement the queue of the store runs, and one for
each request to the key database, the network or the clock. `world` says what an act does and is answered; the
clock, new keys, signatures and the network are the environment's `Input`.
-/

namespace TrackerStream.WebPlaylists
open Playlists (Row Db FtsEntry)

/-! ### Numbers -/

/-- `Number(n)`: the nearest double, and the even one of two. -/
def toNumber (n : Nat) : Nat :=
  if n < 2 ^ 53 then n
  else
    let unit := 2 ^ (n.log2 - 52)
    let q := n / unit
    if unit < 2 * (n % unit) ∨ unit = 2 * (n % unit) ∧ q % 2 = 1 then (q + 1) * unit else q * unit

theorem toNumber_of_lt {n : Nat} (h : n < 2 ^ 53) : toNumber n = n := if_pos h

theorem two_pow_le_toNumber {n k : Nat} (h : 2 ^ k ≤ n) : 2 ^ k ≤ toNumber n := by
  rcases Nat.lt_or_ge n (2 ^ 53) with hsmall | hbig
  · rwa [toNumber_of_lt hsmall]
  have hne : n ≠ 0 := by omega
  have hlog : 53 ≤ n.log2 := (Nat.le_log2 hne).2 hbig
  have hsplit : 2 ^ n.log2 = 2 ^ 52 * 2 ^ (n.log2 - 52) := by rw [← Nat.pow_add]; congr 1; omega
  have hq : 2 ^ 52 ≤ n / 2 ^ (n.log2 - 52) := by
    rw [Nat.le_div_iff_mul_le (Nat.two_pow_pos _), ← hsplit]
    exact Nat.log2_self_le hne
  have hmul : 2 ^ k ≤ n / 2 ^ (n.log2 - 52) * 2 ^ (n.log2 - 52) := by
    calc 2 ^ k ≤ 2 ^ n.log2 := Nat.pow_le_pow_right Nat.two_pos ((Nat.le_log2 hne).2 h)
      _ = 2 ^ 52 * 2 ^ (n.log2 - 52) := hsplit
      _ ≤ _ := Nat.mul_le_mul_right _ hq
  rw [toNumber, if_neg (by omega)]
  dsimp only
  split
  · exact hmul.trans (Nat.mul_le_mul_right _ (Nat.le_succ _))
  · exact hmul

/-- `nextSeq`: one more than the row's, as a double. -/
def nextSeq (seq : Int) : Nat := toNumber ((max seq 0).toNat + 1)

/-! ### Rows -/

/-- The row an upsert leaves. -/
def upserted (old : Option Row) (doc : PlaylistDoc) (docBytes : Bytes) (recordB64 : Option String) (seq eol now : Int) :
    Row :=
  let json := textDecode docBytes
  match old with
  | none =>
    { title := doc.t.or "", doc_json := json, record_b64 := recordB64, seq, size_bytes := docBytes.length,
      last_update_at := now, eol, tombstoned := doc.del }
  | some r =>
    { r with
      title := doc.t.or "", doc_json := json, record_b64 := recordB64, seq, size_bytes := docBytes.length,
      last_update_at := now, eol, tombstoned := doc.del }

def tracksText (doc : PlaylistDoc) : String :=
  " ".intercalate ((doc.ts.getD []).map fun t => s!"{t.modName.shown} {t.title.shown}")

/-- The order of `list`: mine, held, played last, updated last. -/
def listOrder (a b : Row) : Bool :=
  if a.is_mine ≠ b.is_mine then a.is_mine
  else if a.held ≠ b.held then a.held
  else if a.last_played_at.getD 0 ≠ b.last_played_at.getD 0 then b.last_played_at.getD 0 < a.last_played_at.getD 0
  else b.last_update_at ≤ a.last_update_at

def listRows (db : Db) : List (String × Row) := db.rows.mergeSort fun x y => listOrder x.2 y.2

/-- The order rows of the seen tier are evicted in. -/
def evictOrder (a b : Row) : Bool :=
  if a.last_played_at.getD 0 ≠ b.last_played_at.getD 0 then a.last_played_at.getD 0 < b.last_played_at.getD 0
  else a.last_update_at ≤ b.last_update_at

/-- The rows the budget governs with their sizes. -/
def seenSizes (db : Db) : List (String × Int) :=
  ((db.rows.filter fun x => !x.2.is_mine && !x.2.held).mergeSort fun x y => evictOrder x.2 y.2).map
    fun x => (x.1, x.2.size_bytes)

theorem mem_listRows {db : Db} {n : String} {r : Row} : (n, r) ∈ listRows db ↔ db.row n = some r := by
  rw [listRows, List.mem_mergeSort, Db.mem_rows]

theorem nodup_listRows (db : Db) : ((listRows db).map Prod.fst).Nodup := by
  have hrows : (db.rows.map Prod.fst).Nodup := by
    rw [Db.rows, List.map_map]
    exact db.playlists.nodupKeys
  exact ((List.mergeSort_perm db.rows _).map Prod.fst).nodup_iff.2 hrows

theorem mem_seenSizes {db : Db} {n : String} {size : Int} : (n, size) ∈ seenSizes db ↔
    ∃ r, db.row n = some r ∧ r.is_mine = false ∧ r.held = false ∧ r.size_bytes = size := by
  simp only [seenSizes, List.mem_map, List.mem_mergeSort, List.mem_filter, Prod.exists, Db.mem_rows, Prod.mk.injEq,
    Bool.and_eq_true, Bool.not_eq_true']
  constructor
  · rintro ⟨n, r, ⟨hr, hmine, hheld⟩, rfl, rfl⟩
    exact ⟨r, hr, hmine, hheld, rfl⟩
  · rintro ⟨r, hr, hmine, hheld, rfl⟩
    exact ⟨n, r, ⟨hr, hmine, hheld⟩, rfl, rfl⟩

/-! ### Acts -/

/-- What the environment puts in at an act. -/
structure Input where
  now : Int := 0
  /-- The name of the key that is made. -/
  createKey : Except String String := .error ""
  /-- The record that is signed. -/
  sign : Except String Bytes := .error ""
  /-- Whether a message could be sent. -/
  sent : Except String Unit := .ok ()
  /-- What the limits on requests say. -/
  allowed : Bool := true
  /-- The names a peer asks for. -/
  request : Except String (List String) := .ok []

structure Store where
  db : Db
  /-- The names whose keys are stored. -/
  keys : List String := []
  lastSeen : List (String × Int) := []
  pending : List String := []
  /-- The names the user shares: published, and not made private or removed since. -/
  shared : List String := []

inductive Act
  | nowSecs
  | get (name : String)
  | list
  | insert (name : String) (doc : PlaylistDoc) (docBytes : Bytes) (recordB64 : Option String) (seq eol : Int)
  | setMine (name : String) (isMine : Option Bool) (keyName : Option String)
  | setHeld (name : String) (held : Bool)
  | setPublished (name : String) (published : Bool)
  | setLiked (name : String)
  | setPlayed (name : String)
  | tombstoneRow (name : String) (seq : Int) (recordB64 : String)
  | renewRow (name : String) (seq : Int) (recordB64 : String) (eol : Int)
  | deleteRow (name : String)
  | unindex (name : String)
  | index (entry : FtsEntry)
  | seenSizes
  | createKey
  | loadKey (name : String)
  | deleteKey (name : String)
  | sign (name : String) (doc : Bytes) (seq : Nat)
  | publish (name : String) (rec doc : Bytes)
  | beacon (names : List String)
  | seen (name : String)
  | markSeen (name : String)
  | addPending (name : String)
  | removePending (name : String)
  | allowRequest (peer : String)
  | allowReannounce (name : String)
  | readRequest
  | respond (rows : List (String × Row)) (reannounced : Nat)
  | share (name : String)
  | unshare (name : String)

abbrev Ans : Act → Type
  | .nowSecs => Int
  | .get _ => Option Row
  | .list => List (String × Row)
  | .seenSizes => List (String × Int)
  | .createKey => Except String String
  | .loadKey _ => Bool
  | .sign _ _ _ => Except String Bytes
  | .publish _ _ _ => Except String Unit
  | .seen _ => Option Int
  | .allowRequest _ => Bool
  | .allowReannounce _ => Bool
  | .readRequest => Except String (List String)
  | .respond _ _ => Except String Unit
  | _ => Unit

/-- What each act does and is answered. -/
def world : Prog.World Act Ans Input Store
  | .nowSecs, i, s => (i.now, s)
  | .get name, _, s => (s.db.row name, s)
  | .list, _, s => (listRows s.db, s)
  | .insert name doc docBytes recordB64 seq eol, i, s =>
    ((), { s with db := s.db.put name (upserted (s.db.row name) doc docBytes recordB64 seq eol i.now) })
  | .setMine name isMine keyName, _, s =>
    ((), { s with db := s.db.update name fun r =>
      { r with is_mine := isMine.getD r.is_mine, key_name := keyName.or r.key_name } })
  | .setHeld name held, _, s => ((), { s with db := s.db.update name fun r => { r with held } })
  | .setPublished name published, _, s => ((), { s with db := s.db.update name fun r => { r with published } })
  | .setLiked name, _, s => ((), { s with db := s.db.update name fun r => { r with liked := true } })
  | .setPlayed name, i, s =>
    ((), { s with db := s.db.update name fun r => { r with last_played_at := some i.now } })
  | .tombstoneRow name seq recordB64, _, s =>
    ((), { s with db := s.db.update name fun r => { r with seq, tombstoned := true, record_b64 := some recordB64 } })
  | .renewRow name seq recordB64 eol, _, s =>
    ((), { s with db := s.db.update name fun r => { r with seq, record_b64 := some recordB64, eol } })
  | .deleteRow name, _, s => ((), { s with db := s.db.erase name })
  | .unindex name, _, s => ((), { s with db := s.db.unindex name })
  | .index entry, _, s => ((), { s with db := s.db.index entry })
  | .seenSizes, _, s => (WebPlaylists.seenSizes s.db, s)
  | .createKey, i, s =>
    match i.createKey with
    | .ok name => (.ok name, { s with keys := name :: s.keys })
    | .error e => (.error e, s)
  | .loadKey name, _, s => (s.keys.contains name, s)
  | .deleteKey name, _, s => ((), { s with keys := s.keys.filter (· != name) })
  | .sign _ _ _, i, s => (i.sign, s)
  | .publish _ _ _, i, s => (i.sent, s)
  | .beacon _, _, s => ((), s)
  | .seen name, _, s => ((s.lastSeen.find? (·.1 = name)).map (·.2), s)
  | .markSeen name, i, s => ((), { s with lastSeen := (name, i.now) :: s.lastSeen.filter (·.1 != name) })
  | .addPending name, _, s => ((), { s with pending := if name ∈ s.pending then s.pending else s.pending ++ [name] })
  | .removePending name, _, s => ((), { s with pending := s.pending.filter (· != name) })
  | .allowRequest _, i, s => (i.allowed, s)
  | .allowReannounce _, i, s => (i.allowed, s)
  | .readRequest, i, s => (i.request, s)
  | .respond _ _, i, s => (i.sent, s)
  | .share name, _, s => ((), { s with shared := name :: s.shared })
  | .unshare name, _, s => ((), { s with shared := s.shared.filter (· != name) })

end TrackerStream.WebPlaylists
