import TrackerStream.Ipld
import TrackerStream.Panics
import TrackerStream.Words

/-!
# The catalog by pages (`ingest.ts` `publishZstdCatalog`, `catalog.rs` `open`, `tszcat.ts`)

The master puts each page of the catalog's database as a block of its own and lists their CIDs in a manifest, which the
desktop client and the browser parse. Reading outside the manifest is `Halt.panic`, an error is `Halt.err`.
-/

namespace TrackerStream.Tszcat
open Words (le ofLe ofBe)
open Panics

def TSZCAT_PAGE : Nat := 16384
def BATCH : Nat := 512
def CID_LEN : Nat := 36

/-- `"TSZCAT1\n"` -/
def MAGIC : Bytes := [0x54, 0x53, 0x5A, 0x43, 0x41, 0x54, 0x31, 0x0A]

/-- `"SQLite format 3\0"` -/
def SQLITE_MAGIC : Bytes := [0x53, 0x51, 0x4C, 0x69, 0x74, 0x65, 0x20, 0x66, 0x6F, 0x72, 0x6D, 0x61, 0x74, 0x20, 0x33, 0x00]

/-- A CIDv1 with its multihash. -/
def cidBytes (c : Cid) : Bytes := 0x01 :: (Words.put c.codec ++ 0x12 :: (Words.put c.digest.length ++ c.digest))

/-- The hash, zstd, and the CID decoders of the two clients. -/
structure Lib where
  sha256 : Bytes → Bytes
  length_sha256 : ∀ b, (sha256 b).length = 32
  zstdCompress : Bytes → Bytes
  zstdDecompress : Bytes → Option Bytes
  decompress_compress : ∀ b, zstdDecompress (zstdCompress b) = some b
  /-- `Cid::try_from` -/
  try_from : Bytes → Except String Cid
  /-- `CID.decode` -/
  decode : Bytes → Except String Cid
  try_from_cidBytes : ∀ d : Bytes, d.length = 32 → try_from (cidBytes ⟨0x55, d⟩) = .ok ⟨0x55, d⟩
  decode_cidBytes : ∀ d : Bytes, d.length = 32 → decode (cidBytes ⟨0x55, d⟩) = .ok ⟨0x55, d⟩

def page (raw : Bytes) (i : Nat) : Bytes := Buffer.slice raw (i * TSZCAT_PAGE) ((i + 1) * TSZCAT_PAGE)

namespace Lib
variable (lib : Lib)

/-! ### The master -/

/-- A raw block. -/
def block (b : Bytes) : Block := ⟨⟨0x55, lib.sha256 b⟩, b⟩

/-- The CIDs in the order of the blocks, and what the node stores then. -/
def blockPutMany (store : List Block) (entries : List Bytes) : List Cid × List Block :=
  (entries.map fun b => (lib.block b).cid, BlockStore.putAll Block.cid store (entries.map lib.block))

/-- The pages from `i` on, in batches. -/
def putPages (raw : Bytes) (n i : Nat) (s : List Cid × List Block) : List Cid × List Block :=
  if i < n then
    let entries := (List.range' i (min (i + BATCH) n - i)).map fun p => lib.zstdCompress (page raw p)
    let r := lib.blockPutMany s.2 entries
    putPages raw n (i + BATCH) (s.1 ++ r.1, r.2)
  else s
termination_by n - i
decreasing_by rw [BATCH]; omega

def writeCids : Nat → List Cid → Bytes → Except String Bytes
  | _, [], man => .ok man
  | i, cid :: cids, man =>
    let b := cidBytes cid
    if b.length ≠ CID_LEN then .error s!"page cid {i} is {b.length}B, expected 36 (CIDv1 raw sha2-256)"
    else writeCids (i + 1) cids (Buffer.blit man (16 + i * 36) b)

/-- `writeUInt32LE` -/
def writeUInt32LE (man : Bytes) (n off : Nat) : Except String Bytes :=
  if n < 2 ^ 32 then .ok (Buffer.blit man off (le 4 n)) else .error "The value of \"value\" is out of range."

/-- The manifest of a snapshot, and what is stored then. -/
def publishZstdCatalog (store : List Block) (raw : Bytes) : Except String Bytes × List Block :=
  if raw.length % TSZCAT_PAGE ≠ 0 then (.error s!"snapshot not page-aligned: {raw.length}", store)
  else
    let n := raw.length / TSZCAT_PAGE
    let s := lib.putPages raw n 0 ([], store)
    let man : Except String Bytes := do
      if s.1.length ≠ n then throw s!"page cid count {s.1.length} != {n}"
      let man := Buffer.blit (List.replicate (16 + 36 * n) 0) 0 MAGIC
      let man ← writeUInt32LE man TSZCAT_PAGE 8
      let man ← writeUInt32LE man n 12
      writeCids 0 s.1 man
    (man, s.2)

/-! ### The browser -/

structure TszcatManifest where
  pageSize : Nat
  pageCount : Nat
  pages : List Cid

def TszcatManifest.size (m : TszcatManifest) : Nat := m.pageSize * m.pageCount

inductive ParseError
  /-- With what the root begins with. -/
  | notManifest (head : Bytes)
  | truncated (length need pageCount : Nat)
  | cid (text : String)

def isTszcat (b : Bytes) : Bool := decide (8 ≤ b.length) && decide (b.take 8 = MAGIC)

/-- `DataView.getUint32`, low byte first. -/
def getUint32 (b : Bytes) (off : Nat) : Panics.Run ParseError Nat :=
  if off + 4 ≤ b.length then .ok (ofLe (Buffer.slice b off (off + 4))) else .error .panic

def parseTszcat (b : Bytes) : Panics.Run ParseError TszcatManifest := do
  if !isTszcat b then throw (.err (.notManifest (Buffer.slice b 0 16)))
  let pageSize ← getUint32 b 8
  let pageCount ← getUint32 b 12
  let need := 16 + pageCount * CID_LEN
  if b.length < need then throw (.err (.truncated b.length need pageCount))
  let pages ← (List.range pageCount).mapM fun i =>
    let off := 16 + i * CID_LEN
    lift ((lib.decode (Buffer.slice b off (off + CID_LEN))).mapError .cid)
  return ⟨pageSize, pageCount, pages⟩

/-! ### The desktop client -/

structure CatalogFile where
  size : Nat
  /-- The page size and the CIDs. -/
  manifest : Option (Nat × List Cid)

/-- What the node has of a file between two positions. -/
def fetch_range (file : Bytes) (start stop : Nat) : Bytes := Buffer.slice file start stop

def parse_manifest (file head : Bytes) : Panics.Run String CatalogFile := do
  let page_size := ofLe (← slice head 8 12)
  let page_count := ofLe (← slice head 12 16)
  let man_len := 16 + CID_LEN * page_count
  let man := fetch_range file 0 man_len
  if man.length < man_len then throw (.err "truncated TSZCAT manifest")
  let pages ← (List.range page_count).mapM fun i => do
    let off := 16 + i * CID_LEN
    let b ← slice man off (off + CID_LEN)
    lift ((lib.try_from b).mapError fun e => s!"bad page cid {i}: {e}")
  return ⟨page_size * page_count, some (page_size, pages)⟩

/-- A database that is published as it is. -/
def parse_raw (head : Bytes) : Panics.Run String CatalogFile := do
  if head.length < 100 then throw (.err "not a sqlite db or TSZCAT manifest")
  if (← slice head 0 16) ≠ SQLITE_MAGIC then throw (.err "not a sqlite db or TSZCAT manifest")
  let v := ofBe (← slice head 16 18)
  let page_size := if v = 1 then 65536 else v
  let page_count := ofBe (← slice head 28 32)
  return ⟨page_size * page_count, none⟩

/-- The cold path of the VFS's `open`. -/
def vfs_open (file : Bytes) : Panics.Run String CatalogFile := do
  let head := fetch_range file 0 100
  if head.length ≥ 16 then
    if (← slice head 0 8) = MAGIC then parse_manifest lib file head else parse_raw head
  else parse_raw head

end Lib

/-! ### What is written -/

/-- A sha2-256 digest. -/
abbrev Digest := { d : Bytes // d.length = 32 }

def pageCid (d : Digest) : Cid := ⟨0x55, d.1⟩

theorem cidBytes_raw {d : Bytes} (h : d.length = 32) : cidBytes ⟨0x55, d⟩ = [0x01, 0x55, 0x12, 0x20] ++ d := by
  have hcodec : Words.put 0x55 = [0x55] := by rw [Words.put, if_pos (by decide)]; rfl
  have hsize : Words.put 32 = [0x20] := by rw [Words.put, if_pos (by decide)]; rfl
  rw [cidBytes, h, hcodec, hsize]
  rfl

theorem length_cidBytes (d : Digest) : (cidBytes (pageCid d)).length = 36 := by
  rw [pageCid, cidBytes_raw d.2, List.length_append, d.2]
  rfl

def header (pageSize count : Nat) : Bytes := MAGIC ++ le 4 pageSize ++ le 4 count

def manifest (pageSize : Nat) (ds : List Digest) : Bytes := header pageSize ds.length ++ ds.flatMap fun d => cidBytes (pageCid d)

@[simp] theorem length_header (pageSize count : Nat) : (header pageSize count).length = 16 := by
  rw [header, List.length_append, List.length_append, Words.length_le, Words.length_le]
  rfl

theorem length_manifest (pageSize : Nat) (ds : List Digest) : (manifest pageSize ds).length = 16 + ds.length * 36 := by
  rw [manifest, List.length_append, length_header, Buffer.length_flatMap_const length_cidBytes]

namespace Lib
variable (lib : Lib)

theorem putPages_eq (raw : Bytes) (n i : Nat) (s : List Cid × List Block) : lib.putPages raw n i s =
    (s.1 ++ (List.range' i (n - i)).map fun p => (lib.block (lib.zstdCompress (page raw p))).cid,
      BlockStore.putAll Block.cid s.2 ((List.range' i (n - i)).map fun p => lib.block (lib.zstdCompress (page raw p)))) := by
  induction i, s using putPages.induct lib raw n with
  | case1 i s hi entries r ih =>
    have hsplit : List.range' i (n - i) =
        List.range' i (min (i + BATCH) n - i) ++ List.range' (i + BATCH) (n - (i + BATCH)) := by
      by_cases hlast : i + BATCH ≤ n
      · have hn : n - i = BATCH + (n - (i + BATCH)) := by omega
        rw [Nat.min_eq_left hlast, Nat.add_sub_cancel_left, List.range'_append_1, ← hn]
      · rw [Nat.min_eq_right (by omega), show n - (i + BATCH) = 0 by omega, List.range'_zero, List.append_nil]
    rw [putPages, if_pos hi, ih]
    simp only [r, entries, blockPutMany, hsplit, List.map_append, List.map_map, BlockStore.putAll, List.foldl_append,
      List.append_assoc]
    rfl
  | case2 i s hi =>
    rw [putPages, if_neg hi, show n - i = 0 by omega, List.range'_zero, List.map_nil, List.map_nil, List.append_nil]
    rfl

theorem writeCids_eq (ds : List Digest) {i : Nat} {man : Bytes} (h : 16 + (i + ds.length) * 36 ≤ man.length) :
    writeCids i (ds.map pageCid) man = .ok (Buffer.blit man (16 + i * 36) (ds.flatMap fun d => cidBytes (pageCid d))) := by
  induction ds generalizing i man with
  | nil => rw [List.map_nil, List.flatMap_nil, Buffer.blit_nil]; rfl
  | cons d ds ih =>
    rw [List.length_cons] at h
    have hd := length_cidBytes d
    have hlen := Buffer.length_blit man (show 16 + i * 36 + (cidBytes (pageCid d)).length ≤ man.length by omega)
    have hrest := Buffer.length_flatMap_const length_cidBytes ds
    have hmerge := Buffer.blit_blit_append man (cidBytes (pageCid d)) (ds.flatMap fun d => cidBytes (pageCid d))
      (show 16 + i * 36 + (cidBytes (pageCid d)).length + _ ≤ man.length by omega)
    rw [hd] at hmerge
    rw [List.map_cons, writeCids, if_neg (show ¬(cidBytes (pageCid d)).length ≠ CID_LEN from not_not.2 hd), ih (by omega), List.flatMap_cons, ← hmerge]
    congr 2
    omega

def digests (raw : Bytes) : List Digest :=
  (List.range (raw.length / TSZCAT_PAGE)).map fun p => ⟨lib.sha256 (lib.zstdCompress (page raw p)), lib.length_sha256 _⟩

def blocks (raw : Bytes) : List Block :=
  (List.range (raw.length / TSZCAT_PAGE)).map fun p => lib.block (lib.zstdCompress (page raw p))

@[simp] theorem length_digests (raw : Bytes) : (lib.digests raw).length = raw.length / TSZCAT_PAGE := by
  rw [digests, List.length_map, List.length_range]

theorem putPages_zero (store : List Block) (raw : Bytes) : lib.putPages raw (raw.length / TSZCAT_PAGE) 0 ([], store) =
    ((lib.digests raw).map pageCid, BlockStore.putAll Block.cid store (lib.blocks raw)) := by
  rw [putPages_eq, Nat.sub_zero, List.nil_append, ← List.range_eq_range', digests, blocks, List.map_map]
  rfl

theorem writeUInt32LE_eq (man : Bytes) {n : Nat} (off : Nat) (h : n < 2 ^ 32) :
    writeUInt32LE man n off = .ok (Buffer.blit man off (le 4 n)) := if_pos h

theorem publishZstdCatalog_eq (store : List Block) {raw : Bytes} (haligned : raw.length % TSZCAT_PAGE = 0)
    (hn : raw.length / TSZCAT_PAGE < 2 ^ 32) : lib.publishZstdCatalog store raw =
      (.ok (manifest TSZCAT_PAGE (lib.digests raw)), BlockStore.putAll Block.cid store (lib.blocks raw)) := by
  have hlen := lib.length_digests raw
  rw [publishZstdCatalog, if_neg (not_not.2 haligned)]
  simp only
  rw [putPages_zero, List.length_map, hlen]
  generalize raw.length / TSZCAT_PAGE = n at hn hlen
  have hzeros : (List.replicate (16 + 36 * n) (0 : UInt8)).length = 16 + 36 * n := List.length_replicate
  generalize List.replicate (16 + 36 * n) (0 : UInt8) = zeros at hzeros
  have h8 : MAGIC.length = 8 := rfl
  have hsize := Buffer.blit_blit_append zeros MAGIC (le 4 TSZCAT_PAGE)
    (show 0 + _ + _ ≤ _ by rw [hzeros, Words.length_le, h8]; omega)
  have hcount := Buffer.blit_blit_append zeros (MAGIC ++ le 4 TSZCAT_PAGE) (le 4 n)
    (show 0 + _ + _ ≤ _ by rw [hzeros, List.length_append, Words.length_le, Words.length_le, h8]; omega)
  have hall := Buffer.blit_blit_append zeros (header TSZCAT_PAGE n) ((lib.digests raw).flatMap fun d => cidBytes (pageCid d))
    (show 0 + _ + _ ≤ _ by rw [hzeros, length_header, Buffer.length_flatMap_const length_cidBytes, hlen]; omega)
  have hheader := Buffer.length_blit zeros (show 0 + (header TSZCAT_PAGE n).length ≤ _ by rw [hzeros, length_header]; omega)
  have hfull : Buffer.blit zeros 0 (manifest TSZCAT_PAGE (lib.digests raw)) = manifest TSZCAT_PAGE (lib.digests raw) := by
    have hman := length_manifest TSZCAT_PAGE (lib.digests raw)
    rw [Buffer.blit, List.take_zero, List.nil_append, List.drop_of_length_le (by omega), List.append_nil]
  simp only [List.length_append, Words.length_le, length_header, Nat.zero_add, h8] at hsize hcount hall
  simp only [ne_eq, not_true, if_false]
  rw [writeUInt32LE_eq _ _ (by decide), hsize]
  rw [Outcome.ok_bind]
  rw [writeUInt32LE_eq _ _ hn, hcount]
  rw [Outcome.ok_bind]
  rw [writeCids_eq _ (by rw [← header, hheader, hzeros, hlen]; omega), ← header, Nat.zero_mul, Nat.add_zero, hall]
  rw [← hfull, manifest, hlen]

end Lib

/-! ### What is read -/

/-- The pages behind a header. -/
def pagesOf {ε : Type} (read : Nat → Bytes → Except ε Cid) (b : Bytes) (n : Nat) : Except ε (List Cid) :=
  (List.range n).mapM fun i => read i (Buffer.slice b (16 + i * CID_LEN) (16 + i * CID_LEN + CID_LEN))

/-- A slice of the front of a file. -/
theorem slice_fetch_range (file : Bytes) {n i j : Nat} (h : j ≤ n) :
    Buffer.slice (Lib.fetch_range file 0 n) i j = Buffer.slice file i j := by
  rw [Lib.fetch_range, Buffer.slice, Buffer.slice, Buffer.slice, List.drop_zero, List.take_take, Nat.min_eq_left h]

theorem slice_eq {ε : Type} {b : Bytes} {i j : Nat} (hi : i ≤ j) (hj : j ≤ b.length) :
    (slice b i j : Panics.Run ε Bytes) = .ok (Buffer.slice b i j) := if_pos ⟨hi, hj⟩

theorem mapM_congr {ε α β : Type} {f g : α → Except ε β} {xs : List α} (h : ∀ x ∈ xs, f x = g x) : xs.mapM f = xs.mapM g := by
  induction xs with
  | nil => rfl
  | cons x xs ih => rw [List.mapM_cons, List.mapM_cons, h x (by simp), ih fun y hy => h y (by simp [hy])]

namespace Lib
variable (lib : Lib)

theorem parseTszcat_eq {b : Bytes} (h16 : 16 ≤ b.length) (hmagic : b.take 8 = MAGIC) :
    lib.parseTszcat b =
      if b.length < 16 + ofLe (Buffer.slice b 12 16) * CID_LEN then
        .error (.err (.truncated b.length (16 + ofLe (Buffer.slice b 12 16) * CID_LEN) (ofLe (Buffer.slice b 12 16))))
      else lift do
        let pages ← pagesOf (fun _ c => (lib.decode c).mapError ParseError.cid) b (ofLe (Buffer.slice b 12 16))
        return ⟨ofLe (Buffer.slice b 8 12), ofLe (Buffer.slice b 12 16), pages⟩ := by
  have htszcat : isTszcat b = true := by
    rw [isTszcat, decide_eq_true hmagic, decide_eq_true (show 8 ≤ b.length by omega)]
    rfl
  rw [parseTszcat, htszcat, getUint32, if_pos (show 8 + 4 ≤ b.length by omega), getUint32,
    if_pos (show 12 + 4 ≤ b.length by omega)]
  show (if b.length < 16 + ofLe (Buffer.slice b 12 16) * CID_LEN then _ else _) = _
  split
  · rfl
  · show ((List.range (ofLe (Buffer.slice b 12 16))).mapM (fun i =>
      lift ((lib.decode (Buffer.slice b (16 + i * CID_LEN) (16 + i * CID_LEN + CID_LEN))).mapError ParseError.cid)) >>= _) = _
    rw [mapM_lift]
    show (lift (pagesOf (fun _ c => (lib.decode c).mapError ParseError.cid) b (ofLe (Buffer.slice b 12 16))) >>= _) = _
    cases pagesOf (fun _ c => (lib.decode c).mapError ParseError.cid) b (ofLe (Buffer.slice b 12 16)) with
    | error e => rfl
    | ok pages => rfl

theorem vfs_open_eq {b : Bytes} (h16 : 16 ≤ b.length) (hmagic : b.take 8 = MAGIC) :
    lib.vfs_open b =
      if b.length < 16 + ofLe (Buffer.slice b 12 16) * CID_LEN then .error (.err "truncated TSZCAT manifest")
      else lift do
        let pages ← pagesOf (fun i c => (lib.try_from c).mapError fun e => s!"bad page cid {i}: {e}") b (ofLe (Buffer.slice b 12 16))
        return ⟨ofLe (Buffer.slice b 8 12) * ofLe (Buffer.slice b 12 16), some (ofLe (Buffer.slice b 8 12), pages)⟩ := by
  have hhead : (fetch_range b 0 100).length = min 100 b.length := by rw [fetch_range, Buffer.length_slice, Nat.sub_zero]
  have hmagic' : Buffer.slice (fetch_range b 0 100) 0 8 = MAGIC := by
    rw [slice_fetch_range b (by decide), Buffer.slice, List.drop_zero, hmagic]
  rw [vfs_open, if_pos (show (fetch_range b 0 100).length ≥ 16 by omega), slice_eq (by decide) (by omega), Outcome.ok_bind, if_pos hmagic', parse_manifest,
    slice_eq (by decide) (by omega), Outcome.ok_bind, slice_eq (by decide) (by omega), Outcome.ok_bind,
    slice_fetch_range b (by decide), slice_fetch_range b (by decide)]
  generalize ofLe (Buffer.slice b 8 12) = page_size
  generalize ofLe (Buffer.slice b 12 16) = page_count
  have hcomm := Nat.mul_comm CID_LEN page_count
  have hman : (fetch_range b 0 (16 + page_count * CID_LEN)).length = min (16 + page_count * CID_LEN) b.length := by
    rw [fetch_range, Buffer.length_slice, Nat.sub_zero]
  show (if (fetch_range b 0 (16 + CID_LEN * page_count)).length < 16 + CID_LEN * page_count then _ else _) = _
  rw [hcomm]
  by_cases hshort : b.length < 16 + page_count * CID_LEN
  · rw [if_pos (by omega), if_pos hshort]
    rfl
  · rw [if_neg (by omega), if_neg hshort]
    have hpages : (List.range page_count).mapM (fun i => do
        let b ← slice (fetch_range b 0 (16 + page_count * CID_LEN)) (16 + i * CID_LEN) (16 + i * CID_LEN + CID_LEN)
        lift ((lib.try_from b).mapError fun e => s!"bad page cid {i}: {e}")) =
        lift (pagesOf (fun i c => (lib.try_from c).mapError fun e => s!"bad page cid {i}: {e}") b page_count) := by
      rw [pagesOf, ← mapM_lift]
      refine mapM_congr fun i hi => ?_
      have hin : (i + 1) * CID_LEN ≤ page_count * CID_LEN := Nat.mul_le_mul_right _ (List.mem_range.1 hi)
      rw [Nat.succ_mul] at hin
      rw [slice_eq (by omega) (by omega), Outcome.ok_bind, slice_fetch_range b (by omega)]
    show ((List.range page_count).mapM _ >>= _) = _
    rw [hpages]
    cases pagesOf (fun i c => (lib.try_from c).mapError fun e => s!"bad page cid {i}: {e}") b page_count with
    | error e => rfl
    | ok pages => rfl

theorem parseTszcat_short {b : Bytes} (h : b.length < 16) :
    lib.parseTszcat b = .error (if isTszcat b then .panic else .err (.notManifest (Buffer.slice b 0 16))) := by
  rw [parseTszcat]
  cases hmagic : isTszcat b with
  | false => rfl
  | true =>
    by_cases h8 : 8 + 4 ≤ b.length
    · rw [getUint32, if_pos h8, getUint32, if_neg (show ¬12 + 4 ≤ b.length by omega)]
      rfl
    · rw [getUint32, if_neg h8]
      rfl

theorem vfs_open_short {b : Bytes} (h : b.length < 16) :
    lib.vfs_open b = .error (.err "not a sqlite db or TSZCAT manifest") := by
  have hhead : (fetch_range b 0 100).length = min 100 b.length := by rw [fetch_range, Buffer.length_slice, Nat.sub_zero]
  rw [vfs_open, if_neg (show ¬(fetch_range b 0 100).length ≥ 16 by omega), parse_raw,
    if_pos (show (fetch_range b 0 100).length < 100 by omega)]
  rfl

theorem isTszcat_iff {b : Bytes} : isTszcat b = true ↔ b.take 8 = MAGIC := by
  rw [isTszcat, Bool.and_eq_true, decide_eq_true_iff, decide_eq_true_iff, and_iff_right_iff_imp]
  intro h
  have hlen : (b.take 8).length = 8 := by rw [h]; rfl
  rw [List.length_take] at hlen
  omega

theorem noPanic_parseTszcat_iff (b : Bytes) : NoPanic (lib.parseTszcat b) ↔ ¬(b.take 8 = MAGIC ∧ b.length < 16) := by
  by_cases h16 : b.length < 16
  · rw [lib.parseTszcat_short h16, ← isTszcat_iff]
    cases isTszcat b with
    | false => simp
    | true => simp [h16]
  · by_cases hmagic : b.take 8 = MAGIC
    · rw [lib.parseTszcat_eq (by omega) hmagic]
      refine iff_of_true ?_ fun h => h16 h.2
      split
      · exact noPanic_err _
      · exact noPanic_lift _
    · have htszcat : isTszcat b = false := by rw [← Bool.not_eq_true, isTszcat_iff]; exact hmagic
      refine iff_of_true ?_ fun h => hmagic h.1
      rw [parseTszcat, htszcat]
      exact noPanic_err _

theorem noPanic_parse_raw (head : Bytes) : NoPanic (parse_raw head) := by
  rw [parse_raw]
  by_cases h : head.length < 100
  · rw [if_pos h]
    exact noPanic_err _
  · rw [if_neg h, slice_eq (by decide) (by omega), slice_eq (by decide) (by omega), slice_eq (by decide) (by omega)]
    show NoPanic (if _ then _ else _)
    split
    · exact noPanic_err _
    · exact noPanic_ok _

theorem noPanic_vfs_open (b : Bytes) : NoPanic (lib.vfs_open b) := by
  by_cases h16 : b.length < 16
  · rw [lib.vfs_open_short h16]
    exact noPanic_err _
  · by_cases hmagic : b.take 8 = MAGIC
    · rw [lib.vfs_open_eq (by omega) hmagic]
      split
      · exact noPanic_err _
      · exact noPanic_lift _
    · have hhead : (fetch_range b 0 100).length = min 100 b.length := by rw [fetch_range, Buffer.length_slice, Nat.sub_zero]
      have hmagic' : Buffer.slice (fetch_range b 0 100) 0 8 ≠ MAGIC := by
        rw [slice_fetch_range b (by decide), Buffer.slice, List.drop_zero]
        exact hmagic
      rw [vfs_open, if_pos (show (fetch_range b 0 100).length ≥ 16 by omega), slice_eq (by decide) (by omega), Outcome.ok_bind,
        if_neg hmagic']
      exact noPanic_parse_raw _

end Lib

/-! ### Manifests and their fronts -/

theorem header_magic (pageSize count : Nat) (rest : Bytes) : (header pageSize count ++ rest).take 8 = MAGIC := by
  rw [header, List.append_assoc, List.append_assoc]
  show (MAGIC ++ _).take MAGIC.length = MAGIC
  exact List.take_left

theorem header_pageSize (pageSize count : Nat) (rest : Bytes) :
    Buffer.slice (header pageSize count ++ rest) 8 12 = le 4 pageSize := by
  have h := Words.slice_append_left MAGIC (le 4 pageSize) (le 4 count ++ rest)
  rw [Words.length_le] at h
  rw [header, List.append_assoc]
  exact h

theorem header_count (pageSize count : Nat) (rest : Bytes) :
    Buffer.slice (header pageSize count ++ rest) 12 16 = le 4 count := by
  have h := Words.slice_append_left (MAGIC ++ le 4 pageSize) (le 4 count) rest
  rw [List.length_append, Words.length_le, Words.length_le] at h
  exact h

theorem pagesOf_manifest {ε : Type} (read : Nat → Bytes → Except ε Cid) (pageSize : Nat) (ds : List Digest)
    (hread : ∀ i (d : Digest), read i (cidBytes (pageCid d)) = .ok (pageCid d)) :
    pagesOf read (manifest pageSize ds) ds.length = .ok (ds.map pageCid) := by
  have hpages : ∀ i ∈ List.range ds.length,
      read i (Buffer.slice (manifest pageSize ds) (16 + i * CID_LEN) (16 + i * CID_LEN + CID_LEN)) =
        .ok ((ds.map pageCid).getD i (pageCid ⟨List.replicate 32 0, List.length_replicate⟩)) := by
    intro i hi
    have hi := List.mem_range.1 hi
    have hslice := Words.slice_append_flatMap length_cidBytes (header pageSize ds.length) ds (List.getElem?_eq_getElem hi)
    rw [length_header] at hslice
    rw [manifest, CID_LEN, hslice, hread]
    simp [hi]
  rw [pagesOf, Outcome.mapM_ok hpages]
  have hall := Buffer.map_getD_range (ds.map pageCid) (pageCid ⟨List.replicate 32 0, List.length_replicate⟩)
  rw [List.length_map] at hall
  rw [hall]

namespace Lib
variable (lib : Lib)

theorem parseTszcat_manifest {pageSize : Nat} (hsize : pageSize < 2 ^ 32) {ds : List Digest} (hcount : ds.length < 2 ^ 32) :
    lib.parseTszcat (manifest pageSize ds) = .ok ⟨pageSize, ds.length, ds.map pageCid⟩ := by
  have hlen := length_manifest pageSize ds
  have hpages := pagesOf_manifest (fun _ c => (lib.decode c).mapError ParseError.cid) pageSize ds fun i d => by
    rw [pageCid, lib.decode_cidBytes d.1 d.2]
    rfl
  rw [lib.parseTszcat_eq (by omega) (show (manifest pageSize ds).take 8 = MAGIC from header_magic ..)]
  rw [show Buffer.slice (manifest pageSize ds) 12 16 = _ from header_count .., show Buffer.slice (manifest pageSize ds) 8 12 = _ from header_pageSize ..,
    Words.ofLe_le hcount, Words.ofLe_le hsize, if_neg (by rw [hlen, CID_LEN]; omega), hpages]
  rfl

theorem vfs_open_manifest {pageSize : Nat} (hsize : pageSize < 2 ^ 32) {ds : List Digest} (hcount : ds.length < 2 ^ 32) :
    lib.vfs_open (manifest pageSize ds) = .ok ⟨pageSize * ds.length, some (pageSize, ds.map pageCid)⟩ := by
  have hlen := length_manifest pageSize ds
  have hpages := pagesOf_manifest (fun i c => (lib.try_from c).mapError fun e => s!"bad page cid {i}: {e}") pageSize ds
    fun i d => by
      rw [pageCid, lib.try_from_cidBytes d.1 d.2]
      rfl
  rw [lib.vfs_open_eq (by omega) (show (manifest pageSize ds).take 8 = MAGIC from header_magic ..)]
  rw [show Buffer.slice (manifest pageSize ds) 12 16 = _ from header_count .., show Buffer.slice (manifest pageSize ds) 8 12 = _ from header_pageSize ..,
    Words.ofLe_le hcount, Words.ofLe_le hsize, if_neg (by rw [hlen, CID_LEN]; omega), hpages]
  rfl

/-- What is short of a manifest is none. -/
theorem take_manifest {pageSize : Nat} {ds : List Digest} (hcount : ds.length < 2 ^ 32) {k : Nat}
    (hk : k < (manifest pageSize ds).length) :
    (∃ e, lib.parseTszcat ((manifest pageSize ds).take k) = .error e) ∧ ∃ e, lib.vfs_open ((manifest pageSize ds).take k) = .error e := by
  have hlen := length_manifest pageSize ds
  have htake : ((manifest pageSize ds).take k).length = k := by
    rw [List.length_take]
    omega
  by_cases h16 : k < 16
  · exact ⟨⟨_, lib.parseTszcat_short (by omega)⟩, ⟨_, lib.vfs_open_short (by omega)⟩⟩
  · have hfront : (manifest pageSize ds).take k =
        header pageSize ds.length ++ (ds.flatMap fun d => cidBytes (pageCid d)).take (k - 16) := by
      rw [manifest, List.take_append, length_header, List.take_of_length_le (by rw [length_header]; omega)]
    have hshort : ((manifest pageSize ds).take k).length < 16 + ds.length * CID_LEN := by
      rw [htake, CID_LEN]
      omega
    rw [hfront] at hshort htake ⊢
    rw [lib.parseTszcat_eq (by omega) (header_magic ..), lib.vfs_open_eq (by omega) (header_magic ..), header_count,
      Words.ofLe_le hcount, if_pos hshort, if_pos hshort]
    exact ⟨⟨_, rfl⟩, ⟨_, rfl⟩⟩

/-- A page that was put is found under its CID. -/
theorem find_blocks {store : List Block} {raw : Bytes} (h : BlockStore.CollisionFree Block.cid (store ++ lib.blocks raw))
    {b : Block} (hb : b ∈ lib.blocks raw) :
    BlockStore.find Block.cid (BlockStore.putAll Block.cid store (lib.blocks raw)) b.cid = some b := by
  obtain ⟨b', hfind⟩ : ∃ b', BlockStore.find Block.cid (BlockStore.putAll Block.cid store (lib.blocks raw)) b.cid = some b' :=
    BlockStore.find_putAll_of_mem hb store
  obtain ⟨hmem, hcid⟩ := BlockStore.find_some hfind
  have hb' : b' ∈ store ++ lib.blocks raw := List.mem_append.2 (BlockStore.mem_putAll hmem)
  rw [hfind, h b' hb' b (List.mem_append_right _ hb) hcid]

theorem publishZstdCatalog_large (store : List Block) {raw : Bytes} (haligned : raw.length % TSZCAT_PAGE = 0)
    (hn : ¬raw.length / TSZCAT_PAGE < 2 ^ 32) : ∃ e, (lib.publishZstdCatalog store raw).1 = .error e := by
  have hlen := lib.length_digests raw
  rw [publishZstdCatalog, if_neg (not_not.2 haligned)]
  simp only
  rw [putPages_zero, List.length_map, hlen]
  simp only [ne_eq, not_true, if_false]
  rw [writeUInt32LE_eq _ _ (show TSZCAT_PAGE < 2 ^ 32 by decide), Outcome.ok_bind, writeUInt32LE, if_neg hn]
  exact ⟨_, rfl⟩

/-- What the clients have of a published image. -/
structure Published (store : List Block) (raw man : Bytes) (stored : List Block) (ds : List Digest) : Prop where
  length : ds.length = raw.length / TSZCAT_PAGE
  browser : lib.parseTszcat man = .ok ⟨TSZCAT_PAGE, ds.length, ds.map pageCid⟩
  desktop : lib.vfs_open man = .ok ⟨raw.length, some (TSZCAT_PAGE, ds.map pageCid)⟩
  size : TszcatManifest.size ⟨TSZCAT_PAGE, ds.length, ds.map pageCid⟩ = raw.length
  /-- When no two blocks have one digest. -/
  pages : BlockStore.CollisionFree Block.cid (store ++ lib.blocks raw) → ∀ i d, ds[i]? = some d →
    ∃ b, BlockStore.find Block.cid stored (pageCid d) = some b ∧ lib.zstdDecompress b.bytes = some (page raw i)
  front : ∀ k < man.length, (∃ e, lib.parseTszcat (man.take k) = .error e) ∧ ∃ e, lib.vfs_open (man.take k) = .error e

theorem published (store : List Block) {raw : Bytes} (haligned : raw.length % TSZCAT_PAGE = 0)
    (hn : raw.length / TSZCAT_PAGE < 2 ^ 32) : lib.Published store raw (manifest TSZCAT_PAGE (lib.digests raw))
      (BlockStore.putAll Block.cid store (lib.blocks raw)) (lib.digests raw) := by
  have hlen := lib.length_digests raw
  have hsize : TSZCAT_PAGE * (lib.digests raw).length = raw.length := by
    rw [hlen]
    exact Nat.mul_div_cancel' (Nat.dvd_of_mod_eq_zero haligned)
  refine ⟨hlen, lib.parseTszcat_manifest (by decide) (by omega), ?_, hsize, ?_, fun k => lib.take_manifest (by omega)⟩
  · rw [lib.vfs_open_manifest (by decide) (by omega), hsize]
  · intro hfree i d hd
    rw [digests, List.getElem?_map, Option.map_eq_some_iff] at hd
    obtain ⟨p, hp, rfl⟩ := hd
    obtain ⟨hi, rfl⟩ : i < raw.length / TSZCAT_PAGE ∧ i = p := by simpa using List.getElem?_eq_some_iff.1 hp
    have hmem : lib.block (lib.zstdCompress (page raw i)) ∈ lib.blocks raw := List.mem_map.2 ⟨i, List.mem_range.2 hi, rfl⟩
    exact ⟨_, lib.find_blocks hfree hmem, lib.decompress_compress _⟩

/-- An image of so many pages as a word counts is published as its clients read it, of more it is not published; the
desktop client never reads outside of what it is given, the browser unless it has the magic and less than a header. -/
theorem catalog_pages (store : List Block) :
    (∀ raw, raw.length % TSZCAT_PAGE = 0 →
      (raw.length / TSZCAT_PAGE < 2 ^ 32 → ∃ man, (lib.publishZstdCatalog store raw).1 = .ok man) ∧
      ∀ man, (lib.publishZstdCatalog store raw).1 = .ok man →
        ∃ ds, lib.Published store raw man (lib.publishZstdCatalog store raw).2 ds) ∧
    (∀ b, NoPanic (lib.vfs_open b)) ∧
    ∀ b, NoPanic (lib.parseTszcat b) ↔ ¬(b.take 8 = MAGIC ∧ b.length < 16) := by
  refine ⟨fun raw haligned => ?_, lib.noPanic_vfs_open, lib.noPanic_parseTszcat_iff⟩
  by_cases hn : raw.length / TSZCAT_PAGE < 2 ^ 32
  · rw [lib.publishZstdCatalog_eq store haligned hn]
    refine ⟨fun _ => ⟨_, rfl⟩, fun man hman => ?_⟩
    obtain rfl : manifest TSZCAT_PAGE (lib.digests raw) = man := Except.ok.inj hman
    exact ⟨_, lib.published store haligned hn⟩
  · refine ⟨fun h => absurd h hn, fun man hman => ?_⟩
    obtain ⟨e, he⟩ := lib.publishZstdCatalog_large store haligned hn
    rw [he] at hman
    cases hman

end Lib

/-- Blocks as they are, with one digest for all. -/
def storing : Lib where
  sha256 _ := List.replicate 32 0
  length_sha256 _ := List.length_replicate
  zstdCompress b := b
  zstdDecompress b := some b
  decompress_compress _ := rfl
  try_from b := .ok ⟨0x55, b.drop 4⟩
  decode b := .ok ⟨0x55, b.drop 4⟩
  try_from_cidBytes d h := by rw [cidBytes_raw h]; rfl
  decode_cidBytes d h := by rw [cidBytes_raw h]; rfl

/-- The magic alone is taken for a manifest. -/
theorem magic_panics : ¬∀ b, NoPanic (storing.parseTszcat b) := by
  intro h
  exact (storing.noPanic_parseTszcat_iff MAGIC).1 (h MAGIC) ⟨rfl, by decide⟩

end TrackerStream.Tszcat
