import TrackerStream.Ipld
import TrackerStream.Text
import TrackerStream.Words

/-!
# The warm bundle (`gen-warm-bundle.ts`, `warmbundle.ts`)

The server writes the catalog pages its workload of queries fetched into one file, each behind its length; a fresh
browser loads the file and stores every page under the CID of its bytes. What was written is loaded, and whatever is
served in its place is read within its bounds and stored under its own CIDs (`warm_bundle`).
-/

namespace TrackerStream.WarmBundle
open Words (le ofLe slice_append_left)

def MAGIC : String := "TSWARM1\n"
def RAW_CODEC : Nat := 0x55

/-- The hash, and the text form of CIDs. -/
structure Lib where
  sha256 : Bytes → Bytes
  text : Cid → String

/-- `CID.createV1(RAW_CODEC, await sha256.digest(bytes))` -/
def Lib.rawCid (lib : Lib) (bytes : Bytes) : Cid := ⟨RAW_CODEC, lib.sha256 bytes⟩

/-- A page of the catalog, and the CID it was fetched under. -/
structure Page (lib : Lib) where
  cid : Cid
  bytes : Bytes
  addressed : cid = lib.rawCid bytes
  size_lt : bytes.length < 2 ^ 32

/-- The pages the workload fetched; a catalog counts its pages in 32 bits. -/
structure Captured (lib : Lib) where
  pages : List (Page lib)
  count_lt : pages.length < 2 ^ 32

/-- `catalog-warm.json` -/
structure Manifest where
  root : String
  url : String
  blocks : Nat
  bytes : Nat
  cids : List String

variable {lib : Lib}

def Page.block (p : Page lib) : Block := ⟨p.cid, p.bytes⟩

/-! ### The server -/

/-- `setUint32`, then `set`, at `off`. -/
def writePage (s : Bytes × Nat) (p : Page lib) : Bytes × Nat :=
  let bin := Buffer.blit s.1 s.2 (le 4 p.bytes.length)
  let bin := Buffer.blit bin (s.2 + 4) p.bytes
  (bin, s.2 + 4 + p.bytes.length)

/-- `catalog-warm.bin` -/
def writeBlob (pages : List (Page lib)) : Bytes :=
  let magic := utf8 MAGIC
  let total := magic.length + 4 + (pages.map fun p => 4 + p.bytes.length).sum
  let bin := Buffer.blit (List.replicate total 0) 0 magic
  let bin := Buffer.blit bin magic.length (le 4 pages.length)
  (pages.foldl writePage (bin, magic.length + 4)).1

/-- The files it writes, and the number of pages. -/
def generateWarmBundle (rootStr : String) (captured : Captured lib) : Except String (Bytes × Manifest × Nat) :=
  let pages := captured.pages
  if pages.length = 0 then .error "captured no pages — wrong root, or the RPC can't serve the catalog"
  else
    let bin := writeBlob pages
    .ok (bin, ⟨rootStr, "/catalog-warm.bin", pages.length, bin.length, pages.map fun p => lib.text p.cid⟩, pages.length)

/-! ### The browser -/

/-- `dv.getUint32(off, true)` -/
def getUint32 (buf : Bytes) (off : Nat) : Except String Nat :=
  if off + 4 ≤ buf.length then .ok (ofLe (Buffer.slice buf off (off + 4)))
  else .error "Offset is outside the bounds of the DataView"

variable (lib) (fault : Nat → Option String)

/-- The loop of `loadBlob`: how many pages were stored, and those; the `n`-th `put` fails as `fault n` says. -/
def loadPages (buf : Bytes) : Nat → Nat → Nat → List Block → Except String Nat × List Block
  | 0, _, n, stored => (.ok n, stored)
  | rounds + 1, off, n, stored =>
    if off + 4 ≤ buf.length then
      match getUint32 buf off with
      | .error e => (.error e, stored)
      | .ok len =>
        if off + 4 + len > buf.length then (.ok n, stored)
        else
          let bytes := Buffer.slice buf (off + 4) (off + 4 + len)
          match fault n with
          | some e => (.error e, stored)
          | none => loadPages buf rounds (off + 4 + len) (n + 1) (stored ++ [⟨lib.rawCid bytes, bytes⟩])
    else (.ok n, stored)

/-- What is fetched is an error, a response that is not `ok`, or the blob. -/
def loadBlob (res : Except String (Option Bytes)) : Except String Nat × List Block :=
  match res with
  | .error e => (.error e, [])
  | .ok none => (.ok 0, [])
  | .ok (some buf) =>
    if buf.length < 12 ∨ textDecode (Buffer.slice buf 0 8) ≠ MAGIC then (.ok 0, [])
    else
      match getUint32 buf 8 with
      | .error e => (.error e, [])
      | .ok count => loadPages lib fault buf count 12 0 []

/-- Whether a search waits for the bundle to have the page. -/
def has (man : Manifest) (cid : Cid) : Bool := man.cids.contains (lib.text cid)

/-! ### What is written -/

variable {lib fault}

def Page.frame (p : Page lib) : Bytes := le 4 p.bytes.length ++ p.bytes

theorem Page.length_frame (p : Page lib) : p.frame.length = 4 + p.bytes.length := by
  rw [frame, List.length_append, Words.length_le]

theorem writePage_eq {bin : Bytes} {off : Nat} (p : Page lib) (h : off + p.frame.length ≤ bin.length) :
    writePage (bin, off) p = (Buffer.blit bin off p.frame, off + p.frame.length) := by
  have hlen := p.length_frame
  have hall := Buffer.blit_blit_append bin (le 4 p.bytes.length) p.bytes
    (show off + (le 4 p.bytes.length).length + p.bytes.length ≤ bin.length by simp; omega)
  rw [Words.length_le] at hall
  simp only [writePage]
  rw [hall, hlen, Nat.add_assoc]
  rfl

theorem writePages_eq (pages : List (Page lib)) {bin : Bytes} {off : Nat}
    (h : off + (pages.flatMap Page.frame).length ≤ bin.length) :
    pages.foldl writePage (bin, off) =
      (Buffer.blit bin off (pages.flatMap Page.frame), off + (pages.flatMap Page.frame).length) := by
  induction pages generalizing bin off with
  | nil => simp
  | cons p pages ih =>
    rw [List.flatMap_cons, List.length_append] at h
    have hlen := Buffer.length_blit bin (show off + p.frame.length ≤ bin.length by omega)
    rw [List.foldl_cons, writePage_eq p (by omega), ih (by omega), Buffer.blit_blit_append _ _ _ (by omega),
      List.flatMap_cons, List.length_append, Nat.add_assoc]

theorem writeBlob_eq (pages : List (Page lib)) :
    writeBlob pages = utf8 MAGIC ++ le 4 pages.length ++ pages.flatMap Page.frame := by
  have hsum : (pages.map fun p => 4 + p.bytes.length).sum = (pages.flatMap Page.frame).length := by
    rw [List.length_flatMap]
    simp only [Page.length_frame]
  have hlen : (utf8 MAGIC ++ le 4 pages.length).length = (utf8 MAGIC).length + 4 := by
    rw [List.length_append, Words.length_le]
  simp only [writeBlob]
  rw [hsum, ← hlen, ← List.length_append]
  generalize hzeros : List.replicate (utf8 MAGIC ++ le 4 pages.length ++ pages.flatMap Page.frame).length (0 : UInt8) = zeros
  have hzeros : zeros.length = (utf8 MAGIC ++ le 4 pages.length ++ pages.flatMap Page.frame).length := by
    rw [← hzeros, List.length_replicate]
  rw [List.length_append, hlen] at hzeros
  have hhead := Buffer.blit_blit_append zeros (utf8 MAGIC) (le 4 pages.length)
    (show 0 + (utf8 MAGIC).length + (le 4 pages.length).length ≤ zeros.length by rw [Words.length_le]; omega)
  have hpages := Buffer.blit_blit_append zeros (utf8 MAGIC ++ le 4 pages.length) (pages.flatMap Page.frame)
    (show 0 + (utf8 MAGIC ++ le 4 pages.length).length + (pages.flatMap Page.frame).length ≤ zeros.length by omega)
  have hblit := Buffer.length_blit zeros (show 0 + (utf8 MAGIC ++ le 4 pages.length).length ≤ zeros.length by omega)
  rw [Nat.zero_add] at hhead hpages
  rw [hhead, writePages_eq pages (by omega), hpages, Buffer.blit, List.take_zero, List.nil_append,
    List.drop_of_length_le (by rw [List.length_append, hlen]; omega), List.append_nil]

/-! ### What is read -/

theorem getUint32_append (pre post : Bytes) {n : Nat} (hn : n < 2 ^ 32) :
    getUint32 (pre ++ le 4 n ++ post) pre.length = .ok n := by
  have hslice := slice_append_left pre (le 4 n) post
  rw [Words.length_le] at hslice
  rw [getUint32, if_pos (by simp only [List.length_append, Words.length_le]; omega), hslice, Words.ofLe_le hn]

/-- The pages behind `pre` are stored, one after the other. -/
theorem loadPages_frames (pre : Bytes) (pages : List (Page lib)) (n : Nat) (stored : List Block) :
    loadPages lib (fun _ => none) (pre ++ pages.flatMap Page.frame) pages.length pre.length n stored =
      (.ok (n + pages.length), stored ++ pages.map Page.block) := by
  induction pages generalizing pre n stored with
  | nil => simp [loadPages]
  | cons p pages ih =>
    have hread := getUint32_append pre (p.bytes ++ pages.flatMap Page.frame) p.size_lt
    have hbytes := slice_append_left (pre ++ le 4 p.bytes.length) p.bytes (pages.flatMap Page.frame)
    have hlen : (pre ++ le 4 p.bytes.length).length = pre.length + 4 := by rw [List.length_append, Words.length_le]
    have hframes : pre ++ (p :: pages).flatMap Page.frame =
        pre ++ le 4 p.bytes.length ++ (p.bytes ++ pages.flatMap Page.frame) := by
      simp only [List.flatMap_cons, Page.frame, List.append_assoc]
    have hall : (pre ++ le 4 p.bytes.length ++ (p.bytes ++ pages.flatMap Page.frame)).length =
        pre.length + 4 + (p.bytes.length + (pages.flatMap Page.frame).length) := by
      rw [List.length_append, hlen, List.length_append]
    rw [hlen, List.append_assoc] at hbytes
    rw [hframes, List.length_cons, loadPages, if_pos (by omega), hread]
    simp only
    rw [if_neg (by omega), hbytes]
    have hrest := ih (pre ++ le 4 p.bytes.length ++ p.bytes) (n + 1) (stored ++ [⟨lib.rawCid p.bytes, p.bytes⟩])
    rw [List.length_append, hlen, List.append_assoc _ p.bytes] at hrest
    rw [hrest, List.map_cons, Page.block, p.addressed, List.append_assoc, Nat.add_right_comm, Nat.add_assoc]
    rfl

/-- The block is a part of the blob, under the CID of its bytes. -/
def Within (lib : Lib) (buf : Bytes) (b : Block) : Prop :=
  b.cid = lib.rawCid b.bytes ∧ ∃ i j, i ≤ j ∧ j ≤ buf.length ∧ b.bytes = Buffer.slice buf i j

/-- The loader fails only where a `put` does; what it stored it counts, and is within the blob. -/
structure Reads (lib : Lib) (fault : Nat → Option String) (buf : Bytes) (r : Except String Nat × List Block) : Prop where
  error : ∀ e, r.1 = .error e → ∃ n, fault n = some e
  count : ∀ n, r.1 = .ok n → r.2.length = n
  within : ∀ b ∈ r.2, Within lib buf b

theorem Reads.stop {buf : Bytes} {n : Nat} {stored : List Block} (hn : stored.length = n)
    (h : ∀ b ∈ stored, Within lib buf b) : Reads lib fault buf (.ok n, stored) :=
  ⟨fun _ he => absurd he (by simp), fun _ hm => hn.trans (Except.ok.inj hm), h⟩

theorem loadPages_reads {buf : Bytes} (rounds : Nat) {off n : Nat} {stored : List Block} (hn : stored.length = n)
    (h : ∀ b ∈ stored, Within lib buf b) : Reads lib fault buf (loadPages lib fault buf rounds off n stored) := by
  induction rounds generalizing off n stored with
  | zero => exact .stop hn h
  | succ rounds ih =>
    rw [loadPages]
    split
    · rename_i hoff
      rw [getUint32, if_pos hoff]
      simp only
      split
      · exact .stop hn h
      · rename_i hlen
        split
        · rename_i e he
          exact ⟨fun _ heq => ⟨n, by rw [he, Except.error.inj heq]⟩, fun m hm => absurd hm (by simp), h⟩
        · refine ih (by rw [List.length_append, hn, List.length_singleton]) fun b hb => ?_
          rcases List.mem_append.1 hb with hb | hb
          · exact h b hb
          · rw [List.mem_singleton.1 hb]
            exact ⟨rfl, _, _, Nat.le_add_right _ _, Nat.not_lt.1 hlen, rfl⟩
    · exact .stop hn h

theorem loadBlob_reads (buf : Bytes) : Reads lib fault buf (loadBlob lib fault (.ok (some buf))) := by
  have hnone : ∀ b ∈ ([] : List Block), Within lib buf b := fun b hb => absurd hb List.not_mem_nil
  simp only [loadBlob]
  split
  · exact .stop rfl hnone
  · rename_i hhead
    rw [getUint32, if_pos (by omega)]
    exact loadPages_reads _ rfl hnone

theorem loadBlob_writeBlob (captured : Captured lib) :
    loadBlob lib (fun _ => none) (.ok (some (writeBlob captured.pages))) =
      (.ok captured.pages.length, captured.pages.map Page.block) := by
  have hmagic : (utf8 MAGIC).length = 8 := by decide
  have hslice := slice_append_left [] (utf8 MAGIC) (le 4 captured.pages.length ++ captured.pages.flatMap Page.frame)
  have hcount := getUint32_append (utf8 MAGIC) (captured.pages.flatMap Page.frame) captured.count_lt
  have hpages := loadPages_frames (utf8 MAGIC ++ le 4 captured.pages.length) captured.pages 0 []
  rw [List.nil_append, List.length_nil, Nat.zero_add, hmagic, ← List.append_assoc] at hslice
  rw [hmagic] at hcount
  rw [List.length_append, hmagic, Words.length_le, Nat.zero_add, List.nil_append] at hpages
  simp only [loadBlob]
  rw [writeBlob_eq, if_neg, hcount]
  · exact hpages
  · rw [hslice, textDecode_utf8 (by decide)]
    rintro (hshort | hother)
    · simp only [List.length_append, hmagic, Words.length_le] at hshort
      omega
    · exact hother rfl

/-- What was written is loaded, page by page, and the manifest names what is; and whatever is loaded comes to an end, of
which only a `put` can be the cause of a failure, and stores parts of the blob under the CIDs of their bytes. -/
theorem warm_bundle (lib : Lib) :
    (∀ rootStr (captured : Captured lib), captured.pages ≠ [] → ∃ bin man,
      generateWarmBundle rootStr captured = .ok (bin, man, captured.pages.length) ∧
        loadBlob lib (fun _ => none) (.ok (some bin)) = (.ok captured.pages.length, captured.pages.map Page.block) ∧
          ∀ cid, has lib man cid = true ↔ ∃ b ∈ captured.pages.map Page.block, lib.text b.cid = lib.text cid) ∧
      ∀ fault buf, Reads lib fault buf (loadBlob lib fault (.ok (some buf))) := by
  refine ⟨fun rootStr captured hne => ?_, fun fault buf => loadBlob_reads buf⟩
  refine ⟨writeBlob captured.pages, _, if_neg (mt List.length_eq_zero_iff.1 hne), loadBlob_writeBlob captured, fun cid => ?_⟩
  rw [has, List.contains_iff_mem, List.mem_map]
  simp only [List.mem_map, exists_exists_and_eq_and, Page.block]

/-- The hash and the text of the CIDs of two pages. -/
def twoDigests : Lib where
  sha256 b :=
    if b = utf8 "leaf page" then
      [139, 116, 245, 13, 250, 43, 138, 82, 253, 35, 80, 0, 133, 195, 108, 127,
        86, 140, 6, 90, 172, 161, 23, 245, 90, 113, 97, 232, 137, 77, 197, 240]
    else
      [63, 212, 167, 149, 169, 245, 89, 85, 229, 9, 84, 50, 175, 23, 99, 6,
        113, 89, 82, 29, 208, 143, 56, 242, 233, 145, 45, 118, 250, 181, 132, 199]
  text c :=
    if c.digest.head? = some 139 then "bafkreielot2q36rlrjjp2i2qacc4g3d7k2gamwvmuel7kwtrmhuistof6a"
    else "bafkreib72stzlkpvlfk6kckugkxroyygofmvehoqr44pf2mrfv3pvnmey4"

def twoPages : Captured twoDigests where
  pages := [⟨_, utf8 "leaf page", rfl, by decide⟩, ⟨_, utf8 "interior page", rfl, by decide⟩]
  count_lt := by decide

theorem warm_bundle_two : ∃ bin man,
    generateWarmBundle "bafkreib72stzlkpvlfk6kckugkxroyygofmvehoqr44pf2mrfv3pvnmey4" twoPages = .ok (bin, man, 2) ∧
      loadBlob twoDigests (fun _ => none) (.ok (some bin)) = (.ok 2, twoPages.pages.map Page.block) := by
  obtain ⟨bin, man, hbin, hload, -⟩ :=
    (warm_bundle twoDigests).1 "bafkreib72stzlkpvlfk6kckugkxroyygofmvehoqr44pf2mrfv3pvnmey4" twoPages (by simp [twoPages])
  exact ⟨bin, man, hbin, hload⟩

end TrackerStream.WarmBundle
