import TrackerStream.Ipld
import TrackerStream.Outcome
import TrackerStream.Words

/-!
# Bulk block upload (`kubo.ts` `blockPutMany`, `rpc.go` `handleBlockPutMany`)

The client writes each block behind a header of codec and length; the node reads all of them before it stores any, and
answers with their CIDs. A body is read into blocks exactly when it was written from them (`put_many`).
-/

namespace TrackerStream.PutMany
open Words (be ofBe slice_append_left)

structure Entry where
  bytes : Bytes
  codec : Nat
  size_lt : bytes.length < 2 ^ 32
  codec_lt : codec < 2 ^ 32

/-- The text form of CIDs, and the store behind the node's block service. -/
structure NodeLib where
  sha256 : Bytes → Bytes
  text : Cid → String
  parse : String → Option Cid
  /-- Why a batch is not stored, if it is not; then none of it is. -/
  putError : List Block → List Block → Option String
  parse_text : ∀ c, parse (text c) = some c

/-! ### The client -/

/-- `setUint32` twice, then `set`, at `off`. -/
def writeEntry (s : Bytes × Nat) (e : Entry) : Bytes × Nat :=
  let buf := Buffer.blit s.1 s.2 (be 4 e.codec)
  let buf := Buffer.blit buf (s.2 + 4) (be 4 e.bytes.length)
  let buf := Buffer.blit buf (s.2 + 8) e.bytes
  (buf, s.2 + (8 + e.bytes.length))

def body (entries : List Entry) : Bytes :=
  let total := (entries.map fun e => 8 + e.bytes.length).sum
  (entries.foldl writeEntry (List.replicate total 0, 0)).1

/-! ### The node -/

/-- The entries from `off` on. -/
def readFrames (body : Bytes) (off : Nat) : Except String (List (Nat × Bytes)) :=
  if off < body.length then
    if off + 8 > body.length then .error s!"block/put-many: truncated frame header at {off}"
    else
      let codec := ofBe (Buffer.slice body off (off + 4))
      let n := ofBe (Buffer.slice body (off + 4) (off + 8))
      if off + 8 + n > body.length then .error s!"block/put-many: frame len {n} overruns body"
      else do
        let frames ← readFrames body (off + 8 + n)
        return (codec, Buffer.slice body (off + 8) (off + 8 + n)) :: frames
  else .ok []
termination_by body.length - off

inductive Reply
  | error (status : Nat) (text : String)
  | keys (keys : List String) (count : Nat)
deriving DecidableEq

namespace NodeLib
variable (lib : NodeLib)

def cid (codec : Nat) (data : Bytes) : Cid := ⟨codec, lib.sha256 data⟩

def block (f : Nat × Bytes) : Block := ⟨lib.cid f.1 f.2, f.2⟩

/-- The answer, and what is stored then. -/
def handleBlockPutMany (store : List Block) (body : Bytes) : Reply × List Block :=
  match readFrames body 0 with
  | .error e => (.error 400 e, store)
  | .ok frames =>
    let blks := frames.map lib.block
    match lib.putError store blks with
    | some e => (.error 500 e, store)
    | none => (.keys (blks.map fun b => lib.text b.cid) blks.length, BlockStore.putAll Block.cid store blks)

/-- The CIDs of the stored blocks, and what is stored then. -/
def blockPutMany (store : List Block) (entries : List Entry) : Except String (List Cid) × List Block :=
  match lib.handleBlockPutMany store (body entries) with
  | (.error status e, store) => (.error s!"kubo block/put-many -> {status} {e}", store)
  | (.keys keys _, store) =>
    match keys.mapM lib.parse with
    | none => (.error "Unable to decode multibase string", store)
    | some cids => (.ok cids, store)

theorem mapM_parse {α : Type} (cid : α → Cid) {xs : List α} : (xs.map fun x => lib.text (cid x)).mapM lib.parse = some (xs.map cid) := by
  induction xs with
  | nil => rfl
  | cons x xs ih =>
    rw [List.map_cons, List.mapM_cons, lib.parse_text, ih]
    rfl

end NodeLib

/-! ### Writing -/

def Entry.frame (e : Entry) : Bytes := be 4 e.codec ++ be 4 e.bytes.length ++ e.bytes

theorem Entry.length_frame (e : Entry) : e.frame.length = 8 + e.bytes.length := by
  rw [frame, List.length_append, List.length_append, Words.length_be, Words.length_be]

theorem writeEntry_eq {buf : Bytes} {off : Nat} (e : Entry) (h : off + e.frame.length ≤ buf.length) :
    writeEntry (buf, off) e = (Buffer.blit buf off e.frame, off + e.frame.length) := by
  have hlen := e.length_frame
  have hhead := Buffer.blit_blit_append buf (be 4 e.codec) (be 4 e.bytes.length)
    (show off + (be 4 e.codec).length + (be 4 e.bytes.length).length ≤ buf.length by simp; omega)
  have hall := Buffer.blit_blit_append buf (be 4 e.codec ++ be 4 e.bytes.length) e.bytes
    (show off + (be 4 e.codec ++ be 4 e.bytes.length).length + e.bytes.length ≤ buf.length by simp; omega)
  simp only [List.length_append, Words.length_be] at hhead hall
  simp only [writeEntry]
  rw [hhead, hall, hlen]
  rfl

theorem writeEntries_eq (entries : List Entry) {buf : Bytes} {off : Nat} (h : off + (entries.flatMap Entry.frame).length ≤ buf.length) :
    entries.foldl writeEntry (buf, off) =
      (Buffer.blit buf off (entries.flatMap Entry.frame), off + (entries.flatMap Entry.frame).length) := by
  induction entries generalizing buf off with
  | nil => simp
  | cons e entries ih =>
    rw [List.flatMap_cons, List.length_append] at h
    have hlen := Buffer.length_blit buf (show off + e.frame.length ≤ buf.length by omega)
    rw [List.foldl_cons, writeEntry_eq e (by omega), ih (by omega), Buffer.blit_blit_append _ _ _ (by omega), List.flatMap_cons,
      List.length_append, Nat.add_assoc]

theorem body_eq (entries : List Entry) : body entries = entries.flatMap Entry.frame := by
  have hlen : (entries.map fun e => 8 + e.bytes.length).sum = (entries.flatMap Entry.frame).length := by
    rw [List.length_flatMap]
    simp only [Entry.length_frame]
  simp only [body]
  rw [hlen, writeEntries_eq entries (by simp), Buffer.blit]
  simp

/-! ### Reading -/

/-- What was written behind `pre` is read from there on. -/
theorem readFrames_frames (pre : Bytes) (entries : List Entry) :
    readFrames (pre ++ entries.flatMap Entry.frame) pre.length = .ok (entries.map fun e => (e.codec, e.bytes)) := by
  induction entries generalizing pre with
  | nil =>
    rw [readFrames, if_neg (by simp)]
    rfl
  | cons e entries ih =>
    have hlen := e.length_frame
    have hrest := ih (pre ++ e.frame)
    have hcodec : Buffer.slice (pre ++ (e :: entries).flatMap Entry.frame) pre.length (pre.length + 4) = be 4 e.codec := by
      have h := slice_append_left pre (be 4 e.codec) (be 4 e.bytes.length ++ e.bytes ++ entries.flatMap Entry.frame)
      rw [Words.length_be] at h
      simp only [List.flatMap_cons, Entry.frame, List.append_assoc] at h ⊢
      exact h
    have hn : Buffer.slice (pre ++ (e :: entries).flatMap Entry.frame) (pre.length + 4) (pre.length + 8) = be 4 e.bytes.length := by
      have h := slice_append_left (pre ++ be 4 e.codec) (be 4 e.bytes.length) (e.bytes ++ entries.flatMap Entry.frame)
      rw [Words.length_be, List.length_append, Words.length_be, Nat.add_assoc] at h
      simp only [List.flatMap_cons, Entry.frame, List.append_assoc] at h ⊢
      exact h
    have hdata : Buffer.slice (pre ++ (e :: entries).flatMap Entry.frame) (pre.length + 8) (pre.length + 8 + e.bytes.length) =
        e.bytes := by
      have h := slice_append_left (pre ++ be 4 e.codec ++ be 4 e.bytes.length) e.bytes (entries.flatMap Entry.frame)
      rw [List.length_append, List.length_append, Words.length_be, Words.length_be, Nat.add_assoc pre.length] at h
      simp only [List.flatMap_cons, Entry.frame, List.append_assoc] at h ⊢
      exact h
    have htotal : (pre ++ (e :: entries).flatMap Entry.frame).length =
        pre.length + (8 + e.bytes.length) + (entries.flatMap Entry.frame).length := by
      rw [List.flatMap_cons, List.length_append, List.length_append, hlen, ← Nat.add_assoc]
    have hcodec_be : ofBe (be 4 e.codec) = e.codec := Words.ofBe_be e.codec_lt
    have hsize_be : ofBe (be 4 e.bytes.length) = e.bytes.length := Words.ofBe_be e.size_lt
    rw [readFrames, if_pos (by omega), if_neg (by omega)]
    simp only
    rw [hcodec, hn, hcodec_be, hsize_be, if_neg (by omega), hdata]
    have hoff : pre.length + 8 + e.bytes.length = (pre ++ e.frame).length := by
      rw [List.length_append, hlen, Nat.add_assoc]
    rw [hoff, List.flatMap_cons, ← List.append_assoc, hrest]
    rfl

/-- What is read was written. -/
theorem readFrames_ok {body : Bytes} (off : Nat) {frames : List (Nat × Bytes)} (h : readFrames body off = .ok frames) :
    ∃ entries : List Entry, body.drop off = entries.flatMap Entry.frame := by
  induction off using readFrames.induct body generalizing frames with
  | case1 off hoff hshort =>
    rw [readFrames, if_pos hoff, if_pos hshort] at h
    cases h
  | case2 off hoff hshort n =>
    have hover : off + 8 + ofBe (Buffer.slice body (off + 4) (off + 8)) > body.length := by assumption
    rw [readFrames, if_pos hoff, if_neg hshort] at h
    simp only at h
    rw [if_pos hover] at h
    cases h
  | case3 off hoff hshort n hover =>
    rename_i ih
    change ¬ off + 8 + ofBe (Buffer.slice body (off + 4) (off + 8)) > body.length at hover
    rw [readFrames, if_pos hoff, if_neg hshort] at h
    simp only at h
    rw [if_neg hover] at h
    obtain ⟨rest, hrest, -⟩ := Outcome.bind_ok h
    have hbehind : ∃ entries : List Entry,
        body.drop (off + 8 + ofBe (Buffer.slice body (off + 4) (off + 8))) = entries.flatMap Entry.frame := ih hrest
    obtain ⟨entries, hentries⟩ := hbehind
    have hsize := Words.ofBe_lt (Buffer.slice body (off + 4) (off + 8))
    have hcodec := Words.ofBe_lt (Buffer.slice body off (off + 4))
    have hfour : (Buffer.slice body (off + 4) (off + 8)).length = 4 := by
      rw [Buffer.length_slice]
      omega
    have hfour' : (Buffer.slice body off (off + 4)).length = 4 := by
      rw [Buffer.length_slice]
      omega
    have hdata : (Buffer.slice body (off + 8) (off + 8 + ofBe (Buffer.slice body (off + 4) (off + 8)))).length =
        ofBe (Buffer.slice body (off + 4) (off + 8)) := by
      rw [Buffer.length_slice]
      omega
    rw [hfour] at hsize
    rw [hfour'] at hcodec
    refine ⟨⟨Buffer.slice body (off + 8) (off + 8 + ofBe (Buffer.slice body (off + 4) (off + 8))),
      ofBe (Buffer.slice body off (off + 4)), hdata.trans_lt hsize, hcodec⟩ :: entries, ?_⟩
    rw [List.flatMap_cons, ← hentries, Entry.frame]
    simp only
    have hbe := Words.be_ofBe (Buffer.slice body off (off + 4))
    have hbe' := Words.be_ofBe (Buffer.slice body (off + 4) (off + 8))
    rw [hfour'] at hbe
    rw [hfour] at hbe'
    rw [hdata, hbe, hbe']
    clear ih hrest h hbe'
    generalize ofBe (Buffer.slice body (off + 4) (off + 8)) = n at *
    rw [Buffer.slice_append _ (by omega) (by omega) (by omega), Buffer.slice_append _ (by omega) (by omega) (by omega),
      ← Buffer.slice_of_length_le body (off + 8 + n) le_rfl, Buffer.slice_append _ (by omega) (by omega) (by omega),
      Buffer.slice_of_length_le body off le_rfl]
  | case4 off hoff => exact ⟨[], List.drop_of_length_le (Nat.le_of_not_lt hoff)⟩

/-- A body is stored in one batch, whose CIDs come back in order, or it was not written from blocks and nothing is stored. -/
theorem put_many (lib : NodeLib) (store : List Block) :
    (∀ entries : List Entry, readFrames (body entries) 0 = .ok (entries.map fun e => (e.codec, e.bytes)) ∧
      match lib.putError store (entries.map fun e => lib.block (e.codec, e.bytes)) with
      | none => lib.blockPutMany store entries = (.ok (entries.map fun e => lib.cid e.codec e.bytes),
          BlockStore.putAll Block.cid store (entries.map fun e => lib.block (e.codec, e.bytes)))
      | some _ => ∃ e, lib.blockPutMany store entries = (.error e, store)) ∧
    ∀ b, (∀ entries, b ≠ body entries) → ∃ status e, lib.handleBlockPutMany store b = (.error status e, store) := by
  refine ⟨fun entries => ?_, fun b hb => ?_⟩
  · have hread : readFrames (body entries) 0 = .ok (entries.map fun e => (e.codec, e.bytes)) := by
      rw [body_eq]
      exact readFrames_frames [] entries
    refine ⟨hread, ?_⟩
    have hblocks : (entries.map fun e => (e.codec, e.bytes)).map lib.block = entries.map fun e => lib.block (e.codec, e.bytes) := by
      rw [List.map_map]
      rfl
    have hparse : ((entries.map fun e => lib.block (e.codec, e.bytes)).map fun b => lib.text b.cid).mapM lib.parse =
        some (entries.map fun e => lib.cid e.codec e.bytes) := by
      rw [List.map_map]
      exact lib.mapM_parse fun e : Entry => lib.cid e.codec e.bytes
    rw [NodeLib.blockPutMany, NodeLib.handleBlockPutMany, hread]
    simp only
    rw [hblocks]
    cases lib.putError store (entries.map fun e => lib.block (e.codec, e.bytes)) with
    | none =>
      simp only
      rw [hparse]
    | some e => exact ⟨_, rfl⟩
  · rw [NodeLib.handleBlockPutMany]
    cases h : readFrames b 0 with
    | error e => exact ⟨_, _, rfl⟩
    | ok frames =>
      obtain ⟨entries, hentries⟩ := readFrames_ok 0 h
      rw [List.drop_zero, ← body_eq] at hentries
      exact absurd hentries (hb entries)

end TrackerStream.PutMany
