import TrackerStream.Ipld
import Mathlib

/-!
# Sample locators (`parse.ts`)

Two families over the same formats. `sampleRegions` (v1) gives the byte regions of the sample payloads,
sorted and without overlaps; `sampleSlots` (v2 and later) gives one entry per libopenmpt sample slot, not
sorted and not disjoint. Lengths are naturals: where the source computes a negative one, the subtraction
here gives `0`, and both drop the entry.
-/

namespace TrackerStream

inductive Format
  | mod | it | s3m | xm | mptm | mo3
deriving DecidableEq, Repr

/-- The format's name in a manifest. -/
def Format.name : Format → String
  | .mod => "mod"
  | .it => "it"
  | .s3m => "s3m"
  | .xm => "xm"
  | .mptm => "mptm"
  | .mo3 => "mo3"

def u16le (b : Bytes) (o : Nat) : Nat := at0 b o + at0 b (o + 1) * 2 ^ 8
def u16be (b : Bytes) (o : Nat) : Nat := at0 b o * 2 ^ 8 + at0 b (o + 1)
def u32le (b : Bytes) (o : Nat) : Nat :=
  at0 b o + at0 b (o + 1) * 2 ^ 8 + at0 b (o + 2) * 2 ^ 16 + at0 b (o + 3) * 2 ^ 24

theorem u16le_lt (b : Bytes) (o : Nat) : u16le b o < 2 ^ 16 := by
  have := at0_lt b o
  have := at0_lt b (o + 1)
  simp only [u16le]
  omega

/-- The bits of a flag byte that `mask` names are not all clear. -/
def hasBit (flags mask : Nat) : Bool := flags &&& mask != 0

def tag4 (b : Bytes) (o : Nat) : List Char :=
  [Char.ofNat (at0 b o), Char.ofNat (at0 b (o + 1)), Char.ofNat (at0 b (o + 2)), Char.ofNat (at0 b (o + 3))]

/-- The value of a decimal digit. -/
def digit (c : Char) : Nat := c.toNat - '0'.toNat

/-- The channel count a MOD tag stands for, `0` for an unknown one. -/
def modChannels (t : List Char) : Nat :=
  if t = ['M', '.', 'K', '.'] ∨ t = ['M', '!', 'K', '!'] ∨ t = ['F', 'L', 'T', '4'] ∨ t = ['4', 'C', 'H', 'N'] then 4
  else if t = ['6', 'C', 'H', 'N'] then 6
  else if t = ['F', 'L', 'T', '8'] ∨ t = ['8', 'C', 'H', 'N'] ∨ t = ['O', 'C', 'T', 'A'] ∨ t = ['C', 'D', '8', '1'] then 8
  else
    match t with
    | [a, b, c, d] =>
      if a.isDigit ∧ [b, c, d] = ['C', 'H', 'N'] then digit a
      else if a.isDigit ∧ b.isDigit ∧ ([c, d] = ['C', 'H'] ∨ [c, d] = ['C', 'N']) then 10 * digit a + digit b
      else if [a, b, c] = ['T', 'D', 'Z'] ∧ d.isDigit then digit d
      else 0
    | _ => 0

/-- The highest pattern number in the order table of a MOD. -/
def modMaxPat (b : Bytes) : Nat := (List.range 128).foldl (fun m i => max m (at0 b (952 + i))) 0

/-- The sample lengths in bytes of a MOD's 31 headers. -/
def modLengths (b : Bytes) : List Nat := (List.range 31).map fun i => u16be b (20 + i * 30 + 22) * 2

/-- Where a MOD's sample data starts: behind the patterns. -/
def modDataStart (b : Bytes) (ch : Nat) : Nat := 1084 + (modMaxPat b + 1) * 64 * ch * 4

/-! ### v1: regions -/

structure SampleRegion where
  offset : Nat
  length : Nat
deriving DecidableEq, Repr

def SampleRegion.stop (r : SampleRegion) : Nat := r.offset + r.length

/-- The regions of samples stored one behind the other from `off` on; the first one cut off by the end of
the file is the last one. -/
def modRegions (fileLen : Nat) : List Nat → Nat → List SampleRegion
  | [], _ => []
  | n :: ns, off =>
    if n ≤ 2 then modRegions fileLen ns off
    else if off + n > fileLen then [⟨off, fileLen - off⟩]
    else ⟨off, n⟩ :: modRegions fileLen ns (off + n)

def extractMOD (b : Bytes) : Option (List SampleRegion) :=
  if b.length < 1084 then none
  else
    let ch := modChannels (tag4 b 1080)
    if ch = 0 then none else some (modRegions b.length (modLengths b) (modDataStart b ch))

/-- The region of the IT sample whose header is at `so`. -/
def itRegion (b : Bytes) (so : Nat) : Option SampleRegion :=
  if so = 0 ∨ so + 0x50 > b.length then none
  else
    let flg := at0 b (so + 0x12)
    let len := u32le b (so + 0x30)
    let ptr := u32le b (so + 0x48)
    if !hasBit flg 1 ∨ len = 0 ∨ ptr = 0 then none
    -- a compressed sample has no raw PCM to carve
    else if hasBit flg 8 then none
    else
      let bpf := (if hasBit flg 2 then 2 else 1) * (if hasBit flg 4 then 2 else 1)
      let bytes := min (len * bpf) (b.length - ptr)
      if bytes > 0 then some ⟨ptr, bytes⟩ else none

/-- The sample header offsets of an IT file, in slot order. -/
def itHeaderOffsets (b : Bytes) : List Nat :=
  let ordNum := u16le b 0x20
  let insNum := u16le b 0x22
  let smpNum := u16le b 0x24
  let base := 0xc0 + ordNum + insNum * 4
  (List.range smpNum).map fun i => u32le b (base + i * 4)

def extractITLike (b : Bytes) : Option (List SampleRegion) :=
  if b.length < 0xc0 then none else some ((itHeaderOffsets b).filterMap (itRegion b))

def extractIT (b : Bytes) : Option (List SampleRegion) :=
  if tag4 b 0 ≠ ['I', 'M', 'P', 'M'] then none else extractITLike b

def extractMPTM (b : Bytes) : Option (List SampleRegion) :=
  if b.length < 0xc0 then none
  else if tag4 b 0 ≠ ['t', 'p', 'm', '.'] ∧ tag4 b 0 ≠ ['I', 'M', 'P', 'M'] then none
  else extractITLike b

/-- A compressed container: no raw PCM regions. -/
def extractMO3 (_b : Bytes) : Option (List SampleRegion) := none

/-- The parapointers of an S3M file's instruments, in slot order. -/
def s3mParapointers (b : Bytes) : List Nat :=
  let ordNum := u16le b 0x20
  let insNum := u16le b 0x22
  let paraBase := 0x60 + ordNum
  (List.range insNum).map fun i => u16le b (paraBase + i * 2)

/-- The data pointer of the S3M sample header at `off`. -/
def s3mPointer (b : Bytes) (off : Nat) : Nat := (at0 b (off + 0x0d) * 2 ^ 16 + u16le b (off + 0x0e)) * 16

def s3mRegion (b : Bytes) (pp : Nat) : Option SampleRegion :=
  let off := pp * 16
  if pp = 0 ∨ off + 0x50 > b.length ∨ at0 b off ≠ 1 then none
  else
    let ptr := s3mPointer b off
    let len := u32le b (off + 0x10)
    let flg := at0 b (off + 0x1f)
    if len = 0 ∨ ptr = 0 then none
    else
      let bpf := (if hasBit flg 4 then 2 else 1) * (if hasBit flg 2 then 2 else 1)
      let bytes := min (len * bpf) (b.length - ptr)
      if bytes > 0 ∧ ptr < b.length then some ⟨ptr, bytes⟩ else none

def extractS3M (b : Bytes) : Option (List SampleRegion) :=
  if b.length < 0x60 ∨ tag4 b 0x2c ≠ ['S', 'C', 'R', 'M'] then none
  else some ((s3mParapointers b).filterMap (s3mRegion b))

/-- The position behind `npat` XM patterns that start at `pos`. -/
def xmSkipPatterns (b : Bytes) : Nat → Nat → Option Nat
  | 0, pos => some pos
  | npat + 1, pos =>
    if pos + 9 > b.length then none
    else xmSkipPatterns b npat (pos + (u32le b pos + u16le b (pos + 7)))

/-- The lengths in `n` XM sample headers from `hdr` on and the position behind them; `none` when one is cut off. -/
def xmLengths (b : Bytes) (shSize : Nat) : Nat → Nat → Option (List Nat × Nat)
  | 0, hdr => some ([], hdr)
  | n + 1, hdr =>
    if hdr + 18 > b.length then none
    else (xmLengths b shSize n (hdr + shSize)).map fun (ls, stop) => (u32le b hdr :: ls, stop)

/-- The regions of XM payloads stored one behind the other from `data` on. -/
def xmRegions (fileLen : Nat) : List Nat → Nat → List SampleRegion
  | [], _ => []
  | n :: ns, data =>
    if n > 0 ∧ data + n ≤ fileLen then ⟨data, n⟩ :: xmRegions fileLen ns (data + n)
    else xmRegions fileLen ns (data + n)

/-- The instruments of an XM file from `pos` on; `out` is what has been found before. -/
def xmInstruments (b : Bytes) : Nat → Nat → List SampleRegion → Option (List SampleRegion)
  | 0, _, out => some out
  | nins + 1, pos, out =>
    if pos + 29 > b.length then some out
    else
      let instSize := u32le b pos
      let numSamp := u16le b (pos + 27)
      if numSamp = 0 then xmInstruments b nins (pos + instSize) out
      else
        let shSize := u32le b (pos + 29)
        match xmLengths b shSize numSamp (pos + instSize) with
        | none => if out.isEmpty then none else some out
        | some (lens, data) => xmInstruments b nins (data + lens.sum) (out ++ xmRegions b.length lens data)

def extractXM (b : Bytes) : Option (List SampleRegion) :=
  if b.length < 80 ∨ tag4 b 0 ≠ ['E', 'x', 't', 'e'] then none
  else
    match xmSkipPatterns b (u16le b 70) (60 + u32le b 60) with
    | none => none
    | some pos => xmInstruments b (u16le b 72) pos []

def detectFormat (b : Bytes) : Option Format :=
  if b.length ≥ 4 ∧ at0 b 0 = 0x4d ∧ at0 b 1 = 0x4f ∧ at0 b 2 = 0x33 then some .mo3
  else if b.length ≥ 4 ∧ tag4 b 0 = ['t', 'p', 'm', '.'] then some .mptm
  else if b.length ≥ 0x2c ∧ tag4 b 0 = ['I', 'M', 'P', 'M'] then
    let cwtv := u16le b 0x28
    if cwtv ≥ 0x0889 ∧ cwtv ≤ 0x0fff then some .mptm else some .it
  else if b.length ≥ 0x30 ∧ tag4 b 0x2c = ['S', 'C', 'R', 'M'] then some .s3m
  else if b.length ≥ 17 ∧ tag4 b 0 = ['E', 'x', 't', 'e'] then some .xm
  else if b.length ≥ 1084 ∧ modChannels (tag4 b 1080) ≠ 0 then some .mod
  else none

def EXTRACTORS : Format → Bytes → Option (List SampleRegion)
  | .mod => extractMOD
  | .it => extractIT
  | .s3m => extractS3M
  | .xm => extractXM
  | .mptm => extractMPTM
  | .mo3 => extractMO3

/-- Drop the regions that overlap a kept one; `last` is where the last kept one stops. -/
def dropOverlaps : Nat → List SampleRegion → List SampleRegion
  | _, [] => []
  | last, r :: rs => if r.offset < last then dropOverlaps last rs else r :: dropOverlaps r.stop rs

def sampleRegions (b : Bytes) (fmtHint : Option Format) : Option (Format × List SampleRegion) :=
  match fmtHint <|> detectFormat b with
  | none => none
  | some format =>
    match EXTRACTORS format b with
    | none => none
    | some raw =>
      let sorted := (raw.filter fun r => r.length > 0 ∧ r.stop ≤ b.length).insertionSort (·.offset ≤ ·.offset)
      some (format, dropOverlaps 0 sorted)

/-- The regions cut the bytes from `pos` on: they are in order, disjoint and inside the file. -/
def Partition (fileLen : Nat) : Nat → List SampleRegion → Prop
  | pos, [] => pos ≤ fileLen
  | pos, r :: rs => pos ≤ r.offset ∧ Partition fileLen r.stop rs

theorem Partition.le_length {fileLen pos : Nat} {rs : List SampleRegion} (h : Partition fileLen pos rs) :
    pos ≤ fileLen := by
  induction rs generalizing pos with
  | nil => exact h
  | cons r rs ih =>
    have h₁ := h.1
    have h₂ : r.offset + r.length ≤ fileLen := ih h.2
    omega

theorem Partition.stop_le {fileLen pos : Nat} {rs : List SampleRegion} (h : Partition fileLen pos rs) :
    ∀ r ∈ rs, r.stop ≤ fileLen := by
  induction rs generalizing pos with
  | nil => simp
  | cons r rs ih =>
    intro q hq
    rcases List.mem_cons.1 hq with rfl | hq
    · exact h.2.le_length
    · exact ih h.2 q hq

/-! ### v2: slots -/

structure SampleSlot where
  /-- 1-based libopenmpt sample slot. -/
  index : Nat
  offset : Nat
  /-- Decoded PCM length in bytes, the on-disk length for an uncompressed slot. -/
  length : Nat
  bitDepth : Nat
  channels : Nat
  compressed : Bool := false
  headerOffset : Option Nat := none
  compressedBytes : Option Nat := none
deriving DecidableEq, Repr

def SampleSlot.stop (s : SampleSlot) : Nat := s.offset + s.length

/-- Bytes per sample of one channel. -/
def bytesPerSample (bitDepth : Nat) : Nat := if bitDepth = 16 then 2 else 1

/-- `i` counts the headers, so the slot index is `i + 1`. -/
def modSlotsFrom (fileLen : Nat) : List Nat → Nat → Nat → List SampleSlot
  | [], _, _ => []
  | n :: ns, i, off =>
    if n ≤ 2 then modSlotsFrom fileLen ns (i + 1) off
    else
      let length := if off + n > fileLen then fileLen - off else n
      let found : List SampleSlot :=
        if length > 0 then [{ index := i + 1, offset := off, length, bitDepth := 8, channels := 1 }] else []
      if off + n > fileLen then found else found ++ modSlotsFrom fileLen ns (i + 1) (off + n)

def modSlots (b : Bytes) : List SampleSlot :=
  let ch := modChannels (tag4 b 1080)
  if ch = 0 then [] else modSlotsFrom b.length (modLengths b) 0 (modDataStart b ch)

/-- The position behind `blocks` length-prefixed compressed blocks, `none` past the end of the file. -/
def itSkipBlocks (b : Bytes) : Nat → Nat → Option Nat
  | 0, off => some off
  | blocks + 1, off =>
    if off + 2 > b.length then none
    else
      let off' := off + (2 + u16le b off)
      if off' > b.length then none else itSkipBlocks b blocks off'

/-- One run over the blocks for each channel. -/
def itSkipChannels (b : Bytes) (blocks : Nat) : Nat → Nat → Option Nat
  | 0, off => some off
  | channels + 1, off => (itSkipBlocks b blocks off).bind (itSkipChannels b blocks channels)

/-- On-disk span of a compressed IT sample. The loop over `remaining` runs once for every started block of
`perBlock` frames. -/
def itCompressedSpan (b : Bytes) (ptr frames bitDepth channels : Nat) : Option Nat :=
  let perBlock := if bitDepth = 16 then 0x4000 else 0x8000
  let blocks := (frames + (perBlock - 1)) / perBlock
  (itSkipChannels b blocks channels ptr).map (· - ptr)

/-- The slot of the IT sample with the 0-based number `i` and its header at `so`. -/
def itSlot (b : Bytes) (i so : Nat) : Option SampleSlot :=
  if so = 0 ∨ so + 0x50 > b.length then none
  else
    let flg := at0 b (so + 0x12)
    let len := u32le b (so + 0x30)
    let ptr := u32le b (so + 0x48)
    if !hasBit flg 1 ∨ len = 0 ∨ ptr = 0 then none
    else
      let bitDepth := if hasBit flg 2 then 16 else 8
      let channels := if hasBit flg 4 then 2 else 1
      let decodedBytes := len * (bitDepth / 8) * channels
      if hasBit flg 8 then
        if decodedBytes > 0 then
          some { index := i + 1, offset := ptr, length := decodedBytes, bitDepth, channels, compressed := true,
                 headerOffset := some so,
                 compressedBytes := (itCompressedSpan b ptr len bitDepth channels).filter (· > 0) }
        else none
      else
        let bytes := min decodedBytes (b.length - ptr)
        if bytes > 0 then some { index := i + 1, offset := ptr, length := bytes, bitDepth, channels } else none

def itLikeSlots (b : Bytes) : List SampleSlot :=
  (itHeaderOffsets b).zipIdx.filterMap fun (so, i) => itSlot b i so

def s3mSlot (b : Bytes) (i pp : Nat) : Option SampleSlot :=
  let off := pp * 16
  if pp = 0 ∨ off + 0x50 > b.length ∨ at0 b off ≠ 1 then none
  else
    let ptr := s3mPointer b off
    let len := u32le b (off + 0x10)
    let flg := at0 b (off + 0x1f)
    if len = 0 ∨ ptr = 0 then none
    else
      let bitDepth := if hasBit flg 4 then 16 else 8
      let channels := if hasBit flg 2 then 2 else 1
      let bytes := min (len * (bitDepth / 8) * channels) (b.length - ptr)
      if bytes > 0 ∧ ptr < b.length then some { index := i + 1, offset := ptr, length := bytes, bitDepth, channels }
      else none

def s3mSlots (b : Bytes) : List SampleSlot :=
  (s3mParapointers b).zipIdx.filterMap fun (pp, i) => s3mSlot b i pp

/-- Length and bit depth of the `n` XM sample headers from `hdr` on, up to the first one cut off, and the
position behind those read. -/
def xmMeta (b : Bytes) (shSize : Nat) : Nat → Nat → List (Nat × Nat) × Nat
  | 0, hdr => ([], hdr)
  | n + 1, hdr =>
    if hdr + 18 > b.length then ([], hdr)
    else
      let (ms, stop) := xmMeta b shSize n (hdr + shSize)
      ((u32le b hdr, if hasBit (at0 b (hdr + 14)) 0x10 then 16 else 8) :: ms, stop)

/-- The slots of XM payloads stored one behind the other from `data` on; `slot` counts the samples before. -/
def xmPayloadSlots (fileLen : Nat) : List (Nat × Nat) → Nat → Nat → List SampleSlot
  | [], _, _ => []
  | (length, bitDepth) :: ms, slot, data =>
    if length > 0 ∧ data + length ≤ fileLen then
      { index := slot + 1, offset := data, length, bitDepth, channels := 1 } ::
        xmPayloadSlots fileLen ms (slot + 1) (data + length)
    else xmPayloadSlots fileLen ms (slot + 1) (data + length)

def xmSlotsFrom (b : Bytes) : Nat → Nat → Nat → List SampleSlot
  | 0, _, _ => []
  | nins + 1, slot, pos =>
    if pos + 29 > b.length then []
    else
      let instSize := u32le b pos
      let numSamp := u16le b (pos + 27)
      if numSamp = 0 then xmSlotsFrom b nins slot (pos + instSize)
      else
        let shSize := u32le b (pos + 29)
        let (ms, data) := xmMeta b shSize numSamp (pos + instSize)
        xmPayloadSlots b.length ms slot data ++
          xmSlotsFrom b nins (slot + ms.length) (data + (ms.map Prod.fst).sum)

def xmSlots (b : Bytes) : List SampleSlot :=
  match xmSkipPatterns b (u16le b 70) (60 + u32le b 60) with
  | none => []
  | some pos => xmSlotsFrom b (u16le b 72) 0 pos

def SLOT_EXTRACTORS : Format → Bytes → List SampleSlot
  | .mod => modSlots
  | .it => itLikeSlots
  | .mptm => itLikeSlots
  | .s3m => s3mSlots
  | .xm => xmSlots
  | .mo3 => fun _ => []

def sampleSlots (b : Bytes) (fmtHint : Option Format) : Option (Format × List SampleSlot) :=
  match fmtHint <|> detectFormat b with
  | none => none
  | some format => some (format, (SLOT_EXTRACTORS format b).filter fun s => s.length > 0 ∧ s.stop ≤ b.length)

end TrackerStream
