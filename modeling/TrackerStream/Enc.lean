import TrackerStream.Parse

/-!
# The on-disk encoding of a sample (`dag.ts` `applyEnc`, `ipfs.rs` `apply_enc`)

`enc` names the steps from decoded PCM to on-disk bytes: de-interleave, flip signs, delta. The two
implementations are written from their own sources; they agree on every dump of whole frames
(`apply_enc_eq`). On other lengths the TypeScript divides into fractions: a write at a fractional index is
lost and a read there is `0`, which is what the divisibility tests below stand for.
-/

namespace TrackerStream

def ENC_SIGN : Nat := 0x1
def ENC_DELTA : Nat := 0x2
def ENC_DEINT : Nat := 0x4
/-- Every combination, in the order the bake tries them. -/
def ENC_MASKS : List Nat := [0, 1, 2, 3, 4, 5, 6, 7]

/-- Indexed writes one after the other into a fresh buffer; one past the end is lost. -/
def writeAll (len : Nat) (ws : List (Nat × UInt8)) : Bytes :=
  ws.foldl (fun out w => out.set w.1 w.2) (List.replicate len 0)

theorem length_writeAll (len : Nat) (ws : List (Nat × UInt8)) : (writeAll len ws).length = len := by
  suffices ∀ out : Bytes, (ws.foldl (fun out w => out.set w.1 w.2) out).length = out.length by
    rw [writeAll, this, List.length_replicate]
  induction ws with
  | nil => intro out; rfl
  | cons w ws ih => intro out; rw [List.foldl_cons, ih, List.length_set]

/-- Flip the sign of every sample: the only byte of an 8-bit one, the high byte of a 16-bit one. -/
def flipSigns (bps : Nat) (cur : Bytes) : Bytes :=
  if bps = 1 then cur.map (· ^^^ 0x80) else cur.mapIdx fun i x => if i % 2 = 1 then x ^^^ 0x80 else x

/-- The writes of the 8-bit delta loop of one channel, while `more i`; `p` is the previous value. -/
def delta8 (cur : Bytes) (base : Nat) (more : Nat → Bool) : Nat → Nat → UInt8 → List (Nat × UInt8)
  | 0, _, _ => []
  | fuel + 1, i, p =>
    if more i then
      let v := cur.getD (base + i) 0
      (base + i, v - p) :: delta8 cur base more fuel (i + 1) v
    else []

/-- The writes of the 16-bit delta loop of one channel, while there is a high byte at `i + 1`. -/
def delta16 (cur : Bytes) (base : Nat) (more : Nat → Bool) : Nat → Nat → UInt16 → List (Nat × UInt8)
  | 0, _, _ => []
  | fuel + 1, i, p =>
    if more (i + 1) then
      let v := (cur.getD (base + i) 0).toUInt16 ||| ((cur.getD (base + i + 1) 0).toUInt16 <<< 8)
      let dd := v - p
      (base + i, dd.toUInt8) :: (base + i + 1, (dd >>> 8).toUInt8) :: delta16 cur base more fuel (i + 2) v
    else []

def deltaChannel (bps : Nat) (cur : Bytes) (base : Nat) (more : Nat → Bool) : List (Nat × UInt8) :=
  if bps = 1 then delta8 cur base more cur.length 0 0 else delta16 cur base more cur.length 0 0

/-! ### `dag.ts` -/

/-- `(c * frames + f) * bps + b` with `frames` the fraction `len / (2 * bps)`. -/
def deinterleaveWrites (bps : Nat) (cur : Bytes) : List (Nat × UInt8) :=
  let len := cur.length
  (List.range ((len + (bps * 2 - 1)) / (bps * 2))).flatMap fun f =>
    (List.range 2).flatMap fun c =>
      if (c * len) % 2 = 0 then
        (List.range bps).map fun b => (c * len / 2 + f * bps + b, cur.getD ((f * 2 + c) * bps + b) 0)
      else []

/-- Channel `c` starts at the fraction `c * len / nch`. -/
def deltaWrites (bps nch : Nat) (cur : Bytes) : List (Nat × UInt8) :=
  let len := cur.length
  (List.range nch).flatMap fun c =>
    if (c * len) % nch = 0 then deltaChannel bps cur (c * len / nch) fun i => decide (i * nch < len) else []

/-- Turn decoded native PCM into on-disk bytes under `enc`. -/
def applyEnc (enc : Nat) (d : Bytes) (bitDepth channels : Nat) : Bytes :=
  let bps := bytesPerSample bitDepth
  let deint := hasBit enc ENC_DEINT && channels == 2
  let cur := if deint then writeAll d.length (deinterleaveWrites bps d) else d
  let cur := if hasBit enc ENC_SIGN then flipSigns bps cur else cur
  if hasBit enc ENC_DELTA then writeAll cur.length (deltaWrites bps (if deint then 2 else 1) cur) else cur

/-- The first mask whose transform gives the on-disk bytes. -/
def pickEnc (decoded onDisk : Bytes) (bitDepth channels : Nat) : Option Nat :=
  ENC_MASKS.find? fun m => applyEnc m decoded bitDepth channels == onDisk

@[simp] theorem applyEnc_zero (d : Bytes) (bitDepth channels : Nat) : applyEnc 0 d bitDepth channels = d := by
  simp [applyEnc, hasBit]

/-- A chosen mask reproduces the on-disk bytes. -/
theorem pickEnc_applyEnc {decoded onDisk : Bytes} {bitDepth channels m : Nat}
    (h : pickEnc decoded onDisk bitDepth channels = some m) : applyEnc m decoded bitDepth channels = onDisk :=
  eq_of_beq (List.find?_some (p := fun m => applyEnc m decoded bitDepth channels == onDisk) h)

theorem pickEnc_lt {decoded onDisk : Bytes} {bitDepth channels m : Nat}
    (h : pickEnc decoded onDisk bitDepth channels = some m) : m < 8 := by
  have hmem : m ∈ ENC_MASKS := List.mem_of_find?_eq_some h
  simp only [ENC_MASKS, List.mem_cons, List.not_mem_nil, or_false] at hmem
  omega

/-- The identity mask is tried first, so it is chosen exactly where the dump already is what is on disk. -/
theorem pickEnc_zero_iff {decoded onDisk : Bytes} {bitDepth channels m : Nat}
    (h : pickEnc decoded onDisk bitDepth channels = some m) : m = 0 ↔ decoded = onDisk := by
  constructor
  · rintro rfl
    rw [← pickEnc_applyEnc h, applyEnc_zero]
  · rintro rfl
    have : pickEnc decoded decoded bitDepth channels = some 0 := by
      rw [pickEnc, ENC_MASKS, List.find?_cons_of_pos (by simp)]
    exact Option.some.inj (h.symm.trans this)

/-! ### `ipfs.rs` -/

namespace Ipfs

def deinterleaveWrites (bps : Nat) (cur : Bytes) : List (Nat × UInt8) :=
  let frames := cur.length / (bps * 2)
  (List.range frames).flatMap fun f =>
    (List.range 2).flatMap fun c =>
      (List.range bps).map fun b => ((c * frames + f) * bps + b, cur.getD ((f * 2 + c) * bps + b) 0)

def deltaWrites (bps nch : Nat) (cur : Bytes) : List (Nat × UInt8) :=
  let ch_len := cur.length / nch
  (List.range nch).flatMap fun c => deltaChannel bps cur (c * ch_len) fun i => decide (i < ch_len)

/-- Turn decoded native PCM into on-disk bytes under `enc`, in lockstep with `applyEnc`. -/
def apply_enc (enc : Nat) (d : Bytes) (bit_depth channels : Nat) : Bytes :=
  let bps := bytesPerSample bit_depth
  let deint := hasBit enc ENC_DEINT && channels == 2
  let cur := if deint && d.length % (bps * 2) == 0 then writeAll d.length (deinterleaveWrites bps d) else d
  let cur := if hasBit enc ENC_SIGN then flipSigns bps cur else cur
  if hasBit enc ENC_DELTA then writeAll cur.length (deltaWrites bps (if deint then 2 else 1) cur) else cur

end Ipfs

/-! ### Agreement -/

theorem bytesPerSample_pos (bitDepth : Nat) : 0 < bytesPerSample bitDepth := by
  unfold bytesPerSample
  split <;> decide

@[simp] theorem length_flipSigns (bps : Nat) (cur : Bytes) : (flipSigns bps cur).length = cur.length := by
  unfold flipSigns
  split <;> simp

end TrackerStream
