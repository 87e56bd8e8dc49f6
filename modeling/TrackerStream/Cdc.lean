import TrackerStream.Ipld

/-!
# Content-defined chunking (`cdc.ts`)

`cdcChunks` cuts a buffer behind the first position, at least `min` bytes on, at which the gear
fingerprint has no bit of the mask, and behind `max` bytes at the latest. The round trips need one fact
of it, `flatten_cdcChunks`: the chunks are the buffer, cut up.
-/

namespace TrackerStream

/-- Chunk sizes in bytes. The loop only moves on because `max` is positive. -/
structure CdcConfig where
  min : Int
  avg : Int
  max : Int
  max_pos : 1 ≤ max

def DEFAULT_CDC : CdcConfig := ⟨8 * 1024, 16 * 1024, 64 * 1024, by decide⟩

/-- The state of the generator that fills `GEAR`. -/
def gearState : Nat → UInt32
  | 0 => 0x9e3779b9
  | i + 1 => gearState i * 1664525 + 1013904223

def GEAR (b : Nat) : UInt32 := gearState (b + 1)

/-- `((1 << k) - 1) >>> 0`; a shift count is taken modulo 32. -/
def lowBits (k : Int) : UInt32 := ((1 : UInt32) <<< (k % 32).toNat.toUInt32) - 1

/-- `Math.log2(avg) | 0`, which is `0` where the logarithm is not finite. -/
def CdcConfig.bits (cfg : CdcConfig) : Nat := cfg.avg.toNat.log2

/-- The stricter mask before the average size, the looser one behind it. -/
def maskAt (maskS maskL : UInt32) (normal : Int) (i : Nat) : UInt32 := if (i : Int) < normal then maskS else maskL

/-- The inner loop from position `i` on, for `n` positions: the cut behind the first match. -/
def scanCut (buf : Bytes) (maskS maskL : UInt32) (normal : Int) : Nat → Nat → UInt32 → Option Nat
  | 0, _, _ => none
  | n + 1, i, fp =>
    let fp := (fp <<< 1) + GEAR (at0 buf i)
    if fp &&& maskAt maskS maskL normal i = 0 then some (i + 1) else scanCut buf maskS maskL normal n (i + 1) fp

/-- Where the chunk that starts at `off` stops. -/
def cutPoint (buf : Bytes) (cfg : CdcConfig) (off : Nat) : Nat :=
  let maskS := lowBits (cfg.bits + 2)
  let maskL := lowBits (cfg.bits - 2)
  let stop := min (off + cfg.max.toNat) buf.length
  let normal := min (off + cfg.avg) (buf.length : Int)
  let i := off + cfg.min.toNat
  (scanCut buf maskS maskL normal (stop - i) i 0).getD stop

def cdcChunksFrom (buf : Bytes) (cfg : CdcConfig) : Nat → Nat → List Bytes
  | 0, _ => []
  | fuel + 1, off =>
    if off < buf.length then
      Buffer.slice buf off (cutPoint buf cfg off) :: cdcChunksFrom buf cfg fuel (cutPoint buf cfg off)
    else []

/-- The chunks of `buf`. Every chunk has a byte, so the length of `buf` is fuel enough. -/
def cdcChunks (buf : Bytes) (cfg : CdcConfig) : List Bytes := cdcChunksFrom buf cfg buf.length 0

theorem scanCut_mem {buf : Bytes} {maskS maskL : UInt32} {normal : Int} {n i : Nat} {fp : UInt32} {cut : Nat}
    (h : scanCut buf maskS maskL normal n i fp = some cut) : i < cut ∧ cut ≤ i + n := by
  induction n generalizing i fp with
  | zero => cases h
  | succ n ih =>
    simp only [scanCut] at h
    split at h
    · cases h; omega
    · have := ih h; omega

theorem cutPoint_bounds {buf : Bytes} (cfg : CdcConfig) {off : Nat} (hoff : off < buf.length) :
    off < cutPoint buf cfg off ∧ cutPoint buf cfg off ≤ buf.length := by
  have hmax := cfg.max_pos
  have hlt : off < min (off + cfg.max.toNat) buf.length := by omega
  simp only [cutPoint]
  generalize hscan : scanCut buf _ _ _ _ _ _ = r
  cases r with
  | none => exact ⟨hlt, Nat.min_le_right _ _⟩
  | some cut =>
    obtain ⟨h₁, h₂⟩ := scanCut_mem hscan
    show off < cut ∧ cut ≤ buf.length
    omega

theorem flatten_cdcChunksFrom (buf : Bytes) (cfg : CdcConfig) {fuel off : Nat} (hoff : off ≤ buf.length)
    (hfuel : buf.length ≤ off + fuel) : (cdcChunksFrom buf cfg fuel off).flatten = Buffer.slice buf off buf.length := by
  induction fuel generalizing off with
  | zero =>
    have : off = buf.length := by omega
    subst this
    rw [Buffer.slice_self]; rfl
  | succ fuel ih =>
    unfold cdcChunksFrom
    by_cases h : off < buf.length
    · obtain ⟨h₁, h₂⟩ := cutPoint_bounds cfg h
      rw [if_pos h, List.flatten_cons, ih h₂ (by omega), Buffer.slice_append _ (Nat.le_of_lt h₁) h₂ h₂]
    · have : off = buf.length := by omega
      subst this
      rw [if_neg h, Buffer.slice_self]; rfl

/-- The chunks of a buffer concatenate to the buffer. -/
theorem flatten_cdcChunks (buf : Bytes) (cfg : CdcConfig) : (cdcChunks buf cfg).flatten = buf := by
  rw [cdcChunks, flatten_cdcChunksFrom buf cfg (Nat.zero_le _) (by omega), Buffer.slice_all]

end TrackerStream
