import TrackerStream.Cdc
import TrackerStream.Chunkers

/-!
# The laws of content-defined chunking

`cdcChunks` is the chunker (`cdcChunker`) that cuts at `cutPoint`. Two facts make it one: a cut lies as far behind
the start of its chunk as in the rest of the buffer alone (`cutPoint_drop`), and one before the end of the buffer
is where it is in every longer buffer (`cutPoint_append`), since neither the window nor the place where the masks
change was clamped there.
-/

namespace TrackerStream
variable {buf : Bytes} {cfg : CdcConfig} {maskS maskL fp : UInt32} {normal : Int} {n i : Nat}

theorem at0_drop (buf : Bytes) (off i : Nat) : at0 (buf.drop off) i = at0 buf (off + i) := by
  rw [at0, at0, List.getD_eq_getElem?_getD, List.getD_eq_getElem?_getD, List.getElem?_drop]

theorem at0_append (more : Bytes) (h : i < buf.length) : at0 (buf ++ more) i = at0 buf i := by
  rw [at0, at0, List.getD_eq_getElem?_getD, List.getD_eq_getElem?_getD, List.getElem?_append_left h]

theorem scanCut_drop (off : Nat) : scanCut buf maskS maskL (off + normal) n (off + i) fp =
    (scanCut (buf.drop off) maskS maskL normal n i fp).map (off + ·) := by
  induction n generalizing i fp with
  | zero => rfl
  | succ n ih =>
    have hmask : maskAt maskS maskL (off + normal) (off + i) = maskAt maskS maskL normal i :=
      if_congr (by push_cast; omega) rfl rfl
    simp only [scanCut, at0_drop, hmask]
    split
    · rfl
    · rw [Nat.add_assoc]
      exact ih

/-- The scan of a longer buffer, where it is as long and the masks change in the same place. -/
theorem scanCut_append {more : Bytes} {normal' : Int} (hn : 0 < n → i + n ≤ buf.length)
    (hnormal : ∀ j : Nat, j < buf.length → ((j : Int) < normal ↔ (j : Int) < normal')) :
    scanCut (buf ++ more) maskS maskL normal' n i fp = scanCut buf maskS maskL normal n i fp := by
  induction n generalizing i fp with
  | zero => rfl
  | succ n ih =>
    have hi : i < buf.length := by have := hn n.succ_pos; omega
    have hmask : maskAt maskS maskL normal' i = maskAt maskS maskL normal i := if_congr (hnormal i hi).symm rfl rfl
    simp only [scanCut, at0_append more hi, hmask]
    split
    · rfl
    · exact ih fun _ => by have := hn n.succ_pos; omega

/-- A longer scan cuts where the scan does. -/
theorem scanCut_longer {cut : Nat} (h : scanCut buf maskS maskL normal n i fp = some cut) (m : Nat) :
    scanCut buf maskS maskL normal (n + m) i fp = some cut := by
  induction n generalizing i fp with
  | zero => cases h
  | succ n ih =>
    rw [Nat.succ_add]
    simp only [scanCut] at h ⊢
    split at h
    · rename_i hcut
      rw [if_pos hcut]
      exact h
    · rename_i hcut
      rw [if_neg hcut]
      exact ih h

theorem cutPoint_drop {off : Nat} (hoff : off ≤ buf.length) (o : Nat) :
    cutPoint buf cfg (off + o) = off + cutPoint (buf.drop off) cfg o := by
  have hstop : min (off + o + cfg.max.toNat) buf.length = off + min (o + cfg.max.toNat) (buf.drop off).length := by
    rw [List.length_drop]
    omega
  have hnormal : min (((off + o : Nat) : Int) + cfg.avg) (buf.length : Int) =
      off + min ((o : Int) + cfg.avg) ((buf.drop off).length : Int) := by
    rw [List.length_drop]
    push_cast [hoff]
    omega
  have hstart : off + o + cfg.min.toNat = off + (o + cfg.min.toNat) := Nat.add_assoc ..
  simp only [cutPoint, hstop, hnormal, hstart, scanCut_drop, Nat.add_sub_add_left]
  generalize scanCut (buf.drop off) _ _ _ _ _ _ = r
  cases r <;> rfl

theorem cutPoint_append {off : Nat} (more : Bytes) (h : cutPoint buf cfg off < buf.length) :
    cutPoint (buf ++ more) cfg off = cutPoint buf cfg off := by
  have hlen : (buf ++ more).length = buf.length + more.length := List.length_append
  have hnormal : ∀ j : Nat, j < buf.length → ((j : Int) < min (off + cfg.avg) (buf.length : Int) ↔
      (j : Int) < min (off + cfg.avg) ((buf ++ more).length : Int)) := fun j hj => by
    rw [hlen]
    push_cast
    omega
  have hscan : ∀ n : Nat, (0 < n → off + cfg.min.toNat + n ≤ buf.length) →
      scanCut (buf ++ more) (lowBits (cfg.bits + 2)) (lowBits (cfg.bits - 2))
          (min (off + cfg.avg) ((buf ++ more).length : Int)) n (off + cfg.min.toNat) 0 =
        scanCut buf (lowBits (cfg.bits + 2)) (lowBits (cfg.bits - 2)) (min (off + cfg.avg) (buf.length : Int))
          n (off + cfg.min.toNat) 0 := fun n hn => scanCut_append hn hnormal
  simp only [cutPoint] at h ⊢
  generalize hcut : scanCut buf _ _ _ _ _ _ = r at h
  cases r with
  | none =>
    have hstop : min (off + cfg.max.toNat) (buf ++ more).length = min (off + cfg.max.toNat) buf.length := by
      rw [Option.getD_none] at h
      rw [hlen]
      omega
    rw [hstop, hscan _ (by omega), hcut]
  | some cut =>
    obtain ⟨hlow, hhigh⟩ := scanCut_mem hcut
    obtain ⟨m, hm⟩ : ∃ m, min (off + cfg.max.toNat) (buf ++ more).length - (off + cfg.min.toNat) =
        min (off + cfg.max.toNat) buf.length - (off + cfg.min.toNat) + m :=
      ⟨_, (Nat.add_sub_of_le (by omega)).symm⟩
    rw [hm, scanCut_longer ((hscan _ (by omega)).trans hcut) m]
    rfl

theorem cutPoint_le (buf : Bytes) (cfg : CdcConfig) (off : Nat) : cutPoint buf cfg off ≤ off + cfg.max.toNat := by
  have hmax := cfg.max_pos
  simp only [cutPoint]
  generalize hcut : scanCut buf _ _ _ _ _ _ = r
  cases r with
  | none => exact Nat.min_le_left _ _
  | some cut =>
    have := scanCut_mem hcut
    show cut ≤ off + cfg.max.toNat
    omega

/-- A cut before the end of the buffer is one behind the smallest size, or where the chunk is full. -/
theorem cutPoint_cases {off : Nat} (h : cutPoint buf cfg off < buf.length) :
    off + cfg.min.toNat < cutPoint buf cfg off ∧ cfg.min.toNat < cfg.max.toNat ∨
      cutPoint buf cfg off = off + cfg.max.toNat := by
  simp only [cutPoint] at h ⊢
  generalize hcut : scanCut buf _ _ _ _ _ _ = r at h
  cases r with
  | none =>
    rw [Option.getD_none] at h ⊢
    exact .inr (by omega)
  | some cut =>
    have := scanCut_mem hcut
    exact .inl ⟨this.1, by omega⟩

/-- `cdcChunks` cuts where `cutPoint` does. -/
def cdcChunker (cfg : CdcConfig) : Chunker UInt8 where
  cut b := if b = [] then 0 else cutPoint b cfg 0
  cut_pos b h := by
    rw [if_neg h]
    exact (cutPoint_bounds cfg (List.length_pos_iff.2 h)).1
  cut_le b := by
    split
    · exact Nat.zero_le _
    · rename_i h
      exact (cutPoint_bounds cfg (List.length_pos_iff.2 h)).2
  cut_append b more h := by
    have hb : b ≠ [] := List.length_pos_iff.1 (Nat.zero_lt_of_lt h)
    rw [if_neg hb] at h
    rw [if_neg hb, if_neg fun hnil => hb (List.append_eq_nil_iff.1 hnil).1, cutPoint_append more h]

theorem cut_cdcChunker {b : Bytes} (h : b ≠ []) : (cdcChunker cfg).cut b = cutPoint b cfg 0 := if_neg h

theorem cdcChunksFrom_eq {fuel off : Nat} (hoff : off ≤ buf.length) (hfuel : buf.length ≤ off + fuel) :
    cdcChunksFrom buf cfg fuel off = (cdcChunker cfg).chunks (buf.drop off) := by
  induction fuel generalizing off with
  | zero =>
    rw [List.drop_of_length_le (show buf.length ≤ off from hfuel), Chunker.chunks_nil]
    rfl
  | succ fuel ih =>
    unfold cdcChunksFrom
    split
    · rename_i hlt
      obtain ⟨hgt, hle⟩ := cutPoint_bounds cfg hlt
      have hne : buf.drop off ≠ [] := fun hnil => absurd (List.drop_eq_nil_iff.1 hnil) (Nat.not_le.2 hlt)
      have hcut : cutPoint buf cfg off = off + cutPoint (buf.drop off) cfg 0 := cutPoint_drop hoff 0
      rw [Chunker.chunks_cons hne, cut_cdcChunker hne, ih hle (by omega), List.drop_drop, ← hcut]
      congr 1
      rw [Buffer.slice, hcut, List.drop_take, Nat.add_sub_cancel_left]
    · rename_i hge
      rw [List.drop_of_length_le (Nat.not_lt.1 hge), Chunker.chunks_nil]

theorem cdcChunks_eq (buf : Bytes) (cfg : CdcConfig) : cdcChunks buf cfg = (cdcChunker cfg).chunks buf :=
  cdcChunksFrom_eq (Nat.zero_le _) (Nat.le_add_left _ _)

/-- The chunks are the buffer cut up, each of a byte or more and none longer than `max`; all but the last are longer than
`min`, or as long as `max` where `min` is no less; more bytes at the end change the last one only; and those behind a
boundary are the chunks of the rest alone. The loop has ended by the fuel it is given. -/
theorem cdcChunks_laws (buf : Bytes) (cfg : CdcConfig) :
    (∀ n, cdcChunksFrom buf cfg (buf.length + n) 0 = cdcChunks buf cfg) ∧
      (cdcChunks buf cfg).flatten = buf ∧
      (∀ c ∈ cdcChunks buf cfg, c ≠ [] ∧ (c.length : Int) ≤ cfg.max) ∧
      (∀ c ∈ (cdcChunks buf cfg).dropLast,
        if cfg.min < cfg.max then cfg.min < (c.length : Int) else (c.length : Int) = cfg.max) ∧
      (∀ more, (cdcChunks buf cfg).dropLast <+: cdcChunks (buf ++ more) cfg) ∧
      ∀ xs ys, cdcChunks buf cfg = xs ++ ys → cdcChunks (buf.drop xs.flatten.length) cfg = ys := by
  have hmax := cfg.max_pos
  refine ⟨fun n => ?_, flatten_cdcChunks buf cfg, ?_, ?_, fun more => ?_, fun xs ys h => ?_⟩
  · rw [cdcChunks_eq, cdcChunksFrom_eq (Nat.zero_le _) (by omega), List.drop_zero]
  · rw [cdcChunks_eq]
    refine Chunker.forall_chunks (fun b hb => ?_) buf
    obtain ⟨hpos, hle⟩ := cutPoint_bounds cfg (List.length_pos_iff.2 hb)
    have hlen := cutPoint_le b cfg 0
    rw [cut_cdcChunker hb]
    constructor
    · exact fun hnil => absurd (congrArg List.length hnil) (by rw [List.length_take_of_le hle, List.length_nil]; omega)
    · rw [List.length_take_of_le hle]
      omega
  · rw [cdcChunks_eq]
    refine Chunker.forall_dropLast_chunks (fun b hlt => ?_) buf
    have hb : b ≠ [] := List.length_pos_iff.1 (Nat.zero_lt_of_lt hlt)
    rw [cut_cdcChunker hb] at hlt ⊢
    obtain ⟨hpos, hle⟩ := cutPoint_bounds cfg (List.length_pos_iff.2 hb)
    rw [List.length_take_of_le hle]
    rcases cutPoint_cases hlt with ⟨hmin, hroom⟩ | hfull
    · rw [if_pos (by omega)]
      omega
    · split <;> omega
  · rw [cdcChunks_eq, cdcChunks_eq]
    exact Chunker.dropLast_chunks_prefix buf more
  · rw [cdcChunks_eq] at h ⊢
    exact Chunker.chunks_of_append h

end TrackerStream
