import TrackerStream.IpfsUsize

/-!
# Reassembly that cannot panic

Exactly which DAGs are reassembled or turned away without a panic (`reassembly_noPanic_iff`). Each function first gets what it
comes to when every block is there: a panic, an error, or bytes of a known length. The indices inside a sample's transforms
are always in range.
-/

namespace TrackerStream.Ipfs.Usize
open Panics

/-! ### Indices -/

theorem touch_ok {ε : Type} {len : Nat} {is : List Nat} (h : ∀ i ∈ is, i < len) : (touch len is : Run ε Unit) = .ok () := if_pos h

theorem frameIndices_lt {bps frames i : Nat} (h : i ∈ frameIndices bps frames) : i < frames * (2 * bps) := by
  simp only [frameIndices, List.mem_flatMap, List.mem_range, List.mem_cons, List.not_mem_nil, or_false] at h
  obtain ⟨f, hf, k, hk, b, hb, rfl | rfl⟩ := h
  · calc (f * 2 + k) * bps + b < (f * 2 + k + 1) * bps := by rw [Nat.succ_mul]; omega
      _ ≤ frames * 2 * bps := Nat.mul_le_mul_right _ (by omega)
      _ = _ := Nat.mul_assoc ..
  · have hside : k * frames + f + 1 ≤ frames * 2 := by
      have := Nat.mul_le_mul_right frames (show k ≤ 1 by omega)
      omega
    calc (k * frames + f) * bps + b < (k * frames + f + 1) * bps := by rw [Nat.succ_mul]; omega
      _ ≤ frames * 2 * bps := Nat.mul_le_mul_right _ hside
      _ = _ := Nat.mul_assoc ..

theorem frames_lt {bps len i : Nat} (h : i ∈ frameIndices bps (len / (2 * bps))) : i < len :=
  (frameIndices_lt h).trans_le (Nat.div_mul_le_self ..)

theorem delta8_lt {cur : Bytes} {base len : Nat} {fuel i : Nat} {p : UInt8} :
    ∀ w ∈ delta8 cur base (fun i => decide (i < len)) fuel i p, w.1 < base + len := by
  induction fuel generalizing i p with
  | zero => simp [delta8]
  | succ fuel ih =>
    rw [delta8]
    split
    · rename_i hmore
      exact List.forall_mem_cons.2 ⟨by simpa using hmore, ih⟩
    · simp

theorem delta16_lt {cur : Bytes} {base len : Nat} {fuel i : Nat} {p : UInt16} :
    ∀ w ∈ delta16 cur base (fun i => decide (i < len)) fuel i p, w.1 < base + len := by
  induction fuel generalizing i p with
  | zero => simp [delta16]
  | succ fuel ih =>
    rw [delta16]
    split
    · rename_i hmore
      have hi : i + 1 < len := of_decide_eq_true hmore
      refine List.forall_mem_cons.2 ⟨?_, List.forall_mem_cons.2 ⟨?_, ih⟩⟩
      · show base + i < base + len
        omega
      · show base + i + 1 < base + len
        omega
    · simp

theorem deltaWrites_lt {bps nch : Nat} {cur : Bytes} (w : Nat × UInt8) (h : w ∈ deltaWrites bps nch cur) :
    w.1 < cur.length := by
  obtain ⟨k, hk, hw⟩ := List.mem_flatMap.1 h
  have hk := List.mem_range.1 hk
  have hstop : w.1 < k * (cur.length / nch) + cur.length / nch := by
    rw [deltaChannel] at hw
    split at hw
    · exact delta8_lt w hw
    · exact delta16_lt w hw
  calc w.1 < (k + 1) * (cur.length / nch) := by rwa [Nat.succ_mul]
    _ ≤ nch * (cur.length / nch) := Nat.mul_le_mul_right _ hk
    _ ≤ cur.length := Nat.mul_div_le ..

theorem apply_enc_ok (enc : Nat) (d : Bytes) (bit_depth channels : Nat) :
    apply_enc enc d bit_depth channels = .ok (Ipfs.apply_enc enc d bit_depth channels) := by
  have hframes : ∀ i ∈ (if (hasBit enc ENC_DEINT && channels == 2) && d.length % (bytesPerSample bit_depth * 2) == 0 then
      frameIndices (bytesPerSample bit_depth) (d.length / (bytesPerSample bit_depth * 2)) else []), i < d.length := by
    intro i hi
    split at hi
    · rw [Nat.mul_comm _ 2] at hi
      exact frames_lt hi
    · simp at hi
  have hdelta : ∀ i ∈ (if hasBit enc ENC_DELTA then (deltaWrites (bytesPerSample bit_depth)
      (if (hasBit enc ENC_DEINT && channels == 2) then 2 else 1) d).map (·.1) else []), i < d.length := by
    intro i hi
    split at hi
    · obtain ⟨w, hw, rfl⟩ := List.mem_map.1 hi
      exact deltaWrites_lt w hw
    · simp at hi
  simp only [apply_enc]
  rw [touch_ok hframes, touch_ok hdelta]
  rfl

theorem length_apply_enc (enc : Nat) (d : Bytes) (bit_depth channels : Nat) :
    (Ipfs.apply_enc enc d bit_depth channels).length = d.length := by
  simp only [Ipfs.apply_enc]
  split <;> split <;> split <;> simp only [length_writeAll, length_flipSigns]

theorem flac_decode_eq {lib : FlacLib} {bytes : Bytes} {channels bit_depth : Nat} :
    flac_decode lib bytes channels bit_depth = (do
      let samples ← lift (lib.claxon bytes)
      let _ ← grow (samples.flatMap (leBytes (bytesPerSample bit_depth)))
      lift (Ipfs.flac_decode lib bytes channels bit_depth)) := by
  rw [flac_decode]
  cases lib.claxon bytes with
  | error e => rfl
  | ok samples =>
    simp only [lift_ok, Outcome.ok_bind]
    by_cases hlen : (samples.flatMap (leBytes (bytesPerSample bit_depth))).length ≤ ISIZE_MAX
    · rw [grow, if_pos hlen]
      simp only [Outcome.ok_bind]
      rw [touch_ok fun i hi => ?_, Outcome.ok_bind]
      split at hi
      · exact frames_lt hi
      · simp at hi
    · rw [grow, if_neg hlen]
      rfl

/-! ### What was fetched -/

section
variable {c : Codec} {lib : FlacLib} {rpc : BlockGetter}

theorem held_of_fetch {cid : Cid} {b : Bytes} (h : fetch_bytes c rpc cid = .ok b) : held c rpc cid = b := by rw [held, h]

theorem fetch_many_ok_iff {cids : List Cid} : (∃ blocks, fetch_many c rpc cids = .ok blocks) ↔ Fetched c rpc cids := by
  constructor
  · rintro ⟨blocks, h⟩ cid hcid
    obtain ⟨y, -, hy⟩ := Outcome.mapM_ok_mem h cid hcid
    obtain ⟨b, hb, -⟩ := Outcome.bind_ok hy
    exact ⟨b, hb⟩
  · intro h
    refine ⟨_, Outcome.mapM_ok (g := fun cid => (cid, held c rpc cid)) fun cid hcid => ?_⟩
    obtain ⟨b, hb⟩ := h cid hcid
    rw [hb, held_of_fetch hb]
    rfl

theorem get_of_fetch_many {cids : List Cid} {blocks : BlockMap} (h : fetch_many c rpc cids = .ok blocks) (what : String)
    {cid : Cid} (hmem : cid ∈ cids) : blocks.get what cid = .ok (held c rpc cid) := by
  obtain ⟨hkeys, hmade⟩ := Outcome.mapM_ok_map (g := Prod.fst) (fun cid y hy => by
    obtain ⟨b, -, hb⟩ := Outcome.bind_ok hy
    cases hb
    rfl) h
  have hheld : ∀ y ∈ blocks, held c rpc y.1 = y.2 := by
    intro y hy
    obtain ⟨b, hb, heq⟩ := Outcome.bind_ok (hmade y hy)
    rw [held_of_fetch hb]
    exact congrArg Prod.snd (Except.ok.inj heq)
  rw [← hkeys] at hmem
  suffices blocks.lookup cid = some (held c rpc cid) by rw [BlockMap.get, this]
  clear h hkeys hmade
  induction blocks with
  | nil => simp at hmem
  | cons y blocks ih =>
    obtain ⟨key, b⟩ := y
    rw [List.lookup_cons]
    by_cases heq : cid = key
    · rw [beq_iff_eq.2 heq, heq, hheld (key, b) (by simp)]
    · rw [beq_false_of_ne heq]
      refine ih ((List.mem_cons.1 hmem).resolve_left heq) fun y hy => hheld y (by simp [hy])

theorem size_eq (cids : List Cid) : size c rpc cids = (cids.flatMap (held c rpc)).length := by
  rw [size, List.length_flatMap]

/-! ### Bytes one behind the other -/

theorem grow_append_append {ε : Type} (out b rest : Bytes) :
    ((do let out ← grow (out ++ b); grow (out ++ rest)) : Run ε Bytes) = grow (out ++ (b ++ rest)) := by
  by_cases h : (out ++ b).length ≤ ISIZE_MAX
  · rw [grow, if_pos h, ← List.append_assoc]
    rfl
  · rw [grow, if_neg h, grow, if_neg]
    · rfl
    · simp only [List.length_append] at h ⊢
      omega

theorem grow_of_le {ε : Type} {b : Bytes} (h : b.length ≤ ISIZE_MAX) : (grow b : Run ε Bytes) = .ok b := if_pos h

/-- Blocks that are there are appended, or do not fit. -/
theorem extend_eq {blocks : BlockMap} {what : String} {cids : List Cid} (hget : ∀ cid ∈ cids, blocks.get what cid = .ok (held c rpc cid))
    {out : Bytes} (hout : out.length ≤ ISIZE_MAX) : extend blocks what out cids = grow (out ++ cids.flatMap (held c rpc)) := by
  induction cids generalizing out with
  | nil => rw [List.flatMap_nil, List.append_nil, grow_of_le hout]; rfl
  | cons cid cids ih =>
    rw [extend, List.foldlM_cons, hget cid (by simp), lift_ok, Outcome.ok_bind, List.flatMap_cons, ← grow_append_append]
    by_cases hfits : (out ++ held c rpc cid).length ≤ ISIZE_MAX
    · rw [grow_of_le hfits]
      exact ih (fun cid hcid => hget cid (by simp [hcid])) hfits
    · rw [grow, if_neg hfits]
      rfl

/-! ### The skeleton -/

/-- Chunks are emitted, or too many are asked for, or they do not fit. -/
theorem emit_chunks_ends {blocks : BlockMap} {chunks : List Cid}
    (hget : ∀ cid ∈ chunks, blocks.get "missing skeleton chunk" cid = .ok (held c rpc cid)) (nc : Nat) {out : Bytes}
    (hout : out.length ≤ ISIZE_MAX) :
    Ends ((out ++ (chunks.take nc).flatMap (held c rpc)).length ≤ ISIZE_MAX) (nc ≤ chunks.length)
      (· = (out ++ (chunks.take nc).flatMap (held c rpc), chunks.drop nc)) (emit_chunks blocks nc chunks out) := by
  induction nc generalizing chunks out with
  | zero => exact .ok (by simpa using hout) (Nat.zero_le _) _ rfl (by simp [emit_chunks])
  | succ nc ih =>
    cases chunks with
    | nil => exact .err (by simpa using hout) (by simp) _ rfl
    | cons cid chunks =>
      have hstep : emit_chunks blocks (nc + 1) (cid :: chunks) out =
          (grow (out ++ held c rpc cid) >>= fun out => emit_chunks blocks nc chunks out) := by
        rw [emit_chunks, hget cid (by simp), lift_ok, Outcome.ok_bind]
      rw [hstep, List.take_succ_cons, List.flatMap_cons, ← List.append_assoc, List.length_cons, List.drop_succ_cons]
      by_cases hfits : (out ++ held c rpc cid).length ≤ ISIZE_MAX
      · rw [grow_of_le hfits, Outcome.ok_bind, Nat.add_le_add_iff_right]
        exact ih (fun cid hcid => hget cid (by simp [hcid])) hfits
      · refine .panic ?_ (by rw [grow, if_neg hfits]; rfl)
        rw [List.length_append]
        omega

theorem resize_eq (out : Bytes) (z : Nat) : resize out z = grow (out ++ List.replicate z 0) := by
  rw [resize, add]
  split
  · rfl
  · rename_i hover
    rw [grow, if_neg]
    · rfl
    · rw [List.length_append, List.length_replicate]
      have : ISIZE_MAX < 2 ^ USIZE_BITS := by decide
      omega

theorem resize_ends (out : Bytes) (z : Nat) :
    Ends (out.length + z ≤ ISIZE_MAX) True (fun r => r.length = out.length + z) (resize out z) := by
  have hlen : (out ++ List.replicate z (0 : UInt8)).length = out.length + z := by rw [List.length_append, List.length_replicate]
  rw [resize_eq, grow, ← hlen]
  exact .check rfl

variable (c rpc) in
theorem length_emitted (out : Bytes) (nc : Nat) (chunks : List Cid) : (out ++ (chunks.take nc).flatMap (held c rpc)).length =
    out.length + ((chunks.map fun cid => (held c rpc cid).length).take nc).sum := by
  rw [List.length_append, List.length_flatMap, List.map_take]

theorem walk_layout_ends {blocks : BlockMap} (layout : List Nat) {chunks : List Cid}
    (hget : ∀ cid ∈ chunks, blocks.get "missing skeleton chunk" cid = .ok (held c rpc cid)) {out : Bytes}
    (hout : out.length ≤ ISIZE_MAX) :
    Ends (out.length + emitted layout (chunks.map fun cid => (held c rpc cid).length) ≤ ISIZE_MAX)
      (contents layout ≤ chunks.length)
      (fun r => r.length = out.length + emitted layout (chunks.map fun cid => (held c rpc cid).length))
      (walk_layout blocks layout chunks out) := by
  induction layout using List.twoStepInduction generalizing chunks out with
  | nil => exact .ok (by simpa [emitted] using hout) (Nat.zero_le _) out (by simp [emitted]) rfl
  | singleton nc =>
    have hlen := length_emitted c rpc out nc chunks
    have hresize : nc ≤ chunks.length → ∀ s : Bytes × List Cid,
        s = (out ++ (chunks.take nc).flatMap (held c rpc), chunks.drop nc) →
        Ends (out.length + emitted [nc] (chunks.map fun cid => (held c rpc cid).length) ≤ ISIZE_MAX) True
          (fun r => r.length = out.length + emitted [nc] (chunks.map fun cid => (held c rpc cid).length)) (resize s.1 0) := by
      rintro - s rfl
      rw [emitted, ← hlen]
      exact resize_ends _ 0
    refine (emit_chunks_ends hget nc hout).bind hresize ?_ (and_iff_left trivial).symm
    rw [emitted, ← hlen]
    exact (and_iff_left_of_imp fun h _ => h).symm
  | cons_cons nc z layout ih =>
    have hlen := length_emitted c rpc out nc chunks
    have hrest : nc ≤ chunks.length → ∀ s : Bytes × List Cid,
        s = (out ++ (chunks.take nc).flatMap (held c rpc), chunks.drop nc) →
        Ends (out.length + emitted (nc :: z :: layout) (chunks.map fun cid => (held c rpc cid).length) ≤ ISIZE_MAX)
          (contents layout ≤ chunks.length - nc)
          (fun r => r.length = out.length + emitted (nc :: z :: layout) (chunks.map fun cid => (held c rpc cid).length))
          (resize s.1 z >>= fun out => walk_layout blocks layout s.2 out) := by
      rintro hnc s rfl
      rw [emitted, if_pos (by rwa [List.length_map]), ← Nat.add_assoc, ← hlen, ← List.length_drop, ← List.map_drop, ← Nat.add_assoc]
      have hdrop : ∀ cid ∈ chunks.drop nc, blocks.get "missing skeleton chunk" cid = .ok (held c rpc cid) :=
        fun cid hcid => hget cid (List.mem_of_mem_drop hcid)
      generalize out ++ (chunks.take nc).flatMap (held c rpc) = out
      by_cases hz : out.length + z ≤ ISIZE_MAX
      · rcases resize_ends out z with ⟨h, -⟩ | ⟨-, h, -⟩ | ⟨-, -, r, hr, hx⟩
        · exact absurd hz h
        · exact absurd trivial h
        · rw [hx, Outcome.ok_bind, ← hr]
          exact ih hdrop (hr.trans_le hz)
      · rcases resize_ends out z with ⟨-, hx⟩ | ⟨h, -⟩ | ⟨h, -⟩
        · exact .panic (by omega) (by rw [hx]; rfl)
        · exact absurd h hz
        · exact absurd h hz
    refine (emit_chunks_ends hget nc hout).bind hrest ?_ ?_
    · rw [emitted, List.length_map, ← Nat.add_assoc, ← hlen]
      by_cases hnc : nc ≤ chunks.length
      · rw [if_pos hnc]
        omega
      · rw [if_neg hnc]
        omega
    · rw [contents]
      omega

theorem assemble_skeleton_ends {blocks : BlockMap} (layout : List Nat) {chunks : List Cid}
    (hget : ∀ cid ∈ chunks, blocks.get "missing skeleton chunk" cid = .ok (held c rpc cid)) :
    Ends (skeletonSize layout (chunks.map fun cid => (held c rpc cid).length) ≤ ISIZE_MAX) (contents layout ≤ chunks.length)
      (fun r => r.length = skeletonSize layout (chunks.map fun cid => (held c rpc cid).length))
      (assemble_skeleton chunks layout blocks) := by
  rw [assemble_skeleton]
  by_cases hlayout : layout.isEmpty = true
  · obtain rfl := List.isEmpty_iff.1 hlayout
    have hsum : (chunks.map fun cid => (held c rpc cid).length).sum = (chunks.flatMap (held c rpc)).length :=
      List.length_flatMap.symm
    rw [if_pos hlayout, skeletonSize, if_pos hlayout, extend_eq hget (Nat.zero_le _), List.nil_append, hsum]
    exact Ends.congr (.check rfl) Iff.rfl (iff_of_true (Nat.zero_le _) trivial) fun _ h => h ▸ rfl
  · rw [if_neg hlayout, skeletonSize, if_neg hlayout]
    have hnil : ([] : Bytes).length ≤ ISIZE_MAX := Nat.zero_le _
    simpa using walk_layout_ends layout hget hnil

/-! ### Samples of a v3 DAG -/

theorem length_flac_decode {bytes pcm : Bytes} {channels bit_depth : Nat} {samples : List Int}
    (hs : lib.claxon bytes = .ok samples) (h : Ipfs.flac_decode lib bytes channels bit_depth = .ok pcm) :
    pcm.length = samples.length * bytesPerSample bit_depth := by
  have hinter := Buffer.length_flatMap_const (length_leBytes (bytesPerSample bit_depth)) samples
  rw [Ipfs.flac_decode, hs, Outcome.ok_bind] at h
  simp only at h
  by_cases hch : channels = 2
  · rw [if_neg (not_not_intro hch)] at h
    by_cases hmod : (samples.flatMap (leBytes (bytesPerSample bit_depth))).length % (2 * bytesPerSample bit_depth) = 0
    · rw [if_neg (not_not_intro hmod)] at h
      obtain rfl := Except.ok.inj h
      have hside : ∀ (g : Nat → Nat → UInt8) (frames bps : Nat),
          ((List.range frames).flatMap fun f => (List.range bps).map fun b => g f b).length = frames * bps := by
        intro g frames bps
        rw [Buffer.length_flatMap_const (k := bps) (fun f => by simp), List.length_range]
      rw [List.length_append, hside, hside, ← Nat.two_mul, ← hinter, Nat.mul_left_comm]
      exact Nat.div_mul_cancel (Nat.dvd_of_mod_eq_zero hmod)
    · rw [if_pos hmod] at h
      cases h
  · rw [if_pos hch] at h
    obtain rfl := Except.ok.inj h
    exact hinter

theorem decode_sample_ends {leaf : Bytes} {channels bit_depth enc_codec : Nat} :
    Ends (enc_codec = FLAC_CODEC → ∀ samples, lib.claxon leaf = .ok samples →
        samples.length * bytesPerSample bit_depth ≤ ISIZE_MAX)
      (∃ pcm, Ipfs.decode_sample lib leaf channels bit_depth enc_codec = .ok pcm)
      (Ipfs.decode_sample lib leaf channels bit_depth enc_codec = .ok ·) (decode_sample lib leaf channels bit_depth enc_codec) := by
  rw [decode_sample, Ipfs.decode_sample]
  by_cases hcodec : enc_codec = FLAC_CODEC
  · rw [if_pos hcodec, if_pos hcodec, flac_decode_eq]
    cases hs : lib.claxon leaf with
    | error e =>
      have hnone : ¬ ∃ pcm, Ipfs.flac_decode lib leaf channels bit_depth = .ok pcm := by
        rintro ⟨pcm, h⟩
        rw [Ipfs.flac_decode, hs] at h
        cases h
      exact .err (fun _ samples h => by cases h) hnone e rfl
    | ok samples =>
      have hlen := Buffer.length_flatMap_const (length_leBytes (bytesPerSample bit_depth)) samples
      rw [lift_ok, Outcome.ok_bind, grow, hlen]
      by_cases hfits : samples.length * bytesPerSample bit_depth ≤ ISIZE_MAX
      · rw [if_pos hfits, Outcome.ok_bind]
        have hall : ∀ xs, (Except.ok samples : Except Fault _) = .ok xs → xs.length * bytesPerSample bit_depth ≤ ISIZE_MAX := by
          rintro xs h
          rwa [← Except.ok.inj h]
        cases hd : Ipfs.flac_decode lib leaf channels bit_depth with
        | error e => exact .err (fun _ => hall) (fun h => by obtain ⟨pcm, h⟩ := h; cases h) e rfl
        | ok pcm => exact .ok (fun _ => hall) ⟨pcm, rfl⟩ pcm rfl rfl
      · rw [if_neg hfits]
        exact .panic (fun h => hfits (h hcodec samples rfl)) rfl
  · rw [if_neg hcodec, if_neg hcodec]
    exact .ok (fun h => absurd h hcodec) ⟨leaf, rfl⟩ leaf rfl rfl

variable (lib) in
/-- A sample is written, or fails to decode or overruns, or something of it cannot be addressed. -/
theorem write_sample_ends {blocks : BlockMap} {out : Bytes} {s : SampleV3} (hout : out.length ≤ ISIZE_MAX)
    (hget : ∀ cid ∈ s.chunks, blocks.get "missing sample chunk" cid = .ok (held c rpc cid)) :
    Ends (Addressable c lib rpc s) (Placed c lib rpc out.length s) (fun r => r.length = out.length)
      (write_sample lib blocks out s) := by
  have hleaf : extend blocks "missing sample chunk" [] s.chunks = grow (leafBytes c rpc s) :=
    extend_eq hget (Nat.zero_le _)
  rw [write_sample, hleaf, grow]
  by_cases hfits : (leafBytes c rpc s).length ≤ ISIZE_MAX
  · rw [if_pos hfits, Outcome.ok_bind]
    have hdecode : Ends _ (∃ pcm, decoded c lib rpc s = .ok pcm) (decoded c lib rpc s = .ok ·)
        (decode_sample lib (leafBytes c rpc s) s.channels s.bit_depth s.enc_codec) := decode_sample_ends
    rcases hdecode with ⟨h, hx⟩ | ⟨h, hbad, e, hx⟩ | ⟨h, -, pcm, hpcm, hx⟩
    · exact .panic (fun ha => h ha.unpacked) (by rw [hx]; rfl)
    · refine .err ⟨hfits, h, fun pcm hpcm => absurd ⟨pcm, hpcm⟩ hbad⟩ ?_ e (by rw [hx]; rfl)
      rintro ⟨pcm, hpcm, -⟩
      exact hbad ⟨pcm, hpcm⟩
    · have hone : ∀ p, decoded c lib rpc s = .ok p → p = pcm := fun p hp => Except.ok.inj (hp.symm.trans hpcm)
      rw [hx, Outcome.ok_bind, apply_enc_ok, Outcome.ok_bind]
      have henc := length_apply_enc s.enc pcm s.bit_depth s.channels
      simp only
      rw [henc, add]
      by_cases hstop : s.offset + pcm.length < 2 ^ USIZE_BITS
      · rw [if_pos hstop, Outcome.ok_bind]
        have hall : Addressable c lib rpc s := ⟨hfits, h, fun p hp => by rwa [hone p hp]⟩
        by_cases hover : s.offset + pcm.length > out.length
        · rw [if_pos hover]
          refine .err hall ?_ _ rfl
          rintro ⟨p, hp, hle⟩
          rw [hone p hp] at hle
          omega
        · have hle : s.offset + (Ipfs.apply_enc s.enc pcm s.bit_depth s.channels).length ≤ out.length := by omega
          rw [if_neg hover]
          refine .ok hall ⟨pcm, hpcm, by omega⟩ _ (Buffer.length_blit out hle) ?_
          show copy out s.offset (s.offset + pcm.length) _ = _
          rw [copy, if_pos ⟨by omega, by omega, by omega⟩]
      · rw [if_neg hstop]
        exact .panic (fun ha => hstop (ha.stop pcm hpcm)) rfl
  · rw [if_neg hfits]
    exact .panic (fun ha => hfits ha.leaf) rfl

theorem write_samples_noPanic {blocks : BlockMap} {samples : List SampleV3} {out : Bytes} (hout : out.length ≤ ISIZE_MAX)
    (hget : ∀ s ∈ samples, ∀ cid ∈ s.chunks, blocks.get "missing sample chunk" cid = .ok (held c rpc cid)) :
    NoPanic (samples.foldlM (write_sample lib blocks) out) ↔ ∀ before s after, samples = before ++ s :: after →
      (∀ p ∈ before, Placed c lib rpc out.length p) → Addressable c lib rpc s := by
  induction samples generalizing out with
  | nil => exact iff_of_true (noPanic_pure _) fun before s after h => by simp at h
  | cons s samples ih =>
    have hrest := fun s' hs' => hget s' (List.mem_cons_of_mem _ hs')
    have hsplit : (∀ before s' after, s :: samples = before ++ s' :: after → (∀ p ∈ before, Placed c lib rpc out.length p) →
        Addressable c lib rpc s') ↔ Addressable c lib rpc s ∧ (Placed c lib rpc out.length s → ∀ before s' after,
          samples = before ++ s' :: after → (∀ p ∈ before, Placed c lib rpc out.length p) → Addressable c lib rpc s') := by
      constructor
      · refine fun h => ⟨h [] s samples rfl (by simp), fun hs before s' after heq hbefore => ?_⟩
        exact h (s :: before) s' after (by rw [heq]; rfl) (List.forall_mem_cons.2 ⟨hs, hbefore⟩)
      · rintro ⟨hs, h⟩ before s' after heq hbefore
        cases before with
        | nil =>
          obtain ⟨rfl, -⟩ := List.cons.inj heq
          exact hs
        | cons p before =>
          obtain ⟨rfl, rfl⟩ := List.cons.inj heq
          exact h (hbefore s (by simp)) before s' after rfl fun p hp => hbefore p (by simp [hp])
    rw [hsplit, List.foldlM_cons]
    rcases write_sample_ends lib hout (hget s (by simp)) with ⟨h, hx⟩ | ⟨h, hbad, e, hx⟩ | ⟨h, hgood, r, hr, hx⟩
    · rw [hx]
      exact iff_of_false not_noPanic_panic fun ha => h ha.1
    · rw [hx]
      exact iff_of_true (noPanic_err e) ⟨h, fun hs => absurd hs hbad⟩
    · rw [hx, Outcome.ok_bind, ih (by rwa [hr]) hrest, hr]
      exact ⟨fun hall => ⟨h, fun _ => hall⟩, fun hall => hall.2 hgood⟩

/-! ### The splice of a v1 DAG -/

theorem write_leaf_ends {blocks : BlockMap} {cid : Cid} (hget : blocks.get "missing leaf" cid = .ok (held c rpc cid)) {out : Bytes}
    {w : Nat} (hout : out.length ≤ ISIZE_MAX) :
    Ends (w + (held c rpc cid).length ≤ out.length) True (fun r => r.1.length = out.length ∧ r.2 = w + (held c rpc cid).length)
      (write_leaf blocks (out, w) cid) := by
  have hmax : ISIZE_MAX < 2 ^ USIZE_BITS := by decide
  rw [write_leaf, hget, lift_ok, Outcome.ok_bind, add]
  by_cases hfits : w + (held c rpc cid).length ≤ out.length
  · rw [if_pos (by omega), Outcome.ok_bind, copy, if_pos ⟨by omega, hfits, by omega⟩]
    exact .ok hfits trivial _ ⟨Buffer.length_blit out hfits, rfl⟩ rfl
  · by_cases hadd : w + (held c rpc cid).length < 2 ^ USIZE_BITS
    · rw [if_pos hadd, Outcome.ok_bind, copy, if_neg fun h => hfits h.2.1]
      exact .panic hfits rfl
    · rw [if_neg hadd]
      exact .panic hfits rfl

theorem write_leaves_ends {blocks : BlockMap} {chunks : List Cid}
    (hget : ∀ cid ∈ chunks, blocks.get "missing leaf" cid = .ok (held c rpc cid)) {out : Bytes} {w : Nat} (hw : w ≤ out.length)
    (hout : out.length ≤ ISIZE_MAX) :
    Ends (w + size c rpc chunks ≤ out.length) True (fun r => r.1.length = out.length)
      (chunks.foldlM (write_leaf blocks) (out, w)) := by
  induction chunks generalizing out w with
  | nil => exact .ok (by simpa [size] using hw) trivial _ rfl rfl
  | cons cid chunks ih =>
    have hsize : size c rpc (cid :: chunks) = (held c rpc cid).length + size c rpc chunks := by
      rw [size, List.map_cons, List.sum_cons, size]
    rw [List.foldlM_cons, hsize]
    have hends := write_leaf_ends (w := w) (hget cid (by simp)) hout
    rcases hends with ⟨h, hx⟩ | ⟨-, h, -⟩ | ⟨h, -, r, ⟨hr, hw'⟩, hx⟩
    · exact .panic (by omega) (by rw [hx]; rfl)
    · exact absurd trivial h
    · obtain ⟨out', w'⟩ := r
      rw [hx, Outcome.ok_bind, ← Nat.add_assoc]
      simp only at hr hw'
      rw [← hr, ← hw']
      exact ih (fun cid hcid => hget cid (by simp [hcid])) (by omega) (by omega)

theorem InOrder.sum_le {total pos : Nat} {samples : List (SampleEntry × Nat)} (h : InOrder total pos samples) :
    pos + (samples.map (·.1.length)).sum ≤ total := by
  induction samples generalizing pos with
  | nil => exact h
  | cons s samples ih =>
    have hrest := ih h.2.2
    have hpos := h.1
    rw [List.map_cons, List.sum_cons]
    omega

/-- A sample behind its gap. -/
theorem splice_sample_ends {blocks : BlockMap} {skeleton : Bytes} (hskeleton : skeleton.length ≤ ISIZE_MAX)
    {entry : SampleEntry × PcmRoot} (hget : ∀ cid ∈ entry.2.chunks, blocks.get "missing leaf" cid = .ok (held c rpc cid))
    {s : Splice} (hout : s.out.length ≤ ISIZE_MAX) :
    Ends (s.prev_end ≤ entry.1.offset ∧ s.skel_cursor + (entry.1.offset - s.prev_end) ≤ skeleton.length ∧
        entry.1.offset + size c rpc entry.2.chunks ≤ s.out.length ∧ entry.1.offset + entry.1.length < 2 ^ USIZE_BITS) True
      (fun r => r.out.length = s.out.length ∧ r.skel_cursor = s.skel_cursor + (entry.1.offset - s.prev_end) ∧
        r.prev_end = entry.1.offset + entry.1.length)
      (splice_sample blocks skeleton s entry) := by
  have hmax : ISIZE_MAX < 2 ^ USIZE_BITS := by decide
  rw [splice_sample]
  simp only
  by_cases hgap : s.prev_end ≤ entry.1.offset
  · rw [sub, if_pos hgap, Outcome.ok_bind]
    by_cases hrun : s.skel_cursor + (entry.1.offset - s.prev_end) ≤ skeleton.length
    · rw [add, if_pos (by omega), Outcome.ok_bind, slice, if_pos ⟨Nat.le_add_right .., hrun⟩, Outcome.ok_bind, copy]
      by_cases hoff : entry.1.offset ≤ s.out.length
      · have hlen : (Buffer.slice skeleton s.skel_cursor (s.skel_cursor + (entry.1.offset - s.prev_end))).length =
            entry.1.offset - s.prev_end := by
          rw [Buffer.length_slice]
          omega
        rw [if_pos ⟨hgap, hoff, hlen⟩, Outcome.ok_bind]
        have hblit := Buffer.length_blit s.out (show s.prev_end + (Buffer.slice skeleton s.skel_cursor
          (s.skel_cursor + (entry.1.offset - s.prev_end))).length ≤ s.out.length by omega)
        have hends := write_leaves_ends hget (hoff.trans_eq hblit.symm) (hblit.trans_le hout)
        rw [hblit] at hends
        have hfits : (s.prev_end ≤ entry.1.offset ∧ s.skel_cursor + (entry.1.offset - s.prev_end) ≤ skeleton.length ∧
            entry.1.offset + size c rpc entry.2.chunks ≤ s.out.length ∧ entry.1.offset + entry.1.length < 2 ^ USIZE_BITS) ↔
            entry.1.offset + size c rpc entry.2.chunks ≤ s.out.length ∧
              (True → entry.1.offset + entry.1.length < 2 ^ USIZE_BITS) := by
          simp only [hgap, hrun, true_and, forall_const]
        refine hends.bind (fun _ r hr => ?_) hfits (and_iff_left trivial).symm
        obtain ⟨out, w⟩ := r
        simp only
        rw [add]
        by_cases hstop : entry.1.offset + entry.1.length < 2 ^ USIZE_BITS
        · rw [if_pos hstop]
          exact .ok hstop trivial _ ⟨hr, rfl, rfl⟩ rfl
        · rw [if_neg hstop]
          exact .panic hstop rfl
      · rw [if_neg fun h => hoff h.2.1]
        exact .panic (by omega) rfl
    · refine .panic (by omega) ?_
      rw [add]
      split
      · rw [Outcome.ok_bind, slice, if_neg fun h => hrun h.2]
        rfl
      · rfl
  · rw [sub, if_neg hgap]
    exact .panic (fun h => hgap h.1) rfl

/-- What is left of the file and the skeleton from a state of the splice on. -/
theorem splice_noPanic {blocks : BlockMap} {skeleton : Bytes} (hskeleton : skeleton.length ≤ ISIZE_MAX)
    {samples : List (SampleEntry × PcmRoot)}
    (hget : ∀ s ∈ samples, ∀ cid ∈ s.2.chunks, blocks.get "missing leaf" cid = .ok (held c rpc cid)) {s : Splice}
    (hout : s.out.length ≤ ISIZE_MAX) (hcursor : s.skel_cursor ≤ skeleton.length) :
    NoPanic (samples.foldlM (splice_sample blocks skeleton) s >>= splice_rest skeleton) ↔
      InOrder s.out.length s.prev_end (samples.map fun s => (s.1, size c rpc s.2.chunks)) ∧
        skeleton.length + (samples.map (·.1.length)).sum + s.prev_end = s.out.length + s.skel_cursor := by
  have hmax : ISIZE_MAX < 2 ^ USIZE_BITS := by decide
  induction samples generalizing s with
  | nil =>
    show NoPanic (slice skeleton s.skel_cursor skeleton.length >>= fun run => copy s.out s.prev_end s.out.length run) ↔ _
    rw [slice, if_pos ⟨hcursor, le_rfl⟩, Outcome.ok_bind, copy, noPanic_ite, Buffer.length_slice, List.map_nil, List.map_nil, List.sum_nil,
      InOrder]
    simp only [le_refl, true_and]
    omega
  | cons entry samples ih =>
    rw [List.foldlM_cons, bind_assoc, List.map_cons, List.map_cons, List.sum_cons, InOrder]
    simp only
    have hentry := hget entry (by simp)
    have hends := splice_sample_ends hskeleton hentry hout
    rcases hends with ⟨h, hx⟩ | ⟨-, h, -⟩ | ⟨h, -, r, ⟨hr, hcur, hprev⟩, hx⟩
    · rw [hx]
      refine iff_of_false not_noPanic_panic ?_
      rintro ⟨⟨hgap, hleaves, hrest⟩, htotal⟩
      have hsum := hrest.sum_le
      rw [List.map_map] at hsum
      have hsum : entry.1.offset + entry.1.length + (samples.map (·.1.length)).sum ≤ s.out.length := hsum
      exact h ⟨hgap, by omega, hleaves, by omega⟩
    · exact absurd trivial h
    · have hrest : NoPanic (samples.foldlM (splice_sample blocks skeleton) r >>= splice_rest skeleton) ↔ _ :=
        ih (fun s hs => hget s (by simp [hs])) (by omega) (by omega)
      rw [hx, Outcome.ok_bind, hrest, hr, hcur, hprev]
      constructor
      · rintro ⟨hin, htotal⟩
        exact ⟨⟨h.1, h.2.2.1, hin⟩, by omega⟩
      · rintro ⟨⟨-, -, hin⟩, htotal⟩
        exact ⟨hin, by omega⟩

/-! ### Reassembly -/

theorem mapM_length {ε α β : Type} {f : α → Except ε β} {xs : List α} {ys : List β} (h : xs.mapM f = .ok ys) :
    ys.length = xs.length := by
  induction xs generalizing ys with
  | nil => cases h; rfl
  | cons x xs ih =>
    rw [List.mapM_cons] at h
    obtain ⟨y, -, h⟩ := Outcome.bind_ok h
    obtain ⟨zs, hzs, h⟩ := Outcome.bind_ok h
    cases h
    rw [List.length_cons, List.length_cons, ih hzs]

variable (c rpc) in
/-- The sizes the splice goes by, with those of the manifest. -/
theorem map_zip_sizes {samples : List SampleEntry} {roots : List PcmRoot} (hlen : roots.length = samples.length) :
    (samples.zip roots).map (fun s => (s.1, size c rpc s.2.chunks)) = samples.zip (roots.map fun r => size c rpc r.chunks) ∧
      (samples.zip roots).map (·.1.length) = samples.map (·.length) := by
  refine ⟨?_, ?_⟩
  · rw [List.zip_map_right]
    rfl
  · calc (samples.zip roots).map (·.1.length) = ((samples.zip roots).map Prod.fst).map (·.length) := by rw [List.map_map]; rfl
      _ = samples.map (·.length) := by rw [List.map_fst_zip hlen.ge]

theorem splice_noPanic_iff {m : Manifest} {roots : List PcmRoot} {leaves : BlockMap} (hlen : roots.length = m.samples.length)
    (hleaves : fetch_many c rpc (m.skeleton_chunks ++ roots.flatMap PcmRoot.chunks) = .ok leaves) :
    NoPanic (extend leaves "missing leaf" [] m.skeleton_chunks >>= fun skeleton =>
      splice leaves skeleton m.original_length (m.samples.zip roots)) ↔ Laid c rpc m roots := by
  have hget : ∀ cid ∈ m.skeleton_chunks, leaves.get "missing leaf" cid = .ok (held c rpc cid) :=
    fun cid hcid => get_of_fetch_many hleaves _ (List.mem_append_left _ hcid)
  have hgets : ∀ s ∈ m.samples.zip roots, ∀ cid ∈ s.2.chunks, leaves.get "missing leaf" cid = .ok (held c rpc cid) :=
    fun s hs cid hcid => get_of_fetch_many hleaves _
      (List.mem_append_right _ (List.mem_flatMap.2 ⟨s.2, (List.of_mem_zip hs).2, hcid⟩))
  obtain ⟨hsizes, hlengths⟩ := map_zip_sizes c rpc hlen
  rw [extend_eq hget (Nat.zero_le _), List.nil_append, grow, ← size_eq]
  have hskeleton : (m.skeleton_chunks.flatMap (held c rpc)).length = size c rpc m.skeleton_chunks := (size_eq _).symm
  have htotal : (List.replicate m.original_length (0 : UInt8)).length = m.original_length := List.length_replicate
  have hsplice : size c rpc m.skeleton_chunks ≤ ISIZE_MAX → m.original_length ≤ ISIZE_MAX →
      (NoPanic (splice leaves (m.skeleton_chunks.flatMap (held c rpc)) m.original_length (m.samples.zip roots)) ↔
        InOrder m.original_length 0 (m.samples.zip (roots.map fun r => size c rpc r.chunks)) ∧
          size c rpc m.skeleton_chunks + (m.samples.map (·.length)).sum = m.original_length) := by
    intro hskel hout
    have hrest : NoPanic ((m.samples.zip roots).foldlM (splice_sample leaves (m.skeleton_chunks.flatMap (held c rpc)))
        ⟨List.replicate m.original_length 0, 0, 0⟩ >>= splice_rest (m.skeleton_chunks.flatMap (held c rpc))) ↔ _ :=
      splice_noPanic (hskeleton.trans_le hskel) hgets (htotal.trans_le hout) (Nat.zero_le _)
    rw [splice, grow, if_pos (htotal.trans_le hout), Outcome.ok_bind, hrest, htotal, hsizes, hlengths, hskeleton]
    rfl
  by_cases hskel : size c rpc m.skeleton_chunks ≤ ISIZE_MAX
  · rw [if_pos hskel, Outcome.ok_bind]
    by_cases hout : m.original_length ≤ ISIZE_MAX
    · rw [hsplice hskel hout]
      exact ⟨fun h => ⟨hout, h.1, h.2⟩, fun h => ⟨h.in_order, h.skeleton⟩⟩
    · rw [splice, grow, if_neg (by rwa [htotal])]
      exact iff_of_false not_noPanic_panic fun h => hout h.addressable
  · rw [if_neg hskel]
    refine iff_of_false not_noPanic_panic fun h => ?_
    have hle := h.skeleton
    have haddr := h.addressable
    omega

theorem reassemble_noPanic_iff {root : Cid} :
    NoPanic (reassemble c rpc root) ↔ ∀ m roots, V1Dag c rpc root m roots → Laid c rpc m roots := by
  simp only [reassemble, noPanic_lift_bind]
  constructor
  · intro h m roots hdag
    obtain ⟨leaves, hleaves⟩ := fetch_many_ok_iff.2 hdag.leaves
    exact (splice_noPanic_iff (mapM_length hdag.pcm_roots) hleaves).1 (h m hdag.manifest roots hdag.pcm_roots leaves hleaves)
  · intro h m hm roots hroots leaves hleaves
    exact (splice_noPanic_iff (mapM_length hroots) hleaves).2 (h m roots ⟨hm, hroots, fetch_many_ok_iff.1 ⟨leaves, hleaves⟩⟩)

theorem write_noPanic_iff {m : ManifestV3} {index : IndexV3} {blocks : BlockMap}
    (hblocks : fetch_many c rpc (m.skeleton_chunks ++ index.samples.flatMap SampleV3.chunks) = .ok blocks) :
    NoPanic (do
      let out ← assemble_skeleton m.skeleton_chunks m.skeleton_layout blocks
      let n := out.length
      let original_length := m.original_length
      if n ≠ original_length then throw (.err (.thrown s!"v3 skeleton length {n} != originalLength {original_length}"))
      index.samples.foldlM (write_sample lib blocks) out) ↔ Bounded c lib rpc m index := by
  have hget : ∀ cid ∈ m.skeleton_chunks, blocks.get "missing skeleton chunk" cid = .ok (held c rpc cid) :=
    fun cid hcid => get_of_fetch_many hblocks _ (List.mem_append_left _ hcid)
  have hgets : ∀ s ∈ index.samples, ∀ cid ∈ s.chunks, blocks.get "missing sample chunk" cid = .ok (held c rpc cid) :=
    fun s hs cid hcid => get_of_fetch_many hblocks _ (List.mem_append_right _ (List.mem_flatMap.2 ⟨s, hs, hcid⟩))
  rcases assemble_skeleton_ends m.skeleton_layout hget with ⟨h, hx⟩ | ⟨h, hbad, e, hx⟩ | ⟨h, hgood, out, hout, hx⟩
  · rw [hx]
    exact iff_of_false not_noPanic_panic fun hb => h hb.skeleton
  · rw [hx]
    exact iff_of_true (noPanic_err e) ⟨h, fun hgood => absurd hgood hbad⟩
  · rw [hx, Outcome.ok_bind]
    simp only
    by_cases hlen : out.length = m.original_length
    · rw [if_neg (not_not_intro hlen)]
      show NoPanic (index.samples.foldlM (write_sample lib blocks) out) ↔ _
      rw [write_samples_noPanic (hout.trans_le h) hgets, hlen]
      exact ⟨fun hall => ⟨h, fun _ _ => hall⟩, fun hb => hb.samples hgood (hout.symm.trans hlen)⟩
    · rw [if_pos hlen]
      exact iff_of_true (noPanic_err _) ⟨h, fun _ heq => absurd (hout.trans heq) hlen⟩

theorem reassemble_v3_noPanic_iff {root : Cid} :
    NoPanic (reassemble_v3 c lib rpc root) ↔ ∀ m index, V3Dag c rpc root m index → Bounded c lib rpc m index := by
  simp only [reassemble_v3, noPanic_lift_bind]
  constructor
  · intro h m index hdag
    obtain ⟨blocks, hblocks⟩ := fetch_many_ok_iff.2 hdag.blocks
    exact (write_noPanic_iff hblocks).1 (h m hdag.manifest index hdag.index_read blocks hblocks)
  · intro h m hm index hindex blocks hblocks
    exact (write_noPanic_iff hblocks).2 (h m index ⟨hm, hindex, fetch_many_ok_iff.1 ⟨blocks, hblocks⟩⟩)

/-- No DAG makes reassembly panic but a v1 DAG whose samples and skeleton do not make up the file, and a v3 DAG whose recipe
or samples go past what can be addressed. -/
theorem reassembly_noPanic_iff (c : Codec) (lib : FlacLib) (rpc : BlockGetter) (root : Cid) :
    (NoPanic (reassemble c rpc root) ∧ NoPanic (reassemble_v3 c lib rpc root)) ↔
      (∀ m roots, V1Dag c rpc root m roots → Laid c rpc m roots) ∧
        ∀ m index, V3Dag c rpc root m index → Bounded c lib rpc m index :=
  and_congr reassemble_noPanic_iff reassemble_v3_noPanic_iff

end

/-! ### A file without its bytes -/

/-- One byte, of no sample and no skeleton. -/
def noBytes : Ipld := .map [("samples", .list []), ("originalLength", .nat 1), ("skeletonChunks", .list [])]

def noBytesCodec : Codec := .ofTable [([1], [7])] [1] noBytes

def noBytesRoot : Cid := (noBytesCodec.cborBlock noBytes).cid

theorem noBytes_panics : ¬ NoPanic (reassemble noBytesCodec (getBlock [noBytesCodec.cborBlock noBytes]) noBytesRoot) :=
  not_not_intro rfl

/-! ### Reassembly over numbers -/

section
variable {c : Codec} {lib : FlacLib} {rpc : BlockGetter}

theorem add_refines (a b : Nat) : Refines (add a b : Rust Nat) (.ok (a + b)) := refines_check _

theorem grow_refines (b : Bytes) : Refines (grow b : Rust Bytes) (.ok b) := refines_check _

theorem slice_refines (b : Bytes) (i j : Nat) : Refines (slice b i j) (slice_index b i j) := by
  rw [slice, slice_index]
  split
  · exact refines_pure _
  · exact refines_panic _

theorem copy_refines (out : Bytes) (i j : Nat) (src : Bytes) : Refines (copy out i j src) (copy_from_slice out i j src) := by
  rw [copy, copy_from_slice]
  split
  · exact refines_pure _
  · exact refines_panic _

theorem extend_refines (blocks : BlockMap) (what : String) (cids : List Cid) :
    Refines (extend blocks what [] cids) (concat blocks what cids) :=
  .foldlM (fun _ cid => (refines_lift (blocks.get what cid)).bind fun _ => grow_refines _) cids []

theorem write_leaf_refines (blocks : BlockMap) (s : Bytes × Nat) (cid : Cid) :
    Refines (write_leaf blocks s cid) (Ipfs.write_leaf blocks s cid) :=
  (refines_lift _).bind fun _ => (add_refines ..).step ((copy_refines ..).bind fun _ => refines_pure _)

theorem splice_sample_refines (blocks : BlockMap) (skeleton : Bytes) (s : Splice) (entry : SampleEntry × PcmRoot) :
    Refines (splice_sample blocks skeleton s entry) (Ipfs.splice_sample blocks skeleton s entry) := by
  rw [splice_sample, Ipfs.splice_sample]
  simp only
  by_cases hgap : s.prev_end ≤ entry.1.offset
  · rw [sub, if_pos hgap, Outcome.ok_bind, if_neg (Nat.not_lt.2 hgap)]
    exact (add_refines ..).step ((slice_refines ..).bind fun run => (copy_refines ..).bind fun out =>
      (Refines.foldlM (write_leaf_refines blocks) _ _).bind fun s => (add_refines ..).step (refines_pure _))
  · rw [sub, if_neg hgap]
    exact refines_panic _

/-- What does not panic is reassembly over numbers. -/
theorem reassemble_refines (c : Codec) (rpc : BlockGetter) (root : Cid) :
    Refines (reassemble c rpc root) (Ipfs.reassemble c rpc root) := by
  rw [reassemble, Ipfs.reassemble, ← bind_assoc]
  refine (refines_lift _).bind fun manifest => (refines_lift _).bind fun roots => (refines_lift _).bind fun leaves =>
    (extend_refines ..).bind fun skeleton => (grow_refines _).step ?_
  exact (Refines.foldlM (splice_sample_refines leaves skeleton) _ _).bind fun s =>
    (slice_refines ..).bind fun run => copy_refines ..

theorem emit_chunks_refines (blocks : BlockMap) (nc : Nat) (chunks : List Cid) (out : Bytes) :
    Refines (emit_chunks blocks nc chunks out) (Ipfs.emit_chunks blocks nc chunks out) := by
  induction nc generalizing chunks out with
  | zero => exact refines_pure _
  | succ nc ih =>
    cases chunks with
    | nil => exact refines_err _
    | cons cid chunks => exact (refines_lift _).bind fun b => (grow_refines _).step (ih chunks _)

theorem resize_refines (out : Bytes) (z : Nat) : Refines (resize out z) (.ok (out ++ List.replicate z 0)) :=
  (add_refines ..).step (grow_refines _)

theorem walk_layout_refines (blocks : BlockMap) (layout : List Nat) (chunks : List Cid) (out : Bytes) :
    Refines (walk_layout blocks layout chunks out) (Ipfs.walk_layout blocks layout chunks out) := by
  induction layout using List.twoStepInduction generalizing chunks out with
  | nil => exact refines_pure _
  | singleton nc =>
    refine (emit_chunks_refines ..).bind fun s => ?_
    have hresize := resize_refines s.1 0
    rw [List.replicate_zero, List.append_nil] at hresize
    exact hresize
  | cons_cons nc z layout ih => exact (emit_chunks_refines ..).bind fun s => (resize_refines ..).step (ih _ _)

theorem assemble_skeleton_refines (chunks : List Cid) (layout : List Nat) (blocks : BlockMap) :
    Refines (assemble_skeleton chunks layout blocks) (Ipfs.assemble_skeleton chunks layout blocks) := by
  rw [assemble_skeleton, Ipfs.assemble_skeleton]
  split
  · exact extend_refines ..
  · exact walk_layout_refines ..

theorem decode_sample_refines (lib : FlacLib) (leaf : Bytes) (channels bit_depth enc_codec : Nat) :
    Refines (decode_sample lib leaf channels bit_depth enc_codec) (Ipfs.decode_sample lib leaf channels bit_depth enc_codec) := by
  rw [decode_sample, Ipfs.decode_sample]
  split
  · rw [flac_decode_eq]
    cases hs : lib.claxon leaf with
    | error e =>
      rw [Ipfs.flac_decode, hs]
      exact refines_err _
    | ok samples => exact (grow_refines _).step (refines_lift _)
  · exact refines_pure _

theorem write_sample_refines (lib : FlacLib) (blocks : BlockMap) (out : Bytes) (s : SampleV3) :
    Refines (write_sample lib blocks out s) (Ipfs.write_sample lib blocks out s) := by
  refine (extend_refines ..).bind fun leaf => (decode_sample_refines ..).bind fun pcm => ?_
  rw [apply_enc_ok, Outcome.ok_bind]
  refine (add_refines ..).step ?_
  simp only
  split
  · exact refines_err _
  · exact copy_refines ..

theorem reassemble_v3_refines (c : Codec) (lib : FlacLib) (rpc : BlockGetter) (root : Cid) :
    Refines (reassemble_v3 c lib rpc root) (Ipfs.reassemble_v3 c lib rpc root) := by
  rw [reassemble_v3, Ipfs.reassemble_v3, ← bind_assoc]
  refine (refines_lift _).bind fun manifest => (refines_lift _).bind fun index => (refines_lift _).bind fun blocks =>
    (assemble_skeleton_refines ..).bind fun out => ?_
  simp only
  split
  · exact refines_err _
  · exact Refines.foldlM (write_sample_refines lib blocks) _ _

end

end TrackerStream.Ipfs.Usize
