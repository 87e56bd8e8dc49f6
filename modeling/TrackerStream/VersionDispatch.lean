import TrackerStream.IpfsStream
import TrackerStream.IpfsV3
import TrackerStream.WebStream

/-!
# Which path a manifest's version takes (`ipfs.rs`, `stream.ts`, `rebuild.ts`)

The desktop reads the version as a byte and takes what is none for 0; the browser makes a number of it and compares. Both
stream a root or reassemble it by the path they choose. Versions of 256 and more are read as 0 on the desktop, whose v1 path
they then take (`agree_iff`).
-/

namespace TrackerStream

inductive Path
  /-- The reassembly of v1 roots. -/
  | reassemble
  | stream
  /-- The byte-exact reassembly of v3 and v4 roots. -/
  | byteExact
  | unsupported
deriving DecidableEq

namespace Ipfs

/-- The path of `stream_v2`. -/
def streamPath : Nat → Path
  | 2 | 3 | 4 => .stream
  | 0 | 1 => .reassemble
  | _ => .unsupported

/-- The path of `reassemble_any`. -/
def anyPath : Nat → Path
  | 3 | 4 => .byteExact
  | 0 | 1 => .reassemble
  | _ => .unsupported

section
variable (c : Codec) (lib : FlacLib) (rpc : BlockGetter) (world : World) (root : Cid)

/-- Reassemble the byte-exact original from any root. -/
def reassemble_any : Except Fault Bytes := do
  let manifest_bytes ← fetch_bytes c rpc root
  match manifest_version c manifest_bytes with
  | 3 | 4 => reassemble_v3 c lib rpc root
  | 0 | 1 => reassemble c rpc root
  | 2 => .error (.thrown "v2 (streaming-only) root has no byte-exact reassembly; re-bake to v3/v4")
  | other => .error (.thrown s!"unsupported manifest version {other}; please update trackerstream")

/-- The text of the error of `reassemble_any`. -/
def anyError : Nat → String
  | 2 => "v2 (streaming-only) root has no byte-exact reassembly; re-bake to v3/v4"
  | other => s!"unsupported manifest version {other}; please update trackerstream"

theorem reassemble_any_path : reassemble_any c lib rpc root = (do
    let manifest_bytes ← fetch_bytes c rpc root
    match anyPath (manifest_version c manifest_bytes) with
    | .byteExact => reassemble_v3 c lib rpc root
    | .reassemble => reassemble c rpc root
    | _ => .error (.thrown (anyError (manifest_version c manifest_bytes)))) := by
  rw [reassemble_any]
  congr 1
  funext manifest_bytes
  rcases manifest_version c manifest_bytes with _ | _ | _ | _ | _ | n <;> rfl

theorem stream_root_path : stream_root c lib world root = (do
    let manifest_bytes ← Traced.log (.fetch [root]) (fetch_bytes c (world.rpc 0) root)
    match streamPath (manifest_version c manifest_bytes) with
    | .stream => do
      let manifest ← Traced.lift (from_slice c ManifestV2.de manifest_bytes)
      let ix ← manifest.read_index c world
      stream_index c lib world manifest ix
    | .reassemble => do
      let bytes ← Traced.lift (reassemble c (world.rpc 1) root)
      Traced.act (.storeSkeleton bytes)
      Traced.act (.send (.skeleton ⟨[], []⟩ 0))
    | _ => Traced.lift (.error (.thrown
        s!"unsupported manifest version {manifest_version c manifest_bytes}; please update trackerstream"))) := by
  rw [stream_root]
  congr 1
  funext manifest_bytes
  rcases manifest_version c manifest_bytes with _ | _ | _ | _ | _ | n <;> rfl

end
end Ipfs

namespace Web

/-- The path of `startStream`. -/
def streamPath (v : Option ℚ) : Path :=
  if v.any (· < 2) then .reassemble else if v.any (4 < ·) then .unsupported else .stream

/-- The path of `reassembleAny`. -/
def anyPath (v : Option ℚ) : Path :=
  if v.any (· ≤ 1) then .reassemble else if v = some 3 ∨ v = some 4 then .byteExact else .unsupported

section
variable (c : Codec) (lib : FlacLib) (get : BlockGetter) (root : Cid)

/-- The byte-exact original of any root. -/
def reassembleAny : Except Fault Bytes := do
  match c.decode (← get root) with
  | none => throw .decode
  | some manifest =>
    let v := manifestVersion manifest
    if v.any (· ≤ 1) then TrackerStream.reassemble c get true root
    else if v = some 3 then reassembleV3 c get true root
    else if v = some 4 then reassembleV4 c lib get true root
    else throw (.thrown s!"rebuild: manifest v{v.getD 0} is newer than this client understands")

theorem reassembleAny_path : reassembleAny c lib get root = (do
    match c.decode (← get root) with
    | none => throw .decode
    | some manifest =>
      match anyPath (manifestVersion manifest) with
      | .reassemble => TrackerStream.reassemble c get true root
      | .byteExact => if manifestVersion manifest = some 3 then reassembleV3 c get true root else reassembleV4 c lib get true root
      | _ => throw (.thrown
          s!"rebuild: manifest v{(manifestVersion manifest).getD 0} is newer than this client understands")) := by
  rw [reassembleAny]
  congr 1
  funext bytes
  cases c.decode bytes with
  | none => rfl
  | some manifest =>
    unfold anyPath
    dsimp only
    generalize manifestVersion manifest = v
    split
    · rfl
    · split
      · rename_i h
        subst h
        rfl
      · rename_i hthree
        split
        · rename_i h
          subst h
          rfl
        · rename_i hfour
          rw [if_neg (not_or.2 ⟨hthree, hfour⟩)]

theorem startStream_path (arrivals : Arrivals) : startStream c lib get arrivals root = (do
    let manifest ← Traced.lift (fetchCbor c get root)
    match streamPath (manifestVersion manifest) with
    | .reassemble => do
      let bytes ← Traced.lift (TrackerStream.reassemble c get true root)
      Traced.act (.storeSkeleton bytes)
      Traced.act (.send (.skeleton ⟨[], []⟩ 0))
      Traced.act (.send .complete)
    | .stream => do
      let index ← Traced.lift (readIndex c get manifest)
      let samples ← Traced.lift (readSamples index)
      let plan ← Traced.lift (index.get "plan" plan?)
      let skeleton ← Traced.lift (fetchSkeleton c get manifest)
      Traced.act (.storeSkeleton skeleton)
      Traced.act (.send (.skeleton plan samples.length))
      (batches c lib get arrivals samples plan).caught
    | _ => Traced.lift (.error (.thrown
        s!"stream: manifest v{(manifestVersion manifest).getD 0} is newer than this client understands"))) := by
  rw [startStream]
  congr 1
  funext manifest
  unfold streamPath
  dsimp only
  split
  · rfl
  · split <;> rfl

end
end Web

/-! ### Where they agree -/

section
variable {c : Codec} {bytes : Bytes} {m : Ipld}

/-- Both clients choose the same paths for a manifest, and no newer one is taken for another. -/
structure Agree (c : Codec) (bytes : Bytes) (m : Ipld) : Prop where
  stream : Ipfs.streamPath (Ipfs.manifest_version c bytes) = Web.streamPath (Web.manifestVersion m)
  any : Ipfs.anyPath (Ipfs.manifest_version c bytes) = Web.anyPath (Web.manifestVersion m)
  newer : ∀ n, m.field? "v" = some (.int n) → 4 < n →
    Ipfs.streamPath (Ipfs.manifest_version c bytes) = .unsupported ∧ Ipfs.anyPath (Ipfs.manifest_version c bytes) = .unsupported ∧
    Web.streamPath (Web.manifestVersion m) = .unsupported ∧ Web.anyPath (Web.manifestVersion m) = .unsupported

/-- The version is an integer below 256, or nothing that the browser takes for a number above 1. -/
def Settled (m : Ipld) : Prop :=
  match m.field? "v" with
  | none | some .null => True
  | some (.int n) => n < 256
  | some v => ∃ q, Js.number v = some q ∧ q ≤ 1

theorem manifest_version_eq (h : c.decode bytes = some m) : Ipfs.manifest_version c bytes =
    match m.field? "v" with
    | some (.int n) => if 0 ≤ n ∧ n < 256 then n.toNat else 0
    | _ => 0 := by
  rw [Ipfs.manifest_version, h, Option.bind_some, Ipld.getD?]
  cases m.field? "v" with
  | none => rfl
  | some v =>
    cases v with
    | int n =>
      dsimp only
      by_cases h0 : 0 ≤ n ∧ n < 256
      · rw [if_pos h0]
        simp only [Ipld.uint?, Ipld.nat?, if_pos h0.1, Option.filter_some]
        rw [if_pos (by rw [decide_eq_true_eq]; omega)]
        rfl
      · rw [if_neg h0]
        simp only [Ipld.uint?, Ipld.nat?]
        split
        · rw [Option.filter_some, if_neg (by rw [decide_eq_true_eq]; omega)]
          rfl
        · rfl
    | _ => rfl

/-- The browser takes no newer version. -/
theorem paths_newer {q : ℚ} (h : 4 < q) : Web.streamPath (some q) = .unsupported ∧ Web.anyPath (some q) = .unsupported := by
  have hlow : ¬ q < 2 ∧ ¬ q ≤ 1 := ⟨by linarith, by linarith⟩
  have hne : ¬ (some q = some 3 ∨ some q = some 4) := by
    simp only [Option.some.injEq]
    rintro (rfl | rfl) <;> revert h <;> norm_num
  simp only [Web.streamPath, Web.anyPath, Option.any_some, decide_eq_true_eq]
  rw [if_neg hlow.1, if_pos h, if_neg hlow.2, if_neg hne]
  exact ⟨rfl, rfl⟩

/-- Both clients read a version that is a byte. -/
theorem paths_byte (n : Nat) : Ipfs.streamPath n = Web.streamPath (some (n : ℚ)) ∧ Ipfs.anyPath n = Web.anyPath (some (n : ℚ)) ∧
    (4 < n → Ipfs.streamPath n = .unsupported ∧ Ipfs.anyPath n = .unsupported) := by
  rcases Nat.lt_or_ge 4 n with hn | hn
  · obtain ⟨k, rfl⟩ : ∃ k, n = k + 5 := ⟨n - 5, by omega⟩
    have hlt : (4 : ℚ) < ((k + 5 : Nat) : ℚ) := by exact_mod_cast hn
    obtain ⟨hstream, hany⟩ := paths_newer hlt
    exact ⟨hstream.symm, hany.symm, fun _ => ⟨rfl, rfl⟩⟩
  · interval_cases n <;> decide

/-- The browser reassembles a v1 root. -/
theorem paths_reassemble (v : Option ℚ) :
    Web.streamPath v = .reassemble ∧ Web.anyPath v = .reassemble ↔ ∃ q, v = some q ∧ q ≤ 1 := by
  cases v with
  | none => simp [Web.streamPath, Web.anyPath]
  | some q =>
    simp only [Web.streamPath, Web.anyPath, Option.any_some, decide_eq_true_eq, Option.some.injEq, exists_eq_left']
    constructor
    · rintro ⟨-, hany⟩
      by_contra hq
      rw [if_neg hq] at hany
      split at hany <;> cases hany
    · intro hq
      rw [if_pos (hq.trans_lt (by norm_num)), if_pos hq]
      exact ⟨rfl, rfl⟩

/-- Where the desktop takes the v1 path, the browser has to. -/
theorem agree_zero (hversion : Ipfs.manifest_version c bytes = 0) (hint : ∀ n, m.field? "v" = some (.int n) → n ≤ 4) :
    Agree c bytes m ↔ ∃ q, Web.manifestVersion m = some q ∧ q ≤ 1 := by
  rw [← paths_reassemble]
  constructor
  · intro h
    have hstream := h.stream
    have hany := h.any
    rw [hversion] at hstream hany
    exact ⟨hstream.symm, hany.symm⟩
  · rintro ⟨hstream, hany⟩
    refine ⟨by rw [hversion, hstream]; rfl, by rw [hversion, hany]; rfl, fun n hn hlt => ?_⟩
    exact absurd (hint n hn) (Int.not_le.2 hlt)

/-- The clients agree about a manifest, and take no newer version for another, exactly where its version is settled. -/
theorem agree_iff (fields : List (String × Ipld)) (h : c.decode bytes = some (.map fields)) :
    Agree c bytes (.map fields) ↔ Settled (.map fields) := by
  have hversion := manifest_version_eq h
  generalize Ipld.map fields = m at hversion
  unfold Settled
  rcases hv : m.field? "v" with _ | v
  · rw [hv] at hversion
    have hweb : Web.manifestVersion m = some 1 := by rw [Web.manifestVersion, hv]
    rw [@agree_zero c bytes m hversion (by simp [hv]), hweb]
    exact iff_of_true ⟨1, rfl, le_rfl⟩ trivial
  · rw [hv] at hversion
    cases v with
    | null =>
      have hweb : Web.manifestVersion m = some 1 := by rw [Web.manifestVersion, hv]
      rw [@agree_zero c bytes m hversion (by simp [hv]), hweb]
      exact iff_of_true ⟨1, rfl, le_rfl⟩ trivial
    | int n =>
      have hweb : Web.manifestVersion m = some (Js.intNumber n) := by
        rw [Web.manifestVersion, hv]
        rfl
      dsimp only at hversion ⊢
      rcases Int.lt_or_le n 0 with hneg | hpos
      · rw [if_neg (by omega)] at hversion
        rw [agree_zero hversion (by rintro k hk; cases hv.symm.trans hk; omega), hweb]
        have hle := Js.intNumber_nonpos hneg.le
        exact iff_of_true ⟨_, rfl, hle.trans (by norm_num)⟩ (by omega)
      · rcases Int.lt_or_le n 256 with hlt | hge
        · rw [if_pos ⟨hpos, hlt⟩] at hversion
          have hq : Js.intNumber n = (n.toNat : ℚ) := by
            rw [Js.intNumber, if_pos (by omega)]
            exact_mod_cast (Int.toNat_of_nonneg hpos).symm
          obtain ⟨hstream, hany, hnewer⟩ := paths_byte n.toNat
          refine iff_of_true ⟨?_, ?_, fun k hk hlt => ?_⟩ hlt
          · rw [hversion, hweb, hq, hstream]
          · rw [hversion, hweb, hq, hany]
          · cases hv.symm.trans hk
            obtain ⟨hs, ha⟩ := hnewer (by omega)
            rw [hversion, hweb, hq, ← hstream, ← hany]
            exact ⟨hs, ha, hs, ha⟩
        · rw [if_neg (by omega)] at hversion
          refine iff_of_false (fun hagree => ?_) (by omega)
          have hbig : (2 : ℚ) ^ 8 ≤ Js.intNumber n := Js.two_pow_le_intNumber (by decide) (by omega)
          have hstream := hagree.stream
          rw [hversion, hweb, (paths_newer (lt_of_lt_of_le (by norm_num) hbig)).1] at hstream
          cases hstream
    | _ => rw [@agree_zero c bytes m hversion (by simp [hv]), Web.manifestVersion, hv]

end

/-- A codec that reads one body. -/
def oneBody (m : Ipld) : Codec := ⟨fun _ => [], fun _ => [], fun _ => some m⟩

theorem agree_iff_four : Agree (oneBody (.map [("v", .int 4)])) [] (.map [("v", .int 4)]) ∧ Settled (.map [("v", .int 4)]) := by
  have hsettled : Settled (.map [("v", .int 4)]) := by
    change (4 : Int) < 256
    decide
  exact ⟨(agree_iff _ rfl).2 hsettled, hsettled⟩

/-- Version 256 is taken for v1 on the desktop, as a newer one in the browser. -/
theorem not_agree_256 : ¬ ∀ (c : Codec) (bytes : Bytes) (fields : List (String × Ipld)), c.decode bytes = some (.map fields) →
    Agree c bytes (.map fields) := by
  intro h
  have hagree := h (oneBody (.map [("v", .int 256)])) [] _ rfl
  exact absurd (hagree.newer 256 rfl (by decide)).1 (by decide)

end TrackerStream
