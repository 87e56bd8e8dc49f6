import TrackerStream.Text
import TrackerStream.Words

/-!
# Hold beacons (`beacon.ts`, `beacon.go`)

A frame with the truncated hashes of the playlists a client holds, written and read by the browser and by the node. The
two readers take a count of any length from `Words.read`, the browser as far as a shift of 28 into 32 bits, the node as far
as ten bytes of 64.
-/

namespace TrackerStream.Beacon

/-- A truncated name hash. -/
abbrev Hash8 := { b : Bytes // b.length = 8 }

structure Sha256 where
  digest : Bytes → Bytes
  length_digest : ∀ b, (digest b).length = 32

def nameHash8 (sha : Sha256) (name : String) : Hash8 :=
  ⟨(sha.digest (utf8 name)).take 8, by rw [List.length_take, sha.length_digest]; rfl⟩

def BEACON_VERSION : UInt8 := 0x01
def beaconMaxHashes : Nat := 4096

inductive Verdict
  | accept (hashes : List Bytes)
  /-- A version to come, not held against the sender. -/
  | unknownVersion
  | malformed
deriving DecidableEq

/-- `n` hashes of a body. -/
def hashesOf (n : Nat) (body : Bytes) : List Bytes := (List.range n).map fun k => Buffer.slice body (k * 8) (k * 8 + 8)

/-! ### The browser -/

namespace Web

/-- `[version][uvarint N][N x 8-byte hash]` -/
def encodeBeacon (hashes : List Hash8) : Bytes := BEACON_VERSION :: (Words.put hashes.length ++ hashes.flatMap (·.1))

/-- The count, of which `n` is read and `shift` bits are gone, and what is behind it. -/
def readCount : Bytes → Nat → BitVec 32 → Option (BitVec 32 × Bytes)
  | [], _, _ => none
  | c :: b, shift, n =>
    let n := n ||| BitVec.ofNat 32 (c.toNat % 0x80) <<< shift
    if c.toNat < 0x80 then some (n, b) else if shift + 7 > 28 then none else readCount b (shift + 7) n

def decodeBeacon : Bytes → Verdict
  | [] => .malformed
  | v :: b =>
    if v ≠ BEACON_VERSION then .unknownVersion
    else
      match readCount b 0 0 with
      | none => .malformed
      | some (n, body) =>
        if n.toNat > 4096 then .malformed
        else if body.length ≠ n.toNat * 8 then .malformed
        else .accept (hashesOf n.toNat body)

end Web

/-! ### The node -/

namespace Node

def encodeBeacon (hashes : List Hash8) : Bytes := BEACON_VERSION :: (Words.put hashes.length ++ hashes.flatMap (·.1))

/-- `binary.Uvarint` with `i` bytes read into `x`. -/
def uvarint : Bytes → Nat → BitVec 64 → Option (BitVec 64 × Bytes)
  | [], _, _ => none
  | c :: b, i, x =>
    if i = 10 then none
    else if c.toNat < 0x80 then
      if i = 9 ∧ c.toNat > 1 then none else some (x ||| BitVec.ofNat 64 c.toNat <<< (7 * i), b)
    else uvarint b (i + 1) (x ||| BitVec.ofNat 64 (c.toNat % 0x80) <<< (7 * i))

def decodeBeacon : Bytes → Verdict
  | [] => .unknownVersion
  | v :: b =>
    if v ≠ BEACON_VERSION then .unknownVersion
    else
      match uvarint b 0 0 with
      | none => .malformed
      | some (count, body) =>
        if count.toNat = 0 ∨ count.toNat > beaconMaxHashes then .malformed
        else if body.length ≠ count.toNat * 8 then .malformed
        else .accept (hashesOf count.toNat body)

end Node

/-! ### Counts -/

theorem readCount_eq (b : Bytes) {k : Nat} (hk : k ≤ 4) {n : BitVec 32} (hn : n.toNat < 2 ^ (7 * k)) :
    Web.readCount b (7 * k) n = (Words.read b).bind fun r =>
      if k + r.size ≤ 5 then some (BitVec.ofNat 32 (n.toNat + r.value * 2 ^ (7 * k)), r.rest) else none := by
  induction b generalizing k n with
  | nil => rfl
  | cons c b ih =>
    have hor : (n ||| BitVec.ofNat 32 (c.toNat % 128) <<< (7 * k)).toNat = (n.toNat + c.toNat % 128 * 2 ^ (7 * k)) % 2 ^ 32 :=
      Words.or_shiftLeft hn (by omega)
    rw [Web.readCount, Words.read]
    by_cases hc : c.toNat < 128
    · rw [if_pos hc, if_pos hc, Option.bind_some, if_pos (show k + 1 ≤ 5 by omega)]
      congr 2
      apply BitVec.eq_of_toNat_eq
      rw [hor, BitVec.toNat_ofNat, Nat.mod_eq_of_lt hc]
    · rw [if_neg hc, if_neg hc, Option.bind_map]
      by_cases hlast : k = 4
      · rw [if_pos (by omega)]
        cases hr : Words.read b with
        | none => rfl
        | some r =>
          have := (Words.read_size hr).1
          show none = if k + (r.size + 1) ≤ 5 then _ else none
          rw [if_neg (by omega)]
      · have hlt : n.toNat + c.toNat % 128 * 2 ^ (7 * k) < 2 ^ (7 * (k + 1)) := by
          have hpow : 2 ^ (7 * (k + 1)) = 128 * 2 ^ (7 * k) := by rw [Nat.mul_succ, Nat.pow_add, Nat.mul_comm]
          have hmul : c.toNat % 128 * 2 ^ (7 * k) ≤ 127 * 2 ^ (7 * k) := Nat.mul_le_mul_right _ (by omega)
          omega
        have hle : 2 ^ (7 * (k + 1)) ≤ 2 ^ 32 := Nat.pow_le_pow_right (by decide) (by omega)
        rw [Nat.mod_eq_of_lt (hlt.trans_le hle)] at hor
        rw [if_neg (by omega), ← Nat.mul_succ, ih (by omega) (by rwa [hor]), hor]
        congr 1
        funext r
        simp only [Function.comp_apply]
        have hsize : k + 1 + r.size = k + (r.size + 1) := by omega
        have hvalue : n.toNat + c.toNat % 128 * 2 ^ (7 * k) + r.value * 2 ^ (7 * (k + 1)) =
            n.toNat + (c.toNat % 128 + 128 * r.value) * 2 ^ (7 * k) := by
          rw [Nat.mul_succ, Nat.pow_add]
          ring
        rw [hsize, hvalue]

theorem uvarint_ten (b : Bytes) (x : BitVec 64) : Node.uvarint b 10 x = none := by
  cases b with
  | nil => rfl
  | cons c b => rw [Node.uvarint, if_pos rfl]

theorem uvarint_eq (b : Bytes) {i : Nat} (hi : i ≤ 9) {x : BitVec 64} (hx : x.toNat < 2 ^ (7 * i)) :
    Node.uvarint b i x = (Words.read b).bind fun r =>
      if i + r.size ≤ 10 ∧ x.toNat + r.value * 2 ^ (7 * i) < 2 ^ 64 then
        some (BitVec.ofNat 64 (x.toNat + r.value * 2 ^ (7 * i)), r.rest) else none := by
  induction b generalizing i x with
  | nil => rfl
  | cons c b ih =>
    rw [Node.uvarint, Words.read, if_neg (by omega)]
    have hpow : 2 ^ (7 * (i + 1)) = 128 * 2 ^ (7 * i) := by rw [Nat.mul_succ, Nat.pow_add, Nat.mul_comm]
    by_cases hc : c.toNat < 128
    · have hor : (x ||| BitVec.ofNat 64 c.toNat <<< (7 * i)).toNat = (x.toNat + c.toNat * 2 ^ (7 * i)) % 2 ^ 64 :=
        Words.or_shiftLeft hx (by omega)
      have hfits : x.toNat + c.toNat * 2 ^ (7 * i) < 2 ^ 64 ↔ ¬ (i = 9 ∧ c.toNat > 1) := by
        by_cases h9 : i = 9
        · subst h9
          norm_num at hx ⊢
          omega
        · have hle : 2 ^ (7 * (i + 1)) ≤ 2 ^ 63 := Nat.pow_le_pow_right (by decide) (by omega)
          have hmul : c.toNat * 2 ^ (7 * i) ≤ 127 * 2 ^ (7 * i) := Nat.mul_le_mul_right _ (by omega)
          simp only [h9, false_and, not_false_iff, iff_true]
          omega
      rw [if_pos hc, if_pos hc, Option.bind_some]
      by_cases hover : i = 9 ∧ c.toNat > 1
      · rw [if_pos hover, if_neg fun h => hfits.1 h.2 hover]
      · rw [if_neg hover, if_pos ⟨show i + 1 ≤ 10 by omega, hfits.2 hover⟩]
        congr 2
        apply BitVec.eq_of_toNat_eq
        rw [hor, BitVec.toNat_ofNat]
    · rw [if_neg hc, if_neg hc, Option.bind_map]
      by_cases h9 : i = 9
      · subst h9
        rw [uvarint_ten]
        cases hr : Words.read b with
        | none => rfl
        | some r =>
          have := (Words.read_size hr).1
          refine (if_neg fun h => ?_).symm
          have hsize : 9 + (r.size + 1) ≤ 10 := h.1
          omega
      · have hor : (x ||| BitVec.ofNat 64 (c.toNat % 128) <<< (7 * i)).toNat = (x.toNat + c.toNat % 128 * 2 ^ (7 * i)) % 2 ^ 64 :=
          Words.or_shiftLeft hx (by omega)
        have hlt : x.toNat + c.toNat % 128 * 2 ^ (7 * i) < 2 ^ (7 * (i + 1)) := by
          have hmul : c.toNat % 128 * 2 ^ (7 * i) ≤ 127 * 2 ^ (7 * i) := Nat.mul_le_mul_right _ (by omega)
          omega
        have hle : 2 ^ (7 * (i + 1)) ≤ 2 ^ 64 := Nat.pow_le_pow_right (by decide) (by omega)
        rw [Nat.mod_eq_of_lt (hlt.trans_le hle)] at hor
        rw [ih (by omega) (by rwa [hor]), hor]
        congr 1
        funext r
        simp only [Function.comp_apply]
        have hsize : i + 1 + r.size = i + (r.size + 1) := by omega
        have hvalue : x.toNat + c.toNat % 128 * 2 ^ (7 * i) + r.value * 2 ^ (7 * (i + 1)) =
            x.toNat + (c.toNat % 128 + 128 * r.value) * 2 ^ (7 * i) := by
          rw [Nat.mul_succ, Nat.pow_add]
          ring
        rw [hsize, hvalue]

/-! ### The two verdicts -/

/-- The frames on which the two readers part: the empty one; a count that the browser cuts to 32 bits, or lets be zero; a
count of few enough hashes in more bytes than the browser reads. -/
def Diverges (b : Bytes) : Prop :=
  b = [] ∨ ∃ f r, b = BEACON_VERSION :: f ∧ Words.read f = some r ∧
    ((r.size ≤ 5 ∧ (r.value = 0 ∨ 2 ^ 32 ≤ r.value) ∧ r.value % 2 ^ 32 ≤ 4096 ∧ r.rest.length = r.value % 2 ^ 32 * 8) ∨
      (5 < r.size ∧ r.size ≤ 10 ∧ 0 < r.value ∧ r.value ≤ 4096 ∧ r.rest.length = r.value * 8))

theorem Web.decodeBeacon_version (f : Bytes) : Web.decodeBeacon (BEACON_VERSION :: f) =
    match Words.read f with
    | none => .malformed
    | some r =>
      if r.size ≤ 5 ∧ r.value % 2 ^ 32 ≤ 4096 ∧ r.rest.length = r.value % 2 ^ 32 * 8 then
        .accept (hashesOf (r.value % 2 ^ 32) r.rest)
      else .malformed := by
  have h : Web.readCount f 0 0 = (Words.read f).bind fun r =>
      if r.size ≤ 5 then some (BitVec.ofNat 32 r.value, r.rest) else none := by
    simpa using readCount_eq f (Nat.zero_le 4) (n := 0) Nat.one_pos
  rw [Web.decodeBeacon, if_neg (not_not.2 rfl), h]
  cases Words.read f with
  | none => rfl
  | some r =>
    rw [Option.bind_some]
    by_cases hsize : r.size ≤ 5
    · rw [if_pos hsize]
      simp only [BitVec.toNat_ofNat, hsize, true_and]
      by_cases hmany : r.value % 2 ^ 32 ≤ 4096
      · rw [if_neg (by omega)]
        by_cases hbody : r.rest.length = r.value % 2 ^ 32 * 8
        · rw [if_neg (not_not.2 hbody), if_pos ⟨hmany, hbody⟩]
        · rw [if_pos hbody, if_neg fun h => hbody h.2]
      · rw [if_pos (by omega), if_neg fun h => hmany h.1]
    · rw [if_neg hsize]
      exact (if_neg fun h => hsize h.1).symm

theorem Node.decodeBeacon_version (f : Bytes) : Node.decodeBeacon (BEACON_VERSION :: f) =
    match Words.read f with
    | none => .malformed
    | some r =>
      if r.size ≤ 10 ∧ 0 < r.value ∧ r.value ≤ 4096 ∧ r.rest.length = r.value * 8 then
        .accept (hashesOf r.value r.rest)
      else .malformed := by
  have h : Node.uvarint f 0 0 = (Words.read f).bind fun r =>
      if r.size ≤ 10 ∧ r.value < 2 ^ 64 then some (BitVec.ofNat 64 r.value, r.rest) else none := by
    simpa using uvarint_eq f (Nat.zero_le 9) (x := 0) Nat.one_pos
  rw [Node.decodeBeacon, if_neg (not_not.2 rfl), h]
  cases Words.read f with
  | none => rfl
  | some r =>
    rw [Option.bind_some]
    by_cases hsize : r.size ≤ 10 ∧ r.value < 2 ^ 64
    · rw [if_pos hsize]
      simp only [BitVec.toNat_ofNat, Nat.mod_eq_of_lt hsize.2, hsize.1, true_and, beaconMaxHashes]
      by_cases hmany : 0 < r.value ∧ r.value ≤ 4096
      · rw [if_neg (by omega)]
        by_cases hbody : r.rest.length = r.value * 8
        · rw [if_neg (not_not.2 hbody), if_pos ⟨hmany.1, hmany.2, hbody⟩]
        · rw [if_pos hbody, if_neg fun h => hbody h.2.2]
      · rw [if_pos (by omega), if_neg fun h => hmany ⟨h.1, h.2.1⟩]
    · rw [if_neg hsize]
      refine (if_neg ?_).symm
      rintro ⟨hten, -, hmany, -⟩
      exact hsize ⟨hten, hmany.trans_lt (by decide)⟩

theorem decodeBeacon_eq_iff (b : Bytes) : Web.decodeBeacon b = Node.decodeBeacon b ↔ ¬Diverges b := by
  cases b with
  | nil => exact iff_of_false (by decide) (not_not.2 (.inl rfl))
  | cons v f =>
    by_cases hv : v = BEACON_VERSION
    · subst hv
      rw [Web.decodeBeacon_version, Node.decodeBeacon_version, Diverges]
      cases hr : Words.read f with
      | none =>
        refine iff_of_true rfl ?_
        rintro (h | ⟨f', r, h, hr', -⟩)
        · cases h
        · obtain rfl := (List.cons.inj h).2
          rw [hr] at hr'
          cases hr'
      | some r =>
        have hdiv : (BEACON_VERSION :: f = [] ∨ ∃ f' r', BEACON_VERSION :: f = BEACON_VERSION :: f' ∧ Words.read f' = some r' ∧
            ((r'.size ≤ 5 ∧ (r'.value = 0 ∨ 2 ^ 32 ≤ r'.value) ∧ r'.value % 2 ^ 32 ≤ 4096 ∧
              r'.rest.length = r'.value % 2 ^ 32 * 8) ∨
            (5 < r'.size ∧ r'.size ≤ 10 ∧ 0 < r'.value ∧ r'.value ≤ 4096 ∧ r'.rest.length = r'.value * 8))) ↔
            ((r.size ≤ 5 ∧ (r.value = 0 ∨ 2 ^ 32 ≤ r.value) ∧ r.value % 2 ^ 32 ≤ 4096 ∧
              r.rest.length = r.value % 2 ^ 32 * 8) ∨
            (5 < r.size ∧ r.size ≤ 10 ∧ 0 < r.value ∧ r.value ≤ 4096 ∧ r.rest.length = r.value * 8)) := by
          constructor
          · rintro (h | ⟨f', r', h, hr', hcases⟩)
            · cases h
            · obtain rfl := (List.cons.inj h).2
              rw [hr] at hr'
              cases hr'
              exact hcases
          · intro h
            exact .inr ⟨f, r, rfl, hr, h⟩
        rw [hdiv]
        simp only
        by_cases hweb : r.size ≤ 5 ∧ r.value % 2 ^ 32 ≤ 4096 ∧ r.rest.length = r.value % 2 ^ 32 * 8
        · rw [if_pos hweb]
          by_cases hnode : r.size ≤ 10 ∧ 0 < r.value ∧ r.value ≤ 4096 ∧ r.rest.length = r.value * 8
          · rw [if_pos hnode, Nat.mod_eq_of_lt (by omega)]
            exact iff_of_true rfl (by omega)
          · rw [if_neg hnode]
            exact iff_of_false (by simp) (by omega)
        · rw [if_neg hweb]
          by_cases hnode : r.size ≤ 10 ∧ 0 < r.value ∧ r.value ≤ 4096 ∧ r.rest.length = r.value * 8
          · rw [if_pos hnode]
            exact iff_of_false (by simp) (by omega)
          · rw [if_neg hnode]
            exact iff_of_true rfl (by omega)
    · refine iff_of_true ?_ ?_
      · rw [Web.decodeBeacon, Node.decodeBeacon, if_pos hv, if_pos hv]
      · rintro (h | ⟨f', r, h, -⟩)
        · cases h
        · exact hv (List.cons.inj h).1

/-! ### What each side makes -/

theorem length_flatMap_hashes (hashes : List Hash8) : (hashes.flatMap (·.1)).length = hashes.length * 8 :=
  Buffer.length_flatMap_const (fun h : Hash8 => h.2) hashes

theorem hashesOf_flatMap (hashes : List Hash8) : hashesOf hashes.length (hashes.flatMap (·.1)) = hashes.map (·.1) :=
  Words.map_slice_flatMap (fun h : Hash8 => h.2) hashes

theorem put_size {n : Nat} (h : n ≤ 4096) : (Words.put n).length ≤ 2 := Words.put_length_le (k := 1) (by omega)

theorem Node.decodeBeacon_encodeBeacon (hashes : List Hash8) : Node.decodeBeacon (Web.encodeBeacon hashes) =
    if 0 < hashes.length ∧ hashes.length ≤ 4096 then .accept (hashes.map (·.1)) else .malformed := by
  rw [Web.encodeBeacon, Node.decodeBeacon_version, Words.read_put]
  show (if (Words.put hashes.length).length ≤ 10 ∧ 0 < hashes.length ∧ hashes.length ≤ 4096 ∧
    (hashes.flatMap (·.1)).length = hashes.length * 8 then _ else _) = _
  rw [hashesOf_flatMap, length_flatMap_hashes]
  by_cases hmany : 0 < hashes.length ∧ hashes.length ≤ 4096
  · have := put_size hmany.2
    rw [if_pos hmany, if_pos ⟨by omega, hmany.1, hmany.2, rfl⟩]
  · rw [if_neg hmany, if_neg fun h => hmany ⟨h.2.1, h.2.2.1⟩]

theorem Web.decodeBeacon_encodeBeacon {hashes : List Hash8} (h : hashes.length ≤ 4096) :
    Web.decodeBeacon (Node.encodeBeacon hashes) = .accept (hashes.map (·.1)) := by
  have hsize := put_size h
  rw [Node.encodeBeacon, Web.decodeBeacon_version, Words.read_put]
  show (if (Words.put hashes.length).length ≤ 5 ∧ hashes.length % 2 ^ 32 ≤ 4096 ∧
    (hashes.flatMap (·.1)).length = hashes.length % 2 ^ 32 * 8 then _ else _) = _
  rw [Nat.mod_eq_of_lt (by omega), if_pos ⟨by omega, h, length_flatMap_hashes hashes⟩, hashesOf_flatMap]

/-- `beaconOnce`: what is published of the rows that a client discloses. -/
def beaconOnce (sha : Sha256) (mine : List String) : Option Bytes :=
  if mine = [] then none else some (Web.encodeBeacon (mine.map (nameHash8 sha)))

/-- The node takes the beacon of a client with no more rows than a beacon may have, and of no other; each side reads what
the other side writes; and the readers agree on every frame but the diverging ones. -/
theorem beacon_agree (sha : Sha256) :
    (∀ mine, mine ≠ [] → ∃ frame, beaconOnce sha mine = some frame ∧
      (Node.decodeBeacon frame = .accept (mine.map fun name => (nameHash8 sha name).1) ↔ mine.length ≤ beaconMaxHashes)) ∧
    (∀ hashes : List Hash8, 1 ≤ hashes.length → hashes.length ≤ 4096 →
      Web.decodeBeacon (Node.encodeBeacon hashes) = .accept (hashes.map (·.1))) ∧
    ∀ b, Web.decodeBeacon b = Node.decodeBeacon b ↔ ¬Diverges b := by
  refine ⟨?_, fun hashes _ h => Web.decodeBeacon_encodeBeacon h, decodeBeacon_eq_iff⟩
  intro mine hmine
  refine ⟨_, if_neg hmine, ?_⟩
  have hpos := List.length_pos_iff.2 hmine
  rw [Node.decodeBeacon_encodeBeacon, List.length_map, List.map_map]
  by_cases hmany : mine.length ≤ 4096
  · rw [if_pos ⟨hpos, hmany⟩]
    exact iff_of_true rfl hmany
  · rw [if_neg fun h => hmany h.2]
    exact iff_of_false (by simp) hmany

/-- The browser calls the empty frame malformed, the node takes it for a version to come. -/
theorem empty_disagrees : ¬∀ b, Web.decodeBeacon b = Node.decodeBeacon b := by
  intro h
  exact absurd (h []) (by decide)

end TrackerStream.Beacon
