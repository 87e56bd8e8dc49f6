import TrackerStream.Buffer
import Mathlib

/-!
# Numbers in bytes

Numbers of a fixed count of bytes, low or high byte first, and numbers in groups of seven bits, of which every one but the
last is marked. `read` takes such a number of any length from the front of a list; a reader that shifts the groups into a
machine word is compared with it group by group (`or_shiftLeft`).
-/

namespace Words

abbrev Bytes := List UInt8

/-! ### Fixed counts of bytes -/

/-- The low `w` bytes of `n`, lowest first. -/
def le : Nat → Nat → Bytes
  | 0, _ => []
  | w + 1, n => UInt8.ofNat n :: le w (n / 256)

def ofLe : Bytes → Nat
  | [] => 0
  | b :: bs => b.toNat + 256 * ofLe bs

/-- The low `w` bytes of `n`, highest first. -/
def be (w n : Nat) : Bytes := (le w n).reverse

def ofBe (b : Bytes) : Nat := ofLe b.reverse

@[simp] theorem length_le (w n : Nat) : (le w n).length = w := by
  induction w generalizing n with
  | zero => rfl
  | succ w ih => rw [le, List.length_cons, ih]

@[simp] theorem length_be (w n : Nat) : (be w n).length = w := by rw [be, List.length_reverse, length_le]

theorem ofLe_le {w n : Nat} (h : n < 256 ^ w) : ofLe (le w n) = n := by
  induction w generalizing n with
  | zero =>
    rw [pow_zero] at h
    obtain rfl : n = 0 := by omega
    rfl
  | succ w ih =>
    have hrest : n / 256 < 256 ^ w := by
      rw [Nat.div_lt_iff_lt_mul (by decide), ← Nat.pow_succ]
      exact h
    rw [le, ofLe, ih hrest, UInt8.toNat_ofNat']
    omega

theorem ofLe_lt (b : Bytes) : ofLe b < 256 ^ b.length := by
  induction b with
  | nil => decide
  | cons c b ih =>
    have hc := c.toNat_lt
    rw [ofLe, List.length_cons, Nat.pow_succ]
    omega

theorem le_ofLe (b : Bytes) : le b.length (ofLe b) = b := by
  induction b with
  | nil => rfl
  | cons c b ih =>
    have hc := c.toNat_lt
    rw [List.length_cons, le, ofLe, Nat.add_mul_div_left _ _ (by decide), Nat.div_eq_of_lt hc, Nat.zero_add, ih]
    congr 1
    apply UInt8.toNat_inj.1
    rw [UInt8.toNat_ofNat']
    omega

theorem ofBe_be {w n : Nat} (h : n < 256 ^ w) : ofBe (be w n) = n := by rw [ofBe, be, List.reverse_reverse, ofLe_le h]

theorem ofBe_lt (b : Bytes) : ofBe b < 256 ^ b.length := by
  have h := ofLe_lt b.reverse
  rwa [List.length_reverse] at h

theorem be_ofBe (b : Bytes) : be b.length (ofBe b) = b := by
  have h := le_ofLe b.reverse
  rw [List.length_reverse] at h
  rw [be, ofBe, h, List.reverse_reverse]

/-! ### Groups of seven bits -/

/-- `n` in groups of seven bits, lowest first. -/
def put (n : Nat) : Bytes := if n < 128 then [UInt8.ofNat n] else UInt8.ofNat (n % 128 + 128) :: put (n / 128)
termination_by n
decreasing_by omega

structure Read where
  value : Nat
  /-- How many bytes it took. -/
  size : Nat
  rest : Bytes
deriving DecidableEq

/-- The number at the front, of any length. -/
def read : Bytes → Option Read
  | [] => none
  | c :: b =>
    if c.toNat < 128 then some ⟨c.toNat, 1, b⟩
    else (read b).map fun r => ⟨c.toNat % 128 + 128 * r.value, r.size + 1, r.rest⟩

theorem read_put (n : Nat) (rest : Bytes) : read (put n ++ rest) = some ⟨n, (put n).length, rest⟩ := by
  induction n using Nat.strongRecOn with
  | ind n ih =>
    rw [put]
    split
    · have hn : (UInt8.ofNat n).toNat = n := by
        rw [UInt8.toNat_ofNat']
        omega
      rw [List.singleton_append, read, hn, if_pos ‹_›, List.length_singleton]
    · have hn : (UInt8.ofNat (n % 128 + 128)).toNat = n % 128 + 128 := by
        rw [UInt8.toNat_ofNat']
        omega
      rw [List.cons_append, read, hn, if_neg (by omega), ih (n / 128) (by omega), Option.map_some, List.length_cons]
      have hvalue : (n % 128 + 128) % 128 + 128 * (n / 128) = n := by omega
      simp only [hvalue]

theorem put_length_le {n k : Nat} (h : n < 128 ^ (k + 1)) : (put n).length ≤ k + 1 := by
  induction k generalizing n with
  | zero =>
    rw [put, if_pos (by simpa using h)]
    rfl
  | succ k ih =>
    rw [put]
    split
    · simp
    · have hrest : n / 128 < 128 ^ (k + 1) := by
        rw [Nat.div_lt_iff_lt_mul (by decide), ← Nat.pow_succ]
        exact h
      rw [List.length_cons]
      exact Nat.succ_le_succ (ih hrest)

theorem read_size {b : Bytes} {r : Read} (h : read b = some r) : 0 < r.size ∧ r.size + r.rest.length = b.length ∧ r.value < 128 ^ r.size := by
  induction b generalizing r with
  | nil => cases h
  | cons c b ih =>
    rw [read] at h
    split at h
    · cases h
      exact ⟨Nat.one_pos, Nat.add_comm .., by simpa⟩
    · obtain ⟨r', hr', rfl⟩ := Option.map_eq_some_iff.1 h
      obtain ⟨-, hlen, hvalue⟩ := ih hr'
      refine ⟨Nat.succ_pos _, ?_, ?_⟩
      · show r'.size + 1 + r'.rest.length = b.length + 1
        omega
      · show c.toNat % 128 + 128 * r'.value < 128 ^ (r'.size + 1)
        rw [Nat.pow_succ]
        omega

/-- A further group of `c`, shifted over the `s` bits that `x` has already. -/
theorem or_shiftLeft {w s c : Nat} {x : BitVec w} (hx : x.toNat < 2 ^ s) (hs : s ≤ w) :
    (x ||| BitVec.ofNat w c <<< s).toNat = (x.toNat + c * 2 ^ s) % 2 ^ w := by
  have hpow : 2 ^ w = 2 ^ s * 2 ^ (w - s) := by rw [← Nat.pow_add, Nat.add_sub_cancel' hs]
  have hshift : (BitVec.ofNat w c <<< s).toNat = 2 ^ s * (c % 2 ^ (w - s)) := by
    rw [BitVec.toNat_shiftLeft, BitVec.toNat_ofNat, Nat.shiftLeft_eq, Nat.mod_mul_mod, Nat.mul_comm c, hpow, Nat.mul_mod_mul_left]
  have hsum : (x.toNat + c * 2 ^ s) % 2 ^ w = x.toNat + 2 ^ s * (c % 2 ^ (w - s)) := by
    have hlt : x.toNat + 2 ^ s * (c % 2 ^ (w - s)) < 2 ^ w := by
      have hc : c % 2 ^ (w - s) + 1 ≤ 2 ^ (w - s) := Nat.mod_lt _ (Nat.two_pow_pos _)
      calc x.toNat + 2 ^ s * (c % 2 ^ (w - s)) < 2 ^ s * (c % 2 ^ (w - s) + 1) := by rw [Nat.mul_succ]; omega
        _ ≤ 2 ^ s * 2 ^ (w - s) := Nat.mul_le_mul_left _ hc
        _ = 2 ^ w := hpow.symm
    have hsplit : x.toNat + c * 2 ^ s = x.toNat + 2 ^ s * (c % 2 ^ (w - s)) + 2 ^ w * (c / 2 ^ (w - s)) := by
      conv_lhs => rw [← Nat.mod_add_div c (2 ^ (w - s))]
      rw [hpow]
      ring
    rw [hsplit, Nat.add_mul_mod_self_left, Nat.mod_eq_of_lt hlt]
  rw [BitVec.toNat_or, hshift, hsum, Nat.or_comm, ← Nat.two_pow_add_eq_or_of_lt hx, Nat.add_comm]

/-! ### Records of one length -/

theorem slice_append_left (pre b post : Bytes) : Buffer.slice (pre ++ b ++ post) pre.length (pre.length + b.length) = b := by
  rw [Buffer.slice, ← List.length_append, List.take_left, List.drop_left]

section
variable {α : Type} {g : α → Bytes} {k : Nat} (hk : ∀ x, (g x).length = k)
include hk

theorem slice_flatMap (xs : List α) {i : Nat} {x : α} (hx : xs[i]? = some x) : Buffer.slice (xs.flatMap g) (i * k) (i * k + k) = g x := by
  apply List.ext_getElem?
  intro j
  rw [Buffer.getElem?_slice]
  by_cases hj : j < k
  · rw [if_pos (by omega), Buffer.getElem?_flatMap_const hk xs i hj, hx, Option.bind_some]
  · rw [if_neg (by omega), List.getElem?_eq_none (by rw [hk]; omega)]

/-- Record `i` behind a header. -/
theorem slice_append_flatMap (head : Bytes) (xs : List α) {i : Nat} {x : α} (hx : xs[i]? = some x) :
    Buffer.slice (head ++ xs.flatMap g) (head.length + i * k) (head.length + i * k + k) = g x := by
  rw [Nat.add_assoc, Buffer.slice, List.take_length_add_append, List.drop_length_add_append]
  exact slice_flatMap hk xs hx

theorem map_slice_flatMap (xs : List α) :
    (List.range xs.length).map (fun i => Buffer.slice (xs.flatMap g) (i * k) (i * k + k)) = xs.map g := by
  apply List.ext_getElem
  · rw [List.length_map, List.length_map, List.length_range]
  · intro i h _
    rw [List.length_map, List.length_range] at h
    rw [List.getElem_map, List.getElem_map, List.getElem_range, slice_flatMap hk xs (List.getElem?_eq_getElem h)]

end

end Words
