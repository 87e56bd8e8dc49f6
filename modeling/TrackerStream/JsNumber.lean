import TrackerStream.Ipld
import TrackerStream.Text

/-!
# `Number(v)` of a decoded value

What the browser makes of a dag-cbor value where it wants a number: integers and the numbers that texts spell go to the
nearest double, a list stands for the text of its elements with commas, which is a number for one element at most. `none` is
`NaN`; the infinities are `± 2 ^ 1024`, beyond which no number is.
-/

namespace TrackerStream.Js

/-- The nearest integer, and the even one of two. -/
def roundEven (x : ℚ) : Int :=
  if x - ⌊x⌋ < 1 / 2 ∨ x - ⌊x⌋ = 1 / 2 ∧ ⌊x⌋ % 2 = 0 then ⌊x⌋ else ⌊x⌋ + 1

/-- The nearest double. -/
def toDouble (q : ℚ) : ℚ :=
  let unit : ℚ := 2 ^ max (Int.log 2 |q| - 52) (-1074)
  max (-2 ^ 1024) (min (roundEven (q / unit) * unit) (2 ^ 1024))

/-- A safe integer is a number, any other a `BigInt` first. -/
def intNumber (n : Int) : ℚ := if n.natAbs < 2 ^ 53 then n else toDouble n

def digitValue (c : Char) : Nat :=
  if '0' ≤ c ∧ c ≤ '9' then c.toNat - '0'.toNat
  else if 'a' ≤ c ∧ c ≤ 'f' then c.toNat - 'a'.toNat + 10
  else if 'A' ≤ c ∧ c ≤ 'F' then c.toNat - 'A'.toNat + 10
  else 36

def digits? (base : Nat) (cs : List Char) : Option Nat :=
  if cs ≠ [] ∧ ∀ c ∈ cs, digitValue c < base then some (cs.foldl (fun n c => n * base + digitValue c) 0) else none

/-- The exponent part of a literal, from its letter on. -/
def exponent? : List Char → Option Int
  | [] => some 0
  | _ :: '+' :: cs => (digits? 10 cs).map Int.ofNat
  | _ :: '-' :: cs => (digits? 10 cs).map fun n => -Int.ofNat n
  | _ :: cs => (digits? 10 cs).map Int.ofNat

/-- A decimal literal without a sign. -/
def decimal? (cs : List Char) : Option ℚ :=
  if cs = "Infinity".toList then some (2 ^ 1024)
  else do
    let mantissa := cs.takeWhile fun c => c ≠ 'e' ∧ c ≠ 'E'
    let e ← exponent? (cs.dropWhile fun c => c ≠ 'e' ∧ c ≠ 'E')
    let fraction := (mantissa.dropWhile (· ≠ '.')).drop 1
    let n ← digits? 10 (mantissa.takeWhile (· ≠ '.') ++ fraction)
    return toDouble (n * 10 ^ (e - fraction.length))

/-- `StringToNumber` -/
def stringToNumber (s : String) : Option ℚ :=
  match (jsTrim s).toList with
  | [] => some 0
  | '0' :: 'x' :: cs | '0' :: 'X' :: cs => (digits? 16 cs).map fun n => toDouble n
  | '0' :: 'o' :: cs | '0' :: 'O' :: cs => (digits? 8 cs).map fun n => toDouble n
  | '0' :: 'b' :: cs | '0' :: 'B' :: cs => (digits? 2 cs).map fun n => toDouble n
  | '-' :: cs => (decimal? cs).map (- ·)
  | '+' :: cs => decimal? cs
  | cs => decimal? cs

/-- The number of the text of a list's only element. -/
def elementNumber : Ipld → Option ℚ
  | .null | .bytes [] | .list [] => some 0
  | .int n => some (intNumber n)
  | .float q => some q
  | .str s => stringToNumber s
  | .bytes [b] => some b.toNat
  | .list [v] => elementNumber v
  | .bool _ | .bytes _ | .list _ | .map _ | .link _ => none

/-- `Number(v)` -/
def number : Ipld → Option ℚ
  | .bool b => some (if b then 1 else 0)
  | v => elementNumber v

section
variable {x q : ℚ} {n : Int}

theorem floor_le_roundEven : ⌊x⌋ ≤ roundEven x := by
  unfold roundEven
  split
  · exact le_rfl
  · exact (Int.lt_succ _).le

theorem roundEven_nonpos (h : x ≤ 0) : roundEven x ≤ 0 := by
  unfold roundEven
  have hfloor : ⌊x⌋ ≤ 0 := Int.floor_nonpos h
  split
  · exact hfloor
  · rename_i hnot
    rcases hfloor.lt_or_eq with hlt | heq
    · exact hlt
    · refine absurd (.inl ?_) hnot
      rw [heq, Int.cast_zero, sub_zero]
      exact h.trans_lt (by norm_num)

theorem toDouble_nonpos (h : q ≤ 0) : toDouble q ≤ 0 := by
  have hpos : (0 : ℚ) < 2 ^ max (Int.log 2 |q| - 52) (-1074) := zpow_pos (by norm_num) _
  have hround : (roundEven (q / 2 ^ max (Int.log 2 |q| - 52) (-1074)) : ℚ) ≤ 0 := by
    exact_mod_cast roundEven_nonpos (div_nonpos_of_nonpos_of_nonneg h hpos.le)
  exact max_le (by norm_num) ((min_le_left _ _).trans (mul_nonpos_of_nonpos_of_nonneg hround hpos.le))

/-- A double is no less than a power of two below the number. -/
theorem two_pow_le_toDouble {k : Nat} (hk : k ≤ 1024) (h : 2 ^ k ≤ q) : 2 ^ k ≤ toDouble q := by
  have hpos : 0 < q := (pow_pos (by norm_num) k).trans_le h
  have hlog : (k : Int) ≤ Int.log 2 q := by
    refine (Int.zpow_le_iff_le_log (by decide) hpos).1 ?_
    exact_mod_cast h
  have hunit : max (Int.log 2 |q| - 52) (-1074) = Int.log 2 q - 52 := by
    rw [abs_of_pos hpos, max_eq_left (by omega)]
  have hself : (2 : ℚ) ^ Int.log 2 q ≤ q := Int.zpow_log_le_self (by decide) hpos
  have hscale : (0 : ℚ) < 2 ^ (Int.log 2 q - 52) := zpow_pos (by norm_num) _
  have hsplit : (2 : ℚ) ^ (52 : Int) * 2 ^ (Int.log 2 q - 52) = 2 ^ Int.log 2 q := by
    rw [← zpow_add₀ (by norm_num)]
    congr 1
    omega
  have hfloor : (2 ^ 52 : Int) ≤ ⌊q / 2 ^ (Int.log 2 q - 52)⌋ := by
    rw [Int.le_floor, le_div_iff₀ hscale]
    exact_mod_cast hsplit.le.trans hself
  have hround : (2 : ℚ) ^ (52 : Int) ≤ roundEven (q / 2 ^ (Int.log 2 q - 52)) := by
    exact_mod_cast hfloor.trans floor_le_roundEven
  have hle : (2 : ℚ) ^ k ≤ roundEven (q / 2 ^ (Int.log 2 q - 52)) * 2 ^ (Int.log 2 q - 52) := by
    calc (2 : ℚ) ^ k = 2 ^ (k : Int) := (zpow_natCast ..).symm
      _ ≤ 2 ^ Int.log 2 q := zpow_le_zpow_right₀ (by norm_num) hlog
      _ = 2 ^ (52 : Int) * 2 ^ (Int.log 2 q - 52) := hsplit.symm
      _ ≤ _ := mul_le_mul_of_nonneg_right hround hscale.le
  rw [toDouble, hunit]
  exact le_max_of_le_right (le_min hle (pow_le_pow_right₀ (by norm_num) hk))

theorem intNumber_nonpos (h : n ≤ 0) : intNumber n ≤ 0 := by
  have hq : (n : ℚ) ≤ 0 := by exact_mod_cast h
  unfold intNumber
  split
  · exact hq
  · exact toDouble_nonpos hq

theorem two_pow_le_intNumber {k : Nat} (hk : k ≤ 1024) (h : 2 ^ k ≤ n) : 2 ^ k ≤ intNumber n := by
  have hq : (2 : ℚ) ^ k ≤ n := by exact_mod_cast h
  unfold intNumber
  split
  · exact hq
  · exact two_pow_le_toDouble hk hq

end

end TrackerStream.Js
