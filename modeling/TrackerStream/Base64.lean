import Mathlib

/-!
# Base64

Base64 over any alphabet of 64 letters. `decode` is the canonical decoder: the last group has its padding
exactly when the encoding pads, and the bits that stand for nothing are zero. `forgive` is the browser's:
white space is skipped, the padding may be left out, and the spare bits are not looked at. Both invert
`encode`.
-/

structure Base64 where
  chars : List Char
  length : chars.length = 64
  nodup : chars.Nodup
  no_pad : '=' ∉ chars
  printable : ∀ c ∈ chars, 32 < c.toNat ∧ c.toNat < 127

namespace Base64

/-- Upper case, lower case, digits and two more letters. -/
def alphabet (last : List Char) : List Char :=
  (List.range' 65 26).map .ofNat ++ (List.range' 97 26).map .ofNat ++ (List.range' 48 10).map .ofNat ++ last

/-- What a check over the letters says of each. -/
theorem forall_mem_of_all {α : Type} {p : α → Prop} [DecidablePred p] {xs : List α}
    (h : xs.all (fun x => decide (p x)) = true) : ∀ x ∈ xs, p x := by
  simpa using h

def standard : Base64 where
  chars := alphabet ['+', '/']
  length := by decide
  nodup := by decide
  no_pad := by decide
  printable := forall_mem_of_all (by decide)

def urlSafe : Base64 where
  chars := alphabet ['-', '_']
  length := by decide
  nodup := by decide
  no_pad := by decide
  printable := forall_mem_of_all (by decide)

/-! ### Groups of six bits -/

def sextets : List UInt8 → List Nat
  | a :: b :: c :: rest =>
    a.toNat / 4 :: (a.toNat % 4 * 16 + b.toNat / 16) :: (b.toNat % 16 * 4 + c.toNat / 64) :: c.toNat % 64 ::
      sextets rest
  | [a, b] => [a.toNat / 4, a.toNat % 4 * 16 + b.toNat / 16, b.toNat % 16 * 4]
  | [a] => [a.toNat / 4, a.toNat % 4 * 16]
  | [] => []

/-- The bytes of the groups; `strict` refuses bits past the last byte. -/
def octets (strict : Bool) : List Nat → Option (List UInt8)
  | w :: x :: y :: z :: rest => do
    let bytes ← octets strict rest
    return .ofNat (w * 4 + x / 16) :: .ofNat (x % 16 * 16 + y / 4) :: .ofNat (y % 4 * 64 + z) :: bytes
  | [w, x, y] =>
    if strict && y % 4 != 0 then none else some [.ofNat (w * 4 + x / 16), .ofNat (x % 16 * 16 + y / 4)]
  | [w, x] => if strict && x % 16 != 0 then none else some [.ofNat (w * 4 + x / 16)]
  | [_] => none
  | [] => some []

theorem octets_sextets (strict : Bool) (b : List UInt8) : octets strict (sextets b) = some b := by
  have byte (n : Nat) (u : UInt8) (h : n = u.toNat) : UInt8.ofNat n = u := by rw [h, UInt8.ofNat_toNat]
  induction b using sextets.induct with
  | case1 a b c rest ih =>
    have := a.toNat_lt; have := b.toNat_lt; have := c.toNat_lt
    simp only [sextets, octets, ih]
    rw [byte _ a (by omega), byte _ b (by omega), byte _ c (by omega)]
    rfl
  | case2 a b =>
    have := a.toNat_lt; have := b.toNat_lt
    have hy : b.toNat % 16 * 4 % 4 = 0 := by omega
    simp only [sextets, octets, hy]
    rw [byte _ a (by omega), byte _ b (by omega)]
    simp
  | case3 a =>
    have := a.toNat_lt
    have hx : a.toNat % 4 * 16 % 16 = 0 := by omega
    simp only [sextets, octets, hx]
    rw [byte _ a (by omega)]
    simp
  | case4 => rfl

theorem sextets_lt (b : List UInt8) : ∀ n ∈ sextets b, n < 64 := by
  induction b using sextets.induct with
  | case1 a b c rest ih =>
    have := a.toNat_lt; have := b.toNat_lt; have := c.toNat_lt
    intro n hn
    simp only [sextets, List.mem_cons] at hn
    rcases hn with rfl | rfl | rfl | rfl | hn
    · omega
    · omega
    · omega
    · omega
    · exact ih n hn
  | case2 a b =>
    have := a.toNat_lt; have := b.toNat_lt
    intro n hn
    simp only [sextets, List.mem_cons, List.not_mem_nil, or_false] at hn
    omega
  | case3 a =>
    have := a.toNat_lt
    intro n hn
    simp only [sextets, List.mem_cons, List.not_mem_nil, or_false] at hn
    omega
  | case4 => simp [sextets]

theorem length_le_sextets (b : List UInt8) : b.length ≤ (sextets b).length := by
  induction b using sextets.induct with
  | case1 a b c rest ih => simp only [sextets, List.length_cons]; omega
  | case2 a b => simp [sextets]
  | case3 a => simp [sextets]
  | case4 => simp [sextets]

/-! ### Letters -/

variable (B : Base64)

def letter (n : Nat) : Char := B.chars.getD n '='

def value (c : Char) : Option Nat := if c ∈ B.chars then some (B.chars.idxOf c) else none

theorem letter_mem {n : Nat} (h : n < 64) : B.letter n ∈ B.chars := by
  rw [letter, List.getD_eq_getElem?_getD, List.getElem?_eq_getElem (by rw [B.length]; exact h)]
  exact List.getElem_mem _

theorem value_letter {n : Nat} (h : n < 64) : B.value (B.letter n) = some n := by
  have hn : n < B.chars.length := by rw [B.length]; exact h
  rw [value, if_pos (B.letter_mem h), letter, List.getD_eq_getElem?_getD, List.getElem?_eq_getElem hn,
    Option.getD_some, B.nodup.idxOf_getElem]

theorem mapM_value {ns : List Nat} (h : ∀ n ∈ ns, n < 64) : (ns.map B.letter).mapM B.value = some ns := by
  induction ns with
  | nil => rfl
  | cons n ns ih =>
    rw [List.map_cons, List.mapM_cons, B.value_letter (h n (by simp)), ih fun m hm => h m (by simp [hm])]
    rfl

/-! ### Texts -/

/-- How many pads complete a group of `n` letters. -/
def pads (n : Nat) : Nat := (4 - n % 4) % 4

/-- The text of the bytes, with padding or without. -/
def encode (pad : Bool) (b : List UInt8) : List Char :=
  (sextets b).map B.letter ++ if pad then List.replicate (pads (sextets b).length) '=' else []

def decode (pad : Bool) (text : List Char) : Option (List UInt8) := do
  let body := text.takeWhile (· != '=')
  if text.dropWhile (· != '=') = (if pad then List.replicate (pads body.length) '=' else []) then
    octets true (← body.mapM B.value)
  else none

/-- The white space a browser skips: tab, line feed, form feed, carriage return and blank. -/
def isSpace (c : Char) : Bool := c.toNat ∈ [9, 10, 12, 13, 32]

/-- Decode as a browser does. -/
def forgive (text : List Char) : Option (List UInt8) := do
  let text := text.filter fun c => !isSpace c
  let body := text.takeWhile (· != '=')
  let rest := text.dropWhile (· != '=')
  if rest = [] ∨ rest = List.replicate (pads body.length) '=' then octets false (← body.mapM B.value) else none

theorem letters_ne_pad {b : List UInt8} : ∀ c ∈ (sextets b).map B.letter, (c != '=') = true := by
  intro c hc
  obtain ⟨n, hn, rfl⟩ := List.mem_map.1 hc
  have hmem := B.letter_mem (sextets_lt b n hn)
  simp only [bne_iff_ne, ne_eq]
  intro heq
  exact B.no_pad (heq ▸ hmem)

theorem takeWhile_encode (pad : Bool) (b : List UInt8) :
    (B.encode pad b).takeWhile (· != '=') = (sextets b).map B.letter := by
  rw [encode, List.takeWhile_append_of_pos B.letters_ne_pad]
  cases pad with
  | false => simp
  | true => cases pads (sextets b).length <;> simp [List.replicate_succ]

theorem dropWhile_encode (pad : Bool) (b : List UInt8) : (B.encode pad b).dropWhile (· != '=') =
    if pad then List.replicate (pads (sextets b).length) '=' else [] := by
  rw [encode, List.dropWhile_append_of_pos B.letters_ne_pad]
  cases pad with
  | false => simp
  | true => cases pads (sextets b).length <;> simp [List.replicate_succ]

theorem decode_encode (pad : Bool) (b : List UInt8) : B.decode pad (B.encode pad b) = some b := by
  simp only [decode, takeWhile_encode, dropWhile_encode, List.length_map, ↓reduceIte]
  rw [B.mapM_value (sextets_lt b)]
  exact octets_sextets true b

theorem printable_encode (pad : Bool) (b : List UInt8) : ∀ c ∈ B.encode pad b, 32 < c.toNat ∧ c.toNat < 127 := by
  intro c hc
  rcases List.mem_append.1 hc with hc | hc
  · obtain ⟨n, hn, rfl⟩ := List.mem_map.1 hc
    exact B.printable _ (B.letter_mem (sextets_lt b n hn))
  · cases pad with
    | false => simp at hc
    | true => rw [(List.mem_replicate.1 hc).2]; decide

theorem forgive_encode (pad : Bool) (b : List UInt8) : B.forgive (B.encode pad b) = some b := by
  have hfilter : (B.encode pad b).filter (fun c => !isSpace c) = B.encode pad b := by
    refine List.filter_eq_self.2 fun c hc => ?_
    have := B.printable_encode pad b c hc
    simp only [isSpace, List.mem_cons, List.not_mem_nil, or_false, Bool.not_eq_true', decide_eq_false_iff_not]
    omega
  simp only [forgive, hfilter, takeWhile_encode, dropWhile_encode, List.length_map]
  rw [if_pos (by cases pad <;> simp), B.mapM_value (sextets_lt b)]
  exact octets_sextets false b

theorem length_le_encode (pad : Bool) (b : List UInt8) : b.length ≤ (B.encode pad b).length := by
  rw [encode, List.length_append, List.length_map]
  exact Nat.le_add_right_of_le (length_le_sextets b)

example : standard.encode true [77, 97] = ['T', 'W', 'E', '='] := by decide

end Base64
