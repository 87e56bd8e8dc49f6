import TrackerStream.Buffer
import TrackerStream.WebStore
import TrackerStream.Words

/-!
# Frames of DHT replies (`ipns.ts`)

A reply comes in chunks: the length of its body, in groups of seven bits, and the body. `readUvarint` does not see the end
of what it reads: it takes what is missing for a zero and stops one byte behind. Numbers are the browser's doubles, of which
only those that are not negative come up.
-/

namespace TrackerStream.DhtFrames
open WebPlaylists (toNumber)

/-! ### Numbers -/

inductive Num
  | fin (n : Nat)
  | inf
  | nan
deriving DecidableEq

namespace Num

/-- The double next to `n`. -/
def of (n : Nat) : Num := if (toNumber n).log2 < 1024 then fin (toNumber n) else inf

def add : Num → Num → Num
  | fin a, fin b => of (a + b)
  | nan, _ | _, nan => nan
  | _, _ => inf

/-- `c * 2 ** shift` for a group of seven bits. -/
def group (c shift : Nat) : Num :=
  if shift < 1024 then (if (c * 2 ^ shift).log2 < 1024 then fin (c * 2 ^ shift) else inf) else if c = 0 then nan else inf

def toUint32 : Num → Nat
  | fin n => n % 2 ^ 32
  | _ => 0

end Num

/-! ### The code -/

def uvarint (n : Nat) : Bytes :=
  if 0x80 ≤ n then UInt8.ofNat (n % 0x80 + 0x80) :: uvarint (n % 2 ^ 32 / 2 ^ 7) else [UInt8.ofNat n]
termination_by n
decreasing_by omega

/-- `readUvarint` from what is left of the buffer at `i`. -/
def readGroups : Bytes → Nat → Num → Nat → Num × Nat
  | [], shift, val, i => (val.add (.group 0 shift), i + 1)
  | b :: buf, shift, val, i =>
    let val := val.add (.group (b.toNat % 0x80) shift)
    if b.toNat < 0x80 then (val, i + 1) else readGroups buf (shift + 7) val (i + 1)

def readUvarint (buf : Bytes) (off : Nat) : Num × Nat := readGroups (buf.drop off) 0 (.fin 0) off

/-- `buf.subarray(i, end)` -/
def subarray (buf : Bytes) (i : Nat) : Num → Bytes
  | .fin j => Buffer.slice buf i j
  | .inf => buf.drop i
  | .nan => []

/-- The scan of `extractField` from `i`; `none` where the fuel is gone. -/
def extractField (body : Bytes) (wantField : Nat) : Nat → Num → Option (Option Bytes)
  | fuel + 1, .fin i =>
    if i < body.length then
      let (tag, i) := readUvarint body i
      let field := tag.toUint32 / 2 ^ 3
      match tag.toUint32 % 8 with
      | 0 => extractField body wantField fuel (.fin (readUvarint body i).2)
      | 2 =>
        let (len, i) := readUvarint body i
        if field = wantField then some (some (subarray body i (Num.add (.fin i) len)))
        else extractField body wantField fuel (Num.add (.fin i) len)
      | 5 => extractField body wantField fuel (.fin (i + 4))
      | 1 => extractField body wantField fuel (.fin (i + 8))
      | _ => some none
    else some none
  | _ + 1, _ => some none
  | 0, _ => none

/-- The body of the frame, if the buffer has all of it. -/
def frame? (buf : Bytes) : Option Bytes :=
  let (len, headerEnd) := readUvarint buf 0
  match len with
  | .fin n => if headerEnd + n ≤ buf.length then some (Buffer.slice buf headerEnd (headerEnd + n)) else none
  | _ => none

def readChunks (buf : Bytes) : List Bytes → Option Bytes
  | [] => none
  | chunk :: source =>
    match frame? (buf ++ chunk) with
    | some body => some body
    | none => readChunks (buf ++ chunk) source

/-- `readFrame`; `none` where the stream ends before a full frame. -/
def readFrame (source : List Bytes) : Option Bytes := readChunks [] source

/-! ### Messages -/

/-- A field of a message. -/
inductive Field
  | varint (number : Fin (2 ^ 29)) (value : Nat)
  | fixed64 (number : Fin (2 ^ 29)) (bytes : { b : Bytes // b.length = 8 })
  | bytes (number : Fin (2 ^ 29)) (bytes : Bytes)
  | fixed32 (number : Fin (2 ^ 29)) (bytes : { b : Bytes // b.length = 4 })

namespace Field

def encode : Field → Bytes
  | varint number value => Words.put (number * 8) ++ Words.put value
  | fixed64 number b => Words.put (number * 8 + 1) ++ b.1
  | bytes number b => Words.put (number * 8 + 2) ++ (Words.put b.length ++ b)
  | fixed32 number b => Words.put (number * 8 + 5) ++ b.1

/-- The bytes of a length-delimited field of that number. -/
def payload? (want : Nat) : Field → Option Bytes
  | bytes number b => if number.val = want then some b else none
  | _ => none

end Field

/-- `v` is the number `n` in groups of seven bits, not always the fewest. -/
def IsVarint (v : Bytes) (n : Nat) : Prop := Words.read v = some ⟨n, v.length, []⟩

instance (v : Bytes) (n : Nat) : Decidable (IsVarint v n) := inferInstanceAs (Decidable (_ = _))

/-! ### Numbers read -/

section
variable {n k a b : Nat} {val : Num}

/-- No length that an array has. -/
def Num.Big (val : Num) : Prop := ∀ n, val = .fin n → 2 ^ 53 ≤ n

theorem log2_lt (h : n < 2 ^ 53) : n.log2 < 1024 := by
  by_cases hn : n = 0
  · subst hn
    decide
  · have := (Nat.log2_lt hn).2 h
    omega

theorem Num.of_lt (h : n < 2 ^ 53) : Num.of n = .fin n := by
  rw [Num.of, WebPlaylists.toNumber_of_lt h, if_pos (log2_lt h)]

theorem Num.big_of (h : 2 ^ 53 ≤ n) : (Num.of n).Big := by
  intro m hm
  rw [Num.of] at hm
  split at hm
  · cases hm
    exact WebPlaylists.two_pow_le_toNumber h
  · cases hm

theorem Num.Big.add (h : val.Big) (x : Num) : (val.add x).Big := by
  cases val with
  | fin a =>
    cases x with
    | fin b => exact big_of ((h a rfl).trans (Nat.le_add_right ..))
    | inf => exact fun _ h => by cases h
    | nan => exact fun _ h => by cases h
  | inf => cases x <;> exact fun _ h => by cases h
  | nan => cases x <;> exact fun _ h => by cases h

theorem Num.big_add_of_not_fin {x : Num} (h : ∀ n, x ≠ .fin n) : (val.add x).Big := by
  cases x with
  | fin n => exact absurd rfl (h n)
  | inf => cases val <;> exact fun _ h => by cases h
  | nan => cases val <;> exact fun _ h => by cases h

theorem Num.group_of_lt {c shift : Nat} (hshift : shift < 1024) (h : c * 2 ^ shift < 2 ^ 53) : Num.group c shift = .fin (c * 2 ^ shift) := by
  rw [Num.group, if_pos hshift, if_pos (log2_lt h)]

/-- A group put to an exact number is exact again, or the number is big. -/
theorem Num.add_group {c : Nat} (h : a < 2 ^ 53) (k : Nat) :
    (k < 147 ∧ a + 128 ^ k * c < 2 ^ 53 → (Num.fin a).add (.group c (7 * k)) = .fin (a + 128 ^ k * c)) ∧
    (¬ (k < 147 ∧ a + 128 ^ k * c < 2 ^ 53) → ((Num.fin a).add (.group c (7 * k))).Big) := by
  have hpow : c * 2 ^ (7 * k) = 128 ^ k * c := by rw [Nat.pow_mul, Nat.mul_comm]
  constructor
  · rintro ⟨hk, hlt⟩
    rw [Num.group_of_lt (by omega) (by rw [hpow]; omega), hpow]
    exact Num.of_lt hlt
  · intro hnot
    unfold Num.group
    split
    · split
      · rw [hpow]
        exact Num.big_of (by omega)
      · exact Num.big_add_of_not_fin fun _ => Num.noConfusion
    · refine Num.big_add_of_not_fin fun n => ?_
      split <;> exact Num.noConfusion

end

/-! ### What `readUvarint` reads -/

section
variable {b t : Bytes} {r : Words.Read} {k a i : Nat} {val : Num}

theorem readGroups_of_none (h : Words.read b = none) : (readGroups b k val i).2 = i + b.length + 1 := by
  induction b generalizing k val i with
  | nil => rfl
  | cons c b ih =>
    rw [Words.read] at h
    split at h
    · cases h
    · rename_i hc
      rw [readGroups, if_neg hc, ih (by simpa using h), List.length_cons]
      omega

theorem readGroups_size (h : Words.read b = some r) : (readGroups b k val i).2 = i + r.size := by
  induction b generalizing k val i r with
  | nil => cases h
  | cons c b ih =>
    rw [Words.read] at h
    split at h
    · rename_i hc
      cases h
      rw [readGroups, if_pos hc]
    · rename_i hc
      obtain ⟨r', hr', rfl⟩ := Option.map_eq_some_iff.1 h
      rw [readGroups, if_neg hc, ih hr']
      simp only
      omega

theorem readGroups_big (h : Words.read b = some r) (hval : val.Big) : (readGroups b k val i).1.Big := by
  induction b generalizing k val i r with
  | nil => cases h
  | cons c b ih =>
    rw [Words.read] at h
    rw [readGroups]
    split at h
    · rename_i hc
      rw [if_pos hc]
      exact hval.add _
    · rename_i hc
      obtain ⟨r', hr', rfl⟩ := Option.map_eq_some_iff.1 h
      rw [if_neg hc]
      exact ih hr' (hval.add _)

theorem readGroups_append (h : Words.read b = some r) : readGroups (b ++ t) k val i = readGroups b k val i := by
  induction b generalizing k val i r with
  | nil => cases h
  | cons c b ih =>
    rw [Words.read] at h
    rw [List.cons_append, readGroups, readGroups]
    split at h
    · rename_i hc
      rw [if_pos hc, if_pos hc]
    · rename_i hc
      obtain ⟨r', hr', rfl⟩ := Option.map_eq_some_iff.1 h
      rw [if_neg hc, if_neg hc]
      exact ih hr'

/-- The number is exact where it is below `2 ^ 53` and takes no more than 147 bytes. -/
theorem readGroups_value (h : Words.read b = some r) (ha : a < 2 ^ 53) :
    (k + r.size ≤ 147 ∧ a + 128 ^ k * r.value < 2 ^ 53 → (readGroups b (7 * k) (.fin a) i).1 = .fin (a + 128 ^ k * r.value)) ∧
    (¬ (k + r.size ≤ 147 ∧ a + 128 ^ k * r.value < 2 ^ 53) → (readGroups b (7 * k) (.fin a) i).1.Big) := by
  induction b generalizing k a i r with
  | nil => cases h
  | cons c b ih =>
    rw [Words.read] at h
    rw [readGroups]
    obtain ⟨hexact, hbig⟩ := Num.add_group (c := c.toNat % 128) ha k
    split at h
    · rename_i hc
      cases h
      rw [if_pos hc]
      rw [Nat.mod_eq_of_lt hc] at hexact hbig ⊢
      exact ⟨fun hle => hexact ⟨hle.1, hle.2⟩, fun hnot => hbig hnot⟩
    · rename_i hc
      obtain ⟨r', hr', rfl⟩ := Option.map_eq_some_iff.1 h
      have hpos := (Words.read_size hr').1
      have hsum : a + 128 ^ k * (c.toNat % 128 + 128 * r'.value) = a + 128 ^ k * (c.toNat % 128) + 128 ^ (k + 1) * r'.value := by ring
      rw [if_neg hc]
      simp only [hsum]
      by_cases hin : k < 147 ∧ a + 128 ^ k * (c.toNat % 128) < 2 ^ 53
      · rw [hexact hin]
        obtain ⟨hexact', hbig'⟩ := ih (k := k + 1) (i := i + 1) hr' hin.2
        exact ⟨fun hle => hexact' ⟨by omega, hle.2⟩, fun hnot => hbig' fun hle => hnot ⟨by omega, hle.2⟩⟩
      · exact ⟨fun hle => absurd ⟨by omega, by omega⟩ hin, fun _ => readGroups_big hr' (hbig hin)⟩

end

/-! ### Frames -/

section
variable {b t m v : Bytes} {r : Words.Read} {cs cs' : List Bytes}

theorem read_append (h : Words.read b = some r) : Words.read (b ++ t) = some ⟨r.value, r.size, r.rest ++ t⟩ := by
  induction b generalizing r with
  | nil => cases h
  | cons c b ih =>
    rw [Words.read] at h
    rw [List.cons_append, Words.read]
    split at h
    · rename_i hc
      cases h
      rw [if_pos hc]
    · rename_i hc
      obtain ⟨r', hr', rfl⟩ := Option.map_eq_some_iff.1 h
      rw [if_neg hc, ih hr']
      rfl

/-- What was read is a number by itself. -/
theorem isVarint_of_read (h : Words.read b = some r) : ∃ v, b = v ++ r.rest ∧ v.length = r.size ∧ IsVarint v r.value := by
  induction b generalizing r with
  | nil => cases h
  | cons c b ih =>
    rw [Words.read] at h
    split at h
    · rename_i hc
      cases h
      exact ⟨[c], rfl, rfl, by rw [IsVarint, Words.read, if_pos hc]; rfl⟩
    · rename_i hc
      obtain ⟨r', hr', rfl⟩ := Option.map_eq_some_iff.1 h
      obtain ⟨v, hb, hlen, hv⟩ := ih hr'
      refine ⟨c :: v, by rw [hb]; rfl, by rw [List.length_cons, hlen], ?_⟩
      rw [IsVarint, Words.read, if_neg hc, hv]
      rfl

theorem frame?_eq_some_iff : frame? b = some m ↔
    ∃ n, (readUvarint b 0).1 = .fin n ∧ (readUvarint b 0).2 + n ≤ b.length ∧
      m = Buffer.slice b (readUvarint b 0).2 ((readUvarint b 0).2 + n) := by
  unfold frame?
  rcases readUvarint b 0 with ⟨len, headerEnd⟩
  cases len with
  | fin n =>
    simp only [Option.ite_none_right_eq_some, Option.some.injEq, Num.fin.injEq, eq_comm (a := m), exists_eq_left']
  | inf => simp
  | nan => simp

theorem readUvarint_append (h : (readUvarint b 0).2 ≤ b.length) : readUvarint (b ++ t) 0 = readUvarint b 0 := by
  rw [readUvarint, List.drop_zero] at h ⊢
  rcases hr : Words.read b with _ | r
  · rw [readGroups_of_none hr] at h
    omega
  · rw [readGroups_append hr, readUvarint, List.drop_zero]

theorem frame?_append (h : frame? b = some m) : frame? (b ++ t) = some m := by
  obtain ⟨n, hn, hle, rfl⟩ := frame?_eq_some_iff.1 h
  refine frame?_eq_some_iff.2 ⟨n, ?_⟩
  rw [readUvarint_append (by omega)]
  refine ⟨hn, by rw [List.length_append]; omega, ?_⟩
  rw [Buffer.slice, Buffer.slice, List.take_append_of_le_length hle]

theorem readChunks_eq (hb : frame? b = none) : readChunks b cs = frame? (b ++ cs.flatten) := by
  induction cs generalizing b with
  | nil => rw [readChunks, List.flatten_nil, List.append_nil, hb]
  | cons c cs ih =>
    rw [readChunks, List.flatten_cons, ← List.append_assoc]
    split
    · rename_i body hbody
      exact (frame?_append hbody).symm
    · rename_i hnone
      exact ih hnone

/-- Only the bytes of the stream count. -/
theorem readFrame_eq : readFrame cs = frame? cs.flatten := readChunks_eq rfl

/-- The number at the front of a buffer, as it is read. -/
theorem readUvarint_value (h : Words.read b = some r) :
    (r.size ≤ 147 ∧ r.value < 2 ^ 53 → (readUvarint b 0).1 = .fin r.value) ∧
    (¬ (r.size ≤ 147 ∧ r.value < 2 ^ 53) → (readUvarint b 0).1.Big) := by
  have := readGroups_value (a := 0) (k := 0) (i := 0) h (by decide)
  simpa [readUvarint] using this

theorem readUvarint_size (h : Words.read b = some r) : (readUvarint b 0).2 = r.size := by
  rw [readUvarint, List.drop_zero, readGroups_size h, Nat.zero_add]

theorem frame?_iff (hlen : b.length < 2 ^ 53) :
    frame? b = some m ↔ ∃ v rest, b = v ++ m ++ rest ∧ IsVarint v m.length ∧ v.length ≤ 147 := by
  rw [frame?_eq_some_iff]
  constructor
  · rintro ⟨n, hn, hle, rfl⟩
    rcases hr : Words.read b with _ | r
    · rw [readUvarint, List.drop_zero, readGroups_of_none hr] at hle
      omega
    · obtain ⟨hexact, hbig⟩ := readUvarint_value hr
      have hin : r.size ≤ 147 ∧ r.value < 2 ^ 53 := by
        by_contra hnot
        have := hbig hnot n hn
        omega
      obtain rfl : r.value = n := Num.fin.inj ((hexact hin).symm.trans hn)
      obtain ⟨v, hb, hv, hvarint⟩ := isVarint_of_read hr
      rw [readUvarint_size hr] at hle ⊢
      have hrest : Buffer.slice b r.size (r.size + r.value) = r.rest.take r.value := by
        rw [hb, ← hv, Buffer.slice, List.take_length_add_append, List.drop_left]
      have hm : (r.rest.take r.value).length = r.value := by
        have := (Words.read_size hr).2.1
        rw [List.length_take]
        omega
      refine ⟨v, r.rest.drop r.value, ?_, ?_, by omega⟩
      · rw [hrest, List.append_assoc, List.take_append_drop, ← hb]
      · rw [hrest, hm]
        exact hvarint
  · rintro ⟨v, rest, rfl, hv, hsize⟩
    have hr := read_append (t := m ++ rest) hv
    rw [← List.append_assoc] at hr
    rw [List.length_append, List.length_append] at hlen
    refine ⟨m.length, (readUvarint_value hr).1 ⟨hsize, by simp only; omega⟩, ?_, ?_⟩
    · rw [readUvarint_size hr, List.length_append, List.length_append]
      exact Nat.le_add_right ..
    · rw [readUvarint_size hr]
      exact (Words.slice_append_left v m rest).symm

end

/-! ### Fields -/

section
variable {body pre post b : Bytes} {want n fuel i : Nat} {x : Num}

theorem readUvarint_gt (body : Bytes) (i : Nat) : i < (readUvarint body i).2 := by
  rw [readUvarint]
  rcases hr : Words.read (body.drop i) with _ | r
  · rw [readGroups_of_none hr]
    omega
  · rw [readGroups_size hr]
    have := (Words.read_size hr).1
    omega

/-- A number, and a skip to it, that goes on from `i` or leaves the body. -/
def Past (body : Bytes) (i : Nat) (x : Num) : Prop := ∀ n, x = .fin n → i < n ∨ body.length ≤ n

theorem past_add (hlen : body.length < 2 ^ 53) (hi : i < n) (len : Num) : Past body i ((Num.fin n).add len) := by
  cases len with
  | fin k =>
    intro m hm
    rcases Nat.lt_or_ge (n + k) (2 ^ 53) with hlt | hge
    · rw [Num.add, Num.of_lt hlt] at hm
      cases hm
      exact .inl (by omega)
    · exact .inr (hlen.le.trans (Num.big_of hge m hm))
  | inf => exact fun _ h => by cases h
  | nan => exact fun _ h => by cases h

/-- The scan ends: every field takes it on. -/
theorem extractField_ends (hlen : body.length < 2 ^ 53) (hfuel : ∀ i, x = .fin i → body.length < i + fuel) (hpos : 0 < fuel) :
    ∃ r, extractField body want fuel x = some r := by
  induction fuel generalizing x with
  | zero => cases hpos
  | succ fuel ih =>
    cases x with
    | inf => exact ⟨none, rfl⟩
    | nan => exact ⟨none, rfl⟩
    | fin i =>
      have hi := hfuel i rfl
      by_cases hin : i < body.length
      · have hnext : ∀ y, Past body i y → ∃ r, extractField body want fuel y = some r := by
          intro y hy
          refine ih (fun n hn => ?_) (by omega)
          rcases hy n hn with h | h <;> omega
        have htag := readUvarint_gt body i
        have hskip := readUvarint_gt body (readUvarint body i).2
        rw [extractField, if_pos hin]
        dsimp only
        split
        · exact hnext _ fun n hn => .inl (by cases hn; omega)
        · split
          · exact ⟨_, rfl⟩
          · exact hnext _ (past_add hlen (by omega) _)
        · exact hnext _ fun n hn => .inl (by cases hn; omega)
        · exact hnext _ fun n hn => .inl (by cases hn; omega)
        · exact ⟨none, rfl⟩
      · rw [extractField, if_neg hin]
        exact ⟨none, rfl⟩

/-- A number in the middle of a body. -/
theorem readUvarint_put : (readUvarint (pre ++ (Words.put n ++ post)) pre.length).2 = pre.length + (Words.put n).length ∧
    (n < 2 ^ 53 → (readUvarint (pre ++ (Words.put n ++ post)) pre.length).1 = .fin n) := by
  have hr := Words.read_put n post
  rw [readUvarint, List.drop_left]
  refine ⟨readGroups_size hr, fun hn => ?_⟩
  have hsize : (Words.put n).length ≤ 8 := Words.put_length_le (k := 7) (hn.trans (by decide))
  have := (readGroups_value (a := 0) (k := 0) (i := pre.length) hr (by decide)).1 ⟨by simp only; omega, by simpa using hn⟩
  simpa using this

theorem put_pos : 0 < (Words.put n).length := by
  rw [Words.put]
  split <;> simp

/-- A tag in the middle of a body. -/
theorem readUvarint_tag (number : Fin (2 ^ 29)) {wire : Nat} (hwire : wire < 8)
    (hbody : body = pre ++ (Words.put (number * 8 + wire) ++ post)) :
    pre.length < body.length ∧ (readUvarint body pre.length).2 = (pre ++ Words.put (number * 8 + wire)).length ∧
      (readUvarint body pre.length).1.toUint32 / 2 ^ 3 = number ∧ (readUvarint body pre.length).1.toUint32 % 8 = wire := by
  have hnumber := number.2
  obtain ⟨hnext, htag⟩ := @readUvarint_put pre post (number * 8 + wire)
  have hpos := @put_pos (number * 8 + wire)
  rw [← hbody] at hnext htag
  rw [htag (by omega), hnext, Num.toUint32, Nat.mod_eq_of_lt (by omega), hbody, List.length_append, List.length_append, List.length_append]
  omega

/-- A field that is not wanted is skipped, the bytes of one that is are returned. -/
theorem extractField_encode (f : Field) (hbody : body = pre ++ (f.encode ++ post)) (hlen : body.length < 2 ^ 53) :
    extractField body want (fuel + 1) (.fin pre.length) =
      match f.payload? want with
      | some b => some (some b)
      | none => extractField body want fuel (.fin (pre ++ f.encode).length) := by
  cases f with
  | varint number value =>
    rw [Field.encode, List.append_assoc] at hbody
    obtain ⟨hin, hnext, -, hwire⟩ := @readUvarint_tag body pre _ number 0 (by decide) hbody
    rw [← List.append_assoc] at hbody
    have hvalue := (@readUvarint_put (pre ++ Words.put (number * 8)) post value).1
    rw [← hbody, ← List.length_append, List.append_assoc] at hvalue
    simp only [extractField, if_pos hin, hwire, hnext, Nat.add_zero, Field.payload?, Field.encode]
    rw [hvalue]
  | fixed64 number b =>
    rw [Field.encode, List.append_assoc] at hbody
    obtain ⟨hin, hnext, -, hwire⟩ := @readUvarint_tag body pre _ number 1 (by decide) hbody
    simp only [extractField, if_pos hin, hwire, hnext, Field.payload?, Field.encode, List.length_append, b.2, Nat.add_assoc]
  | bytes number b =>
    rw [Field.encode, List.append_assoc, List.append_assoc] at hbody
    obtain ⟨hin, hnext, hfield, hwire⟩ := @readUvarint_tag body pre _ number 2 (by decide) hbody
    rw [← List.append_assoc] at hbody
    obtain ⟨hpos, hvalue⟩ := @readUvarint_put (pre ++ Words.put (number * 8 + 2)) (b ++ post) b.length
    rw [← hbody, ← List.length_append] at hpos
    rw [← hbody] at hvalue
    rw [← List.append_assoc] at hbody
    have hb : ((pre ++ Words.put (number * 8 + 2)) ++ Words.put b.length).length + b.length ≤ body.length := by
      rw [hbody]
      simp only [List.length_append]
      omega
    have hend : (Num.fin ((pre ++ Words.put (number * 8 + 2)) ++ Words.put b.length).length).add (.fin b.length) =
        .fin (((pre ++ Words.put (number * 8 + 2)) ++ Words.put b.length).length + b.length) := Num.of_lt (by omega)
    simp only [extractField, if_pos hin, hwire, hnext, hfield, hpos, hvalue (by omega), hend, Field.payload?, Field.encode]
    split
    · rw [subarray, hbody, ← List.append_assoc, Words.slice_append_left]
    · simp only [List.length_append, Nat.add_assoc]
  | fixed32 number b =>
    rw [Field.encode, List.append_assoc] at hbody
    obtain ⟨hin, hnext, -, hwire⟩ := @readUvarint_tag body pre _ number 5 (by decide) hbody
    simp only [extractField, if_pos hin, hwire, hnext, Field.payload?, Field.encode, List.length_append, b.2, Nat.add_assoc]

theorem extractField_message (fs : List Field) (hlen : (pre ++ fs.flatMap Field.encode).length < 2 ^ 53)
    (hfuel : fs.length < fuel) (hfs : fs.findSome? (Field.payload? want) = some b) :
    extractField (pre ++ fs.flatMap Field.encode) want fuel (.fin pre.length) = some (some b) := by
  induction fs generalizing pre fuel with
  | nil => cases hfs
  | cons f fs ih =>
    obtain ⟨fuel, rfl⟩ := Nat.exists_eq_succ_of_ne_zero (Nat.ne_of_gt (Nat.zero_lt_of_lt hfuel))
    rw [List.flatMap_cons] at hlen ⊢
    rw [extractField_encode f rfl hlen]
    rw [List.findSome?_cons] at hfs
    rcases hf : f.payload? want with _ | b'
    · rw [hf] at hfs
      rw [← List.append_assoc] at hlen ⊢
      exact ih hlen (by rw [List.length_cons] at hfuel; omega) hfs
    · rw [hf] at hfs
      cases hfs
      rfl

theorem length_le_encode (fs : List Field) : fs.length ≤ (fs.flatMap Field.encode).length := by
  induction fs with
  | nil => exact Nat.zero_le _
  | cons f fs ih =>
    have hpos : 0 < f.encode.length := by
      cases f <;> rw [Field.encode, List.length_append] <;> exact Nat.add_pos_left put_pos _
    rw [List.flatMap_cons, List.length_append, List.length_cons]
    omega

theorem uvarint_eq_put (h : n < 2 ^ 32) : uvarint n = Words.put n := by
  induction n using Nat.strongRecOn with
  | ind n ih =>
    rw [uvarint, Words.put]
    split
    · rw [if_neg (by omega), Nat.mod_eq_of_lt h, ih (n / 2 ^ 7) (by omega) (by omega)]
      rfl
    · rw [if_pos (by omega)]

theorem isVarint_uvarint (h : n < 2 ^ 32) : IsVarint (uvarint n) n ∧ (uvarint n).length ≤ 5 := by
  have hread := Words.read_put n []
  rw [List.append_nil] at hread
  rw [uvarint_eq_put h]
  exact ⟨hread, Words.put_length_le (k := 4) (h.trans (by decide))⟩

end

/-- What `readFrame` and `extractField` return, of buffers no longer than arrays are. -/
theorem framing :
    (∀ cs cs' : List Bytes, cs.flatten = cs'.flatten → readFrame cs = readFrame cs') ∧
    (∀ (cs : List Bytes) (m : Bytes), cs.flatten.length < 2 ^ 53 →
      (readFrame cs = some m ↔ ∃ v rest, cs.flatten = v ++ m ++ rest ∧ IsVarint v m.length ∧ v.length ≤ 147)) ∧
    (∀ n < 2 ^ 32, IsVarint (uvarint n) n ∧ (uvarint n).length ≤ 5) ∧
    (∀ (body : Bytes) (want : Nat), body.length < 2 ^ 53 → ∃ r, extractField body want (body.length + 1) (.fin 0) = some r) ∧
    ∀ (fs : List Field) (want : Nat) (b : Bytes), (fs.flatMap Field.encode).length < 2 ^ 53 →
      fs.findSome? (Field.payload? want) = some b →
      extractField (fs.flatMap Field.encode) want ((fs.flatMap Field.encode).length + 1) (.fin 0) = some (some b) := by
  refine ⟨fun cs cs' h => ?_, fun cs m hlen => ?_, fun n => isVarint_uvarint, fun body want hlen => ?_, fun fs want b hlen hfs => ?_⟩
  · rw [readFrame_eq, readFrame_eq, h]
  · rw [readFrame_eq]
    exact frame?_iff hlen
  · refine extractField_ends hlen (fun i hi => ?_) (Nat.succ_pos _)
    cases hi
    omega
  · have := length_le_encode fs
    exact @extractField_message [] b want _ fs hlen (by omega) hfs

theorem framing_record : readFrame [[3, 8], [], [1, 2, 9]] = some [8, 1, 2] := by
  refine (framing.2.1 _ _ (by decide)).2 ⟨[3], [9], rfl, by decide, by decide⟩

/-- A length of more bytes than it needs is taken. -/
theorem not_uvarint : ¬ ∀ (cs : List Bytes) (m : Bytes), readFrame cs = some m ↔ ∃ rest, cs.flatten = uvarint m.length ++ m ++ rest := by
  intro h
  have hframe : readFrame [[0x80, 0x00]] = some [] := (framing.2.1 _ _ (by decide)).2 ⟨[0x80, 0x00], [], rfl, by decide, by decide⟩
  obtain ⟨rest, hrest⟩ := (h _ _).1 hframe
  rw [List.length_nil, uvarint, if_neg (by decide)] at hrest
  cases hrest

end TrackerStream.DhtFrames
