import TrackerStream.Text

/-!
# Names of downloads (`safename.rs`)

A catalog's filename is made into one that is safe to write. Texts are the lists of their characters. The reserved names of
devices are looked for in the stem as a whole, before the trailing dots and spaces of the stem go: a name such as
`con .mod` or `con.foo.mod` gets past the check (`safe_iff`).
-/

namespace TrackerStream.Safename

def MODULE_EXTS : List (List Char) :=
  ["mod", "xm", "it", "s3m", "mptm", "mo3", "stk", "st26", "med", "tcb", "669", "amf", "ams", "c67", "dbm", "digi", "dmf", "dsm",
    "dsym", "dtm", "far", "gdm", "gt2", "ice", "imf", "ims", "itp", "j2b", "m15", "mdl", "mt2", "mtm", "mus", "nst", "okt", "plm",
    "psm", "pt36", "ptm", "sfx", "sfx2", "stm", "stp", "symmod", "ult", "umx", "wow", "xmf", "itz", "mdz", "s3z", "xmz"].map
    String.toList

def FALLBACK_EXT : List Char := "mod".toList

def RESERVED : List (List Char) :=
  ["con", "prn", "aux", "nul", "com1", "com2", "com3", "com4", "com5", "com6", "com7", "com8", "com9", "com0", "lpt1", "lpt2",
    "lpt3", "lpt4", "lpt5", "lpt6", "lpt7", "lpt8", "lpt9", "lpt0"].map String.toList

def MAX_STEM_CHARS : Nat := 100

/-- `char::is_control` -/
def isControl (c : Char) : Bool := c.toNat < 0x20 || (0x7f ≤ c.toNat && c.toNat ≤ 0x9f)

/-- The bidi and format overrides that are dropped. -/
def isBidi (c : Char) : Bool :=
  c.toNat = 0x200e || c.toNat = 0x200f || (0x202a ≤ c.toNat && c.toNat ≤ 0x202e) || (0x2066 ≤ c.toNat && c.toNat ≤ 0x2069)

def isSeparator (c : Char) : Bool := c = '/' || c = '\\'

def isDotOrSpace (c : Char) : Bool := c = '.' || c = ' '

def to_ascii_lowercase (s : List Char) : List Char := s.map Char.toLower

/-- The bytes of a text. -/
def len (s : List Char) : Nat := (s.map Char.utf8Size).sum

def rsplit_once (d : Char) (s : List Char) : Option (List Char × List Char) :=
  if d ∈ s then some ((s.rdropWhile (· ≠ d)).dropLast, s.rtakeWhile (· ≠ d)) else none

/-- The last path segment, cleaned and trimmed; empty where it carries no name at all. -/
def nameOf (raw : List Char) : List Char :=
  let base := raw.rtakeWhile fun c => !isSeparator c
  let cleaned := ((base.filter fun c => !isControl c).filter fun c => !isBidi c).map fun c => if c = ':' then '_' else c
  let trimmed := (cleaned.rdropWhile isDotOrSpace).dropWhile isWhitespace
  if trimmed = [] ∨ trimmed = ['.'] ∨ trimmed = ['.', '.'] then [] else trimmed

/-- The stem and the extension of a name. -/
def splitName (name : List Char) : List Char × List Char :=
  match rsplit_once '.' name with
  | some (s, e) => if s ≠ [] then (s, to_ascii_lowercase e) else (name, [])
  | none => (name, [])

/-- The stem, before anything is put to it, and the extension. -/
def stemOf (raw fallback_stem : List Char) : List Char :=
  if (splitName (nameOf raw)).1 = [] then fallback_stem else (splitName (nameOf raw)).1

def extOf (raw : List Char) : List Char := (splitName (nameOf raw)).2

def guardReserved (stem : List Char) : List Char := if to_ascii_lowercase stem ∈ RESERVED then '_' :: stem else stem

/-- An extension that is not kept survives as part of the stem. -/
def pushExt (stem ext : List Char) : List Char := if ext ∉ MODULE_EXTS ∧ ext ≠ [] then stem ++ '.' :: ext else stem

def finalExt (ext : List Char) : List Char := if ext ∈ MODULE_EXTS then ext else FALLBACK_EXT

/-- The reversed stem without the characters that do not fit. -/
def popWhile (ext : List Char) : List Char → List Char
  | [] => []
  | c :: rev => if len (c :: rev) + len ext + 1 > 200 then popWhile ext rev else c :: rev

def truncate (ext stem : List Char) : List Char :=
  let stem := if MAX_STEM_CHARS < stem.length then stem.take MAX_STEM_CHARS else stem
  let stem := (popWhile ext stem.reverse).reverse
  stem.rdropWhile isDotOrSpace

def safe_download_name (raw fallback_stem : List Char) : List Char :=
  let stem := pushExt (guardReserved (stemOf raw fallback_stem)) (extOf raw)
  let ext := finalExt (extOf raw)
  let stem := truncate ext stem
  let stem := if stem = [] then fallback_stem else stem
  stem ++ '.' :: ext

/-! ### What a safe name is -/

/-- No separator, stream selector, control or bidi character. -/
def allowed (c : Char) : Bool := !isSeparator c && c ≠ ':' && !isControl c && !isBidi c

/-- The device a name stands for under Win32, if it is one: the part before the first dot without trailing spaces. -/
def device (s : List Char) : List Char := to_ascii_lowercase ((s.takeWhile (· ≠ '.')).rdropWhile (· = ' '))

structure Safe (name : List Char) : Prop where
  component : name ≠ [] ∧ name ≠ ['.'] ∧ name ≠ ['.', '.']
  chars : ∀ c ∈ name, allowed c
  len_le : len name ≤ 200
  parts : ∃ stem ext, name = stem ++ '.' :: ext ∧ ext ∈ MODULE_EXTS ∧ stem ≠ [] ∧
    (∀ c ∈ stem.getLast?, ¬ isDotOrSpace c) ∧ ∀ c ∈ ext.getLast?, ¬ isDotOrSpace c
  device : device name ∉ RESERVED

/-- The text of a CID in a base of letters and digits. -/
structure IsCid (s : List Char) : Prop where
  length_ge : 8 ≤ s.length
  alphanum : ∀ c ∈ s, c.isAlphanum

example : safe_download_name "CON".toList "bafyfallback".toList = "_CON.mod".toList := by decide
example : safe_download_name "song.mod:evil.exe".toList "bafyfallback".toList = "song.mod_evil.exe.mod".toList := by decide
example : safe_download_name "..".toList "bafyfallback".toList = "bafyfallback.mod".toList := by decide

/-! ### Characters -/

section
variable {c : Char} {s t e : List Char}

theorem char_eq_iff {d : Char} : c = d ↔ c.toNat = d.toNat := ⟨fun h => h ▸ rfl, Char.toNat_inj.1⟩

theorem isAlphanum_iff : c.isAlphanum ↔
    65 ≤ c.toNat ∧ c.toNat ≤ 90 ∨ 97 ≤ c.toNat ∧ c.toNat ≤ 122 ∨ 48 ≤ c.toNat ∧ c.toNat ≤ 57 := by
  simp only [Char.isAlphanum, Char.isAlpha, Char.isUpper, Char.isLower, Char.isDigit, Bool.or_eq_true, decide_eq_true_eq,
    Bool.and_eq_true, UInt32.le_iff_toNat_le, ge_iff_le, or_assoc]
  rfl

theorem allowed_iff : allowed c ↔ c.toNat ≠ 47 ∧ c.toNat ≠ 92 ∧ c.toNat ≠ 58 ∧ ¬ isControl c ∧ ¬ isBidi c := by
  simp only [allowed, isSeparator, char_eq_iff, ne_eq, Bool.and_eq_true, Bool.not_eq_true', Bool.or_eq_false_iff,
    Bool.not_eq_true, decide_not, decide_eq_false_iff_not, and_assoc]
  rfl

theorem allowed_of_isAlphanum (h : c.isAlphanum) : allowed c := by
  rw [isAlphanum_iff] at h
  rw [allowed_iff]
  simp only [isControl, isBidi, Bool.or_eq_true, Bool.and_eq_true, decide_eq_true_eq]
  omega

theorem not_isDotOrSpace_of_isAlphanum (h : c.isAlphanum) : isDotOrSpace c = false := by
  rw [isAlphanum_iff] at h
  simp only [isDotOrSpace, char_eq_iff, Bool.or_eq_false_iff, decide_eq_false_iff_not]
  refine ⟨fun h' => ?_, fun h' => ?_⟩ <;> rw [h'] at h <;> revert h <;> decide

theorem isWhitespace_of_isAlphanum (h : c.isAlphanum) : isWhitespace c = false :=
  isWhitespace_of_printable (by rw [isAlphanum_iff] at h; omega)

theorem utf8Size_of_isAlphanum (h : c.isAlphanum) : c.utf8Size = 1 := by
  rw [isAlphanum_iff] at h
  refine Char.utf8Size_eq_one_iff.2 (UInt32.le_iff_toNat_le.2 ?_)
  change c.toNat ≤ 127
  omega

theorem isAlphanum_of_toLower (h : c.toLower.isAlphanum) : c.isAlphanum := by
  by_cases hu : c.isUpper
  · simp [Char.isAlphanum, Char.isAlpha, hu]
  · rwa [Char.toLower_eq_of_not_isUpper hu] at h

theorem allowed_toLower (h : allowed c) : allowed c.toLower := by
  by_cases hu : c.isUpper
  · refine allowed_of_isAlphanum ?_
    rw [Char.isAlphanum, Char.isAlpha_toLower_eq_isAlpha]
    simp [Char.isAlpha, hu]
  · rwa [Char.toLower_eq_of_not_isUpper hu]

theorem exts (h : e ∈ MODULE_EXTS) : to_ascii_lowercase e = e ∧ e ≠ [] ∧ len e ≤ 6 ∧ ∀ c ∈ e, c.isAlphanum := by
  have hall : (MODULE_EXTS.all fun e => to_ascii_lowercase e == e && e != [] && len e ≤ 6 && e.all Char.isAlphanum) = true := by
    decide
  simpa [and_assoc] using List.all_eq_true.1 hall e h

theorem finalExt_mem : finalExt e ∈ MODULE_EXTS := by
  unfold finalExt
  split
  · assumption
  · decide

theorem reserved (h : s ∈ RESERVED) : s.length ≤ 4 ∧ s ≠ [] ∧ s.head? ≠ some '_' ∧ ∀ c ∈ s, c.isAlphanum := by
  have hall : (RESERVED.all fun s => s.length ≤ 4 && s != [] && s.head? != some '_' && s.all Char.isAlphanum) = true := by decide
  simpa [and_assoc] using List.all_eq_true.1 hall s h

@[simp] theorem len_append : len (s ++ t) = len s + len t := by rw [len, List.map_append, List.sum_append]; rfl

@[simp] theorem len_cons : len (c :: s) = c.utf8Size + len s := rfl

theorem len_of_ascii (h : ∀ c ∈ s, c.utf8Size = 1) : len s = s.length := by
  rw [len, List.map_congr_left h, List.map_const', List.sum_replicate, smul_eq_mul, Nat.mul_one]

end

/-! ### The stem -/

/-- What the stem is at every step: allowed, and no white space before it. -/
structure Stem (s : List Char) : Prop where
  chars : ∀ c ∈ s, allowed c
  head : ∀ c ∈ s.head?, isWhitespace c = false

section
variable {raw f s t e : List Char}

theorem head?_of_start {α : Type} {s t : List α} (h : s <+: t) (hs : s ≠ []) : s.head? = t.head? := by
  obtain ⟨r, rfl⟩ := h
  rw [List.head?_append_of_ne_nil _ hs]

theorem Stem.of_start (h : Stem t) (hp : s <+: t) : Stem s := by
  refine ⟨fun c hc => h.chars c (hp.subset hc), fun c hc => h.head c ?_⟩
  rwa [← head?_of_start hp]
  rintro rfl
  cases hc

theorem Stem.append (h : Stem s) (hs : s ≠ []) (ht : ∀ c ∈ t, allowed c) : Stem (s ++ t) := by
  refine ⟨fun c hc => (List.mem_append.1 hc).elim (h.chars c) (ht c), fun c hc => h.head c ?_⟩
  rwa [List.head?_append_of_ne_nil _ hs] at hc

theorem Stem.of_isAlphanum (h : ∀ c ∈ s, c.isAlphanum) : Stem s :=
  ⟨fun c hc => allowed_of_isAlphanum (h c hc), fun c hc => isWhitespace_of_isAlphanum (h c (List.mem_of_mem_head? hc))⟩

theorem nameOf_stem (raw : List Char) : Stem (nameOf raw) := by
  unfold nameOf
  dsimp only
  split
  · exact ⟨by simp, by simp⟩
  · constructor
    · intro c hc
      have hmem := (List.rdropWhile_prefix _ _).subset ((List.dropWhile_suffix _).subset hc)
      obtain ⟨d, hd, rfl⟩ := List.mem_map.1 hmem
      obtain ⟨hd, hbidi⟩ := List.mem_filter.1 hd
      obtain ⟨hd, hcontrol⟩ := List.mem_filter.1 hd
      have hsep := List.mem_rtakeWhile_imp hd
      split
      · decide
      · rename_i hcolon
        rw [allowed, hsep, hcontrol, hbidi, decide_eq_true hcolon]
        rfl
    · generalize List.rdropWhile isDotOrSpace _ = cleaned
      intro c hc
      have hhead := cleaned.head?_dropWhile_not isWhitespace
      rwa [Option.mem_def.1 hc] at hhead

theorem nameOf_eq_self (hs : Stem s) (hne : s ≠ []) (hlast : ∀ c ∈ s.getLast?, ¬ isDotOrSpace c) : nameOf s = s := by
  have hbase : (s.rtakeWhile fun c => !isSeparator c) = s := by
    rw [List.rtakeWhile_eq_self_iff]
    intro c hc
    have := hs.chars c hc
    rw [allowed, Bool.and_eq_true, Bool.and_eq_true, Bool.and_eq_true] at this
    exact this.1.1.1
  have hclean : (((s.filter fun c => !isControl c).filter fun c => !isBidi c).map fun c => if c = ':' then '_' else c) = s := by
    have hall : ∀ c ∈ s, (!isControl c) = true ∧ (!isBidi c) = true ∧ c ≠ ':' := by
      intro c hc
      have := hs.chars c hc
      simp only [allowed, Bool.and_eq_true, decide_eq_true_eq] at this
      exact ⟨this.1.2, this.2, this.1.1.2⟩
    rw [List.filter_eq_self.2 fun c hc => (hall c hc).1, List.filter_eq_self.2 fun c hc => (hall c hc).2.1]
    exact (List.map_congr_left fun c hc => if_neg (hall c hc).2.2).trans (List.map_id s)
  have hend : s.rdropWhile isDotOrSpace = s := by
    rw [List.rdropWhile_eq_self_iff]
    exact fun hl => hlast _ (List.getLast?_eq_some_getLast hl)
  have hstart : s.dropWhile isWhitespace = s := by
    rw [List.dropWhile_eq_self_iff]
    intro hl
    rw [hs.head _ (List.head?_eq_getElem? ▸ List.getElem?_eq_getElem hl)]
    exact Bool.false_ne_true
  unfold nameOf
  dsimp only
  rw [hbase, hclean, hend, hstart, if_neg]
  rintro (rfl | rfl | rfl)
  · exact hne rfl
  · exact hlast '.' rfl rfl
  · exact hlast '.' rfl rfl

/-! ### The name taken apart -/

theorem rdropWhile_append_of_pos {p : Char → Bool} (h : ∀ c ∈ t, p c) : (s ++ t).rdropWhile p = s.rdropWhile p := by
  rw [List.rdropWhile, List.reverse_append, List.dropWhile_append_of_pos (by simpa using h), List.rdropWhile]

theorem rtakeWhile_append_of_pos {p : Char → Bool} (h : ∀ c ∈ t, p c) : (s ++ t).rtakeWhile p = s.rtakeWhile p ++ t := by
  rw [List.rtakeWhile, List.reverse_append, List.takeWhile_append_of_pos (by simpa using h), List.reverse_append,
    List.reverse_reverse, List.rtakeWhile]

theorem ne_dot (h : '.' ∉ s) : ∀ c ∈ s, decide (c ≠ '.') = true := fun _ hc => decide_eq_true fun hdot => h (hdot ▸ hc)

theorem rsplit_once_append (he : '.' ∉ e) : rsplit_once '.' (s ++ '.' :: e) = some (s, e) := by
  have hall := ne_dot he
  rw [rsplit_once, if_pos (by simp), List.append_cons, rdropWhile_append_of_pos hall, rtakeWhile_append_of_pos hall,
    List.rdropWhile_concat_neg _ _ _ (by simp), List.rtakeWhile_concat_neg _ _ _ (by simp), List.dropLast_concat, List.nil_append]

theorem splitName_append (hs : s ≠ []) (he : '.' ∉ e) : splitName (s ++ '.' :: e) = (s, to_ascii_lowercase e) := by
  rw [splitName, rsplit_once_append he]
  exact if_pos hs

theorem rsplit_once_eq_some (h : rsplit_once '.' s = some (t, e)) : s = t ++ '.' :: e := by
  unfold rsplit_once at h
  split at h
  · rename_i hmem
    obtain ⟨rfl, rfl⟩ := Prod.mk.inj (Option.some.inj h)
    have hne : s.rdropWhile (· ≠ '.') ≠ [] := by
      rw [ne_eq, List.rdropWhile_eq_nil_iff]
      exact fun hall => by simpa using hall _ hmem
    have hlast := List.rdropWhile_last_not (· ≠ '.') s hne
    have hdot : (s.rdropWhile (· ≠ '.')).getLast hne = '.' := by simpa using hlast
    have hcat := List.dropLast_append_getLast hne
    rw [hdot] at hcat
    rw [List.append_cons, hcat, List.rdropWhile_append_rtakeWhile]
  · cases h

/-- The stem is a beginning of the name, the extension is of its characters. -/
theorem splitName_spec (s : List Char) : (splitName s).1 <+: s ∧ ((splitName s).1 = [] → s = []) ∧
    ∀ c ∈ (splitName s).2, ∃ d ∈ s, c = d.toLower := by
  unfold splitName
  split
  · rename_i t e hsplit
    have hs := rsplit_once_eq_some hsplit
    split
    · rename_i hne
      refine ⟨⟨'.' :: e, hs.symm⟩, fun h => absurd h hne, fun c hc => ?_⟩
      obtain ⟨d, hd, rfl⟩ := List.mem_map.1 hc
      exact ⟨d, by simp [hs, hd], rfl⟩
    · exact ⟨List.prefix_refl _, id, by simp⟩
  · exact ⟨List.prefix_refl _, id, by simp⟩

theorem stemOf_stem (hf : IsCid f) : Stem (stemOf raw f) ∧ stemOf raw f ≠ [] := by
  unfold stemOf
  split
  · refine ⟨.of_isAlphanum hf.alphanum, ?_⟩
    rintro rfl
    exact absurd hf.length_ge (by decide)
  · rename_i hne
    exact ⟨(nameOf_stem raw).of_start (splitName_spec _).1, hne⟩

theorem guardReserved_stem (hs : Stem s) (hne : s ≠ []) : Stem (guardReserved s) ∧ guardReserved s ≠ [] := by
  unfold guardReserved
  split
  · refine ⟨⟨?_, ?_⟩, by simp⟩
    · intro c hc
      rcases List.mem_cons.1 hc with rfl | hc
      · decide
      · exact hs.chars c hc
    · rintro c ⟨⟩
      decide
  · exact ⟨hs, hne⟩

theorem pushExt_stem (hs : Stem s) (hne : s ≠ []) : Stem (pushExt s (extOf raw)) ∧ s <+: pushExt s (extOf raw) := by
  unfold pushExt
  split
  · refine ⟨hs.append hne fun c hc => ?_, List.prefix_append ..⟩
    rcases List.mem_cons.1 hc with rfl | hc
    · decide
    · obtain ⟨d, hd, rfl⟩ := (splitName_spec _).2.2 c hc
      exact allowed_toLower ((nameOf_stem raw).chars d hd)
  · exact ⟨hs, List.prefix_refl _⟩

/-! ### The stem cut short -/

/-- What is left is short enough, and long where anything went. -/
theorem popWhile_spec (he : len e ≤ 6) : ∃ r, s = r ++ popWhile e s ∧ len (popWhile e s) + len e + 1 ≤ 200 ∧
    (r = [] ∨ 190 ≤ len (popWhile e s)) := by
  induction s with
  | nil => exact ⟨[], rfl, by rw [popWhile, len, List.map_nil, List.sum_nil]; omega, .inl rfl⟩
  | cons c s ih =>
    unfold popWhile
    split
    · rename_i hlong
      obtain ⟨r, hr, hle, hcase⟩ := ih
      refine ⟨c :: r, by rw [List.cons_append, ← hr], hle, .inr ?_⟩
      rcases hcase with rfl | hge
      · rw [← List.nil_append (popWhile e s), ← hr]
        have := Char.utf8Size_le_four c
        rw [len_cons] at hlong
        omega
      · exact hge
    · exact ⟨[], rfl, by omega, .inl rfl⟩

theorem len_reverse : len s.reverse = len s := by
  rw [len, List.map_reverse, List.sum_reverse, len]

/-- The first 100 characters, without those at the end that do not fit, without dots and spaces. -/
theorem truncate_spec (he : len e ≤ 6) : ∃ p r, s.take 100 = p ++ r ∧ truncate e s = p.rdropWhile isDotOrSpace ∧
    len p + len e + 1 ≤ 200 ∧ (r = [] ∨ 190 ≤ len p) := by
  have htake : (if MAX_STEM_CHARS < s.length then s.take MAX_STEM_CHARS else s) = s.take 100 := by
    split
    · rfl
    · rename_i hle
      exact (List.take_of_length_le (Nat.le_of_not_lt hle)).symm
  obtain ⟨r, hr, hle, hcase⟩ := popWhile_spec (s := (s.take 100).reverse) he
  refine ⟨(popWhile e (s.take 100).reverse).reverse, r.reverse, ?_, ?_, ?_, ?_⟩
  · rw [← List.reverse_append, ← hr, List.reverse_reverse]
  · rw [truncate, htake]
  · rwa [len_reverse]
  · rwa [len_reverse, List.reverse_eq_nil_iff]

/-! ### The device of a stem -/

theorem takeWhile_eq_self (h : '.' ∉ s) : s.takeWhile (· ≠ '.') = s := List.takeWhile_eq_self_iff.2 (ne_dot h)

theorem device_append_of_mem (h : '.' ∈ s) : device (s ++ t) = device s := by
  rw [device, List.takeWhile_append, if_neg, device]
  intro hlen
  have hall := (List.takeWhile_prefix (fun c : Char => decide (c ≠ '.'))).eq_of_length hlen
  rw [List.takeWhile_eq_self_iff] at hall
  simpa using hall _ h

theorem device_of_not_mem (h : '.' ∉ s) : device (s ++ t) = to_ascii_lowercase ((s ++ t.takeWhile (· ≠ '.')).rdropWhile (· = ' ')) := by
  rw [device, List.takeWhile_append_of_pos (ne_dot h)]

theorem device_dot : device (s ++ '.' :: t) = device s := by
  by_cases h : '.' ∈ s
  · exact device_append_of_mem h
  · rw [device_of_not_mem h, List.takeWhile_cons_of_neg (by simp), List.append_nil, device, takeWhile_eq_self h]

theorem device_rdropWhile : device (s.rdropWhile isDotOrSpace) = device s := by
  have hs := List.rdropWhile_append_rtakeWhile (p := isDotOrSpace) (l := s)
  by_cases h : '.' ∈ s.rdropWhile isDotOrSpace
  · rw [← device_append_of_mem (t := s.rtakeWhile isDotOrSpace) h, hs]
  · have hspace : ∀ c ∈ (s.rtakeWhile isDotOrSpace).takeWhile (· ≠ '.'), decide (c = ' ') = true := by
      intro c hc
      have hdot := List.mem_takeWhile_imp hc
      have hany := List.mem_rtakeWhile_imp ((List.takeWhile_prefix _).subset hc)
      simpa [isDotOrSpace, of_decide_eq_true hdot] using hany
    conv_rhs => rw [← hs, device_of_not_mem h, rdropWhile_append_of_pos hspace]
    rw [device, takeWhile_eq_self h]

/-- A device's name takes one byte for each character. -/
theorem utf8Size_of_device (h : device s ∈ RESERVED) : ∀ c ∈ s.takeWhile (· ≠ '.'), c.utf8Size = 1 := by
  intro c hc
  rw [← List.rdropWhile_append_rtakeWhile (p := fun c => decide (c = ' ')) (l := s.takeWhile (· ≠ '.'))] at hc
  rcases List.mem_append.1 hc with hc | hc
  · exact utf8Size_of_isAlphanum (isAlphanum_of_toLower ((reserved h).2.2.2 _ (List.mem_map_of_mem hc)))
  · have hspace : c = ' ' := by simpa using List.mem_rtakeWhile_imp hc
    rw [hspace]
    decide

/-- Cutting the stem by its bytes goes past any device it stands for. -/
theorem device_truncate (he : len e ≤ 6) : device (truncate e s) ∈ RESERVED ↔ device (s.take 100) ∈ RESERVED := by
  obtain ⟨p, r, hsplit, heq, -, hcase⟩ := truncate_spec (s := s) he
  rw [heq, device_rdropWhile, hsplit]
  rcases hcase with rfl | hlong
  · rw [List.append_nil]
  · by_cases hdot : '.' ∈ p
    · rw [device_append_of_mem hdot]
    · have hlen : p.length ≤ 100 := by
        have := congrArg List.length hsplit
        rw [List.length_append, List.length_take] at this
        omega
      have hnot : ∀ t, device (p ++ t) ∉ RESERVED := by
        intro t h
        have hsize := utf8Size_of_device h
        rw [List.takeWhile_append_of_pos (ne_dot hdot)] at hsize
        have := len_of_ascii fun c hc => hsize c (List.mem_append_left _ hc)
        omega
      have hp := hnot []
      rw [List.append_nil] at hp
      exact iff_of_false hp (hnot r)

theorem truncate_eq_nil_iff (he : len e ≤ 6) : truncate e s = [] ↔ ∀ c ∈ s.take 100, isDotOrSpace c := by
  obtain ⟨p, r, hsplit, heq, -, hcase⟩ := truncate_spec (s := s) he
  rw [heq, List.rdropWhile_eq_nil_iff, hsplit]
  refine ⟨fun h => ?_, fun h c hc => h c (List.mem_append_left _ hc)⟩
  rcases hcase with rfl | hlong
  · rwa [List.append_nil]
  · have hsize : len p = p.length := len_of_ascii fun c hc => by
      have := h c hc
      simp only [isDotOrSpace, Bool.or_eq_true, decide_eq_true_eq] at this
      rcases this with rfl | rfl <;> decide
    have := congrArg List.length hsplit
    rw [List.length_append, List.length_take] at this
    omega

theorem truncate_start (he : len e ≤ 6) : truncate e s <+: s := by
  obtain ⟨p, r, hsplit, heq, -⟩ := truncate_spec (s := s) he
  have hp : p <+: s := (hsplit ▸ List.prefix_append p r : p <+: s.take 100).trans (List.take_prefix ..)
  rw [heq]
  exact (List.rdropWhile_prefix _ _).trans hp

theorem to_ascii_lowercase_of_reserved (h : to_ascii_lowercase s ∈ RESERVED) : (∀ c ∈ s, c.isAlphanum) ∧ s ≠ [] := by
  obtain ⟨-, hne, -, halnum⟩ := reserved h
  refine ⟨fun c hc => isAlphanum_of_toLower (halnum _ (List.mem_map_of_mem hc)), ?_⟩
  rintro rfl
  exact hne rfl

theorem not_mem_of_isAlphanum {d : Char} (hd : d.isAlphanum = false) (h : ∀ c ∈ s, c.isAlphanum) : d ∉ s := by
  intro hmem
  rw [h d hmem] at hd
  cases hd

theorem device_of_isAlphanum (h : ∀ c ∈ s, c.isAlphanum) : device s = to_ascii_lowercase s := by
  rw [device, takeWhile_eq_self (not_mem_of_isAlphanum rfl h), List.rdropWhile_eq_self_iff.2]
  intro hl hspace
  exact not_mem_of_isAlphanum (d := ' ') rfl h (of_decide_eq_true hspace ▸ List.getLast_mem hl)

/-- An underscore makes it no device. -/
theorem device_underscore : device ('_' :: s) ∉ RESERVED := by
  intro h
  have hne : ('_' :: s.takeWhile (· ≠ '.')).rdropWhile (· = ' ') ≠ [] := by
    rw [ne_eq, List.rdropWhile_eq_nil_iff]
    exact fun hall => absurd (hall '_' (by simp)) (by decide)
  refine (reserved h).2.2.1 ?_
  rw [device, List.takeWhile_cons_of_pos (by decide), to_ascii_lowercase, List.head?_map,
    head?_of_start (List.rdropWhile_prefix _ _) hne]
  rfl

/-! ### The name put together -/

theorem stem_of_cid (hf : IsCid f) : Stem f := .of_isAlphanum hf.alphanum

theorem device_of_cid (hf : IsCid f) : device f ∉ RESERVED := by
  rw [device_of_isAlphanum hf.alphanum]
  intro h
  have := (reserved h).1
  rw [to_ascii_lowercase, List.length_map] at this
  have := hf.length_ge
  omega

theorem cid_ne_nil (hf : IsCid f) : f ≠ [] := by
  rintro rfl
  exact absurd hf.length_ge (by decide)

/-- The last steps: a stem in its final form with a known extension. -/
structure Final (s e : List Char) : Prop extends Stem s where
  ne_nil : s ≠ []
  last : ∀ c ∈ s.getLast?, ¬ isDotOrSpace c
  ext : e ∈ MODULE_EXTS

theorem Final.chars_append (h : Final s e) : ∀ c ∈ s ++ '.' :: e, allowed c := by
  intro c hc
  rcases List.mem_append.1 hc with hc | hc
  · exact h.chars c hc
  · rcases List.mem_cons.1 hc with rfl | hc
    · decide
    · exact allowed_of_isAlphanum ((exts h.ext).2.2.2 c hc)

theorem Final.safe (h : Final s e) (hlen : len s + len e + 1 ≤ 200) (hdevice : device s ∉ RESERVED) : Safe (s ++ '.' :: e) where
  component := by
    have hlen : 2 < (s ++ '.' :: e).length := by
      have := List.length_pos_of_ne_nil h.ne_nil
      have := List.length_pos_of_ne_nil (exts h.ext).2.1
      rw [List.length_append, List.length_cons]
      omega
    refine ⟨?_, ?_, ?_⟩ <;> intro heq <;> rw [heq] at hlen <;> simp at hlen
  chars := h.chars_append
  len_le := by
    rw [len_append, len_cons]
    have : '.'.utf8Size = 1 := by decide
    omega
  parts := ⟨s, e, rfl, h.ext, h.ne_nil, h.last, fun c hc =>
    by simp [not_isDotOrSpace_of_isAlphanum ((exts h.ext).2.2.2 c (List.mem_of_getLast? hc))]⟩
  device := by rwa [device_dot]

/-- A name in its final form: only the length of its stem is looked at again. -/
theorem Final.again (h : Final s e) (hdevice : device s ∉ RESERVED) :
    safe_download_name (s ++ '.' :: e) f = (if truncate e s = [] then f else truncate e s) ++ '.' :: e := by
  have hdot : '.' ∉ e := not_mem_of_isAlphanum rfl (exts h.ext).2.2.2
  have hname : nameOf (s ++ '.' :: e) = s ++ '.' :: e := by
    refine nameOf_eq_self (h.toStem.append h.ne_nil fun c hc => h.chars_append c (List.mem_append_right _ hc)) (by simp) fun c hc => ?_
    rw [List.getLast?_append_of_ne_nil _ (by simp), List.getLast?_cons_of_ne_nil (exts h.ext).2.1] at hc
    simp [not_isDotOrSpace_of_isAlphanum ((exts h.ext).2.2.2 c (List.mem_of_getLast? hc))]
  have hsplit : splitName (nameOf (s ++ '.' :: e)) = (s, e) := by
    rw [hname, splitName_append h.ne_nil hdot, (exts h.ext).1]
  have hstem : guardReserved (stemOf (s ++ '.' :: e) f) = s := by
    rw [stemOf, hsplit, if_neg h.ne_nil, guardReserved, if_neg]
    intro hres
    exact hdevice (device_of_isAlphanum (to_ascii_lowercase_of_reserved hres).1 ▸ hres)
  rw [safe_download_name, hstem, extOf, hsplit]
  simp only [pushExt, finalExt, h.ext, not_true_eq_false, false_and, if_false, if_true]

theorem truncate_eq_self (h : Final s e) (hlength : s.length ≤ 100) (hlen : len s + len e + 1 ≤ 200) : truncate e s = s := by
  have hpop : popWhile e s.reverse = s.reverse := by
    rcases hs : s.reverse with _ | ⟨c, rev⟩
    · rfl
    · rw [← len_reverse, hs] at hlen
      rw [popWhile, if_neg (Nat.not_lt.2 hlen)]
  rw [truncate, if_neg (by exact Nat.not_lt.2 hlength), hpop, List.reverse_reverse, List.rdropWhile_eq_self_iff]
  exact fun hl => h.last _ (List.getLast?_eq_some_getLast hl)

theorem length_truncate (he : len e ≤ 6) : (truncate e s).length ≤ 100 := by
  obtain ⟨p, r, hsplit, heq, -⟩ := truncate_spec (s := s) he
  have := congrArg List.length hsplit
  have hle := (List.rdropWhile_prefix isDotOrSpace p).length_le
  rw [List.length_append, List.length_take] at this
  rw [heq]
  omega

theorem truncate_final (he : e ∈ MODULE_EXTS) (hs : Stem s) (hne : truncate e s ≠ []) :
    Final (truncate e s) e ∧ len (truncate e s) + len e + 1 ≤ 200 := by
  obtain ⟨p, r, hsplit, heq, hlen, -⟩ := truncate_spec (s := s) (exts he).2.2.1
  refine ⟨⟨hs.of_start (truncate_start (exts he).2.2.1), hne, fun c hc => ?_, he⟩, ?_⟩
  · rw [heq] at hne hc
    rw [List.getLast?_eq_some_getLast hne, Option.mem_some_iff] at hc
    exact hc ▸ List.rdropWhile_last_not _ _ hne
  · have hcat := congrArg len (List.rdropWhile_append_rtakeWhile (p := isDotOrSpace) (l := p))
    rw [len_append] at hcat
    rw [heq]
    omega

/-- The stem and the extension that is not kept. -/
def fullStem (raw f : List Char) : List Char := pushExt (stemOf raw f) (extOf raw)

/-- The stem as a whole is reserved, or what Win32 takes of its first 100 characters is not; and those are not all dots and
spaces where the stem put in for them is longer. -/
def Passes (raw f : List Char) : Prop :=
  (to_ascii_lowercase (stemOf raw f) ∈ RESERVED ∨ device ((fullStem raw f).take 100) ∉ RESERVED) ∧
    (f.length ≤ 100 ∨ ∃ c ∈ (fullStem raw f).take 100, ¬ isDotOrSpace c)

theorem pushExt_cons {c : Char} : pushExt (c :: s) e = c :: pushExt s e := by
  unfold pushExt
  split <;> rfl

/-- The stem before it is cut short: the underscore is all that the check makes different. -/
theorem guarded_spec (he : len e ≤ 6) :
    (device (truncate e (pushExt (guardReserved (stemOf raw f)) (extOf raw))) ∈ RESERVED ↔
      ¬ (to_ascii_lowercase (stemOf raw f) ∈ RESERVED ∨ device ((fullStem raw f).take 100) ∉ RESERVED)) ∧
    (truncate e (pushExt (guardReserved (stemOf raw f)) (extOf raw)) = [] ↔ ¬ ∃ c ∈ (fullStem raw f).take 100, ¬ isDotOrSpace c) := by
  rw [device_truncate he, truncate_eq_nil_iff he, guardReserved]
  split
  · rename_i hres
    rw [pushExt_cons, List.take_succ_cons]
    refine ⟨iff_of_false device_underscore (not_not_intro (.inl hres)), iff_of_false ?_ (not_not_intro ?_)⟩
    · exact fun hall => absurd (hall '_' (by simp)) (by decide)
    · obtain ⟨halnum, hne⟩ := to_ascii_lowercase_of_reserved hres
      obtain ⟨c, s, hs⟩ := List.exists_cons_of_ne_nil hne
      refine ⟨c, ?_, ?_⟩
      · rw [fullStem, hs, pushExt_cons, List.take_succ_cons]
        exact List.mem_cons_self ..
      · rw [not_isDotOrSpace_of_isAlphanum (halnum c (by simp [hs]))]
        exact Bool.false_ne_true
  · rename_i hres
    rw [← fullStem]
    refine ⟨by simp [hres], by push Not; rfl⟩

theorem kept_iff (h : Final s e) (hlength : s.length ≤ 100) (hlen : len s + len e + 1 ≤ 200) :
    Safe (s ++ '.' :: e) ∧ safe_download_name (s ++ '.' :: e) f = s ++ '.' :: e ↔ device s ∉ RESERVED := by
  constructor
  · intro hsafe
    have := hsafe.1.device
    rwa [device_dot] at this
  · intro hdevice
    refine ⟨h.safe hlen hdevice, ?_⟩
    rw [h.again hdevice, truncate_eq_self h hlength hlen, if_neg h.ne_nil]

theorem fallback_iff (hf : IsCid f) (he : e ∈ MODULE_EXTS) :
    Safe (f ++ '.' :: e) ∧ safe_download_name (f ++ '.' :: e) f = f ++ '.' :: e ↔ f.length ≤ 100 := by
  have hsix := (exts he).2.2.1
  have hfinal : Final f e := ⟨stem_of_cid hf, cid_ne_nil hf, fun c hc =>
    by simp [not_isDotOrSpace_of_isAlphanum (hf.alphanum c (List.mem_of_getLast? hc))], he⟩
  have hlen : len f = f.length := len_of_ascii fun c hc => utf8Size_of_isAlphanum (hf.alphanum c hc)
  constructor
  · rintro ⟨-, hagain⟩
    have hne : truncate e f ≠ [] := by
      rw [ne_eq, truncate_eq_nil_iff hsix]
      intro hall
      obtain ⟨c, s, rfl⟩ := List.exists_cons_of_ne_nil (cid_ne_nil hf)
      have := hall c (by simp)
      rw [not_isDotOrSpace_of_isAlphanum (hf.alphanum c (by simp))] at this
      cases this
    rw [hfinal.again (device_of_cid hf), if_neg hne] at hagain
    rw [← List.append_cancel_right hagain]
    exact length_truncate hsix
  · intro hlength
    exact (kept_iff hfinal hlength (by omega)).2 (device_of_cid hf)

/-- A download gets a safe name, which is not changed again, exactly where the check of the stem finds the device. -/
theorem safe_iff (raw f : List Char) (hf : IsCid f) :
    Safe (safe_download_name raw f) ∧ safe_download_name (safe_download_name raw f) f = safe_download_name raw f ↔ Passes raw f := by
  have hext := finalExt_mem (e := extOf raw)
  obtain ⟨hdevice, hnil⟩ := @guarded_spec raw f _ (exts hext).2.2.1
  obtain ⟨hs, hne⟩ := @stemOf_stem raw f hf
  obtain ⟨hs, hne⟩ := guardReserved_stem hs hne
  have hstem := (@pushExt_stem raw _ hs hne).1
  rw [safe_download_name]
  by_cases hcut : truncate (finalExt (extOf raw)) (pushExt (guardReserved (stemOf raw f)) (extOf raw)) = []
  · have hclean : to_ascii_lowercase (stemOf raw f) ∈ RESERVED ∨ device ((fullStem raw f).take 100) ∉ RESERVED := by
      rw [← not_not (a := _ ∨ _), ← hdevice, hcut]
      decide
    rw [if_pos hcut, fallback_iff hf hext, Passes]
    exact ⟨fun h => ⟨hclean, .inl h⟩, fun h => h.2.resolve_right (hnil.1 hcut)⟩
  · obtain ⟨hfinal, hlen⟩ := truncate_final hext hstem hcut
    rw [if_neg hcut, kept_iff hfinal (length_truncate (exts hext).2.2.1) hlen, hdevice, not_not, Passes]
    exact ⟨fun h => ⟨h, .inr (not_not.1 fun hnot => hcut (hnil.2 hnot))⟩, And.left⟩

end

theorem isCid_bafyfallback : IsCid "bafyfallback".toList := by
  have hall : ("bafyfallback".toList.all Char.isAlphanum) = true := by decide
  exact ⟨by decide, List.all_eq_true.1 hall⟩

theorem safe_iff_chorus : Passes "chorus.exe".toList "bafyfallback".toList ∧
    Safe (safe_download_name "chorus.exe".toList "bafyfallback".toList) := by
  have hdevice : device ((fullStem "chorus.exe".toList "bafyfallback".toList).take 100) = "chorus".toList := by decide
  have hpasses : Passes "chorus.exe".toList "bafyfallback".toList := by
    refine ⟨.inr fun h => ?_, .inl (by decide)⟩
    rw [hdevice] at h
    exact absurd (reserved h).1 (by decide)
  exact ⟨hpasses, ((safe_iff _ _ isCid_bafyfallback).2 hpasses).1⟩

/-- The space goes after the check, and the first dot is not where the stem ends. -/
theorem unsafe_con : IsCid "bafyfallback".toList ∧ ¬ Safe (safe_download_name "con .mod".toList "bafyfallback".toList) ∧
    safe_download_name "con .mod".toList "bafyfallback".toList = "con.mod".toList ∧
    safe_download_name "con.mod".toList "bafyfallback".toList = "_con.mod".toList ∧
    ¬ Safe (safe_download_name "con.foo.mod".toList "bafyfallback".toList) := by
  have hcon : safe_download_name "con .mod".toList "bafyfallback".toList = "con.mod".toList := by decide
  have hfoo : safe_download_name "con.foo.mod".toList "bafyfallback".toList = "con.foo.mod".toList := by decide
  have hdevice : device "con.mod".toList = "con".toList ∧ device "con.foo.mod".toList = "con".toList := by decide
  have hres : "con".toList ∈ RESERVED := List.mem_cons_self ..
  exact ⟨isCid_bafyfallback, fun h => h.device (by rwa [hcon, hdevice.1]), hcon, by decide,
    fun h => h.device (by rwa [hfoo, hdevice.2])⟩

end TrackerStream.Safename
