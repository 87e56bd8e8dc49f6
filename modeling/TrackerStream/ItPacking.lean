import TrackerStream.SeekFormats
import TrackerStream.Words

/-!
# Packed IT patterns

A grid of cells and the ways to pack it: a cell names its channel, then which of its parts follow, and may repeat the
channel's last mask, note, instrument, volume or command in place of writing it. `decodeEvents` keeps all of these memories
but the last.
-/

namespace TrackerStream.ItPacking
open Words (le)

structure Command where
  cmd : UInt8
  param : UInt8
  cmd_ne : cmd ≠ 0
deriving DecidableEq

structure Cell where
  note : Option UInt8 := none
  ins : Option UInt8 := none
  vol : Option UInt8 := none
  command : Option Command := none
deriving DecidableEq

structure Grid where
  rows : Nat
  /-- By row and channel. -/
  cell : Nat → Nat → Cell

namespace Grid
variable (g : Grid)

/-- The instrument last named on a channel before row `r`. -/
def named (ch : Nat) : Nat → Option UInt8
  | 0 => none
  | r + 1 => (g.cell r ch).ins <|> named ch r

/-- What a cell with this command plays; an instrument stays until the next one is named. -/
def eventWith (r ch : Nat) (command : Option Command) : Option Ev :=
  if (g.cell r ch).note.isSome || command.isSome then
    some ⟨r, ch, (g.cell r ch).note.map UInt8.toNat, ((g.named ch (r + 1)).map UInt8.toNat).getD 0,
      (command.map fun k => k.cmd.toNat).getD 0, (command.map fun k => k.param.toNat).getD 0⟩
  else none

def event (r ch : Nat) : Option Ev := g.eventWith r ch (g.cell r ch).command

def events : List Ev := (List.range g.rows).flatMap fun r => (List.range 64).filterMap (g.event r)

end Grid

/-! ### Packing -/

/-- Which parts of a cell are not written but repeated. -/
structure Style where
  mask : Bool := false
  note : Bool := false
  ins : Bool := false
  vol : Bool := false
  command : Bool := false

/-- A part of a cell in the packed data. -/
inductive Part
  | absent
  | written
  | repeated
deriving DecidableEq

def part {α : Type} (last : Bool) : Option α → Part
  | none => .absent
  | some _ => if last then .repeated else .written

def Part.bit (new old : Nat) : Part → Nat
  | absent => 0
  | written => new
  | repeated => old

def maskOf (c : Cell) (s : Style) : Nat :=
  (part s.note c.note).bit 1 16 + (part s.ins c.ins).bit 2 32 + (part s.vol c.vol).bit 4 64 + (part s.command c.command).bit 8 128

/-- What is written of a part. -/
def written {α : Type} (last : Bool) (x : Option α) (bytes : α → Bytes) : Bytes := if last then [] else x.elim [] bytes

def packCell (ch : Nat) (c : Cell) (s : Style) : Bytes :=
  UInt8.ofNat (ch + 1 + if s.mask then 0 else 128) ::
    (written s.mask (some (maskOf c s)) (fun m => [UInt8.ofNat m]) ++ (written s.note c.note ([·]) ++ (written s.ins c.ins ([·]) ++
      (written s.vol c.vol ([·]) ++ written s.command c.command fun k => [k.cmd, k.param]))))

/-- What each channel has last. -/
structure Memory where
  mask : Nat → Nat
  note : Nat → Option UInt8
  ins : Nat → Option UInt8
  vol : Nat → Option UInt8
  command : Nat → Option Command

def Memory.start : Memory := ⟨fun _ => 0, fun _ => none, fun _ => none, fun _ => none, fun _ => none⟩

def Memory.after (mem : Memory) (ch : Nat) (c : Cell) (s : Style) : Memory where
  mask := Function.update mem.mask ch (maskOf c s)
  note := Function.update mem.note ch (c.note <|> mem.note ch)
  ins := Function.update mem.ins ch (c.ins <|> mem.ins ch)
  vol := Function.update mem.vol ch (c.vol <|> mem.vol ch)
  command := Function.update mem.command ch (c.command <|> mem.command ch)

section
variable (mem : Memory) (ch : Nat) (c : Cell) (s : Style)

@[simp] theorem Memory.after_mask : (mem.after ch c s).mask = Function.update mem.mask ch (maskOf c s) := rfl
@[simp] theorem Memory.after_note : (mem.after ch c s).note = Function.update mem.note ch (c.note <|> mem.note ch) := rfl
@[simp] theorem Memory.after_ins : (mem.after ch c s).ins = Function.update mem.ins ch (c.ins <|> mem.ins ch) := rfl

end

/-- What is repeated is what the channel has. -/
structure Repeats (mem : Memory) (ch : Nat) (c : Cell) (s : Style) : Prop where
  mask : s.mask = true → mem.mask ch = maskOf c s
  note : s.note = true → ∀ x, c.note = some x → mem.note ch = some x
  ins : s.ins = true → ∀ x, c.ins = some x → mem.ins ch = some x
  vol : s.vol = true → ∀ x, c.vol = some x → mem.vol ch = some x
  command : s.command = true → ∀ x, c.command = some x → mem.command ch = some x

section
variable (g : Grid)

/-- The memory behind the cells of a row. -/
def rowMemory (r : Nat) (mem : Memory) (row : List (Nat × Style)) : Memory :=
  row.foldl (fun mem x => mem.after x.1 (g.cell r x.1) x.2) mem

def packRow (r : Nat) (row : List (Nat × Style)) : Bytes := row.flatMap (fun x => packCell x.1 (g.cell r x.1) x.2) ++ [0]

/-- The rows from `r` on. -/
def packRows : Nat → List (List (Nat × Style)) → Bytes
  | _, [] => []
  | r, row :: rows => packRow g r row ++ packRows (r + 1) rows

def RowRepeats (r : Nat) : Memory → List (Nat × Style) → Prop
  | _, [] => True
  | mem, x :: row => Repeats mem x.1 (g.cell r x.1) x.2 ∧ RowRepeats r (mem.after x.1 (g.cell r x.1) x.2) row

def RowsRepeat : Nat → Memory → List (List (Nat × Style)) → Prop
  | _, _, [] => True
  | r, mem, row :: rows => RowRepeats g r mem row ∧ RowsRepeat (r + 1) (rowMemory g r mem row) rows

/-- The cells of a row, in the order of their channels, and no other cell has anything. -/
structure RowOf (r : Nat) (row : List (Nat × Style)) : Prop where
  increasing : row.Pairwise fun x y => x.1 < y.1
  ch_lt : ∀ x ∈ row, x.1 < 64
  complete : ∀ ch < 64, (∀ x ∈ row, x.1 ≠ ch) → g.cell r ch = {}

/-- A way to pack a grid. -/
structure Packing where
  rows : List (List (Nat × Style))
  length_rows : rows.length = g.rows
  rowOf : ∀ r row, rows[r]? = some row → RowOf g r row
  repeats : RowsRepeat g 0 .start rows
  rows_lt : g.rows < 2 ^ 16
  data_lt : (packRows g 0 rows).length < 2 ^ 16

end

namespace Packing
variable {g : Grid}

def data (p : Packing g) : Bytes := packRows g 0 p.rows

/-- No cell repeats a command. -/
def WritesCommands (p : Packing g) : Prop :=
  ∀ r row, p.rows[r]? = some row → ∀ x ∈ row, (g.cell r x.1).command ≠ none → x.2.command = false

end Packing

/-! ### One cell -/

def Part.isWritten (p : Part) : Bool := decide (p = .written)
def Part.isRepeated (p : Part) : Bool := decide (p = .repeated)

theorem hasBit_parts (n i v k : Part) :
    let mask := n.bit 1 16 + i.bit 2 32 + v.bit 4 64 + k.bit 8 128
    mask < 256 ∧ hasBit mask 1 = n.isWritten ∧ hasBit mask 2 = i.isWritten ∧ hasBit mask 4 = v.isWritten ∧
      hasBit mask 8 = k.isWritten ∧ hasBit mask 16 = n.isRepeated := by
  cases n <;> cases i <;> cases v <;> cases k <;> decide

theorem channel_byte {ch : Nat} (h : ch < 64) (last : Bool) :
    let cv := (UInt8.ofNat (ch + 1 + if last then 0 else 128)).toNat
    cv ≠ 0 ∧ hasBit cv 128 = !last ∧ (cv - 1) &&& 63 = ch := by
  revert last
  revert ch
  decide

theorem at?_of_drop {b rest : Bytes} {p : Nat} {x : UInt8} (h : b.drop p = x :: rest) : at? b p = some x.toNat := by
  have hx : b[p]? = some x := by
    rw [← Nat.add_zero p, ← List.getElem?_drop, h]
    rfl
  rw [at?, hx]
  rfl

theorem at0_of_drop {b rest : Bytes} {p : Nat} {x : UInt8} (h : b.drop p = x :: rest) : at0 b p = x.toNat := by
  have hx : b[p]? = some x := by
    rw [← Nat.add_zero p, ← List.getElem?_drop, h]
    rfl
  rw [at0, List.getD_eq_getElem?_getD, hx]
  rfl

theorem drop_add_length {b l rest : Bytes} {p : Nat} (h : b.drop p = l ++ rest) : b.drop (p + l.length) = rest := by
  rw [← List.drop_drop, h, List.drop_left]

theorem part_eq_written {α : Type} {last : Bool} {x : Option α} (h : (part last x).isWritten = true) :
    ∃ v, x = some v ∧ last = false := by
  cases x with
  | none => cases h
  | some v =>
    cases last with
    | true => cases h
    | false => exact ⟨v, rfl, rfl⟩

theorem part_eq_repeated {α : Type} {last : Bool} {x : Option α} (h : (part last x).isRepeated = true) :
    ∃ v, x = some v ∧ last = true := by
  cases x with
  | none => cases h
  | some v =>
    cases last with
    | true => exact ⟨v, rfl, rfl⟩
    | false => cases h

theorem part_isSome {α : Type} (last : Bool) (x : Option α) : ((part last x).isWritten || (part last x).isRepeated) = x.isSome := by
  cases x <;> cases last <;> rfl

/-- A channel's last value changes where a new one is written. -/
theorem last_part {α : Type} {last : Bool} {x m : Option α} (h : last = true → ∀ v, x = some v → m = some v) :
    (x <|> m) = if (part last x).isWritten then x else m := by
  cases x with
  | none => rfl
  | some v =>
    cases last with
    | true => exact (h rfl v rfl).symm
    | false => rfl

/-- How far a part moves the position. -/
theorem part_length {α : Type} {last : Bool} {x : Option α} (bytes : α → Bytes) {n : Nat} (hn : ∀ v, (bytes v).length = n) (p : Nat) :
    (if (part last x).isWritten then p + n else p) = p + (written last x bytes).length := by
  cases x with
  | none => cases last <;> rfl
  | some v =>
    cases last with
    | true => rfl
    | false =>
      show p + n = p + (bytes v).length
      rw [hn]

/-- The decoder has what the packing goes by. -/
structure Agrees (mem : ItMemory) (pm : Memory) : Prop where
  mask : ∀ ch, mem.lastMask ch = pm.mask ch
  note : ∀ ch v, pm.note ch = some v → mem.lastNote ch = some v.toNat
  ins : ∀ ch, mem.lastIns ch = ((pm.ins ch).map UInt8.toNat).getD 0

theorem ite_some_pair {c : Prop} [Decidable c] {α β : Type} (a : α) (x : β) :
    (if c then (some a, x) else (none, x)) = (if c then some a else none, x) := by
  split
  · rfl
  · rfl

/-- What a cell does, step by step. -/
theorem itCell_steps (row : Nat) {b : Bytes} {cv p : Nat} {mem mem₁ mem₂ mem₃ : ItMemory} {ch mask p₁ p₂ p₃ p₄ p₅ cmd param : Nat}
    (hch : (cv - 1) &&& 63 = ch) (hmask : (if hasBit cv 128 then at0 b p else mem.lastMask ch) = mask)
    (hmem₁ : (if hasBit cv 128 then { mem with lastMask := Function.update mem.lastMask ch mask } else mem) = mem₁)
    (hp₁ : (if hasBit cv 128 then p + 1 else p) = p₁)
    (hmem₂ : (if hasBit mask 1 then { mem₁ with lastNote := Function.update mem₁.lastNote ch (at? b p₁) } else mem₁) = mem₂)
    (hp₂ : (if hasBit mask 1 then p₁ + 1 else p₁) = p₂)
    (hmem₃ : (if hasBit mask 2 then { mem₂ with lastIns := Function.update mem₂.lastIns ch (at0 b p₂) } else mem₂) = mem₃)
    (hp₃ : (if hasBit mask 2 then p₂ + 1 else p₂) = p₃) (hp₄ : (if hasBit mask 4 then p₃ + 1 else p₃) = p₄)
    (hcmd : (if hasBit mask 8 then at0 b p₄ else 0) = cmd) (hparam : (if hasBit mask 8 then at0 b (p₄ + 1) else 0) = param)
    (hp₅ : (if hasBit mask 8 then p₄ + 2 else p₄) = p₅) :
    itCell b cv p row mem =
      (if (hasBit mask 1 || hasBit mask 16) = true ∨ cmd ≠ 0 then
        some ⟨row, ch, if hasBit mask 1 || hasBit mask 16 then mem₃.lastNote ch else none, mem₃.lastIns ch, cmd, param⟩
      else none, p₅, mem₃) := by
  subst hch hmask hmem₁ hp₁ hmem₂ hp₂ hmem₃ hp₃ hp₄ hcmd hparam hp₅
  exact ite_some_pair _ _

theorem Agrees.after {b rest₂ rest₃ : Bytes} {ch v p₁ p₂ : Nat} {c : Cell} {s : Style} {new : Bool} {mem mem₁ mem₂ mem₃ : ItMemory}
    {pm : Memory} (h : Agrees mem pm) (hrep : Repeats pm ch c s) (hmask : (if new then v else mem.lastMask ch) = maskOf c s)
    (hmem₁ : (if new then { mem with lastMask := Function.update mem.lastMask ch (maskOf c s) } else mem) = mem₁)
    (hmem₂ : (if (part s.note c.note).isWritten then
      { mem₁ with lastNote := Function.update mem₁.lastNote ch (at? b p₁) } else mem₁) = mem₂)
    (hmem₃ : (if (part s.ins c.ins).isWritten then
      { mem₂ with lastIns := Function.update mem₂.lastIns ch (at0 b p₂) } else mem₂) = mem₃)
    (hb₂ : b.drop p₁ = written s.note c.note ([·]) ++ rest₂) (hb₃ : b.drop p₂ = written s.ins c.ins ([·]) ++ rest₃) :
    Agrees mem₃ (pm.after ch c s) := by
  have hmask₁ : mem₁.lastMask = Function.update mem.lastMask ch (maskOf c s) ∧ mem₁.lastNote = mem.lastNote ∧ mem₁.lastIns = mem.lastIns := by
    rw [← hmem₁]
    cases new with
    | true => exact ⟨rfl, rfl, rfl⟩
    | false =>
      rw [← hmask, if_neg Bool.false_ne_true, if_neg Bool.false_ne_true, Function.update_eq_self]
      exact ⟨rfl, rfl, rfl⟩
  have hnote₂ : mem₂.lastMask = mem₁.lastMask ∧ mem₂.lastIns = mem₁.lastIns ∧ mem₂.lastNote =
      Function.update mem₁.lastNote ch (if (part s.note c.note).isWritten then at? b p₁ else mem₁.lastNote ch) := by
    rw [← hmem₂]
    cases (part s.note c.note).isWritten with
    | true => exact ⟨rfl, rfl, rfl⟩
    | false =>
      rw [if_neg Bool.false_ne_true, if_neg Bool.false_ne_true, Function.update_eq_self]
      exact ⟨rfl, rfl, rfl⟩
  have hins₃ : mem₃.lastMask = mem₂.lastMask ∧ mem₃.lastNote = mem₂.lastNote ∧ mem₃.lastIns =
      Function.update mem₂.lastIns ch (if (part s.ins c.ins).isWritten then at0 b p₂ else mem₂.lastIns ch) := by
    rw [← hmem₃]
    cases (part s.ins c.ins).isWritten with
    | true => exact ⟨rfl, rfl, rfl⟩
    | false =>
      rw [if_neg Bool.false_ne_true, if_neg Bool.false_ne_true, Function.update_eq_self]
      exact ⟨rfl, rfl, rfl⟩
  refine ⟨?_, ?_, ?_⟩
  · intro k
    rw [hins₃.1, hnote₂.1, hmask₁.1, Memory.after_mask, funext h.mask]
  · intro k x hx
    rw [hins₃.2.1, hnote₂.2.2, hmask₁.2.1]
    rw [Memory.after_note] at hx
    by_cases hk : k = ch
    · subst hk
      rw [Function.update_self, last_part hrep.note] at hx
      rw [Function.update_self]
      cases hw : (part s.note c.note).isWritten with
      | true =>
        obtain ⟨-, -, hlast⟩ := part_eq_written hw
        rw [hw, if_pos rfl] at hx
        rw [hx, hlast] at hb₂
        exact at?_of_drop hb₂
      | false =>
        rw [hw, if_neg Bool.false_ne_true] at hx
        exact h.note k x hx
    · rw [Function.update_of_ne hk] at hx ⊢
      exact h.note k x hx
  · intro k
    rw [hins₃.2.2, hnote₂.2.1, hmask₁.2.2, Memory.after_ins]
    by_cases hk : k = ch
    · subst hk
      rw [Function.update_self, Function.update_self, last_part hrep.ins]
      cases hw : (part s.ins c.ins).isWritten with
      | true =>
        obtain ⟨x, hx, hlast⟩ := part_eq_written hw
        rw [hx, hlast] at hb₃
        rw [if_pos rfl, if_pos rfl, hx]
        exact at0_of_drop hb₃
      | false => exact h.ins k
    · rw [Function.update_of_ne hk, Function.update_of_ne hk]
      exact h.ins k

theorem itCell_packCell {g : Grid} {b rest : Bytes} {p r ch : Nat} {s : Style} {mem : ItMemory} {pm : Memory}
    (hb : b.drop p = packCell ch (g.cell r ch) s ++ rest) (hch : ch < 64) (hrep : Repeats pm ch (g.cell r ch) s)
    (hag : Agrees mem pm) (hins : pm.ins ch = g.named ch r) :
    at0 b p ≠ 0 ∧ ∃ mem', itCell b (at0 b p) (p + 1) r mem =
      (g.eventWith r ch (if s.command then none else (g.cell r ch).command), p + (packCell ch (g.cell r ch) s).length, mem') ∧
      Agrees mem' (pm.after ch (g.cell r ch) s) := by
  obtain ⟨hcv, hnew, hchan⟩ := channel_byte hch s.mask
  obtain ⟨hlt, h1, h2, h4, h8, h16⟩ := hasBit_parts (part s.note (g.cell r ch).note) (part s.ins (g.cell r ch).ins)
    (part s.vol (g.cell r ch).vol) (part s.command (g.cell r ch).command)
  rw [← maskOf] at hlt h1 h2 h4 h8 h16
  generalize hc : g.cell r ch = c at *
  rw [packCell] at hb ⊢
  rw [at0_of_drop hb]
  generalize (UInt8.ofNat (ch + 1 + if s.mask then 0 else 128)).toNat = cv at hcv hnew hchan
  refine ⟨hcv, ?_⟩
  have hb₁ : b.drop (p + 1) = written s.mask (some (maskOf c s)) (fun m => [UInt8.ofNat m]) ++ (written s.note c.note ([·]) ++
      (written s.ins c.ins ([·]) ++ (written s.vol c.vol ([·]) ++ ((written s.command c.command fun k => [k.cmd, k.param]) ++ rest)))) := by
    simp only [List.cons_append, List.append_assoc] at hb
    exact drop_add_length (l := [_]) hb
  have hb₂ := drop_add_length hb₁
  have hb₃ := drop_add_length hb₂
  have hb₄ := drop_add_length hb₃
  have hb₅ := drop_add_length hb₄
  have hmask : (if hasBit cv 128 then at0 b (p + 1) else mem.lastMask ch) = maskOf c s := by
    rw [hnew]
    cases hs : s.mask with
    | true => rw [hag.mask]; exact hrep.mask hs
    | false =>
      rw [hs] at hb₁
      show at0 b (p + 1) = maskOf c s
      rw [at0_of_drop hb₁, UInt8.toNat_ofNat', Nat.mod_eq_of_lt hlt]
  have hp₁ : (if hasBit cv 128 then p + 1 + 1 else p + 1) = p + 1 + (written s.mask (some (maskOf c s)) fun m => [UInt8.ofNat m]).length := by
    rw [hnew]
    cases s.mask <;> rfl
  generalize he₁ : p + 1 + (written s.mask (some (maskOf c s)) fun m => [UInt8.ofNat m]).length = p₁ at *
  have hp₂ : (if (part s.note c.note).isWritten then p₁ + 1 else p₁) = p₁ + (written s.note c.note ([·])).length :=
    part_length ([·]) (fun _ => rfl) p₁
  generalize he₂ : p₁ + (written s.note c.note ([·])).length = p₂ at *
  have hp₃ : (if (part s.ins c.ins).isWritten then p₂ + 1 else p₂) = p₂ + (written s.ins c.ins ([·])).length :=
    part_length ([·]) (fun _ => rfl) p₂
  generalize he₃ : p₂ + (written s.ins c.ins ([·])).length = p₃ at *
  have hp₄ : (if (part s.vol c.vol).isWritten then p₃ + 1 else p₃) = p₃ + (written s.vol c.vol ([·])).length :=
    part_length ([·]) (fun _ => rfl) p₃
  generalize he₄ : p₃ + (written s.vol c.vol ([·])).length = p₄ at *
  have hp₅ : (if (part s.command c.command).isWritten then p₄ + 2 else p₄) =
      p₄ + (written s.command c.command fun k => [k.cmd, k.param]).length :=
    part_length (fun k : Command => [k.cmd, k.param]) (fun _ => rfl) p₄
  rw [← h1] at hp₂
  rw [← h2] at hp₃
  rw [← h4] at hp₄
  rw [← h8] at hp₅
  obtain ⟨mem₁, hmem₁⟩ : ∃ m, (if hasBit cv 128 then
      { mem with lastMask := Function.update mem.lastMask ch (maskOf c s) } else mem) = m := ⟨_, rfl⟩
  obtain ⟨mem₂, hmem₂⟩ : ∃ m, (if hasBit (maskOf c s) 1 then
      { mem₁ with lastNote := Function.update mem₁.lastNote ch (at? b p₁) } else mem₁) = m := ⟨_, rfl⟩
  obtain ⟨mem₃, hmem₃⟩ : ∃ m, (if hasBit (maskOf c s) 2 then
      { mem₂ with lastIns := Function.update mem₂.lastIns ch (at0 b p₂) } else mem₂) = m := ⟨_, rfl⟩
  have hcell := itCell_steps r hchan hmask hmem₁ hp₁ hmem₂ hp₂ hmem₃ hp₃ hp₄ rfl rfl hp₅
  have hagrees := hag.after hrep hmask hmem₁ (h1 ▸ hmem₂) (h2 ▸ hmem₃) hb₂ hb₃
  have hwritten : (part s.command c.command).isWritten = true → ∃ k, c.command = some k ∧ s.command = false ∧
      at0 b p₄ = k.cmd.toNat ∧ at0 b (p₄ + 1) = k.param.toNat := by
    intro hw
    obtain ⟨k, hk, hlast⟩ := part_eq_written hw
    rw [hk, hlast] at hb₅
    exact ⟨k, hk, hlast, at0_of_drop hb₅, at0_of_drop (drop_add_length (l := [k.cmd]) hb₅)⟩
  have hnone : (part s.command c.command).isWritten = false → (if s.command then none else c.command) = none := by
    intro hw
    cases hk : c.command with
    | none => exact ite_self _
    | some k =>
      cases hs : s.command with
      | true => rfl
      | false =>
        rw [hk, hs] at hw
        cases hw
  have hcmd : (if hasBit (maskOf c s) 8 then at0 b p₄ else 0) =
      ((if s.command then none else c.command).map fun k => k.cmd.toNat).getD 0 := by
    rw [h8]
    cases hw : (part s.command c.command).isWritten with
    | true =>
      obtain ⟨k, hk, hs, hcmd, -⟩ := hwritten hw
      rw [if_pos rfl, hcmd, hk, hs]
      rfl
    | false =>
      rw [hnone hw]
      rfl
  have hparam : (if hasBit (maskOf c s) 8 then at0 b (p₄ + 1) else 0) =
      ((if s.command then none else c.command).map fun k => k.param.toNat).getD 0 := by
    rw [h8]
    cases hw : (part s.command c.command).isWritten with
    | true =>
      obtain ⟨k, hk, hs, -, hparam⟩ := hwritten hw
      rw [if_pos rfl, hparam, hk, hs]
      rfl
    | false =>
      rw [hnone hw]
      rfl
  have hlen : p + (UInt8.ofNat (ch + 1 + if s.mask then 0 else 128) ::
      (written s.mask (some (maskOf c s)) (fun m => [UInt8.ofNat m]) ++ (written s.note c.note ([·]) ++ (written s.ins c.ins ([·]) ++
        (written s.vol c.vol ([·]) ++ written s.command c.command fun k => [k.cmd, k.param]))))).length =
      p₄ + (written s.command c.command fun k => [k.cmd, k.param]).length := by
    simp only [List.length_cons, List.length_append]
    omega
  refine ⟨mem₃, ?_, hagrees⟩
  rw [hcell, hcmd, hparam, hlen, h1, h16, part_isSome]
  have hnote : (if c.note.isSome then mem₃.lastNote ch else none) = c.note.map UInt8.toNat := by
    cases hn : c.note with
    | none => rfl
    | some v =>
      refine hagrees.note ch v ?_
      rw [Memory.after_note, Function.update_self, hn]
      rfl
  have hnamed : mem₃.lastIns ch = ((g.named ch (r + 1)).map UInt8.toNat).getD 0 := by
    rw [hagrees.ins, Memory.after_ins, Function.update_self, Grid.named, hc, hins]
  generalize (if s.command then none else c.command) = command
  have hplays : (c.note.isSome = true ∨ (command.map fun k => k.cmd.toNat).getD 0 ≠ 0) ↔
      (c.note.isSome || command.isSome) = true := by
    rw [Bool.or_eq_true]
    refine or_congr_right ?_
    cases command with
    | none => simp
    | some k =>
      have hk : k.cmd.toNat ≠ 0 := fun h => k.cmd_ne (UInt8.toNat_inj.1 h)
      simpa using hk
  rw [hnote, hnamed, Grid.eventWith, hc, if_congr hplays rfl rfl]

/-! ### Rows -/

section
variable (g : Grid)

/-- What the decoder makes of a packed cell: the grid's, but a repeated command is lost. -/
def decoded (r : Nat) (x : Nat × Style) : Option Ev := g.eventWith r x.1 (if x.2.command then none else (g.cell r x.1).command)

/-- The events `f` makes of the rows from `r` on. -/
def rowsBy (f : Nat → Nat × Style → Option Ev) : Nat → List (List (Nat × Style)) → List Ev
  | _, [] => []
  | r, row :: rows => row.filterMap (f r) ++ rowsBy f (r + 1) rows

end

section
variable {g : Grid} {b rest : Bytes} {stop n r fuel p : Nat} {mem : ItMemory} {pm : Memory}

theorem itEvents_zero (hp : p < stop) (hr : r < n) (h0 : at0 b p = 0) :
    itEvents b stop n (fuel + 1) p r mem = itEvents b stop n fuel (p + 1) (r + 1) mem := by
  rw [itEvents, if_pos ⟨hp, hr⟩]
  exact if_pos h0

theorem itEvents_cell (hp : p < stop) (hr : r < n) (h0 : at0 b p ≠ 0) {e : Option Ev} {p' : Nat} {mem' : ItMemory}
    (hcell : itCell b (at0 b p) (p + 1) r mem = (e, p', mem')) :
    itEvents b stop n (fuel + 1) p r mem = e.toList ++ itEvents b stop n fuel p' r mem' := by
  rw [itEvents, if_pos ⟨hp, hr⟩]
  show (if at0 b p = 0 then _ else _) = _
  rw [if_neg h0, hcell]

/-- The cells of a row. -/
theorem itEvents_cells (row : List (Nat × Style))
    (hb : b.drop p = (row.flatMap fun x => packCell x.1 (g.cell r x.1) x.2) ++ rest)
    (hstop : p + (row.flatMap fun x => packCell x.1 (g.cell r x.1) x.2).length ≤ stop) (hfuel : stop - p ≤ fuel) (hr : r < n)
    (hinc : row.Pairwise fun x y => x.1 < y.1) (hch : ∀ x ∈ row, x.1 < 64) (hrep : RowRepeats g r pm row)
    (hag : Agrees mem pm) (hins : ∀ x ∈ row, pm.ins x.1 = g.named x.1 r) :
    ∃ fuel' mem', itEvents b stop n fuel p r mem = row.filterMap (decoded g r) ++
        itEvents b stop n fuel' (p + (row.flatMap fun x => packCell x.1 (g.cell r x.1) x.2).length) r mem' ∧
      stop - (p + (row.flatMap fun x => packCell x.1 (g.cell r x.1) x.2).length) ≤ fuel' ∧
      Agrees mem' (rowMemory g r pm row) := by
  induction row generalizing p fuel mem pm with
  | nil => exact ⟨fuel, mem, rfl, hfuel, hag⟩
  | cons x row ih =>
    rw [List.flatMap_cons, List.append_assoc] at hb
    rw [List.flatMap_cons, List.length_append] at hstop ⊢
    have hpos : 0 < (packCell x.1 (g.cell r x.1) x.2).length := Nat.succ_pos _
    obtain ⟨h0, mem₁, hcell, hag₁⟩ := itCell_packCell hb (hch x (by simp)) hrep.1 hag (hins x (by simp))
    obtain ⟨fuel, rfl⟩ : ∃ k, fuel = k + 1 := ⟨fuel - 1, by omega⟩
    have hinc' := List.pairwise_cons.1 hinc
    have hins₁ : ∀ y ∈ row, (pm.after x.1 (g.cell r x.1) x.2).ins y.1 = g.named y.1 r := by
      intro y hy
      rw [Memory.after_ins, Function.update_of_ne (hinc'.1 y hy).ne']
      exact hins y (by simp [hy])
    have hfuel₁ : stop - (p + (packCell x.1 (g.cell r x.1) x.2).length) ≤ fuel := by omega
    obtain ⟨fuel', mem', hrun, hfuel', hag'⟩ := ih (drop_add_length hb) (by omega) hfuel₁ hinc'.2
      (fun y hy => hch y (by simp [hy])) hrep.2 hag₁ hins₁
    refine ⟨fuel', mem', ?_, by omega, hag'⟩
    rw [itEvents_cell (by omega) hr h0 hcell, hrun, ← Nat.add_assoc]
    cases he : decoded g r x with
    | none =>
      rw [List.filterMap_cons_none he]
      rw [decoded] at he
      rw [he]
      rfl
    | some e =>
      rw [List.filterMap_cons_some he]
      rw [decoded] at he
      rw [he]
      rfl

theorem rowMemory_ins (row : List (Nat × Style)) (pm : Memory) (hinc : row.Pairwise fun x y => x.1 < y.1) (ch : Nat) :
    (rowMemory g r pm row).ins ch = if ∃ x ∈ row, x.1 = ch then (g.cell r ch).ins <|> pm.ins ch else pm.ins ch := by
  induction row generalizing pm with
  | nil => simp [rowMemory]
  | cons x row ih =>
    have hinc' := List.pairwise_cons.1 hinc
    rw [rowMemory, List.foldl_cons, ← rowMemory, ih _ hinc'.2, Memory.after_ins]
    by_cases hx : x.1 = ch
    · subst hx
      have hnot : ¬∃ y ∈ row, y.1 = x.1 := by
        rintro ⟨y, hy, hyx⟩
        exact (hinc'.1 y hy).ne' hyx
      rw [if_neg hnot, if_pos ⟨x, by simp, rfl⟩, Function.update_self]
    · have hmem : (∃ y ∈ x :: row, y.1 = ch) ↔ ∃ y ∈ row, y.1 = ch := by
        constructor
        · rintro ⟨y, hy, hych⟩
          rcases List.mem_cons.1 hy with rfl | hy
          · exact absurd hych hx
          · exact ⟨y, hy, hych⟩
        · rintro ⟨y, hy, hych⟩
          exact ⟨y, by simp [hy], hych⟩
      rw [Function.update_of_ne (Ne.symm hx), if_congr hmem rfl rfl]

/-- The rows from `r` on, up to the end of the data. -/
theorem itEvents_rows (rows : List (List (Nat × Style))) (hb : b.drop p = packRows g r rows ++ rest)
    (hstop : p + (packRows g r rows).length = stop) (hfuel : stop - p ≤ fuel) (hn : r + rows.length = n)
    (hrows : ∀ i row, rows[i]? = some row → RowOf g (r + i) row) (hrep : RowsRepeat g r pm rows) (hag : Agrees mem pm)
    (hins : ∀ ch < 64, pm.ins ch = g.named ch r) :
    itEvents b stop n fuel p r mem = rowsBy (decoded g) r rows := by
  induction rows generalizing p r fuel mem pm with
  | nil =>
    cases fuel with
    | zero => rfl
    | succ fuel =>
      rw [packRows, List.length_nil] at hstop
      exact if_neg (by omega)
  | cons row rows ih =>
    have hrow := hrows 0 row rfl
    rw [Nat.add_zero] at hrow
    rw [packRows, packRow, List.append_assoc, List.append_assoc] at hb
    rw [packRows, packRow, List.length_append, List.length_append, List.length_singleton] at hstop
    rw [List.length_cons] at hn
    obtain ⟨fuel', mem', hrun, hfuel', hag'⟩ := itEvents_cells row hb (by omega) hfuel (show r < n by omega) hrow.increasing hrow.ch_lt
      hrep.1 hag fun x hx => hins x.1 (hrow.ch_lt x hx)
    have hb' := drop_add_length hb
    obtain ⟨fuel', rfl⟩ : ∃ k, fuel' = k + 1 := ⟨fuel' - 1, by omega⟩
    have hins' : ∀ ch < 64, (rowMemory g r pm row).ins ch = g.named ch (r + 1) := by
      intro ch hch
      rw [rowMemory_ins row pm hrow.increasing, Grid.named, hins ch hch]
      by_cases hlisted : ∃ x ∈ row, x.1 = ch
      · rw [if_pos hlisted]
      · rw [if_neg hlisted, hrow.complete ch hch fun x hx h => hlisted ⟨x, hx, h⟩]
        rfl
    have hrows' : ∀ i row', rows[i]? = some row' → RowOf g (r + 1 + i) row' := by
      intro i row' hi
      rw [show r + 1 + i = r + (i + 1) by omega]
      exact hrows (i + 1) row' hi
    have hfuel₁ : stop - (p + (row.flatMap fun x => packCell x.1 (g.cell r x.1) x.2).length + [(0 : UInt8)].length) ≤ fuel' := by
      rw [List.length_singleton]
      omega
    have hrest := ih (drop_add_length (l := [0]) hb') (by rw [List.length_singleton]; omega) hfuel₁ (by omega) hrows' hrep.2 hag' hins'
    rw [List.length_singleton] at hrest
    rw [hrun, itEvents_zero (by omega) (by omega) (at0_of_drop hb'), rowsBy, hrest]

end

/-! ### The grid's events -/

section
variable {g : Grid} {r : Nat}

theorem Grid.eventWith_some {ch : Nat} {command : Option Command} {e : Ev} (h : g.eventWith r ch command = some e) :
    e.row = r ∧ e.ch = ch ∧ e.cmd = (command.map fun k => k.cmd.toNat).getD 0 := by
  rw [eventWith] at h
  split at h
  · cases h
    exact ⟨rfl, rfl, rfl⟩
  · cases h

/-- The listed cells of a row have all of its events. -/
theorem RowOf.events {row : List (Nat × Style)} (h : RowOf g r row) :
    row.filterMap (fun x => g.event r x.1) = (List.range 64).filterMap (g.event r) := by
  have hlisted : (row.filterMap fun x => g.event r x.1).Pairwise fun e e' => e.ch < e'.ch := by
    refine List.Pairwise.filterMap _ (fun x y hxy e he e' he' => ?_) h.increasing
    rw [(Grid.eventWith_some he).2.1, (Grid.eventWith_some he').2.1]
    exact hxy
  have hall : ((List.range 64).filterMap (g.event r)).Pairwise fun e e' => e.ch < e'.ch := by
    refine List.Pairwise.filterMap _ (fun x y hxy e he e' he' => ?_) List.pairwise_lt_range
    rw [(Grid.eventWith_some he).2.1, (Grid.eventWith_some he').2.1]
    exact hxy
  have hirrefl : Std.Irrefl fun e e' : Ev => e.ch < e'.ch := ⟨fun e => lt_irrefl _⟩
  have hasymm : Std.Asymm fun e e' : Ev => e.ch < e'.ch := ⟨fun e e' h => lt_asymm h⟩
  refine hlisted.eq_of_mem_iff hall fun e => ?_
  rw [List.mem_filterMap, List.mem_filterMap]
  constructor
  · rintro ⟨x, hx, he⟩
    exact ⟨x.1, List.mem_range.2 (h.ch_lt x hx), he⟩
  · rintro ⟨ch, hch, he⟩
    by_cases hmem : ∃ x ∈ row, x.1 = ch
    · obtain ⟨x, hx, rfl⟩ := hmem
      exact ⟨x, hx, he⟩
    · have hcell := h.complete ch (List.mem_range.1 hch) fun x hx hxch => hmem ⟨x, hx, hxch⟩
      rw [Grid.event, Grid.eventWith, hcell] at he
      cases he

theorem rowsBy_event (rows : List (List (Nat × Style))) (h : ∀ i row, rows[i]? = some row → RowOf g (r + i) row) :
    rowsBy (fun r x => g.event r x.1) r rows =
      (List.range' r rows.length).flatMap fun r => (List.range 64).filterMap (g.event r) := by
  induction rows generalizing r with
  | nil => rfl
  | cons row rows ih =>
    have hrows' : ∀ i row', rows[i]? = some row' → RowOf g (r + 1 + i) row' := by
      intro i row' hi
      rw [show r + 1 + i = r + (i + 1) by omega]
      exact h (i + 1) row' hi
    have hrow : RowOf g r row := h 0 row rfl
    rw [rowsBy, hrow.events, ih hrows', List.length_cons, List.range'_succ, List.flatMap_cons]

theorem mem_rowsBy {f : Nat → Nat × Style → Option Ev} {rows : List (List (Nat × Style))} {e : Ev} :
    e ∈ rowsBy f r rows ↔ ∃ i row x, rows[i]? = some row ∧ x ∈ row ∧ f (r + i) x = some e := by
  induction rows generalizing r with
  | nil => simp [rowsBy]
  | cons row rows ih =>
    rw [rowsBy, List.mem_append, List.mem_filterMap, ih]
    constructor
    · rintro (⟨x, hx, he⟩ | ⟨i, row', x, hi, hx, he⟩)
      · exact ⟨0, row, x, rfl, hx, he⟩
      · exact ⟨i + 1, row', x, hi, hx, by rwa [show r + (i + 1) = r + 1 + i by omega]⟩
    · rintro ⟨i, row', x, hi, hx, he⟩
      cases i with
      | zero =>
        cases hi
        exact .inl ⟨x, hx, he⟩
      | succ i => exact .inr ⟨i, row', x, hi, hx, by rwa [show r + 1 + i = r + (i + 1) by omega]⟩

theorem rowsBy_congr {f f' : Nat → Nat × Style → Option Ev} {rows : List (List (Nat × Style))}
    (h : ∀ i row, rows[i]? = some row → ∀ x ∈ row, f (r + i) x = f' (r + i) x) : rowsBy f r rows = rowsBy f' r rows := by
  induction rows generalizing r with
  | nil => rfl
  | cons row rows ih =>
    have hrow : row.filterMap (f r) = row.filterMap (f' r) := List.filterMap_congr (h 0 row rfl)
    have hrows : ∀ i row', rows[i]? = some row' → ∀ x ∈ row', f (r + 1 + i) x = f' (r + 1 + i) x := by
      intro i row' hi x hx
      rw [show r + 1 + i = r + (i + 1) by omega]
      exact h (i + 1) row' hi x hx
    rw [rowsBy, rowsBy, hrow, ih hrows]

end

/-! ### In a file -/

theorem u16le_of_drop {b rest : Bytes} {p n : Nat} (h : b.drop p = le 2 n ++ rest) (hn : n < 2 ^ 16) : u16le b p = n := by
  have hhigh : b.drop (p + 1) = UInt8.ofNat (n / 256) :: rest := drop_add_length (l := [_]) h
  rw [u16le, at0_of_drop h, at0_of_drop hhigh, UInt8.toNat_ofNat', UInt8.toNat_ofNat']
  omega

namespace Packing
variable {g : Grid} (p : Packing g)

/-- The pattern as it stands in a file: its length, its rows, four bytes, its data. -/
def pattern (pad : Bytes) : Bytes := le 2 p.data.length ++ (le 2 g.rows ++ (pad ++ p.data))

theorem decodeEvents_pattern {pre pad post : Bytes} (hpre : pre ≠ []) (hpad : pad.length = 4) :
    decodeEvents (pre ++ (p.pattern pad ++ post)) pre.length = ⟨g.rows, rowsBy (decoded g) 0 p.rows⟩ := by
  have hoff : 0 < pre.length := List.length_pos_iff.2 hpre
  rw [pattern]
  simp only [List.append_assoc]
  generalize hb : pre ++ (le 2 p.data.length ++ (le 2 g.rows ++ (pad ++ (p.data ++ post)))) = b
  have hblen : b.length = pre.length + 8 + p.data.length + post.length := by
    rw [← hb]
    simp only [List.length_append, Words.length_le, hpad]
    omega
  have h₀ : b.drop pre.length = le 2 p.data.length ++ (le 2 g.rows ++ (pad ++ (p.data ++ post))) := by rw [← hb, List.drop_left]
  have h₂ : b.drop (pre.length + 2) = le 2 g.rows ++ (pad ++ (p.data ++ post)) := by
    have h := drop_add_length h₀
    rwa [Words.length_le] at h
  have h₄ : b.drop (pre.length + 2 + 2) = pad ++ (p.data ++ post) := by
    have h := drop_add_length h₂
    rwa [Words.length_le] at h
  have h₈ : b.drop (pre.length + 8) = p.data ++ post := by
    have h := drop_add_length h₄
    rwa [hpad] at h
  rw [decodeEvents, if_neg (by omega)]
  simp only
  rw [u16le_of_drop h₀ p.data_lt, u16le_of_drop h₂ p.rows_lt, Nat.min_eq_left (by omega)]
  congr 1
  refine itEvents_rows p.rows h₈ rfl (by omega) (by rw [p.length_rows, Nat.zero_add]) ?_ p.repeats ?_ fun ch _ => rfl
  · simpa using p.rowOf
  · exact ⟨fun ch => rfl, fun ch v hv => (by cases hv), fun ch => rfl⟩

theorem rowsBy_decoded_iff : rowsBy (decoded g) 0 p.rows = g.events ↔ p.WritesCommands := by
  have hgrid : g.events = rowsBy (fun r x => g.event r x.1) 0 p.rows := by
    rw [rowsBy_event p.rows (by simpa using p.rowOf), p.length_rows, ← List.range_eq_range', Grid.events]
  rw [hgrid]
  constructor
  · intro heq i row hi x hx hcommand
    obtain ⟨k, hk⟩ := Option.ne_none_iff_exists'.1 hcommand
    rw [← Bool.not_eq_true]
    intro hrepeats
    obtain ⟨e, he⟩ : ∃ e, g.event i x.1 = some e := by
      rw [Grid.event, Grid.eventWith, hk, Option.isSome_some, Bool.or_true, if_pos rfl]
      exact ⟨_, rfl⟩
    obtain ⟨hrow, hch, hcmd⟩ := Grid.eventWith_some he
    have hmem : e ∈ rowsBy (decoded g) 0 p.rows := by
      rw [heq, mem_rowsBy]
      exact ⟨i, row, x, hi, hx, by rwa [Nat.zero_add]⟩
    obtain ⟨j, row', y, hj, hy, hey⟩ := mem_rowsBy.1 hmem
    obtain ⟨hrow', hch', hcmd'⟩ := Grid.eventWith_some hey
    obtain rfl : i = j := by omega
    obtain rfl : row = row' := Option.some.inj (hi.symm.trans hj)
    have hnodup : (row.map Prod.fst).Nodup := List.pairwise_map.2 ((p.rowOf i row hi).increasing.imp fun h => h.ne)
    have hxy : y = x := List.inj_on_of_nodup_map hnodup hy hx (by omega)
    rw [hxy, if_pos hrepeats] at hcmd'
    rw [hk, hcmd'] at hcmd
    exact k.cmd_ne (UInt8.toNat_inj.1 hcmd.symm)
  · intro h
    refine rowsBy_congr fun i row hi x hx => ?_
    rw [Nat.zero_add, decoded, Grid.event]
    cases hk : (g.cell i x.1).command with
    | none => rw [ite_self]
    | some k => rw [h i row hi x hx (by rw [hk]; exact Option.some_ne_none k), if_neg Bool.false_ne_true]

/-- A packed pattern is decoded to its grid exactly when none of its cells repeats a command. -/
theorem decodeEvents_iff (first : UInt8) (pre post : Bytes) (a b c d : UInt8) :
    decodeEvents (first :: pre ++ (p.pattern [a, b, c, d] ++ post)) (first :: pre).length = ⟨g.rows, g.events⟩ ↔ p.WritesCommands := by
  rw [p.decodeEvents_pattern (List.cons_ne_nil first pre) rfl, ItPattern.mk.injEq, rowsBy_decoded_iff]
  simp

end Packing

/-! ### A repeated command -/

/-- Two rows with one speed command each. -/
def speeds : Grid := ⟨2, fun _ ch => if ch = 0 then { command := some ⟨1, 6, by decide⟩ } else {}⟩

/-- The second of them repeats the first. -/
def speedRepeated : Packing speeds where
  rows := [[(0, {})], [(0, { command := true })]]
  length_rows := rfl
  rowOf := by
    intro r row hr
    have hrow : ∃ s : Style, row = [(0, s)] := by
      rcases r with _ | _ | r
      · exact ⟨_, (Option.some.inj hr).symm⟩
      · exact ⟨_, (Option.some.inj hr).symm⟩
      · cases hr
    obtain ⟨s, rfl⟩ := hrow
    refine ⟨List.pairwise_singleton _ _, by simp, fun ch _ h => ?_⟩
    have hch : ch ≠ 0 := by simpa using (h (0, s) (by simp)).symm
    exact if_neg hch
  repeats := by
    refine ⟨⟨⟨?_, ?_, ?_, ?_, ?_⟩, trivial⟩, ⟨⟨?_, ?_, ?_, ?_, ?_⟩, trivial⟩, trivial⟩
    case refine_10 =>
      intro _ x hx
      cases hx
      rfl
    all_goals
      intro h
      cases h
  rows_lt := by decide
  data_lt := by decide

theorem speedRepeated_lost :
    decodeEvents (0 :: [] ++ (speedRepeated.pattern [0, 0, 0, 0] ++ [])) 1 ≠ ⟨speeds.rows, speeds.events⟩ := by
  intro h
  have hevents : rowsBy (decoded speeds) 0 speedRepeated.rows = speeds.events := by
    have hpattern : decodeEvents ([0] ++ (speedRepeated.pattern [0, 0, 0, 0] ++ [])) 1 = _ :=
      speedRepeated.decodeEvents_pattern (List.cons_ne_nil 0 []) rfl
    exact congrArg ItPattern.events (hpattern.symm.trans h)
  have hwritten : true = false :=
    speedRepeated.rowsBy_decoded_iff.1 hevents 1 _ rfl (0, { command := true }) (by simp) (by decide)
  cases hwritten

end TrackerStream.ItPacking
