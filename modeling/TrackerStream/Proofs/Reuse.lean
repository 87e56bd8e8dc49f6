import TrackerStream.ItPacking
import TrackerStream.Proofs.Checkpoints

/-!
# Notes that reuse an instrument

A cell with a note and no instrument plays the instrument its channel named last, in its pattern or an earlier one. The
seek tables take for it what its own pattern wrote last (IT, MPTM) or the sample that the channel's last note with an
instrument chose (XM). `Song` says what both formats share, `reuse_covered` when the checkpoint of a position lists the
sample of such a note.
-/

namespace TrackerStream

/-- A cell as it stands in a pattern; in IT `ins` is also the byte it repeats. -/
structure RawCell where
  ch : Nat
  note : Option Nat
  ins : Option Nat
deriving DecidableEq

/-- The instrument a channel named last; the number 0 names none. -/
def named (ch : Nat) : List RawCell → Nat
  | [] => 0
  | x :: before => if x.ch = ch ∧ x.ins.getD 0 ≠ 0 then x.ins.getD 0 else named ch before

structure Song where
  /-- Order index and pattern of the played positions. -/
  positions : List (Nat × Nat)
  cells : Nat → List RawCell
  /-- The sample a note of an instrument plays. -/
  sampleOf : Nat → Nat → Option Nat
  offsetOf : Nat → Option Nat
  /-- What the tables take for a cell, behind the cells of earlier positions and those of its pattern. -/
  took : List RawCell → List RawCell → RawCell → Option Nat
  /-- A note that is held at the position, or sounds in the ones up to the next checkpoint, plays the sample. -/
  rings : Nat → Nat → Nat → Prop

namespace Song
variable (g : Song)

/-- The cells of the positions before. -/
def earlier (pos : Nat) : List RawCell := (g.positions.take pos).flatMap fun op => g.cells op.2

def stride : Nat := max 1 ((g.positions.length + (MAX_CHECKPOINTS - 1)) / MAX_CHECKPOINTS)

/-- A cell without an instrument, whose note plays the sample at offset `o` with the one its channel named last. -/
structure Reuses (before : List RawCell) (x : RawCell) (o : Nat) : Prop where
  bare : x.ins.getD 0 = 0
  plays : (x.note.bind (g.sampleOf (named x.ch before.reverse))).bind g.offsetOf = some o

end Song

/-! ### IT and MPTM -/

/-- The cells of the packed data, each with the event it makes. -/
def itTrace (b : Bytes) (stop rows : Nat) : Nat → Nat → Nat → ItMemory → List (RawCell × Option Ev)
  | 0, _, _, _ => []
  | fuel + 1, p, row, mem =>
    if p < stop ∧ row < rows then
      let cv := at0 b p
      if cv = 0 then itTrace b stop rows fuel (p + 1) (row + 1) mem
      else
        let ch := (cv - 1) &&& 63
        let (e, p', mem') := itCell b cv (p + 1) row mem
        let mask := mem'.lastMask ch
        let note := if hasBit mask 1 || hasBit mask 16 then (mem'.lastNote ch).filter (· < 120) else none
        let ins := if hasBit mask 2 || hasBit mask 32 then some (mem'.lastIns ch) else none
        (⟨ch, note, ins⟩, e) :: itTrace b stop rows fuel p' row mem'
    else []

theorem itTrace_events {b : Bytes} {stop rows fuel p row : Nat} {mem : ItMemory} :
    (itTrace b stop rows fuel p row mem).filterMap Prod.snd = itEvents b stop rows fuel p row mem := by
  induction fuel generalizing p row mem with
  | zero => rfl
  | succ fuel ih =>
    rw [itTrace, itEvents]
    split
    · simp only
      split
      · exact ih
      · rw [List.filterMap_cons]
        simp only [ih]
        cases (itCell b (at0 b p) (p + 1) row mem).1 <;> rfl
    · rfl

def decodeCells (b : Bytes) (off : Nat) : List (RawCell × Option Ev) :=
  if off = 0 ∨ off + 8 > b.length then []
  else
    let stop := min (off + 8 + u16le b off) b.length
    itTrace b stop (u16le b (off + 2)) (stop - (off + 8)) (off + 8) 0 ⟨fun _ => 0, fun _ => 0, fun _ => some 0⟩

theorem decodeCells_events (b : Bytes) (off : Nat) : (decodeCells b off).filterMap Prod.snd = (decodeEvents b off).events := by
  rw [decodeCells, decodeEvents]
  split
  · rfl
  · exact itTrace_events

/-- The instrument byte a channel has in a pattern. -/
def lastByte (mem : Nat → Nat) (cells : List RawCell) : Nat → Nat :=
  cells.foldl (fun mem x => x.ins.elim mem (Function.update mem x.ch)) mem

section
variable {b : Bytes} {cv p row p' : Nat} {mem mem' : ItMemory} {e : Option Ev}

theorem itCell_lastMask (h : itCell b cv p row mem = (e, p', mem')) :
    mem'.lastMask ((cv - 1) &&& 63) = if hasBit cv 128 then at0 b p else mem.lastMask ((cv - 1) &&& 63) := by
  rw [ItPacking.itCell_steps row rfl rfl rfl rfl rfl rfl rfl rfl rfl rfl rfl rfl] at h
  have hmask := congrArg (fun r => r.2.2.lastMask) h
  simp only [apply_ite ItMemory.lastMask, ite_self] at hmask
  rw [← hmask]
  split
  · exact Function.update_self _ _ _
  · rfl

theorem itCell_spec {ev : Ev} (h : itCell b cv p row mem = (some ev, p', mem')) : ev.row = row ∧ ev.ch < 64 := by
  rw [ItPacking.itCell_steps row rfl rfl rfl rfl rfl rfl rfl rfl rfl rfl rfl rfl] at h
  have hev := congrArg Prod.fst h
  simp only [Option.ite_none_right_eq_some, Option.some.injEq] at hev
  obtain ⟨-, rfl⟩ := hev
  exact ⟨rfl, Nat.lt_of_le_of_lt Nat.and_le_right (by decide)⟩

theorem itCell_lastIns (h : itCell b cv p row mem = (e, p', mem')) :
    mem'.lastIns = if hasBit (mem'.lastMask ((cv - 1) &&& 63)) 2 then
      Function.update mem.lastIns ((cv - 1) &&& 63) (mem'.lastIns ((cv - 1) &&& 63)) else mem.lastIns := by
  rw [itCell_lastMask h]
  generalize hm : (if hasBit cv 128 then at0 b p else mem.lastMask ((cv - 1) &&& 63)) = mask
  rw [ItPacking.itCell_steps row rfl hm rfl rfl rfl rfl rfl rfl rfl rfl rfl rfl] at h
  have hins := congrArg (fun r => r.2.2.lastIns) h
  simp only [apply_ite ItMemory.lastIns, ite_self] at hins
  rw [← hins]
  cases hbit : hasBit mask 2 with
  | true => rw [if_pos rfl, if_pos rfl, Function.update_self]
  | false => rw [if_neg Bool.false_ne_true, if_neg Bool.false_ne_true]

/-- The instrument a cell writes or repeats is what its channel has afterwards. -/
theorem itCell_ins (h : itCell b cv p row mem = (e, p', mem')) :
    mem'.lastIns = (if hasBit (mem'.lastMask ((cv - 1) &&& 63)) 2 || hasBit (mem'.lastMask ((cv - 1) &&& 63)) 32 then
      some (mem'.lastIns ((cv - 1) &&& 63)) else none).elim mem.lastIns (Function.update mem.lastIns ((cv - 1) &&& 63)) := by
  have hins := itCell_lastIns h
  generalize (cv - 1) &&& 63 = ch at hins ⊢
  cases h2 : hasBit (mem'.lastMask ch) 2 with
  | true => rwa [h2, if_pos rfl] at hins
  | false =>
    rw [h2, if_neg Bool.false_ne_true] at hins
    rw [Bool.false_or]
    split
    · rw [Option.elim_some, hins, Function.update_eq_self]
    · exact hins

theorem itCell_note {n : Nat} (h : itCell b cv p row mem = (e, p', mem'))
    (hn : (if hasBit (mem'.lastMask ((cv - 1) &&& 63)) 1 || hasBit (mem'.lastMask ((cv - 1) &&& 63)) 16 then
      (mem'.lastNote ((cv - 1) &&& 63)).filter (· < 120) else none) = some n) :
    ∃ ev, e = some ev ∧ ev.ch = (cv - 1) &&& 63 ∧ ev.note = some n ∧ n < 120 ∧ ev.ins = mem'.lastIns ((cv - 1) &&& 63) := by
  have hmask := itCell_lastMask h
  generalize hch : (cv - 1) &&& 63 = ch at hmask hn ⊢
  rw [hmask] at hn
  generalize hm : (if hasBit cv 128 then at0 b p else mem.lastMask ch) = mask at hn
  rw [ItPacking.itCell_steps row hch hm rfl rfl rfl rfl rfl rfl rfl rfl rfl rfl] at h
  obtain ⟨he, -, hmem⟩ : _ ∧ _ ∧ _ := by simpa only [Prod.mk.injEq] using h
  rw [hmem] at he
  split at hn
  · rename_i hnamed
    obtain ⟨hnote, hlt⟩ := Option.filter_eq_some_iff.1 hn
    rw [if_pos (.inl hnamed), if_pos hnamed, hnote] at he
    exact ⟨_, he.symm, rfl, rfl, of_decide_eq_true hlt, rfl⟩
  · cases hn

end

section
variable {b : Bytes} {stop rows fuel p row : Nat} {mem : ItMemory}

theorem itEvents_spec : ∀ e ∈ itEvents b stop rows fuel p row mem, row ≤ e.row ∧ e.row < rows ∧ e.ch < 64 := by
  induction fuel generalizing p row mem with
  | zero => simp [itEvents]
  | succ fuel ih =>
    intro e he
    rw [itEvents] at he
    split at he
    · rename_i hlt
      simp only at he
      split at he
      · have := ih e he
        exact ⟨by omega, this.2⟩
      · rcases hcell : itCell b (at0 b p) (p + 1) row mem with ⟨e', p', mem'⟩
        rw [hcell] at he
        rcases List.mem_append.1 he with he | he
        · obtain rfl : e' = some e := Option.mem_toList.1 he
          obtain ⟨hrow, hch⟩ := itCell_spec hcell
          exact ⟨by omega, by omega, hch⟩
        · exact ih e he
    · cases he

theorem itEvents_sorted : (itEvents b stop rows fuel p row mem).Pairwise fun a b => a.row ≤ b.row := by
  induction fuel generalizing p row mem with
  | zero => exact .nil
  | succ fuel ih =>
    rw [itEvents]
    split
    · simp only
      split
      · exact ih
      · rcases hcell : itCell b (at0 b p) (p + 1) row mem with ⟨e', p', mem'⟩
        refine List.pairwise_append.2 ⟨?_, ih, fun a ha c hc => ?_⟩
        · cases e' <;> simp
        · obtain rfl : e' = some a := Option.mem_toList.1 ha
          rw [(itCell_spec hcell).1]
          exact (itEvents_spec c hc).1
    · exact .nil

theorem lastByte_cons (mem : Nat → Nat) (x : RawCell) (cells : List RawCell) :
    lastByte mem (x :: cells) = lastByte (x.ins.elim mem (Function.update mem x.ch)) cells := rfl

/-- A note makes an event, with the instrument byte its channel has there. -/
theorem itTrace_note {before after : List (RawCell × Option Ev)} {x : RawCell} {e : Option Ev} {n : Nat}
    (h : itTrace b stop rows fuel p row mem = before ++ (x, e) :: after) (hn : x.note = some n) :
    ∃ ev, e = some ev ∧ ev.ch = x.ch ∧ ev.note = some n ∧ n < 120 ∧
      ev.ins = lastByte mem.lastIns (before.map Prod.fst ++ [x]) x.ch := by
  induction fuel generalizing p row mem before with
  | zero => simp [itTrace] at h
  | succ fuel ih =>
    rw [itTrace] at h
    split at h
    · simp only at h
      split at h
      · exact ih h
      · rcases hcell : itCell b (at0 b p) (p + 1) row mem with ⟨e', p', mem'⟩
        rw [hcell] at h
        cases before with
        | nil =>
          obtain ⟨hx, -⟩ := List.cons.inj h
          obtain ⟨rfl, rfl⟩ := Prod.mk.inj hx
          obtain ⟨ev, rfl, hch, hnote, hlt, hins⟩ := itCell_note hcell hn
          exact ⟨ev, rfl, hch, hnote, hlt, hins.trans (congrFun (itCell_ins hcell) _)⟩
        | cons y before =>
          rw [List.cons_append] at h
          obtain ⟨rfl, hrest⟩ := List.cons.inj h
          obtain ⟨ev, he, hch, hnote, hlt, hins⟩ := ih hrest
          refine ⟨ev, he, hch, hnote, hlt, ?_⟩
          rw [hins, List.map_cons, List.cons_append, lastByte_cons]
          exact congrArg (lastByte · _ x.ch) (itCell_ins hcell)
    · simp at h

end

/-- Does the event end what its channel holds? -/
def Ev.cut (e : Ev) : Bool := decide (e.note = some 254 ∨ e.note = some 255)

namespace ItModel
variable (m : ItModel)

/-- The sample an event sounds. -/
def sounded (e : Ev) : Option Nat := e.note.bind (sampleForNote m.b m.h e.ins)

def events (pat : Nat) : List Ev := ((m.decode pat).map ItPattern.events).getD []

/-- The events of the first `n` valid positions. -/
def played (n : Nat) : List Ev := (m.validOrders.take n).flatMap fun op => m.events op.2

/-- Those of the `n` positions from `pos` on. -/
def span (pos n : Nat) : List Ev := ((m.validOrders.drop pos).take n).flatMap fun op => m.events op.2

def trace (pat : Nat) : List (RawCell × Option Ev) :=
  if pat ≥ 254 then [] else decodeCells m.b (u32le m.b (m.h.patOffBase + pat * 4))

def song : Song where
  positions := m.validOrders
  cells pat := (m.trace pat).map Prod.fst
  sampleOf := sampleForNote m.b m.h
  offsetOf := m.offOf
  took _ inPattern x := x.note.bind (sampleForNote m.b m.h (lastByte (fun _ => 0) (inPattern ++ [x]) x.ch))
  rings pos n o := ∃ s, Channels.Rings Ev.ch Ev.cut (fun _ => m.sounded) (m.played pos) (m.span pos n) s ∧ m.offOf s = some o

theorem trace_events (pat : Nat) : (m.trace pat).filterMap Prod.snd = m.events pat := by
  rw [trace, events, decode]
  by_cases hpat : pat ≥ 254
  · rw [if_pos hpat, if_pos hpat, Option.map_none, Option.getD_none, List.filterMap_nil]
  · rw [if_neg hpat, if_neg hpat, Option.map_some, Option.getD_some, decodeCells_events]

theorem decode_spec {pat : Nat} {q : ItPattern} (h : m.decode pat = some q) :
    q.events.Pairwise (fun a b => a.row ≤ b.row) ∧ ∀ e ∈ q.events, e.row < q.rows ∧ e.ch < 64 := by
  rw [decode] at h
  split at h
  · cases h
  · obtain rfl := Option.some.inj h
    rw [decodeEvents]
    split
    · exact ⟨.nil, by simp⟩
    · exact ⟨itEvents_sorted, fun e he => (itEvents_spec e he).2⟩

theorem events_ch (pat : Nat) : ∀ e ∈ m.events pat, e.ch < 64 := by
  intro e he
  rw [events] at he
  cases hq : m.decode pat with
  | none =>
    rw [hq] at he
    cases he
  | some q =>
    rw [hq] at he
    exact ((m.decode_spec hq).2 e he).2

/-! #### The walk -/

/-- The samples held on the channels. -/
def samples (w : ItWalk) (c : Nat) : Option Nat := (w.held c).map HeldNote.sample

def hold (held : Nat → Option Nat) (e : Ev) (c : Nat) : Option Nat :=
  if e.ch = c then if (m.sounded e).isSome then m.sounded e else if e.cut then none else held c else held c

theorem samples_update (w : ItWalk) (c₀ c : Nat) (note : Option HeldNote) :
    samples { w with held := Function.update w.held c₀ note } c = if c₀ = c then note.map HeldNote.sample else samples w c := by
  rw [samples, samples]
  by_cases hc : c₀ = c
  · subst hc
    simp
  · simp [hc, Ne.symm hc]

theorem event_samples (w : ItWalk) (e : Ev) : samples (m.event w e) = m.hold (samples w) e := by
  generalize hw₁ : (if e.cmd = 1 ∧ e.param ≠ 0 then { w with speed := e.param }
    else if e.cmd = 0x14 ∧ e.param ≥ 0x20 then { w with tempo := e.param } else w) = w₁
  have hheld : samples w₁ = samples w := by
    rw [← hw₁]
    split_ifs <;> rfl
  rw [event, hw₁, ← hheld]
  funext c
  rw [hold, sounded, Ev.cut]
  cases hnote : e.note with
  | none => simp
  | some note =>
    have hbig : ¬note < 120 → sampleForNote m.b m.h e.ins note = none := fun hge => by rw [sampleForNote, if_pos (by omega)]
    simp only [Option.bind_some, Option.some.injEq]
    by_cases hcut : note = 254 ∨ note = 255
    · rw [if_pos hcut, samples_update, hbig (by omega)]
      simp [hcut]
    · rw [if_neg hcut]
      by_cases hlt : note < 120
      · rw [if_pos hlt]
        cases hs : sampleForNote m.b m.h e.ins note with
        | none => simp [hcut]
        | some s =>
          simp only [samples_update]
          simp
      · rw [if_neg hlt, hbig hlt]
        simp [hcut]

/-- The time a row takes. -/
def tick (w : ItWalk) : ItWalk := { w with t := w.t + ROWSEC w.speed w.tempo }

theorem row_eq (r : Nat) (es : List Ev) (w : ItWalk) : m.row r es w = Channels.walkRow Ev.row m.event r es w := by
  induction es generalizing w with
  | nil => rfl
  | cons e es ih => rw [row, Channels.walkRow, ih]

theorem rows_eq (n r : Nat) (es : List Ev) (w : ItWalk) : m.rows n r es w = Channels.walkRows Ev.row m.event tick n r es w := by
  induction n generalizing r es w with
  | zero => rfl
  | succ n ih =>
    rw [rows, Channels.walkRows, ← row_eq]
    exact ih _ _ _

theorem walkOrder_samples (w : ItWalk) (pat : Nat) : samples (m.walkOrder w pat) = (m.events pat).foldl m.hold (samples w) := by
  rw [walkOrder, events]
  cases hq : m.decode pat with
  | none => rfl
  | some q =>
    obtain ⟨hsort, hspec⟩ := m.decode_spec hq
    show samples (m.rows q.rows 0 q.events w) = q.events.foldl m.hold (samples w)
    rw [rows_eq]
    exact Channels.walkRows_fold m.event_samples (fun w => show samples (tick w) = samples w from rfl) hsort
      (fun e he => ⟨Nat.zero_le _, by simpa using (hspec e he).1⟩) w

/-- The valid orders before the `vi`-th. -/
theorem take_orders (l : List Nat) (k vi : Nat) {n pat : Nat}
    (h : ((l.zipIdx k).map (fun (pat, i) => (i, pat)) |>.filter fun op => decide (op.2 < 254))[vi]? = some (n, pat)) :
    k ≤ n ∧ (l.take (n - k)).filter (· < 254) =
      (((l.zipIdx k).map (fun (pat, i) => (i, pat)) |>.filter fun op => decide (op.2 < 254)).take vi).map Prod.snd := by
  induction l generalizing k vi with
  | nil => simp at h
  | cons a l ih =>
    rw [List.zipIdx_cons, List.map_cons] at h ⊢
    by_cases ha : a < 254
    · rw [List.filter_cons_of_pos (by simpa using ha)] at h ⊢
      cases vi with
      | zero =>
        obtain ⟨rfl, -⟩ := Prod.mk.inj (Option.some.inj h)
        simp
      | succ vi =>
        obtain ⟨hle, heq⟩ := ih (k + 1) vi h
        obtain ⟨d, rfl⟩ := Nat.exists_eq_add_of_le hle
        refine ⟨by omega, ?_⟩
        rw [show k + 1 + d - (k + 1) = d by omega] at heq
        rw [show k + 1 + d - k = d + 1 by omega, List.take_succ_cons, List.take_succ_cons, List.map_cons,
          List.filter_cons_of_pos (by simpa using ha), heq]
    · rw [List.filter_cons_of_neg (by simpa using ha)] at h ⊢
      obtain ⟨hle, heq⟩ := ih (k + 1) vi h
      obtain ⟨d, rfl⟩ := Nat.exists_eq_add_of_le hle
      refine ⟨by omega, ?_⟩
      rw [show k + 1 + d - (k + 1) = d by omega] at heq
      rw [show k + 1 + d - k = d + 1 by omega, List.take_succ_cons, List.filter_cons_of_neg (by simpa using ha), heq]

theorem filter_orders (l : List Nat) (k : Nat) : l.filter (· < 254) =
    ((l.zipIdx k).map (fun (pat, i) => (i, pat)) |>.filter fun op => decide (op.2 < 254)).map Prod.snd := by
  induction l generalizing k with
  | nil => rfl
  | cons a l ih =>
    rw [List.zipIdx_cons, List.map_cons]
    by_cases ha : a < 254
    · rw [List.filter_cons_of_pos (by simpa using ha), List.filter_cons_of_pos (by simpa using ha), List.map_cons, ih (k + 1)]
    · rw [List.filter_cons_of_neg (by simpa using ha), List.filter_cons_of_neg (by simpa using ha), ih (k + 1)]

/-- The order a checkpoint stops at, the end behind the last. -/
def orderAt (i : Nat) : Nat := ((m.validOrders[i]?).map Prod.fst).getD m.h.ordNum

variable {m} in
theorem orders_before (hord : m.h.orders.length = m.h.ordNum) (i : Nat) :
    (m.h.orders.take (m.orderAt i)).filter (· < 254) = (m.validOrders.take i).map Prod.snd := by
  rw [orderAt]
  cases hi : m.validOrders[i]? with
  | none =>
    rw [List.take_of_length_le (List.getElem?_eq_none_iff.1 hi), Option.map_none, Option.getD_none, ← hord, List.take_length]
    exact filter_orders _ 0
  | some op => exact (take_orders m.h.orders 0 i hi).2

theorem played_add (n k : Nat) : m.played (n + k) = m.played n ++ m.span n k := by
  rw [played, List.take_add, List.flatMap_append]
  rfl

theorem walk_samples (pats : List Nat) (w : ItWalk) :
    samples (pats.foldl m.walkOrder w) = ((pats.filter (· < 254)).flatMap m.events).foldl m.hold (samples w) := by
  induction pats generalizing w with
  | nil => rfl
  | cons pat pats ih =>
    rw [List.foldl_cons, ih, walkOrder_samples]
    by_cases hpat : pat < 254
    · rw [List.filter_cons_of_pos (by simpa using hpat), List.flatMap_cons, List.foldl_append]
    · have hnone : m.events pat = [] := by rw [events, decode, if_pos (by omega), Option.map_none, Option.getD_none]
      rw [List.filter_cons_of_neg (by simpa using hpat), hnone, List.foldl_nil]

theorem mem_triggered {pat o : Nat} : o ∈ m.triggered pat ↔ ∃ e ∈ m.events pat, ∃ s, m.sounded e = some s ∧ m.offOf s = some o := by
  rw [triggered, events]
  cases m.decode pat with
  | none => simp
  | some q =>
    show o ∈ q.events.filterMap _ ↔ ∃ e ∈ q.events, _
    rw [List.mem_filterMap]
    refine exists_congr fun e => and_congr_right fun _ => ?_
    rw [sounded]
    cases e.note with
    | none => simp
    | some note =>
      by_cases hlt : note < 120
      · simp [hlt, Option.bind_eq_some_iff]
      · have : sampleForNote m.b m.h e.ins note = none := by rw [sampleForNote, if_pos (by omega)]
        rw [Option.filter_some_neg (by simpa using hlt), Option.bind_some, this]
        simp

theorem triggered_pats {pats : List Nat} {o : Nat} : o ∈ pats.flatMap m.triggered ↔ o ∈ (pats.filter (· < 254)).flatMap m.triggered := by
  simp only [List.mem_flatMap, List.mem_filter, decide_eq_true_eq]
  refine exists_congr fun pat => ?_
  constructor
  · rintro ⟨hpat, ho⟩
    refine ⟨⟨hpat, ?_⟩, ho⟩
    by_contra hge
    rw [triggered, decode, if_pos (by omega)] at ho
    cases ho
  · rintro ⟨⟨hpat, -⟩, ho⟩
    exact ⟨hpat, ho⟩

variable {m}

theorem orders_between (hord : m.h.orders.length = m.h.ordNum) (i k : Nat) :
    ((m.h.orders.take (m.orderAt (i + k))).drop (m.orderAt i)).filter (· < 254) =
      ((m.validOrders.drop i).take k).map Prod.snd := by
  have hi := orders_before hord i
  have hk := orders_before hord (i + k)
  rw [List.take_add, List.map_append, ← hi] at hk
  generalize m.orderAt i = a at hi hk ⊢
  generalize m.orderAt (i + k) = b at hk ⊢
  rw [List.drop_take]
  rcases Nat.le_total a b with hab | hba
  · obtain ⟨d, rfl⟩ := Nat.exists_eq_add_of_le hab
    rw [List.take_add, List.filter_append] at hk
    rw [Nat.add_sub_cancel_left]
    exact List.append_cancel_left hk
  · obtain ⟨d, rfl⟩ := Nat.exists_eq_add_of_le hba
    rw [List.take_add, List.filter_append, List.append_assoc] at hk
    have hnil := List.append_eq_nil_iff.1 (List.append_cancel_left (hk.symm.trans (List.append_nil _).symm))
    rw [Nat.sub_eq_zero_of_le hba, hnil.2]
    rfl

/-- A checkpoint lists what is held at its order and what sounds up to the next. -/
theorem mem_checkpointAt (hord : m.h.orders.length = m.h.ordNum) {vi o : Nat} :
    o ∈ (m.checkpointAt vi).residentOffsets ↔ m.song.rings vi m.stride o := by
  have hheld : ∀ c s, samples ((m.h.orders.take (m.orderAt vi)).foldl m.walkOrder m.walk0) c = some s ↔
      ∃ j e, Channels.Holds Ev.ch Ev.cut (fun _ => m.sounded) (m.played vi) j e s ∧ e.ch = c := by
    intro c s
    rw [walk_samples, orders_before hord, List.flatMap_map]
    exact Channels.held_iff (H := fun es => es.foldl m.hold fun _ => none) (fun _ => rfl)
      (fun es e c => by rw [List.foldl_append]; rfl) _ c s
  have hch : ∀ j e s, Channels.Holds Ev.ch Ev.cut (fun _ => m.sounded) (m.played vi) j e s → e.ch < 64 := by
    intro j e s h
    obtain ⟨op, -, he⟩ := List.mem_flatMap.1 (List.mem_of_getElem? h.sounds.event)
    exact m.events_ch op.2 e he
  show o ∈ sortedSet (_ ++ _) ↔ ∃ s, Channels.Rings Ev.ch Ev.cut (fun _ => m.sounded) (m.played vi) (m.span vi m.stride) s ∧ m.offOf s = some o
  simp only [mem_sortedSet, List.mem_append, Channels.Rings, or_and_right, exists_or]
  refine or_congr ?_ ?_
  · rw [List.mem_filterMap]
    constructor
    · rintro ⟨c, -, h⟩
      obtain ⟨note, hnote, ho⟩ := Option.bind_eq_some_iff.1 h
      obtain ⟨j, e, hholds, -⟩ := (hheld c note.sample).1 (congrArg (Option.map HeldNote.sample) hnote)
      exact ⟨note.sample, ⟨j, e, hholds⟩, ho⟩
    · rintro ⟨s, ⟨j, e, hholds⟩, ho⟩
      obtain ⟨note, hnote, rfl⟩ := Option.map_eq_some_iff.1 ((hheld e.ch s).2 ⟨j, e, hholds, rfl⟩)
      exact ⟨e.ch, List.mem_range.2 (hch j e _ hholds), Option.bind_eq_some_iff.2 ⟨note, hnote, ho⟩⟩
  · rw [triggered_pats]
    show o ∈ (((m.h.orders.take (m.orderAt (vi + m.stride))).drop (m.orderAt vi)).filter (· < 254)).flatMap m.triggered ↔ _
    rw [orders_between hord, List.flatMap_map]
    simp only [List.mem_flatMap, mem_triggered, Channels.exists_sounds_iff]
    constructor
    · rintro ⟨op, hop, e, he, s, hs, ho⟩
      obtain ⟨done, after, hspan⟩ : ∃ done after, m.span vi m.stride = done ++ e :: after :=
        List.mem_iff_append.1 (List.mem_flatMap.2 ⟨op, hop, he⟩)
      exact ⟨s, ⟨done, e, after, hspan, hs⟩, ho⟩
    · rintro ⟨s, ⟨done, e, after, hspan, hs⟩, ho⟩
      have he' : e ∈ m.span vi m.stride := List.mem_iff_append.2 ⟨done, after, hspan⟩
      obtain ⟨op, hop, he⟩ := List.mem_flatMap.1 he'
      exact ⟨op, hop, e, he, s, hs, ho⟩

theorem rings_of_event {vi n i o s : Nat} {op : Nat × Nat} {e : Ev} (hi : m.validOrders[i]? = some op) (hle : vi ≤ i) (hlt : i < vi + n)
    (he : e ∈ m.events op.2) (hs : m.sounded e = some s) (ho : m.offOf s = some o) : m.song.rings vi n o := by
  have hop : op ∈ (m.validOrders.drop vi).take n := by
    refine List.mem_of_getElem? (i := i - vi) ?_
    rw [List.getElem?_take_of_lt (by omega), List.getElem?_drop, Nat.add_sub_cancel' hle, hi]
  obtain ⟨done, after, hspan⟩ : ∃ done after, m.span vi n = done ++ e :: after :=
    List.mem_iff_append.1 (List.mem_flatMap.2 ⟨op, hop, he⟩)
  exact ⟨s, .inr (Channels.exists_sounds_iff.2 ⟨done, e, after, hspan, hs⟩), ho⟩

/-- What the tables take for a cell is what its event sounds. -/
theorem took_event {pat s : Nat} {earlier before after : List RawCell} {x : RawCell} (h : m.song.cells pat = before ++ x :: after)
    (hs : m.song.took earlier before x = some s) : ∃ e ∈ m.events pat, m.sounded e = some s := by
  obtain ⟨n, hn, hs⟩ := Option.bind_eq_some_iff.1 hs
  obtain ⟨l, r, htrace, rfl, hr⟩ := List.map_eq_append_iff.1 h
  obtain ⟨y, ta, rfl, rfl, rfl⟩ := List.map_eq_cons_iff.1 hr
  obtain ⟨ev, hev, hch, hnote, -, hins⟩ : ∃ ev, y.2 = some ev ∧ ev.ch = y.1.ch ∧ ev.note = some n ∧ n < 120 ∧
      ev.ins = lastByte (fun _ => 0) (l.map Prod.fst ++ [y.1]) y.1.ch := by
    rw [trace] at htrace
    split at htrace
    · simp at htrace
    · rw [decodeCells] at htrace
      split at htrace
      · simp at htrace
      · exact itTrace_note htrace hn
  refine ⟨ev, ?_, ?_⟩
  · rw [← trace_events]
    exact List.mem_filterMap.2 ⟨y, by simp [htrace], hev⟩
  · rw [sounded, hnote, Option.bind_some, hins]
    exact hs

end ItModel

/-! ### XM -/

def xmRaw (b : Bytes) (p c : Nat) : RawCell :=
  let first := at0 b p
  let packed := hasBit first 0x80
  let has (mask : Nat) : Bool := !packed || hasBit first mask
  let p := if packed then p + 1 else p
  let note := if has 0x01 then at0 b p else 0
  let p := if has 0x01 then p + 1 else p
  ⟨c, if note > 0 ∧ note < 97 then some note else none, if has 0x02 then some (at0 b p) else none⟩

def xmTraceRow (b : Bytes) (x : XmSamples) (nins stop row : Nat) : Nat → Nat → Nat → List (RawCell × Option SimEvent) × Nat
  | 0, _, p => ([], p)
  | n + 1, c, p =>
    if p < stop then
      let (es, p'') := xmTraceRow b x nins stop row n (c + 1) (xmCell b x nins p row c).2
      ((xmRaw b p c, (xmCell b x nins p row c).1) :: es, p'')
    else ([], p)

/-- The cells of a pattern, each with the event it makes. -/
def xmTraceRows (b : Bytes) (x : XmSamples) (nins numCh stop : Nat) : Nat → Nat → Nat → List (RawCell × Option SimEvent)
  | 0, _, _ => []
  | n + 1, row, p =>
    if p < stop then
      let (es, p') := xmTraceRow b x nins stop row numCh 0 p
      es ++ xmTraceRows b x nins numCh stop n (row + 1) p'
    else []

def xmTrace (b : Bytes) (x : XmSamples) (pats : List XmPattern) (nins numCh pat : Nat) : List (RawCell × Option SimEvent) :=
  match pats[pat]? with
  | some pi => xmTraceRows b x nins numCh (min (pi.dataStart + pi.packed) b.length) pi.rows 0 pi.dataStart
  | none => []

namespace XmSamples
variable (x : XmSamples) (nins : Nat)

/-- The sample a note of an instrument plays. -/
def sampleOf (ins note : Nat) : Option Nat := (x.slotOf nins ins note).filter (· < x.offsets.length)

/-- The sample a cell names with its note. -/
def chosen (y : RawCell) : Option Nat := y.note.bind (x.sampleOf nins (y.ins.getD 0))

/-- The sample that the channel's last note with an instrument chose, the latest cell first. -/
def latched (ch : Nat) : List RawCell → Option Nat
  | [] => none
  | y :: before => if y.ch = ch then x.chosen nins y <|> latched ch before else latched ch before

/-- What the event of a cell has of it. -/
structure Agrees (y : RawCell) (e : Option SimEvent) : Prop where
  event : ∀ ev, e = some ev → ev.ch = y.ch ∧ ev.hasNote = y.note.isSome ∧ ev.explicitSample = x.chosen nins y
  note : y.note.isSome → e.isSome

variable {x nins}

theorem chosen_none {y : RawCell} (h : y.note.isSome = false) : x.chosen nins y = none := by
  rw [chosen, Option.isSome_eq_false_iff.1 h |> Option.isNone_iff_eq_none.1, Option.bind_none]

theorem xmCell_agrees {b : Bytes} {p row c : Nat} : x.Agrees nins (xmRaw b p c) (xmCell b x nins p row c).1 := by
  obtain ⟨e, he, hch, hnote, hex⟩ : ∃ e : SimEvent, (xmCell b x nins p row c).1 = e.kept ∧ e.ch = c ∧
      e.hasNote = (xmRaw b p c).note.isSome ∧ e.explicitSample = x.chosen nins (xmRaw b p c) := by
    have hsome : ∀ note, decide (note > 0 ∧ note < 97) = (if note > 0 ∧ note < 97 then some note else none).isSome := by
      intro note
      by_cases hnote : note > 0 ∧ note < 97 <;> simp [hnote]
    have hslot : ∀ (has : Bool) (note ins : Nat),
        (if decide (note > 0 ∧ note < 97) then
          (x.slotOf nins (if has then ins else 0) note).filter (· < x.offsets.length) else none) =
        (if note > 0 ∧ note < 97 then some note else none).bind
          (x.sampleOf nins ((if has then some ins else none).getD 0)) := by
      intro has note ins
      by_cases hnote : note > 0 ∧ note < 97
      · cases has <;> simp [hnote, sampleOf]
      · simp [hnote]
    exact ⟨_, rfl, rfl, hsome _, hslot _ _ _⟩
  constructor
  · intro ev hev
    obtain rfl := SimEvent.kept_eq (he ▸ hev)
    exact ⟨hch, hnote, hex⟩
  · intro hsome
    rw [he, SimEvent.kept, if_pos (.inl (hnote.trans hsome))]
    rfl

theorem recent_trace {l : List (RawCell × Option SimEvent)} (h : ∀ y ∈ l, x.Agrees nins y.1 y.2) (ch : Nat) :
    recent ch (l.filterMap Prod.snd) = x.latched nins ch (l.map Prod.fst) := by
  induction l with
  | nil => rfl
  | cons y l ih =>
    have hy := h y (by simp)
    have ih := ih fun y' hy' => h y' (by simp [hy'])
    rw [List.map_cons, latched]
    cases hev : y.2 with
    | none =>
      have hnote : y.1.note.isSome = false := by
        have := hy.note
        rw [hev] at this
        simpa using this
      rw [List.filterMap_cons_none hev, ih, chosen_none hnote]
      simp
    | some e =>
      obtain ⟨hch, hnote, hex⟩ := hy.event e hev
      rw [List.filterMap_cons_some hev, recent, ih, hch, hnote, hex]
      by_cases hc : y.1.ch = ch
      · cases hn : y.1.note.isSome with
        | false => simp [hc, chosen_none hn]
        | true => simp [hc]
      · simp [hc]

variable {b : Bytes} {numCh stop row n c p : Nat} {pats : List XmPattern}

theorem xmTraceRow_spec : (xmTraceRow b x nins stop row n c p).1.filterMap Prod.snd = (xmRow b x nins stop row n c p).1 ∧
    (xmTraceRow b x nins stop row n c p).2 = (xmRow b x nins stop row n c p).2 ∧
    ∀ y ∈ (xmTraceRow b x nins stop row n c p).1, x.Agrees nins y.1 y.2 := by
  induction n generalizing c p with
  | zero => exact ⟨rfl, rfl, by simp [xmTraceRow]⟩
  | succ n ih =>
    rw [xmTraceRow, xmRow]
    split
    · obtain ⟨hev, hstop, hag⟩ := ih (c := c + 1) (p := (xmCell b x nins p row c).2)
      refine ⟨?_, hstop, fun y hy => ?_⟩
      · simp only [List.filterMap_cons, hev]
        cases (xmCell b x nins p row c).1 <;> rfl
      · rcases List.mem_cons.1 hy with rfl | hy
        · exact xmCell_agrees
        · exact hag y hy
    · exact ⟨rfl, rfl, by simp⟩

theorem xmTraceRows_spec : (xmTraceRows b x nins numCh stop n row p).filterMap Prod.snd = xmRows b x nins numCh stop n row p ∧
    ∀ y ∈ xmTraceRows b x nins numCh stop n row p, x.Agrees nins y.1 y.2 := by
  induction n generalizing row p with
  | zero => exact ⟨rfl, by simp [xmTraceRows]⟩
  | succ n ih =>
    rw [xmTraceRows, xmRows]
    split
    · obtain ⟨hev, hstop, hag⟩ : (xmTraceRow b x nins stop row numCh 0 p).1.filterMap Prod.snd =
          (xmRow b x nins stop row numCh 0 p).1 ∧ _ ∧ _ := xmTraceRow_spec
      simp only
      rw [List.filterMap_append, hev, hstop, ih.1]
      refine ⟨rfl, fun y hy => ?_⟩
      rcases List.mem_append.1 hy with hy | hy
      · exact hag y hy
      · exact ih.2 y hy
    · exact ⟨rfl, by simp⟩

theorem xmTrace_spec (pat : Nat) :
    (xmTrace b x pats nins numCh pat).filterMap Prod.snd = ((xmDecode b x pats nins numCh pat).map Pattern.events).getD [] ∧
    ∀ y ∈ xmTrace b x pats nins numCh pat, x.Agrees nins y.1 y.2 := by
  rw [xmTrace, xmDecode]
  cases pats[pat]? with
  | none => exact ⟨rfl, by simp⟩
  | some pi => exact xmTraceRows_spec

end XmSamples

section
variable (b : Bytes) (pats : List XmPattern) (x : XmSamples)

def xmSong : Song where
  positions := (xmModel b pats x).orderPats
  cells pat := (xmTrace b x pats (u16le b 72) (u16le b 68) pat).map Prod.fst
  sampleOf := x.sampleOf (u16le b 72)
  offsetOf := (xmModel b pats x).offsetOf
  took earlier inPattern y := y.note.bind fun _ => x.latched (u16le b 72) y.ch (earlier ++ inPattern).reverse
  rings pos n o :=
    (∃ j e s, Holds ((xmModel b pats x).played pos) j e s ∧ (xmModel b pats x).offsetOf s = some o) ∨
      ∃ j e s, ((xmModel b pats x).played pos).length ≤ j ∧ Sounds ((xmModel b pats x).played (pos + n)) j e s ∧
        (xmModel b pats x).offsetOf s = some o

/-- The cells of the first `n` positions, each with its event. -/
def xmTraced (n : Nat) : List (RawCell × Option SimEvent) :=
  ((xmModel b pats x).orderPats.take n).flatMap fun op => xmTrace b x pats (u16le b 72) (u16le b 68) op.2

variable {b pats x}

theorem xmTraced_events (n : Nat) : (xmTraced b pats x n).filterMap Prod.snd = (xmModel b pats x).played n := by
  rw [xmTraced, SimModel.played, List.filterMap_flatMap]
  exact List.flatMap_congr fun op _ => (XmSamples.xmTrace_spec op.2).1

theorem xmTraced_cells (n : Nat) : (xmTraced b pats x n).map Prod.fst = (xmSong b pats x).earlier n := by
  rw [xmTraced, List.map_flatMap]
  rfl

theorem xmTraced_agrees {n : Nat} : ∀ y ∈ xmTraced b pats x n, x.Agrees (u16le b 72) y.1 y.2 := by
  intro y hy
  obtain ⟨op, -, hy⟩ := List.mem_flatMap.1 hy
  exact (XmSamples.xmTrace_spec op.2).2 y hy

/-- What the tables take for a note without an instrument is what its event sounds. -/
theorem xm_took_rings {pos a n o s : Nat} {op : Nat × Nat} {before after : List RawCell} {y : RawCell}
    (hop : (xmModel b pats x).orderPats[pos]? = some op) (ha : a ≤ pos) (hn : pos < a + n)
    (hcells : (xmSong b pats x).cells op.2 = before ++ y :: after) (hbare : y.ins.getD 0 = 0)
    (hs : (xmSong b pats x).took ((xmSong b pats x).earlier pos) before y = some s)
    (ho : (xmSong b pats x).offsetOf s = some o) : (xmSong b pats x).rings a n o := by
  obtain ⟨note, hnote, hs⟩ := Option.bind_eq_some_iff.1 hs
  obtain ⟨l, r, htrace, rfl, hr⟩ := List.map_eq_append_iff.1 hcells
  obtain ⟨z, r, rfl, rfl, rfl⟩ := List.map_eq_cons_iff.1 hr
  obtain ⟨hevents, hagrees⟩ : _ = ((xmDecode b x pats (u16le b 72) (u16le b 68) op.2).map Pattern.events).getD [] ∧ _ :=
    XmSamples.xmTrace_spec op.2
  rw [htrace] at hevents hagrees
  have hz := hagrees z (by simp)
  obtain ⟨e, he⟩ := Option.isSome_iff_exists.1 (hz.note (by rw [hnote]; rfl))
  obtain ⟨hch, hhas, hex⟩ := hz.event e he
  have hplayed : ∃ rest, (xmModel b pats x).played (a + n) =
      ((xmModel b pats x).played pos ++ l.filterMap Prod.snd) ++ e :: rest := by
    obtain ⟨hlt, hget⟩ := List.getElem?_eq_some_iff.1 hop
    obtain ⟨k, hk⟩ : ∃ k, a + n = pos + (k + 1) := ⟨a + n - pos - 1, by omega⟩
    rw [List.filterMap_append, List.filterMap_cons_some he] at hevents
    rw [hk, SimModel.played_add, List.drop_eq_getElem_cons hlt, hget, List.take_succ_cons, List.flatMap_cons, SimModel.events]
    refine ⟨r.filterMap Prod.snd ++
      (((xmModel b pats x).orderPats.drop (pos + 1)).take k).flatMap fun op => (xmModel b pats x).events op.2, ?_⟩
    rw [show ((xmModel b pats x).decode op.2) = xmDecode b x pats (u16le b 72) (u16le b 68) op.2 from rfl, ← hevents]
    simp only [List.append_assoc, List.cons_append]
  have hrecent : recent z.1.ch ((xmModel b pats x).played pos ++ l.filterMap Prod.snd).reverse = some s := by
    have hall : ∀ y ∈ (xmTraced b pats x pos ++ l).reverse, x.Agrees (u16le b 72) y.1 y.2 := by
      intro y hy
      rcases List.mem_append.1 (List.mem_reverse.1 hy) with hy | hy
      · exact xmTraced_agrees y hy
      · exact hagrees y (List.mem_append_left _ hy)
    rw [← xmTraced_events, ← List.filterMap_append, ← List.filterMap_reverse, XmSamples.recent_trace hall,
      List.map_reverse, List.map_append, xmTraced_cells]
    exact hs
  have hchosen : e.explicitSample = none := by
    rw [hex, XmSamples.chosen, hnote, hbare]
    rfl
  obtain ⟨rest, hplayed⟩ := hplayed
  refine .inr ⟨_, e, s, ?_, sounds_iff.2 (hplayed ▸ Channels.sounds_length.2 ⟨rfl, ?_⟩), ho⟩
  · have hsub : ((xmModel b pats x).played a).length ≤ ((xmModel b pats x).played pos).length := by
      obtain ⟨k, rfl⟩ := Nat.exists_eq_add_of_le ha
      rw [SimModel.played_add, List.length_append]
      exact Nat.le_add_right _ _
    rw [List.length_append]
    exact hsub.trans (Nat.le_add_right _ _)
  · refine SimEvent.sounded_eq_some.2 ⟨by rw [hhas, hnote]; rfl, ?_⟩
    rw [hchosen, hch, hrecent]
    rfl

end

/-! ### Both -/

/-- What is read of an XM file before its tables are made. -/
def xmParts (b : Bytes) : Option (List XmPattern × XmSamples) :=
  if b.length < 80 ∨ tag4 b 0 ≠ ['E', 'x', 't', 'e'] then none
  else if u16le b 68 = 0 ∨ u16le b 68 > 64 then none
  else (xmPatterns b (u16le b 70) (60 + u32le b 60)).map fun (pats, pos) => (pats, xmSamples b (u16le b 72) pos ⟨[], []⟩)

theorem xmTables_eq (b : Bytes) : xmTables b = (xmParts b).map fun (pats, x) => simulateTables (xmModel b pats x) := by
  rw [xmTables, xmParts]
  split_ifs with hfile hch
  · rfl
  · simp only
    rw [if_pos hch]
    rfl
  · simp only
    rw [if_neg hch]
    cases xmPatterns b (u16le b 70) (60 + u32le b 60) <;> rfl

def songOf (b : Bytes) : Format → Option Song
  | .it | .mptm => (readHeader b).map fun h => (ItModel.mk b h (itSampleOffsets b h)).song
  | .xm => (xmParts b).map fun (pats, x) => xmSong b pats x
  | _ => none

/-- The checkpoint of every played position lists the samples of its notes without an instrument. -/
def Song.ReuseCovered (g : Song) (t : SeekTables) : Prop :=
  ∀ pos op c before y after o, g.positions[pos]? = some op → t.checkpoints[pos / g.stride]? = some c →
    g.cells op.2 = before ++ y :: after → g.Reuses (g.earlier pos ++ before) y o → o ∈ c.residentOffsets

/-- What the tables of a format are made of: a checkpoint every `stride` positions that lists what rings there. -/
structure Song.Lists (g : Song) (t : SeekTables) : Prop where
  covered : ∀ k, k * g.stride < g.positions.length → ∃ c, t.checkpoints[k]? = some c ∧
    (g.positions[k * g.stride]?).map Prod.fst = some c.order ∧ ∀ o, o ∈ c.residentOffsets ↔ g.rings (k * g.stride) g.stride o
  took : ∀ {pos a n op before y after o}, g.positions[pos]? = some op → a ≤ pos → pos < a + n →
    g.cells op.2 = before ++ y :: after → y.ins.getD 0 = 0 →
    (g.took (g.earlier pos) before y).bind g.offsetOf = some o → g.rings a n o

theorem readHeader_orders {b : Bytes} {h : ItHeader} (hh : readHeader b = some h) : h.orders.length = h.ordNum := by
  rw [readHeader] at hh
  split at hh
  · cases hh
  · simp only at hh
    split at hh
    · cases hh
    · obtain rfl := Option.some.inj hh
      exact (List.length_map _).trans List.length_range

theorem ItModel.lists {m : ItModel} (hord : m.h.orders.length = m.h.ordNum) : m.song.Lists m.tables where
  covered k hk := by
    refine ⟨_, (checkpointList_get (Nat.le_max_left _ _)).2 ⟨hk, rfl⟩, ?_, fun o => mem_checkpointAt hord⟩
    show (m.validOrders[k * m.stride]?).map Prod.fst = some (((m.validOrders[k * m.stride]?).map Prod.fst).getD m.h.ordNum)
    have hlt : k * m.stride < m.validOrders.length := hk
    rw [List.getElem?_eq_getElem hlt]
    rfl
  took hop ha hn hcells hbare ho := by
    obtain ⟨s, hs, ho⟩ := Option.bind_eq_some_iff.1 ho
    obtain ⟨e, he, hsound⟩ := took_event hcells hs
    exact rings_of_event hop ha hn he hsound ho

theorem xmSong_lists {b : Bytes} {pats : List XmPattern} {x : XmSamples} :
    (xmSong b pats x).Lists (simulateTables (xmModel b pats x)) where
  covered k hk := ⟨_, (xmModel b pats x).checkpoints_get.2 ⟨hk, rfl⟩, (xmModel b pats x).checkpointAt_order hk,
    fun _ => (xmModel b pats x).mem_residentOffsets⟩
  took hop ha hn hcells hbare ho := by
    obtain ⟨s, hs, ho⟩ := Option.bind_eq_some_iff.1 ho
    exact xm_took_rings hop ha hn hcells hbare hs ho

theorem songOf_lists {b : Bytes} {fmt : Format} {t : SeekTables} (hfmt : fmt = .it ∨ fmt = .mptm ∨ fmt = .xm)
    (ht : computeSeekTables b fmt = some t) : ∃ g, songOf b fmt = some g ∧ g.Lists t := by
  have hit : computeItTables b = some t →
      ∃ g, ((readHeader b).map fun h => (ItModel.mk b h (itSampleOffsets b h)).song) = some g ∧ g.Lists t := by
    intro ht
    obtain ⟨h, hh, rfl⟩ := Option.map_eq_some_iff.1 ht
    exact ⟨_, Option.map_eq_some_iff.2 ⟨h, hh, rfl⟩, ItModel.lists (readHeader_orders hh)⟩
  rcases hfmt with rfl | rfl | rfl
  · exact hit ht
  · exact hit ht
  · rw [computeSeekTables, xmTables_eq] at ht
    obtain ⟨⟨pats, x⟩, hparts, rfl⟩ := Option.map_eq_some_iff.1 ht
    exact ⟨_, Option.map_eq_some_iff.2 ⟨_, hparts, rfl⟩, xmSong_lists⟩

/-- The checkpoint of a position lists the sample of a note without an instrument exactly when the tables take one at that
offset for it, or another note that rings up to the next checkpoint plays one. -/
theorem reuse_covered {b : Bytes} {fmt : Format} {t : SeekTables} (hfmt : fmt = .it ∨ fmt = .mptm ∨ fmt = .xm)
    (ht : computeSeekTables b fmt = some t) : ∃ g, songOf b fmt = some g ∧ ∀ pos op, g.positions[pos]? = some op →
      ∃ c, t.checkpoints[pos / g.stride]? = some c ∧ (g.positions[pos / g.stride * g.stride]?).map Prod.fst = some c.order ∧
        ∀ before y after o, g.cells op.2 = before ++ y :: after → g.Reuses (g.earlier pos ++ before) y o →
          (o ∈ c.residentOffsets ↔ (g.took (g.earlier pos) before y).bind g.offsetOf = some o ∨
            g.rings (pos / g.stride * g.stride) g.stride o) := by
  obtain ⟨g, hg, hlists⟩ := songOf_lists hfmt ht
  refine ⟨g, hg, fun pos op hop => ?_⟩
  have hstride : 0 < g.stride := Nat.le_max_left _ _
  have hle := Nat.div_mul_le_self pos g.stride
  have hlt := Nat.lt_div_mul_add (a := pos) hstride
  have hpos := (List.getElem?_eq_some_iff.1 hop).1
  obtain ⟨c, hc, horder, hmem⟩ := hlists.covered (pos / g.stride) (by omega)
  refine ⟨c, hc, horder, fun before y after o hcells hreuse => ?_⟩
  rw [hmem]
  exact ⟨.inr, fun h => h.elim (hlists.took hop hle hlt hcells hreuse.bare) id⟩

/-- An IT file of two patterns of 32 rows: the first names instrument 1 on channel 0 and cuts its note, the second has a note
without an instrument there. -/
def forgetful : Bytes :=
  let pattern (data : Bytes) : Bytes := [UInt8.ofNat data.length, 0, 32, 0, 0, 0, 0, 0] ++ data
  let header : Bytes := [0x49, 0x4d, 0x50, 0x4d] ++ List.replicate 28 0 ++ [2, 0, 0, 0, 1, 0, 2, 0] ++ List.replicate 10 0 ++
    [6, 125] ++ List.replicate 140 0
  let sample : Bytes := [0x49, 0x4d, 0x50, 0x53] ++ List.replicate 14 0 ++ [1] ++ List.replicate 29 0 ++ [4, 0, 0, 0] ++
    List.replicate 20 0 ++ [0x78, 1, 0, 0] ++ List.replicate 4 0
  header ++ [0, 1] ++ [0xce, 0, 0, 0] ++ [0x1e, 1, 0, 0, 0x4d, 1, 0, 0] ++ sample ++
    pattern ([129, 3, 60, 1, 0, 129, 1, 254, 0] ++ List.replicate 30 0) ++ pattern ([129, 1, 60] ++ List.replicate 32 0) ++ [1, 2, 3, 4]

/-- An XM file of one pattern: a row names instrument 1 on channel 0 without a note, the next has a note without an instrument. -/
def instrumentAlone : Bytes :=
  let header : Bytes := [0x45, 0x78, 0x74, 0x65, 0x6e, 0x64, 0x65, 0x64, 0x20, 0x4d, 0x6f, 0x64, 0x75, 0x6c, 0x65, 0x3a, 0x20] ++
    List.replicate 20 0x20 ++ [0x1a] ++ List.replicate 20 0x20 ++ [4, 1]
  let orders : Bytes := [20, 1, 0, 0, 1, 0, 0, 0, 2, 0, 1, 0, 1, 0, 1, 0, 6, 0, 125, 0] ++ List.replicate 256 0
  let pattern : Bytes := [9, 0, 0, 0, 0, 2, 0, 6, 0] ++ [0x82, 1, 0x80, 0x81, 49, 0x80]
  let instrument : Bytes := [7, 1, 0, 0] ++ List.replicate 23 0 ++ [1, 0, 40, 0, 0, 0] ++ List.replicate 230 0
  header ++ orders ++ pattern ++ instrument ++ [4, 0, 0, 0] ++ List.replicate 36 0 ++ [1, 2, 3, 4]

/-- A note without an instrument that position `k` has and its checkpoint misses. -/
structure Song.Missed (g : Song) (t : SeekTables) (k pat o : Nat) (before : List RawCell) (y : RawCell) (after : List RawCell) :
    Prop where
  stride : g.stride = 1
  position : (g.positions[k]?).map Prod.snd = some pat
  cells : g.cells pat = before ++ y :: after
  bare : y.ins.getD 0 = 0
  plays : (y.note.bind (g.sampleOf (named y.ch (g.earlier k ++ before).reverse))).bind g.offsetOf = some o
  missed : ∃ c ∈ t.checkpoints[k]?, o ∉ c.residentOffsets

theorem Song.Missed.not_reuseCovered {g : Song} {t : SeekTables} {k pat o : Nat} {before after : List RawCell} {y : RawCell}
    (h : g.Missed t k pat o before y after) : ¬g.ReuseCovered t := by
  intro hcovered
  obtain ⟨c, hc, ho⟩ := h.missed
  obtain ⟨op, hop, rfl⟩ := Option.map_eq_some_iff.1 h.position
  exact ho (hcovered k op c before y after o hop (by rw [h.stride, Nat.div_one]; exact hc) h.cells ⟨h.bare, h.plays⟩)

theorem Song.missed_iff {g : Song} {t : SeekTables} {k pat o : Nat} {before after : List RawCell} {y : RawCell} :
    g.Missed t k pat o before y after ↔ g.stride = 1 ∧ (g.positions[k]?).map Prod.snd = some pat ∧
      g.cells pat = before ++ y :: after ∧ y.ins.getD 0 = 0 ∧
      (y.note.bind (g.sampleOf (named y.ch (g.earlier k ++ before).reverse))).bind g.offsetOf = some o ∧
      ∃ c ∈ t.checkpoints[k]?, o ∉ c.residentOffsets := by
  constructor
  · exact fun h => ⟨h.stride, h.position, h.cells, h.bare, h.plays, h.missed⟩
  · rintro ⟨h₁, h₂, h₃, h₄, h₅, h₆⟩
    exact ⟨h₁, h₂, h₃, h₄, h₅, h₆⟩

instance {g : Song} {t : SeekTables} {k pat o : Nat} {before after : List RawCell} {y : RawCell} :
    Decidable (g.Missed t k pat o before y after) := decidable_of_iff _ Song.missed_iff.symm

theorem it_tables {b : Bytes} (h : (readHeader b).isSome) : ∃ t, computeSeekTables b .it = some t := by
  obtain ⟨h, hh⟩ := Option.isSome_iff_exists.1 h
  exact ⟨_, Option.map_eq_some_iff.2 ⟨h, hh, rfl⟩⟩

theorem it_missed {b : Bytes} {k pat o : Nat} {before after : List RawCell} {y : RawCell}
    (h : ∃ h ∈ readHeader b, (ItModel.mk b h (itSampleOffsets b h)).song.Missed (ItModel.mk b h (itSampleOffsets b h)).tables
      k pat o before y after) :
    ∃ t g, computeSeekTables b .it = some t ∧ songOf b .it = some g ∧ ¬g.ReuseCovered t := by
  obtain ⟨h, hh, hmissed⟩ := h
  exact ⟨_, _, Option.map_eq_some_iff.2 ⟨h, hh, rfl⟩, Option.map_eq_some_iff.2 ⟨h, hh, rfl⟩, hmissed.not_reuseCovered⟩

theorem xm_missed {b : Bytes} {k pat o : Nat} {before after : List RawCell} {y : RawCell}
    (h : ∃ parts ∈ xmParts b, (xmSong b parts.1 parts.2).Missed (simulateTables (xmModel b parts.1 parts.2)) k pat o before y after) :
    ∃ t g, computeSeekTables b .xm = some t ∧ songOf b .xm = some g ∧ ¬g.ReuseCovered t := by
  obtain ⟨parts, hparts, hmissed⟩ := h
  refine ⟨_, _, ?_, Option.map_eq_some_iff.2 ⟨parts, hparts, rfl⟩, hmissed.not_reuseCovered⟩
  rw [computeSeekTables, xmTables_eq]
  exact Option.map_eq_some_iff.2 ⟨parts, hparts, rfl⟩

/-- Neither format covers every note whose instrument was named in an earlier pattern, or on a cell without a note. -/
theorem reuse_missed :
    (∃ t g, computeSeekTables forgetful .it = some t ∧ songOf forgetful .it = some g ∧ ¬g.ReuseCovered t) ∧
    ∃ t g, computeSeekTables instrumentAlone .xm = some t ∧ songOf instrumentAlone .xm = some g ∧ ¬g.ReuseCovered t := by
  have hit : ∃ h ∈ readHeader forgetful, (ItModel.mk forgetful h (itSampleOffsets forgetful h)).song.Missed
      (ItModel.mk forgetful h (itSampleOffsets forgetful h)).tables 1 1 376 [] ⟨0, some 60, none⟩ [] := by
    decide +kernel
  have hxm : ∃ parts ∈ xmParts instrumentAlone, (xmSong instrumentAlone parts.1 parts.2).Missed
      (simulateTables (xmModel instrumentAlone parts.1 parts.2)) 0 0 654 [⟨0, none, some 1⟩, ⟨1, none, none⟩] ⟨0, some 49, none⟩
      [⟨1, none, none⟩] := by
    decide +kernel
  exact ⟨it_missed hit, xm_missed hxm⟩

theorem reuse_covered_forgetful : ∃ t, computeSeekTables forgetful .it = some t ∧ ∃ g, songOf forgetful .it = some g ∧
    ∀ pos op, g.positions[pos]? = some op →
      ∃ c, t.checkpoints[pos / g.stride]? = some c ∧ (g.positions[pos / g.stride * g.stride]?).map Prod.fst = some c.order ∧
        ∀ before y after o, g.cells op.2 = before ++ y :: after → g.Reuses (g.earlier pos ++ before) y o →
          (o ∈ c.residentOffsets ↔ (g.took (g.earlier pos) before y).bind g.offsetOf = some o ∨
            g.rings (pos / g.stride * g.stride) g.stride o) := by
  have hsome : (readHeader forgetful).isSome := by decide +kernel
  obtain ⟨t, ht⟩ := it_tables hsome
  exact ⟨t, ht, reuse_covered (.inl rfl) ht⟩

end TrackerStream
