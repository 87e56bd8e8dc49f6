import TrackerStream.SeekSim

/-!
# Seek tables of the formats (`seek.ts`)

The MOD, S3M and XM adapters decode their patterns and hand them to `simulateTables`; IT and MPTM keep a
walk of their own, over instruments. `computeSeekTables` picks by format. None of the adapters can throw,
so `none` here is the `null` of a structural surprise.
-/

namespace TrackerStream

/-- A byte of the file, `none` for the `undefined` past its end. -/
def at? (b : Bytes) (i : Nat) : Option Nat := b[i]?.map UInt8.toNat

/-- `x || d` for a number. -/
def orDefault (x d : Nat) : Nat := if x ≠ 0 then x else d

/-- The order-list entries `read` accepts, in list order. -/
def playedOrders (n : Nat) (read : Nat → Option Nat) : List (Nat × Nat) :=
  (List.range n).filterMap fun i => (read i).map fun pat => (i, pat)

theorem playedOrders_increasing (n : Nat) (read : Nat → Option Nat) :
    (playedOrders n read).Pairwise fun a b => a.1 < b.1 := by
  refine List.Pairwise.filterMap _ (fun a a' hlt b hb b' hb' => ?_) List.pairwise_lt_range
  obtain ⟨p, -, rfl⟩ := Option.map_eq_some_iff.1 hb
  obtain ⟨p', -, rfl⟩ := Option.map_eq_some_iff.1 hb'
  exact hlt

/-- The event of a cell, dropped when nothing happens on it. -/
def SimEvent.kept (e : SimEvent) : Option SimEvent :=
  if e.hasNote ∨ e.explicitSample.isSome ∨ e.off ∨ e.setSpeed ≠ 0 ∨ e.setTempo ≠ 0 then some e else none

theorem SimEvent.kept_eq {e e' : SimEvent} (h : e.kept = some e') : e' = e := by
  unfold kept at h
  split at h
  · exact (Option.some.inj h).symm
  · cases h

/-- A pattern without cells. -/
def Pattern.empty (rows : Nat) : Pattern := ⟨rows, [], .nil, by simp⟩

/-- A pattern given row by row. -/
def Pattern.ofRows (rows : Nat) (row : Nat → List SimEvent) (h : ∀ r, ∀ e ∈ row r, e.row = r) : Pattern where
  rows := rows
  events := (List.range rows).flatMap row
  sorted := by
    refine List.pairwise_flatMap.2 ⟨fun r _ => List.pairwise_of_forall_mem_list fun a ha b hb => ?_, ?_⟩
    · rw [h r a ha, h r b hb]
    · refine List.pairwise_lt_range.imp fun hlt a ha b hb => ?_
      rw [h _ a ha, h _ b hb]
      exact Nat.le_of_lt hlt
  row_lt e he := by
    obtain ⟨r, hr, he⟩ := List.mem_flatMap.1 he
    rw [h r e he]
    exact List.mem_range.1 hr

/-! ### MOD -/

/-- Data offsets of the 31 samples: none for an empty one, and for those behind the first one cut off. -/
def modOffsets (fileLen : Nat) : List Nat → Nat → List (Option Nat)
  | [], _ => []
  | n :: ns, off =>
    if n ≤ 2 then none :: modOffsets fileLen ns off
    else if off + n > fileLen then some off :: ns.map fun _ => none
    else some off :: modOffsets fileLen ns (off + n)

def modCell (b : Bytes) (cell row c : Nat) : Option SimEvent :=
  let sample := (at0 b cell &&& 0xf0) ||| (at0 b (cell + 2) >>> 4)
  let period := ((at0 b cell &&& 0x0f) <<< 8) ||| at0 b (cell + 1)
  let cmd := at0 b (cell + 2) &&& 0x0f
  let param := at0 b (cell + 3)
  let setSpeed := if cmd = 0x0f ∧ param > 0 ∧ param < 0x20 then param else 0
  let setTempo := if cmd = 0x0f ∧ param > 0 ∧ ¬ param < 0x20 then param else 0
  let hasNote := decide (period > 0)
  let explicitSample := if sample > 0 then some (sample - 1) else none
  SimEvent.kept ⟨row, c, explicitSample, hasNote, period, false, setSpeed, setTempo⟩

theorem modCell_spec {b : Bytes} {cell row c : Nat} {e : SimEvent} (h : modCell b cell row c = some e) :
    e.row = row ∧ e.ch = c := by
  rw [SimEvent.kept_eq h]
  exact ⟨rfl, rfl⟩

def modRow (b : Bytes) (ch base row : Nat) : List SimEvent :=
  (List.range ch).filterMap fun c => modCell b (base + (row * ch + c) * 4) row c

theorem modRow_spec {b : Bytes} {ch base row : Nat} : ∀ e ∈ modRow b ch base row, e.row = row ∧ e.ch < ch := by
  intro e he
  obtain ⟨c, hc, he⟩ := List.mem_filterMap.1 he
  obtain ⟨hrow, hch⟩ := modCell_spec he
  exact ⟨hrow, hch ▸ List.mem_range.1 hc⟩

def modDecode (b : Bytes) (ch pat : Nat) : Option Pattern :=
  let rowBytes := 64 * ch * 4
  let base := 1084 + pat * rowBytes
  some (if base + rowBytes ≤ b.length then .ofRows 64 (modRow b ch base) fun _ e he => (modRow_spec e he).1 else .empty 64)

theorem modDecode_ch {b : Bytes} {ch pat : Nat} {p : Pattern} (h : modDecode b ch pat = some p) :
    ∀ e ∈ p.events, e.ch < ch := by
  intro e he
  cases h
  split at he
  · obtain ⟨row, -, he⟩ := List.mem_flatMap.1 he
    exact (modRow_spec e he).2
  · simp [Pattern.empty] at he

def modModel (b : Bytes) (ch : Nat) : SimModel where
  orderPats := playedOrders (min (at0 b 950) 128) fun i => (at? b (952 + i)).filter (· ≤ modMaxPat b)
  speed0 := 6
  tempo0 := 125
  numChannels := ch
  decode := modDecode b ch
  offsetOf s := ((modOffsets b.length (modLengths b) (modDataStart b ch))[s]?).join
  orders_increasing := playedOrders_increasing _ _
  ch_lt _ _ := modDecode_ch

def modTables (b : Bytes) : Option SeekTables :=
  if b.length < 1084 then none
  else
    let ch := modChannels (tag4 b 1080)
    if ch = 0 then none else some (simulateTables (modModel b ch))

/-! ### S3M -/

/-- The data offset of the S3M instrument with parapointer `pp`. -/
def s3mOffset (b : Bytes) (pp : Nat) : Option Nat :=
  let off := pp * 16
  if pp = 0 ∨ off + 0x50 > b.length ∨ at0 b off ≠ 1 then none
  else
    let ptr := s3mPointer b off
    let len := u32le b (off + 0x10)
    if len = 0 ∨ ptr = 0 then none else if ptr < b.length then some ptr else none

/-- A packed cell that starts with the flag byte `what`; `p` is behind it. Gives the position behind the cell. -/
def s3mCell (b : Bytes) (what p row : Nat) : Option SimEvent × Nat :=
  let chan := what &&& 31
  let note := if hasBit what 32 then at? b p else none
  let ins := if hasBit what 32 then at0 b (p + 1) else 0
  let p := if hasBit what 32 then p + 2 else p
  let p := if hasBit what 64 then p + 1 else p
  let cmd := if hasBit what 128 then at0 b p else 0
  let info := if hasBit what 128 then at0 b (p + 1) else 0
  let p := if hasBit what 128 then p + 2 else p
  let setSpeed := if cmd = 1 then info else 0
  let setTempo := if cmd = 20 ∧ info ≥ 0x20 then info else 0
  let off := decide (note = some 254 ∨ note = some 255)
  let hasNote := note.any (· < 254)
  let noteNum := if hasNote then (note.getD 0 >>> 4) * 12 + (note.getD 0 &&& 0x0f) else 0
  let explicitSample := if ins > 0 then some (ins - 1) else none
  (SimEvent.kept ⟨row, chan, explicitSample, hasNote, noteNum, off, setSpeed, setTempo⟩, p)

/-- The packed data from `p` to `stop`; every step reads a byte, so `stop - p` is fuel enough. -/
def s3mEvents (b : Bytes) (stop : Nat) : Nat → Nat → Nat → List SimEvent
  | 0, _, _ => []
  | fuel + 1, p, row =>
    if p < stop ∧ row < 64 then
      let what := at0 b p
      if what = 0 then s3mEvents b stop fuel (p + 1) (row + 1)
      else
        let (e, p') := s3mCell b what (p + 1) row
        e.toList ++ s3mEvents b stop fuel p' row
    else []

theorem s3mCell_spec {b : Bytes} {what p row : Nat} {e : SimEvent} (h : e ∈ (s3mCell b what p row).1.toList) :
    e.row = row ∧ e.ch < 32 := by
  rw [SimEvent.kept_eq (Option.mem_toList.1 h)]
  exact ⟨rfl, Nat.lt_of_le_of_lt Nat.and_le_right (by decide)⟩

theorem s3mEvents_spec {b : Bytes} {stop fuel p row : Nat} :
    ∀ e ∈ s3mEvents b stop fuel p row, row ≤ e.row ∧ e.row < 64 ∧ e.ch < 32 := by
  induction fuel generalizing p row with
  | zero => simp [s3mEvents]
  | succ fuel ih =>
    intro e he
    simp only [s3mEvents] at he
    split at he
    · split at he
      · have := ih e he
        exact ⟨by omega, this.2⟩
      · rcases List.mem_append.1 he with he | he
        · obtain ⟨hrow, hch⟩ := s3mCell_spec he
          exact ⟨by omega, by omega, hch⟩
        · exact ih e he
    · simp at he

theorem s3mEvents_sorted {b : Bytes} {stop fuel p row : Nat} :
    (s3mEvents b stop fuel p row).Pairwise fun a b => a.row ≤ b.row := by
  induction fuel generalizing p row with
  | zero => simp [s3mEvents]
  | succ fuel ih =>
    simp only [s3mEvents]
    split
    · split
      · exact ih
      · refine List.pairwise_append.2 ⟨?_, ih, fun a ha c hc => ?_⟩
        · cases (s3mCell b (at0 b p) (p + 1) row).1 <;> simp
        · rw [(s3mCell_spec ha).1]
          exact (s3mEvents_spec c hc).1
    · exact .nil

def s3mDecode (b : Bytes) (paraPatBase pat : Nat) : Option Pattern :=
  let po := u16le b (paraPatBase + pat * 2) * 16
  let stop := min (po + 2 + u16le b po) b.length
  some <|
    if po ≠ 0 ∧ po + 2 ≤ b.length then
      { rows := 64
        events := s3mEvents b stop (stop - (po + 2)) (po + 2) 0
        sorted := s3mEvents_sorted
        row_lt := fun e he => (s3mEvents_spec e he).2.1 }
    else .empty 64

theorem s3mDecode_ch {b : Bytes} {base pat : Nat} {p : Pattern} (h : s3mDecode b base pat = some p) :
    ∀ e ∈ p.events, e.ch < 32 := by
  intro e he
  cases h
  split at he
  · exact (s3mEvents_spec e he).2.2
  · simp [Pattern.empty] at he

def s3mModel (b : Bytes) : SimModel where
  orderPats := playedOrders (u16le b 0x20) fun i => (at? b (0x60 + i)).filter (· < 254)
  speed0 := orDefault (at0 b 0x31) 6
  tempo0 := orDefault (at0 b 0x32) 125
  numChannels := 32
  decode := s3mDecode b (0x60 + u16le b 0x20 + u16le b 0x22 * 2)
  offsetOf s := ((s3mParapointers b)[s]?).bind (s3mOffset b)
  orders_increasing := playedOrders_increasing _ _
  ch_lt _ _ := s3mDecode_ch

def s3mTables (b : Bytes) : Option SeekTables :=
  if b.length < 0x60 ∨ tag4 b 0x2c ≠ ['S', 'C', 'R', 'M'] then none else some (simulateTables (s3mModel b))

/-! ### XM -/

structure XmPattern where
  dataStart : Nat
  rows : Nat
  packed : Nat

/-- `npat` pattern headers from `pos` on, and the position behind the last pattern. -/
def xmPatterns (b : Bytes) : Nat → Nat → Option (List XmPattern × Nat)
  | 0, pos => some ([], pos)
  | npat + 1, pos =>
    if pos + 9 > b.length then none
    else
      let phLen := u32le b pos
      let packed := u16le b (pos + 7)
      (xmPatterns b npat (pos + (phLen + packed))).map fun (ps, stop) =>
        (⟨pos + phLen, u16le b (pos + 5), packed⟩ :: ps, stop)

/-- The sample data offsets in slot order, and for each instrument its first slot and its keymap. -/
structure XmSamples where
  offsets : List (Option Nat)
  instruments : List (Nat × List Nat)

/-- The offsets of payloads stored one behind the other from `data` on. -/
def xmOffsets (fileLen : Nat) : List Nat → Nat → List (Option Nat)
  | [], _ => []
  | n :: ns, data => (if n > 0 ∧ data + n ≤ fileLen then some data else none) :: xmOffsets fileLen ns (data + n)

/-- The 96 keymap bytes of the instrument at `instStart`, all zero when the file cuts them off. -/
def xmKeymap (b : Bytes) (instStart : Nat) : List Nat :=
  if instStart + 33 + 96 ≤ b.length then (List.range 96).map fun k => at0 b (instStart + 33 + k)
  else List.replicate 96 0

def xmSamples (b : Bytes) : Nat → Nat → XmSamples → XmSamples
  | 0, _, acc => acc
  | nins + 1, pos, acc =>
    if pos + 29 > b.length then acc
    else
      let instSize := u32le b pos
      let numSamp := u16le b (pos + 27)
      let first := acc.offsets.length
      if numSamp = 0 then
        xmSamples b nins (pos + instSize) { acc with instruments := acc.instruments ++ [(first, List.replicate 96 0)] }
      else
        let (ms, data) := xmMeta b (u32le b (pos + 29)) numSamp (pos + instSize)
        let lens := ms.map Prod.fst
        xmSamples b nins (data + lens.sum)
          { offsets := acc.offsets ++ xmOffsets b.length lens data
            instruments := acc.instruments ++ [(first, xmKeymap b pos)] }

/-- The slot that note `note` of instrument `ins` (1-based) plays. -/
def XmSamples.slotOf (x : XmSamples) (nins ins note : Nat) : Option Nat :=
  if ins > 0 ∧ ins ≤ nins then
    match x.instruments[ins - 1]? with
    | some (first, keymap) => some (first + keymap.getD (note - 1) 0)
    | none => none
  else none

/-- A cell at `p`: the event it makes and the position behind it. -/
def xmCell (b : Bytes) (x : XmSamples) (nins p row c : Nat) : Option SimEvent × Nat :=
  let first := at0 b p
  let packed := hasBit first 0x80
  -- a packed cell has the fields its flags name, another one has all five
  let has (mask : Nat) : Bool := !packed || hasBit first mask
  let p := if packed then p + 1 else p
  let note := if has 0x01 then at0 b p else 0
  let p := if has 0x01 then p + 1 else p
  let ins := if has 0x02 then at0 b p else 0
  let p := if has 0x02 then p + 1 else p
  let p := if has 0x04 then p + 1 else p
  let efftype := if has 0x08 then at0 b p else 0
  let p := if has 0x08 then p + 1 else p
  let effparam := if has 0x10 then at0 b p else 0
  let p := if has 0x10 then p + 1 else p
  let setSpeed := if efftype = 0x0f ∧ effparam < 0x20 then effparam else 0
  let setTempo := if efftype = 0x0f ∧ ¬ effparam < 0x20 then effparam else 0
  let off := decide (note = 97)
  let hasNote := decide (note > 0 ∧ note < 97)
  let explicitSample := if hasNote then (x.slotOf nins ins note).filter (· < x.offsets.length) else none
  let noteNum := if hasNote then note else 0
  (SimEvent.kept ⟨row, c, explicitSample, hasNote, noteNum, off, setSpeed, setTempo⟩, p)

/-- The cells of a row from channel `c` on, `n` of them, while there is data. -/
def xmRow (b : Bytes) (x : XmSamples) (nins stop row : Nat) : Nat → Nat → Nat → List SimEvent × Nat
  | 0, _, p => ([], p)
  | n + 1, c, p =>
    if p < stop then
      let (e, p') := xmCell b x nins p row c
      let (es, p'') := xmRow b x nins stop row n (c + 1) p'
      (e.toList ++ es, p'')
    else ([], p)

def xmRows (b : Bytes) (x : XmSamples) (nins numCh stop : Nat) : Nat → Nat → Nat → List SimEvent
  | 0, _, _ => []
  | n + 1, row, p =>
    if p < stop then
      let (es, p') := xmRow b x nins stop row numCh 0 p
      es ++ xmRows b x nins numCh stop n (row + 1) p'
    else []

theorem xmCell_spec {b : Bytes} {x : XmSamples} {nins p row c : Nat} {e : SimEvent}
    (h : e ∈ (xmCell b x nins p row c).1.toList) : e.row = row ∧ e.ch = c := by
  rw [SimEvent.kept_eq (Option.mem_toList.1 h)]
  exact ⟨rfl, rfl⟩

theorem xmRow_spec {b : Bytes} {x : XmSamples} {nins stop row n c p : Nat} :
    ∀ e ∈ (xmRow b x nins stop row n c p).1, e.row = row ∧ e.ch < c + n := by
  induction n generalizing c p with
  | zero => simp [xmRow]
  | succ n ih =>
    intro e he
    simp only [xmRow] at he
    split at he
    · rcases List.mem_append.1 he with he | he
      · obtain ⟨hrow, hch⟩ := xmCell_spec he
        exact ⟨hrow, by omega⟩
      · obtain ⟨hrow, hch⟩ := ih e he
        exact ⟨hrow, by omega⟩
    · simp at he

theorem xmRows_spec {b : Bytes} {x : XmSamples} {nins numCh stop n row p : Nat} :
    ∀ e ∈ xmRows b x nins numCh stop n row p, row ≤ e.row ∧ e.row < row + n ∧ e.ch < numCh := by
  induction n generalizing row p with
  | zero => simp [xmRows]
  | succ n ih =>
    intro e he
    simp only [xmRows] at he
    split at he
    · rcases List.mem_append.1 he with he | he
      · obtain ⟨hrow, hch⟩ := xmRow_spec e he
        exact ⟨by omega, by omega, by omega⟩
      · obtain ⟨hle, hlt, hch⟩ := ih e he
        exact ⟨by omega, by omega, hch⟩
    · simp at he

theorem xmRows_sorted {b : Bytes} {x : XmSamples} {nins numCh stop n row p : Nat} :
    (xmRows b x nins numCh stop n row p).Pairwise fun a b => a.row ≤ b.row := by
  induction n generalizing row p with
  | zero => simp [xmRows]
  | succ n ih =>
    simp only [xmRows]
    split
    · refine List.pairwise_append.2 ⟨List.pairwise_of_forall_mem_list fun a ha c hc => ?_, ih, fun a ha c hc => ?_⟩
      · rw [(xmRow_spec a ha).1, (xmRow_spec c hc).1]
      · have := (xmRow_spec a ha).1
        have := (xmRows_spec c hc).1
        omega
    · exact .nil

def xmDecode (b : Bytes) (x : XmSamples) (pats : List XmPattern) (nins numCh pat : Nat) : Option Pattern :=
  match pats[pat]? with
  | some pi =>
    some
      { rows := pi.rows
        events := xmRows b x nins numCh (min (pi.dataStart + pi.packed) b.length) pi.rows 0 pi.dataStart
        sorted := xmRows_sorted
        row_lt := fun e he => by simpa using (xmRows_spec e he).2.1 }
  | none => some (.empty 64)

theorem xmDecode_ch {b : Bytes} {x : XmSamples} {pats : List XmPattern} {nins numCh pat : Nat} {p : Pattern}
    (h : xmDecode b x pats nins numCh pat = some p) : ∀ e ∈ p.events, e.ch < numCh := by
  intro e he
  unfold xmDecode at h
  split at h
  · cases h
    exact (xmRows_spec e he).2.2
  · cases h
    simp [Pattern.empty] at he

def xmModel (b : Bytes) (pats : List XmPattern) (x : XmSamples) : SimModel where
  orderPats := playedOrders (min (u16le b 64) 256) fun i => (at? b (80 + i)).filter (· < u16le b 70)
  speed0 := orDefault (u16le b 76) 6
  tempo0 := orDefault (u16le b 78) 125
  numChannels := u16le b 68
  decode := xmDecode b x pats (u16le b 72) (u16le b 68)
  offsetOf s := (x.offsets[s]?).join
  orders_increasing := playedOrders_increasing _ _
  ch_lt _ _ := xmDecode_ch

def xmTables (b : Bytes) : Option SeekTables :=
  if b.length < 80 ∨ tag4 b 0 ≠ ['E', 'x', 't', 'e'] then none
  else
    let numCh := u16le b 68
    if numCh = 0 ∨ numCh > 64 then none
    else
      match xmPatterns b (u16le b 70) (60 + u32le b 60) with
      | none => none
      | some (pats, pos) => some (simulateTables (xmModel b pats (xmSamples b (u16le b 72) pos ⟨[], []⟩)))

/-! ### IT and MPTM -/

structure ItHeader where
  ordNum : Nat
  insNum : Nat
  smpNum : Nat
  cmwt : Nat
  useInstruments : Bool
  insOffBase : Nat
  smpOffBase : Nat
  patOffBase : Nat
  orders : List Nat
  speed0 : Nat
  tempo0 : Nat

def readHeader (b : Bytes) : Option ItHeader :=
  if b.length < 0xc0 then none
  else
    let ordNum := u16le b 0x20
    let insNum := u16le b 0x22
    let smpNum := u16le b 0x24
    let flags := u16le b 0x2c
    let ordBase := 0xc0
    let insOffBase := ordBase + ordNum
    let smpOffBase := insOffBase + insNum * 4
    let patOffBase := smpOffBase + smpNum * 4
    if patOffBase > b.length ∨ smpNum = 0 ∨ ordNum = 0 then none
    else
      some
        { ordNum, insNum, smpNum, cmwt := u16le b 0x2a
          useInstruments := hasBit flags 0x04 && decide (insNum > 0)
          insOffBase, smpOffBase, patOffBase
          orders := (List.range ordNum).map fun i => at0 b (ordBase + i)
          speed0 := orDefault (at0 b 0x32) 6
          tempo0 := orDefault (at0 b 0x33) 125 }

/-- `note` is `none` for the source's `null`, and for the `undefined` read past the end of the file, which
plays and cuts nothing either. -/
structure Ev where
  row : Nat
  ch : Nat
  note : Option Nat
  ins : Nat
  cmd : Nat
  param : Nat
deriving DecidableEq, Repr

/-- What each channel repeats. -/
structure ItMemory where
  lastMask : Nat → Nat
  lastIns : Nat → Nat
  lastNote : Nat → Option Nat

/-- A packed cell that starts with the channel byte `cv`; `p` is behind it. -/
def itCell (b : Bytes) (cv p row : Nat) (mem : ItMemory) : Option Ev × Nat × ItMemory :=
  let ch := (cv - 1) &&& 63
  let mask := if hasBit cv 128 then at0 b p else mem.lastMask ch
  let mem := if hasBit cv 128 then { mem with lastMask := Function.update mem.lastMask ch mask } else mem
  let p := if hasBit cv 128 then p + 1 else p
  let mem := if hasBit mask 1 then { mem with lastNote := Function.update mem.lastNote ch (at? b p) } else mem
  let p := if hasBit mask 1 then p + 1 else p
  let mem := if hasBit mask 2 then { mem with lastIns := Function.update mem.lastIns ch (at0 b p) } else mem
  let p := if hasBit mask 2 then p + 1 else p
  let p := if hasBit mask 4 then p + 1 else p
  let cmd := if hasBit mask 8 then at0 b p else 0
  let param := if hasBit mask 8 then at0 b (p + 1) else 0
  let p := if hasBit mask 8 then p + 2 else p
  -- bit 1 has just stored the note it reads, bit 16 repeats the stored one
  let named := hasBit mask 1 || hasBit mask 16
  let note := if named then mem.lastNote ch else none
  if named ∨ cmd ≠ 0 then (some ⟨row, ch, note, mem.lastIns ch, cmd, param⟩, p, mem) else (none, p, mem)

/-- The packed data from `p` to `stop`; every step reads a byte, so `stop - p` is fuel enough. -/
def itEvents (b : Bytes) (stop rows : Nat) : Nat → Nat → Nat → ItMemory → List Ev
  | 0, _, _, _ => []
  | fuel + 1, p, row, mem =>
    if p < stop ∧ row < rows then
      let cv := at0 b p
      if cv = 0 then itEvents b stop rows fuel (p + 1) (row + 1) mem
      else
        let (e, p', mem') := itCell b cv (p + 1) row mem
        e.toList ++ itEvents b stop rows fuel p' row mem'
    else []

structure ItPattern where
  rows : Nat
  events : List Ev

def decodeEvents (b : Bytes) (off : Nat) : ItPattern :=
  if off = 0 ∨ off + 8 > b.length then ⟨64, []⟩
  else
    let len := u16le b off
    let rows := u16le b (off + 2)
    let stop := min (off + 8 + len) b.length
    ⟨rows, itEvents b stop rows (stop - (off + 8)) (off + 8) 0 ⟨fun _ => 0, fun _ => 0, fun _ => some 0⟩⟩

/-- The 0-based sample a note of an instrument plays. -/
def sampleForNote (b : Bytes) (h : ItHeader) (ins note : Nat) : Option Nat :=
  if note > 119 then none
  else if !h.useInstruments then (if ins > 0 then some (ins - 1) else none)
  else if ins = 0 then none
  else
    let off := u32le b (h.insOffBase + (ins - 1) * 4)
    if off = 0 then none
    else
      let map := off + (if h.cmwt ≥ 0x200 then 0x40 else 0x2e)
      let mo := map + note * 2 + 1
      if mo ≥ b.length then none
      else
        let s := at0 b mo
        if s > 0 then some (s - 1) else none

/-- The PCM offset of each sample with data. -/
def itSampleOffsets (b : Bytes) (h : ItHeader) : List (Option Nat) :=
  (List.range h.smpNum).map fun i =>
    let so := u32le b (h.smpOffBase + i * 4)
    if so = 0 ∨ so + 0x50 > b.length then none
    else
      let flg := at0 b (so + 0x12)
      let len := u32le b (so + 0x30)
      let ptr := u32le b (so + 0x48)
      if hasBit flg 1 ∧ len ≠ 0 ∧ ptr ≠ 0 then some ptr else none

/-- The walk of an IT file: the sample held on each channel, speed, tempo and time. -/
structure ItWalk where
  held : Nat → Option HeldNote
  speed : Nat
  tempo : Nat
  t : ℚ

/-- What the walks read of an IT file. -/
structure ItModel where
  b : Bytes
  h : ItHeader
  offsets : List (Option Nat)

namespace ItModel
variable (m : ItModel)

def offOf (s : Nat) : Option Nat := (m.offsets[s]?).join

/-- Orders of 254 and above mark the end or a skip; they are not played. -/
def decode (pat : Nat) : Option ItPattern :=
  if pat ≥ 254 then none else some (decodeEvents m.b (u32le m.b (m.h.patOffBase + pat * 4)))

def event (w : ItWalk) (e : Ev) : ItWalk :=
  let w := if e.cmd = 1 ∧ e.param ≠ 0 then { w with speed := e.param }
    else if e.cmd = 0x14 ∧ e.param ≥ 0x20 then { w with tempo := e.param } else w
  match e.note with
  | none => w
  | some note =>
    if note = 254 ∨ note = 255 then { w with held := Function.update w.held e.ch none }
    else if note < 120 then
      match sampleForNote m.b m.h e.ins note with
      | some s => { w with held := Function.update w.held e.ch (some ⟨s, note, w.t⟩) }
      | none => w
    else w

def row (r : Nat) : List Ev → ItWalk → List Ev × ItWalk
  | [], w => ([], w)
  | e :: es, w => if e.row = r then row r es (m.event w e) else (e :: es, w)

def rows : Nat → Nat → List Ev → ItWalk → ItWalk
  | 0, _, _, w => w
  | n + 1, r, es, w =>
    let (es, w) := m.row r es w
    rows n (r + 1) es { w with t := w.t + ROWSEC w.speed w.tempo }

def walkOrder (w : ItWalk) (pat : Nat) : ItWalk :=
  match m.decode pat with
  | some p => m.rows p.rows 0 p.events w
  | none => w

def walk0 : ItWalk := ⟨fun _ => none, m.h.speed0, m.h.tempo0, 0⟩

/-- Order index and pattern of every order entry. -/
def orderPats : List (Nat × Nat) := m.h.orders.zipIdx.map fun (pat, i) => (i, pat)

def validOrders : List (Nat × Nat) := m.orderPats.filter fun op => decide (op.2 < 254)

def orderSecondsFrom : List (Nat × Nat) → ItWalk → List OrderSeconds
  | [], _ => []
  | (order, pat) :: ops, w => ⟨order, w.t⟩ :: orderSecondsFrom ops (m.walkOrder w pat)

/-- The PCM offsets the notes of a pattern trigger. -/
def triggered (pat : Nat) : List Nat :=
  match m.decode pat with
  | none => []
  | some p => p.events.filterMap fun e =>
      (e.note.filter (· < 120)).bind fun note => (sampleForNote m.b m.h e.ins note).bind m.offOf

def stride : Nat := max 1 ((m.validOrders.length + (MAX_CHECKPOINTS - 1)) / MAX_CHECKPOINTS)

/-- The checkpoint at the `vi`-th valid order: held there, and triggered before the next checkpoint. -/
def checkpointAt (vi : Nat) : SeekCheckpoint :=
  let order (i : Nat) : Nat := ((m.validOrders[i]?).map Prod.fst).getD m.h.ordNum
  let n := order vi
  let w := (m.h.orders.take n).foldl m.walkOrder m.walk0
  let held := (List.range 64).filterMap fun c => (w.held c).bind fun h => m.offOf h.sample
  let span := (m.h.orders.take (order (vi + m.stride))).drop n
  { order := n, residentOffsets := sortedSet (held ++ span.flatMap m.triggered) }

def tables : SeekTables where
  orderSeconds := m.orderSecondsFrom m.validOrders m.walk0
  segment0Offsets := match m.validOrders with
    | [] => []
    | op :: _ => sortedSet (m.triggered op.2)
  checkpoints := (List.range (checkpointCount m.validOrders.length m.stride)).map fun k => m.checkpointAt (k * m.stride)

end ItModel

def computeItTables (b : Bytes) : Option SeekTables :=
  (readHeader b).map fun h => (ItModel.mk b h (itSampleOffsets b h)).tables

def computeSeekTables (b : Bytes) : Format → Option SeekTables
  | .it | .mptm => computeItTables b
  | .mod => modTables b
  | .s3m => s3mTables b
  | .xm => xmTables b
  | .mo3 => none

end TrackerStream
