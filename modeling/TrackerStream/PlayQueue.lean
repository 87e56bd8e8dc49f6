import TrackerStream.Runs

/-!
# The play queue (`player.svelte.ts`)

The queue is a list of tracks and the index of the one that is playing, kept by hand around every edit. What each function
starts to play comes with the queue it leaves. Beside it a `Session` tells the entries of a queue apart, also where a
track is queued twice, and knows which of them is playing; the code has no part of that.
-/

namespace TrackerStream

structure PlayQueue (η : Type) where
  items : List η
  index : Int

namespace PlayQueue
variable {η : Type}

/-- The items that were saved, with nothing playing. -/
def loadQueue (items : List η) : PlayQueue η := ⟨items, -1⟩

def playList (items : List η) (index : Int) : PlayQueue η × Option η :=
  (⟨items, index⟩, if index < 0 then none else items[index.toNat]?)

def clearQueue : PlayQueue η := ⟨[], -1⟩

def removeFromQueue (q : PlayQueue η) (i : Nat) : PlayQueue η :=
  let items := q.items.eraseIdx i
  { items
    index := if i < q.index then q.index - 1 else if i = q.index then min q.index (items.length - 1) else q.index }

/-- Exchange the row `i` with the one before or behind it. -/
def moveInQueue (q : PlayQueue η) (i : Nat) (dir : Int) : PlayQueue η :=
  let j := i + dir
  if j < 0 ∨ j ≥ q.items.length then q
  else
    match q.items[i]?, q.items[j.toNat]? with
    | some a, some b =>
      { items := (q.items.set i b).set j.toNat a
        index := if q.index = i then j else if q.index = j then i else q.index }
    | _, _ => q

def playNext (q : PlayQueue η) : PlayQueue η × Option η :=
  if 0 ≤ q.index ∧ q.index < (q.items.length : Int) - 1 then playList q.items (q.index + 1) else (q, none)

/-- `rewinds`: the track has played for five seconds. -/
def playPrev (q : PlayQueue η) (rewinds : Bool) : PlayQueue η × Option η :=
  if rewinds then (q, none) else if 0 < q.index then playList q.items (q.index - 1) else (q, none)

def enqueue (q : PlayQueue η) (hit : η) (next : Bool) : PlayQueue η × Option η :=
  let items :=
    if next ∧ 0 ≤ q.index then q.items.insertIdx (min (q.index + 1).toNat q.items.length) hit else q.items ++ [hit]
  if q.index < 0 then playList items 0 else (⟨items, q.index⟩, none)

/-! ### Sessions -/

/-- What is queued, and as which of all entries so far. -/
structure Entry (η : Type) where
  stamp : Nat
  hit : η
deriving DecidableEq

def stamped (stamps : Nat) (hits : List η) : List (Entry η) := hits.zipIdx.map fun e => ⟨stamps + e.2, e.1⟩

structure Session (η : Type) where
  queue : PlayQueue (Entry η)
  /-- How many entries there have been. -/
  stamps : Nat
  playing : Option (Entry η) := none
  /-- Where the last edit removed the entry that plays: what directly followed it. -/
  removed : Option (Option (Entry η)) := none
  /-- The entry that the last edit enqueued, and the one it started. -/
  entered : Option (Entry η) := none
  started : Option (Entry η) := none

inductive Edit (η : Type)
  | playList (hits : List η) (index : Int)
  /-- `playList` of the queue's own items. -/
  | playAt (i : Nat)
  | enqueue (hit : η) (next : Bool)
  | remove (i : Nat)
  | move (i : Nat) (dir : Int)
  | playNext
  | playPrev (rewinds : Bool)
  | clearQueue

namespace Session

/-- With the queue of `r`, and what it starts playing. -/
def run (s : Session η) (r : PlayQueue (Entry η) × Option (Entry η)) (entered : Option (Entry η)) (stamps : Nat) :
    Session η :=
  { queue := r.1, stamps := s.stamps + stamps, playing := r.2.or s.playing, entered, started := r.2 }

/-- The row holds the entry that plays. -/
def plays (s : Session η) (i : Nat) : Prop := ∃ e, s.playing = some e ∧ s.queue.items[i]? = some e

instance [DecidableEq η] (s : Session η) (i : Nat) : Decidable (s.plays i) :=
  decidable_of_iff (s.playing.isSome ∧ s.queue.items[i]? = s.playing) <| by
    rw [plays, Option.isSome_iff_exists]
    constructor
    · rintro ⟨⟨e, he⟩, h⟩
      exact ⟨e, he, h.trans he⟩
    · rintro ⟨e, he, h⟩
      exact ⟨⟨e, he⟩, h.trans he.symm⟩

def step [DecidableEq η] (s : Session η) : Edit η → Session η
  | .playList hits index => s.run (PlayQueue.playList (stamped s.stamps hits) index) none hits.length
  | .playAt i => s.run (PlayQueue.playList s.queue.items i) none 0
  | .enqueue hit next => s.run (s.queue.enqueue ⟨s.stamps, hit⟩ next) (some ⟨s.stamps, hit⟩) 1
  | .remove i =>
    { s.run (s.queue.removeFromQueue i, none) none 0 with removed := if s.plays i then some s.queue.items[i + 1]? else none }
  | .move i dir => s.run (s.queue.moveInQueue i dir, none) none 0
  | .playNext => s.run s.queue.playNext none 0
  | .playPrev rewinds => s.run (s.queue.playPrev rewinds) none 0
  | .clearQueue => s.run (PlayQueue.clearQueue, none) none 0

def restored (hits : List η) : Session η := { queue := loadQueue (stamped 0 hits), stamps := hits.length }

/-- Rows are rows of the queue, and a list is played from one of its entries or, where the entry is not found, from `-1`. -/
def Valid (s : Session η) : Edit η → Prop
  | .playList hits index => -1 ≤ index ∧ index < hits.length
  | .playAt i | .remove i => i < s.queue.items.length
  | .move i dir => i < s.queue.items.length ∧ (dir = -1 ∨ dir = 1)
  | _ => True

/-- The entry that plays is not removed while another follows it, and none is enqueued behind others while the index is
`-1`. -/
def Careful (s : Session η) : Edit η → Prop
  | .remove i => s.plays i → i + 1 = s.queue.items.length
  | .enqueue _ _ => s.queue.index < 0 → s.queue.items = []
  | _ => True

/-- The queue follows the listener. -/
structure Follows (s : Session η) : Prop where
  range : -1 ≤ s.queue.index ∧ s.queue.index < s.queue.items.length
  points : ∀ e, s.playing = some e → e ∈ s.queue.items → 0 ≤ s.queue.index ∧ s.queue.items[s.queue.index.toNat]? = some e
  next : ∀ (k : Nat) (e : Entry η), s.playing = some e → s.queue.items[k]? = some e →
    s.queue.playNext.2 = s.queue.items[k + 1]?
  removed : ∀ after, s.removed = some after → s.queue.playNext.2 = after
  enters : ∀ e, s.entered = some e → s.started = none ∨ s.started = some e

/-! ### What an edit keeps -/

end Session

section Rows
variable {q : PlayQueue η} {e : η}

/-- The index points at `e` if it is queued. -/
def PointsAt (q : PlayQueue η) (e : η) : Prop := e ∈ q.items → 0 ≤ q.index ∧ q.items[q.index.toNat]? = some e

def InRange (q : PlayQueue η) : Prop := -1 ≤ q.index ∧ q.index < q.items.length

theorem getElem?_inj_of_nodup {l : List η} (hl : l.Nodup) {i j : Nat} {e : η} (hi : l[i]? = some e)
    (hj : l[j]? = some e) : i = j := by
  obtain ⟨hilt, hi⟩ := List.getElem?_eq_some_iff.1 hi
  obtain ⟨hjlt, hj⟩ := List.getElem?_eq_some_iff.1 hj
  exact (hl.getElem_inj_iff).1 (hi.trans hj.symm)

theorem playNext_eq {k : Nat} (hindex : q.index = k) : q.playNext.2 = q.items[k + 1]? := by
  rw [playNext, hindex]
  split_ifs with h
  · rw [playList, if_neg (by omega)]
    rfl
  · exact (List.getElem?_eq_none (by omega)).symm

theorem PointsAt.next (hq : q.items.Nodup) (h : q.PointsAt e) {k : Nat} (hk : q.items[k]? = some e) :
    q.playNext.2 = q.items[k + 1]? := by
  obtain ⟨h0, hindex⟩ := h (List.mem_of_getElem? hk)
  have := getElem?_inj_of_nodup hq hindex hk
  exact playNext_eq (by omega)

/-- What `playList` starts is pointed at. -/
theorem playList_points {items : List η} {index : Int} (h : (playList items index).2 = some e) :
    (playList items index).1.PointsAt e := by
  intro _
  rw [playList] at h
  simp only at h
  split_ifs at h with hneg
  exact ⟨Int.not_lt.1 hneg, h⟩

theorem removeFromQueue_range (h : q.InRange) {i : Nat} (hi : i < q.items.length) : (q.removeFromQueue i).InRange := by
  obtain ⟨hge, hlt⟩ := h
  have hlen : (q.items.eraseIdx i).length = q.items.length - 1 := List.length_eraseIdx_of_lt hi
  simp only [InRange, removeFromQueue, hlen]
  split_ifs <;> omega

theorem removeFromQueue_points (hq : q.items.Nodup) (h : q.PointsAt e) (i : Nat) : (q.removeFromQueue i).PointsAt e := by
  intro hmem
  have hmem : ∃ j ≠ i, q.items[j]? = some e := List.mem_eraseIdx_iff_getElem?.1 hmem
  obtain ⟨j, hne, hj⟩ := hmem
  obtain ⟨h0, hindex⟩ := h (List.mem_of_getElem? hj)
  obtain rfl := getElem?_inj_of_nodup hq hindex hj
  simp only [removeFromQueue]
  rcases Nat.lt_or_ge i q.index.toNat with hlt | hge
  · rw [if_pos (by omega), List.getElem?_eraseIdx_of_ge (by omega)]
    refine ⟨by omega, ?_⟩
    rwa [show (q.index - 1).toNat + 1 = q.index.toNat by omega]
  · rw [if_neg (by omega), if_neg (by omega), List.getElem?_eraseIdx_of_lt (by omega)]
    exact ⟨h0, hj⟩

/-- Without its last row the queue ends before the index. -/
theorem removeFromQueue_last {i : Nat} (hi : i + 1 = q.items.length) (hindex : q.index = i) :
    (q.removeFromQueue i).playNext.2 = none := by
  have hlen : (q.items.eraseIdx i).length = q.items.length - 1 := List.length_eraseIdx_of_lt (by omega)
  rw [playNext, if_neg]
  simp only [removeFromQueue, hlen]
  split_ifs <;> omega

/-- What an exchange of two rows does: nothing, or it takes the index along. -/
theorem moveInQueue_cases (q : PlayQueue η) {i : Nat} {dir : Int} (hi : i < q.items.length) (hdir : dir = -1 ∨ dir = 1) :
    q.moveInQueue i dir = q ∨ ∃ (j : Nat) (hj : j < q.items.length), i ≠ j ∧
      q.moveInQueue i dir = ⟨(q.items.set i q.items[j]).set j q.items[i],
        if q.index = i then j else if q.index = j then i else q.index⟩ := by
  rw [moveInQueue]
  by_cases hj : i + dir < 0 ∨ i + dir ≥ q.items.length
  · exact .inl (if_pos hj)
  · right
    push Not at hj
    have hlt : (i + dir).toNat < q.items.length := by omega
    refine ⟨(i + dir).toNat, hlt, by omega, ?_⟩
    simp only [if_neg (not_or.2 ⟨not_lt.2 hj.1, not_le.2 hj.2⟩), List.getElem?_eq_getElem hi, List.getElem?_eq_getElem hlt,
      Int.toNat_of_nonneg hj.1]

theorem moveInQueue_points (h : q.PointsAt e) {i : Nat} {dir : Int} (hi : i < q.items.length)
    (hdir : dir = -1 ∨ dir = 1) : (q.moveInQueue i dir).PointsAt e := by
  rcases q.moveInQueue_cases hi hdir with hsame | ⟨j, hj, hij, hmove⟩
  · rwa [hsame]
  · rw [hmove]
    intro hmem
    have hperm : ((q.items.set i q.items[j]).set j q.items[i]).Perm q.items := List.set_set_perm hi hj
    obtain ⟨h0, hindex⟩ := h (hperm.mem_iff.1 hmem)
    obtain ⟨k, hk⟩ := Int.eq_ofNat_of_zero_le h0
    simp only [hk, Int.toNat_natCast] at hindex ⊢
    obtain ⟨hklt, hindex⟩ := List.getElem?_eq_some_iff.1 hindex
    rcases eq_or_ne k i with rfl | hki
    · rw [if_pos rfl]
      exact ⟨by omega, by simp [hj, hindex]⟩
    · rcases eq_or_ne k j with rfl | hkj
      · rw [if_neg (by omega), if_pos rfl]
        exact ⟨by omega, by simp [hi, hki, hindex]⟩
      · rw [if_neg (by omega), if_neg (by omega)]
        exact ⟨by omega, by simp [hklt, hindex, hki.symm, hkj.symm]⟩

theorem moveInQueue_perm {i : Nat} {dir : Int} (hi : i < q.items.length) (hdir : dir = -1 ∨ dir = 1) :
    (q.moveInQueue i dir).items.Perm q.items := by
  rcases q.moveInQueue_cases hi hdir with hsame | ⟨j, hj, -, hmove⟩
  · rw [hsame]
  · rw [hmove]
    exact List.set_set_perm hi hj

theorem nodup_insertIdx {l : List η} {a : η} (hl : l.Nodup) (ha : a ∉ l) (m : Nat) : (l.insertIdx m a).Nodup := by
  rcases Nat.lt_or_ge l.length m with hlt | hm
  · rwa [List.insertIdx_of_length_lt hlt]
  · exact (List.perm_insertIdx a l hm).nodup_iff.2 (List.nodup_cons.2 ⟨ha, hl⟩)

theorem enqueue_eq (h : q.InRange) (h0 : 0 ≤ q.index) (hit : η) (next : Bool) :
    ∃ m ≤ q.items.length, q.index < m ∧ q.enqueue hit next = (⟨q.items.insertIdx m hit, q.index⟩, none) := by
  obtain ⟨-, hlt⟩ := h
  simp only [enqueue, if_neg (Int.not_lt.2 h0)]
  split_ifs with hnext
  · exact ⟨min (q.index + 1).toNat q.items.length, by omega, by omega, rfl⟩
  · exact ⟨q.items.length, Nat.le_refl _, hlt, by rw [List.insertIdx_length_self]⟩

theorem enqueue_points {m : Nat} {hit : η} (hindex : q.index < m) (h : q.PointsAt e) (hne : e ≠ hit) :
    PointsAt ⟨q.items.insertIdx m hit, q.index⟩ e := by
  intro hmem
  obtain ⟨h0, hk⟩ := h ((List.eq_or_mem_of_mem_insertIdx hmem).resolve_left hne)
  refine ⟨h0, ?_⟩
  show (q.items.insertIdx m hit)[q.index.toNat]? = some e
  rwa [List.getElem?_insertIdx_of_lt (by omega)]

end Rows

namespace Session

/-- What holds in every state of a careful run. -/
structure Inv (s : Session η) : Prop where
  range : s.queue.InRange
  nodup : s.queue.items.Nodup
  made : ∀ e ∈ s.queue.items, e.stamp < s.stamps
  played : ∀ e, s.playing = some e → e.stamp < s.stamps
  points : ∀ e, s.playing = some e → s.queue.PointsAt e
  removed : ∀ after, s.removed = some after → s.queue.playNext.2 = after
  enters : ∀ e, s.entered = some e → s.started = none ∨ s.started = some e

variable {s : Session η}

theorem Inv.follows (h : Inv s) : Follows s where
  range := h.range
  points := h.points
  next _ _ he hk := (h.points _ he).next h.nodup hk
  removed := h.removed
  enters := h.enters

theorem mem_stamped {stamps : Nat} {hits : List η} {e : Entry η} (h : e ∈ stamped stamps hits) :
    stamps ≤ e.stamp ∧ e.stamp < stamps + hits.length := by
  obtain ⟨p, hp, rfl⟩ := List.mem_map.1 h
  have := List.snd_lt_of_mem_zipIdx hp
  exact ⟨Nat.le_add_right _ _, Nat.add_lt_add_left (by simpa using this) _⟩

theorem stamped_nodup (stamps : Nat) (hits : List η) : (stamped stamps hits).Nodup := by
  refine List.Nodup.of_map Entry.stamp ?_
  rw [stamped, List.map_map]
  have : (hits.zipIdx.map (Entry.stamp ∘ fun e => (⟨stamps + e.2, e.1⟩ : Entry η))) =
      (hits.zipIdx.map Prod.snd).map (stamps + ·) := by
    rw [List.map_map]; rfl
  rw [this, List.zipIdx_map_snd]
  exact (List.nodup_range').map fun a b hab => by omega

/-- An edit that starts the entry it points at, or leaves the playing one where the index points at it. -/
theorem Inv.run (h : Inv s) {r : PlayQueue (Entry η) × Option (Entry η)} {entered : Option (Entry η)} {stamps : Nat}
    (hrange : r.1.InRange) (hnodup : r.1.items.Nodup) (hmade : ∀ e ∈ r.1.items, e.stamp < s.stamps + stamps)
    (hstarts : ∀ e, r.2 = some e → e ∈ r.1.items ∧ r.1.PointsAt e)
    (hkeeps : r.2 = none → ∀ e, s.playing = some e → s.queue.PointsAt e → r.1.PointsAt e)
    (henters : ∀ e, entered = some e → r.2 = none ∨ r.2 = some e) : Inv (s.run r entered stamps) where
  range := hrange
  nodup := hnodup
  made := hmade
  played e he := by
    rcases Option.or_eq_some_iff.1 he with hr | ⟨-, hs⟩
    · exact hmade e (hstarts e hr).1
    · exact Nat.lt_of_lt_of_le (h.played e hs) (Nat.le_add_right _ _)
  points e he := by
    rcases Option.or_eq_some_iff.1 he with hr | ⟨hr, hs⟩
    · exact (hstarts e hr).2
    · exact hkeeps hr e hs (h.points e hs)
  removed := by
    rintro after ⟨⟩
  enters := henters

theorem Inv.playList (h : Inv s) {items : List (Entry η)} {index : Int} {stamps : Nat}
    (hrange : -1 ≤ index ∧ index < items.length)
    (hnodup : items.Nodup) (hmade : ∀ e ∈ items, e.stamp < s.stamps + stamps)
    (hkeeps : index < 0 → ∀ e, s.playing = some e → e ∉ items) :
    Inv (s.run (PlayQueue.playList items index) none stamps) := by
  refine h.run hrange hnodup hmade (fun e he => ⟨?_, playList_points he⟩) (fun hnone e he _ hmem => ?_) (by rintro e ⟨⟩)
  · rw [PlayQueue.playList] at he
    simp only at he
    split_ifs at he
    exact List.mem_of_getElem? he
  · rw [PlayQueue.playList] at hnone
    simp only at hnone
    split_ifs at hnone with hneg
    · exact absurd hmem (hkeeps hneg e he)
    · rw [List.getElem?_eq_none_iff] at hnone
      omega

variable [DecidableEq η]

theorem Inv.step (h : Inv s) {edit : Edit η} (hv : s.Valid edit) (hc : s.Careful edit) : Inv (s.step edit) := by
  obtain ⟨hge, hlt⟩ := h.range
  cases edit with
  | playList hits index =>
    have hlen : (stamped s.stamps hits).length = hits.length := by rw [stamped, List.length_map, List.length_zipIdx]
    refine h.playList (by rw [hlen]; exact hv) (stamped_nodup _ _) (fun e he => (mem_stamped he).2) fun _ e he hmem => ?_
    exact absurd (mem_stamped hmem).1 (Nat.not_le.2 (h.played e he))
  | playAt i => exact h.playList ⟨by omega, Int.ofNat_lt.2 hv⟩ h.nodup h.made fun hneg => by omega
  | enqueue hit next =>
    have hnew : (⟨s.stamps, hit⟩ : Entry η) ∉ s.queue.items := fun hmem => Nat.lt_irrefl _ (h.made _ hmem)
    rcases lt_or_ge s.queue.index 0 with hneg | h0
    · have hempty : s.queue.items = [] := hc hneg
      have heq : s.queue.enqueue ⟨s.stamps, hit⟩ next = PlayQueue.playList [⟨s.stamps, hit⟩] 0 := by
        rw [PlayQueue.enqueue, if_pos hneg, if_neg (by omega), hempty, List.nil_append]
      show Inv (s.run (s.queue.enqueue ⟨s.stamps, hit⟩ next) (some ⟨s.stamps, hit⟩) 1)
      rw [heq]
      refine h.run ⟨by simp [PlayQueue.playList], by simp [PlayQueue.playList]⟩ (List.nodup_singleton _) (fun e he => ?_)
        (fun e he => ⟨?_, playList_points he⟩) (fun hnone => by simp [PlayQueue.playList] at hnone) (fun e he => .inr ?_)
      · rw [List.mem_singleton.1 he]
        exact Nat.lt_succ_self _
      · obtain rfl : (⟨s.stamps, hit⟩ : Entry η) = e := by simpa [PlayQueue.playList] using he
        exact List.mem_singleton_self _
      · obtain rfl := Option.some.inj he
        rfl
    · obtain ⟨m, hm, hindex, heq⟩ := enqueue_eq h.range h0 ⟨s.stamps, hit⟩ next
      show Inv (s.run (s.queue.enqueue ⟨s.stamps, hit⟩ next) (some ⟨s.stamps, hit⟩) 1)
      rw [heq]
      have hlen := List.length_insertIdx_of_le_length hm (⟨s.stamps, hit⟩ : Entry η)
      refine h.run ⟨hge, ?_⟩ (nodup_insertIdx h.nodup hnew m) (fun e he => ?_) (by rintro e ⟨⟩) (fun _ e he hpoints => ?_)
        (fun _ _ => .inl rfl)
      · show s.queue.index < ((s.queue.items.insertIdx m ⟨s.stamps, hit⟩).length : Int)
        omega
      · rcases List.eq_or_mem_of_mem_insertIdx he with rfl | he
        · exact Nat.lt_succ_self _
        · exact Nat.lt_succ_of_lt (h.made e he)
      · refine enqueue_points hindex hpoints ?_
        rintro rfl
        exact Nat.lt_irrefl _ (h.played _ he)
  | remove i =>
    have hi : i < s.queue.items.length := hv
    have hbase : Inv (s.run (s.queue.removeFromQueue i, none) none 0) :=
      h.run (removeFromQueue_range h.range hi) (h.nodup.eraseIdx i)
        (fun e he => h.made e (List.mem_of_mem_eraseIdx he)) (by rintro e ⟨⟩)
        (fun _ e _ he => removeFromQueue_points h.nodup he i) (by rintro e ⟨⟩)
    refine { hbase with removed := fun after hafter => ?_ }
    change (if s.plays i then some s.queue.items[i + 1]? else none) = some after at hafter
    show (s.queue.removeFromQueue i).playNext.2 = after
    split_ifs at hafter with hplays
    obtain rfl := Option.some.inj hafter
    obtain ⟨e, he, hie⟩ := hplays
    have hlast := hc ⟨e, he, hie⟩
    obtain ⟨h0, hindex⟩ := h.points e he (List.mem_of_getElem? hie)
    have := getElem?_inj_of_nodup h.nodup hindex hie
    rw [List.getElem?_eq_none (by omega)]
    exact removeFromQueue_last hlast (by omega)
  | move i dir =>
    obtain ⟨hi, hdir⟩ : i < s.queue.items.length ∧ (dir = -1 ∨ dir = 1) := hv
    have hperm := moveInQueue_perm hi hdir
    refine h.run ?_ (hperm.nodup_iff.2 h.nodup) (fun e he => h.made e (hperm.mem_iff.1 he)) (by rintro e ⟨⟩)
      (fun _ e _ he => moveInQueue_points he hi hdir) (by rintro e ⟨⟩)
    rcases s.queue.moveInQueue_cases hi hdir with hsame | ⟨j, hj, -, hmove⟩
    · rw [hsame]
      exact h.range
    · have hlen := hperm.length_eq
      rw [hmove] at hlen ⊢
      refine ⟨?_, ?_⟩
      · show -1 ≤ (if s.queue.index = i then (j : Int) else if s.queue.index = j then (i : Int) else s.queue.index)
        split_ifs <;> omega
      · show (if s.queue.index = i then (j : Int) else if s.queue.index = j then (i : Int) else s.queue.index) < _
        simp only at hlen ⊢
        split_ifs <;> omega
  | playNext =>
    show Inv (s.run s.queue.playNext none 0)
    rw [PlayQueue.playNext]
    split_ifs with hnext
    · exact h.playList ⟨by omega, by omega⟩ h.nodup h.made fun hneg => by omega
    · exact h.run h.range h.nodup h.made (by rintro e ⟨⟩) (fun _ _ _ => id) (by rintro e ⟨⟩)
  | playPrev rewinds =>
    show Inv (s.run (s.queue.playPrev rewinds) none 0)
    rw [PlayQueue.playPrev]
    split_ifs with hrew hprev
    · exact h.run h.range h.nodup h.made (by rintro e ⟨⟩) (fun _ _ _ => id) (by rintro e ⟨⟩)
    · exact h.playList ⟨by omega, by omega⟩ h.nodup h.made fun hneg => by omega
    · exact h.run h.range h.nodup h.made (by rintro e ⟨⟩) (fun _ _ _ => id) (by rintro e ⟨⟩)
  | clearQueue =>
    refine h.run ⟨Int.le_refl _, Int.negSucc_lt_zero 0⟩ List.nodup_nil (by rintro e ⟨⟩) (by rintro e ⟨⟩)
      (fun _ e _ _ => ?_) (by rintro e ⟨⟩)
    rintro ⟨⟩

/-- Any other edit shows at once. -/
theorem Inv.careful (h : Inv s) {edit : Edit η} (hv : s.Valid edit) (hf : (s.step edit).Follows) : s.Careful edit := by
  cases edit with
  | remove i =>
    rintro ⟨e, he, hie⟩
    by_contra hne
    have hi : i < s.queue.items.length := hv
    obtain ⟨h0, hindex⟩ := h.points e he (List.mem_of_getElem? hie)
    have hat := getElem?_inj_of_nodup h.nodup hindex hie
    have hlen : (s.queue.items.eraseIdx i).length = s.queue.items.length - 1 := List.length_eraseIdx_of_lt hi
    have hkept : (s.queue.removeFromQueue i).index = i := by
      simp only [removeFromQueue, hlen]
      split_ifs <;> omega
    have hafter : (s.queue.removeFromQueue i).playNext.2 = s.queue.items[i + 1]? :=
      hf.removed _ (if_pos (⟨e, he, hie⟩ : s.plays i))
    rw [playNext_eq hkept] at hafter
    have hskip : (s.queue.removeFromQueue i).items[i + 1]? = s.queue.items[i + 2]? := List.getElem?_eraseIdx_of_ge (by omega)
    have hnext : s.queue.items[i + 1]? = some s.queue.items[i + 1] := List.getElem?_eq_getElem (by omega)
    have := getElem?_inj_of_nodup h.nodup hnext ((hskip.symm.trans hafter).trans hnext)
    omega
  | enqueue hit next =>
    intro hneg
    by_contra hne
    have hstarted : (s.step (.enqueue hit next)).started = s.queue.items[0]? := by
      show (s.queue.enqueue ⟨s.stamps, hit⟩ next).2 = _
      rw [PlayQueue.enqueue, if_pos hneg, if_neg (by omega), PlayQueue.playList, if_neg (by omega)]
      exact List.getElem?_append_left (List.length_pos_of_ne_nil hne)
    obtain ⟨e, items, hitems⟩ := List.exists_cons_of_ne_nil hne
    rw [hitems, List.getElem?_cons_zero] at hstarted
    rcases hf.enters ⟨s.stamps, hit⟩ rfl with hnone | hnew
    · rw [hstarted] at hnone
      cases hnone
    · obtain rfl := Option.some.inj (hstarted.symm.trans hnew)
      exact Nat.lt_irrefl _ (h.made ⟨s.stamps, hit⟩ (by rw [hitems]; exact List.mem_cons_self))
  | playList hits index => trivial
  | playAt i => trivial
  | move i dir => trivial
  | playNext => trivial
  | playPrev rewinds => trivial
  | clearQueue => trivial

omit [DecidableEq η] in
theorem Inv.restored (hits : List η) : Inv (restored hits) where
  range := ⟨Int.le_refl _, by simp only [Session.restored, loadQueue]; omega⟩
  nodup := stamped_nodup 0 hits
  made e he := by
    have := (mem_stamped he).2
    rwa [Nat.zero_add] at this
  played := by rintro e ⟨⟩
  points := by rintro e ⟨⟩
  removed := by rintro after ⟨⟩
  enters := by rintro e ⟨⟩

/-- In every run of valid edits the queue follows the listener in all states exactly when no edit removes the entry
that plays from before another or enqueues one behind others while the index is `-1`. -/
theorem follows_iff_careful {hits : List η} {edits : List (Edit η)} (h : Runs.Along step Valid (restored hits) edits) :
    (∀ k, Follows (Runs.state step (restored hits) edits k)) ↔ Runs.Along step Careful (restored hits) edits :=
  Runs.always_iff_along (I := Inv) (.restored hits) (fun _ hs => hs.follows) (fun _ _ hv hc hs => hs.step hv hc)
    (fun _ _ hv hs hf => hs.careful hv hf) h

instance (s : Session η) : (edit : Edit η) → Decidable (s.Valid edit)
  | .playList _ _ => inferInstanceAs (Decidable (_ ∧ _))
  | .playAt _ | .remove _ => inferInstanceAs (Decidable (_ < _))
  | .move _ _ => inferInstanceAs (Decidable (_ ∧ _))
  | .enqueue _ _ | .playNext | .playPrev _ | .clearQueue => inferInstanceAs (Decidable True)

instance (s : Session η) : (edit : Edit η) → Decidable (s.Careful edit)
  | .remove i => inferInstanceAs (Decidable (s.plays i → i + 1 = s.queue.items.length))
  | .enqueue _ _ => inferInstanceAs (Decidable (s.queue.index < 0 → s.queue.items = []))
  | .playList _ _ | .playAt _ | .move _ _ | .playNext | .playPrev _ | .clearQueue => inferInstanceAs (Decidable True)

/-- A track is played from the queue, another put behind it, moved on, and the next one played. -/
theorem follows_careful_run :
    Follows (Runs.state step (restored [10, 11]) [.playAt 0, .enqueue 12 true, .move 1 1, .playNext] 4) :=
  (follows_iff_careful (Runs.along_iff.2 (by decide))).2 (Runs.along_iff.2 (by decide)) 4

/-- Behind a restored track another is enqueued; the first of three tracks is removed while it plays. -/
theorem strays :
    (Runs.Along step Valid (restored [10]) [.enqueue 11 false] ∧
      ¬Follows (Runs.state step (restored [10]) [.enqueue 11 false] 1)) ∧
    Runs.Along step Valid (restored [10, 11, 12]) [.playAt 0, .remove 0] ∧
      ¬Follows (Runs.state step (restored [10, 11, 12]) [.playAt 0, .remove 0] 2) := by
  refine ⟨⟨Runs.along_iff.2 (by decide), fun h => ?_⟩, Runs.along_iff.2 (by decide), fun h => ?_⟩
  · have := h.enters ⟨1, 11⟩ (by decide)
    revert this
    decide
  · have := h.removed (some ⟨1, 11⟩) (by decide)
    revert this
    decide

end Session

end PlayQueue

end TrackerStream
