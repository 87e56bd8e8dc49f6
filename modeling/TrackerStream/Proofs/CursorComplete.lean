import TrackerStream.PlaylistRelay

/-!
# The cursor loses nothing

A message that is stored gets the next version, which is past every cursor handed out so far, and keeps it until it is
replaced or evicted; so the next answer has it. Evicting a name forgets its sequence number.
-/

namespace TrackerStream.Relay

variable {caps : Caps} {s : PlaylistStore} {now : Int} {orders : Nat → MapOrder} {name n : String} {record doc : Bytes}
  {seq : UInt64} {e : PlEntry}

namespace PlaylistStore

theorem entry_remove : (s.remove name).entry n = none ∨ (s.remove name).entry n = s.entry n := by
  by_cases h : n = name
  · subst h
    exact .inl (AList.lookup_erase _ _)
  · exact .inr (AList.lookup_erase_ne h)

/-- An eviction drops entries and changes none. -/
theorem entry_evictLocked {k : Nat} :
    (s.evictLocked caps orders k).entry n = none ∨ (s.evictLocked caps orders k).entry n = s.entry n := by
  induction k generalizing s with
  | zero => exact .inr rfl
  | succ k ih =>
    rw [evictLocked]
    split
    · rcases ih with h | h
      · exact .inl h
      · rw [h]
        exact entry_remove
    · exact .inr rfl

theorem version_evictLocked {k : Nat} : (s.evictLocked caps orders k).version = s.version := by
  induction k generalizing s with
  | zero => rfl
  | succ k ih =>
    rw [evictLocked]
    split
    · exact ih
    · rfl

theorem entry_write_self : (s.write now name record doc seq).entry name =
    some ⟨record, if s.storeDocs then doc else [], seq, s.version + 1, now⟩ := AList.lookup_insert _

theorem entry_write_of_ne (h : n ≠ name) : (s.write now name record doc seq).entry n = s.entry n := AList.lookup_insert_ne h

theorem foldl_older_mem (es : List Ranged) (o : String × Int) : (es.foldl older o).1 ∈ o.1 :: es.map Sigma.fst := by
  induction es generalizing o with
  | nil => exact List.mem_singleton_self _
  | cons e es ih =>
    rw [List.foldl_cons, List.map_cons]
    rcases List.mem_cons.1 (ih (older o e)) with h | h
    · rw [h, older]
      split
      · exact List.mem_cons_of_mem _ List.mem_cons_self
      · exact List.mem_cons_self
    · exact List.mem_cons_of_mem _ (List.mem_cons_of_mem _ h)

/-- A range over entries finds one of them. -/
theorem oldest_mem {es : List Ranged} (h : es ≠ []) : oldest es ∈ es.map Sigma.fst := by
  rcases es with _ | ⟨e, es⟩
  · exact absurd rfl h
  · exact foldl_older_mem es _

/-- The evictions of a write bring the store under its caps. -/
theorem not_tooBig_evictLocked {k : Nat} (hk : s.entries.entries.length ≤ k) :
    ¬ (s.evictLocked caps orders k).tooBig caps := by
  induction k generalizing s with
  | zero => exact fun h => absurd h.1 (Nat.not_lt.2 hk)
  | succ k ih =>
    rw [evictLocked]
    split
    next hbig =>
      have hperm := (orders k).perm s.entries.entries
      have hmem : oldest ((orders k).list s.entries.entries) ∈ s.entries.entries.map Sigma.fst :=
        (hperm.map _).mem_iff.1 (oldest_mem (List.length_pos_iff.1 (hperm.length_eq ▸ hbig.1)))
      refine ih ?_
      have hlen := List.length_erase_of_mem hmem
      rw [← List.length_map Sigma.fst, remove, AList.erase]
      change ((s.entries.entries.kerase _).keys).length ≤ k
      rw [List.keys_kerase]
      refine hlen.le.trans ?_
      rw [List.length_map]
      exact Nat.sub_le_of_le_add hk
    next hbig => exact hbig

variable (caps s now orders name record doc seq) in
/-- What a message does to the entry of a name: another name's is dropped or stays; its own is dropped, or written if
the message is newer, or seen again. -/
theorem ingest_cases :
    ((s.ingest caps now orders name record doc seq).2 = true ∧ (∀ e, s.entry name = some e → e.seq < seq) ∧
        (s.ingest caps now orders name record doc seq).1.version = s.version + 1 ∧
        ∀ n, (s.ingest caps now orders name record doc seq).1.entry n = none ∨
          (s.ingest caps now orders name record doc seq).1.entry n = (s.write now name record doc seq).entry n) ∨
      (s.ingest caps now orders name record doc seq).2 = false ∧
        (s.ingest caps now orders name record doc seq).1.version = s.version ∧
        ∃ e, s.entry name = some e ∧ seq ≤ e.seq ∧
          (s.ingest caps now orders name record doc seq).1.entry name = some { e with lastSeen := now } ∧
            ∀ n, n ≠ name → (s.ingest caps now orders name record doc seq).1.entry n = s.entry n := by
  rw [ingest]
  split
  next e he =>
    split
    next hle => exact .inr ⟨rfl, rfl, e, he, hle, AList.lookup_insert _, fun n hn => AList.lookup_insert_ne hn⟩
    next hlt =>
      refine .inl ⟨rfl, fun e' he' => ?_, version_evictLocked, fun n => entry_evictLocked⟩
      rw [he] at he'
      cases he'
      exact UInt64.not_le.1 hlt
  next hnone =>
    refine .inl ⟨rfl, fun e' he' => ?_, version_evictLocked, fun n => entry_evictLocked⟩
    rw [hnone] at he'
    cases he'

/-- An entry that is not dropped has no lower sequence number afterwards, and with the same one it is the same but for
when it was seen. -/
theorem entry_ingest (h : s.entry n = some e) {e' : PlEntry}
    (h' : (s.ingest caps now orders name record doc seq).1.entry n = some e') :
    e.seq ≤ e'.seq ∧ (e'.seq ≤ e.seq → { e' with lastSeen := e.lastSeen } = e) := by
  rcases ingest_cases caps s now orders name record doc seq with ⟨-, hlt, -, hentry⟩ | ⟨-, -, e₀, he₀, -, hself, hne⟩
  · have hentry := (hentry n).resolve_left (by rw [h']; rintro ⟨⟩)
    rw [h'] at hentry
    by_cases hn : n = name
    · subst hn
      rw [entry_write_self, Option.some.injEq] at hentry
      have hlt := hlt e h
      rw [hentry]
      exact ⟨UInt64.le_of_lt hlt, fun hle => absurd hle (UInt64.not_le.2 hlt)⟩
    · rw [entry_write_of_ne hn, h, Option.some.injEq] at hentry
      rw [hentry]
      exact ⟨UInt64.le_refl _, fun _ => rfl⟩
  · by_cases hn : n = name
    · subst hn
      rw [h, Option.some.injEq] at he₀
      rw [h', Option.some.injEq, ← he₀] at hself
      rw [hself]
      exact ⟨UInt64.le_refl _, fun _ => rfl⟩
    · rw [hne n hn, h, Option.some.injEq] at h'
      rw [h']
      exact ⟨UInt64.le_refl _, fun _ => rfl⟩

theorem mem_since {v : Nat} {r : PlaylistRecord} :
    r ∈ (s.since v).2 ↔ ∃ e, s.entry r.name = some e ∧ v < e.ver ∧ r = ⟨r.name, e.seq, e.record, e.doc⟩ := by
  simp only [since, List.mem_map, List.mem_filter, decide_eq_true_eq, entry]
  constructor
  · rintro ⟨⟨name, e⟩, ⟨hmem, hlt⟩, rfl⟩
    exact ⟨e, AList.mem_lookup_iff.2 hmem, hlt, rfl⟩
  · rintro ⟨e, he, hlt, hr⟩
    exact ⟨⟨r.name, e⟩, ⟨AList.mem_lookup_iff.1 he, hlt⟩, hr.symm⟩

end PlaylistStore

namespace Sync
open PlaylistStore

variable {storeDocs : Bool} {es : List Event} {ev : Event} {y : Sync} {j k m : Nat}

theorem after_succ (h : es[k]? = some ev) : after caps storeDocs es (k + 1) = (after caps storeDocs es k).step caps ev :=
  Runs.state_succ h

theorem store_step_poll {returned : Bool} : (y.step caps (.poll returned)).store = y.store := by
  rw [step]
  split <;> rfl

theorem cursor_step (h : ev ≠ .poll true) : (y.step caps ev).cursor = y.cursor := by
  cases ev with
  | ingest => rfl
  | poll returned =>
    cases returned with
    | false => rfl
    | true => exact absurd rfl h

/-- The cursor is not past the store's version. -/
theorem cursor_le_version : ∀ k, k ≤ es.length →
    (after caps storeDocs es k).cursor ≤ (after caps storeDocs es k).store.version := by
  refine Runs.invariant (I := fun _ (y : Sync) => y.cursor ≤ y.store.version) le_rfl fun k ev _ h => ?_
  cases ev with
  | ingest now orders name record doc seq =>
    rcases ingest_cases caps (Runs.state (step caps) { store := { storeDocs } } es k).store now orders name record doc seq with
      ⟨-, -, hversion, -⟩ | ⟨-, hversion, -⟩
    · exact (Nat.le_succ_of_le h).trans hversion.ge
    · exact h.trans hversion.ge
  | poll returned =>
    cases returned with
    | false => exact h
    | true => exact le_rfl

/-- An entry that a step does not drop has no lower sequence number afterwards. -/
theorem entry_step (h : y.store.entry n = some e) {e' : PlEntry} (h' : (y.step caps ev).store.entry n = some e') :
    e.seq ≤ e'.seq ∧ (e'.seq ≤ e.seq → { e' with lastSeen := e.lastSeen } = e) := by
  cases ev with
  | ingest now orders name record doc seq => exact entry_ingest h h'
  | poll returned =>
    rw [store_step_poll, h, Option.some.injEq] at h'
    rw [h']
    exact ⟨UInt64.le_refl _, fun _ => rfl⟩

theorem getElem?_eq_some_of_lt (hm : m < k) (hk : es[k]? = some ev) : ∃ ev', es[m]? = some ev' :=
  ⟨_, List.getElem?_eq_getElem (hm.trans (List.getElem?_eq_some_iff.1 hk).1)⟩

/-- Between two answers that come back, a name is dropped or keeps a sequence number at least as high. -/
theorem seq_le_or_dropped (hjk : j ≤ k) (hk : es[k]? = some ev) (h : (after caps storeDocs es j).store.entry n = some e) :
    (∃ e', (after caps storeDocs es k).store.entry n = some e' ∧ e.seq ≤ e'.seq) ∨
      ∃ m, j < m ∧ m ≤ k ∧ (after caps storeDocs es m).store.entry n = none := by
  refine Runs.holds_or_ended (P := fun m => ∃ e', (after caps storeDocs es m).store.entry n = some e' ∧ e.seq ≤ e'.seq)
    (Q := fun m => (after caps storeDocs es m).store.entry n = none) ⟨e, h, UInt64.le_refl _⟩ (fun m _ hmk hP => ?_) hjk
  obtain ⟨ev', hev'⟩ := getElem?_eq_some_of_lt hmk hk
  obtain ⟨e₁, he₁, hle⟩ := hP
  cases hentry : (after caps storeDocs es (m + 1)).store.entry n with
  | none => exact .inr rfl
  | some e₂ =>
    rw [after_succ hev'] at hentry
    exact .inl ⟨e₂, rfl, UInt64.le_trans hle (entry_step he₁ hentry).1⟩

theorem notOlderUnlessEvicted : NotOlderUnlessEvicted caps storeDocs es := by
  intro j k hjk _ hk r hr r' hr' hname
  obtain ⟨e, he, -, hreq⟩ := mem_since.1 hr
  obtain ⟨e', he', -, hreq'⟩ := mem_since.1 hr'
  rw [← hname] at he'
  rcases seq_le_or_dropped hjk.le hk he with ⟨e'', he'', hle⟩ | ⟨m, hjm, hmk, hnone⟩
  · rw [he', Option.some.injEq] at he''
    rw [hreq, hreq', he'']
    exact .inl hle
  · rcases hmk.lt_or_eq with hmk | rfl
    · exact .inr ⟨m, hjm, hmk, hnone⟩
    · rw [he'] at hnone
      cases hnone

/-- While no answer comes back the cursor stays. -/
theorem cursor_stays (hjk : j ≤ k) (hnone : ∀ m, j ≤ m → m < k → es[m]? ≠ some (.poll true)) :
    (after caps storeDocs es k).cursor = (after caps storeDocs es j).cursor := by
  refine Runs.chain (R := fun a b : Sync => b.cursor = a.cursor) (fun _ => rfl) (fun h h' => h'.trans h)
    (fun m ev' hjm hmk hev' => cursor_step ?_) hjk
  rintro rfl
  exact hnone m hjm hmk hev'

theorem complete : Complete caps storeDocs es := by
  intro j k ev name record seq hj hstores hjk hk hnone
  obtain ⟨now, orders, doc, rfl, hnewer⟩ := hstores
  obtain ⟨hj_lt, -⟩ := List.getElem?_eq_some_iff.1 hj
  have hstays : (after caps storeDocs es k).cursor = (after caps storeDocs es j).cursor := by
    refine cursor_stays hjk.le fun m hjm hmk => ?_
    rcases hjm.lt_or_eq with hjm | rfl
    · exact hnone m hjm hmk
    · rw [hj]
      rintro ⟨⟩
  have hcursor := hstays.le.trans (cursor_le_version j hj_lt.le)
  -- the entry written, but for when it was last seen
  let Kept (e : PlEntry) : Prop := e.seq = seq ∧ e.record = record ∧ e.ver = (after caps storeDocs es j).store.version + 1
  have hwritten : ∀ e, (after caps storeDocs es (j + 1)).store.entry name = some e → Kept e := by
    intro e he
    rw [after_succ hj] at he
    rcases ingest_cases caps (after caps storeDocs es j).store now orders name record doc seq with ⟨-, -, -, hentry⟩ | ⟨hfalse, -⟩
    · rcases hentry name with h | h
      · exact absurd (h.symm.trans he) (by rintro ⟨⟩)
      · have heq := h.symm.trans he
        rw [entry_write_self, Option.some.injEq] at heq
        rw [← heq]
        exact ⟨rfl, rfl, rfl⟩
    · rw [hfalse] at hnewer
      cases hnewer
  have hstep : ∀ m, j + 1 ≤ m → m < k → (∃ e, (after caps storeDocs es m).store.entry name = some e ∧ Kept e) →
      (∃ e, (after caps storeDocs es (m + 1)).store.entry name = some e ∧ Kept e) ∨
        ∀ e, (after caps storeDocs es (m + 1)).store.entry name = some e → seq < e.seq := by
    intro m _ hmk hP
    obtain ⟨ev', hev'⟩ := getElem?_eq_some_of_lt hmk hk
    obtain ⟨e₁, he₁, hseq, hrecord, hver⟩ := hP
    by_cases hlt : ∀ e, (after caps storeDocs es (m + 1)).store.entry name = some e → seq < e.seq
    · exact .inr hlt
    · push Not at hlt
      obtain ⟨e₂, he₂, hle⟩ := hlt
      have hsame := he₂
      rw [after_succ hev'] at hsame
      have heq := (entry_step he₁ hsame).2 (hseq ▸ UInt64.not_lt.1 hle)
      refine .inl ⟨e₂, he₂, ?_⟩
      rw [← heq] at hseq hrecord hver
      exact ⟨hseq, hrecord, hver⟩
  rcases hfirst : (after caps storeDocs es (j + 1)).store.entry name with _ | e
  · refine .inr ⟨j + 1, j.lt_succ_self, hjk, fun e he => ?_⟩
    rw [hfirst] at he
    cases he
  · have hfirst : ∃ e, (after caps storeDocs es (j + 1)).store.entry name = some e ∧ Kept e := ⟨e, hfirst, hwritten e hfirst⟩
    rcases Runs.holds_or_ended (P := fun m => ∃ e, (after caps storeDocs es m).store.entry name = some e ∧ Kept e)
      (Q := fun m => ∀ e, (after caps storeDocs es m).store.entry name = some e → seq < e.seq) hfirst hstep hjk with ⟨e, he, hseq, hrecord, hver⟩ | ⟨m, hjm, hmk, hQ⟩
    · refine .inl ⟨e.doc, mem_since.2 ⟨e, he, ?_, ?_⟩⟩
      · rw [hver]
        exact Nat.lt_succ_of_le hcursor
      · rw [hseq, hrecord]
    · exact .inr ⟨m, (j.lt_succ_self).trans hjm, hmk, hQ⟩

/-- The cursor loses no message that is stored, and no name goes back unless it was evicted. -/
theorem cursor_complete (caps : Caps) (storeDocs : Bool) (es : List Event) :
    Complete caps storeDocs es ∧ NotOlderUnlessEvicted caps storeDocs es :=
  ⟨complete, notOlderUnlessEvicted⟩

/-! ### A name that comes back older -/

def largeDoc : Bytes := List.replicate (2 ^ 20) 0

def pName (i : Nat) : String := String.ofList (List.replicate (i + 1) 'p')

/-- Go may range over the entries as they are listed. -/
def asListed : MapOrder := ⟨id, fun _ => .refl _⟩

def arrival (i : Nat) : Event := .ingest i (fun _ => asListed) (pName i) [] largeDoc 5

def heldAt (i : Nat) : Ranged := ⟨pName i, [], largeDoc, 5, i + 1, i⟩

/-- Sixteen documents fill the buffer; with a seventeenth the first name is evicted, and comes back with an older
record. -/
def refill : List Event :=
  (List.range 16).map arrival ++ [.poll true, .ingest 16 (fun _ => asListed) (pName 16) [] [0] 5,
    .ingest 17 (fun _ => asListed) (pName 0) [] [0] 3, .poll true]

theorem pName_injective : Function.Injective pName := by
  intro i j h
  have h := congrArg String.length h
  simpa [pName] using h

def listed (n : Nat) : List Ranged := (List.range n).reverse.map heldAt

theorem mem_keys_listed {n i : Nat} : pName i ∈ (listed n).keys ↔ i < n := by
  simp [listed, List.keys, heldAt, pName_injective.eq_iff]

theorem nodupKeys_listed (n : Nat) : (listed n).NodupKeys := by
  rw [List.NodupKeys, listed, List.keys, List.map_map]
  exact (List.nodup_reverse.2 List.nodup_range).map pName_injective

def filled (n : Nat) : PlaylistStore :=
  { entries := ⟨listed n, nodupKeys_listed n⟩, storeDocs := true, docBytes := n * 2 ^ 20, version := n }

theorem ingest_of_new (h : s.entry name = none) : (s.ingest caps now orders name record doc seq).1 =
    (s.write now name record doc seq).evictLocked caps orders (s.write now name record doc seq).entries.entries.length := by
  rw [ingest, h]

theorem evictLocked_of_fits (h : ¬ s.tooBig caps) (k : Nat) : s.evictLocked caps orders k = s := by
  cases k with
  | zero => rfl
  | succ k => rw [evictLocked, if_neg h]

/-- A message for a new name that fits is written. -/
theorem ingest_of_fits (h : s.entry name = none) (hfits : ¬ (s.write now name record doc seq).tooBig caps) :
    (s.ingest caps now orders name record doc seq).1 = s.write now name record doc seq := by
  rw [ingest_of_new h, evictLocked_of_fits hfits]

theorem filled_succ {n : Nat} (hn : n < 16) :
    ((filled n).ingest {} n (fun _ => asListed) (pName n) [] largeDoc 5).1 = filled (n + 1) := by
  have hnew : pName n ∉ (filled n).entries := fun h => absurd (mem_keys_listed.1 (AList.mem_keys.1 h)) (lt_irrefl n)
  have hnone : (filled n).entry (pName n) = none := AList.lookup_eq_none.2 hnew
  have hwrite : (filled n).write n (pName n) [] largeDoc 5 = filled (n + 1) := by
    rw [write, hnone, filled]
    simp only [if_true, Option.map_none, Option.getD_none, filled, PlaylistStore.mk.injEq, true_and, and_true]
    constructor
    · refine AList.ext ?_
      refine (AList.entries_insert_of_notMem hnew).trans ?_
      simp [filled, listed, List.range_succ, heldAt]
    · rw [largeDoc, List.length_replicate]
      push_cast
      ring
  rw [ingest_of_fits hnone, hwrite]
  rw [hwrite]
  rintro ⟨-, h | h⟩
  · simp only [filled, listed, List.length_map, List.length_reverse, List.length_range] at h
    omega
  · simp only [filled] at h
    push_cast at h
    omega

theorem after_refill {n : Nat} (hn : n ≤ 16) : after {} true refill n = ⟨filled n, 0⟩ := by
  induction n with
  | zero => rfl
  | succ n ih =>
    have hev : refill[n]? = some (arrival n) := by
      rw [refill, List.getElem?_append_left (by simpa using hn), List.getElem?_map, List.getElem?_range hn]
      rfl
    rw [after_succ hev, ih (Nat.le_of_lt hn)]
    exact congrArg (Sync.mk · 0) (filled_succ hn)

def seventeen : PlaylistStore := (filled 16).write 16 (pName 16) [] [0] 5

theorem entries_seventeen : seventeen.entries.entries = ⟨pName 16, [], [0], 5, 17, 16⟩ :: listed 16 := by
  have hnew : pName 16 ∉ (filled 16).entries := fun h => absurd (mem_keys_listed.1 (AList.mem_keys.1 h)) (lt_irrefl 16)
  exact AList.entries_insert_of_notMem hnew

theorem docBytes_seventeen : seventeen.docBytes = 16 * 2 ^ 20 + 1 := by
  have hnone : (filled 16).entry (pName 16) = none :=
    AList.lookup_eq_none.2 fun h => absurd (mem_keys_listed.1 (AList.mem_keys.1 h)) (lt_irrefl 16)
  rw [seventeen, write, hnone]
  rfl

theorem oldest_seventeen : oldest (⟨pName 16, [], [0], 5, 17, 16⟩ :: listed 16) = pName 0 := by decide

theorem entry_seventeen : seventeen.entry (pName 0) = some (heldAt 0).2 := by
  refine AList.mem_lookup_iff.2 ?_
  rw [entries_seventeen]
  exact List.mem_cons_of_mem _ (List.mem_map.2 ⟨0, by decide, rfl⟩)

/-- With the seventeenth document the first name goes. -/
def without : PlaylistStore := seventeen.remove (pName 0)

theorem docBytes_without : without.docBytes = 15 * 2 ^ 20 + 1 := by
  rw [without, remove, docBytes_seventeen, entry_seventeen]
  simp only [Option.map_some, Option.getD_some, heldAt, largeDoc, List.length_replicate]
  norm_num

theorem length_without : without.entries.entries.length ≤ 17 := by
  refine (List.kerase_sublist _ _).length_le.trans ?_
  rw [entries_seventeen]
  exact le_rfl

theorem ingest_seventeenth : ((filled 16).ingest {} 16 (fun _ => asListed) (pName 16) [] [0] 5).1 = without := by
  have hnone : (filled 16).entry (pName 16) = none :=
    AList.lookup_eq_none.2 fun h => absurd (mem_keys_listed.1 (AList.mem_keys.1 h)) (lt_irrefl 16)
  rw [ingest_of_new hnone, ← seventeen]
  have hbig : seventeen.tooBig {} := by
    refine ⟨?_, .inr ?_⟩
    · rw [entries_seventeen]
      exact Nat.succ_pos _
    · rw [docBytes_seventeen]
      decide
  have hfits : ¬ without.tooBig {} := by
    rintro ⟨-, h | h⟩
    · exact absurd (h.trans_le length_without) (by decide)
    · rw [docBytes_without] at h
      exact absurd h (by decide)
  have holdest : oldest (asListed.list seventeen.entries.entries) = pName 0 := by
    rw [entries_seventeen]
    exact oldest_seventeen
  rw [show seventeen.entries.entries.length = 15 + 2 by rw [entries_seventeen]; rfl, evictLocked, if_pos hbig, holdest]
  exact evictLocked_of_fits hfits _

theorem ingest_again : (without.ingest {} 17 (fun _ => asListed) (pName 0) [] [0] 3).1 = without.write 17 (pName 0) [] [0] 3 := by
  have hnone : without.entry (pName 0) = none := AList.lookup_erase _ _
  rw [ingest_of_fits hnone]
  rintro ⟨-, h | h⟩
  · refine absurd h (Nat.not_lt.2 ?_)
    have hkerase := (List.kerase_sublist (pName 0) without.entries.entries).length_le.trans length_without
    exact (Nat.succ_le_succ hkerase).trans (by decide)
  · refine absurd h ?_
    rw [write, hnone]
    simp only [docBytes_without]
    decide

/-- A poll returns a record older than one that an earlier poll returned. -/
theorem refill_goes_back : ¬ ∀ (storeDocs : Bool) (es : List Event), Complete {} storeDocs es ∧ NotOlder {} storeDocs es := by
  intro h
  have h16 := after_refill le_rfl
  have h19 : after {} true refill 19 = ⟨without.write 17 (pName 0) [] [0] 3, 16⟩ := by
    rw [after_succ (k := 18) rfl, after_succ (k := 17) rfl, after_succ (k := 16) rfl, h16]
    refine (congrArg (Sync.step {} · _) (congrArg (Sync.mk · 16) ingest_seventeenth)).trans ?_
    exact congrArg (Sync.mk · 16) ingest_again
  have hle := (h true refill).2 16 19 (by omega) rfl rfl ⟨pName 0, 5, [], largeDoc⟩ ?_ ⟨pName 0, 3, [], [0]⟩ ?_ rfl
  · exact absurd hle (by decide)
  · rw [h16]
    exact mem_since.2 ⟨_, AList.mem_lookup_iff.2 (List.mem_map.2 ⟨0, by decide, rfl⟩), Nat.one_pos, rfl⟩
  · rw [h19]
    exact mem_since.2 ⟨_, entry_write_self, by decide, rfl⟩

end Sync

end TrackerStream.Relay
