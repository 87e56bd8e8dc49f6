import TrackerStream.Pins

/-!
# What the datastore has of the pins

`pinned` reads a CID's kind off the datastore. A load gives the memory just that (`newPinset_spec`), and the calls keep
the datastore behind the memory by the steps they still have to make (`Inv`), so that the two agree when there are none.
-/

namespace TrackerStream.Pins
open WriteBehind

variable {Cid : Type} [DecidableEq Cid] {lib : Lib Cid} {roots legacy : Roots Cid} {ds ds' : Datastore} {c : Cid}
  {order : RangeOrder} {fails : LoadStep → Bool} {data : Bytes}

/-! ### Loading -/

variable (lib) in
theorem lookup_pinAll (pins : List (String × PinKind)) (roots : Roots Cid) (c : Cid) :
    (∃ s k, (s, k) ∈ pins ∧ lib.decode s = some c ∧ (pinAll lib roots pins).lookup c = some k) ∨
      (∀ s k, (s, k) ∈ pins → lib.decode s ≠ some c) ∧ (pinAll lib roots pins).lookup c = roots.lookup c := by
  induction pins generalizing roots with
  | nil => exact .inr ⟨fun s k h => absurd h List.not_mem_nil, rfl⟩
  | cons pin pins ih =>
    obtain ⟨s, k⟩ := pin
    rw [pinAll, List.foldl_cons, ← pinAll]
    rcases ih (pin lib roots (s, k)) with ⟨s', k', hmem, hs', hlookup⟩ | ⟨hnone, hlookup⟩
    · exact .inl ⟨s', k', List.mem_cons_of_mem _ hmem, hs', hlookup⟩
    · by_cases hs : lib.decode s = some c
      · refine .inl ⟨s, k, List.mem_cons_self, hs, ?_⟩
        rw [hlookup, pin, hs]
        exact AList.lookup_insert _
      · refine .inr ⟨fun s' k' hmem => ?_, ?_⟩
        · rcases List.mem_cons.1 hmem with heq | hmem
          · cases heq
            exact hs
          · exact hnone s' k' hmem
        · rw [hlookup, pin]
          split
          next c' hc' => exact AList.lookup_insert_ne fun heq => hs (heq ▸ hc')
          next => rfl

/-- The kind the datastore has of a CID. -/
def pinned (lib : Lib Cid) (ds : Datastore) (c : Cid) : Option PinKind := (ds.items.lookup (lib.string c)).map kindOf

theorem lookup_loadItems (hlib : ∀ c, lib.decode (lib.string c) = some c) (hds : ds.Canonical lib) :
    (loadItems lib roots ds.items).lookup c = (pinned lib ds c).or (roots.lookup c) := by
  rcases lookup_pinAll lib (ds.items.entries.map fun e => (e.1, kindOf e.2)) roots c with
    ⟨s, k, hmem, hs, hlookup⟩ | ⟨hnone, hlookup⟩
  · obtain ⟨⟨s', v⟩, hentry, heq⟩ := List.mem_map.1 hmem
    cases heq
    have hv := AList.mem_lookup_iff.2 hentry
    obtain rfl := hds s' c (AList.lookup_isSome.1 (by rw [hv]; rfl)) hs
    rw [loadItems, hlookup, pinned, hv]
    rfl
  · rw [loadItems, hlookup, pinned]
    cases hv : ds.items.lookup (lib.string c) with
    | none => rfl
    | some v =>
      exact absurd (hlib c) (hnone _ (kindOf v) (List.mem_map.2 ⟨⟨_, v⟩, AList.mem_lookup_iff.1 hv, rfl⟩))

omit [DecidableEq Cid] in
theorem string_injective (hlib : ∀ c, lib.decode (lib.string c) = some c) : Function.Injective lib.string := by
  intro a b h
  have ha := hlib a
  rw [h, hlib b, Option.some.injEq] at ha
  exact ha.symm

theorem lookup_put (hlib : ∀ c, lib.decode (lib.string c) = some c) (items : AList fun _ : String => Bytes) (c c' : Cid)
    (k : PinKind) : (put lib items c k).lookup (lib.string c') = if c' = c then some [k] else items.lookup (lib.string c') := by
  rw [put]
  split
  next h =>
    subst h
    exact AList.lookup_insert _
  next h => exact AList.lookup_insert_ne fun heq => h (string_injective hlib heq)

/-- The batch puts each of its pins over what was there. -/
theorem lookup_migrated (hlib : ∀ c, lib.decode (lib.string c) = some c) (c : Cid) :
    (migrated lib ds legacy).items.lookup (lib.string c) =
      ((legacy.lookup c).map ([·])).or (ds.items.lookup (lib.string c)) := by
  have hfold : ∀ (es : List (Sigma fun _ : Cid => PinKind)), es.NodupKeys → ∀ items : AList fun _ : String => Bytes,
      (es.foldl (fun items e => put lib items e.1 e.2) items).lookup (lib.string c) =
        ((es.dlookup c).map ([·])).or (items.lookup (lib.string c)) := by
    intro es
    induction es with
    | nil => exact fun _ items => by simp
    | cons e es ih =>
      intro hnodup items
      obtain ⟨hnot, hes⟩ := List.nodupKeys_cons.1 hnodup
      rw [List.foldl_cons, ih hes, lookup_put hlib]
      by_cases hc : c = e.1
      · subst hc
        rw [List.dlookup_eq_none.2 hnot, if_pos rfl, List.dlookup_cons_eq]
        rfl
      · rw [if_neg hc, List.dlookup_cons_ne _ _ hc]
  exact hfold legacy.entries legacy.nodupKeys ds.items

omit [DecidableEq Cid] in
theorem canonical_put {items : AList fun _ : String => Bytes} {k : PinKind} {blob : Option Bytes}
    (hlib : ∀ c, lib.decode (lib.string c) = some c) (h : Datastore.Canonical lib ⟨blob, items⟩) : Datastore.Canonical lib ⟨blob, put lib items c k⟩ := by
  intro s c' hs hdecode
  rcases (AList.mem_insert _).1 hs with rfl | hs
  · rw [hlib c, Option.some.injEq] at hdecode
    rw [hdecode]
  · exact h s c' hs hdecode

theorem canonical_migrated (hlib : ∀ c, lib.decode (lib.string c) = some c) (h : ds.Canonical lib) :
    (migrated lib ds legacy).Canonical lib := by
  have hfold : ∀ (es : List (Sigma fun _ : Cid => PinKind)) (items : AList fun _ : String => Bytes),
      Datastore.Canonical lib ⟨none, items⟩ →
        Datastore.Canonical lib ⟨none, es.foldl (fun items e => put lib items e.1 e.2) items⟩ := by
    intro es
    induction es with
    | nil => exact fun _ h => h
    | cons e es ih => exact fun items h => ih _ (canonical_put hlib h)
  exact hfold legacy.entries ds.items h

/-- What a load of `ds` has made of it: the pins of the blob are entries. -/
structure Migrated (lib : Lib Cid) (ds ds' : Datastore) : Prop where
  blob : ds'.blob = none
  canonical : ds'.Canonical lib
  pins : ∃ roots : Roots Cid, Yields lib ds roots ∧ ∀ c, pinned lib ds' c = roots.lookup c

theorem pinned_migrated (hlib : ∀ c, lib.decode (lib.string c) = some c) (c : Cid) :
    pinned lib (migrated lib ds legacy) c = (legacy.lookup c).or (pinned lib ds c) := by
  rw [pinned, lookup_migrated hlib]
  cases legacy.lookup c <;> rfl

theorem Migrated.of_blob (hlib : ∀ c, lib.decode (lib.string c) = some c) (hds : ds.Canonical lib)
    (hblob : ds.blob = some data) (order : RangeOrder) :
    Migrated lib ds (migrated lib ds (parseLegacyPins lib order data)) := by
  refine ⟨rfl, canonical_migrated hlib hds, loadItems lib ∅ (migrated lib ds (parseLegacyPins lib order data)).items,
    fun c => ?_, fun c => ?_⟩
  · rw [lookup_loadItems hlib (canonical_migrated hlib hds), pinned_migrated hlib, AList.lookup_empty, Option.or_none]
    rcases lookup_pinAll lib (blobPins lib order data) ∅ c with ⟨s, k, hmem, hs, hlookup⟩ | ⟨hnone, hlookup⟩
    · refine .inl ⟨order, data, s, k, hblob, hmem, hs, ?_⟩
      rw [parseLegacyPins, hlookup]
      rfl
    · refine .inr ⟨fun order' data' s k hblob' hmem => ?_, ?_⟩
      · rw [hblob, Option.some.injEq] at hblob'
        subst hblob'
        refine hnone s k ?_
        rw [blobPins] at hmem ⊢
        split at hmem
        · exact (((order.perm _).trans (order'.perm _).symm).map _).mem_iff.2 hmem
        · exact hmem
      · rw [parseLegacyPins, hlookup, AList.lookup_empty, Option.none_or]
        rfl
  · rw [lookup_loadItems hlib (canonical_migrated hlib hds), AList.lookup_empty, Option.or_none]

/-- What a load leaves, and what it reads if it succeeds. -/
theorem newPinset_spec (hlib : ∀ c, lib.decode (lib.string c) = some c) (hds : ds.Canonical lib) (order : RangeOrder)
    (fails : LoadStep → Bool) :
    ((newPinset lib order fails ds).1 = ds ∨ ds.blob.isSome = true ∧ Migrated lib ds (newPinset lib order fails ds).1) ∧
      ∀ roots, (newPinset lib order fails ds).2 = some roots →
        (newPinset lib order fails ds).1.blob = none ∧ ∀ c, roots.lookup c = pinned lib (newPinset lib order fails ds).1 c := by
  rw [newPinset]
  split
  · exact ⟨.inl rfl, fun roots h => by cases h⟩
  split
  next hblob =>
    dsimp only
    split
    · exact ⟨.inl rfl, fun roots h => by cases h⟩
    · refine ⟨.inl rfl, fun roots h => ⟨hblob, fun c => ?_⟩⟩
      cases h
      rw [lookup_loadItems hlib hds, AList.lookup_empty, Option.or_none]
  next data hblob =>
    have hmigrated := Migrated.of_blob hlib hds hblob order
    have hsome : ds.blob.isSome = true := by rw [hblob]; rfl
    dsimp only
    split
    · exact ⟨.inl rfl, fun roots h => by cases h⟩
    split
    · exact ⟨.inr ⟨hsome, hmigrated⟩, fun roots h => by cases h⟩
    · refine ⟨.inr ⟨hsome, hmigrated⟩, fun roots h => ⟨rfl, fun c => ?_⟩⟩
      cases h
      rw [lookup_loadItems hlib hmigrated.canonical, pinned_migrated hlib]
      cases (parseLegacyPins lib order data).lookup c with
      | none => exact Option.or_none
      | some k => rfl

variable (lib) in
theorem newPinset_succeeds (order : RangeOrder) (ds : Datastore) :
    ∃ roots, (newPinset lib order (fun _ => false) ds).2 = some roots := by
  rw [newPinset]
  cases ds.blob with
  | none => exact ⟨_, rfl⟩
  | some data =>
    simp only [Bool.false_eq_true, Bool.and_false, Bool.or_self, if_false]
    exact ⟨_, rfl⟩

theorem loads_iff (hlib : ∀ c, lib.decode (lib.string c) = some c) (hds : ds.Canonical lib) (hblob : ds.blob = none) :
    Pinset.Loads lib ds roots ↔ ∀ c, roots.lookup c = pinned lib ds c := by
  have hread : ∀ order roots', (newPinset lib order (fun _ => false) ds).2 = some roots' →
      ∀ c, roots'.lookup c = pinned lib ds c := by
    intro order roots' hsome c
    obtain ⟨hleft, hroots⟩ := newPinset_spec hlib hds order fun _ => false
    rcases hleft with hsame | ⟨hsome, -⟩
    · rw [(hroots roots' hsome).2 c, hsame]
    · rw [hblob] at hsome
      cases hsome
  constructor
  · intro h c
    obtain ⟨roots', hsome, hsame⟩ := h ⟨id, fun _ => .refl _⟩
    rw [hsame c, hread _ _ hsome c]
  · intro h order
    obtain ⟨roots', hsome⟩ := newPinset_succeeds lib order ds
    exact ⟨roots', hsome, fun c => by rw [h c, hread order roots' hsome c]⟩

/-! ### The blob -/

theorem Yields.congr {roots' : Roots Cid} (h : Yields lib ds roots) (hsame : ∀ c, roots'.lookup c = roots.lookup c) :
    Yields lib ds roots' := by
  intro c
  rw [hsame c]
  exact h c

/-- After any loads, failed ones too, a load yields the pins of the blob and the entries. -/
theorem yields_afterLoads (hlib : ∀ c, lib.decode (lib.string c) = some c) (hds : ds.Canonical lib) (loads : List Load)
    (order : RangeOrder) (fails : LoadStep → Bool) {roots : Roots Cid}
    (h : (newPinset lib order fails (afterLoads lib ds loads)).2 = some roots) : Yields lib ds roots := by
  have hleft : afterLoads lib ds loads = ds ∨ Migrated lib ds (afterLoads lib ds loads) := by
    refine List.reverseRecOn loads (.inl rfl) fun loads load ih => ?_
    rw [afterLoads, List.foldl_append, List.foldl_cons, List.foldl_nil, ← afterLoads]
    rcases ih with heq | hmigrated
    · rw [heq]
      rcases (newPinset_spec hlib hds load.order load.fails).1 with h | ⟨-, h⟩
      · exact .inl h
      · exact .inr h
    · rcases (newPinset_spec hlib hmigrated.canonical load.order load.fails).1 with h | ⟨h, -⟩
      · rw [h]
        exact .inr hmigrated
      · rw [hmigrated.blob] at h
        cases h
  rcases hleft with heq | hmigrated
  · rw [heq] at h
    obtain ⟨hleft, hroots⟩ := newPinset_spec hlib hds order fails
    obtain ⟨hnone, hlookup⟩ := hroots roots h
    rcases hleft with hsame | ⟨-, hmigrated⟩
    · rw [hsame] at hnone hlookup
      refine fun c => .inr ⟨fun _ data s k hblob => ?_, hlookup c⟩
      rw [hnone] at hblob
      cases hblob
    · obtain ⟨roots', hyields, hpinned⟩ := hmigrated.pins
      exact hyields.congr fun c => by rw [hlookup c, hpinned c]
  · obtain ⟨hleft, hroots⟩ := newPinset_spec hlib hmigrated.canonical order fails
    obtain ⟨-, hlookup⟩ := hroots roots h
    obtain ⟨roots', hyields, hpinned⟩ := hmigrated.pins
    rcases hleft with hsame | ⟨hsome, -⟩
    · rw [hsame] at hlookup
      exact hyields.congr fun c => by rw [hlookup c, hpinned c]
    · rw [hmigrated.blob] at hsome
      cases hsome

/-! ### Calls -/

/-- The write of the datastore that a call still has to make. -/
def Call.write (call : Call Cid) : Write Cid PinKind := ⟨call.cid, call.op.kind, call.found⟩

namespace Pinset

variable {p : Pinset Cid} {acts : List (Act Cid)} {op : Op} {id j k : Nat} {x : Call Cid}

/-- The datastore lags behind the memory by the calls in progress, oldest first. -/
structure Inv (lib : Lib Cid) (p : Pinset Cid) : Prop where
  lags : Lags (fun c => p.roots.lookup c) (pinned lib p.ds) (p.calls.map Call.write)
  blob : p.ds.blob = none
  canonical : p.ds.Canonical lib
  sorted : p.calls.Pairwise fun a b => a.id < b.id
  next : ∀ call ∈ p.calls, call.id < p.next

theorem lookup_call (lib : Lib Cid) (c' : Cid) : (p.step lib (.call c op)).roots.lookup c' =
    Function.update (fun c => p.roots.lookup c) c op.kind c' := by
  rw [step, Function.update_apply]
  by_cases hc : c' = c
  · subst hc
    rw [if_pos rfl]
    cases op.kind with
    | some k => exact AList.lookup_insert _
    | none => exact AList.lookup_erase _ _
  · rw [if_neg hc]
    cases op.kind with
    | some k => exact AList.lookup_insert_ne hc
    | none => exact AList.lookup_erase_ne hc

theorem Inv.call (h : Inv lib p) : Inv lib (p.step lib (.call c op)) := by
  refine ⟨?_, h.blob, h.canonical, ?_, ?_⟩
  · have hlags := h.lags.begin (k := c) (v := op.kind)
    rw [← funext (lookup_call lib)] at hlags
    simpa [step, Call.write] using hlags
  · refine List.pairwise_append.2 ⟨h.sorted, List.pairwise_singleton _ _, fun a ha b hb => ?_⟩
    rw [List.mem_singleton.1 hb]
    exact h.next a ha
  · intro call hcall
    rcases List.mem_append.1 hcall with hcall | hcall
    · exact Nat.lt_succ_of_lt (h.next call hcall)
    · rw [List.mem_singleton.1 hcall]
      exact Nat.lt_succ_self _

/-- The call that finishes, those begun before it and those begun after it. -/
theorem Inv.split (h : Inv lib p) {call : Call Cid} (hfind : p.calls.find? (·.id = id) = some call) : call.id = id ∧ ∃ l₁ l₂,
    p.calls = l₁ ++ call :: l₂ ∧ p.calls.filter (·.id ≠ id) = l₁ ++ l₂ ∧ ∀ x ∈ l₁, x.id < id := by
  obtain ⟨hid, l₁, l₂, hcalls, -⟩ := List.find?_eq_some_iff_append.1 hfind
  obtain rfl : call.id = id := by simpa using hid
  have hsorted := h.sorted
  rw [hcalls, List.pairwise_append, List.pairwise_cons] at hsorted
  have hbefore : ∀ x ∈ l₁, x.id < call.id := fun x hx => hsorted.2.2 x hx call List.mem_cons_self
  refine ⟨rfl, l₁, l₂, hcalls, ?_, hbefore⟩
  rw [hcalls, List.filter_append, List.filter_cons_of_neg (by simp), List.filter_eq_self.2, List.filter_eq_self.2]
  · intro x hx
    simpa using (hsorted.2.1.1 x hx).ne'
  · intro x hx
    simpa using (hbefore x hx).ne

theorem pinned_write (hlib : ∀ c, lib.decode (lib.string c) = some c) (ds : Datastore) (c : Cid) (k : Option PinKind) :
    pinned lib (write lib ds c k) = Function.update (pinned lib ds) c k := by
  funext c'
  rw [Function.update_apply]
  cases k with
  | some k =>
    rw [write, pinned, lookup_put hlib]
    split <;> rfl
  | none =>
    by_cases hc : c' = c
    · subst hc
      rw [if_pos rfl, write, pinned, AList.lookup_erase]
      rfl
    · rw [if_neg hc, write, pinned, AList.lookup_erase_ne fun heq => hc (string_injective hlib heq)]
      rfl

omit [DecidableEq Cid] in
theorem blob_write (c : Cid) (k : Option PinKind) : (write lib ds c k).blob = ds.blob := by
  cases k <;> rfl

omit [DecidableEq Cid] in
theorem canonical_write (hlib : ∀ c, lib.decode (lib.string c) = some c) (h : ds.Canonical lib) (k : Option PinKind) :
    (write lib ds c k).Canonical lib := by
  cases k with
  | some k => exact canonical_put hlib h
  | none => exact fun s c' hs => h s c' (AList.mem_erase.1 hs).2

theorem Inv.finish {fails : Bool} (hlib : ∀ c, lib.decode (lib.string c) = some c) (h : Inv lib p)
    (horder : p.InOrder (.finish id fails)) : Inv lib (p.step lib (.finish id fails)) := by
  rw [step]
  split
  next => exact h
  next call hfind =>
    obtain ⟨hid, l₁, l₂, hcalls, hrest, hbefore⟩ := h.split hfind
    have hmem : call ∈ p.calls := by simp [hcalls]
    have hlags := h.lags
    rw [hcalls, List.map_append, List.map_cons] at hlags
    have hsorted : (p.calls.filter (·.id ≠ id)).Pairwise fun a b => a.id < b.id := h.sorted.filter _
    have hnext : ∀ call ∈ p.calls.filter (·.id ≠ id), call.id < p.next := fun call hc => h.next call (List.mem_of_mem_filter hc)
    cases fails with
    | true =>
      refine ⟨?_, h.blob, h.canonical, hsorted, hnext⟩
      have hidle := (horder call hmem hid).1 rfl
      rw [hrest, List.map_append]
      exact hlags.fail hidle
    | false =>
      have hsame := (horder call hmem hid).2 rfl
      refine ⟨?_, (blob_write _ _).trans h.blob, ?_, hsorted, hnext⟩
      · have hwritten := hlags.finish (w := call.write) (fun y hy hkey => by
          obtain ⟨x, hx, rfl⟩ := List.mem_map.1 hy
          exact hsame x (by simp [hcalls, hx]) (hbefore x hx) hkey)
        rw [hrest, List.map_append]
        show Lags _ (pinned lib (write lib p.ds call.cid call.op.kind)) _
        rw [pinned_write hlib]
        exact hwritten
      · exact canonical_write hlib h.canonical _

theorem inv_after (hlib : ∀ c, lib.decode (lib.string c) = some c) (h : Inv lib p)
    (horder : Runs.Along (step lib) InOrder p acts) (hk : k ≤ acts.length) : Inv lib (p.after lib acts k) := by
  refine Runs.invariant (I := fun _ p => Inv lib p) h (fun k act hact hinv => ?_) k hk
  cases act with
  | call c op => exact hinv.call
  | finish id fails => exact hinv.finish hlib (horder k _ hact)

theorem inv_start {fails : LoadStep → Bool} (hlib : ∀ c, lib.decode (lib.string c) = some c) (hds : ds.Canonical lib)
    (h : (newPinset lib order fails ds).2 = some roots) : Inv lib ⟨roots, (newPinset lib order fails ds).1, [], 0⟩ := by
  obtain ⟨hleft, hroots⟩ := newPinset_spec hlib hds order fails
  obtain ⟨hblob, hlookup⟩ := hroots roots h
  refine ⟨?_, hblob, ?_, .nil, fun _ h => absurd h List.not_mem_nil⟩
  · rw [show (fun c => roots.lookup c) = _ from funext hlookup]
    exact .refl _
  · rcases hleft with hsame | ⟨-, hmigrated⟩
    · rw [hsame]
      exact hds
    · exact hmigrated.canonical

/-- The call begun in a state, as long as it is in progress. -/
theorem begun_step (lib : Lib Cid) {call : Call Cid} (act : Act Cid)
    (h : call.id < p.next ∧ ∀ x ∈ p.calls, x.id = call.id → x = call) :
    call.id < (p.step lib act).next ∧ ∀ x ∈ (p.step lib act).calls, x.id = call.id → x = call := by
  obtain ⟨hlt, hcall⟩ := h
  cases act with
  | call c op =>
    refine ⟨Nat.lt_succ_of_lt hlt, fun x hx hid => ?_⟩
    rcases List.mem_append.1 hx with hx | hx
    · exact hcall x hx hid
    · rw [List.mem_singleton.1 hx] at hid
      exact absurd hid hlt.ne'
  | finish id fails =>
    rw [step]
    split
    · exact ⟨hlt, hcall⟩
    · exact ⟨hlt, fun x hx => hcall x (List.mem_of_mem_filter hx)⟩

theorem next_step (lib : Lib Cid) (p : Pinset Cid) (act : Act Cid) : p.next ≤ (p.step lib act).next := by
  cases act with
  | call c op => exact Nat.le_succ _
  | finish id fails =>
    rw [step]
    split <;> exact le_rfl

theorem next_le (hjk : j ≤ k) : (p.after lib acts j).next ≤ (p.after lib acts k).next :=
  Runs.chain (R := fun a b : Pinset Cid => a.next ≤ b.next) (fun _ => le_rfl) le_trans
    (fun _ act _ _ _ => next_step lib _ act) hjk

theorem begun_after {c : Cid} (hinv : Inv lib (p.after lib acts j)) (hj : acts[j]? = some (.call c op)) (hjk : j + 1 ≤ k) :
    ∀ x ∈ (p.after lib acts k).calls, x.id = (p.after lib acts j).next →
      x = ⟨(p.after lib acts j).next, c, op, (p.after lib acts j).roots.lookup c⟩ := by
  let call : Call Cid := ⟨(p.after lib acts j).next, c, op, (p.after lib acts j).roots.lookup c⟩
  have hfirst : call.id < (p.after lib acts (j + 1)).next ∧ ∀ x ∈ (p.after lib acts (j + 1)).calls, x.id = call.id → x = call := by
    have hsucc : p.after lib acts (j + 1) = (p.after lib acts j).step lib (.call c op) := Runs.state_succ hj
    rw [hsucc]
    refine ⟨Nat.lt_succ_self _, fun x hx hid => ?_⟩
    rcases List.mem_append.1 hx with hx | hx
    · exact absurd hid (hinv.next x hx).ne
    · exact List.mem_singleton.1 hx
  refine (Runs.chain (R := fun a b : Pinset Cid => (call.id < a.next ∧ ∀ x ∈ a.calls, x.id = call.id → x = call) →
    call.id < b.next ∧ ∀ x ∈ b.calls, x.id = call.id → x = call) (fun _ h => h) (fun hab hbc h => hbc (hab h))
    (fun m act _ _ _ => begun_step lib act) hjk hfirst).2

theorem durable_of_inv (hlib : ∀ c, lib.decode (lib.string c) = some c) (h : Inv lib p)
    (horder : Runs.Along (step lib) InOrder p acts) : Durable lib p acts := by
  have hinv : ∀ k, Inv lib (p.after lib acts k) := by
    intro k
    rcases le_total k acts.length with hk | hk
    · exact inv_after hlib h horder hk
    · rw [after, Runs.state_of_le hk]
      exact inv_after hlib h horder le_rfl
  refine ⟨fun k hcalls => ?_, fun j k c op hj hk hcall => ?_⟩
  · have hlags := (hinv k).lags
    rw [hcalls] at hlags
    exact (loads_iff hlib (hinv k).canonical (hinv k).blob).2 fun c => congrFun hlags.settled c
  · obtain ⟨call, hmem, hid⟩ := hcall
    have hjk : j < k := by
      by_contra hle
      have hnext : (p.after lib acts k).next ≤ (p.after lib acts j).next := next_le (Nat.not_lt.1 hle)
      exact absurd hid ((hinv k).next call hmem |>.trans_le hnext).ne
    have hbegun := begun_after (hinv j) hj hjk call hmem hid
    have hidle := (horder k _ hk call hmem hid).1 rfl
    rw [hbegun] at hidle
    have hj' : p.after lib acts (j + 1) = (p.after lib acts j).step lib (.call c op) := Runs.state_succ hj
    have hk' : p.after lib acts (k + 1) = (p.after lib acts k).step lib (.finish (p.after lib acts j).next true) :=
      Runs.state_succ hk
    constructor
    · intro c'
      rw [hj', lookup_call, hidle, Function.update_eq_self]
    · rw [hk', step]
      split <;> rfl

end Pinset

/-- If the datastore's steps come in order and fail only where nothing was changed, the pins are durable; and a blob is
loaded with all of its pins, whatever loads failed before. -/
theorem durable_of_inOrder (lib : Lib Cid) (hlib : ∀ c, lib.decode (lib.string c) = some c) (ds : Datastore)
    (hds : ds.Canonical lib) :
    (∀ order fails roots, (newPinset lib order fails ds).2 = some roots → ∀ acts,
      Runs.Along (Pinset.step lib) Pinset.InOrder ⟨roots, (newPinset lib order fails ds).1, [], 0⟩ acts →
        Pinset.Durable lib ⟨roots, (newPinset lib order fails ds).1, [], 0⟩ acts) ∧
      ∀ loads order, ∃ roots, (newPinset lib order (fun _ => false) (afterLoads lib ds loads)).2 = some roots ∧
        Yields lib ds roots := by
  refine ⟨fun order fails roots h acts horder => Pinset.durable_of_inv hlib (Pinset.inv_start hlib hds h) horder, ?_⟩
  intro loads order
  obtain ⟨roots, hroots⟩ := newPinset_succeeds lib order (afterLoads lib ds loads)
  exact ⟨roots, hroots, yields_afterLoads hlib hds loads order _ hroots⟩

/-! ### Two calls on one CID -/

def rootCid : String := "bafybeifkvpzgp7a7bribrzn4o5dbom6ccfumx22vtzxhnterjfxcbaor4m"

/-- The libraries, for this CID and a node without a blob. -/
def sample : Lib {s // s = rootCid} where
  decode s := if h : s = rootCid then some ⟨s, h⟩ else none
  string c := c
  unmarshalMap _ := none
  unmarshalArray _ := none

def root : {s // s = rootCid} := ⟨rootCid, rfl⟩

def fresh : Pinset {s // s = rootCid} := { roots := ∅, ds := {} }

theorem sample_decode (c : {s // s = rootCid}) : sample.decode (sample.string c) = some c := by
  obtain ⟨s, rfl⟩ := c
  rfl

theorem sample_canonical : Datastore.Canonical sample {} := fun _ _ h => absurd h (AList.notMem_empty _)

/-- The delete of a removal comes before the put of the call it undoes; and a put fails. -/
theorem overlapped_not_durable :
    ¬ Pinset.Durable sample fresh [.call root .Add, .call root .Remove, .finish 1 false, .finish 0 false] ∧
      ¬ Pinset.Durable sample fresh [.call root .Add, .finish 0 true] := by
  constructor
  · intro h
    obtain ⟨roots, hsome, hsame⟩ := h.settled 4 rfl ⟨id, fun _ => .refl _⟩
    cases hsome
    exact absurd (hsame root) (by decide)
  · intro h
    have hsame := (h.errors 0 1 root .Add rfl rfl ⟨⟨0, root, .Add, none⟩, .head _, rfl⟩).1 root
    exact absurd hsame (by decide)

theorem one_by_one_durable :
    Pinset.Durable sample fresh [.call root .Add, .finish 0 false, .call root .Remove, .finish 1 false] ∧
      ∃ roots, (newPinset sample ⟨id, fun _ => .refl _⟩ (fun _ => false) {}).2 = some roots ∧ Yields sample {} roots := by
  have h := durable_of_inOrder sample sample_decode {} sample_canonical
  refine ⟨h.1 ⟨id, fun _ => .refl _⟩ (fun _ => false) ∅ rfl _ ?_, h.2 [] _⟩
  exact Runs.along_cons (by decide) (Runs.along_cons (by decide) (Runs.along_cons (by decide)
    (Runs.along_cons (by decide) Runs.along_nil)))

end TrackerStream.Pins
