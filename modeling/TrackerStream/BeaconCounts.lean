import TrackerStream.Beacon
import TrackerStream.Lru
import TrackerStream.Runs

/-!
# Counting beacons (`beacon.go`, `beacon.ts`)

Both clients keep the origins that beaconed a hash with the time of their last beacon, 512 of them at most, and count
those of the last day. The browser skips a beacon that follows another of its origin within two minutes and, when it is
full, drops the origin seen longest ago; the node drops the origins of more than a day ago and, when it is full, takes no
new one. The node keeps 16384 hashes, the one used longest ago goes first; the browser keeps all.
-/

namespace TrackerStream.Beacon

/-- Origins with the times they were seen. -/
abbrev Origins := List (String × Int)

/-- What reaches a ledger: a hash of a beacon, or a query. -/
inductive Touch (η : Type)
  | note (origin : String) (hash : η) (now : Int)
  | count (hash : η) (now : Int)

namespace Touch
variable {η : Type}

def now : Touch η → Int
  | note _ _ now => now
  | count _ now => now

end Touch

/-- A beacon that was accepted, or a query for some hashes. -/
inductive Inbound (η : Type)
  | record (origin : String) (hashes : List η) (now : Int)
  | backers (hashes : List η) (now : Int)

namespace Inbound
variable {η : Type}

def now : Inbound η → Int
  | record _ _ now => now
  | backers _ now => now

def touches : Inbound η → List (Touch η)
  | record origin hashes now => hashes.map fun h => .note origin h now
  | backers hashes now => hashes.map fun h => .count h now

end Inbound

namespace Web

def BEACON_WINDOW_SECS : Int := 24 * 60 * 60
def BEACON_MIN_GAP_SECS : Int := 2 * 60
def BEACON_MAX_ORIGINS : Nat := 512

/-- `record` for one hash; the origins are in the order they were put in. -/
def record (m : Origins) (origin : String) (now : Int) : Origins :=
  if (m.find? fun x => x.1 = origin).any fun x => now - x.2 < BEACON_MIN_GAP_SECS then m
  else
    let m := m.filter fun x => x.1 ≠ origin
    (if BEACON_MAX_ORIGINS ≤ m.length then m.tail else m) ++ [(origin, now)]

/-- The origins `count` leaves, and counts. -/
def current (m : Origins) (now : Int) : Origins := m.filter fun x => now - x.2 < BEACON_WINDOW_SECS

/-- The origins of each hash; the hex text of a hash stands for it. -/
structure BeaconLedger (η : Type) where
  byHash : AList fun _ : η => Origins

namespace BeaconLedger
variable {η : Type} [DecidableEq η]

def empty : BeaconLedger η := ⟨∅⟩

def origins (l : BeaconLedger η) (h : η) : Origins := (l.byHash.lookup h).getD []

def step (l : BeaconLedger η) : Touch η → BeaconLedger η
  | .note origin h now => ⟨l.byHash.insert h (record (l.origins h) origin now)⟩
  | .count h now => if h ∈ l.byHash then ⟨l.byHash.insert h (current (l.origins h) now)⟩ else l

def receive (l : BeaconLedger η) (i : Inbound η) : BeaconLedger η := i.touches.foldl step l

def count (l : BeaconLedger η) (h : η) (now : Int) : Nat := (current (l.origins h) now).length

/-- The entries of all hashes. -/
def total (l : BeaconLedger η) : Nat := (l.byHash.entries.map fun e => e.2.length).sum

end BeaconLedger
end Web

namespace Node

/-- Times are in nanoseconds. -/
def beaconWindow : Int := 24 * 3600 * 10 ^ 9
def beaconOriginMinGap : Int := 2 * 60 * 10 ^ 9
def beaconOriginsPerHash : Nat := 512
def beaconHashCap : Nat := 16384

/-- `originSet.touch`. -/
def touch (m : Origins) (p : String) (now : Int) : Origins :=
  let m := m.filter fun x => now - x.2 ≤ beaconWindow
  if p ∉ m.map Prod.fst ∧ beaconOriginsPerHash ≤ m.length then m
  else (m.filter fun x => x.1 ≠ p) ++ [(p, now)]

/-- `originSet.count`. -/
def current (m : Origins) (now : Int) : Origins := m.filter fun x => now - x.2 ≤ beaconWindow

/-- `beaconState.counts`. -/
abbrev Counts := Lru Hash8 Origins beaconHashCap

namespace Counts

def origins (c : Counts) (h : Hash8) : Origins := (c.find h).getD []

/-- `record` for one hash, and `backers` for one name. -/
def step (c : Counts) : Touch Hash8 → Counts
  | .note origin h now => c.add h (Node.touch (c.origins h) origin now)
  | .count h _ => c.touch h

def receive (c : Counts) (i : Inbound Hash8) : Counts := i.touches.foldl step c

def count (c : Counts) (h : Hash8) (now : Int) : Nat := (current (c.origins h) now).length

def total (c : Counts) : Nat := (c.entries.map fun e => e.2.length).sum

end Counts
end Node

/-! ### What was beaconed -/

/-- The beacons of a hash with their origins. -/
def sightings {η : Type} [DecidableEq η] (h : η) : List (Touch η) → Origins
  | [] => []
  | .note origin h' now :: ts => if h' = h then (origin, now) :: sightings h ts else sightings h ts
  | .count .. :: ts => sightings h ts

/-- The origins that were seen at a time of `P`. -/
def originsIn (m : Origins) (P : Int → Prop) [DecidablePred P] : Finset String :=
  ((m.filter fun x => P x.2).map Prod.fst).toFinset

/-- No day has more than 512 origins. -/
def Quiet (window : Int) (m : Origins) : Prop := ∀ a, (originsIn m fun t => a ≤ t ∧ t ≤ a + window).card ≤ 512

section
variable {m : Origins} {P : Int → Prop} [DecidablePred P] {o : String}

theorem mem_originsIn : o ∈ originsIn m P ↔ ∃ t, (o, t) ∈ m ∧ P t := by
  simp [originsIn]

/-- Different origins of `m` are counted once each. -/
theorem length_le_originsIn {k : Origins} (hk : (k.map Prod.fst).Nodup) (hm : ∀ x ∈ k, x ∈ m ∧ P x.2) :
    k.length ≤ (originsIn m P).card := by
  rw [← List.length_map Prod.fst, ← List.toFinset_card_of_nodup hk]
  refine Finset.card_le_card fun o ho => ?_
  obtain ⟨⟨o, t⟩, hx, rfl⟩ := List.mem_map.1 (List.mem_toFinset.1 ho)
  exact mem_originsIn.2 ⟨t, hm _ hx⟩

theorem originsIn_mono {m' : Origins} (h : ∀ x ∈ m, x ∈ m') : (originsIn m P).card ≤ (originsIn m' P).card := by
  refine Finset.card_le_card fun o ho => ?_
  obtain ⟨t, ht, hP⟩ := mem_originsIn.1 ho
  exact mem_originsIn.2 ⟨t, h _ ht, hP⟩

end

theorem Quiet.prefix {window : Int} {m : Origins} {x : String × Int} (h : Quiet window (m ++ [x])) : Quiet window m :=
  fun a => (originsIn_mono fun _ => List.mem_append_left _).trans (h a)

theorem nodup_snoc {k : Origins} {o : String} {t : Int} (h : (k.map Prod.fst).Nodup) (ho : o ∉ k.map Prod.fst) :
    ((k ++ [(o, t)]).map Prod.fst).Nodup := by
  rw [List.map_append, List.nodup_append']
  refine ⟨h, List.nodup_singleton _, ?_⟩
  simpa using ho

/-- 512 origins of the day before a new one. -/
theorem not_quiet {window a now : Int} {m k : Origins} {o : String} (hk : (k.map Prod.fst).Nodup) (ho : o ∉ k.map Prod.fst)
    (hm : ∀ x ∈ k, x ∈ m ∧ a ≤ x.2 ∧ x.2 ≤ now) (ha : a ≤ now ∧ now ≤ a + window) (hlen : 512 ≤ k.length) :
    ¬ Quiet window (m ++ [(o, now)]) := by
  intro hquiet
  have hcard := length_le_originsIn (m := m ++ [(o, now)]) (P := fun t => a ≤ t ∧ t ≤ a + window) (nodup_snoc (t := now) hk ho) <| by
    intro x hx
    rcases List.mem_append.1 hx with hx | hx
    · obtain ⟨hxm, hax, hxn⟩ := hm x hx
      exact ⟨List.mem_append_left _ hxm, hax, hxn.trans ha.2⟩
    · rw [List.mem_singleton] at hx
      subst hx
      exact ⟨by simp, ha⟩
  have := hquiet a
  rw [List.length_append, List.length_singleton] at hcard
  omega

/-- The origins `k` a ledger keeps of all the sightings `m`, at the time `q`: where no day is crowded, each origin seen
within a window less the gap is there with a time no more than the gap before. -/
structure Keeps (window gap : Int) (stays : Prop) (m k : Origins) (q : Int) : Prop where
  nodup : (k.map Prod.fst).Nodup
  length_le : k.length ≤ 512
  seen : ∀ x ∈ k, x ∈ m
  past : ∀ x ∈ k, x.2 ≤ q
  fresh : stays → Quiet window m → ∀ o t, (o, t) ∈ m → q - t < window - gap → ∃ r, (o, r) ∈ k ∧ t < r + gap

namespace Keeps
variable {window gap q q' : Int} {stays stays' : Prop} {m k k' : Origins} {o : String}

theorem nil (h : stays → m = []) : Keeps window gap stays m [] q :=
  ⟨.nil, Nat.zero_le _, by simp, by simp, fun hs _ o t hm => by simp [h hs] at hm⟩

theorem later (h : Keeps window gap stays m k q) (hq : q ≤ q') : Keeps window gap stays m k q' :=
  ⟨h.nodup, h.length_le, h.seen, fun x hx => (h.past x hx).trans hq, fun hs hquiet o t hm ht =>
    h.fresh hs hquiet o t hm (by omega)⟩

theorem of_stays (h : Keeps window gap stays m k q) (hs : stays' → stays) : Keeps window gap stays' m k q :=
  ⟨h.nodup, h.length_le, h.seen, h.past, fun hs' => h.fresh (hs hs')⟩

/-- The entries of more than a window ago may go. -/
theorem prune (h : Keeps window gap stays m k q) (hk' : k'.Sublist k) (hall : ∀ x ∈ k, q - x.2 < window → x ∈ k') :
    Keeps window gap stays m k' q where
  nodup := h.nodup.sublist (hk'.map _)
  length_le := hk'.length_le.trans h.length_le
  seen := fun x hx => h.seen x (hk'.subset hx)
  past := fun x hx => h.past x (hk'.subset hx)
  fresh := by
    intro hs hquiet o t hm ht
    obtain ⟨r, hr, hrt⟩ := h.fresh hs hquiet o t hm ht
    exact ⟨r, hall _ hr (by simp only; omega), hrt⟩

/-- A new sighting is not put in. -/
theorem pass (h : Keeps window gap stays m k q)
    (hnew : Quiet window (m ++ [(o, q)]) → ∃ r, (o, r) ∈ k ∧ q < r + gap) :
    Keeps window gap stays (m ++ [(o, q)]) k q where
  nodup := h.nodup
  length_le := h.length_le
  seen := fun x hx => List.mem_append_left _ (h.seen x hx)
  past := h.past
  fresh := by
    intro hs hquiet o' t hm ht
    rcases List.mem_append.1 hm with hm | hm
    · exact h.fresh hs hquiet.prefix o' t hm ht
    · simp only [List.mem_singleton, Prod.mk.injEq] at hm
      obtain ⟨rfl, rfl⟩ := hm
      exact hnew hquiet

/-- A new sighting takes the place of its origin's last one; others go only where the day is crowded. -/
theorem put (h : Keeps window gap stays m k q) (hgap : 0 < gap) (hk' : k'.Sublist (k.filter fun x => x.1 ≠ o))
    (hlen : k'.length < 512)
    (hgone : Quiet window (m ++ [(o, q)]) → ∀ x ∈ k, x.1 ≠ o → q - x.2 < window → x ∈ k') :
    Keeps window gap stays (m ++ [(o, q)]) (k' ++ [(o, q)]) q := by
  have hsub : k'.Sublist k := hk'.trans List.filter_sublist
  have ho : o ∉ k'.map Prod.fst := by
    intro hmem
    obtain ⟨x, hx, rfl⟩ := List.mem_map.1 hmem
    simpa using (List.mem_filter.1 (hk'.subset hx)).2
  refine ⟨nodup_snoc (h.nodup.sublist (hsub.map _)) ho, by simpa using hlen, ?_, ?_, ?_⟩
  · intro x hx
    rcases List.mem_append.1 hx with hx | hx
    · exact List.mem_append_left _ (h.seen x (hsub.subset hx))
    · exact List.mem_append_right _ hx
  · intro x hx
    rcases List.mem_append.1 hx with hx | hx
    · exact h.past x (hsub.subset hx)
    · rw [List.mem_singleton.1 hx]
  · intro hs hquiet o' t hm ht
    rcases List.mem_append.1 hm with hm | hm
    · obtain ⟨r, hr, hrt⟩ := h.fresh hs hquiet.prefix o' t hm ht
      have hrq := h.past _ hr
      by_cases hne : o' = o
      · exact ⟨q, by simp [hne], by simp only at hrq; omega⟩
      · exact ⟨r, List.mem_append_left _ (hgone hquiet _ hr hne (by simp only; omega)), hrt⟩
    · simp only [List.mem_singleton, Prod.mk.injEq] at hm
      obtain ⟨rfl, rfl⟩ := hm
      exact ⟨t, by simp, by omega⟩

end Keeps

section
variable {η : Type} [DecidableEq η] {h : η} {ts us : List (Touch η)}

theorem sightings_append : sightings h (ts ++ us) = sightings h ts ++ sightings h us := by
  induction ts with
  | nil => rfl
  | cons t ts ih =>
    cases t with
    | note o h' now =>
      rw [List.cons_append, sightings, sightings, ih]
      split <;> rfl
    | count h' now => exact ih

/-- No touch is older than the one before. -/
def Ordered (ts : List (Touch η)) : Prop := ts.Pairwise fun t u => t.now ≤ u.now

end

/-! ### The browser's ledger -/

namespace Web

/-- The browser's origins are in the order of their times. -/
structure Kept (stays : Prop) (m k : Origins) (q : Int) : Prop extends Keeps BEACON_WINDOW_SECS BEACON_MIN_GAP_SECS stays m k q where
  sorted : k.Pairwise fun x y => x.2 ≤ y.2

section
variable {stays : Prop} {m k : Origins} {q q' : Int} {o : String}

theorem Kept.later (h : Kept stays m k q) (hq : q ≤ q') : Kept stays m k q' := ⟨h.toKeeps.later hq, h.sorted⟩

theorem Kept.current (h : Kept stays m k q) : Kept stays m (current k q) q :=
  ⟨h.prune List.filter_sublist fun x hx hlt => List.mem_filter.2 ⟨hx, by simpa using hlt⟩, h.sorted.sublist List.filter_sublist⟩

theorem sorted_snoc (h : k.Pairwise fun x y => x.2 ≤ y.2) (hle : ∀ x ∈ k, x.2 ≤ q) :
    (k ++ [(o, q)]).Pairwise fun x y => x.2 ≤ y.2 := by
  rw [List.pairwise_append]
  refine ⟨h, List.pairwise_singleton .., fun x hx y hy => ?_⟩
  rw [List.mem_singleton.1 hy]
  exact hle x hx

theorem Kept.put {k' : Origins} (h : Kept stays m k q) (hk' : k'.Sublist (k.filter fun x => x.1 ≠ o)) (hlen : k'.length < 512)
    (hgone : Quiet BEACON_WINDOW_SECS (m ++ [(o, q)]) → ∀ x ∈ k, x.1 ≠ o → q - x.2 < BEACON_WINDOW_SECS → x ∈ k') :
    Kept stays (m ++ [(o, q)]) (k' ++ [(o, q)]) q := by
  have hsub : k'.Sublist k := hk'.trans List.filter_sublist
  exact ⟨h.toKeeps.put (by decide) hk' hlen hgone, sorted_snoc (h.sorted.sublist hsub) fun x hx => h.past x (hsub.subset hx)⟩

theorem Kept.record (h : Kept stays m k q) (o : String) : Kept stays (m ++ [(o, q)]) (record k o q) q := by
  have hrest : (k.filter fun x => x.1 ≠ o).Sublist k := List.filter_sublist
  have hlen := hrest.length_le.trans h.length_le
  unfold Web.record
  split
  · rename_i hsoon
    rcases hfind : k.find? (fun x => x.1 = o) with _ | ⟨o', r⟩
    · simp [hfind] at hsoon
    · have ho : o' = o := by simpa using List.find?_some hfind
      refine ⟨h.pass fun _ => ⟨r, ho ▸ List.mem_of_find?_eq_some hfind, ?_⟩, h.sorted⟩
      have hr : q - r < BEACON_MIN_GAP_SECS := by simpa [hfind] using hsoon
      omega
  · dsimp only
    split
    · rename_i hfull
      rcases hsplit : k.filter (fun x => x.1 ≠ o) with _ | ⟨x, rest⟩
      · rw [hsplit] at hfull
        cases hfull
      · rw [hsplit] at hfull hlen hrest ⊢
        rw [List.tail_cons]
        refine h.put (hsplit ▸ List.sublist_cons_self x rest) (by simpa using hlen) fun hquiet y hy hne hlt => ?_
        have hmem : y ∈ x :: rest := hsplit ▸ List.mem_filter.2 ⟨hy, by simpa using hne⟩
        rcases List.mem_cons.1 hmem with rfl | hmem
        · -- the entry put in first is one of 512 within the day
          refine absurd hquiet (not_quiet (k := y :: rest) (a := y.2) (h.nodup.sublist (hrest.map _)) ?_ ?_ ⟨h.past y hy, by omega⟩ hfull)
          · intro ho
            obtain ⟨z, hz, rfl⟩ := List.mem_map.1 ho
            have hmem : z ∈ k.filter fun x => x.1 ≠ z.1 := hsplit ▸ hz
            simp at hmem
          · intro z hz
            refine ⟨h.seen z (hrest.subset hz), ?_, h.past z (hrest.subset hz)⟩
            rcases List.mem_cons.1 hz with rfl | hz
            · exact le_rfl
            · exact List.rel_of_pairwise_cons (h.sorted.sublist hrest) hz
        · exact hmem
    · rename_i hroom
      exact h.put (List.Sublist.refl _) (Nat.lt_of_not_le hroom) fun _ x hx hne _ => List.mem_filter.2 ⟨hx, by simpa using hne⟩

end

namespace BeaconLedger
variable {η : Type} [DecidableEq η] {l : BeaconLedger η} {h h' : η} {o : String} {now q : Int} {ts : List (Touch η)}

theorem origins_note : (l.step (.note o h' now)).origins h = if h' = h then Web.record (l.origins h) o now else l.origins h := by
  change ((l.byHash.insert h' (Web.record (l.origins h') o now)).lookup h).getD [] = _
  split
  · rename_i heq
    rw [heq, AList.lookup_insert]
    rfl
  · rename_i hne
    rw [AList.lookup_insert_ne (Ne.symm hne)]
    rfl

theorem step_count : l.step (.count h' now) = if h' ∈ l.byHash then ⟨l.byHash.insert h' (current (l.origins h') now)⟩ else l := rfl

theorem origins_count : (l.step (.count h' now)).origins h = if h' = h then current (l.origins h) now else l.origins h := by
  rw [step_count]
  by_cases heq : h' = h
  · subst heq
    rw [if_pos rfl]
    split
    · rw [origins, AList.lookup_insert]
      rfl
    · rename_i hnot
      rw [origins, AList.lookup_eq_none.2 hnot]
      rfl
  · rw [if_neg heq]
    split
    · rw [origins, AList.lookup_insert_ne (Ne.symm heq)]
      rfl
    · rfl

theorem kept (hts : Ordered ts) (hq : ∀ t ∈ ts, t.now ≤ q) : Kept True (sightings h ts) ((ts.foldl step empty).origins h) q := by
  induction ts using List.reverseRecOn generalizing q with
  | nil => exact ⟨.nil fun _ => rfl, .nil⟩
  | append_singleton ts t ih =>
    have hsplit := List.pairwise_append.1 hts
    have hk := ih hsplit.1 (q := t.now) fun u hu => hsplit.2.2 u hu t (by simp)
    have htq : t.now ≤ q := hq t (by simp)
    rw [List.foldl_append, List.foldl_cons, List.foldl_nil, sightings_append]
    refine Kept.later ?_ htq
    cases t with
    | note o h' now =>
      rw [origins_note, sightings, sightings]
      split
      · exact hk.record o
      · rw [List.append_nil]
        exact hk
    | count h' now =>
      rw [origins_count, sightings, sightings, List.append_nil]
      split
      · exact hk.current
      · exact hk

end BeaconLedger
end Web

/-! ### The node's ledger -/

namespace Node

section
variable {stays : Prop} {m k : Origins} {q : Int} {o : String}

theorem current_keeps (h : Keeps beaconWindow beaconOriginMinGap stays m k q) :
    Keeps beaconWindow beaconOriginMinGap stays m (current k q) q :=
  h.prune List.filter_sublist fun x hx hlt => List.mem_filter.2 ⟨hx, by simpa using hlt.le⟩

/-- There is room for an origin that is there already or finds fewer than 512. -/
theorem length_others (hle : m.length ≤ 512) (hroom : ¬ (o ∉ m.map Prod.fst ∧ beaconOriginsPerHash ≤ m.length)) :
    (m.filter fun x => x.1 ≠ o).length < 512 := by
  by_cases ho : o ∈ m.map Prod.fst
  · obtain ⟨x, hx, rfl⟩ := List.mem_map.1 ho
    exact (List.length_filter_lt_length_iff_exists.2 ⟨x, hx, by simp⟩).trans_le hle
  · have hlt : m.length < 512 := Nat.lt_of_not_le fun hfull => hroom ⟨ho, hfull⟩
    exact (List.length_filter_le _ _).trans_lt hlt

theorem touch_keeps (h : Keeps beaconWindow beaconOriginMinGap stays m k q) (o : String) :
    Keeps beaconWindow beaconOriginMinGap stays (m ++ [(o, q)]) (touch k o q) q := by
  have hcur := current_keeps h
  unfold touch
  change Keeps _ _ _ _ (if o ∉ (current k q).map Prod.fst ∧ beaconOriginsPerHash ≤ (current k q).length then current k q
    else ((current k q).filter fun x => x.1 ≠ o) ++ [(o, q)]) q
  split
  · rename_i hfull
    refine hcur.pass fun hquiet => absurd hquiet (not_quiet (a := q - beaconWindow) hcur.nodup hfull.1 (fun x hx => ?_) ?_ hfull.2)
    · have hage : q - x.2 ≤ beaconWindow := by simpa using (List.mem_filter.1 hx).2
      exact ⟨hcur.seen x hx, by omega, hcur.past x hx⟩
    · exact ⟨Int.sub_le_self _ (by decide), by omega⟩
  · rename_i hroom
    exact hcur.put (by decide) (List.Sublist.refl _) (length_others hcur.length_le hroom) fun _ x hx hne _ =>
      List.mem_filter.2 ⟨hx, by simpa using hne⟩

end

namespace Counts
variable {c : Counts} {h h' : Hash8} {o : String} {now q : Int} {ts : List (Touch Hash8)}

/-- The hash, once noted, is in the table from then on. -/
def Stays (h : Hash8) (ts : List (Touch Hash8)) : Prop :=
  ∀ us, us <+: ts → sightings h us ≠ [] → ((us.foldl step (Lru.empty : Counts)).find h).isSome

theorem origins_note : (c.step (.note o h' now)).origins h = Node.touch (c.origins h) o now ∧ h' = h ∨
    h' ≠ h ∧ ((c.step (.note o h' now)).find h = none ∨ (c.step (.note o h' now)).origins h = c.origins h) := by
  by_cases heq : h' = h
  · subst heq
    refine .inl ⟨?_, rfl⟩
    rw [origins, step, Lru.find_add_self (by decide)]
    rfl
  · refine .inr ⟨heq, ?_⟩
    rcases Lru.find_add_ne (c := c) (v := Node.touch (c.origins h') o now) (Ne.symm heq) with hfind | hfind
    · exact .inl hfind
    · refine .inr ?_
      rw [origins, step, hfind]
      rfl

theorem origins_count : (c.step (.count h' now)).find h = none ∨ (c.step (.count h' now)).origins h = c.origins h := by
  rw [origins, step]
  by_cases heq : h = h'
  · subst heq
    rw [Lru.find_touch (by decide)]
    exact .inr rfl
  · rcases Lru.find_touch_ne (c := c) heq with hfind | hfind
    · exact .inl hfind
    · rw [hfind]
      exact .inr rfl

theorem kept (hts : Ordered ts) (hq : ∀ t ∈ ts, t.now ≤ q) :
    Keeps beaconWindow beaconOriginMinGap (Stays h ts) (sightings h ts) (origins (ts.foldl step Lru.empty) h) q := by
  induction ts using List.reverseRecOn generalizing q with
  | nil => exact .nil fun _ => rfl
  | append_singleton ts t ih =>
    have hsplit := List.pairwise_append.1 hts
    have hstays : Stays h (ts ++ [t]) → Stays h ts := fun hs us hus => hs us (hus.trans (List.prefix_append ..))
    have hk := (ih hsplit.1 (q := t.now) fun u hu => hsplit.2.2 u hu t (by simp)).of_stays hstays
    refine Keeps.later ?_ (hq t (by simp))
    have hgone : ((ts ++ [t]).foldl step (Lru.empty : Counts)).find h = none →
        Keeps beaconWindow beaconOriginMinGap (Stays h (ts ++ [t])) (sightings h (ts ++ [t]))
          (origins ((ts ++ [t]).foldl step Lru.empty) h) t.now := by
      intro hnone
      rw [origins, hnone]
      refine .nil fun hs => ?_
      by_contra hne
      have := hs _ (List.prefix_refl _) hne
      rw [hnone] at this
      cases this
    have hstep : (ts ++ [t]).foldl step (Lru.empty : Counts) = step (ts.foldl step Lru.empty) t := by
      rw [List.foldl_append, List.foldl_cons, List.foldl_nil]
    rw [sightings_append] at hgone ⊢
    rw [hstep] at hgone ⊢
    cases t with
    | note o h' now =>
      rw [sightings, sightings] at hgone ⊢
      rcases @origins_note (ts.foldl step Lru.empty) h h' o now with ⟨heq, rfl⟩ | ⟨hne, hfind | heq⟩
      · rw [heq, if_pos rfl]
        exact touch_keeps hk o
      · exact hgone hfind
      · rw [heq, if_neg hne, List.append_nil]
        exact hk
    | count h' now =>
      rw [sightings, sightings, List.append_nil] at hgone ⊢
      rcases @origins_count (ts.foldl step Lru.empty) h h' now with hfind | heq
      · exact hgone hfind
      · rw [heq]
        exact hk

end Counts
end Node

namespace Web
namespace BeaconLedger
variable {η : Type} [DecidableEq η] {l : BeaconLedger η} {t : Touch η} {K : Nat}

/-- At most `K` hashes with 512 origins at most. -/
structure Within (K : Nat) (l : BeaconLedger η) : Prop where
  hashes_le : l.byHash.keys.length ≤ K
  origins_le : ∀ e ∈ l.byHash.entries, e.2.length ≤ 512

/-- A beacon names no new hash when there are `K`. -/
def Room (K : Nat) (l : BeaconLedger η) : Touch η → Prop
  | .note _ h _ => h ∈ l.byHash ∨ l.byHash.keys.length < K
  | .count .. => True

theorem length_record {m : Origins} (o : String) (now : Int) (h : m.length ≤ 512) : (Web.record m o now).length ≤ 512 := by
  have hle := (List.length_filter_le (fun x : String × Int => decide (x.1 ≠ o)) m).trans h
  unfold Web.record
  split
  · exact h
  · dsimp only
    split
    · rw [List.length_append, List.length_tail, List.length_singleton]
      omega
    · rename_i hroom
      rw [List.length_append, List.length_singleton]
      exact Nat.lt_of_not_le hroom

theorem length_origins (hl : ∀ e ∈ l.byHash.entries, e.2.length ≤ 512) (h : η) : (l.origins h).length ≤ 512 := by
  rw [origins]
  rcases hfind : l.byHash.lookup h with _ | m
  · exact Nat.zero_le _
  · exact hl ⟨h, m⟩ (AList.mem_lookup_iff.1 hfind)

theorem Within.insert {h : η} {m : Origins} (hl : l.Within K) (hroom : h ∈ l.byHash ∨ l.byHash.keys.length < K) (hm : m.length ≤ 512) :
    (⟨l.byHash.insert h m⟩ : BeaconLedger η).Within K := by
  constructor
  · have hlen := hl.hashes_le
    rw [AList.keys_insert, List.length_cons]
    rcases hroom with hmem | hlt
    · rw [List.length_erase_of_mem (AList.mem_keys.1 hmem)]
      have := List.length_pos_of_mem (AList.mem_keys.1 hmem)
      omega
    · have := List.length_erase_le (l := l.byHash.keys) (a := h)
      omega
  · intro e he
    rw [AList.entries_insert] at he
    rcases List.mem_cons.1 he with rfl | he
    · exact hm
    · exact hl.origins_le e ((List.kerase_sublist _ _).subset he)

theorem Within.step (hroom : Room K l t) (hl : l.Within K) : (l.step t).Within K := by
  cases t with
  | note o h now => exact hl.insert hroom (length_record o now (length_origins hl.origins_le h))
  | count h now =>
    rw [step_count]
    split
    · rename_i hmem
      exact hl.insert (.inl hmem) ((List.length_filter_le _ _).trans (length_origins hl.origins_le h))
    · exact hl

omit [DecidableEq η] in
theorem Within.total_le (hl : l.Within K) : l.total ≤ K * 512 := by
  have hsum := List.sum_le_card_nsmul (l.byHash.entries.map fun e => e.2.length) 512 <| by
    intro n hn
    obtain ⟨e, he, rfl⟩ := List.mem_map.1 hn
    exact hl.origins_le e he
  have hlen := hl.hashes_le
  rw [AList.keys, List.keys, List.length_map] at hlen
  rw [List.length_map, smul_eq_mul] at hsum
  exact hsum.trans (Nat.mul_le_mul_right _ hlen)

/-- New hashes have an entry each. -/
theorem total_notes {hs : List η} (hnodup : hs.Nodup) (hnew : ∀ h ∈ hs, h ∉ l.byHash) (o : String) (now : Int) :
    ((hs.map fun h => Touch.note o h now).foldl BeaconLedger.step l).total = l.total + hs.length := by
  induction hs generalizing l with
  | nil => rfl
  | cons h hs ih =>
    obtain ⟨hh, hnodup⟩ := List.nodup_cons.1 hnodup
    have hnot := hnew h (by simp)
    have hstep : l.step (.note o h now) = ⟨l.byHash.insert h [(o, now)]⟩ := by
      have hnone : l.origins h = [] := by rw [origins, AList.lookup_eq_none.2 hnot, Option.getD_none]
      change (⟨l.byHash.insert h (Web.record (l.origins h) o now)⟩ : BeaconLedger η) = _
      rw [hnone]
      rfl
    rw [List.map_cons, List.foldl_cons, hstep, ih hnodup, List.length_cons]
    · rw [total, AList.entries_insert_of_notMem hnot, total, List.map_cons, List.sum_cons, List.length_singleton]
      omega
    · intro h' hh'
      rw [AList.mem_insert]
      rintro (rfl | hmem)
      · exact hh hh'
      · exact hnew h' (by simp [hh']) hmem

end BeaconLedger
end Web

namespace Node.Counts
variable {c : Counts} {t : Touch Hash8}

theorem length_touch {m : Origins} (o : String) (now : Int) (hm : m.length ≤ 512) : (Node.touch m o now).length ≤ 512 := by
  have hle : (current m now).length ≤ 512 := (List.length_filter_le _ _).trans hm
  change (if o ∉ (current m now).map Prod.fst ∧ beaconOriginsPerHash ≤ (current m now).length then current m now
    else ((current m now).filter fun x => x.1 ≠ o) ++ [(o, now)]).length ≤ 512
  split
  · exact hle
  · rename_i hroom
    rw [List.length_append, List.length_singleton]
    exact length_others hle hroom

theorem length_step (hc : ∀ e ∈ c.entries, e.2.length ≤ 512) : ∀ e ∈ (c.step t).entries, e.2.length ≤ 512 := by
  have hadd : ∀ (h : Hash8) (m : Origins), m.length ≤ 512 → ∀ e ∈ (c.add h m).entries, e.2.length ≤ 512 := by
    intro h m hm e he
    rcases List.mem_cons.1 (List.mem_of_mem_take he) with rfl | he
    · exact hm
    · exact hc e (List.mem_of_mem_filter he)
  have hfound : ∀ h m, c.find h = some m → m.length ≤ 512 := by
    intro h m hfind
    obtain ⟨l₁, l₂, heq⟩ := Lru.find_eq_some_iff.1 hfind
    exact hc (h, m) (by simp [heq])
  cases t with
  | note o h now =>
    refine hadd h _ (length_touch o now ?_)
    rw [origins]
    rcases hfind : c.find h with _ | m
    · exact Nat.zero_le _
    · exact hfound h m hfind
  | count h now =>
    change ∀ e ∈ (c.touch h).entries, _
    rw [Lru.touch]
    split
    · rename_i m hfind
      exact hadd h m (hfound h m hfind)
    · exact hc

theorem total_le (ts : List (Touch Hash8)) (k : Nat) : (Runs.state step Lru.empty ts k : Counts).total ≤ beaconHashCap * 512 := by
  have hlen := @Runs.always _ _ step Lru.empty ts (fun c : Counts => ∀ e ∈ c.entries, e.2.length ≤ 512) (by simp [Lru.empty])
    (fun _ _ => length_step) k
  have hsum := List.sum_le_card_nsmul ((Runs.state step (Lru.empty : Counts) ts k).entries.map fun e => e.2.length) 512 <| by
    intro n hn
    obtain ⟨e, he, rfl⟩ := List.mem_map.1 hn
    exact hlen e he
  rw [List.length_map, smul_eq_mul] at hsum
  exact hsum.trans (Nat.mul_le_mul_right _ (Lru.length_le _))

end Node.Counts

/-- The browser's ledger is bounded in every run where the hashes it holds are; the node's is in all runs. -/
theorem ledgers_bounded {η : Type} [DecidableEq η] :
    (∀ (K : Nat) (ts : List (Touch η)), Runs.Along Web.BeaconLedger.step (Web.BeaconLedger.Room K) .empty ts →
      ∀ k, (Runs.state Web.BeaconLedger.step .empty ts k).total ≤ K * 512) ∧
    ∀ (ts : List (Touch Hash8)) (k : Nat), Node.Counts.total (Runs.state Node.Counts.step Lru.empty ts k) ≤ 16384 * 512 := by
  refine ⟨fun K ts hts k => ?_, Node.Counts.total_le⟩
  exact (hts.always ⟨Nat.zero_le K, by simp [Web.BeaconLedger.empty]⟩ (fun _ _ => Web.BeaconLedger.Within.step) k).total_le

/-- A hash of three, and room for it. -/
theorem ledgers_bounded_one : (Runs.state Web.BeaconLedger.step .empty [Touch.note "a" 5 0, .note "b" 5 1] 2).total ≤ 1 * 512 :=
  ledgers_bounded.1 1 _ (by
    refine Runs.along_cons (.inr (by decide)) (Runs.along_cons (.inl (by decide)) Runs.along_nil)) 2

/-- Beacons of new hashes make the browser's ledger grow. -/
theorem exists_total_gt {η : Type} [DecidableEq η] (B : Nat) (f : Nat → η) (hf : ∀ m ≤ B, ∀ n ≤ B, f m = f n → m = n) :
    ∃ (ts : List (Touch η)) (k : Nat), B < (Runs.state Web.BeaconLedger.step .empty ts k).total := by
  have hnodup : ((List.range (B + 1)).map f).Nodup := by
    refine List.Nodup.map_on (fun m hm n hn => hf m ?_ n ?_) List.nodup_range
    · exact Nat.le_of_lt_succ (List.mem_range.1 hm)
    · exact Nat.le_of_lt_succ (List.mem_range.1 hn)
  have htotal := Web.BeaconLedger.total_notes (l := .empty) hnodup (by simp [Web.BeaconLedger.empty]) "o" 0
  generalize ((List.range (B + 1)).map f).map (fun h => Touch.note "o" h 0) = ts at htotal
  refine ⟨ts, ts.length, ?_⟩
  rw [Runs.state_length, htotal, List.length_map, List.length_range]
  omega

/-- No bound holds for the browser's ledger, nor one below the number of hashes for those of a frame. -/
theorem ledger_unbounded :
    (¬ ∃ B, ∀ (ts : List (Touch Bytes)) (k : Nat), (Runs.state Web.BeaconLedger.step .empty ts k).total ≤ B) ∧
    ∀ B < 2 ^ 64, ∃ (ts : List (Touch Hash8)) (k : Nat), B < (Runs.state Web.BeaconLedger.step .empty ts k).total := by
  constructor
  · rintro ⟨B, hB⟩
    obtain ⟨ts, k, hlt⟩ := exists_total_gt B (fun n => List.replicate n (0 : UInt8)) fun m _ n _ h => by
      simpa using congrArg List.length h
    exact absurd (hB ts k) (Nat.not_le.2 hlt)
  · intro B hB
    refine exists_total_gt B (fun n => ⟨Words.le 8 n, Words.length_le ..⟩) fun m hm n hn h => ?_
    have heq := congrArg Words.ofLe (congrArg Subtype.val h)
    rwa [Words.ofLe_le (by omega), Words.ofLe_le (by omega)] at heq

end TrackerStream.Beacon
