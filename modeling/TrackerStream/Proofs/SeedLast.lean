import TrackerStream.BlockFetch

/-!
# The seed is asked last

What one fetch may do after what it has done is `InOrder`, said of its acts and their answers alone.
`follows_fetch`: the program does nothing else, whatever it is answered; so it is in every interleaving of
fetches, and each comes to its end within `turns` acts unless Helia's own `get` has none.
-/

namespace TrackerStream
namespace BlockFetch
open Prog

/-- What one fetch has done so far. -/
structure Seen where
  cid : ContentId
  /-- The donors, once it has looked for them. -/
  donors : Option (List String) := none
  /-- Whether it was told to look for none who has the block. -/
  cooled : Bool := false
  /-- The donors whose WANT-HAVE has come to its end, and those who said they have the block. -/
  heard : List String := []
  havers : List String := []
  /-- The WANT-BLOCKs since the round began, and those of them that failed, latest first. -/
  asked : List String := []
  failed : List String := []
  outstanding : Nat := 0
  seedAsks : Nat := 0
  /-- What the store had, and what Helia's `get` came to. -/
  given : List Bytes := []
  acts : Nat := 0

variable (sha256 : Bytes → Bytes) (masterId : String)

/-- The bytes are those a CID with a sha2-256 hash names. -/
def Hashes (cid : ContentId) (bytes : Bytes) : Prop := cid.hashCode = SHA2_256 → sha256 bytes = cid.digest

namespace Seen

/-- The block last asked for did not come, or could not be kept. -/
def fail (q : Seen) : Seen := { q with failed := q.asked.take 1 ++ q.failed }

def next (q : Seen) : (e : Act) → Ans e → Seen
  | .localGet _, some bytes => { q with given := bytes :: q.given }
  | .peers, peers => { q with donors := some (peers.1.filter (· ≠ masterId)) }
  | .cooling _, cooled => { q with cooled, asked := [], failed := [] }
  | .presence _ p, .ok r => { q with heard := p :: q.heard, havers := if r.has then q.havers ++ [p] else q.havers }
  | .presence _ p, .error _ => { q with heard := p :: q.heard }
  | .wantSessionBlock _ p, _ =>
    { q with
      asked := p :: q.asked
      outstanding := q.outstanding + 1
      seedAsks := if p = masterId then q.seedAsks + 1 else q.seedAsks }
  | .answer .., .ok ⟨true, some _⟩ => { q with outstanding := q.outstanding - 1 }
  | .answer .., _ => { q with outstanding := q.outstanding - 1 }.fail
  | .digest _, .ok digest => if digest = q.cid.digest then q else q.fail
  | .digest _, .error _ => q.fail
  | .put .., .error _ => q.fail
  | .got _, .ok bytes => { q with given := bytes :: q.given }
  | _, _ => q

def track (q : Seen) (e : Act) (r : Ans e) : Seen := { q.next masterId e r with acts := q.acts + 1 }

/-- The peer was asked for the block, in `n` acts. -/
def ask (q : Seen) (p : String) (inVain : Bool) (n : Nat) : Seen :=
  { q with
    asked := p :: q.asked
    seedAsks := if p = masterId then q.seedAsks + 1 else q.seedAsks
    failed := if inVain then p :: q.failed else q.failed
    acts := q.acts + n }

/-- The donors were all heard, or none was to be looked for, and those who have the block were asked for it in vain. -/
structure SeedDue (q : Seen) : Prop where
  looked : ∃ ds, q.donors = some ds ∧ (q.cooled = true ∨ ∀ d ∈ ds, d ∈ q.heard)
  failed : ∀ h ∈ q.havers, h ∈ q.asked ∧ h ∈ q.failed

/-- The number of acts a fetch has. -/
def turns (q : Seen) : Nat := 8 * (q.donors.getD []).length + 33

end Seen

/-- Whether a fetch that has done `q` may do the act. -/
def InOrder (q : Seen) : Act → Prop
  | .peers => q.donors = none
  | .wantSessionBlock cid p => cid = q.cid ∧ q.outstanding = 0 ∧ (p ∈ q.havers → p ∉ q.asked) ∧
      (p = masterId → q.SeedDue ∧ q.seedAsks < SEED_ATTEMPTS)
  | .put cid bytes => cid = q.cid ∧ Hashes sha256 cid bytes
  | .resolve cid bytes => cid = q.cid ∧ (bytes ∈ q.given ∨ Hashes sha256 cid bytes)
  | .get cid => cid = q.cid ∧ q.outstanding = 0 ∧ q.SeedDue ∧ q.failed.count masterId = SEED_ATTEMPTS
  | _ => True

/-- A fetch by its acts and their answers. -/
def watching : Monitor Act Ans ContentId Seen where
  init cid := { cid }
  track := Seen.track masterId
  legal q e := InOrder sha256 masterId q e ∧ q.acts < q.turns
  allow
    | .known cands _, (r : List String) => r ⊆ cands
    | .choose peers, (r : String) => peers ≠ [] → r ∈ peers
    | .digest bytes, r => ∀ d, r = .ok d → d = sha256 bytes
    | _, _ => True

/-! ### The program -/

section
variable {sha256 masterId} {cid : ContentId} {q : Seen} {α : Type}

theorem wp_act {e : Act} {f : Ans e → Fetching α} {Q : α → Seen → Prop} {R : String → Seen → Prop}
    (h : InOrder sha256 masterId q e) (hacts : q.acts < q.turns)
    (hf : ∀ r, (watching sha256 masterId).allow e r →
      wp (watching sha256 masterId).contract (f r) Q R (q.track masterId e r)) :
    wp (watching sha256 masterId).contract (act e >>= f) Q R q := by
  refine ⟨⟨h, hacts⟩, ?_⟩
  rintro r _ ⟨hr, rfl⟩
  exact hf r hr

theorem wp_verifyPut {bytes : Bytes} {q : Seen} (hcid : q.cid = cid) (hacts : q.acts + 2 ≤ q.turns) :
    wp (watching sha256 masterId).contract (verifyPut cid bytes)
      (fun _ q' => Hashes sha256 cid bytes ∧ ∃ n ≤ 2, q' = { q with acts := q.acts + n })
      (fun _ q' => ∃ n ≤ 2, q' = { q.fail with acts := q.acts + n }) q := by
  have hput : ∀ n ≤ 1, Hashes sha256 cid bytes →
      wp (watching sha256 masterId).contract
        (do
          let stored : Except String Unit ← act (.put cid bytes)
          .ofExcept stored)
        (fun _ q' => Hashes sha256 cid bytes ∧ ∃ n ≤ 2, q' = { q with acts := q.acts + n })
        (fun _ q' => ∃ n ≤ 2, q' = { q.fail with acts := q.acts + n }) { q with acts := q.acts + n } := by
    intro n hn hhash
    refine wp_act ⟨hcid.symm, hhash⟩ (by show q.acts + n < q.turns; omega) ?_
    rintro (x | u) -
    · exact ⟨n + 1, by omega, rfl⟩
    · exact ⟨hhash, n + 1, by omega, rfl⟩
  unfold verifyPut
  split
  · rename_i hcode
    refine wp_act trivial (by omega) ?_
    rintro (x | digest) hdigest
    · exact ⟨1, by omega, rfl⟩
    · obtain rfl := hdigest digest rfl
      by_cases hd : sha256 bytes = cid.digest
      · have hq : q.track masterId (.digest bytes) (.ok (sha256 bytes)) = { q with acts := q.acts + 1 } := by
          simp only [Seen.track, Seen.next, hcid, if_pos hd]
        rw [hq, Prog.ofExcept]
        simp only [ret_bind, ne_eq, hd, not_true_eq_false, if_false]
        exact hput 1 le_rfl fun _ => hd
      · have hq : q.track masterId (.digest bytes) (.ok (sha256 bytes)) = { q.fail with acts := q.acts + 1 } := by
          simp only [Seen.track, Seen.next, hcid, if_neg hd]
        rw [hq, Prog.ofExcept]
        simp only [ret_bind, ne_eq, hd, not_false_eq_true, if_true]
        exact ⟨1, by omega, rfl⟩
  · rename_i hcode
    exact hput 0 (Nat.zero_le 1) fun h => absurd h hcode

theorem wp_wantBlockFrom {peer : String} {now : ℚ} (hcid : q.cid = cid)
    (hwant : InOrder sha256 masterId q (.wantSessionBlock cid peer)) (hacts : q.acts + 5 ≤ q.turns) :
    wp (watching sha256 masterId).contract (wantBlockFrom cid peer now)
      (fun r q' => (∀ b, r = some b → Hashes sha256 cid b) ∧ ∃ n ≤ 5, q' = q.ask masterId peer r.isNone n)
      (fun _ _ => False) q := by
  rw [wantBlockFrom, wp_bind, wp_attempt]
  have hnone : ∀ n ≤ 5, ∀ q', q' = q.ask masterId peer true n →
      (∀ b, none = some b → Hashes sha256 cid b) ∧ ∃ n ≤ 5, q' = q.ask masterId peer true n :=
    fun n hn q' hq => ⟨fun b hb => absurd hb (by simp), n, hn, hq⟩
  refine wp_act hwant (by omega) fun _ _ => ?_
  refine wp_act trivial (by show q.acts + 1 < q.turns; omega) fun r _ => ?_
  rcases r with x | ⟨has, block⟩
  · exact hnone 2 (by omega) _ rfl
  cases has with
  | false => exact hnone 2 (by omega) _ rfl
  | true =>
    cases block with
    | none => exact hnone 2 (by omega) _ rfl
    | some b =>
      rw [Prog.ofExcept]
      simp only [ret_bind]
      rw [wp_bind]
      refine wp_mono _ (wp_verifyPut (q := q.ask masterId peer false 2) hcid (by show q.acts + 2 + 2 ≤ q.turns; omega)) ?_ ?_
      · rintro _ _ ⟨hhash, n, hn, rfl⟩
        refine wp_act trivial (by show q.acts + 2 + n < q.turns; omega) fun _ _ => ?_
        refine ⟨?_, 2 + n + 1, by omega, ?_⟩
        · exact fun _ hb => Option.some.inj hb ▸ hhash
        · simp [Seen.track, Seen.next, Seen.ask, Nat.add_assoc]
      · rintro _ _ ⟨n, hn, rfl⟩
        refine hnone (2 + n) (by omega) _ ?_
        simp [Seen.fail, Seen.ask, Nat.add_assoc]

theorem wp_sends {cands : List String} (hacts : q.acts + cands.length ≤ q.turns) :
    wp (watching sha256 masterId).contract (cands.foldlM (fun _ p => act (.wantSessionPresence cid p)) ())
      (fun _ q' => q' = { q with acts := q.acts + cands.length }) (fun _ _ => False) q := by
  induction cands generalizing q with
  | nil => rfl
  | cons p cands ih =>
    rw [List.length_cons] at hacts
    refine wp_act trivial (by omega) fun _ _ => ?_
    refine wp_mono _ (ih (by show q.acts + 1 + cands.length ≤ q.turns; omega)) ?_ fun _ _ h => h
    rintro _ _ rfl
    simp [Seen.track, Seen.next, Nat.add_assoc, Nat.add_comm 1]

theorem wp_hears {cands havers : List String} (hhavers : q.havers = havers) (hacts : q.acts + cands.length ≤ q.turns) :
    wp (watching sha256 masterId).contract (cands.foldlM (hear cid) havers)
      (fun havers' q' => ∃ new, havers' = havers ++ new ∧ new.Sublist cands ∧ q' =
        { q with heard := cands.reverse ++ q.heard, havers := havers', acts := q.acts + cands.length })
      (fun _ _ => False) q := by
  induction cands generalizing q havers with
  | nil => exact ⟨[], (List.append_nil _).symm, .slnil, by rw [← hhavers]; rfl⟩
  | cons p cands ih =>
    rw [List.length_cons] at hacts
    have hrest : ∀ has : Bool, wp (watching sha256 masterId).contract
        (cands.foldlM (hear cid) (if has then havers ++ [p] else havers))
        (fun havers' q' => ∃ new, havers' = havers ++ new ∧ new.Sublist (p :: cands) ∧ q' =
          { q with heard := (p :: cands).reverse ++ q.heard, havers := havers', acts := q.acts + (cands.length + 1) })
        (fun _ _ => False)
        { q with heard := p :: q.heard, havers := if has then havers ++ [p] else havers, acts := q.acts + 1 } := by
      intro has
      refine wp_mono _ (ih rfl (by show q.acts + 1 + cands.length ≤ q.turns; omega)) ?_ fun _ _ h => h
      rintro _ _ ⟨new, rfl, hsub, rfl⟩
      cases has with
      | true => exact ⟨p :: new, by simp, hsub.cons_cons p, by simp [Nat.add_assoc, Nat.add_comm 1]⟩
      | false => exact ⟨new, by simp, hsub.cons p, by simp [Nat.add_assoc, Nat.add_comm 1]⟩
    refine (wp_bind _ _).2 (wp_act trivial (by omega) fun r _ => ?_)
    rcases r with x | ⟨has, block⟩
    · exact hhavers ▸ hrest false
    · exact hhavers ▸ hrest has

theorem wp_discover {cands : List String} (hhavers : q.havers = [])
    (hacts : q.acts + 2 * cands.length ≤ q.turns) :
    wp (watching sha256 masterId).contract (discover cid cands)
      (fun havers q' => havers.Sublist cands ∧ q' =
        { q with heard := cands.reverse ++ q.heard, havers, acts := q.acts + 2 * cands.length })
      (fun _ _ => False) q := by
  rw [discover, wp_bind]
  refine wp_mono _ (wp_sends (q := q) (by omega)) ?_ fun _ _ h => h
  rintro _ _ rfl
  refine wp_mono _ (wp_hears hhavers (by show q.acts + cands.length + cands.length ≤ q.turns; omega)) ?_ fun _ _ h => h
  rintro _ _ ⟨havers, rfl, hsub, rfl⟩
  exact ⟨hsub, by simp [Nat.add_assoc, Nat.two_mul]⟩

theorem pick_mem {first : String → Option Nat} {last : String} {r : ℚ} {peers : List String} :
    pick first last r peers = last ∨ pick first last r peers ∈ peers := by
  induction peers generalizing r with
  | nil => exact .inl rfl
  | cons p ps ih =>
    rw [pick]
    split
    · exact .inr List.mem_cons_self
    · exact ih.imp_right (List.mem_cons_of_mem p)

theorem choose_mem {first : String → Option Nat} {random : ℚ} {peers : List String} (h : peers ≠ []) :
    choose first random peers ∈ peers := by
  rcases pick_mem with heq | hmem
  · rw [choose, heq, List.getLastD_eq_getLast?, List.getLast?_eq_some_getLast h]
    exact List.getLast_mem h
  · exact hmem

theorem splice_eq {pool : List String} {p : String} (h : p ∈ pool) : splice pool p = pool.erase p := by
  rw [splice, List.erase_eq_eraseIdx]
  cases hi : pool.idxOf? p with
  | none => exact absurd h (List.idxOf?_eq_none_iff.1 hi)
  | some i => rfl

variable (masterId cid) in
/-- The havers of the pool are still to be asked, the others were. -/
structure Draining (q : Seen) (pool : List String) : Prop where
  cid : q.cid = cid
  outstanding : q.outstanding = 0
  heard : ∃ ds, q.donors = some ds ∧ ∀ d ∈ ds, d ∈ q.heard
  nodup : pool.Nodup
  fresh : ∀ p ∈ pool, p ∉ q.asked ∧ p ≠ masterId
  rest : ∀ h ∈ q.havers, h ≠ masterId ∧ (h ∈ pool ∨ h ∈ q.asked ∧ h ∈ q.failed)
  seedAsks : q.seedAsks = 0
  failed : masterId ∉ q.failed

variable (masterId cid) in
/-- The seed may be asked, and was in vain `k` times. -/
structure Due (k : Nat) (q : Seen) : Prop where
  cid : q.cid = cid
  outstanding : q.outstanding = 0
  due : q.SeedDue
  havers : masterId ∉ q.havers
  seedAsks : q.seedAsks = k
  failed : q.failed.count masterId = k

theorem Draining.due {q : Seen} (h : Draining masterId cid q []) : Due masterId cid 0 q where
  cid := h.cid
  outstanding := h.outstanding
  due := by
    obtain ⟨ds, hds, hheard⟩ := h.heard
    exact ⟨⟨ds, hds, .inr hheard⟩, fun p hp => (h.rest p hp).2.resolve_left List.not_mem_nil⟩
  havers hp := (h.rest masterId hp).1 rfl
  seedAsks := h.seedAsks
  failed := List.count_eq_zero.2 h.failed

theorem Draining.inOrder {q : Seen} {pool : List String} {p : String} {n : Nat} (h : Draining masterId cid q pool)
    (hp : p ∈ pool) : InOrder sha256 masterId { q with acts := n } (.wantSessionBlock cid p) :=
  ⟨h.cid.symm, h.outstanding, fun _ => (h.fresh p hp).1, fun heq => absurd heq (h.fresh p hp).2⟩

theorem Draining.ask {q : Seen} {pool : List String} {p : String} {m n : Nat} (h : Draining masterId cid q pool)
    (hp : p ∈ pool) : Draining masterId cid (({ q with acts := m } : Seen).ask masterId p true n) (splice pool p) := by
  have hmem : ∀ u, u ∈ pool.erase p ↔ u ≠ p ∧ u ∈ pool := fun u => h.nodup.mem_erase_iff
  rw [splice_eq hp]
  refine ⟨h.cid, h.outstanding, h.heard, h.nodup.erase p, ?_, ?_, ?_, ?_⟩
  · intro u hu
    obtain ⟨hne, hu⟩ := (hmem u).1 hu
    exact ⟨List.not_mem_cons_of_ne_of_not_mem hne (h.fresh u hu).1, (h.fresh u hu).2⟩
  · intro u hu
    refine ⟨(h.rest u hu).1, ?_⟩
    by_cases heq : u = p
    · subst heq
      exact .inr ⟨List.mem_cons_self, List.mem_cons_self⟩
    · rcases (h.rest u hu).2 with hin | ⟨hasked, hfailed⟩
      · exact .inl ((hmem u).2 ⟨heq, hin⟩)
      · exact .inr ⟨List.mem_cons_of_mem p hasked, List.mem_cons_of_mem p hfailed⟩
  · exact (if_neg (h.fresh p hp).2).trans h.seedAsks
  · exact List.not_mem_cons_of_ne_of_not_mem (h.fresh p hp).2.symm h.failed

variable (sha256 masterId cid) in
/-- A part of the fetch has the block, or the seed is due. -/
def Left (k : Nat) : Option Bytes → Seen → Prop
  | some bytes, q => q.cid = cid ∧ Hashes sha256 cid bytes ∧ q.acts < q.turns
  | none, q => Due masterId cid k q ∧ q.acts + 6 * (SEED_ATTEMPTS - k) + 3 ≤ q.turns

theorem wp_drain {now : ℚ} {pool : List String} {n : Nat} (hn : n = pool.length) (h : Draining masterId cid q pool)
    (hacts : q.acts + 6 * pool.length + 21 ≤ q.turns) :
    wp (watching sha256 masterId).contract (drain cid now n pool) (Left sha256 masterId cid 0) (fun _ _ => False) q := by
  induction n generalizing q pool with
  | zero =>
    obtain rfl := List.length_eq_zero_iff.1 hn.symm
    exact ⟨h.due, hacts⟩
  | succ n ih =>
    cases pool with
    | nil => exact ⟨h.due, hacts⟩
    | cons p ps =>
      rw [List.length_cons] at hn hacts
      refine wp_act trivial (by omega) fun (pick : String) hpick => ?_
      have hpick : pick ∈ p :: ps := hpick (List.cons_ne_nil p ps)
      have hlen : (splice (p :: ps) pick).length = ps.length := by
        rw [splice_eq hpick, List.length_erase_of_mem hpick]
        rfl
      refine (wp_bind _ _).2 (wp_mono _ (wp_wantBlockFrom (q := { q with acts := q.acts + 1 }) h.cid (h.inOrder hpick)
        (by show q.acts + 1 + 5 ≤ q.turns; omega)) ?_ fun _ _ hf => hf)
      rintro (_ | bytes) _ ⟨hhash, m, hm, rfl⟩
      · refine ih (by omega) (h.ask hpick) ?_
        show q.acts + 1 + m + 6 * (splice (p :: ps) pick).length + 21 ≤ q.turns
        omega
      · exact ⟨h.cid, hhash bytes rfl, by show q.acts + 1 + m < q.turns; omega⟩

variable (masterId cid) in
/-- A fetch that has found donors, and asked at most one of them. -/
structure Looking (cands : List String) (q : Seen) : Prop where
  cid : q.cid = cid
  donors : q.donors = some cands
  nodup : cands.Nodup
  others : masterId ∉ cands
  havers : q.havers = []
  outstanding : q.outstanding = 0
  seedAsks : q.seedAsks = 0

theorem wp_offloadRound {cands : List String} {now : ℚ} (h : Looking masterId cid cands q) (hacts : q.acts ≤ 10) :
    wp (watching sha256 masterId).contract (offloadRound cid cands now) (Left sha256 masterId cid 0)
      (fun _ _ => False) q := by
  have hturns : q.turns = 8 * cands.length + 33 := by rw [Seen.turns, h.donors, Option.getD_some]
  refine wp_act trivial (by omega) fun cooling _ => ?_
  cases cooling with
  | true =>
    refine ⟨⟨h.cid, h.outstanding, ⟨⟨cands, h.donors, .inl rfl⟩, ?_⟩, ?_, h.seedAsks, rfl⟩, ?_⟩
    · intro p hp
      exact absurd (h.havers ▸ hp) List.not_mem_nil
    · intro hp
      exact absurd (h.havers ▸ hp) List.not_mem_nil
    · show q.acts + 1 + 6 * 3 + 3 ≤ q.turns
      omega
  | false =>
    refine (wp_bind _ _).2 (wp_mono _ (wp_discover (q := q.track masterId (.cooling now) false) h.havers
      (by show q.acts + 1 + 2 * cands.length ≤ q.turns; omega)) ?_ fun _ _ hf => hf)
    rintro havers _ ⟨hsub, rfl⟩
    have hlen := hsub.length_le
    have hdrain : ∀ m, Draining masterId cid { (q.track masterId (.cooling now) false) with
        heard := cands.reverse ++ q.heard, havers, acts := m } havers := by
      intro m
      refine ⟨h.cid, h.outstanding, ⟨cands, h.donors, ?_⟩, hsub.nodup h.nodup, ?_, ?_, h.seedAsks, List.not_mem_nil⟩
      · exact fun d hd => List.mem_append_left _ (List.mem_reverse.2 hd)
      · exact fun p hp => ⟨List.not_mem_nil, fun heq => h.others (heq ▸ hsub.subset hp)⟩
      · exact fun p hp => ⟨fun heq => h.others (heq ▸ hsub.subset hp), .inl hp⟩
    cases havers with
    | nil =>
      refine wp_act trivial (by show q.acts + 1 + 2 * cands.length < q.turns; omega) fun _ _ => ?_
      exact ⟨(hdrain _).due, by show q.acts + 1 + 2 * cands.length + 1 + 6 * 3 + 3 ≤ q.turns; omega⟩
    | cons p ps =>
      refine wp_drain rfl (hdrain _) ?_
      show q.acts + 1 + 2 * cands.length + 6 * (p :: ps).length + 21 ≤ q.turns
      omega

theorem wp_tryOffload (hq : q = { cid, acts := 1 }) :
    wp (watching sha256 masterId).contract (tryOffload masterId cid) (Left sha256 masterId cid 0) (fun _ _ => False) q := by
  subst hq
  refine (wp_bind _ _).2 (wp_act rfl (show 1 < 33 by decide) fun (peers : PeerSet) _ => ?_)
  have hnodup := peers.2.filter (· ≠ masterId)
  have hothers : masterId ∉ peers.1.filter (· ≠ masterId) := by simp
  simp only [wp_pure, Seen.track, Seen.next]
  generalize peers.1.filter (· ≠ masterId) = cands at hnodup hothers
  cases cands with
  | nil =>
    refine ⟨⟨rfl, rfl, ⟨⟨[], rfl, .inr fun d hd => absurd hd List.not_mem_nil⟩, fun p hp => absurd hp List.not_mem_nil⟩,
      List.not_mem_nil, rfl, rfl⟩, ?_⟩
    show 2 + 6 * 3 + 3 ≤ 33
    decide
  | cons d ds =>
    refine wp_act trivial (by show 2 < 8 * (ds.length + 1) + 33; omega) fun now _ => ?_
    refine wp_act trivial (by show 3 < 8 * (ds.length + 1) + 33; omega) fun (known : List String) hknown => ?_
    cases known with
    | nil => exact wp_offloadRound ⟨rfl, rfl, hnodup, hothers, rfl, rfl, rfl⟩ (show 4 ≤ 10 by decide)
    | cons p ps =>
      refine wp_act trivial (by show 4 < 8 * (ds.length + 1) + 33; omega) fun (first : String) hfirst => ?_
      have hne : first ≠ masterId := fun heq => hothers (heq ▸ hknown (hfirst (List.cons_ne_nil p ps)))
      have hwant : InOrder sha256 masterId { cid, donors := some (d :: ds), acts := 5 } (.wantSessionBlock cid first) :=
        ⟨rfl, rfl, fun h => absurd h List.not_mem_nil, fun heq => absurd heq hne⟩
      refine (wp_bind _ _).2 (wp_mono _ (wp_wantBlockFrom rfl hwant ?_) ?_ fun _ _ hf => hf)
      · show 5 + 5 ≤ 8 * (ds.length + 1) + 33
        omega
      rintro (_ | bytes) _ ⟨hhash, m, hm, rfl⟩
      · exact wp_offloadRound ⟨rfl, rfl, hnodup, hothers, rfl, rfl, if_neg hne⟩ (by show 5 + m ≤ 10; omega)
      · exact ⟨rfl, hhash bytes rfl, by show 5 + m < 8 * (ds.length + 1) + 33; omega⟩

theorem Due.inOrder {q : Seen} {k n : Nat} (h : Due masterId cid k q) (hk : k < SEED_ATTEMPTS) :
    InOrder sha256 masterId { q with acts := n } (.wantSessionBlock cid masterId) :=
  ⟨h.cid.symm, h.outstanding, fun hp => absurd hp h.havers,
    fun _ => ⟨⟨h.due.looked, h.due.failed⟩, h.seedAsks.trans_lt hk⟩⟩

theorem Due.ask {q : Seen} {k m n : Nat} (h : Due masterId cid k q) :
    Due masterId cid (k + 1) (({ q with acts := m } : Seen).ask masterId masterId true n) where
  cid := h.cid
  outstanding := h.outstanding
  due := ⟨h.due.looked, fun p hp =>
    ⟨List.mem_cons_of_mem _ (h.due.failed p hp).1, List.mem_cons_of_mem _ (h.due.failed p hp).2⟩⟩
  havers := h.havers
  seedAsks := (if_pos rfl).trans (congrArg (· + 1) h.seedAsks)
  failed := List.count_cons_self.trans (congrArg (· + 1) h.failed)

theorem wp_wantSeed {k n : Nat} (hk : n + k = SEED_ATTEMPTS) (h : Due masterId cid k q)
    (hacts : q.acts + 6 * n + 3 ≤ q.turns) :
    wp (watching sha256 masterId).contract (wantSeed masterId cid n) (Left sha256 masterId cid SEED_ATTEMPTS)
      (fun _ _ => False) q := by
  induction n generalizing q k with
  | zero =>
    rw [Nat.zero_add] at hk
    subst hk
    exact ⟨h, by omega⟩
  | succ n ih =>
    refine wp_act trivial (by omega) fun now _ => ?_
    refine (wp_bind _ _).2 (wp_mono _ (wp_wantBlockFrom (q := { q with acts := q.acts + 1 }) h.cid (h.inOrder (by omega))
      (by show q.acts + 1 + 5 ≤ q.turns; omega)) ?_ fun _ _ hf => hf)
    rintro (_ | bytes) _ ⟨hhash, m, hm, rfl⟩
    · refine ih (k := k + 1) (by omega) h.ask ?_
      show q.acts + 1 + m + 6 * n + 3 ≤ q.turns
      omega
    · exact ⟨h.cid, hhash bytes rfl, by show q.acts + 1 + m < q.turns; omega⟩

theorem wp_lastResort (h : Due masterId cid SEED_ATTEMPTS q) (hacts : q.acts + 3 ≤ q.turns) :
    wp (watching sha256 masterId).contract (lastResort cid) (fun _ _ => True) (fun _ _ => True) q := by
  refine wp_act ⟨h.cid.symm, h.outstanding, h.due, h.failed⟩ (by omega) fun _ _ => ?_
  refine wp_act trivial (by show q.acts + 1 < q.turns; omega) fun r _ => ?_
  rcases r with x | bytes
  · trivial
  · refine wp_act (f := .ret) ⟨h.cid.symm, .inl List.mem_cons_self⟩ ?_ fun _ _ => trivial
    show q.acts + 1 + 1 < q.turns
    omega

theorem follows_fetch (cid : ContentId) :
    (watching sha256 masterId).Follows (fun _ => True) (fetch masterId cid) { cid } := by
  have hresolve : ∀ {q : Seen} {bytes : Bytes}, q.cid = cid → bytes ∈ q.given ∨ Hashes sha256 cid bytes → q.acts < q.turns →
      wp (watching sha256 masterId).contract (act (.resolve cid bytes)) (fun _ _ => True) (fun _ _ => True) q :=
    fun hcid hb hacts => wp_act (f := .ret) ⟨hcid.symm, hb⟩ hacts fun _ _ => trivial
  refine wp_act trivial (show 0 < 33 by decide) fun resident _ => ?_
  cases resident with
  | some bytes => exact hresolve rfl (.inl List.mem_cons_self) (show 1 < 33 by decide)
  | none =>
    rw [wp_bind, wp_attempt]
    refine wp_mono _ (wp_tryOffload rfl) ?_ fun _ _ hf => hf.elim
    rintro (_ | bytes) q hleft
    · rw [wp_bind]
      refine wp_mono _ (wp_wantSeed (k := 0) rfl hleft.1 hleft.2) ?_ fun _ _ hf => hf.elim
      rintro (_ | bytes) q hleft
      · exact wp_lastResort hleft.1 hleft.2
      · exact hresolve hleft.1 (.inr hleft.2.1) hleft.2.2
    · exact hresolve hleft.1 (.inr hleft.2.1) hleft.2.2

end

/-! ### Fetches side by side -/

/-- What a fetch has done, by its acts and their answers, latest first. -/
def seen (cid : ContentId) (past : List (Σ e, Ans e)) : Seen := past.foldr (fun x q => q.track masterId x.1 x.2) { cid }

/-- Every act of the fetch came in order. -/
def Orderly (t : Task Act Ans String ContentId) : Prop :=
  ∀ later e r earlier, t.past = later ++ ⟨e, r⟩ :: earlier → InOrder sha256 masterId (seen masterId t.op earlier) e

/-- The fetch has come to its end, or waits for Helia's own `get`, or its next turn is an act. -/
def Advances (S : System Act Ans String Input State ContentId) (p : Pool Act Ans String State ContentId) (i : Nat)
    (t : Task Act Ans String ContentId) : Prop :=
  t.rest.ended = true ∨ (∃ cid k, t.rest = .act (.got cid) k) ∨
    ∀ inp, ((p.move S (.step i inp)).tasks[i]?).map (·.past.length) = some (t.past.length + 1)

section
variable {sha256 masterId} {cid : ContentId} {ends : ContentId → State → Bool}

theorem acts_seen (past : List (Σ e, Ans e)) : (seen masterId cid past).acts = past.length := by
  induction past with
  | nil => rfl
  | cons x past ih => exact congrArg (· + 1) ih

theorem turns_le {q : Seen} {e : Act} {r : Ans e} (he : InOrder sha256 masterId q e) :
    q.turns ≤ (q.track masterId e r).turns := by
  have hsame : (q.track masterId e r).donors = q.donors ∨ q.donors = none := by
    cases e with
    | peers => exact .inr he
    | localGet c => cases r <;> exact .inl rfl
    | presence c p => cases r <;> exact .inl rfl
    | answer c p =>
      rcases r with x | ⟨_ | _, _ | _⟩ <;> exact .inl rfl
    | digest b =>
      cases r with
      | error x => exact .inl rfl
      | ok d =>
        simp only [Seen.track, Seen.next]
        split <;> exact .inl rfl
    | put c b => cases r <;> exact .inl rfl
    | got c => cases r <;> exact .inl rfl
    | _ => exact .inl rfl
  rcases hsame with heq | hnone
  · rw [Seen.turns, Seen.turns, heq]
  · rw [Seen.turns, hnone]
    exact Nat.le_add_left 33 _

theorem allow_world (e : Act) (i : Input) (s : State) :
    (watching sha256 masterId).allow e (world sha256 e i s).1 := by
  cases e with
  | known cands now => exact List.filter_subset_self _
  | choose peers => exact choose_mem
  | digest bytes =>
    intro d hd
    cases h : i.hashed with
    | error x =>
      rw [world, h] at hd
      cases hd
    | ok u =>
      rw [world, h] at hd
      exact (Except.ok.inj hd).symm
  | _ => trivial

theorem stored_world {e : Act} {i : Input} {s : State} {q : Seen} (h : ∀ x ∈ s.stored, Hashes sha256 x.1 x.2)
    (he : InOrder sha256 masterId q e) : ∀ x ∈ (world sha256 e i s).2.stored, Hashes sha256 x.1 x.2 := by
  cases e with
  | put c bytes =>
    intro x hx
    simp only [world] at hx
    split at hx
    · rcases List.mem_cons.1 hx with rfl | hx
      · exact he.2
      · exact h x hx
    · exact h x hx
  | _ => exact h

variable (sha256 masterId) in
/-- What holds in every interleaving of fetches. -/
structure Fetched (s : State) (ts : List (Task Act Ans String ContentId)) : Prop where
  watched : (watching sha256 masterId).Watched (fun _ _ => True) s ts
  orderly : ∀ t ∈ ts, Orderly sha256 masterId t
  length : ∀ t ∈ ts, t.past.length ≤ (seen masterId t.op t.past).turns
  stored : ∀ x ∈ s.stored, Hashes sha256 x.1 x.2

namespace Fetched
variable {s : State} {ts l₁ l₂ : List (Task Act Ans String ContentId)} {t : Task Act Ans String ContentId} {e : Act}
  {k : Ans e → Fetching Unit} {i : Input}

theorem nil : Fetched sha256 masterId {} [] :=
  ⟨fun _ ht => absurd ht List.not_mem_nil, fun _ ht => absurd ht List.not_mem_nil, fun _ ht => absurd ht List.not_mem_nil,
    fun _ hx => absurd hx List.not_mem_nil⟩

theorem start (h : Fetched sha256 masterId s ts) (cid : ContentId) :
    Fetched sha256 masterId s (ts ++ [⟨cid, [], fetch masterId cid⟩]) := by
  refine ⟨h.watched.start (follows_fetch cid) trivial, ?_, ?_, h.stored⟩
  · intro t ht
    rcases List.mem_append.1 ht with ht | ht
    · exact h.orderly t ht
    · obtain rfl := List.mem_singleton.1 ht
      intro later e r earlier hpast
      exact absurd hpast.symm (by simp)
  · intro t ht
    rcases List.mem_append.1 ht with ht | ht
    · exact h.length t ht
    · obtain rfl := List.mem_singleton.1 ht
      exact Nat.zero_le _

/-- The acts of the task that acts stay those that were, and the one it does. -/
theorem mem_answered {u : Task Act Ans String ContentId} {r : Ans e} (hu : u ∈ l₁ ++ t.answered e r k :: l₂) :
    u ∈ l₁ ++ t :: l₂ ∨ u = t.answered e r k := by
  rcases List.mem_append.1 hu with hu | hu
  · exact .inl (List.mem_append_left _ hu)
  · rcases List.mem_cons.1 hu with rfl | hu
    · exact .inr rfl
    · exact .inl (List.mem_append_right _ (List.mem_cons_of_mem t hu))

theorem act (h : Fetched sha256 masterId s (l₁ ++ t :: l₂)) (hrest : t.rest = .act e k) :
    Fetched sha256 masterId (world sha256 e i s).2 (l₁ ++ t.answered e (world sha256 e i s).1 k :: l₂) := by
  have hmem : t ∈ l₁ ++ t :: l₂ := List.mem_append_right l₁ List.mem_cons_self
  have hlegal := Monitor.legal_of_follows (h.watched t hmem).1 hrest
  refine ⟨h.watched.act hrest (allow_world e i s) (fun _ _ => trivial) (fun _ _ _ _ _ _ => trivial), ?_, ?_,
    stored_world h.stored hlegal.1⟩
  · intro u hu
    rcases mem_answered hu with hu | rfl
    · exact h.orderly u hu
    · rintro (_ | ⟨x, later⟩) e' r' earlier hpast
      · obtain ⟨hx, rfl⟩ := List.cons.inj hpast
        obtain ⟨rfl, -⟩ := Sigma.mk.inj hx
        exact hlegal.1
      · exact h.orderly t hmem later e' r' earlier (List.cons.inj hpast).2
  · intro u hu
    rcases mem_answered hu with hu | rfl
    · exact h.length u hu
    · have hacts : (seen masterId t.op t.past).acts = t.past.length := acts_seen t.past
      exact le_trans (hacts.symm.trans_lt hlegal.2) (turns_le hlegal.1)

end Fetched

end

/-- In every interleaving of fetches each does its acts in order, what they store is what its CID names, and each
comes to its end within `turns` acts or waits for Helia's own `get`. -/
theorem fetches_in_order (ends : ContentId → State → Bool) (ms : List (Prog.Move Input ContentId)) :
    let S := system sha256 masterId ends
    let p := Pool.moves S ⟨{}, []⟩ ms
    (∀ t ∈ p.tasks, Orderly sha256 masterId t ∧ t.past.length ≤ (seen masterId t.op t.past).turns) ∧
      (∀ i t, p.tasks[i]? = some t → Advances S p i t) ∧ ∀ x ∈ p.state.stored, Hashes sha256 x.1 x.2 := by
  intro S p
  have hall : Fetched sha256 masterId p.state p.tasks :=
    Pool.moves_always (fun s ts o hI => hI.start o) (fun s l₁ t l₂ e k inp hI hrest _ => hI.act hrest) ms .nil
  refine ⟨fun t ht => ⟨hall.orderly t ht, hall.length t ht⟩, fun i t ht => ?_, hall.stored⟩
  cases hrest : t.rest with
  | act e k =>
    by_cases hgot : ∃ c, e = .got c
    · obtain ⟨c, rfl⟩ := hgot
      exact .inr (.inl ⟨c, k, hrest⟩)
    · refine .inr (.inr fun inp => ?_)
      have hen : S.enabled e p.state = true := by
        cases e with
        | got c => exact absurd ⟨c, rfl⟩ hgot
        | _ => rfl
      rw [Pool.move_of_enabled ht hrest hen]
      rfl
  | _ => exact .inl (by rw [hrest]; rfl)

/-! ### The last resort -/

/-- The peers an act sends a WANT-BLOCK to. -/
def wanted : (Σ e, Ans e) → List String
  | ⟨.wantSessionBlock _ p, _⟩ => [p]
  | ⟨.get _, peers⟩ => peers
  | _ => []

def theSeed : String := "12D3KooWA82xcGErUhE66LCRMqmeAp8Jq7R1jZ2d2Ey4fXTNDNux"
def aDonor : String := "12D3KooWQcfJNmGAEooFfPA2aYFYGEUb3gCAkSk528A8NGJVCtCZ"

def bothConnected : Input := { connected := ⟨[aDonor, theSeed], by decide⟩, answer := .ok ⟨false, none⟩ }

/-- A fetch whose block neither the donor nor the seed has. -/
def neitherHas : List (Prog.Move Input ContentId) :=
  .start ⟨0x55, SHA2_256, List.replicate 32 0⟩ :: List.replicate 18 (.step 0 bothConnected)

def handedOver : Pool Act Ans String State ContentId :=
  Pool.moves (system (fun _ => []) theSeed fun _ _ => false) ⟨{}, []⟩ neitherHas

/-- The task waits for Helia's own `get`. -/
def waits (t : Task Act Ans String ContentId) : Bool :=
  match t.rest with
  | .act (.got _) _ => true
  | _ => false

theorem exists_of_waits {t : Task Act Ans String ContentId} (h : waits t = true) : ∃ c k, t.rest = .act (.got c) k := by
  unfold waits at h
  split at h
  · exact ⟨_, _, by assumption⟩
  · cases h

/-- Helia's `get` asks the seed a fourth time and both peers at once, and the fetch waits for it for good. -/
theorem last_resort_asks_all :
    (handedOver.tasks.map fun t => (t.past.flatMap wanted).count theSeed) = [SEED_ATTEMPTS + 1] ∧
      (handedOver.tasks.map fun t => t.past.head?.map wanted) = [some [aDonor, theSeed]] ∧
        ∀ ms, ∃ t ∈ (Pool.moves (system (fun _ => []) theSeed fun _ _ => false) handedOver ms).tasks,
          t.rest.ended = false := by
  have hwaits : (handedOver.tasks[0]?.map waits) = some true := by decide +kernel
  obtain ⟨t, hget, ht⟩ := Option.map_eq_some_iff.1 hwaits
  obtain ⟨c, k, hrest⟩ := exists_of_waits ht
  refine ⟨by decide +kernel, by decide +kernel, fun ms => ⟨t, ?_, by rw [hrest]; rfl⟩⟩
  exact List.mem_of_getElem? (Pool.moves_waiting (k := k) hrest (fun _ => rfl) ms hget)

end BlockFetch
end TrackerStream
