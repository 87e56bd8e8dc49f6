import TrackerStream.PageReads

/-!
# Waves of fetches (`scheduler.ts`, `catalog.rs`)

One connection reads pages of a catalog, and what is fetched stays in the cache. The desktop asks for nothing where a read
finds its own pages; the browser looks at the read-ahead window too. A page's place in the cache is its block on the desktop
and its number in the browser. `Both` runs the two on the same reads.
-/

namespace TrackerStream.PageWaves
open PageReads

/-- A read of the pages `first` to `last`. -/
structure Read where
  first : Nat
  last : Nat
deriving DecidableEq

/-- The read asks for pages of the catalog. -/
def Read.Valid (pages : List String) (r : Read) : Prop := r.first ≤ r.last ∧ r.last < pages.length

structure Desktop where
  lastEnd : Option Nat := none
  seqRun : Nat := 0
  /-- The blocks in the cache. -/
  cache : List String := []
  waves : Nat := 0

structure Browser where
  lastEnd : Option Nat := none
  seqRun : Nat := 0
  /-- The pages in the cache. -/
  cache : List Nat := []
  waves : Nat := 0

variable (pages : List String)

def block (i : Nat) : String := pages.getD i ""

/-- The run counter after the read `r`. -/
def Desktop.run (d : Desktop) (r : Read) : Nat := if advancing d.lastEnd r.first then min (d.seqRun + 1) (2 ^ 64 - 1) else 0

def Browser.run (b : Browser) (r : Read) : Nat := if advancing b.lastEnd r.first then b.seqRun + 1 else 0

/-- The pages of a read and of its read-ahead. -/
def window (seqRun : Nat) (r : Read) : List Nat := span r.first (readAhead seqRun r.last (pages.length - 1))

/-- `read_zstd` with `ensure_pages`. -/
def Desktop.read_zstd (d : Desktop) (r : Read) : Desktop :=
  let d' := { d with seqRun := d.run r, lastEnd := some r.last }
  if (span r.first r.last).all fun i => d.cache.contains (block pages i) then d'
  else
    let missing := (window pages (d.run r) r).filter fun i => !d.cache.contains (block pages i)
    { d' with cache := missing.map (block pages) ++ d.cache, waves := d.waves + 1 }

def Browser.ensure (b : Browser) (r : Read) : Browser :=
  let b' := { b with seqRun := b.run r, lastEnd := some r.last }
  let missing := (window pages (b.run r) r).filter fun i => !b.cache.contains i
  if missing = [] then b' else { b' with cache := missing ++ b.cache, waves := b.waves + 1 }

structure Both where
  desktop : Desktop := {}
  browser : Browser := {}

def Both.step (s : Both) (r : Read) : Both := ⟨s.desktop.read_zstd pages r, s.browser.ensure pages r⟩

def after (reads : List Read) (k : Nat) : Both := Runs.state (Both.step pages) {} reads k

/-- Where the desktop has the blocks of a read, the browser has its pages, and in a forward run those of the read-ahead. -/
def Covered (s : Both) (r : Read) : Prop :=
  (∀ i ∈ span r.first r.last, block pages i ∈ s.desktop.cache) → ∀ i ∈ window pages (s.browser.run r) r, i ∈ s.browser.cache

instance (r : Read) : Decidable (r.Valid pages) := inferInstanceAs (Decidable (_ ∧ _))

instance (s : Both) (r : Read) : Decidable (Covered pages s r) := inferInstanceAs (Decidable (_ → _))

variable {pages} {s : Both} {r : Read} {i : Nat}

/-! ### One read -/

theorem mem_span {first last : Nat} : i ∈ span first last ↔ first ≤ i ∧ i ≤ last := by
  rw [span, List.mem_range'_1]
  omega

/-- The pages of a read are in its window. -/
theorem mem_window_of_mem_span {seqRun : Nat} (hr : r.Valid pages) (hi : i ∈ span r.first r.last) :
    i ∈ window pages seqRun r := by
  obtain ⟨hle, hlt⟩ := hr
  rw [window, mem_span, readAhead]
  rw [mem_span] at hi
  split <;> omega

/-- A run is long enough for the one exactly when it is for the other. -/
theorem window_saturated {seqRun : Nat} : window pages (min seqRun (2 ^ 64 - 1)) r = window pages seqRun r := by
  have : PREFETCH_MIN_RUN ≤ min seqRun (2 ^ 64 - 1) ↔ PREFETCH_MIN_RUN ≤ seqRun := by
    rw [PREFETCH_MIN_RUN]
    omega
  simp only [window, readAhead, this]

namespace Desktop
variable (d : Desktop)

theorem read_zstd_run : (d.read_zstd pages r).lastEnd = some r.last ∧ (d.read_zstd pages r).seqRun = d.run r := by
  rw [read_zstd]
  split <;> exact ⟨rfl, rfl⟩

variable {d}

theorem read_zstd_resident (hall : ∀ i ∈ span r.first r.last, block pages i ∈ d.cache) :
    (d.read_zstd pages r).cache = d.cache ∧ (d.read_zstd pages r).waves = d.waves := by
  rw [read_zstd, if_pos (by simpa using hall)]
  exact ⟨rfl, rfl⟩

theorem read_zstd_missing (hall : ¬∀ i ∈ span r.first r.last, block pages i ∈ d.cache) :
    (∀ b, b ∈ (d.read_zstd pages r).cache ↔ b ∈ d.cache ∨ ∃ i ∈ window pages (d.run r) r, block pages i = b) ∧
      (d.read_zstd pages r).waves = d.waves + 1 := by
  rw [read_zstd, if_neg (by simpa using hall)]
  refine ⟨fun b => ?_, rfl⟩
  simp only [List.mem_append, List.mem_map, List.mem_filter]
  constructor
  · rintro (⟨i, ⟨hi, -⟩, hb⟩ | hb)
    · exact .inr ⟨i, hi, hb⟩
    · exact .inl hb
  · rintro (hb | ⟨i, hi, hb⟩)
    · exact .inr hb
    · by_cases hin : b ∈ d.cache
      · exact .inr hin
      · exact .inl ⟨i, ⟨hi, by rw [hb]; simpa using hin⟩, hb⟩

end Desktop

namespace Browser
variable (b : Browser)

theorem ensure_run : (b.ensure pages r).lastEnd = some r.last ∧ (b.ensure pages r).seqRun = b.run r := by
  rw [ensure]
  simp only
  split <;> exact ⟨rfl, rfl⟩

variable {b}

theorem ensure_resident (hall : ∀ i ∈ window pages (b.run r) r, i ∈ b.cache) :
    (b.ensure pages r).cache = b.cache ∧ (b.ensure pages r).waves = b.waves := by
  have hnone : ((window pages (b.run r) r).filter fun i => !b.cache.contains i) = [] := by
    rw [List.filter_eq_nil_iff]
    intro i hi
    simpa using hall i hi
  rw [ensure]
  simp only
  rw [if_pos hnone]
  exact ⟨rfl, rfl⟩

theorem ensure_missing (hall : ¬∀ i ∈ window pages (b.run r) r, i ∈ b.cache) :
    (∀ i, i ∈ (b.ensure pages r).cache ↔ i ∈ b.cache ∨ i ∈ window pages (b.run r) r) ∧
      (b.ensure pages r).waves = b.waves + 1 := by
  have hsome : ((window pages (b.run r) r).filter fun i => !b.cache.contains i) ≠ [] := by
    intro hnone
    refine hall fun i hi => ?_
    simpa using List.filter_eq_nil_iff.1 hnone i hi
  rw [ensure]
  simp only
  rw [if_neg hsome]
  refine ⟨fun i => ?_, rfl⟩
  rw [List.mem_append, List.mem_filter]
  constructor
  · rintro (⟨hi, -⟩ | hi)
    · exact .inr hi
    · exact .inl hi
  · rintro (hi | hi)
    · exact .inr hi
    · by_cases hin : i ∈ b.cache
      · exact .inr hin
      · exact .inl ⟨hi, by simpa using hin⟩

end Browser

/-! ### Lockstep -/

/-- The desktop has the blocks of the pages that the browser has, and no others, and has waited as often. -/
structure Lockstep (pages : List String) (s : Both) : Prop where
  lastEnd : s.desktop.lastEnd = s.browser.lastEnd
  seqRun : s.desktop.seqRun = min s.browser.seqRun (2 ^ 64 - 1)
  cache : ∀ b, b ∈ s.desktop.cache ↔ ∃ i ∈ s.browser.cache, block pages i = b
  waves : s.browser.waves = s.desktop.waves

namespace Lockstep

theorem run (h : Lockstep pages s) : s.desktop.run r = min (s.browser.run r) (2 ^ 64 - 1) := by
  rw [Desktop.run, Browser.run, h.lastEnd, h.seqRun]
  split_ifs <;> omega

theorem window (h : Lockstep pages s) : window pages (s.desktop.run r) r = window pages (s.browser.run r) r := by
  rw [h.run, window_saturated]

/-- Where the desktop lacks a block of a read, the browser lacks its page. -/
theorem missing (h : Lockstep pages s) (hr : r.Valid pages)
    (hall : ¬∀ i ∈ span r.first r.last, block pages i ∈ s.desktop.cache) :
    ¬∀ i ∈ PageWaves.window pages (s.browser.run r) r, i ∈ s.browser.cache := by
  push Not at hall ⊢
  obtain ⟨i, hi, hmiss⟩ := hall
  exact ⟨i, mem_window_of_mem_span hr hi, fun hin => hmiss ((h.cache _).2 ⟨i, hin, rfl⟩)⟩

theorem step (h : Lockstep pages s) (hr : r.Valid pages) (hc : Covered pages s r) : Lockstep pages (s.step pages r) := by
  obtain ⟨hdl, hdr⟩ := s.desktop.read_zstd_run
  obtain ⟨hbl, hbr⟩ := s.browser.ensure_run
  have hlast : (s.step pages r).desktop.lastEnd = (s.step pages r).browser.lastEnd := hdl.trans hbl.symm
  have hrun : (s.step pages r).desktop.seqRun = min (s.step pages r).browser.seqRun (2 ^ 64 - 1) := by
    rw [Both.step, hdr, hbr, h.run]
  by_cases hall : ∀ i ∈ span r.first r.last, block pages i ∈ s.desktop.cache
  · obtain ⟨hdc, hdw⟩ := Desktop.read_zstd_resident hall
    obtain ⟨hbc, hbw⟩ := Browser.ensure_resident (hc hall)
    refine ⟨hlast, hrun, fun b => ?_, ?_⟩
    · show b ∈ (s.desktop.read_zstd pages r).cache ↔ ∃ i ∈ (s.browser.ensure pages r).cache, block pages i = b
      rw [hdc, hbc]
      exact h.cache b
    · exact hbw.trans (h.waves.trans hdw.symm)
  · obtain ⟨hdc, hdw⟩ := Desktop.read_zstd_missing hall
    obtain ⟨hbc, hbw⟩ := Browser.ensure_missing (h.missing hr hall)
    refine ⟨hlast, hrun, fun b => ?_, ?_⟩
    · show b ∈ (s.desktop.read_zstd pages r).cache ↔ ∃ i ∈ (s.browser.ensure pages r).cache, block pages i = b
      rw [hdc, h.window, h.cache]
      simp only [hbc, or_and_right, exists_or]
    · show (s.browser.ensure pages r).waves = (s.desktop.read_zstd pages r).waves
      rw [hbw, hdw, h.waves]

/-- A read that the desktop has the blocks of, and the browser not all of the window, costs the browser a wave of its own. -/
theorem covered (h : Lockstep pages s) (hw : (s.step pages r).browser.waves ≤ (s.step pages r).desktop.waves) :
    Covered pages s r := by
  intro hall
  by_contra hmiss
  have hb : (s.browser.ensure pages r).waves = s.browser.waves + 1 := (Browser.ensure_missing hmiss).2
  have hd : (s.desktop.read_zstd pages r).waves = s.desktop.waves := (Desktop.read_zstd_resident hall).2
  have hw : (s.browser.ensure pages r).waves ≤ (s.desktop.read_zstd pages r).waves := hw
  have := h.waves
  omega

theorem start : Lockstep pages {} where
  lastEnd := rfl
  seqRun := rfl
  cache b := by simp
  waves := rfl

end Lockstep

/-! ### A forward scan -/

/-- The pages from `first` on, one after the other. -/
def scan (first n : Nat) : List Read := (List.range' first n).map fun i => ⟨i, i⟩

/-- After `k` reads of a scan: the pages before `front` are in the cache or outside the catalog, and the waves behind
the first few have each fetched a whole window. -/
structure Scanned (pages : List String) (first k : Nat) (d : Desktop) : Prop where
  run : d.lastEnd = if k = 0 then none else some (first + k - 1)
  seqRun : 1 ≤ k → d.seqRun = min (k - 1) (2 ^ 64 - 1)
  few : k ≤ PREFETCH_MIN_RUN → d.waves ≤ k
  front : PREFETCH_MIN_RUN ≤ k → ∃ front, k ≤ front ∧ front ≤ k + PREFETCH_PAGES ∧
    (∀ i, first + k ≤ i → i < first + front → i < pages.length → block pages i ∈ d.cache) ∧
    (PREFETCH_PAGES + 1) * (d.waves - PREFETCH_MIN_RUN) + PREFETCH_MIN_RUN ≤ front

theorem Scanned.run_eq {first k : Nat} {d : Desktop} (h : Scanned pages first k d) :
    d.run ⟨first + k, first + k⟩ = min k (2 ^ 64 - 1) := by
  rcases Nat.eq_zero_or_pos k with rfl | hk
  · rw [Desktop.run, h.run]
    rfl
  · have hlast : d.lastEnd = some (first + k - 1) := by rw [h.run, if_neg hk.ne']
    have hadv : advancing (some (first + k - 1)) (first + k) = true := by
      simp only [advancing, Option.any_some, decide_eq_true_eq]
      omega
    rw [Desktop.run, hlast, if_pos hadv, h.seqRun hk]
    omega

/-- The page of a scan, and its window where the run is long enough. -/
theorem mem_window_page {seqRun first i : Nat} :
    i ∈ window pages seqRun ⟨first, first⟩ ↔ first ≤ i ∧ i ≤ readAhead seqRun first (pages.length - 1) := mem_span

theorem Scanned.step {first k : Nat} {d : Desktop} (h : Scanned pages first k d) (hlt : first + k < pages.length) :
    Scanned pages first (k + 1) (d.read_zstd pages ⟨first + k, first + k⟩) := by
  obtain ⟨hlast, hrun⟩ := @Desktop.read_zstd_run pages ⟨first + k, first + k⟩ d
  rw [h.run_eq] at hrun
  have hspan : (∀ i ∈ span (first + k) (first + k), block pages i ∈ d.cache) ↔ block pages (first + k) ∈ d.cache := by
    simp only [mem_span]
    constructor
    · exact fun hall => hall _ ⟨Nat.le_refl _, Nat.le_refl _⟩
    · rintro hin i ⟨hge, hle⟩
      rwa [Nat.le_antisymm hle hge]
  have hwaves : (d.read_zstd pages ⟨first + k, first + k⟩).waves ≤ d.waves + 1 := by
    by_cases hin : block pages (first + k) ∈ d.cache
    · exact (Desktop.read_zstd_resident (r := ⟨first + k, first + k⟩) (hspan.2 hin)).2.trans_le (Nat.le_succ _)
    · exact (Desktop.read_zstd_missing (r := ⟨first + k, first + k⟩) fun hall => hin (hspan.1 hall)).2.le
  refine ⟨by rw [hlast, if_neg (by omega)]; rfl, fun _ => hrun, fun hfew => ?_, fun hmany => ?_⟩
  · have := h.few (by omega)
    omega
  · rcases Nat.eq_or_lt_of_le hmany with hk | hk
    · have := h.few (by omega)
      refine ⟨k + 1, Nat.le_refl _, Nat.le_add_right _ _, fun i _ _ _ => by omega, ?_⟩
      simp only [PREFETCH_MIN_RUN] at hk ⊢
      have : (d.read_zstd pages ⟨first + k, first + k⟩).waves - 4 = 0 := by omega
      rw [this]
      omega
    · obtain ⟨front, hge, hle, hcached, hbound⟩ := h.front (Nat.le_of_lt_succ hk)
      simp only [PREFETCH_MIN_RUN, PREFETCH_PAGES] at *
      by_cases hin : block pages (first + k) ∈ d.cache
      · obtain ⟨hcache, hsame⟩ := Desktop.read_zstd_resident (r := ⟨first + k, first + k⟩) (hspan.2 hin)
        refine ⟨max front (k + 1), by omega, by omega, fun i h₁ h₂ h₃ => ?_, by omega⟩
        rw [hcache]
        exact hcached i (by omega) (by omega) h₃
      · obtain ⟨hcache, hwave⟩ := Desktop.read_zstd_missing (r := ⟨first + k, first + k⟩) fun hall => hin (hspan.1 hall)
        have hfront : front = k := by
          rcases Nat.eq_or_lt_of_le hge with hk | hk
          · exact hk.symm
          · exact absurd (hcached (first + k) (Nat.le_refl _) (by omega) hlt) hin
        refine ⟨k + 16, by omega, by omega, fun i h₁ h₂ h₃ => (hcache _).2 (.inr ⟨i, ?_, rfl⟩), by omega⟩
        rw [mem_window_page, h.run_eq, readAhead, if_pos (by rw [PREFETCH_MIN_RUN]; omega), PREFETCH_PAGES]
        omega

theorem scanned_scan {first n : Nat} (h : ∀ r ∈ scan first n, r.Valid pages) :
    Scanned pages first n (after pages (scan first n) n).desktop := by
  have hlen : (scan first n).length = n := by rw [scan, List.length_map, List.length_range']
  refine Runs.invariant (I := fun k (s : Both) => Scanned pages first k s.desktop) ?_ (fun k r hr hs => ?_) n hlen.ge
  · exact ⟨rfl, fun h => absurd h (by decide), fun _ => Nat.le_refl 0, fun h => absurd h (by decide)⟩
  · have hvalid := h r (List.mem_of_getElem? hr)
    have hk : k < n := hlen ▸ (List.getElem?_eq_some_iff.1 hr).1
    rw [scan, List.getElem?_map, List.getElem?_range' hk, Nat.one_mul] at hr
    obtain rfl : (⟨first + k, first + k⟩ : Read) = r := by simpa using hr
    exact hs.step hvalid.2

/-- Either one keeps up with the other, after every read, exactly as long as the reads are covered; and a scan costs
the desktop a wave for each window. -/
theorem waves_le_iff {reads : List Read} (h : ∀ r ∈ reads, r.Valid pages) :
    ((∀ k, (after pages reads k).browser.waves ≤ (after pages reads k).desktop.waves) ↔
        Runs.Along (Both.step pages) (Covered pages) {} reads) ∧
      ∀ first n, reads = scan first n → (after pages reads n).desktop.waves ≤
        PREFETCH_MIN_RUN + (n + PREFETCH_PAGES) / (PREFETCH_PAGES + 1) := by
  constructor
  · exact Runs.always_iff_along (V := fun _ r => r.Valid pages) (I := Lockstep pages) .start (fun _ hs => hs.waves.le)
      (fun _ _ hr hc hs => hs.step hr hc) (fun _ _ _ hs hw => hs.covered hw) fun k r hr => h r (List.mem_of_getElem? hr)
  · rintro first n rfl
    have hs := scanned_scan h
    simp only [PREFETCH_MIN_RUN, PREFETCH_PAGES]
    rcases Nat.lt_or_ge n 4 with hn | hn
    · have := hs.few (Nat.le_of_lt hn)
      omega
    · obtain ⟨front, -, hle, -, hbound⟩ := hs.front hn
      simp only [PREFETCH_MIN_RUN, PREFETCH_PAGES] at hle hbound
      omega

/-- A catalog of `n` different pages. -/
def numbered (n : Nat) : List String := (List.range n).map fun i => toString i

/-- The first five pages of a scan are read at one pace. -/
theorem waves_le_five :
    (after (numbered 21) (scan 0 5) 5).browser.waves ≤ (after (numbered 21) (scan 0 5) 5).desktop.waves :=
  (waves_le_iff (by decide)).1.2 (Runs.along_iff.2 (by decide)) 5

/-- At the sixth page of a scan the desktop has what it needs, and the browser waits for the page at the end of its
window. -/
theorem waves_over : (∀ r ∈ scan 0 6, r.Valid (numbered 21)) ∧
    ¬(after (numbered 21) (scan 0 6) 6).browser.waves ≤ (after (numbered 21) (scan 0 6) 6).desktop.waves ∧
    ¬(after (numbered 21) (scan 0 6) 6).browser.waves ≤ PREFETCH_MIN_RUN + (6 + PREFETCH_PAGES) / (PREFETCH_PAGES + 1) := by
  decide

end TrackerStream.PageWaves
