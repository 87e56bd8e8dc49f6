import TrackerStream.PageWaves

/-!
# Taking the pages of a read (`catalog.rs`, `scheduler.ts`)

Connections share the page cache. A read checks which of its pages are there, puts those it has fetched and then takes them
all, each under the cache's lock; other connections may come in between. Fetches succeed here, in any order on the desktop.
The check of the browser uses what it finds, and asks for the read-ahead window also where the read has all its pages. A
page's place in the cache is its number there.
-/

namespace TrackerStream.PageTakes
open PageReads

inductive Client
  | desktop | browser
deriving DecidableEq

inductive Phase
  | idle
  | fetching (first last : Nat) (missing : List Nat)
  /-- `ensure` is through. -/
  | taking (first last : Nat)

structure Conn where
  cid : String
  format : PageReads.Format
  lastEnd : Option Nat := none
  seqRun : Nat := 0
  phase : Phase := .idle

def Conn.key (client : Client) (f : Conn) (i : Nat) : Key := match client with
  | .desktop => f.format.key f.cid i
  | .browser => (f.cid, i)

structure World where
  cache : PageCache
  conns : List Conn
  /-- Which takes have found all their pages. -/
  results : List Bool := []

inductive Act
  | read (conn offset len : Nat)
  /-- The fetched pages in the order they came in. -/
  | put (conn : Nat) (got : List (Nat × Bytes))
  | take (conn : Nat)

/-- The pages of a read that starts inside the file: the desktop turns away one that ends behind it, the browser cuts it. -/
def pagesOf (client : Client) (format : PageReads.Format) (offset len : Nat) : Option (Nat × Nat) :=
  if len = 0 ∨ format.size ≤ offset then none
  else
    match client with
    | .desktop => if format.size < offset + len then none else some (offset / format.unit, (offset + len - 1) / format.unit)
    | .browser => some (offset / format.unit, (min (offset + len) format.size - 1) / format.unit)

/-- The run counter of a read. -/
def Conn.run (client : Client) (f : Conn) (first : Nat) : Nat :=
  if advancing f.lastEnd first then
    match client with
    | .desktop => min (f.seqRun + 1) (2 ^ 64 - 1)
    | .browser => f.seqRun + 1
  else 0

def Conn.resident (client : Client) (f : Conn) (cache : PageCache) (i : Nat) : Bool := (cache.find (f.key client i)).isSome

def check (client : Client) (w : World) (f : Conn) (first last : Nat) : PageCache × Conn :=
  let seqRun := f.run client first
  let window := span first (readAhead seqRun last f.format.lastPage)
  let missing := window.filter fun i => !f.resident client w.cache i
  match client with
  | .desktop =>
    if (span first last).all (f.resident client w.cache) then (w.cache, { f with seqRun, phase := .taking first last })
    else (w.cache, { f with seqRun, phase := .fetching first last missing })
  | .browser =>
    (window.foldl (fun c i => c.touch (f.key client i)) w.cache,
      { f with
        seqRun
        lastEnd := some last
        phase := if missing = [] then .taking first last else .fetching first last missing })

/-- All pages of a wave, in the browser in the order it asked for them. -/
def Delivered (client : Client) (missing : List Nat) (got : List (Nat × Bytes)) : Prop := match client with
  | .desktop => (got.map Prod.fst).Perm missing
  | .browser => got.map Prod.fst = missing

instance {client : Client} (missing : List Nat) (got : List (Nat × Bytes)) : Decidable (Delivered client missing got) :=
  match client with
  | .desktop => inferInstanceAs (Decidable (List.Perm _ _))
  | .browser => inferInstanceAs (Decidable (_ = _))

/-- Each page that is not there yet. -/
def putAll (client : Client) (f : Conn) (cache : PageCache) (got : List (Nat × Bytes)) : PageCache :=
  got.foldl (fun c page => PageCache.put c (f.key client page.1) page.2) cache

def takeAll (client : Client) (w : World) (f : Conn) (first last : Nat) : PageCache × Bool :=
  w.cache.serve ((span first last).map (f.key client))

def step (client : Client) (w : World) : Act → World
  | .read conn offset len =>
    match w.conns[conn]? with
    | some f =>
      match f.phase, pagesOf client f.format offset len with
      | .idle, some (first, last) =>
        let checked := check client w f first last
        { w with cache := checked.1, conns := w.conns.set conn checked.2 }
      | _, _ => w
    | none => w
  | .put conn got =>
    match w.conns[conn]? with
    | some f =>
      match f.phase with
      | .fetching first last missing =>
        if Delivered client missing got then
          { w with cache := putAll client f w.cache got, conns := w.conns.set conn { f with phase := .taking first last } }
        else w
      | _ => w
    | none => w
  | .take conn =>
    match w.conns[conn]? with
    | some f =>
      match f.phase with
      | .taking first last =>
        let taken := takeAll client w f first last
        { w with
          cache := taken.1
          conns := w.conns.set conn { f with phase := .idle, lastEnd := if taken.2 then some last else f.lastEnd }
          results := w.results ++ [taken.2] }
      | _ => w
    | none => w

/-- What a read needs to stay: all its pages once they have been put, before that those it found. -/
def Conn.needs (client : Client) (f : Conn) (k : Key) : Prop := match f.phase with
  | .idle => False
  | .fetching first last missing => ∃ i ∈ span first last, i ∉ missing ∧ f.key client i = k
  | .taking first last => ∃ i ∈ span first last, f.key client i = k

/-- No put finds a needed page as the one used longest ago in a full cache. -/
def Spares (client : Client) (f : Conn) (needed : Key → Prop) : PageCache → List (Nat × Bytes) → Prop
  | _, [] => True
  | c, page :: got => (∀ k ∈ c.victim, c.find (f.key client page.1) = none → ¬needed k) ∧
      Spares client f needed (PageCache.put c (f.key client page.1) page.2) got

/-- The pages fetched drop none that a read needs. -/
def Careful (client : Client) (w : World) : Act → Prop
  | .put conn got => ∀ f ∈ w.conns[conn]?, ∀ first last missing, f.phase = .fetching first last missing →
      Spares client f (fun k => (∃ i ∈ span first last, f.key client i = k) ∨ ∃ g ∈ w.conns, g.needs client k) w.cache got
  | _ => True

/-! ### The cache -/

section Cache
variable {client : Client} {c : PageCache} {f : Conn} {k n : Key}

theorem cap_pos : 0 < PAGE_CACHE_PAGES := by decide

theorem isSome_put {v : Bytes} : ((PageCache.put c k v).find n).isSome ↔
    (c.find n).isSome ∧ (c.find k = none → c.victim ≠ some n) ∨ c.find k = none ∧ n = k := by
  rw [PageCache.put]
  cases hk : c.find k with
  | some w => simp
  | none =>
    rw [Option.isSome_none, if_neg Bool.false_ne_true, Lru.isSome_find_add cap_pos hk]
    simp [or_comm]

/-- A put keeps what is needed, and its own page. -/
theorem isSome_putAll {needed : Key → Prop} {got : List (Nat × Bytes)} (h : Spares client f needed c got)
    (hn : needed n) (hin : (c.find n).isSome ∨ ∃ page ∈ got, f.key client page.1 = n) :
    ((putAll client f c got).find n).isSome := by
  induction got generalizing c with
  | nil => simpa [putAll] using hin
  | cons page got ih =>
    have hstays : (c.find n).isSome → ((PageCache.put c (f.key client page.1) page.2).find n).isSome :=
      fun hres => isSome_put.2 (.inl ⟨hres, fun hnone hvictim => h.1 n hvictim hnone hn⟩)
    refine ih h.2 ?_
    rcases hin with hres | ⟨page', hpage', hkey⟩
    · exact .inl (hstays hres)
    · rcases List.mem_cons.1 hpage' with rfl | hpage'
      · left
        cases hfind : c.find n with
        | some v => exact hstays (by rw [hfind]; rfl)
        | none => exact isSome_put.2 (.inr ⟨hkey ▸ hfind, hkey.symm⟩)
      · exact .inr ⟨page', hpage', hkey⟩

theorem isSome_touchAll {ks : List Nat} : ((ks.foldl (fun c i => c.touch (f.key client i)) c).find n).isSome ↔
    (c.find n).isSome := by
  induction ks generalizing c with
  | nil => rfl
  | cons i ks ih => rw [List.foldl_cons, ih, Lru.isSome_find_touch]

theorem serve_spec {ks : List Key} : ((c.serve ks).2 = true ↔ ∀ k ∈ ks, (c.find k).isSome) ∧
    ∀ n, ((c.serve ks).1.find n).isSome ↔ (c.find n).isSome := by
  induction ks generalizing c with
  | nil => simp [PageCache.serve]
  | cons k ks ih =>
    rw [PageCache.serve]
    split
    next hk =>
      obtain ⟨hall, hfind⟩ := @ih (c.touch k)
      refine ⟨hall.trans ?_, fun n => (hfind n).trans Lru.isSome_find_touch⟩
      simp only [Lru.isSome_find_touch, List.forall_mem_cons]
      exact (and_iff_right hk).symm
    next hk =>
      refine ⟨⟨fun h => absurd h Bool.false_ne_true, fun h => absurd (h k List.mem_cons_self) hk⟩, fun _ => Iff.rfl⟩

end Cache

/-! ### Runs -/

variable {client : Client} {w : World} {f : Conn} {conn : Nat}

variable (client w) in
/-- What a step does, where it does anything. -/
theorem step_cases (act : Act) : step client w act = w ∨ ∃ conn f, w.conns[conn]? = some f ∧
    ((∃ offset len first last, act = .read conn offset len ∧ pagesOf client f.format offset len = some (first, last) ∧
        step client w act =
        { w with cache := (check client w f first last).1, conns := w.conns.set conn (check client w f first last).2 }) ∨
      (∃ got first last missing, act = .put conn got ∧ f.phase = .fetching first last missing ∧
        Delivered client missing got ∧ step client w act =
        { w with cache := putAll client f w.cache got, conns := w.conns.set conn { f with phase := .taking first last } }) ∨
      ∃ first last, act = .take conn ∧ f.phase = .taking first last ∧ step client w act =
        { w with
          cache := (takeAll client w f first last).1
          conns := w.conns.set conn
            { f with phase := .idle, lastEnd := if (takeAll client w f first last).2 then some last else f.lastEnd }
          results := w.results ++ [(takeAll client w f first last).2] }) := by
  cases act with
  | read conn offset len =>
    rw [step]
    cases hf : w.conns[conn]? with
    | none => exact .inl rfl
    | some f =>
      simp only
      split
      next first last hphase hpages => exact .inr ⟨conn, f, hf, .inl ⟨offset, len, first, last, rfl, hpages, rfl⟩⟩
      next => exact .inl rfl
  | put conn got =>
    rw [step]
    cases hf : w.conns[conn]? with
    | none => exact .inl rfl
    | some f =>
      simp only
      split
      next first last missing hphase =>
        split_ifs with hperm
        · exact .inr ⟨conn, f, hf, .inr (.inl ⟨got, first, last, missing, rfl, hphase, hperm, rfl⟩)⟩
        · exact .inl rfl
      next => exact .inl rfl
  | take conn =>
    rw [step]
    cases hf : w.conns[conn]? with
    | none => exact .inl rfl
    | some f =>
      simp only
      split
      next first last hphase => exact .inr ⟨conn, f, hf, .inr (.inr ⟨first, last, rfl, hphase, rfl⟩)⟩
      next => exact .inl rfl

theorem Delivered.mem_iff {missing : List Nat} {got : List (Nat × Bytes)} {i : Nat} (h : Delivered client missing got) :
    i ∈ got.map Prod.fst ↔ i ∈ missing := by
  cases client with
  | desktop => exact List.Perm.mem_iff h
  | browser => exact Eq.to_iff (congrArg (i ∈ ·) h)

/-- What each read needs is in the cache, and all takes so far have found their pages. -/
structure Inv (client : Client) (w : World) : Prop where
  kept : ∀ f ∈ w.conns, ∀ k, f.needs client k → (w.cache.find k).isSome
  taken : ∀ r ∈ w.results, r = true

/-- A step that changes one connection and drops nothing that another needs. -/
theorem Inv.set {cache : PageCache} {f' : Conn} {results : List Bool}
    (hothers : ∀ g ∈ w.conns, ∀ k, g.needs client k → (cache.find k).isSome)
      (hown : ∀ k, f'.needs client k → (cache.find k).isSome)
    (htaken : ∀ r ∈ results, r = true) : Inv client { cache, conns := w.conns.set conn f', results } where
  kept g hg k hk := by
    rcases List.mem_or_eq_of_mem_set hg with hg | rfl
    · exact hothers g hg k hk
    · exact hown k hk
  taken := htaken

/-- A read ends on a page of the catalog. -/
theorem pagesOf_le {format : PageReads.Format} {offset len first last : Nat}
    (h : pagesOf client format offset len = some (first, last)) :
    last ≤ format.lastPage := by
  obtain ⟨stop, hpos, hstop, hlast⟩ : ∃ stop, 0 < stop ∧ stop ≤ format.size ∧ last = (stop - 1) / format.unit := by
    cases client with
    | desktop =>
      rw [pagesOf] at h
      split_ifs at h with hbad hpast
      obtain ⟨-, rfl⟩ := Prod.mk.inj (Option.some.inj h)
      exact ⟨offset + len, by omega, by omega, rfl⟩
    | browser =>
      rw [pagesOf] at h
      split_ifs at h with hbad
      obtain ⟨-, rfl⟩ := Prod.mk.inj (Option.some.inj h)
      exact ⟨min (offset + len) format.size, by omega, by omega, rfl⟩
  rw [hlast]
  cases format with
  | raw size =>
    have hsize : stop ≤ size := hstop
    show (stop - 1) / CHUNK ≤ if size = 0 then 0 else (size - 1) / CHUNK
    rw [if_neg (by omega)]
    exact Nat.div_le_div_right (by omega)
  | zstd pageSize pages =>
    have hsize : stop ≤ pageSize * pages.length := hstop
    show (stop - 1) / pageSize ≤ pages.length - 1
    exact Nat.le_sub_one_of_lt (Nat.div_lt_of_lt_mul (by omega))

/-- The check drops nothing, and finds what it does not ask for. -/
theorem check_spec (client : Client) (w : World) (f : Conn) {first last : Nat} (hle : last ≤ f.format.lastPage) :
    (∀ k, ((check client w f first last).1.find k).isSome ↔ (w.cache.find k).isSome) ∧
      ∀ k, (check client w f first last).2.needs client k → (w.cache.find k).isSome := by
  have hwindow : ∀ i ∈ span first last, i ∈ span first (readAhead (f.run client first) last f.format.lastPage) := by
    intro i hi
    rw [PageWaves.mem_span] at hi ⊢
    rw [readAhead]
    split <;> omega
  have hfound : ∀ k, (∃ i ∈ span first last, i ∉ (span first (readAhead (f.run client first) last f.format.lastPage)).filter
      (fun i => !f.resident client w.cache i) ∧ f.key client i = k) → (w.cache.find k).isSome := by
    rintro k ⟨i, hi, hnot, rfl⟩
    have hres : f.resident client w.cache i = true := by
      by_contra hmiss
      exact hnot (List.mem_filter.2 ⟨hwindow i hi, by simpa using hmiss⟩)
    exact hres
  cases client with
  | desktop =>
    rw [check]
    split_ifs with hall
    · refine ⟨fun k => Iff.rfl, ?_⟩
      rintro k ⟨i, hi, rfl⟩
      exact List.all_eq_true.1 hall i hi
    · exact ⟨fun k => Iff.rfl, hfound⟩
  | browser =>
    rw [check]
    refine ⟨fun k => isSome_touchAll, fun k hk => hfound k ?_⟩
    simp only [Conn.needs] at hk
    split at hk
    next hphase => exact hk.elim
    next hphase =>
      split_ifs at hphase with hnone
      cases hphase
      exact hk
    next hphase =>
      split_ifs at hphase with hnone
      cases hphase
      obtain ⟨i, hi, hkey⟩ := hk
      exact ⟨i, hi, hnone ▸ List.not_mem_nil, hkey⟩

theorem Inv.step (h : Inv client w) {act : Act} (hc : Careful client w act) : Inv client (step client w act) := by
  rcases step_cases client w act with hsame | ⟨conn, f, hf, ⟨offset, len, first, last, rfl, hpages, hstep⟩ |
      ⟨got, first, last, missing, rfl, hphase, hperm, hstep⟩ | ⟨first, last, rfl, hphase, hstep⟩⟩
  · rw [hsame]
    exact h
  · obtain ⟨hsame, hown⟩ := check_spec client w f (pagesOf_le hpages)
    rw [hstep]
    exact .set (fun g hg k hk => (hsame k).2 (h.kept g hg k hk)) (fun k hk => (hsame k).2 (hown k hk)) h.taken
  · have hspares := hc f hf first last missing hphase
    rw [hstep]
    refine .set (fun g hg k hk => ?_) (fun k hk => ?_) h.taken
    · exact isSome_putAll hspares (.inr ⟨g, hg, hk⟩) (.inl (h.kept g hg k hk))
    · obtain ⟨i, hi, hkey⟩ : ∃ i ∈ span first last, f.key client i = k := hk
      refine isSome_putAll hspares (.inl ⟨i, hi, hkey⟩) ?_
      by_cases hmiss : i ∈ missing
      · obtain ⟨page, hpage, rfl⟩ := List.mem_map.1 (hperm.mem_iff.2 hmiss)
        exact .inr ⟨page, hpage, hkey⟩
      · refine .inl (h.kept f (List.mem_of_getElem? hf) k ?_)
        rw [Conn.needs, hphase]
        exact ⟨i, hi, hmiss, hkey⟩
  · have hneeds : ∀ k ∈ (span first last).map (f.key client), (w.cache.find k).isSome := by
      intro k hk
      obtain ⟨i, hi, hkey⟩ := List.mem_map.1 hk
      refine h.kept f (List.mem_of_getElem? hf) k ?_
      rw [Conn.needs, hphase]
      exact ⟨i, hi, hkey⟩
    have hall : (takeAll client w f first last).2 = true := serve_spec.1.2 hneeds
    rw [hstep]
    refine .set (fun g hg k hk => (serve_spec.2 k).2 (h.kept g hg k hk)) (fun k hk => False.elim hk) fun r hr => ?_
    rcases List.mem_append.1 hr with hr | hr
    · exact h.taken r hr
    · rw [List.mem_singleton.1 hr, hall]

/-- A connection to a catalog of `size` bytes. -/
def single (cache : PageCache) (size : Nat) : World := { cache, conns := [{ cid := "cat", format := .raw size }] }

/-- No read is under way yet. -/
def Idle (w : World) : Prop := (∀ f ∈ w.conns, f.phase = .idle) ∧ w.results = []

theorem Idle.inv (h : Idle w) : Inv client w where
  kept f hf k hk := by
    rw [Conn.needs, h.1 f hf] at hk
    exact hk.elim
  taken := by simp [h.2]

end TrackerStream.PageTakes
