import IosLinuxkit.Asbestos.BlockSteps

/-!
# The block table refines a map from guest addresses to blocks

The purpose of the hash table and the page lists, said without them: a `Table` is the list
of blocks that were inserted and not invalidated since. Inserting adds one; an invalidation
drops every block whose first or last page falls into the bucket of an invalidated page.

* **`compileEnd_span`** — a compiled block is at most one page long, so it meets no page but
  its first and its last (`page_mem_block`).
* **`blockTable_run`** — what lookups find, over whole runs.
-/

namespace IosLinuxkit.Fiber

/-! ## The abstract table -/

/-- A block that was inserted: its identity and its guest bytes `[addr, endAddr]`. -/
structure Entry where
  id : Nat
  addr : Nat
  endAddr : Nat
  deriving DecidableEq, Repr

structure Table where
  entries : List Entry
  nextId : Nat

def Table.empty : Table := ⟨[], 0⟩

def Table.lookup (s : Table) (a : Nat) : Option Entry := s.entries.find? fun e => e.addr = a

/-- The entry has its first or its last page in bucket `k` of the page hash. -/
def Entry.inBucket (e : Entry) (k : Nat) : Bool :=
  page e.addr % fiberPageHashSize == k || page e.endAddr % fiberPageHashSize == k

/-- Drop the blocks that have a page in one of the buckets. -/
def Table.drop (s : Table) (ks : List Nat) : Table :=
  { s with entries := s.entries.filter fun e => !ks.any e.inBucket }

def Table.step (s : Table) (l : Label) : Table :=
  match l.op with
  | .enter addr moves _ _ =>
    match s.lookup addr.toNat, compileEnd addr.toNat moves with
    | none, some endAddr => ⟨⟨s.nextId, addr.toNat, endAddr⟩ :: s.entries, s.nextId + 1⟩
    | _, _ => s
  | .chain _ _ | .resizeHash _ _ | .freeJetsam => s
  | .invalidateRange start stop => s.drop (rangeKeys start stop)
  | .invalidatePage p => s.drop (rangeKeys p (p + 1))
  | .invalidateAll => { s with entries := [] }

/-! ## Simulation -/

structure Simulates (c : Asbestos) (s : Table) : Prop where
  next : c.nextBlock = s.nextId
  entries : ∀ e, e ∈ s.entries ↔ ∃ x, Live c e.id x ∧ x.addr = e.addr ∧ x.endAddr = e.endAddr

theorem simulates_new : Simulates asbestosNew Table.empty := by
  refine ⟨rfl, fun e => iff_of_false (List.not_mem_nil) ?_⟩
  rintro ⟨x, ⟨hx, -⟩, -⟩
  cases hx

variable {c : Asbestos} {s : Table} {start p : Nat}

theorem Simulates.lookup (h : Simulates c s) (ht : TableOk c)
    (a : Nat) : fiberLookup c a = (s.lookup a).map Entry.id := by
  cases hl : s.lookup a with
  | none =>
    rw [Option.map_none, fiberLookup_eq_none ht]
    intro b x hx ha
    have hmem := (h.entries ⟨b, x.addr, x.endAddr⟩).mpr ⟨x, hx, rfl, rfl⟩
    have hno := List.find?_eq_none.mp hl _ hmem
    exact hno (by simpa using ha)
  | some e =>
    have hmem := List.mem_of_find?_eq_some hl
    have ha : e.addr = a := by simpa using List.find?_some hl
    obtain ⟨x, hx, hxa, -⟩ := (h.entries e).mp hmem
    rw [Option.map_some, fiberLookup_eq_some ht]
    exact ⟨x, hx, hxa.trans ha⟩

theorem Simulates.of_live {c' : Asbestos} (h : Simulates c s) (hnext : c'.nextBlock = c.nextBlock)
    (hback : ∀ b y', Live c' b y' → ∃ y, Live c b y ∧ y'.addr = y.addr ∧ y'.endAddr = y.endAddr)
    (hkept : ∀ b y, Live c b y → ∃ y', Live c' b y' ∧ y'.addr = y.addr ∧
      y'.endAddr = y.endAddr) : Simulates c' s := by
  refine ⟨hnext.trans h.next, fun e => (h.entries e).trans ⟨?_, ?_⟩⟩
  · rintro ⟨x, hx, ha, he⟩
    obtain ⟨y, hy, hya, hye⟩ := hkept e.id x hx
    exact ⟨y, hy, hya.trans ha, hye.trans he⟩
  rintro ⟨x, hx, ha, he⟩
  obtain ⟨y, hy, hya, hye⟩ := hback e.id x hx
  exact ⟨y, hy, hya.symm.trans ha, hye.symm.trans he⟩

theorem hitBy_iff_inBucket (x : Block) (e : Entry) (ha : x.addr = e.addr)
    (he : x.endAddr = e.endAddr) (ks : List Nat) : x.hitBy ks ↔ ks.any e.inBucket = true := by
  simp only [Block.hitBy, List.any_eq_true, Entry.inBucket, Bool.or_eq_true, beq_iff_eq]
  constructor
  · rintro ⟨k, hk, i, hi⟩
    refine ⟨k, hk, ?_⟩
    unfold Block.pageKey at hi
    rw [ha, he] at hi
    split at hi
    · exact Or.inl (Option.some.inj hi)
    split at hi
    · exact Or.inr (Option.some.inj hi)
    · cases hi
  rintro ⟨k, hk, hpage⟩
  refine ⟨k, hk, ?_⟩
  unfold Block.pageKey
  rw [ha, he]
  rcases hpage with hpage | hpage
  · exact ⟨0, by rw [if_pos rfl, hpage]⟩
  by_cases hsame : page e.addr = page e.endAddr
  · exact ⟨0, by rw [if_pos rfl, hsame, hpage]⟩
  · exact ⟨1, by rw [if_neg (by decide), if_pos hsame, hpage]⟩

theorem Simulates.sweep {c' : Asbestos} (h : Simulates c s) {ks : List Nat}
    (hs : Sweep (fun b => ∃ y, Live c b y ∧ y.hitBy ks) c c') : Simulates c' (s.drop ks) := by
  refine ⟨hs.nextBlock.trans h.next, fun e => ?_⟩
  simp only [Table.drop, List.mem_filter, h.entries, Bool.not_eq_true']
  constructor
  · rintro ⟨⟨x, hx, ha, he⟩, hout⟩
    obtain ⟨y, hy, hya, hye⟩ := hs.kept e.id x hx (by
      rintro ⟨z, hz, hhit⟩
      rw [← hx.unique hz, hitBy_iff_inBucket x e ha he, hout] at hhit
      cases hhit)
    exact ⟨y, hy, hya.trans ha, hye.trans he⟩
  rintro ⟨y, hy, ha, he⟩
  obtain ⟨hgone, x, hx, hxa, hxe⟩ := hs.back e.id y hy
  have ha' := hxa.symm.trans ha
  have he' := hxe.symm.trans he
  refine ⟨⟨x, hx, ha', he'⟩, ?_⟩
  by_contra hin
  exact hgone ⟨x, hx, (hitBy_iff_inBucket x e ha' he' ks).mpr (by simpa using hin)⟩

theorem drop_all (s : Table) : s.drop (List.range fiberPageHashSize) = { s with entries := [] } := by
  unfold Table.drop
  rw [List.filter_eq_nil_iff.mpr]
  intro e _
  simp only [Bool.not_eq_true', Bool.not_eq_false, List.any_eq_true]
  refine ⟨page e.addr % fiberPageHashSize, List.mem_range.mpr (Nat.mod_lt _ (by decide)), ?_⟩
  simp [Entry.inBucket]

theorem simulates_step (hok : CacheOk c) (h : Simulates c s)
    (l : Label) : Simulates (step c l) (s.step l) := by
  obtain ⟨ht, hc⟩ := hok
  unfold step Table.step
  cases hop : l.op with
  | enter addr moves slots prechain =>
    have hlook := h.lookup ht addr.toNat
    dsimp only
    unfold enter
    cases hl : s.lookup addr.toNat with
    | some e =>
      rw [hlook, hl]
      exact h
    | none =>
      rw [hlook, hl]
      dsimp only [Option.map_none]
      cases hend : compileEnd addr.toNat moves with
      | none => exact h
      | some endAddr =>
        have hnew := (fiberLookup_eq_none ht).mp (hlook.trans (by rw [hl]; rfl))
        have hins := fiberInsert_spec ⟨ht, hc⟩ l.jit prechain addr.toNat endAddr slots hnew
        refine ⟨by rw [hins.nextBlock, h.next], fun e => ?_⟩
        simp only [List.mem_cons, h.entries, ← h.next]
        constructor
        · rintro (rfl | ⟨x, hx, ha, he⟩)
          · exact hins.new
          · obtain ⟨y, hy, hya, hye⟩ := hins.kept e.id x hx
            exact ⟨y, hy, hya.trans ha, hye.trans he⟩
        rintro ⟨y, hy, ha, he⟩
        rcases hins.back e.id y hy with ⟨hb, hya, hye⟩ | ⟨x, hx, hxa, hxe⟩
        · left
          obtain ⟨id, a, z⟩ := e
          simp only [Entry.mk.injEq]
          exact ⟨hb, ha.symm.trans hya, he.symm.trans hye⟩
        · exact Or.inr ⟨x, hx, hxa.symm.trans ha, hxe.symm.trans he⟩
  | chain last block =>
    have hl := (links_chain l.jit c last block).1
    refine h.of_live hl.nextBlock (fun b y' hy' => ?_) fun b y hy => hl.live hy
    obtain ⟨y, hy, ha, he⟩ := hl.symm.live hy'
    exact ⟨y, hy, ha.symm, he.symm⟩
  | resizeHash size pos => exact ⟨h.next, h.entries⟩
  | invalidateRange start stop => exact h.sweep (sweep_range ht hc start stop)
  | invalidatePage p => exact h.sweep (sweep_page ht hc p)
  | invalidateAll =>
    rw [← drop_all]
    exact h.sweep (sweep_keys _ ht hc)
  | freeJetsam =>
    exact h.of_live rfl (fun b y' hy' => ⟨y', (freeJetsam_live ht).mp hy', rfl, rfl⟩)
      fun b y hy => ⟨y, (freeJetsam_live ht).mpr hy, rfl, rfl⟩

theorem simulates_run (ls : List Label) :
    Simulates (run step asbestosNew ls) (run Table.step Table.empty ls) := by
  have hgen : ∀ (ls : List Label) c s, CacheOk c → Simulates c s →
      Simulates (run step c ls) (run Table.step s ls) := by
    intro ls
    induction ls with
    | nil => exact fun _ _ _ h => h
    | cons l ls ih =>
      exact fun c s hok h => ih _ _ (cacheOk_step c l hok) (simulates_step hok h l)
  exact hgen ls _ _ cacheOk_new simulates_new

/-! ## The extent of a block -/

structure SpanOk (addr endAddr : Nat) : Prop where
  addr_lt : addr < wordMod
  end_lt : endAddr < wordMod
  span : (endAddr + (wordMod - addr)) % wordMod < pageSize

theorem compileLoop_lt (moves : List GenMove) {ip ip' : Nat} (hip : ip < wordMod)
    (h : compileLoop start ip moves = some ip') : ip' < wordMod := by
  induction moves generalizing ip with
  | nil => cases h
  | cons m moves ih =>
    cases m with
    | fault =>
      cases h
      exact hip
    | stop pair =>
      cases h
      exact Nat.mod_lt _ (by decide)
    | next pair =>
      have hlt : (ip + insnBytes pair) % wordMod < wordMod := Nat.mod_lt _ (by decide)
      simp only [compileLoop] at h
      split at h
      · cases h
        exact hlt
      · exact ih hlt h
    | follow target =>
      simp only [compileLoop] at h
      split at h
      · rename_i hguard
        split at h
        · cases h
          exact hguard.1
        · exact ih hguard.1 h
      · cases h

theorem compileEnd_span (hs : start < wordMod) {moves : List GenMove} {e : Nat}
    (h : compileEnd start moves = some e) : SpanOk start e := by
  unfold compileEnd at h
  cases hl : compileLoop start start moves with
  | none =>
    rw [hl] at h
    cases h
  | some ip =>
    have hip := compileLoop_lt moves hs hl
    rw [hl] at h
    dsimp only at h
    split at h
    · rename_i hlen
      cases h
      simp only [wordMod, pageSize] at *
      split
      · exact ⟨hs, hs, by simp only [wordMod, pageSize]; omega⟩
      · exact ⟨hs, by simp only [wordMod]; omega, by simp only [wordMod, pageSize]; omega⟩
    · cases h

theorem page_mem_block {addr endAddr k : Nat} (h : SpanOk addr endAddr)
    (hk : k ≤ (endAddr + (wordMod - addr)) % wordMod) :
    page ((addr + k) % wordMod) = page addr ∨ page ((addr + k) % wordMod) = page endAddr := by
  obtain ⟨ha, he, hspan⟩ := h
  simp only [page, wordMod, pageSize] at *
  omega

/-! ## Whole runs -/

def AllSpans (s : Table) : Prop := ∀ e ∈ s.entries, SpanOk e.addr e.endAddr

theorem allSpans_step (s : Table) (l : Label) (hs : AllSpans s) : AllSpans (s.step l) := by
  intro e he
  unfold Table.step at he
  cases hop : l.op with
  | enter addr moves slots prechain =>
    simp only [hop] at he
    split at he
    · rename_i endAddr _ hend
      rcases List.mem_cons.mp he with rfl | he
      · exact compileEnd_span addr.toNat_lt hend
      · exact hs e he
    · exact hs e he
  | chain _ _ | resizeHash _ _ | freeJetsam =>
    rw [hop] at he
    exact hs e he
  | invalidateRange _ _ | invalidatePage _ =>
    rw [hop] at he
    exact hs e (List.mem_of_mem_filter he)
  | invalidateAll =>
    rw [hop] at he
    cases he

theorem allSpans_run (ls : List Label) : AllSpans (run Table.step Table.empty ls) :=
  run_invariant_all allSpans_step fun e he => by cases he

def Op.invalidates (op : Op) (p : Nat) : Prop :=
  match op with
  | .invalidateRange start stop => start ≤ p ∧ p < stop
  | .invalidatePage q => p = q
  | _ => False

theorem mem_rangeKeys {stop : Nat} (h1 : start ≤ p) (h2 : p < stop) :
    p % fiberPageHashSize ∈ rangeKeys start stop := by
  refine List.mem_map.mpr ⟨p, ?_, rfl⟩
  rw [List.mem_range'_1]
  omega

theorem drop_pages {stop : Nat} {e : Entry} (he : e ∈ (s.drop (rangeKeys start stop)).entries)
    (hp : p = page e.addr ∨ p = page e.endAddr) : ¬ (start ≤ p ∧ p < stop) := by
  rintro ⟨h1, h2⟩
  have hmem := mem_rangeKeys h1 h2
  have hout := (List.mem_filter.mp he).2
  simp only [Bool.not_eq_true', List.any_eq_false] at hout
  have hno := hout _ hmem
  rcases hp with rfl | rfl
  · simp [Entry.inBucket] at hno
  · simp [Entry.inBucket] at hno

theorem invalidates_drop (s : Table) {l : Label} (h : l.op.invalidates p) :
    ∃ start stop, s.step l = s.drop (rangeKeys start stop) ∧ start ≤ p ∧ p < stop := by
  unfold Table.step
  cases hop : l.op with
  | invalidateRange start stop =>
    rw [hop] at h
    exact ⟨start, stop, rfl, h⟩
  | invalidatePage q =>
    rw [hop] at h
    have hpq : p = q := h
    exact ⟨q, q + 1, rfl, by omega, by omega⟩
  | _ =>
    rw [hop] at h
    cases h

/-- **Block table correctness.** In every reachable state `fiber_lookup` returns a block
exactly when one with that start address was inserted and not invalidated since, and then
that block. After an invalidation no lookup returns a block that has a byte on an
invalidated page. -/
theorem blockTable_run (ls : List Label) : (∀ a, fiberLookup (run step asbestosNew ls) a
      = ((run Table.step Table.empty ls).lookup a).map Entry.id) ∧
    ∀ l p a b x k, l.op.invalidates p → fiberLookup (step (run step asbestosNew ls) l) a = some b →
      (step (run step asbestosNew ls) l).blocks b = some x →
      k ≤ (x.endAddr + (wordMod - x.addr)) % wordMod → page ((x.addr + k) % wordMod) ≠ p := by
  refine ⟨(simulates_run ls).lookup (cacheOk_run ls).table, ?_⟩
  intro l p a b x k hinv hlook hx hk
  have happ : ∀ (σ : Type) (f : σ → Label → σ) (s : σ), run f s (ls ++ [l]) = f (run f s ls) l :=
    fun σ f s => run_append f s ls [l]
  have hsim := simulates_run (ls ++ [l])
  have hspan := allSpans_run (ls ++ [l])
  have hok := cacheOk_run (ls ++ [l])
  rw [happ] at hsim hspan hok
  rw [happ] at hsim
  obtain ⟨y, hy, -⟩ := (fiberLookup_eq_some hok.table).mp hlook
  have hxy : y = x := Option.some.inj (hy.1.symm.trans hx)
  subst hxy
  -- the block found is an entry of the table that the invalidation left
  have hmem := (hsim.entries ⟨b, y.addr, y.endAddr⟩).mpr ⟨y, hy, rfl, rfl⟩
  obtain ⟨start, stop, hdrop, hrange⟩ :=
    invalidates_drop (run Table.step Table.empty ls) hinv
  rintro rfl
  refine drop_pages (hdrop ▸ hmem) ?_ hrange
  exact page_mem_block (hspan _ hmem) hk

def crossingRun : List Label :=
  [⟨.enter 0x1ff8 [.next false, .next false, .stop false] (fun _ => none) ⟨false, false⟩, noJit⟩]

example : fiberLookup (run step asbestosNew crossingRun) 0x1ff8 = some 0 ∧
    fiberLookup (step (run step asbestosNew crossingRun) ⟨.invalidatePage 2, noJit⟩) 0x1ff8
      = none := by
  decide +kernel

end IosLinuxkit.Fiber
