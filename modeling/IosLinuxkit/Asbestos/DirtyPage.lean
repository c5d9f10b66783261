import IosLinuxkit.Asbestos.BlockTable

/-!
# Stores into code pages, and the dirty page

One guest thread: its TLB (`emu/tlb.h`, `emu/tlb.c`), the store paths through it, and the
end of the dispatcher's loop body in `cpu_step_to_interrupt`, which invalidates
`tlb->dirty_page`. The block cache is the one of `Block.lean`.

Between two block boundaries the only record of the stores is the single word `dirty_page`.
A store that hits the TLB records its page there; so does every successful miss, reads
included; a write miss also invalidates the page's blocks at once, inside `mem_ptr`. Native
code stores without recording anything.

* **`noStale_run`** — when no lookup returns a stale block.
-/

namespace IosLinuxkit.Fiber

/-! ## The machine -/

/-- `struct tlb_entry`: page numbers instead of page addresses, `none` for
`TLB_PAGE_EMPTY`. The host pointer is left out. -/
structure TlbEntry where
  page : Option Nat
  pageIfWritable : Option Nat
  gen : Nat

def TlbEntry.empty : TlbEntry := { page := none, pageIfWritable := none, gen := 0 }

structure Machine where
  cache : Asbestos
  entries : Nat → TlbEntry
  memChanges : Nat
  /-- `mmu->changes` -/
  changes : Nat
  dirtyPage : Option Nat
  /-- ghost: blocks that had a byte on a page at the time it was stored to -/
  stale : List Nat

def Machine.init : Machine :=
  { cache := asbestosNew, entries := fun _ => TlbEntry.empty, memChanges := 0, changes := 0,
    dirtyPage := none, stale := [] }

def tlbIndex (addr : Nat) : Nat :=
  ((addr / 4096) ^^^ (addr / 33554432)) % 8192

/-- What `mmu_translate` does on a miss: whether it finds the page, whether that page can be
written, how often the mappings change meanwhile, and the pages those changes unmap. -/
structure Translation where
  found : Bool
  writable : Bool
  remaps : Nat
  unmapped : List Nat

/-- The block has a byte on page `p`. -/
def Block.meets (x : Block) (p : Nat) : Bool := page x.addr == p || page x.endAddr == p

/-- The live blocks that have a byte on page `p`. -/
def Machine.blocksOn (m : Machine) (p : Nat) : List Nat :=
  (List.range m.cache.nextBlock).filter fun b =>
    (m.cache.blocks b).any fun x => !x.isJetsam && x.meets p

/-- `tlb_handle_miss`. A write miss goes through `mem_ptr(MEM_WRITE)`, which invalidates the
page. -/
def tlbHandleMiss (m : Machine) (addr : Nat) (write : Bool) (t : Translation) : Machine × Bool :=
  let cache := t.unmapped.foldl asbestosInvalidatePage m.cache
  let cache := if write && t.found then asbestosInvalidatePage cache (page addr) else cache
  let changes := m.changes + t.remaps
  let entries := if changes ≠ m.memChanges then fun _ => TlbEntry.empty else m.entries
  let m := { m with cache := cache, changes := changes, memChanges := changes,
                    entries := entries }
  if t.found then
    let entry : TlbEntry :=
      { page := some (page addr)
        pageIfWritable := if write || t.writable then some (page addr) else none
        gen := changes }
    ({ m with dirtyPage := some (page addr)
              entries := Function.update entries (tlbIndex addr) entry }, true)
  else (m, false)

def readHit (m : Machine) (addr : Nat) : Bool :=
  let e := m.entries (tlbIndex addr)
  e.page == some (page addr) && e.gen == m.changes

def writeHit (m : Machine) (addr : Nat) : Bool :=
  let e := m.entries (tlbIndex addr)
  e.pageIfWritable == some (page addr) && e.gen == m.changes

/-- `__tlb_read_ptr`, and the `read_prep` macro of the gadgets. -/
def tlbReadPtr (m : Machine) (addr : Nat) (t : Translation) : Machine × Bool :=
  if readHit m addr then (m, true) else tlbHandleMiss m addr false t

/-- `__tlb_write_ptr`; the `write_prep` macro of the gadgets does the same, except that it
records the page also when the access faults (`early`). -/
def tlbWritePtr (m : Machine) (addr : Nat) (early : Bool) (t : Translation) : Machine × Bool :=
  if writeHit m addr then ({ m with dirtyPage := some (page addr) }, true)
  else
    tlbHandleMiss (if early then { m with dirtyPage := some (page addr) } else m) addr true t

/-- The bytes reach the page: its live blocks are stale from now on. -/
def Machine.wrote (m : Machine) (p : Nat) : Machine :=
  { m with stale := m.blocksOn p ++ m.stale }

def store (m : Machine) (addr : Nat) (early : Bool) (t : Translation) : Machine :=
  let r := tlbWritePtr m addr early t
  if r.2 then r.1.wrote (page addr) else r.1

/-- The start of the page after that of `addr`: `(PAGE(addr) + 1) << PAGE_BITS`. -/
def nextPage (addr : Nat) : Nat := (page addr + 1) * pageSize % wordMod

/-- `__tlb_write_cross_page`, and `__tlb_zero`: both pages are resolved before either is
written. -/
def storeCross (m : Machine) (addr : Nat) (t₁ t₂ : Translation) : Machine :=
  let r₁ := tlbWritePtr m addr false t₁
  if r₁.2 then
    let r₂ := tlbWritePtr r₁.1 (nextPage addr) false t₂
    if r₂.2 then (r₂.1.wrote (page addr)).wrote (page (nextPage addr)) else r₂.1
  else r₁.1

/-- A store by native code: on a hit nothing is recorded; a miss leaves native code for the
gadget. -/
def storeNative (m : Machine) (addr : Nat) (t : Translation) : Machine :=
  if writeHit m addr then m.wrote (page addr) else store m addr true t

/-- The end of the loop body of `cpu_step_to_interrupt`: invalidate the dirty page, flush
the TLB if mappings changed; `leave` goes on to `tlb_refresh`. -/
def boundary (m : Machine) (leave : Bool) : Machine :=
  let cache := match m.dirtyPage with
    | none => m.cache
    | some p => asbestosInvalidatePage m.cache p
  let m := { m with cache := cache, dirtyPage := none }
  if leave || m.memChanges ≠ m.changes then
    { m with entries := fun _ => TlbEntry.empty, memChanges := m.changes }
  else m

inductive Access where
  | read (addr : UInt64) (t : Translation)
  | store (addr : UInt64) (early : Bool) (t : Translation)
  | storeCross (addr : UInt64) (t₁ t₂ : Translation)
  | storeNative (addr : UInt64) (t : Translation)
  | boundary (leave : Bool)
  /-- an operation on the block cache: entering a block, chaining, `IC IVAU`, another
  thread's invalidation -/
  | cache (l : Label)
  /-- another thread changes the mappings -/
  | remap

def Machine.step (m : Machine) : Access → Machine
  | .read addr t => (tlbReadPtr m addr.toNat t).1
  | .store addr early t => Fiber.store m addr.toNat early t
  | .storeCross addr t₁ t₂ => Fiber.storeCross m addr.toNat t₁ t₂
  | .storeNative addr t => Fiber.storeNative m addr.toNat t
  | .boundary leave => Fiber.boundary m leave
  | .cache l => { m with cache := Fiber.step m.cache l }
  | .remap => { m with changes := m.changes + 1 }

/-! ## Caches that only lose blocks -/

structure Loses (c c' : Asbestos) : Prop where
  ok : CacheOk c'
  next : c'.nextBlock = c.nextBlock
  back : ∀ b y', Live c' b y' → ∃ y, Live c b y ∧ y'.addr = y.addr ∧ y'.endAddr = y.endAddr

variable {c : Asbestos} {x : Block} {p : Nat} {m m' : Machine}

theorem Loses.refl (h : CacheOk c) : Loses c c :=
  ⟨h, rfl, fun _ y' hy' => ⟨y', hy', rfl, rfl⟩⟩

theorem Loses.trans {c₁ c₂ c₃ : Asbestos} (h₁ : Loses c₁ c₂) (h₂ : Loses c₂ c₃) :
    Loses c₁ c₃ := by
  refine ⟨h₂.ok, h₂.next.trans h₁.next, fun b y₃ hy₃ => ?_⟩
  obtain ⟨y₂, hy₂, ha₂, he₂⟩ := h₂.back b y₃ hy₃
  obtain ⟨y₁, hy₁, ha₁, he₁⟩ := h₁.back b y₂ hy₂
  exact ⟨y₁, hy₁, ha₂.trans ha₁, he₂.trans he₁⟩

theorem loses_invalidatePage (h : CacheOk c) (p : Nat) : Loses c (asbestosInvalidatePage c p) := by
  have hs := sweep_page h.table h.chain p
  exact ⟨hs.cacheOk, hs.nextBlock, fun b y' hy' => (hs.back b y' hy').2⟩

theorem loses_invalidatePages (ps : List Nat) (h : CacheOk c) :
    Loses c (ps.foldl asbestosInvalidatePage c) := by
  induction ps generalizing c with
  | nil => exact Loses.refl h
  | cons p ps ih =>
    have h1 := loses_invalidatePage h p
    exact h1.trans (ih h1.ok)

theorem meets_congr {x' : Block} (ha : x'.addr = x.addr) (he : x'.endAddr = x.endAddr)
    (p : Nat) : x'.meets p = x.meets p := by
  rw [Block.meets, Block.meets, ha, he]

theorem hitBy_of_meets (h : x.meets p = true) : x.hitBy (rangeKeys p (p + 1)) := by
  have hkey := mem_rangeKeys (Nat.le_refl p) (Nat.lt_succ_self p)
  rw [hitBy_iff_inBucket x ⟨0, x.addr, x.endAddr⟩ rfl rfl, List.any_eq_true]
  refine ⟨_, hkey, ?_⟩
  simp only [Block.meets, Bool.or_eq_true, beq_iff_eq] at h
  simp only [Entry.inBucket, Bool.or_eq_true, beq_iff_eq]
  rcases h with h | h
  · exact Or.inl (by rw [h])
  · exact Or.inr (by rw [h])

theorem not_meets_invalidatePage (h : CacheOk c) {b : Nat}
    (hx : Live (asbestosInvalidatePage c p) b x) : x.meets p = false := by
  have hs := sweep_page h.table h.chain p
  obtain ⟨hgone, y, hy, ha, he⟩ := hs.back b x hx
  rw [meets_congr ha he]
  by_contra hmeets
  exact hgone ⟨y, hy, hitBy_of_meets (by simpa using hmeets)⟩

/-! ## The condition -/

/-- Every stale block that is still live has a byte on page `q`, so that recording `q` as
the dirty page forgets none of them. -/
def Machine.keeps (m : Machine) (q : Nat) : Prop :=
  ∀ b ∈ m.stale, ∀ x, Live m.cache b x → x.meets q = true

/-- The condition on a step: an access that records a page in `dirty_page` loses no stale
block, a store that crosses into another page leaves no block behind on the first, and a
native store finds its page recorded. -/
def accessOk (m : Machine) : Access → Prop
  | .read addr t => readHit m addr.toNat = true ∨ t.found = false ∨ m.keeps (page addr.toNat)
  | .store addr early t =>
    writeHit m addr.toNat = true ∨ early = true ∨ t.found = true → m.keeps (page addr.toNat)
  | .storeCross addr t₁ t₂ =>
    (writeHit m addr.toNat = true ∨ t₁.found = true) → m.keeps (page addr.toNat) ∧
      ((writeHit m (nextPage addr.toNat) = true ∨ t₂.found = true) →
        m.keeps (page (nextPage addr.toNat)) ∧
        (writeHit m addr.toNat = true → ∀ b x, Live m.cache b x →
          x.meets (page addr.toNat) = true → x.meets (page (nextPage addr.toNat)) = true))
  | .storeNative addr _ =>
    if writeHit m addr.toNat then ∀ b x, Live m.cache b x → x.meets (page addr.toNat) = true →
      ∃ q, m.dirtyPage = some q ∧ x.meets q = true
    else m.keeps (page addr.toNat)
  | .boundary _ | .cache _ | .remap => True

structure MachineOk (m : Machine) : Prop where
  cache : CacheOk m.cache
  old : ∀ b ∈ m.stale, b < m.cache.nextBlock
  seen : m.memChanges ≤ m.changes
  covered : ∀ b ∈ m.stale, ∀ x, Live m.cache b x → ∃ q, m.dirtyPage = some q ∧ x.meets q = true

theorem machineOk_init : MachineOk Machine.init :=
  ⟨cacheOk_new, fun _ hb => (by cases hb), Nat.le_refl 0, fun _ hb => (by cases hb)⟩

theorem Machine.keeps.loses {q : Nat} (h : m.keeps q)
    (hl : Loses m.cache m'.cache) (hs : m'.stale = m.stale) : m'.keeps q := by
  intro b hb x hx
  obtain ⟨y, hy, ha, he⟩ := hl.back b x hx
  rw [meets_congr ha he]
  exact h b (by rw [← hs]; exact hb) y hy

theorem MachineOk.record (h : MachineOk m) {q : Nat} (hkeep : m.keeps q)
    (hl : Loses m.cache m'.cache) (hs : m'.stale = m.stale) (hd : m'.dirtyPage = some q)
    (hseen : m'.memChanges ≤ m'.changes) : MachineOk m' := by
  refine ⟨hl.ok, fun b hb => ?_, hseen, fun b hb x hx => ⟨q, hd, hkeep.loses hl hs b hb x hx⟩⟩
  rw [hl.next]
  exact h.old b (by rw [← hs]; exact hb)

theorem MachineOk.unrecorded (h : MachineOk m)
    (hl : Loses m.cache m'.cache) (hs : m'.stale = m.stale) (hd : m'.dirtyPage = m.dirtyPage)
    (hseen : m'.memChanges ≤ m'.changes) : MachineOk m' := by
  refine ⟨hl.ok, fun b hb => ?_, hseen, fun b hb x hx => ?_⟩
  · rw [hl.next]
    exact h.old b (by rw [← hs]; exact hb)
  obtain ⟨y, hy, ha, he⟩ := hl.back b x hx
  obtain ⟨q, hq, hm⟩ := h.covered b (by rw [← hs]; exact hb) y hy
  exact ⟨q, hd.trans hq, by rw [meets_congr ha he]; exact hm⟩

theorem mem_blocksOn {b : Nat} (h : b ∈ m.blocksOn p) :
    b < m.cache.nextBlock ∧ ∃ x, Live m.cache b x ∧ x.meets p = true := by
  simp only [Machine.blocksOn, List.mem_filter, List.mem_range, Option.any_eq_true,
    Bool.and_eq_true, Bool.not_eq_true'] at h
  obtain ⟨hlt, x, hx, hj, hm⟩ := h
  exact ⟨hlt, x, ⟨hx, hj⟩, hm⟩

theorem MachineOk.wrote (h : MachineOk m) (hcov : ∀ b x, Live m.cache b x → x.meets p = true →
      ∃ q, m.dirtyPage = some q ∧ x.meets q = true) : MachineOk (m.wrote p) := by
  refine ⟨h.cache, fun b hb => ?_, h.seen, fun b hb x hx => ?_⟩
  · rcases List.mem_append.mp hb with hb | hb
    · exact (mem_blocksOn hb).1
    · exact h.old b hb
  rcases List.mem_append.mp hb with hb | hb
  · obtain ⟨-, y, hy, hm⟩ := mem_blocksOn hb
    obtain rfl := hy.unique hx
    exact hcov b y hx hm
  · exact h.covered b hb x hx

/-! ## Steps -/

structure MissSpec (m : Machine) (addr : Nat) (write : Bool) (t : Translation) (m' : Machine) :
    Prop where
  loses : Loses m.cache m'.cache
  stale : m'.stale = m.stale
  dirty : m'.dirtyPage = if t.found then some (page addr) else m.dirtyPage
  clean : write = true → t.found = true → ∀ b x, Live m'.cache b x → x.meets (page addr) = false
  seen : m'.memChanges = m'.changes

theorem tlbHandleMiss_spec (hc : CacheOk m.cache) (addr : Nat) (write : Bool)
    (t : Translation) : MissSpec m addr write t (tlbHandleMiss m addr write t).1 ∧
      (tlbHandleMiss m addr write t).2 = t.found := by
  have h1 := loses_invalidatePages t.unmapped hc
  set c₁ := t.unmapped.foldl asbestosInvalidatePage m.cache
  have h2 : Loses m.cache (if (write && t.found) = true then
      asbestosInvalidatePage c₁ (page addr) else c₁) := by
    split
    · exact h1.trans (loses_invalidatePage h1.ok _)
    · exact h1
  have hclean : write = true → t.found = true → ∀ b x, Live (if (write && t.found) = true then
      asbestosInvalidatePage c₁ (page addr) else c₁) b x → x.meets (page addr) = false := by
    intro hw hf b x hx
    rw [hw, hf, if_pos (show (true && true) = true from rfl)] at hx
    exact not_meets_invalidatePage h1.ok hx
  unfold tlbHandleMiss
  dsimp only
  cases hf : t.found with
  | true =>
    rw [hf] at h2 hclean
    rw [if_pos rfl]
    exact ⟨⟨h2, rfl, by rw [hf, if_pos rfl], fun hw _ => hclean hw rfl, rfl⟩, rfl⟩
  | false =>
    rw [hf] at h2 hclean
    rw [if_neg (show ¬ false = true from by decide)]
    refine ⟨⟨h2, rfl, ?_, fun _ hno => (by rw [hf] at hno; cases hno), rfl⟩, rfl⟩
    rw [hf, if_neg (show ¬ false = true from by decide)]

theorem tlbWritePtr_ok (hc : CacheOk m.cache) (hseen : m.memChanges ≤ m.changes)
    (addr : Nat) (early : Bool) (t : Translation) (hok : (tlbWritePtr m addr early t).2 = true) :
    Loses m.cache (tlbWritePtr m addr early t).1.cache ∧
      (tlbWritePtr m addr early t).1.stale = m.stale ∧
      (tlbWritePtr m addr early t).1.dirtyPage = some (page addr) ∧
      (tlbWritePtr m addr early t).1.memChanges ≤ (tlbWritePtr m addr early t).1.changes ∧
      (writeHit m addr = true ∨ t.found = true) ∧
      ((writeHit m addr = true ∧ (tlbWritePtr m addr early t).1.cache = m.cache) ∨
        ∀ b x, Live (tlbWritePtr m addr early t).1.cache b x → x.meets (page addr) = false) := by
  unfold tlbWritePtr at hok ⊢
  split
  · rename_i hhit
    exact ⟨Loses.refl hc, rfl, rfl, hseen, Or.inl hhit, Or.inl ⟨hhit, rfl⟩⟩
  · rename_i hmiss
    rw [if_neg hmiss] at hok
    -- the early record changes neither the cache nor the ghost
    obtain ⟨m₀, hm₀, hcache, hstale⟩ : ∃ m₀,
        (if early = true then { m with dirtyPage := some (page addr) } else m) = m₀ ∧
          m₀.cache = m.cache ∧ m₀.stale = m.stale := by
      refine ⟨_, rfl, ?_, ?_⟩ <;> split <;> rfl
    rw [hm₀] at hok ⊢
    obtain ⟨hs, hfound⟩ :=
      tlbHandleMiss_spec (m := m₀) (by rw [hcache]; exact hc) addr true t
    have hl := hs.loses
    rw [hcache] at hl
    rw [hfound] at hok
    refine ⟨hl, hs.stale.trans hstale, ?_, Nat.le_of_eq hs.seen, Or.inr hok,
      Or.inr (hs.clean rfl hok)⟩
    rw [hs.dirty, if_pos hok]

theorem tlbWritePtr_fail (h : MachineOk m) (addr : Nat) (early : Bool)
    (t : Translation) (hkeep : early = true → m.keeps (page addr))
    (hfail : (tlbWritePtr m addr early t).2 = false) :
    MachineOk (tlbWritePtr m addr early t).1 := by
  unfold tlbWritePtr at hfail ⊢
  split
  · rename_i hhit
    rw [if_pos hhit] at hfail
    cases hfail
  · rename_i hmiss
    rw [if_neg hmiss] at hfail
    have hm : MachineOk (if early = true then { m with dirtyPage := some (page addr) } else m) := by
      split
      · rename_i he
        exact h.record (hkeep he) (Loses.refl h.cache) rfl rfl h.seen
      · exact h
    obtain ⟨hs, hfound⟩ := tlbHandleMiss_spec hm.cache addr true t
    rw [hfound] at hfail
    exact hm.unrecorded hs.loses hs.stale (by rw [hs.dirty, hfail]; rfl)
      (Nat.le_of_eq hs.seen)

theorem machineOk_read (h : MachineOk m) (addr : Nat) (t : Translation)
    (hok : readHit m addr = true ∨ t.found = false ∨ m.keeps (page addr)) :
    MachineOk (tlbReadPtr m addr t).1 := by
  unfold tlbReadPtr
  split
  · exact h
  · rename_i hmiss
    obtain ⟨hs, -⟩ := tlbHandleMiss_spec h.cache addr false t
    have hgen := Nat.le_of_eq hs.seen
    rcases hok with hhit | hnot | hkeep
    · exact absurd hhit hmiss
    · exact h.unrecorded hs.loses hs.stale (by rw [hs.dirty, hnot]; rfl) hgen
    cases hf : t.found with
    | true => exact h.record hkeep hs.loses hs.stale (by rw [hs.dirty, hf]; rfl) hgen
    | false => exact h.unrecorded hs.loses hs.stale (by rw [hs.dirty, hf]; rfl) hgen

theorem machineOk_store (h : MachineOk m) (addr : Nat) (early : Bool) (t : Translation)
    (hkeep : writeHit m addr = true ∨ early = true ∨ t.found = true → m.keeps (page addr)) :
    MachineOk (store m addr early t) := by
  unfold store
  dsimp only
  cases hr : (tlbWritePtr m addr early t).2 with
  | false =>
    rw [if_neg (show ¬ false = true from by decide)]
    exact tlbWritePtr_fail h addr early t (fun he => hkeep (Or.inr (Or.inl he))) hr
  | true =>
    obtain ⟨hl, hs, hd, hgen, hwhy, -⟩ := tlbWritePtr_ok h.cache h.seen addr early t hr
    have hk : m.keeps (page addr) := by
      rcases hwhy with hhit | hf
      · exact hkeep (Or.inl hhit)
      · exact hkeep (Or.inr (Or.inr hf))
    rw [if_pos rfl]
    exact (h.record hk hl hs hd hgen).wrote fun b x _ hm => ⟨page addr, hd, hm⟩

theorem writeHit_after (hseen : m.memChanges ≤ m.changes) {addr addr₂ : Nat}
    {t : Translation} (hne : page addr₂ ≠ page addr)
    (h : writeHit (tlbWritePtr m addr false t).1 addr₂ = true) : writeHit m addr₂ = true := by
  unfold tlbWritePtr at h
  split at h
  · exact h
  simp only [Bool.false_eq_true, if_false] at h
  unfold tlbHandleMiss at h
  dsimp only at h
  by_cases hflush : m.changes + t.remaps ≠ m.memChanges
  · -- a flushed TLB holds at most the page just translated
    rw [if_pos hflush] at h
    cases hf : t.found with
    | false => simp [hf, writeHit, TlbEntry.empty] at h
    | true =>
      by_cases hidx : tlbIndex addr₂ = tlbIndex addr
      · simp [hf, writeHit, hidx, Ne.symm hne] at h
      · simp [hf, writeHit, hidx, TlbEntry.empty] at h
  · -- nothing was remapped, so that the generation is the old one
    have hzero : t.remaps = 0 := by omega
    rw [if_neg hflush, hzero, Nat.add_zero] at h
    cases hf : t.found with
    | false =>
      rw [hf, if_neg (show ¬ false = true from by decide)] at h
      exact h
    | true =>
      rw [hf, if_pos rfl] at h
      by_cases hidx : tlbIndex addr₂ = tlbIndex addr
      · simp [writeHit, hidx, Ne.symm hne] at h
      · simpa [writeHit, hidx] using h

theorem page_nextPage_ne (addr : Nat) : page (nextPage addr) ≠ page addr := by
  simp only [nextPage, page, pageSize, wordMod]
  omega

theorem machineOk_storeCross (h : MachineOk m) (addr : Nat) (t₁ t₂ : Translation)
    (hok : (writeHit m addr = true ∨ t₁.found = true) → m.keeps (page addr) ∧
      ((writeHit m (nextPage addr) = true ∨ t₂.found = true) → m.keeps (page (nextPage addr)) ∧
        (writeHit m addr = true → ∀ b x, Live m.cache b x → x.meets (page addr) = true →
          x.meets (page (nextPage addr)) = true))) : MachineOk (storeCross m addr t₁ t₂) := by
  unfold storeCross
  dsimp only
  cases hr₁ : (tlbWritePtr m addr false t₁).2 with
  | false =>
    rw [if_neg (show ¬ false = true from by decide)]
    exact tlbWritePtr_fail h addr false t₁ (fun he => by cases he) hr₁
  | true =>
    rw [if_pos rfl]
    obtain ⟨hl₁, hs₁, hd₁, hgen₁, hwhy₁, hhow₁⟩ := tlbWritePtr_ok h.cache h.seen addr false t₁ hr₁
    obtain ⟨hkeep₁, hsecond⟩ := hok hwhy₁
    have h₁ := h.record hkeep₁ hl₁ hs₁ hd₁ hgen₁
    have hback := @writeHit_after m h.seen addr (nextPage addr) t₁ (page_nextPage_ne addr)
    set m₁ := (tlbWritePtr m addr false t₁).1
    cases hr₂ : (tlbWritePtr m₁ (nextPage addr) false t₂).2 with
    | false =>
      rw [if_neg (show ¬ false = true from by decide)]
      exact tlbWritePtr_fail h₁ (nextPage addr) false t₂ (fun he => by cases he) hr₂
    | true =>
      rw [if_pos rfl]
      obtain ⟨hl₂, hs₂, hd₂, hgen₂, hwhy₂, -⟩ :=
        tlbWritePtr_ok h₁.cache h₁.seen (nextPage addr) false t₂ hr₂
      obtain ⟨hkeep₂, hleft⟩ := hsecond (hwhy₂.imp_left hback)
      have h₂ := h₁.record (hkeep₂.loses hl₁ hs₁) hl₂ hs₂ hd₂ hgen₂
      refine MachineOk.wrote (h₂.wrote fun b x hx hmeets => ⟨page (nextPage addr), hd₂, ?_⟩)
        fun b x _ hmeets => ⟨page (nextPage addr), hd₂, hmeets⟩
      -- a block on the first page: only a hit leaves one there
      obtain ⟨y, hy, hya, hye⟩ := hl₂.back b x hx
      rw [meets_congr hya hye] at hmeets ⊢
      rcases hhow₁ with ⟨hhit, hsame⟩ | hclean
      · rw [hsame] at hy
        exact hleft hhit b y hy hmeets
      · exact absurd hmeets (by rw [hclean b y hy]; decide)

theorem machineOk_storeNative (h : MachineOk m) (addr : Nat) (t : Translation)
    (hok : if writeHit m addr then ∀ b x, Live m.cache b x → x.meets (page addr) = true →
        ∃ q, m.dirtyPage = some q ∧ x.meets q = true
      else m.keeps (page addr)) : MachineOk (storeNative m addr t) := by
  unfold storeNative
  split
  · rename_i hhit
    rw [if_pos hhit] at hok
    exact h.wrote hok
  · rename_i hmiss
    rw [if_neg hmiss] at hok
    exact machineOk_store h addr true t fun _ => hok

theorem boundary_clears (h : MachineOk m) (leave : Bool) : MachineOk (boundary m leave) ∧
      ∀ b ∈ (boundary m leave).stale, ∀ x, ¬ Live (boundary m leave).cache b x := by
  obtain ⟨c, hc⟩ : ∃ c, (match m.dirtyPage with
    | none => m.cache
    | some p => asbestosInvalidatePage m.cache p) = c := ⟨_, rfl⟩
  have hlose : Loses m.cache c := by
    subst hc
    split
    · exact Loses.refl h.cache
    · exact loses_invalidatePage h.cache _
  have hgone : ∀ b ∈ m.stale, ∀ x, ¬ Live c b x := by
    intro b hb x hx
    obtain ⟨y, hy, hya, hye⟩ := hlose.back b x hx
    obtain ⟨q, hq, hmeets⟩ := h.covered b hb y hy
    rw [hq] at hc
    dsimp only at hc
    subst hc
    rw [← meets_congr hya hye, not_meets_invalidatePage h.cache hx] at hmeets
    cases hmeets
  have hold : ∀ b ∈ m.stale, b < c.nextBlock := fun b hb => by
    rw [hlose.next]; exact h.old b hb
  unfold boundary
  rw [hc]
  dsimp only
  split
  · exact ⟨⟨hlose.ok, hold, Nat.le_refl _, fun b hb x hx => absurd hx (hgone b hb x)⟩, hgone⟩
  · exact ⟨⟨hlose.ok, hold, h.seen, fun b hb x hx => absurd hx (hgone b hb x)⟩, hgone⟩

theorem machineOk_cache (h : MachineOk m) (l : Label) :
    MachineOk { m with cache := Fiber.step m.cache l } := by
  refine ⟨cacheOk_step m.cache l h.cache, fun b hb => ?_, h.seen, fun b hb x hx => ?_⟩
  · exact Nat.lt_of_lt_of_le (h.old b hb) (step_nextBlock_le h.cache l)
  obtain ⟨y, hy, hya, hye⟩ :=
    (step_live_back h.cache l hx).resolve_right (Nat.not_le_of_gt (h.old b hb))
  obtain ⟨q, hq, hmeets⟩ := h.covered b hb y hy
  exact ⟨q, hq, by rw [meets_congr hya hye]; exact hmeets⟩

theorem machineOk_step (m : Machine) (o : Access) (h : MachineOk m) (hok : accessOk m o) :
    MachineOk (m.step o) := by
  cases o with
  | read addr t => exact machineOk_read h addr.toNat t hok
  | store addr early t => exact machineOk_store h addr.toNat early t hok
  | storeCross addr t₁ t₂ => exact machineOk_storeCross h addr.toNat t₁ t₂ hok
  | storeNative addr t => exact machineOk_storeNative h addr.toNat t hok
  | boundary leave => exact (boundary_clears h leave).1
  | cache l => exact machineOk_cache h l
  | remap =>
    show MachineOk { m with changes := m.changes + 1 }
    exact h.unrecorded (Loses.refl h.cache) rfl rfl (Nat.le_succ_of_le h.seen)

/-! ## Whole runs -/

/-- In every run in which no access overwrites the record of a page with stale blocks on it,
a lookup after a block boundary returns no stale block. -/
theorem noStale_run (ops : List Access) (hok : AllSteps Machine.step accessOk Machine.init ops)
    (leave : Bool) (a b : Nat)
    (hfound : fiberLookup (boundary (run Machine.step Machine.init ops) leave).cache a = some b) :
    b ∉ (boundary (run Machine.step Machine.init ops) leave).stale := by
  have h := run_invariant machineOk_step machineOk_init hok
  obtain ⟨hm, hgone⟩ := boundary_clears h leave
  obtain ⟨x, hx, -⟩ := (fiberLookup_eq_some hm.cache.table).mp hfound
  exact fun hb => hgone b hb x hx

/-- A block without jumps at `addr`, compiled on entry. -/
def enterAt (addr : UInt64) : Access :=
  .cache ⟨.enter addr [.stop false] (fun _ => none) ⟨false, false⟩, noJit⟩

/-- A translation that finds a writable page and changes no mapping. -/
def writablePage : Translation := ⟨true, true, 0, []⟩

/-- Two blocks, and one store to the page of the first. -/
def onePage : List Access :=
  [.read 0x1000 writablePage, enterAt 0x1000, enterAt 0x3000, .store 0x1000 false writablePage]

theorem noStale_onePage : (run Machine.step Machine.init onePage).stale = [0] ∧
      1 ∉ (boundary (run Machine.step Machine.init onePage) false).stale := by
  have hread : accessOk Machine.init (.read 0x1000 writablePage) :=
    Or.inr (Or.inr fun b hb => by cases hb)
  have hstore : accessOk (run Machine.step Machine.init
      [.read 0x1000 writablePage, enterAt 0x1000, enterAt 0x3000])
      (.store 0x1000 false writablePage) := by
    -- nothing was stored before
    intro _ b hb
    rw [show (run Machine.step Machine.init
      [.read 0x1000 writablePage, enterAt 0x1000, enterAt 0x3000]).stale = [] from
        by decide +kernel] at hb
    cases hb
  exact ⟨by decide +kernel,
    noStale_run onePage ⟨hread, trivial, trivial, hstore, trivial⟩ false 0x3000 1
      (by decide +kernel)⟩

/-- Both pages are in the TLB, and a block has been compiled on the first; then one block
stores to both pages. -/
def twoPages : List Access :=
  [enterAt 0x8000, .read 0x1000 writablePage, .read 0x2000 writablePage, .boundary false,
    enterAt 0x1000, .boundary false, .store 0x1000 true writablePage,
    .store 0x2000 true writablePage]

/-- The boundary invalidates the second page only: the lookup returns the stale block. -/
theorem noStale_twoPages : 1 ∈ (boundary (run Machine.step Machine.init twoPages) false).stale ∧
      fiberLookup (boundary (run Machine.step Machine.init twoPages) false).cache 0x1000
        = some 1 := by
  decide +kernel

end IosLinuxkit.Fiber
