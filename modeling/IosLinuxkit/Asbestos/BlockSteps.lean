import IosLinuxkit.Asbestos.BlockInv

/-!
# Every operation of the block cache keeps both invariants

The invalidation loops are `Sweep`s whose victims are told by their page keys
(`sweep_keys`), insertion adds one live block (`Inserts`), and the other operations change
no live block. `cacheOk_run` is the invariant over whole runs.
-/

namespace IosLinuxkit.Fiber

/-! ## The invalidation loops -/

variable {c : Asbestos} {x y : Block} {b : Nat}

theorem sweep_blocks (bs : List Nat) (ht : TableOk c) (hc : ChainOk c)
    (hnodup : bs.Nodup) (hlive : ∀ b ∈ bs, ∃ x, Live c b x) :
    Sweep (· ∈ bs) c (bs.foldl invalidateBlock c) := by
  induction bs generalizing c with
  | nil => exact (sweep_refl ht hc).congr fun b y _ => by simp
  | cons b bs ih =>
    obtain ⟨hb, hbs⟩ := List.nodup_cons.mp hnodup
    obtain ⟨x, hx⟩ := hlive b List.mem_cons_self
    have h1 := sweep_invalidateBlock ht hc hx
    -- the blocks still to come are live: only `b` has gone
    have h2 := ih h1.table h1.chain hbs fun b' hb' => by
      obtain ⟨y, hy⟩ := hlive b' (List.mem_cons_of_mem b hb')
      obtain ⟨y', hy', -⟩ := h1.kept b' y hy (by rintro rfl; exact hb hb')
      exact ⟨y', hy'⟩
    exact (h1.trans h2).congr fun b' y _ => by simp

theorem sweep_bucket (ht : TableOk c) (hc : ChainOk c) (k : Nat) (i : Fin 2) :
    Sweep (fun b => ∃ y, Live c b y ∧ y.pageKey i = some k) c (invalidateBucket k c i) := by
  refine (sweep_blocks (c.pages i k) ht hc (ht.page_nodup i k) fun b hb => ?_).congr
    fun b y _ => ht.page_mem i k b
  obtain ⟨y, hy, -⟩ := (ht.page_mem i k b).mp hb
  exact ⟨y, hy⟩

def Block.hitBy (x : Block) (ks : List Nat) : Prop := ∃ k ∈ ks, ∃ i, x.pageKey i = some k

theorem hitBy_congr {x' : Block} (ha : x'.addr = x.addr) (he : x'.endAddr = x.endAddr)
    (ks : List Nat) : x'.hitBy ks ↔ x.hitBy ks := by
  simp only [Block.hitBy, pageKey_congr ha he]

theorem Live.unique (hx : Live c b x) (hy : Live c b y) : x = y :=
  Option.some.inj (hx.1.symm.trans hy.1)

theorem Sweep.trans_hit {ks ks' : List Nat} {c₁ c₂ c₃ : Asbestos}
    (h₁ : Sweep (fun b => ∃ y, Live c₁ b y ∧ y.hitBy ks) c₁ c₂)
    (h₂ : Sweep (fun b => ∃ y, Live c₂ b y ∧ y.hitBy ks') c₂ c₃) :
    Sweep (fun b => ∃ y, Live c₁ b y ∧ y.hitBy (ks ++ ks')) c₁ c₃ := by
  refine (h₁.trans h₂).congr fun b y hy => ?_
  have happ : ∀ z : Block, z.hitBy (ks ++ ks') ↔ z.hitBy ks ∨ z.hitBy ks' := by
    intro z
    simp only [Block.hitBy, List.mem_append]
    constructor
    · rintro ⟨k, hk | hk, hi⟩
      · exact Or.inl ⟨k, hk, hi⟩
      · exact Or.inr ⟨k, hk, hi⟩
    rintro (⟨k, hk, hi⟩ | ⟨k, hk, hi⟩)
    · exact ⟨k, Or.inl hk, hi⟩
    · exact ⟨k, Or.inr hk, hi⟩
  constructor
  · rintro (⟨z, hz, hhit⟩ | ⟨z, hz, hhit⟩)
    · exact ⟨z, hz, (happ z).mpr (Or.inl hhit)⟩
    · obtain ⟨-, z₁, hz₁, ha, he⟩ := h₁.back b z hz
      exact ⟨z₁, hz₁, (happ z₁).mpr (Or.inr ((hitBy_congr ha he ks').mp hhit))⟩
  rintro ⟨z, hz, hhit⟩
  rcases (happ z).mp hhit with hhit | hhit
  · exact Or.inl ⟨z, hz, hhit⟩
  by_cases hgone : ∃ z, Live c₁ b z ∧ z.hitBy ks
  · exact Or.inl hgone
  · obtain ⟨z₂, hz₂, ha, he⟩ := h₁.kept b z hz hgone
    exact Or.inr ⟨z₂, hz₂, (hitBy_congr ha he ks').mpr hhit⟩

theorem sweep_key (ht : TableOk c) (hc : ChainOk c) (k : Nat) :
    Sweep (fun b => ∃ y, Live c b y ∧ y.hitBy [k]) c (invalidateKey c k) := by
  have h0 := sweep_bucket ht hc k 0
  have h1 := sweep_bucket h0.table h0.chain k 1
  refine (h0.trans h1).congr fun b y hy => ?_
  have hhit : ∀ z : Block, z.hitBy [k] ↔ z.pageKey 0 = some k ∨ z.pageKey 1 = some k := by
    intro z
    simp only [Block.hitBy, List.mem_singleton, exists_eq_left]
    constructor
    · rintro ⟨i, hi⟩
      match i with
      | 0 => exact Or.inl hi
      | 1 => exact Or.inr hi
    rintro (h | h)
    · exact ⟨0, h⟩
    · exact ⟨1, h⟩
  constructor
  · rintro (⟨z, hz, hk⟩ | ⟨z, hz, hk⟩)
    · exact ⟨z, hz, (hhit z).mpr (Or.inl hk)⟩
    · obtain ⟨-, z₁, hz₁, ha, he⟩ := h0.back b z hz
      exact ⟨z₁, hz₁, (hhit z₁).mpr (Or.inr (by rw [← pageKey_congr ha he]; exact hk))⟩
  rintro ⟨z, hz, hh⟩
  rcases (hhit z).mp hh with hk | hk
  · exact Or.inl ⟨z, hz, hk⟩
  by_cases hgone : ∃ z, Live c b z ∧ z.pageKey 0 = some k
  · exact Or.inl hgone
  · obtain ⟨z₂, hz₂, ha, he⟩ := h0.kept b z hz hgone
    exact Or.inr ⟨z₂, hz₂, by rw [pageKey_congr ha he]; exact hk⟩

theorem sweep_keys (ks : List Nat) (ht : TableOk c) (hc : ChainOk c) :
    Sweep (fun b => ∃ y, Live c b y ∧ y.hitBy ks) c (ks.foldl invalidateKey c) := by
  induction ks generalizing c with
  | nil => exact (sweep_refl ht hc).congr fun b y _ => by simp [Block.hitBy]
  | cons k ks ih =>
    have h1 := sweep_key ht hc k
    exact h1.trans_hit (ih h1.table h1.chain)

def rangeKeys (start stop : Nat) : List Nat :=
  (List.range' start (stop - start)).map (· % fiberPageHashSize)

theorem sweep_range (ht : TableOk c) (hc : ChainOk c) (start stop : Nat) :
    Sweep (fun b => ∃ y, Live c b y ∧ y.hitBy (rangeKeys start stop)) c
      (asbestosInvalidateRange c start stop) :=
  sweep_keys _ ht hc

theorem sweep_page (ht : TableOk c) (hc : ChainOk c) (p : Nat) :
    Sweep (fun b => ∃ y, Live c b y ∧ y.hitBy (rangeKeys p (p + 1))) c
      (asbestosInvalidatePage c p) := by
  unfold asbestosInvalidatePage
  split
  · rename_i hempty
    refine (sweep_refl ht hc).congr fun b y hy => iff_of_false not_false ?_
    rintro ⟨z, hz, k, hk, i, hi⟩
    have hmem := (ht.page_mem i k b).mpr ⟨z, hz, hi⟩
    have hkp : k = p % fiberPageHashSize := by
      simp only [rangeKeys, Nat.add_sub_cancel_left, List.range'_one, List.map_cons,
        List.map_nil, List.mem_singleton] at hk
      exact hk
    subst hkp
    match i with
    | 0 => rw [hempty.1] at hmem; cases hmem
    | 1 => rw [hempty.2] at hmem; cases hmem
  · exact sweep_range ht hc p (p + 1)

/-! ## Insertion -/

structure CacheOk (c : Asbestos) : Prop where
  table : TableOk c
  chain : ChainOk c

theorem cacheOk_new : CacheOk asbestosNew := ⟨tableOk_new, chainOk_new⟩

theorem hashKey_eq (hx : Live c b x) (size : Nat) : c.hashKey size b = x.addr % size := by
  rw [Asbestos.hashKey, hx.1]
  rfl

theorem TableOk.chains_nodup (ht : TableOk c) : ((List.range c.hashSize).flatMap c.hash).Nodup := by
  rw [List.nodup_flatMap]
  refine ⟨fun k _ => ht.hash_nodup k, List.nodup_range.imp ?_⟩
  intro k k' hne b hb hb'
  obtain ⟨x, hx, rfl⟩ := (ht.hash_mem k b).mp hb
  obtain ⟨x', hx', rfl⟩ := (ht.hash_mem k' b).mp hb'
  rw [hx.unique hx'] at hne
  exact hne rfl

theorem cacheOk_resizeHash (h : CacheOk c) {size : Nat} (hpos : 0 < size) :
    CacheOk (fiberResizeHash c size) := by
  obtain ⟨ht, hc⟩ := h
  refine ⟨⟨hpos, ht.fresh, fun k b => ?_, ?_, ht.page_mem, ht.page_nodup, ht.unique,
    ht.jetsam_mem⟩, ⟨hc.nodup, hc.mem, hc.slot⟩⟩
  · show b ∈ Ilist.addAll (c.hashKey size) (fun _ => []) _ k ↔ _
    rw [Ilist.mem_addAll, List.mem_flatMap]
    constructor
    · rintro (⟨⟨k', -, hb⟩, rfl⟩ | hnil)
      · obtain ⟨x, hx, -⟩ := (ht.hash_mem k' b).mp hb
        exact ⟨x, hx, hashKey_eq hx size⟩
      · cases hnil
    rintro ⟨x, hx, rfl⟩
    have hx' : Live c b x := hx
    refine Or.inl ⟨⟨x.addr % c.hashSize, ?_, (ht.hash_mem _ b).mpr ⟨x, hx', rfl⟩⟩,
      (hashKey_eq hx' size).symm⟩
    exact List.mem_range.mpr (Nat.mod_lt _ ht.pos)
  · exact Ilist.nodups_addAll (fun _ => List.nodup_nil) ht.chains_nodup (fun _ _ h => by cases h)

theorem fiberLookup_eq_some (ht : TableOk c) {a : Nat} :
    fiberLookup c a = some b ↔ ∃ x, Live c b x ∧ x.addr = a := by
  have hfound : ∀ b', fiberLookup c a = some b' → ∃ x, Live c b' x ∧ x.addr = a := by
    intro b' hb'
    have hmem := List.mem_of_find?_eq_some hb'
    obtain ⟨x, hx, -⟩ := (ht.hash_mem _ b').mp hmem
    have hp := List.find?_some hb'
    rw [hx.1] at hp
    exact ⟨x, hx, by simpa using hp⟩
  refine ⟨hfound b, ?_⟩
  rintro ⟨x, hx, rfl⟩
  cases hl : fiberLookup c x.addr with
  | none =>
    have hno := List.find?_eq_none.mp hl b ((ht.hash_mem _ b).mpr ⟨x, hx, rfl⟩)
    rw [hx.1] at hno
    simp at hno
  | some b' =>
    obtain ⟨y, hy, ha⟩ := hfound b' hl
    rw [ht.unique b' b y x hy hx ha]

theorem fiberLookup_eq_none (ht : TableOk c) {a : Nat} :
    fiberLookup c a = none ↔ ∀ b x, Live c b x → x.addr ≠ a := by
  constructor
  · intro hnone b x hx ha
    rw [(fiberLookup_eq_some ht).mpr ⟨x, hx, ha⟩] at hnone
    cases hnone
  intro hall
  cases hl : fiberLookup c a with
  | none => rfl
  | some b =>
    obtain ⟨x, hx, ha⟩ := (fiberLookup_eq_some ht).mp hl
    exact absurd ha (hall b x hx)

structure Inserts (b : Nat) (x : Block) (c c' : Asbestos) : Prop where
  ok : CacheOk c'
  nextBlock : c'.nextBlock = b + 1
  back : ∀ b' y', Live c' b' y' → (b' = b ∧ y'.addr = x.addr ∧ y'.endAddr = x.endAddr) ∨
    ∃ y, Live c b' y ∧ y'.addr = y.addr ∧ y'.endAddr = y.endAddr
  new : ∃ y', Live c' b y' ∧ y'.addr = x.addr ∧ y'.endAddr = x.endAddr
  kept : ∀ b' y, Live c b' y → ∃ y', Live c' b' y' ∧ y'.addr = y.addr ∧ y'.endAddr = y.endAddr

theorem Inserts.link {c' c'' : Asbestos} (h : Inserts b x c c')
    (hl : Links c' c'') : Inserts b x c c'' where
  ok := ⟨hl.1.tableOk h.ok.table, hl.2 h.ok.chain⟩
  nextBlock := hl.1.nextBlock.trans h.nextBlock
  back := by
    intro b' y'' hy''
    obtain ⟨y', hy', ha, he⟩ := hl.1.symm.live hy''
    rcases h.back b' y' hy' with ⟨hb, ha', he'⟩ | ⟨y, hy, ha', he'⟩
    · exact Or.inl ⟨hb, ha.symm.trans ha', he.symm.trans he'⟩
    · exact Or.inr ⟨y, hy, ha.symm.trans ha', he.symm.trans he'⟩
  new := by
    obtain ⟨y', hy', ha', he'⟩ := h.new
    obtain ⟨y'', hy'', ha, he⟩ := hl.1.live hy'
    exact ⟨y'', hy'', ha.trans ha', he.trans he'⟩
  kept := by
    intro b' y hy
    obtain ⟨y', hy', ha', he'⟩ := h.kept b' y hy
    obtain ⟨y'', hy'', ha, he⟩ := hl.1.live hy'
    exact ⟨y'', hy'', ha.trans ha', he.trans he'⟩

theorem mem_enlist_pages {b' : Nat} {i : Fin 2} {k : Nat} :
    b' ∈ (enlist c b x).pages i k ↔ (x.pageKey i = some k ∧ b' = b) ∨ b' ∈ c.pages i k := by
  simp only [enlist]
  cases hkey : x.pageKey i with
  | none => simp
  | some k' =>
    dsimp only
    rw [Ilist.mem_add]
    simp [eq_comm]

theorem nodups_enlist_pages {i : Fin 2}
    (h : Ilist.Nodups (c.pages i)) (hnot : ∀ k, b ∉ c.pages i k) :
    Ilist.Nodups ((enlist c b x).pages i) := by
  simp only [enlist]
  cases hkey : x.pageKey i with
  | none => exact h
  | some k => exact Ilist.nodups_add h (hnot k)

theorem enlist_spec (h : CacheOk c) (hj : x.isJetsam = false)
    (horig : ∀ i, (x.slots i).jumpIp.isSome = true → (x.slots i).Original)
    (hnew : ∀ b y, Live c b y → y.addr ≠ x.addr) :
    Inserts c.nextBlock x c (enlist c c.nextBlock x) := by
  obtain ⟨ht, hc⟩ := h
  set b := c.nextBlock
  set c' := enlist c b x with hc'
  have hfree : c.blocks b = none := ht.fresh b (Nat.le_refl _)
  have hself : c'.blocks b = some x := by simp [hc', enlist]
  have hne : ∀ b', b' ≠ b → c'.blocks b' = c.blocks b' := fun b' hb' => by
    simp [hc', enlist, hb']
  have hlive : ∀ b' y, Live c' b' y ↔ (b' = b ∧ y = x) ∨ Live c b' y := by
    intro b' y
    by_cases hbb : b' = b
    · subst hbb
      unfold Live
      rw [hself, hfree]
      constructor
      · rintro ⟨hy, -⟩
        exact Or.inl ⟨rfl, (Option.some.inj hy).symm⟩
      rintro (⟨-, rfl⟩ | ⟨hy, -⟩)
      · exact ⟨rfl, hj⟩
      · cases hy
    unfold Live
    rw [hne b' hbb]
    simp [hbb]
  have hnot : ∀ y, ¬ Live c b y := by
    rintro y ⟨hy, -⟩
    rw [hfree] at hy
    cases hy
  have hold : ∀ {b' y}, Live c b' y → Live c' b' y := fun hy => (hlive _ _).mpr (Or.inr hy)
  refine ⟨⟨?_, ?_⟩, rfl, fun b' y' hy' => ?_, ⟨x, (hlive b x).mpr (Or.inl ⟨rfl, rfl⟩), rfl, rfl⟩,
    fun b' y hy => ⟨y, hold hy, rfl, rfl⟩⟩
  · constructor
    · exact ht.pos
    · intro b' hb'
      have hlt : b + 1 ≤ b' := hb'
      rw [hne b' (by omega)]
      exact ht.fresh b' (by omega)
    · intro k b'
      show b' ∈ Ilist.add c.hash (x.addr % c.hashSize) b k ↔ _
      rw [Ilist.mem_add, ht.hash_mem]
      constructor
      · rintro (⟨hk, hbb⟩ | ⟨y, hy, hk⟩)
        · exact ⟨x, (hlive b' x).mpr (Or.inl ⟨hbb, rfl⟩), hk⟩
        · exact ⟨y, hold hy, hk⟩
      rintro ⟨y, hy, hk⟩
      rcases (hlive b' y).mp hy with ⟨hbb, rfl⟩ | hy
      · exact Or.inl ⟨hk, hbb⟩
      · exact Or.inr ⟨y, hy, hk⟩
    · refine Ilist.nodups_add ht.hash_nodup fun hmem => ?_
      obtain ⟨y, hy, -⟩ := (ht.hash_mem _ b).mp hmem
      exact hnot y hy
    · intro i k b'
      rw [mem_enlist_pages, ht.page_mem]
      constructor
      · rintro (⟨hk, hbb⟩ | ⟨y, hy, hk⟩)
        · exact ⟨x, (hlive b' x).mpr (Or.inl ⟨hbb, rfl⟩), hk⟩
        · exact ⟨y, hold hy, hk⟩
      rintro ⟨y, hy, hk⟩
      rcases (hlive b' y).mp hy with ⟨hbb, rfl⟩ | hy
      · exact Or.inl ⟨hk, hbb⟩
      · exact Or.inr ⟨y, hy, hk⟩
    · intro i
      refine nodups_enlist_pages (ht.page_nodup i) fun k hmem => ?_
      obtain ⟨y, hy, -⟩ := (ht.page_mem i k b).mp hmem
      exact hnot y hy
    · intro b₁ b₂ y₁ y₂ hy₁ hy₂ heq
      rcases (hlive b₁ y₁).mp hy₁ with ⟨rfl, rfl⟩ | h₁ <;>
        rcases (hlive b₂ y₂).mp hy₂ with ⟨rfl, rfl⟩ | h₂
      · rfl
      · exact absurd heq.symm (hnew b₂ y₂ h₂)
      · exact absurd heq (hnew b₁ y₁ h₁)
      · exact ht.unique b₁ b₂ y₁ y₂ h₁ h₂ heq
    intro b'
    show b' ∈ c.jetsam ↔ _
    rw [ht.jetsam_mem]
    by_cases hbb : b' = b
    · subst hbb
      rw [hself, hfree]
      simp [hj]
    · rw [hne b' hbb]
  · -- the lists mention only blocks that were live, so not the new one
    refine ⟨hc.nodup, fun i t b' hb' => ?_, fun b' y i hy hsome => ?_⟩
    · obtain ⟨y, z, hy, hz, hrest⟩ := hc.mem i t b' hb'
      exact ⟨y, z, hold hy, hold hz, hrest⟩
    rcases (hlive b' y).mp hy with ⟨rfl, rfl⟩ | hy
    · refine Or.inl ⟨horig i hsome, fun t hmem => ?_⟩
      obtain ⟨z, -, hz, -⟩ := hc.mem i t b hmem
      exact hnot z hz
    · exact hc.slot b' y i hy hsome
  rcases (hlive b' y').mp hy' with ⟨hbb, rfl⟩ | hy
  · exact Or.inl ⟨hbb, rfl, rfl⟩
  · exact Or.inr ⟨y', hy, rfl, rfl⟩

theorem newBlock_original (addr endAddr : Nat) (slots : Fin 2 → Option (BitVec 64)) (i : Fin 2)
    (h : ((newBlock addr endAddr slots).slots i).jumpIp.isSome = true) :
    ((newBlock addr endAddr slots).slots i).Original := by
  simp only [newBlock, Slot.Original] at h ⊢
  cases hs : slots i with
  | none =>
    rw [hs] at h
    cases h
  | some w => simp

theorem grow_live {n : Nat} :
    Live (if c.numBlocks + 1 ≥ c.hashSize * 2 then fiberResizeHash c n else c) b y
      ↔ Live c b y := by
  split <;> rfl

theorem fiberInsert_spec (h : CacheOk c) (jit : Jit) (prechain : Prechain)
    (addr endAddr : Nat) (slots : Fin 2 → Option (BitVec 64))
    (hnew : ∀ b y, Live c b y → y.addr ≠ addr) : Inserts c.nextBlock (newBlock addr endAddr slots) c
      (fiberInsert jit prechain c (newBlock addr endAddr slots)) := by
  unfold fiberInsert
  dsimp only
  set c₀ := if c.numBlocks + 1 ≥ c.hashSize * 2 then fiberResizeHash c (c.hashSize * 2) else c
    with hc₀
  have hok₀ : CacheOk c₀ := by
    rw [hc₀]
    split
    · exact cacheOk_resizeHash h (by have := h.table.pos; omega)
    · exact h
  have hnext : c₀.nextBlock = c.nextBlock := by
    rw [hc₀]
    split <;> rfl
  have hlive : ∀ b y, Live c₀ b y ↔ Live c b y := fun b y => grow_live
  have hins := enlist_spec hok₀ rfl (newBlock_original addr endAddr slots)
    fun b y hy => hnew b y ((hlive b y).mp hy)
  rw [hnext] at hins
  have hins' : Inserts c.nextBlock (newBlock addr endAddr slots) c
      (enlist c₀ c.nextBlock (newBlock addr endAddr slots)) := by
    refine ⟨hins.ok, hins.nextBlock, fun b' y' hy' => ?_, hins.new, fun b' y hy =>
      hins.kept b' y ((hlive b' y).mpr hy)⟩
    rcases hins.back b' y' hy' with hb | ⟨y, hy, hrest⟩
    · exact Or.inl hb
    · exact Or.inr ⟨y, (hlive b' y).mp hy, hrest⟩
  set c₁ := enlist c₀ c.nextBlock (newBlock addr endAddr slots)
  have hout : Links c₁ (if prechain.outgoing = true then
      fiberPrechainOutgoing jit c₁ c.nextBlock else c₁) := by
    split
    · exact links_outgoing jit c₁ _
    · exact Links.refl c₁
  set c₂ := if prechain.outgoing = true then
    fiberPrechainOutgoing jit c₁ c.nextBlock else c₁
  have hin : Links c₂ (if (prechain.outgoing && prechain.incoming) = true then
      fiberPrechainIncoming jit c₂ c.nextBlock else c₂) := by
    split
    · exact links_incoming jit c₂ _
    · exact Links.refl c₂
  exact hins'.link (hout.trans hin)

/-! ## Jetsam, and all steps -/

theorem freeJetsam_live (ht : TableOk c) : Live (fiberFreeJetsam c) b y ↔ Live c b y := by
  unfold Live fiberFreeJetsam
  dsimp only
  by_cases hb : b ∈ c.jetsam
  · rw [if_pos hb]
    obtain ⟨z, hz, hj⟩ := (ht.jetsam_mem b).mp hb
    rw [hz]
    constructor
    · rintro ⟨h, -⟩
      cases h
    rintro ⟨h, hy⟩
    cases h
    rw [hj] at hy
    cases hy
  · rw [if_neg hb]

theorem cacheOk_freeJetsam (h : CacheOk c) : CacheOk (fiberFreeJetsam c) := by
  obtain ⟨ht, hc⟩ := h
  have hlive : ∀ b y, Live (fiberFreeJetsam c) b y ↔ Live c b y :=
    fun b y => freeJetsam_live ht
  refine ⟨⟨ht.pos, fun b hb => ?_, fun k b => ?_, ht.hash_nodup, fun i k b => ?_,
    ht.page_nodup, fun b b' x x' hx hx' => ?_, fun b => ?_⟩,
    ⟨hc.nodup, fun i t b hb => ?_, fun b x i hx hsome => ?_⟩⟩
  · show (if b ∈ c.jetsam then none else c.blocks b) = none
    rw [ht.fresh b hb, ite_self]
  · simp only [hlive]
    exact ht.hash_mem k b
  · simp only [hlive]
    exact ht.page_mem i k b
  · exact ht.unique b b' x x' ((hlive b x).mp hx) ((hlive b' x').mp hx')
  · refine iff_of_false (List.not_mem_nil) ?_
    rintro ⟨x, hx, hj⟩
    have hx' : (if b ∈ c.jetsam then none else c.blocks b) = some x := hx
    split at hx'
    · cases hx'
    · rename_i hb
      exact hb ((ht.jetsam_mem b).mpr ⟨x, hx', hj⟩)
  · obtain ⟨x, y, hx, hy, hrest⟩ := hc.mem i t b hb
    exact ⟨x, y, (hlive b x).mpr hx, (hlive t y).mpr hy, hrest⟩
  · exact hc.slot b x i ((hlive b x).mp hx) hsome

theorem Sweep.cacheOk {g : Nat → Prop} {c' : Asbestos} (h : Sweep g c c') : CacheOk c' :=
  ⟨h.table, h.chain⟩

theorem cacheOk_step (c : Asbestos) (l : Label) (h : CacheOk c) : CacheOk (step c l) := by
  unfold step
  split
  · rename_i addr moves slots prechain _
    unfold enter
    cases hl : fiberLookup c addr.toNat with
    | some b => exact h
    | none =>
      have hnew := (fiberLookup_eq_none h.table).mp hl
      cases compileEnd addr.toNat moves with
      | none => exact h
      | some endAddr => exact (fiberInsert_spec h l.jit prechain _ endAddr slots hnew).ok
  · rename_i last block _
    have hlinks := links_chain l.jit c last block
    exact ⟨hlinks.1.tableOk h.table, hlinks.2 h.chain⟩
  · exact cacheOk_resizeHash h ‹_›
  · exact (sweep_range h.table h.chain _ _).cacheOk
  · exact (sweep_page h.table h.chain _).cacheOk
  · exact (sweep_keys _ h.table h.chain).cacheOk
  · exact cacheOk_freeJetsam h

theorem step_live_back (h : CacheOk c) (l : Label) {y' : Block} (hy' : Live (step c l) b y') :
    (∃ y, Live c b y ∧ y'.addr = y.addr ∧ y'.endAddr = y.endAddr) ∨ c.nextBlock ≤ b := by
  unfold step at hy'
  split at hy'
  · rename_i addr moves slots prechain _
    unfold enter at hy'
    cases hl : fiberLookup c addr.toNat with
    | some _ =>
      rw [hl] at hy'
      exact Or.inl ⟨y', hy', rfl, rfl⟩
    | none =>
      rw [hl] at hy'
      cases hend : compileEnd addr.toNat moves with
      | none =>
        rw [hend] at hy'
        exact Or.inl ⟨y', hy', rfl, rfl⟩
      | some endAddr =>
        rw [hend] at hy'
        have hins := fiberInsert_spec h l.jit prechain addr.toNat endAddr slots
          ((fiberLookup_eq_none h.table).mp hl)
        rcases hins.back b y' hy' with ⟨hb, -⟩ | hold
        · exact Or.inr (Nat.le_of_eq hb.symm)
        · exact Or.inl hold
  · rename_i last block _
    obtain ⟨y, hy, ha, he⟩ := (links_chain l.jit c last block).1.symm.live hy'
    exact Or.inl ⟨y, hy, ha.symm, he.symm⟩
  · exact Or.inl ⟨y', hy', rfl, rfl⟩
  · exact Or.inl ((sweep_range h.table h.chain _ _).back b y' hy').2
  · exact Or.inl ((sweep_page h.table h.chain _).back b y' hy').2
  · exact Or.inl ((sweep_keys _ h.table h.chain).back b y' hy').2
  · exact Or.inl ⟨y', (freeJetsam_live h.table).mp hy', rfl, rfl⟩

theorem step_nextBlock_le (h : CacheOk c) (l : Label) : c.nextBlock ≤ (step c l).nextBlock := by
  unfold step
  split
  · rename_i addr moves slots prechain _
    unfold enter
    cases hl : fiberLookup c addr.toNat with
    | some _ => exact Nat.le_refl _
    | none =>
      cases compileEnd addr.toNat moves with
      | none => exact Nat.le_refl _
      | some endAddr =>
        have hins := fiberInsert_spec h l.jit prechain addr.toNat endAddr slots
          ((fiberLookup_eq_none h.table).mp hl)
        rw [show (fiberInsert l.jit prechain c (newBlock addr.toNat endAddr slots)).nextBlock
          = c.nextBlock + 1 from hins.nextBlock]
        exact Nat.le_succ _
  · rename_i last block _
    exact Nat.le_of_eq (links_chain l.jit c last block).1.nextBlock.symm
  · exact Nat.le_refl _
  · exact Nat.le_of_eq (sweep_range h.table h.chain _ _).nextBlock.symm
  · exact Nat.le_of_eq (sweep_page h.table h.chain _).nextBlock.symm
  · exact Nat.le_of_eq (sweep_keys _ h.table h.chain).nextBlock.symm
  · exact Nat.le_refl _

theorem cacheOk_run (ls : List Label) : CacheOk (run step asbestosNew ls) :=
  run_invariant_all cacheOk_step cacheOk_new

end IosLinuxkit.Fiber
