import IosLinuxkit.Asbestos.Block

/-!
# The two invariants of the block cache

* **`TableOk`** — hash chains and page lists hold exactly the live blocks, each where its
  addresses put it, and no two live blocks start at the same guest address.
* **`ChainOk`** — every jump slot of a live block is in one of three states (untouched,
  chained, refused), and the `jumps_from` lists hold exactly the slots of the last two.

An operation on links (`setLink`) keeps `SameShape`, which is all `TableOk` needs, and
`chainOk_setLink` reduces `ChainOk` to what the one changed slot looks like.
-/

namespace IosLinuxkit.Fiber

def Live (c : Asbestos) (b : Nat) (x : Block) : Prop :=
  c.blocks b = some x ∧ x.isJetsam = false

structure TableOk (c : Asbestos) : Prop where
  pos : 0 < c.hashSize
  fresh : ∀ b, c.nextBlock ≤ b → c.blocks b = none
  hash_mem : ∀ k b, b ∈ c.hash k ↔ ∃ x, Live c b x ∧ k = x.addr % c.hashSize
  hash_nodup : Ilist.Nodups c.hash
  page_mem : ∀ i k b, b ∈ c.pages i k ↔ ∃ x, Live c b x ∧ x.pageKey i = some k
  page_nodup : ∀ i, Ilist.Nodups (c.pages i)
  unique : ∀ b b' x x', Live c b x → Live c b' x' → x.addr = x'.addr → b = b'
  jetsam_mem : ∀ b, b ∈ c.jetsam ↔ ∃ x, c.blocks b = some x ∧ x.isJetsam = true

def Slot.target (s : Slot) : Option Nat := arm64FakeJumpTarget (.ip s.oldJumpIp)

def Slot.Chained (s : Slot) (t : Nat) : Prop :=
  s.jumpIp = some (.code t) ∧ s.isFake = false

def Slot.Refused (s : Slot) (t : Nat) : Prop :=
  s.jumpIp = some (.ip (s.oldJumpIp ||| refusedBit)) ∧ s.isFake = true ∧ s.alt = some t

def Slot.Original (s : Slot) : Prop :=
  s.jumpIp = some (.ip s.oldJumpIp) ∧ s.isFake = true

structure ChainOk (c : Asbestos) : Prop where
  nodup : ∀ i, Ilist.Nodups (c.jumpsFrom i)
  mem : ∀ i t b, b ∈ c.jumpsFrom i t → ∃ x y, Live c b x ∧ Live c t y ∧
    (x.slots i).linked = true ∧ (x.slots i).target = some y.addr ∧
    ((x.slots i).Chained t ∨ (x.slots i).Refused t)
  slot : ∀ b x i, Live c b x → (x.slots i).jumpIp.isSome = true →
    ((x.slots i).Original ∧ ∀ t, b ∉ c.jumpsFrom i t) ∨ ∃ t, b ∈ c.jumpsFrom i t

variable {c c' c₁ c₂ c₃ : Asbestos} {i : Fin 2} {t b : Nat} {x : Block}

theorem ChainOk.head_unique (h : ChainOk c) {t' : Nat}
    (ht : b ∈ c.jumpsFrom i t) (ht' : b ∈ c.jumpsFrom i t') : t = t' := by
  obtain ⟨x, -, ⟨hx, -⟩, -, -, -, hs⟩ := h.mem i t b ht
  obtain ⟨x', -, ⟨hx', -⟩, -, -, -, hs'⟩ := h.mem i t' b ht'
  rw [hx] at hx'
  cases hx'
  rcases hs with hs | hs <;> rcases hs' with hs' | hs'
  · have := hs.1.symm.trans hs'.1
    simpa using this
  · have := hs.2.symm.trans hs'.2.1
    cases this
  · have := hs.2.1.symm.trans hs'.2
    cases this
  · have := hs.2.2.symm.trans hs'.2.2
    simpa using this

theorem tableOk_new : TableOk asbestosNew where
  pos := by decide
  fresh := fun _ _ => rfl
  hash_mem := by simp [asbestosNew, Live]
  hash_nodup := fun _ => List.nodup_nil
  page_mem := by simp [asbestosNew, Live]
  page_nodup := fun _ _ => List.nodup_nil
  unique := by simp [asbestosNew, Live]
  jetsam_mem := by simp [asbestosNew]

theorem chainOk_new : ChainOk asbestosNew where
  nodup := fun _ _ => List.nodup_nil
  mem := by simp [asbestosNew]
  slot := by simp [asbestosNew, Live]

/-! ## Operations on links keep the tables -/

/-- The same blocks at the same places; slots and `jumps_from` lists may differ. -/
structure SameShape (c c' : Asbestos) : Prop where
  nextBlock : c'.nextBlock = c.nextBlock
  hashSize : c'.hashSize = c.hashSize
  hash : c'.hash = c.hash
  pages : c'.pages = c.pages
  jetsam : c'.jetsam = c.jetsam
  block : ∀ b, (c'.blocks b).map (fun x => (x.addr, x.endAddr, x.isJetsam))
    = (c.blocks b).map (fun x => (x.addr, x.endAddr, x.isJetsam))

theorem SameShape.refl (c : Asbestos) : SameShape c c := ⟨rfl, rfl, rfl, rfl, rfl, fun _ => rfl⟩

theorem SameShape.symm (h : SameShape c c') : SameShape c' c :=
  ⟨h.nextBlock.symm, h.hashSize.symm, h.hash.symm, h.pages.symm, h.jetsam.symm,
    fun b => (h.block b).symm⟩

theorem SameShape.trans (h₁ : SameShape c₁ c₂) (h₂ : SameShape c₂ c₃) : SameShape c₁ c₃ :=
  ⟨h₂.nextBlock.trans h₁.nextBlock, h₂.hashSize.trans h₁.hashSize, h₂.hash.trans h₁.hash,
    h₂.pages.trans h₁.pages, h₂.jetsam.trans h₁.jetsam, fun b => (h₂.block b).trans (h₁.block b)⟩

theorem SameShape.some (h : SameShape c c')
    (hx : c.blocks b = some x) : ∃ x', c'.blocks b = some x' ∧ x'.addr = x.addr ∧
      x'.endAddr = x.endAddr ∧ x'.isJetsam = x.isJetsam := by
  have hb := h.block b
  rw [hx, Option.map_some] at hb
  obtain ⟨x', hx', heq⟩ := Option.map_eq_some_iff.mp hb
  simp only [Prod.mk.injEq] at heq
  exact ⟨x', hx', heq⟩

theorem SameShape.live (h : SameShape c c')
    (hx : Live c b x) : ∃ x', Live c' b x' ∧ x'.addr = x.addr ∧ x'.endAddr = x.endAddr := by
  obtain ⟨x', hx', ha, he, hj⟩ := h.some hx.1
  exact ⟨x', ⟨hx', hj.trans hx.2⟩, ha, he⟩

theorem pageKey_congr {x' : Block} (ha : x'.addr = x.addr) (he : x'.endAddr = x.endAddr)
    (i : Fin 2) : x'.pageKey i = x.pageKey i := by
  rw [Block.pageKey, Block.pageKey, ha, he]

theorem SameShape.tableOk (h : SameShape c c') (hc : TableOk c) : TableOk c' where
  pos := by rw [h.hashSize]; exact hc.pos
  fresh := by
    intro b hb
    rw [h.nextBlock] at hb
    have hmap := h.block b
    rw [hc.fresh b hb] at hmap
    exact Option.map_eq_none_iff.mp hmap
  hash_mem := by
    intro k b
    rw [h.hash, hc.hash_mem, h.hashSize]
    constructor
    · rintro ⟨x, hx, hk⟩
      obtain ⟨x', hx', ha, -⟩ := h.live hx
      exact ⟨x', hx', by rw [ha]; exact hk⟩
    rintro ⟨x, hx, hk⟩
    obtain ⟨x', hx', ha, -⟩ := h.symm.live hx
    exact ⟨x', hx', by rw [ha]; exact hk⟩
  hash_nodup := by rw [h.hash]; exact hc.hash_nodup
  page_mem := by
    intro i k b
    rw [h.pages, hc.page_mem]
    constructor
    · rintro ⟨x, hx, hk⟩
      obtain ⟨x', hx', ha, he⟩ := h.live hx
      exact ⟨x', hx', by rw [pageKey_congr ha he]; exact hk⟩
    rintro ⟨x, hx, hk⟩
    obtain ⟨x', hx', ha, he⟩ := h.symm.live hx
    exact ⟨x', hx', by rw [pageKey_congr ha he]; exact hk⟩
  page_nodup := by rw [h.pages]; exact hc.page_nodup
  unique := by
    intro b b' x x' hx hx' heq
    obtain ⟨y, hy, ha, -⟩ := h.symm.live hx
    obtain ⟨y', hy', ha', -⟩ := h.symm.live hx'
    exact hc.unique b b' y y' hy hy' (by rw [ha, ha', heq])
  jetsam_mem := by
    intro b
    rw [h.jetsam, hc.jetsam_mem]
    constructor
    · rintro ⟨x, hx, hj⟩
      obtain ⟨x', hx', -, -, hj'⟩ := h.some hx
      exact ⟨x', hx', hj'.trans hj⟩
    rintro ⟨x, hx, hj⟩
    obtain ⟨x', hx', -, -, hj'⟩ := h.symm.some hx
    exact ⟨x', hx', hj'.trans hj⟩

section SetLink

variable (c : Asbestos) (b : Nat) (i : Fin 2) (lists : Nat → List Nat) (f : Slot → Slot)

theorem setLink_blocks (b' : Nat) : (c.setLink b i lists f).blocks b' = if b' = b then
      (c.blocks b).map fun x => { x with slots := Function.update x.slots i (f (x.slots i)) }
    else c.blocks b' := by
  unfold Asbestos.setLink Asbestos.modify
  by_cases hb : b' = b
  · subst hb
    simp
  · simp [hb]

theorem setLink_jumpsFrom :
    (c.setLink b i lists f).jumpsFrom = Function.update c.jumpsFrom i lists := rfl

theorem sameShape_setLink : SameShape c (c.setLink b i lists f) := by
  refine ⟨rfl, rfl, rfl, rfl, rfl, fun b' => ?_⟩
  rw [setLink_blocks]
  split
  · rename_i hb
    subst hb
    rw [Option.map_map]
    rfl
  · rfl

end SetLink

theorem chainOk_setLink (hc : ChainOk c)
    (hx : Live c b x) (i : Fin 2) {lists : Nat → List Nat} {f : Slot → Slot}
    (hold : (f (x.slots i)).oldJumpIp = (x.slots i).oldJumpIp) (hnodup : Ilist.Nodups lists)
    (hothers : ∀ b' t, b' ≠ b → (b' ∈ lists t ↔ b' ∈ c.jumpsFrom i t))
    (hmem : ∀ t, b ∈ lists t → ∃ y, Live c t y ∧ (f (x.slots i)).linked = true ∧
      (x.slots i).target = some y.addr ∧ ((f (x.slots i)).Chained t ∨ (f (x.slots i)).Refused t))
    (hslot : (f (x.slots i)).jumpIp.isSome = true →
      ((f (x.slots i)).Original ∧ ∀ t, b ∉ lists t) ∨ ∃ t, b ∈ lists t) :
    ChainOk (c.setLink b i lists f) := by
  set c' := c.setLink b i lists f with hc'
  have hshape : SameShape c c' := sameShape_setLink c b i lists f
  set x' : Block := { x with slots := Function.update x.slots i (f (x.slots i)) } with hx'
  have hself : c'.blocks b = some x' := by
    rw [hc', setLink_blocks, if_pos rfl, hx.1, Option.map_some]
  have hne : ∀ b', b' ≠ b → c'.blocks b' = c.blocks b' := fun b' hb => by
    rw [hc', setLink_blocks, if_neg hb]
  have hjf : ∀ j, c'.jumpsFrom j = if j = i then lists else c.jumpsFrom j := by
    intro j
    rw [hc', setLink_jumpsFrom]
    by_cases hj : j = i
    · subst hj
      simp
    · simp [hj]
  have hslot_i : x'.slots i = f (x.slots i) := by simp [hx']
  have hslot_j : ∀ j, j ≠ i → x'.slots j = x.slots j := fun j hj => by simp [hx', hj]
  refine ⟨fun j => ?_, fun j t b' hb' => ?_, fun b' z j hz hsome => ?_⟩
  · rw [hjf]
    split
    · exact hnodup
    · exact hc.nodup j
  · rw [hjf] at hb'
    split at hb'
    · rename_i hj
      subst hj
      by_cases hbb : b' = b
      · -- the changed slot itself
        subst hbb
        obtain ⟨y, hy, hl, htgt, hst⟩ := hmem t hb'
        obtain ⟨y', hy', ha, -⟩ := hshape.live hy
        refine ⟨x', y', ⟨hself, hx.2⟩, hy', ?_, ?_, ?_⟩
        · rw [hslot_i]; exact hl
        · rw [hslot_i, ha, ← htgt, Slot.target, Slot.target, hold]
        · rw [hslot_i]; exact hst
      obtain ⟨z, y, hz, hy, hrest⟩ := hc.mem j t b' ((hothers b' t hbb).mp hb')
      obtain ⟨y', hy', ha, -⟩ := hshape.live hy
      exact ⟨z, y', ⟨by rw [hne b' hbb]; exact hz.1, hz.2⟩, hy', by rw [ha]; exact hrest⟩
    · rename_i hj
      obtain ⟨z, y, hz, hy, hrest⟩ := hc.mem j t b' hb'
      obtain ⟨y', hy', ha, -⟩ := hshape.live hy
      by_cases hbb : b' = b
      · subst hbb
        have hzx : z = x := Option.some.inj (hz.1.symm.trans hx.1)
        subst hzx
        exact ⟨x', y', ⟨hself, hx.2⟩, hy', by rw [hslot_j j hj, ha]; exact hrest⟩
      · exact ⟨z, y', ⟨by rw [hne b' hbb]; exact hz.1, hz.2⟩, hy', by rw [ha]; exact hrest⟩
  by_cases hbb : b' = b
  · subst hbb
    have hzx : z = x' := Option.some.inj (hz.1.symm.trans hself)
    subst hzx
    rw [hjf]
    by_cases hj : j = i
    · subst hj
      rw [hslot_i] at hsome ⊢
      rw [if_pos rfl]
      exact hslot hsome
    rw [hslot_j j hj] at hsome ⊢
    rw [if_neg hj]
    exact hc.slot b' x j hx hsome
  have hold' := hc.slot b' z j ⟨by rw [← hne b' hbb]; exact hz.1, hz.2⟩ hsome
  rw [hjf]
  by_cases hj : j = i
  · subst hj
    rw [if_pos rfl]
    simpa only [hothers b' _ hbb] using hold'
  · rw [if_neg hj]
    exact hold'

/-! ## Chaining -/

theorem fakeFor_target {s : Slot} {a : Nat} (h : s.fakeFor a = true) :
    s.isFake = true ∧ ∃ w, s.jumpIp = some (.ip w) ∧ arm64FakeJumpTarget (.ip w) = some a := by
  simp only [Slot.fakeFor, Bool.and_eq_true, beq_iff_eq] at h
  obtain ⟨hfake, hbind⟩ := h
  obtain ⟨w, hw, ht⟩ := Option.bind_eq_some_iff.mp hbind
  cases w with
  | ip w => exact ⟨hfake, w, hw, ht⟩
  | code b => cases ht

theorem fakeTarget_refused (w : BitVec 64) :
    arm64FakeJumpTarget (.ip (w ||| refusedBit)) = arm64FakeJumpTarget (.ip w) := by
  have htag : (w ||| refusedBit).getLsbD 63 = w.getLsbD 63 := by
    rw [BitVec.getLsbD_or, show refusedBit.getLsbD 63 = false from by decide, Bool.or_false]
  have hmask : (w ||| refusedBit) &&& 0x0000ffffffffffff#64 = w &&& 0x0000ffffffffffff#64 := by
    rw [BitVec.and_or_distrib_right,
      show refusedBit &&& 0x0000ffffffffffff#64 = 0#64 from by decide, BitVec.or_zero]
  simp only [arm64FakeJumpTarget, htag, hmask]

theorem ChainOk.fake_target (hc : ChainOk c)
    (hx : Live c b x) {a : Nat} (h : (x.slots i).fakeFor a = true) :
    (x.slots i).target = some a ∧ ((x.slots i).jumpIp = some (.ip (x.slots i).oldJumpIp) ∨
      (x.slots i).jumpIp = some (.ip ((x.slots i).oldJumpIp ||| refusedBit))) := by
  obtain ⟨hfake, w, hw, ht⟩ := fakeFor_target h
  have hcases : w = (x.slots i).oldJumpIp ∨ w = (x.slots i).oldJumpIp ||| refusedBit := by
    rcases hc.slot b x i hx (by rw [hw]; rfl) with ⟨horig, -⟩ | ⟨t, hmem⟩
    · left
      simpa using hw.symm.trans horig.1
    obtain ⟨x', -, hx', -, -, -, hst⟩ := hc.mem i t b hmem
    have hxx : x' = x := Option.some.inj (hx'.1.symm.trans hx.1)
    subst hxx
    rcases hst with hch | href
    · rw [hch.2] at hfake
      cases hfake
    · right
      simpa using hw.symm.trans href.1
  rcases hcases with rfl | rfl
  · exact ⟨ht, Or.inl hw⟩
  · rw [fakeTarget_refused] at ht
    exact ⟨ht, Or.inr hw⟩

theorem mem_movedLists (hc : ChainOk c) {source : Nat}
    {target : Nat} : b ∈ movedLists c source i target t ↔
      (t = target ∧ b = source) ∨ (b ≠ source ∧ b ∈ c.jumpsFrom i t) := by
  rw [movedLists, Ilist.mem_add, Ilist.mem_remove (hc.nodup i)]

theorem nodups_movedLists (hc : ChainOk c) (source : Nat) (i : Fin 2)
    (target : Nat) : Ilist.Nodups (movedLists c source i target) := by
  refine Ilist.nodups_add (Ilist.nodups_remove (hc.nodup i) source) ?_
  rw [Ilist.mem_remove (hc.nodup i)]
  exact fun h => h.1 rfl

theorem chainOk_linkSlot (hc : ChainOk c) (jit : Jit) {source target : Nat}
    {y : Block} (hx : Live c source x) (hy : Live c target y)
    (hfake : (x.slots i).fakeFor y.addr = true) : ChainOk (linkSlot jit c source i target) := by
  obtain ⟨htgt, hip⟩ := hc.fake_target hx hfake
  have hothers : ∀ b t, b ≠ source →
      (b ∈ movedLists c source i target t ↔ b ∈ c.jumpsFrom i t) := by
    intro b t hb
    rw [mem_movedLists hc]
    simp [hb]
  have hself : ∀ t, source ∈ movedLists c source i target t → t = target := by
    intro t ht
    rw [mem_movedLists hc] at ht
    rcases ht with ⟨ht, -⟩ | ⟨hne, -⟩
    · exact ht
    · exact absurd rfl hne
  have hon : source ∈ movedLists c source i target target :=
    (mem_movedLists hc).mpr (Or.inl ⟨rfl, rfl⟩)
  unfold linkSlot
  split
  · refine chainOk_setLink hc hx i rfl (nodups_movedLists hc source i target) hothers ?_
      (fun _ => Or.inr ⟨target, hon⟩)
    intro t ht
    obtain rfl := hself t ht
    exact ⟨y, hy, rfl, htgt, Or.inl ⟨rfl, rfl⟩⟩
  split
  · refine chainOk_setLink hc hx i rfl (nodups_movedLists hc source i target) hothers ?_
      (fun _ => Or.inr ⟨target, hon⟩)
    intro t ht
    obtain rfl := hself t ht
    refine ⟨y, hy, rfl, htgt, Or.inr ⟨?_, (fakeFor_target hfake).1, rfl⟩⟩
    rcases hip with hip | hip
    · simp [Slot.refuse, hip, Word.refuse]
    · -- a second refusal of the same slot
      simp [Slot.refuse, hip, Word.refuse, BitVec.or_assoc]
  · exact hc

theorem sameShape_linkSlot (jit : Jit) (c : Asbestos) (source : Nat) (i : Fin 2)
    (target : Nat) : SameShape c (linkSlot jit c source i target) := by
  unfold linkSlot
  split
  · exact sameShape_setLink _ _ _ _ _
  split
  · exact sameShape_setLink _ _ _ _ _
  · exact SameShape.refl c

def Links (c c' : Asbestos) : Prop := SameShape c c' ∧ (ChainOk c → ChainOk c')

theorem Links.refl (c : Asbestos) : Links c c := ⟨SameShape.refl c, id⟩

theorem Links.trans (h₁ : Links c₁ c₂) (h₂ : Links c₂ c₃) : Links c₁ c₃ :=
  ⟨h₁.1.trans h₂.1, fun h => h₂.2 (h₁.2 h)⟩

theorem Links.foldl {α : Type} {f : Asbestos → α → Asbestos} (hf : ∀ c a, Links c (f c a))
    (as : List α) (c : Asbestos) : Links c (as.foldl f c) := by
  induction as generalizing c with
  | nil => exact Links.refl c
  | cons a as ih => exact (hf c a).trans (ih (f c a))

theorem links_patchSlot (jit : Jit) (c : Asbestos) (source : Nat) (i : Fin 2) (target : Nat) :
    Links c (fiberPrechainPatchSlot jit c source i target) := by
  unfold fiberPrechainPatchSlot
  split
  · rename_i x y hx hy
    split
    · rename_i hcond
      simp only [Bool.and_eq_true, Bool.not_eq_true'] at hcond
      obtain ⟨⟨⟨hjx, hjy⟩, hfake⟩, -⟩ := hcond
      exact ⟨sameShape_linkSlot _ _ _ _ _,
        fun hc => chainOk_linkSlot hc jit ⟨hx, hjx⟩ ⟨hy, hjy⟩ hfake⟩
    · exact Links.refl c
  · exact Links.refl c

theorem links_outgoingSlot (jit : Jit) (b : Nat) (c : Asbestos) (i : Fin 2) :
    Links c (prechainOutgoingSlot jit b c i) := by
  unfold prechainOutgoingSlot
  split
  · exact Links.refl c
  split
  · exact Links.refl c
  split
  · exact Links.refl c
  split
  · exact Links.refl c
  · exact links_patchSlot _ _ _ _ _

theorem links_outgoing (jit : Jit) (c : Asbestos) (b : Nat) :
    Links c (fiberPrechainOutgoing jit c b) :=
  (links_outgoingSlot jit b c 0).trans (links_outgoingSlot jit b _ 1)

theorem links_incoming (jit : Jit) (c : Asbestos) (b : Nat) :
    Links c (fiberPrechainIncoming jit c b) := by
  unfold fiberPrechainIncoming
  split
  · exact Links.refl c
  · refine Links.foldl (fun c source => ?_) _ c
    exact (links_patchSlot jit c source 0 b).trans (links_patchSlot jit _ source 1 b)

theorem links_chainStep (jit : Jit) {last block : Nat} {y : Block}
    (hx : Live c last x) (hy : Live c block y) (i : Fin 2) :
    Links c (chainStep jit last block c i) := by
  unfold chainStep
  rw [hx.1, hy.1]
  dsimp only
  split
  · rename_i hfake
    exact ⟨sameShape_linkSlot _ _ _ _ _, fun hc => chainOk_linkSlot hc jit hx hy hfake⟩
  · exact Links.refl c

theorem links_chain (jit : Jit) (c : Asbestos) (last block : Nat) :
    Links c (chain jit c last block) := by
  unfold chain
  split
  · rename_i x y hx hy
    split
    · rename_i hcond
      simp only [Bool.and_eq_true, Bool.not_eq_true'] at hcond
      have h0 := links_chainStep jit ⟨hx, hcond.1.1⟩ ⟨hy, hcond.1.2⟩ 0
      obtain ⟨x', hx', -⟩ := h0.1.live ⟨hx, hcond.1.1⟩
      obtain ⟨y', hy', -⟩ := h0.1.live ⟨hy, hcond.1.2⟩
      exact h0.trans (links_chainStep jit hx' hy' 1)
    · exact Links.refl c
  · exact Links.refl c

/-! ## Disconnection -/

theorem restore_old (s : Slot) : s.restore.oldJumpIp = s.oldJumpIp := by
  unfold Slot.restore
  split <;> rfl

theorem restore_original {s : Slot} (h : s.restore.jumpIp.isSome = true) :
    s.restore.Original := by
  unfold Slot.restore at h ⊢
  split
  · exact ⟨rfl, rfl⟩
  · rename_i hnone
    rw [if_neg hnone] at h
    exact absurd h hnone

theorem mem_unlinkSlot (hc : ChainOk c) {j : Fin 2} {b' : Nat} :
    b' ∈ (unlinkSlot i c b).jumpsFrom j t ↔ b' ∈ c.jumpsFrom j t ∧ (j = i → b' ≠ b) := by
  rw [unlinkSlot, setLink_jumpsFrom]
  by_cases hj : j = i
  · subst hj
    rw [Function.update_self, Ilist.mem_remove (hc.nodup j)]
    simp [and_comm]
  · rw [Function.update_of_ne hj]
    simp [hj]

theorem chainOk_unlinkSlot (hc : ChainOk c) (i : Fin 2)
    (hx : Live c b x) : ChainOk (unlinkSlot i c b) := by
  have hno : ∀ t, b ∉ Ilist.remove (c.jumpsFrom i) b t := by
    intro t ht
    rw [Ilist.mem_remove (hc.nodup i)] at ht
    exact ht.1 rfl
  refine chainOk_setLink hc hx i (restore_old _) (Ilist.nodups_remove (hc.nodup i) b) ?_ ?_ ?_
  · intro b' t hb
    rw [Ilist.mem_remove (hc.nodup i)]
    simp [hb]
  · exact fun t ht => absurd ht (hno t)
  · exact fun hsome => Or.inl ⟨restore_original hsome, hno⟩

theorem unlinkAll_spec (i : Fin 2) (ps : List Nat) (hc : ChainOk c)
    (hlive : ∀ p ∈ ps, ∃ x, Live c p x) :
    ChainOk (ps.foldl (unlinkSlot i) c) ∧ SameShape c (ps.foldl (unlinkSlot i) c) ∧
      ∀ j t b, b ∈ (ps.foldl (unlinkSlot i) c).jumpsFrom j t ↔
        b ∈ c.jumpsFrom j t ∧ (j = i → b ∉ ps) := by
  induction ps generalizing c with
  | nil => exact ⟨hc, SameShape.refl c, fun j t b => by simp⟩
  | cons p ps ih =>
    obtain ⟨x, hx⟩ := hlive p List.mem_cons_self
    have hshape : SameShape c (unlinkSlot i c p) := sameShape_setLink _ _ _ _ _
    obtain ⟨h1, h2, h3⟩ := ih (chainOk_unlinkSlot hc i hx) fun q hq => by
      obtain ⟨y, hy⟩ := hlive q (List.mem_cons_of_mem p hq)
      obtain ⟨y', hy', -⟩ := hshape.live hy
      exact ⟨y', hy'⟩
    refine ⟨h1, hshape.trans h2, fun j t b => ?_⟩
    rw [List.foldl_cons, h3, mem_unlinkSlot hc, List.mem_cons, not_or]
    tauto

structure RoundSpec (c : Asbestos) (b : Nat) (i : Fin 2) (c' : Asbestos) : Prop where
  shape : SameShape { c with pages := Function.update c.pages i (Ilist.remove (c.pages i) b) } c'
  chain : ChainOk c'
  out : ∀ t, b ∉ c'.jumpsFrom i t
  into : ∀ b', b' ∉ c'.jumpsFrom i b
  frame : ∀ j t b', j ≠ i → (b' ∈ c'.jumpsFrom j t ↔ b' ∈ c.jumpsFrom j t)

theorem disconnectSlot_spec (hc : ChainOk c)
    (hx : Live c b x) (i : Fin 2) : RoundSpec c b i (disconnectSlot b c i) := by
  unfold disconnectSlot
  dsimp only
  set c₁ : Asbestos :=
    { c with pages := Function.update c.pages i (Ilist.remove (c.pages i) b) } with hc₁
  have hch₁ : ChainOk c₁ := ⟨hc.nodup, hc.mem, hc.slot⟩
  have hx₁ : Live c₁ b x := hx
  -- the block's own slot
  obtain ⟨c₂, hc₂, hch₂, hsh₂, hmem₂⟩ : ∃ c₂, c₂ = (if ((c₁.blocks b).any fun x =>
      (x.slots i).linked) = true then unlinkSlot i c₁ b else c₁) ∧ ChainOk c₂ ∧
      SameShape c₁ c₂ ∧ ∀ j t b', b' ∈ c₂.jumpsFrom j t ↔
        b' ∈ c₁.jumpsFrom j t ∧ (j = i → b' ≠ b) := by
    refine ⟨_, rfl, ?_⟩
    split
    · exact ⟨chainOk_unlinkSlot hch₁ i hx₁, sameShape_setLink _ _ _ _ _,
        fun j t b' => mem_unlinkSlot hch₁⟩
    · rename_i hnot
      refine ⟨hch₁, SameShape.refl _, fun j t b' => ⟨fun h => ⟨h, ?_⟩, fun h => h.1⟩⟩
      rintro rfl rfl
      -- a slot on a list has a node that is not null
      obtain ⟨y, -, hy, -, hl, -⟩ := hch₁.mem j t b' h
      rw [hy.1] at hnot
      exact hnot hl
  rw [← hc₂]
  have hlive : ∀ p ∈ c₂.jumpsFrom i b, ∃ y, Live c₂ p y := by
    intro p hp
    obtain ⟨y, -, hy, -⟩ := hch₂.mem i b p hp
    exact ⟨y, hy⟩
  obtain ⟨hch₃, hsh₃, hmem₃⟩ := unlinkAll_spec i (c₂.jumpsFrom i b) hch₂ hlive
  refine ⟨hsh₂.trans hsh₃, hch₃, fun t ht => ?_, fun b' hb' => ?_, fun j t b' hj => ?_⟩
  · rw [hmem₃, hmem₂] at ht
    exact ht.1.2 rfl rfl
  · rw [hmem₃] at hb'
    exact hb'.2 rfl hb'.1
  · rw [hmem₃, hmem₂]
    simp [hj, hc₁]

theorem disconnect_spec (hc : ChainOk c) (hx : Live c b x) :
    SameShape { c with hash := Ilist.remove c.hash b,
                       pages := fun i => Ilist.remove (c.pages i) b }
      (fiberBlockDisconnect c b) ∧ ChainOk (fiberBlockDisconnect c b) ∧
      (∀ i t, b ∉ (fiberBlockDisconnect c b).jumpsFrom i t) ∧
      ∀ i b', b' ∉ (fiberBlockDisconnect c b).jumpsFrom i b := by
  unfold fiberBlockDisconnect
  set c₀ : Asbestos :=
    { c with numBlocks := c.numBlocks - 1, hash := Ilist.remove c.hash b } with hc₀
  have hch₀ : ChainOk c₀ := ⟨hc.nodup, hc.mem, hc.slot⟩
  have hx₀ : Live c₀ b x := hx
  have h0 := disconnectSlot_spec hch₀ hx₀ 0
  set c₁ := disconnectSlot b c₀ 0
  obtain ⟨x₁, hx₁, -, -, hj₁⟩ := h0.shape.some (show _ = some x from hx₀.1)
  have h1 := disconnectSlot_spec h0.chain ⟨hx₁, hj₁.trans hx.2⟩ 1
  set c₂ := disconnectSlot b c₁ 1
  have hpages : c₂.pages = fun i => Ilist.remove (c.pages i) b := by
    rw [h1.shape.pages]
    funext i
    dsimp only
    rw [h0.shape.pages]
    match i with
    | 0 => rfl
    | 1 => rfl
  refine ⟨⟨?_, ?_, ?_, hpages, ?_, fun b' => ?_⟩, h1.chain, fun i t => ?_, fun i b' => ?_⟩
  · rw [h1.shape.nextBlock]
    exact h0.shape.nextBlock
  · rw [h1.shape.hashSize]
    exact h0.shape.hashSize
  · rw [h1.shape.hash]
    exact h0.shape.hash
  · rw [h1.shape.jetsam]
    exact h0.shape.jetsam
  · rw [h1.shape.block]
    exact h0.shape.block b'
  · match i with
    | 0 => exact fun h => h0.out t ((h1.frame 0 t b (by decide)).mp h)
    | 1 => exact h1.out t
  · match i with
    | 0 => exact fun h => h0.into b' ((h1.frame 0 b b' (by decide)).mp h)
    | 1 => exact h1.into b'

structure Sweep (gone : Nat → Prop) (c c' : Asbestos) : Prop where
  table : TableOk c'
  chain : ChainOk c'
  nextBlock : c'.nextBlock = c.nextBlock
  back : ∀ b y', Live c' b y' → ¬ gone b ∧
    ∃ y, Live c b y ∧ y'.addr = y.addr ∧ y'.endAddr = y.endAddr
  kept : ∀ b y, Live c b y → ¬ gone b →
    ∃ y', Live c' b y' ∧ y'.addr = y.addr ∧ y'.endAddr = y.endAddr

theorem sweep_refl (ht : TableOk c) (hc : ChainOk c) : Sweep (fun _ => False) c c :=
  ⟨ht, hc, rfl, fun _ y' h => ⟨not_false, y', h, rfl, rfl⟩, fun _ y h _ => ⟨y, h, rfl, rfl⟩⟩

theorem Sweep.trans {g₁ g₂ : Nat → Prop} (h₁ : Sweep g₁ c₁ c₂)
    (h₂ : Sweep g₂ c₂ c₃) : Sweep (fun b => g₁ b ∨ g₂ b) c₁ c₃ where
  table := h₂.table
  chain := h₂.chain
  nextBlock := h₂.nextBlock.trans h₁.nextBlock
  back := by
    intro b y₃ hy₃
    obtain ⟨hg₂, y₂, hy₂, ha₂, he₂⟩ := h₂.back b y₃ hy₃
    obtain ⟨hg₁, y₁, hy₁, ha₁, he₁⟩ := h₁.back b y₂ hy₂
    exact ⟨not_or.mpr ⟨hg₁, hg₂⟩, y₁, hy₁, ha₂.trans ha₁, he₂.trans he₁⟩
  kept := by
    intro b y₁ hy₁ hg
    obtain ⟨hg₁, hg₂⟩ := not_or.mp hg
    obtain ⟨y₂, hy₂, ha₂, he₂⟩ := h₁.kept b y₁ hy₁ hg₁
    obtain ⟨y₃, hy₃, ha₃, he₃⟩ := h₂.kept b y₂ hy₂ hg₂
    exact ⟨y₃, hy₃, ha₃.trans ha₂, he₃.trans he₂⟩

theorem Sweep.congr {g g' : Nat → Prop} (h : Sweep g c c')
    (hg : ∀ b y, Live c b y → (g b ↔ g' b)) : Sweep g' c c' where
  table := h.table
  chain := h.chain
  nextBlock := h.nextBlock
  back := by
    intro b y' hy'
    obtain ⟨hgb, y, hy, hrest⟩ := h.back b y' hy'
    exact ⟨fun h' => hgb ((hg b y hy).mpr h'), y, hy, hrest⟩
  kept := fun b y hy hgb => h.kept b y hy fun h' => hgb ((hg b y hy).mp h')

theorem sweep_invalidateBlock (ht : TableOk c) (hc : ChainOk c)
    (hx : Live c b x) : Sweep (· = b) c (invalidateBlock c b) := by
  obtain ⟨hshape, hchain, hout, hinto⟩ := disconnect_spec hc hx
  unfold invalidateBlock
  dsimp only
  set d := fiberBlockDisconnect c b with hd
  set c' : Asbestos :=
    { d.modify b (fun y => { y with isJetsam := true }) with jetsam := b :: d.jetsam } with hc'
  obtain ⟨x₁, hx₁, -⟩ := hshape.some (show _ = some x from hx.1)
  have hself : c'.blocks b = some { x₁ with isJetsam := true } := by
    simp [hc', Asbestos.modify, hx₁]
  have hne : ∀ b', b' ≠ b → c'.blocks b' = d.blocks b' := fun b' hb => by
    simp [hc', Asbestos.modify, hb]
  -- the live blocks of the result are those of the disconnected state, without `b`
  have hlive : ∀ b' y, Live c' b' y ↔ b' ≠ b ∧ Live d b' y := by
    intro b' y
    by_cases hb : b' = b
    · subst hb
      refine iff_of_false ?_ (fun h => h.1 rfl)
      rintro ⟨hy, hj⟩
      rw [hself] at hy
      cases hy
      cases hj
    unfold Live
    rw [hne b' hb]
    exact ⟨fun h => ⟨hb, h⟩, fun h => h.2⟩
  have hback : ∀ b' y', Live c' b' y' → ¬ b' = b ∧
      ∃ y, Live c b' y ∧ y'.addr = y.addr ∧ y'.endAddr = y.endAddr := by
    intro b' y' hy'
    obtain ⟨hb, hy'⟩ := (hlive b' y').mp hy'
    obtain ⟨y, hy, ha, he⟩ := hshape.symm.live hy'
    exact ⟨hb, y, hy, ha.symm, he.symm⟩
  have hkept : ∀ b' y, Live c b' y → ¬ b' = b →
      ∃ y', Live c' b' y' ∧ y'.addr = y.addr ∧ y'.endAddr = y.endAddr := by
    intro b' y hy hb
    obtain ⟨y', hy', ha, he⟩ := hshape.live (c := { c with
      hash := Ilist.remove c.hash b, pages := fun i => Ilist.remove (c.pages i) b }) hy
    exact ⟨y', (hlive b' y').mpr ⟨hb, hy'⟩, ha, he⟩
  refine ⟨?_, ?_, hshape.nextBlock, hback, hkept⟩
  · constructor
    · show 0 < d.hashSize
      rw [hshape.hashSize]
      exact ht.pos
    · intro b' hb'
      have hb'' : c.nextBlock ≤ b' := by
        rw [← show c'.nextBlock = c.nextBlock from hshape.nextBlock]
        exact hb'
      have hnone := ht.fresh b' hb''
      have hbb : b' ≠ b := by
        rintro rfl
        rw [hx.1] at hnone
        cases hnone
      rw [hne b' hbb]
      have hmap := hshape.block b'
      rw [show _ = none from hnone] at hmap
      exact Option.map_eq_none_iff.mp hmap
    · intro k b'
      show b' ∈ d.hash k ↔ ∃ y, Live c' b' y ∧ k = y.addr % d.hashSize
      rw [hshape.hash, hshape.hashSize, Ilist.mem_remove ht.hash_nodup, ht.hash_mem]
      constructor
      · rintro ⟨hb, y, hy, hk⟩
        obtain ⟨y', hy', ha, -⟩ := hkept b' y hy hb
        exact ⟨y', hy', by rw [ha]; exact hk⟩
      rintro ⟨y', hy', hk⟩
      obtain ⟨hb, y, hy, ha, -⟩ := hback b' y' hy'
      exact ⟨hb, y, hy, by rw [← ha]; exact hk⟩
    · show Ilist.Nodups d.hash
      rw [hshape.hash]
      exact Ilist.nodups_remove ht.hash_nodup b
    · intro i k b'
      show b' ∈ d.pages i k ↔ ∃ y, Live c' b' y ∧ y.pageKey i = some k
      rw [hshape.pages, Ilist.mem_remove (ht.page_nodup i), ht.page_mem]
      constructor
      · rintro ⟨hb, y, hy, hk⟩
        obtain ⟨y', hy', ha, he⟩ := hkept b' y hy hb
        exact ⟨y', hy', by rw [pageKey_congr ha he]; exact hk⟩
      rintro ⟨y', hy', hk⟩
      obtain ⟨hb, y, hy, ha, he⟩ := hback b' y' hy'
      exact ⟨hb, y, hy, by rw [← pageKey_congr ha he]; exact hk⟩
    · intro i
      show Ilist.Nodups (d.pages i)
      rw [hshape.pages]
      exact Ilist.nodups_remove (ht.page_nodup i) b
    · intro b₁ b₂ y₁ y₂ hy₁ hy₂ heq
      obtain ⟨-, z₁, hz₁, ha₁, -⟩ := hback b₁ y₁ hy₁
      obtain ⟨-, z₂, hz₂, ha₂, -⟩ := hback b₂ y₂ hy₂
      exact ht.unique b₁ b₂ z₁ z₂ hz₁ hz₂ (by rw [← ha₁, ← ha₂, heq])
    intro b'
    show b' ∈ b :: d.jetsam ↔ ∃ y, c'.blocks b' = some y ∧ y.isJetsam = true
    rw [List.mem_cons, hshape.jetsam]
    by_cases hb : b' = b
    · subst hb
      exact iff_of_true (Or.inl rfl) ⟨_, hself, rfl⟩
    rw [hne b' hb, show b' ∈ c.jetsam ↔ _ from ht.jetsam_mem b']
    constructor
    · rintro (h | ⟨y, hy, hj⟩)
      · exact absurd h hb
      · obtain ⟨y', hy', -, -, hj'⟩ := hshape.some (show _ = some y from hy)
        exact ⟨y', hy', hj'.trans hj⟩
    rintro ⟨y', hy', hj'⟩
    obtain ⟨y, hy, -, -, hj⟩ := hshape.symm.some hy'
    exact Or.inr ⟨y, hy, hj.trans hj'⟩
  · -- the chain invariant: no list mentions `b` any more
    refine ⟨hchain.nodup, fun i t b' hb' => ?_, fun b' y i hy hsome => ?_⟩
    · have hb'd : b' ∈ d.jumpsFrom i t := hb'
      obtain ⟨y, z, hy, hz, hrest⟩ := hchain.mem i t b' hb'd
      have hbb : b' ≠ b := by
        rintro rfl
        exact hout i t hb'd
      have htb : t ≠ b := by
        rintro rfl
        exact hinto i b' hb'd
      exact ⟨y, z, (hlive b' y).mpr ⟨hbb, hy⟩, (hlive t z).mpr ⟨htb, hz⟩, hrest⟩
    · exact hchain.slot b' y i ((hlive b' y).mp hy).2 hsome

end IosLinuxkit.Fiber
