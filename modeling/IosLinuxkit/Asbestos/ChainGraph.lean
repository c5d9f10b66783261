import IosLinuxkit.Asbestos.BlockSteps

/-!
# The chain graph

What `ChainOk` and `TableOk` say about reachable states, in the terms of the source. The native
code of a refused slot's block may enter the successor through `alt`; so the slot sits on the
successor's `jumps_from` list like a chained one, and an invalidation undoes it.

* **`chainGraph_run`** — the states of a slot, over whole runs.
* **`alt_none_run`** — where no chain is refused, the third state does not occur.
-/

namespace IosLinuxkit.Fiber

/-! ## Facts about single slots -/

def SlotsAll (P : Slot → Prop) (c : Asbestos) : Prop :=
  ∀ b x i, c.blocks b = some x → P (x.slots i)

section SlotsAll

variable {P : Slot → Prop}

variable {c : Asbestos}

theorem slotsAll_setLink (h : SlotsAll P c) (b : Nat) (i : Fin 2)
    (lists : Nat → List Nat) {f : Slot → Slot} (hf : ∀ s, P s → P (f s)) :
    SlotsAll P (c.setLink b i lists f) := by
  intro b' x j hx
  rw [setLink_blocks] at hx
  split at hx
  · obtain ⟨y, hy, rfl⟩ := Option.map_eq_some_iff.mp hx
    dsimp only
    by_cases hj : j = i
    · subst hj
      rw [Function.update_self]
      exact hf _ (h b y j hy)
    · rw [Function.update_of_ne hj]
      exact h b y j hy
  · exact h b' x j hx

theorem slotsAll_foldl {α : Type} {f : Asbestos → α → Asbestos}
    (hf : ∀ c a, SlotsAll P c → SlotsAll P (f c a)) (as : List α)
    (h : SlotsAll P c) : SlotsAll P (as.foldl f c) := by
  induction as generalizing c with
  | nil => exact h
  | cons a as ih => exact ih (hf c a h)

theorem slotsAll_linkSlot (jit : Jit) (h : SlotsAll P c) (source : Nat)
    (i : Fin 2) (target : Nat) (hchain : ∀ t s, P s → P (Slot.chain t s))
    (hrefuse : jit.chainRefused source i target = true → ∀ t s, P s → P (Slot.refuse t s)) :
    SlotsAll P (linkSlot jit c source i target) := by
  unfold linkSlot
  split
  · exact slotsAll_setLink h _ _ _ (hchain target)
  split
  · rename_i hr
    exact slotsAll_setLink h _ _ _ (hrefuse hr target)
  · exact h

theorem slotsAll_patchSlot (jit : Jit) (h : SlotsAll P c) (source : Nat)
    (i : Fin 2) (target : Nat) (hchain : ∀ t s, P s → P (Slot.chain t s))
    (hrefuse : jit.chainRefused source i target = true → ∀ t s, P s → P (Slot.refuse t s)) :
    SlotsAll P (fiberPrechainPatchSlot jit c source i target) := by
  unfold fiberPrechainPatchSlot
  split
  · split
    · exact slotsAll_linkSlot jit h source i target hchain hrefuse
    · exact h
  · exact h

theorem slotsAll_disconnectSlot (hrestore : ∀ s : Slot, P s → P s.restore) (b : Nat)
    (h : SlotsAll P c) (i : Fin 2) : SlotsAll P (disconnectSlot b c i) := by
  unfold disconnectSlot
  dsimp only
  refine slotsAll_foldl (fun c p hc => slotsAll_setLink hc _ _ _ hrestore) _ ?_
  set c₁ : Asbestos :=
    { c with pages := Function.update c.pages i (Ilist.remove (c.pages i) b) }
  have h₁ : SlotsAll P c₁ := h
  split
  · exact slotsAll_setLink h₁ b i _ hrestore
  · exact h₁

theorem slotsAll_invalidateBlock (hrestore : ∀ s : Slot, P s → P s.restore) (c : Asbestos)
    (b : Nat) (h : SlotsAll P c) : SlotsAll P (invalidateBlock c b) := by
  have h₀ : SlotsAll P { c with numBlocks := c.numBlocks - 1, hash := Ilist.remove c.hash b } :=
    h
  have hd : SlotsAll P (fiberBlockDisconnect c b) :=
    slotsAll_disconnectSlot hrestore b (slotsAll_disconnectSlot hrestore b h₀ 0) 1
  intro b' x i hx
  simp only [invalidateBlock, Asbestos.modify] at hx
  by_cases hb : b' = b
  · subst hb
    rw [Function.update_self] at hx
    obtain ⟨y, hy, rfl⟩ := Option.map_eq_some_iff.mp hx
    exact hd b' y i hy
  · rw [Function.update_of_ne hb] at hx
    exact hd b' x i hx

theorem slotsAll_keys (hrestore : ∀ s : Slot, P s → P s.restore) (ks : List Nat)
    (h : SlotsAll P c) : SlotsAll P (ks.foldl invalidateKey c) := by
  refine slotsAll_foldl (fun c k hc => ?_) ks h
  exact slotsAll_foldl (slotsAll_invalidateBlock hrestore) _
    (slotsAll_foldl (slotsAll_invalidateBlock hrestore) _ hc)

theorem slotsAll_insert (jit : Jit) (prechain : Prechain) (h : SlotsAll P c)
    (x : Block) (hx : ∀ i, P (x.slots i)) (hchain : ∀ t s, P s → P (Slot.chain t s))
    (hrefuse : ∀ a i b, jit.chainRefused a i b = true → ∀ t s, P s → P (Slot.refuse t s)) :
    SlotsAll P (fiberInsert jit prechain c x) := by
  have hpatch : ∀ c source i target, SlotsAll P c →
      SlotsAll P (fiberPrechainPatchSlot jit c source i target) :=
    fun c source i target hc => slotsAll_patchSlot jit hc source i target hchain (hrefuse _ _ _)
  have hout : ∀ c b i, SlotsAll P c → SlotsAll P (prechainOutgoingSlot jit b c i) := by
    intro c b i hc
    unfold prechainOutgoingSlot
    split
    · exact hc
    split
    · exact hc
    split
    · exact hc
    split
    · exact hc
    · exact hpatch _ _ _ _ hc
  unfold fiberInsert
  dsimp only
  set c₀ := if c.numBlocks + 1 ≥ c.hashSize * 2 then fiberResizeHash c (c.hashSize * 2) else c
    with hc₀
  have h₀ : SlotsAll P c₀ := by
    rw [hc₀]
    split
    · exact fun b x i hx => h b x i hx
    · exact h
  have h₁ : SlotsAll P (enlist c₀ c.nextBlock x) := by
    intro b y i hy
    simp only [enlist] at hy
    by_cases hb : b = c.nextBlock
    · subst hb
      rw [Function.update_self] at hy
      cases hy
      exact hx i
    · rw [Function.update_of_ne hb] at hy
      exact h₀ b y i hy
  set c₁ := enlist c₀ c.nextBlock x
  have h₂ : SlotsAll P (if prechain.outgoing = true then
      fiberPrechainOutgoing jit c₁ c.nextBlock else c₁) := by
    split
    · exact hout _ _ _ (hout _ _ _ h₁)
    · exact h₁
  set c₂ := if prechain.outgoing = true then fiberPrechainOutgoing jit c₁ c.nextBlock else c₁
  split
  · unfold fiberPrechainIncoming
    split
    · exact h₂
    · exact slotsAll_foldl (fun c source hc => hpatch _ _ _ _ (hpatch _ _ _ _ hc)) _ h₂
  · exact h₂

/-- **A fact about single slots is an invariant** when new slots have it and chaining,
restoring and (where a chain is refused) refusing keep it. -/
theorem slotsAll_step (l : Label) (h : SlotsAll P c)
    (hnew : ∀ a e slots i, P ((newBlock a e slots).slots i))
    (hchain : ∀ t s, P s → P (Slot.chain t s)) (hrestore : ∀ s : Slot, P s → P s.restore)
    (hrefuse : ∀ a i b, l.jit.chainRefused a i b = true →
      ∀ t s, P s → P (Slot.refuse t s)) : SlotsAll P (step c l) := by
  unfold step
  split
  · unfold enter
    split
    · exact h
    split
    · exact h
    · exact slotsAll_insert l.jit _ h _ (fun i => hnew _ _ _ i) hchain hrefuse
  · have hslot : ∀ c last block i, SlotsAll P c → SlotsAll P (chainStep l.jit last block c i) := by
      intro c last block i hc
      unfold chainStep
      split
      · split
        · exact slotsAll_linkSlot l.jit hc _ _ _ hchain (hrefuse _ _ _)
        · exact hc
      · exact hc
    unfold chain
    split
    · split
      · exact hslot _ _ _ _ (hslot _ _ _ _ h)
      · exact h
    · exact h
  · exact fun b x i hx => h b x i hx
  · exact slotsAll_keys hrestore _ h
  · unfold asbestosInvalidatePage
    split
    · exact h
    · exact slotsAll_keys hrestore _ h
  · exact slotsAll_keys hrestore _ h
  intro b x i hx
  simp only [fiberFreeJetsam] at hx
  split at hx
  · cases hx
  · exact h b x i hx

end SlotsAll

/-- The JIT refuses no chain during the step: every build without `ISH_JIT`, and every
chain that `jit_chain_ok` allows. -/
def NeverRefuses (l : Label) : Prop := ∀ a i b, l.jit.chainRefused a i b = false

theorem alt_none_run {ls : List Label} (hls : ∀ l ∈ ls, NeverRefuses l) :
    SlotsAll (fun s => s.alt = none) (run step asbestosNew ls) := by
  have hinit : SlotsAll (fun s => s.alt = none) asbestosNew := by
    intro b x i hx
    cases hx
  generalize asbestosNew = c at hinit
  induction ls generalizing c with
  | nil => exact hinit
  | cons l ls ih =>
    refine ih (fun l' hl' => hls l' (List.mem_cons_of_mem l hl')) (step c l) ?_
    refine slotsAll_step l hinit (fun _ _ _ _ => rfl) (fun _ _ hs => hs) (fun s hs => ?_) ?_
    · unfold Slot.restore
      split
      · rfl
      · exact hs
    intro a i b hr
    rw [hls l List.mem_cons_self a i b] at hr
    cases hr

/-! ## The graph -/

/-- Slot `i` of block `b` is linked to `t`: a live block at the slot's original target, whose
`jumps_from[i]` list holds `b` exactly once, while no other such list does. -/
structure LinkedTo (c : Asbestos) (b : Nat) (i : Fin 2) (s : Slot) (t : Nat) : Prop where
  live : ∃ y, Live c t y ∧ s.target = some y.addr
  once : (c.jumpsFrom i t).count b = 1
  only : ∀ t', b ∈ c.jumpsFrom i t' → t' = t

theorem linkedTo_of_mem {c : Asbestos} (hc : ChainOk c) {b : Nat} {x : Block} {i : Fin 2}
    (hx : Live c b x) {t : Nat} (ht : b ∈ c.jumpsFrom i t) :
    LinkedTo c b i (x.slots i) t ∧ ((x.slots i).Chained t ∨ (x.slots i).Refused t) := by
  obtain ⟨x', y, hx', hy, -, htgt, hst⟩ := hc.mem i t b ht
  obtain rfl := hx.unique hx'
  exact ⟨⟨⟨y, hy, htgt⟩, List.count_eq_one_of_mem (hc.nodup i t) ht,
    fun t' ht' => hc.head_unique ht' ht⟩, hst⟩

/-- **The chain graph of every reachable cache.** A jump slot of a live block holds its original fake
IP, on no `jumps_from` list; or the code address of the block it is linked to; or, when the JIT refused
the chain, its fake IP with bit 62 set and an alternate pointer. Chains and lists hold live blocks only. -/
theorem chainGraph_run (ls : List Label) :
    (∀ b x i w, Live (run step asbestosNew ls) b x → (x.slots i).jumpIp = some w →
      (w = .ip (x.slots i).oldJumpIp ∧ ∀ t, b ∉ (run step asbestosNew ls).jumpsFrom i t) ∨
      (∃ t, w = .code t ∧ LinkedTo (run step asbestosNew ls) b i (x.slots i) t) ∨
      ((∃ l ∈ ls, ¬ NeverRefuses l) ∧ ∃ t, w = .ip ((x.slots i).oldJumpIp ||| refusedBit) ∧
        (x.slots i).alt = some t ∧ LinkedTo (run step asbestosNew ls) b i (x.slots i) t)) ∧
    (∀ k b, b ∈ (run step asbestosNew ls).hash k → ∃ x, Live (run step asbestosNew ls) b x) ∧
    (∀ i k b, b ∈ (run step asbestosNew ls).pages i k →
      ∃ x, Live (run step asbestosNew ls) b x) := by
  obtain ⟨ht, hc⟩ := cacheOk_run ls
  refine ⟨fun b x i w hx hw => ?_, fun k b hb => ?_, fun i k b hb => ?_⟩
  · rcases hc.slot b x i hx (by rw [hw]; rfl) with ⟨horig, hno⟩ | ⟨t, hmem⟩
    · refine Or.inl ⟨?_, hno⟩
      exact Option.some.inj (hw.symm.trans horig.1)
    obtain ⟨hlink, hst⟩ := linkedTo_of_mem hc hx hmem
    rcases hst with hch | href
    · refine Or.inr (Or.inl ⟨t, ?_, hlink⟩)
      exact Option.some.inj (hw.symm.trans hch.1)
    refine Or.inr (Or.inr ⟨?_, t, Option.some.inj (hw.symm.trans href.1), href.2.2, hlink⟩)
    by_contra hnever
    push Not at hnever
    have hnone : (x.slots i).alt = none := alt_none_run hnever b x i hx.1
    rw [href.2.2] at hnone
    cases hnone
  · obtain ⟨x, hx, -⟩ := (ht.hash_mem k b).mp hb
    exact ⟨x, hx⟩
  · obtain ⟨x, hx, -⟩ := (ht.page_mem i k b).mp hb
    exact ⟨x, hx⟩

/-- A block at `0x1000` that branches to a block at `0x2000`, in code whose link site is
already taken by another successor: the chain is refused. -/
def refusedRun : List Label :=
  [⟨.enter 0x1000 [.stop false]
      (fun i => if i.val = 0 then some 0x8000000000002000#64 else none) ⟨false, false⟩, noJit⟩,
    ⟨.enter 0x2000 [.stop false] (fun _ => none) ⟨false, false⟩, noJit⟩,
    ⟨.chain 0 1, ⟨fun _ _ _ => false, fun _ _ _ => true⟩⟩]

/-- The refused slot of a live block is neither as the compiler left it nor a code address,
and it is on the list of its target. -/
theorem chainGraph_refusedRun : ((run step asbestosNew refusedRun).blocks 0).map
        (fun x => (x.isJetsam, (x.slots 0).jumpIp, (x.slots 0).oldJumpIp))
      = some (false, some (.ip 0xc000000000002000#64), 0x8000000000002000#64) ∧
      0 ∈ (run step asbestosNew refusedRun).jumpsFrom 0 1 := by
  decide +kernel

end IosLinuxkit.Fiber
