import IosLinuxkit.Asbestos.JitSlotInv

/-!
# Runs of `jit_translate` and `jit_block_free`

The remaining steps of `Asbestos.JitSlot` keep the invariant, and with them every run.

* **`slotOwner_run`** — the block a slot names is its `Owner`, and a block with native code that
  nobody frees is the one its slot names.
-/

namespace IosLinuxkit.Asbestos.JitSlot

variable {s s' : State} {t t' x y i : Nat} {b : Blk} {c : Ctx} {j : Job} {p : Phase}

/-! ## A step on the thread's own block -/

structure Named (s : State) (c : Ctx) (i : Nat) (b : Blk) : Prop where
  idx : b.jitIdx = i
  installed : b.installed = some ((s.slot c i).base, (s.slot c i).dbase)
  lt : c.owner = none → i < s.nextIdx c.mod
  ctx : b.jitCtx = some c

theorem Inv.named (h : Inv s) (hb : s.blocks x = some b) (hst : b.stage = .compiling t)
    (hno : ¬ (s.thread t).Claimed c x) (hx : (s.slot c i).blk = some x) : Named s c i b := by
  obtain ⟨b', hb', hidx, hinst, hlt, hctx⟩ := h.slots c i x hx
  rw [hb] at hb'
  cases hb'
  refine ⟨hidx, hinst, hlt, ?_⟩
  rcases hctx with hctx | ⟨_, _, t₀, hst', hcl⟩
  · exact hctx
  rw [hst] at hst'
  cases hst'
  exact absurd hcl hno

structure Change (s s' : State) (t x : Nat) (o : Option Blk) (p : Phase) : Prop where
  thread : s'.thread = Function.update s.thread t p
  blocks : s'.blocks = Function.update s.blocks x o
  slot : s'.slot = s.slot
  mine : ∀ b, s.blocks x = some b → ∀ t', t' ≠ t → ¬ b.HeldBy t'
  claimed : ∀ c y, (s.thread t).Claimed c y → y = x
  lock : ∀ t', t' ≠ t → s.ctxLock = some t' → s'.ctxLock = some t'

theorem Change.phase {o : Option Blk} (h : Change s s' t x o p) : s'.thread t = p := by
  rw [h.thread]
  exact Function.update_self _ _ _

theorem Change.block {o : Option Blk} (h : Change s s' t x o p) : s'.blocks x = o := by
  rw [h.blocks]
  exact Function.update_self _ _ _

theorem Change.registers {o : Option Blk} (h : Change s s' t x o p) (hnext : s'.nextIdx = s.nextIdx)
    (hreg : s'.reg = s.reg) (hmk : ∀ q, p.making = some q → (s.thread t).making = some q) :
    Registers s s' t := by
  refine Registers.of_eq hnext hreg fun q hq => hmk q ?_
  rw [← h.phase]
  exact hq

theorem Inv.change {o : Option Blk} (h : Inv s) (hc : Change s s' t x o p)
    (hregs : Registers s s' t) (hown : PhaseOk s' t p)
    (hslots : ∀ c i, (s.slot c i).blk = some x → SlotOk s' c i x)
    (hcode : ∀ b, o = some b → CodeOk s' x b) : Inv s' := by
  have hl : Local s s' t x :=
    { thread := fun t' ht => by
        rw [hc.thread]
        exact Function.update_of_ne ht _ _
      slot := hc.slot
      blocks := fun y hy => by
        rw [hc.blocks]
        exact Function.update_of_ne hy _ _
      mine := hc.mine
      claimed := fun c y hy hcl => absurd (hc.claimed c y hcl) hy
      lock := hc.lock }
  refine h.local hl hregs ?_ hslots (fun b hb => hcode b ?_)
  · rw [hc.phase]
    exact hown
  · rw [← hc.block]
    exact hb

theorem mine_of_compiling (hb : s.blocks x = some b) (hst : b.stage = .compiling t) :
    ∀ b, s.blocks x = some b → ∀ t', t' ≠ t → ¬ b.HeldBy t' := by
  intro b' hb' t' ht hheld
  rw [hb] at hb'
  cases hb'
  unfold Blk.HeldBy at hheld
  rw [hst] at hheld
  rcases hheld with hst' | hst'
  · exact ht (Stage.compiling.inj hst').symm
  · cases hst'

theorem codeOk_of_bare (h : b.Bare) : CodeOk s x b := fun n hn => absurd hn (h n)

theorem Inv.slotOk_of_named {b' : Blk} (h : Inv s) (hb : s.blocks x = some b)
    (hst : b.stage = .compiling t) (hno : ∀ c, ¬ (s.thread t).Claimed c x)
    (hb' : s'.blocks x = some b') (hslot : s'.slot = s.slot)
    (hnext : ∀ m, s.nextIdx m ≤ s'.nextIdx m) (hidx : b'.jitIdx = b.jitIdx)
    (hinst : b'.installed = b.installed) (hctx : b'.jitCtx = b.jitCtx)
    (hx : (s.slot c i).blk = some x) : SlotOk s' c i x := by
  have hn := h.named hb hst (hno c) hx
  refine ⟨b', hb', hidx.trans hn.idx, ?_, fun ho => Nat.lt_of_lt_of_le (hn.lt ho) (hnext _),
    Or.inl (hctx.trans hn.ctx)⟩
  rw [hinst, hslot]
  exact hn.installed

theorem Inv.finish (h : Inv s) (hb : s.blocks x = some b) (hst : b.stage = .compiling t)
    (hno : ∀ c y, ¬ (s.thread t).Claimed c y)
    (hthread : s'.thread = Function.update s.thread t .idle)
    (hblocks : s'.blocks = Function.update s.blocks x (some { b with stage := .cached }))
    (hslot : s'.slot = s.slot) (hnext : ∀ m, s.nextIdx m ≤ s'.nextIdx m)
    (hreg : s'.reg = s.reg ∨ ∃ e, s'.reg = e :: s.reg ∧ (s.thread t).making = some (e.mod, e.idx) ∧
      ∀ g ∈ e.segs, g.2.home = .own e.mod ∧ g.2.idx = e.idx)
    (hlock : ∀ t', t' ≠ t → s.ctxLock = some t' → s'.ctxLock = some t') : Inv s' := by
  have hc : Change s s' t x (some { b with stage := .cached }) .idle :=
    { thread := hthread
      blocks := hblocks
      slot := hslot
      mine := mine_of_compiling hb hst
      claimed := fun c y hcl => absurd hcl (hno c y)
      lock := hlock }
  have hidle : (s'.thread t).making = none := by
    rw [hc.phase]
    rfl
  have hregs : Registers s s' t :=
    { next := hnext
      reg := hreg.imp_right fun he => ⟨hidle, he⟩
      making := fun m i hq => by
        rw [hidle] at hq
        cases hq }
  refine h.change hc hregs trivial (fun c i hx => ?_) (fun b' hb' => ?_)
  · exact h.slotOk_of_named hb hst (fun c => hno c x) hc.block hslot hnext rfl rfl rfl hx
  cases hb'
  intro n hn
  obtain ⟨c, hctx, hhome, hidx, hs⟩ := h.code x b hb n hn
  refine ⟨c, hctx, hhome, hidx, fun _ => ?_⟩
  rw [hslot]
  refine hs fun t' hst' => ?_
  rw [hst] at hst'
  cases hst'

theorem finish_blocks (hb : s.blocks x = some b) :
    (s.finish t x).blocks = Function.update s.blocks x (some { b with stage := .cached }) := by
  simp only [State.finish, State.goto, State.modify, State.setBlock, hb, Option.map_some]

theorem modify_blocks {f : Blk → Blk} (hb : s.blocks x = some b) :
    (s.modify x f).blocks = Function.update s.blocks x (some (f b)) := by
  simp only [State.modify, State.setBlock, hb, Option.map_some]

theorem change_modify {f : Blk → Blk} (hb : s.blocks x = some b) (hst : b.stage = .compiling t)
    (hcl : ∀ c y, (s.thread t).Claimed c y → y = x) :
    Change s ((s.modify x f).goto t p) t x (some (f b)) p :=
  { thread := rfl
    blocks := modify_blocks hb
    slot := rfl
    mine := mine_of_compiling hb hst
    claimed := hcl
    lock := fun _ _ hl => hl }

/-! ## The steps -/

theorem Inv.tick_lock (h : Inv s) (ht : s.thread t = .lock j) : Inv (tick s t) := by
  have hph := h.threads t
  rw [ht] at hph
  obtain ⟨hf, hj, hheld, hu⟩ := hph
  unfold tick
  rw [ht]
  dsimp only
  cases hl : s.ctxLock with
  | some o => exact h
  | none =>
    refine h.goto ⟨hf, hj.reg fun _ he => he, hheld, hu, rfl⟩ ?_ (fun q hq => nomatch hq) ?_
    · simp [Phase.Claimed, ht]
    intro t' _ hl'
    rw [hl] at hl'
    cases hl'

theorem Inv.tick_check (h : Inv s) (ht : s.thread t = .check j) : Inv (tick s t) := by
  have hph := h.threads t
  rw [ht] at hph
  obtain ⟨hf, hj, hheld, hu, hl⟩ := hph
  have hno : ∀ {p : Phase} c y, (s.thread t).Claimed c y → p.Claimed c y := by simp [Phase.Claimed, ht]
  unfold tick
  rw [ht]
  dsimp only
  split
  case isTrue howner =>
    refine h.goto (l := s.ctxLock) ⟨hj.reg fun _ he => he, ⟨?_, hu, fun _ => hl⟩, ?_⟩ hno
      (fun q hq => ?_) (fun _ _ hl' => hl')
    · exact howner.resolve_right (hu _ _)
    · refine Held.mono hheld fun b hb => ⟨hb.1, ?_⟩
      rw [hb.2, Job.before, hf]
      rfl
    · simp [Phase.making, hf] at hq
  case isFalse =>
    refine h.goto (l := s.ctxLock) ⟨hheld, hu, hl⟩ hno (fun q hq => ?_) (fun _ _ hl' => hl')
    cases hq

theorem Inv.tick_refused (h : Inv s) (ht : s.thread t = .refused j) : Inv (tick s t) := by
  have hph := h.threads t
  rw [ht] at hph
  obtain ⟨⟨b, hb, hst, _⟩, _, hl⟩ := hph
  unfold tick
  rw [ht]
  refine h.finish hb hst (by simp [Phase.Claimed, ht]) rfl (finish_blocks (t := t) hb) rfl
    (fun _ => Nat.le_refl _) (Or.inl rfl) ?_
  intro t' hne hl'
  rw [hl] at hl'
  exact absurd (Option.some.inj hl').symm hne

theorem Inv.tick_unlock (h : Inv s) (ht : s.thread t = .unlock j) : Inv (tick s t) := by
  have hph := h.threads t
  rw [ht] at hph
  obtain ⟨hf, hj, hslot, hheld, hl⟩ := hph
  unfold tick
  rw [ht]
  refine h.goto ⟨hj.reg fun _ he => he, ?_, fun hf' => ?_, fun _ => ⟨hslot, ?_⟩⟩ ?_ (fun q hq => ?_)
    ?_
  · refine Held.mono hheld fun b hb => ⟨hb.1.1, ?_⟩
    rw [hb.1.2, Job.before, hf]
    rfl
  · rw [hf] at hf'
    cases hf'
  · exact Held.mono hheld fun b hb => hb.2.1
  · rintro c y ⟨k, hk, hrest⟩
    rw [ht] at hk
    rcases hk with hk | hk
    · cases hk
      exact ⟨j, Or.inr rfl, hrest⟩
    · cases hk
  · simp [Phase.making, hf] at hq
  intro t' hne hl'
  rw [hl] at hl'
  exact absurd (Option.some.inj hl').symm hne

theorem Inv.tick_setCtx (h : Inv s) (ht : s.thread t = .setCtx j) : Inv (tick s t) := by
  have hph := h.threads t
  rw [ht] at hph
  obtain ⟨hj, ⟨b, hb, hst, hbare, hnone⟩, hfresh, hclaim⟩ := hph
  have hclaimed : ∀ c y, (s.thread t).Claimed c y → y = j.blk := by
    rintro c y ⟨k, hk, _, _, rfl⟩
    rw [ht] at hk
    rcases hk with hk | hk
    · cases hk
    · cases hk
      rfl
  set b' : Blk := { b with jitCtx := some j.ctx }
  have hbare' : b'.Bare := hbare
  unfold tick
  rw [ht]
  dsimp only
  cases hf : j.fresh with
  | some k =>
    rw [if_pos (show (some k).isSome = true from rfl)]
    have hr := hfresh (by rw [hf]; rfl)
    have hc : Change s ((s.modify j.blk fun b => { b with jitCtx := some j.ctx }).goto t
        (.setIdx j)) t j.blk (some b') (.setIdx j) := change_modify hb hst hclaimed
    refine h.change hc (hc.registers rfl rfl fun q hq => ?_) ?_ (fun c i hx => ?_)
      (fun b₁ hb₁ => ?_)
    · rw [ht]
      exact hq
    · refine ⟨hj.reg fun _ he => he, ⟨hr.free, hr.unslotted, hr.lock⟩, b', hc.block, hst, hbare', ?_⟩
      rw [Job.before, hf]
      rfl
    · exact absurd hx (hr.unslotted c i)
    · cases hb₁
      exact codeOk_of_bare hbare'
  | none =>
    rw [Option.isSome_none, if_neg Bool.false_ne_true]
    obtain ⟨hslot, b₂, hb₂, _, hidx⟩ := hclaim hf
    rw [hb] at hb₂
    cases hb₂
    have hc : Change s ((s.modify j.blk fun b => { b with jitCtx := some j.ctx }).goto t
        (.install j j.segs)) t j.blk (some b') (.install j j.segs) := change_modify hb hst hclaimed
    refine h.change hc (hc.registers rfl rfl fun q hq => ?_) ?_ (fun c i hx => ?_)
      (fun b₁ hb₁ => ?_)
    · simp [Phase.making, hf] at hq
    · exact ⟨hj.reg fun _ he => he, fun _ hg => hg, hslot, b', hc.block, hst, rfl, hidx⟩
    · -- the slot is the one the thread has claimed
      obtain ⟨b₁, hb₁, hi, hinst, hlt, hctx⟩ := h.slots c i j.blk hx
      rw [hb] at hb₁
      cases hb₁
      refine ⟨b', hc.block, hi, hinst, hlt, Or.inl ?_⟩
      rcases hctx with hctx | ⟨_, _, t₀, hst', k, hk, _, rfl, _⟩
      · rw [hnone] at hctx
        cases hctx
      rw [hst] at hst'
      cases hst'
      rw [ht] at hk
      rcases hk with hk | hk
      · cases hk
      · cases hk
        rfl
    · cases hb₁
      exact codeOk_of_bare hbare'

theorem Inv.tick_setIdx (h : Inv s) (ht : s.thread t = .setIdx j) : Inv (tick s t) := by
  have hph := h.threads t
  rw [ht] at hph
  obtain ⟨hj, hr, b, hb, hst, hbare, hctx⟩ := hph
  set b' : Blk := { b with jitIdx := j.idx, installed := some (j.base, j.dbase) }
  have hbare' : b'.Bare := hbare
  unfold tick
  rw [ht]
  have hc : Change s ((s.modify j.blk fun b =>
      { b with jitIdx := j.idx, installed := some (j.base, j.dbase) }).goto t (.setDbase j)) t j.blk
      (some b') (.setDbase j) := change_modify hb hst (by simp [Phase.Claimed, ht])
  refine h.change hc (hc.registers rfl rfl fun q hq => ?_) ?_ (fun c i hx => ?_)
    (fun b₁ hb₁ => ?_)
  · rw [ht]
    exact hq
  · exact ⟨hj.reg fun _ he => he, ⟨hr.free, hr.unslotted, hr.lock⟩, b', hc.block, hst,
      ⟨hbare', hctx⟩, rfl, rfl⟩
  · exact absurd hx (hr.unslotted c i)
  · cases hb₁
    exact codeOk_of_bare hbare'

theorem has_install {pinned : Bool} {pos : Nat} {n m : Native}
    (h : (b.install pinned pos n).Has m) : m = n ∨ b.Has m := by
  unfold Blk.install Blk.Has at h
  dsimp only at h
  rcases h with h | ⟨pos', h⟩
  · split_ifs at h
    · exact Or.inl (Option.some.inj h).symm
    · exact Or.inr (Or.inl h)
  by_cases hp : pos' = pos
  · subst hp
    rw [Function.update_self] at h
    exact Or.inl (Option.some.inj h).symm
  · rw [Function.update_of_ne hp] at h
    exact Or.inr (Or.inr ⟨pos', h⟩)

theorem install_not_claimed {rest : List (Nat × Native)} (ht : s.thread t = .install j rest)
    (c : Ctx) (y : Nat) : ¬ (s.thread t).Claimed c y := by
  simp [Phase.Claimed, ht]

theorem Inv.tick_install (h : Inv s) {rest : List (Nat × Native)}
    (ht : s.thread t = .install j rest) : Inv (tick s t) := by
  have hph := h.threads t
  rw [ht] at hph
  obtain ⟨hj, hrest, hslot, b, hb, hst, hctx, hidx⟩ := hph
  cases rest with
  | nil =>
    unfold tick
    rw [ht]
    dsimp only
    split
    case isTrue hf =>
      refine h.goto (l := s.ctxLock) ⟨hf, hj.reg fun _ he => he, b, hb, hst, trivial⟩
        (fun c y hcl => absurd hcl (install_not_claimed ht c y)) (fun q hq => ?_)
        (fun _ _ hl => hl)
      rw [ht]
      exact hq
    case isFalse =>
      exact h.finish hb hst (install_not_claimed ht) rfl (finish_blocks (t := t) hb) rfl
        (fun _ => Nat.le_refl _) (Or.inl rfl) (fun _ _ hl => hl)
  | cons g rest =>
    unfold tick
    rw [ht]
    dsimp only
    have hc : Change s ((s.modify j.blk fun b => b.install s.pinned g.1 g.2).goto t
        (.install j rest)) t j.blk (some (b.install s.pinned g.1 g.2)) (.install j rest) :=
      change_modify hb hst (by simp [Phase.Claimed, ht])
    refine h.change hc (hc.registers rfl rfl fun q hq => ?_) ?_ (fun c i hx => ?_)
      (fun b₁ hb₁ n hn => ?_)
    · rw [ht]
      exact hq
    · exact ⟨hj.reg fun _ he => he, fun k hk => hrest k (List.mem_cons_of_mem _ hk), hslot, _,
        hc.block, hst, hctx, hidx⟩
    · exact h.slotOk_of_named hb hst (fun c => install_not_claimed ht c _) hc.block rfl
        (fun _ => Nat.le_refl _) rfl rfl rfl hx
    cases hb₁
    rcases has_install hn with rfl | hn
    · obtain ⟨hhome, hni⟩ := hj.segs g (hrest g List.mem_cons_self)
      refine ⟨j.ctx, hctx, hhome, hni.trans hidx.symm, fun _ => ?_⟩
      rw [show (b.install s.pinned g.1 g.2).jitIdx = j.idx from hidx]
      exact hslot
    · exact h.code _ b hb n hn

theorem Inv.tick_publish (h : Inv s) (ht : s.thread t = .publish j) : Inv (tick s t) := by
  have hph := h.threads t
  rw [ht] at hph
  obtain ⟨hf, hj, b, hb, hst, _⟩ := hph
  have hno : ∀ c y, ¬ (s.thread t).Claimed c y := by simp [Phase.Claimed, ht]
  unfold tick
  rw [ht]
  dsimp only
  split
  case h_2 =>
    exact h.finish hb hst hno rfl (finish_blocks (t := t) hb) rfl (fun _ => Nat.le_refl _) (Or.inl rfl)
      (fun _ _ hl => hl)
  case h_1 key hkey =>
    refine h.finish hb hst hno rfl (finish_blocks (t := t) hb) rfl (fun _ => Nat.le_refl _)
      (Or.inr ⟨_, rfl, ?_, ?_⟩) (fun _ _ hl => hl)
    · rw [ht]
      exact if_pos hf
    · intro g hg
      have ho := hj.fresh hf
      have hseg := hj.segs g hg
      rw [Ctx.home, ho] at hseg
      exact hseg

theorem Inv.tick_free (h : Inv s) (ht : s.thread t = .free x) : Inv (tick s t) := by
  have hph := h.threads t
  rw [ht] at hph
  obtain ⟨⟨b, hb, hst⟩, hu⟩ := hph
  unfold tick
  rw [ht]
  dsimp only
  have hc : Change s ((s.setBlock x none).goto t .idle) t x none .idle :=
    { thread := rfl
      blocks := rfl
      slot := rfl
      mine := by
        intro b' hb' t' hne hheld
        rw [hb] at hb'
        cases hb'
        unfold Blk.HeldBy at hheld
        rw [hst] at hheld
        rcases hheld with hst' | hst'
        · cases hst'
        · exact hne (Stage.freeing.inj hst').symm
      claimed := by simp [Phase.Claimed, ht]
      lock := fun _ _ hl => hl }
  exact h.change hc (hc.registers rfl rfl fun q hq => nomatch hq) trivial
    (fun c i hx => absurd hx (hu c i)) (fun b₁ hb₁ => nomatch hb₁)

theorem Inv.tick (h : Inv s) (t : Nat) : Inv (tick s t) := by
  cases ht : s.thread t with
  | idle =>
    unfold JitSlot.tick
    rw [ht]
    exact h
  | translate x =>
    unfold JitSlot.tick
    rw [ht]
    exact h
  | lock j => exact h.tick_lock ht
  | check j => exact h.tick_check ht
  | refused j => exact h.tick_refused ht
  | setCtx j => exact h.tick_setCtx ht
  | setIdx j => exact h.tick_setIdx ht
  | setDbase j => exact h.setDbase ht
  | setBase j => exact h.setBase ht
  | setBlk j => exact h.setBlk ht
  | unlock j => exact h.tick_unlock ht
  | install j rest => exact h.tick_install ht
  | publish j => exact h.tick_publish ht
  | cas x => exact h.cas ht
  | free x => exact h.tick_free ht

/-! ### Events -/

theorem Inv.compile (h : Inv s) (ht : s.thread t = .idle) (hx : s.blocks x = none) :
    Inv ((s.setBlock x (some (jitBlockInit t))).goto t (.translate x)) := by
  have hbare : (jitBlockInit t).Bare := by
    rintro n (hn | ⟨pos, hn⟩) <;> cases hn
  -- a slot names live blocks only
  have hu : Unslotted s x := by
    intro c i hy
    obtain ⟨b, hb, _⟩ := h.slots c i x hy
    rw [hx] at hb
    cases hb
  have hc : Change s ((s.setBlock x (some (jitBlockInit t))).goto t (.translate x)) t x
      (some (jitBlockInit t)) (.translate x) :=
    { thread := rfl
      blocks := rfl
      slot := rfl
      mine := by
        intro b hb
        rw [hx] at hb
        cases hb
      claimed := by simp [Phase.Claimed, ht]
      lock := fun _ _ hl => hl }
  refine h.change hc (hc.registers rfl rfl fun q hq => nomatch hq) ?_
    (fun c i hy => absurd hy (hu c i)) (fun b₁ hb₁ => ?_)
  · exact ⟨⟨_, hc.block, rfl, hbare, rfl⟩, hu⟩
  · cases hb₁
    exact codeOk_of_bare hbare

theorem Inv.startFree (h : Inv s) (ht : s.thread t = .idle) (hb : s.blocks x = some b)
    (hst : b.stage = .cached) :
    Inv ((s.setBlock x (some { b with stage := .freeing t })).goto t (.cas x)) := by
  have hc : Change s ((s.setBlock x (some { b with stage := .freeing t })).goto t (.cas x)) t x
      (some { b with stage := .freeing t }) (.cas x) :=
    { thread := rfl
      blocks := rfl
      slot := rfl
      mine := by
        intro b' hb' t' _ hheld
        rw [hb] at hb'
        cases hb'
        unfold Blk.HeldBy at hheld
        rw [hst] at hheld
        rcases hheld with hst' | hst' <;> cases hst'
      claimed := by simp [Phase.Claimed, ht]
      lock := fun _ _ hl => hl }
  refine h.change hc (hc.registers rfl rfl fun q hq => nomatch hq) ⟨_, hc.block, rfl⟩
    (fun c i hx => ?_) (fun b₁ hb₁ n hn => ?_)
  · obtain ⟨b', hb', hidx, hinst, hlt, hctx⟩ := h.slots c i x hx
    rw [hb] at hb'
    cases hb'
    refine ⟨_, hc.block, hidx, hinst, hlt, Or.inl ?_⟩
    rcases hctx with hctx | ⟨_, _, t₀, hst', _⟩
    · exact hctx
    · rw [hst] at hst'
      cases hst'
  cases hb₁
  obtain ⟨c, hctx, hhome, hidx, _⟩ := h.code x b hb n hn
  exact ⟨c, hctx, hhome, hidx, fun hno => absurd rfl (hno t)⟩

/-- No module hands out its last index: `mod_next_idx` has 32 bits. -/
def IdxOk (s : State) : Event → Prop
  | .translate _ r => s.nextIdx r.mod + 1 < 2 ^ 32
  | _ => True

theorem takeIdx_self (hlt : s.nextIdx i + 1 < 2 ^ 32) :
    (s.takeIdx i).nextIdx i = s.nextIdx i + 1 := by
  show Function.update s.nextIdx i ((s.nextIdx i + 1) % 2 ^ 32) i = s.nextIdx i + 1
  rw [Function.update_self, Nat.mod_eq_of_lt hlt]

theorem takeIdx_next (hlt : s.nextIdx i + 1 < 2 ^ 32) (m : Nat) :
    s.nextIdx m ≤ (s.takeIdx i).nextIdx m := by
  by_cases hm : m = i
  · subst hm
    rw [takeIdx_self hlt]
    exact Nat.le_succ _
  · show s.nextIdx m ≤ Function.update s.nextIdx i ((s.nextIdx i + 1) % 2 ^ 32) m
    rw [Function.update_of_ne hm]

theorem Inv.takeFresh (h : Inv s) (ht : s.thread t = .translate x) (r : Request)
    (hlt : s.nextIdx r.mod + 1 < 2 ^ 32) :
    Inv ((s.takeIdx r.mod).goto t (.setCtx (freshJob x r (s.nextIdx r.mod)))) := by
  have hph := h.threads t
  rw [ht] at hph
  obtain ⟨hheld, hu⟩ := hph
  set j := freshJob x r (s.nextIdx r.mod)
  set s' := (s.takeIdx r.mod).goto t (.setCtx j)
  have hthread : ∀ t', t' ≠ t → s'.thread t' = s.thread t' :=
    fun t' ht => Function.update_of_ne ht _ _
  have hp : s'.thread t = .setCtx j := Function.update_self _ _ _
  have hfree : (s.slot j.ctx j.idx).blk = none := by
    cases hblk : (s.slot j.ctx j.idx).blk with
    | none => rfl
    | some y =>
      obtain ⟨_, _, _, _, hidx, _⟩ := h.slots _ _ y hblk
      exact absurd (hidx rfl) (Nat.lt_irrefl _)
  refine h.of_rely hthread
    { next := takeIdx_next hlt
      reg := Or.inl rfl
      making := fun m i hq => ?_ }
    (fun t' _ => ?_) ?_ (fun c i y hy => ?_) h.code
  · rw [hp] at hq
    cases hq
    refine Or.inr ⟨Nat.le_refl _, ?_⟩
    rw [show s'.nextIdx j.ctx.mod = s.nextIdx r.mod + 1 from takeIdx_self hlt]
    exact Nat.lt_succ_self _
  · exact
      { blocks := fun _ _ hb _ => hb
        reserved := fun _ _ => rfl
        owned := fun _ _ _ _ _ _ _ => rfl
        unslotted := fun _ _ _ _ hu => hu
        reg := fun _ he => he
        lock := id }
  · rw [hp]
    have hjob : JobOk s' j :=
      { segs := fun g hg => by
          obtain ⟨g', _, rfl⟩ := List.mem_map.mp hg
          exact ⟨rfl, rfl⟩
        claim := fun hf => (nomatch hf)
        fresh := fun _ => rfl }
    exact ⟨hjob, hheld, fun _ => ⟨hfree, hu, fun hf => (nomatch hf)⟩, fun hf => (nomatch hf)⟩
  refine (h.slots c i y hy).keep rfl rfl (takeIdx_next hlt) hthread ?_
  simp [Phase.Claimed, ht]

theorem Inv.translate (h : Inv s) (ht : s.thread t = .translate x) (r : Request)
    (hlt : s.nextIdx r.mod + 1 < 2 ^ 32) : Inv (translate s t x r) := by
  have hph := h.threads t
  rw [ht] at hph
  obtain ⟨hheld, hu⟩ := hph
  have hno : ∀ c y, ¬ (s.thread t).Claimed c y := by simp [Phase.Claimed, ht]
  have hfinish : Inv (s.finish t x) := by
    obtain ⟨b, hb, hst, _⟩ := hheld
    exact h.finish hb hst hno rfl (finish_blocks (t := t) hb) rfl (fun _ => Nat.le_refl _) (Or.inl rfl)
      (fun _ _ hl => hl)
  have hlock : ∀ j, j.blk = x → j.fresh = none → JobOk s j → Inv (s.goto t (.lock j)) := by
    rintro j rfl hf hj
    exact h.goto (l := s.ctxLock) ⟨hf, hj.reg fun _ he => he, hheld, hu⟩
      (fun c y hcl => absurd hcl (hno c y)) (fun q hq => nomatch hq) (fun _ _ hl => hl)
  unfold JitSlot.translate
  split
  · exact hfinish
  split
  · exact hfinish
  split
  case h_1 a ha =>
    split
    · refine hlock _ rfl rfl
        { segs := ?_
          claim := fun _ ho => (nomatch ho)
          fresh := fun hf => (nomatch hf) }
      intro g hg
      obtain ⟨g', _, rfl⟩ := List.mem_map.mp hg
      exact ⟨rfl, rfl⟩
    · exact hfinish
  case h_2 =>
    split
    · exact hfinish
    split
    case h_1 e he =>
      have hmem := List.mem_of_find?_eq_some he
      have hkey := List.find?_some he
      rw [decide_eq_true_eq] at hkey
      refine hlock _ rfl rfl
        { segs := fun g hg => ?_
          claim := fun _ _ => ⟨e, hmem, hkey.1, rfl⟩
          fresh := fun hf => (nomatch hf) }
      have hseg := (h.reg e hmem).2 g hg
      rw [hkey.1] at hseg
      exact hseg
    case h_2 he =>
      split
      · exact hfinish
      dsimp only
      split
      · obtain ⟨b, hb, hst, _⟩ := hheld
        exact h.finish hb hst hno rfl (finish_blocks (s := s.takeIdx r.mod) (t := t) hb) rfl
          (takeIdx_next hlt) (Or.inl rfl) (fun _ _ hl => hl)
      · exact h.takeFresh ht r hlt

theorem Inv.step {e : Event} (h : Inv s) (hok : IdxOk s e) : Inv (step s e) := by
  cases e with
  | compile t x =>
    unfold JitSlot.step
    dsimp only
    split
    case h_1 ht hx => exact h.compile ht hx
    case h_2 => exact h
  | translate t r =>
    unfold JitSlot.step
    dsimp only
    split
    case h_1 x ht => exact h.translate ht r hok
    case h_2 => exact h
  | tick t => exact h.tick t
  | free t x =>
    unfold JitSlot.step
    dsimp only
    split
    case h_1 b ht hb =>
      split
      case isTrue hst => exact h.startFree ht hb hst
      case isFalse => exact h
    case h_2 => exact h

/-! ## Runs -/

/-- What a slot and the block it names say of each other. -/
structure Owner (s : State) (c : Ctx) (i x : Nat) (b : Blk) : Prop where
  live : s.blocks x = some b
  idx : b.jitIdx = i
  code : ∀ n, b.Has n → n.home = c.home ∧ n.idx = i
  installed : b.installed = some ((s.slot c i).base, (s.slot c i).dbase)
  /-- or the thread that translates the block is between `slot_claim` and `b->jit_ctx = ctx` -/
  ctx : b.jitCtx = some c ∨ b.jitCtx = none ∧ (∀ n, ¬ b.Has n) ∧
    ∃ t, b.stage = .compiling t ∧ (s.thread t).Claimed c x

/-- **One live owner.** -/
theorem slotOwner_run {pinned : Bool} {ops : List Event}
    (hok : AllSteps step IdxOk (start pinned) ops) :
    (∀ c i x, ((run step (start pinned) ops).slot c i).blk = some x →
        ∃ b, Owner (run step (start pinned) ops) c i x b) ∧
      ∀ x b n, (run step (start pinned) ops).blocks x = some b → (∀ t, b.stage ≠ .freeing t) →
        b.Has n → ∃ c, b.jitCtx = some c ∧ n.home = c.home ∧
          ((run step (start pinned) ops).slot c n.idx).blk = some x := by
  have h : Inv (run step (start pinned) ops) :=
    run_invariant (fun _ _ hinv hstep => Inv.step hinv hstep) (inv_start pinned) hok
  refine ⟨fun c i x hx => ?_, fun x b n hb hst hn => ?_⟩
  · obtain ⟨b, hb, hidx, hinst, _, hctx⟩ := h.slots c i x hx
    refine ⟨b, hb, hidx, fun n hn => ?_, hinst, hctx⟩
    obtain ⟨c', hc', hhome, hni, _⟩ := h.code x b hb n hn
    rcases hctx with hctx | ⟨_, hbare, _⟩
    · rw [hctx] at hc'
      cases hc'
      exact ⟨hhome, hni.trans hidx⟩
    · exact absurd hn (hbare n)
  obtain ⟨c, hctx, hhome, hni, hslot⟩ := h.code x b hb n hn
  refine ⟨c, hctx, hhome, ?_⟩
  rw [hni]
  exact hslot hst

/-- A block at `0x1000` of module 0, mapped at 0, with one native segment at its start. -/
def request : Request :=
  { addr := 0x1000, space := 0, mod := 0, base := 0, key := [], located := true, aotOnly := false,
    ctxOk := true, aot := none, regTable := true, tablesFit := true, emitted := [(0, 7)],
    publish := true }

/-- Block 5 is translated, and block 6 after it has the same key: its claim is refused. -/
def twoBlocks : List Event :=
  [.compile 0 5, .translate 0 request] ++ List.replicate 8 (.tick 0) ++
    [.compile 1 6, .translate 1 request] ++ List.replicate 3 (.tick 1)

theorem slotOwner_run_twoBlocks : AllSteps step IdxOk (start true) twoBlocks ∧
      ((run step (start true) twoBlocks).slot ⟨0, 0, 0, none⟩ 0).blk = some 5 ∧
      (∃ b, Owner (run step (start true) twoBlocks) ⟨0, 0, 0, none⟩ 0 5 b) ∧
      ((run step (start true) twoBlocks).blocks 6).map (fun b => b.stage) = some .cached := by
  have hok : AllSteps step IdxOk (start true) twoBlocks := by
    refine ⟨trivial, ?_, trivial, trivial, trivial, trivial, trivial, trivial, trivial,
      trivial, trivial, ?_, trivial, trivial, trivial, trivial⟩
    · show State.nextIdx _ 0 + 1 < 2 ^ 32
      decide
    · show State.nextIdx _ 0 + 1 < 2 ^ 32
      decide
  have hblk : ((run step (start true) twoBlocks).slot ⟨0, 0, 0, none⟩ 0).blk = some 5 := by
    decide
  exact ⟨hok, hblk, (slotOwner_run hok).1 _ _ _ hblk, by decide⟩

/-- The same with an image's translation, as far as the store of `blk`. -/
def claimed : List Event :=
  [.compile 0 5, .translate 0 { request with
      aot := some { image := 3, idx := 2, off := 0x1000, dbase := 0, segs := [], ctxOk := true } }] ++
    List.replicate 6 (.tick 0)

/-- The slot names a block whose `jit_ctx` is `NULL`. -/
theorem slotOwner_claimed :
    ((run step (start true) claimed).slot ⟨0, 0, 0, some 3⟩ 2).blk = some 5 ∧
      ((run step (start true) claimed).blocks 5).map (fun b => b.jitCtx) = some none ∧
      ¬ ∀ ops c i x, ((run step (start true) ops).slot c i).blk = some x →
        ∃ b, (run step (start true) ops).blocks x = some b ∧ b.jitCtx = some c := by
  have hblk : ((run step (start true) claimed).slot ⟨0, 0, 0, some 3⟩ 2).blk = some 5 := by
    decide
  have hctx : ((run step (start true) claimed).blocks 5).map (fun b => b.jitCtx) = some none := by
    decide
  refine ⟨hblk, hctx, fun hall => ?_⟩
  obtain ⟨b, hb, hc⟩ := hall claimed _ _ _ hblk
  rw [hb, Option.map_some, hc] at hctx
  cases hctx

end IosLinuxkit.Asbestos.JitSlot
