import Mathlib.Data.Nat.Basic
import Mathlib.Tactic.Set
import IosLinuxkit.Asbestos.JitSlot

/-!
# A slot has one live owner

The invariant of `Asbestos.JitSlot`, by rely and guarantee: what a thread knows at each of its
stores (`PhaseOk`) rests on its own block, on the slot it has reserved, on the registry and on
`ctx_lock`, and no step of another thread takes these from it (`Rely`, `PhaseOk.rely`).
-/

namespace IosLinuxkit.Asbestos.JitSlot

variable {s s' : State} {t t' x y i : Nat} {b : Blk} {c : Ctx} {j : Job} {p : Phase}

/-! ## What a thread knows -/

def Blk.HeldBy (b : Blk) (t : Nat) : Prop := b.stage = .compiling t ∨ b.stage = .freeing t

def Blk.Bare (b : Blk) : Prop := ∀ n, ¬ b.Has n

def Unslotted (s : State) (x : Nat) : Prop := ∀ c i, (s.slot c i).blk ≠ some x

def Held (s : State) (t x : Nat) (P : Blk → Prop) : Prop :=
  ∃ b, s.blocks x = some b ∧ b.stage = .compiling t ∧ P b

def Registered (s : State) (mod idx : Nat) : Prop := ∃ e ∈ s.reg, e.mod = mod ∧ e.idx = idx

structure JobOk (s : State) (j : Job) : Prop where
  segs : ∀ g ∈ j.segs, g.2.home = j.ctx.home ∧ g.2.idx = j.idx
  claim : j.fresh = none → j.ctx.owner = none → Registered s j.ctx.mod j.idx
  fresh : j.fresh.isSome = true → j.ctx.owner = none

def Job.before (j : Job) : Option Ctx := if j.fresh.isSome then some j.ctx else none

structure Reserved (s : State) (t : Nat) (j : Job) : Prop where
  free : (s.slot j.ctx j.idx).blk = none
  unslotted : Unslotted s j.blk
  lock : j.fresh = none → s.ctxLock = some t

def Written (j : Job) (b : Blk) : Prop :=
  (b.Bare ∧ b.jitCtx = j.before) ∧ b.jitIdx = j.idx ∧ b.installed = some (j.base, j.dbase)

def PhaseOk (s : State) (t : Nat) : Phase → Prop
  | .idle => True
  | .translate x => Held s t x (fun b => b.Bare ∧ b.jitCtx = none) ∧ Unslotted s x
  | .lock j =>
    j.fresh = none ∧ JobOk s j ∧ Held s t j.blk (fun b => b.Bare ∧ b.jitCtx = none) ∧
      Unslotted s j.blk
  | .check j =>
    j.fresh = none ∧ JobOk s j ∧ Held s t j.blk (fun b => b.Bare ∧ b.jitCtx = none) ∧
      Unslotted s j.blk ∧ s.ctxLock = some t
  | .refused j =>
    Held s t j.blk (fun b => b.Bare ∧ b.jitCtx = none) ∧ Unslotted s j.blk ∧ s.ctxLock = some t
  | .setCtx j =>
    JobOk s j ∧ Held s t j.blk (fun b => b.Bare ∧ b.jitCtx = none) ∧
      (j.fresh.isSome = true → Reserved s t j) ∧ (j.fresh = none →
        (s.slot j.ctx j.idx).blk = some j.blk ∧ Held s t j.blk fun b => b.jitIdx = j.idx)
  | .setIdx j =>
    JobOk s j ∧ Reserved s t j ∧ Held s t j.blk fun b => b.Bare ∧ b.jitCtx = j.before
  | .setDbase j => JobOk s j ∧ Reserved s t j ∧ Held s t j.blk (Written j)
  | .setBase j =>
    JobOk s j ∧ Reserved s t j ∧ Held s t j.blk (Written j) ∧ (s.slot j.ctx j.idx).dbase = j.dbase
  | .setBlk j =>
    JobOk s j ∧ Reserved s t j ∧ Held s t j.blk (Written j) ∧
      (s.slot j.ctx j.idx).dbase = j.dbase ∧ (s.slot j.ctx j.idx).base = j.base
  | .unlock j =>
    j.fresh = none ∧ JobOk s j ∧ (s.slot j.ctx j.idx).blk = some j.blk ∧
      Held s t j.blk (Written j) ∧ s.ctxLock = some t
  | .install j rest =>
    JobOk s j ∧ (∀ g ∈ rest, g ∈ j.segs) ∧ (s.slot j.ctx j.idx).blk = some j.blk ∧
      Held s t j.blk fun b => b.jitCtx = some j.ctx ∧ b.jitIdx = j.idx
  | .publish j => j.fresh.isSome = true ∧ JobOk s j ∧ Held s t j.blk fun _ => True
  | .cas x => ∃ b, s.blocks x = some b ∧ b.stage = .freeing t
  | .free x => (∃ b, s.blocks x = some b ∧ b.stage = .freeing t) ∧ Unslotted s x

def Phase.reserves : Phase → Option Job
  | .setIdx j | .setDbase j | .setBase j | .setBlk j => some j
  | .setCtx j => if j.fresh.isSome then some j else none
  | _ => none

def Phase.making : Phase → Option (Nat × Nat)
  | .setCtx j | .setIdx j | .setDbase j | .setBase j | .setBlk j | .install j _ | .publish j =>
    if j.fresh.isSome then some (j.ctx.mod, j.idx) else none
  | _ => none

/-- The thread has claimed slot `c` for block `x` and has yet to store the block's `jit_ctx`. -/
def Phase.Claimed (p : Phase) (c : Ctx) (x : Nat) : Prop :=
  ∃ j, (p = .unlock j ∨ p = .setCtx j) ∧ j.fresh = none ∧ j.ctx = c ∧ j.blk = x

/-! ## The invariant -/

def SlotOk (s : State) (c : Ctx) (i x : Nat) : Prop :=
  ∃ b, s.blocks x = some b ∧ b.jitIdx = i ∧
    b.installed = some ((s.slot c i).base, (s.slot c i).dbase) ∧
    (c.owner = none → i < s.nextIdx c.mod) ∧ (b.jitCtx = some c ∨
      b.jitCtx = none ∧ b.Bare ∧ ∃ t, b.stage = .compiling t ∧ (s.thread t).Claimed c x)

def CodeOk (s : State) (x : Nat) (b : Blk) : Prop :=
  ∀ n, b.Has n → ∃ c, b.jitCtx = some c ∧ n.home = c.home ∧ n.idx = b.jitIdx ∧
    ((∀ t, b.stage ≠ .freeing t) → (s.slot c b.jitIdx).blk = some x)

structure Inv (s : State) : Prop where
  slots : ∀ c i x, (s.slot c i).blk = some x → SlotOk s c i x
  code : ∀ x b, s.blocks x = some b → CodeOk s x b
  threads : ∀ t, PhaseOk s t (s.thread t)
  making : ∀ t m i, (s.thread t).making = some (m, i) → i < s.nextIdx m ∧ ¬ Registered s m i
  makingInj : ∀ t t' q, (s.thread t).making = some q → (s.thread t').making = some q → t = t'
  reg : ∀ e ∈ s.reg, e.idx < s.nextIdx e.mod ∧ ∀ g ∈ e.segs, g.2.home = .own e.mod ∧ g.2.idx = e.idx

theorem inv_start (pinned : Bool) : Inv (start pinned) where
  slots _ _ _ h := nomatch h
  code _ _ h := nomatch h
  threads _ := trivial
  making _ _ _ h := nomatch h
  makingInj _ _ _ h := nomatch h
  reg _ he := nomatch he

/-! ## What the others leave alone -/

structure Rely (s s' : State) (t : Nat) : Prop where
  blocks : ∀ x b, s.blocks x = some b → b.HeldBy t → s'.blocks x = some b
  reserved : ∀ j, (s.thread t).reserves = some j → s'.slot j.ctx j.idx = s.slot j.ctx j.idx
  owned : ∀ c i x b, (s.slot c i).blk = some x → s.blocks x = some b → b.HeldBy t →
    s'.slot c i = s.slot c i
  unslotted : ∀ x b, s.blocks x = some b → b.HeldBy t → Unslotted s x → Unslotted s' x
  reg : ∀ e ∈ s.reg, e ∈ s'.reg
  lock : s.ctxLock = some t → s'.ctxLock = some t

theorem Held.mono {P Q : Blk → Prop} (h : Held s t x P) (hPQ : ∀ b, P b → Q b) : Held s t x Q := by
  obtain ⟨b, hb, hst, hP⟩ := h
  exact ⟨b, hb, hst, hPQ b hP⟩

theorem Held.rely {P : Blk → Prop} (h : Held s t x P) (hr : Rely s s' t) : Held s' t x P := by
  obtain ⟨b, hb, hst, hP⟩ := h
  exact ⟨b, hr.blocks x b hb (Or.inl hst), hst, hP⟩

theorem Held.unslotted {P : Blk → Prop} (h : Held s t x P) (hr : Rely s s' t)
    (hu : Unslotted s x) : Unslotted s' x := by
  obtain ⟨b, hb, hst, _⟩ := h
  exact hr.unslotted x b hb (Or.inl hst) hu

theorem Held.slot {P : Blk → Prop} (h : Held s t x P) (hr : Rely s s' t)
    (hs : (s.slot c i).blk = some x) : (s'.slot c i).blk = some x := by
  obtain ⟨b, hb, hst, _⟩ := h
  rw [hr.owned c i x b hs hb (Or.inl hst)]
  exact hs

theorem JobOk.reg (h : JobOk s j) (hreg : ∀ e ∈ s.reg, e ∈ s'.reg) : JobOk s' j where
  segs := h.segs
  claim hf ho := by
    obtain ⟨e, he, hk⟩ := h.claim hf ho
    exact ⟨e, hreg e he, hk⟩
  fresh := h.fresh

theorem Reserved.rely {P : Blk → Prop} (h : Reserved s t j) (hheld : Held s t j.blk P)
    (hr : Rely s s' t) (hres : (s.thread t).reserves = some j) : Reserved s' t j where
  free := by
    rw [hr.reserved j hres]
    exact h.free
  unslotted := hheld.unslotted hr h.unslotted
  lock hf := hr.lock (h.lock hf)

theorem PhaseOk.rely (h : PhaseOk s t (s.thread t)) (hr : Rely s s' t) :
    PhaseOk s' t (s.thread t) := by
  have hres := hr.reserved
  have hresv : ∀ j P, Reserved s t j → Held s t j.blk P → (s.thread t).reserves = some j →
      Reserved s' t j := fun j P h hheld hj => h.rely hheld hr hj
  generalize s.thread t = p at h hres hresv
  cases p with
  | idle => trivial
  | translate x => exact ⟨h.1.rely hr, h.1.unslotted hr h.2⟩
  | lock j => exact ⟨h.1, h.2.1.reg hr.reg, h.2.2.1.rely hr, h.2.2.1.unslotted hr h.2.2.2⟩
  | check j =>
    obtain ⟨hf, hj, hheld, hu, hl⟩ := h
    exact ⟨hf, hj.reg hr.reg, hheld.rely hr, hheld.unslotted hr hu, hr.lock hl⟩
  | refused j => exact ⟨h.1.rely hr, h.1.unslotted hr h.2.1, hr.lock h.2.2⟩
  | setCtx j =>
    obtain ⟨hj, hheld, hfresh, hclaim⟩ := h
    refine ⟨hj.reg hr.reg, hheld.rely hr, fun hf => ?_, fun hf => ?_⟩
    · exact hresv j _ (hfresh hf) hheld (if_pos hf)
    · exact ⟨hheld.slot hr (hclaim hf).1, (hclaim hf).2.rely hr⟩
  | setIdx j => exact ⟨h.1.reg hr.reg, hresv j _ h.2.1 h.2.2 rfl, h.2.2.rely hr⟩
  | setDbase j => exact ⟨h.1.reg hr.reg, hresv j _ h.2.1 h.2.2 rfl, h.2.2.rely hr⟩
  | setBase j =>
    obtain ⟨hj, hrs, hheld, hd⟩ := h
    refine ⟨hj.reg hr.reg, hresv j _ hrs hheld rfl, hheld.rely hr, ?_⟩
    rw [hres j rfl]
    exact hd
  | setBlk j =>
    obtain ⟨hj, hrs, hheld, hd, hb⟩ := h
    refine ⟨hj.reg hr.reg, hresv j _ hrs hheld rfl, hheld.rely hr, ?_, ?_⟩
    · rw [hres j rfl]
      exact hd
    · rw [hres j rfl]
      exact hb
  | unlock j =>
    obtain ⟨hf, hj, hs, hheld, hl⟩ := h
    exact ⟨hf, hj.reg hr.reg, hheld.slot hr hs, hheld.rely hr, hr.lock hl⟩
  | install j rest =>
    obtain ⟨hj, hrest, hs, hheld⟩ := h
    exact ⟨hj.reg hr.reg, hrest, hheld.slot hr hs, hheld.rely hr⟩
  | publish j => exact ⟨h.1, h.2.1.reg hr.reg, h.2.2.rely hr⟩
  | cas x =>
    obtain ⟨b, hb, hst⟩ := h
    exact ⟨b, hr.blocks x b hb (Or.inr hst), hst⟩
  | free x =>
    obtain ⟨⟨b, hb, hst⟩, hu⟩ := h
    exact ⟨⟨b, hr.blocks x b hb (Or.inr hst), hst⟩, hr.unslotted x b hb (Or.inr hst) hu⟩

theorem Inv.reserves (h : Inv s) (hj : (s.thread t).reserves = some j) :
    JobOk s j ∧ Reserved s t j ∧
      (j.fresh.isSome = true → (s.thread t).making = some (j.ctx.mod, j.idx)) := by
  have ht := h.threads t
  generalize s.thread t = p at hj ht
  cases p with
  | setCtx k =>
    simp only [Phase.reserves] at hj
    split_ifs at hj with hf
    cases hj
    exact ⟨ht.1, ht.2.2.1 hf, fun hf => if_pos hf⟩
  | setIdx k =>
    cases hj
    exact ⟨ht.1, ht.2.1, fun hf => if_pos hf⟩
  | setDbase k =>
    cases hj
    exact ⟨ht.1, ht.2.1, fun hf => if_pos hf⟩
  | setBase k =>
    cases hj
    exact ⟨ht.1, ht.2.1, fun hf => if_pos hf⟩
  | setBlk k =>
    cases hj
    exact ⟨ht.1, ht.2.1, fun hf => if_pos hf⟩
  | _ => cases hj

theorem Inv.fresh_ne_claimed {j' : Job} (h : Inv s) (hj : (s.thread t).reserves = some j)
    (hj' : (s.thread t').reserves = some j') (hctx : j.ctx = j'.ctx) (hidx : j.idx = j'.idx)
    (hf : j.fresh.isSome = true) : j'.fresh ≠ none := by
  intro hf'
  obtain ⟨hok, _, hmk⟩ := h.reserves hj
  have hreg := (h.reserves hj').1.claim hf' (hctx ▸ hok.fresh hf)
  rw [← hctx, ← hidx] at hreg
  exact (h.making t _ _ (hmk hf)).2 hreg

theorem Inv.reserve_inj {j' : Job} (h : Inv s) (hj : (s.thread t).reserves = some j)
    (hj' : (s.thread t').reserves = some j') (hctx : j.ctx = j'.ctx) (hidx : j.idx = j'.idx) :
    t = t' := by
  obtain ⟨_, hres, hmk⟩ := h.reserves hj
  obtain ⟨_, hres', hmk'⟩ := h.reserves hj'
  cases hf : j.fresh with
  | none =>
    cases hf' : j'.fresh with
    | none =>
      have hl := hres.lock hf
      rw [hres'.lock hf'] at hl
      exact (Option.some.inj hl).symm
    | some k => exact absurd hf (h.fresh_ne_claimed hj' hj hctx.symm hidx.symm (by rw [hf']; rfl))
  | some k =>
    cases hf' : j'.fresh with
    | none => exact absurd hf' (h.fresh_ne_claimed hj hj' hctx hidx (by rw [hf]; rfl))
    | some k' =>
      refine h.makingInj t t' _ (hmk (by rw [hf]; rfl)) ?_
      rw [hctx, hidx]
      exact hmk' (by rw [hf']; rfl)

/-! ## A step of one thread -/

structure Registers (s s' : State) (t : Nat) : Prop where
  next : ∀ m, s.nextIdx m ≤ s'.nextIdx m
  reg : s'.reg = s.reg ∨ (s'.thread t).making = none ∧ ∃ e, s'.reg = e :: s.reg ∧
    (s.thread t).making = some (e.mod, e.idx) ∧
    ∀ g ∈ e.segs, g.2.home = .own e.mod ∧ g.2.idx = e.idx
  making : ∀ m i, (s'.thread t).making = some (m, i) →
    (s.thread t).making = some (m, i) ∨ s.nextIdx m ≤ i ∧ i < s'.nextIdx m

theorem Registers.of_eq (hnext : s'.nextIdx = s.nextIdx) (hreg : s'.reg = s.reg)
    (hmk : ∀ q, (s'.thread t).making = some q → (s.thread t).making = some q) :
    Registers s s' t where
  next m := by rw [hnext]
  reg := Or.inl hreg
  making m i hq := Or.inl (hmk _ hq)

theorem Registers.mem (h : Registers s s' t) {e : RegEntry} (he : e ∈ s.reg) : e ∈ s'.reg := by
  rcases h.reg with hreg | ⟨_, e', hreg, _⟩
  · rw [hreg]
    exact he
  · rw [hreg]
    exact List.mem_cons_of_mem _ he

theorem Registers.making_other (h : Registers s s' t) (hinv : Inv s) {m : Nat} (ht : t' ≠ t)
    (hm : (s.thread t').making = some (m, i)) : i < s'.nextIdx m ∧ ¬ Registered s' m i := by
  obtain ⟨hlt, hnr⟩ := hinv.making t' m i hm
  refine ⟨Nat.lt_of_lt_of_le hlt (h.next m), ?_⟩
  rintro ⟨e, he, hmod, hidx⟩
  rcases h.reg with hreg | ⟨_, e', hreg, hmk', _⟩
  · rw [hreg] at he
    exact hnr ⟨e, he, hmod, hidx⟩
  rw [hreg] at he
  rcases List.mem_cons.mp he with rfl | he
  · rw [hmod, hidx] at hmk'
    exact ht (hinv.makingInj t' t _ hm hmk')
  · exact hnr ⟨e, he, hmod, hidx⟩

theorem Registers.making_own (h : Registers s s' t) (hinv : Inv s) {m : Nat}
    (hm : (s'.thread t).making = some (m, i)) : i < s'.nextIdx m ∧ ¬ Registered s' m i := by
  rcases h.reg with hreg | ⟨hnone, _⟩
  · have hR : Registered s' m i → Registered s m i := by
      unfold Registered
      rw [hreg]
      exact id
    rcases h.making m i hm with hold | ⟨hge, hlt⟩
    · obtain ⟨hlt, hnr⟩ := hinv.making t m i hold
      exact ⟨Nat.lt_of_lt_of_le hlt (h.next m), fun hr => hnr (hR hr)⟩
    refine ⟨hlt, fun hr => ?_⟩
    obtain ⟨e, he, rfl, rfl⟩ := hR hr
    exact absurd (hinv.reg e he).1 (Nat.not_lt.mpr hge)
  · rw [hnone] at hm
    cases hm

theorem Registers.making_ne (h : Registers s s' t) (hinv : Inv s) {q : Nat × Nat} (ht : t' ≠ t)
    (hm : (s.thread t').making = some q) : (s'.thread t).making ≠ some q := by
  obtain ⟨m, i⟩ := q
  intro hm'
  rcases h.making m i hm' with hold | ⟨hge, _⟩
  · exact ht (hinv.makingInj t' t _ hm hold)
  · exact absurd (hinv.making t' m i hm).1 (Nat.not_lt.mpr hge)

/-- **The rule.** A step of thread `t` is to leave the others what they rest on, and to account for
the slots, the code and its own next store. -/
theorem Inv.of_rely (h : Inv s) (hthread : ∀ t', t' ≠ t → s'.thread t' = s.thread t')
    (hregs : Registers s s' t) (hrely : ∀ t', t' ≠ t → Rely s s' t')
    (hown : PhaseOk s' t (s'.thread t))
    (hslots : ∀ c i x, (s'.slot c i).blk = some x → SlotOk s' c i x)
    (hcode : ∀ x b, s'.blocks x = some b → CodeOk s' x b) : Inv s' := by
  refine { slots := hslots, code := hcode, threads := ?_, making := ?_, makingInj := ?_, reg := ?_ }
  · intro t₀
    by_cases ht : t₀ = t
    · subst ht
      exact hown
    · rw [hthread t₀ ht]
      exact (h.threads t₀).rely (hrely t₀ ht)
  · intro t₀ m i hm
    by_cases ht : t₀ = t
    · subst ht
      exact hregs.making_own h hm
    · rw [hthread t₀ ht] at hm
      exact hregs.making_other h ht hm
  · intro t₀ t₁ q hq hq'
    by_cases ht : t₀ = t
    · by_cases ht' : t₁ = t
      · exact ht.trans ht'.symm
      subst ht
      rw [hthread t₁ ht'] at hq'
      exact absurd hq (hregs.making_ne h ht' hq')
    rw [hthread t₀ ht] at hq
    by_cases ht' : t₁ = t
    · subst ht'
      exact absurd hq' (hregs.making_ne h ht hq)
    · rw [hthread t₁ ht'] at hq'
      exact h.makingInj t₀ t₁ q hq hq'
  intro e he
  have old : e ∈ s.reg → e.idx < s'.nextIdx e.mod ∧
      ∀ g ∈ e.segs, g.2.home = .own e.mod ∧ g.2.idx = e.idx :=
    fun he => ⟨Nat.lt_of_lt_of_le (h.reg e he).1 (hregs.next _), (h.reg e he).2⟩
  rcases hregs.reg with hreg | ⟨_, e', hreg, hmk', hsegs⟩
  · rw [hreg] at he
    exact old he
  rw [hreg] at he
  rcases List.mem_cons.mp he with rfl | he
  · exact ⟨Nat.lt_of_lt_of_le (h.making t _ _ hmk').1 (hregs.next _), hsegs⟩
  · exact old he

theorem SlotOk.keep (h : SlotOk s c i x) (hb : s'.blocks x = s.blocks x)
    (hs : s'.slot c i = s.slot c i) (hn : ∀ m, s.nextIdx m ≤ s'.nextIdx m)
    (hthread : ∀ t', t' ≠ t → s'.thread t' = s.thread t')
    (hclaim : (s.thread t).Claimed c x → (s'.thread t).Claimed c x) : SlotOk s' c i x := by
  obtain ⟨b, hbx, hidx, hinst, hlt, hctx⟩ := h
  refine ⟨b, hb.trans hbx, hidx, by rw [hs]; exact hinst,
    fun ho => Nat.lt_of_lt_of_le (hlt ho) (hn _), ?_⟩
  rcases hctx with hctx | ⟨hnone, hbare, t₀, hst, hcl⟩
  · exact Or.inl hctx
  refine Or.inr ⟨hnone, hbare, t₀, hst, ?_⟩
  by_cases ht : t₀ = t
  · subst ht
    exact hclaim hcl
  · rw [hthread t₀ ht]
    exact hcl

/-! ### Without a change of the slots -/

structure Local (s s' : State) (t x : Nat) : Prop where
  thread : ∀ t', t' ≠ t → s'.thread t' = s.thread t'
  slot : s'.slot = s.slot
  blocks : ∀ y, y ≠ x → s'.blocks y = s.blocks y
  mine : ∀ b, s.blocks x = some b → ∀ t', t' ≠ t → ¬ b.HeldBy t'
  claimed : ∀ c y, y ≠ x → (s.thread t).Claimed c y → (s'.thread t).Claimed c y
  lock : ∀ t', t' ≠ t → s.ctxLock = some t' → s'.ctxLock = some t'

theorem Inv.local (h : Inv s) (hl : Local s s' t x) (hregs : Registers s s' t)
    (hown : PhaseOk s' t (s'.thread t))
    (hslots : ∀ c i, (s.slot c i).blk = some x → SlotOk s' c i x)
    (hcode : ∀ b, s'.blocks x = some b → CodeOk s' x b) : Inv s' := by
  refine h.of_rely hl.thread hregs (fun t' ht => ?_) hown (fun c i y hy => ?_) (fun y b hb => ?_)
  · exact
      { blocks := fun y b hb hheld => by
          have hy : y ≠ x := by
            rintro rfl
            exact hl.mine b hb t' ht hheld
          exact (hl.blocks y hy).trans hb
        reserved := fun j _ => by rw [hl.slot]
        owned := fun c i y b _ _ _ => by rw [hl.slot]
        unslotted := fun y b _ _ hu c i => by
          rw [hl.slot]
          exact hu c i
        reg := fun e he => hregs.mem he
        lock := hl.lock t' ht }
  · rw [hl.slot] at hy
    by_cases hyx : y = x
    · subst hyx
      exact hslots c i hy
    · exact (h.slots c i y hy).keep (hl.blocks y hyx) (by rw [hl.slot]) hregs.next hl.thread
        (hl.claimed c y hyx)
  by_cases hyx : y = x
  · subst hyx
    exact hcode b hb
  rw [hl.blocks y hyx] at hb
  intro n hn
  obtain ⟨c, hc⟩ := h.code y b hb n hn
  rw [hl.slot]
  exact ⟨c, hc⟩

theorem Inv.goto {l : Option Nat} (h : Inv s) (hown : PhaseOk { s.goto t p with ctxLock := l } t p)
    (hclaim : ∀ c y, (s.thread t).Claimed c y → p.Claimed c y)
    (hmk : ∀ q, p.making = some q → (s.thread t).making = some q)
    (hlock : ∀ t', t' ≠ t → s.ctxLock = some t' → l = some t') :
    Inv { s.goto t p with ctxLock := l } := by
  set s' : State := { s.goto t p with ctxLock := l }
  have hp : s'.thread t = p := Function.update_self _ _ _
  have hthread : ∀ t', t' ≠ t → s'.thread t' = s.thread t' :=
    fun t' ht => Function.update_of_ne ht _ _
  refine h.of_rely hthread ?_ (fun t' ht => ?_) ?_ (fun c i y hy => ?_) h.code
  · refine Registers.of_eq rfl rfl fun q hq => hmk q ?_
    rw [hp] at hq
    exact hq
  · exact
      { blocks := fun _ _ hb _ => hb
        reserved := fun _ _ => rfl
        owned := fun _ _ _ _ _ _ _ => rfl
        unslotted := fun _ _ _ _ hu => hu
        reg := fun _ he => he
        lock := hlock t' ht }
  · rw [hp]
    exact hown
  refine (h.slots c i y hy).keep rfl rfl (fun _ => Nat.le_refl _) hthread fun hcl => ?_
  rw [hp]
  exact hclaim c y hcl

/-! ### With a change of a slot -/

theorem setSlot_self (s : State) (c : Ctx) (i : Nat) (w : Slot) :
    (s.setSlot c i w).slot c i = w := by
  simp [State.setSlot]

theorem setSlot_of_ne {c' : Ctx} {i' : Nat} (s : State) (w : Slot) (h : ¬(c' = c ∧ i' = i)) :
    (s.setSlot c i w).slot c' i' = s.slot c' i' := by
  by_cases hc : c' = c
  · subst hc
    have hi : i' ≠ i := fun hi => h ⟨rfl, hi⟩
    simp [State.setSlot, Function.update_of_ne hi]
  · simp [State.setSlot, Function.update_of_ne hc]

theorem reserves_not_claimed (h : p.reserves = some j) (c : Ctx) (x : Nat) : ¬ p.Claimed c x := by
  rintro ⟨k, hk, hf, _⟩
  rcases hk with rfl | rfl
  · cases h
  · simp [Phase.reserves, hf] at h

theorem Inv.setSlot {w : Slot} (h : Inv s) (hres : (s.thread t).reserves = some j)
    (hw : w.blk = none ∨ w.blk = some j.blk) (hheld : Held s t j.blk (Written j))
    (hown : PhaseOk ((s.setSlot j.ctx j.idx w).goto t p) t p)
    (hblk : w.blk = some j.blk → SlotOk ((s.setSlot j.ctx j.idx w).goto t p) j.ctx j.idx j.blk)
    (hmk : p.making = (s.thread t).making) : Inv ((s.setSlot j.ctx j.idx w).goto t p) := by
  obtain ⟨_, hr, _⟩ := h.reserves hres
  obtain ⟨bj, hbj, hstj, _⟩ := hheld
  set s' := (s.setSlot j.ctx j.idx w).goto t p
  have hself : s'.slot j.ctx j.idx = w := setSlot_self s j.ctx j.idx w
  have hother : ∀ {c i}, ¬(c = j.ctx ∧ i = j.idx) → s'.slot c i = s.slot c i :=
    fun hne => setSlot_of_ne s w hne
  have hthread : ∀ t', t' ≠ t → s'.thread t' = s.thread t' :=
    fun t' ht => Function.update_of_ne ht _ _
  have hp : s'.thread t = p := Function.update_self _ _ _
  -- a slot with an owner is not the reserved one
  have hkeep : ∀ {c i y}, (s.slot c i).blk = some y → s'.slot c i = s.slot c i := by
    intro c i y hy
    refine hother ?_
    rintro ⟨rfl, rfl⟩
    rw [hr.free] at hy
    cases hy
  -- and the reserved one gets no other block than the thread's
  have hnew : ∀ {y}, (s'.slot j.ctx j.idx).blk = some y → w.blk = some j.blk ∧ y = j.blk := by
    intro y hy
    rw [hself] at hy
    rcases hw with hw | hw
    · rw [hw] at hy
      cases hy
    rw [hw] at hy
    cases hy
    exact ⟨hw, rfl⟩
  refine h.of_rely hthread ?_ (fun t' ht => ?_) ?_ (fun c i y hy => ?_) (fun y b hb n hn => ?_)
  · refine Registers.of_eq rfl rfl fun q hq => ?_
    rw [hp, hmk] at hq
    exact hq
  · refine
      { blocks := fun y b hb _ => hb
        reserved := fun k hk => hother fun hci => ht (h.reserve_inj hk hres hci.1 hci.2)
        owned := fun c i y b hy _ _ => hkeep hy
        unslotted := fun y b hb hheld hu c i => ?_
        reg := fun e he => he
        lock := id }
    by_cases hci : c = j.ctx ∧ i = j.idx
    · obtain ⟨rfl, rfl⟩ := hci
      intro hy
      obtain ⟨_, rfl⟩ := hnew hy
      rw [hbj] at hb
      cases hb
      unfold Blk.HeldBy at hheld
      rw [hstj] at hheld
      rcases hheld with hst | hst
      · exact ht (Stage.compiling.inj hst).symm
      · cases hst
    · rw [hother hci]
      exact hu c i
  · rw [hp]
    exact hown
  · by_cases hci : c = j.ctx ∧ i = j.idx
    · obtain ⟨rfl, rfl⟩ := hci
      obtain ⟨hw', rfl⟩ := hnew hy
      exact hblk hw'
    rw [hother hci] at hy
    exact (h.slots c i y hy).keep rfl (hother hci) (fun _ => Nat.le_refl _) hthread
      fun hcl => absurd hcl (reserves_not_claimed hres c y)
  obtain ⟨c, hctx, hhome, hidx, hslot⟩ := h.code y b hb n hn
  refine ⟨c, hctx, hhome, hidx, fun hst => ?_⟩
  rw [hkeep (hslot hst)]
  exact hslot hst

theorem Inv.cas (h : Inv s) (ht : s.thread t = .cas x) : Inv (tick s t) := by
  have hph := h.threads t
  rw [ht] at hph
  obtain ⟨b, hb, hst⟩ := hph
  -- the block is not being claimed for, so its fields say which slot may name it
  have hwhere : ∀ c i, (s.slot c i).blk = some x → b.jitCtx = some c ∧ b.jitIdx = i := by
    intro c i hx
    obtain ⟨b', hb', hidx, _, _, hctx⟩ := h.slots c i x hx
    rw [hb] at hb'
    cases hb'
    rcases hctx with hctx | ⟨_, _, t₀, hst', _⟩
    · exact ⟨hctx, hidx⟩
    · rw [hst] at hst'
      cases hst'
  have hnoclaim : ∀ c y, (s.thread t).Claimed c y → (Phase.free x).Claimed c y := by
    rintro c y ⟨k, hk, _⟩
    rw [ht] at hk
    rcases hk with hk | hk <;> cases hk
  have hskip : Unslotted s x → Inv (s.goto t (.free x)) := fun hu =>
    h.goto (l := s.ctxLock) ⟨⟨b, hb, hst⟩, hu⟩ hnoclaim (fun q hq => nomatch hq)
      (fun _ _ hl => hl)
  unfold tick
  rw [ht]
  dsimp only
  rw [hb]
  dsimp only
  cases hctx : b.jitCtx with
  | none =>
    refine hskip fun c i hx => ?_
    rw [(hwhere c i hx).1] at hctx
    cases hctx
  | some c =>
    dsimp only
    split
    case isFalse hne =>
      refine hskip fun c' i hx => hne ?_
      obtain ⟨hc', hi⟩ := hwhere c' i hx
      rw [hctx] at hc'
      cases hc'
      rw [hi]
      exact hx
    case isTrue hx =>
      set w : Slot := { s.slot c b.jitIdx with blk := none } with hw
      set s' := (s.goto t (.free x)).setSlot c b.jitIdx w with hs'
      have hself : s'.slot c b.jitIdx = w := setSlot_self (s.goto t (.free x)) c b.jitIdx w
      have hother : ∀ {c' i'}, ¬(c' = c ∧ i' = b.jitIdx) → s'.slot c' i' = s.slot c' i' :=
        fun hne => setSlot_of_ne (s.goto t (.free x)) w hne
      have hthread : ∀ t', t' ≠ t → s'.thread t' = s.thread t' :=
        fun t' ht => Function.update_of_ne ht _ _
      have hp : s'.thread t = .free x := Function.update_self _ _ _
      -- the slots of other blocks stay as they are
      have hkeep : ∀ {c' i' y}, (s.slot c' i').blk = some y → y ≠ x →
          s'.slot c' i' = s.slot c' i' := by
        intro c' i' y hy hyx
        refine hother ?_
        rintro ⟨rfl, rfl⟩
        rw [hx] at hy
        exact hyx (Option.some.inj hy).symm
      have hback : ∀ {c' i' y}, (s'.slot c' i').blk = some y →
          (s.slot c' i').blk = some y ∧ y ≠ x := by
        intro c' i' y hy
        by_cases hci : c' = c ∧ i' = b.jitIdx
        · obtain ⟨rfl, rfl⟩ := hci
          rw [hself] at hy
          cases hy
        rw [hother hci] at hy
        refine ⟨hy, ?_⟩
        rintro rfl
        obtain ⟨hc', hi'⟩ := hwhere c' i' hy
        rw [hctx] at hc'
        exact hci ⟨(Option.some.inj hc').symm, hi'.symm⟩
      have hmine : ∀ {t' y b'}, t' ≠ t → s.blocks y = some b' → b'.HeldBy t' → y ≠ x := by
        rintro t' y b' hne hb' hheld rfl
        rw [hb] at hb'
        cases hb'
        unfold Blk.HeldBy at hheld
        rw [hst] at hheld
        rcases hheld with hst' | hst'
        · cases hst'
        · exact hne (Stage.freeing.inj hst').symm
      refine h.of_rely hthread ?_ (fun t' hne => ?_) ?_ (fun c' i' y hy => ?_)
        (fun y b' hb' n hn => ?_)
      · refine Registers.of_eq rfl rfl fun q hq => ?_
        rw [hp] at hq
        cases hq
      · refine
          { blocks := fun y b hb _ => hb
            reserved := fun k hk => ?_
            owned := fun c' i' y b' hy hb' hheld => hkeep hy (hmine hne hb' hheld)
            unslotted := fun y b' hb' hheld hu c' i' hy => hu c' i' (hback hy).1
            reg := fun e he => he
            lock := id }
        -- a reserved slot is free, so not the one that is cleared
        refine hother ?_
        rintro ⟨hc', hi'⟩
        have hfree := (h.reserves hk).2.1.free
        rw [hc', hi', hx] at hfree
        cases hfree
      · rw [hp]
        exact ⟨⟨b, hb, hst⟩, fun c' i' hy => (hback hy).2 rfl⟩
      · obtain ⟨hy', hyx⟩ := hback hy
        refine (h.slots c' i' y hy').keep rfl (hkeep hy' hyx) (fun _ => Nat.le_refl _) hthread
          fun hcl => ?_
        rw [hp]
        exact hnoclaim c' y hcl
      obtain ⟨c', hctx', hhome, hidx, hslot⟩ := h.code y b' hb' n hn
      refine ⟨c', hctx', hhome, hidx, fun hst' => ?_⟩
      have hyx : y ≠ x := by
        rintro rfl
        rw [show s'.blocks y = s.blocks y from rfl, hb] at hb'
        cases hb'
        exact hst' t hst
      rw [hkeep (hslot hst') hyx]
      exact hslot hst'

/-! ## The stores of `slot_set` -/

theorem goto_slot (s : State) (t : Nat) (p : Phase) : (s.goto t p).slot = s.slot := rfl

theorem Reserved.setSlot {w : Slot} (h : Reserved s t j) (hw : w.blk = none) :
    Reserved ((s.setSlot j.ctx j.idx w).goto t p) t j where
  free := by
    rw [goto_slot, setSlot_self]
    exact hw
  unslotted c i := by
    rw [goto_slot]
    by_cases hci : c = j.ctx ∧ i = j.idx
    · obtain ⟨rfl, rfl⟩ := hci
      rw [setSlot_self, hw]
      exact fun hx => nomatch hx
    · rw [setSlot_of_ne s w hci]
      exact h.unslotted c i
  lock := h.lock

theorem Inv.setDbase (h : Inv s) (ht : s.thread t = .setDbase j) : Inv (tick s t) := by
  have hph := h.threads t
  rw [ht] at hph
  obtain ⟨hj, hr, hheld⟩ := hph
  unfold tick
  rw [ht]
  dsimp only
  refine h.setSlot (by rw [ht]; rfl) (Or.inl hr.free) hheld ?_ (fun hw => ?_) (by rw [ht]; rfl)
  · refine ⟨hj.reg fun _ he => he, hr.setSlot hr.free, hheld, ?_⟩
    rw [goto_slot, setSlot_self]
  · exact nomatch (hr.free.symm.trans hw)

theorem Inv.setBase (h : Inv s) (ht : s.thread t = .setBase j) : Inv (tick s t) := by
  have hph := h.threads t
  rw [ht] at hph
  obtain ⟨hj, hr, hheld, hd⟩ := hph
  unfold tick
  rw [ht]
  dsimp only
  refine h.setSlot (by rw [ht]; rfl) (Or.inl hr.free) hheld ?_ (fun hw => ?_) (by rw [ht]; rfl)
  · refine ⟨hj.reg fun _ he => he, hr.setSlot hr.free, hheld, ?_, ?_⟩
    · rw [goto_slot, setSlot_self]
      exact hd
    · rw [goto_slot, setSlot_self]
  · exact nomatch (hr.free.symm.trans hw)

theorem Inv.idx_lt (h : Inv s) (hres : (s.thread t).reserves = some j)
    (ho : j.ctx.owner = none) : j.idx < s.nextIdx j.ctx.mod := by
  obtain ⟨hj, _, hmk⟩ := h.reserves hres
  cases hf : j.fresh with
  | none =>
    obtain ⟨e, he, hmod, hidx⟩ := hj.claim hf ho
    rw [← hmod, ← hidx]
    exact (h.reg e he).1
  | some k => exact (h.making t _ _ (hmk (by rw [hf]; rfl))).1

theorem Inv.setBlk (h : Inv s) (ht : s.thread t = .setBlk j) : Inv (tick s t) := by
  have hph := h.threads t
  rw [ht] at hph
  obtain ⟨hj, hr, hheld, hd, hb⟩ := hph
  have hres : (s.thread t).reserves = some j := by
    rw [ht]
    rfl
  obtain ⟨bj, hbj, hstj, ⟨hbare, hctx⟩, hidx, hinst⟩ := hheld
  unfold tick
  rw [ht]
  dsimp only
  refine h.setSlot hres (Or.inr rfl) ⟨bj, hbj, hstj, ⟨hbare, hctx⟩, hidx, hinst⟩ ?_ (fun _ => ?_) ?_
  · cases hf : j.fresh with
    | none =>
      refine ⟨hf, hj.reg fun _ he => he, ?_, ⟨bj, hbj, hstj, ⟨hbare, hctx⟩, hidx, hinst⟩,
        hr.lock hf⟩
      rw [goto_slot, setSlot_self]
    | some k =>
      refine ⟨hj.reg fun _ he => he, fun _ hg => hg, ?_, bj, hbj, hstj, ?_, hidx⟩
      · rw [goto_slot, setSlot_self]
      · rw [hctx, Job.before, hf]
        rfl
  · refine ⟨bj, hbj, hidx, ?_, fun ho => h.idx_lt hres ho, ?_⟩
    · rw [goto_slot, setSlot_self, hinst, hd, hb]
    cases hf : j.fresh with
    | none =>
      refine Or.inr ⟨?_, hbare, t, hstj, j, Or.inl ?_, hf, rfl, rfl⟩
      · rw [hctx, Job.before, hf]
        rfl
      · exact Function.update_self _ _ _
    | some k =>
      refine Or.inl ?_
      rw [hctx, Job.before, hf]
      rfl
  rw [ht]
  cases hf : j.fresh with
  | none => simp [Phase.making, hf]
  | some k => simp [Phase.making, hf]

end IosLinuxkit.Asbestos.JitSlot
