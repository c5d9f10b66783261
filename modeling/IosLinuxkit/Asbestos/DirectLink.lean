import IosLinuxkit.Lib.A64
import IosLinuxkit.Lib.Run

/-!
# Direct links between position-independent translations

`jit_chain_ok`, `jit_chain_refused` and `jit_unlink` of `asbestos/guest-arm64/jit.c`, run by
any number of threads. A translation is shared: every block that has it, in any address
space, has the same link site, a `b` instruction with a 64-bit literal behind it. So the
literal and the instruction are kept by site, and every access to shared memory is a step of
its own.

The model is of a process with `pic_on`; there `jit_link` does nothing. What a block has for
native code (`native_entry`, `native_link`, `jit_ctx`, `jit_idx`) is set by `jit_block`
before the block is inserted, so before any of these calls, and is constant here.

* **`directLink_run`** — over every interleaving.
-/

namespace IosLinuxkit.DirectLink

open A64

/-! ## The process -/

def linkUnset : BitVec 64 := 1#64

/-- What a block has for native code, and its two jump slots. -/
structure NativeBlock where
  /-- `&code[0]` -/
  code : BitVec 64
  /-- `jump_ip[i]` is not `NULL` -/
  hasJump : Fin 2 → Bool
  oldJumpIp : Fin 2 → BitVec 64
  nativeLink : Fin 2 → Option (BitVec 64)
  /-- `native_entry`, `0` if the block does not start with native code -/
  nativeEntry : BitVec 64
  jitCtx : Option Nat
  jitIdx : Nat

/-- A distance that a link site can hold. -/
structure Distance where
  d : BitVec 64
  aligned : Aligned d
  near : fits (d.sshiftRight 2) 26 = true

/-- A set of blocks, and the constants of the process. A block keeps its identity: its memory
is not handed out again. -/
structure Process (ι : Type) where
  linkOff : Bool
  region : BitVec 64
  regionSize : Nat
  block : ι → NativeBlock
  /-- what an ahead-of-time image has at its link sites from the start -/
  preset : BitVec 64 → Option Distance
  code_user : ∀ b, (block b).code.getLsbD 62 = false ∧ (block b).code.getLsbD 63 = false
  code_inj : ∀ b b', (block b).code = (block b').code → b = b'
  fake : ∀ b i, ((block b).oldJumpIp i).getLsbD 63 = true
  link_aligned : ∀ b i site, (block b).nativeLink i = some site → Aligned site
  entry_aligned : ∀ b, Aligned (block b).nativeEntry

variable {ι : Type}

/-- `site` is in the code region, not in a read-only image. -/
def Process.writable (P : Process ι) (site : BitVec 64) : Bool :=
  decide (P.region.toNat ≤ site.toNat) && decide (site.toNat < P.region.toNat + P.regionSize)

def linkTarget (P : Process ι) (src dst : ι) : BitVec 64 :=
  if (P.block dst).nativeEntry = 0#64 then 0#64
  else if (P.block dst).jitCtx = (P.block src).jitCtx then (P.block dst).nativeEntry + 4#64
  else (P.block dst).nativeEntry

/-- The branch of a site that is not linked: over the literal, to the next line. -/
def unlinkedInsn : BitVec 32 := encB 12#64

/-! ## Threads -/

inductive Call (ι : Type) where
  | chainOk (src : ι) (i : Fin 2) (dst : ι)
  | chainRefused (src : ι) (i : Fin 2) (dst : ι)
  | unlink (src : ι) (i : Fin 2)

/-- The access a thread makes next. -/
inductive Phase (ι : Type) where
  | idle
  /-- `jit_chain_ok`: load the literal -/
  | load (src : ι) (i : Fin 2) (dst : ι) (site : BitVec 64)
  /-- `claim_u64`: load the literal -/
  | claimLoad (src : ι) (i : Fin 2) (dst : ι) (site d : BitVec 64)
  /-- `claim_u64`: compare and swap -/
  | claimSwap (src : ι) (i : Fin 2) (dst : ι) (site d : BitVec 64)
  /-- `patch_insn` -/
  | patch (src : ι) (i : Fin 2) (dst : ι) (site d : BitVec 64)
  /-- `jit_chain_ok`: load the literal again -/
  | reload (src : ι) (i : Fin 2) (dst : ι) (site d : BitVec 64)
  /-- the caller of a `jit_chain_ok` that returned true stores the successor's code address -/
  | chain (src : ι) (i : Fin 2) (dst : ι)
  /-- `jit_chain_refused`: store the alternate -/
  | refuseAlt (src : ι) (i : Fin 2) (dst : ι) (ctx : Nat)
  /-- `jit_chain_refused`: read the slot -/
  | refuseRead (src : ι) (i : Fin 2)
  /-- `jit_chain_refused`: store it with bit 62 -/
  | refuseStore (src : ι) (i : Fin 2) (w : BitVec 64)
  /-- `jit_unlink`: clear the alternate -/
  | unlinkAlt (src : ι) (i : Fin 2) (ctx : Nat)

structure Links (ι : Type) where
  /-- the literal after each site -/
  lit : BitVec 64 → BitVec 64
  /-- the instruction at each site -/
  insn : BitVec 64 → BitVec 32
  /-- `*jump_ip[i]` -/
  slot : ι → Fin 2 → BitVec 64
  /-- `ctx->slot[idx].blk` -/
  owner : Nat → Nat → Option ι
  /-- `ctx_far(ctx, idx)->alt[i]` -/
  alt : Nat → Nat → Fin 2 → BitVec 64
  threads : Nat → Phase ι
  /-- ghost: the chains that `jit_chain_ok` allowed -/
  allowed : List (ι × Fin 2 × ι)

def Links.start (P : Process ι) : Links ι :=
  { lit := fun site => ((P.preset site).map Distance.d).getD linkUnset
    insn := fun site => ((P.preset site).map fun x => encB x.d).getD unlinkedInsn
    slot := fun b i => (P.block b).oldJumpIp i
    owner := fun _ _ => none
    alt := fun _ _ _ => 0#64
    threads := fun _ => .idle
    allowed := [] }

inductive Label (ι : Type) where
  | call (t : Nat) (c : Call ι)
  /-- the next access of thread `t` -/
  | tick (t : Nat)
  /-- `fiber_block_disconnect` puts the fake address back into a slot -/
  | restore (src : ι) (i : Fin 2)
  /-- a context slot gets a block, or loses it -/
  | own (ctx idx : Nat) (b : Option ι)

def Links.goto (s : Links ι) (t : Nat) (p : Phase ι) : Links ι :=
  { s with threads := Function.update s.threads t p }

/-- `jit_chain_ok` returns. -/
def Links.answer (s : Links ι) (t : Nat) (src : ι) (i : Fin 2) (dst : ι) (ok : Bool) : Links ι :=
  if ok then { (s.goto t (.chain src i dst)) with allowed := (src, i, dst) :: s.allowed }
  else s.goto t .idle

section

variable [DecidableEq ι]

/-- The part of a call before its first access to shared memory, with the load of the owner
in `jit_chain_refused` and `jit_unlink`. -/
def begin (P : Process ι) (s : Links ι) (t : Nat) : Call ι → Links ι
  | .chainOk src i dst =>
    match (P.block src).nativeLink i with
    | none => s.answer t src i dst true
    | some site => s.goto t (.load src i dst site)
  | .chainRefused src i dst =>
    match (P.block src).jitCtx with
    | none => s
    | some ctx =>
      if ((P.block src).nativeLink i).isSome && (P.block src).hasJump i &&
          s.owner ctx (P.block src).jitIdx == some src then
        s.goto t (.refuseAlt src i dst ctx)
      else s
  | .unlink src i =>
    match (P.block src).jitCtx with
    | none => s
    | some ctx =>
      if s.owner ctx (P.block src).jitIdx == some src then s.goto t (.unlinkAlt src i ctx) else s

def setAlt (P : Process ι) (s : Links ι) (ctx : Nat) (src : ι) (i : Fin 2) (w : BitVec 64) : Links ι :=
  { s with
    alt := Function.update s.alt ctx
      (Function.update (s.alt ctx) (P.block src).jitIdx
        (Function.update (s.alt ctx (P.block src).jitIdx) i w)) }

def setSlot (s : Links ι) (src : ι) (i : Fin 2) (w : BitVec 64) : Links ι :=
  { s with slot := Function.update s.slot src (Function.update (s.slot src) i w) }

/-- `jit_chain_ok` after it loaded the literal. -/
def chainOkLoaded (P : Process ι) (s : Links ι) (t : Nat) (src : ι) (i : Fin 2) (dst : ι)
    (site lit : BitVec 64) : Links ι :=
  if lit = linkUnset ∧ (P.writable site = false ∨ P.linkOff = true) then s.answer t src i dst true
  else
    let target := linkTarget P src dst
    if target = 0#64 then s.answer t src i dst false
    else
      let d := target - site
      if lit = linkUnset then
        if fits (d.sshiftRight 2) 26 then s.goto t (.claimLoad src i dst site d)
        else s.goto t (.reload src i dst site d)
      else s.answer t src i dst (lit == d)

def tick (P : Process ι) (s : Links ι) (t : Nat) : Links ι :=
  match s.threads t with
  | .idle => s
  | .load src i dst site => chainOkLoaded P s t src i dst site (s.lit site)
  | .claimLoad src i dst site d =>
    if s.lit site ≠ linkUnset then s.goto t (.reload src i dst site d)
    else s.goto t (.claimSwap src i dst site d)
  | .claimSwap src i dst site d =>
    if s.lit site = linkUnset then
      { (s.goto t (.patch src i dst site d)) with lit := Function.update s.lit site d }
    else s.goto t (.reload src i dst site d)
  | .patch src i dst site d =>
    { s with insn := Function.update s.insn site (encB d) }.answer t src i dst true
  | .reload src i dst site d => s.answer t src i dst (s.lit site == d)
  | .chain src i dst => setSlot (s.goto t .idle) src i (P.block dst).code
  | .refuseAlt src i dst ctx =>
    setAlt P (s.goto t (.refuseRead src i)) ctx src i (P.block dst).code
  | .refuseRead src i => s.goto t (.refuseStore src i (s.slot src i))
  | .refuseStore src i w => setSlot (s.goto t .idle) src i (w ||| 0x4000000000000000#64)
  | .unlinkAlt src i ctx => setAlt P (s.goto t .idle) ctx src i 0#64

def step (P : Process ι) (s : Links ι) : Label ι → Links ι
  | .call t c =>
    match s.threads t with
    | .idle => begin P s t c
    | _ => s
  | .tick t => tick P s t
  | .restore src i => setSlot s src i ((P.block src).oldJumpIp i)
  | .own ctx idx b =>
    { s with owner := Function.update s.owner ctx (Function.update (s.owner ctx) idx b) }

end

/-! ## The invariant -/

def SiteOk (lit : BitVec 64) (insn : BitVec 32) : Prop :=
  (lit = linkUnset ∧ insn = unlinkedInsn) ∨
    ∃ x : Distance, lit = x.d ∧ (insn = encB x.d ∨ insn = unlinkedInsn)

def Allowed (P : Process ι) (lit : BitVec 64 → BitVec 64) (src : ι) (i : Fin 2) (dst : ι) : Prop :=
  ∀ site, (P.block src).nativeLink i = some site →
    (lit site = linkUnset ∧ (P.writable site = false ∨ P.linkOff = true)) ∨
      (linkTarget P src dst ≠ 0#64 ∧ lit site = linkTarget P src dst - site)

structure Aims (P : Process ι) (src : ι) (i : Fin 2) (dst : ι) (site d : BitVec 64) : Prop where
  link : (P.block src).nativeLink i = some site
  target : linkTarget P src dst ≠ 0#64
  dist : d = linkTarget P src dst - site

structure Claims (P : Process ι) (src : ι) (i : Fin 2) (dst : ι) (site d : BitVec 64) : Prop
    extends Aims P src i dst site d where
  writable : P.writable site = true
  linkOn : P.linkOff = false
  near : fits (d.sshiftRight 2) 26 = true

def PhaseOk (P : Process ι) (s : Links ι) : Phase ι → Prop
  | .load src i _ site => (P.block src).nativeLink i = some site
  | .claimLoad src i dst site d | .claimSwap src i dst site d => Claims P src i dst site d
  | .patch src i dst site d => Claims P src i dst site d ∧ s.lit site = d
  | .reload src i dst site d => Aims P src i dst site d
  | .chain src i dst => (src, i, dst) ∈ s.allowed
  | .idle | .refuseAlt .. | .refuseRead .. | .refuseStore .. | .unlinkAlt .. => True

structure LinksOk (P : Process ι) (s : Links ι) : Prop where
  site : ∀ site, SiteOk (s.lit site) (s.insn site)
  phase : ∀ t, PhaseOk P s (s.threads t)
  allowed : ∀ src i dst, (src, i, dst) ∈ s.allowed → Allowed P s.lit src i dst
  slot : ∀ src i dst, s.slot src i = (P.block dst).code → (src, i, dst) ∈ s.allowed

theorem aligned_linkTarget (P : Process ι) (src dst : ι) : Aligned (linkTarget P src dst) := by
  unfold linkTarget
  split
  · show (0#64).toNat % 4 = 0
    decide
  split
  · exact (P.entry_aligned dst).add_four
  · exact P.entry_aligned dst

variable {P : Process ι} {s s' : Links ι}

theorem Aims.aligned {src dst : ι} {i : Fin 2} {site d : BitVec 64}
    (h : Aims P src i dst site d) : Aligned d := by
  rw [h.dist]
  exact (aligned_linkTarget P src dst).sub (P.link_aligned src i site h.link)

theorem Distance.ne_unset (x : Distance) : x.d ≠ linkUnset := x.aligned.ne_one

/-! ## What a step can do to literals and answers -/

structure Grows (P : Process ι) (s s' : Links ι) : Prop where
  lit : ∀ site, s'.lit site = s.lit site ∨
    (s.lit site = linkUnset ∧ P.writable site = true ∧ P.linkOff = false ∧
      ∃ src i dst, Aims P src i dst site (s'.lit site))
  allowed : ∀ a ∈ s.allowed, a ∈ s'.allowed

theorem Grows.of_eq (hl : s'.lit = s.lit) (ha : s'.allowed = s.allowed) : Grows P s s' :=
  ⟨fun site => Or.inl (by rw [hl]), fun a h => by rw [ha]; exact h⟩

theorem Grows.refl (P : Process ι) (s : Links ι) : Grows P s s := Grows.of_eq rfl rfl

theorem Grows.linked (h : Grows P s s') {site : BitVec 64}
    (hs : s.lit site ≠ linkUnset) : s'.lit site = s.lit site := by
  rcases h.lit site with heq | ⟨hunset, -⟩
  · exact heq
  · exact absurd hunset hs

theorem Grows.trans {s₁ s₂ s₃ : Links ι} (h₁ : Grows P s₁ s₂)
    (h₂ : Grows P s₂ s₃) : Grows P s₁ s₃ := by
  refine ⟨fun site => ?_, fun a ha => h₂.allowed a (h₁.allowed a ha)⟩
  rcases h₁.lit site with heq | ⟨hunset, hw, hon, src, i, dst, haims⟩
  · rcases h₂.lit site with heq' | ⟨hunset', hrest⟩
    · exact Or.inl (heq'.trans heq)
    · exact Or.inr ⟨heq ▸ hunset', hrest⟩
  · -- linked by the first, so that the second leaves it
    rw [h₂.linked haims.aligned.ne_one]
    exact Or.inr ⟨hunset, hw, hon, src, i, dst, haims⟩

theorem Allowed.grows {src dst : ι} {i : Fin 2}
    (h : Allowed P s.lit src i dst) (hg : Grows P s s') : Allowed P s'.lit src i dst := by
  intro site hsite
  rcases h site hsite with ⟨hunset, hoff⟩ | ⟨htarget, hlit⟩
  · rcases hg.lit site with heq | ⟨-, hw, hon, -⟩
    · exact Or.inl ⟨heq.trans hunset, hoff⟩
    · rw [hw, hon] at hoff
      rcases hoff with hoff | hoff <;> cases hoff
  · have haims : Aims P src i dst site (s.lit site) := ⟨hsite, htarget, hlit⟩
    exact Or.inr ⟨htarget, (hg.linked haims.aligned.ne_one).trans hlit⟩

theorem PhaseOk.grows {p : Phase ι} (h : PhaseOk P s p) (hg : Grows P s s') : PhaseOk P s' p := by
  cases p with
  | patch src i dst site d =>
    have hd : s.lit site ≠ linkUnset := by
      rw [h.2]
      exact h.1.toAims.aligned.ne_one
    exact ⟨h.1, (hg.linked hd).trans h.2⟩
  | chain src i dst => exact hg.allowed _ h
  | _ => exact h

theorem ne_code {w : BitVec 64} (h : w.getLsbD 62 = true ∨ w.getLsbD 63 = true) (dst : ι) :
    w ≠ (P.block dst).code := by
  rintro rfl
  obtain ⟨h62, h63⟩ := P.code_user dst
  rw [h62, h63] at h
  rcases h with h | h <;> cases h

theorem linksOk_start (P : Process ι) : LinksOk P (Links.start P) := by
  refine ⟨fun site => ?_, fun _ => trivial, fun _ _ _ ha => (by cases ha), fun src i dst hs => ?_⟩
  · simp only [Links.start]
    cases P.preset site with
    | none => exact Or.inl ⟨rfl, rfl⟩
    | some x => exact Or.inr ⟨x, rfl, Or.inl rfl⟩
  · exact absurd hs (ne_code (Or.inr (P.fake src i)) dst)

theorem LinksOk.of_grows (h : LinksOk P s) (hg : Grows P s s')
    (hsite : ∀ site, SiteOk (s'.lit site) (s'.insn site))
    (hphase : ∀ t, s'.threads t = s.threads t ∨ PhaseOk P s' (s'.threads t))
    (hnew : ∀ src i dst, (src, i, dst) ∈ s'.allowed →
      (src, i, dst) ∈ s.allowed ∨ Allowed P s'.lit src i dst)
    (hslot : ∀ src i dst, s'.slot src i = (P.block dst).code →
      s.slot src i = (P.block dst).code ∨ (src, i, dst) ∈ s'.allowed) : LinksOk P s' := by
  refine ⟨hsite, fun t => ?_, fun src i dst ha => ?_, fun src i dst hs => ?_⟩
  · rcases hphase t with heq | hp
    · rw [heq]
      exact (h.phase t).grows hg
    · exact hp
  · rcases hnew src i dst ha with hold | hok
    · exact (h.allowed src i dst hold).grows hg
    · exact hok
  rcases hslot src i dst hs with hold | hok
  · exact hg.allowed _ (h.slot src i dst hold)
  · exact hok

theorem update_phase {t : Nat} {p : Phase ι} (hp : PhaseOk P s' p)
    (hs' : s'.threads = Function.update s.threads t p) (t' : Nat) :
    s'.threads t' = s.threads t' ∨ PhaseOk P s' (s'.threads t') := by
  rw [hs']
  by_cases ht : t' = t
  · subst ht
    rw [Function.update_self]
    exact Or.inr hp
  · rw [Function.update_of_ne ht]
    exact Or.inl rfl

/-! ## Steps -/

def Keeps (P : Process ι) (s s' : Links ι) : Prop := LinksOk P s' ∧ Grows P s s'

section

variable {P : Process ι} {s : Links ι}

theorem keeps_goto (h : LinksOk P s) (t : Nat) {p : Phase ι} (hp : PhaseOk P s p) :
    Keeps P s (s.goto t p) := by
  have hg : Grows P s (s.goto t p) := Grows.of_eq rfl rfl
  exact ⟨h.of_grows hg h.site (update_phase (hp.grows hg) rfl)
    (fun _ _ _ ha => Or.inl ha) fun _ _ _ hs => Or.inl hs, hg⟩

theorem keeps_answer (h : LinksOk P s) (t : Nat) (src : ι) (i : Fin 2) (dst : ι) {ok : Bool}
    (hok : ok = true → Allowed P s.lit src i dst) : Keeps P s (s.answer t src i dst ok) := by
  unfold Links.answer
  cases ok with
  | false => exact keeps_goto h t trivial
  | true =>
    rw [if_pos rfl]
    have hg : Grows P s
        { (s.goto t (.chain src i dst)) with allowed := (src, i, dst) :: s.allowed } :=
      ⟨fun _ => Or.inl rfl, fun _ ha => List.mem_cons_of_mem _ ha⟩
    refine ⟨h.of_grows hg h.site (update_phase (p := .chain src i dst) ?_ rfl) ?_
      fun _ _ _ hs => Or.inl hs, hg⟩
    · exact List.mem_cons_self
    intro src' i' dst' ha
    rcases List.mem_cons.mp ha with heq | ha
    · obtain ⟨rfl, rfl, rfl⟩ : src' = src ∧ i' = i ∧ dst' = dst := by simpa using heq
      exact Or.inr (hok rfl)
    · exact Or.inl ha

theorem keeps_setAlt (h : LinksOk P s) (ctx : Nat) (src : ι) (i : Fin 2) (w : BitVec 64) :
    Keeps P s (setAlt P s ctx src i w) := by
  have hg : Grows P s (setAlt P s ctx src i w) := Grows.of_eq rfl rfl
  exact ⟨h.of_grows hg h.site (fun _ => Or.inl rfl) (fun _ _ _ ha => Or.inl ha)
    fun _ _ _ hs => Or.inl hs, hg⟩

theorem Keeps.trans {s' s'' : Links ι} (h₁ : Keeps P s s') (h₂ : Keeps P s' s'') :
    Keeps P s s'' :=
  ⟨h₂.1, h₁.2.trans h₂.2⟩

variable {site : BitVec 64}

theorem keeps_claim (h : LinksOk P s) (t : Nat) (src : ι) (i : Fin 2) (dst : ι)
    {d : BitVec 64} (hclaims : Claims P src i dst site d) (hunset : s.lit site = linkUnset) :
    Keeps P s
      { (s.goto t (.patch src i dst site d)) with lit := Function.update s.lit site d } := by
  set s' : Links ι :=
    { (s.goto t (.patch src i dst site d)) with lit := Function.update s.lit site d } with hs'
  have hlit : s'.lit site = d := Function.update_self site d s.lit
  have hother : ∀ site', site' ≠ site → s'.lit site' = s.lit site' := fun site' hne =>
    Function.update_of_ne hne d s.lit
  have hg : Grows P s s' := by
    refine ⟨fun site' => ?_, fun _ ha => ha⟩
    by_cases hne : site' = site
    · subst hne
      rw [hlit]
      exact Or.inr ⟨hunset, hclaims.writable, hclaims.linkOn, src, i, dst, hclaims.toAims⟩
    · exact Or.inl (hother site' hne)
  refine ⟨h.of_grows hg (fun site' => ?_) (update_phase (p := .patch src i dst site d) ?_ rfl)
    (fun _ _ _ ha => Or.inl ha) fun _ _ _ hs => Or.inl hs, hg⟩
  · by_cases hne : site' = site
    · subst hne
      -- the instruction is still the one of an unlinked site
      have hinsn : s.insn site' = unlinkedInsn := by
        rcases h.site site' with ⟨-, hi⟩ | ⟨x, hx, -⟩
        · exact hi
        · exact absurd (hx.symm.trans hunset) x.ne_unset
      exact Or.inr ⟨⟨d, hclaims.toAims.aligned, hclaims.near⟩, hlit, Or.inr hinsn⟩
    · rw [hother site' hne]
      exact h.site site'
  · exact ⟨hclaims, hlit⟩

theorem keeps_patch (h : LinksOk P s) {src : ι} {i : Fin 2} {dst : ι}
    {d : BitVec 64} (hclaims : Claims P src i dst site d) (hlit : s.lit site = d) :
    Keeps P s { s with insn := Function.update s.insn site (encB d) } := by
  have hg : Grows P s { s with insn := Function.update s.insn site (encB d) } :=
    Grows.of_eq rfl rfl
  refine ⟨h.of_grows hg (fun site' => ?_) (fun _ => Or.inl rfl) (fun _ _ _ ha => Or.inl ha)
    fun _ _ _ hs => Or.inl hs, hg⟩
  show SiteOk (s.lit site') (Function.update s.insn site (encB d) site')
  by_cases hne : site' = site
  · subst hne
    rw [Function.update_self]
    exact Or.inr ⟨⟨d, hclaims.toAims.aligned, hclaims.near⟩, hlit, Or.inl rfl⟩
  · rw [Function.update_of_ne hne]
    exact h.site site'

theorem keeps_chainOkLoaded (h : LinksOk P s) (t : Nat) (src : ι) (i : Fin 2) (dst : ι)
    (hlink : (P.block src).nativeLink i = some site) :
    Keeps P s (chainOkLoaded P s t src i dst site (s.lit site)) := by
  have honly : ∀ site', (P.block src).nativeLink i = some site' → site' = site := by
    intro site' h'
    exact Option.some.inj (h'.symm.trans hlink)
  unfold chainOkLoaded
  split
  · -- never linked
    rename_i hoff
    refine keeps_answer h t src i dst fun _ site' h' => Or.inl ?_
    rw [honly site' h']
    exact hoff
  · rename_i hcan
    dsimp only
    split
    · exact keeps_answer h t src i dst fun hno => by cases hno
    · rename_i htarget
      have haims : Aims P src i dst site (linkTarget P src dst - site) := ⟨hlink, htarget, rfl⟩
      split
      · rename_i hunset
        split
        · rename_i hnear
          refine keeps_goto h t ⟨haims, ?_, ?_, hnear⟩
          · by_contra hw
            exact hcan ⟨hunset, Or.inl (by simpa using hw)⟩
          · by_contra hoff
            exact hcan ⟨hunset, Or.inr (by simpa using hoff)⟩
        · exact keeps_goto h t haims
      refine keeps_answer h t src i dst fun heq site' h' => Or.inr ⟨htarget, ?_⟩
      rw [honly site' h']
      exact eq_of_beq heq

variable [DecidableEq ι]

theorem keeps_setSlot (h : LinksOk P s) (src : ι) (i : Fin 2) {w : BitVec 64}
    (hw : ∀ dst, w = (P.block dst).code → (src, i, dst) ∈ s.allowed) :
    Keeps P s (setSlot s src i w) := by
  have hg : Grows P s (setSlot s src i w) := Grows.of_eq rfl rfl
  refine ⟨h.of_grows hg h.site (fun _ => Or.inl rfl) (fun _ _ _ ha => Or.inl ha) ?_, hg⟩
  intro src' i' dst hs
  simp only [setSlot] at hs
  by_cases hsrc : src' = src
  · subst hsrc
    rw [Function.update_self] at hs
    by_cases hi : i' = i
    · subst hi
      rw [Function.update_self] at hs
      exact Or.inr (hw dst hs)
    · rw [Function.update_of_ne hi] at hs
      exact Or.inl hs
  · rw [Function.update_of_ne hsrc] at hs
    exact Or.inl hs

theorem keeps_tick (h : LinksOk P s) (t : Nat) : Keeps P s (tick P s t) := by
  have hp := h.phase t
  unfold tick
  cases hphase : s.threads t with
  | idle => exact ⟨h, Grows.refl P s⟩
  | load src i dst site =>
    rw [hphase] at hp
    exact keeps_chainOkLoaded h t src i dst hp
  | claimLoad src i dst site d =>
    rw [hphase] at hp
    dsimp only
    split
    · exact keeps_goto h t hp.toAims
    · exact keeps_goto h t hp
  | claimSwap src i dst site d =>
    rw [hphase] at hp
    dsimp only
    split
    · rename_i hunset
      exact keeps_claim h t src i dst hp hunset
    · exact keeps_goto h t hp.toAims
  | patch src i dst site d =>
    rw [hphase] at hp
    have h1 := keeps_patch h hp.1 hp.2
    refine h1.trans (keeps_answer h1.1 t src i dst fun _ site' h' => Or.inr ?_)
    have hsite : site' = site := Option.some.inj (h'.symm.trans hp.1.link)
    rw [hsite]
    exact ⟨hp.1.target, hp.2.trans hp.1.dist⟩
  | reload src i dst site d =>
    rw [hphase] at hp
    refine keeps_answer h t src i dst fun heq site' h' => Or.inr ⟨hp.target, ?_⟩
    have hsite : site' = site := Option.some.inj (h'.symm.trans hp.link)
    rw [hsite, eq_of_beq heq]
    exact hp.dist
  | chain src i dst =>
    rw [hphase] at hp
    have h1 := keeps_goto h t (p := .idle) trivial
    refine h1.trans (keeps_setSlot h1.1 src i fun dst' hcode => ?_)
    rw [← P.code_inj dst dst' hcode]
    exact hp
  | refuseAlt src i dst ctx =>
    have h1 := keeps_goto h t (p := .refuseRead src i) trivial
    exact h1.trans (keeps_setAlt h1.1 ctx src i _)
  | refuseRead src i => exact keeps_goto h t trivial
  | refuseStore src i w =>
    have h1 := keeps_goto h t (p := .idle) trivial
    refine h1.trans (keeps_setSlot h1.1 src i fun dst' hcode => absurd hcode (ne_code ?_ dst'))
    left
    rw [BitVec.getLsbD_or, show (0x4000000000000000#64).getLsbD 62 = true from by decide,
      Bool.or_true]
  | unlinkAlt src i ctx =>
    have h1 := keeps_goto h t (p := .idle) trivial
    exact h1.trans (keeps_setAlt h1.1 ctx src i _)

theorem keeps_begin (h : LinksOk P s) (t : Nat) (c : Call ι) : Keeps P s (begin P s t c) := by
  cases c with
  | chainOk src i dst =>
    simp only [begin]
    cases hlink : (P.block src).nativeLink i with
    | none =>
      refine keeps_answer h t src i dst fun _ site h' => ?_
      rw [hlink] at h'
      cases h'
    | some site => exact keeps_goto h t hlink
  | chainRefused src i dst =>
    simp only [begin]
    split
    · exact ⟨h, Grows.refl P s⟩
    split
    · exact keeps_goto h t trivial
    · exact ⟨h, Grows.refl P s⟩
  | unlink src i =>
    simp only [begin]
    split
    · exact ⟨h, Grows.refl P s⟩
    split
    · exact keeps_goto h t trivial
    · exact ⟨h, Grows.refl P s⟩

theorem keeps_step (h : LinksOk P s) (l : Label ι) : Keeps P s (step P s l) := by
  cases l with
  | call t c =>
    simp only [step]
    split
    · exact keeps_begin h t c
    · exact ⟨h, Grows.refl P s⟩
  | tick t => exact keeps_tick h t
  | restore src i =>
    exact keeps_setSlot h src i fun dst hcode =>
      absurd hcode (ne_code (Or.inr (P.fake src i)) dst)
  | own ctx idx b =>
    have hg : Grows P s (step P s (.own ctx idx b)) := Grows.of_eq rfl rfl
    exact ⟨h.of_grows hg h.site (fun _ => Or.inl rfl) (fun _ _ _ ha => Or.inl ha)
      fun _ _ _ hs => Or.inl hs, hg⟩

/-! ## Whole runs -/

theorem keeps_run (h : LinksOk P s) (ls : List (Label ι)) : Keeps P s (run (step P) s ls) := by
  induction ls generalizing s with
  | nil => exact ⟨h, Grows.refl P s⟩
  | cons l ls ih =>
    have h1 := keeps_step h l
    exact h1.trans (ih h1.1)

/-- How often the literal of `site` changes along a run. -/
def litChanges (P : Process ι) (site : BitVec 64) : Links ι → List (Label ι) → Nat
  | _, [] => 0
  | s, l :: ls =>
    (if (step P s l).lit site = s.lit site then 0 else 1) + litChanges P site (step P s l) ls

theorem litChanges_linked (h : LinksOk P s)
    (hs : s.lit site ≠ linkUnset) (ls : List (Label ι)) : litChanges P site s ls = 0 := by
  induction ls generalizing s with
  | nil => rfl
  | cons l ls ih =>
    have h1 := keeps_step h l
    have hsame := h1.2.linked hs
    rw [litChanges, if_pos hsame, Nat.zero_add]
    exact ih h1.1 (by rw [hsame]; exact hs)

theorem litChanges_le_one (h : LinksOk P s) (site : BitVec 64)
    (ls : List (Label ι)) : litChanges P site s ls ≤ 1 := by
  induction ls generalizing s with
  | nil => exact Nat.zero_le 1
  | cons l ls ih =>
    have h1 := keeps_step h l
    rw [litChanges]
    split
    · rw [Nat.zero_add]
      exact ih h1.1
    · rename_i hchange
      -- the change left the literal set
      obtain ⟨-, -, -, src, i, dst, haims⟩ := (h1.2.lit site).resolve_left hchange
      rw [litChanges_linked h1.1 haims.aligned.ne_one]

/-- Over every interleaving a literal changes at most once, from unset to the distance of a successor's
entry; an instruction is unlinked or a branch to where the literal says; an allowed successor is entered
there; and native code that takes a link enters the block that the slot named. -/
theorem directLink_run (P : Process ι) (ls ls' : List (Label ι)) :
    let s := run (step P) (Links.start P) ls
    let s' := run (step P) s ls'
    (∀ site, litChanges P site (Links.start P) (ls ++ ls') ≤ 1 ∧
      (s'.lit site ≠ s.lit site → s.lit site = linkUnset ∧ s'.lit site ≠ linkUnset ∧
        ∃ src i dst, (P.block src).nativeLink i = some site ∧
          s'.lit site = linkTarget P src dst - site)) ∧ (∀ site, s.insn site = unlinkedInsn ∨
      (s.lit site ≠ linkUnset ∧ branchTarget site (s.insn site) = site + s.lit site)) ∧
    (∀ src i dst site, (src, i, dst) ∈ s.allowed → (P.block src).nativeLink i = some site →
      s'.lit site ≠ linkUnset →
        linkTarget P src dst ≠ 0#64 ∧ linkTarget P src dst = site + s'.lit site) ∧
    (∀ src i dst site, (P.block src).nativeLink i = some site →
      s.slot src i = (P.block dst).code → s'.insn site ≠ unlinkedInsn →
        linkTarget P src dst ≠ 0#64 ∧ branchTarget site (s'.insn site) = linkTarget P src dst) := by
  intro s s'
  have h₀ := linksOk_start P
  obtain ⟨h, -⟩ := keeps_run h₀ ls
  obtain ⟨h', hg⟩ := keeps_run h ls'
  have hbranch : ∀ {s : Links ι}, LinksOk P s → ∀ site, s.insn site = unlinkedInsn ∨
      (s.lit site ≠ linkUnset ∧ branchTarget site (s.insn site) = site + s.lit site) := by
    intro s h site
    rcases h.site site with ⟨-, hi⟩ | ⟨x, hx, hi | hi⟩
    · exact Or.inl hi
    · rw [hi, hx]
      exact Or.inr ⟨x.ne_unset, branchTarget_encB x.aligned x.near⟩
    · exact Or.inl hi
  have hentry : ∀ src i dst site, (src, i, dst) ∈ s.allowed →
      (P.block src).nativeLink i = some site → s'.lit site ≠ linkUnset →
        linkTarget P src dst ≠ 0#64 ∧ linkTarget P src dst = site + s'.lit site := by
    intro src i dst site ha hlink hset
    have hok := (h.allowed src i dst ha).grows hg
    rcases hok site hlink with ⟨hunset, -⟩ | ⟨htarget, hlit⟩
    · exact absurd hunset hset
    · refine ⟨htarget, ?_⟩
      rw [hlit, BitVec.add_comm, BitVec.sub_add_cancel]
  refine ⟨fun site => ⟨litChanges_le_one h₀ site _, fun hne => ?_⟩, hbranch h, hentry, ?_⟩
  · obtain ⟨hunset, -, -, src, i, dst, haims⟩ := (hg.lit site).resolve_left hne
    exact ⟨hunset, haims.aligned.ne_one, src, i, dst, haims.link, haims.dist⟩
  intro src i dst site hlink hslot hlinked
  obtain ⟨hset, hgoes⟩ := (hbranch h' site).resolve_left hlinked
  obtain ⟨htarget, heq⟩ := hentry src i dst site (h.slot src i dst hslot) hlink hset
  exact ⟨htarget, hgoes.trans heq.symm⟩

end

def sharedSite : Process (Fin 4) :=
  { linkOff := false, region := 0x10000#64, regionSize := 0x8000000
    block := fun b =>
      { code := BitVec.ofNat 64 (0x500000 + 0x100 * b.val), hasJump := fun i => decide (i.val = 0)
        oldJumpIp := fun _ => 0x8000000000002000#64
        nativeLink := fun i => if b.val < 2 ∧ i.val = 0 then some 0x10008#64 else none
        nativeEntry := BitVec.ofNat 64 (0x10100 + 0x100 * b.val)
        jitCtx := some (b.val % 2), jitIdx := b.val }
    preset := fun _ => none
    code_user := by decide
    code_inj := by decide
    fake := by decide
    link_aligned := by
      intro b i site h
      dsimp only at h
      split at h
      · obtain rfl := Option.some.inj h
        show (0x10008#64).toNat % 4 = 0
        decide
      · cases h
    entry_aligned := by
      intro b
      show (BitVec.ofNat 64 (0x10100 + 0x100 * b.val)).toNat % 4 = 0
      revert b
      decide }

/-- Both threads find the literal unset; the swap lets one of them through. -/
example :
    (run (step sharedSite) (Links.start sharedSite)
      ([.call 0 (.chainOk 0 0 2), .call 1 (.chainOk 1 0 3), .tick 0, .tick 1, .tick 0, .tick 1]
        ++ List.replicate 3 (.tick 1) ++ List.replicate 3 (.tick 0))).allowed = [(1, 0, 3)] := by
  decide

end IosLinuxkit.DirectLink
