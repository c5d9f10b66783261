import IosLinuxkit.Asbestos.GenLemmas

/-!
# Fused pairs

A fused gadget against the gadgets of the two instructions run one after the other. What is
compared is the `Outcome`: the guest's registers, flags and memory, with the address at which
it goes on, or with the report of a fault.

* **`subsBcond_fused`**, **`subsRegBcond_fused`**, **`addsubCb_fused`**, **`addsubLdr_fused`**,
  **`addsubStr_fused`**, **`ldrCb_fused`**, **`adrpAdd_fused`** — these agree on every frame.
* **`adrpLdr_fused`** — ADRP with LDR agrees unless the load faults while another address
  than its own is saved: `fused_adrp_ldr64` does not save one.
* **`fusion_iff`** — over everything `genStep` fuses.
-/

namespace IosLinuxkit.Arm64

open Bitfield

/-! ## Outcomes -/

inductive Outcome where
  | next (g : Guest) (pc : Word)
  | undef (g : Guest)
  | fault (g : Guest) (pc addr : Word) (write : Bool)

/-- What the guest sees of an exit; `ip` is where the stream goes on after its last gadget. -/
def Exit.outcome (e : Exit) (ip : Word) : Outcome :=
  match e with
  | .gret f => .next f.toGuest ip
  | .leave f a => .next f.toGuest a
  | .undef f => .undef f.toGuest
  | .gpf f => .fault f.toGuest f.pc f.segfaultAddr f.segfaultWasWrite

def jump (links : Links) (slot : Word) : Word := (links slot).getD (mask48 slot)

theorem outcome_inlineChain (links : Links) (slot ip : Word) (f : Frame) :
    (inlineChain links slot f).outcome ip = .next f.toGuest (jump links slot) := rfl

theorem outcome_retChain (links : Links) (slot ip : Word) (f : Frame) :
    (retChain links slot f).outcome ip = .next f.toGuest (jump links slot) := by
  unfold retChain jump
  cases links slot <;> rfl

theorem outcome_gpfSaved (f : Frame) (bad : Nat) (write : Bool) (ip : Word) :
    (gpfSaved f bad write).outcome ip =
      .fault f.toGuest f.jitSavedPc (BitVec.ofNat 64 bad) write := rfl

def GuestOnly (k : Gadget) (ip : Word) : Prop :=
  ∀ f₁ f₂ : Frame, f₁.toGuest = f₂.toGuest → (k f₁).outcome ip = (k f₂).outcome ip

theorem guestOnly_gret (ip : Word) : GuestOnly .gret ip := by
  intro f₁ f₂ hg
  show Outcome.next f₁.toGuest ip = .next f₂.toGuest ip
  rw [hg]

theorem guestOnly_cbReg (sf nz : Bool) (links : Links) (rt target fallthrough ip : Word) :
    GuestOnly (cbReg sf nz links rt target fallthrough) ip := by
  intro f₁ f₂ hg
  unfold cbReg
  rw [outcome_inlineChain, outcome_inlineChain, hg]

theorem LoadSpec.outcome_andThen {e : Exit} {f : Frame} {pc : Word} {n : Nat}
    {ext : BitVec (8 * n) → Word} {a : Word} {rt : Reg} (h : LoadSpec e f pc n ext a rt)
    {k : Gadget} {ip : Word} (hk : GuestOnly k ip) :
    (e.andThen k).outcome ip = match f.mem.readFault a.toNat n with
      | some bad => .fault f.toGuest pc (BitVec.ofNat 64 bad) false
      | none => (k (f.setX rt (ext (f.mem.load a.toNat n)))).outcome ip := by
  unfold LoadSpec at h
  cases hf : f.mem.readFault a.toNat n with
  | some bad =>
    rw [hf] at h
    obtain ⟨f', rfl, hg, hpc⟩ := h
    show (gpfSaved f' bad false).outcome ip = _
    rw [outcome_gpfSaved, hg, hpc]
  | none =>
    rw [hf] at h
    obtain ⟨f', rfl, hg⟩ := h
    exact hk _ _ hg

theorem outcome_readPrep (f : Frame) (a : Word) (n : Nat) (k : Exit) (ip : Word) :
    (readPrep f a n k).outcome ip = match f.mem.readFault a.toNat n with
      | some bad => .fault f.toGuest f.jitSavedPc (BitVec.ofNat 64 bad) false
      | none => k.outcome ip := by
  unfold readPrep
  cases f.mem.readFault a.toNat n <;> rfl

theorem run_single_append {g : Gadget} {f f' : Frame} (hg : g f = .gret f') (gs : List Gadget) :
    run ([g] ++ gs) f = run gs f' := by
  rw [run_append, run_single, hg, andThen_gret]

theorem run_addSubImm_append (sf op : Bool) (rd rn : Reg) (imm : BitVec 12) (gs : List Gadget) (f : Frame) :
    run ([addSubImm sf op (packImm rd rn imm)] ++ gs) f
      = run gs (f.setX rd (addSub sf op (f.x rn) (imm.setWidth 64))) := by
  refine run_single_append ?_ gs
  unfold addSubImm
  rw [reg_packImm_rd, reg_packImm_rn, imm12_packImm]

theorem orElse_some {a b : Option Emit} {e : Emit} (h : (a <|> b) = some e) :
    a = some e ∨ b = some e := by
  cases a with
  | none => exact .inr h
  | some e' => exact .inl h

/-! ## SUBS and CMP with B.cond -/

section Pairs

variable (links : Links) (other : Word → Insn → List Plain) (ip : Word)

variable {next insn : Insn} {rd rn : Reg} {imm : BitVec 12} {e : Emit} {op : Bool} {size : BitVec 2}
  {ip₀ target : Word} {w : Nat}

theorem run_bcond_after {g : Gadget} {f f' : Frame} {flags : Nzcv}
    (hg : g f = .gret f') (hflags : f'.nzcv = flags.mrs) (hb : isBcond next = true)
    (hc : (next.extractLsb' 0 4).toNat < 14) (end_ : Word) :
    (run ([g] ++ (genStep links none other ip next).code) f).outcome end_ =
      .next f'.toGuest (jump links (if cond (next.extractLsb' 0 4) flags then
        fake (ip + branchImm19 next) else fake (ip + 4#64))) := by
  rw [run_single_append hg, genStep_bcond links other ip hb hc, run_single]
  unfold bcond
  rw [outcome_inlineChain, hflags, msr_mrs]

theorem subsBcond_fused {sf : Bool}
    (h : tryFuseSubsBcond links (some next) ip sf rd rn imm = some e) (f : Frame) (end_ : Word) :
    e.ip = ip + 4#64 ∧ (run e.code f).outcome e.ip =
        (run ([subsImm sf (packImm rd rn imm)] ++ (genStep links none other ip next).code)
          f).outcome end_ := by
  simp only [tryFuseSubsBcond] at h
  split at h
  · rename_i hc
    cases h
    refine ⟨rfl, ?_⟩
    set flags := subsNzcv sf (f.x rn) (imm.setWidth 64) with hflags
    set f₁ : Frame := { f with nzcv := flags.mrs } with hf₁
    have hsubs : subsImm sf (packImm rd rn imm) f
        = .gret (f₁.setXz rd (addSub sf true (f.x rn) (imm.setWidth 64))) := by
      unfold subsImm
      rw [reg_packImm_rd, reg_packImm_rn, imm12_packImm]
    have hnzcv : (f₁.setXz rd (addSub sf true (f.x rn) (imm.setWidth 64))).nzcv = flags.mrs := by
      unfold Frame.setXz
      split <;> rfl
    rw [run_bcond_after links other ip hsubs hnzcv hc.1 hc.2, run_single]
    by_cases hrd : rd = 31#5
    · rw [if_pos hrd, hrd, show (if sf = true then fusedCmpBcond else fusedCmp32Bcond)
        = fusedCmpImmBcond sf from by cases sf <;> rfl]
      unfold fusedCmpImmBcond
      rw [outcome_inlineChain, reg_cmpImm, imm12_cmpImm]
      rfl
    rw [if_neg hrd, setXz_of_ne _ hrd, show (if sf = true then fusedSubsBcond else fusedSubs32Bcond)
        = fusedSubsImmBcond sf from by cases sf <;> rfl]
    unfold fusedSubsImmBcond
    rw [outcome_inlineChain, reg_packImm_rd, reg_packImm_rn, packImm_ushiftRight]
    rfl
  · cases h

theorem subsRegBcond_fused {rm : Reg}
    (h : tryFuseSubsRegBcond links (some next) ip rd rn rm = some e) (f : Frame) (end_ : Word) :
    e.ip = ip + 4#64 ∧ (run e.code f).outcome e.ip =
        (run ([subsReg64Nshift (packReg rd rn rm)] ++ (genStep links none other ip next).code)
          f).outcome end_ := by
  simp only [tryFuseSubsRegBcond] at h
  split at h
  · rename_i hc
    cases h
    refine ⟨rfl, ?_⟩
    set flags := subsFlags (f.x rn) (f.x rm) with hflags
    set f₁ : Frame := { f with nzcv := flags.mrs } with hf₁
    have hsubs : subsReg64Nshift (packReg rd rn rm) f
        = .gret (f₁.setXz rd (f.x rn - f.x rm)) := by
      unfold subsReg64Nshift
      rw [reg_packReg_rd, reg_packReg_rn, reg_packReg_rm]
    have hnzcv : (f₁.setXz rd (f.x rn - f.x rm)).nzcv = flags.mrs := by
      unfold Frame.setXz
      split <;> rfl
    rw [run_bcond_after links other ip hsubs hnzcv hc.1 hc.2, run_single]
    by_cases hrd : rd = 31#5
    · rw [if_pos hrd, hrd]
      unfold fusedCmpRegBcond
      rw [outcome_inlineChain, reg_cmpReg_rn, reg_cmpReg_rm]
      rfl
    rw [if_neg hrd, setXz_of_ne _ hrd]
    unfold fusedSubsRegBcond
    rw [outcome_inlineChain, reg_packReg_rd, reg_packReg_rn, reg_packReg_rm]
    rfl
  · cases h

/-! ## ADD and SUB with CBZ and CBNZ -/

theorem addsubCb_fused {sf : Bool}
    (h : tryFuseAddsubCbz links (some next) ip sf op rd rn imm = some e) (f : Frame) (end_ : Word) :
    e.ip = ip + 4#64 ∧ (run e.code f).outcome e.ip =
        (run ([addSubImm sf op (packImm rd rn imm)] ++ (genStep links none other ip next).code)
          f).outcome end_ := by
  simp only [tryFuseAddsubCbz] at h
  split at h
  · rename_i hc
    obtain ⟨hcb, hrd, h31⟩ := hc
    cases h
    refine ⟨rfl, ?_⟩
    set v := addSub sf op (f.x rn) (imm.setWidth 64) with hv
    have hread : (f.setX rd v).x rd = v := if_pos rfl
    rw [run_addSubImm_append, ← hv, genStep_cb links other ip hcb h31, run_single, run_single,
      show (if next.getLsbD 24 = true then fusedAddsubCbnz else fusedAddsubCbz)
        = fusedAddsubCb (next.getLsbD 24) from by cases next.getLsbD 24 <;> rfl]
    obtain ⟨hw₁, hw₂, hw₃, hw₄, hw₅, hw₆⟩ :=
      unpack_addsubCb rd rn imm op sf (next.getLsbD 31)
    unfold fusedAddsubCb cbReg
    rw [outcome_inlineChain, outcome_inlineChain, hw₁, hw₂, hw₃, hw₄, hw₅, hw₆, reg_put, hrd, hread]
  · cases h

/-! ## ADD and SUB with a load or a store -/

theorem decode_spec {load sx : Bool} (h : decodeIntUnsignedImmLdst insn = some (load, sx, size)) :
    IntUnsignedImm insn ∧ load = (opcOf insn != 0#2) ∧ sx = (opcOf insn).getLsbD 1 ∧
      size = sizeOf insn := by
  simp only [decodeIntUnsignedImmLdst] at h
  split at h
  · rename_i hc
    cases h
    exact ⟨⟨eq_of_beq hc.1, hc.2.1, hc.2.2⟩, rfl, rfl, rfl⟩
  · cases h

theorem ldrExt_zx {opc : BitVec 2} (hload : opc ≠ 0#2) (hsx : opc.getLsbD 1 = false) (n : Nat) :
    ldrExt opc n = zx := by
  apply ldrExt_one
  revert opc
  decide

theorem addsubMem_inv {load : Bool} {gadget : Word → Word → Gadget}
    (h : tryFuseAddsubMem (some next) load size gadget ip₀ ip op rd rn imm = some e) :
    IntUnsignedImm next ∧ load = (opcOf next != 0#2) ∧ (opcOf next).getLsbD 1 = false ∧
      size = sizeOf next ∧ rnOf next = rd ∧ rdOf next ≠ 31#5 ∧
      e = { code := [gadget (packImm rd rn imm ||| bit op 28 ||| put (rdOf next) 32 |||
              put (imm12Of next) 40) ip]
            ip := ip + 4#64 } := by
  simp only [tryFuseAddsubMem] at h
  split at h
  · rename_i hc
    obtain ⟨-, hd, hrn, hrt⟩ := hc
    obtain ⟨hint, hload, hsx, hsize⟩ := decode_spec hd
    cases h
    exact ⟨hint, hload, hsx.symm, hsize, hrn, hrt, rfl⟩
  · cases h

theorem fusedBaseAddr_eq (shift : Nat) (f : Frame) (rd rn rt : Reg) (imm imm' : BitVec 12)
    (op : Bool) : fusedBaseAddr shift
        (packImm rd rn imm ||| bit op 28 ||| put rt 32 ||| put imm' 40) f =
      mask48 (addSub true op (f.x rn) (imm.setWidth 64) + put imm' shift) := by
  obtain ⟨-, hw₂, hw₃, hw₄, -, hw₆⟩ := unpack_addsubMem rd rn rt imm imm' op
  unfold fusedBaseAddr
  dsimp only
  rw [hw₂, hw₃, hw₄, hw₆]
  rfl

theorem fusedBase_eq (pc : Word) (f : Frame) (rd rn rt : Reg) (imm imm' : BitVec 12) (op : Bool) :
    fusedBase (packImm rd rn imm ||| bit op 28 ||| put rt 32 ||| put imm' 40) pc f =
      { f.setX rd (addSub true op (f.x rn) (imm.setWidth 64)) with jitSavedPc := pc } := by
  obtain ⟨hw₁, hw₂, hw₃, hw₄, -, -⟩ := unpack_addsubMem rd rn rt imm imm' op
  unfold fusedBase
  rw [hw₁, hw₂, hw₃, hw₄]

theorem addsubLdr_fused
    (h : tryFuseAddsubMem (some next) true size (fusedAddsubLdr size.toNat) ip₀ ip op rd rn imm
      = some e) (f : Frame) : e.ip = ip + 4#64 ∧ (run e.code f).outcome (ip + 4#64) =
        (run ([addSubImm true op (packImm rd rn imm)] ++ (genStep links none other ip next).code)
          f).outcome (ip + 4#64) := by
  obtain ⟨hint, hload, hsx, rfl, hrn, hrt, rfl⟩ := addsubMem_inv ip h
  refine ⟨rfl, ?_⟩
  have hopc : opcOf next ≠ 0#2 := bne_iff_ne.mp hload.symm
  set v := addSub true op (f.x rn) (imm.setWidth 64) with hv
  have hread : (f.setX rd v).x rd = v := if_pos rfl
  rw [run_addSubImm_append, ← hv, genStep_unsignedImm links other ip hint]
  -- the load on its own, from the frame with the sum
  have hldr := run_ldr ip (f.setX rd v) hint hopc hrt
  rw [ldrExt_zx hopc hsx, hrn, hread] at hldr
  have hout := hldr.outcome_andThen (guestOnly_gret (ip + 4#64))
  rw [show ∀ e : Exit, e.andThen .gret = e from fun e => by cases e <;> rfl] at hout
  rw [hout, run_single]
  unfold fusedAddsubLdr loadAt
  rw [fusedBase_eq, fusedBaseAddr_eq, outcome_readPrep]
  obtain ⟨-, -, -, -, hw₅, -⟩ := unpack_addsubMem rd rn (rdOf next) imm (imm12Of next) op
  rw [hw₅]
  rfl

theorem addsubStr_fused
    (h : tryFuseAddsubMem (some next) false size (fusedAddsubStr size.toNat) ip₀ ip op rd rn imm
      = some e) (f : Frame) : e.ip = ip + 4#64 ∧ (run e.code f).outcome (ip + 4#64) =
        (run ([addSubImm true op (packImm rd rn imm)] ++ (genStep links none other ip next).code)
          f).outcome (ip + 4#64) := by
  obtain ⟨hint, hload, hsx, rfl, hrn, hrt, rfl⟩ := addsubMem_inv ip h
  refine ⟨rfl, ?_⟩
  have hopc : opcOf next = 0#2 := by simpa using hload
  set v := addSub true op (f.x rn) (imm.setWidth 64) with hv
  have hread : (f.setX rd v).x rd = v := if_pos rfl
  rw [run_addSubImm_append, ← hv, genStep_unsignedImm links other ip hint,
    run_str ip (f.setX rd v) hint hopc hrt, hrn, hread, run_single]
  obtain ⟨-, -, -, -, hw₅, -⟩ := unpack_addsubMem rd rn (rdOf next) imm (imm12Of next) op
  unfold fusedAddsubStr
  rw [fusedBase_eq, fusedBaseAddr_eq, hw₅]

/-! ## LDR with CBZ and CBNZ -/

def Extends {w : Nat} (ext : BitVec w → Word) : Prop :=
  (∀ v i, i < w → (ext v).getLsbD i = v.getLsbD i) ∧ ext 0#w = 0#64

theorem extends_zx (hw : w ≤ 64) : Extends (@zx w) := by
  refine ⟨fun v i hi => ?_, by simp [zx]⟩
  have hi' : i < 64 := by omega
  simp [zx, hi']

theorem signExtend_zero (w n : Nat) : (0#w).signExtend n = 0#n := by
  rw [BitVec.signExtend_eq_setWidth_of_msb_false BitVec.msb_zero, BitVec.setWidth_zero]

theorem extends_sx64 (hw : w ≤ 64) : Extends (@sx64 w) := by
  refine ⟨fun v i hi => ?_, signExtend_zero w 64⟩
  have hi' : i < 64 := by omega
  rw [sx64, BitVec.getLsbD_signExtend, if_pos hi, decide_eq_true hi', Bool.true_and]

theorem extends_sx32 (hw : w ≤ 32) : Extends (@sx32 w) := by
  refine ⟨fun v i hi => ?_, ?_⟩
  · have hi' : i < 64 := by omega
    have hi'' : i < 32 := by omega
    rw [sx32, BitVec.getLsbD_setWidth, BitVec.getLsbD_signExtend, if_pos hi,
      decide_eq_true hi', decide_eq_true hi'', Bool.true_and, Bool.true_and]
  · rw [sx32, signExtend_zero]
    rfl

theorem cbTest_narrow {ext : BitVec w → Word} (h : Extends ext) (hw : w ≤ 32)
    (sf nz : Bool) (v : BitVec w) : cbTest sf nz (ext v) = cbTest true nz (ext v) := by
  cases sf with
  | true => rfl
  | false =>
    have hiff : (ext v).setWidth 32 = 0#32 ↔ ext v = 0#64 := by
      constructor
      · intro h0
        have hv : v = 0#w := by
          apply BitVec.eq_of_getLsbD_eq
          intro i hi
          have hbit := congrArg (fun b => b.getLsbD i) h0
          have hi' : i < 32 := by omega
          simpa [BitVec.getLsbD_setWidth, hi', h.1 v i hi] using hbit
        rw [hv, h.2]
      intro h0
      rw [h0]
      rfl
    unfold cbTest
    rw [if_neg (by decide), if_pos rfl]
    congr 1
    rw [Bool.eq_iff_iff, beq_iff_eq, beq_iff_eq]
    exact hiff

theorem outcome_loadBranch (n : Nat) (ext : BitVec (8 * n) → Word) (nz : Bool) (rt : Reg)
    (a pc target fallthrough : Word) (f : Frame) (end_ : Word) :
    (loadBranch n ext nz links rt a pc target fallthrough f).outcome end_ =
      match f.mem.readFault a.toNat n with
      | some bad => .fault f.toGuest pc (BitVec.ofNat 64 bad) false
      | none =>
        let v := ext (f.mem.load a.toNat n)
        .next (f.setX rt v).toGuest
          (jump links (if cbTest true nz v then target else fallthrough)) := by
  unfold loadBranch
  rw [outcome_readPrep]
  cases f.mem.readFault a.toNat n with
  | some bad => rfl
  | none => exact outcome_retChain _ _ _ _

theorem guestOnly_loadBranch (n : Nat) (ext : BitVec (8 * n) → Word) (nz : Bool) (rn rt : Reg)
    (off pc target fallthrough end_ : Word) :
    GuestOnly (fun f => loadBranch n ext nz links rt (mask48 (f.x rn + off)) pc target fallthrough
      f) end_ := by
  intro f₁ f₂ hg
  have hset : ∀ v, (f₁.setX rt v).toGuest = (f₂.setX rt v).toGuest := by
    intro v
    show { f₁.toGuest with x := fun r => if r = rt then v else f₁.toGuest.x r } = _
    rw [hg]
    rfl
  dsimp only
  rw [outcome_loadBranch, outcome_loadBranch, hg]
  simp only [hset]

theorem outcome_savePc (insn : Insn) {g : Gadget} {end_ : Word} (hg : GuestOnly g end_)
    (f : Frame) : (run (savePc ip insn ++ [g]) f).outcome end_ = (g f).outcome end_ := by
  unfold savePc
  split
  · rw [List.nil_append, run_single]
  rw [run_append, run_single]
  show (run [g] { f with jitSavedPc := ip }).outcome end_ = _
  rw [run_single]
  exact hg _ _ rfl

theorem extends_ldrExt {opc : BitVec 2} {n : Nat} (hn : n ≤ 4) : Extends (ldrExt opc n) := by
  unfold ldrExt
  split
  · exact extends_zx (by omega)
  split
  · exact extends_sx64 (by omega)
  · exact extends_sx32 (by omega)

/-- `e` does after the saving of the address what the load and `next` do. -/
def LdrFused (insn next : Insn) (e : Emit) (f : Frame) (end_ : Word) : Prop :=
  e.ip = ip + 4#64 + 4#64 ∧ (run (savePc ip insn ++ e.code) f).outcome e.ip =
      (run ((savePc ip insn ++ unsignedImmCode ip insn) ++
        (genStep links none other (ip + 4#64) next).code) f).outcome end_

theorem ldrCb_fused {ok : Insn → Prop} [DecidablePred ok]
    {gadget : Bool → Links → Word → Word → Word → Word → Gadget} {w : Word}
    (hint : IntUnsignedImm insn) (hload : opcOf insn ≠ 0#2)
    (h : tryFuseLdrCb links (some next) ok gadget w ip (ip + 4#64) (rdOf insn) = some e)
    {k : Nat} {ext : BitVec (8 * 2 ^ k) → Word} (hk : (sizeOf insn).toNat = k)
    (hext : ldrExt (opcOf insn) (2 ^ k) = ext)
    (hgadget : ok next → ∀ nz pc t ft f, gadget nz links w pc t ft f =
      loadBranch (2 ^ k) ext nz links (rdOf insn)
        (mask48 (f.x (rnOf insn) + put (imm12Of insn) k)) pc t ft f)
    (hwide : k ≤ 2 ∨ (ok next → next.getLsbD 31 = true)) (f : Frame) (end_ : Word) :
    LdrFused links other ip insn next e f end_ := by
  simp only [tryFuseLdrCb] at h
  split at h
  · rename_i hc
    obtain ⟨hrt, -, hcb, hrd, hok⟩ := hc
    subst hk hext
    cases h
    refine ⟨rfl, ?_⟩
    have hrt' : rdOf next ≠ 31#5 := hrd ▸ hrt
    -- at most 32 bits can be tested at either width
    have htest : ∀ nz v, cbTest (next.getLsbD 31) nz (ldrExt (opcOf insn) (2 ^ (sizeOf insn).toNat) v)
        = cbTest true nz (ldrExt (opcOf insn) (2 ^ (sizeOf insn).toNat) v) := by
      intro nz v
      obtain hk | h64 := hwide
      · have hn : 2 ^ (sizeOf insn).toNat ≤ 2 ^ 2 := Nat.pow_le_pow_right (by decide) hk
        exact cbTest_narrow (extends_ldrExt hn) (by omega) _ nz v
      · rw [h64 hok]
    rw [run_append _ (genStep links none other (ip + 4#64) next).code,
      genStep_cb links other _ hcb hrt',
      show run [cbReg (next.getLsbD 31) (next.getLsbD 24) links (put (rdOf next) 0)
        (fake (ip + 4#64 + branchImm19 next)) (fake (ip + 4#64 + 4#64))]
        = cbReg (next.getLsbD 31) (next.getLsbD 24) links (put (rdOf next) 0)
          (fake (ip + 4#64 + branchImm19 next)) (fake (ip + 4#64 + 4#64)) from
        funext (run_single _),
      (run_ldr ip f hint hload hrt).outcome_andThen (guestOnly_cbReg _ _ _ _ _ _ _)]
    show (run (savePc ip insn ++ [gadget (next.getLsbD 24) links w ip
      (fake (ip + 4#64 + branchImm19 next)) (fake (ip + 4#64 + 4#64))]) f).outcome _ = _
    rw [show gadget (next.getLsbD 24) links w ip (fake (ip + 4#64 + branchImm19 next))
      (fake (ip + 4#64 + 4#64)) = _ from funext (hgadget hok _ _ _ _),
      outcome_savePc ip insn (guestOnly_loadBranch links _ _ _ _ _ _ _ _ _ _) f, outcome_loadBranch]
    cases f.mem.readFault
        (mask48 (f.x (rnOf insn) + put (imm12Of insn) (sizeOf insn).toNat)).toNat
        (2 ^ (sizeOf insn).toNat) with
    | some bad => rfl
    | none =>
      dsimp only
      unfold cbReg
      rw [outcome_inlineChain, reg_put, hrd, show ∀ v, (f.setX (rdOf insn) v).x (rdOf insn) = v
        from fun v => if_pos rfl, htest]
  · cases h

theorem fusedLdrCbBase_eq {shift : Nat} {ext : BitVec (8 * 2 ^ shift) → Word} {w : Word}
    {rt : Reg} (hwt : reg w 0 = rt) (hwn : reg w 8 = rn)
    (hwi : imm12 w 16 = imm.setWidth 64) (nz : Bool) (pc t ft : Word) (f : Frame) :
    fusedLdrCbBase shift ext nz links w pc t ft f =
      loadBranch (2 ^ shift) ext nz links rt (mask48 (f.x rn + put imm shift)) pc t ft f := by
  unfold fusedLdrCbBase
  rw [hwt, hwn, hwi, base_eq]
  rfl

theorem fusedLdrCbBase_packImm {shift : Nat} {ext : BitVec (8 * 2 ^ shift) → Word} (rn rt : Reg)
    (imm : BitVec 12) (nz : Bool) (pc t ft : Word) (f : Frame) :
    fusedLdrCbBase shift ext nz links (packImm rt rn imm) pc t ft f =
      loadBranch (2 ^ shift) ext nz links rt (mask48 (f.x rn + put imm shift)) pc t ft f :=
  fusedLdrCbBase_eq links (reg_packImm_rd _ _ _) (reg_packImm_rn _ _ _) (imm12_packImm _ _ _) nz pc t
    ft f

theorem fusedLdrCbPlain_eq (shift : Nat) (rn rt : Reg) (imm : BitVec 12) (nz : Bool)
    (pc t ft : Word) (f : Frame) : fusedLdrCbPlain shift nz links (packImm rt rn imm) pc t ft f =
      loadBranch (2 ^ shift) zx nz links rt (mask48 (f.x rn + put imm shift)) pc t ft f := by
  unfold fusedLdrCbPlain
  rw [reg_packImm_rd, reg_packImm_rn, imm12_packImm]
  rfl

theorem fusedLdr64SpCb_eq (hrn : rn = 31#5) (rt : Reg) (imm : BitVec 12) (nz : Bool)
    (pc t ft : Word) (f : Frame) : fusedLdr64SpCb nz links (put rt 0 ||| put imm 16) pc t ft f =
      loadBranch 8 zx nz links rt (mask48 (f.x rn + put imm 3)) pc t ft f := by
  unfold fusedLdr64SpCb Frame.sp
  rw [reg_spImm, imm12_spImm, hrn]
  rfl

/-- **Every load that `gen_ldst` fuses with CBZ or CBNZ.** -/
theorem tryFuseLdr_fused (hint : IntUnsignedImm insn)
    (h : tryFuseLdr links (some next) ip (ip + 4#64) insn = some e) (f : Frame) (end_ : Word) :
    LdrFused links other ip insn next e f end_ := by
  rw [tryFuseLdr] at h
  by_cases hsx : (opcOf insn).getLsbD 1 = true
  · have hload : opcOf insn ≠ 0#2 := by
      intro h0
      rw [h0] at hsx
      exact absurd hsx (by decide)
    have hone : opcOf insn ≠ 1#2 := by
      intro h1
      rw [h1] at hsx
      exact absurd hsx (by decide)
    -- a byte or a halfword, to 32 or to 64 bits
    have hsmall : ∀ n ≤ 2, ldrExt (opcOf insn) n
        = if decide (opcOf insn = 2#2) = true then sx64 else sx32 := by
      intro n hn
      have h8 : n ≠ 8 := by omega
      have h4 : n ≠ 4 := by omega
      simp [ldrExt, hone, h8, h4]
    rw [if_pos hsx] at h
    rcases size_cases (sizeOf insn) with hs | hs | hs | hs <;> rw [hs] at h
    · refine ldrCb_fused links other ip (k := 0) hint hload h (by rw [hs]; rfl) (hsmall 1 (by decide))
        (fun hok nz pc t ft f => ?_) (.inl (by decide)) f end_
      obtain ⟨hwt, hwn, hwi, hw28, hw29⟩ := unpack_ldrSx (rnOf insn) (rdOf insn) (imm12Of insn) 0#2
        (decide (opcOf insn = 2#2)) hok
      rw [show (if nz = true then fusedLdrSxCbnzImm else fusedLdrSxCbzImm) = fusedLdrSxCb nz
        from by cases nz <;> rfl, fusedLdrSxCb, hw28, if_neg (by decide), hw29]
      exact fusedLdrCbBase_eq links hwt hwn hwi nz pc t ft f
    · refine ldrCb_fused links other ip (k := 1) hint hload h (by rw [hs]; rfl) (hsmall 2 (by decide))
        (fun hok nz pc t ft f => ?_) (.inl (by decide)) f end_
      obtain ⟨hwt, hwn, hwi, hw28, hw29⟩ := unpack_ldrSx (rnOf insn) (rdOf insn) (imm12Of insn) 1#2
        (decide (opcOf insn = 2#2)) hok
      rw [show (if nz = true then fusedLdrSxCbnzImm else fusedLdrSxCbzImm) = fusedLdrSxCb nz
        from by cases nz <;> rfl, fusedLdrSxCb, hw28, if_pos (by decide), hw29]
      exact fusedLdrCbBase_eq links hwt hwn hwi nz pc t ft f
    · have hext : ldrExt (opcOf insn) 4 = sx64 := by
        rw [ldrExt, if_neg (by simp [hone]), if_pos (.inr rfl)]
      refine ldrCb_fused links other ip (k := 2) hint hload h (by rw [hs]; rfl) hext
        (fun _ nz pc t ft f => ?_) (.inl (by decide)) f end_
      cases nz <;> exact fusedLdrCbBase_packImm links _ _ _ _ pc t ft f
    · cases h
  rw [if_neg hsx] at h
  split at h
  · rename_i hopc
    have hload : opcOf insn ≠ 0#2 := by
      rw [hopc]
      decide
    rcases size_cases (sizeOf insn) with hs | hs | hs | hs <;> rw [hs] at h
    · refine ldrCb_fused links other ip (k := 0) hint hload h (by rw [hs]; rfl) (ldrExt_one hopc _)
        (fun _ nz pc t ft f => ?_) (.inl (by decide)) f end_
      cases nz <;> exact fusedLdrCbBase_packImm links _ _ _ _ pc t ft f
    · refine ldrCb_fused links other ip (k := 1) hint hload h (by rw [hs]; rfl) (ldrExt_one hopc _)
        (fun _ nz pc t ft f => ?_) (.inl (by decide)) f end_
      cases nz <;> exact fusedLdrCbBase_packImm links _ _ _ _ pc t ft f
    · refine ldrCb_fused links other ip (k := 2) hint hload h (by rw [hs]; rfl) (ldrExt_one hopc _)
        (fun _ nz pc t ft f => ?_) (.inl (by decide)) f end_
      cases nz <;> exact fusedLdrCbPlain_eq links 2 _ _ _ _ pc t ft f
    · -- a 64-bit load is fused with a 64-bit test only
      rcases orElse_some h with h | h
      · refine ldrCb_fused links other ip (k := 3) hint hload h (by rw [hs]; rfl) (ldrExt_one hopc _)
          (fun _ nz pc t ft f => ?_) (.inr And.right) f end_
        cases nz <;> exact fusedLdrCbPlain_eq links 3 _ _ _ _ pc t ft f
      refine ldrCb_fused links other ip (k := 3) hint hload h (by rw [hs]; rfl) (ldrExt_one hopc _)
        (fun hok nz pc t ft f => ?_) (.inr And.right) f end_
      cases nz <;> exact fusedLdr64SpCb_eq links hok.1 _ _ _ pc t ft f
  · cases h

/-! ## ADRP with ADD or LDR -/

theorem adrTarget_page (h : insn.getLsbD 31 = true) (ip₀ : Word) :
    (adrTarget insn ip₀).toNat % 4096 = 0 := by
  have hand : (ip₀ &&& ~~~0xfff#64).toNat % 4096 = 0 := by
    rw [BitVec.toNat_and, show 4096 = 2 ^ 12 from rfl, Nat.and_mod_two_pow]
    exact Nat.and_zero _
  rw [adrTarget, if_pos h, BitVec.toNat_add, BitVec.toNat_shiftLeft, Nat.shiftLeft_eq]
  omega

theorem mask48_eq_put (t : Word) : mask48 t = put (t.extractLsb' 0 48) 0 := by
  apply BitVec.eq_of_toNat_eq
  rw [toNat_mask48, put_zero, BitVec.toNat_setWidth, BitVec.extractLsb'_toNat, Nat.shiftRight_zero]
  omega

theorem mask48_page_add {t : Word} (h : t.toNat % 4096 = 0) (imm : BitVec 12) :
    mask48 (mask48 t + imm.setWidth 64) = mask48 t + imm.setWidth 64 := by
  have himm : (imm.setWidth 64).toNat = imm.toNat := by
    rw [BitVec.toNat_setWidth]
    omega
  apply BitVec.eq_of_toNat_eq
  rw [toNat_mask48, BitVec.toNat_add, toNat_mask48, himm]
  omega

theorem class_addImm64 (h : isAddImm64 insn = true) : insn.extractLsb' 25 4 = 8#4 := by
  rw [extract_of_and (eq_of_beq h) 25 4 (by decide) (by decide)]
  decide

theorem tryFuseAddsub_none (ip₀ : Word) (insn : Insn) :
    tryFuseAddsub links none ip₀ ip insn = none := by
  simp only [tryFuseAddsub]
  split
  · rfl
  split
  · cases insn.getLsbD 31 <;> rfl
  · rfl

theorem getLsbD_of_and {n : Nat} {x m v : BitVec n} (h : x &&& m = v) (k : Nat)
    (hm : m.getLsbD k = true) : x.getLsbD k = v.getLsbD k := by
  rw [← h, BitVec.getLsbD_and, hm, Bool.and_true]

theorem genStep_addImm64 (h : isAddImm64 insn = true) (hrn : rnOf insn ≠ 31#5)
    (hrd : rdOf insn ≠ 31#5) : genStep links none other ip insn =
      { code := [addSubImm true false (packImm (rdOf insn) (rnOf insn) (imm12Of insn))]
        ip := ip + 4#64 } := by
  have hp := eq_of_beq h
  rw [genStep, class_addImm64 h]
  show genDpImm links none other ip insn = _
  rw [genDpImm, and_mask_of hp 0x1f000000#32 (by decide), and_mask_of hp 0x03000000#32 (by decide),
    if_neg (by decide), if_pos (by decide), genAddsubImm, tryFuseAddsub_none]
  have hfast : addsubFast insn
      = some (addImm64 (packImm (rdOf insn) (rnOf insn) (imm12Of insn))) := by
    unfold addsubFast
    rw [getLsbD_of_and hp 31 (by decide), getLsbD_of_and hp 30 (by decide),
      getLsbD_of_and hp 29 (by decide), getLsbD_of_and hp 22 (by decide)]
    simp [hrn, hrd]
  rw [hfast]
  rfl

theorem run_adr (rd : Reg) (hrd : rd ≠ 31#5) (t : Word) (f : Frame) :
    adr (put rd 0 ||| put (mask48 t) 8) f = .gret (f.setX rd (mask48 t)) := by
  have hreg : reg (put rd 0 ||| put (mask48 t) 8) 0 = rd := by
    simp [reg, BitVec.extractLsb'_or]
  have hval : ((put rd 0 ||| put (mask48 t) 8 : Word).extractLsb' 8 48).setWidth 64
      = mask48 t := by
    rw [mask48_eq_put, put_put, BitVec.extractLsb'_or, extract_put_below _ (by decide),
      extract_put_self _ _ (by decide), BitVec.zero_or, put_zero]
  unfold adr
  rw [hreg, hval, setXz_of_ne _ hrd]

theorem tryFuseAdrp_inv (h : tryFuseAdrp (some next) ip rd target = some e) : e.ip = ip + 4#64 ∧
      (isLdr64 next = true ∧ rnOf next = rd ∧ rdOf next ≠ 31#5 ∧
          e.code = [fusedAdrpLdr64 (put (rdOf next) 0 ||| put rd 5 |||
            put (put (imm12Of next) 3 : Word) 16) (mask48 target)] ∨
        isLdr64 next = false ∧ isAddImm64 next = true ∧ rnOf next = rd ∧ rdOf next = rd ∧
          e.code = [fusedAdrpAdd (put rd 0 ||| put (imm12Of next) 8) (mask48 target)]) := by
  simp only [tryFuseAdrp] at h
  split at h
  · rename_i hc
    cases h
    exact ⟨rfl, .inl ⟨hc.1, hc.2.1, hc.2.2, rfl⟩⟩
  split at h
  · rename_i hldr hc
    cases h
    refine ⟨rfl, .inr ⟨?_, hc.1, hc.2.1, hc.2.2, rfl⟩⟩
    -- ADD is not LDR
    rw [Bool.eq_false_iff]
    intro hl
    have hm := eq_of_beq hl
    rw [eq_of_beq hc.1] at hm
    exact absurd hm (by decide)
  · cases h

theorem adrpAdd_fused (hrd : rd ≠ 31#5)
    (ht : target.toNat % 4096 = 0) (hadd : isAddImm64 next = true)
    (hrn : rnOf next = rd) (hrd' : rdOf next = rd) (f : Frame) (end_ : Word) :
    (run [fusedAdrpAdd (put rd 0 ||| put (imm12Of next) 8) (mask48 target)] f).outcome end_ =
      (run ([adr (put rd 0 ||| put (mask48 target) 8)] ++
        (genStep links none other ip next).code) f).outcome end_ := by
  rw [run_single_append (run_adr rd hrd target f),
    genStep_addImm64 links other ip hadd (hrn ▸ hrd) (hrd' ▸ hrd), run_single, run_single]
  unfold fusedAdrpAdd addSubImm
  rw [reg_cmpImm, imm12_cmpImm, mask48_page_add ht, reg_packImm_rd, reg_packImm_rn,
    imm12_packImm, hrn, hrd']
  have hread : (f.setX rd (mask48 target)).x rd = mask48 target := if_pos rfl
  rw [hread, addSub, if_pos rfl, if_neg (by decide)]
  -- the first write to the register is overwritten
  have htwice : ∀ v, (f.setX rd (mask48 target)).setX rd v = f.setX rd v := by
    intro v
    unfold Frame.setX
    congr 2
    funext r
    dsimp only
    split <;> rfl
  rw [htwice]

theorem unpack_adrpLdr (rd rt : Reg) (imm : BitVec 12) :
    let w := put rt 0 ||| put rd 5 ||| put (put imm 3 : Word) 16
    reg w 0 = rt ∧ reg w 5 = rd ∧ (w.extractLsb' 16 16).setWidth 64 = (put imm 3 : Word) := by
  dsimp only
  rw [put_put]
  refine ⟨?_, ?_, ?_⟩
  · simp [reg, BitVec.extractLsb'_or]
  · simp [reg, BitVec.extractLsb'_or]
  rw [BitVec.extractLsb'_or, BitVec.extractLsb'_or, extract_put_below _ (by decide),
    extract_put_below _ (by decide), BitVec.zero_or, BitVec.zero_or,
    extract_put_within _ (by decide) (by decide) (by decide)]

theorem adrpLdr_fused (hrd : rd ≠ 31#5)
    (hldr : isLdr64 next = true) (hrn : rnOf next = rd) (hrt : rdOf next ≠ 31#5) (f : Frame) :
    ((run [fusedAdrpLdr64 (put (rdOf next) 0 ||| put rd 5 ||| put (put (imm12Of next) 3 : Word) 16)
        (mask48 target)] f).outcome (ip + 4#64) =
      (run ([adr (put rd 0 ||| put (mask48 target) 8)] ++
        (genStep links none other ip next).code) f).outcome (ip + 4#64)) ↔
    ¬ (f.mem.readFault (mask48 (mask48 target + put (imm12Of next) 3)).toNat 8 ≠ none ∧
      f.jitSavedPc ≠ ip) := by
  have hint := intUnsignedImm_ldr64 hldr
  obtain ⟨hsize, hopc⟩ := fields_ldr64 hldr
  set f₁ := f.setX rd (mask48 target) with hf₁
  have hread : f₁.x rd = mask48 target := if_pos rfl
  rw [run_single_append (run_adr rd hrd target f), ← hf₁, genStep_unsignedImm links other ip hint]
  have hspec := run_ldr ip f₁ hint (by rw [hopc]; decide) hrt
  rw [ldrExt_one hopc, hrn, hread] at hspec
  have hout := hspec.outcome_andThen (guestOnly_gret (ip + 4#64))
  rw [show ∀ e : Exit, e.andThen .gret = e from fun e => by cases e <;> rfl, hsize] at hout
  obtain ⟨hw₁, hw₂, hw₃⟩ := unpack_adrpLdr rd (rdOf next) (imm12Of next)
  rw [hout, run_single]
  unfold fusedAdrpLdr64 loadAt
  dsimp only
  rw [hw₁, hw₂, hw₃, ← hf₁, outcome_readPrep]
  have hmem : f₁.mem = f.mem := rfl
  rw [hmem, show (3#2).toNat = 3 from rfl, show 2 ^ 3 = 8 from rfl]
  cases f.mem.readFault (mask48 (mask48 target + put (imm12Of next) 3)).toNat 8 with
  | none =>
    refine iff_of_true rfl ?_
    exact fun hc => hc.1 rfl
  | some bad =>
    show Outcome.fault f₁.toGuest f.jitSavedPc _ false = .fault f₁.toGuest ip _ false ↔ _
    constructor
    · intro h hc
      exact hc.2 (Outcome.fault.inj h).2.1
    intro h
    have hpc : f.jitSavedPc = ip := by
      by_contra hne
      exact h ⟨Option.some_ne_none bad, hne⟩
    rw [hpc]

/-! ## Everything that is fused -/

/-- The one thing that a fused pair gets wrong: an ADRP with a 64-bit LDR whose access faults
while the saved address is not that of the LDR. -/
def AdrpLdrFault (insn next : Insn) (f : Frame) : Prop :=
  insn &&& 0x9f000000#32 = 0x90000000#32 ∧ isLdr64 next = true ∧
    f.mem.readFault (mask48 (mask48 (adrTarget insn ip) + put (imm12Of next) 3)).toNat 8 ≠ none ∧
    f.jitSavedPc ≠ ip + 4#64

theorem ip_ne (ip : Word) : ip + 4#64 ≠ ip + 8#64 := by
  bv_omega

/-- The gadgets of a pair give the outcome of the two instructions' own, one after the
other. -/
def SameOutcome (pair first second : Emit) (f : Frame) : Prop :=
  (run pair.code f).outcome pair.ip = (run (first.code ++ second.code) f).outcome second.ip

theorem genLdst_fused (hip : (genLdst links (some next) ip insn).ip = ip + 8#64) (f : Frame) :
    SameOutcome (genLdst links (some next) ip insn) (genLdst links none ip insn)
      (genStep links none other (ip + 4#64) next) f := by
  by_cases hint : IntUnsignedImm insn
  · have hint' := hint
    unfold IntUnsignedImm at hint'
    cases hfuse : tryFuseLdr links (some next) ip (ip + 4#64) insn with
    | some e =>
      have hpair : genLdst links (some next) ip insn = { e with code := savePc ip insn ++ e.code } := by
        rw [genLdst, if_pos hint', hfuse]
      have hsingle : genLdst links none ip insn
          = { code := savePc ip insn ++ unsignedImmCode ip insn, ip := ip + 4#64 } := by
        have hstep := genStep_unsignedImm links other ip hint
        rw [genStep, class_unsignedImm hint.1 hint.2.1] at hstep
        exact hstep
      unfold SameOutcome
      rw [hpair, hsingle]
      exact (tryFuseLdr_fused links other ip hint hfuse f _).2
    | none =>
      rw [genLdst, if_pos hint', hfuse] at hip
      exact absurd hip (ip_ne ip)
  unfold IntUnsignedImm at hint
  rw [genLdst, if_neg hint] at hip
  exact absurd hip (ip_ne ip)

theorem genDpReg_fused
    (hip : (genDpReg links (some next) other ip insn).ip = ip + 8#64) (f : Frame) :
    SameOutcome (genDpReg links (some next) other ip insn) (genDpReg links none other ip insn)
      (genStep links none other (ip + 4#64) next) f := by
  unfold SameOutcome
  simp only [genDpReg] at hip ⊢
  split at hip
  · rename_i hc
    rw [if_pos hc]
    cases hfuse : tryFuseSubsRegBcond links (some next) (ip + 4#64) (rdOf insn) (rnOf insn)
        (rmOf insn) with
    | some e =>
      rw [if_pos hc]
      exact (subsRegBcond_fused links other (ip + 4#64) hfuse f _).2
    | none =>
      rw [hfuse] at hip
      exact absurd hip (ip_ne ip)
  · exact absurd hip (ip_ne ip)

theorem addsubFast_subs (h : insn.getLsbD 22 = false ∧ rnOf insn ≠ 31#5 ∧ insn.getLsbD 29 = true ∧
      insn.getLsbD 30 = true) : addsubFast insn = some (subsImm (insn.getLsbD 31)
      (packImm (rdOf insn) (rnOf insn) (imm12Of insn))) := by
  obtain ⟨hsh, hrn, hs, hop⟩ := h
  rw [addsubFast, hsh, hs, hop, if_neg (by simp [hrn]), if_pos rfl, if_pos rfl]
  cases insn.getLsbD 31 <;> rfl

theorem addsubFast_add (h : insn.getLsbD 22 = false ∧ insn.getLsbD 29 = false ∧ rdOf insn ≠ 31#5 ∧
      rnOf insn ≠ 31#5) : addsubFast insn = some (addSubImm (insn.getLsbD 31) (insn.getLsbD 30)
      (packImm (rdOf insn) (rnOf insn) (imm12Of insn))) := by
  obtain ⟨hsh, hs, hrd, hrn⟩ := h
  rw [addsubFast, hsh, hs, if_neg (by simp [hrn]), if_neg (by decide), if_neg hrd]
  cases insn.getLsbD 31 <;> cases insn.getLsbD 30 <;> rfl

theorem addsubMem_fused
    (h : (tryFuseAddsubLdr64 (some next) ip₀ ip op rd rn imm <|>
      tryFuseAddsubLdr32 (some next) ip₀ ip op rd rn imm <|>
      tryFuseAddsubLdr16 (some next) ip₀ ip op rd rn imm <|>
      tryFuseAddsubLdr8 (some next) ip₀ ip op rd rn imm <|>
      tryFuseAddsubStr64 (some next) ip₀ ip op rd rn imm <|>
      tryFuseAddsubStr32 (some next) ip₀ ip op rd rn imm <|>
      tryFuseAddsubStr16 (some next) ip₀ ip op rd rn imm <|>
      tryFuseAddsubStr8 (some next) ip₀ ip op rd rn imm) = some e) :
    (∃ size, tryFuseAddsubMem (some next) true size (fusedAddsubLdr size.toNat) ip₀ ip op rd rn
        imm = some e) ∨
      ∃ size, tryFuseAddsubMem (some next) false size (fusedAddsubStr size.toNat) ip₀ ip op rd rn
        imm = some e := by
  rcases orElse_some h with h | h
  · exact .inl ⟨3#2, h⟩
  rcases orElse_some h with h | h
  · exact .inl ⟨2#2, h⟩
  rcases orElse_some h with h | h
  · exact .inl ⟨1#2, h⟩
  rcases orElse_some h with h | h
  · exact .inl ⟨0#2, h⟩
  rcases orElse_some h with h | h
  · exact .inr ⟨3#2, h⟩
  rcases orElse_some h with h | h
  · exact .inr ⟨2#2, h⟩
  rcases orElse_some h with h | h
  · exact .inr ⟨1#2, h⟩
  · exact .inr ⟨0#2, h⟩

theorem genAddsubImm_fused
    (hip : (genAddsubImm links (some next) other ip insn).ip = ip + 8#64) (f : Frame) :
    SameOutcome (genAddsubImm links (some next) other ip insn)
      (genAddsubImm links none other ip insn) (genStep links none other (ip + 4#64) next) f := by
  cases hfuse : tryFuseAddsub links (some next) ip (ip + 4#64) insn with
  | none =>
    rw [genAddsubImm, hfuse] at hip
    cases hfast : addsubFast insn with
    | none =>
      rw [hfast] at hip
      exact absurd hip (ip_ne ip)
    | some g =>
      rw [hfast] at hip
      exact absurd hip (ip_ne ip)
  | some e =>
    have hpair : genAddsubImm links (some next) other ip insn = e := by
      rw [genAddsubImm, hfuse]
      rfl
    have hsingle : ∀ {g}, addsubFast insn = some g →
        genAddsubImm links none other ip insn = { code := [g], ip := ip + 4#64 } := by
      intro g hg
      rw [genAddsubImm, tryFuseAddsub_none, hg]
      rfl
    unfold SameOutcome
    simp only [tryFuseAddsub] at hfuse
    split at hfuse
    · rename_i hc
      rw [hpair, hsingle (addsubFast_subs hc)]
      exact (subsBcond_fused links other (ip + 4#64) hfuse f _).2
    split at hfuse
    · rename_i hc
      rw [hpair, hsingle (addsubFast_add hc)]
      rcases orElse_some hfuse with h | h
      · exact (addsubCb_fused links other (ip + 4#64) h f _).2
      cases hsf : insn.getLsbD 31 with
      | false =>
        rw [hsf] at h
        cases h
      | true =>
        rw [hsf] at h
        rcases addsubMem_fused (ip + 4#64) h with ⟨size, h⟩ | ⟨size, h⟩
        · obtain ⟨hint, -⟩ := addsubMem_inv (ip + 4#64) h
          obtain ⟨hip', hout⟩ := addsubLdr_fused links other (ip + 4#64) h f
          rw [hip', genStep_unsignedImm links other (ip + 4#64) hint] at *
          exact hout
        obtain ⟨hint, -⟩ := addsubMem_inv (ip + 4#64) h
        obtain ⟨hip', hout⟩ := addsubStr_fused links other (ip + 4#64) h f
        rw [hip', genStep_unsignedImm links other (ip + 4#64) hint] at *
        exact hout
    · cases hfuse

theorem genAdr_fused (hadr : insn &&& 0x1f000000#32 = 0x10000000#32)
    (hip : (genAdr (some next) ip insn).ip = ip + 8#64) (f : Frame) :
    SameOutcome (genAdr (some next) ip insn) (genAdr none ip insn)
      (genStep links none other (ip + 4#64) next) f ↔ ¬ AdrpLdrFault ip insn next f := by
  by_cases hc : insn.getLsbD 31 = true ∧ rdOf insn ≠ 31#5
  · cases hfuse : tryFuseAdrp (some next) (ip + 4#64) (rdOf insn) (adrTarget insn ip) with
    | none =>
      rw [genAdr, if_pos hc, hfuse] at hip
      exact absurd hip (ip_ne ip)
    | some e =>
      have hpair : genAdr (some next) ip insn = e := by
        rw [genAdr, if_pos hc, hfuse]
        rfl
      have hsingle : genAdr none ip insn
          = { code := [adr (put (rdOf insn) 0 ||| put (mask48 (adrTarget insn ip)) 8)]
              ip := ip + 4#64 } := by
        rw [genAdr, if_pos hc]
        rfl
      unfold SameOutcome
      rw [hpair, hsingle]
      obtain ⟨hip', ⟨hldr, hrn, hrt, hcode⟩ | ⟨hldr, hadd, hrn, hrd, hcode⟩⟩ :=
        tryFuseAdrp_inv (ip + 4#64) hfuse
      · have hnext : (genStep links none other (ip + 4#64) next).ip = ip + 4#64 + 4#64 := by
          rw [genStep_unsignedImm links other (ip + 4#64) (intUnsignedImm_ldr64 hldr)]
        rw [hip', hnext, hcode, adrpLdr_fused links other (ip + 4#64) hc.2 hldr hrn hrt f]
        have hadrp : insn &&& 0x9f000000#32 = 0x90000000#32 := by
          rw [show (0x9f000000#32) = 0x1f000000#32 ||| BitVec.twoPow 32 31 from by decide,
            BitVec.and_or_distrib_left, hadr, BitVec.and_twoPow, hc.1]
          rfl
        unfold AdrpLdrFault
        simp only [hadrp, hldr, true_and]
      have hnext : (genStep links none other (ip + 4#64) next).ip = ip + 4#64 + 4#64 := by
        rw [genStep_addImm64 links other (ip + 4#64) hadd (hrn ▸ hc.2) (hrd ▸ hc.2)]
      refine iff_of_true ?_ (fun hbad => ?_)
      · rw [hip', hnext, hcode]
        exact adrpAdd_fused links other (ip + 4#64) hc.2 (adrTarget_page hc.1 ip) hadd hrn hrd
          f _
      · exact absurd (hldr.symm.trans hbad.2.1) (by decide)
  · rw [genAdr, if_neg hc] at hip
    exact absurd hip (ip_ne ip)

theorem not_adrpLdrFault (h : insn &&& 0x1f000000#32 ≠ 0x10000000#32)
    (next : Insn) (f : Frame) : ¬ AdrpLdrFault ip insn next f := by
  intro hbad
  apply h
  rw [and_mask_of hbad.1 0x1f000000#32 (by decide)]
  decide

theorem genDpImm_fused
    (hip : (genDpImm links (some next) other ip insn).ip = ip + 8#64) (f : Frame) :
    SameOutcome (genDpImm links (some next) other ip insn) (genDpImm links none other ip insn)
      (genStep links none other (ip + 4#64) next) f ↔ ¬ AdrpLdrFault ip insn next f := by
  unfold genDpImm at hip ⊢
  by_cases hadr : insn &&& 0x1f000000#32 = 0x10000000#32
  · rw [if_pos hadr] at hip ⊢
    rw [if_pos hadr]
    exact genAdr_fused links other ip hadr hip f
  rw [if_neg hadr] at hip ⊢
  rw [if_neg hadr]
  refine iff_of_true ?_ (not_adrpLdrFault ip hadr next f)
  split at hip
  · rename_i hadd
    rw [if_pos hadd, if_pos hadd]
    exact genAddsubImm_fused links other ip hip f
  · exact absurd hip (ip_ne ip)

theorem genBranch_ip (insn : Insn) : (genBranch links other ip insn).ip = ip + 4#64 := by
  unfold genBranch
  dsimp only
  split
  · split <;> rfl
  split
  · rfl
  · split <;> rfl

/-- **Fused pairs against single instructions.** Whenever `gen_step` takes in two instructions
at once, its gadgets give the outcome of the two translated on their own, exactly when the
pair is not an ADRP with an LDR that faults with another address saved. -/
theorem fusion_iff (insn next : Insn)
    (hip : (genStep links (some next) other ip insn).ip = ip + 8#64) (f : Frame) :
    SameOutcome (genStep links (some next) other ip insn) (genStep links none other ip insn)
      (genStep links none other (ip + 4#64) next) f ↔ ¬ AdrpLdrFault ip insn next f := by
  -- outside the class of ADRP the outcomes always agree
  have hclass : ∀ k : Nat, (insn.extractLsb' 25 4).toNat = k → k ≠ 8 →
      ¬ AdrpLdrFault ip insn next f := by
    intro k hk hne
    apply not_adrpLdrFault
    intro hadr
    apply hne
    rw [← hk, extract_of_and hadr 25 4 (by decide) (by decide)]
    rfl
  generalize hsecond : genStep links none other (ip + 4#64) next = second
  unfold genStep at hip ⊢
  generalize hc : (insn.extractLsb' 25 4).toNat = c at hip ⊢
  split at hip
  · exact hsecond ▸ genDpImm_fused links other ip hip f
  · exact hsecond ▸ genDpImm_fused links other ip hip f
  · exact absurd ((genBranch_ip links other ip insn).symm.trans hip) (ip_ne ip)
  · exact absurd ((genBranch_ip links other ip insn).symm.trans hip) (ip_ne ip)
  · exact iff_of_true (hsecond ▸ genLdst_fused links other ip hip f) (hclass _ hc (by decide))
  · exact iff_of_true (hsecond ▸ genLdst_fused links other ip hip f) (hclass _ hc (by decide))
  · exact iff_of_true (hsecond ▸ genLdst_fused links other ip hip f) (hclass _ hc (by decide))
  · exact iff_of_true (hsecond ▸ genLdst_fused links other ip hip f) (hclass _ hc (by decide))
  · exact iff_of_true (hsecond ▸ genDpReg_fused links other ip hip f) (hclass _ hc (by decide))
  · exact iff_of_true (hsecond ▸ genDpReg_fused links other ip hip f) (hclass _ hc (by decide))
  · exact absurd hip (ip_ne ip)

end Pairs

/-- No page is mapped; the last address saved is that of a load at `0xff8`. -/
def emptyFrame : Frame where
  x := fun _ => 0
  nzcv := 0
  fp := fun _ => 0
  mem := { byte := fun _ => 0, readable := fun _ => false, writable := fun _ => false }
  pc := 0x1000
  segfaultAddr := 0
  segfaultWasWrite := false
  jitSavedPc := 0xff8
  valueAddr := 0
  exclAddr := 0
  exclVal := 0
  exclPairAddr := 0
  exclPairLo := 0
  exclPairHi := 0
  exclPairSize := 0
  addr := 0
  tmp := 0

/-- `cmp x1, #5; b.eq .+8` -/
theorem fusion_iff_cmpBcond :
    SameOutcome (genStep (fun _ => none) (some 0x54000040#32) (fun _ _ => []) 0x1000 0xf100143f#32)
      (genStep (fun _ => none) none (fun _ _ => []) 0x1000 0xf100143f#32)
      (genStep (fun _ => none) none (fun _ _ => []) (0x1000 + 4#64) 0x54000040#32) emptyFrame :=
  (fusion_iff (fun _ => none) (fun _ _ => []) 0x1000 0xf100143f#32 0x54000040#32 rfl
    emptyFrame).mpr (fun h => absurd h.1 (by decide))

/-- `adrp x0, .; ldr x1, [x0]` on a page that is not mapped: the fault is reported at
`0xff8`. -/
theorem adrpLdr_unsavedFault :
    ¬ ∀ (links : Links) (other : Word → Insn → List Plain) (ip : Word) (insn next : Insn)
      (f : Frame), (genStep links (some next) other ip insn).ip = ip + 8#64 →
        SameOutcome (genStep links (some next) other ip insn) (genStep links none other ip insn)
          (genStep links none other (ip + 4#64) next) f := by
  intro h
  have hsame := h (fun _ => none) (fun _ _ => []) 0x1000 0x90000000#32 0xf9400001#32 emptyFrame rfl
  refine (genAdr_fused (fun _ => none) (fun _ _ => []) 0x1000 (by decide) rfl emptyFrame).mp hsame
    ⟨by decide, by decide, ?_, by decide⟩
  exact Option.some_ne_none _

end IosLinuxkit.Arm64
