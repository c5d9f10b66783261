import IosLinuxkit.Asbestos.GenLdst

/-!
# What a single instruction translates to

The operands that a gadget unpacks are those that were packed, a matched pattern decides the
class of an instruction and every pattern tried before it, and the gadgets of a load or store
with an unsigned immediate do one access with the instruction's own address saved
(`run_ldr`, `run_str`).
-/

namespace IosLinuxkit.Arm64

open Bitfield

/-! ## Running a short stream -/

@[simp] theorem run_nil (f : Frame) : run [] f = .gret f := rfl

@[simp] theorem run_single (g : Gadget) (f : Frame) : run [g] f = g f := by
  rw [run_cons]
  cases g f <;> rfl

/-! ## Packed operands -/

section Packed

variable (rd rn rm rt : Reg) (imm imm' : BitVec 12)

@[simp] theorem reg_packImm_rd : reg (packImm rd rn imm) 0 = rd := by
  simp [reg, packImm, BitVec.extractLsb'_or]

@[simp] theorem reg_packImm_rn : reg (packImm rd rn imm) 8 = rn := by
  simp [reg, packImm, BitVec.extractLsb'_or]

@[simp] theorem imm12_packImm : imm12 (packImm rd rn imm) 16 = imm.setWidth 64 := by
  simp [imm12, packImm, BitVec.extractLsb'_or]

theorem packImm_ushiftRight : packImm rd rn imm >>> 16 = imm.setWidth 64 := by
  rw [packImm, BitVec.ushiftRight_or_distrib, BitVec.ushiftRight_or_distrib,
    put_ushiftRight_below _ (by decide), put_ushiftRight_below _ (by decide),
    put_ushiftRight _ (by decide) (by decide), put_zero]
  simp

@[simp] theorem reg_packReg_rd : reg (packReg rd rn rm) 0 = rd := by
  simp [reg, packReg, BitVec.extractLsb'_or]

@[simp] theorem reg_packReg_rn : reg (packReg rd rn rm) 8 = rn := by
  simp [reg, packReg, BitVec.extractLsb'_or]

@[simp] theorem reg_packReg_rm : reg (packReg rd rn rm) 16 = rm := by
  simp [reg, packReg, BitVec.extractLsb'_or]

@[simp] theorem reg_put : reg (put rd 0) 0 = rd := by
  simp [reg]

@[simp] theorem reg_cmpImm : reg (put rn 0 ||| put imm 8) 0 = rn := by
  simp [reg, BitVec.extractLsb'_or]

@[simp] theorem imm12_cmpImm : imm12 (put rn 0 ||| put imm 8) 8 = imm.setWidth 64 := by
  simp [imm12, BitVec.extractLsb'_or]

@[simp] theorem reg_cmpReg_rn : reg (put rn 0 ||| put rm 8) 0 = rn := by
  simp [reg, BitVec.extractLsb'_or]

@[simp] theorem reg_cmpReg_rm : reg (put rn 0 ||| put rm 8) 8 = rm := by
  simp [reg, BitVec.extractLsb'_or]

@[simp] theorem reg_spImm : reg (put rt 0 ||| put imm 16) 0 = rt := by
  simp [reg, BitVec.extractLsb'_or]

@[simp] theorem imm12_spImm : imm12 (put rt 0 ||| put imm 16) 16 = imm.setWidth 64 := by
  simp [imm12, BitVec.extractLsb'_or]

theorem unpack_addsubCb (op sf test : Bool) :
    let w := packImm rd rn imm ||| bit op 28 ||| bit sf 29 ||| bit test 30
    reg w 0 = rd ∧ reg w 8 = rn ∧ imm12 w 16 = imm.setWidth 64 ∧ w.getLsbD 28 = op ∧
      w.getLsbD 29 = sf ∧ w.getLsbD 30 = test := by
  refine ⟨?_, ?_, ?_, ?_, ?_, ?_⟩
  · simp [reg, packImm, bit, BitVec.extractLsb'_or]
  · simp [reg, packImm, bit, BitVec.extractLsb'_or]
  · simp [imm12, packImm, bit, BitVec.extractLsb'_or]
  all_goals
    simp only [packImm, bit, BitVec.getLsbD_or, getLsbD_put]
    simp

theorem unpack_addsubMem (op : Bool) :
    let w := packImm rd rn imm ||| bit op 28 ||| put rt 32 ||| put imm' 40
    reg w 0 = rd ∧ reg w 8 = rn ∧ imm12 w 16 = imm.setWidth 64 ∧ w.getLsbD 28 = op ∧
      reg w 32 = rt ∧ imm12 w 40 = imm'.setWidth 64 := by
  refine ⟨?_, ?_, ?_, ?_, ?_, ?_⟩
  · simp [reg, packImm, bit, BitVec.extractLsb'_or]
  · simp [reg, packImm, bit, BitVec.extractLsb'_or]
  · simp [imm12, packImm, bit, BitVec.extractLsb'_or]
  · simp only [packImm, bit, BitVec.getLsbD_or, getLsbD_put]
    simp
  · simp [reg, packImm, bit, BitVec.extractLsb'_or]
  · simp [imm12, packImm, bit, BitVec.extractLsb'_or]

theorem unpack_ldrSx (size : BitVec 2) (ext : Bool) (hs : size.toNat ≤ 1) :
    let w := packImm rt rn imm ||| put size 28 ||| bit ext 29
    reg w 0 = rt ∧ reg w 8 = rn ∧ imm12 w 16 = imm.setWidth 64 ∧
      w.getLsbD 28 = decide (size = 1#2) ∧ w.getLsbD 29 = ext := by
  have hsize : size = 0#2 ∨ size = 1#2 := by
    rcases (show size.toNat = 0 ∨ size.toNat = 1 from by omega) with h | h
    · exact .inl (BitVec.eq_of_toNat_eq h)
    · exact .inr (BitVec.eq_of_toNat_eq h)
  refine ⟨?_, ?_, ?_, ?_, ?_⟩
  · simp [reg, packImm, bit, BitVec.extractLsb'_or]
  · simp [reg, packImm, bit, BitVec.extractLsb'_or]
  · simp [imm12, packImm, bit, BitVec.extractLsb'_or]
  all_goals
    simp only [packImm, bit, BitVec.getLsbD_or, getLsbD_put]
    rcases hsize with rfl | rfl <;> simp

theorem unpack_offset (size : Nat) (hs : size ≤ 3) :
    let w := put rt 0 ||| put rn 8 ||| put (put imm size : Word) 16
    reg w 0 = rt ∧ reg w 8 = rn ∧ w >>> 16 = put imm size := by
  dsimp only
  rw [put_put]
  refine ⟨?_, ?_, ?_⟩
  · simp [reg, BitVec.extractLsb'_or]
  · simp [reg, BitVec.extractLsb'_or]
  rw [BitVec.ushiftRight_or_distrib, BitVec.ushiftRight_or_distrib,
    put_ushiftRight_below _ (by decide), put_ushiftRight_below _ (by decide),
    put_ushiftRight _ (by omega) (by omega), show size + 16 - 16 = size from by omega]
  simp

end Packed

def Packs (offset : Word) : Prop := ∀ j, 55 ≤ j → j < 64 → offset.getLsbD j = offset.getLsbD 55

theorem packs_put (imm : BitVec 12) {k : Nat} (hk : k ≤ 3) : Packs (put imm k) := by
  intro j hlo hhi
  rw [getLsbD_put, getLsbD_put, BitVec.getLsbD_of_ge imm _ (by omega), BitVec.getLsbD_of_ge imm _ (by omega),
    Bool.and_false, Bool.and_false]

theorem unpack_packOffset (rn : Reg) {offset : Word} (h : Packs offset) :
    reg (packOffset rn offset) 0 = rn ∧ (packOffset rn offset).sshiftRight 8 = offset := by
  constructor
  · have hoff : (offset <<< 8).extractLsb' 0 5 = 0#5 := by
      apply BitVec.eq_of_getLsbD_eq
      intro j hj
      have hlow : j < 8 := by omega
      rw [BitVec.getLsbD_extractLsb', BitVec.getLsbD_shiftLeft, Nat.zero_add]
      simp [hlow]
    unfold packOffset reg
    rw [BitVec.extractLsb'_or, extract_put_self _ _ (by decide), hoff, BitVec.or_zero]
  · -- above the register there is only the offset
    have hbit : ∀ j, 5 ≤ j → j < 64 → (packOffset rn offset).getLsbD j =
        (offset <<< 8).getLsbD j := by
      intro j hlo hhi
      unfold packOffset
      rw [BitVec.getLsbD_or, getLsbD_put, BitVec.getLsbD_of_ge rn _ (by omega), Bool.and_false, Bool.false_or]
    apply BitVec.eq_of_getLsbD_eq
    intro j hj
    rw [BitVec.getLsbD_sshiftRight]
    by_cases hin : 8 + j < 64
    · have hlow : ¬ 8 + j < 8 := by omega
      rw [if_pos hin, hbit _ (by omega) hin, BitVec.getLsbD_shiftLeft, Nat.add_sub_cancel_left]
      simp [hj, hin, hlow]
    rw [if_neg hin, BitVec.msb_eq_getLsbD_last, hbit _ (by decide) (by decide), BitVec.getLsbD_shiftLeft,
      h j (by omega) hj]
    simp [hj]

/-! ## Classes and patterns -/

variable {insn : Insn}

theorem class_bcond (h : isBcond insn = true) : insn.extractLsb' 25 4 = 10#4 := by
  rw [extract_of_and (eq_of_beq h) 25 4 (by decide) (by decide)]
  decide

theorem class_cb (h : isCb insn = true) : insn.extractLsb' 25 4 = 10#4 := by
  rw [extract_of_and (eq_of_beq h) 25 4 (by decide) (by decide)]
  decide

theorem isBcond_of_isCb (h : isCb insn = true) : isBcond insn = false := by
  rw [Bool.eq_false_iff]
  intro hb
  have hm := and_mask_of (eq_of_beq hb) 0x7e000000#32 (by decide)
  rw [eq_of_beq h] at hm
  exact absurd hm (by decide)

section Single

variable (links : Links) (other : Word → Insn → List Plain) (ip₀ : Word)

theorem genStep_bcond {insn : Insn} (h : isBcond insn = true)
    (hc : (insn.extractLsb' 0 4).toNat < 14) : genStep links none other ip₀ insn =
      { code := [bcond links (insn.extractLsb' 0 4) (fake (ip₀ + branchImm19 insn))
          (fake (ip₀ + 4#64))]
        ip := ip₀ + 4#64 } := by
  rw [genStep, class_bcond h]
  show genBranch links other ip₀ insn = _
  rw [genBranch]
  dsimp only
  rw [if_pos h, if_neg (by omega)]

theorem genStep_cb {insn : Insn} (h : isCb insn = true) (hrt : rdOf insn ≠ 31#5) :
    genStep links none other ip₀ insn =
      { code := [cbReg (insn.getLsbD 31) (insn.getLsbD 24) links (put (rdOf insn) 0)
          (fake (ip₀ + branchImm19 insn)) (fake (ip₀ + 4#64))]
        ip := ip₀ + 4#64 } := by
  rw [genStep, class_cb h]
  show genBranch links other ip₀ insn = _
  rw [genBranch]
  dsimp only
  rw [isBcond_of_isCb h, if_neg (by decide), if_pos h, if_pos hrt]
  -- the four specialised gadgets are the instances of `cbReg`
  cases insn.getLsbD 31 <;> cases insn.getLsbD 24 <;> rfl

end Single

/-! ## Loads and stores with an unsigned immediate -/

def IntUnsignedImm (insn : Insn) : Prop :=
  insn &&& 0x3b000000#32 = 0x39000000#32 ∧ insn.getLsbD 26 = false ∧
    ¬ (sizeOf insn = 3#2 ∧ opcOf insn = 2#2)

theorem class_unsignedImm (h : insn &&& 0x3b000000#32 = 0x39000000#32)
    (hv : insn.getLsbD 26 = false) : insn.extractLsb' 25 4 = 12#4 := by
  have hbit : insn &&& BitVec.twoPow 32 26 = 0#32 := by
    rw [BitVec.and_twoPow, hv]
    rfl
  have hboth : insn &&& 0x3f000000#32 = 0x39000000#32 := by
    rw [show (0x3f000000#32) = 0x3b000000#32 ||| BitVec.twoPow 32 26 from by decide,
      BitVec.and_or_distrib_left, h, hbit]
    rfl
  rw [extract_of_and hboth 25 4 (by decide) (by decide)]
  decide

theorem ldstCode_unsignedImm (ip₀ : Word)
    (h : insn &&& 0x3b000000#32 = 0x39000000#32) : ldstCode ip₀ insn = unsignedImmCode ip₀ insn := by
  rw [ldstCode, if_neg (and_ne_of h 0x3b000000#32 (by decide) (by decide) (by decide)),
    if_neg (fun hc => and_ne_of h 0x3b000000#32 (by decide) (by decide) (by decide) hc.1),
    if_neg (fun hc => and_ne_of h 0x3b000000#32 (by decide) (by decide) (by decide) hc.1),
    if_neg (and_ne_of h 0x3b000000#32 (by decide) (by decide) (by decide)), if_pos h]

theorem genStep_unsignedImm (links : Links) (other : Word → Insn → List Plain) (ip₀ : Word)
    (h : IntUnsignedImm insn) : genStep links none other ip₀ insn =
      { code := savePc ip₀ insn ++ unsignedImmCode ip₀ insn, ip := ip₀ + 4#64 } := by
  rw [genStep, class_unsignedImm h.1 h.2.1]
  show genLdst links none ip₀ insn = _
  have hnone : tryFuseLdr links none ip₀ (ip₀ + 4#64) insn = none := by
    simp only [tryFuseLdr]
    split
    · split <;> rfl
    split
    · split <;> rfl
    · rfl
  obtain ⟨hp, hv, hprfm⟩ := h
  rw [genLdst, if_pos ⟨hp, hv, hprfm⟩, hnone, ldstCode_unsignedImm ip₀ hp]

def ldrExt (opc : BitVec 2) (n : Nat) : BitVec (8 * n) → Word :=
  if opc = 1#2 ∨ n = 8 then zx else if opc = 2#2 ∨ n = 4 then sx64 else sx32

def LoadSpec (e : Exit) (f : Frame) (pc : Word) (n : Nat) (ext : BitVec (8 * n) → Word)
    (a : Word) (rt : Reg) : Prop :=
  match f.mem.readFault a.toNat n with
  | some bad => ∃ f', e = gpfSaved f' bad false ∧ f'.toGuest = f.toGuest ∧ f'.jitSavedPc = pc
  | none => ∃ f', e = .gret f' ∧ f'.toGuest = (f.setX rt (ext (f.mem.load a.toNat n))).toGuest

theorem LoadSpec.of_loadAt {f f₁ : Frame} {pc : Word} {n : Nat} {ext : BitVec (8 * n) → Word}
    {a : Word} {rt : Reg} {k : Word → Frame} (hf : f₁.toGuest = f.toGuest)
    (hpc : f₁.jitSavedPc = pc) (hk : ∀ v, (k v).toGuest = (f.setX rt v).toGuest) :
    LoadSpec (loadAt n ext a f₁ k) f pc n ext a rt := by
  have hmem : f₁.mem = f.mem := congrArg Guest.mem hf
  unfold LoadSpec loadAt readPrep
  rw [hmem]
  cases f.mem.readFault a.toNat n with
  | some bad => exact ⟨f₁, rfl, hf, hpc⟩
  | none => exact ⟨_, rfl, hk _⟩

theorem size_cases (size : BitVec 2) : size = 0#2 ∨ size = 1#2 ∨ size = 2#2 ∨ size = 3#2 := by
  revert size
  decide

theorem toNat_le_three (size : BitVec 2) : size.toNat ≤ 3 := by
  omega

/-! The variants of a load or store differ in the checks for register 31 only. -/

section Variants

variable {w : Word} {rn rt : Reg} {off : Word} (hwt : reg w 0 = rt) (hwn : reg w 8 = rn)
  (hwo : w >>> 16 = off)

include hwt hwn hwo

theorem loadImm_eq (n : Nat) (ext : BitVec (8 * n) → Word) (hrt : rt ≠ 31#5) (f : Frame) :
    loadImm n ext w f = loadAt n ext (mask48 (f.x rn + off)) f (f.setX rt) := by
  unfold loadImm offsetAddr
  rw [hwt, hwn, hwo, base_eq, funext (setXz_of_ne f hrt)]

theorem loadImmFast_eq (n : Nat) (f : Frame) :
    loadImmFast n w f = loadAt n zx (mask48 (f.x rn + off)) f (f.setX rt) := by
  unfold loadImmFast offsetAddr
  rw [hwt, hwn, hwo]

theorem load32ImmFast_eq (f : Frame) :
    load32ImmFast w f = loadAt 4 zx (mask48 (f.x rn + off)) f (f.setX rt) := by
  unfold load32ImmFast offsetAddr
  rw [hwt, hwn, hwo, base_eq]

theorem load8ImmFast_eq (f : Frame) :
    load8ImmFast w f = loadAt 1 zx (mask48 (f.x rn + off)) f (f.setX rt) := by
  unfold load8ImmFast offsetAddr
  rw [hwt, hwn, hwo, base_eq]

omit hwn in
theorem loadSpImm_eq (n : Nat) (hrn : rn = 31#5) (f : Frame) :
    loadSpImm n w f = loadAt n zx (mask48 (f.x rn + off)) f (f.setX rt) := by
  unfold loadSpImm offsetAddr Frame.sp
  rw [hwt, hwo, hrn]

theorem storeImm_eq (n : Nat) (hrt : rt ≠ 31#5) (f : Frame) :
    storeImm n w f = storeAt n (mask48 (f.x rn + off)) (f.x rt).toNat f := by
  unfold storeImm offsetAddr
  rw [hwt, hwn, hwo, base_eq, getXz_of_ne f hrt]

theorem storeImmFast_eq (n : Nat) (f : Frame) :
    storeImmFast n w f = storeAt n (mask48 (f.x rn + off)) (f.x rt).toNat f := by
  unfold storeImmFast offsetAddr
  rw [hwt, hwn, hwo]

omit hwn in
theorem storeSpImm_eq (n : Nat) (hrn : rn = 31#5) (f : Frame) :
    storeSpImm n w f = storeAt n (mask48 (f.x rn + off)) (f.x rt).toNat f := by
  unfold storeSpImm offsetAddr Frame.sp
  rw [hwt, hwo, hrn]

end Variants

section Access

variable (ip₀ : Word) {insn : Insn} (f : Frame)

variable {opc size : BitVec 2} {rn rt : Reg}

theorem ldrExt_one (h : opc = 1#2) (n : Nat) : ldrExt opc n = zx :=
  if_pos (.inl h)

theorem loadImmGadget_eq {w : Word} {off : Word}
    (hwt : reg w 0 = rt) (hwn : reg w 8 = rn) (hwo : w >>> 16 = off) (hrt : rt ≠ 31#5)
    (hsx : ¬ (opc.getLsbD 1 = true ∧ size.toNat < 2)) (hload : opc ≠ 0#2)
    (hpc : f.jitSavedPc = ip₀) :
    loadImmGadget ip₀ size (opc.getLsbD 1) (rn ≠ 31#5 ∧ rt ≠ 31#5) (rn = 31#5 ∧ rt ≠ 31#5) w f =
      loadAt (2 ^ size.toNat) (ldrExt opc (2 ^ size.toNat)) (mask48 (f.x rn + off)) f
        (f.setX rt) := by
  have hopc : opc = 1#2 ∨ opc.getLsbD 1 = true := by
    clear hsx
    revert opc
    decide
  have hfast : (decide (rn ≠ 31#5 ∧ rt ≠ 31#5)) = !decide (rn = 31#5) := by simp [hrt]
  have hsp : (decide (rn = 31#5 ∧ rt ≠ 31#5)) = decide (rn = 31#5) := by simp [hrt]
  rw [hfast, hsp]
  rcases size_cases size with rfl | rfl | rfl | rfl
  · show (if (!decide (rn = 31#5)) = true then load8ImmFast w else load8Imm w) f
      = loadAt 1 (ldrExt opc 1) (mask48 (f.x rn + off)) f (f.setX rt)
    rw [ldrExt_one (hopc.resolve_right fun h => hsx ⟨h, by decide⟩)]
    split
    · exact load8ImmFast_eq hwt hwn hwo f
    · exact loadImm_eq hwt hwn hwo 1 zx hrt f
  · show (if (!decide (rn = 31#5)) = true then load16ImmFast w else load16Imm w) f
      = loadAt 2 (ldrExt opc 2) (mask48 (f.x rn + off)) f (f.setX rt)
    rw [ldrExt_one (hopc.resolve_right fun h => hsx ⟨h, by decide⟩)]
    split
    · exact loadImmFast_eq hwt hwn hwo 2 f
    · exact loadImm_eq hwt hwn hwo 2 zx hrt f
  · show (if opc.getLsbD 1 = true then load32SxImm w
      else if (!decide (rn = 31#5)) = true then load32ImmFast w
      else if decide (rn = 31#5) = true then load32SpImm w else load32Imm w) f
      = loadAt 4 (ldrExt opc 4) (mask48 (f.x rn + off)) f (f.setX rt)
    by_cases hs : opc.getLsbD 1 = true
    · have hone : opc ≠ 1#2 := by
        rintro rfl
        exact absurd hs (by decide)
      rw [if_pos hs, ldrExt, if_neg (by simp [hone]), if_pos (.inr rfl)]
      exact loadImm_eq hwt hwn hwo 4 sx64 hrt f
    rw [if_neg hs, ldrExt_one (hopc.resolve_right hs)]
    split
    · exact load32ImmFast_eq hwt hwn hwo f
    · rename_i hrn
      have hrn : rn = 31#5 := by simpa using hrn
      rw [if_pos (by simpa using hrn)]
      exact loadSpImm_eq hwt hwo 4 hrn f
  show (if (!decide (rn = 31#5)) = true then load64ImmFast w ip₀
    else if decide (rn = 31#5) = true then load64SpImm w else load64Imm w) f
    = loadAt 8 (ldrExt opc 8) (mask48 (f.x rn + off)) f (f.setX rt)
  rw [show ldrExt opc 8 = zx from if_pos (.inr rfl)]
  split
  · have hsame : { f with jitSavedPc := ip₀ } = f := by rw [← hpc]
    show loadImmFast 8 w { f with jitSavedPc := ip₀ } = _
    rw [hsame]
    exact loadImmFast_eq hwt hwn hwo 8 f
  · rename_i hrn
    have hrn : rn = 31#5 := by simpa using hrn
    rw [if_pos (by simpa using hrn)]
    exact loadSpImm_eq hwt hwo 8 hrn f

theorem storeImmGadget_eq {w : Word} {off : Word}
    (hwt : reg w 0 = rt) (hwn : reg w 8 = rn) (hwo : w >>> 16 = off) (hrt : rt ≠ 31#5) :
    storeImmGadget size (rn ≠ 31#5 ∧ rt ≠ 31#5) (rn = 31#5 ∧ rt ≠ 31#5) w f =
      storeAt (2 ^ size.toNat) (mask48 (f.x rn + off)) (f.x rt).toNat f := by
  have hfast : (decide (rn ≠ 31#5 ∧ rt ≠ 31#5)) = !decide (rn = 31#5) := by simp [hrt]
  have hsp : (decide (rn = 31#5 ∧ rt ≠ 31#5)) = decide (rn = 31#5) := by simp [hrt]
  rw [hfast, hsp]
  rcases size_cases size with rfl | rfl | rfl | rfl
  · show (if (!decide (rn = 31#5)) = true then store8ImmFast w else store8Imm w) f
      = storeAt 1 (mask48 (f.x rn + off)) (f.x rt).toNat f
    split
    · exact storeImmFast_eq hwt hwn hwo 1 f
    · exact storeImm_eq hwt hwn hwo 1 hrt f
  · show (if (!decide (rn = 31#5)) = true then store16ImmFast w else store16Imm w) f
      = storeAt 2 (mask48 (f.x rn + off)) (f.x rt).toNat f
    split
    · exact storeImmFast_eq hwt hwn hwo 2 f
    · exact storeImm_eq hwt hwn hwo 2 hrt f
  · show (if (!decide (rn = 31#5)) = true then store32ImmFast w
      else if decide (rn = 31#5) = true then store32SpImm w else store32Imm w) f
      = storeAt 4 (mask48 (f.x rn + off)) (f.x rt).toNat f
    split
    · exact storeImmFast_eq hwt hwn hwo 4 f
    · rename_i hrn
      have hrn : rn = 31#5 := by simpa using hrn
      rw [if_pos (by simpa using hrn)]
      exact storeSpImm_eq hwt hwo 4 hrn f
  show (if (!decide (rn = 31#5)) = true then store64ImmFast w
    else if decide (rn = 31#5) = true then store64SpImm w else store64Imm w) f
    = storeAt 8 (mask48 (f.x rn + off)) (f.x rt).toNat f
  split
  · exact storeImmFast_eq hwt hwn hwo 8 f
  · rename_i hrn
    have hrn : rn = 31#5 := by simpa using hrn
    rw [if_pos (by simpa using hrn)]
    exact storeSpImm_eq hwt hwo 8 hrn f

theorem run_loadSx (hrt : rt ≠ 31#5) {imm : BitVec 12}
    (hopc : opc.getLsbD 1 = true) (hsize : size.toNat < 2) (hpc : f.jitSavedPc = ip₀) : LoadSpec
      (run [calcAddrImm (packOffset rn (put imm size.toNat)),
        loadBySize size true (decide (opc = 2#2)), storeReg (put rt 0)] f)
      f ip₀ (2 ^ size.toNat) (ldrExt opc (2 ^ size.toNat)) (mask48 (f.x rn + put imm size.toNat))
      rt := by
  obtain ⟨hreg, hoff⟩ := unpack_packOffset rn (packs_put imm (toNat_le_three size))
  set a := mask48 (f.x rn + put imm size.toNat) with ha
  have hcalc : calcAddrImm (packOffset rn (put imm size.toNat)) f
      = .gret { f with addr := a, valueAddr := a } := by
    unfold calcAddrImm
    rw [hreg, hoff, base_eq]
  -- the load gadget of either size
  have hload : loadBySize size true (decide (opc = 2#2))
      = loadTmp (2 ^ size.toNat) (ldrExt opc (2 ^ size.toNat)) := by
    have hone : opc ≠ 1#2 := by
      rintro rfl
      exact absurd hopc (by decide)
    rcases size_cases size with rfl | rfl | rfl | rfl
    · by_cases h2 : opc = 2#2 <;> simp [loadBySize, ldrExt, hone, h2, load8Sx64, load8Sx32]
    · by_cases h2 : opc = 2#2 <;> simp [loadBySize, ldrExt, hone, h2, load16Sx64, load16Sx32]
    · exact absurd hsize (by decide)
    · exact absurd hsize (by decide)
  rw [run_cons, hcalc, andThen_gret, run_cons, hload]
  unfold loadTmp
  unfold LoadSpec loadAt readPrep
  dsimp only
  cases f.mem.readFault a.toNat (2 ^ size.toNat) with
  | some bad => exact ⟨_, rfl, rfl, hpc⟩
  | none =>
    refine ⟨_, rfl, ?_⟩
    rw [reg_put, setXz_of_ne _ hrt]
    rfl

theorem fields_ldr64 (h : isLdr64 insn = true) : sizeOf insn = 3#2 ∧ opcOf insn = 1#2 := by
  constructor
  · rw [sizeOf, extract_of_and (eq_of_beq h) 30 2 (by decide) (by decide)]
    decide
  · rw [opcOf, extract_of_and (eq_of_beq h) 22 2 (by decide) (by decide)]
    decide

theorem intUnsignedImm_ldr64 (h : isLdr64 insn = true) : IntUnsignedImm insn := by
  obtain ⟨-, hopc⟩ := fields_ldr64 h
  refine ⟨?_, ?_, ?_⟩
  · rw [and_mask_of (eq_of_beq h) 0x3b000000#32 (by decide)]
    decide
  · have hbit := and_mask_of (eq_of_beq h) (BitVec.twoPow 32 26) (by decide)
    rw [BitVec.and_twoPow] at hbit
    cases hv : insn.getLsbD 26 with
    | false => rfl
    | true =>
      rw [hv] at hbit
      exact absurd hbit (by decide)
  · rw [hopc]
    exact fun hc => absurd hc.2 (by decide)

theorem unsignedImmCode_int (h : IntUnsignedImm insn) : unsignedImmCode ip₀ insn =
      let size := sizeOf insn
      let opc := opcOf insn
      let off : Word := put (imm12Of insn) size.toNat
      let rn := rnOf insn
      let rt := rdOf insn
      let w := put rt 0 ||| put rn 8 ||| put off 16
      if opc ≠ 0#2 ∧ opc.getLsbD 1 = true ∧ size.toNat < 2 then
        [calcAddrImm (packOffset rn off), loadBySize size true (decide (opc = 2#2)),
          storeReg (put rt 0)]
      else if opc ≠ 0#2 then
        [loadImmGadget ip₀ size (opc.getLsbD 1) (rn ≠ 31#5 ∧ rt ≠ 31#5)
          (rn = 31#5 ∧ rt ≠ 31#5) w]
      else [storeImmGadget size (rn ≠ 31#5 ∧ rt ≠ 31#5) (rn = 31#5 ∧ rt ≠ 31#5) w] := by
  unfold unsignedImmCode
  dsimp only
  rw [h.2.1, if_neg (by decide), if_neg h.2.2]
  simp only [bne_iff_ne]

theorem run_savePc (h : IntUnsignedImm insn) : run (savePc ip₀ insn ++ unsignedImmCode ip₀ insn) f =
      run (unsignedImmCode ip₀ insn) { f with jitSavedPc := ip₀ } := by
  unfold savePc
  by_cases hinline : inlineLoad64Pc insn = true
  · rw [if_pos hinline, List.nil_append]
    have hall : (isLdr64 insn = true ∧ rnOf insn ≠ 31#5) ∧ rdOf insn ≠ 31#5 := by
      simpa [inlineLoad64Pc] using hinline
    obtain ⟨⟨hldr, hrn⟩, hrt⟩ := hall
    obtain ⟨hsize, hopc⟩ := fields_ldr64 hldr
    -- the one gadget that stores the address itself
    rw [unsignedImmCode_int ip₀ h]
    dsimp only
    rw [hsize, hopc, if_neg (by decide), if_pos (by decide), run_single, run_single,
      show (decide (rnOf insn ≠ 31#5 ∧ rdOf insn ≠ 31#5)) = true from decide_eq_true ⟨hrn, hrt⟩]
    rfl
  · rw [if_neg hinline, run_append, run_single]
    rfl

theorem LoadSpec.congr {e : Exit} {f f' : Frame} {pc : Word} {n : Nat}
    {ext : BitVec (8 * n) → Word} {a : Word} (h : LoadSpec e f' pc n ext a rt)
    (hg : f'.toGuest = f.toGuest) : LoadSpec e f pc n ext a rt := by
  have hmem : f'.mem = f.mem := congrArg Guest.mem hg
  have hset : ∀ v, (f'.setX rt v).toGuest = (f.setX rt v).toGuest := by
    intro v
    show { f'.toGuest with x := fun r => if r = rt then v else f'.toGuest.x r } = _
    rw [hg]
    rfl
  unfold LoadSpec at h ⊢
  rw [hmem] at h
  simpa only [hset, hg] using h

theorem run_ldr (h : IntUnsignedImm insn) (hload : opcOf insn ≠ 0#2) (hrt : rdOf insn ≠ 31#5) :
    LoadSpec (run (savePc ip₀ insn ++ unsignedImmCode ip₀ insn) f) f ip₀
      (2 ^ (sizeOf insn).toNat) (ldrExt (opcOf insn) (2 ^ (sizeOf insn).toNat))
      (mask48 (f.x (rnOf insn) + put (imm12Of insn) (sizeOf insn).toNat)) (rdOf insn) := by
  rw [run_savePc ip₀ f h, unsignedImmCode_int ip₀ h]
  dsimp only
  by_cases hsx : (opcOf insn).getLsbD 1 = true ∧ (sizeOf insn).toNat < 2
  · rw [if_pos ⟨hload, hsx.1, hsx.2⟩]
    exact (run_loadSx ip₀ { f with jitSavedPc := ip₀ } hrt hsx.1 hsx.2 rfl).congr rfl
  rw [if_neg (fun hc => hsx hc.2), if_pos hload, run_single]
  obtain ⟨hwt, hwn, hwo⟩ := unpack_offset (rnOf insn) (rdOf insn) (imm12Of insn)
    (sizeOf insn).toNat (toNat_le_three _)
  rw [loadImmGadget_eq ip₀ { f with jitSavedPc := ip₀ } hwt hwn hwo hrt hsx hload rfl]
  exact LoadSpec.of_loadAt rfl rfl fun _ => rfl

theorem run_str (h : IntUnsignedImm insn) (hstore : opcOf insn = 0#2) (hrt : rdOf insn ≠ 31#5) :
    run (savePc ip₀ insn ++ unsignedImmCode ip₀ insn) f = storeAt (2 ^ (sizeOf insn).toNat)
        (mask48 (f.x (rnOf insn) + put (imm12Of insn) (sizeOf insn).toNat))
        (f.x (rdOf insn)).toNat { f with jitSavedPc := ip₀ } := by
  rw [run_savePc ip₀ f h, unsignedImmCode_int ip₀ h]
  dsimp only
  rw [if_neg (fun hc => hc.1 hstore), if_neg (fun hc => hc hstore), run_single]
  obtain ⟨hwt, hwn, hwo⟩ := unpack_offset (rnOf insn) (rdOf insn) (imm12Of insn)
    (sizeOf insn).toNat (toNat_le_three _)
  exact storeImmGadget_eq { f with jitSavedPc := ip₀ } hwt hwn hwo hrt

end Access

end IosLinuxkit.Arm64
