import IosLinuxkit.Asbestos.Crosspage

/-!
# Pre- and post-indexed accesses

The loads and stores that write their address back: single ones and pairs, of general and of vector registers.
`decode` and `Transfer.apply` are the architecture's; `Indexed.ops` is the stream that `gen_ldst` makes of them.

* **`genStep_indexed`** — that it does.
* **`transfer_spec`** — what the stream does between address and writeback.
* **`indexed_iff`** — when base and address are those of the architecture.
-/

namespace IosLinuxkit.Arm64

open Bitfield

/-! ## Instructions -/

/-- What is moved: one element of `n` bytes, or two. -/
inductive Transfer where
  | load (n : Nat) (ext : BitVec (8 * n) → Word) (rt : Reg)
  | store (n : Nat) (rt : Reg)
  | loadPair (n : Nat) (ext : BitVec (8 * n) → Word) (rt rt2 : Reg)
  | storePair (n : Nat) (rt rt2 : Reg)
  | loadVec (n : Nat) (rt : Reg)
  | storeVec (n : Nat) (rt : Reg)
  | loadVecPair (n : Nat) (rt rt2 : Reg)
  | storeVecPair (n : Nat) (rt rt2 : Reg)

structure Indexed where
  post : Bool
  rn : Reg
  offset : Word
  transfer : Transfer

/-- The element size that scales the offset, and the transfer, if the encoding is allocated. -/
def pairTransfer (vec load : Bool) (opc : BitVec 2) (rt rt2 : Reg) : Option (Nat × Transfer) :=
  match vec, load, opc.toNat with
  | false, true, 0 => some (4, .loadPair 4 zx rt rt2)
  | false, true, 1 => some (4, .loadPair 4 sx64 rt rt2)
  | false, true, 2 => some (8, .loadPair 8 zx rt rt2)
  | false, false, 0 => some (4, .storePair 4 rt rt2)
  | false, false, 2 => some (8, .storePair 8 rt rt2)
  | true, true, 0 => some (4, .loadVecPair 4 rt rt2)
  | true, true, 1 => some (8, .loadVecPair 8 rt rt2)
  | true, true, 2 => some (16, .loadVecPair 16 rt rt2)
  | true, false, 0 => some (4, .storeVecPair 4 rt rt2)
  | true, false, 1 => some (8, .storeVecPair 8 rt rt2)
  | true, false, 2 => some (16, .storeVecPair 16 rt rt2)
  | _, _, _ => none

def decodePair (insn : Insn) : Option Indexed :=
  let mode : BitVec 3 := insn.extractLsb' 23 3
  let imm7 : Word := (insn.extractLsb' 15 7).signExtend 64
  if mode = 1#3 ∨ mode = 3#3 then
    (pairTransfer (insn.getLsbD 26) (insn.getLsbD 22) (sizeOf insn) (rdOf insn)
      (insn.extractLsb' 10 5)).map fun t =>
        ⟨decide (mode = 1#3), rnOf insn, imm7 * BitVec.ofNat 64 t.1, t.2⟩
  else none

def singleTransfer (vec : Bool) (size opc : BitVec 2) (rt : Reg) : Option Transfer :=
  match vec, opc.toNat, size.toNat with
  | false, 0, 0 => some (.store 1 rt)
  | false, 0, 1 => some (.store 2 rt)
  | false, 0, 2 => some (.store 4 rt)
  | false, 0, 3 => some (.store 8 rt)
  | false, 1, 0 => some (.load 1 zx rt)
  | false, 1, 1 => some (.load 2 zx rt)
  | false, 1, 2 => some (.load 4 zx rt)
  | false, 1, 3 => some (.load 8 zx rt)
  | false, 2, 0 => some (.load 1 sx64 rt)
  | false, 2, 1 => some (.load 2 sx64 rt)
  | false, 2, 2 => some (.load 4 sx64 rt)
  | false, 3, 0 => some (.load 1 sx32 rt)
  | false, 3, 1 => some (.load 2 sx32 rt)
  | true, 0, 0 => some (.storeVec 1 rt)
  | true, 0, 1 => some (.storeVec 2 rt)
  | true, 0, 2 => some (.storeVec 4 rt)
  | true, 0, 3 => some (.storeVec 8 rt)
  | true, 1, 0 => some (.loadVec 1 rt)
  | true, 1, 1 => some (.loadVec 2 rt)
  | true, 1, 2 => some (.loadVec 4 rt)
  | true, 1, 3 => some (.loadVec 8 rt)
  | true, 2, 0 => some (.storeVec 16 rt)
  | true, 3, 0 => some (.loadVec 16 rt)
  | _, _, _ => none

def decodeSingle (insn : Insn) : Option Indexed :=
  let mode : BitVec 2 := insn.extractLsb' 10 2
  let imm9 : Word := (insn.extractLsb' 12 9).signExtend 64
  if mode = 1#2 ∨ mode = 3#2 then
    (singleTransfer (insn.getLsbD 26) (sizeOf insn) (opcOf insn) (rdOf insn)).map fun t =>
      ⟨decide (mode = 1#2), rnOf insn, imm9, t⟩
  else none

def decode (insn : Insn) : Option Indexed :=
  if insn &&& 0x3a000000#32 = 0x28000000#32 then decodePair insn
  else if insn &&& 0x3b200000#32 = 0x38000000#32 then decodeSingle insn
  else none

/-! ## What they do -/

namespace Transfer

def bytes : Transfer → Nat
  | .load n _ _ | .store n _ | .loadVec n _ | .storeVec n _ => n
  | .loadPair n _ _ _ | .storePair n _ _ | .loadVecPair n _ _ | .storeVecPair n _ _ => 2 * n

def isLoad : Transfer → Bool
  | .load _ _ _ | .loadPair _ _ _ _ | .loadVec _ _ | .loadVecPair _ _ _ => true
  | _ => false

def isVec : Transfer → Bool
  | .loadVec _ _ | .storeVec _ _ => true
  | _ => false

/-- Where the access at `a` faults, if it does. -/
def fault? (t : Transfer) (m : Mem) (a : Word) : Option Nat :=
  if t.isLoad then m.readFault a.toNat t.bytes else m.writeFault a.toNat t.bytes

/-- The access at `a`. -/
def apply (t : Transfer) (a : Word) (f : Frame) : Frame :=
  let m := f.mem
  let a := a.toNat
  match t with
  | .load n ext rt => f.setXz rt (ext (m.load a n))
  | .store n rt => { f with mem := m.store a n (f.getXz rt).toNat }
  | .loadPair n ext rt rt2 => (f.setXz rt (ext (m.load a n))).setXz rt2 (ext (m.load (a + n) n))
  | .storePair n rt rt2 =>
    { f with mem := (m.store a n (f.getXz rt).toNat).store (a + n) n (f.getXz rt2).toNat }
  | .loadVec n rt => f.setFp rt ((m.load a n).setWidth 128)
  | .storeVec n rt => { f with mem := m.store a n (f.fp rt).toNat }
  | .loadVecPair n rt rt2 =>
    (f.setFp rt ((m.load a n).setWidth 128)).setFp rt2 ((m.load (a + n) n).setWidth 128)
  | .storeVecPair n rt rt2 =>
    { f with mem := (m.store a n (f.fp rt).toNat).store (a + n) n (f.fp rt2).toNat }

def ops : Transfer → List Op
  | .load n ext rt => [.load n ext, .storeReg (put rt 0)]
  | .store n rt => [.loadReg (put rt 0), .store n]
  | .loadPair n ext rt rt2 => [.loadPair n ext (put rt 0 ||| put rt2 8)]
  | .storePair n rt rt2 => [.storePair n (put rt 0 ||| put rt2 8)]
  | .loadVec n rt => [.ldrSimd n (put rt 0)]
  | .storeVec n rt => [.strSimd n (put rt 0)]
  | .loadVecPair n rt rt2 => [.ldpSimd n (put rt 0 ||| put rt2 8)]
  | .storeVecPair n rt rt2 => [.stpSimd n (put rt 0 ||| put rt2 8)]

end Transfer

namespace Indexed

def sum (i : Indexed) (f : Frame) : Word := f.x i.rn + i.offset

def address (i : Indexed) (f : Frame) : Word := if i.post then f.x i.rn else i.sum f

def codeAddress (i : Indexed) (f : Frame) : Word := if i.post then f.x i.rn else mask48 (i.sum f)

def before (i : Indexed) : Op :=
  if i.post then .calcAddrBase (put i.rn 0) else .calcAddrImm (packOffset i.rn i.offset)

def after (i : Indexed) : Op :=
  if i.post || i.transfer.isVec then .updateBase (packOffset i.rn i.offset) else .writebackAddr (put i.rn 0)

def ops (i : Indexed) : List Op := [i.before] ++ i.transfer.ops ++ [i.after]

/-- When it succeeds, the access has been at the address and the base is the sum. When it faults the base is
what it was. -/
def Right (i : Indexed) (f : Frame) : Exit → Prop
  | .gret f' => f'.toGuest = ((i.transfer.apply (i.address f) f).setX i.rn (i.sum f)).toGuest
  | .gpf f' => f'.x i.rn = f.x i.rn
  | _ => False

/-- The access faults; or the sum has 48 bits, and a post-indexed load does not load another base, as far as
these bits go. -/
def Holds (i : Indexed) (f : Frame) : Prop :=
  (i.transfer.fault? f.mem (i.codeAddress f)).isSome = true ∨ ((i.sum f).toNat < 2 ^ 48 ∧
      (i.post = true → mask48 ((i.transfer.apply (i.address f) f).x i.rn) = mask48 (f.x i.rn)))

end Indexed

/-! ## The stream -/

variable (ip₀ : Word) {insn : Insn} {i : Indexed}

theorem ldstCode_pair (h : insn &&& 0x3a000000#32 = 0x28000000#32) :
    ldstCode ip₀ insn = pairCode ip₀ insn := by
  rw [ldstCode, if_neg (and_ne_of h 0x3a000000#32 (by decide) (by decide) (by decide)),
    if_neg (fun hc => and_ne_of h 0x3a000000#32 (by decide) (by decide) (by decide) hc.1),
    if_neg (fun hc => and_ne_of h 0x3a000000#32 (by decide) (by decide) (by decide) hc.1),
    if_neg (and_ne_of h 0x3a000000#32 (by decide) (by decide) (by decide)),
    if_neg (and_ne_of h 0x3a000000#32 (by decide) (by decide) (by decide)),
    if_neg (and_ne_of h 0x3a000000#32 (by decide) (by decide) (by decide)), if_pos h]

theorem ldstCode_imm9 (h : insn &&& 0x3b200000#32 = 0x38000000#32) :
    ldstCode ip₀ insn = imm9Code ip₀ insn := by
  rw [ldstCode, if_neg (and_ne_of h 0x3b200000#32 (by decide) (by decide) (by decide)),
    if_neg (fun hc => and_ne_of h 0x3b200000#32 (by decide) (by decide) (by decide) hc.1),
    if_neg (fun hc => and_ne_of h 0x3b200000#32 (by decide) (by decide) (by decide) hc.1),
    if_neg (and_ne_of h 0x3b000000#32 (by decide) (by decide) (by decide)),
    if_neg (and_ne_of h 0x3b000000#32 (by decide) (by decide) (by decide)),
    if_neg (and_ne_of h 0x3b200000#32 (by decide) (by decide) (by decide)),
    if_neg (and_ne_of h 0x3a000000#32 (by decide) (by decide) (by decide)), if_pos h]

theorem pairCode_indexed (h : decodePair insn = some i) :
    pairCode ip₀ insn = i.ops.map Op.gadget := by
  unfold decodePair at h
  dsimp only at h
  split at h
  case isFalse => cases h
  case isTrue hmode =>
    obtain ⟨⟨scale, t⟩, ht, rfl⟩ := Option.map_eq_some_iff.mp h
    unfold pairCode
    dsimp only
    generalize sizeOf insn = opc at ht ⊢
    generalize insn.getLsbD 26 = vec at ht ⊢
    generalize insn.getLsbD 22 = load at ht ⊢
    generalize BitVec.signExtend 64 (BitVec.extractLsb' 15 7 insn) = imm7
    generalize insn.extractLsb' 23 3 = mode at hmode ⊢
    -- an encoding at a time: it is not allocated, or its gadgets are these
    rcases hmode with rfl | rfl <;> rcases size_cases opc with rfl | rfl | rfl | rfl <;>
      cases vec <;> cases load <;> first | (cases ht; rfl) | cases ht

theorem imm9Code_indexed (h : decodeSingle insn = some i) :
    imm9Code ip₀ insn = i.ops.map Op.gadget := by
  unfold decodeSingle at h
  dsimp only at h
  split at h
  case isFalse => cases h
  case isTrue hmode =>
    obtain ⟨t, ht, rfl⟩ := Option.map_eq_some_iff.mp h
    unfold imm9Code simdBytes
    dsimp only
    generalize sizeOf insn = size at ht ⊢
    generalize opcOf insn = opc at ht ⊢
    generalize insn.getLsbD 26 = vec at ht ⊢
    generalize BitVec.signExtend 64 (BitVec.extractLsb' 12 9 insn) = imm9
    generalize insn.extractLsb' 10 2 = mode at hmode ⊢
    rcases hmode with rfl | rfl <;> rcases size_cases size with rfl | rfl | rfl | rfl <;>
      rcases size_cases opc with rfl | rfl | rfl | rfl <;> cases vec <;>
      first | (cases ht; rfl) | cases ht

theorem genStep_ldst (links : Links) (peek : Option Insn) (other : Word → Insn → List Plain)
    (h : insn &&& 0x0a000000#32 = 0x08000000#32) :
    genStep links peek other ip₀ insn = genLdst links peek ip₀ insn := by
  have hbits : insn.extractLsb' 25 4 &&& 5#4 = 4#4 := by
    have := congrArg (BitVec.extractLsb' 25 4) h
    rw [BitVec.extractLsb'_and] at this
    exact this
  have hclass : ∀ b : BitVec 4, b &&& 5#4 = 4#4 → b = 4#4 ∨ b = 6#4 ∨ b = 12#4 ∨ b = 14#4 := by
    decide
  unfold genStep
  rcases hclass _ hbits with hc | hc | hc | hc <;> rw [hc] <;> rfl

theorem genStep_indexed (links : Links) (peek : Option Insn) (other : Word → Insn → List Plain)
    (h : decode insn = some i) : genStep links peek other ip₀ insn =
      { code := (.setJitSavedPc ip₀ :: i.ops).map Op.gadget, ip := ip₀ + 4#64 } := by
  have hemit : insn &&& 0x0a000000#32 = 0x08000000#32 → insn &&& 0x3b000000#32 ≠ 0x39000000#32 →
      ldstCode ip₀ insn = i.ops.map Op.gadget → genStep links peek other ip₀ insn =
        { code := (.setJitSavedPc ip₀ :: i.ops).map Op.gadget, ip := ip₀ + 4#64 } := by
    intro hclass himm hcode
    have hinline : inlineLoad64Pc insn = false := by
      unfold inlineLoad64Pc isLdr64
      rw [beq_eq_false_iff_ne.mpr fun heq => himm (and_mask_of heq _ (by decide))]
      rfl
    rw [genStep_ldst ip₀ links peek other hclass, genLdst, if_neg (fun hc => himm hc.1)]
    dsimp only
    rw [savePc, hinline, if_neg Bool.false_ne_true, hcode]
    rfl
  unfold decode at h
  split at h
  case isTrue hp =>
    exact hemit (and_mask_of hp _ (by decide)) (and_ne_of hp 0x3a000000#32 (by decide) (by decide) (by decide))
      ((ldstCode_pair ip₀ hp).trans (pairCode_indexed ip₀ h))
  case isFalse =>
    split at h
    case isTrue hp =>
      exact hemit (and_mask_of hp _ (by decide))
        (and_ne_of hp 0x3b000000#32 (by decide) (by decide) (by decide))
        ((ldstCode_imm9 ip₀ hp).trans (imm9Code_indexed ip₀ h))
    case isFalse => cases h

/-! ## Offsets -/

theorem packs_pair (imm7 : BitVec 7) (scale : Nat) (hs : scale = 4 ∨ scale = 8 ∨ scale = 16) :
    Packs (imm7.signExtend 64 * BitVec.ofNat 64 scale) := by
  have hall : ∀ imm7 : BitVec 7, ∀ scale ∈ [4, 8, 16], ∀ j ∈ List.range' 55 9,
      (imm7.signExtend 64 * BitVec.ofNat 64 scale).getLsbD j =
        (imm7.signExtend 64 * BitVec.ofNat 64 scale).getLsbD 55 := by
    decide +kernel
  refine fun j hlo hhi => hall imm7 scale ?_ j (List.mem_range'_1.mpr ⟨hlo, by omega⟩)
  simpa using hs

theorem packs_single (imm9 : BitVec 9) : Packs (imm9.signExtend 64) := by
  intro j hlo hhi
  rw [BitVec.getLsbD_signExtend, BitVec.getLsbD_signExtend, if_neg (by omega), if_neg (by omega)]
  simp [hhi]

theorem decode_packs (h : decode insn = some i) : Packs i.offset := by
  unfold decode at h
  split at h
  case isTrue =>
    unfold decodePair at h
    dsimp only at h
    split at h
    case isFalse => cases h
    case isTrue =>
      obtain ⟨⟨scale, t⟩, ht, rfl⟩ := Option.map_eq_some_iff.mp h
      refine packs_pair _ scale ?_
      unfold pairTransfer at ht
      split at ht <;> cases ht <;> decide
  case isFalse =>
    split at h
    case isFalse => cases h
    case isTrue =>
      unfold decodeSingle at h
      dsimp only at h
      split at h
      case isFalse => cases h
      case isTrue =>
        obtain ⟨t, -, rfl⟩ := Option.map_eq_some_iff.mp h
        exact packs_single _

/-! ## Between address and writeback -/

section Access

variable {look : Lookup} {c : Cell} {f f' : Frame} {a : Word} {t : Transfer}

inductive Moved (t : Transfer) (a : Word) (f : Frame) : Exit × Buffer → Prop
  | fault {f' : Frame} {value : Buffer} (hfault : (t.fault? f.mem a).isSome = true)
      (hguest : f'.toGuest = f.toGuest) : Moved t a f (.gpf f', value)
  | gret {f' : Frame} {value : Buffer} (hnone : t.fault? f.mem a = none)
      (hguest : f'.toGuest = (t.apply a f).toGuest) (hslot : f'.valueAddr = f.valueAddr ∨ f'.valueAddr = a) :
      Moved t a f (.gret f', value)

theorem setXz_guest (h : f'.toGuest = f.toGuest) (r : Reg) (v : Word) :
    (f'.setXz r v).toGuest = (f.setXz r v).toGuest := by
  unfold Frame.setXz Frame.setX
  split
  · exact h
  · dsimp only
    rw [h]

theorem setXz_valueAddr (f : Frame) (r : Reg) (v : Word) : (f.setXz r v).valueAddr = f.valueAddr := by
  unfold Frame.setXz
  split <;> rfl

theorem setFp_guest (h : f'.toGuest = f.toGuest) (r : Reg) (v : BitVec 128) :
    (f'.setFp r v).toGuest = (f.setFp r v).toGuest := by
  unfold Frame.setFp
  dsimp only
  rw [h]

theorem Slot.guest (h : Slot a f f') : f'.toGuest = f.toGuest := by
  obtain ⟨s, _, rfl⟩ := h
  rfl

theorem Slot.valueAddr (h : Slot a f f') : f'.valueAddr = f.valueAddr ∨ f'.valueAddr = a := by
  obtain ⟨s, hs, rfl⟩ := h
  exact hs

theorem Moved.of_ends {bad? : Option Nat} {write : Bool} {f₁ : Frame} {done : Frame → Frame}
    {r : Exit × Buffer} (hends : Ends bad? write a f₁ done r) (hbad : t.fault? f.mem a = bad?)
    (hguest₁ : f₁.toGuest = f.toGuest) (hslot₁ : f₁.valueAddr = f.valueAddr)
    (hguest : ∀ f', f'.toGuest = f.toGuest → (done f').toGuest = (t.apply a f).toGuest)
    (hslot : ∀ f', (done f').valueAddr = f'.valueAddr) : Moved t a f r := by
  cases hends with
  | fault hb hf =>
    refine .fault ?_ (hf.guest.trans hguest₁)
    rw [hbad, hb]
    rfl
  | gret hnone hf =>
    refine .gret (hbad.trans hnone) (hguest _ (hf.guest.trans hguest₁)) ?_
    rw [hslot, ← hslot₁]
    exact hf.valueAddr

theorem setMem_guest (h : f'.toGuest = f.toGuest) (m : Mem) :
    ({ f' with mem := m } : Frame).toGuest = ({ f with mem := m } : Frame).toGuest := by
  show { f'.toGuest with mem := m } = { f.toGuest with mem := m }
  rw [h]

theorem runOps_single (look : Lookup) (op : Op) (c : Cell) : runOps look [op] c = op.act look c := by
  unfold runOps
  cases op.act look c with
  | mk e value => cases e <;> rfl

theorem transfer_spec (look : Lookup) (t : Transfer) (c : Cell) :
    Moved t c.frame.addr c.frame (runOps look t.ops c) := by
  obtain ⟨f, value⟩ := c
  cases t with
  | load n ext rt =>
    have hends := act_ends (.load n ext) f rfl look value
    unfold Transfer.ops runOps
    generalize (Op.load n ext).act look ⟨f, value⟩ = r at hends ⊢
    cases hends with
    | fault hb hf =>
      refine .fault ?_ hf.guest
      show Option.isSome (f.mem.readFault f.addr.toNat n) = true
      exact Option.isSome_iff_exists.mpr ⟨_, hb⟩
    | gret hnone hf =>
      dsimp only
      rw [runOps_single]
      refine .gret hnone ?_ ?_
      · show (Frame.setXz _ (reg (put rt 0) 0) _).toGuest = (f.setXz rt _).toGuest
        rw [reg_put]
        refine setXz_guest ?_ rt _
        exact hf.guest
      · rw [setXz_valueAddr]
        exact hf.valueAddr
  | store n rt =>
    -- the value is in `_tmp` first
    show Moved _ _ _ (runOps look [.store n] ⟨{ f with tmp := f.getXz (reg (put rt 0) 0) }, value⟩)
    rw [runOps_single, reg_put]
    have hends := act_ends (.store n) { f with tmp := f.getXz rt } rfl look value
    exact .of_ends hends rfl rfl rfl (fun f' hf => setMem_guest hf _) fun f' => rfl
  | loadPair n ext rt rt2 =>
    rw [Transfer.ops, runOps_single]
    have hends := act_ends (.loadPair n ext (put rt 0 ||| put rt2 8)) f rfl look value
    rw [reg_cmpReg_rn, reg_cmpReg_rm] at hends
    refine .of_ends hends rfl rfl rfl (fun f' hf => setXz_guest (setXz_guest hf rt _) rt2 _) fun f' => ?_
    rw [setXz_valueAddr, setXz_valueAddr]
  | storePair n rt rt2 =>
    rw [Transfer.ops, runOps_single]
    have hends := act_ends (.storePair n (put rt 0 ||| put rt2 8)) f rfl look value
    rw [reg_cmpReg_rn, reg_cmpReg_rm] at hends
    exact .of_ends hends rfl rfl rfl (fun f' hf => setMem_guest hf _) fun f' => rfl
  | loadVec n rt =>
    rw [Transfer.ops, runOps_single]
    have hends := act_ends (.ldrSimd n (put rt 0)) f rfl look value
    rw [reg_put] at hends
    exact .of_ends hends rfl rfl rfl (fun f' hf => setFp_guest hf rt _) fun f' => rfl
  | storeVec n rt =>
    rw [Transfer.ops, runOps_single]
    have hends := act_ends (.strSimd n (put rt 0)) f rfl look value
    rw [reg_put] at hends
    exact .of_ends hends rfl rfl rfl (fun f' hf => setMem_guest hf _) fun f' => rfl
  | loadVecPair n rt rt2 =>
    rw [Transfer.ops, runOps_single]
    have hends := act_ends (.ldpSimd n (put rt 0 ||| put rt2 8)) f rfl look value
    rw [reg_cmpReg_rn, reg_cmpReg_rm] at hends
    exact .of_ends hends rfl rfl rfl (fun f' hf => setFp_guest (setFp_guest hf rt _) rt2 _) fun f' => rfl
  | storeVecPair n rt rt2 =>
    rw [Transfer.ops, runOps_single]
    have hends := act_ends (.stpSimd n (put rt 0 ||| put rt2 8)) f rfl look value
    rw [reg_cmpReg_rn, reg_cmpReg_rm] at hends
    exact .of_ends hends rfl rfl rfl (fun f' hf => setMem_guest hf _) fun f' => rfl

end Access

/-! ## The writeback -/

theorem mask48_eq_self {w : Word} : mask48 w = w ↔ w.toNat < 2 ^ 48 := by
  constructor
  · intro h
    have := congrArg BitVec.toNat h
    rw [toNat_mask48] at this
    omega
  intro h
  apply BitVec.eq_of_toNat_eq
  rw [toNat_mask48, Nat.mod_eq_of_lt h]

theorem mask48_add_eq {v b offset : Word} :
    mask48 (v + offset) = b + offset ↔ (b + offset).toNat < 2 ^ 48 ∧ mask48 v = mask48 b := by
  have hsum : ∀ w : Word, (w + offset).toNat = (w.toNat + offset.toNat) % 2 ^ 64 := fun w =>
    BitVec.toNat_add w offset
  constructor
  · intro h
    have hn := congrArg BitVec.toNat h
    rw [toNat_mask48, hsum, hsum] at hn
    refine ⟨by rw [hsum]; omega, ?_⟩
    apply BitVec.eq_of_toNat_eq
    rw [toNat_mask48, toNat_mask48]
    omega
  rintro ⟨hlt, hlow⟩
  have hn := congrArg BitVec.toNat hlow
  rw [toNat_mask48, toNat_mask48] at hn
  apply BitVec.eq_of_toNat_eq
  rw [hsum] at hlt
  rw [toNat_mask48, hsum, hsum]
  omega

section Writeback

variable {f f' : Frame} {t : Transfer}

theorem apply_guest (h : f'.toGuest = f.toGuest) (t : Transfer) (a : Word) :
    (t.apply a f').toGuest = (t.apply a f).toGuest := by
  obtain ⟨g, _⟩ := f
  obtain ⟨g', _⟩ := f'
  obtain rfl : g' = g := h
  cases t with
  | load n ext rt =>
    show (Frame.setXz _ rt _).toGuest = (Frame.setXz _ rt _).toGuest
    refine setXz_guest ?_ rt _
    rfl
  | loadPair n ext rt rt2 =>
    show (Frame.setXz (Frame.setXz _ rt _) rt2 _).toGuest = (Frame.setXz (Frame.setXz _ rt _) rt2 _).toGuest
    refine setXz_guest (setXz_guest ?_ rt _) rt2 _
    rfl
  | _ => rfl

theorem setX_guest (h : f'.toGuest = f.toGuest) (r : Reg) (v : Word) :
    (f'.setX r v).toGuest = (f.setX r v).toGuest := by
  unfold Frame.setX
  dsimp only
  rw [h]

theorem apply_x_of_isVec (h : t.isVec = true) (a : Word) (f : Frame) (r : Reg) : (t.apply a f).x r = f.x r := by
  cases t with
  | loadVec n rt => rfl
  | storeVec n rt => rfl
  | _ => cases h

theorem setX_eq_iff {r : Reg} {v w : Word} (f : Frame) :
    (f.setX r v).toGuest = (f.setX r w).toGuest ↔ v = w := by
  constructor
  · intro h
    have hr := congrArg (fun g => g.x r) h
    simpa [Frame.setX] using hr
  · rintro rfl
    rfl

theorem runOps_append (look : Lookup) (xs ys : List Op) (c : Cell) : runOps look (xs ++ ys) c =
      match runOps look xs c with
      | (.gret f, value) => runOps look ys ⟨f, value⟩
      | e => e := by
  induction xs generalizing c with
  | nil => rfl
  | cons op ops ih =>
    rw [List.cons_append, runOps, runOps]
    generalize op.act look c = r
    obtain ⟨e, value⟩ := r
    cases e with
    | gret f => exact ih ⟨f, value⟩
    | leave f next => rfl
    | undef f => rfl
    | gpf f => rfl

structure Addressed (i : Indexed) (f f₁ : Frame) : Prop where
  guest : f₁.toGuest = f.toGuest
  addr : f₁.addr = i.codeAddress f
  slot : i.post = false → f₁.valueAddr = i.codeAddress f

theorem before_spec (look : Lookup) (hp : Packs i.offset) (c : Cell) :
    ∃ f₁, Addressed i c.frame f₁ ∧
      runOps look [.setJitSavedPc ip₀, i.before] c = (.gret f₁, c.value) := by
  obtain ⟨f, value⟩ := c
  obtain ⟨hrn, hoff⟩ := unpack_packOffset i.rn hp
  unfold runOps
  show ∃ f₁, _ ∧ runOps look [i.before] ⟨{ f with jitSavedPc := ip₀ }, value⟩ = _
  rw [runOps_single]
  unfold Indexed.before
  cases hpost : i.post with
  | true =>
    refine ⟨{ f with jitSavedPc := ip₀, addr := f.x i.rn }, ⟨rfl, ?_, fun h => absurd hpost (by rw [h]; decide)⟩, ?_⟩
    · rw [Indexed.codeAddress, hpost]
      rfl
    show (Arm64.calcAddrBase (put i.rn 0) _, value) = _
    unfold Arm64.calcAddrBase
    rw [base_eq, reg_put]
  | false =>
    refine ⟨{ f with jitSavedPc := ip₀, addr := mask48 (i.sum f), valueAddr := mask48 (i.sum f) },
      ⟨rfl, ?_, fun _ => ?_⟩, ?_⟩
    · rw [Indexed.codeAddress, hpost]
      rfl
    · rw [Indexed.codeAddress, hpost]
      rfl
    show (Arm64.calcAddrImm (packOffset i.rn i.offset) _, value) = _
    unfold Arm64.calcAddrImm
    dsimp only
    rw [base_eq, hrn, hoff]
    rfl

theorem after_spec (look : Lookup) (hp : Packs i.offset) (hguest : f'.toGuest = (i.transfer.apply (i.codeAddress f) f).toGuest)
    (hslot : i.post = false → f'.valueAddr = i.codeAddress f) (value : Buffer) :
    runOps look [i.after] ⟨f', value⟩ =
      (.gret (f'.setX i.rn (if i.post then mask48 ((i.transfer.apply (i.codeAddress f) f).x i.rn + i.offset)
        else mask48 (i.sum f))), value) := by
  obtain ⟨hrn, hoff⟩ := unpack_packOffset i.rn hp
  have hx : f'.x i.rn = (i.transfer.apply (i.codeAddress f) f).x i.rn := congrArg (fun g => g.x i.rn) hguest
  have hupdate : Arm64.updateBase (packOffset i.rn i.offset) f' =
      .gret (f'.setX i.rn (mask48 ((i.transfer.apply (i.codeAddress f) f).x i.rn + i.offset))) := by
    unfold Arm64.updateBase
    rw [base_eq, hrn, hoff, hx]
  rw [runOps_single]
  unfold Indexed.after
  cases hpost : i.post with
  | true =>
    show (Arm64.updateBase (packOffset i.rn i.offset) f', value) = _
    rw [hupdate]
    rfl
  | false =>
    cases hvec : i.transfer.isVec with
    | true =>
      show (Arm64.updateBase (packOffset i.rn i.offset) f', value) = _
      rw [hupdate, apply_x_of_isVec hvec]
      rfl
    | false =>
      show (Arm64.writebackAddr (put i.rn 0) f', value) = _
      unfold Arm64.writebackAddr
      rw [reg_put, hslot hpost, Indexed.codeAddress, hpost]
      rfl

end Writeback

/-! ## Indexed accesses -/

/-- **Pre- and post-indexed accesses.** On every path of the access, base and address are the architecture's
exactly if it faults or the sum has 48 bits (and a load does not change the base before it is added to). -/
theorem indexed_iff (h : decode insn = some i) (links : Links) (peek : Option Insn)
    (other : Word → Insn → List Plain) (look : Lookup) (c : Cell) :
    (genStep links peek other ip₀ insn).code = (.setJitSavedPc ip₀ :: i.ops).map Op.gadget ∧
      (i.Right c.frame (runOps look (.setJitSavedPc ip₀ :: i.ops) c).1 ↔ i.Holds c.frame) := by
  refine ⟨by rw [genStep_indexed ip₀ links peek other h], ?_⟩
  have hp := decode_packs h
  obtain ⟨f₁, haddr, hbefore⟩ := before_spec ip₀ look hp c
  have hmoved := transfer_spec look i.transfer ⟨f₁, c.value⟩
  have hstream : runOps look (.setJitSavedPc ip₀ :: i.ops) c =
      match runOps look i.transfer.ops ⟨f₁, c.value⟩ with
      | (.gret f, value) => runOps look [i.after] ⟨f, value⟩
      | e => e := by
    rw [show (Op.setJitSavedPc ip₀ :: i.ops) = [.setJitSavedPc ip₀, i.before] ++ (i.transfer.ops ++ [i.after])
      from by simp [Indexed.ops], runOps_append, hbefore]
    exact runOps_append look i.transfer.ops [i.after] ⟨f₁, c.value⟩
  rw [hstream]
  generalize runOps look i.transfer.ops ⟨f₁, c.value⟩ = r at hmoved
  have hmem : f₁.mem = c.frame.mem := congrArg Guest.mem haddr.guest
  dsimp only at hmoved
  rw [haddr.addr] at hmoved
  cases hmoved with
  | fault hfault hguest =>
    rw [hmem] at hfault
    refine ⟨fun _ => .inl hfault, fun _ => ?_⟩
    exact congrArg (fun g => g.x i.rn) (hguest.trans haddr.guest)
  | @gret f' value hnone hguest hslot =>
    rw [hmem] at hnone
    rw [apply_guest haddr.guest] at hguest
    have hslot' : i.post = false → f'.valueAddr = i.codeAddress c.frame := by
      intro hpre
      rcases hslot with hs | hs
      · exact hs.trans (haddr.slot hpre)
      · exact hs
    dsimp only
    rw [after_spec look hp hguest hslot']
    show Frame.toGuest _ = _ ↔ _ ∨ _
    rw [setX_guest hguest, hnone]
    show _ ↔ false = true ∨ _
    rw [or_iff_right Bool.false_ne_true]
    cases hpost : i.post with
    | true =>
      have hsame : i.codeAddress c.frame = i.address c.frame := by
        rw [Indexed.codeAddress, Indexed.address, hpost]
        rfl
      rw [if_pos rfl, hsame, setX_eq_iff]
      show mask48 (_ + i.offset) = c.frame.x i.rn + i.offset ↔ _
      rw [mask48_add_eq]
      exact ⟨fun h => ⟨h.1, fun _ => h.2⟩, fun h => ⟨h.1, h.2 rfl⟩⟩
    | false =>
      rw [if_neg Bool.false_ne_true]
      constructor
      · intro hright
        have hx := congrArg (fun g => g.x i.rn) hright
        have hself : mask48 (i.sum c.frame) = i.sum c.frame := by
          simpa [Frame.setX] using hx
        exact ⟨mask48_eq_self.mp hself, fun hp => absurd hp Bool.false_ne_true⟩
      rintro ⟨hlt, _⟩
      rw [Indexed.codeAddress, Indexed.address, hpost, if_neg Bool.false_ne_true,
        if_neg Bool.false_ne_true, mask48_eq_self.mpr hlt]

/-- All of memory is there, and the second register is a base. -/
def baseFrame (base : Word) : Frame where
  x r := if r = 2#5 then base else 0#64
  nzcv := 0#32
  fp _ := 0#128
  mem := ⟨fun _ => 0#8, fun _ => true, fun _ => true⟩
  pc := 0#64
  segfaultAddr := 0#64
  segfaultWasWrite := false
  jitSavedPc := 0#64
  valueAddr := 0#64
  exclAddr := 0#64
  exclVal := 0#64
  exclPairAddr := 0#64
  exclPairLo := 0#64
  exclPairHi := 0#64
  exclPairSize := 0#2
  addr := 0#64
  tmp := 0#64

/-- `LDR X1, [X2], #8`. -/
def ldrPost : Indexed := ⟨true, 2#5, 8#64, .load 8 zx 1#5⟩

/-- It crosses into the next page. -/
theorem indexed_ldrPost :
    (genStep (fun _ => none) none (fun _ _ => []) 0x400000#64 0xf8408441#32).code =
        (.setJitSavedPc 0x400000#64 :: ldrPost.ops).map Op.gadget ∧
      (ldrPost.Right (baseFrame 0x1ffc#64) (runOps ⟨false, 0#64⟩ (.setJitSavedPc 0x400000#64 :: ldrPost.ops)
          ⟨baseFrame 0x1ffc#64, fun _ => 0#8⟩).1 ↔ ldrPost.Holds (baseFrame 0x1ffc#64)) :=
  indexed_iff 0x400000#64 (show decode 0xf8408441#32 = some ldrPost from rfl) (fun _ => none) none (fun _ _ => [])
    ⟨false, 0#64⟩ ⟨baseFrame 0x1ffc#64, fun _ => 0#8⟩

/-- A base with a tag in its upper byte loses the tag. -/
theorem indexed_tagged : decode 0xf8408441#32 = some ldrPost ∧
      ¬ ldrPost.Right (baseFrame 0xb400000000001000#64) (runOps ⟨true, 0#64⟩
        (.setJitSavedPc 0x400000#64 :: ldrPost.ops) ⟨baseFrame 0xb400000000001000#64, fun _ => 0#8⟩).1 := by
  refine ⟨rfl, fun h => ?_⟩
  have hbase := congrArg (fun g => g.x 2#5) h
  exact absurd hbase (by decide)

end IosLinuxkit.Arm64
