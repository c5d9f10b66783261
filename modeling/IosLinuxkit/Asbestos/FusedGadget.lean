import IosLinuxkit.Asbestos.MemGadget

/-!
# Fused gadgets

One gadget for two adjacent guest instructions (`memory.S`, `control.S`). Each unpacks the
operands of both instructions from the words `gen.c` emits and does the work of both.
-/

namespace IosLinuxkit.Arm64

open Bitfield

/-! ## ADRP with LDR or ADD -/

/-- `[rt(0:4) | rd(5:9) | offset(16:31)][target]` -/
def fusedAdrpLdr64 (w target : Word) : Gadget := fun f =>
  let f := f.setX (reg w 5) target
  let a := mask48 (target + (w.extractLsb' 16 16).setWidth 64)
  loadAt 8 zx a f (f.setX (reg w 0))

/-- `[rd(0:4) | imm12(8:19)][target]` -/
def fusedAdrpAdd (w target : Word) : Gadget := fun f =>
  .gret (f.setX (reg w 0) (mask48 (target + imm12 w 8)))

/-! ## SUBS and CMP with B.cond

The branch is taken on the host flags that the subtraction has just set. -/

/-- `[rn | imm12<<8][target][fallthrough]` -/
def fusedCmpImmBcond (sf : Bool) (links : Links) (c : BitVec 4) (w target fallthrough : Word) :
    Gadget := fun f =>
  let flags := subsNzcv sf (f.x (reg w 0)) (imm12 w 8)
  inlineChain links (if cond c flags then target else fallthrough) { f with nzcv := flags.mrs }

def fusedCmpBcond : Links → BitVec 4 → Word → Word → Word → Gadget := fusedCmpImmBcond true
def fusedCmp32Bcond : Links → BitVec 4 → Word → Word → Word → Gadget := fusedCmpImmBcond false

/-- `[rd | rn<<8 | imm12<<16][target][fallthrough]`; the immediate is all that stands above
bit 16. -/
def fusedSubsImmBcond (sf : Bool) (links : Links) (c : BitVec 4) (w target fallthrough : Word) :
    Gadget := fun f =>
  let a := f.x (reg w 8)
  let b := w >>> 16
  let flags := subsNzcv sf a b
  let f := f.setX (reg w 0) (addSub sf true a b)
  inlineChain links (if cond c flags then target else fallthrough) { f with nzcv := flags.mrs }

def fusedSubsBcond : Links → BitVec 4 → Word → Word → Word → Gadget := fusedSubsImmBcond true
def fusedSubs32Bcond : Links → BitVec 4 → Word → Word → Word → Gadget := fusedSubsImmBcond false

/-- `[rn | rm<<8][target][fallthrough]` -/
def fusedCmpRegBcond (links : Links) (c : BitVec 4) (w target fallthrough : Word) : Gadget :=
  fun f =>
    let flags := subsFlags (f.x (reg w 0)) (f.x (reg w 8))
    inlineChain links (if cond c flags then target else fallthrough)
      { f with nzcv := flags.mrs }

/-- `[rd | rn<<8 | rm<<16][target][fallthrough]` -/
def fusedSubsRegBcond (links : Links) (c : BitVec 4) (w target fallthrough : Word) : Gadget :=
  fun f =>
    let a := f.x (reg w 8)
    let b := f.x (reg w 16)
    let flags := subsFlags a b
    let f := f.setX (reg w 0) (a - b)
    inlineChain links (if cond c flags then target else fallthrough)
      { f with nzcv := flags.mrs }

/-! ## ADD and SUB with CBZ, CBNZ, a load or a store -/

/-- `[rd | rn<<8 | imm12<<16 | op<<28 | sf<<29 | test_sf<<30][target][fallthrough]` -/
def fusedAddsubCb (nz : Bool) (links : Links) (w target fallthrough : Word) : Gadget := fun f =>
  let v := addSub (w.getLsbD 29) (w.getLsbD 28) (f.x (reg w 8)) (imm12 w 16)
  inlineChain links (if cbTest (w.getLsbD 30) nz v then target else fallthrough)
    (f.setX (reg w 0) v)

def fusedAddsubCbz : Links → Word → Word → Word → Gadget := fusedAddsubCb false
def fusedAddsubCbnz : Links → Word → Word → Word → Gadget := fusedAddsubCb true

/-- The ADD or SUB of a fused load or store:
`[rd | rn<<8 | imm12<<16 | op<<28 | rt<<32 | mem_imm12<<40][pc]`. The result is visible, and
the retry address saved, before the access. -/
def fusedBase (w pc : Word) (f : Frame) : Frame :=
  let v := addSub true (w.getLsbD 28) (f.x (reg w 8)) (imm12 w 16)
  { f.setX (reg w 0) v with jitSavedPc := pc }

/-- The address is formed from the sum that is still in a host register. -/
def fusedBaseAddr (shift : Nat) (w : Word) (f : Frame) : Word :=
  let v := addSub true (w.getLsbD 28) (f.x (reg w 8)) (imm12 w 16)
  mask48 (v + imm12 w 40 <<< shift)

def fusedAddsubLdr (shift : Nat) (w pc : Word) : Gadget := fun f =>
  let f' := fusedBase w pc f
  loadAt (2 ^ shift) zx (fusedBaseAddr shift w f) f' (f'.setX (reg w 32))

def fusedAddsubLdr64Imm : Word → Word → Gadget := fusedAddsubLdr 3
def fusedAddsubLdr32Imm : Word → Word → Gadget := fusedAddsubLdr 2
def fusedAddsubLdr16Imm : Word → Word → Gadget := fusedAddsubLdr 1
def fusedAddsubLdr8Imm : Word → Word → Gadget := fusedAddsubLdr 0

/-- The stored register is read after the ADD or SUB has been written. -/
def fusedAddsubStr (shift : Nat) (w pc : Word) : Gadget := fun f =>
  let f' := fusedBase w pc f
  storeAt (2 ^ shift) (fusedBaseAddr shift w f) (f'.x (reg w 32)).toNat f'

def fusedAddsubStr64Imm : Word → Word → Gadget := fusedAddsubStr 3
def fusedAddsubStr32Imm : Word → Word → Gadget := fusedAddsubStr 2
def fusedAddsubStr16Imm : Word → Word → Gadget := fusedAddsubStr 1
def fusedAddsubStr8Imm : Word → Word → Gadget := fusedAddsubStr 0

/-! ## LDR with CBZ and CBNZ: `[rt | rn<<8 | imm12<<16][pc][target][fallthrough]`

Whatever the width of the load, the test is on the whole host register. -/

def loadBranch (n : Nat) (ext : BitVec (8 * n) → Word) (nz : Bool) (links : Links) (rt : Reg)
    (a pc target fallthrough : Word) : Gadget := fun f =>
  let f := { f with jitSavedPc := pc }
  readPrep f a n
    (let v := ext (f.mem.load a.toNat n)
     retChain links (if cbTest true nz v then target else fallthrough) (f.setX rt v))

/-- The base register is read without a check for the stack pointer. -/
def fusedLdrCbPlain (shift : Nat) (nz : Bool) (links : Links) (w pc target fallthrough : Word) :
    Gadget := fun f =>
  loadBranch (2 ^ shift) zx nz links (reg w 0)
    (mask48 (f.x (reg w 8) + imm12 w 16 <<< shift)) pc target fallthrough f

def fusedLdr64CbzImm : Links → Word → Word → Word → Word → Gadget := fusedLdrCbPlain 3 false
def fusedLdr64CbnzImm : Links → Word → Word → Word → Word → Gadget := fusedLdrCbPlain 3 true
def fusedLdr32CbzImm : Links → Word → Word → Word → Word → Gadget := fusedLdrCbPlain 2 false
def fusedLdr32CbnzImm : Links → Word → Word → Word → Word → Gadget := fusedLdrCbPlain 2 true

/-- `[rt | imm12<<16][pc][target][fallthrough]` -/
def fusedLdr64SpCb (nz : Bool) (links : Links) (w pc target fallthrough : Word) : Gadget :=
  fun f =>
    loadBranch 8 zx nz links (reg w 0) (mask48 (f.sp + imm12 w 16 <<< 3)) pc target
      fallthrough f

def fusedLdr64SpCbzImm : Links → Word → Word → Word → Word → Gadget := fusedLdr64SpCb false
def fusedLdr64SpCbnzImm : Links → Word → Word → Word → Word → Gadget := fusedLdr64SpCb true

def fusedLdrCbBase (shift : Nat) (ext : BitVec (8 * 2 ^ shift) → Word) (nz : Bool)
    (links : Links) (w pc target fallthrough : Word) : Gadget := fun f =>
  loadBranch (2 ^ shift) ext nz links (reg w 0)
    (mask48 (f.base (reg w 8) + imm12 w 16 <<< shift)) pc target fallthrough f

def fusedLdr32SxCbzImm : Links → Word → Word → Word → Word → Gadget := fusedLdrCbBase 2 sx64 false
def fusedLdr32SxCbnzImm : Links → Word → Word → Word → Word → Gadget := fusedLdrCbBase 2 sx64 true
def fusedLdr16CbzImm : Links → Word → Word → Word → Word → Gadget := fusedLdrCbBase 1 zx false
def fusedLdr16CbnzImm : Links → Word → Word → Word → Word → Gadget := fusedLdrCbBase 1 zx true
def fusedLdr8CbzImm : Links → Word → Word → Word → Word → Gadget := fusedLdrCbBase 0 zx false
def fusedLdr8CbnzImm : Links → Word → Word → Word → Word → Gadget := fusedLdrCbBase 0 zx true

/-- `[rt | rn<<8 | imm12<<16 | size<<28 | extend64<<29][pc][target][fallthrough]` -/
def fusedLdrSxCb (nz : Bool) (links : Links) (w pc target fallthrough : Word) : Gadget :=
  if w.getLsbD 28 then
    fusedLdrCbBase 1 (if w.getLsbD 29 then sx64 else sx32) nz links w pc target fallthrough
  else
    fusedLdrCbBase 0 (if w.getLsbD 29 then sx64 else sx32) nz links w pc target fallthrough

def fusedLdrSxCbzImm : Links → Word → Word → Word → Word → Gadget := fusedLdrSxCb false
def fusedLdrSxCbnzImm : Links → Word → Word → Word → Word → Gadget := fusedLdrSxCb true

end IosLinuxkit.Arm64
