import IosLinuxkit.Asbestos.FusedGadget

/-!
# The translator: data processing, branches and their fusions

`gen_step` of `gen.c` for the instructions that take part in a fusion. `peek` is what
`gen_peek_next_insn` finds behind the instruction; without a next instruction nothing is
fused, so `peek = none` gives the gadgets of an instruction on its own.

`other` stands for the instructions that neither access memory nor are part of a fused pair:
their gadgets may do anything to the frame but fault.
-/

namespace IosLinuxkit.Arm64

open Bitfield

abbrev Insn := BitVec 32

/-- What one `gen_step` emits, and `state->ip` after it. -/
structure Emit where
  code : List Gadget
  ip : Word

/-- A gadget without a memory access. -/
structure Plain where
  act : Gadget
  noFault : ∀ f f', act f ≠ .gpf f'

/-! ## Fields -/

def rdOf (insn : Insn) : Reg := insn.extractLsb' 0 5
def rnOf (insn : Insn) : Reg := insn.extractLsb' 5 5
def rmOf (insn : Insn) : Reg := insn.extractLsb' 16 5
def imm12Of (insn : Insn) : BitVec 12 := insn.extractLsb' 10 12

def branchImm19 (insn : Insn) : Word := (insn.extractLsb' 5 19 ++ 0#2).signExtend 64

def adrImm (insn : Insn) : Word := (insn.extractLsb' 5 19 ++ insn.extractLsb' 29 2).signExtend 64

def fake (a : Word) : Word := a ||| 1#64 <<< 63

def isBcond (insn : Insn) : Bool := insn &&& 0xff000010#32 == 0x54000000#32
def isCb (insn : Insn) : Bool := insn &&& 0x7e000000#32 == 0x34000000#32
def isUnsignedImm (insn : Insn) : Bool := insn &&& 0x3b000000#32 == 0x39000000#32

def samePage (a b : Word) : Bool := a >>> 12 == b >>> 12

/-- `[rd | rn<<8 | imm12<<16]` -/
def packImm (rd rn : Reg) (imm : BitVec 12) : Word := put rd 0 ||| put rn 8 ||| put imm 16

/-- `[rd | rn<<8 | rm<<16]` -/
def packReg (rd rn rm : Reg) : Word := put rd 0 ||| put rn 8 ||| put rm 16

def bit (b : Bool) (k : Nat) : Word := put (BitVec.ofBool b) k

section Fusions

variable (links : Links) (peek : Option Insn)

/-! ## Fusions with a branch

`ip` is `state->ip`, the address of the branch. -/

def tryFuseSubsBcond (ip : Word) (sf : Bool) (rd rn : Reg) (imm : BitVec 12) : Option Emit :=
  match peek with
  | none => none
  | some next =>
    let c : BitVec 4 := next.extractLsb' 0 4
    if isBcond next = true ∧ c.toNat < 14 then
      let target := fake (ip + branchImm19 next)
      let fallthrough := fake (ip + 4#64)
      let gadget :=
        if rd = 31#5 then
          (if sf then fusedCmpBcond else fusedCmp32Bcond) links c (put rn 0 ||| put imm 8)
            target fallthrough
        else
          (if sf then fusedSubsBcond else fusedSubs32Bcond) links c (packImm rd rn imm)
            target fallthrough
      some { code := [gadget], ip := ip + 4#64 }
    else none

def tryFuseSubsRegBcond (ip : Word) (rd rn rm : Reg) : Option Emit :=
  match peek with
  | none => none
  | some next =>
    let c : BitVec 4 := next.extractLsb' 0 4
    if isBcond next = true ∧ c.toNat < 14 then
      let target := fake (ip + branchImm19 next)
      let fallthrough := fake (ip + 4#64)
      let gadget :=
        if rd = 31#5 then
          fusedCmpRegBcond links c (put rn 0 ||| put rm 8) target fallthrough
        else fusedSubsRegBcond links c (packReg rd rn rm) target fallthrough
      some { code := [gadget], ip := ip + 4#64 }
    else none

def tryFuseAddsubCbz (ip : Word) (sf op : Bool) (rd rn : Reg) (imm : BitVec 12) : Option Emit :=
  match peek with
  | none => none
  | some next =>
    if isCb next = true ∧ rdOf next = rd ∧ rdOf next ≠ 31#5 then
      let w := packImm rd rn imm ||| bit op 28 ||| bit sf 29 ||| bit (next.getLsbD 31) 30
      some
        { code := [(if next.getLsbD 24 then fusedAddsubCbnz else fusedAddsubCbz) links w
            (fake (ip + branchImm19 next)) (fake (ip + 4#64))]
          ip := ip + 4#64 }
    else none

/-- What `arm64_decode_int_unsigned_imm_ldst` reads off an integer load or store with an
unsigned immediate: load, sign-extending, size. -/
def decodeIntUnsignedImmLdst (insn : Insn) : Option (Bool × Bool × BitVec 2) :=
  let opc : BitVec 2 := insn.extractLsb' 22 2
  let size : BitVec 2 := insn.extractLsb' 30 2
  if isUnsignedImm insn = true ∧ insn.getLsbD 26 = false ∧ ¬ (size = 3#2 ∧ opc = 2#2) then
    some (opc != 0#2, opc.getLsbD 1, size)
  else none

/-- The eight `try_fuse_addsub_ldr*` and `try_fuse_addsub_str*` differ in the load bit, the
size and the gadget. `ip₀` is `state->orig_ip`. -/
def tryFuseAddsubMem (load : Bool) (size : BitVec 2) (gadget : Word → Word → Gadget)
    (ip₀ ip : Word) (op : Bool) (rd rn : Reg) (imm : BitVec 12) : Option Emit :=
  match peek with
  | none => none
  | some next =>
    if samePage ip₀ ip = true ∧ decodeIntUnsignedImmLdst next = some (load, false, size) ∧
        rnOf next = rd ∧ rdOf next ≠ 31#5 then
      let w :=
        packImm rd rn imm ||| bit op 28 ||| put (rdOf next) 32 ||| put (imm12Of next) 40
      some { code := [gadget w ip], ip := ip + 4#64 }
    else none

def tryFuseAddsubLdr64 := tryFuseAddsubMem peek true 3#2 fusedAddsubLdr64Imm
def tryFuseAddsubLdr32 := tryFuseAddsubMem peek true 2#2 fusedAddsubLdr32Imm
def tryFuseAddsubLdr16 := tryFuseAddsubMem peek true 1#2 fusedAddsubLdr16Imm
def tryFuseAddsubLdr8 := tryFuseAddsubMem peek true 0#2 fusedAddsubLdr8Imm
def tryFuseAddsubStr64 := tryFuseAddsubMem peek false 3#2 fusedAddsubStr64Imm
def tryFuseAddsubStr32 := tryFuseAddsubMem peek false 2#2 fusedAddsubStr32Imm
def tryFuseAddsubStr16 := tryFuseAddsubMem peek false 1#2 fusedAddsubStr16Imm
def tryFuseAddsubStr8 := tryFuseAddsubMem peek false 0#2 fusedAddsubStr8Imm

/-- The `try_fuse_ldr*_cbz*`: `ok` is what the caller and the function ask of the registers
and of the width of the test. -/
def tryFuseLdrCb (ok : Insn → Prop) [DecidablePred ok]
    (gadget : Bool → Links → Word → Word → Word → Word → Gadget) (w : Word) (ip₀ ip : Word)
    (rt : Reg) : Option Emit :=
  match peek with
  | none => none
  | some next =>
    if rt ≠ 31#5 ∧ samePage ip₀ ip = true ∧ isCb next = true ∧ rdOf next = rt ∧ ok next then
      some
        { code := [gadget (next.getLsbD 24) links w ip₀ (fake (ip + branchImm19 next))
            (fake (ip + 4#64))]
          ip := ip + 4#64 }
    else none

def tryFuseLdr64Cbz64 (ip₀ ip : Word) (rn rt : Reg) (imm : BitVec 12) : Option Emit :=
  tryFuseLdrCb links peek (fun next => rn ≠ 31#5 ∧ next.getLsbD 31 = true)
    (fun nz => if nz then fusedLdr64CbnzImm else fusedLdr64CbzImm) (packImm rt rn imm) ip₀ ip rt

def tryFuseLdr64SpCbz64 (ip₀ ip : Word) (rn rt : Reg) (imm : BitVec 12) : Option Emit :=
  tryFuseLdrCb links peek (fun next => rn = 31#5 ∧ next.getLsbD 31 = true)
    (fun nz => if nz then fusedLdr64SpCbnzImm else fusedLdr64SpCbzImm)
    (put rt 0 ||| put imm 16) ip₀ ip rt

def tryFuseLdr32SxCbz64 (ip₀ ip : Word) (rn rt : Reg) (imm : BitVec 12) : Option Emit :=
  tryFuseLdrCb links peek (fun _ => True)
    (fun nz => if nz then fusedLdr32SxCbnzImm else fusedLdr32SxCbzImm) (packImm rt rn imm)
    ip₀ ip rt

def tryFuseLdr32Cbz32 (ip₀ ip : Word) (rn rt : Reg) (imm : BitVec 12) : Option Emit :=
  tryFuseLdrCb links peek (fun next => next.getLsbD 31 = false)
    (fun nz => if nz then fusedLdr32CbnzImm else fusedLdr32CbzImm) (packImm rt rn imm) ip₀ ip rt

def tryFuseLdrSxCbz (ip₀ ip : Word) (rn rt : Reg) (imm : BitVec 12) (size : BitVec 2)
    (extend64 : Bool) : Option Emit :=
  tryFuseLdrCb links peek (fun _ => size.toNat ≤ 1)
    (fun nz => if nz then fusedLdrSxCbnzImm else fusedLdrSxCbzImm)
    (packImm rt rn imm ||| put size 28 ||| bit extend64 29) ip₀ ip rt

def tryFuseLdr16Cbz32 (ip₀ ip : Word) (rn rt : Reg) (imm : BitVec 12) : Option Emit :=
  tryFuseLdrCb links peek (fun next => next.getLsbD 31 = false)
    (fun nz => if nz then fusedLdr16CbnzImm else fusedLdr16CbzImm) (packImm rt rn imm) ip₀ ip rt

def tryFuseLdr8Cbz32 (ip₀ ip : Word) (rn rt : Reg) (imm : BitVec 12) : Option Emit :=
  tryFuseLdrCb links peek (fun next => next.getLsbD 31 = false)
    (fun nz => if nz then fusedLdr8CbnzImm else fusedLdr8CbzImm) (packImm rt rn imm) ip₀ ip rt

/-! ## ADR and ADRP -/

def adrTarget (insn : Insn) (ip₀ : Word) : Word :=
  if insn.getLsbD 31 then (ip₀ &&& ~~~0xfff#64) + adrImm insn <<< 12 else ip₀ + adrImm insn

def isLdr64 (insn : Insn) : Bool := insn &&& 0xffc00000#32 == 0xf9400000#32
def isAddImm64 (insn : Insn) : Bool := insn &&& 0xffc00000#32 == 0x91000000#32

def tryFuseAdrp (ip : Word) (rd : Reg) (target : Word) : Option Emit :=
  match peek with
  | none => none
  | some next =>
    if isLdr64 next = true ∧ rnOf next = rd ∧ rdOf next ≠ 31#5 then
      let offset : Word := put (imm12Of next) 3
      some
        { code := [fusedAdrpLdr64 (put (rdOf next) 0 ||| put rd 5 ||| put offset 16)
            (mask48 target)]
          ip := ip + 4#64 }
    else if isAddImm64 next = true ∧ rnOf next = rd ∧ rdOf next = rd then
      some
        { code := [fusedAdrpAdd (put rd 0 ||| put (imm12Of next) 8) (mask48 target)]
          ip := ip + 4#64 }
    else none

def genAdr (ip₀ : Word) (insn : Insn) : Emit :=
  let ip := ip₀ + 4#64
  let rd := rdOf insn
  let target := adrTarget insn ip₀
  let fused := if insn.getLsbD 31 = true ∧ rd ≠ 31#5 then tryFuseAdrp peek ip rd target else none
  fused.getD { code := [adr (put rd 0 ||| put (mask48 target) 8)], ip := ip }

variable (other : Word → Insn → List Plain)

def genOther (ip₀ : Word) (insn : Insn) : Emit :=
  { code := (other ip₀ insn).map Plain.act, ip := ip₀ + 4#64 }

/-! ## Add and subtract (immediate) -/

def tryFuseAddsub (ip₀ ip : Word) (insn : Insn) : Option Emit :=
  let sf := insn.getLsbD 31
  let op := insn.getLsbD 30
  let s := insn.getLsbD 29
  let sh := insn.getLsbD 22
  let imm := imm12Of insn
  let rn := rnOf insn
  let rd := rdOf insn
  if sh = false ∧ rn ≠ 31#5 ∧ s = true ∧ op = true then
    tryFuseSubsBcond links peek ip sf rd rn imm
  else if sh = false ∧ s = false ∧ rd ≠ 31#5 ∧ rn ≠ 31#5 then
    tryFuseAddsubCbz links peek ip sf op rd rn imm <|>
    if sf then
      tryFuseAddsubLdr64 peek ip₀ ip op rd rn imm <|>
      tryFuseAddsubLdr32 peek ip₀ ip op rd rn imm <|>
      tryFuseAddsubLdr16 peek ip₀ ip op rd rn imm <|>
      tryFuseAddsubLdr8 peek ip₀ ip op rd rn imm <|>
      tryFuseAddsubStr64 peek ip₀ ip op rd rn imm <|>
      tryFuseAddsubStr32 peek ip₀ ip op rd rn imm <|>
      tryFuseAddsubStr16 peek ip₀ ip op rd rn imm <|>
      tryFuseAddsubStr8 peek ip₀ ip op rd rn imm
    else none
  else none

/-- The gadgets without a check for register 31 and without a shift. ADDS, the shifted forms
and those with the stack pointer are `other`. -/
def addsubFast (insn : Insn) : Option Gadget :=
  let sf := insn.getLsbD 31
  let op := insn.getLsbD 30
  let s := insn.getLsbD 29
  let w := packImm (rdOf insn) (rnOf insn) (imm12Of insn)
  if insn.getLsbD 22 = true ∨ rnOf insn = 31#5 then none
  else if s then
    if op then some ((if sf then subsImm64 else subsImm32) w) else none
  else if rdOf insn = 31#5 then none
  else if sf then some ((if op then subImm64 else addImm64) w)
  else some ((if op then subImm32 else addImm32) w)

def genAddsubImm (ip₀ : Word) (insn : Insn) : Emit :=
  let ip := ip₀ + 4#64
  let single :=
    match addsubFast insn with
    | some g => { code := [g], ip := ip }
    | none => genOther other ip₀ insn
  (tryFuseAddsub links peek ip₀ ip insn).getD single

def genDpImm (ip₀ : Word) (insn : Insn) : Emit :=
  if insn &&& 0x1f000000#32 = 0x10000000#32 then genAdr peek ip₀ insn
  else if insn &&& 0x03000000#32 = 0x01000000#32 then genAddsubImm links peek other ip₀ insn
  else genOther other ip₀ insn

/-! ## Add and subtract (shifted register): SUBS and CMP without a shift -/

def genDpReg (ip₀ : Word) (insn : Insn) : Emit :=
  let ip := ip₀ + 4#64
  let rm := rmOf insn
  let rn := rnOf insn
  let rd := rdOf insn
  if insn.getLsbD 28 = false ∧ insn.getLsbD 24 = true ∧ insn.getLsbD 21 = false ∧
      insn.extractLsb' 22 2 ≠ 3#2 ∧ insn.getLsbD 31 = true ∧ insn.extractLsb' 10 6 = 0#6 ∧
      rn ≠ 31#5 ∧ rm ≠ 31#5 ∧ insn.getLsbD 29 = true ∧ insn.getLsbD 30 = true then
    (tryFuseSubsRegBcond links peek ip rd rn rm).getD
      { code := [subsReg64Nshift (packReg rd rn rm)], ip := ip }
  else genOther other ip₀ insn

/-! ## Branches, and `DC ZVA` -/

def isDcZva (insn : Insn) : Bool := insn &&& 0xffffffe0#32 == 0xd50b7420#32

/-- B.cond, CBZ and CBNZ with both edges through jump slots, and `DC ZVA`, which is a memory
access among the system instructions. -/
def genBranch (ip₀ : Word) (insn : Insn) : Emit :=
  let ip := ip₀ + 4#64
  let target := fake (ip₀ + branchImm19 insn)
  let fallthrough := fake ip
  if isBcond insn then
    let c : BitVec 4 := insn.extractLsb' 0 4
    if 14 ≤ c.toNat then { code := [branch links target], ip := ip }
    else { code := [bcond links c target fallthrough], ip := ip }
  else if isCb insn then
    let nz := insn.getLsbD 24
    let sf := insn.getLsbD 31
    let rt := rdOf insn
    let gadget :=
      if rt ≠ 31#5 then
        (if nz then (if sf then cbnz64 else cbnz32) else (if sf then cbz64 else cbz32))
          links (put rt 0) target fallthrough
      else (if nz then cbnz else cbz) links (put rt 0 ||| bit sf 8) target fallthrough
    { code := [gadget], ip := ip }
  else if isDcZva insn then
    { code := [setJitSavedPc ip₀, dcZva (put (rdOf insn) 0)], ip := ip }
  else genOther other ip₀ insn

end Fusions

end IosLinuxkit.Arm64
