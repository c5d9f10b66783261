import IosLinuxkit.Asbestos.Gen

/-!
# The translator: loads and stores

`gen_ldst` of `gen.c`, one definition for each of its cases, in the order in which it tries
the patterns, and `gen_step` over the instruction classes of `decode.h`.

Every load or store starts with `set_jit_saved_pc`, except the 64-bit `LDR` with an unsigned
offset and ordinary registers, whose gadget saves the address itself.
-/

namespace IosLinuxkit.Arm64

open Bitfield

/-- `gen_interrupt(state, INT_UNDEFINED)`. -/
def undefined (ip₀ : Word) : List Gadget := [setPc ip₀, interrupt]

/-- `[rn | offset<<8]` with a sign-extended offset. -/
def packOffset (rn : Reg) (offset : Word) : Word := put rn 0 ||| offset <<< 8

def sizeOf (insn : Insn) : BitVec 2 := insn.extractLsb' 30 2
def opcOf (insn : Insn) : BitVec 2 := insn.extractLsb' 22 2

def barrier (b : Bool) : List Gadget := if b then [dmb] else []

/-! ## Gadgets by size -/

def loadBySize (size : BitVec 2) (sx ext64 : Bool) : Gadget :=
  match size.toNat with
  | 0 => if sx then (if ext64 then load8Sx64 else load8Sx32) else load8
  | 1 => if sx then (if ext64 then load16Sx64 else load16Sx32) else load16
  | 2 => if sx then load32Sx else load32
  | _ => load64

def storeBySize (size : BitVec 2) : Gadget :=
  match size.toNat with
  | 0 => store8
  | 1 => store16
  | 2 => store32
  | _ => store64

def simdBySize (load : Bool) (bytes : Nat) : Word → Gadget :=
  match bytes with
  | 1 => if load then ldrSimdB else strSimdB
  | 2 => if load then ldrSimdH else strSimdH
  | 4 => if load then ldrSimdS else strSimdS
  | 8 => if load then ldrSimdD else strSimdD
  | _ => if load then ldrSimdQ else strSimdQ

/-- `Q` registers are encoded with size 0 and the high bit of `opc`. -/
def simdBytes (insn : Insn) : Nat :=
  if sizeOf insn = 0#2 ∧ (opcOf insn).getLsbD 1 = true then 16 else 2 ^ (sizeOf insn).toNat

/-! ## Atomics and literals -/

def genAtomicRmw (ip₀ : Word) (insn : Insn) : List Gadget :=
  let op : BitVec 4 := insn.extractLsb' 12 4
  if 8 < op.toNat then undefined ip₀
  else
    [calcAddrImm (packOffset (rnOf insn) 0)] ++ barrier (insn.getLsbD 22) ++
      [atomicRmw (put (rmOf insn) 0 ||| put (sizeOf insn) 8 ||| put op 16)] ++
      barrier (insn.getLsbD 23) ++ [storeReg (put (rdOf insn) 0)]

def genCasp (insn : Insn) : List Gadget :=
  let size : BitVec 2 := 2#2 + (insn.extractLsb' 30 1).setWidth 2
  [calcAddrImm (packOffset (rnOf insn) 0)] ++ barrier (insn.getLsbD 15) ++
    [atomicCasp (put (rmOf insn) 0 ||| put (rdOf insn) 8 ||| put size 16)] ++
    barrier (insn.getLsbD 22)

def genCas (insn : Insn) : List Gadget :=
  [calcAddrImm (packOffset (rnOf insn) 0)] ++ barrier (insn.getLsbD 15) ++
    [atomicCas (put (rmOf insn) 0 ||| put (rdOf insn) 8 ||| put (sizeOf insn) 16)] ++
    barrier (insn.getLsbD 22) ++ [storeReg (put (rmOf insn) 0)]

def genLiteral (ip₀ : Word) (insn : Insn) : List Gadget :=
  let target := ip₀ + branchImm19 insn
  let rt : Word := put (rdOf insn) 0
  if insn.getLsbD 26 then
    [calcAddrPcRel target] ++ match (sizeOf insn).toNat with
      | 0 => [ldrSimdS rt]
      | 1 => [ldrSimdD rt]
      | 2 => [ldrSimdQ rt]
      | _ => undefined ip₀
  else
    [calcAddrPcRel target] ++ match (sizeOf insn).toNat with
      | 0 => [load32, storeReg rt]
      | 1 => [load64, storeReg rt]
      | 2 => [load32Sx, storeReg rt]
      | _ => undefined ip₀

/-! ## Unsigned immediate -/

section UnsignedImm

variable (links : Links) (peek : Option Insn)

def tryFuseLdr (ip₀ ip : Word) (insn : Insn) : Option Emit :=
  let rn := rnOf insn
  let rt := rdOf insn
  let imm := imm12Of insn
  let opc := opcOf insn
  if opc.getLsbD 1 then
    match (sizeOf insn).toNat with
    | 2 => tryFuseLdr32SxCbz64 links peek ip₀ ip rn rt imm
    | 3 => none
    | _ => tryFuseLdrSxCbz links peek ip₀ ip rn rt imm (sizeOf insn) (opc = 2#2)
  else if opc = 1#2 then
    match (sizeOf insn).toNat with
    | 3 => tryFuseLdr64Cbz64 links peek ip₀ ip rn rt imm <|>
      tryFuseLdr64SpCbz64 links peek ip₀ ip rn rt imm
    | 2 => tryFuseLdr32Cbz32 links peek ip₀ ip rn rt imm
    | 1 => tryFuseLdr16Cbz32 links peek ip₀ ip rn rt imm
    | _ => tryFuseLdr8Cbz32 links peek ip₀ ip rn rt imm
  else none

end UnsignedImm

def loadImmGadget (ip₀ : Word) (size : BitVec 2) (sx fast spFast : Bool) (w : Word) : Gadget :=
  match size.toNat with
  | 0 => if fast then load8ImmFast w else load8Imm w
  | 1 => if fast then load16ImmFast w else load16Imm w
  | 2 =>
    if sx then load32SxImm w
    else if fast then load32ImmFast w
    else if spFast then load32SpImm w else load32Imm w
  | _ =>
    if fast then load64ImmFast w ip₀ else if spFast then load64SpImm w else load64Imm w

def storeImmGadget (size : BitVec 2) (fast spFast : Bool) (w : Word) : Gadget :=
  match size.toNat with
  | 0 => if fast then store8ImmFast w else store8Imm w
  | 1 => if fast then store16ImmFast w else store16Imm w
  | 2 =>
    if fast then store32ImmFast w else if spFast then store32SpImm w else store32Imm w
  | _ =>
    if fast then store64ImmFast w else if spFast then store64SpImm w else store64Imm w

def unsignedImmCode (ip₀ : Word) (insn : Insn) : List Gadget :=
  let size := sizeOf insn
  let opc := opcOf insn
  let imm := imm12Of insn
  let rn := rnOf insn
  let rt := rdOf insn
  if insn.getLsbD 26 then
    -- `imm12 << scale`, where a `Q` register is scaled by 16
    let offset : Word := put imm (Nat.log2 (simdBytes insn))
    [calcAddrImm (packOffset rn offset), simdBySize (opc.getLsbD 0) (simdBytes insn) (put rt 0)]
  else if size = 3#2 ∧ opc = 2#2 then []
  else
    let offset : Word := put imm size.toNat
    let load := opc != 0#2
    let sx := opc.getLsbD 1
    let w := put rt 0 ||| put rn 8 ||| put offset 16
    let fast := rn ≠ 31#5 ∧ rt ≠ 31#5
    let spFast := rn = 31#5 ∧ rt ≠ 31#5
    if load = true ∧ sx = true ∧ size.toNat < 2 then
      [calcAddrImm (packOffset rn offset), loadBySize size true (opc = 2#2), storeReg (put rt 0)]
    else if load then [loadImmGadget ip₀ size sx fast spFast w]
    else [storeImmGadget size fast spFast w]

/-! ## Register offset -/

def regOffsetCode (insn : Insn) : List Gadget :=
  let size := sizeOf insn
  let opc := opcOf insn
  let option : BitVec 3 := insn.extractLsb' 13 3
  let s := insn.getLsbD 12
  let rm := rmOf insn
  let rn := rnOf insn
  let rt := rdOf insn
  if insn.getLsbD 26 then
    let shift : BitVec 3 :=
      if s then (if simdBytes insn = 16 then 4#3 else size.setWidth 3) else 0#3
    [calcAddrReg (put rn 0 ||| put rm 8 ||| put option 16 ||| put shift 24),
      simdBySize (opc.getLsbD 0) (simdBytes insn) (put rt 0)]
  else if size = 3#2 ∧ opc = 2#2 then []
  else
    let shift : BitVec 3 := if s then size.setWidth 3 else 0#3
    let load := opc != 0#2
    let sx := opc.getLsbD 1
    if option = 3#3 ∧ ¬ (load = true ∧ sx = true ∧ size.toNat < 2) then
      let w := put rt 0 ||| put rn 8 ||| put rm 16 ||| put shift 24
      if load then
        match size.toNat with
        | 0 => [load8Reg w]
        | 1 => [load16Reg w]
        | 2 => [if sx then load32SxReg w else load32Reg w]
        | _ => [load64Reg w]
      else
        match size.toNat with
        | 0 => [store8Reg w]
        | 1 => [store16Reg w]
        | 2 => [store32Reg w]
        | _ => [store64Reg w]
    else
      [calcAddrReg (put rn 0 ||| put rm 8 ||| put option 16 ||| put shift 24)] ++
        if load then [loadBySize size sx (opc = 2#2), storeReg (put rt 0)]
        else [loadReg (put rt 0), storeBySize size]

/-! ## Pairs -/

/-- The address of a pre- or post-indexed access, and the writeback behind it. -/
def indexed (post : Bool) (rn : Reg) (offset : Word) (access : List Gadget) : List Gadget :=
  if post then
    [calcAddrBase (put rn 0)] ++ access ++ [updateBase (packOffset rn offset)]
  else [calcAddrImm (packOffset rn offset)] ++ access ++ [writebackAddr (put rn 0)]

def pairSimd (load : Bool) (opc : BitVec 2) (w : Word) : Gadget :=
  match opc.toNat with
  | 0 => if load then ldpSimdS w else stpSimdS w
  | 1 => if load then ldpSimdD w else stpSimdD w
  | _ => if load then ldpSimdQ w else stpSimdQ w

/-- `is64`: the elements are 8 bytes; `sw`: `LDPSW`. -/
def pairGadget (load is64 sw : Bool) (w : Word) : Gadget :=
  if load then (if sw then ldpsw w else if is64 then ldp64 w else ldp32 w)
  else if is64 then stp64 w else stp32 w

def pairImmGadget (load is64 sw fast : Bool) (w : Word) : Gadget :=
  if load then
    if sw then (if fast then ldpswImmFast w else ldpswImm w)
    else if fast then (if is64 then ldp64ImmFast w else ldp32ImmFast w)
    else if is64 then ldp64Imm w else ldp32Imm w
  else if fast then (if is64 then stp64ImmFast w else stp32ImmFast w)
  else if is64 then stp64Imm w else stp32Imm w

def pairCode (ip₀ : Word) (insn : Insn) : List Gadget :=
  let opc := sizeOf insn
  let mode : BitVec 3 := insn.extractLsb' 23 3
  let load := insn.getLsbD 22
  let imm7 : Word := (insn.extractLsb' 15 7).signExtend 64
  let rt2 : Reg := insn.extractLsb' 10 5
  let rn := rnOf insn
  let rt := rdOf insn
  let v := insn.getLsbD 26
  let pre := mode = 3#3
  let post := mode = 1#3
  let plain := mode = 2#3 ∨ mode = 0#3
  if v = false ∧ (opc = 3#2 ∨ opc = 1#2 ∧ load = false) then undefined ip₀
  else if ¬ (pre ∨ post ∨ plain) then undefined ip₀
  else if v then
    let bytes : Word := if opc = 0#2 then 4 else if opc = 1#2 then 8 else 16
    let offset := imm7 * bytes
    -- an unallocated `opc` is found after the address gadget
    let access :=
      if opc = 3#2 then undefined ip₀ else [pairSimd load opc (put rt 0 ||| put rt2 8)]
    if plain then [calcAddrImm (packOffset rn offset)] ++ access
    else indexed post rn offset access
  else
    let is64 := opc = 2#2
    let sw := load = true ∧ opc = 1#2
    let offset := imm7 * (if is64 then 8 else 4)
    if plain then
      let w := put rt 0 ||| put rt2 8 ||| put rn 16 ||| put (offset.setWidth 16) 24
      [pairImmGadget load is64 sw (rn ≠ 31#5 ∧ rt ≠ 31#5 ∧ rt2 ≠ 31#5) w]
    else indexed post rn offset [pairGadget load is64 sw (put rt 0 ||| put rt2 8)]

/-! ## Unscaled, pre- and post-indexed -/

def imm9Code (ip₀ : Word) (insn : Insn) : List Gadget :=
  let size := sizeOf insn
  let opc := opcOf insn
  let imm9 : Word := (insn.extractLsb' 12 9).signExtend 64
  let mode : BitVec 2 := insn.extractLsb' 10 2
  let rn := rnOf insn
  let rt := rdOf insn
  let address :=
    if mode = 3#2 ∨ mode = 0#2 then calcAddrImm (packOffset rn imm9)
    else calcAddrBase (put rn 0)
  if insn.getLsbD 26 then
    if mode = 2#2 then undefined ip₀
    else
      [address, simdBySize (opc.getLsbD 0) (simdBytes insn) (put rt 0)] ++
        if mode = 0#2 then [] else [updateBase (packOffset rn imm9)]
  else if size = 3#2 ∧ opc = 2#2 then []
  else if mode = 2#2 then undefined ip₀
  else
    let access :=
      if opc != 0#2 then [loadBySize size (opc.getLsbD 1) (opc = 2#2), storeReg (put rt 0)]
      else [loadReg (put rt 0), storeBySize size]
    let writeback :=
      if mode = 0#2 then []
      else if mode = 3#2 then [writebackAddr (put rn 0)]
      else [updateBase (packOffset rn imm9)]
    [address] ++ access ++ writeback

/-! ## Exclusives, and acquire and release -/

def exclusiveCode (ip₀ : Word) (insn : Insn) : List Gadget :=
  let size := sizeOf insn
  let load := insn.getLsbD 22
  let rs := rmOf insn
  let o0 := insn.getLsbD 15
  let rt2 : Reg := insn.extractLsb' 10 5
  let rt := rdOf insn
  let address := calcAddrImm (packOffset (rnOf insn) 0)
  if insn.getLsbD 23 = false ∧ insn.getLsbD 21 = true then
    if load then
      if size.toNat < 2 then [address] ++ undefined ip₀
      else [address, ldxpC (put rt 0 ||| put rt2 8 ||| put size 16)] ++ barrier o0
    else
      [address] ++ barrier o0 ++ [stxpC (put rs 0 ||| put rt 8 ||| put rt2 16 ||| put size 24)]
  else if insn.getLsbD 23 then
    if load then [address, loadBySize size false false, dmb, storeReg (put rt 0)]
    else [loadReg (put rt 0), address, dmb, storeBySize size]
  else if load then [address, ldxr (put rt 0 ||| put size 8)] ++ barrier o0
  else barrier o0 ++ [address, stxr (put rt 0 ||| put rs 8 ||| put size 16)]

/-! ## Vector structures -/

/-- The registers of `LD1`/`ST1` (multiple structures). -/
def multipleRegs (opcode : BitVec 4) : Nat :=
  match opcode.toNat with
  | 7 => 1
  | 10 => 2
  | 6 => 3
  | 2 => 4
  | _ => 0

def interleaveRegs (opcode : BitVec 4) : Nat :=
  match opcode.toNat with
  | 8 => 2
  | 4 => 3
  | 0 => 4
  | _ => 0

/-- `regs` accesses, the address moved on between them. -/
def sequence (step : Gadget) (access : Nat → Gadget) : Nat → List Gadget
  | 0 => []
  | 1 => [access 0]
  | n + 2 => sequence step access (n + 1) ++ [step, access (n + 1)]

def multipleAccess (insn : Insn) : List Gadget :=
  let q := insn.getLsbD 30
  let load := insn.getLsbD 22
  let opcode : BitVec 4 := insn.extractLsb' 12 4
  let size : BitVec 2 := insn.extractLsb' 10 2
  let rt := rdOf insn
  if 0 < multipleRegs opcode then
    let bytes : Nat := if q then 16 else 8
    sequence (advanceAddr (BitVec.ofNat 64 bytes))
      (fun i => simdBySize load bytes (put (rt + BitVec.ofNat 5 i) 0)) (multipleRegs opcode)
  else
    let w :=
      put rt 0 ||| put (BitVec.ofNat 8 (interleaveRegs opcode)) 8 ||| put size 16 ||| bit q 24
    [if load then simdLoadInterleaved w else simdStoreInterleaved w]

def multipleCode (ip₀ : Word) (insn : Insn) : List Gadget :=
  let opcode : BitVec 4 := insn.extractLsb' 12 4
  if multipleRegs opcode = 0 ∧ interleaveRegs opcode = 0 then undefined ip₀
  else [calcAddrImm (packOffset (rnOf insn) 0)] ++ multipleAccess insn

/-- The writeback of the post-indexed structures: by the bytes moved, or by a register. -/
def postIndex (insn : Insn) (bytes : Nat) : Gadget :=
  if rmOf insn = 31#5 then updateBase (packOffset (rnOf insn) (BitVec.ofNat 64 bytes))
  else updateBaseReg (put (rnOf insn) 0 ||| put (rmOf insn) 8)

def multiplePostCode (ip₀ : Word) (insn : Insn) : List Gadget :=
  let opcode : BitVec 4 := insn.extractLsb' 12 4
  let regs := if multipleRegs opcode = 0 then interleaveRegs opcode else multipleRegs opcode
  if regs = 0 then undefined ip₀
  else
    [calcAddrImm (packOffset (rnOf insn) 0)] ++ multipleAccess insn ++
      [postIndex insn ((if insn.getLsbD 30 then 16 else 8) * regs)]

/-- `LD1R` to `LD4R`. -/
def replicateRegs (insn : Insn) : Nat :=
  if insn.extractLsb' 13 3 = 6#3 then (if insn.getLsbD 21 then 2 else 1)
  else if insn.getLsbD 21 then 4 else 3

def isReplicate (insn : Insn) : Bool :=
  insn.extractLsb' 14 2 == 3#2 && !insn.getLsbD 12 && insn.getLsbD 22

def replicateGadget (insn : Insn) : Gadget :=
  let size : BitVec 2 := insn.extractLsb' 10 2
  let w := put (rdOf insn) 0 ||| put size 8 ||| bit (insn.getLsbD 30) 16
  match replicateRegs insn with
  | 1 => ld1rVec w
  | 2 => ld2rVec w
  | 3 => ld3rVec w
  | _ => ld4rVec w

def singleRegs (insn : Insn) : Nat :=
  if insn.getLsbD 13 then (if insn.getLsbD 21 then 4 else 3)
  else if insn.getLsbD 21 then 2 else 1

def singleLane (insn : Insn) : Option (Nat × Nat) :=
  let q := (insn.extractLsb' 30 1).toNat
  let s := (insn.extractLsb' 12 1).toNat
  let size := (insn.extractLsb' 10 2).toNat
  match (insn.extractLsb' 14 2).toNat with
  | 0 => some (1, 8 * q + 4 * s + size)
  | 1 => if size % 2 = 0 then some (2, 4 * q + 2 * s + size / 2) else none
  | 2 => if size = 0 then some (4, 2 * q + s) else if size = 1 then some (8, q) else none
  | _ => none

def singleGadget (load : Bool) (n : Nat) (w : Word) : Gadget :=
  match n with
  | 1 => if load then ld1SingleB w else st1SingleB w
  | 2 => if load then ld1SingleH w else st1SingleH w
  | 4 => if load then ld1SingleS w else st1SingleS w
  | _ => if load then ld1SingleD w else st1SingleD w

def singleAccess (insn : Insn) (n lane : Nat) : List Gadget :=
  sequence (addrAddImm (BitVec.ofNat 64 n))
    (fun i => singleGadget (insn.getLsbD 22) n
      (put (rdOf insn + BitVec.ofNat 5 i) 0 ||| put (BitVec.ofNat 8 (lane * n)) 8))
    (singleRegs insn)

def singleCode (ip₀ : Word) (insn : Insn) : List Gadget :=
  let address := calcAddrImm (packOffset (rnOf insn) 0)
  if isReplicate insn then [address, replicateGadget insn]
  else
    match singleLane insn with
    | none => undefined ip₀
    | some (n, lane) => [address] ++ singleAccess insn n lane

def singlePostCode (ip₀ : Word) (insn : Insn) : List Gadget :=
  let address := calcAddrImm (packOffset (rnOf insn) 0)
  if isReplicate insn then
    [address, replicateGadget insn,
      postIndex insn (2 ^ (insn.extractLsb' 10 2).toNat * replicateRegs insn)]
  else
    match singleLane insn with
    | none => undefined ip₀
    | some (n, lane) =>
      [address] ++ singleAccess insn n lane ++ [postIndex insn (n * singleRegs insn)]

/-! ## `gen_ldst` and `gen_step` -/

/-- The gadgets of a load or store on its own, after the saved address. -/
def ldstCode (ip₀ : Word) (insn : Insn) : List Gadget :=
  if insn &&& 0x3f200c00#32 = 0x38200000#32 then genAtomicRmw ip₀ insn
  else if insn &&& 0x3f200c00#32 = 0x08200c00#32 ∧ insn.getLsbD 23 = false ∧
      (sizeOf insn).toNat ≤ 1 then genCasp insn
  else if insn &&& 0x3f200c00#32 = 0x08200c00#32 ∧ insn.getLsbD 23 = true then genCas insn
  else if insn &&& 0x3b000000#32 = 0x18000000#32 then genLiteral ip₀ insn
  else if insn &&& 0x3b000000#32 = 0x39000000#32 then unsignedImmCode ip₀ insn
  else if insn &&& 0x3b200c00#32 = 0x38200800#32 then regOffsetCode insn
  else if insn &&& 0x3a000000#32 = 0x28000000#32 then pairCode ip₀ insn
  else if insn &&& 0x3b200000#32 = 0x38000000#32 then imm9Code ip₀ insn
  else if insn &&& 0x3f000000#32 = 0x08000000#32 then exclusiveCode ip₀ insn
  else if insn &&& 0xbfbf0000#32 = 0x0c000000#32 then multipleCode ip₀ insn
  else if insn &&& 0xbfa00000#32 = 0x0c800000#32 then multiplePostCode ip₀ insn
  else if insn &&& 0xbf800000#32 = 0x0d000000#32 then singleCode ip₀ insn
  else if insn &&& 0xbf800000#32 = 0x0d800000#32 then singlePostCode ip₀ insn
  else undefined ip₀

def inlineLoad64Pc (insn : Insn) : Bool :=
  isLdr64 insn && rnOf insn != 31#5 && rdOf insn != 31#5

def savePc (ip₀ : Word) (insn : Insn) : List Gadget :=
  if inlineLoad64Pc insn then [] else [setJitSavedPc ip₀]

section Translator

variable (links : Links) (peek : Option Insn) (other : Word → Insn → List Plain)

def genLdst (ip₀ : Word) (insn : Insn) : Emit :=
  let ip := ip₀ + 4#64
  -- a fusion is only tried for integer loads with an unsigned immediate
  let fused :=
    if insn &&& 0x3b000000#32 = 0x39000000#32 ∧ insn.getLsbD 26 = false ∧
        ¬ (sizeOf insn = 3#2 ∧ opcOf insn = 2#2) then tryFuseLdr links peek ip₀ ip insn
    else none
  match fused with
  | some e => { e with code := savePc ip₀ insn ++ e.code }
  | none => { code := savePc ip₀ insn ++ ldstCode ip₀ insn, ip := ip }

/-- `arm64_classify_insn`, by bits 28 to 25. -/
def genStep (ip₀ : Word) (insn : Insn) : Emit :=
  match (insn.extractLsb' 25 4).toNat with
  | 8 | 9 => genDpImm links peek other ip₀ insn
  | 10 | 11 => genBranch links other ip₀ insn
  | 4 | 6 | 12 | 14 => genLdst links peek ip₀ insn
  | 5 | 13 => genDpReg links peek other ip₀ insn
  | _ => genOther other ip₀ insn

end Translator

end IosLinuxkit.Arm64
