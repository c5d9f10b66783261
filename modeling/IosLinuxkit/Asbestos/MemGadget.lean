import IosLinuxkit.Asbestos.Gadget

/-!
# Memory gadgets

The gadgets of `memory.S` (and the vector loads and stores and `dc_zva` of `math.S`) that
`gen_ldst` emits for single instructions. A family that differs in width or extension is one
definition; the members stand below it under their own names.

Most accesses go through `readPrep` and `writePrep`. The gadgets that call a C helper of
`tlb.c` (`atomic_rmw`, `atomic_cas`, `atomic_casp`, `stxr`, `ldxp_c`, `stxp_c` and the
interleaved vector accesses) leave through a fault exit of their own (`gpfHelper`), which
does not touch `CPU_pc`.
-/

namespace IosLinuxkit.Arm64

open Bitfield

/-! ## Addresses -/

def setJitSavedPc (pc : Word) : Gadget := fun f => .gret { f with jitSavedPc := pc }

/-- `[rn | offset<<8]` -/
def calcAddrImm (w : Word) : Gadget := fun f =>
  let a := mask48 (f.base (reg w 0) + w.sshiftRight 8)
  .gret { f with addr := a, valueAddr := a }

def calcAddrPcRel (target : Word) : Gadget := fun f => .gret { f with addr := target }

/-- The extensions of a register offset: `UXTB` to `SXTX`. -/
def extend (option : BitVec 3) (v : Word) : Word :=
  match option.toNat with
  | 0 => (v.setWidth 8).setWidth 64
  | 1 => (v.setWidth 16).setWidth 64
  | 2 => (v.setWidth 32).setWidth 64
  | 4 => (v.setWidth 8).signExtend 64
  | 5 => (v.setWidth 16).signExtend 64
  | 6 => (v.setWidth 32).signExtend 64
  | _ => v

/-- `[rn | rm<<8 | option<<16 | shift<<24]` -/
def calcAddrReg (w : Word) : Gadget := fun f =>
  let index := extend (w.extractLsb' 16 3) (f.getXz (reg w 8))
  .gret { f with addr := mask48 (f.base (reg w 0) + index <<< (w.extractLsb' 24 3).toNat) }

def calcAddrBase (w : Word) : Gadget := fun f => .gret { f with addr := f.base (reg w 0) }

def advanceAddr (n : Word) : Gadget := fun f => .gret { f with addr := f.addr + n }

def addrAddImm (n : Word) : Gadget := fun f => .gret { f with addr := mask48 (f.addr + n) }

/-- `[rn | offset<<8]` -/
def updateBase (w : Word) : Gadget := fun f =>
  .gret (f.setX (reg w 0) (mask48 (f.base (reg w 0) + w.sshiftRight 8)))

/-- `[rn | rm<<8]` -/
def updateBaseReg (w : Word) : Gadget := fun f =>
  .gret (f.setX (reg w 0) (mask48 (f.base (reg w 0) + f.getXz (reg w 8))))

def writebackAddr (w : Word) : Gadget := fun f => .gret (f.setX (reg w 0) f.valueAddr)

def dmb : Gadget := .gret

/-! ## Loads and stores at `_addr` -/

def zx {n : Nat} (v : BitVec n) : Word := v.setWidth 64
def sx64 {n : Nat} (v : BitVec n) : Word := v.signExtend 64
def sx32 {n : Nat} (v : BitVec n) : Word := (v.signExtend 32).setWidth 64

/-- The body of the loads: `n` bytes at `a`, extended, for `k`. -/
def loadAt (n : Nat) (ext : BitVec (8 * n) → Word) (a : Word) (f : Frame) (k : Word → Frame) :
    Exit :=
  readPrep f a n (.gret (k (ext (f.mem.load a.toNat n))))

def storeAt (n : Nat) (a : Word) (v : Nat) (f : Frame) : Exit :=
  writePrep f a n (.gret { f with mem := f.mem.store a.toNat n v })

def loadTmp (n : Nat) (ext : BitVec (8 * n) → Word) : Gadget := fun f =>
  loadAt n ext f.addr f fun v => { f with tmp := v }

def load64 : Gadget := loadTmp 8 zx
def load32 : Gadget := loadTmp 4 zx
def load16 : Gadget := loadTmp 2 zx
def load8 : Gadget := loadTmp 1 zx
def load32Sx : Gadget := loadTmp 4 sx64
def load16Sx32 : Gadget := loadTmp 2 sx32
def load16Sx64 : Gadget := loadTmp 2 sx64
def load8Sx32 : Gadget := loadTmp 1 sx32
def load8Sx64 : Gadget := loadTmp 1 sx64

def storeTmp (n : Nat) : Gadget := fun f => storeAt n f.addr f.tmp.toNat f

def store64 : Gadget := storeTmp 8
def store32 : Gadget := storeTmp 4
def store16 : Gadget := storeTmp 2
def store8 : Gadget := storeTmp 1

/-! ## Unsigned-offset forms: `[rt | rn<<8 | offset<<16]` -/

def offsetAddr (w base : Word) : Word := mask48 (base + w >>> 16)

/-- Stack-pointer base and zero-register target are checked. -/
def loadImm (n : Nat) (ext : BitVec (8 * n) → Word) (w : Word) : Gadget := fun f =>
  loadAt n ext (offsetAddr w (f.base (reg w 8))) f (f.setXz (reg w 0))

def load64Imm : Word → Gadget := loadImm 8 zx
def load32Imm : Word → Gadget := loadImm 4 zx
def load16Imm : Word → Gadget := loadImm 2 zx
def load8Imm : Word → Gadget := loadImm 1 zx
def load32SxImm : Word → Gadget := loadImm 4 sx64

/-- No zero-register check; `load32_imm_fast` and `load8_imm_fast` still check the base. -/
def loadImmFast (n : Nat) (w : Word) : Gadget := fun f =>
  loadAt n zx (offsetAddr w (f.x (reg w 8))) f (f.setX (reg w 0))

def load32ImmFast (w : Word) : Gadget := fun f =>
  loadAt 4 zx (offsetAddr w (f.base (reg w 8))) f (f.setX (reg w 0))
def load16ImmFast : Word → Gadget := loadImmFast 2
def load8ImmFast (w : Word) : Gadget := fun f =>
  loadAt 1 zx (offsetAddr w (f.base (reg w 8))) f (f.setX (reg w 0))

/-- `[rt | rn<<8 | offset<<16][pc]`: the only one that saves its own retry address. -/
def load64ImmFast (w pc : Word) : Gadget := fun f =>
  loadImmFast 8 w { f with jitSavedPc := pc }

def loadSpImm (n : Nat) (w : Word) : Gadget := fun f =>
  loadAt n zx (offsetAddr w f.sp) f (f.setX (reg w 0))

def load64SpImm : Word → Gadget := loadSpImm 8
def load32SpImm : Word → Gadget := loadSpImm 4

def storeImm (n : Nat) (w : Word) : Gadget := fun f =>
  storeAt n (offsetAddr w (f.base (reg w 8))) (f.getXz (reg w 0)).toNat f

def store64Imm : Word → Gadget := storeImm 8
def store32Imm : Word → Gadget := storeImm 4
def store16Imm : Word → Gadget := storeImm 2
def store8Imm : Word → Gadget := storeImm 1

def storeImmFast (n : Nat) (w : Word) : Gadget := fun f =>
  storeAt n (offsetAddr w (f.x (reg w 8))) (f.x (reg w 0)).toNat f

def store64ImmFast : Word → Gadget := storeImmFast 8
def store32ImmFast : Word → Gadget := storeImmFast 4
def store16ImmFast : Word → Gadget := storeImmFast 2
def store8ImmFast : Word → Gadget := storeImmFast 1

def storeSpImm (n : Nat) (w : Word) : Gadget := fun f =>
  storeAt n (offsetAddr w f.sp) (f.x (reg w 0)).toNat f

def store64SpImm : Word → Gadget := storeSpImm 8
def store32SpImm : Word → Gadget := storeSpImm 4

/-! ## Register-offset forms: `[rt | rn<<8 | rm<<16 | shift<<24]` -/

def indexAddr (w : Word) (f : Frame) : Word :=
  mask48 (f.base (reg w 8) + f.getXz (reg w 16) <<< (w.extractLsb' 24 3).toNat)

def loadRegOff (n : Nat) (ext : BitVec (8 * n) → Word) (w : Word) : Gadget := fun f =>
  loadAt n ext (indexAddr w f) f (f.setXz (reg w 0))

def load64Reg : Word → Gadget := loadRegOff 8 zx
def load32Reg : Word → Gadget := loadRegOff 4 zx
def load16Reg : Word → Gadget := loadRegOff 2 zx
def load8Reg : Word → Gadget := loadRegOff 1 zx
def load32SxReg : Word → Gadget := loadRegOff 4 sx64

def storeRegOff (n : Nat) (w : Word) : Gadget := fun f =>
  storeAt n (indexAddr w f) (f.getXz (reg w 0)).toNat f

def store64Reg : Word → Gadget := storeRegOff 8
def store32Reg : Word → Gadget := storeRegOff 4
def store16Reg : Word → Gadget := storeRegOff 2
def store8Reg : Word → Gadget := storeRegOff 1

/-! ## Pairs -/

/-- Two elements of `n` bytes under one lookup of `2 * n`. -/
def loadPairAt (n : Nat) (ext : BitVec (8 * n) → Word) (a : Word) (f : Frame)
    (k : Word → Word → Frame) : Exit :=
  readPrep f a (2 * n)
    (.gret (k (ext (f.mem.load a.toNat n)) (ext (f.mem.load (a.toNat + n) n))))

def storePairAt (n : Nat) (a : Word) (v v2 : Nat) (f : Frame) : Exit :=
  writePrep f a (2 * n)
    (.gret { f with mem := (f.mem.store a.toNat n v).store (a.toNat + n) n v2 })

/-- `[rt | rt2<<8]` -/
def loadPair (n : Nat) (ext : BitVec (8 * n) → Word) (w : Word) : Gadget := fun f =>
  loadPairAt n ext f.addr f fun v v2 => (f.setXz (reg w 0) v).setXz (reg w 8) v2

def ldp64 : Word → Gadget := loadPair 8 zx
def ldp32 : Word → Gadget := loadPair 4 zx
def ldpsw : Word → Gadget := loadPair 4 sx64

def storePair (n : Nat) (w : Word) : Gadget := fun f =>
  storePairAt n f.addr (f.getXz (reg w 0)).toNat (f.getXz (reg w 8)).toNat f

def stp64 : Word → Gadget := storePair 8
def stp32 : Word → Gadget := storePair 4

/-- `[rt | rt2<<8 | rn<<16 | offset<<24]` -/
def pairAddr (w base : Word) : Word := mask48 (base + (w.extractLsb' 24 16).signExtend 64)

def loadPairImm (n : Nat) (ext : BitVec (8 * n) → Word) (w : Word) : Gadget := fun f =>
  loadPairAt n ext (pairAddr w (f.base (reg w 16))) f fun v v2 =>
    (f.setXz (reg w 0) v).setXz (reg w 8) v2

def ldp64Imm : Word → Gadget := loadPairImm 8 zx
def ldp32Imm : Word → Gadget := loadPairImm 4 zx
def ldpswImm : Word → Gadget := loadPairImm 4 sx64

def loadPairImmFast (n : Nat) (ext : BitVec (8 * n) → Word) (w : Word) : Gadget := fun f =>
  loadPairAt n ext (pairAddr w (f.x (reg w 16))) f fun v v2 =>
    (f.setX (reg w 0) v).setX (reg w 8) v2

def ldp64ImmFast : Word → Gadget := loadPairImmFast 8 zx
def ldp32ImmFast : Word → Gadget := loadPairImmFast 4 zx
def ldpswImmFast : Word → Gadget := loadPairImmFast 4 sx64

def storePairImm (n : Nat) (w : Word) : Gadget := fun f =>
  storePairAt n (pairAddr w (f.base (reg w 16))) (f.getXz (reg w 0)).toNat
    (f.getXz (reg w 8)).toNat f

def stp64Imm : Word → Gadget := storePairImm 8
def stp32Imm : Word → Gadget := storePairImm 4

def storePairImmFast (n : Nat) (w : Word) : Gadget := fun f =>
  storePairAt n (pairAddr w (f.x (reg w 16))) (f.x (reg w 0)).toNat (f.x (reg w 8)).toNat f

def stp64ImmFast : Word → Gadget := storePairImmFast 8
def stp32ImmFast : Word → Gadget := storePairImmFast 4

/-! ## Vector registers -/

def Frame.setFp (f : Frame) (r : Reg) (v : BitVec 128) : Frame :=
  { f with fp := fun r' => if r' = r then v else f.fp r' }

/-- `[rt]`; the rest of the register is cleared. -/
def ldrSimd (n : Nat) (w : Word) : Gadget := fun f =>
  readPrep f f.addr n (.gret (f.setFp (reg w 0) ((f.mem.load f.addr.toNat n).setWidth 128)))

def ldrSimdB : Word → Gadget := ldrSimd 1
def ldrSimdH : Word → Gadget := ldrSimd 2
def ldrSimdS : Word → Gadget := ldrSimd 4
def ldrSimdD : Word → Gadget := ldrSimd 8
def ldrSimdQ : Word → Gadget := ldrSimd 16

def strSimd (n : Nat) (w : Word) : Gadget := fun f =>
  storeAt n f.addr (f.fp (reg w 0)).toNat f

def strSimdB : Word → Gadget := strSimd 1
def strSimdH : Word → Gadget := strSimd 2
def strSimdS : Word → Gadget := strSimd 4
def strSimdD : Word → Gadget := strSimd 8
def strSimdQ : Word → Gadget := strSimd 16

/-- `[rt | rt2<<8]` -/
def ldpSimd (n : Nat) (w : Word) : Gadget := fun f =>
  readPrep f f.addr (2 * n)
    (.gret ((f.setFp (reg w 0) ((f.mem.load f.addr.toNat n).setWidth 128)).setFp (reg w 8)
      ((f.mem.load (f.addr.toNat + n) n).setWidth 128)))

def ldpSimdS : Word → Gadget := ldpSimd 4
def ldpSimdD : Word → Gadget := ldpSimd 8
def ldpSimdQ : Word → Gadget := ldpSimd 16

def stpSimd (n : Nat) (w : Word) : Gadget := fun f =>
  storePairAt n f.addr (f.fp (reg w 0)).toNat (f.fp (reg w 8)).toNat f

def stpSimdS : Word → Gadget := stpSimd 4
def stpSimdD : Word → Gadget := stpSimd 8
def stpSimdQ : Word → Gadget := stpSimd 16

/-- The bytes `[lane, lane + n)` of a vector register replaced. -/
def setLane (q : BitVec 128) (lane n : Nat) (v : BitVec (8 * n)) : BitVec 128 :=
  let mask := (BitVec.allOnes (8 * n)).setWidth 128 <<< (8 * lane)
  (q &&& ~~~mask) ||| v.setWidth 128 <<< (8 * lane)

/-- `[rt | lane_offset<<8]` -/
def ld1Single (n : Nat) (w : Word) : Gadget := fun f =>
  let rt := reg w 0
  readPrep f f.addr n
    (.gret (f.setFp rt (setLane (f.fp rt) (w.extractLsb' 8 8).toNat n
      (f.mem.load f.addr.toNat n))))

def ld1SingleB : Word → Gadget := ld1Single 1
def ld1SingleH : Word → Gadget := ld1Single 2
def ld1SingleS : Word → Gadget := ld1Single 4
def ld1SingleD : Word → Gadget := ld1Single 8

def st1Single (n : Nat) (w : Word) : Gadget := fun f =>
  storeAt n f.addr (f.fp (reg w 0) >>> (8 * (w.extractLsb' 8 8).toNat)).toNat f

def st1SingleB : Word → Gadget := st1Single 1
def st1SingleH : Word → Gadget := st1Single 2
def st1SingleS : Word → Gadget := st1Single 4
def st1SingleD : Word → Gadget := st1Single 8

/-- `dup`: an element in every lane, of 8 or of 16 bytes. -/
def dup (n : Nat) (v : BitVec (8 * n)) (q : Bool) : BitVec 128 :=
  (List.range ((if q then 16 else 8) / n)).foldl (fun r i => setLane r (n * i) n v) 0#128

/-- `[rt | size<<8 | Q<<16]`: `regs` elements under one lookup, each replicated. -/
def ldnrVec (regs : Nat) (w : Word) : Gadget := fun f =>
  let rt := reg w 0
  -- every size from 3 on is a doubleword
  let n := 2 ^ min (w.extractLsb' 8 8).toNat 3
  let q := decide ((w.extractLsb' 16 8) ≠ 0#8)
  readPrep f f.addr (regs * n)
    (.gret ((List.range regs).foldl
      (fun f' i => f'.setFp (rt + BitVec.ofNat 5 i)
        (dup n (f.mem.load (f.addr.toNat + n * i) n) q)) f))

def ld1rVec : Word → Gadget := ldnrVec 1
def ld2rVec : Word → Gadget := ldnrVec 2
def ld3rVec : Word → Gadget := ldnrVec 3
def ld4rVec : Word → Gadget := ldnrVec 4

/-! ## The load of an exclusive pair of instructions, and `DC ZVA` -/

/-- `[rt | size<<8]` -/
def ldxr (w : Word) : Gadget := fun f =>
  let n := 2 ^ (w.extractLsb' 8 2).toNat
  readPrep f f.addr n
    (let v : Word := zx (f.mem.load f.addr.toNat n)
     let f := { f with
       tmp := v
       exclAddr := f.addr
       exclVal := v
       exclPairAddr := BitVec.allOnes 64
       exclPairSize := 0#2 }
     .gret (f.setXz (reg w 0) v))

/-- `__tlb_zero` on the 64 bytes around the address; they lie on one page. -/
def dcZva (w : Word) : Gadget := fun f =>
  let a := mask48 (f.getXz (reg w 0)) &&& 0xffffffffffffffc0#64
  writePrep f a 64 (.gret { f with mem := f.mem.store a.toNat 64 0 })

/-! ## Accesses through a C helper

The helpers of `tlb.c` look up the pages of their pointers and return `-1` when one is
missing or the access is not aligned. The fault exits of these gadgets report the base
address and leave `CPU_pc` alone. -/

def gpfHelper (f : Frame) (a : Word) (write : Bool) : Exit :=
  .gpf { f with segfaultAddr := a, segfaultWasWrite := write }

/-- `__tlb_write_ptr`, `__tlb_read_ptr`: the page of one address. -/
def Mem.canWrite (m : Mem) (a : Nat) : Bool := m.writable (a / 4096)
def Mem.canRead (m : Mem) (a : Nat) : Bool := m.readable (a / 4096)

/-- `LDADD`, `LDCLR`, `LDEOR`, `LDSET`, `LDSMAX`, `LDSMIN`, `LDUMAX`, `LDUMIN`, `SWP`. -/
def rmw {n : Nat} (op : Nat) (old v : BitVec n) : BitVec n :=
  match op with
  | 0 => old + v
  | 1 => old &&& ~~~v
  | 2 => old ^^^ v
  | 3 => old ||| v
  | 4 => if v.slt old then old else v
  | 5 => if old.slt v then old else v
  | 6 => if v.ult old then old else v
  | 7 => if old.ult v then old else v
  | _ => v

/-- `[rs | size<<8 | op<<16]`; the old value is left in `_tmp`. -/
def atomicRmw (w : Word) : Gadget := fun f =>
  let a := f.addr.toNat
  let n := 2 ^ (w.extractLsb' 8 2).toNat
  let op := (w.extractLsb' 16 4).toNat
  if f.mem.canWrite a = true ∧ op ≤ 8 then
    let old := f.mem.load a n
    let v := (f.getXz (reg w 0)).setWidth (8 * n)
    .gret { f with mem := f.mem.store a n (rmw op old v).toNat, tmp := zx old }
  else gpfHelper f f.addr true

/-- `[rs | rt<<8 | size<<16]`; the old value is left in `_tmp`. -/
def atomicCas (w : Word) : Gadget := fun f =>
  let a := f.addr.toNat
  let n := 2 ^ (w.extractLsb' 16 2).toNat
  if f.mem.canWrite a = true then
    let old := f.mem.load a n
    let mem :=
      if old = (f.getXz (reg w 0)).setWidth (8 * n)
      then f.mem.store a n (f.getXz (reg w 8)).toNat else f.mem
    .gret { f with mem := mem, tmp := zx old }
  else gpfHelper f f.addr true

/-- The second register of a pair. The zero register has none, and neither does register 30. -/
def Frame.pairHi (f : Frame) (r : Reg) : Word :=
  if r = 31#5 then 0#64 else f.getXz (r + 1#5)

/-- `[rs | rt<<8 | size<<16]`, two elements of 4 or 8 bytes. -/
def atomicCasp (w : Word) : Gadget := fun f =>
  let a := f.addr.toNat
  let rs := reg w 0
  let rt := reg w 8
  let n := if w.extractLsb' 16 2 = 2#2 then 4 else 8
  if (n = 8 → a % 16 = 0) ∧ f.mem.canWrite a = true ∧ f.mem.canWrite (a + n) = true then
    let lo := f.mem.load a n
    let hi := f.mem.load (a + n) n
    let mem :=
      if lo = (f.getXz rs).setWidth (8 * n) ∧ hi = (f.pairHi rs).setWidth (8 * n)
      then (f.mem.store a n (f.getXz rt).toNat).store (a + n) n (f.pairHi rt).toNat else f.mem
    let f := { f with mem := mem }
    .gret (if rs = 31#5 then f else (f.setX rs (zx lo)).setXz (rs + 1#5) (zx hi))
  else gpfHelper f f.addr true

/-- `[rt | rs<<8 | size<<16]`: `c_stxr_cas`. -/
def stxr (w : Word) : Gadget := fun f =>
  let a := f.addr.toNat
  let n := 2 ^ (w.extractLsb' 16 2).toNat
  let none := BitVec.allOnes 64
  if f.exclAddr ≠ f.addr then
    .gret ({ f with exclAddr := none }.setXz (reg w 8) 1#64)
  else if f.mem.canWrite a = true then
    let same := f.mem.load a n = f.exclVal.setWidth (8 * n)
    let mem := if same then f.mem.store a n (f.getXz (reg w 0)).toNat else f.mem
    .gret ({ f with mem := mem, exclAddr := none }.setXz (reg w 8) (if same then 0#64 else 1#64))
  else gpfHelper { f with exclAddr := none } f.addr true

/-- `[rt | rt2<<8 | size<<16]`: `c_ldp32`, `c_ldp64`. -/
def ldxpC (w : Word) : Gadget := fun f =>
  let a := f.addr.toNat
  let size := w.extractLsb' 16 2
  let n := if size = 3#2 then 8 else 4
  if f.mem.canRead a = true ∧ f.mem.canRead (a + n) = true then
    let lo : Word := zx (f.mem.load a n)
    let hi : Word := zx (f.mem.load (a + n) n)
    let f := { f with
      exclPairAddr := f.addr
      exclPairLo := lo
      exclPairHi := hi
      exclPairSize := size
      exclAddr := BitVec.allOnes 64 }
    .gret ((f.setXz (reg w 0) lo).setXz (reg w 8) hi)
  else gpfHelper f f.addr false

/-- `[rs | rt<<8 | rt2<<16 | size<<24]`: `c_stxp_pair`. -/
def stxpC (w : Word) : Gadget := fun f =>
  let a := f.addr.toNat
  let size := w.extractLsb' 24 2
  let n := if size = 3#2 then 8 else 4
  let f' := { f with exclPairAddr := BitVec.allOnes 64, exclPairSize := 0#2 }
  if f.exclPairAddr ≠ f.addr ∨ f.exclPairSize ≠ size then
    .gret (f'.setXz (reg w 0) 1#64)
  else if f.mem.canWrite a = true ∧ (size = 2#2 ∨ size = 3#2) ∧ a % (2 * n) = 0 then
    let same :=
      f.mem.load a n = f.exclPairLo.setWidth (8 * n) ∧
        f.mem.load (a + n) n = f.exclPairHi.setWidth (8 * n)
    let mem :=
      if same then (f.mem.store a n (f.getXz (reg w 8)).toNat).store (a + n) n
        (f.getXz (reg w 16)).toNat
      else f.mem
    .gret ({ f' with mem := mem }.setXz (reg w 0) (if same then 0#64 else 1#64))
  else gpfHelper f' f.addr true

/-- Element `e` of register `r` in interleaved memory. -/
def interleaved (regs n e r : Nat) : Nat := (e * regs + r) * n

/-- `[rt | num_regs<<8 | elem_size<<16 | Q<<24]`: `c_simd_load_interleaved`. -/
def simdLoadInterleaved (w : Word) : Gadget := fun f =>
  let regs := (w.extractLsb' 8 8).toNat
  let n := 2 ^ (w.extractLsb' 16 8).toNat
  let elems := (if (w.extractLsb' 24 8) ≠ 0#8 then 16 else 8) / n
  let a := f.addr.toNat
  let total := regs * elems * n
  if total ≤ 64 ∧ regs ≤ 4 ∧ (w.extractLsb' 16 8).toNat ≤ 3 ∧ f.mem.readFault a total = none then
    .gret ((List.range regs).foldl
      (fun f' r => f'.setFp (reg w 0 + BitVec.ofNat 5 r)
        ((List.range elems).foldl
          (fun q e => setLane q (e * n) n (f.mem.load (a + interleaved regs n e r) n)) 0#128)) f)
  else gpfHelper f f.addr false

/-- `c_simd_store_interleaved`: the bytes are gathered first, then written. -/
def simdStoreInterleaved (w : Word) : Gadget := fun f =>
  let regs := (w.extractLsb' 8 8).toNat
  let n := 2 ^ (w.extractLsb' 16 8).toNat
  let elems := (if (w.extractLsb' 24 8) ≠ 0#8 then 16 else 8) / n
  let a := f.addr.toNat
  let total := regs * elems * n
  if total ≤ 64 ∧ regs ≤ 4 ∧ (w.extractLsb' 16 8).toNat ≤ 3 ∧ f.mem.writeFault a total = none then
    .gret { f with
      mem := (List.range regs).foldl
        (fun m r => (List.range elems).foldl
          (fun m e => m.store (a + interleaved regs n e r) n
            (f.fp (reg w 0 + BitVec.ofNat 5 r) >>> (8 * (e * n))).toNat) m) f.mem }
  else gpfHelper f f.addr true

end IosLinuxkit.Arm64
