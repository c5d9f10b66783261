import IosLinuxkit.Lib.Bitfield

/-!
# Threaded code: the frame and the plain gadgets

`src/asbestos/guest-arm64/gadgets-aarch64`. A block is a stream of gadgets, each followed by
its operand words. A gadget is a function of the frame here, and the stream a list of
gadgets already applied to their operands; what the operands pack, a gadget unpacks again
with the shifts of the assembly.

* `Frame` — the guest with the fields of `struct fiber_frame` and the scratch registers
  `_addr` and `_tmp` that carry a value from one gadget to the next.
-/

namespace IosLinuxkit.Arm64

open Bitfield

abbrev Word := BitVec 64

/-- Register numbers. In `struct cpu_state` the word after `regs[30]` is `sp`, so an indexed
access with 31 finds the stack pointer. -/
abbrev Reg := BitVec 5

/-! ## Memory -/

/-- Guest memory as `mmu_translate` lets a thread reach it, by page number. -/
structure Mem where
  byte : Nat → BitVec 8
  readable : Nat → Bool
  writable : Nat → Bool

/-- The value of `n` bytes, little-endian. -/
def Mem.value (m : Mem) (a : Nat) : Nat → Nat
  | 0 => 0
  | n + 1 => (m.byte a).toNat + 256 * m.value (a + 1) n

def Mem.load (m : Mem) (a n : Nat) : BitVec (8 * n) :=
  BitVec.ofNat (8 * n) (m.value a n)

def Mem.store (m : Mem) (a n v : Nat) : Mem :=
  { m with
    byte := fun b =>
      if a ≤ b ∧ b < a + n then BitVec.ofNat 8 (v >>> (8 * (b - a))) else m.byte b }

/-- Where an access of `n` bytes faults: `tlb->segfault_addr`. The page of the address is
looked up first, the next page only when the access crosses into it. -/
def fault (ok : Nat → Bool) (a n : Nat) : Option Nat :=
  if !ok (a / 4096) then some a
  else if 4096 - n < a % 4096 ∧ ok (a / 4096 + 1) = false then some ((a / 4096 + 1) * 4096)
  else none

def Mem.readFault (m : Mem) (a n : Nat) : Option Nat :=
  fault m.readable a n

def Mem.writeFault (m : Mem) (a n : Nat) : Option Nat :=
  fault m.writable a n

/-! ## The frame -/

structure Guest where
  x : Reg → Word
  nzcv : BitVec 32
  fp : Reg → BitVec 128
  mem : Mem

structure Frame extends Guest where
  pc : Word
  segfaultAddr : Word
  segfaultWasWrite : Bool
  jitSavedPc : Word
  /-- `LOCAL_value_addr`. -/
  valueAddr : Word
  exclAddr : Word
  exclVal : Word
  exclPairAddr : Word
  exclPairLo : Word
  exclPairHi : Word
  exclPairSize : BitVec 2
  /-- `_addr`. -/
  addr : Word
  /-- `_tmp`. -/
  tmp : Word

inductive Exit where
  | gret (f : Frame)
  /-- Through a jump slot, on to the guest address `next`. -/
  | leave (f : Frame) (next : Word)
  /-- `fiber_exit` with `INT_UNDEFINED`. -/
  | undef (f : Frame)
  /-- `fiber_exit` with `INT_GPF`. -/
  | gpf (f : Frame)

abbrev Gadget := Frame → Exit

/-- The stream is run gadget by gadget until one of them does not `gret`. -/
def run : List Gadget → Gadget
  | [], f => .gret f
  | g :: gs, f =>
    match g f with
    | .gret f' => run gs f'
    | e => e

def Exit.andThen (e : Exit) (k : Gadget) : Exit :=
  match e with
  | .gret f => k f
  | e => e

@[simp] theorem andThen_gret (f : Frame) (k : Gadget) : (Exit.gret f).andThen k = k f := rfl

theorem run_cons (g : Gadget) (gs : List Gadget) (f : Frame) :
    run (g :: gs) f = (g f).andThen (run gs) := by
  rw [run]
  cases g f <;> rfl

theorem run_append (gs gs' : List Gadget) (f : Frame) :
    run (gs ++ gs') f = (run gs f).andThen (run gs') := by
  induction gs generalizing f with
  | nil => rfl
  | cons g gs ih =>
    rw [List.cons_append, run_cons, run_cons]
    cases g f with
    | gret f' => exact ih f'
    | leave f' a => rfl
    | undef f' => rfl
    | gpf f' => rfl

/-! ## Registers -/

def reg (w : Word) (l : Nat) : Reg := w.extractLsb' l 5

def Frame.sp (f : Frame) : Word := f.x 31#5

/-- `str x, [_cpu + CPU_x0, r, lsl #3]`. -/
def Frame.setX (f : Frame) (r : Reg) (v : Word) : Frame :=
  { f with x := fun r' => if r' = r then v else f.x r' }

/-- The same, with register 31 read as the zero register: the value is dropped. -/
def Frame.setXz (f : Frame) (r : Reg) (v : Word) : Frame :=
  if r = 31#5 then f else f.setX r v

def Frame.getXz (f : Frame) (r : Reg) : Word :=
  if r = 31#5 then 0#64 else f.x r

def Frame.base (f : Frame) (r : Reg) : Word :=
  if r = 31#5 then f.sp else f.x r

@[simp] theorem base_eq (f : Frame) (r : Reg) : f.base r = f.x r := by
  unfold Frame.base Frame.sp
  split
  · rename_i h
    rw [h]
  · rfl

theorem setXz_of_ne (f : Frame) {r : Reg} (h : r ≠ 31#5) (v : Word) : f.setXz r v = f.setX r v :=
  if_neg h

theorem getXz_of_ne (f : Frame) {r : Reg} (h : r ≠ 31#5) : f.getXz r = f.x r :=
  if_neg h

def mask48 (w : Word) : Word := w &&& 0xffffffffffff#64

theorem toNat_mask48 (t : Word) : (mask48 t).toNat = t.toNat % 2 ^ 48 := by
  rw [mask48, BitVec.toNat_and]
  exact Nat.and_two_pow_sub_one_eq_mod t.toNat 48

/-! ## Memory accesses

On a miss, `read_bullshit` and `write_bullshit` hand the retry address of `jit_saved_pc` to
`handle_interrupt`; so do the page-crossing helpers of `entry.S`. -/

def gpfSaved (f : Frame) (bad : Nat) (write : Bool) : Exit :=
  .gpf { f with
    pc := f.jitSavedPc
    segfaultAddr := BitVec.ofNat 64 bad
    segfaultWasWrite := write }

def readPrep (f : Frame) (a : Word) (n : Nat) (k : Exit) : Exit :=
  match f.mem.readFault a.toNat n with
  | some bad => gpfSaved f bad false
  | none => k

def writePrep (f : Frame) (a : Word) (n : Nat) (k : Exit) : Exit :=
  match f.mem.writeFault a.toNat n with
  | some bad => gpfSaved f bad true
  | none => k

/-! ## Flags -/

structure Nzcv where
  n : Bool
  z : Bool
  c : Bool
  v : Bool

/-- `mrs x, nzcv`. -/
def Nzcv.mrs (h : Nzcv) : BitVec 32 :=
  put (BitVec.ofBool h.n) 31 ||| put (BitVec.ofBool h.z) 30 ||| put (BitVec.ofBool h.c) 29 |||
    put (BitVec.ofBool h.v) 28

/-- `msr nzcv, x`. -/
def msr (w : BitVec 32) : Nzcv :=
  { n := w.getLsbD 31, z := w.getLsbD 30, c := w.getLsbD 29, v := w.getLsbD 28 }

@[simp] theorem msr_mrs (h : Nzcv) : msr h.mrs = h := by
  obtain ⟨n, z, c, v⟩ := h
  cases n <;> cases z <;> cases c <;> cases v <;> rfl

/-- `b.<cond>`. -/
def cond (c : BitVec 4) (h : Nzcv) : Bool :=
  match c.toNat with
  | 0 => h.z
  | 1 => !h.z
  | 2 => h.c
  | 3 => !h.c
  | 4 => h.n
  | 5 => !h.n
  | 6 => h.v
  | 7 => !h.v
  | 8 => h.c && !h.z
  | 9 => !h.c || h.z
  | 10 => h.n == h.v
  | 11 => h.n != h.v
  | 12 => !h.z && h.n == h.v
  | 13 => h.z || h.n != h.v
  | _ => true

/-- The flags of `subs`. -/
def subsFlags {w : Nat} (a b : BitVec w) : Nzcv :=
  { n := (a - b).msb
    z := a - b == 0#w
    c := decide (b ≤ a)
    v := a.msb != b.msb && (a - b).msb != a.msb }

/-! ## Arithmetic gadgets -/

/-- `add`/`sub` on `x` or `w` registers. -/
def addSub (sf sub : Bool) (a b : Word) : Word :=
  if sf then
    if sub then a - b else a + b
  else
    let a := a.setWidth 32
    let b := b.setWidth 32
    (if sub then a - b else a + b).setWidth 64

/-- `subs` on `x` or `w` registers. -/
def subsNzcv (sf : Bool) (a b : Word) : Nzcv :=
  if sf then subsFlags a b else subsFlags (a.setWidth 32) (b.setWidth 32)

/-- `[rd | target<<8]`. -/
def adr (w : Word) : Gadget := fun f =>
  .gret (f.setXz (reg w 0) ((w.extractLsb' 8 48).setWidth 64))

/-- The immediate field `[16:27]`. -/
def imm12 (w : Word) (l : Nat) : Word := (w.extractLsb' l 12).setWidth 64

/-- `[rd | rn<<8 | imm12<<16]`. -/
def addSubImm (sf sub : Bool) (w : Word) : Gadget := fun f =>
  .gret (f.setX (reg w 0) (addSub sf sub (f.x (reg w 8)) (imm12 w 16)))

def addImm64 : Word → Gadget := addSubImm true false
def subImm64 : Word → Gadget := addSubImm true true
def addImm32 : Word → Gadget := addSubImm false false
def subImm32 : Word → Gadget := addSubImm false true

/-- `[rd | rn<<8 | imm12<<16]`; the flags are stored before the result. -/
def subsImm (sf : Bool) (w : Word) : Gadget := fun f =>
  let a := f.x (reg w 8)
  let b := imm12 w 16
  let f := { f with nzcv := (subsNzcv sf a b).mrs }
  .gret (f.setXz (reg w 0) (addSub sf true a b))

def subsImm64 : Word → Gadget := subsImm true
def subsImm32 : Word → Gadget := subsImm false

/-- `[rd | rn<<8 | rm<<16]`. -/
def subsReg64Nshift (w : Word) : Gadget := fun f =>
  let a := f.x (reg w 8)
  let b := f.x (reg w 16)
  let f := { f with nzcv := (subsFlags a b).mrs }
  .gret (f.setXz (reg w 0) (a - b))

def loadReg (w : Word) : Gadget := fun f => .gret { f with tmp := f.getXz (reg w 0) }

def storeReg (w : Word) : Gadget := fun f => .gret (f.setXz (reg w 0) f.tmp)

/-! ## Jump slots

A slot is emitted as a guest address with bit 63 set and may since have been patched to the
code of a block: `links w` is then the address of that block. -/

abbrev Links := Word → Option Word

/-- `inline_chain` and the unchained path after it: `CPU_pc` is stored either way. -/
def inlineChain (links : Links) (slot : Word) (f : Frame) : Exit :=
  let next := (links slot).getD (mask48 slot)
  .leave { f with pc := next } next

/-- The exits that go to `fiber_ret_chain` themselves: a chained slot leaves `CPU_pc` as it
was. -/
def retChain (links : Links) (slot : Word) (f : Frame) : Exit :=
  match links slot with
  | some next => .leave f next
  | none => .leave { f with pc := mask48 slot } (mask48 slot)

/-- `[target][fallthrough]` -/
def bcond (links : Links) (c : BitVec 4) (target fallthrough : Word) : Gadget := fun f =>
  inlineChain links (if cond c (msr f.nzcv) then target else fallthrough) f

/-- The test of `cbz`/`cbnz` on an `x` or a `w` register. -/
def cbTest (sf nz : Bool) (v : Word) : Bool :=
  (if sf then v == 0#64 else v.setWidth 32 == 0#32) != nz

/-- `[rt][target][fallthrough]` -/
def cbReg (sf nz : Bool) (links : Links) (rt target fallthrough : Word) : Gadget := fun f =>
  inlineChain links (if cbTest sf nz (f.x (reg rt 0)) then target else fallthrough) f

def cbz64 : Links → Word → Word → Word → Gadget := cbReg true false
def cbz32 : Links → Word → Word → Word → Gadget := cbReg false false
def cbnz64 : Links → Word → Word → Word → Gadget := cbReg true true
def cbnz32 : Links → Word → Word → Word → Gadget := cbReg false true

/-- The generic `cbz`/`cbnz`, `[rt | sf<<8][target][fallthrough]`: register 31 reads as
zero. -/
def cbGeneric (nz : Bool) (links : Links) (w target fallthrough : Word) : Gadget := fun f =>
  inlineChain links
    (if cbTest (w.getLsbD 8) nz (f.getXz (reg w 0)) then target else fallthrough) f

def cbz : Links → Word → Word → Word → Gadget := cbGeneric false
def cbnz : Links → Word → Word → Word → Gadget := cbGeneric true

/-- `gadget_branch`. -/
def branch (links : Links) (target : Word) : Gadget := inlineChain links target

def setPc (pc : Word) : Gadget := fun f => .gret { f with pc := pc }

/-- `gadget_interrupt` with `INT_UNDEFINED`. -/
def interrupt : Gadget := .undef

end IosLinuxkit.Arm64
