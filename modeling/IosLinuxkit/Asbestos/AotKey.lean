import IosLinuxkit.Lib.A64

/-!
# Recorded translations and their keys

The model of the ahead-of-time part of `asbestos/guest-arm64/jit.c`: the key of a block
(`reg_key`), the compact key of a recorded translation, and the two ways a block gets one:
`aot_find`, at its own file offset, and `aot_fits_moved`, at another.

* The emitter writes an address as a distance from the base it was recorded at
  (`movGuest`, `movGuestRef`); the code adds it to what the context slot holds.
-/

namespace IosLinuxkit.Aot

open A64

/-! ## Blocks and units -/

/-- `sext(v, bits)`. -/
def sext (v : BitVec 64) (bits : Nat) : BitVec 64 := (v <<< (64 - bits)).sshiftRight (64 - bits)

abbrev jitMaxUnits : Nat := 1100

structure JitUnit where
  start : BitVec 32
  stop : BitVec 32
  pc : BitVec 64
  n : Nat
  follow : Bool
  last : Bool
  /-- `w[0]` and `w[1]` -/
  w : Nat → BitVec 32
  n_le : n ≤ 2

/-- Where a `b` of word `w` at `pc` goes. -/
def bTarget (w : BitVec 32) (pc : BitVec 64) : BitVec 64 := branchTarget pc w

/-- A block and its units, at file offset `off` of a mapping. `jit_step_end` records a
followed branch with the branch's own address, and the next step starts at its target. -/
structure Located where
  addr : BitVec 64
  off : BitVec 64
  used : Nat
  code : Nat → BitVec 64
  /-- the stream positions of `jump_ip[0]` and `jump_ip[1]` -/
  jumpIp : Nat → Option (BitVec 32)
  units : List JitUnit
  /-- the guest address of file offset `0` -/
  base : BitVec 64
  addr_eq : addr = base + off
  page_aligned : base.toNat % 4096 = 0
  units_le : units.length ≤ jitMaxUnits
  /-- the units of a block are within a page of its start -/
  near : ∀ u ∈ units, (u.pc - addr).toNat < 2 ^ 32
  followed : ∀ i u u', units[i]? = some u → units[i + 1]? = some u' → u.follow = true →
    u'.pc = bTarget (u.w 0) u.pc

def Located.gadget (b : Located) (u : JitUnit) : BitVec 64 :=
  if u.start.toNat < b.used then b.code u.start.toNat else 0#64

/-- The word offset of a block-ending branch, as `plan_loop` reads it. -/
def branchOff (x : BitVec 32) : Option (BitVec 64) :=
  if x &&& 0xFC000000#32 = 0x14000000#32 then some (sext ((x &&& 0x3ffffff#32).setWidth 64) 26)
  else if x &&& 0xFF000010#32 = 0x54000000#32 ∨ x &&& 0x7E000000#32 = 0x34000000#32 then
    some (sext ((x >>> 5 &&& 0x7ffff#32).setWidth 64) 19)
  else if x &&& 0x7E000000#32 = 0x36000000#32 then
    some (sext ((x >>> 5 &&& 0x3fff#32).setWidth 64) 14)
  else none

/-- Instruction `k` of a unit, and its address. -/
def JitUnit.insn (u : JitUnit) (k : Nat) : Option (BitVec 32 × BitVec 64) :=
  if k < u.n then some (u.w k, u.pc + BitVec.ofNat 64 (4 * k)) else none

def JitUnit.taken (u : JitUnit) : Option (BitVec 64) :=
  if u.last then (u.insn (u.n - 1)).bind fun p => (branchOff p.1).map fun off => p.2 + 4#64 * off
  else none

def Located.taken (b : Located) : Option (BitVec 64) :=
  (b.units[b.units.length - 1]?).bind JitUnit.taken

/-! ## Keys -/

def lo32 (v : BitVec 64) : BitVec 32 := v.setWidth 32

def hi32 (v : BitVec 64) : BitVec 32 := (v >>> 32).setWidth 32

/-- `lo | (uint64_t) hi << 32`. -/
def join32 (lo hi : BitVec 32) : BitVec 64 := lo.setWidth 64 ||| hi.setWidth 64 <<< 32

/-- `u->n | (uint32_t) u->follow << 8 | (uint32_t) u->last << 16`. -/
def JitUnit.shape (u : JitUnit) : BitVec 32 :=
  BitVec.ofNat 32 u.n ||| (BitVec.ofBool u.follow).setWidth 32 <<< 8 |||
    (BitVec.ofBool u.last).setWidth 32 <<< 16

def Located.unitKey (b : Located) (u : JitUnit) : List (BitVec 32) :=
  let dpc := u.pc - b.addr
  let g := b.gadget u
  [u.start, u.stop, u.shape, lo32 dpc, hi32 dpc, u.w 0, u.w 1, lo32 g, hi32 g]

def Located.header (b : Located) (mod : BitVec 32) : List (BitVec 32) :=
  [mod, lo32 b.off, hi32 b.off, lo32 (b.addr &&& 0xfff#64), BitVec.ofNat 32 b.units.length,
    (b.jumpIp 0).getD 0xffffffff#32, (b.jumpIp 1).getD 0xffffffff#32]

def regKey (b : Located) (mod : BitVec 32) : List (BitVec 32) :=
  b.header mod ++ b.units.flatMap b.unitKey

/-- `struct aot_trans`, less what its code is made of; `loop` tells a self-loop. -/
structure AotTrans where
  off : BitVec 64
  nkey : Nat
  /-- the compact key: six words a unit -/
  key : List (BitVec 32)
  gadget : List (BitVec 64)
  nunits : Nat
  loop : Bool

def Located.unitCompact (b : Located) (u : JitUnit) : List (BitVec 32) :=
  [u.start, u.stop, u.shape, lo32 (u.pc - b.addr), u.w 0, u.w 1]

def record (b : Located) (loop : Bool) : AotTrans :=
  { off := b.off
    nkey := (regKey b 0).length
    key := b.header 0 ++ b.units.flatMap b.unitCompact
    gadget := b.units.map b.gadget
    nunits := b.units.length
    loop := loop }

/-- A block and whether it was translated as a self-loop, which `plan_loop` does only for a
block whose taken branch goes to its start. -/
structure Recording where
  src : Located
  loop : Bool
  loop_ok : loop = true → src.taken = some src.addr

def Recording.trans (r : Recording) : AotTrans := record r.src r.loop

/-- Word `i` of a key. -/
def word (k : List (BitVec 32)) (i : Nat) : BitVec 32 := k.getD i 0#32

def keyIsGadget (i : Nat) : Bool := decide (7 ≤ i) && decide (7 ≤ (i - 7) % 9)

def keyIsInsn (i : Nat) : Bool :=
  decide (7 ≤ i) && (decide ((i - 7) % 9 = 5) || decide ((i - 7) % 9 = 6))

/-- The table of `aot_key_word`: where a word of a unit is in the compact key. -/
def keyAt : Nat → Option Nat
  | 0 => some 0
  | 1 => some 1
  | 2 => some 2
  | 3 => some 3
  | 5 => some 4
  | 6 => some 5
  | _ => none

def aotKeyWord (t : AotTrans) (i : Nat) : BitVec 32 :=
  if i < 7 then word t.key i
  else
    match keyAt ((i - 7) % 9) with
    | none => 0#32
    | some j => word t.key (7 + 6 * ((i - 7) / 9) + j)

/-! ## A block at its recorded offset -/

def aotKeySame (t : AotTrans) (k : List (BitVec 32)) (nkey : Nat) : Bool :=
  ((List.range' 1 6).all fun i => decide (nkey ≤ i) || word t.key i == word k i) &&
    (List.range ((nkey - 7) / 9)).all fun q =>
      let u := 7 + 9 * q
      let c := 7 + 6 * q
      word k u == word t.key c && word k (u + 1) == word t.key (c + 1) &&
        word k (u + 2) == word t.key (c + 2) && word k (u + 3) == word t.key (c + 3) &&
        word k (u + 4) == 0#32 && word k (u + 5) == word t.key (c + 4) &&
        word k (u + 6) == word t.key (c + 5)

def gadgetsSame (t : AotTrans) (b : Located) : Bool :=
  (List.range b.units.length).all fun i =>
    t.gadget.getD i 0#64 == ((b.units[i]?).map b.gadget).getD 0#64

structure AotOffidx where
  first : List Nat
  lo : BitVec 64
  nb : Nat
  shift : Nat

/-- The binary search of `aot_find`. -/
def lowerBound (trans : List AotTrans) (off : BitVec 64) (lo hi : Nat) : Nat :=
  if lo < hi then
    let mid := (lo + hi) / 2
    if ((trans[mid]?).map AotTrans.off).any fun o => decide (o.toNat < off.toNat) then
      lowerBound trans off (mid + 1) hi
    else lowerBound trans off lo mid
  else lo
termination_by hi - lo

/-- The loop of `aot_find` over the translations at the offset. -/
def aotFindAt (trans : List AotTrans) (off : BitVec 64) (b : Located) (key : List (BitVec 32)) :
    Option AotTrans :=
  (trans.takeWhile fun t => t.off == off).find? fun t =>
    t.nkey == key.length && t.nunits == b.units.length && aotKeySame t key key.length &&
      gadgetsSame t b

/-- `aot_find`; `trans` is the image's, `x` its index by offset if it has one. -/
def aotFind (trans : List AotTrans) (x : Option AotOffidx) (b : Located)
    (key : List (BitVec 32)) : Option AotTrans :=
  let off := join32 (word key 1) (word key 2)
  match x with
  | none => aotFindAt (trans.drop (lowerBound trans off 0 trans.length)) off b key
  | some x =>
    let bk := (off - x.lo).toNat >>> x.shift
    if off.toNat < x.lo.toNat || decide (x.nb ≤ bk) then none
    else
      aotFindAt (trans.drop (lowerBound trans off (x.first.getD bk 0) (x.first.getD (bk + 1) 0)))
        off b key

/-! ## A block that moved -/

def isAdr (w : BitVec 32) : Bool := w &&& 0x1F000000#32 == 0x10000000#32

/-- The bits of a guest word that `insn_norm` keeps. -/
def normMask (w : BitVec 32) : BitVec 32 :=
  if w &&& 0x7C000000#32 = 0x14000000#32 then 0xFC000000#32
  else if w &&& 0xFF000010#32 = 0x54000000#32 then 0xFF00001F#32
  else if w &&& 0x7E000000#32 = 0x34000000#32 then 0xFF00001F#32
  else if w &&& 0x7E000000#32 = 0x36000000#32 then 0xFFF8001F#32
  else if w &&& 0x1F000000#32 = 0x10000000#32 then 0x9F00001F#32
  else 0xFFFFFFFF#32

def insnNorm (w : BitVec 32) : BitVec 32 := w &&& normMask w

/-- The immediate of an `adr` or `adrp`. -/
def adrImm (w : BitVec 32) : BitVec 64 :=
  sext ((((w >>> 5) &&& 0x7ffff#32) <<< 2 ||| ((w >>> 29) &&& 3#32)).setWidth 64) 21

def adrTarget (w : BitVec 32) (pc : BitVec 64) : BitVec 64 :=
  if w &&& 0x80000000#32 ≠ 0#32 then (pc &&& ~~~0xfff#64) + adrImm w <<< 12 else pc + adrImm w

/-- The first loop of `aot_fits_moved`: word `i` of the two keys. -/
def wordFits (t : AotTrans) (k : List (BitVec 32)) (i : Nat) : Bool :=
  if keyIsGadget i then true
  else if !keyIsInsn i || t.loop then aotKeyWord t i == word k i
  else insnNorm (aotKeyWord t i) == insnNorm (word k i)

/-- The second loop of `aot_fits_moved`, for instruction `j` of unit `u`: the state is `have`
and `shift`. -/
def adrStep (t : AotTrans) (k : List (BitVec 32)) (off : BitVec 64) (s : Bool × BitVec 64)
    (p : Nat × Nat) : Option (Bool × BitVec 64) :=
  let ku := 7 + 9 * p.1
  let w := word k (ku + 5 + p.2)
  if !isAdr w then some s
  else
    let dpc := join32 (word k (ku + 3)) (word k (ku + 4))
    let at4 := dpc + BitVec.ofNat 64 (4 * p.2)
    let d := adrTarget w (off + at4) - adrTarget (aotKeyWord t (ku + 5 + p.2)) (t.off + at4)
    if s.1 && d != s.2 then none else some (true, d)

def adrSites (k : List (BitVec 32)) : List (Nat × Nat) :=
  (List.range (word k 4).toNat).flatMap fun u =>
    (List.range (min (word k (7 + 9 * u + 2) &&& 0xff#32).toNat 2)).map fun j => (u, j)

/-- `aot_fits_moved`: the `dbase` it returns. -/
def aotFitsMoved (t : AotTrans) (k : List (BitVec 32)) (nkey : Nat) (b : Located) :
    Option (BitVec 64) :=
  if (List.range' 4 (nkey - 4)).all (wordFits t k) then
    ((adrSites k).foldlM (adrStep t k b.off) (false, b.off - t.off)).map fun s =>
      b.addr - b.off + s.2
  else none

/-! ## Guest addresses in the emitted code -/

/-- Where `mov_guest` and `mov_guest_ref` find an address: relative to the slot's `base`, or
to its `dbase`. -/
inductive Operand where
  | base (d : BitVec 64)
  | dbase (d : BitVec 64)
  deriving DecidableEq, Repr

def movGuest (base v : BitVec 64) : Operand := .base (v - base)

def movGuestRef (base v : BitVec 64) : Operand := .dbase (v - base)

def Operand.eval (base dbase : BitVec 64) : Operand → BitVec 64
  | .base d => base + d
  | .dbase d => dbase + d

/-- What an instruction needs a guest address for. -/
inductive Use where
  /-- the address of an access, for the fault checkpoint -/
  | faultPc
  /-- the return address of `bl` and `blr` -/
  | returnPc
  /-- the address of an `ldr` literal; there is no native form of it yet -/
  | literal
  /-- the result of `adr` and `adrp` -/
  | adr

/-- A guest address that the code of a block needs. -/
inductive Const where
  /-- the block's start, stored to `pc` on the way out -/
  | blockPc
  /-- for instruction `k` of unit `i` -/
  | insn (use : Use) (i k : Nat)

def isCall (w : BitVec 32) : Bool :=
  w &&& 0xFC000000#32 == 0x94000000#32 || w &&& 0xFFFFFC1F#32 == 0xD63F0000#32

def isLiteral (w : BitVec 32) : Bool := w &&& 0x3B000000#32 == 0x18000000#32

def literalTarget (w : BitVec 32) (pc : BitVec 64) : BitVec 64 :=
  pc + sext (((w >>> 5) &&& 0x7ffff#32).setWidth 64) 19 <<< 2

def Use.value (use : Use) (p : BitVec 32 × BitVec 64) : Option (BitVec 64) :=
  match use with
  | .faultPc => some p.2
  | .returnPc => if isCall p.1 then some (p.2 + 4#64) else none
  | .literal => if isLiteral p.1 then some (literalTarget p.1 p.2) else none
  | .adr => if isAdr p.1 then some (adrTarget p.1 p.2) else none

def Const.value (b : Located) : Const → Option (BitVec 64)
  | .blockPc => some b.addr
  | .insn use i k => ((b.units[i]?).bind (JitUnit.insn · k)).bind use.value

/-- The emitter writes the target of an `adr` through `mov_guest_ref`, all else through
`mov_guest`. -/
def Const.operand (base : BitVec 64) : Const → BitVec 64 → Operand
  | .insn .adr _ _, v => movGuestRef base v
  | _, v => movGuest base v

def Const.emitted (b : Located) (c : Const) : Option Operand :=
  (c.value b).map (c.operand b.base)

end IosLinuxkit.Aot
