import IosLinuxkit.Kernel.TlbPtr
import IosLinuxkit.Lib.Layout

/-!
# The atomic helpers

`c_atomic_rmw`, `c_atomic_cas`, `c_stxr_cas`, `c_stxp_pair` and `c_casp_pair` of
`src/emu/tlb.c`. A helper asks for host pointers and accesses memory through them; each access
is kept with the guest address whose pointer it went through.
-/

namespace IosLinuxkit.Atomics

open Kernel Layout

abbrev Word := BitVec 64

/-! ## Accesses -/

/-- `len` bytes at `ptr`, which is the pointer for the guest address `addr`. -/
structure Touch where
  addr : Word
  ptr : HostPtr
  len : Nat

structure Exec where
  st : TlbState
  touched : List Touch

/-- What `mem_ptr` depends on: whether it is called from the JIT, and the limit of the stack. -/
structure Env where
  inJit : Bool
  limit : Option Nat

def Exec.writePtr (env : Env) (addr : Word) (x : Exec) : Exec × Option HostPtr :=
  let r := tlbWritePtr env.inJit env.limit addr.toNat x.st
  ({ x with st := r.1 }, r.2)

def hostBuf (h : Host) (ptr : HostPtr) : Buffer := fun i =>
  (h.bytes ptr.data (ptr.offset + i)).toBitVec

def leBytes {w : Nat} (v : BitVec w) : List UInt8 :=
  (List.range (w / 8)).map fun i => ⟨v.extractLsb' (8 * i) 8⟩

def Exec.load (addr : Word) (ptr : HostPtr) (w : Nat) (x : Exec) : Exec × BitVec w :=
  ({ x with touched := ⟨addr, ptr, w / 8⟩ :: x.touched }, get 0 w (hostBuf x.st.vm.host ptr))

def Exec.store (addr : Word) (ptr : HostPtr) {w : Nat} (v : BitVec w) (x : Exec) : Exec :=
  { st := { x.st with vm := { x.st.vm with host := x.st.vm.host.write ptr (leBytes v) } }
    touched := ⟨addr, ptr, w / 8⟩ :: x.touched }

/-- One atomic access: the value is read, and perhaps another one stored. -/
def Exec.atomic (addr : Word) (ptr : HostPtr) {w : Nat} (f : BitVec w → Option (BitVec w))
    (x : Exec) : Exec × BitVec w :=
  let r := x.load addr ptr w
  match f r.2 with
  | some v => (r.1.store addr ptr v, r.2)
  | none => r

/-! ## The helpers -/

/-- What a helper returns, and the values it has written to its outputs. -/
structure Reply where
  ret : Int
  out : List Word
  deriving DecidableEq

def fault : Reply := ⟨-1, []⟩

def rmwValue (op : Nat) {w : Nat} (old val : BitVec w) : BitVec w :=
  match op with
  | 0 => old + val
  | 1 => old &&& ~~~val
  | 2 => old ^^^ val
  | 3 => old ||| val
  | 4 => if val.slt old then old else val
  | 5 => if old.slt val then old else val
  | 6 => if val < old then old else val
  | 7 => if old < val then old else val
  | _ => val

/-- The `switch (op)` of one size. -/
def rmwSized (addr : Word) (ptr : HostPtr) (value : Word) (op w : Nat) (x : Exec) : Exec × Reply :=
  if op ≤ 8 then
    let r := x.atomic addr ptr fun old : BitVec w => some (rmwValue op old (value.setWidth w))
    (r.1, ⟨0, [r.2.setWidth 64]⟩)
  else (x, fault)

/-- The `switch (size)` of a helper, over the width. -/
def sized (size : Nat) (f : Nat → Exec → Exec × Reply) (x : Exec) : Exec × Reply :=
  match size with
  | 0 => f 8 x
  | 1 => f 16 x
  | 2 => f 32 x
  | 3 => f 64 x
  | _ => (x, fault)

def withPtr (env : Env) (addr : Word) (f : HostPtr → Exec → Exec × Reply) (x : Exec) :
    Exec × Reply :=
  match x.writePtr env addr with
  | (x, none) => (x, fault)
  | (x, some ptr) => f ptr x

/-- `oldOut` is whether there is a place for the old value. -/
def cAtomicRmw (env : Env) (addr value : Word) (size op : Nat) (oldOut : Bool) (x : Exec) :
    Exec × Reply :=
  if oldOut = false then (x, fault)
  else withPtr env addr (fun ptr => sized size (rmwSized addr ptr value op)) x

/-- `__atomic_compare_exchange_n` -/
def cas {w : Nat} (expected desired : BitVec w) (old : BitVec w) : Option (BitVec w) :=
  if old = expected then some desired else none

def cAtomicCas (env : Env) (addr expected desired : Word) (size : Nat) (oldOut : Bool) (x : Exec) :
    Exec × Reply :=
  if oldOut = false then (x, fault)
  else
    withPtr env addr (fun ptr => sized size fun w x =>
      let r := x.atomic addr ptr (cas (expected.setWidth w) (desired.setWidth w))
      (r.1, ⟨0, [r.2.setWidth 64]⟩)) x

def exchanged {w : Nat} (addr : Word) (ptr : HostPtr) (expected desired : BitVec w) (x : Exec) :
    Exec × Reply :=
  let r := x.atomic addr ptr (cas expected desired)
  (r.1, ⟨if r.2 = expected then 0 else 1, []⟩)

def cStxrCas (env : Env) (addr expectedVal newVal : Word) (size : Nat) (x : Exec) : Exec × Reply :=
  withPtr env addr (fun ptr => sized size fun w =>
    exchanged addr ptr (expectedVal.setWidth w) (newVal.setWidth w)) x

def cStxpPair (env : Env) (addr expectedLo expectedHi newLo newHi : Word) (size : Nat) (x : Exec) :
    Exec × Reply :=
  withPtr env addr (fun ptr x =>
    if size = 2 then
      if addr &&& 7 ≠ 0 then (x, fault)
      else exchanged addr ptr (expectedHi.setWidth 32 ++ expectedLo.setWidth 32 : BitVec 64)
        (newHi.setWidth 32 ++ newLo.setWidth 32) x
    else if size = 3 then
      if addr &&& 0xf ≠ 0 ∨ pageSize < pgOffset addr.toNat + 16 then (x, fault)
      else exchanged addr ptr (expectedHi ++ expectedLo : BitVec 128) (newHi ++ newLo) x
    else (x, fault)) x

/-- The two halves of `w` bits, with `pair_atomic_lock` held. -/
def caspSized (env : Env) (addr oldLo oldHi newLo newHi : Word) (w : Nat) (x : Exec) :
    Exec × Reply :=
  let addr2 := addr + BitVec.ofNat 64 (w / 8)
  let r1 := x.writePtr env addr
  let r2 := r1.1.writePtr env addr2
  match r1.2, r2.2 with
  | some ptr1, some ptr2 =>
    let lo := r2.1.load addr ptr1 w
    let hi := lo.1.load addr2 ptr2 w
    let x :=
      if lo.2 = oldLo.setWidth w ∧ hi.2 = oldHi.setWidth w then
        (hi.1.store addr ptr1 (newLo.setWidth w)).store addr2 ptr2 (newHi.setWidth w)
      else hi.1
    (x, ⟨0, [lo.2.setWidth 64, hi.2.setWidth 64]⟩)
  | _, _ => (r2.1, fault)

def cCaspPair (env : Env) (addr oldLo oldHi newLo newHi : Word) (size : Nat) (x : Exec) :
    Exec × Reply :=
  if size = 3 ∧ addr &&& 0xf ≠ 0 then (x, fault)
  else if size = 2 then caspSized env addr oldLo oldHi newLo newHi 32 x
  else if size = 3 then caspSized env addr oldLo oldHi newLo newHi 64 x
  else (x, fault)

/-! ## Calls -/

inductive Call where
  | rmw (addr value : Word) (size op : Nat) (oldOut : Bool)
  | cas (addr expected desired : Word) (size : Nat) (oldOut : Bool)
  | stxr (addr expectedVal newVal : Word) (size : Nat)
  | stxp (addr expectedLo expectedHi newLo newHi : Word) (size : Nat)
  | casp (addr oldLo oldHi newLo newHi : Word) (size : Nat)

def Call.run (env : Env) : Call → Exec → Exec × Reply
  | .rmw addr value size op oldOut => cAtomicRmw env addr value size op oldOut
  | .cas addr expected desired size oldOut => cAtomicCas env addr expected desired size oldOut
  | .stxr addr expectedVal newVal size => cStxrCas env addr expectedVal newVal size
  | .stxp addr expectedLo expectedHi newLo newHi size =>
    cStxpPair env addr expectedLo expectedHi newLo newHi size
  | .casp addr oldLo oldHi newLo newHi size => cCaspPair env addr oldLo oldHi newLo newHi size

def Call.addr : Call → Word
  | .rmw addr _ _ _ _ | .cas addr _ _ _ _ | .stxr addr _ _ _ | .stxp addr _ _ _ _ _
  | .casp addr _ _ _ _ _ => addr

/-- The pieces of the operand: the address whose pointer a piece is accessed through, and its
bytes. -/
def Call.pieces : Call → List (Word × Nat)
  | .rmw addr _ size _ _ | .cas addr _ _ size _ | .stxr addr _ _ size => [(addr, 2 ^ size)]
  | .stxp addr _ _ _ _ size => [(addr, 2 * 2 ^ size)]
  | .casp addr _ _ _ _ size => [(addr, 2 ^ size), (addr + BitVec.ofNat 64 (2 ^ size), 2 ^ size)]

def Call.bytes : Call → Nat
  | .rmw _ _ size _ _ | .cas _ _ _ size _ | .stxr _ _ _ size => 2 ^ size
  | .stxp _ _ _ _ _ size | .casp _ _ _ _ _ size => 2 * 2 ^ size

end IosLinuxkit.Atomics
