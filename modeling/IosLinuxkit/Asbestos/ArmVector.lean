import IosLinuxkit.Lib.Clmul
import IosLinuxkit.Lib.Lanes

/-!
# Vector instructions of the architecture

What the Arm pseudocode defines for the instructions that the software helpers stand for, as
functions of the operands before the instruction. `elem w e v` is `Elem[v, e, w]`, and
`setElem e x` an assignment to it.
-/

namespace IosLinuxkit.ArmVector

open Lanes Clmul

abbrev V128 := BitVec 128

/-- A vector register. -/
structure VReg where
  num : Nat
  lt : num < 32
  deriving DecidableEq

/-- `(n + i) MOD 32` -/
def VReg.next (n : VReg) (i : Nat) : VReg := ⟨(n.num + i) % 32, Nat.mod_lt _ (by decide)⟩

abbrev VFile := VReg → V128

/-! ## Lane by lane -/

def eor3 (n m a : V128) : V128 := n ^^^ m ^^^ a

def xarD (n m : V128) (rotate : Nat) : V128 :=
  (List.range 2).foldl
    (fun result e => setElem e ((elem 64 e n ^^^ elem 64 e m).rotateRight rotate) result) 0

/-- The permutation that ends each lane of the message expansion. -/
def p1 (x : BitVec 32) : BitVec 32 := x ^^^ (x.rotateLeft 15 ^^^ x.rotateLeft 23)

/-- The last lane takes the first one as it has become. -/
def sm3partw1 (d n m : V128) : V128 :=
  let eor := d ^^^ n
  let result := setElem 0 (elem 32 0 eor ^^^ (elem 32 1 m).rotateLeft 15) 0
  let result := setElem 1 (elem 32 1 eor ^^^ (elem 32 2 m).rotateLeft 15) result
  let result := setElem 2 (elem 32 2 eor ^^^ (elem 32 3 m).rotateLeft 15) result
  (List.range 4).foldl
    (fun result i =>
      let result :=
        if i = 3 then setElem 3 (elem 32 3 eor ^^^ (elem 32 0 result).rotateLeft 15) result
        else result
      setElem i (p1 (elem 32 i result)) result) result

/-! ## SM4

The S-box is an inversion in the field of 256 elements between two affine maps. -/

/-- By `x`, modulo `x⁸ + x⁷ + x⁶ + x⁵ + x⁴ + x² + 1`. -/
def gfDouble (a : BitVec 8) : BitVec 8 := if a.msb then a <<< 1 ^^^ 0xf5#8 else a <<< 1

def gfMul (a c : BitVec 8) : BitVec 8 :=
  (List.range 8).foldr (fun i r => gfDouble r ^^^ if c.getLsbD i then a else 0#8) 0#8

/-- `a ^ 254`, with the powers `2, 4, …, 128` of `a` on the left. -/
def gfInv (a : BitVec 8) : BitVec 8 :=
  ((List.range 7).foldl (fun (p : BitVec 8 × BitVec 8) _ =>
    (gfMul p.1 p.1, gfMul p.2 (gfMul p.1 p.1))) (a, 1#8)).2

def sm4Affine (x : BitVec 8) : BitVec 8 :=
  x ^^^ x.rotateRight 1 ^^^ x.rotateRight 2 ^^^ x.rotateRight 5 ^^^ x.rotateRight 7 ^^^ 0xd3#8

def sbox (x : BitVec 8) : BitVec 8 := sm4Affine (gfInv (sm4Affine x))

/-- `Sbox` on each byte of a word. -/
def sboxWord (x : BitVec 32) : BitVec 32 :=
  (List.range 4).foldl (fun v i => setElem i (sbox (elem 8 i v)) v) x

def sm4eStep (n : V128) (result : V128) (index : Nat) : V128 :=
  let roundkey := elem 32 index n
  let intval := elem 32 3 result ^^^ elem 32 2 result ^^^ elem 32 1 result ^^^ roundkey
  let intval := sboxWord intval
  let intval := intval ^^^ intval.rotateLeft 2 ^^^ intval.rotateLeft 10 ^^^
    intval.rotateLeft 18 ^^^ intval.rotateLeft 24
  let intval := intval ^^^ elem 32 0 result
  let result := setElem 0 (elem 32 1 result) result
  let result := setElem 1 (elem 32 2 result) result
  let result := setElem 2 (elem 32 3 result) result
  setElem 3 intval result

def sm4e (d n : V128) : V128 := (List.range 4).foldl (sm4eStep n) d

/-! ## Polynomial products -/

def polynomialMult {w : Nat} (a c : BitVec w) : BitVec (w + w) := clmul (w + w) a c

/-- `Vpart[n, part]` of 64 bits. -/
def vpart (part : Bool) (v : V128) : BitVec 64 := elem 64 (if part then 1 else 0) v

def pmull (esize : Nat) (part : Bool) (n m : V128) : V128 :=
  (List.range (64 / esize)).foldl
    (fun result e =>
      setElem e (polynomialMult (elem esize e (vpart part n)) (elem esize e (vpart part m))) result)
    0

/-! ## Table lookups -/

/-- The table: `regs` registers from `n`. -/
def table (V : VFile) (n : VReg) (regs : Nat) : BitVec (128 * regs) :=
  (List.range regs).foldl (fun t i => setElem i (V (n.next i)) t) 0

/-- `V[d] = result` for a result of 128 bits, or of 64 that is extended. -/
def narrow (q : Bool) (v : V128) : V128 := if q then v else (v.setWidth 64).setWidth 128

/-- `base` is zero, or the destination. -/
def lookup (V : VFile) (n m : VReg) (regs : Nat) (q : Bool) (base : V128) : V128 :=
  (List.range (if q then 16 else 8)).foldl
    (fun result i =>
      let index := (elem 8 i (V m)).toNat
      if index < 16 * regs then setElem i (elem 8 index (table V n regs)) result else result)
    (narrow q base)

def tbl (V : VFile) (n m : VReg) (regs : Nat) (q : Bool) : V128 := lookup V n m regs q 0

def tbx (V : VFile) (d n m : VReg) (regs : Nat) (q : Bool) : V128 := lookup V n m regs q (V d)

end IosLinuxkit.ArmVector
