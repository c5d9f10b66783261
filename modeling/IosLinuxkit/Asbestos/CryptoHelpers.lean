import IosLinuxkit.Lib.Lanes

/-!
# Software vector helpers

The helpers of `src/asbestos/guest-arm64/crypto_helpers.c` that work in place on the vector
registers. The register file is a buffer that begins with V0, and a pointer into it an offset.
Where the source stores to a register, so does the definition, at the same point.
-/

namespace IosLinuxkit.Crypto

open Layout Lanes

abbrev Dword := BitVec 32

abbrev Qword := BitVec 64

abbrev Ptr := Nat

/-! ## Lane by lane -/

def eor3Helper (vd vn vm va : Ptr) (b : Buffer) : Buffer :=
  (List.range 16).foldl
    (fun b i => store vd i (load 8 vn i b ^^^ load 8 vm i b ^^^ load 8 va i b) b) b

def rol32 (x : Dword) (n : Nat) : Dword := x <<< n ||| x >>> (32 - n)

def ror64 (x : Qword) (n : Nat) : Qword :=
  let n := n % 64
  if n = 0 then x else x >>> n ||| x <<< (64 - n)

def sm3partw1Helper (vd vn vm : Ptr) (b : Buffer) : Buffer :=
  let t0 := load 32 vd 0 b ^^^ load 32 vn 0 b
  let t1 := load 32 vd 1 b ^^^ load 32 vn 1 b
  let t2 := load 32 vd 2 b ^^^ load 32 vn 2 b
  let t3 := load 32 vd 3 b ^^^ load 32 vn 3 b
  let r0 := t0 ^^^ rol32 (load 32 vm 1 b) 15
  let r1 := t1 ^^^ rol32 (load 32 vm 2 b) 15
  let r2 := t2 ^^^ rol32 (load 32 vm 3 b) 15
  let r3 := t3 ^^^ rol32 r0 15
  let r0 := r0 ^^^ rol32 r0 15 ^^^ rol32 r0 23
  let r1 := r1 ^^^ rol32 r1 15 ^^^ rol32 r1 23
  let r2 := r2 ^^^ rol32 r2 15 ^^^ rol32 r2 23
  let r3 := r3 ^^^ rol32 r3 15 ^^^ rol32 r3 23
  store vd 3 r3 (store vd 2 r2 (store vd 1 r1 (store vd 0 r0 b)))

def sm4Sbox : List Byte :=
  [0xd6, 0x90, 0xe9, 0xfe, 0xcc, 0xe1, 0x3d, 0xb7, 0x16, 0xb6, 0x14, 0xc2, 0x28, 0xfb, 0x2c, 0x05,
    0x2b, 0x67, 0x9a, 0x76, 0x2a, 0xbe, 0x04, 0xc3, 0xaa, 0x44, 0x13, 0x26, 0x49, 0x86, 0x06, 0x99,
    0x9c, 0x42, 0x50, 0xf4, 0x91, 0xef, 0x98, 0x7a, 0x33, 0x54, 0x0b, 0x43, 0xed, 0xcf, 0xac, 0x62,
    0xe4, 0xb3, 0x1c, 0xa9, 0xc9, 0x08, 0xe8, 0x95, 0x80, 0xdf, 0x94, 0xfa, 0x75, 0x8f, 0x3f, 0xa6,
    0x47, 0x07, 0xa7, 0xfc, 0xf3, 0x73, 0x17, 0xba, 0x83, 0x59, 0x3c, 0x19, 0xe6, 0x85, 0x4f, 0xa8,
    0x68, 0x6b, 0x81, 0xb2, 0x71, 0x64, 0xda, 0x8b, 0xf8, 0xeb, 0x0f, 0x4b, 0x70, 0x56, 0x9d, 0x35,
    0x1e, 0x24, 0x0e, 0x5e, 0x63, 0x58, 0xd1, 0xa2, 0x25, 0x22, 0x7c, 0x3b, 0x01, 0x21, 0x78, 0x87,
    0xd4, 0x00, 0x46, 0x57, 0x9f, 0xd3, 0x27, 0x52, 0x4c, 0x36, 0x02, 0xe7, 0xa0, 0xc4, 0xc8, 0x9e,
    0xea, 0xbf, 0x8a, 0xd2, 0x40, 0xc7, 0x38, 0xb5, 0xa3, 0xf7, 0xf2, 0xce, 0xf9, 0x61, 0x15, 0xa1,
    0xe0, 0xae, 0x5d, 0xa4, 0x9b, 0x34, 0x1a, 0x55, 0xad, 0x93, 0x32, 0x30, 0xf5, 0x8c, 0xb1, 0xe3,
    0x1d, 0xf6, 0xe2, 0x2e, 0x82, 0x66, 0xca, 0x60, 0xc0, 0x29, 0x23, 0xab, 0x0d, 0x53, 0x4e, 0x6f,
    0xd5, 0xdb, 0x37, 0x45, 0xde, 0xfd, 0x8e, 0x2f, 0x03, 0xff, 0x6a, 0x72, 0x6d, 0x6c, 0x5b, 0x51,
    0x8d, 0x1b, 0xaf, 0x92, 0xbb, 0xdd, 0xbc, 0x7f, 0x11, 0xd9, 0x5c, 0x41, 0x1f, 0x10, 0x5a, 0xd8,
    0x0a, 0xc1, 0x31, 0x88, 0xa5, 0xcd, 0x7b, 0xbd, 0x2d, 0x74, 0xd0, 0x12, 0xb8, 0xe5, 0xb4, 0xb0,
    0x89, 0x69, 0x97, 0x4a, 0x0c, 0x96, 0x77, 0x7e, 0x65, 0xb9, 0xf1, 0x09, 0xc5, 0x6e, 0xc6, 0x84,
    0x18, 0xf0, 0x7d, 0xec, 0x3a, 0xdc, 0x4d, 0x20, 0x79, 0xee, 0x5f, 0x3e, 0xd7, 0xcb, 0x39, 0x48]

def sm4SboxAt (i : Dword) : Dword := (sm4Sbox.getD i.toNat 0).setWidth 32

def sm4SboxSub (x : Dword) : Dword :=
  sm4SboxAt (x &&& 0xff) ||| sm4SboxAt (x >>> 8 &&& 0xff) <<< 8 |||
    sm4SboxAt (x >>> 16 &&& 0xff) <<< 16 ||| sm4SboxAt (x >>> 24 &&& 0xff) <<< 24

/-- The locals of `sm4e_helper` that its loop changes. -/
structure Sm4Regs where
  r0 : Dword
  r1 : Dword
  r2 : Dword
  r3 : Dword

def sm4eRound (rk : Dword) (r : Sm4Regs) : Sm4Regs :=
  let x := r.r1 ^^^ r.r2 ^^^ r.r3 ^^^ rk
  let x := sm4SboxSub x
  let x := x ^^^ rol32 x 2 ^^^ rol32 x 10 ^^^ rol32 x 18 ^^^ rol32 x 24
  ⟨r.r1, r.r2, r.r3, x ^^^ r.r0⟩

def sm4eHelper (vd vn : Ptr) (b : Buffer) : Buffer :=
  let r := (List.range 4).foldl (fun r i => sm4eRound (load 32 vn i b) r)
    ⟨load 32 vd 0 b, load 32 vd 1 b, load 32 vd 2 b, load 32 vd 3 b⟩
  store vd 3 r.r3 (store vd 2 r.r2 (store vd 1 r.r1 (store vd 0 r.r0 b)))

def sveXarDHelper (vd vn vm : Ptr) (imm : Dword) (b : Buffer) : Buffer :=
  let n := (imm &&& 63).toNat
  let b := store vd 0 (ror64 (load 64 vn 0 b ^^^ load 64 vm 0 b) n) b
  store vd 1 (ror64 (load 64 vn 1 b ^^^ load 64 vm 1 b) n) b

/-! ## Polynomial products -/

def pmull64Full (a c : Qword) : BitVec 128 :=
  (List.range 64).foldl
    (fun result i => if c.getLsbD i then result ^^^ a.setWidth 128 <<< i else result) 0

def pmull8Full (a c : Byte) : BitVec 16 :=
  (List.range 8).foldl
    (fun result j => if c.getLsbD j then result ^^^ a.setWidth 16 <<< j else result) 0

/-- For bytes the sources are copied first. Other sizes do nothing. -/
def pmullHelper (rd rn rm : Ptr) (q size : Dword) (b : Buffer) : Buffer :=
  if size = 0#32 then
    let half := if q ≠ 0#32 then 8 else 0
    let sourceN := fun i => load 8 (rn + half) i b
    let sourceM := fun i => load 8 (rm + half) i b
    (List.range 8).foldl (fun b i => store rd i (pmull8Full (sourceN i) (sourceM i)) b) b
  else if size = 3#32 then
    let a := if q ≠ 0#32 then load 64 rn 1 b else load 64 rn 0 b
    let c := if q ≠ 0#32 then load 64 rm 1 b else load 64 rm 0 b
    store rd 0 (pmull64Full a c) b
  else b

/-! ## Table lookups -/

/-- The byte of the table at `index`. The registers of the table follow `rn`, with V0 after
V31. -/
def tableByte (rn : Ptr) (fpBase : Ptr) (index : Nat) (b : Buffer) : Byte :=
  let tableReg := rn + index / 16 * 16
  let tableReg := if fpBase + 32 * 16 ≤ tableReg then tableReg - 32 * 16 else tableReg
  load 8 tableReg (index % 16) b

/-- The result is stored, and without `q` the upper half cleared. -/
def tblStore (rd : Ptr) (q : Bool) (result : Nat → Byte) (b : Buffer) : Buffer :=
  let b := (List.range (if q then 16 else 8)).foldl (fun b i => store rd i (result i) b) b
  if q then b else (List.range 8).foldl (fun b i => store rd (8 + i) 0#8 b) b

def tblHelper (rd rn rm : Ptr) (len : Nat) (q : Bool) (fpBase : Ptr) (b : Buffer) : Buffer :=
  let result := fun i =>
    let index := (load 8 rm i b).toNat
    if index < (len + 1) * 16 then tableByte rn fpBase index b else 0#8
  tblStore rd q result b

/-- An index out of range keeps the byte of the destination. -/
def tbxHelper (rd rn rm : Ptr) (len : Nat) (q : Bool) (fpBase : Ptr) (b : Buffer) : Buffer :=
  let result := fun i =>
    let index := (load 8 rm i b).toNat
    if index < (len + 1) * 16 then tableByte rn fpBase index b else load 8 rd i b
  tblStore rd q result b

end IosLinuxkit.Crypto
