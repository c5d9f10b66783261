import IosLinuxkit.Lib.Ilist
import IosLinuxkit.Lib.Run

/-!
# The block cache: hash table, page lists, chain links

The model of the block cache of `asbestos/asbestos.c` in its ARM64 configuration, with the
native JIT (`ISH_JIT`) on top: `struct asbestos`, `struct fiber_block`, and every function
that links or unlinks blocks. All of them run under `asbestos->lock`, so each is one atomic
operation.

* `*jump_ip[i]` is a `Word`: a tagged guest address, or the address of a block's `code`.
  Code addresses are user-space pointers and never have bit 63 set.
* What `jit_chain_ok` and `jit_chain_refused` answer depends on native code addresses; here
  every answer is possible (`Jit`). Without `ISH_JIT` every chain is allowed.

`used`, `mem_used`, the statistics and the per-thread caches are left out.
-/

namespace IosLinuxkit.Fiber

abbrev pageSize : Nat := 4096
abbrev wordMod : Nat := 0x10000000000000000
abbrev fiberInitialHashSize : Nat := 1024
abbrev fiberPageHashSize : Nat := 1024
abbrev incomingScanLimit : Nat := 2

/-- `PAGE(addr)`. -/
def page (addr : Nat) : Nat := addr / pageSize

/-! ## Data -/

/-- The contents of a jump slot. -/
inductive Word where
  | ip (w : BitVec 64)
  | code (b : Nat)
  deriving DecidableEq, Repr

/-- What a block has for each of its two jumps: the elements `i` of `jump_ip`,
`old_jump_ip`, `jump_ip_is_fake`, `jumps_from_links`, and of `alt` in its JIT context. -/
structure Slot where
  /-- `*jump_ip[i]`; `none` when `jump_ip[i]` is `NULL` -/
  jumpIp : Option Word
  oldJumpIp : BitVec 64
  isFake : Bool
  /-- the node `jumps_from_links[i]` is not null: on a list, or just initialised -/
  linked : Bool
  /-- a successor that native code may enter although the slot stays unchained -/
  alt : Option Nat
  deriving DecidableEq, Repr

/-- `struct fiber_block`. -/
structure Block where
  addr : Nat
  endAddr : Nat
  slots : Fin 2 → Slot
  isJetsam : Bool

structure Asbestos where
  blocks : Nat → Option Block
  nextBlock : Nat
  numBlocks : Nat
  hashSize : Nat
  hash : Nat → List Nat
  /-- `page_hash[k].blocks[i]` -/
  pages : Fin 2 → Nat → List Nat
  /-- `jumps_from[i]` of each block -/
  jumpsFrom : Fin 2 → Nat → List Nat
  jetsam : List Nat

def asbestosNew : Asbestos :=
  { blocks := fun _ => none, nextBlock := 0, numBlocks := 0,
    hashSize := fiberInitialHashSize, hash := fun _ => [], pages := fun _ _ => [],
    jumpsFrom := fun _ _ => [], jetsam := [] }

def Asbestos.modify (c : Asbestos) (b : Nat) (f : Block → Block) : Asbestos :=
  { c with blocks := Function.update c.blocks b ((c.blocks b).map f) }

/-- Change slot `i` of block `b`, and the lists of kind `jumps_from[i]`. -/
def Asbestos.setLink (c : Asbestos) (b : Nat) (i : Fin 2) (lists : Nat → List Nat)
    (f : Slot → Slot) : Asbestos :=
  { c with jumpsFrom := Function.update c.jumpsFrom i lists }.modify b fun x =>
    { x with slots := Function.update x.slots i (f (x.slots i)) }

/-! ## Hash table -/

/-- The bucket block `b` belongs to in a table of `size` buckets. -/
def Asbestos.hashKey (c : Asbestos) (size b : Nat) : Nat :=
  (((c.blocks b).map Block.addr).getD 0) % size

/-- `fiber_resize_hash`: every chain is walked in order and each block moved to the front of
its new chain. -/
def fiberResizeHash (c : Asbestos) (newSize : Nat) : Asbestos :=
  { c with
    hash := Ilist.addAll (c.hashKey newSize) (fun _ => [])
      ((List.range c.hashSize).flatMap c.hash)
    hashSize := newSize }

def fiberLookup (c : Asbestos) (addr : Nat) : Option Nat :=
  (c.hash (addr % c.hashSize)).find? fun b => (c.blocks b).any fun x => x.addr = addr

/-! ## Jump slots -/

def arm64FakeJumpTarget : Word → Option Nat
  | .ip w => if w.getLsbD 63 then some (w &&& 0x0000ffffffffffff#64).toNat else none
  | .code _ => none

/-- What the native code generator answers about a chain `from → to` in slot `i`. -/
structure Jit where
  chainOk : Nat → Fin 2 → Nat → Bool
  chainRefused : Nat → Fin 2 → Nat → Bool

/-- A build without `ISH_JIT`. -/
def noJit : Jit := { chainOk := fun _ _ _ => true, chainRefused := fun _ _ _ => false }

/-- Bit 62 tells native code to enter the alternate successor. -/
def refusedBit : BitVec 64 := 0x4000000000000000#64

def Word.refuse : Word → Word
  | .ip w => .ip (w ||| refusedBit)
  | .code b => .code b

/-- `list_remove_safe(&source->jumps_from_links[i])` followed by
`list_add(&target->jumps_from[i], &source->jumps_from_links[i])`. -/
def movedLists (c : Asbestos) (source : Nat) (i : Fin 2) (target : Nat) : Nat → List Nat :=
  Ilist.add (Ilist.remove (c.jumpsFrom i) source) target source

/-- The chain itself: the slot gets the target's code address. -/
def Slot.chain (target : Nat) (s : Slot) : Slot :=
  { s with jumpIp := some (.code target), isFake := false, linked := true }

/-- `jit_chain_refused` that recorded the alternate: the slot stays fake, but it owns a
pointer to the target and so sits on the target's list. -/
def Slot.refuse (target : Nat) (s : Slot) : Slot :=
  { s with jumpIp := s.jumpIp.map Word.refuse, alt := some target, linked := true }

def linkSlot (jit : Jit) (c : Asbestos) (source : Nat) (i : Fin 2) (target : Nat) : Asbestos :=
  if jit.chainOk source i target then
    c.setLink source i (movedLists c source i target) (Slot.chain target)
  else if jit.chainRefused source i target then
    c.setLink source i (movedLists c source i target) (Slot.refuse target)
  else c

/-- The slot still holds a fake IP of guest address `addr`. -/
def Slot.fakeFor (s : Slot) (addr : Nat) : Bool :=
  s.isFake && (s.jumpIp.bind arm64FakeJumpTarget == some addr)

def fiberPrechainPatchSlot (jit : Jit) (c : Asbestos) (source : Nat) (i : Fin 2)
    (target : Nat) : Asbestos :=
  match c.blocks source, c.blocks target with
  | some x, some y =>
    if !x.isJetsam && !y.isJetsam && (x.slots i).fakeFor y.addr && page x.addr == page y.addr then
      linkSlot jit c source i target
    else c
  | _, _ => c

/-- One slot of `fiber_prechain_outgoing_same_page`. -/
def prechainOutgoingSlot (jit : Jit) (block : Nat) (c : Asbestos) (i : Fin 2) : Asbestos :=
  match c.blocks block with
  | none => c
  | some x =>
    match (x.slots i).jumpIp.bind arm64FakeJumpTarget with
    | none => c
    | some targetAddr =>
      if page x.addr ≠ page targetAddr then c
      else
        match fiberLookup c targetAddr with
        | none => c
        | some target => fiberPrechainPatchSlot jit c block i target

def fiberPrechainOutgoing (jit : Jit) (c : Asbestos) (block : Nat) : Asbestos :=
  prechainOutgoingSlot jit block (prechainOutgoingSlot jit block c 0) 1

/-- `fiber_prechain_incoming_same_page` for one candidate; slots whose target is another
address are left alone by `fiberPrechainPatchSlot`. -/
def prechainIncomingSource (jit : Jit) (block : Nat) (c : Asbestos) (source : Nat) : Asbestos :=
  fiberPrechainPatchSlot jit (fiberPrechainPatchSlot jit c source 0 block) source 1 block

/-- `fiber_prechain_incoming_same_page`: the first blocks of the page list other than the
new one. -/
def fiberPrechainIncoming (jit : Jit) (c : Asbestos) (block : Nat) : Asbestos :=
  match c.blocks block with
  | none => c
  | some x =>
    let sources := c.pages 0 (page x.addr % fiberPageHashSize)
    ((sources.filter (· ≠ block)).take incomingScanLimit).foldl
      (prechainIncomingSource jit block) c

/-! ## Insertion -/

/-- The effect of one `gen_step` on `state.ip`. -/
inductive GenMove where
  /-- the instruction could not be read -/
  | fault
  /-- an instruction (or a fused pair) that ends the block -/
  | stop (pair : Bool)
  /-- an instruction (or a fused pair) after which compilation goes on -/
  | next (pair : Bool)
  /-- a forward branch within the first page that is followed inline -/
  | follow (target : Nat)
  deriving DecidableEq, Repr

def insnBytes (pair : Bool) : Nat := if pair then 8 else 4

/-- The loop of `fiber_block_compile`; the result is the final `state.ip`. A `follow` is
possible under the guard of `gen_branch` only. -/
def compileLoop (start : Nat) : Nat → List GenMove → Option Nat
  | _, [] => none
  | ip, .fault :: _ => some ip
  | ip, .stop pair :: _ => some ((ip + insnBytes pair) % wordMod)
  | ip, .next pair :: rest =>
    let ip' := (ip + insnBytes pair) % wordMod
    if (ip' + (wordMod - start)) % wordMod ≥ pageSize - 15 then some ip'
    else compileLoop start ip' rest
  | ip, .follow target :: rest =>
    if target < wordMod ∧ page target = page start ∧ ip < target then
      if (target + (wordMod - start)) % wordMod ≥ pageSize - 15 then some target
      else compileLoop start target rest
    else none

/-- The last byte of the block `fiber_block_compile` builds at `start`, when its assertion
on the length holds. -/
def compileEnd (start : Nat) (moves : List GenMove) : Option Nat :=
  match compileLoop start start moves with
  | none => none
  | some ip =>
    if (ip + (wordMod - start)) % wordMod ≤ pageSize then
      some (if ip = start then start else (ip + (wordMod - 1)) % wordMod)
    else none

/-- A block as `gen_end` leaves it. -/
def newBlock (addr endAddr : Nat) (slots : Fin 2 → Option (BitVec 64)) : Block :=
  { addr := addr, endAddr := endAddr, isJetsam := false
    slots := fun i =>
      { jumpIp := (slots i).map Word.ip
        oldJumpIp := (slots i).getD 0
        isFake := (slots i).isSome
        linked := true
        alt := none } }

/-- `arm64_eager_prechain_enabled`, `arm64_eager_prechain_incoming_enabled` and the test of
`active_threads`. -/
structure Prechain where
  outgoing : Bool
  incoming : Bool

/-- The page list of kind `i` a block goes on: the first page always, the last page when it
is another one. -/
def Block.pageKey (x : Block) (i : Fin 2) : Option Nat :=
  if i = 0 then some (page x.addr % fiberPageHashSize)
  else if page x.addr ≠ page x.endAddr then some (page x.endAddr % fiberPageHashSize)
  else none

/-- Put block `b` on its hash chain and its page lists. -/
def enlist (c : Asbestos) (b : Nat) (x : Block) : Asbestos :=
  { c with
    blocks := Function.update c.blocks b (some x)
    nextBlock := b + 1
    numBlocks := c.numBlocks + 1
    hash := Ilist.add c.hash (x.addr % c.hashSize) b
    pages := fun i => match x.pageKey i with
      | none => c.pages i
      | some k => Ilist.add (c.pages i) k b }

def fiberInsert (jit : Jit) (prechain : Prechain) (c : Asbestos) (x : Block) : Asbestos :=
  let b := c.nextBlock
  let c := if c.numBlocks + 1 ≥ c.hashSize * 2 then fiberResizeHash c (c.hashSize * 2) else c
  let c := enlist c b x
  let c := if prechain.outgoing then fiberPrechainOutgoing jit c b else c
  if prechain.outgoing && prechain.incoming then fiberPrechainIncoming jit c b else c

/-! ## Disconnection and invalidation -/

/-- `*jump_ip[i] = old_jump_ip[i]`, `jit_unlink`, `jump_ip_is_fake[i] = true`, and the node
becomes null. -/
def Slot.restore (s : Slot) : Slot :=
  if s.jumpIp.isSome then
    { s with jumpIp := some (.ip s.oldJumpIp), alt := none, isFake := true, linked := false }
  else { s with linked := false }

/-- Restore slot `i` of `b` and take its node off its list. -/
def unlinkSlot (i : Fin 2) (c : Asbestos) (b : Nat) : Asbestos :=
  c.setLink b i (Ilist.remove (c.jumpsFrom i) b) Slot.restore

/-- One round of the loop of `fiber_block_disconnect`. -/
def disconnectSlot (b : Nat) (c : Asbestos) (i : Fin 2) : Asbestos :=
  let c := { c with pages := Function.update c.pages i (Ilist.remove (c.pages i) b) }
  let c := if (c.blocks b).any fun x => (x.slots i).linked then unlinkSlot i c b else c
  (c.jumpsFrom i b).foldl (unlinkSlot i) c

def fiberBlockDisconnect (c : Asbestos) (b : Nat) : Asbestos :=
  disconnectSlot b (disconnectSlot b
    { c with numBlocks := c.numBlocks - 1, hash := Ilist.remove c.hash b } 0) 1

/-- The body of the invalidation loops: disconnect, mark, put on the jetsam list. -/
def invalidateBlock (c : Asbestos) (b : Nat) : Asbestos :=
  let c := (fiberBlockDisconnect c b).modify b fun x => { x with isJetsam := true }
  { c with jetsam := b :: c.jetsam }

def invalidateBucket (k : Nat) (c : Asbestos) (i : Fin 2) : Asbestos :=
  (c.pages i k).foldl invalidateBlock c

def invalidateKey (c : Asbestos) (k : Nat) : Asbestos :=
  invalidateBucket k (invalidateBucket k c 0) 1

def asbestosInvalidateRange (c : Asbestos) (start stop : Nat) : Asbestos :=
  ((List.range' start (stop - start)).map (· % fiberPageHashSize)).foldl invalidateKey c

/-- `asbestos_invalidate_page`; the test for empty lists is only a fast path. -/
def asbestosInvalidatePage (c : Asbestos) (p : Nat) : Asbestos :=
  if c.pages 0 (p % fiberPageHashSize) = [] ∧ c.pages 1 (p % fiberPageHashSize) = [] then c
  else asbestosInvalidateRange c p (p + 1)

def asbestosInvalidateAll (c : Asbestos) : Asbestos :=
  (List.range fiberPageHashSize).foldl invalidateKey c

def fiberFreeJetsam (c : Asbestos) : Asbestos :=
  { c with blocks := fun b => if b ∈ c.jetsam then none else c.blocks b, jetsam := [] }

/-! ## Steps -/

/-- The chaining part of `cpu_step_to_interrupt`, for slot `i`. -/
def chainStep (jit : Jit) (last block : Nat) (c : Asbestos) (i : Fin 2) : Asbestos :=
  match c.blocks last, c.blocks block with
  | some x, some y =>
    if (x.slots i).fakeFor y.addr then linkSlot jit c last i block else c
  | _, _ => c

/-- The chaining part of `cpu_step_to_interrupt`: neither block may be jetsam, and some slot
is still fake. -/
def chain (jit : Jit) (c : Asbestos) (last block : Nat) : Asbestos :=
  match c.blocks last, c.blocks block with
  | some x, some y =>
    if !x.isJetsam && !y.isJetsam && ((x.slots 0).isFake || (x.slots 1).isFake) then
      chainStep jit last block (chainStep jit last block c 0) 1
    else c
  | _, _ => c

inductive Op where
  /-- a block-cache miss at guest address `addr`: look the block up, else compile and
  insert it -/
  | enter (addr : UInt64) (moves : List GenMove) (slots : Fin 2 → Option (BitVec 64))
      (prechain : Prechain)
  | chain (last block : Nat)
  | resizeHash (size : Nat) (pos : 0 < size)
  | invalidateRange (start stop : Nat)
  | invalidatePage (p : Nat)
  | invalidateAll
  | freeJetsam

/-- An operation, and the JIT's answers during it. -/
structure Label where
  op : Op
  jit : Jit

def enter (jit : Jit) (c : Asbestos) (addr : Nat) (moves : List GenMove)
    (slots : Fin 2 → Option (BitVec 64)) (prechain : Prechain) : Asbestos :=
  match fiberLookup c addr with
  | some _ => c
  | none =>
    match compileEnd addr moves with
    | none => c
    | some endAddr => fiberInsert jit prechain c (newBlock addr endAddr slots)

def step (c : Asbestos) (l : Label) : Asbestos :=
  match l.op with
  | .enter addr moves slots prechain => enter l.jit c addr.toNat moves slots prechain
  | .chain last block => chain l.jit c last block
  | .resizeHash size _ => fiberResizeHash c size
  | .invalidateRange start stop => asbestosInvalidateRange c start stop
  | .invalidatePage p => asbestosInvalidatePage c p
  | .invalidateAll => asbestosInvalidateAll c
  | .freeJetsam => fiberFreeJetsam c

end IosLinuxkit.Fiber
