import IosLinuxkit.Kernel.HostProt
import IosLinuxkit.Kernel.Reservations

/-!
# Pages without read permission

What may touch a page that the guest mapped, or reserved, without read permission: its own system calls, the
lock intervals of `mem_ptr`, and the part of `handle_interrupt` that maps a page of zeros where a read has
faulted. Any number of threads, each in its interval, over the address spaces and the host's protections of
`Kernel.HostProt`.
-/

namespace IosLinuxkit.Guard

open Kernel HostProt

/-! ## Pages -/

def readable (f : Flags) : Bool := Flags.any f Flags.read

/-- The flags of a page, or of its reservation while it has no memory. -/
def guestFlags (m : Mem) (p : Nat) : Option Flags :=
  match memPt m p with
  | some e => some e.flags
  | none => reservedFlags m p

def Inaccessible (m : Mem) (p : Nat) : Prop :=
  p < memPages ∧ ∃ f, guestFlags m p = some f ∧ readable f = false

/-- `mem_ptr` has a pointer for a read, and the host lets it be read through. -/
def ReadSucceeds (mc : Machine) (st : HostMem) (a addr : Nat) : Prop :=
  (memPtrNofault (st.spaces a) addr .read).isSome ∧ ∀ e, memPt (st.spaces a) (page addr) = some e →
    (st.prot (hostPage mc st.vdso e (pgOffset addr))).read = true

/-! ## Threads -/

/-- `has_neighbor` of `handle_interrupt`: a page with memory among the sixteen after, or before. -/
def hasNeighbor (m : Mem) (p : Nat) : Bool :=
  ((List.range' (p + 1) 16).any fun q => decide (q < memPages) && (memPt m q).isSome) ||
    (List.range' (p - 16) (min p 16)).any fun q => (memPt m q).isSome

/-- Where a thread is. In `mem_ptr` it came from the guest's code or a system call, or from
`handle_interrupt`. -/
inductive Phase where
  | idle
  | ptr (a : Nat) (call : PtrCall) (handler : Bool)
  /-- read-locked: is there a neighbor? -/
  | scan (a p : Nat)
  /-- write-locked -/
  | demandMap (a p : Nat)

structure State where
  mem : HostMem
  thread : Nat → Phase

/-- The steps: system calls of the guest, a fork, and what a thread does in between. -/
inductive GuardOp where
  | map (a start pages : Nat) (contents : Option (Nat → UInt8)) (memory : Memory) (offset : Nat)
      (flags : Flags)
  | mapNothing (a start pages : Nat) (flags : Flags)
  | mapLazy (a start pages : Nat) (flags : Flags)
  | mprotect (a start pages : Nat) (flags : Flags)
  | munmap (a start pages : Nat)
  | fork (src dst : Nat)
  | access (t a : Nat) (addr : UInt64) (type : AccessType) (inJit : Bool)
  | advance (t : Nat) (limit : Option Nat)

/-! ## Steps -/

/-- The protection of the page that an interval of `mem_ptr` maps. -/
def intervalProt (m : Mem) (call : PtrCall) : Prot :=
  match call.phase with
  | .materialise => nothingProt ((reservedFlags m (page call.addr)).getD 0 &&& ~~~Flags.growsdown)
  | _ => ⟨true, true⟩

/-- After an interval. A call without a pointer is a fault of the guest's code, and `handle_interrupt` calls
`mem_ptr` once more. -/
def afterPtr (a : Nat) (call : PtrCall) (handler : Bool) : Phase :=
  match call.phase with
  | .done (some _) => .idle
  | .done none =>
    if handler then (if call.type = .read then .scan a (page call.addr) else .idle)
    else if call.inJit then .ptr a (PtrCall.start call.addr call.type false) true
    else .idle
  | _ => .ptr a call handler

/-- `pt_map_nothing` of the page that has faulted, unless it has got memory. -/
def demandMap (st : HostMem) (a p : Nat) : HostMem :=
  if (memPt (st.spaces a) p).isNone then
    (st.supply (.mapped fun _ => nothingProt Flags.read)).put a
      (ptMapNothing (st.vm a) p 1 Flags.read).2
  else st

def advance (st : State) (t : Nat) (limit : Option Nat) : State :=
  match st.thread t with
  | .idle => st
  | .ptr a call handler =>
    let r := memPtrStep (st.mem.vm a) limit call
    { mem := (st.mem.supply (.mapped fun _ => intervalProt (st.mem.spaces a) call)).put a r.1
      thread := Function.update st.thread t (afterPtr a r.2 handler) }
  | .scan a p =>
    { st with
      thread := Function.update st.thread t
        (if hasNeighbor (st.mem.spaces a) p then .demandMap a p else .idle) }
  | .demandMap a p =>
    { mem := demandMap st.mem a p, thread := Function.update st.thread t .idle }

/-- The lazy reservation of `do_mmap`, where nothing else is. -/
def mapLazy (v : Vm) (start pages : Nat) (flags : Flags) : Vm :=
  if pages < 0x10000 ∨ memRangeHasReservation v.mem start pages then v
  else (ptMapLazy v start pages flags).2

def fork (st : HostMem) (src dst : Nat) : HostMem :=
  if src = dst then st
  else
    let r := ptCopyOnWrite st.host (st.spaces src) memInit 0 memPages
    { st with
      host := r.1
      spaces := Function.update (Function.update st.spaces src r.2.1) dst r.2.2 }

def guardStep (mc : Machine) (st : State) : GuardOp → State
  | .map a start pages contents memory offset flags =>
    { st with mem := protStep mc st.mem (.map a start pages contents memory offset flags) }
  | .mapNothing a start pages flags =>
    { st with mem := protStep mc st.mem (.mapNothing a start pages flags) }
  | .mapLazy a start pages flags =>
    { st with mem := st.mem.put a (mapLazy (st.mem.vm a) start pages flags) }
  | .mprotect a start pages flags =>
    { st with mem := protStep mc st.mem (.setFlags a start pages flags) }
  | .munmap a start pages => { st with mem := protStep mc st.mem (.unmap a start pages) }
  | .fork src dst => { st with mem := fork st.mem src dst }
  | .access t a addr type inJit =>
    match st.thread t with
    | .idle =>
      { st with
        thread := Function.update st.thread t (.ptr a (PtrCall.start addr.toNat type inJit) false) }
    | _ => st
  | .advance t limit => advance st t limit

def State.start (script : List Bool) (prot : HostPage → Prot) : State :=
  { mem := HostMem.start script prot, thread := fun _ => .idle }

/-! ## What ought to hold -/

def Phase.reads : Phase → Prop
  | .idle => False
  | .ptr _ call _ => call.type = .read
  | .scan _ _ | .demandMap _ _ => True

/-- The system calls may change a page. A read leaves the flags and the reservation of an inaccessible page,
and nothing else makes it accessible. -/
def Spares (mc : Machine) (st : State) (op : GuardOp) : Prop :=
  match op with
  | .map _ _ _ _ _ _ _ | .mapNothing _ _ _ _ | .mapLazy _ _ _ _ | .mprotect _ _ _ _ | .munmap _ _ _ => True
  | .fork _ dst => ∀ b, b ≠ dst → ∀ p, Inaccessible (st.mem.spaces b) p →
      Inaccessible ((guardStep mc st op).mem.spaces b) p
  | .access _ _ _ _ _ => (guardStep mc st op).mem = st.mem
  | .advance t _ => ∀ b p, Inaccessible (st.mem.spaces b) p →
      Inaccessible ((guardStep mc st op).mem.spaces b) p ∧ ((st.thread t).reads →
          memPt ((guardStep mc st op).mem.spaces b) p = memPt (st.mem.spaces b) p ∧
          reservedFlags ((guardStep mc st op).mem.spaces b) p = reservedFlags (st.mem.spaces b) p)

def Guarded (mc : Machine) (st : HostMem) : Prop :=
  ∀ a addr, Inaccessible (st.spaces a) (page addr) → ¬ ReadSucceeds mc st a addr

/-! ## When it does -/

/-- The memory that a caller of `pt_map` has cannot be read. -/
def Unreadable (st : HostMem) : Memory → Prop
  | .mapped prot => ∀ n, (prot n).read = false
  | .vdso => ∀ n, (st.prot (none, n)).read = false

def ReadFirst (f : Flags) : Prop := Flags.any f Flags.rwx = true → readable f = true

/-- A `pt_set_flags` that comes to its end, takes no right to read away from a page with memory, and raises no
host page that a page without read permission is in. -/
structure KeepsMprotect (mc : Machine) (st : HostMem) (a start pages : Nat) (flags : Flags) : Prop where
  succeeds : 0 ≤ (ptSetFlags (st.vm a) start pages flags).1
  lowers : readable flags = false → ∀ p ∈ pageRange start pages, ∀ e, memPt (st.spaces a) p = some e →
    readable e.flags = false ∧ grows flags e.flags = false
  raises : ∀ p ∈ pageRange start pages, ∀ e, memPt (st.spaces a) p = some e → grows flags e.flags = true →
    ∀ f, Outside st a start pages f → readable f.flags = false →
      ∀ i < pageSize, hostPage mc st.vdso f i ≠ hostPage mc st.vdso e 0

/-- The page that a thread is to give memory may be read, if anything; and a page that has faulted is not
one that the guest has reserved without read permission. -/
def KeepsAdvance (st : State) (t : Nat) : Prop :=
  match st.thread t with
  | .ptr a call _ => call.phase = .materialise ∨ call.phase = .breakCow →
      ∀ f, guestFlags (st.mem.spaces a) (page call.addr) = some f → ReadFirst f
  | .demandMap a p => ∀ q, slot q = slot p → memPt (st.mem.spaces a) q = none →
      ¬ Inaccessible (st.mem.spaces a) q
  | _ => True

def Keeps (mc : Machine) (st : State) : GuardOp → Prop
  | .map _ _ _ _ memory _ flags => readable flags = false → Unreadable st.mem memory
  | .mapNothing _ _ _ flags => ReadFirst flags
  | .mprotect a start pages flags => KeepsMprotect mc st.mem a start pages flags
  | .advance t _ => KeepsAdvance st t
  | _ => True

end IosLinuxkit.Guard
