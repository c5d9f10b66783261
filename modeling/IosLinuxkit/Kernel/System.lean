import IosLinuxkit.Kernel.Mmap
import IosLinuxkit.Lib.Run

/-!
# The address-space system: processes, threads, and their interleaving

The whole of what acts on guest memory as one transition system. A `World` is the shared
host, the live address spaces, and the threads that are inside `mem_ptr` or
`madvise(MADV_DONTNEED)`, the two places that drop the lock of their address space half way.
An `Op` is one step of one thread: a system call that holds the lock throughout, or one
lock interval of a call in progress.

A thread whose `mem_ptr(MEM_WRITE)` has returned holds a host pointer together with the
generation `mmu.changes` it was obtained at, as a TLB entry does. It may store through the
pointer as long as the generation is current.
-/

namespace IosLinuxkit.Kernel

/-- A thread inside one of the interruptible operations. -/
inductive Thread where
  | idle
  /-- a guest access: its `mem_ptr` call, and the generation its pointer is valid for -/
  | access (space : Nat) (call : PtrCall) (gen : Nat)
  /-- `madvise(MADV_DONTNEED)` at guest address `next`, with its current `mem_ptr` call;
  `any` says whether a page has been zeroed -/
  | madvise (space next stop : Nat) (call : Option PtrCall) (any : Bool)

structure World where
  host : Host
  spaces : AList (fun _ : Nat => Mm)
  /-- identities of address spaces are never reused -/
  nextSpace : Nat
  threads : List Thread

/-- A range of pages as callers have it: an address and a length shifted right by
`PAGE_BITS`. -/
structure PageSpan where
  start : Nat
  pages : Nat
  start_le : start ≤ 0x10000000000000
  pages_le : pages ≤ 0x10000000000000

inductive Op where
  | mmNew
  | mmRetain (a : Nat)
  | mmRelease (a : Nat)
  /-- `mm_copy` -/
  | fork (a : Nat)
  | mmap (a : Nat) (args : MmapArgs)
  | munmap (a : Nat) (addr len : UInt64)
  | mprotect (a : Nat) (addr len : UInt64) (prot : Flags)
  | mremap (a : Nat) (addr : UInt64) (oldLen newLen : UInt32) (mayMove badFlags : Bool)
      (hole : HoleChoice)
  /-- `exec` sets `start_brk` and `brk` to the end of the image -/
  | setBrk (a : Nat) (addr : UInt64)
  | brk (a : Nat) (newBrk : UInt64)
  | madvise (a : Nat) (addr : UInt64) (len : UInt32) (advice : Nat)
  | ptSetFlags (a : Nat) (span : PageSpan) (flags : Flags)
  | ptUnmapAlways (a : Nat) (span : PageSpan)
  | ptMapNothing (a : Nat) (span : PageSpan) (flags : Flags)
  | ptMap (a : Nat) (span : PageSpan) (memory : Option (Nat → UInt8)) (offset : Nat)
      (flags : Flags)
  | ptMapLazy (a : Nat) (span : PageSpan) (flags : Flags)
  /-- a thread calls `mem_ptr` -/
  | access (a : Nat) (addr : UInt64) (type : AccessType) (inJit : Bool)
  /-- thread `i` executes its next lock interval -/
  | advance (i : Nat) (stackLimit : Option Nat)
  /-- thread `i` stores bytes through the pointer it holds -/
  | store (i : Nat) (bytes : List UInt8)

/-! ## Steps -/

def World.withSpace (w : World) (a : Nat) (f : Vm → Vm) : World :=
  match w.spaces.lookup a with
  | none => w
  | some mm =>
    let v := f ⟨w.host, mm.mem⟩
    { w with host := v.host, spaces := w.spaces.insert a { mm with mem := v.mem } }

/-- `mm_copy`: a new, empty address space receives a copy-on-write copy of every page. -/
def World.fork (w : World) (a : Nat) : World :=
  match w.spaces.lookup a with
  | none => w
  | some mm =>
    let t := w.host.attempt
    if t.1 then
      let r := ptCopyOnWrite t.2 mm.mem memInit 0 memPages
      { w with
        host := r.1
        spaces := (w.spaces.insert a { mm with mem := r.2.1 }).insert w.nextSpace
          { mm with mem := r.2.2, refcount := 1 }
        nextSpace := w.nextSpace + 1 }
    else { w with host := t.2 }

/-- `mm_release`: the last reference destroys the address space. -/
def World.release (w : World) (a : Nat) : World :=
  match w.spaces.lookup a with
  | none => w
  | some mm =>
    if mm.refcount - 1 = 0 then
      { w with host := (memDestroy ⟨w.host, mm.mem⟩).host, spaces := w.spaces.erase a }
    else { w with spaces := w.spaces.insert a { mm with refcount := mm.refcount - 1 } }

def World.brk (w : World) (a newBrk : Nat) : World :=
  match w.spaces.lookup a with
  | none => w
  | some mm =>
    let r := sysBrk ⟨w.host, mm.mem⟩ mm.startBrk mm.brk newBrk
    { w with host := r.2.host,
             spaces := w.spaces.insert a { mm with mem := r.2.mem, brk := r.1 } }

def Host.write (h : Host) (ptr : HostPtr) (bytes : List UInt8) : Host :=
  { h with bytes := fun d o =>
      if d = ptr.data ∧ ptr.offset ≤ o then (bytes[o - ptr.offset]?).getD (h.bytes d o)
      else h.bytes d o }

/-- `sys_madvise` up to the walk: the range check, and the advice that needs a walk. -/
def World.madvise (w : World) (a addr len advice : Nat) : World :=
  match w.spaces.lookup a with
  | none => w
  | some mm =>
    if pgOffset addr = 0 ∧ advice = 4 ∧ (pageRange (page addr) (pageRoundUp32 len)).all fun p =>
          (memPt mm.mem p).isSome || (memFindReservation mm.mem p).isSome then
      { w with threads :=
          w.threads ++ [.madvise a addr ((addr + len) % wordMod) none false] }
    else w

/-- `madvise` leaves file-backed pages alone. -/
def skipsPage (h : Host) (e : PtEntry) : Bool :=
  !Flags.any e.flags Flags.anonymous &&
    ((h.datas.lookup e.data).bind fun x => x.fd).isSome

/-- One step of the walk of `madvise(MADV_DONTNEED)`. The final `mem_ptr_nofault` and the
`memset` are in one read-lock interval. -/
def madviseStep (v : Vm) (limit : Option Nat) (space next stop : Nat) (any : Bool) :
    Option PtrCall → Vm × Thread
  | none =>
    if next < stop then
      match memPt v.mem (page next) with
      | none => (v, .madvise space ((next + pageSize) % wordMod) stop none any)
      | some e =>
        if skipsPage v.host e then
          (v, .madvise space ((next + pageSize) % wordMod) stop none any)
        else (v, .madvise space next stop (some (PtrCall.start next .write false)) any)
    else (if any then { v with mem := v.mem.changed } else v, .idle)
  | some c =>
    let r := memPtrStep v limit c
    match r.2.phase with
    | .done none => (r.1, .madvise space ((next + pageSize) % wordMod) stop none any)
    | .done (some ptr) =>
      ({ r.1 with host := r.1.host.write ptr (List.replicate pageSize 0) },
        .madvise space ((next + pageSize) % wordMod) stop none true)
    | _ => (r.1, .madvise space next stop (some r.2) any)

/-- One lock interval of thread `t`, on its own address space. -/
def threadStep (v : Vm) (limit : Option Nat) : Thread → Vm × Thread
  | .idle => (v, .idle)
  | .access space c gen =>
    let r := memPtrStep v limit c
    (r.1, .access space r.2 (match c.phase with
      | .done _ => gen
      | _ => r.1.mem.changes))
  | .madvise space next stop call any => madviseStep v limit space next stop any call

def Thread.space : Thread → Option Nat
  | .idle => none
  | .access a _ _ => some a
  | .madvise a _ _ _ _ => some a

def World.advance (w : World) (i : Nat) (limit : Option Nat) : World :=
  match w.threads[i]? with
  | none => w
  | some t =>
    match t.space with
    | none => w
    | some a =>
      match w.spaces.lookup a with
      | none => w
      | some mm =>
        let r := threadStep ⟨w.host, mm.mem⟩ limit t
        { w with
          host := r.1.host
          spaces := w.spaces.insert a { mm with mem := r.1.mem }
          threads := w.threads.set i r.2 }

/-- The pointer a thread may store through: granted by `mem_ptr(MEM_WRITE)`, at the
generation its address space still has. -/
def World.granted (w : World) (i : Nat) : Option (Nat × PtrCall × HostPtr) :=
  match w.threads[i]? with
  | some (.access a c gen) =>
    match c.type, c.phase, w.spaces.lookup a with
    | .write, .done (some ptr), some mm =>
      if gen = mm.mem.changes then some (a, c, ptr) else none
    | _, _, _ => none
  | _ => none

/-- A store stays inside the page its pointer was granted for. -/
def World.store (w : World) (i : Nat) (bytes : List UInt8) : World :=
  match w.granted i with
  | none => w
  | some (_, c, ptr) =>
    if pgOffset c.addr + bytes.length ≤ pageSize then
      { w with host := w.host.write ptr bytes }
    else w

def World.exec (w : World) : Op → World
  | .mmNew => { w with spaces := w.spaces.insert w.nextSpace Kernel.mmNew,
                       nextSpace := w.nextSpace + 1 }
  | .mmRetain a =>
    match w.spaces.lookup a with
    | none => w
    | some mm => { w with spaces := w.spaces.insert a { mm with refcount := mm.refcount + 1 } }
  | .mmRelease a => w.release a
  | .fork a => w.fork a
  | .mmap a args => w.withSpace a fun v => (sysMmap v args).2
  | .munmap a addr len => w.withSpace a fun v => (sysMunmap v addr.toNat len.toNat).2
  | .mprotect a addr len prot =>
    w.withSpace a fun v => (sysMprotect v addr.toNat len.toNat prot).2
  | .mremap a addr oldLen newLen mayMove badFlags hole =>
    w.withSpace a fun v =>
      (sysMremap v addr.toNat oldLen.toNat newLen.toNat mayMove badFlags hole).2
  | .setBrk a addr =>
    match w.spaces.lookup a with
    | none => w
    | some mm =>
      let mm' := { mm with startBrk := addr.toNat, brk := addr.toNat }
      { w with spaces := w.spaces.insert a mm' }
  | .brk a newBrk => w.brk a newBrk.toNat
  | .madvise a addr len advice => w.madvise a addr.toNat len.toNat advice
  | .ptSetFlags a span flags =>
    w.withSpace a fun v => (Kernel.ptSetFlags v span.start span.pages flags).2
  | .ptUnmapAlways a span =>
    w.withSpace a fun v => Kernel.ptUnmapAlways v span.start span.pages
  | .ptMapNothing a span flags =>
    w.withSpace a fun v => (Kernel.ptMapNothing v span.start span.pages flags).2
  | .ptMap a span memory offset flags =>
    w.withSpace a fun v => (Kernel.ptMap v span.start span.pages memory offset flags).2
  | .ptMapLazy a span flags =>
    w.withSpace a fun v => (Kernel.ptMapLazy v span.start span.pages flags).2
  | .access a addr type inJit =>
    { w with threads := w.threads ++ [.access a (PtrCall.start addr.toNat type inJit) 0] }
  | .advance i limit => w.advance i limit
  | .store i bytes => w.store i bytes

/-- A step: an operation, and the outcomes of the host calls it makes. -/
structure Label where
  op : Op
  script : List Bool

def step (w : World) (l : Label) : World :=
  { w with host := { w.host with script := l.script } }.exec l.op

/-- Before the first process: no address space, no object, nothing charged. -/
def World.init : World :=
  { host := { datas := ∅, bytes := fun _ _ => 0, nextData := 0, anonPageCount := 0,
              script := [] }
    spaces := ∅
    nextSpace := 0
    threads := [] }

end IosLinuxkit.Kernel
