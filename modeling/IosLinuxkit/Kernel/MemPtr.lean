import IosLinuxkit.Kernel.Memory

/-!
# `mem_ptr`: resolving a guest address, one lock interval at a time

`mem_ptr` is called with the address space read-locked and drops that lock whenever it has
to change the page table: to grow the stack, to materialise a lazily reserved page, or to
break a copy-on-write page. Other threads run between the intervals. The model therefore
cuts the function at every lock hand-over: a `PtrCall` is a call in progress, its `phase`
says which interval comes next, and `memPtrStep` executes that one interval. Everything a
phase needs it reads again from the page table, as the source does after each upgrade.

In JIT context the write lock is only tried; the outcome of the `trylock` comes from the
host script.
-/

namespace IosLinuxkit.Kernel

/-- `MEM_READ`, `MEM_WRITE`, `MEM_WRITE_PTRACE`. -/
inductive AccessType where
  | read
  | write
  | writePtrace
  deriving Repr, DecidableEq

/-- A host pointer: a region and an offset into it. -/
structure HostPtr where
  data : Nat
  offset : Nat
  deriving Repr, DecidableEq

/-- The lock interval of `mem_ptr` that is executed next. -/
inductive PtrPhase where
  /-- read-locked: entry, reservation or growable stack? -/
  | lookup
  /-- write-locked: grow the stack by the faulting page -/
  | grow
  /-- write-locked: map the page of a lazy reservation -/
  | materialise
  /-- read-locked, the label `have_entry` -/
  | haveEntry
  /-- write-locked: give the page a private copy of its backing -/
  | breakCow
  /-- read-locked: the final `mem_ptr_nofault` -/
  | resolve
  | done (ptr : Option HostPtr)
  deriving Repr, DecidableEq

/-- A call of `mem_ptr` in progress. -/
structure PtrCall where
  addr : Nat
  type : AccessType
  inJit : Bool
  phase : PtrPhase
  deriving Repr, DecidableEq

abbrev stackTopPage : Nat := 0xffffe

/-- The `RLIMIT_STACK` test; `none` is `RLIM_INFINITY_`. -/
def withinStackLimit (limit : Option Nat) (p : Nat) : Bool :=
  match limit with
  | none => true
  | some l => ((stackTopPage + wordMod - p) % wordMod * pageSize) % wordMod ≤ l

/-- The next mapped page exists and is a writable stack page. -/
def growsDownTo (m : Mem) (p : Nat) : Bool :=
  let q := memNextPage m p
  q < memPages &&
    match memPt m q with
    | none => false
    | some e => e.flags &&& (Flags.growsdown ||| Flags.write)
        == Flags.growsdown ||| Flags.write

def memPtrNofault (m : Mem) (addr : Nat) (type : AccessType) : Option HostPtr :=
  match memPt m (page addr) with
  | none => none
  | some e =>
    if type = .write ∧ ¬ Flags.writable e.flags then none
    else some ⟨e.data, e.offset + pgOffset addr⟩

def lookupPhase (m : Mem) (limit : Option Nat) (p : Nat) : PtrPhase :=
  if (memPt m p).isSome then .haveEntry
  else if (memFindReservation m p).isSome then .materialise
  else if !growsDownTo m p then .done none
  else if withinStackLimit limit p then .grow
  else .done none

/-- Stack growth under the write lock, with everything checked again. -/
def growStack (v : Vm) (limit : Option Nat) (p : Nat) : Vm :=
  if (memPt v.mem p).isNone && growsDownTo v.mem p && withinStackLimit limit p &&
      (memFindReservation v.mem p).isNone then
    let r := ptMapNothing v p 1 (Flags.read ||| Flags.write ||| Flags.growsdown)
    if 0 ≤ r.1 then { r.2 with mem := r.2.mem.changed } else r.2
  else v

/-- The reservation is looked up again under the write lock; an inaccessible one is not
materialised. -/
def materialisePage (v : Vm) (p : Nat) : Vm :=
  match memPt v.mem p, memFindReservation v.mem p with
  | none, some res =>
    if Flags.any res.flags Flags.rwx then
      let r := ptMapNothing v p 1 (res.flags &&& ~~~Flags.growsdown)
      if 0 ≤ r.1 then { r.2 with mem := r.2.mem.changed } else r.2
    else v
  | _, _ => v

/-- The phase after `have_entry`. -/
def haveEntryPhase (m : Mem) (p : Nat) (type : AccessType) : PtrPhase :=
  match memPt m p with
  | none => .resolve
  | some e =>
    if type = .read then .resolve
    else if type ≠ .writePtrace ∧ ¬ Flags.any e.flags Flags.write then .done none
    else if Flags.any e.flags Flags.cow ∨ type = .writePtrace then .breakCow
    else .resolve

/-- The page's current bytes, as `memcpy` takes them. -/
def pageBytes (h : Host) (e : PtEntry) : Nat → UInt8 :=
  fun i => if i < pageSize then h.bytes e.data (e.offset + i) else 0

def copyFlags (type : AccessType) (f : Flags) : Flags :=
  let f := f &&& ~~~Flags.cow
  if type = .writePtrace then f ||| Flags.write else f

/-- The copy-on-write break under the write lock; the result says whether it succeeded.
Nothing is retained from before the upgrade, and a failure leaves the entry alone. -/
def breakCow (v : Vm) (p : Nat) (type : AccessType) : Bool × Vm :=
  match memPt v.mem p with
  | none => (true, v)
  | some e =>
    if Flags.any e.flags Flags.cow ∨ type = .writePtrace then
      let flags := copyFlags type e.flags
      if !Flags.any e.flags Flags.rwx || (type = .write && !Flags.any e.flags Flags.write) then
        (false, v)
      else
        let precharged := !Flags.charged e.flags && Flags.charged flags
        match reserveIf v.host precharged 1 with
        | none => (false, v)
        | some h =>
          let r := refundIf (mapRegion { v with host := h } p 1 (pageBytes v.host e) flags
            precharged) precharged 1
          (0 ≤ r.1, r.2)
    else (true, v)

/-- The write lock of an upgrade: waited for outside the JIT, only tried inside it. -/
def acquireWrite (h : Host) (inJit : Bool) : Bool × Host :=
  if inJit then h.attempt else (true, h)

/-- One lock interval of `mem_ptr`. -/
def memPtrStep (v : Vm) (limit : Option Nat) (c : PtrCall) : Vm × PtrCall :=
  let p := page c.addr
  match c.phase with
  | .lookup => (v, { c with phase := lookupPhase v.mem limit p })
  | .grow =>
    let a := acquireWrite v.host c.inJit
    if a.1 then (growStack { v with host := a.2 } limit p, { c with phase := .haveEntry })
    else ({ v with host := a.2 }, { c with phase := .done none })
  | .materialise =>
    let a := acquireWrite v.host c.inJit
    if a.1 then (materialisePage { v with host := a.2 } p, { c with phase := .haveEntry })
    else ({ v with host := a.2 }, { c with phase := .done none })
  | .haveEntry => (v, { c with phase := haveEntryPhase v.mem p c.type })
  | .breakCow =>
    let r := breakCow v p c.type
    (r.2, { c with phase := if r.1 then .resolve else .done none })
  | .resolve => (v, { c with phase := .done (memPtrNofault v.mem c.addr c.type) })
  | .done _ => (v, c)

def PtrCall.start (addr : Nat) (type : AccessType) (inJit : Bool) : PtrCall :=
  { addr := addr, type := type, inJit := inJit, phase := .lookup }

def memPtrSteps (limit : Option Nat) : Nat → Vm × PtrCall → Vm × PtrCall
  | 0, s => s
  | n + 1, s => memPtrSteps limit n (memPtrStep s.1 limit s.2)

/-- `mem_ptr` without interference: at most five lock intervals lead to its result. -/
def memPtr (v : Vm) (limit : Option Nat) (addr : Nat) (type : AccessType) (inJit : Bool) :
    Vm × Option HostPtr :=
  let r := memPtrSteps limit 5 (v, PtrCall.start addr type inJit)
  (r.1, match r.2.phase with
    | .done ptr => ptr
    | _ => none)

end IosLinuxkit.Kernel
