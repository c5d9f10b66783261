import IosLinuxkit.Kernel.MemPtr
import IosLinuxkit.Lib.Run

/-!
# Host protections of guest memory

What `kernel/memory.c` asks of the host besides memory: the protections that `mmap` gives and `mprotect`
changes, a host page at a time. They go beside the page tables of `Kernel.Memory`, whose functions make the
steps.
-/

namespace IosLinuxkit.HostProt

open Kernel

/-- `real_page_size`, and the address of `vdso_data`, which is not the start of a host page. -/
structure Machine where
  realPageSize : Nat
  multiple : pageSize ∣ realPageSize
  positive : 0 < realPageSize
  vdsoData : Nat

structure Prot where
  read : Bool
  write : Bool
  deriving DecidableEq

/-- A page of the memory of an object, or of the program's data, where `vdso_data` is. -/
abbrev HostPage := Option Nat × Nat

/-- The address spaces and the protections. All objects that map the vdso have the same memory. -/
structure HostMem where
  host : Host
  spaces : Nat → Mem
  vdso : Nat → Bool
  prot : HostPage → Prot

/-- Where byte `i` of the page of an entry is. `data->data` is the start of a host page, but for the vdso. -/
def hostPage (mc : Machine) (vdso : Nat → Bool) (e : PtEntry) (i : Nat) : HostPage :=
  if vdso e.data then (none, (mc.vdsoData + e.offset + i) / mc.realPageSize)
  else (some e.data, (e.offset + i) / mc.realPageSize)

/-! ## The calls to the host -/

/-- `host_prot` of `pt_map_nothing` -/
def nothingProt (flags : Flags) : Prot :=
  if Flags.any flags Flags.rwx then ⟨true, true⟩ else ⟨false, false⟩

/-- The condition for a call of `mprotect` in `pt_set_flags`. -/
def grows (flags old : Flags) : Bool := Flags.any (flags &&& ~~~old) (Flags.read ||| Flags.write)

/-- `prot` of `pt_set_flags` -/
def raisedProt (flags : Flags) : Prot := ⟨true, Flags.any flags Flags.write⟩

/-- The `mprotect` calls of `pt_set_flags`: each is for one host page, the one of the first byte. The loop
goes on with the state that `setFlagsLoop` goes on with. -/
def mprotectLoop (mc : Machine) (vdso : Nat → Bool) (flags : Flags) :
    List Nat → Vm → (HostPage → Prot) → HostPage → Prot
  | [], _, prot => prot
  | p :: rest, v, prot =>
    match memPt v.mem p with
    | none => mprotectLoop mc vdso flags rest v prot
    | some e =>
      let a := if grows flags e.flags then v.host.attempt else (true, v.host)
      if a.1 then
        let new := newFlags flags e.flags
        let delta := boolToInt (Flags.charged new) - boolToInt (Flags.charged e.flags)
        mprotectLoop mc vdso flags rest
          { host := a.2.addAnon delta, mem := v.mem.setEntry p { e with flags := new } }
          (if grows flags e.flags then Function.update prot (hostPage mc vdso e 0) (raisedProt flags)
            else prot)
      else prot

/-- The protections after `pt_set_flags`. -/
def setFlagsProt (mc : Machine) (vdso : Nat → Bool) (v : Vm) (start pages : Nat) (flags : Flags)
    (prot : HostPage → Prot) : HostPage → Prot :=
  if (pageRange start pages).all fun p => (memPt v.mem p).isSome || (memFindReservation v.mem p).isSome then
    mprotectLoop mc vdso flags (pageRange start pages) v prot
  else prot

/-! ## The system -/

/-- The memory that a caller of `pt_map` has: mapped for the call, with the protections of its pages, or
`vdso_data`. -/
inductive Memory where
  | mapped (prot : Nat → Prot)
  | vdso

namespace HostMem

def vm (st : HostMem) (a : Nat) : Vm := ⟨st.host, st.spaces a⟩

def put (st : HostMem) (a : Nat) (v : Vm) : HostMem :=
  { st with host := v.host, spaces := Function.update st.spaces a v.mem }

def supply (st : HostMem) : Memory → HostMem
  | .mapped prot =>
    { st with
      vdso := Function.update st.vdso st.host.nextData false
      prot := fun q => if q.1 = some st.host.nextData then prot q.2 else st.prot q }
  | .vdso => { st with vdso := Function.update st.vdso st.host.nextData true }

end HostMem

/-- One call. `breakCow` is the section of `mem_ptr` that copies a page. -/
inductive ProtOp where
  | map (a start pages : Nat) (contents : Option (Nat → UInt8)) (memory : Memory) (offset : Nat)
      (flags : Flags)
  | mapNothing (a start pages : Nat) (flags : Flags)
  | setFlags (a start pages : Nat) (flags : Flags)
  | unmap (a start pages : Nat)
  | copyOnWrite (src dst start pages : Nat)
  | breakCow (a page : Nat) (type : AccessType)

def protStep (mc : Machine) (st : HostMem) : ProtOp → HostMem
  | .map a start pages contents memory offset flags =>
    (st.supply memory).put a (ptMap (st.vm a) start pages contents offset flags).2
  | .mapNothing a start pages flags =>
    (st.supply (.mapped fun _ => nothingProt flags)).put a (ptMapNothing (st.vm a) start pages flags).2
  | .setFlags a start pages flags =>
    { st with prot := setFlagsProt mc st.vdso (st.vm a) start pages flags st.prot }.put a
      (ptSetFlags (st.vm a) start pages flags).2
  | .unmap a start pages => st.put a (ptUnmapAlways (st.vm a) start pages)
  | .copyOnWrite src dst start pages =>
    if src = dst then st
    else
      let r := ptCopyOnWrite st.host (st.spaces src) (st.spaces dst) start pages
      { st with
        host := r.1
        spaces := Function.update (Function.update st.spaces src r.2.1) dst r.2.2 }
  | .breakCow a page type =>
    (st.supply (.mapped fun _ => ⟨true, true⟩)).put a (breakCow (st.vm a) page type).2

/-- No address space maps anything. What may fail is in the script of the host. -/
def HostMem.start (script : List Bool) (prot : HostPage → Prot) : HostMem :=
  { host := ⟨∅, fun _ _ => 0, 0, 0, script⟩
    spaces := fun _ => memInit
    vdso := fun _ => false
    prot := prot }

/-! ## What ought to hold -/

/-- A protection that is good enough for the flags. -/
structure Grants (p : Prot) (flags : Flags) : Prop where
  read : Flags.any flags Flags.read = true → p.read = true
  write : Flags.writable flags = true → p.write = true

def Covered (mc : Machine) (st : HostMem) : Prop :=
  ∀ a s e, (st.spaces a).pt.lookup s = some e → ∀ i < pageSize,
    Grants (st.prot (hostPage mc st.vdso e i)) e.flags

/-- The memory that a caller of `pt_map` has is good enough for the flags. -/
def Supplied (st : HostMem) (flags : Flags) : Memory → Prop
  | .mapped prot => ∀ n, Grants (prot n) flags
  | .vdso => ∀ n, Grants (st.prot (none, n)) flags

/-- An entry that `pt_set_flags` does not meet: of another address space, or of another page. -/
def Outside (st : HostMem) (a start pages : Nat) (f : PtEntry) : Prop :=
  ∃ b s, (st.spaces b).pt.lookup s = some f ∧ (b = a → s ∉ (pageRange start pages).map slot)

/-- `pt_set_flags` comes to its end. A page that gets more than it had is in one host page, and unless it
becomes writable no page outside of the range has write access to that host page. -/
structure KeepsSetFlags (mc : Machine) (st : HostMem) (a start pages : Nat) (flags : Flags) : Prop where
  succeeds : 0 ≤ (ptSetFlags (st.vm a) start pages flags).1
  onePage : ∀ p ∈ pageRange start pages, ∀ e, memPt (st.spaces a) p = some e → grows flags e.flags = true →
    ∀ i < pageSize, hostPage mc st.vdso e i = hostPage mc st.vdso e 0
  spared : ∀ p ∈ pageRange start pages, ∀ e, memPt (st.spaces a) p = some e → grows flags e.flags = true →
    Flags.any flags Flags.write = false → ∀ f, Outside st a start pages f →
      ∀ i < pageSize, hostPage mc st.vdso f i = hostPage mc st.vdso e 0 → Flags.writable f.flags = false

def Keeps (mc : Machine) (st : HostMem) : ProtOp → Prop
  | .map _ _ _ _ memory _ flags => Supplied st flags memory
  | .setFlags a start pages flags => KeepsSetFlags mc st a start pages flags
  | _ => True

end IosLinuxkit.HostProt
