import Mathlib.Algebra.Group.Nat.Defs
import IosLinuxkit.Kernel.CopyLemmas
import IosLinuxkit.Lib.Run

/-!
# The TLB of a thread

`src/emu/tlb.c` and `tlb.h`, over the address spaces of `Kernel.Memory`. One thread fills and
reads its TLB; the others change the page table between any two of its steps.

* `access`, `missNext` — `__tlb_read_ptr` and `__tlb_write_ptr`, and `tlb_handle_miss` one step
  at a time: load the generation, walk the page table (`mem_ptr`, one lock interval a step),
  load the generation again, look at the page once more for the writable tag, fill the entry.
* **`advances_mutation`** — every function shows its change, but for a `pt_set_flags` that fails
  on its way.
-/

namespace IosLinuxkit.Kernel

/-! ## Entries -/

/-- `TLB_PAGE(addr)` -/
def tlbPage (addr : Nat) : Nat := addr - addr % pageSize

/-- `TLB_INDEX(addr)`, with 13 `TLB_BITS` -/
def tlbIndex (addr : Nat) : Nat := (addr >>> 12 ^^^ addr >>> 25) &&& 8191

/-- `struct tlb_entry`; `none` is `TLB_PAGE_EMPTY`, and `data` is the host page, which the
source keeps less the guest's address. -/
structure TlbEntry where
  page : Option Nat
  pageIfWritable : Option Nat
  data : HostPtr
  gen : Nat

def emptyEntry : TlbEntry := { page := none, pageIfWritable := none, data := ⟨0, 0⟩, gen := 0 }

structure Tlb where
  /-- 32 bits wide -/
  memChanges : Nat
  dirtyPage : Option Nat
  segfaultAddr : Nat
  entries : Nat → TlbEntry

/-- Where the thread is in `tlb_handle_miss`. -/
inductive TlbPhase where
  | idle
  /-- at the top of the loop -/
  | load (addr : Nat) (type : AccessType) (attempt : Nat)
  /-- in `mmu_translate` -/
  | walk (addr : Nat) (type : AccessType) (attempt gen : Nat) (call : PtrCall)
  | reload (addr : Nat) (type : AccessType) (attempt gen : Nat) (ptr : Option HostPtr)
  /-- the loop has had its nine attempts -/
  | giveUp (addr : Nat) (type : AccessType) (ptr : Option HostPtr)
  /-- out of the loop -/
  | tag (addr : Nat) (type : AccessType) (gen : Nat) (ptr : Option HostPtr)
  | fill (addr : Nat) (type : AccessType) (gen : Nat) (ptr : HostPtr) (writable : Bool)

structure TlbState where
  vm : Vm
  tlb : Tlb
  phase : TlbPhase

/-! ## Steps of the thread -/

def tlbFlush (m : Mem) (b : Tlb) : Tlb :=
  { b with memChanges := m.changes % 2 ^ 32, entries := fun _ => emptyEntry }

/-- `tlb_refresh` with the `mmu` the TLB has. -/
def tlbRefresh (s : TlbState) : TlbState :=
  if s.tlb.memChanges = s.vm.mem.changes then s
  else { s with tlb := tlbFlush s.vm.mem { s.tlb with dirtyPage := none } }

def TlbEntry.tagFor (en : TlbEntry) (type : AccessType) : Option Nat :=
  if type = .read then en.page else en.pageIfWritable

/-- What `__tlb_read_ptr` and `__tlb_write_ptr` return on a hit. -/
def tlbHit (s : TlbState) (addr : Nat) (type : AccessType) : Option HostPtr :=
  let en := s.tlb.entries (tlbIndex addr)
  if en.tagFor type = some (tlbPage addr) ∧ en.gen = s.vm.mem.changes then
    some ⟨en.data.data, en.data.offset + pgOffset addr⟩
  else none

def access (addr : Nat) (type : AccessType) (s : TlbState) : TlbState :=
  match s.phase with
  | .idle =>
    match tlbHit s addr type with
    | some _ =>
      if type = .read then s
      else { s with tlb := { s.tlb with dirtyPage := some (tlbPage addr) } }
    | none => { s with phase := .load addr type 0 }
  | _ => s

/-- The next step of `tlb_handle_miss`; `inJit` and `limit` are for `mem_ptr`. -/
def missNext (inJit : Bool) (limit : Option Nat) (s : TlbState) : TlbState :=
  match s.phase with
  | .idle => s
  | .load addr type attempt =>
    let gen := s.vm.mem.changes
    let b := if gen ≠ s.tlb.memChanges then tlbFlush s.vm.mem s.tlb else s.tlb
    { s with
      tlb := { b with memChanges := gen % 2 ^ 32 }
      phase := .walk addr type attempt gen (PtrCall.start (tlbPage addr) type inJit) }
  | .walk addr type attempt gen call =>
    let r := memPtrStep s.vm limit call
    { s with
      vm := r.1
      phase := match r.2.phase with
        | .done ptr => .reload addr type attempt gen ptr
        | _ => .walk addr type attempt gen r.2 }
  | .reload addr type attempt gen ptr =>
    { s with
      phase :=
        if s.vm.mem.changes = gen then .tag addr type gen ptr
        else if 8 ≤ attempt then .giveUp addr type ptr
        else .load addr type (attempt + 1) }
  | .giveUp addr type ptr =>
    let gen := s.vm.mem.changes
    { s with
      tlb := { s.tlb with memChanges := gen % 2 ^ 32 }
      phase := .tag addr type gen ptr }
  | .tag addr type gen ptr =>
    match ptr with
    | none => { s with tlb := { s.tlb with segfaultAddr := addr }, phase := .idle }
    | some ptr =>
      let writable := type = .write ∨ (memPtrNofault s.vm.mem (tlbPage addr) .write).isSome
      { s with phase := .fill addr type gen ptr (decide writable) }
  | .fill addr _ gen ptr writable =>
    let en : TlbEntry :=
      { page := some (tlbPage addr)
        pageIfWritable := if writable then some (tlbPage addr) else none
        data := ptr
        gen := gen }
    { s with
      tlb := { s.tlb with
        dirtyPage := some (tlbPage addr)
        entries := Function.update s.tlb.entries (tlbIndex addr) en }
      phase := .idle }

/-! ## What other threads do -/

inductive Mutation where
  | map (start pages : Nat) (memory : Option (Nat → UInt8)) (offset : Nat) (flags : Flags)
      (precharged : Bool)
  | mapNothing (start pages : Nat) (flags : Flags)
  | mapLazy (start pages : Nat) (flags : Flags)
  | unmap (start pages : Nat)
  | unmapAlways (start pages : Nat)
  | setFlags (start pages : Nat) (flags : Flags)
  /-- a fork to `dst` -/
  | copyOnWrite (dst : Mem) (start pages : Nat)
  /-- `mem_changed_pub` -/
  | changed
  /-- a lock interval of somebody's `mem_ptr` -/
  | ptr (limit : Option Nat) (call : PtrCall)

def Mutation.apply (v : Vm) : Mutation → Vm
  | .map start pages memory offset flags precharged =>
    (ptMapAccounted v start pages memory offset flags precharged).2
  | .mapNothing start pages flags => (ptMapNothing v start pages flags).2
  | .mapLazy start pages flags => (ptMapLazy v start pages flags).2
  | .unmap start pages => (ptUnmap v start pages).2
  | .unmapAlways start pages => ptUnmapAlways v start pages
  | .setFlags start pages flags => (ptSetFlags v start pages flags).2
  | .copyOnWrite dst start pages =>
    let r := ptCopyOnWrite v.host v.mem dst start pages
    { host := r.1, mem := r.2.1 }
  | .changed => { v with mem := v.mem.changed }
  | .ptr limit call => (memPtrStep v limit call).1

/-! ## Runs -/

inductive TlbEvent where
  | access (addr : Nat) (type : AccessType)
  | missNext (inJit : Bool) (limit : Option Nat)
  | refresh
  /-- the thread goes on in another address space -/
  | switch (mem : Mem)
  | mutate (op : Mutation)

def tlbStep (s : TlbState) : TlbEvent → TlbState
  | .access addr type => Kernel.access addr (if type = .read then .read else .write) s
  | .missNext inJit limit => Kernel.missNext inJit limit s
  | .refresh =>
    match s.phase with
    | .idle => tlbRefresh s
    | _ => s
  | .switch mem =>
    match s.phase with
    | .idle =>
      { s with
        vm := { s.vm with mem }
        tlb := tlbFlush mem { s.tlb with dirtyPage := none } }
    | _ => s
  | .mutate op => { s with vm := op.apply s.vm }

def tlbInit (v : Vm) : TlbState :=
  { vm := v
    tlb := tlbFlush v.mem
      { memChanges := 0, dirtyPage := none, segfaultAddr := 0, entries := fun _ => emptyEntry }
    phase := .idle }

/-! ## A change of the table shows in the generation -/

/-- `mmu.changes` does not go back, and while it stays the table does. -/
def Mem.Advances (m m' : Mem) : Prop :=
  m.changes ≤ m'.changes ∧ (m'.changes = m.changes → m'.pt = m.pt)

theorem Mem.Advances.refl (m : Mem) : m.Advances m := ⟨le_refl _, fun _ => rfl⟩

theorem Mem.Advances.of_lt {m m' : Mem} (h : m.changes < m'.changes) : m.Advances m' :=
  ⟨h.le, fun heq => absurd heq h.ne'⟩

theorem Mem.Advances.of_pt_eq {m m' : Mem} (hpt : m'.pt = m.pt)
    (hc : m.changes ≤ m'.changes) : m.Advances m' :=
  ⟨hc, fun _ => hpt⟩

theorem Mem.Advances.changed {m m' : Mem} (h : m.Advances m') : m.Advances m'.changed :=
  Mem.Advances.of_lt (Nat.lt_succ_of_le h.1)

theorem advances_ptUnmapAlways (v : Vm) (start pages : Nat) :
    v.mem.Advances (ptUnmapAlways v start pages).mem := by
  apply Mem.Advances.of_lt
  rw [ptUnmapAlways_changes]
  exact Nat.lt_succ_self _

theorem advances_ptUnmap (v : Vm) (start pages : Nat) :
    v.mem.Advances (ptUnmap v start pages).2.mem := by
  unfold ptUnmap
  split
  · exact advances_ptUnmapAlways v start pages
  · exact Mem.Advances.refl v.mem

theorem advances_ptMapAccounted (v : Vm) (start pages : Nat)
    (memory : Option (Nat → UInt8)) (offset : Nat) (flags : Flags) (precharged : Bool) :
    v.mem.Advances (ptMapAccounted v start pages memory offset flags precharged).2.mem := by
  unfold ptMapAccounted
  split
  · exact Mem.Advances.refl _
  case h_2 contents =>
    dsimp only
    split
    · have hle := mapPages_changes_le v.host.attempt.2.nextData start offset flags
        (pageRange start pages)
        ⟨v.host.attempt.2.newData ((pages * pageSize + offset) % wordMod) contents, v.mem⟩
      exact Mem.Advances.of_lt (Nat.lt_succ_of_le hle)
    · exact Mem.Advances.refl _

theorem advances_mapRegion (v : Vm) (start pages : Nat) (contents : Nat → UInt8)
    (flags : Flags) (precharged : Bool) :
    v.mem.Advances (mapRegion v start pages contents flags precharged).2.mem := by
  unfold mapRegion
  dsimp only
  split
  · exact advances_ptMapAccounted ⟨v.host.attempt.2, v.mem⟩ _ _ _ _ _ _
  · exact Mem.Advances.refl _

theorem advances_ptMapNothing (v : Vm) (start pages : Nat) (flags : Flags) :
    v.mem.Advances (ptMapNothing v start pages flags).2.mem := by
  unfold ptMapNothing
  split
  · exact Mem.Advances.refl _
  dsimp only
  split
  · exact Mem.Advances.refl _
  case h_2 h _ =>
    rw [(refundIf_mem _ _ _).1]
    exact advances_mapRegion ⟨h, v.mem⟩ _ _ _ _ _

theorem advances_ptMapLazy (v : Vm) (start pages : Nat) (flags : Flags) :
    v.mem.Advances (ptMapLazy v start pages flags).2.mem := by
  unfold ptMapLazy
  dsimp only
  split
  · exact Mem.Advances.of_pt_eq rfl (Nat.le_succ _)
  · exact Mem.Advances.refl _

theorem setFlagsLoop_changes (flags : Flags) (ps : List Nat) :
    ∀ v : Vm, (setFlagsLoop flags ps v).2.mem.changes = v.mem.changes := by
  induction ps with
  | nil => exact fun _ => rfl
  | cons p rest ih =>
    intro v
    unfold setFlagsLoop
    split
    · exact ih v
    dsimp only
    split_ifs
    · exact ih _
    · rfl
    · exact ih _
    · rfl

theorem advances_ptSetFlags (v : Vm) (start pages : Nat) (flags : Flags)
    (hok : 0 ≤ (ptSetFlags v start pages flags).1) :
    v.mem.Advances (ptSetFlags v start pages flags).2.mem := by
  unfold ptSetFlags at hok ⊢
  split
  case isFalse => exact Mem.Advances.refl _
  case isTrue hall =>
    rw [if_pos hall] at hok
    dsimp only at hok ⊢
    have hloop := setFlagsLoop_changes flags (pageRange start pages) v
    have hres := (memSetReservationFlags_spec
      (setFlagsLoop flags (pageRange start pages) v).2 start pages flags).2.2
    split
    case isTrue hneg =>
      rw [if_pos hneg] at hok
      omega
    case isFalse hneg =>
      rw [if_neg hneg] at hok
      split
      case isTrue hneg' =>
        rw [if_pos hneg'] at hok
        omega
      case isFalse =>
        apply Mem.Advances.of_lt
        rw [changed_changes, hres, hloop]
        exact Nat.lt_succ_self _

theorem advances_growStack (v : Vm) (limit : Option Nat) (p : Nat) :
    v.mem.Advances (growStack v limit p).mem := by
  unfold growStack
  split
  · dsimp only
    have h := advances_ptMapNothing v p 1 (Flags.read ||| Flags.write ||| Flags.growsdown)
    split
    · exact h.changed
    · exact h
  · exact Mem.Advances.refl _

theorem advances_materialisePage (v : Vm) (p : Nat) : v.mem.Advances (materialisePage v p).mem := by
  unfold materialisePage
  split
  case h_1 res _ _ =>
    split
    · dsimp only
      have h := advances_ptMapNothing v p 1 (res.flags &&& ~~~Flags.growsdown)
      split
      · exact h.changed
      · exact h
    · exact Mem.Advances.refl _
  case h_2 => exact Mem.Advances.refl _

theorem advances_breakCow (v : Vm) (p : Nat) (type : AccessType) :
    v.mem.Advances (breakCow v p type).2.mem := by
  unfold breakCow
  split
  · exact Mem.Advances.refl _
  split
  · dsimp only
    split
    · exact Mem.Advances.refl _
    split
    · exact Mem.Advances.refl _
    case h_2 h _ =>
      rw [(refundIf_mem _ _ _).1]
      exact advances_mapRegion ⟨h, v.mem⟩ _ _ _ _ _
  · exact Mem.Advances.refl _

theorem advances_memPtrStep (v : Vm) (limit : Option Nat) (c : PtrCall) :
    v.mem.Advances (memPtrStep v limit c).1.mem := by
  unfold memPtrStep
  dsimp only
  cases c.phase with
  | lookup => exact Mem.Advances.refl _
  | grow =>
    dsimp only
    split
    · exact advances_growStack ⟨(acquireWrite v.host c.inJit).2, v.mem⟩ limit (page c.addr)
    · exact Mem.Advances.refl _
  | materialise =>
    dsimp only
    split
    · exact advances_materialisePage ⟨(acquireWrite v.host c.inJit).2, v.mem⟩ (page c.addr)
    · exact Mem.Advances.refl _
  | haveEntry => exact Mem.Advances.refl _
  | breakCow => exact advances_breakCow v _ _
  | resolve => exact Mem.Advances.refl _
  | done ptr => exact Mem.Advances.refl _

/-- The mutations that show: all but a `pt_set_flags` that returns an error. -/
def Mutation.shows (v : Vm) : Mutation → Prop
  | .setFlags start pages flags => 0 ≤ (ptSetFlags v start pages flags).1
  | _ => True

theorem advances_mutation {v : Vm} (op : Mutation) (h : op.shows v) :
    v.mem.Advances (op.apply v).mem := by
  cases op with
  | map start pages memory offset flags precharged =>
    exact advances_ptMapAccounted v start pages memory offset flags precharged
  | mapNothing start pages flags => exact advances_ptMapNothing v start pages flags
  | mapLazy start pages flags => exact advances_ptMapLazy v start pages flags
  | unmap start pages => exact advances_ptUnmap v start pages
  | unmapAlways start pages => exact advances_ptUnmapAlways v start pages
  | setFlags start pages flags => exact advances_ptSetFlags v start pages flags h
  | copyOnWrite dst start pages =>
    exact Mem.Advances.of_lt (ptCopyOnWrite_spec v.host v.mem dst start pages).src_changes
  | changed => exact (Mem.Advances.refl v.mem).changed
  | ptr limit call => exact advances_memPtrStep v limit call

end IosLinuxkit.Kernel
