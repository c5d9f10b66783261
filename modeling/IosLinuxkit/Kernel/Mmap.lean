import IosLinuxkit.Kernel.MemPtr

/-!
# Address-space system calls

The model of `kernel/mmap.c`: `do_mmap` and its callers, `munmap`, `mremap`, `mprotect`,
`brk`, and the creation, copying and release of a `struct mm`. Each call holds the write
lock of its address space from the first check to the result, so each is one step.

The search for a hole is not modelled: its result, any page at all, is an argument of the
call. Guest results are integers, addresses non-negative and errors negative.
-/

namespace IosLinuxkit.Kernel

/-- `struct mm`, less the fields for procfs. -/
structure Mm where
  mem : Mem
  refcount : Nat
  startBrk : Nat
  brk : Nat

def mmNew : Mm := { mem := memInit, refcount := 1, startBrk := 0, brk := 0 }

/-! ## `mmap` -/

def eBADF : Int := -9
def eNODEV : Int := -19

abbrev userAddrMaxPage : Nat := 0xFFFFFFFFF
abbrev mmapHoleEnd : Nat := 0x100

/-- The `MMAP_*` flags of a request. -/
structure MmapFlags where
  shared : Bool
  isPrivate : Bool
  fixed : Bool
  anonymous : Bool
  noreserve : Bool
  deriving Repr, DecidableEq

/-- What the file descriptor of a request turns out to be: not open, without an `mmap`
operation, or a file whose host mapping has these contents (`none` when the host call
fails) starting `correction` bytes into the host page. -/
inductive FileArg where
  | badFd
  | noMmap
  | file (fd : Nat) (contents : Option (Nat → UInt8)) (correction : Nat)

/-- The outcome of `pt_find_hole` or `pt_find_hole_high`: a page, or `BAD_PAGE`, and the
`mmap_hint` it leaves. -/
structure HoleChoice where
  page : Nat
  hint : Nat
  deriving Repr, DecidableEq

structure MmapArgs where
  addr : Nat
  len : Nat
  prot : Flags
  flags : MmapFlags
  file : FileArg
  hole : HoleChoice

/-- `mem_pt(current->mem, page)->data->fd = fd_retain(fd)`. -/
def Host.setFd (h : Host) (d fd : Nat) : Host :=
  match h.datas.lookup d with
  | none => h
  | some x => { h with datas := h.datas.insert d { x with fd := some fd } }

/-- The caller's address is outside the guest's range or in the stack gap. -/
def badRange (p pages : Nat) : Bool :=
  p > userAddrMaxPage || pages > userAddrMaxPage - p ||
    (p < 0x100000 && p + pages > stackTopPage)

/-- The caller's address is used: it is acceptable, and free unless `MAP_FIXED`. -/
def hintUsed (m : Mem) (a : MmapArgs) (pages : Nat) : Bool :=
  a.addr ≠ 0 && !badRange (page a.addr) pages &&
    (a.flags.fixed || (ptIsHole m (page a.addr) pages &&
      !memRangeHasReservation m (page a.addr) pages))

/-- The page of a large `MAP_NORESERVE` arena, aligned when the caller gave no address. -/
def alignArena (m : Mem) (hinted : Bool) (p pages : Nat) : Nat :=
  let alignPages := min pages 0x40000
  let aligned := p / alignPages * alignPages
  if !hinted && decide (aligned ≥ mmapHoleEnd) && ptIsHole m aligned pages &&
      !memRangeHasReservation m aligned pages then aligned
  else p

/-- `page << PAGE_BITS` as a result, once the mapping was made. -/
def mappedAt (p : Nat) (r : Int × Vm) : Int × Vm :=
  if r.1 < 0 then r else ((p * pageSize % wordMod : Nat), r.2)

/-- `do_mmap` of anonymous memory at page `p`; a large `MAP_NORESERVE` arena becomes a lazy
reservation. -/
def mmapAnonymous (v : Vm) (noreserve hinted : Bool) (p pages : Nat) (prot : Flags) : Int × Vm :=
  if noreserve && decide (pages ≥ 0x10000) then
    let p := alignArena v.mem hinted p pages
    if !ptIsHole v.mem p pages || memRangeHasReservation v.mem p pages then (eNOMEM, v)
    else mappedAt p (ptMapLazy v p pages prot)
  else mappedAt p (ptMapNothing v p pages prot)

/-- `do_mmap` of a file at page `p`: the object behind the first page remembers the file. -/
def mmapFile (v : Vm) (p pages : Nat) (prot : Flags) : FileArg → Int × Vm
  | .badFd => (eBADF, v)
  | .noMmap => (eNODEV, v)
  | .file fd contents correction =>
    let r := ptMap v p pages contents correction prot
    if r.1 < 0 then r
    else
      match memPt r.2.mem p with
      | none => mappedAt p (0, r.2)
      | some e => mappedAt p (0, { r.2 with host := r.2.host.setFd e.data fd })

/-- `do_mmap` once the page is chosen. -/
def mmapAt (v : Vm) (a : MmapArgs) (hinted : Bool) (p pages : Nat) : Int × Vm :=
  let prot := if a.flags.shared then a.prot ||| Flags.shared else a.prot
  if a.flags.anonymous then mmapAnonymous v a.flags.noreserve hinted p pages prot
  else mmapFile v p pages prot a.file

def doMmap (v : Vm) (a : MmapArgs) : Int × Vm :=
  let pages := pageRoundUp a.len
  if pages = 0 then (eINVAL, v)
  else if a.addr ≠ 0 ∧ pgOffset a.addr ≠ 0 then (eINVAL, v)
  else if a.addr ≠ 0 ∧ badRange (page a.addr) pages ∧ a.flags.fixed then (eNOMEM, v)
  else if hintUsed v.mem a pages then mmapAt v a true (page a.addr) pages
  else
    let v := { v with mem := { v.mem with mmapHint := a.hole.hint } }
    if memPages ≤ a.hole.page then (eNOMEM, v) else mmapAt v a false a.hole.page pages

/-- `sys_mmap64` (and `mmap_common`). -/
def sysMmap (v : Vm) (a : MmapArgs) : Int × Vm :=
  if a.len = 0 then (eINVAL, v)
  else if Flags.any a.prot (~~~Flags.rwx) then (eINVAL, v)
  else if a.flags.isPrivate && a.flags.shared then (eINVAL, v)
  else doMmap v a

/-! ## `munmap`, `mprotect`, `mremap` -/

def sysMunmap (v : Vm) (addr len : Nat) : Int × Vm :=
  if pgOffset addr ≠ 0 then (eINVAL, v)
  else if len = 0 then (eINVAL, v)
  else (0, ptUnmapAlways v (page addr) (pageRoundUp len))

def sysMprotect (v : Vm) (addr len : Nat) (prot : Flags) : Int × Vm :=
  if pgOffset addr ≠ 0 then (eINVAL, v)
  else if Flags.any prot (~~~Flags.rwx) then (eINVAL, v)
  else ptSetFlags v (page addr) (pageRoundUp len) prot

/-- `memcpy` of one page of backing over another. -/
def Host.copyPage (h : Host) (dst src : PtEntry) : Host :=
  { h with bytes := fun d o =>
      if d = dst.data ∧ dst.offset ≤ o ∧ o < dst.offset + pageSize then
        h.bytes src.data (src.offset + (o - dst.offset))
      else h.bytes d o }

/-- The body of the copy loop of `mremap`'s move. -/
def copyMoved (m : Mem) (start newStart : Nat) (h : Host) (i : Nat) : Host :=
  match memPt m (newStart + i), memPt m (start + i) with
  | some dst, some src => h.copyPage dst src
  | _, _ => h

def copyPages (m : Mem) (start newStart : Nat) (is : List Nat) (h : Host) : Host :=
  is.foldl (copyMoved m start newStart) h

/-- `mremap` to another place: map the new range, copy, unmap the old one. -/
def mremapMove (v : Vm) (start oldPages newPages : Nat) (flags : Flags) (hole : HoleChoice) :
    Int × Vm :=
  let v := { v with mem := { v.mem with mmapHint := hole.hint } }
  if memPages ≤ hole.page then (eNOMEM, v)
  else
    let r := ptMapNothing v hole.page newPages flags
    if r.1 < 0 then r
    else
      let h := if Flags.any flags Flags.rwx then
          copyPages r.2.mem start hole.page (List.range oldPages) r.2.host
        else r.2.host
      mappedAt hole.page (0, ptUnmapAlways { r.2 with host := h } start oldPages)

/-- `sys_mremap`; the lengths are `dword_t`, `mayMove` is `MREMAP_MAYMOVE`, other flags are
refused. -/
def sysMremap (v : Vm) (addr oldLen newLen : Nat) (mayMove badFlags : Bool)
    (hole : HoleChoice) : Int × Vm :=
  if pgOffset addr ≠ 0 then (eINVAL, v)
  else if oldLen = 0 ∨ newLen = 0 then (eINVAL, v)
  else if badFlags then (eINVAL, v)
  else
    let start := page addr
    let oldPages := pageRoundUp32 oldLen
    let newPages := pageRoundUp32 newLen
    if newPages ≤ oldPages then
      let r := ptUnmap v (start + newPages) (oldPages - newPages)
      (if r.1 < 0 then eFAULT else (addr : Int), r.2)
    else
      match memPt v.mem start with
      | none => (eFAULT, v)
      | some e =>
        if (pageRange start oldPages).any fun p =>
            (memPt v.mem p).all fun f => f.flags != e.flags then (eFAULT, v)
        else if !Flags.any e.flags Flags.anonymous then (eFAULT, v)
        else if ptIsHole v.mem (start + oldPages) (newPages - oldPages) then
          let r := ptMapNothing v (start + oldPages) (newPages - oldPages) e.flags
          (if r.1 < 0 then r.1 else (addr : Int), r.2)
        else if !mayMove then (eNOMEM, v)
        else mremapMove v start oldPages newPages e.flags hole

/-! ## `brk` -/

/-- The pages a `brk` call adds (`pages_t` arithmetic). -/
def brkSize (brk newBrk : Nat) : Nat :=
  (pageRoundUp newBrk + (wordMod - pageRoundUp brk)) % wordMod

/-- The growing branch of `sys_brk`: the whole size is added to the counter, and given
back only when `pt_map_nothing` fails. The result says whether the heap grew. -/
def brkGrow (v : Vm) (brk newBrk : Nat) : Bool × Vm :=
  let start := pageRoundUp brk
  let size := brkSize brk newBrk
  if !ptIsHole v.mem start size then (false, v)
  else if v.host.anonPageCount + toLong size > anonMmapLimitPages then (false, v)
  else
    let r := ptMapNothing { v with host := v.host.addAnon (toLong size) } start size
      Flags.write
    if r.1 < 0 then (false, { r.2 with host := r.2.host.addAnon (-toLong size) })
    else (true, r.2)

/-- The shrinking branch of `sys_brk`. -/
def brkShrink (v : Vm) (brk newBrk : Nat) : Vm :=
  if pageRoundUp newBrk < pageRoundUp brk then
    ptUnmapAlways v (pageRoundUp newBrk) (pageRoundUp brk - pageRoundUp newBrk)
  else v

/-- `sys_brk`: the new break and the address space. -/
def sysBrk (v : Vm) (startBrk brk newBrk : Nat) : Nat × Vm :=
  if newBrk < startBrk then (brk, v)
  else if brk < newBrk then
    let r := brkGrow v brk newBrk
    (if r.1 then newBrk else brk, r.2)
  else if newBrk < brk then (newBrk, brkShrink v brk newBrk)
  else (newBrk, v)

end IosLinuxkit.Kernel
