import IosLinuxkit.Lib.Assoc

/-!
# Guest address spaces: page table, lazy reservations and the `pt_*` operations

The model of `kernel/memory.c` (with `kernel/memory.h`, `kernel/mm.h`, `emu/mmu.h`): the
page table of one address space, its list of lazy reservations, the host objects all
address spaces share (`struct data`, the bytes behind it, `anon_page_count`), and every
function that changes them.

* The four-level table is the finite map from its 36-bit index to entries. `PT_INDEX`
  masks the page number at every level, so pages that differ by a multiple of `MEM_PAGES`
  meet in one slot (`slot`).
* Host calls that can fail (`malloc`, `mmap`, `mprotect`, the write-lock `trylock`) take
  their outcome from `Host.script`, so that every failure pattern is a run of the model.

Host page protections and the `LEAK_DEBUG` fields are left out: nothing below reads them.
-/

namespace IosLinuxkit.Kernel

/-! ## Constants and page arithmetic -/

abbrev pageSize : Nat := 4096
/-- `MEM_PAGES` (and `BAD_PAGE`): one past the last page number. -/
abbrev memPages : Nat := 0x1000000000
/-- `uint64_t` arithmetic wraps here. -/
abbrev wordMod : Nat := 0x10000000000000000
abbrev anonMmapLimitPages : Int := 1048576

/-- `PAGE(addr)`. -/
def page (addr : Nat) : Nat := addr / pageSize

/-- `PGOFFSET(addr)`. -/
def pgOffset (addr : Nat) : Nat := addr % pageSize

/-- `PAGE_ROUND_UP(bytes)`, overflowing to zero as the macro's comment asks. -/
def pageRoundUp (bytes : Nat) : Nat := page ((bytes + pageSize - 1) % wordMod)

/-- `PAGE_ROUND_UP(bytes)` of a `dword_t`, whose sum is taken in 32 bits. -/
def pageRoundUp32 (bytes : Nat) : Nat := page ((bytes + pageSize - 1) % 0x100000000)

/-- The cast `(long)n` of a 64-bit count. -/
def toLong (n : Nat) : Int := (BitVec.ofNat 64 n).toInt

/-- The pages a loop `for (page = start; page < start + pages; page++)` visits. -/
def pageRange (start pages : Nat) : List Nat :=
  List.range' start ((start + pages) % wordMod - start)

def eNOMEM : Int := -12
def eFAULT : Int := -14
def eINVAL : Int := -22

/-! ## Page flags -/

abbrev Flags := BitVec 32

namespace Flags

def read : Flags := 1#32
def write : Flags := 2#32
def exec : Flags := 4#32
def rwx : Flags := 7#32
def growsdown : Flags := 8#32
def cow : Flags := 16#32
def anonymous : Flags := 64#32
def shared : Flags := 128#32
/-- `P_META_FLAGS = P_ANONYMOUS | P_GROWSDOWN | P_COW | P_SHARED`. -/
def metaFlags : Flags := 216#32

/-- `flags & mask` as a condition. -/
def any (f mask : Flags) : Bool := f &&& mask != 0#32

/-- `P_WRITABLE(flags)`. -/
def writable (f : Flags) : Bool := any f write && !any f cow

/-- `anon_page_is_charged`. -/
def charged (f : Flags) : Bool := any f anonymous && any f rwx

end Flags

/-! ## Data -/

/-- `struct data`; the number it is registered under stands for its `data` pointer. -/
structure Data where
  size : Nat
  refcount : Nat
  fd : Option Nat
  deriving Repr, DecidableEq

structure PtEntry where
  data : Nat
  offset : Nat
  flags : Flags
  deriving Repr, DecidableEq

/-- `struct mem_reservation`; the `next` links are the list. -/
structure Reservation where
  start : Nat
  pages : Nat
  flags : Flags
  deriving Repr, DecidableEq

/-- The index a page number has in the four-level table. -/
abbrev Slot := Fin memPages

def slot (page : Nat) : Slot := ⟨page % memPages, Nat.mod_lt _ (by decide)⟩

/-- `struct mem`, with `mmu.changes`. -/
structure Mem where
  pt : AList (fun _ : Slot => PtEntry)
  reservations : List Reservation
  mmapHint : Nat
  changes : Nat

/-- What all address spaces share: the `struct data` objects, the bytes of their host
regions, the anonymous-page counter, and the outcomes of the host calls still to come. -/
structure Host where
  datas : AList (fun _ : Nat => Data)
  bytes : Nat → Nat → UInt8
  nextData : Nat
  anonPageCount : Int
  script : List Bool

/-- One address space together with the shared host state: what the `pt_*` functions
read and write. -/
structure Vm where
  host : Host
  mem : Mem

def memInit : Mem := { pt := ∅, reservations := [], mmapHint := 0, changes := 0 }

/-- Outcome of the next host call that may fail; calls past the script succeed. -/
def Host.attempt (h : Host) : Bool × Host :=
  match h.script with
  | [] => (true, h)
  | b :: rest => (b, { h with script := rest })

/-- `mem_changed`. -/
def Mem.changed (m : Mem) : Mem := { m with changes := m.changes + 1 }

def memPt (m : Mem) (p : Nat) : Option PtEntry := m.pt.lookup (slot p)

/-- Write an entry (`mem_pt_new` and the assignments that follow it). -/
def Mem.setEntry (m : Mem) (p : Nat) (e : PtEntry) : Mem :=
  { m with pt := m.pt.insert (slot p) e }

/-- `mem_next_page` followed by the callers' skipping of unmapped pages: the least mapped
page above `p`, or `MEM_PAGES`. At and beyond `MEM_PAGES` it is a plain increment. -/
def memNextPage (m : Mem) (p : Nat) : Nat :=
  if memPages ≤ p + 1 then p + 1
  else (((m.pt.keys.map Fin.val).filter fun q => p < q).min?).getD memPages

/-! ## Anonymous-page accounting (`kernel/mmap.c`) -/

/-- `anon_pages_reserve`: the compare-and-swap loop as one atomic step. -/
def anonPagesReserve (h : Host) (pages : Int) : Option Host :=
  if pages > anonMmapLimitPages ∨ h.anonPageCount > anonMmapLimitPages - pages then none
  else some { h with anonPageCount := h.anonPageCount + pages }

/-- `atomic_fetch_add(&anon_page_count, delta)`; with `-pages` also
`anon_pages_unreserve`. -/
def Host.addAnon (h : Host) (delta : Int) : Host :=
  { h with anonPageCount := h.anonPageCount + delta }

/-! ## Lazy reservations -/

def pageRangeEnd (start pages : Nat) : Nat :=
  if pages = 0 then start
  else if start ≥ memPages ∨ pages > memPages - start then memPages
  else start + pages

def Reservation.stop (r : Reservation) : Nat := pageRangeEnd r.start r.pages

def memFindReservation (m : Mem) (p : Nat) : Option Reservation :=
  m.reservations.find? fun r => r.pages ≠ 0 ∧ r.start ≤ p ∧ p < r.stop

def memRangeHasReservation (m : Mem) (start size : Nat) : Bool :=
  if size = 0 then false
  else
    let stop := pageRangeEnd start size
    if stop ≤ start then true
    else m.reservations.any fun r =>
      r.pages ≠ 0 ∧ (r.stop ≤ r.start ∨ (r.start < stop ∧ r.stop > start))

def ptMapLazy (v : Vm) (start pages : Nat) (flags : Flags) : Int × Vm :=
  let a := v.host.attempt
  if a.1 then
    let res : Reservation := ⟨start, pages, flags ||| Flags.anonymous⟩
    (0, { host := a.2,
          mem := { v.mem with reservations := res :: v.mem.reservations }.changed })
  else (eNOMEM, { v with host := a.2 })

/-- The walk of `mem_remove_reservations` over the list. When the range lies strictly
inside `r` and the `malloc` of the tail fails, `r` stays whole. -/
def removeReservations (start stop : Nat) : Host → List Reservation → Host × List Reservation
  | h, [] => (h, [])
  | h, r :: rest =>
    if r.start ≥ stop ∨ r.stop ≤ start then
      let w := removeReservations start stop h rest
      (w.1, r :: w.2)
    else if r.start ≥ start ∧ r.stop ≤ stop then
      removeReservations start stop h rest
    else if r.start < start ∧ r.stop > stop then
      let a := h.attempt
      let w := removeReservations start stop a.2 rest
      if a.1 then
        (w.1, { r with pages := start - r.start }
          :: { r with start := stop, pages := r.stop - stop } :: w.2)
      else (w.1, r :: w.2)
    else if r.start < start then
      let w := removeReservations start stop h rest
      (w.1, { r with pages := start - r.start } :: w.2)
    else
      let w := removeReservations start stop h rest
      (w.1, { r with start := stop, pages := r.stop - stop } :: w.2)

def memRemoveReservations (v : Vm) (start pages : Nat) : Vm :=
  if pages = 0 then v
  else
    let w := removeReservations start (pageRangeEnd start pages) v.host v.mem.reservations
    { host := w.1, mem := { v.mem with reservations := w.2 } }

/-- The walk of `mem_set_reservation_flags`. An allocation failure returns at once, with
the reservations before it already changed. In the `after` case the source revisits the
new tail, which starts at `stop` and is skipped. -/
def setReservationFlags (start stop : Nat) (flags : Flags) :
    Host → List Reservation → Int × Host × List Reservation
  | h, [] => (0, h, [])
  | h, r :: rest =>
    if r.start ≥ stop ∨ r.stop ≤ start then
      let w := setReservationFlags start stop flags h rest
      (w.1, w.2.1, r :: w.2.2)
    else
      let overlapStart := max r.start start
      let overlapEnd := min r.stop stop
      let before := overlapStart - r.start
      let overlap := overlapEnd - overlapStart
      let after := r.stop - overlapEnd
      let newFlags := flags ||| (r.flags &&& Flags.anonymous)
      let middle : Reservation := ⟨overlapStart, overlap, newFlags⟩
      let tail : Reservation := ⟨overlapEnd, after, r.flags⟩
      if before ≠ 0 ∧ after ≠ 0 then
        let a := h.attempt
        let b := a.2.attempt
        if a.1 && b.1 then
          let w := setReservationFlags start stop flags b.2 rest
          (w.1, w.2.1, { r with pages := before } :: middle :: tail :: w.2.2)
        else (eNOMEM, b.2, r :: rest)
      else if before ≠ 0 then
        let a := h.attempt
        if a.1 then
          let w := setReservationFlags start stop flags a.2 rest
          (w.1, w.2.1, { r with pages := before } :: middle :: w.2.2)
        else (eNOMEM, a.2, r :: rest)
      else if after ≠ 0 then
        let a := h.attempt
        if a.1 then
          let w := setReservationFlags start stop flags a.2 rest
          (w.1, w.2.1, middle :: tail :: w.2.2)
        else (eNOMEM, a.2, r :: rest)
      else
        let w := setReservationFlags start stop flags h rest
        (w.1, w.2.1, { r with flags := newFlags } :: w.2.2)

def memSetReservationFlags (v : Vm) (start pages : Nat) (flags : Flags) : Int × Vm :=
  if pages = 0 then (0, v)
  else
    let w := setReservationFlags start (pageRangeEnd start pages) flags v.host
      v.mem.reservations
    (w.1, { host := w.2.1, mem := { v.mem with reservations := w.2.2 } })

/-! ## Mapping and unmapping -/

/-- `--data->refcount`, and the release of the object at zero. -/
def Host.dropData (h : Host) (d : Nat) : Host :=
  match h.datas.lookup d with
  | none => h
  | some x =>
    if x.refcount - 1 = 0 then { h with datas := h.datas.erase d }
    else { h with datas := h.datas.insert d { x with refcount := x.refcount - 1 } }

/-- `data->refcount++`. -/
def Host.retainData (h : Host) (d : Nat) : Host :=
  match h.datas.lookup d with
  | none => h
  | some x => { h with datas := h.datas.insert d { x with refcount := x.refcount + 1 } }

/-- The loop body of `pt_unmap_always`. -/
def unmapPage (v : Vm) (p : Nat) : Vm :=
  match memPt v.mem p with
  | none => v
  | some e =>
    let h := if Flags.charged e.flags then v.host.addAnon (-1) else v.host
    { host := h.dropData e.data, mem := { v.mem with pt := v.mem.pt.erase (slot p) } }

/-- The loop of `pt_unmap_always`, from page `p` on; `fuel` bounds the iterations, which
each advance the page. -/
def unmapLoop (stop : Nat) : Nat → Nat → Vm → Vm
  | 0, _, v => v
  | fuel + 1, p, v =>
    if p < stop then
      let v' := unmapPage v p
      unmapLoop stop fuel (memNextPage v'.mem p) v'
    else v

/-- `if (start + pages - 1 > mem->mmap_hint) mem->mmap_hint = start + pages - 1`. -/
def Mem.raiseHint (m : Mem) (start pages : Nat) : Mem :=
  { m with mmapHint := max m.mmapHint ((start + pages + 0xffffffffffffffff) % wordMod) }

def ptUnmapAlways (v : Vm) (start pages : Nat) : Vm :=
  let stop := (start + pages) % wordMod
  let v := memRemoveReservations { v with mem := v.mem.raiseHint start pages } start pages
  let v := unmapLoop stop (stop - start) start v
  { v with mem := v.mem.changed }

/-- `pt_unmap`: `-1`, and nothing done, when a page of the range is not mapped. -/
def ptUnmap (v : Vm) (start pages : Nat) : Int × Vm :=
  if (pageRange start pages).all fun p => (memPt v.mem p).isSome then
    (0, ptUnmapAlways v start pages)
  else (-1, v)

/-- A page that is about to be replaced is unmapped first. -/
def clearPage (v : Vm) (p : Nat) : Vm :=
  if (memPt v.mem p).isSome then (ptUnmap v p 1).2 else v

/-- The loop body of `pt_map_accounted`: replace what is mapped, take a reference, set the
entry. -/
def mapPage (d start offset : Nat) (flags : Flags) (v : Vm) (p : Nat) : Vm :=
  let v := clearPage v p
  { host := v.host.retainData d
    mem := v.mem.setEntry p ⟨d, (p - start) * pageSize + offset, flags⟩ }

def mapPages (d start offset : Nat) (flags : Flags) (ps : List Nat) (v : Vm) : Vm :=
  ps.foldl (mapPage d start offset flags) v

/-- A new `struct data` over a host region with the given contents. -/
def Host.newData (h : Host) (size : Nat) (contents : Nat → UInt8) : Host :=
  { h with
    datas := h.datas.insert h.nextData { size := size, refcount := 0, fd := none }
    bytes := Function.update h.bytes h.nextData contents
    nextData := h.nextData + 1 }

/-- `pt_map_accounted`; `memory` is the contents of the mapped host region, `none` for
`MAP_FAILED` (the host reports `ENOMEM`). -/
def ptMapAccounted (v : Vm) (start pages : Nat) (memory : Option (Nat → UInt8))
    (offset : Nat) (flags : Flags) (precharged : Bool) : Int × Vm :=
  match memory with
  | none => (eNOMEM, v)
  | some contents =>
    let a := v.host.attempt
    if a.1 then
      let h := a.2.newData ((pages * pageSize + offset) % wordMod) contents
      let v := mapPages a.2.nextData start offset flags (pageRange start pages)
        { host := h, mem := v.mem }
      let h := if !precharged && Flags.charged flags then v.host.addAnon (toLong pages)
        else v.host
      (0, { host := h, mem := v.mem.changed })
    else (eNOMEM, { v with host := a.2 })

def ptMap (v : Vm) (start pages : Nat) (memory : Option (Nat → UInt8)) (offset : Nat)
    (flags : Flags) : Int × Vm :=
  ptMapAccounted v start pages memory offset flags false

def zeroFill : Nat → UInt8 := fun _ => 0

/-- `mmap` of an anonymous region followed by `pt_map_accounted`; a region that could not
be entered is unmapped again. -/
def mapRegion (v : Vm) (start pages : Nat) (contents : Nat → UInt8) (flags : Flags)
    (precharged : Bool) : Int × Vm :=
  let a := v.host.attempt
  if a.1 then
    ptMapAccounted { v with host := a.2 } start pages (some contents) 0 flags precharged
  else (eNOMEM, { v with host := a.2 })

/-- Reserve `k` pages when the mapping is charged. -/
def reserveIf (h : Host) (charged : Bool) (k : Int) : Option Host :=
  if charged then anonPagesReserve h k else some h

/-- `anon_pages_unreserve` when the call failed after a reservation. -/
def refundIf (r : Int × Vm) (charged : Bool) (k : Int) : Int × Vm :=
  if r.1 < 0 ∧ charged then (r.1, { r.2 with host := r.2.host.addAnon (-k) }) else r

/-- `pt_map_nothing`: reserve the charge, `mmap`, map; refund when either fails. -/
def ptMapNothing (v : Vm) (start pages : Nat) (flags : Flags) : Int × Vm :=
  if pages = 0 then (0, v)
  else
    let charged := Flags.charged (flags ||| Flags.anonymous)
    match reserveIf v.host charged (toLong pages) with
    | none => (eNOMEM, v)
    | some h =>
      refundIf (mapRegion { v with host := h } start pages zeroFill
        (flags ||| Flags.anonymous) true) charged (toLong pages)

def ptIsHole (m : Mem) (start pages : Nat) : Bool :=
  ((pageRange start pages).all fun p => (memPt m p).isNone) &&
    !memRangeHasReservation m start pages

/-! ## Changing flags, and copying an address space -/

/-- The flags `pt_set_flags` gives a page: the requested ones and the metadata bits. -/
def newFlags (flags old : Flags) : Flags := flags ||| (old &&& Flags.metaFlags)

def boolToInt (b : Bool) : Int := if b then 1 else 0

/-- The second loop of `pt_set_flags`. A failing host `mprotect` returns at once, with the
pages before it already changed. -/
def setFlagsLoop (flags : Flags) : List Nat → Vm → Int × Vm
  | [], v => (0, v)
  | p :: rest, v =>
    match memPt v.mem p with
    | none => setFlagsLoop flags rest v
    | some e =>
      let grows := Flags.any (flags &&& ~~~e.flags) (Flags.read ||| Flags.write)
      let a := if grows then v.host.attempt else (true, v.host)
      if a.1 then
        let new := newFlags flags e.flags
        let delta := boolToInt (Flags.charged new) - boolToInt (Flags.charged e.flags)
        setFlagsLoop flags rest
          { host := a.2.addAnon delta, mem := v.mem.setEntry p { e with flags := new } }
      else (eNOMEM, { v with host := a.2 })

def ptSetFlags (v : Vm) (start pages : Nat) (flags : Flags) : Int × Vm :=
  if (pageRange start pages).all fun p =>
      (memPt v.mem p).isSome || (memFindReservation v.mem p).isSome then
    let r := setFlagsLoop flags (pageRange start pages) v
    if r.1 < 0 then r
    else
      let r := memSetReservationFlags r.2 start pages flags
      if r.1 < 0 then r else (0, { r.2 with mem := r.2.mem.changed })
  else (eNOMEM, v)

/-- Source and destination of `pt_copy_on_write`, with the charged copies so far. -/
structure CopyState where
  host : Host
  src : Mem
  dst : Mem
  anonCopied : Int

/-- The loop body of `pt_copy_on_write`. -/
def copyPage (c : CopyState) (p : Nat) : CopyState :=
  match memPt c.src p with
  | none => c
  | some e =>
    let u := ptUnmapAlways { host := c.host, mem := c.dst } p 1
    let f := if Flags.any e.flags Flags.shared then e.flags else e.flags ||| Flags.cow
    let e' : PtEntry := { e with flags := f }
    { host := u.host.retainData e.data
      src := c.src.setEntry p e'
      dst := u.mem.setEntry p e'
      anonCopied := c.anonCopied + boolToInt (Flags.charged f) }

def copyLoop (stop : Nat) : Nat → Nat → CopyState → CopyState
  | 0, _, c => c
  | fuel + 1, p, c =>
    if p < stop then
      let c' := copyPage c p
      copyLoop stop fuel (memNextPage c'.src p) c'
    else c

/-- The reservations are copied one by one to the head of the destination's list; a copy
whose `malloc` fails is skipped. -/
def copyReservations : List Reservation → Host → Mem → Host × Mem
  | [], h, dst => (h, dst)
  | r :: rest, h, dst =>
    let a := h.attempt
    copyReservations rest a.2
      (if a.1 then { dst with reservations := r :: dst.reservations } else dst)

/-- `pt_copy_on_write`; the result is the host, the source and the destination. -/
def ptCopyOnWrite (h : Host) (src dst : Mem) (start pages : Nat) : Host × Mem × Mem :=
  let stop := (start + pages) % wordMod
  let c := copyLoop stop (stop - start) start ⟨h, src, dst, 0⟩
  let r := copyReservations c.src.reservations (c.host.addAnon c.anonCopied) c.dst
  (r.1, c.src.changed, r.2.changed)

/-- `mem_destroy`: unmap everything, then free the reservations. -/
def memDestroy (v : Vm) : Vm :=
  let v := ptUnmapAlways v 0 memPages
  { v with mem := { v.mem with reservations := [] } }

end IosLinuxkit.Kernel
