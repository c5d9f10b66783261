import IosLinuxkit.Kernel.Memory
import IosLinuxkit.Lib.SkipLoop
import Mathlib.Algebra.Group.Nat.Defs

/-!
# The four-level page table

`mem_pt_new`, `mem_pt`, `mem_pt_del` and `mem_next_page` of `kernel/memory.c` over the tree they
really walk: three levels of nodes with 512 children each, and arrays of 512 entries under them.
`TableVm` is an address space with such a tree; its operations are those of `Kernel.Memory` with the
tree's own `mem_pt` and `mem_next_page`.

An entry whose `data` is `NULL` is `none`. Nodes are never freed before the address space is.
-/

namespace IosLinuxkit.Kernel

abbrev ptBits : Nat := 9
abbrev ptEntries : Nat := 512

/-- `PT_INDEX(page, level)`. -/
def ptIndex (page level : Nat) : Fin ptEntries :=
  ⟨(page >>> (ptBits * (3 - level))) % ptEntries, Nat.mod_lt _ (by decide)⟩

/-- An array of `struct pt_entry`, at level 3. -/
abbrev PtLeaf := Fin ptEntries → Option PtEntry
abbrev PtL2 := Fin ptEntries → Option PtLeaf
abbrev PtL1 := Fin ptEntries → Option PtL2
/-- `mem->pgdir`. -/
abbrev PgDir := Fin ptEntries → Option PtL1

/-- `calloc(1, sizeof(struct pt_node))`. -/
def emptyNode {α : Type} : Fin ptEntries → Option α := fun _ => none

def leafOf (d : PgDir) (page : Nat) : Option PtLeaf := do
  let l1 ← d (ptIndex page 0)
  let l2 ← l1 (ptIndex page 1)
  l2 (ptIndex page 2)

/-- `mem_pt`. -/
def tablePt (d : PgDir) (page : Nat) : Option PtEntry := do
  let l3 ← leafOf d page
  l3 (ptIndex page 3)

/-- `mem_pt_new`: the nodes on the way to the page's entry, created where they are missing. -/
def memPtNew (d : PgDir) (page : Nat) : PgDir :=
  let l1 := (d (ptIndex page 0)).getD emptyNode
  let l2 := (l1 (ptIndex page 1)).getD emptyNode
  let l3 := (l2 (ptIndex page 2)).getD emptyNode
  Function.update d (ptIndex page 0) (some
    (Function.update l1 (ptIndex page 1) (some
      (Function.update l2 (ptIndex page 2) (some l3)))))

/-- A store through the pointer that `mem_pt_new` or `mem_pt` returned. -/
def storePt (d : PgDir) (page : Nat) (e : Option PtEntry) : PgDir :=
  match d (ptIndex page 0) with
  | none => d
  | some l1 =>
    match l1 (ptIndex page 1) with
    | none => d
    | some l2 =>
      match l2 (ptIndex page 2) with
      | none => d
      | some l3 =>
        Function.update d (ptIndex page 0) (some
          (Function.update l1 (ptIndex page 1) (some
            (Function.update l2 (ptIndex page 2) (some
              (Function.update l3 (ptIndex page 3) e))))))

def memPtDel (d : PgDir) (page : Nat) : PgDir :=
  if (tablePt d page).isSome then storePt d page none else d

/-- The first page of the next region of `2 ^ bits` pages. -/
def nextRegion (page bits : Nat) : Nat := ((page >>> bits) + 1) <<< bits

theorem nextRegion_eq (page bits : Nat) :
    nextRegion page bits = (page / 2 ^ bits + 1) * 2 ^ bits := by
  rw [nextRegion, Nat.shiftLeft_eq, Nat.shiftRight_eq_div_pow]

theorem lt_nextRegion (page bits : Nat) : page < nextRegion page bits := by
  rw [nextRegion_eq]
  exact Nat.lt_mul_of_div_lt (Nat.lt_succ_self _) (Nat.two_pow_pos bits)

/-- The loop of `mem_next_page`: skip the regions whose table is missing. -/
def skipMissing (d : PgDir) (page : Nat) : Nat :=
  if page < memPages then
    match d (ptIndex page 0) with
    | none => skipMissing d (nextRegion page (ptBits * 3))
    | some l1 =>
      match l1 (ptIndex page 1) with
      | none => skipMissing d (nextRegion page (ptBits * 2))
      | some l2 =>
        match l2 (ptIndex page 2) with
        | none => skipMissing d (nextRegion page ptBits)
        | some _ => page
  else page
termination_by memPages - page
decreasing_by
  all_goals
    have := lt_nextRegion page (ptBits * 3)
    have := lt_nextRegion page (ptBits * 2)
    have := lt_nextRegion page ptBits
    omega

/-- `mem_next_page`. -/
def tableNextPage (d : PgDir) (page : Nat) : Nat :=
  if memPages ≤ page + 1 then page + 1 else skipMissing d (page + 1)

/-- The pages that `for (page = start; page < stop; mem_next_page(mem, &page))` visits. -/
def pagesVisited (d : PgDir) (start stop : Nat) : List Nat :=
  visited (tableNextPage d) stop (stop - start) start

/-! ## Address spaces over the tree -/

/-- `struct mem` with its tree, and the shared host state. -/
structure TableVm where
  host : Host
  pgdir : PgDir
  reservations : List Reservation
  mmapHint : Nat
  changes : Nat

/-- `mem_init`. -/
def tableInit (h : Host) : TableVm :=
  { host := h, pgdir := emptyNode, reservations := [], mmapHint := 0, changes := 0 }

namespace TableVm

/-- `mem_remove_reservations`. -/
def removeReservations (v : TableVm) (start pages : Nat) : TableVm :=
  if pages = 0 then v
  else
    let w := Kernel.removeReservations start (pageRangeEnd start pages) v.host v.reservations
    { v with host := w.1, reservations := w.2 }

/-- The loop body of `pt_unmap_always`. -/
def unmapPage (v : TableVm) (p : Nat) : TableVm :=
  match tablePt v.pgdir p with
  | none => v
  | some e =>
    let h := if Flags.charged e.flags then v.host.addAnon (-1) else v.host
    { v with host := h.dropData e.data, pgdir := memPtDel v.pgdir p }

def ptUnmapAlways (v : TableVm) (start pages : Nat) : TableVm :=
  let stop := (start + pages) % wordMod
  let hint := max v.mmapHint ((start + pages + 0xffffffffffffffff) % wordMod)
  let v := removeReservations { v with mmapHint := hint } start pages
  let v := skipLoop unmapPage (fun w p => tableNextPage w.pgdir p) stop (stop - start) start v
  { v with changes := v.changes + 1 }

def ptUnmap (v : TableVm) (start pages : Nat) : Int × TableVm :=
  if (pageRange start pages).all fun p => (tablePt v.pgdir p).isSome then
    (0, ptUnmapAlways v start pages)
  else (-1, v)

/-- The loop body of `pt_map_accounted`. -/
def mapPage (d start offset : Nat) (flags : Flags) (v : TableVm) (p : Nat) : TableVm :=
  let v := if (tablePt v.pgdir p).isSome then (ptUnmap v p 1).2 else v
  { v with
    host := v.host.retainData d
    pgdir := storePt (memPtNew v.pgdir p) p (some ⟨d, (p - start) * pageSize + offset, flags⟩) }

def ptMap (v : TableVm) (start pages : Nat) (memory : Option (Nat → UInt8)) (offset : Nat)
    (flags : Flags) : Int × TableVm :=
  match memory with
  | none => (eNOMEM, v)
  | some contents =>
    let a := v.host.attempt
    if a.1 then
      let h := a.2.newData ((pages * pageSize + offset) % wordMod) contents
      let v := (pageRange start pages).foldl (mapPage a.2.nextData start offset flags)
        { v with host := h }
      let h := if Flags.charged flags then v.host.addAnon (toLong pages) else v.host
      (0, { v with host := h, changes := v.changes + 1 })
    else (eNOMEM, { v with host := a.2 })

/-- `mem_range_has_reservation`. -/
def rangeHasReservation (v : TableVm) (start size : Nat) : Bool :=
  memRangeHasReservation ⟨∅, v.reservations, v.mmapHint, v.changes⟩ start size

/-- `pt_map_lazy`, as `do_mmap` calls it: for a large range in which
`mem_range_has_reservation` found nothing. -/
def ptMapLazy (v : TableVm) (start pages : Nat) (flags : Flags) : TableVm :=
  if pages < 0x10000 ∨ rangeHasReservation v start pages then v
  else
    let a := v.host.attempt
    if a.1 then
      { v with
        host := a.2
        reservations := ⟨start, pages, flags ||| Flags.anonymous⟩ :: v.reservations
        changes := v.changes + 1 }
    else { v with host := a.2 }

end TableVm

/-! ## Histories -/

/-- The operations that change a page table and its reservations. -/
inductive TableOp where
  | map (start pages : Nat) (memory : Option (Nat → UInt8)) (offset : Nat) (flags : Flags)
  | reserve (start pages : Nat) (flags : Flags)
  | unmap (start pages : Nat)
  | unmapAlways (start pages : Nat)

def tableStep (v : TableVm) : TableOp → TableVm
  | .map start pages memory offset flags => (v.ptMap start pages memory offset flags).2
  | .reserve start pages flags => v.ptMapLazy start pages flags
  | .unmap start pages => (v.ptUnmap start pages).2
  | .unmapAlways start pages => v.ptUnmapAlways start pages

/-- The same operations on the flat map of `Kernel.Memory`. -/
def flatStep (v : Vm) : TableOp → Vm
  | .map start pages memory offset flags => (ptMap v start pages memory offset flags).2
  | .reserve start pages flags =>
    if pages < 0x10000 ∨ memRangeHasReservation v.mem start pages then v
    else (ptMapLazy v start pages flags).2
  | .unmap start pages => (ptUnmap v start pages).2
  | .unmapAlways start pages => ptUnmapAlways v start pages

end IosLinuxkit.Kernel
