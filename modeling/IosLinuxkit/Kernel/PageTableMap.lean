import IosLinuxkit.Kernel.PageTable
import IosLinuxkit.Kernel.PtLemmas
import IosLinuxkit.Kernel.Reservations
import IosLinuxkit.Lib.Run

/-!
# The four-level table refines a flat map

* **`tableRefines_run`** — after every history the tree holds what the flat map of `Kernel.Memory` holds.
-/

namespace IosLinuxkit.Kernel

variable {d : PgDir} {p q : Nat} {e : Option PtEntry}

/-! ## Indices -/

theorem ptIndex_zero (p : Nat) : (ptIndex p 0).val = p / 134217728 % 512 := by
  show (p >>> 27) % 512 = _
  rw [Nat.shiftRight_eq_div_pow]

theorem ptIndex_one (p : Nat) : (ptIndex p 1).val = p / 262144 % 512 := by
  show (p >>> 18) % 512 = _
  rw [Nat.shiftRight_eq_div_pow]

theorem ptIndex_two (p : Nat) : (ptIndex p 2).val = p / 512 % 512 := by
  show (p >>> 9) % 512 = _
  rw [Nat.shiftRight_eq_div_pow]

theorem ptIndex_three (p : Nat) : (ptIndex p 3).val = p % 512 := rfl

theorem slot_eq_iff : slot q = slot p ↔ ptIndex q 0 = ptIndex p 0 ∧ ptIndex q 1 = ptIndex p 1 ∧
    ptIndex q 2 = ptIndex p 2 ∧ ptIndex q 3 = ptIndex p 3 := by
  simp only [Fin.ext_iff, ptIndex_zero, ptIndex_one, ptIndex_two, ptIndex_three, slot, memPages]
  omega

/-! ## Reading after writing -/

theorem leafOf_eq (d : PgDir) (q : Nat) : leafOf d q =
    (d (ptIndex q 0)).bind fun l1 => (l1 (ptIndex q 1)).bind fun l2 => l2 (ptIndex q 2) := rfl

theorem tablePt_eq (d : PgDir) (q : Nat) :
    tablePt d q = (leafOf d q).bind fun l3 => l3 (ptIndex q 3) := rfl

def SameLeaf (q p : Nat) : Prop :=
  ptIndex q 0 = ptIndex p 0 ∧ ptIndex q 1 = ptIndex p 1 ∧ ptIndex q 2 = ptIndex p 2

instance (q p : Nat) : Decidable (SameLeaf q p) := inferInstanceAs (Decidable (_ ∧ _ ∧ _))

theorem leafOf_congr (d : PgDir) (h : SameLeaf q p) : leafOf d q = leafOf d p := by
  rw [leafOf_eq, leafOf_eq, h.1, h.2.1, h.2.2]

theorem leafOf_update {l1 : PtL1} {l2 : PtL2} {l3 : PtLeaf}
    (h1 : (d (ptIndex p 0)).getD emptyNode = l1) (h2 : (l1 (ptIndex p 1)).getD emptyNode = l2)
    (q : Nat) :
    leafOf (Function.update d (ptIndex p 0) (some (Function.update l1 (ptIndex p 1) (some
      (Function.update l2 (ptIndex p 2) (some l3)))))) q =
      if SameLeaf q p then some l3 else leafOf d q := by
  subst h1 h2
  rw [leafOf_eq, leafOf_eq]
  by_cases h0 : ptIndex q 0 = ptIndex p 0
  · by_cases h1 : ptIndex q 1 = ptIndex p 1
    · by_cases h2 : ptIndex q 2 = ptIndex p 2
      · rw [if_pos ⟨h0, h1, h2⟩, h0, h1, h2]
        simp only [Function.update_self, Option.bind_some]
      rw [if_neg fun hc => h2 hc.2.2, h0, h1]
      simp only [Function.update_self, Option.bind_some, Function.update_of_ne h2]
      cases d (ptIndex p 0) with
      | none => rfl
      | some l1 => cases h : l1 (ptIndex p 1) <;> simp [h, emptyNode]
    rw [if_neg fun hc => h1 hc.2.1, h0]
    simp only [Function.update_self, Option.bind_some, Function.update_of_ne h1]
    cases d (ptIndex p 0) <;> simp [emptyNode]
  · rw [if_neg fun hc => h0 hc.1, Function.update_of_ne h0]

theorem leafOf_memPtNew (d : PgDir) (p q : Nat) : leafOf (memPtNew d p) q =
    if SameLeaf q p then some ((leafOf d p).getD emptyNode) else leafOf d q := by
  have hleaf : (leafOf d p).getD emptyNode =
      ((((d (ptIndex p 0)).getD emptyNode) (ptIndex p 1)).getD emptyNode (ptIndex p 2)).getD
        emptyNode := by
    rw [leafOf_eq]
    cases d (ptIndex p 0) with
    | none => rfl
    | some l1 => cases h : l1 (ptIndex p 1) <;> simp [h, emptyNode]
  rw [memPtNew, leafOf_update rfl rfl, hleaf]

theorem leafOf_storePt (d : PgDir) (p q : Nat) (e : Option PtEntry) : leafOf (storePt d p e) q =
    if SameLeaf q p then (leafOf d p).map fun l3 => Function.update l3 (ptIndex p 3) e
    else leafOf d q := by
  have hmissing : leafOf d p = none → leafOf d q =
      if SameLeaf q p then (leafOf d p).map fun l3 => Function.update l3 (ptIndex p 3) e
      else leafOf d q := by
    intro hn
    split
    case isTrue hs => rw [leafOf_congr d hs, hn, Option.map_none]
    case isFalse => rfl
  have hp := leafOf_eq d p
  unfold storePt
  cases h0 : d (ptIndex p 0) with
  | none => exact hmissing (by rw [hp, h0, Option.bind_none])
  | some l1 =>
    rw [h0, Option.bind_some] at hp
    cases h1 : l1 (ptIndex p 1) with
    | none =>
      simp only [h1]
      exact hmissing (by rw [hp, h1, Option.bind_none])
    | some l2 =>
      rw [h1, Option.bind_some] at hp
      cases h2 : l2 (ptIndex p 2) with
      | none =>
        simp only [h1, h2]
        exact hmissing (by rw [hp, h2])
      | some l3 =>
        simp only [h1, h2]
        rw [leafOf_update (by rw [h0]; rfl) (by rw [h1]; rfl), hp, h2, Option.map_some]

theorem tablePt_memPtNew (d : PgDir) (p q : Nat) : tablePt (memPtNew d p) q = tablePt d q := by
  rw [tablePt_eq, tablePt_eq, leafOf_memPtNew]
  split
  case isTrue hs =>
    rw [leafOf_congr d hs]
    cases leafOf d p <;> rfl
  case isFalse => rfl

theorem tablePt_storePt (d : PgDir) (p q : Nat) (e : Option PtEntry) (hleaf : (leafOf d p).isSome) :
    tablePt (storePt d p e) q = if slot q = slot p then e else tablePt d q := by
  obtain ⟨l3, hl3⟩ := Option.isSome_iff_exists.mp hleaf
  rw [tablePt_eq, tablePt_eq, leafOf_storePt, hl3, Option.map_some]
  by_cases hs : SameLeaf q p
  · rw [if_pos hs, Option.bind_some, leafOf_congr d hs, hl3, Option.bind_some]
    by_cases h3 : ptIndex q 3 = ptIndex p 3
    · rw [if_pos (slot_eq_iff.mpr ⟨hs.1, hs.2.1, hs.2.2, h3⟩), h3, Function.update_self]
    · rw [if_neg fun hc => h3 (slot_eq_iff.mp hc).2.2.2, Function.update_of_ne h3]
  rw [if_neg hs, if_neg fun hc => ?_]
  obtain ⟨h0, h1, h2, -⟩ := slot_eq_iff.mp hc
  exact hs ⟨h0, h1, h2⟩

theorem tablePt_congr (d : PgDir) (h : slot q = slot p) : tablePt d q = tablePt d p := by
  obtain ⟨h0, h1, h2, h3⟩ := slot_eq_iff.mp h
  rw [tablePt_eq, tablePt_eq, leafOf_congr d ⟨h0, h1, h2⟩, h3]

theorem tablePt_memPtDel (d : PgDir) (p q : Nat) :
    tablePt (memPtDel d p) q = if slot q = slot p then none else tablePt d q := by
  unfold memPtDel
  split
  case isTrue hsome =>
    refine tablePt_storePt d p q none ?_
    rw [tablePt_eq] at hsome
    cases hleaf : leafOf d p with
    | none => rw [hleaf] at hsome; exact hsome
    | some l3 => rfl
  case isFalse hnone =>
    split
    case isTrue hs => rw [tablePt_congr d hs, Option.not_isSome_iff_eq_none.mp hnone]
    case isFalse => rfl

theorem tablePt_set (d : PgDir) (p q : Nat) (e : PtEntry) :
    tablePt (storePt (memPtNew d p) p (some e)) q =
      if slot q = slot p then some e else tablePt d q := by
  have hleaf : (leafOf (memPtNew d p) p).isSome := by
    rw [leafOf_memPtNew, if_pos ⟨rfl, rfl, rfl⟩]
    rfl
  rw [tablePt_storePt _ p q _ hleaf, tablePt_memPtNew]

/-! ## Skipping -/

theorem div_of_mem_region {bits : Nat} (hp : p ≤ q) (hq : q < nextRegion p bits) :
    q / 2 ^ bits = p / 2 ^ bits := by
  rw [nextRegion_eq] at hq
  have hlt : q / 2 ^ bits < p / 2 ^ bits + 1 :=
    (Nat.div_lt_iff_lt_mul (Nat.two_pow_pos bits)).mpr hq
  have hge : p / 2 ^ bits ≤ q / 2 ^ bits := Nat.div_le_div_right hp
  omega

theorem nextRegion_le {bits : Nat} (hbits : bits = 27 ∨ bits = 18 ∨ bits = 9) (hp : p < memPages) :
    nextRegion p bits ≤ memPages := by
  simp only [memPages] at *
  rcases hbits with rfl | rfl | rfl <;> rw [nextRegion_eq] <;> omega

structure Skips (d : PgDir) (p p' : Nat) : Prop where
  le : p ≤ p'
  bound : p ≤ memPages → p' ≤ memPages
  unmapped : ∀ q, p ≤ q → q < p' → tablePt d q = none

theorem Skips.region {bits p' : Nat} (hbits : bits = 27 ∨ bits = 18 ∨ bits = 9)
    (hp : p < memPages) (hnone : ∀ q, q / 2 ^ bits = p / 2 ^ bits → tablePt d q = none)
    (h : Skips d (nextRegion p bits) p') : Skips d p p' where
  le := Nat.le_trans (Nat.le_of_lt (lt_nextRegion p bits)) h.le
  bound _ := h.bound (nextRegion_le hbits hp)
  unmapped q hq hq' := by
    by_cases hr : q < nextRegion p bits
    · exact hnone q (div_of_mem_region hq hr)
    · exact h.unmapped q (Nat.le_of_not_lt hr) hq'

theorem skipMissing_spec (d : PgDir) (p : Nat) : Skips d p (skipMissing d p) := by
  fun_induction skipMissing d p with
  | case1 p hp h0 ih =>
    refine ih.region (.inl rfl) hp fun q hq => ?_
    have hi : ptIndex q 0 = ptIndex p 0 := by
      rw [Fin.ext_iff, ptIndex_zero, ptIndex_zero]
      omega
    rw [tablePt_eq, leafOf_eq, hi, h0]
    rfl
  | case2 p hp l1 h0 h1 ih =>
    refine ih.region (.inr (.inl rfl)) hp fun q hq => ?_
    have hi0 : ptIndex q 0 = ptIndex p 0 := by
      rw [Fin.ext_iff, ptIndex_zero, ptIndex_zero]
      omega
    have hi1 : ptIndex q 1 = ptIndex p 1 := by
      rw [Fin.ext_iff, ptIndex_one, ptIndex_one]
      omega
    rw [tablePt_eq, leafOf_eq, hi0, h0, Option.bind_some, hi1, h1]
    rfl
  | case3 p hp l1 h0 l2 h1 h2 ih =>
    refine ih.region (.inr (.inr rfl)) hp fun q hq => ?_
    have hi0 : ptIndex q 0 = ptIndex p 0 := by
      rw [Fin.ext_iff, ptIndex_zero, ptIndex_zero]
      omega
    have hi1 : ptIndex q 1 = ptIndex p 1 := by
      rw [Fin.ext_iff, ptIndex_one, ptIndex_one]
      omega
    have hi2 : ptIndex q 2 = ptIndex p 2 := by
      rw [Fin.ext_iff, ptIndex_two, ptIndex_two]
      omega
    rw [tablePt_eq, leafOf_eq, hi0, h0, Option.bind_some, hi1, h1, Option.bind_some, hi2, h2]
    rfl
  | case4 p hp l1 h0 l2 h1 l3 h2 =>
    exact ⟨Nat.le_refl _, id, fun q hq hq' => absurd hq (Nat.not_le_of_lt hq')⟩
  | case5 p hp => exact ⟨Nat.le_refl _, id, fun q hq hq' => absurd hq (Nat.not_le_of_lt hq')⟩

theorem lt_tableNextPage (d : PgDir) (p : Nat) : p < tableNextPage d p := by
  unfold tableNextPage
  split
  · exact Nat.lt_succ_self p
  · exact (skipMissing_spec d (p + 1)).le

theorem tableNextPage_skips (d : PgDir) (h : p < q) (h' : q < tableNextPage d p) :
    tablePt d q = none := by
  unfold tableNextPage at h'
  split at h'
  · omega
  · exact (skipMissing_spec d (p + 1)).unmapped q h h'

/-! ## Iterating -/

def isMapped (d : PgDir) (p : Nat) : Bool := (tablePt d p).isSome

/-- Iterating over a range visits pages of the range only, in increasing order, and among them
every mapped page. -/
structure IteratesExactly (d : PgDir) (start stop : Nat) : Prop where
  range : ∀ p ∈ pagesVisited d start stop, start ≤ p ∧ p < stop
  increasing : (pagesVisited d start stop).Pairwise (· < ·)
  mapped : (pagesVisited d start stop).filter (isMapped d) =
    (List.range' start (stop - start)).filter (isMapped d)

theorem iteratesExactly (d : PgDir) (start stop : Nat) : IteratesExactly d start stop where
  range _ hp := mem_visited (lt_tableNextPage d) hp
  increasing := visited_pairwise (lt_tableNextPage d)
  mapped := by
    refine visited_filter (lt_tableNextPage d) (fun p r hr hr' => ?_) (Nat.le_refl _)
    rw [isMapped, tableNextPage_skips d hr hr']
    rfl

/-! ## The tree and the flat map side by side -/

/-- The tree's address space and the flat one hold the same. -/
structure TableRefines (v : TableVm) (m : Vm) : Prop where
  host : m.host = v.host
  reservations : m.mem.reservations = v.reservations
  hint : m.mem.mmapHint = v.mmapHint
  changes : m.mem.changes = v.changes
  pt : ∀ p, memPt m.mem p = tablePt v.pgdir p

variable {v : TableVm} {m : Vm} {start pages : Nat}

theorem memPt_erase (m : Mem) (p q : Nat) :
    memPt { m with pt := m.pt.erase (slot p) } q =
      if slot q = slot p then none else memPt m q := by
  unfold memPt
  split
  case isTrue h => rw [h, AList.lookup_erase]
  case isFalse h => rw [AList.lookup_erase_ne h]

theorem memPt_setEntry (m : Mem) (p q : Nat) (e : PtEntry) :
    memPt (m.setEntry p e) q = if slot q = slot p then some e else memPt m q := by
  unfold memPt Mem.setEntry
  split
  case isTrue h => rw [h, AList.lookup_insert]
  case isFalse h => rw [AList.lookup_insert_ne h]

theorem TableRefines.unmapPage (h : TableRefines v m) (p : Nat) :
    TableRefines (v.unmapPage p) (unmapPage m p) := by
  have hp := h.pt p
  unfold TableVm.unmapPage Kernel.unmapPage
  cases he : tablePt v.pgdir p with
  | none =>
    rw [he] at hp
    simp only [hp]
    exact h
  | some e =>
    rw [he] at hp
    simp only [hp]
    refine ⟨by rw [h.host], h.reservations, h.hint, h.changes, fun q => ?_⟩
    rw [memPt_erase, tablePt_memPtDel, h.pt q]

theorem TableRefines.foldl {f : TableVm → Nat → TableVm} {g : Vm → Nat → Vm}
    (hstep : ∀ v m p, TableRefines v m → TableRefines (f v p) (g m p)) (ps : List Nat)
    (h : TableRefines v m) : TableRefines (ps.foldl f v) (ps.foldl g m) := by
  induction ps generalizing v m with
  | nil => exact h
  | cons p ps ih => exact ih (hstep v m p h)

theorem tableLoop_eq (v : TableVm) (start stop : Nat) :
    skipLoop TableVm.unmapPage (fun w p => tableNextPage w.pgdir p) stop (stop - start) start v =
      (List.range' start (stop - start)).foldl TableVm.unmapPage v := by
  refine skipLoop_eq_foldl (fun w p => lt_tableNextPage w.pgdir p) (fun w p r hr hr' => ?_)
    (Nat.le_refl _)
  unfold TableVm.unmapPage
  rw [tableNextPage_skips w.pgdir hr hr']

theorem unmapLoop_eq_skipLoop (stop fuel p : Nat) (m : Vm) :
    unmapLoop stop fuel p m = skipLoop unmapPage (fun w p => memNextPage w.mem p) stop fuel p m := by
  induction fuel generalizing p m with
  | zero => rfl
  | succ fuel ih =>
    unfold unmapLoop skipLoop
    simp only [ih]

theorem unmapLoop_eq (m : Vm) (start stop : Nat) : unmapLoop stop (stop - start) start m =
      (List.range' start (stop - start)).foldl unmapPage m := by
  rw [unmapLoop_eq_skipLoop]
  refine skipLoop_eq_foldl (fun w p => lt_memNextPage w.mem p) (fun w p r hr hr' => ?_)
    (Nat.le_refl _)
  have hlt : r < memPages := by
    by_contra hge
    have hbound : memNextPage w.mem p ≤ memPages ∨ memNextPage w.mem p = p + 1 := by
      unfold memNextPage
      split
      · exact .inr rfl
      refine .inl ?_
      cases hmin : ((w.mem.pt.keys.map Fin.val).filter fun q => p < q).min? with
      | none => exact Nat.le_refl _
      | some a =>
        obtain ⟨s, -, hs⟩ := List.mem_map.mp (List.mem_filter.mp (List.min?_mem hmin)).1
        rw [Option.getD_some, ← hs]
        exact Nat.le_of_lt s.isLt
    omega
  have hnone : memPt w.mem r = none := by
    refine memNextPage_skips w.mem p (slot r) ?_ ?_
    · rwa [slot_of_lt hlt]
    · rwa [slot_of_lt hlt]
  unfold unmapPage
  rw [hnone]

theorem TableRefines.removeReservations (h : TableRefines v m) (start pages : Nat) :
    TableRefines (v.removeReservations start pages) (memRemoveReservations m start pages) := by
  unfold TableVm.removeReservations memRemoveReservations
  split
  · exact h
  · exact ⟨by rw [h.host, h.reservations], by rw [h.host, h.reservations], h.hint, h.changes, h.pt⟩

theorem TableRefines.ptUnmapAlways (h : TableRefines v m) (start pages : Nat) :
    TableRefines (v.ptUnmapAlways start pages) (ptUnmapAlways m start pages) := by
  unfold TableVm.ptUnmapAlways Kernel.ptUnmapAlways
  simp only [tableLoop_eq, unmapLoop_eq]
  have hhint : TableRefines
      { v with mmapHint := max v.mmapHint ((start + pages + 0xffffffffffffffff) % wordMod) }
      { m with mem := m.mem.raiseHint start pages } :=
    ⟨h.host, h.reservations, by rw [← h.hint]; rfl, h.changes, h.pt⟩
  have hloop := (hhint.removeReservations start pages).foldl (fun v m p h => h.unmapPage p)
    (List.range' start ((start + pages) % wordMod - start))
  exact ⟨hloop.host, hloop.reservations, hloop.hint, congrArg (· + 1) hloop.changes, hloop.pt⟩

theorem TableRefines.ptUnmap (h : TableRefines v m) (start pages : Nat) :
    (ptUnmap m start pages).1 = (v.ptUnmap start pages).1 ∧
      TableRefines (v.ptUnmap start pages).2 (ptUnmap m start pages).2 := by
  unfold TableVm.ptUnmap Kernel.ptUnmap
  simp only [h.pt]
  split
  · exact ⟨rfl, h.ptUnmapAlways start pages⟩
  · exact ⟨rfl, h⟩

theorem TableRefines.mapPage (h : TableRefines v m) (d start offset : Nat) (flags : Flags)
    (p : Nat) : TableRefines (v.mapPage d start offset flags p) (mapPage d start offset flags m p) := by
  unfold TableVm.mapPage Kernel.mapPage clearPage
  simp only [h.pt]
  have hclear : TableRefines (if (tablePt v.pgdir p).isSome then (v.ptUnmap p 1).2 else v)
      (if (tablePt v.pgdir p).isSome then (Kernel.ptUnmap m p 1).2 else m) := by
    split
    · exact (h.ptUnmap p 1).2
    · exact h
  refine ⟨by rw [hclear.host], hclear.reservations, hclear.hint, hclear.changes, fun q => ?_⟩
  rw [memPt_setEntry, tablePt_set, hclear.pt q]

theorem TableRefines.ptMap (h : TableRefines v m) (start pages : Nat)
    (memory : Option (Nat → UInt8)) (offset : Nat) (flags : Flags) :
    TableRefines (v.ptMap start pages memory offset flags).2
      (ptMap m start pages memory offset flags).2 := by
  unfold TableVm.ptMap Kernel.ptMap ptMapAccounted mapPages
  cases memory with
  | none => exact h
  | some contents =>
    simp only [h.host]
    cases hok : v.host.attempt.1 with
    | false =>
      simp only [Bool.false_eq_true, if_false]
      exact ⟨rfl, h.reservations, h.hint, h.changes, h.pt⟩
    | true =>
      simp only [if_true]
      have hnew : TableRefines
          { v with host := v.host.attempt.2.newData ((pages * pageSize + offset) % wordMod) contents }
          { m with host := v.host.attempt.2.newData ((pages * pageSize + offset) % wordMod) contents } :=
        ⟨rfl, h.reservations, h.hint, h.changes, h.pt⟩
      have hloop := hnew.foldl
        (fun w n p hw => hw.mapPage v.host.attempt.2.nextData start offset flags p)
        (pageRange start pages)
      refine ⟨?_, hloop.reservations, hloop.hint, congrArg (· + 1) hloop.changes, hloop.pt⟩
      simp only [Bool.not_false, Bool.true_and, hloop.host]

theorem TableRefines.step (h : TableRefines v m) (op : TableOp) :
    TableRefines (tableStep v op) (flatStep m op) := by
  cases op with
  | map start pages memory offset flags => exact h.ptMap start pages memory offset flags
  | unmap start pages => exact (h.ptUnmap start pages).2
  | unmapAlways start pages => exact h.ptUnmapAlways start pages
  | reserve start pages flags =>
    have hhas : v.rangeHasReservation start pages = memRangeHasReservation m.mem start pages := by
      unfold TableVm.rangeHasReservation memRangeHasReservation
      rw [h.reservations]
    unfold tableStep flatStep TableVm.ptMapLazy ptMapLazy
    simp only [hhas, h.host]
    split
    · exact h
    split
    · refine ⟨rfl, ?_, h.hint, congrArg (· + 1) h.changes, h.pt⟩
      rw [← h.reservations]
      rfl
    · exact ⟨rfl, h.reservations, h.hint, h.changes, h.pt⟩

theorem tableRefines_run (h : Host) (ops : List TableOp) :
    TableRefines (run tableStep (tableInit h) ops) (run flatStep ⟨h, memInit⟩ ops) := by
  have hinit : TableRefines (tableInit h) ⟨h, memInit⟩ := ⟨rfl, rfl, rfl, rfl, fun _ => rfl⟩
  generalize tableInit h = v at hinit
  generalize (⟨h, memInit⟩ : Vm) = m at hinit
  induction ops generalizing v m with
  | nil => exact hinit
  | cons op ops ih => exact ih _ _ (hinit.step op)

/-! ## The reservations of a reachable address space -/

theorem memRemoveReservations_good (hg : GoodReservations m.mem.reservations) (start pages : Nat) :
    GoodReservations (memRemoveReservations m start pages).mem.reservations := by
  unfold memRemoveReservations
  split
  · exact hg
  case isFalse h0 =>
    by_cases hlt : start < memPages
    · exact removeReservations_good (lt_pageRangeEnd h0 hlt) hg
    have hge : memPages ≤ start := Nat.le_of_not_lt hlt
    show GoodReservations (removeReservations _ _ _ _).2
    rw [removeReservations_apart fun r hr => ⟨not_overlaps_above hg hge hr, fun hc => ?_⟩]
    · exact hg
    have hle := stop_le r (hg.nonempty r hr)
    rw [pageRangeEnd_above h0 hge] at hc
    exact absurd hc.2 (Nat.not_lt_of_le hle)

theorem unmapPage_reservations (m : Vm) (p : Nat) :
    (unmapPage m p).mem.reservations = m.mem.reservations := by
  unfold unmapPage
  split <;> rfl

theorem unmapPages_reservations (ps : List Nat) (m : Vm) :
    (ps.foldl unmapPage m).mem.reservations = m.mem.reservations := by
  induction ps generalizing m with
  | nil => rfl
  | cons p ps ih => rw [List.foldl_cons, ih, unmapPage_reservations]

theorem ptUnmapAlways_reservations (m : Vm) (start pages : Nat) :
    (ptUnmapAlways m start pages).mem.reservations =
      (memRemoveReservations m start pages).mem.reservations := by
  unfold ptUnmapAlways
  simp only [unmapLoop_eq]
  show (List.foldl unmapPage _ _).mem.reservations = _
  rw [unmapPages_reservations]
  unfold memRemoveReservations
  split <;> rfl

theorem ptUnmapAlways_good (hg : GoodReservations m.mem.reservations) (start pages : Nat) :
    GoodReservations (ptUnmapAlways m start pages).mem.reservations := by
  rw [ptUnmapAlways_reservations]
  exact memRemoveReservations_good hg start pages

theorem ptUnmap_good (hg : GoodReservations m.mem.reservations) (start pages : Nat) :
    GoodReservations (ptUnmap m start pages).2.mem.reservations := by
  unfold ptUnmap
  split
  · exact ptUnmapAlways_good hg start pages
  · exact hg

theorem mapPages_good (d start offset : Nat) (flags : Flags) (ps : List Nat)
    (hg : GoodReservations m.mem.reservations) :
    GoodReservations (mapPages d start offset flags ps m).mem.reservations := by
  unfold mapPages
  induction ps generalizing m with
  | nil => exact hg
  | cons p ps ih =>
    refine ih ?_
    show GoodReservations (clearPage m p).mem.reservations
    unfold clearPage
    split
    · exact ptUnmap_good hg p 1
    · exact hg

theorem reserve_good (hg : GoodReservations m.mem.reservations) (h0 : pages ≠ 0)
    (hfree : memRangeHasReservation m.mem start pages = false) (flags : Flags) :
    GoodReservations (⟨start, pages, flags⟩ :: m.mem.reservations) := by
  unfold memRangeHasReservation at hfree
  rw [if_neg h0] at hfree
  dsimp only at hfree
  split at hfree
  case isTrue => exact absurd hfree (by simp)
  case isFalse hlt =>
    have hstop : (⟨start, pages, flags⟩ : Reservation).stop = pageRangeEnd start pages := rfl
    refine ⟨fun r hr => ?_, List.pairwise_cons.mpr ⟨fun r hr => ?_, hg.disjoint⟩⟩
    · rcases List.mem_cons.mp hr with rfl | hr
      · rw [hstop]
        exact Nat.lt_of_not_le hlt
      · exact hg.nonempty r hr
    have hne := hg.nonempty r hr
    have hpages : r.pages ≠ 0 := by
      intro hz
      have : r.stop = r.start := if_pos hz
      omega
    have hno := List.any_eq_false.mp hfree r hr
    simp only [decide_eq_true_eq, not_and, not_or] at hno
    have := hno hpages
    rw [hstop]
    show pageRangeEnd start pages ≤ r.start ∨ r.stop ≤ start
    omega

theorem flatStep_good (hg : GoodReservations m.mem.reservations) (op : TableOp) :
    GoodReservations (flatStep m op).mem.reservations := by
  cases op with
  | unmap start pages => exact ptUnmap_good hg start pages
  | unmapAlways start pages => exact ptUnmapAlways_good hg start pages
  | map start pages memory offset flags =>
    unfold flatStep ptMap ptMapAccounted
    cases memory with
    | none => exact hg
    | some contents =>
      dsimp only
      split
      · exact mapPages_good (m := ⟨_, m.mem⟩) _ start offset flags _ hg
      · exact hg
  | reserve start pages flags =>
    simp only [flatStep]
    split
    case isTrue => exact hg
    case isFalse hc =>
      rw [not_or] at hc
      unfold ptMapLazy
      dsimp only
      split
      · exact reserve_good hg (by omega) (by simpa using hc.2) _
      · exact hg

theorem flatRun_good (ops : List TableOp) (hg : GoodReservations m.mem.reservations) :
    GoodReservations (run flatStep m ops).mem.reservations := by
  induction ops generalizing m with
  | nil => exact hg
  | cons op ops ih => exact ih (flatStep_good hg op)

/-! ## `pt_unmap_always` is exact -/

/-- `pt_unmap_always` removes the mapped pages and the reservations of the range and leaves every
other page and reservation as it was. -/
structure UnmapsExactly (v : TableVm) (start n : Nat) : Prop where
  pages : ∀ p, p < memPages → tablePt (v.ptUnmapAlways start n).pgdir p =
    if start ≤ p ∧ p < start + n then none else tablePt v.pgdir p
  reservations : ∀ p, flagsAt (v.ptUnmapAlways start n).reservations p =
    if start ≤ p ∧ p < start + n then none else flagsAt v.reservations p

theorem unmapPages_pt (ps : List Nat) (v : TableVm) (p : Nat) :
    tablePt (ps.foldl TableVm.unmapPage v).pgdir p =
      if ∃ q ∈ ps, slot p = slot q then none else tablePt v.pgdir p := by
  induction ps generalizing v with
  | nil => simp
  | cons q ps ih =>
    have hone : tablePt (v.unmapPage q).pgdir p =
        if slot p = slot q then none else tablePt v.pgdir p := by
      unfold TableVm.unmapPage
      cases hq : tablePt v.pgdir q with
      | some e => exact tablePt_memPtDel v.pgdir q p
      | none =>
        show tablePt v.pgdir p = _
        split
        case isTrue hs => rw [tablePt_congr _ hs, hq]
        case isFalse => rfl
    rw [List.foldl_cons, ih, hone]
    by_cases hs : slot p = slot q <;> by_cases hps : ∃ q ∈ ps, slot p = slot q <;> simp [hs, hps]

theorem ptUnmapAlways_pt (v : TableVm) {start n : Nat} (hin : start + n ≤ memPages) (hp : p < memPages) :
    tablePt (v.ptUnmapAlways start n).pgdir p =
      if start ≤ p ∧ p < start + n then none else tablePt v.pgdir p := by
  have hmod : (start + n) % wordMod = start + n := Nat.mod_eq_of_lt (by
    simp only [memPages, wordMod] at *
    omega)
  unfold TableVm.ptUnmapAlways
  simp only [tableLoop_eq, hmod]
  rw [unmapPages_pt, Nat.add_sub_cancel_left]
  have hdir : ∀ w : TableVm, (w.removeReservations start n).pgdir = w.pgdir := by
    intro w
    unfold TableVm.removeReservations
    split <;> rfl
  rw [hdir]
  refine if_congr ⟨?_, fun hr => ⟨p, List.mem_range'_1.mpr hr, rfl⟩⟩ rfl rfl
  rintro ⟨q, hq, hs⟩
  have hq' := List.mem_range'_1.mp hq
  have hval : p = q := by
    rw [← slot_of_lt hp, hs, slot_of_lt (Nat.lt_of_lt_of_le hq'.2 hin)]
  rw [hval]
  exact hq'

theorem unmapsExactly_iff {n : Nat} (href : TableRefines v m)
    (hg : GoodReservations m.mem.reservations) (hin : start + n ≤ memPages) :
    UnmapsExactly v start n ↔ SplitFits m start n := by
  have hres : (v.ptUnmapAlways start n).reservations =
      (memRemoveReservations m start n).mem.reservations := by
    rw [← ptUnmapAlways_reservations, (href.ptUnmapAlways start n).reservations]
  rw [← removesExactly_iff hg]
  unfold RemovesExactly
  simp only [reservedFlags_eq, ← hres, href.reservations]
  constructor
  · intro h
    refine ⟨?_, h.reservations⟩
    rw [hres]
    exact memRemoveReservations_good hg start n
  · intro h
    exact ⟨fun p hp => ptUnmapAlways_pt v hin hp, h.2⟩

/-- **Iteration and unmapping are exact, and the table refines a flat map.** After every history, for every
range inside the address space: iterating visits every mapped page of the range once, in order, and no
other; and unmapping is exact if and only if a reservation that sticks out on both sides can be split. -/
theorem pageTable_run (h : Host) (ops : List TableOp) :
    TableRefines (run tableStep (tableInit h) ops) (run flatStep ⟨h, memInit⟩ ops) ∧
    ∀ start n, start + n ≤ memPages →
      IteratesExactly (run tableStep (tableInit h) ops).pgdir start (start + n) ∧
      (UnmapsExactly (run tableStep (tableInit h) ops) start n ↔
        SplitFits (run flatStep ⟨h, memInit⟩ ops) start n) := by
  have href := tableRefines_run h ops
  have hgood := flatRun_good ops (m := ⟨h, memInit⟩) ⟨by simp [memInit], .nil⟩
  exact ⟨href, fun start n hin =>
    ⟨iteratesExactly _ start (start + n), unmapsExactly_iff href hgood hin⟩⟩

/-- A large reservation, with the outcomes of the allocations to come. -/
def reservedHost (script : List Bool) : Host := ⟨∅, fun _ _ => 0, 0, 0, script⟩

theorem reserved_state (b : Bool) :
    run flatStep ⟨reservedHost [true, b], memInit⟩ [.reserve 0x100000 0x20000 Flags.write] =
      ⟨reservedHost [b], ⟨∅, [⟨0x100000, 0x20000, 66#32⟩], 0, 1⟩⟩ := rfl

/-- A page in the middle of a reservation is unmapped when the split can be allocated. -/
theorem pageTable_run_split : UnmapsExactly (run tableStep (tableInit (reservedHost [true, true]))
      [.reserve 0x100000 0x20000 Flags.write]) 0x110000 1 := by
  have h := pageTable_run (reservedHost [true, true]) [.reserve 0x100000 0x20000 Flags.write]
  refine ((h.2 0x110000 1 (by decide)).2).mpr ?_
  rw [reserved_state]
  exact fun _ _ _ _ => rfl

/-- When the split cannot be allocated the page stays reserved. -/
theorem unmap_keeps_reservation :
    ¬ ∀ (h : Host) (ops : List TableOp) (start n : Nat), start + n ≤ memPages →
      UnmapsExactly (run tableStep (tableInit h) ops) start n := by
  intro h
  have hex := h (reservedHost [true, false]) [.reserve 0x100000 0x20000 Flags.write] 0x110000 1
    (by decide)
  have href := tableRefines_run (reservedHost [true, false]) [.reserve 0x100000 0x20000 Flags.write]
  rw [unmapsExactly_iff href (flatRun_good _ ⟨by simp [memInit], .nil⟩) (by decide),
    reserved_state] at hex
  exact absurd (hex (by decide) ⟨0x100000, 0x20000, 66#32⟩ (.head _) (by decide)) (by decide)

end IosLinuxkit.Kernel
