import IosLinuxkit.Kernel.PageTableMap
import IosLinuxkit.Kernel.Mmap

/-!
# The search for a hole

`pt_find_hole_from`, `pt_find_hole_high` and `pt_find_hole` of `kernel/memory.c` over the four-level
table. The first scans downward page by page and jumps over regions that have no table; the second
walks upward through the top-level regions without a table, past the reservations in them; the third
tries the first up to ten times below the reservations it meets, from the hint and from the top, and
then the second.

* **`ptFindHoleFrom_spec`** — the downward scan is exact: it returns a free range, or there is none.
* **`ptFindHoleHigh_spec`** — so is the upward walk, within one top-level region without a table.
-/

namespace IosLinuxkit.Kernel

variable {d : PgDir} {size start page p q lo : Nat} {rs : List Reservation} {r : Reservation}

/-! ## The functions -/

abbrev badPage : Nat := memPages
abbrev mmapHoleStart : Nat := 0xefffd

/-- `l0_base`, `l1_base` and `l2_base`, put together from the indices of the page. -/
def l0Base (page : Nat) : Nat := (ptIndex page 0).val <<< (ptBits * 3)
def l1Base (page : Nat) : Nat := l0Base page ||| (ptIndex page 1).val <<< (ptBits * 2)
def l2Base (page : Nat) : Nat := l1Base page ||| (ptIndex page 2).val <<< ptBits

/-- The first page of the largest region around the page that has no table. -/
def missingBase (d : PgDir) (page : Nat) : Option Nat :=
  match d (ptIndex page 0) with
  | none => some (l0Base page)
  | some l1 =>
    match l1 (ptIndex page 1) with
    | none => some (l1Base page)
    | some l2 =>
      match l2 (ptIndex page 2) with
      | none => some (l2Base page)
      | some _ => none

/-- The loop of `pt_find_hole_from`; `hole` is `hole_end` while `in_hole`. -/
def scanDown (d : PgDir) (size : Nat) : Nat → Nat → Option Nat → Nat
  | 0, _, _ => badPage
  | fuel + 1, page, hole =>
    if page > mmapHoleEnd then
      let holeEnd := hole.getD (page + 1)
      match missingBase d page with
      | some base =>
        let effectiveBase := if base > mmapHoleEnd then base else mmapHoleEnd + 1
        if holeEnd - effectiveBase ≥ size then holeEnd - size
        else if base = 0 then badPage
        else scanDown d size fuel (base - 1) (some holeEnd)
      | none =>
        if (tablePt d page).isSome then
          if page = 0 then badPage else scanDown d size fuel (page - 1) none
        else if holeEnd - page ≥ size then page
        else if page = 0 then badPage
        else scanDown d size fuel (page - 1) (some holeEnd)
    else badPage

def ptFindHoleFrom (d : PgDir) (size start : Nat) : Nat := scanDown d size start start none

/-- `r->start + r->pages`. -/
def Reservation.sum (r : Reservation) : Nat := (r.start + r.pages) % wordMod

/-- The loop over the reservations in `pt_find_hole_high`: the one that covers the candidate, which
then moves behind it, or the first one above it. -/
def scanReservations (candidate stop : Nat) :
    List Reservation → Option Reservation → Option Reservation × Nat
  | [], first => (first, candidate)
  | r :: rest, first =>
    if r.sum ≤ candidate ∨ r.start ≥ stop then scanReservations candidate stop rest first
    else if r.start ≤ candidate then (some r, r.sum)
    else scanReservations candidate stop rest
      (if first.all fun f => r.start < f.start then some r else first)

/-- The walk of `pt_find_hole_high` through one region without a table. -/
def highIn (rs : List Reservation) (size stop : Nat) : Nat → Nat → Option Nat
  | 0, _ => none
  | fuel + 1, candidate =>
    if candidate < stop then
      let s := scanReservations candidate stop rs none
      match s.1 with
      | none => if stop - candidate ≥ size then some candidate else none
      | some first =>
        if first.start > s.2 then
          if first.start - s.2 ≥ size then some s.2 else highIn rs size stop fuel first.sum
        else highIn rs size stop fuel s.2
    else none

def subtreeEnd (page : Nat) : Nat := min (l0Base page + 1 <<< (ptBits * 3)) userAddrMaxPage

/-- One round of the loop of `pt_find_hole_high`: a region that has a table is passed over. -/
def highRegion (d : PgDir) (rs : List Reservation) (size page : Nat) : Option Nat :=
  match d (ptIndex page 0) with
  | none =>
    let candidate := if l0Base page < page then page else l0Base page
    highIn rs size (subtreeEnd page) (subtreeEnd page - candidate) candidate
  | some _ => none

/-- The loop of `pt_find_hole_high` over the top-level regions. -/
def highFrom (d : PgDir) (rs : List Reservation) (size : Nat) : Nat → Nat → Nat
  | 0, _ => badPage
  | fuel + 1, page =>
    if page < userAddrMaxPage then
      match highRegion d rs size page with
      | some found => found
      | none => highFrom d rs size fuel (subtreeEnd page)
    else badPage

def ptFindHoleHigh (v : TableVm) (size : Nat) : Nat :=
  highFrom v.pgdir v.reservations size (userAddrMaxPage - 0x100000) 0x100000

/-- The page below the reservation that overlaps the candidate. -/
def belowReservation (rs : List Reservation) (result size start : Nat) : Nat :=
  match rs.find? fun r => r.start < result + size ∧ r.sum > result with
  | some r => r.start - 1
  | none => start

/-- The attempts of `pt_find_hole` in the low region: what was found, and where they ended. -/
def retryLow (v : TableVm) (size : Nat) : Nat → Nat → Option Nat × Nat
  | 0, start => (none, start)
  | attempts + 1, start =>
    let result := ptFindHoleFrom v.pgdir size start
    if result = badPage then (none, start)
    else if !v.rangeHasReservation result size then (some result, start)
    else retryLow v size attempts (belowReservation v.reservations result size start)

def holeStart (v : TableVm) (size : Nat) : Nat :=
  if v.mmapHint = 0 ∨ v.mmapHint > mmapHoleStart ∨ v.mmapHint ≤ mmapHoleEnd + size then mmapHoleStart
  else v.mmapHint

/-- `pt_find_hole`: the page and the `mmap_hint` it leaves. -/
def ptFindHole (v : TableVm) (size : Nat) : HoleChoice :=
  let first := retryLow v size 10 (holeStart v size)
  let second := if first.2 < mmapHoleStart then retryLow v size 10 mmapHoleStart
    else (none, first.2)
  match first.1.or second.1 with
  | some result => ⟨result, result - 1⟩
  | none =>
    let result := ptFindHoleHigh v size
    if result ≠ badPage ∧ !v.rangeHasReservation result size then ⟨result, v.mmapHint⟩
    else ⟨badPage, v.mmapHint⟩

/-! ## Regions -/

theorem l0Base_eq (hp : page < memPages) : l0Base page = page / 134217728 * 134217728 := by
  unfold l0Base
  rw [Nat.shiftLeft_eq, ptIndex_zero]
  simp only [memPages] at hp
  rw [Nat.mod_eq_of_lt (by omega), show 2 ^ (ptBits * 3) = 134217728 from rfl]

theorem l1Base_eq (hp : page < memPages) : l1Base page = page / 262144 * 262144 := by
  have hlt : (ptIndex page 1).val <<< 18 < 2 ^ 27 := by
    rw [Nat.shiftLeft_eq, ptIndex_one]
    omega
  unfold l1Base l0Base
  rw [show ptBits * 3 = 27 from rfl, show ptBits * 2 = 18 from rfl,
    ← Nat.shiftLeft_add_eq_or_of_lt hlt, Nat.shiftLeft_eq, Nat.shiftLeft_eq, ptIndex_zero,
    ptIndex_one]
  simp only [memPages] at hp
  omega

theorem l2Base_eq (hp : page < memPages) : l2Base page = page / 512 * 512 := by
  have hlt : (ptIndex page 2).val <<< 9 < 2 ^ 18 := by
    rw [Nat.shiftLeft_eq, ptIndex_two]
    omega
  have hbase : l1Base page = (page / 262144) <<< 18 := by
    rw [l1Base_eq hp, Nat.shiftLeft_eq]
  unfold l2Base
  rw [hbase, show ptBits = 9 from rfl, ← Nat.shiftLeft_add_eq_or_of_lt hlt, Nat.shiftLeft_eq,
    Nat.shiftLeft_eq, ptIndex_two]
  omega

theorem missingBase_spec {base : Nat} (hp : page < memPages) (hb : missingBase d page = some base) :
    base ≤ page ∧ ∀ q, base ≤ q → q ≤ page → tablePt d q = none := by
  unfold missingBase at hb
  cases h0 : d (ptIndex page 0) with
  | none =>
    rw [h0, l0Base_eq hp] at hb
    obtain rfl := Option.some.inj hb
    refine ⟨by omega, fun q hlo hhi => ?_⟩
    have hi : ptIndex q 0 = ptIndex page 0 := by
      rw [Fin.ext_iff, ptIndex_zero, ptIndex_zero]
      omega
    rw [tablePt_eq, leafOf_eq, hi, h0]
    rfl
  | some l1 =>
    rw [h0] at hb
    dsimp only at hb
    cases h1 : l1 (ptIndex page 1) with
    | none =>
      rw [h1, l1Base_eq hp] at hb
      obtain rfl := Option.some.inj hb
      refine ⟨by omega, fun q hlo hhi => ?_⟩
      have hi0 : ptIndex q 0 = ptIndex page 0 := by
        rw [Fin.ext_iff, ptIndex_zero, ptIndex_zero]
        omega
      have hi1 : ptIndex q 1 = ptIndex page 1 := by
        rw [Fin.ext_iff, ptIndex_one, ptIndex_one]
        omega
      rw [tablePt_eq, leafOf_eq, hi0, h0, Option.bind_some, hi1, h1]
      rfl
    | some l2 =>
      rw [h1] at hb
      dsimp only at hb
      cases h2 : l2 (ptIndex page 2) with
      | none =>
        rw [h2, l2Base_eq hp] at hb
        obtain rfl := Option.some.inj hb
        refine ⟨by omega, fun q hlo hhi => ?_⟩
        have hleaf : SameLeaf q page := by
          refine ⟨?_, ?_, ?_⟩
          · rw [Fin.ext_iff, ptIndex_zero, ptIndex_zero]
            omega
          · rw [Fin.ext_iff, ptIndex_one, ptIndex_one]
            omega
          · rw [Fin.ext_iff, ptIndex_two, ptIndex_two]
            omega
        rw [tablePt_eq, leafOf_congr d hleaf, leafOf_eq, h0, Option.bind_some, h1, Option.bind_some,
          h2]
        rfl
      | some l3 =>
        rw [h2] at hb
        cases hb

/-! ## The downward scan -/

def Unmapped (d : PgDir) (p size : Nat) : Prop := ∀ q, p ≤ q → q < p + size → tablePt d q = none

/-- Every range of `size` pages above `page` in the bounds of the scan has a mapped page. -/
def NoRun (d : PgDir) (size start page : Nat) : Prop :=
  ∀ lo, page < lo → mmapHoleEnd < lo → lo + size ≤ start + 1 →
    ∃ q, (lo ≤ q ∧ q < lo + size) ∧ (tablePt d q).isSome

structure ScanInv (d : PgDir) (size start page : Nat) (hole : Option Nat) : Prop where
  page_le : page ≤ start
  above : page < hole.getD (page + 1)
  hole_le : hole.getD (page + 1) ≤ start + 1
  unmapped : ∀ q, page < q → q < hole.getD (page + 1) → tablePt d q = none
  frontier : hole.getD (page + 1) = start + 1 ∨ (tablePt d (hole.getD (page + 1))).isSome
  noRun : NoRun d size start page

/-- What the scan may return: the highest free range, or nothing when there is none. -/
def ScanResult (d : PgDir) (size start result : Nat) : Prop :=
  (result < memPages ∧ mmapHoleEnd < result ∧ result + size ≤ start + 1 ∧
      Unmapped d result size ∧ NoRun d size start result) ∨
    (result = badPage ∧ NoRun d size start mmapHoleEnd)

theorem ScanInv.sticksOut {hole : Option Nat} (h : ScanInv d size start page hole)
    (hout : hole.getD (page + 1) < lo + size) (hend : mmapHoleEnd < lo)
    (hfit : lo + size ≤ start + 1) : ∃ q, (lo ≤ q ∧ q < lo + size) ∧ (tablePt d q).isSome := by
  by_cases hpage : page < lo
  · exact h.noRun lo hpage hend hfit
  have hge := h.above
  rcases h.frontier with htop | hmapped
  · omega
  · exact ⟨hole.getD (page + 1), by omega, hmapped⟩

theorem ScanInv.noRun_below {hole : Option Nat} (base : Nat) (h : ScanInv d size start page hole)
    (hsmall : hole.getD (page + 1) - max base (mmapHoleEnd + 1) < size) :
    ∀ lo, base ≤ lo → mmapHoleEnd < lo → lo + size ≤ start + 1 →
      ∃ q, (lo ≤ q ∧ q < lo + size) ∧ (tablePt d q).isSome :=
  fun lo hlo hend hfit => h.sticksOut (by omega) hend hfit

theorem scanDown_spec (hsize : 0 < size) (hstart : start < memPages) :
    ∀ (fuel page : Nat) (hole : Option Nat), page ≤ fuel → ScanInv d size start page hole →
      ScanResult d size start (scanDown d size fuel page hole)
  | 0, page, hole, hfuel, h => by
    exact .inr ⟨rfl, fun lo hlo => h.noRun lo (by omega)⟩
  | fuel + 1, page, hole, hfuel, h => by
    have habove := h.above
    have hle := h.hole_le
    have hpage := h.page_le
    unfold scanDown
    split
    swap
    · exact .inr ⟨rfl, fun lo hlo => h.noRun lo (by omega)⟩
    case isTrue hend =>
    dsimp only
    cases hb : missingBase d page with
    | some base =>
      obtain ⟨hbase, hmissing⟩ := missingBase_spec (Nat.lt_of_le_of_lt hpage hstart) hb
      have heff : (if base > mmapHoleEnd then base else mmapHoleEnd + 1) =
          max base (mmapHoleEnd + 1) := by
        split <;> omega
      dsimp only
      rw [heff]
      split
      case isTrue hbig =>
        refine .inl ⟨by omega, by omega, by omega, fun q hlo hhi => ?_,
          fun lo hlo => h.sticksOut (by omega)⟩
        by_cases hq : q ≤ page
        · exact hmissing q (by omega) hq
        · exact h.unmapped q (by omega) (by omega)
      case isFalse hsmall =>
        have hbelow := h.noRun_below base (by omega)
        split
        case isTrue h0 => exact .inr ⟨rfl, fun lo _ hlo => hbelow lo (by omega) hlo⟩
        case isFalse h0 =>
          refine scanDown_spec hsize hstart fuel (base - 1) _ (by omega)
            ⟨by omega, ?_, ?_, fun q hlo hhi => ?_, h.frontier, fun lo hlo => hbelow lo (by omega)⟩
          · rw [Option.getD_some]
            omega
          · rw [Option.getD_some]
            exact hle
          rw [Option.getD_some] at hhi
          by_cases hq : q ≤ page
          · exact hmissing q (by omega) hq
          · exact h.unmapped q (by omega) hhi
    | none =>
      dsimp only
      split
      case isTrue hmapped =>
        rw [if_neg (by omega)]
        have hnext : page - 1 + 1 = page := by omega
        refine scanDown_spec hsize hstart fuel (page - 1) none (by omega)
          ⟨by omega, ?_, ?_, fun q hlo hhi => ?_, ?_, fun lo hlo hend' hfit => ?_⟩
        · rw [Option.getD_none]
          omega
        · rw [Option.getD_none]
          omega
        · rw [Option.getD_none] at hhi
          omega
        · rw [Option.getD_none, hnext]
          exact .inr hmapped
        by_cases hlp : lo = page
        · exact ⟨page, by omega, hmapped⟩
        · exact h.noRun lo (by omega) hend' hfit
      case isFalse hunmapped =>
        have hnone : tablePt d page = none := Option.not_isSome_iff_eq_none.mp hunmapped
        split
        case isTrue hbig =>
          refine .inl ⟨by omega, hend, by omega, fun q hlo hhi => ?_, h.noRun⟩
          by_cases hq : q = page
          · rw [hq, hnone]
          · exact h.unmapped q (by omega) (by omega)
        case isFalse hsmall =>
          rw [if_neg (by omega)]
          have hbelow := h.noRun_below page (by omega)
          refine scanDown_spec hsize hstart fuel (page - 1) _ (by omega)
            ⟨by omega, ?_, ?_, fun q hlo hhi => ?_, h.frontier, fun lo hlo => hbelow lo (by omega)⟩
          · rw [Option.getD_some]
            omega
          · rw [Option.getD_some]
            exact hle
          rw [Option.getD_some] at hhi
          by_cases hq : q = page
          · rw [hq, hnone]
          · exact h.unmapped q (by omega) hhi

theorem ptFindHoleFrom_spec (hsize : 0 < size) (hstart : start < memPages) :
    ScanResult d size start (ptFindHoleFrom d size start) := by
  refine scanDown_spec hsize hstart start start none (Nat.le_refl _) ⟨Nat.le_refl _, ?_, ?_, ?_, ?_, ?_⟩
  · exact Nat.lt_succ_self _
  · exact Nat.le_refl _
  · intro q hlo hhi
    rw [Option.getD_none] at hhi
    omega
  · exact .inl rfl
  · intro lo hlo _ hfit
    omega

/-! ## The upward walk -/

def Meets (r : Reservation) (p size : Nat) : Prop := r.start < p + size ∧ p < r.sum

theorem scanReservations_spec (candidate stop : Nat) (rs seen : List Reservation)
    (first : Option Reservation)
    (hfirst : ∀ f, first = some f → f ∈ seen ∧ candidate < f.start ∧ f.start < stop)
    (hseen : ∀ r ∈ seen, r.sum ≤ candidate ∨ stop ≤ r.start ∨
      ∃ f, first = some f ∧ f.start ≤ r.start) :
    (∃ r ∈ rs, scanReservations candidate stop rs first = (some r, r.sum) ∧
      r.start ≤ candidate ∧ candidate < r.sum) ∨
    ∃ f, scanReservations candidate stop rs first = (f, candidate) ∧
      (∀ g, f = some g → g ∈ seen ++ rs ∧ candidate < g.start ∧ g.start < stop) ∧
      ∀ r ∈ seen ++ rs, r.sum ≤ candidate ∨ stop ≤ r.start ∨ ∃ g, f = some g ∧ g.start ≤ r.start := by
  induction rs generalizing seen first with
  | nil =>
    rw [List.append_nil]
    exact .inr ⟨first, rfl, hfirst, hseen⟩
  | cons r rest ih =>
    rw [scanReservations]
    have hsplit : seen ++ r :: rest = (seen ++ [r]) ++ rest := by simp
    by_cases hskip : r.sum ≤ candidate ∨ r.start ≥ stop
    · rw [if_pos hskip]
      have hseen' : ∀ s ∈ seen ++ [r], s.sum ≤ candidate ∨ stop ≤ s.start ∨
          ∃ f, first = some f ∧ f.start ≤ s.start := by
        intro s hs
        rcases List.mem_append.mp hs with hs | hs
        · exact hseen s hs
        · rw [List.mem_singleton.mp hs]
          exact hskip.imp_right .inl
      rcases ih (seen ++ [r]) first
        (fun f hf => ⟨List.mem_append_left _ (hfirst f hf).1, (hfirst f hf).2⟩) hseen' with
        ⟨s, hs, hrest⟩ | hrest
      · exact .inl ⟨s, List.mem_cons_of_mem r hs, hrest⟩
      · rw [hsplit]
        exact .inr hrest
    rw [if_neg hskip]
    rw [not_or, Nat.not_le, Nat.not_le] at hskip
    by_cases hcover : r.start ≤ candidate
    · rw [if_pos hcover]
      exact .inl ⟨r, List.mem_cons_self, rfl, hcover, hskip.1⟩
    rw [if_neg hcover]
    -- the new first one is not above `r`, nor above the old first one
    have hnew : ∃ g, (if first.all fun f => r.start < f.start then some r else first) = some g ∧
        g ∈ seen ++ [r] ∧ candidate < g.start ∧ g.start < stop ∧ g.start ≤ r.start ∧
        ∀ f, first = some f → g.start ≤ f.start := by
      cases first with
      | none =>
        exact ⟨r, rfl, by simp, by omega, hskip.2, Nat.le_refl _, by intro f hf; cases hf⟩
      | some f =>
        obtain ⟨hmem, hlo, hhi⟩ := hfirst f rfl
        by_cases hlt : r.start < f.start
        · refine ⟨r, by simp [hlt], by simp, by omega, hskip.2, Nat.le_refl _, ?_⟩
          intro f' hf'
          cases hf'
          omega
        refine ⟨f, by simp [hlt], List.mem_append_left _ hmem, hlo, hhi, by omega, ?_⟩
        intro f' hf'
        cases hf'
        exact Nat.le_refl _
    obtain ⟨g, hg, hgmem, hglo, hghi, hgr, hgf⟩ := hnew
    rw [hg]
    have hseen' : ∀ s ∈ seen ++ [r], s.sum ≤ candidate ∨ stop ≤ s.start ∨
        ∃ f, some g = some f ∧ f.start ≤ s.start := by
      intro s hs
      rcases List.mem_append.mp hs with hs | hs
      · refine (hseen s hs).imp_right (.imp_right ?_)
        rintro ⟨f, hf, hfs⟩
        exact ⟨g, rfl, Nat.le_trans (hgf f hf) hfs⟩
      · rw [List.mem_singleton.mp hs]
        exact .inr (.inr ⟨g, rfl, hgr⟩)
    rcases ih (seen ++ [r]) (some g)
      (fun f hf => by cases hf; exact ⟨hgmem, hglo, hghi⟩) hseen' with ⟨s, hs, hrest⟩ | hrest
    · exact .inl ⟨s, List.mem_cons_of_mem r hs, hrest⟩
    · rw [hsplit]
      exact .inr hrest

theorem highIn_spec (hsize : 0 < size) (hrs : ∀ r ∈ rs, r.start < r.sum) (stop : Nat) :
    ∀ (fuel candidate : Nat), stop - candidate ≤ fuel →
      (∃ p, highIn rs size stop fuel candidate = some p ∧ candidate ≤ p ∧ p + size ≤ stop ∧
        ∀ r ∈ rs, ¬ Meets r p size) ∨
      (highIn rs size stop fuel candidate = none ∧ ∀ lo, candidate ≤ lo → lo + size ≤ stop →
        ∃ r ∈ rs, Meets r lo size)
  | 0, candidate, hfuel => .inr ⟨rfl, fun lo hlo hfit => by omega⟩
  | fuel + 1, candidate, hfuel => by
    unfold highIn
    split
    swap
    · exact .inr ⟨rfl, fun lo hlo hfit => by omega⟩
    case isTrue hlt =>
    dsimp only
    rcases scanReservations_spec candidate stop rs [] none (by intro f hf; cases hf) (by simp) with
      ⟨r, hr, heq, hlo, hhi⟩ | ⟨first, heq, hfirst, hrest⟩
    · -- the candidate was inside a reservation
      rw [heq]
      dsimp only
      rw [if_neg (by omega)]
      rcases highIn_spec hsize hrs stop fuel r.sum (by omega) with ⟨p, hp, hge, hfit⟩ | ⟨hnone, hmeet⟩
      · exact .inl ⟨p, hp, by omega, hfit⟩
      refine .inr ⟨hnone, fun lo hlo' hfit => ?_⟩
      by_cases hin : lo < r.sum
      · exact ⟨r, hr, by omega, hin⟩
      · exact hmeet lo (by omega) hfit
    rw [heq]
    rw [List.nil_append] at hfirst hrest
    cases first with
    | none =>
      have hfree : ∀ r ∈ rs, r.sum ≤ candidate ∨ stop ≤ r.start := fun r hr =>
        (hrest r hr).imp_right fun h => h.resolve_right (by rintro ⟨g, hg, -⟩; cases hg)
      dsimp only
      split
      case isTrue hbig =>
        refine .inl ⟨candidate, rfl, Nat.le_refl _, by omega, fun r hr hm => ?_⟩
        have hout := hfree r hr
        unfold Meets at hm
        omega
      case isFalse => exact .inr ⟨rfl, fun lo hlo hfit => by omega⟩
    | some f =>
      obtain ⟨hmem, hlo, hhi⟩ := hfirst f rfl
      dsimp only
      rw [if_pos hlo]
      split
      case isTrue hbig =>
        refine .inl ⟨candidate, rfl, Nat.le_refl _, by omega, fun r hr hm => ?_⟩
        unfold Meets at hm
        rcases hrest r hr with hout | hout | ⟨g, hg, hgr⟩
        · omega
        · omega
        · cases hg
          omega
      case isFalse hsmall =>
        have hsum := hrs f hmem
        rcases highIn_spec hsize hrs stop fuel f.sum (by omega) with
          ⟨p, hp, hge, hfit⟩ | ⟨hnone, hmeet⟩
        · exact .inl ⟨p, hp, by omega, hfit⟩
        refine .inr ⟨hnone, fun lo hlo' hfit => ?_⟩
        by_cases hin : lo < f.sum
        · exact ⟨f, hmem, by omega, hin⟩
        · exact hmeet lo (by omega) hfit

/-- The range lies in one top-level region that has no table. -/
def InMissing (d : PgDir) (p size : Nat) : Prop :=
  d (ptIndex p 0) = none ∧ p / 134217728 = (p + size - 1) / 134217728

theorem InMissing.unmapped (hm : InMissing d p size) : Unmapped d p size := by
  intro q hlo hhi
  have hi : ptIndex q 0 = ptIndex p 0 := by
    have := hm.2
    rw [Fin.ext_iff, ptIndex_zero, ptIndex_zero]
    omega
  rw [tablePt_eq, leafOf_eq, hi, hm.1]
  rfl

theorem subtreeEnd_spec (size : Nat) (hlt : page < userAddrMaxPage) :
    page < subtreeEnd page ∧ subtreeEnd page ≤ userAddrMaxPage ∧
      (∀ p, page ≤ p → p < subtreeEnd page → p / 134217728 = page / 134217728) ∧
      ∀ p, 0 < size → page ≤ p → p + size ≤ userAddrMaxPage →
        p / 134217728 = (p + size - 1) / 134217728 → p + size ≤ subtreeEnd page ∨
          subtreeEnd page ≤ p := by
  have hpage : page < memPages := by
    simp only [memPages, userAddrMaxPage] at *
    omega
  have hbase := l0Base_eq hpage
  have hend : subtreeEnd page = min (page / 134217728 * 134217728 + 134217728) userAddrMaxPage := by
    rw [subtreeEnd, hbase]
    rfl
  rw [hend]
  refine ⟨by omega, by omega, fun p hlo hhi => by omega, fun p hsize hlo hfit hq => ?_⟩
  by_cases hin : p < page / 134217728 * 134217728 + 134217728
  · exact .inl (by omega)
  · exact .inr (by omega)

theorem ptIndex_zero_congr (hq : p / 134217728 = q / 134217728) : ptIndex p 0 = ptIndex q 0 := by
  rw [Fin.ext_iff, ptIndex_zero, ptIndex_zero, hq]

theorem highRegion_spec (hsize : 0 < size) (hrs : ∀ r ∈ rs, r.start < r.sum)
    (hlt : page < userAddrMaxPage) :
    (∃ p, highRegion d rs size page = some p ∧ page ≤ p ∧ p + size ≤ userAddrMaxPage ∧
      InMissing d p size ∧ ∀ r ∈ rs, ¬ Meets r p size) ∨
    (highRegion d rs size page = none ∧ ∀ lo, page ≤ lo → lo + size ≤ subtreeEnd page →
      InMissing d lo size → ∃ r ∈ rs, Meets r lo size) := by
  obtain ⟨-, htop, hsame, -⟩ := subtreeEnd_spec size hlt
  have hpage : page < memPages := by
    simp only [memPages, userAddrMaxPage] at *
    omega
  have hbase := l0Base_eq hpage
  have hcand : (if l0Base page < page then page else l0Base page) = page := by
    rw [hbase]
    split <;> omega
  unfold highRegion
  cases h0 : d (ptIndex page 0) with
  | some l1 =>
    refine .inr ⟨rfl, fun lo hlo hfit hm => ?_⟩
    rw [InMissing, ptIndex_zero_congr (hsame lo hlo (by omega)), h0] at hm
    cases hm.1
  | none =>
    dsimp only
    rw [hcand]
    rcases highIn_spec hsize hrs (subtreeEnd page) (subtreeEnd page - page) page (Nat.le_refl _) with
      ⟨p, hp, hge, hfit, hfree⟩ | ⟨hnone, hmeet⟩
    · have hin := hsame p hge (by omega)
      have hlast := hsame (p + size - 1) (by omega) (by omega)
      refine .inl ⟨p, hp, hge, by omega, ⟨?_, hin.trans hlast.symm⟩, hfree⟩
      rw [ptIndex_zero_congr hin, h0]
    · exact .inr ⟨hnone, fun lo hlo hfit _ => hmeet lo hlo hfit⟩

theorem highFrom_spec (hsize : 0 < size) (hrs : ∀ r ∈ rs, r.start < r.sum) :
    ∀ (fuel page : Nat), userAddrMaxPage - page ≤ fuel → (page ≤ highFrom d rs size fuel page ∧
        highFrom d rs size fuel page + size ≤ userAddrMaxPage ∧
        InMissing d (highFrom d rs size fuel page) size ∧
        ∀ r ∈ rs, ¬ Meets r (highFrom d rs size fuel page) size) ∨
      (highFrom d rs size fuel page = badPage ∧
        ∀ lo, page ≤ lo → lo + size ≤ userAddrMaxPage → InMissing d lo size →
          ∃ r ∈ rs, Meets r lo size)
  | 0, page, hfuel => .inr ⟨rfl, fun lo hlo hfit => by omega⟩
  | fuel + 1, page, hfuel => by
    unfold highFrom
    split
    swap
    · exact .inr ⟨rfl, fun lo hlo hfit => by omega⟩
    case isTrue hlt =>
    obtain ⟨hnext, -, -, hregion⟩ := subtreeEnd_spec size hlt
    rcases highRegion_spec (d := d) hsize hrs hlt with ⟨p, hp, hrest⟩ | ⟨hnone, hmeetIn⟩
    · rw [hp]
      exact .inl hrest
    rw [hnone]
    dsimp only
    rcases highFrom_spec hsize hrs fuel (subtreeEnd page) (by omega) with
      ⟨hge, hrest⟩ | ⟨hbad, hmeet⟩
    · exact .inl ⟨by omega, hrest⟩
    refine .inr ⟨hbad, fun lo hlo hfit hm => ?_⟩
    rcases hregion lo hsize hlo hfit hm.2 with hin | hout
    · exact hmeetIn lo hlo hin hm
    · exact hmeet lo hout hfit hm

/-! ## The two searches in terms of pages -/

/-- Reservations as `do_mmap` makes them: ranges that share no page and whose sums do not wrap. -/
structure PlainReservations (rs : List Reservation) : Prop where
  good : GoodReservations rs
  fits : ∀ r ∈ rs, r.start + r.pages < wordMod

theorem PlainReservations.sum_eq (hrs : PlainReservations rs) (hr : r ∈ rs) :
    r.sum = r.start + r.pages :=
  Nat.mod_eq_of_lt (hrs.fits r hr)

theorem PlainReservations.start_lt (hrs : PlainReservations rs) (hr : r ∈ rs) :
    r.start < r.sum := by
  have hne := hrs.good.nonempty r hr
  rw [hrs.sum_eq hr]
  unfold Reservation.stop pageRangeEnd at hne
  split_ifs at hne <;> omega

theorem PlainReservations.lt_stop_iff (hrs : PlainReservations rs) (hr : r ∈ rs)
    (hq : q < memPages) : q < r.stop ↔ q < r.sum := by
  have hne := hrs.good.nonempty r hr
  rw [hrs.sum_eq hr]
  unfold Reservation.stop pageRangeEnd at *
  split_ifs at * <;> omega

def Unreserved (rs : List Reservation) (p size : Nat) : Prop :=
  ∀ q, p ≤ q → q < p + size → flagsAt rs q = none

theorem PlainReservations.unreserved_iff (hrs : PlainReservations rs) (hsize : 0 < size)
    (hin : p + size ≤ memPages) : Unreserved rs p size ↔ ∀ r ∈ rs, ¬ Meets r p size := by
  constructor
  · intro hun r hr hm
    have hlt := hrs.start_lt hr
    unfold Meets at hm
    have hsome := flagsAt_isSome hr (p := max p r.start) ⟨by omega,
      (hrs.lt_stop_iff hr (by omega)).mpr (by omega)⟩
    rw [hun (max p r.start) (by omega) (by omega)] at hsome
    cases hsome
  intro hno q hlo hhi
  refine flagsAt_eq_none fun r hr hc => hno r hr ?_
  rw [Reservation.covers_iff, hrs.lt_stop_iff hr (by omega)] at hc
  exact ⟨by omega, by omega⟩

theorem ptFindHoleHigh_spec (v : TableVm) (hrs : PlainReservations v.reservations)
    (hsize : 0 < size) :
    (0x100000 ≤ ptFindHoleHigh v size ∧ ptFindHoleHigh v size + size ≤ userAddrMaxPage ∧
      Unmapped v.pgdir (ptFindHoleHigh v size) size ∧
      Unreserved v.reservations (ptFindHoleHigh v size) size) ∨
    (ptFindHoleHigh v size = badPage ∧ ∀ lo, 0x100000 ≤ lo → lo + size ≤ userAddrMaxPage →
      InMissing v.pgdir lo size → ¬ Unreserved v.reservations lo size) := by
  have htop : userAddrMaxPage ≤ memPages := by decide
  rcases highFrom_spec (d := v.pgdir) hsize (fun r hr => hrs.start_lt hr)
    (userAddrMaxPage - 0x100000) 0x100000 (Nat.le_refl _) with
    ⟨hge, hfit, hm, hfree⟩ | ⟨hbad, hmeet⟩
  · exact .inl ⟨hge, hfit, hm.unmapped,
      (hrs.unreserved_iff hsize (Nat.le_trans hfit htop)).mpr hfree⟩
  refine .inr ⟨hbad, fun lo hlo hfit hm hun => ?_⟩
  obtain ⟨r, hr, hmr⟩ := hmeet lo hlo hfit hm
  exact (hrs.unreserved_iff hsize (Nat.le_trans hfit htop)).mp hun r hr hmr

end IosLinuxkit.Kernel
