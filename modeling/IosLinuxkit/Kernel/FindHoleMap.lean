import IosLinuxkit.Kernel.FindHole
import IosLinuxkit.Kernel.RangeMadvise

/-!
# Mapping without `MAP_FIXED`

`pt_find_hole` puts the two searches together, and `do_mmap` maps what it returns. The retries below
a reservation are bounded, so a search that gives up has been exact only while there are fewer
reservations than retries.

* **`ptFindHole_spec`** — what `pt_find_hole` returns, and what it means when it returns nothing.
* **`doMmap_keeps`** — a successful `do_mmap` without `MAP_FIXED` leaves alone what was there.
-/

namespace IosLinuxkit.Kernel

variable {v : TableVm} {size start p q lo : Nat} {rs : List Reservation} {r : Reservation}

/-! ## Attempts below the reservations -/

theorem memRangeHasReservation_eq_false {m : Mem} (hg : GoodReservations m.reservations)
    (hsize : 0 < size) (hin : p + size ≤ memPages) :
    memRangeHasReservation m p size = false ↔ Unreserved m.reservations p size := by
  have hstop : pageRangeEnd p size = p + size := by
    unfold pageRangeEnd
    rw [if_neg (by omega), if_neg (by omega)]
  unfold memRangeHasReservation
  rw [if_neg (by omega)]
  dsimp only
  rw [hstop, if_neg (by omega), List.any_eq_false]
  constructor
  · intro hno q hlo hhi
    refine flagsAt_eq_none fun r hr hc => hno r hr ?_
    rw [Reservation.covers_iff] at hc
    refine decide_eq_true ⟨fun h0 => ?_, .inr ⟨by omega, by omega⟩⟩
    have hempty : r.stop = r.start := if_pos h0
    omega
  intro hun r hr hc
  have hne := hg.nonempty r hr
  have hmeet := (of_decide_eq_true hc).2.resolve_left (by omega)
  -- the first page that the two have in common
  have hsome := flagsAt_isSome hr (p := max p r.start) ⟨by omega, by omega⟩
  rw [hun (max p r.start) (by omega) (by omega)] at hsome
  cases hsome

/-- A hole in the bounds of the low search. -/
structure LowHole (v : TableVm) (size p : Nat) : Prop where
  above : mmapHoleEnd < p
  below : p + size ≤ mmapHoleStart + 1
  unmapped : Unmapped v.pgdir p size
  unreserved : Unreserved v.reservations p size

theorem LowHole.le_result {result : Nat} (h : LowHole v size lo) (hfit : lo + size ≤ start + 1)
    (hrun : NoRun v.pgdir size start result) : lo ≤ result := by
  by_contra hgt
  obtain ⟨q, hq, hsome⟩ := hrun lo (by omega) h.above hfit
  rw [h.unmapped q hq.1 hq.2] at hsome
  cases hsome

theorem belowReservation_spec (hrs : PlainReservations v.reservations) (hsize : 0 < size) {result : Nat}
    (hin : result + size ≤ memPages) (hres : v.rangeHasReservation result size = true) (start : Nat) :
    ∃ r ∈ v.reservations, Meets r result size ∧
      belowReservation v.reservations result size start = r.start - 1 := by
  unfold belowReservation
  cases hfind : v.reservations.find? fun r => r.start < result + size ∧ r.sum > result with
  | some r =>
    have hr := List.find?_some hfind
    simp only [decide_eq_true_eq] at hr
    exact ⟨r, List.mem_of_find?_eq_some hfind, hr, rfl⟩
  | none =>
    have hun : Unreserved v.reservations result size :=
      (hrs.unreserved_iff hsize hin).mpr fun r hr hm =>
        List.find?_eq_none.mp hfind r hr (by rw [decide_eq_true_eq]; exact hm)
    unfold TableVm.rangeHasReservation at hres
    rw [(memRangeHasReservation_eq_false hrs.good hsize hin).mpr hun] at hres
    cases hres

theorem attempt_spec (hrs : PlainReservations v.reservations) (hsize : 0 < size)
    (hstart : start ≤ mmapHoleStart) (n : Nat) : (retryLow v size (n + 1) start = (none, start) ∧
      ∀ lo, lo + size ≤ start + 1 → ¬ LowHole v size lo) ∨
    (∃ p, retryLow v size (n + 1) start = (some p, start) ∧ LowHole v size p) ∨
    ∃ r ∈ v.reservations, r.start ≤ start ∧
      retryLow v size (n + 1) start = retryLow v size n (r.start - 1) ∧
      ∀ lo, lo + size ≤ start + 1 → LowHole v size lo → lo + size ≤ r.start := by
  rw [retryLow]
  have hlt : start < memPages := by
    simp only [memPages, mmapHoleStart] at *
    omega
  rcases ptFindHoleFrom_spec (d := v.pgdir) hsize hlt with ⟨hres, hend, hfit, hun, hrun⟩ | ⟨hbad, hrun⟩
  · set result := ptFindHoleFrom v.pgdir size start
    have hin : result + size ≤ memPages := by
      simp only [memPages, mmapHoleStart] at *
      omega
    rw [if_neg (Nat.ne_of_lt hres)]
    cases hhas : v.rangeHasReservation result size with
    | false =>
      refine .inr (.inl ⟨result, rfl, hend, by omega, hun, ?_⟩)
      exact (memRangeHasReservation_eq_false hrs.good hsize hin).mp hhas
    | true =>
      obtain ⟨r, hr, hm, hbelow⟩ := belowReservation_spec hrs hsize hin hhas start
      unfold Meets at hm
      refine .inr (.inr ⟨r, hr, by omega, by rw [hbelow]; rfl, fun lo hlo hhole => ?_⟩)
      -- the hole starts below the end of `r`, so it also ends below its start
      have hle := hhole.le_result hlo hrun
      have hfree : ¬ Meets r lo size :=
        (hrs.unreserved_iff hsize (by omega)).mp hhole.unreserved r hr
      unfold Meets at hfree
      omega
  rw [if_pos hbad]
  refine .inl ⟨rfl, fun lo hlo hhole => ?_⟩
  have hle := hhole.le_result hlo hrun
  have hend := hhole.above
  omega

theorem retryLow_spec (hrs : PlainReservations v.reservations) (hsize : 0 < size) :
    ∀ (n start : Nat), start ≤ mmapHoleStart → (retryLow v size n start).2 ≤ start ∧
        ∀ p, (retryLow v size n start).1 = some p → LowHole v size p
  | 0, start, _ => ⟨Nat.le_refl _, fun p hp => by cases hp⟩
  | n + 1, start, hstart => by
    rcases attempt_spec hrs hsize hstart n with ⟨hr, -⟩ | ⟨p, hr, hhole⟩ | ⟨r, -, hle, hr, -⟩
    · rw [hr]
      exact ⟨Nat.le_refl _, fun p hp => by cases hp⟩
    · rw [hr]
      exact ⟨Nat.le_refl _, fun q hq => by cases hq; exact hhole⟩
    rw [hr]
    obtain ⟨hsnd, hfst⟩ := retryLow_spec hrs hsize n (r.start - 1) (by omega)
    exact ⟨by omega, hfst⟩

def startingBelow (rs : List Reservation) (start : Nat) : Nat :=
  rs.countP fun r => r.start ≤ start

theorem startingBelow_lt (hr : r ∈ rs) (hpos : 0 < r.start) (hle : r.start ≤ start) :
    startingBelow rs (r.start - 1) < startingBelow rs start := by
  unfold startingBelow
  induction rs with
  | nil => cases hr
  | cons s rs ih =>
    have hmono : rs.countP (fun s => s.start ≤ r.start - 1) ≤ rs.countP fun s => s.start ≤ start :=
      List.countP_mono_left fun s _ hs => by
        simp only [decide_eq_true_eq] at *
        omega
    rw [List.countP_cons, List.countP_cons]
    rcases List.mem_cons.mp hr with rfl | hr
    · rw [if_neg (by simp; omega), if_pos (by simp; omega)]
      omega
    have hlt := ih hr
    split
    case isTrue hs =>
      rw [if_pos (by simp only [decide_eq_true_eq] at *; omega)]
      omega
    case isFalse => omega

theorem retryLow_none (hrs : PlainReservations v.reservations) (hsize : 0 < size) :
    ∀ (n start : Nat), start ≤ mmapHoleStart → startingBelow v.reservations start < n →
      (retryLow v size n start).1 = none → ∀ lo, lo + size ≤ start + 1 → ¬ LowHole v size lo
  | 0, start, _, hn, _ => by omega
  | n + 1, start, hstart, hn, hnone => by
    rcases attempt_spec hrs hsize hstart n with ⟨-, hno⟩ | ⟨p, hr, -⟩ | ⟨r, hmem, hle, hr, hkeep⟩
    · exact hno
    · rw [hr] at hnone
      cases hnone
    intro lo hlo hhole
    have hbelow := hkeep lo hlo hhole
    have hcount := startingBelow_lt hmem (by omega) hle
    rw [hr] at hnone
    exact retryLow_none hrs hsize n (r.start - 1) (by omega) (by omega) hnone lo (by omega) hhole

/-! ## `pt_find_hole` -/

/-- A range in the bounds of one of the two searches that can be mapped. -/
structure Hole (v : TableVm) (size p : Nat) : Prop where
  bounds : (mmapHoleEnd < p ∧ p + size ≤ mmapHoleStart + 1) ∨
    (0x100000 ≤ p ∧ p + size ≤ userAddrMaxPage)
  unmapped : Unmapped v.pgdir p size
  unreserved : Unreserved v.reservations p size

theorem LowHole.hole (h : LowHole v size p) : Hole v size p :=
  ⟨.inl ⟨h.above, h.below⟩, h.unmapped, h.unreserved⟩

theorem Hole.le_memPages (h : Hole v size p) : p + size ≤ memPages := by
  rcases h.bounds with hb | hb
  · simp only [memPages, mmapHoleStart] at *
    omega
  · simp only [memPages, userAddrMaxPage] at *
    omega

/-- There is no hole in the high bounds that lies in one top-level region without a table. -/
def NoHighHole (v : TableVm) (size : Nat) : Prop :=
  ∀ lo, 0x100000 ≤ lo → lo + size ≤ userAddrMaxPage → InMissing v.pgdir lo size →
    ¬ Unreserved v.reservations lo size

theorem ptFindHoleHigh_hole (hrs : PlainReservations v.reservations) (hsize : 0 < size) :
    Hole v size (ptFindHoleHigh v size) ∨ (ptFindHoleHigh v size = badPage ∧ NoHighHole v size) := by
  refine (ptFindHoleHigh_spec v hrs hsize).imp_left ?_
  rintro ⟨hge, hfit, hun, hres⟩
  exact ⟨.inr ⟨hge, hfit⟩, hun, hres⟩

theorem holeStart_le (v : TableVm) (size : Nat) : holeStart v size ≤ mmapHoleStart := by
  unfold holeStart
  split <;> omega

theorem ptFindHole_spec (hrs : PlainReservations v.reservations) (hsize : 0 < size) :
    Hole v size (ptFindHole v size).page ∨ ((ptFindHole v size).page = badPage ∧ NoHighHole v size ∧
        (startingBelow v.reservations mmapHoleStart < 10 → ∀ lo, ¬ LowHole v size lo)) := by
  have hle := holeStart_le v size
  obtain ⟨hend, hfirst⟩ := retryLow_spec hrs hsize 10 (holeStart v size) hle
  obtain ⟨-, hsecond⟩ := retryLow_spec hrs hsize 10 mmapHoleStart (Nat.le_refl _)
  -- some round of attempts started at the top
  have htop : (retryLow v size 10 (holeStart v size)).1 = none →
      ¬ (retryLow v size 10 (holeStart v size)).2 < mmapHoleStart →
      (retryLow v size 10 mmapHoleStart).1 = none := by
    intro hnone hge
    rwa [show mmapHoleStart = holeStart v size by omega]
  have hlow : startingBelow v.reservations mmapHoleStart < 10 →
      (retryLow v size 10 mmapHoleStart).1 = none → ∀ lo, ¬ LowHole v size lo :=
    fun hcount hnone lo hhole => retryLow_none hrs hsize 10 mmapHoleStart (Nat.le_refl _) hcount
      hnone lo hhole.below hhole
  unfold ptFindHole
  dsimp only
  cases h1 : (retryLow v size 10 (holeStart v size)).1 with
  | some p => exact .inl (hfirst p h1).hole
  | none =>
    rw [Option.none_or]
    cases h2 : (if (retryLow v size 10 (holeStart v size)).2 < mmapHoleStart then
        retryLow v size 10 mmapHoleStart
      else (none, (retryLow v size 10 (holeStart v size)).2)).1 with
    | some p =>
      split at h2
      · exact .inl (hsecond p h2).hole
      · cases h2
    | none =>
      have hnone : (retryLow v size 10 mmapHoleStart).1 = none := by
        split at h2
        · exact h2
        case isFalse hge => exact htop h1 hge
      dsimp only
      rcases ptFindHoleHigh_hole hrs hsize with hhole | ⟨hbad, hno⟩
      · have hin := hhole.le_memPages
        have hfree : v.rangeHasReservation (ptFindHoleHigh v size) size = false :=
          (memRangeHasReservation_eq_false hrs.good hsize hin).mpr hhole.unreserved
        rw [if_pos ⟨show ptFindHoleHigh v size ≠ memPages by omega, by rw [hfree]; rfl⟩]
        exact .inl hhole
      · rw [if_neg (fun hc => hc.1 hbad)]
        exact .inr ⟨rfl, hno, fun hcount => hlow hcount hnone⟩

/-! ## Mapping a free range -/

structure FreeRange (m : Mem) (p n : Nat) : Prop where
  fits : p + n ≤ memPages
  unmapped : ∀ q, p ≤ q → q < p + n → memPt m q = none
  unreserved : ∀ q, p ≤ q → q < p + n → reservedFlags m q = none

structure KeepsOutside (m m' : Mem) (p n : Nat) : Prop where
  entry : ∀ q, q < memPages → ¬ (p ≤ q ∧ q < p + n) → memPt m' q = memPt m q
  reserved : ∀ q, ¬ (p ≤ q ∧ q < p + n) → reservedFlags m' q = reservedFlags m q
  reservations : ∀ r ∈ m.reservations, r ∈ m'.reservations

theorem KeepsOutside.of_eq {m m' : Mem} (hpt : m'.pt = m.pt)
    (hres : m'.reservations = m.reservations) (p n : Nat) : KeepsOutside m m' p n := by
  refine ⟨fun q _ _ => by rw [memPt, hpt, memPt], fun q _ => ?_, fun r hr => by rw [hres]; exact hr⟩
  rw [reservedFlags_eq, reservedFlags_eq, hres]

theorem ptIsHole_free {m : Mem} {n : Nat} (hg : GoodReservations m.reservations) (hn : 0 < n)
    (hfits : p + n ≤ memPages) (hhole : ptIsHole m p n = true) : FreeRange m p n := by
  unfold ptIsHole at hhole
  rw [Bool.and_eq_true, List.all_eq_true, Bool.not_eq_true',
    memRangeHasReservation_eq_false hg hn hfits] at hhole
  refine ⟨hfits, fun q hlo hhi => ?_, fun q hlo hhi => ?_⟩
  · have hq : q ∈ pageRange p n := by
      rw [pageRange_eq (by simp only [memPages, wordMod] at *; omega)]
      exact List.mem_range'_1.mpr ⟨hlo, hhi⟩
    exact Option.isNone_iff_eq_none.mp (hhole.1 q hq)
  · rw [reservedFlags_eq]
    exact hhole.2 q hlo hhi

theorem mapPages_hole (d start offset : Nat) (flags : Flags) (ps : List Nat) :
    ∀ v : Vm, ps.Pairwise (fun p q => slot q ≠ slot p) → (∀ q ∈ ps, memPt v.mem q = none) →
      (mapPages d start offset flags ps v).mem.reservations = v.mem.reservations ∧
        ∀ q, (∀ p ∈ ps, slot q ≠ slot p) →
          memPt (mapPages d start offset flags ps v).mem q = memPt v.mem q := by
  induction ps with
  | nil => exact fun v _ _ => ⟨rfl, fun q _ => rfl⟩
  | cons p ps ih =>
    intro v hpair hnone
    obtain ⟨hhead, htail⟩ := List.pairwise_cons.mp hpair
    have hclear : clearPage v p = v := by
      unfold clearPage
      rw [hnone p List.mem_cons_self]
      rfl
    have hround : mapPages d start offset flags (p :: ps) v =
        mapPages d start offset flags ps ⟨v.host.retainData d,
          v.mem.setEntry p ⟨d, (p - start) * pageSize + offset, flags⟩⟩ := by
      show mapPages d start offset flags ps (mapPage d start offset flags v p) = _
      unfold mapPage
      rw [hclear]
    rw [hround]
    obtain ⟨hres, hframe⟩ := ih ⟨v.host.retainData d,
        v.mem.setEntry p ⟨d, (p - start) * pageSize + offset, flags⟩⟩ htail fun q hq => by
      rw [memPt_setEntry, if_neg (hhead q hq)]
      exact hnone q (List.mem_cons_of_mem p hq)
    refine ⟨hres, fun q hq => ?_⟩
    rw [hframe q fun r hr => hq r (List.mem_cons_of_mem p hr), memPt_setEntry,
      if_neg (hq p List.mem_cons_self)]

section Keeps

variable {v : Vm} {n : Nat}

theorem keeps_ptMapAccounted (hfree : FreeRange v.mem p n) (memory : Option (Nat → UInt8))
    (offset : Nat) (flags : Flags) (precharged : Bool) :
    KeepsOutside v.mem (ptMapAccounted v p n memory offset flags precharged).2.mem p n := by
  have hfits := hfree.fits
  have hrange : pageRange p n = List.range' p n :=
    pageRange_eq (by simp only [memPages, wordMod] at *; omega)
  unfold ptMapAccounted
  cases memory with
  | none => exact .of_eq rfl rfl p n
  | some contents =>
    dsimp only
    split
    case isFalse => exact .of_eq rfl rfl p n
    case isTrue =>
      rw [hrange]
      obtain ⟨hres, hframe⟩ := mapPages_hole v.host.attempt.2.nextData p offset flags
        (List.range' p n)
        ⟨v.host.attempt.2.newData ((n * pageSize + offset) % wordMod) contents, v.mem⟩
        (by
          refine (List.pairwise_lt_range' (s := p) (n := n)).imp_of_mem fun {a b} ha hb hlt => ?_
          rw [List.mem_range'_1] at ha hb
          exact slot_ne_of_ne (by omega) (by omega) (by omega))
        (fun q hq => by
          rw [List.mem_range'_1] at hq
          exact hfree.unmapped q hq.1 hq.2)
      refine ⟨fun q hq hout => hframe q fun r hr => ?_, fun q hout => ?_, fun r hr => ?_⟩
      · rw [List.mem_range'_1] at hr
        exact slot_ne_of_ne (by omega) hq (by omega)
      · show reservedFlags (mapPages _ p offset flags _ _).mem q = _
        rw [reservedFlags_eq, hres, reservedFlags_eq]
      show r ∈ (mapPages _ p offset flags _ _).mem.reservations
      rw [hres]
      exact hr

theorem keeps_ptMapNothing (hfree : FreeRange v.mem p n) (flags : Flags) :
    KeepsOutside v.mem (ptMapNothing v p n flags).2.mem p n := by
  unfold ptMapNothing mapRegion
  dsimp only
  split
  · exact .of_eq rfl rfl p n
  split
  · exact .of_eq rfl rfl p n
  case h_2 h _ =>
    rw [(refundIf_mem _ _ _).1]
    split
    · exact keeps_ptMapAccounted (v := ⟨h.attempt.2, v.mem⟩) hfree _ 0 _ true
    · exact .of_eq rfl rfl p n

theorem keeps_ptMapLazy (hn : 0 < n) (hfree : FreeRange v.mem p n) (flags : Flags) :
    KeepsOutside v.mem (ptMapLazy v p n flags).2.mem p n := by
  have hfits := hfree.fits
  have hstop : pageRangeEnd p n = p + n := by
    unfold pageRangeEnd
    rw [if_neg (by omega), if_neg (by omega)]
  unfold ptMapLazy
  dsimp only
  split
  · refine ⟨fun q _ _ => rfl, fun q hout => ?_, fun r hr => List.mem_cons_of_mem _ hr⟩
    rw [reservedFlags_eq, reservedFlags_eq]
    show flagsAt (_ :: v.mem.reservations) q = _
    rw [flagsAt_cons, if_neg]
    rw [Reservation.covers_iff, Reservation.stop, hstop]
    exact hout
  · exact .of_eq rfl rfl p n

theorem keeps_mmapFile (hfree : FreeRange v.mem p n) (prot : Flags) (file : FileArg) :
    KeepsOutside v.mem (mmapFile v p n prot file).2.mem p n := by
  cases file with
  | badFd => exact .of_eq rfl rfl p n
  | noMmap => exact .of_eq rfl rfl p n
  | file fd contents correction =>
    have hkeep := keeps_ptMapAccounted hfree contents correction prot false
    unfold mmapFile
    dsimp only
    split
    · exact hkeep
    split
    · rw [mappedAt_snd]
      exact hkeep
    · rw [mappedAt_snd]
      exact hkeep

theorem alignArena_le (m : Mem) (hinted : Bool) (p n : Nat) : alignArena m hinted p n ≤ p := by
  unfold alignArena
  dsimp only
  split
  · exact Nat.div_mul_le_self p _
  · exact Nat.le_refl p

theorem keeps_mmapAt (hg : GoodReservations v.mem.reservations) (hn : 0 < n) (a : MmapArgs)
    (hinted : Bool) (hfree : FreeRange v.mem p n) :
    ∃ p', FreeRange v.mem p' n ∧ KeepsOutside v.mem (mmapAt v a hinted p n).2.mem p' n := by
  have hfits := hfree.fits
  unfold mmapAt mmapAnonymous
  dsimp only
  split
  · split
    · have hle := alignArena_le v.mem hinted p n
      split
      case isTrue => exact ⟨p, hfree, .of_eq rfl rfl p n⟩
      case isFalse hchecked =>
        rw [Bool.or_eq_true, not_or, Bool.not_eq_true', Bool.not_eq_false] at hchecked
        have hfree' := ptIsHole_free hg hn (by omega) hchecked.1
        rw [mappedAt_snd]
        exact ⟨_, hfree', keeps_ptMapLazy hn hfree' _⟩
    · rw [mappedAt_snd]
      exact ⟨p, hfree, keeps_ptMapNothing hfree _⟩
  · exact ⟨p, hfree, keeps_mmapFile hfree _ a.file⟩

end Keeps

/-- The search that `do_mmap` uses: large `MAP_NORESERVE` arenas go to the high region. -/
def chooseHole (v : TableVm) (noreserve : Bool) (pages : Nat) : HoleChoice :=
  if noreserve && decide (pages ≥ 0x10000) then ⟨ptFindHoleHigh v pages, v.mmapHint⟩
  else ptFindHole v pages

theorem chooseHole_spec (hrs : PlainReservations v.reservations) (hsize : 0 < size)
    (noreserve : Bool) : Hole v size (chooseHole v noreserve size).page ∨
      (chooseHole v noreserve size).page = badPage := by
  unfold chooseHole
  split
  · exact (ptFindHoleHigh_hole hrs hsize).imp_right And.left
  · exact (ptFindHole_spec hrs hsize).imp_right And.left

theorem Hole.freeRange {m : Vm} (href : TableRefines v m) (h : Hole v size p) :
    FreeRange m.mem p size := by
  refine ⟨h.le_memPages, fun q hlo hhi => ?_, fun q hlo hhi => ?_⟩
  · rw [href.pt q]
    exact h.unmapped q hlo hhi
  · rw [reservedFlags_eq, href.reservations]
    exact h.unreserved q hlo hhi

theorem doMmap_keeps {m : Vm} (href : TableRefines v m) (hrs : PlainReservations v.reservations)
    (a : MmapArgs) (hfixed : a.flags.fixed = false)
    (hhole : a.hole = chooseHole v a.flags.noreserve (pageRoundUp a.len)) :
    ∃ p n, FreeRange m.mem p n ∧ KeepsOutside m.mem (doMmap m a).2.mem p n := by
  have hg : GoodReservations m.mem.reservations := by
    rw [href.reservations]
    exact hrs.good
  have hnothing : ∀ m' : Mem, m'.pt = m.mem.pt → m'.reservations = m.mem.reservations →
      ∃ p n, FreeRange m.mem p n ∧ KeepsOutside m.mem m' p n := fun m' hpt hres =>
    ⟨0, 0, ⟨by decide, fun q _ hq => by omega, fun q _ hq => by omega⟩, .of_eq hpt hres 0 0⟩
  unfold doMmap
  dsimp only
  split
  · exact hnothing _ rfl rfl
  split
  · exact hnothing _ rfl rfl
  split
  · exact hnothing _ rfl rfl
  rename_i hn _ _
  have hpos : 0 < pageRoundUp a.len := Nat.pos_of_ne_zero hn
  split
  case isTrue hused =>
    -- the caller's address: its range was found free
    have hcheck := hused
    unfold hintUsed badRange at hcheck
    simp only [hfixed, Bool.false_or, Bool.and_eq_true, Bool.not_eq_true', Bool.or_eq_false_iff,
      decide_eq_false_iff_not] at hcheck
    have hfits : page a.addr + pageRoundUp a.len ≤ memPages := by
      simp only [memPages, userAddrMaxPage] at *
      omega
    have hfree := ptIsHole_free hg hpos hfits hcheck.2.1
    obtain ⟨p', hfree', hkeep⟩ := keeps_mmapAt hg hpos a true hfree
    exact ⟨p', _, hfree', hkeep⟩
  case isFalse =>
    rw [hhole]
    split
    case isTrue => exact hnothing _ rfl rfl
    case isFalse hpage =>
      rcases chooseHole_spec hrs hpos a.flags.noreserve with hh | hbad
      · have hfree := hh.freeRange href
        obtain ⟨p', hfree', hkeep⟩ := keeps_mmapAt
          (v := ⟨m.host, { m.mem with
            mmapHint := (chooseHole v a.flags.noreserve (pageRoundUp a.len)).hint }⟩) hg hpos a false
          ⟨hfree.fits, hfree.unmapped, hfree.unreserved⟩
        exact ⟨p', _, ⟨hfree'.fits, hfree'.unmapped, hfree'.unreserved⟩,
          ⟨hkeep.entry, hkeep.reserved, hkeep.reservations⟩⟩
      · exact absurd (Nat.le_of_eq hbad.symm) hpage

theorem KeepsOutside.pageKept {m m' : Vm} {n : Nat} (hfree : FreeRange m.mem p n)
    (hkeep : KeepsOutside m.mem m'.mem p n) (hl : Live m) (hsound : Sound m m')
    (hq : Present m.mem q) : PageKept m m' q := by
  have hout : ¬ (p ≤ q ∧ q < p + n) := by
    rintro ⟨hlo, hhi⟩
    rcases hq.2 with hsome | hsome
    · rw [hfree.unmapped q hlo hhi] at hsome
      cases hsome
    · rw [hfree.unreserved q hlo hhi] at hsome
      cases hsome
  refine ⟨hkeep.entry q hq.1 hout, hkeep.reserved q hout, fun e he i _ => ?_⟩
  rw [hsound.ext.bytes_old e.data (hl (slot q) e he)]

/-- **No clobbering.** The searches return ranges inside their bounds: the downward scan one without a
mapped page, the other two one without a mapped or reserved page. A `do_mmap` without
`MAP_FIXED` leaves every page and every reservation as it was. -/
theorem findHole_keeps (t : TableVm) (m : Vm) (href : TableRefines t m) (hl : Live m)
    (hrs : PlainReservations t.reservations) (size : Nat) (hsize : 0 < size) :
    (∀ start, start < memPages →
      ScanResult t.pgdir size start (ptFindHoleFrom t.pgdir size start)) ∧
    ((0x100000 ≤ ptFindHoleHigh t size ∧ ptFindHoleHigh t size + size ≤ userAddrMaxPage ∧
        Unmapped t.pgdir (ptFindHoleHigh t size) size ∧
        Unreserved t.reservations (ptFindHoleHigh t size) size) ∨
      (ptFindHoleHigh t size = badPage ∧ NoHighHole t size)) ∧
    (Hole t size (ptFindHole t size).page ∨
      ((ptFindHole t size).page = badPage ∧ NoHighHole t size ∧
        (startingBelow t.reservations mmapHoleStart < 10 → ∀ lo, ¬ LowHole t size lo))) ∧
    ∀ a : MmapArgs, a.flags.fixed = false →
      a.hole = chooseHole t a.flags.noreserve (pageRoundUp a.len) → 0 ≤ (doMmap m a).1 →
      (∀ p, Present m.mem p → PageKept m (doMmap m a).2 p) ∧
        ∀ r ∈ m.mem.reservations, r ∈ (doMmap m a).2.mem.reservations := by
  refine ⟨fun start hstart => ptFindHoleFrom_spec hsize hstart, ptFindHoleHigh_spec t hrs hsize,
    ptFindHole_spec hrs hsize, fun a hfixed hhole _ => ?_⟩
  obtain ⟨p, n, hfree, hkeep⟩ := doMmap_keeps href hrs a hfixed hhole
  exact ⟨fun q hq => hkeep.pageKept hfree hl (sound_doMmap hl a) hq, hkeep.reservations⟩

def arenaTable (rs : List Reservation) : TableVm := ⟨reservedHost [], emptyNode, rs, 0, 0⟩
def arenaVm (rs : List Reservation) : Vm := ⟨reservedHost [], ⟨∅, rs, 0, 0⟩⟩

theorem arena_refines (rs : List Reservation) : TableRefines (arenaTable rs) (arenaVm rs) :=
  ⟨rfl, rfl, rfl, rfl, fun _ => rfl⟩

theorem arena_unmapped (rs : List Reservation) (p n : Nat) : Unmapped (arenaTable rs).pgdir p n :=
  fun _ _ _ => rfl

def oneArena : List Reservation := [⟨0xe0000, 0x10000, Flags.anonymous⟩]

/-- The high region is reserved, and so are ten stretches at the top of the low one. -/
def elevenArenas : List Reservation :=
  ⟨0x100000, userAddrMaxPage - 0x100000, Flags.anonymous⟩ ::
    (List.range 10).map fun i => ⟨0xeff00 - i * 0x100, 0x100, Flags.anonymous⟩

theorem oneArena_plain : PlainReservations oneArena := ⟨⟨by decide, by decide⟩, by decide⟩

theorem elevenArenas_plain : PlainReservations elevenArenas := ⟨⟨by decide, by decide⟩, by decide⟩

/-- `mmap` of one anonymous page, anywhere. -/
def anonPage (hole : HoleChoice) : MmapArgs :=
  ⟨0, 4096, Flags.read, ⟨false, true, false, true, false⟩, .badFd, hole⟩

/-- A page is mapped below the arena, which stays. -/
theorem findHole_keeps_arena :
    (doMmap (arenaVm oneArena) (anonPage (chooseHole (arenaTable oneArena) false 1))).1 =
      0xdffff000 ∧ ∀ r ∈ oneArena, r ∈ (doMmap (arenaVm oneArena)
      (anonPage (chooseHole (arenaTable oneArena) false 1))).2.mem.reservations := by
  have hl : Live (arenaVm oneArena) := fun s e he => by cases he
  have hkeep := (findHole_keeps (arenaTable oneArena) (arenaVm oneArena) (arena_refines oneArena) hl
    oneArena_plain 1 (by decide)).2.2.2 (anonPage (chooseHole (arenaTable oneArena) false 1)) rfl rfl
  exact ⟨by decide +kernel, (hkeep (by decide +kernel)).2⟩

/-- The downward scan returns a reserved page; the upward walk misses a hole that spans two top-level
regions of an empty address space; and ten reservations use up the retries of `pt_find_hole`. -/
theorem findHole_misses : (ptFindHoleFrom (arenaTable oneArena).pgdir 1 0xefffd = 0xefffd ∧
      (flagsAt oneArena 0xefffd).isSome) ∧ (ptFindHoleHigh (arenaTable []) 0x10000000 = badPage ∧
      Unmapped (arenaTable []).pgdir 0x100000 0x10000000 ∧ Unreserved [] 0x100000 0x10000000) ∧
    PlainReservations elevenArenas ∧ (ptFindHole (arenaTable elevenArenas) 1).page = badPage ∧
      LowHole (arenaTable elevenArenas) 1 0x200 := by
  refine ⟨⟨by decide, by decide⟩, ⟨by decide +kernel, arena_unmapped _ _ _, fun q _ _ => rfl⟩,
    elevenArenas_plain, by decide +kernel, by decide, by decide, arena_unmapped _ _ _, ?_⟩
  intro q hlo hhi
  rw [show q = 0x200 by omega]
  decide

end IosLinuxkit.Kernel
