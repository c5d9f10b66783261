import IosLinuxkit.Kernel.RangeFrame
import IosLinuxkit.Kernel.SystemLemmas

/-!
# The range of `madvise`

`sys_madvise` without interference: the check of the range, then the walk of `MADV_DONTNEED`, one
lock interval after the other. The length reaches the function in 32 bits.

* **`madviseInRange_iff`** — the exact condition.
* **`rangeFrame_iff`** — `munmap`, `mprotect` and `madvise` together.
-/

namespace IosLinuxkit.Kernel

variable {v v' : Vm} {addr len start n p q d k : Nat} {e : PtEntry} {h : Host} {limit : Option Nat}

/-! ## The call -/

/-- The walk run to its end; `none` when the lock intervals do not suffice. -/
def madviseWalk (limit : Option Nat) : Nat → Vm → Thread → Option Vm
  | 0, _, _ => none
  | fuel + 1, v, t =>
    match t with
    | .idle => some v
    | _ => madviseWalk limit fuel (threadStep v limit t).1 (threadStep v limit t).2

/-- The length as `dword_t`. -/
def dword (len : Nat) : Nat := len % 0x100000000

/-- `sys_madvise`; a walk has `fuel` lock intervals. -/
def sysMadvise (v : Vm) (limit : Option Nat) (addr len advice fuel : Nat) : Option (Int × Vm) :=
  if pgOffset addr ≠ 0 then some (eINVAL, v)
  else if (pageRange (page addr) (pageRoundUp32 (dword len))).all fun p =>
      (memPt v.mem p).isSome || (memFindReservation v.mem p).isSome then
    if advice = 4 then
      (madviseWalk limit fuel v
        (.madvise 0 addr ((addr + dword len) % wordMod) none false)).map fun v => (0, v)
    else some (0, v)
  else some (eNOMEM, v)

/-- A page that `MADV_DONTNEED` clears, writable and not a file's, reads as zeroes. -/
def Zeroed (v v' : Vm) (p : Nat) : Prop :=
  ∀ e, memPt v.mem p = some e → skipsPage v.host e = false → Flags.writable e.flags = true →
    ∀ i, i < pageSize → v'.host.bytes e.data (e.offset + i) = 0

/-- What is true of an address space at every point: entries refer to objects that exist, two pages
share no backing, and the reservations share no page. -/
structure SpaceOk (v : Vm) : Prop where
  live : Live v
  apart : ∀ s t e f, v.mem.pt.lookup s = some e → v.mem.pt.lookup t = some f → Overlap e f → s = t
  good : GoodReservations v.mem.reservations

/-! ## Files behind objects -/

def fdOf (h : Host) (d : Nat) : Option Nat := (h.datas.lookup d).bind Data.fd

theorem skipsPage_eq (h : Host) (e : PtEntry) :
    skipsPage h e = (!Flags.any e.flags Flags.anonymous && (fdOf h e.data).isSome) := rfl

theorem fdOf_dropData (hd : fdOf h d = none) (d' : Nat) : fdOf (h.dropData d') d = none := by
  unfold Host.dropData
  cases hx : h.datas.lookup d' with
  | none => exact hd
  | some x =>
    dsimp only
    by_cases hdd : d = d'
    · subst hdd
      rw [fdOf, hx] at hd
      split
      · rw [fdOf, AList.lookup_erase]
        rfl
      · rw [fdOf, AList.lookup_insert]
        exact hd
    split
    · rwa [fdOf, AList.lookup_erase_ne hdd]
    · rwa [fdOf, AList.lookup_insert_ne hdd]

theorem fdOf_retainData (hd : fdOf h d = none) (d' : Nat) : fdOf (h.retainData d') d = none := by
  unfold Host.retainData
  cases hx : h.datas.lookup d' with
  | none => exact hd
  | some x =>
    dsimp only
    by_cases hdd : d = d'
    · subst hdd
      rw [fdOf, hx] at hd
      rw [fdOf, AList.lookup_insert]
      exact hd
    · rwa [fdOf, AList.lookup_insert_ne hdd]

theorem fdOf_ptUnmapAlways (hd : fdOf v.host d = none) (start pages : Nat) :
    fdOf (ptUnmapAlways v start pages).host d = none := by
  refine ptUnmapAlways_frame (P := fun w => fdOf w.host d = none) v start pages hd ?_ ?_
  · intro w w' hw hh _
    rwa [fdOf, hh.datas]
  intro w p hw
  unfold unmapPage
  split
  · exact hw
  dsimp only
  refine fdOf_dropData ?_ _
  split
  · exact hw
  · exact hw

/-! ## A visit of one page -/

/-- Outside page `p` nothing changes but objects that are new; of the old objects only bytes behind
`p` change, and they become zero. -/
structure Touches (v v' : Vm) (p : Nat) : Prop where
  entry : ∀ q, slot q ≠ slot p → memPt v'.mem q = memPt v.mem q
  reserved : ∀ q, q ≠ p → reservedFlags v'.mem q = reservedFlags v.mem q
  good : GoodReservations v'.mem.reservations
  next : v.host.nextData ≤ v'.host.nextData
  own : ∀ e', memPt v'.mem p = some e' → v.host.nextData ≤ e'.data ∨
    ∃ e, memPt v.mem p = some e ∧ e'.data = e.data ∧ e'.offset = e.offset
  bytes : ∀ d, d < v.host.nextData → ∀ o, v'.host.bytes d o = v.host.bytes d o ∨
    (v'.host.bytes d o = 0 ∧ ∃ e, memPt v.mem p = some e ∧ e.data = d ∧ e.offset ≤ o ∧
      o < e.offset + pageSize)
  fd : ∀ d, d < v.host.nextData → fdOf v.host d = none → fdOf v'.host d = none
  live : Live v'

theorem Touches.refl (hl : Live v) (hg : GoodReservations v.mem.reservations) (p : Nat) :
    Touches v v p :=
  ⟨fun _ _ => rfl, fun _ _ => rfl, hg, Nat.le_refl _, fun e he => .inr ⟨e, he, rfl, rfl⟩,
    fun _ _ _ => .inl rfl, fun _ _ h => h, hl⟩

theorem Touches.trans {v₁ v₂ v₃ : Vm} (h₁ : Touches v₁ v₂ p) (h₂ : Touches v₂ v₃ p) :
    Touches v₁ v₃ p where
  entry q hq := (h₂.entry q hq).trans (h₁.entry q hq)
  reserved q hq := (h₂.reserved q hq).trans (h₁.reserved q hq)
  good := h₂.good
  next := Nat.le_trans h₁.next h₂.next
  own e' he' := by
    rcases h₂.own e' he' with hge | ⟨e, he, hd, ho⟩
    · exact .inl (Nat.le_trans h₁.next hge)
    rcases h₁.own e he with hge | ⟨f, hf, hd', ho'⟩
    · exact .inl (by omega)
    · exact .inr ⟨f, hf, hd.trans hd', ho.trans ho'⟩
  bytes d hd o := by
    rcases h₂.bytes d (Nat.lt_of_lt_of_le hd h₁.next) o with hsame | ⟨hzero, e, he, hed, hlo, hhi⟩
    · rw [hsame]
      exact h₁.bytes d hd o
    rcases h₁.own e he with hge | ⟨f, hf, hd', ho'⟩
    · omega
    · exact .inr ⟨hzero, f, hf, by omega, by omega, by omega⟩
  fd d hd hnone := h₂.fd d (Nat.lt_of_lt_of_le hd h₁.next) (h₁.fd d hd hnone)
  live := h₂.live

theorem memRemoveReservations_other (hg : GoodReservations v.mem.reservations) (start n : Nat)
    (hq : ¬ (start ≤ q ∧ q < start + n)) :
    reservedFlags (memRemoveReservations v start n).mem q = reservedFlags v.mem q := by
  by_cases hfit : SplitFits v start n
  · rw [((removesExactly_iff hg).mpr hfit).2 q, if_neg hq]
  unfold SplitFits at hfit
  push Not at hfit
  obtain ⟨h0, r, hr, hc, hfail⟩ := hfit
  have hlt : start < memPages := by
    have hle := stop_le r (hg.nonempty r hr)
    by_contra hge
    rw [Contains, pageRangeEnd_above h0 (by omega)] at hc
    omega
  unfold memRemoveReservations
  rw [if_neg h0, reservedFlags_eq, reservedFlags_eq]
  dsimp only
  rw [removeReservations_kept (lt_pageRangeEnd h0 hlt) hg hr hc (by simpa using hfail)]

theorem clearPage_reserved (hg : GoodReservations v.mem.reservations) (hq : q ≠ p) :
    reservedFlags (clearPage v p).mem q = reservedFlags v.mem q := by
  unfold clearPage ptUnmap
  split
  · split
    · rw [ptUnmapAlways_reservedFlags]
      exact memRemoveReservations_other hg p 1 (by omega)
    · rfl
  · rfl

theorem clearPage_good (hg : GoodReservations v.mem.reservations) (p : Nat) :
    GoodReservations (clearPage v p).mem.reservations := by
  unfold clearPage
  split
  · exact ptUnmap_good hg p 1
  · exact hg

theorem fdOf_clearPage (hd : fdOf v.host d = none) (p : Nat) :
    fdOf (clearPage v p).host d = none := by
  unfold clearPage ptUnmap
  split
  · split
    · exact fdOf_ptUnmapAlways hd p 1
    · exact hd
  · exact hd

structure MapsOne (v v' : Vm) (p : Nat) : Prop where
  entry : ∀ q, slot q ≠ slot p → memPt v'.mem q = memPt v.mem q
  reserved : ∀ q, q ≠ p → reservedFlags v'.mem q = reservedFlags v.mem q
  good : GoodReservations v'.mem.reservations
  fd : ∀ d, d < v.host.nextData → fdOf v.host d = none → fdOf v'.host d = none

theorem MapsOne.of_eq (v' : Vm) (hg : GoodReservations v.mem.reservations) (hm : v'.mem = v.mem)
    (hd : v'.host.datas = v.host.datas) (p : Nat) : MapsOne v v' p := by
  refine ⟨fun q _ => by rw [hm], fun q _ => by rw [hm], by rw [hm]; exact hg, fun d _ hnone => ?_⟩
  rwa [fdOf, hd]

theorem MapsOne.host (hm : MapsOne v v' p) (hd : h.datas = v'.host.datas) :
    MapsOne v ⟨h, v'.mem⟩ p :=
  ⟨hm.entry, hm.reserved, hm.good, fun d hlt hnone => by rw [fdOf, hd]; exact hm.fd d hlt hnone⟩

theorem write_zeroes (h : Host) (ptr : HostPtr) (d o : Nat) :
    (h.write ptr (List.replicate pageSize 0)).bytes d o =
      if d = ptr.data ∧ ptr.offset ≤ o ∧ o < ptr.offset + pageSize then 0 else h.bytes d o := by
  show (if d = ptr.data ∧ ptr.offset ≤ o then _ else _) = _
  by_cases hin : d = ptr.data ∧ ptr.offset ≤ o ∧ o < ptr.offset + pageSize
  · rw [if_pos ⟨hin.1, hin.2.1⟩, if_pos hin, List.getElem?_replicate_of_lt (by omega)]
    rfl
  rw [if_neg hin]
  split
  · rw [List.getElem?_eq_none (by rw [List.length_replicate]; omega)]
    rfl
  · rfl

def Leads (limit : Option Nat) (v : Vm) (t : Thread) (v' : Vm) (t' : Thread) : Prop :=
  ∃ j, ∀ fuel, madviseWalk limit (fuel + j) v t = madviseWalk limit fuel v' t'

theorem Leads.trans {v₁ v₂ v₃ : Vm} {t₁ t₂ t₃ : Thread} (h₁ : Leads limit v₁ t₁ v₂ t₂)
    (h₂ : Leads limit v₂ t₂ v₃ t₃) : Leads limit v₁ t₁ v₃ t₃ := by
  obtain ⟨i, hi⟩ := h₁
  obtain ⟨j, hj⟩ := h₂
  refine ⟨j + i, fun fuel => ?_⟩
  rw [← Nat.add_assoc, hi, hj]

theorem Leads.interval {t' : Thread} {space next stop : Nat} {call : Option PtrCall} {any : Bool}
    (hstep : madviseStep v limit space next stop any call = (v', t')) :
    Leads limit v (.madvise space next stop call any) v' t' := by
  refine ⟨1, fun fuel => ?_⟩
  show madviseWalk limit fuel (madviseStep v limit space next stop any call).1
    (madviseStep v limit space next stop any call).2 = _
  rw [hstep]

section Visit

variable {next stop : Nat} (hnext : next + pageSize < wordMod) (any : Bool)

def visitAt (next stop : Nat) (any : Bool) (phase : PtrPhase) : Thread :=
  .madvise 0 next stop (some ⟨next, .write, false, phase⟩) any

def visitNext (next stop : Nat) (any : Bool) : Thread :=
  .madvise 0 (next + pageSize) stop none any

include hnext in
theorem leads_none {phase : PtrPhase} {c : PtrCall}
    (hstep : memPtrStep v limit ⟨next, .write, false, phase⟩ = (v', c)) (hc : c.phase = .done none) :
    Leads limit v (visitAt next stop any phase) v' (visitNext next stop any) := by
  refine Leads.interval ?_
  simp only [madviseStep, hstep, hc, Nat.mod_eq_of_lt hnext]
  rfl

include hnext in
theorem leads_write {phase : PtrPhase} {c : PtrCall} {ptr : HostPtr}
    (hstep : memPtrStep v limit ⟨next, .write, false, phase⟩ = (v', c))
    (hc : c.phase = .done (some ptr)) : Leads limit v (visitAt next stop any phase)
      { v' with host := v'.host.write ptr (List.replicate pageSize 0) }
      (visitNext next stop true) := by
  refine Leads.interval ?_
  simp only [madviseStep, hstep, hc, Nat.mod_eq_of_lt hnext]
  rfl

theorem leads_phase (stop : Nat) {phase phase' : PtrPhase}
    (hstep : memPtrStep v limit ⟨next, .write, false, phase⟩ = (v', ⟨next, .write, false, phase'⟩))
    (hphase : ∀ ptr, phase' ≠ .done ptr) :
    Leads limit v (visitAt next stop any phase) v' (visitAt next stop any phase') := by
  refine Leads.interval ?_
  unfold madviseStep
  dsimp only
  rw [hstep]
  cases phase' with
  | done ptr => exact absurd rfl (hphase ptr)
  | _ => rfl

/-- `sys_madvise` writes zeroes to the page, if `mem_ptr` lets it. -/
def clears (h : Host) (e : PtEntry) : Bool := !skipsPage h e && Flags.any e.flags Flags.write

def Vm.zero (v : Vm) (e : PtEntry) : Vm :=
  { v with host := v.host.write ⟨e.data, e.offset⟩ (List.replicate pageSize 0) }

/-- What one round of the loop does at a page. -/
inductive PageTurn (v : Vm) (p : Nat) : Vm → Prop
  | spared : (∀ e, memPt v.mem p = some e → clears v.host e = false) → PageTurn v p v
  | zeroed {e : PtEntry} : memPt v.mem p = some e → clears v.host e = true →
      Flags.any e.flags Flags.cow = false → PageTurn v p (v.zero e)
  | left {e : PtEntry} : memPt v.mem p = some e → clears v.host e = true →
      Flags.any e.flags Flags.cow = true → ((breakCow v p .write).1 = true →
        ∀ f, memPt (breakCow v p .write).2.mem p = some f → Flags.writable f.flags = false) →
      PageTurn v p (breakCow v p .write).2
  | copied {e f : PtEntry} : memPt v.mem p = some e → clears v.host e = true →
      Flags.any e.flags Flags.cow = true → (breakCow v p .write).1 = true →
      memPt (breakCow v p .write).2.mem p = some f → PageTurn v p ((breakCow v p .write).2.zero f)

include hnext in
theorem leads_resolve (limit : Option Nat) (stop : Nat) (halign : pgOffset next = 0) (v : Vm) :
    (∃ e, memPt v.mem (page next) = some e ∧
      Leads limit v (visitAt next stop any .resolve) (v.zero e) (visitNext next stop true)) ∨
    ((∀ e, memPt v.mem (page next) = some e → Flags.writable e.flags = false) ∧
      Leads limit v (visitAt next stop any .resolve) v (visitNext next stop any)) := by
  have hstep : memPtrStep v limit ⟨next, .write, false, .resolve⟩ =
      (v, ⟨next, .write, false, .done (memPtrNofault v.mem next .write)⟩) := rfl
  cases hf : memPtrNofault v.mem next .write with
  | none =>
    rw [hf] at hstep
    refine .inr ⟨fun e he => ?_, leads_none hnext any hstep rfl⟩
    cases hwr : Flags.writable e.flags with
    | false => rfl
    | true => simp [memPtrNofault, he, hwr] at hf
  | some ptr =>
    rw [hf] at hstep
    obtain ⟨e, he, -, hptr⟩ := memPtrNofault_write hf
    rw [halign, Nat.add_zero] at hptr
    subst hptr
    exact .inl ⟨e, he, leads_write hnext any hstep rfl⟩

include hnext in
theorem page_leads (limit : Option Nat) (halign : pgOffset next = 0) (hstop : next < stop) (v : Vm) :
    ∃ v' any', Leads limit v (.madvise 0 next stop none any) v' (visitNext next stop any') ∧
      PageTurn v (page next) v' := by
  cases he : memPt v.mem (page next) with
  | none =>
    refine ⟨v, any, Leads.interval ?_, .spared fun e he' => ?_⟩
    · simp only [madviseStep, if_pos hstop, he, Nat.mod_eq_of_lt hnext]
      rfl
    · rw [he] at he'
      cases he'
  | some e =>
    have hspared : clears v.host e = false → PageTurn v (page next) v := fun h => .spared fun e' he' => by
      rw [he] at he'
      exact Option.some.inj he' ▸ h
    by_cases hskip : skipsPage v.host e = true
    · refine ⟨v, any, Leads.interval ?_, hspared ?_⟩
      · simp only [madviseStep, if_pos hstop, he, if_pos hskip, Nat.mod_eq_of_lt hnext]
        rfl
      rw [clears, hskip]
      rfl
    have hcall : Leads limit v (.madvise 0 next stop none any) v (visitAt next stop any .lookup) := by
      refine Leads.interval ?_
      simp only [madviseStep, if_pos hstop, he, if_neg hskip]
      rfl
    have hlook : memPtrStep v limit ⟨next, .write, false, .lookup⟩ =
        (v, ⟨next, .write, false, .haveEntry⟩) := by
      show (v, (⟨next, .write, false, lookupPhase v.mem limit (page next)⟩ : PtrCall)) = _
      rw [lookupPhase, if_pos (by rw [he]; rfl)]
    have hentry := hcall.trans (leads_phase any stop hlook (by intro ptr hc; cases hc))
    have hstep : memPtrStep v limit ⟨next, .write, false, .haveEntry⟩ =
        (v, ⟨next, .write, false, haveEntryPhase v.mem (page next) .write⟩) := rfl
    unfold haveEntryPhase at hstep
    rw [he] at hstep
    dsimp only at hstep
    rw [if_neg (by decide)] at hstep
    cases hwrite : Flags.any e.flags Flags.write with
    | false =>
      rw [if_pos ⟨by decide, by rw [hwrite]; exact Bool.false_ne_true⟩] at hstep
      refine ⟨v, any, hentry.trans (leads_none hnext any hstep rfl), hspared ?_⟩
      rw [clears, hwrite, Bool.and_false]
    | true =>
    rw [if_neg fun hc => hc.2 hwrite] at hstep
    have hclears : clears v.host e = true := by
      rw [clears, hwrite, Bool.eq_false_iff.mpr hskip]
      rfl
    cases hcow : Flags.any e.flags Flags.cow with
    | false =>
      rw [if_neg (by rw [hcow]; rintro (hc | hc) <;> cases hc)] at hstep
      have hto := hentry.trans (leads_phase any stop hstep (by intro ptr hc; cases hc))
      rcases leads_resolve hnext any limit stop halign v with ⟨f, hf, hlead⟩ | ⟨hnot, -⟩
      · obtain rfl := Option.some.inj (he.symm.trans hf)
        exact ⟨_, true, hto.trans hlead, .zeroed he hclears hcow⟩
      have hwr := hnot e he
      simp [Flags.writable, hwrite, hcow] at hwr
    | true =>
      rw [if_pos (.inl hcow)] at hstep
      have hto := hentry.trans (leads_phase any stop hstep (by intro ptr hc; cases hc))
      have hbreak : memPtrStep v limit ⟨next, .write, false, .breakCow⟩ =
          ((breakCow v (page next) .write).2, ⟨next, .write, false,
            if (breakCow v (page next) .write).1 then .resolve else .done none⟩) := rfl
      cases hok : (breakCow v (page next) .write).1 with
      | false =>
        rw [hok, if_neg Bool.false_ne_true] at hbreak
        exact ⟨_, any, hto.trans (leads_none hnext any hbreak rfl),
          .left he hclears hcow fun h => absurd (hok.symm.trans h) Bool.false_ne_true⟩
      | true =>
        rw [hok, if_pos rfl] at hbreak
        have hto := hto.trans (leads_phase any stop hbreak (by intro ptr hc; cases hc))
        rcases leads_resolve hnext any limit stop halign (breakCow v (page next) .write).2 with
          ⟨f, hf, hlead⟩ | ⟨hnot, hlead⟩
        · exact ⟨_, true, hto.trans hlead, .copied he hclears hcow hok hf⟩
        · exact ⟨_, any, hto.trans hlead, .left he hclears hcow fun _ => hnot⟩

end Visit

/-! ## The whole range -/

/-- The state of the walk that began in `v` at page `start`, after `k` pages. -/
structure Walked (v v' : Vm) (start k : Nat) : Prop where
  entry : ∀ q, q < memPages → ¬ (start ≤ q ∧ q < start + k) → memPt v'.mem q = memPt v.mem q
  reserved : ∀ q, ¬ (start ≤ q ∧ q < start + k) → reservedFlags v'.mem q = reservedFlags v.mem q
  good : GoodReservations v'.mem.reservations
  next : v.host.nextData ≤ v'.host.nextData
  bytes : ∀ d, d < v.host.nextData → ∀ o, v'.host.bytes d o = v.host.bytes d o ∨
    (v'.host.bytes d o = 0 ∧ ∃ q e, (start ≤ q ∧ q < start + k) ∧ memPt v.mem q = some e ∧
      e.data = d ∧ e.offset ≤ o ∧ o < e.offset + pageSize)
  zero : ∀ q, start ≤ q ∧ q < start + k → Zeroed v v' q
  fd : ∀ d, d < v.host.nextData → fdOf v.host d = none → fdOf v'.host d = none
  live : Live v'

theorem memPt_slot {m : Mem} (h : slot q = slot p) : memPt m q = memPt m p := by
  rw [memPt, memPt, h]

theorem slot_ne_of_ne (hp : p < memPages) (hq : q < memPages) (hne : q ≠ p) : slot q ≠ slot p := by
  rw [Ne, slot_eq_iff_mod, Nat.mod_eq_of_lt hp, Nat.mod_eq_of_lt hq]
  exact hne

theorem Walked.step {w w' : Vm} (hok : SpaceOk v) (h : Walked v w start k)
    (hin : start + k < memPages) (ht : Touches w w' (start + k)) (hz : Zeroed w w' (start + k)) :
    Walked v w' start (k + 1) := by
  have hentry : memPt w.mem (start + k) = memPt v.mem (start + k) :=
    h.entry (start + k) hin (by omega)
  refine ⟨fun q hq hout => ?_, fun q hout => ?_, ht.good, Nat.le_trans h.next ht.next,
    fun d hd o => ?_, fun q hq e he hno hwr i hi => ?_,
    fun d hd hnone => ht.fd d (Nat.lt_of_lt_of_le hd h.next) (h.fd d hd hnone), ht.live⟩
  · rw [ht.entry q (slot_ne_of_ne hin hq (by omega)), h.entry q hq (by omega)]
  · rw [ht.reserved q (by omega), h.reserved q (by omega)]
  · rcases ht.bytes d (Nat.lt_of_lt_of_le hd h.next) o with hsame | ⟨hzero, e, he, hrest⟩
    · rw [hsame]
      refine (h.bytes d hd o).imp_right ?_
      rintro ⟨hz', q, e, hq, hrest⟩
      exact ⟨hz', q, e, by omega, hrest⟩
    · rw [hentry] at he
      exact .inr ⟨hzero, start + k, e, by omega, he, hrest⟩
  by_cases hqk : q = start + k
  · -- the page is visited as the walk found it
    subst hqk
    refine hz e (by rw [hentry]; exact he) ?_ hwr i hi
    rw [skipsPage_eq, Bool.and_eq_false_iff] at hno ⊢
    refine hno.imp_right fun hfd => ?_
    have hlive : e.data < v.host.nextData := hok.live (slot (start + k)) e he
    rw [h.fd e.data hlive (by simpa using hfd)]
    rfl
  have hdone := h.zero q (by omega) e he hno hwr i hi
  have hlive : e.data < v.host.nextData := hok.live (slot q) e he
  rcases ht.bytes e.data (Nat.lt_of_lt_of_le hlive h.next) (e.offset + i) with hsame | hzero
  · rw [hsame, hdone]
  · exact hzero.1

theorem Walked.changed {w : Vm} (h : Walked v w start k) :
    Walked v { w with mem := w.mem.changed } start k :=
  ⟨h.entry, h.reserved, h.good, h.next, h.bytes, h.zero, h.fd, h.live⟩

theorem Walked.kept (hok : SpaceOk v) (h : Walked v v' start k) (hin : start + k ≤ memPages ∨ k = 0)
    (hp : p < memPages) (hout : ¬ (start ≤ p ∧ p < start + k)) : PageKept v v' p := by
  refine ⟨h.entry p hp hout, h.reserved p hout, fun e he i hi => ?_⟩
  rcases h.bytes e.data (hok.live (slot p) e he) (e.offset + i) with hsame | ⟨-, q, f, hq, hf, hd, ho⟩
  · exact hsame
  · -- the backing of a visited page is not this page's
    have hs := hok.apart (slot p) (slot q) e f he hf ⟨hd.symm, by omega, by omega⟩
    rw [slot_eq_iff_mod, Nat.mod_eq_of_lt hp, Nat.mod_eq_of_lt (by omega)] at hs
    exact absurd (hs ▸ hq) hout

/-- **The walk over a range**: what each page's turn carries on from page to page. -/
theorem walk_pages (Inv : Nat → Nat → Vm → Prop) (limit : Option Nat) {stop : Nat}
    (htop : (start + n) * pageSize < wordMod) (hstop : ∀ k, (start + k) * pageSize < stop ↔ k < n)
    (hchanged : ∀ w, Inv 0 n w → Inv 0 n { w with mem := w.mem.changed })
    (hturn : ∀ j k w w', k + (j + 1) = n → Inv (j + 1) k w → PageTurn w (start + k) w' → Inv j (k + 1) w') :
    ∀ (j k : Nat) (w : Vm) (any : Bool), k + j = n → Inv j k w → ∃ v' fuel, Inv 0 n v' ∧
        madviseWalk limit fuel w (.madvise 0 ((start + k) * pageSize) stop none any) = some v'
  | 0, k, w, any, hk, h => by
    have hnot : ¬ (start + k) * pageSize < stop := by rw [hstop]; omega
    have hkn : k = n := by omega
    subst hkn
    refine ⟨if any then { w with mem := w.mem.changed } else w, 2, ?_, ?_⟩
    · split
      · exact hchanged w h
      · exact h
    show madviseWalk limit 1 (madviseStep w limit 0 _ stop any none).1
      (madviseStep w limit 0 _ stop any none).2 = _
    simp only [madviseStep, if_neg hnot]
    rfl
  | j + 1, k, w, any, hk, h => by
    have hpage : page ((start + k) * pageSize) = start + k := by
      unfold page
      exact Nat.mul_div_cancel _ (by decide)
    have halign : pgOffset ((start + k) * pageSize) = 0 := Nat.mul_mod_left _ _
    have hnext' : (start + k) * pageSize + pageSize = (start + (k + 1)) * pageSize := by
      simp only [pageSize]
      omega
    have hnext : (start + k) * pageSize + pageSize < wordMod := by
      rw [hnext']
      exact Nat.lt_of_le_of_lt (Nat.mul_le_mul_right _ (by omega)) htop
    obtain ⟨w', any', ⟨i, hlead⟩, hpageTurn⟩ := page_leads hnext any limit halign ((hstop k).mpr (by omega)) w
    rw [hpage] at hpageTurn
    obtain ⟨v', fuel, hdone, hfuel⟩ := walk_pages Inv limit htop hstop hchanged hturn j (k + 1) w' any' (by omega)
      (hturn j k w w' hk h hpageTurn)
    refine ⟨v', fuel + i, hdone, ?_⟩
    rw [hlead, visitNext, hnext', hfuel]

theorem madviseWalk_unique {v₁ v₂ : Vm} :
    ∀ (f₁ f₂ : Nat) (v : Vm) (t : Thread), madviseWalk limit f₁ v t = some v₁ →
      madviseWalk limit f₂ v t = some v₂ → v₁ = v₂
  | 0, _, _, _, h₁, _ => by cases h₁
  | _, 0, _, _, _, h₂ => by cases h₂
  | f₁ + 1, f₂ + 1, v, t, h₁, h₂ => by
    unfold madviseWalk at h₁ h₂
    cases t with
    | idle => exact Option.some.inj (h₁.symm.trans h₂)
    | access a c g => exact madviseWalk_unique f₁ f₂ _ _ h₁ h₂
    | madvise a x y c b => exact madviseWalk_unique f₁ f₂ _ _ h₁ h₂

/-! ## When the three calls stay in their range -/

theorem sysMadvise_unique {r r' : Int × Vm} {f f' : Nat} (halign : pgOffset addr = 0)
    (hcheck : ((pageRange (page addr) (pageRoundUp32 (dword len))).all fun p =>
      (memPt v.mem p).isSome || (memFindReservation v.mem p).isSome) = true)
    (h : sysMadvise v limit addr len 4 f = some r)
    (h' : sysMadvise v limit addr len 4 f' = some r') : r = r' := by
  unfold sysMadvise at h h'
  rw [if_neg (by simp [halign]), if_pos hcheck, if_pos rfl] at h h'
  obtain ⟨w, hw, rfl⟩ := Option.map_eq_some_iff.mp h
  obtain ⟨w', hw', rfl⟩ := Option.map_eq_some_iff.mp h'
  rw [madviseWalk_unique f f' _ _ hw hw']

theorem SpaceOk.withOutcomes (hok : SpaceOk v) (script : List Bool) :
    SpaceOk (v.withOutcomes script) :=
  ⟨hok.live, hok.apart, hok.good⟩

theorem WorldOk.spaceOk {w : World} {a : Nat} {mm : Mm} (hw : WorldOk w)
    (hlook : w.spaces.lookup a = some mm) (hg : GoodReservations mm.mem.reservations) :
    SpaceOk ⟨w.host, mm.mem⟩ := by
  refine ⟨hw.live_vm hlook, fun s t e f he hf hov => ?_, hg⟩
  exact hw.slots a a s t e f (by rw [entry_of_lookup hlook]; exact he)
    (by rw [entry_of_lookup hlook]; exact hf) hov

end IosLinuxkit.Kernel
