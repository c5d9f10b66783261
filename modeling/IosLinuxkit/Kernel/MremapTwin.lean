import IosLinuxkit.Kernel.Mremap

/-!
# `mremap` of two address spaces that the guest cannot tell apart

`sys_mremap` compares the flags of the entries of its range, `P_COW` among them, and wants an entry for every
page; a page that is lazily reserved has none.

* **`mremap_iff`** — two spaces give the same result, and each what was asked for, if and only if
  `MremapFits`.
-/

namespace IosLinuxkit.Kernel

/-! ## The call -/

/-- An address space: the table, the pages it holds, and the reservations. -/
structure AddressSpace where
  table : TableVm
  vm : Vm
  refines : TableRefines table vm
  live : Live vm
  plain : PlainReservations table.reservations

/-- The arguments of `mremap`; `badFlags` is whether there are flags other than `MREMAP_MAYMOVE`. -/
structure MremapArgs where
  addr : UInt64
  oldLen : UInt32
  newLen : UInt32
  mayMove : Bool
  badFlags : Bool

namespace MremapArgs

def start (c : MremapArgs) : Nat := page c.addr.toNat
def old (c : MremapArgs) : Nat := pageRoundUp32 c.oldLen.toNat
def new (c : MremapArgs) : Nat := pageRoundUp32 c.newLen.toNat

/-- `sys_mremap` refuses the arguments. -/
def Refused (c : MremapArgs) : Prop :=
  pgOffset c.addr.toNat ≠ 0 ∨ (c.oldLen.toNat = 0 ∨ c.newLen.toNat = 0) ∨ c.badFlags = true

end MremapArgs

/-- `sys_mremap`, with what `pt_find_hole` finds and the outcomes of the host calls. -/
def AddressSpace.mremap (s : AddressSpace) (c : MremapArgs) (script : List Bool) : Int × Vm :=
  sysMremap (s.vm.withOutcomes script) c.addr.toNat c.oldLen.toNat c.newLen.toNat c.mayMove c.badFlags
    (ptFindHole s.table c.new)

variable {s s₁ s₂ : AddressSpace} {c : MremapArgs} {script : List Bool} {e : PtEntry} {dest p : Nat}
  {refusals : Bool} {flags : Flags}

/-- The flags of a page but for `P_COW`; a page that is reserved is anonymous as soon as it has memory. -/
def pageFlags (m : Mem) (p : Nat) : Option Flags :=
  match memPt m p with
  | some e => some (e.flags &&& ~~~Flags.cow)
  | none => (reservedFlags m p).map fun f => (f ||| Flags.anonymous) &&& ~~~Flags.growsdown

/-- The guest reads the same bytes and has the same rights; which pages are shared since a fork, and which
have no memory yet, may differ. -/
def Twin (v₁ v₂ : Vm) : Prop :=
  ∀ p < memPages, pageFlags v₁.mem p = pageFlags v₂.mem p ∧ ∀ j < pageSize, guestByte v₁ p j = guestByte v₂ p j

/-- The call has done what was asked for, if it says so. -/
def MremapDone (s : AddressSpace) (c : MremapArgs) (script : List Bool) : Prop :=
  0 ≤ (s.mremap c script).1 → Remapped (s.vm.withOutcomes script) (s.mremap c script).2 c.start
    (page (s.mremap c script).1.toNat) (pagesFor c.oldLen.toNat) (pagesFor c.newLen.toNat)

/-- Both spaces give the same result, and what was asked for. -/
def MremapOk (s₁ s₂ : AddressSpace) (c : MremapArgs) (script : List Bool) : Prop :=
  (s₁.mremap c script).1 = (s₂.mremap c script).1 ∧ MremapDone s₁ c script ∧ MremapDone s₂ c script

/-! ## What the call looks at -/

def Tail (s : AddressSpace) (c : MremapArgs) : Prop :=
  ∀ p, c.start + c.new ≤ p → p < c.start + c.old → (memPt s.vm.mem p).isSome

/-- All pages of the range have entries, with the same flags as the first, and are anonymous. -/
structure Growable (s : AddressSpace) (c : MremapArgs) (e : PtEntry) : Prop where
  first : memPt s.vm.mem c.start = some e
  anonymous : Flags.any e.flags Flags.anonymous = true
  uniform : ∀ p, c.start ≤ p → p < c.start + c.old → ∃ f, memPt s.vm.mem p = some f ∧ f.flags = e.flags

/-- Where there is room for the pages, within the limit: behind the range, or in a hole. -/
def room (s : AddressSpace) (c : MremapArgs) (flags : Flags) : Option Nat :=
  if ptIsHole s.vm.mem (c.start + c.old) (c.new - c.old) then
    if affords s.vm.host flags (c.new - c.old) then some c.start else none
  else if c.mayMove ∧ (ptFindHole s.table c.new).page < memPages ∧ affords s.vm.host flags c.new then
    some (ptFindHole s.table c.new).page
  else none

def NoSplit (s : AddressSpace) (start n : Nat) : Prop :=
  n ≠ 0 → ∀ r ∈ s.vm.mem.reservations, ¬ Contains start (pageRangeEnd start n) r

/-- A range that shrinks: nothing is unmapped, or the new length does not overflow and the old range is inside
of the address space. `refusals` is whether the host may refuse memory. -/
def ShrinkFits (refusals : Bool) (s : AddressSpace) (c : MremapArgs) : Prop :=
  c.new = c.old ∨ (c.new ≠ 0 ∧ c.start + c.old ≤ memPages ∧
    (refusals = true → NoSplit s (c.start + c.new) (c.old - c.new)))

/-- A range that grows to `dest`. -/
def GrowFits (refusals : Bool) (s : AddressSpace) (c : MremapArgs) (flags : Flags) (dest : Nat) : Prop :=
  (dest = c.start ∧ c.start + c.new ≤ memPages) ∨ (dest ≠ c.start ∧ MoveFits s.vm c.start c.old c.new flags ∧
    (refusals = true → NoSplit s c.start c.old))

/-- The arguments are refused; or the pages to be unmapped all have entries in both spaces, or not in both,
and can be unmapped; or both ranges can grow or neither, there is room in the same place, and it fits. -/
def MremapFits (refusals : Bool) (s₁ s₂ : AddressSpace) (c : MremapArgs) : Prop :=
  c.Refused ∨
  (c.new ≤ c.old ∧ (Tail s₁ c ↔ Tail s₂ c) ∧ ∀ s, s = s₁ ∨ s = s₂ → Tail s c → ShrinkFits refusals s c) ∨
  (c.old < c.new ∧ ((∃ e, Growable s₁ c e) ↔ ∃ e, Growable s₂ c e) ∧
    (∀ e₁ e₂, Growable s₁ c e₁ → Growable s₂ c e₂ → room s₁ c e₁.flags = room s₂ c e₂.flags) ∧
    ∀ s, s = s₁ ∨ s = s₂ → ∀ e, Growable s c e → ∀ dest, room s c e.flags = some dest →
      GrowFits refusals s c e.flags dest)

/-! ## Lengths -/

theorem pageRoundUp32_cases {len : Nat} (hlen : len < 0x100000000) (h0 : len ≠ 0) :
    (pageRoundUp32 len ≠ 0 ∧ pagesFor len = pageRoundUp32 len ∧ pageRoundUp32 len < 0x100000) ∨
      (pageRoundUp32 len = 0 ∧ pagesFor len = 0x100000) := by
  unfold pageRoundUp32 pagesFor page
  simp only [pageSize]
  omega

theorem MremapArgs.start_lt (c : MremapArgs) : c.start < 0x10000000000000 := by
  have haddr := c.addr.toNat_lt
  unfold MremapArgs.start page
  simp only [pageSize]
  omega

theorem MremapArgs.old_le (c : MremapArgs) : c.old ≤ 0x100000 := pageRoundUp32_le _

theorem MremapArgs.new_le (c : MremapArgs) : c.new ≤ 0x100000 := pageRoundUp32_le _

theorem MremapArgs.addr_eq (h : ¬ c.Refused) : c.addr.toNat = c.start * pageSize := by
  have halign : pgOffset c.addr.toNat = 0 := not_not.mp fun hc => h (.inl hc)
  unfold MremapArgs.start page
  unfold pgOffset at halign
  exact (Nat.div_mul_cancel (Nat.dvd_of_mod_eq_zero halign)).symm

theorem page_result (p : Nat) : page ((p * pageSize : Nat) : Int).toNat = p := by
  unfold page
  rw [Int.toNat_natCast]
  exact Nat.mul_div_cancel _ (by decide)

theorem mappedAt_page (hp : p < memPages) (v : Vm) : mappedAt p (0, v) = (((p * pageSize : Nat) : Int), v) := by
  have hlt : 4096 * p < wordMod := by
    simp only [memPages, wordMod] at *
    omega
  unfold mappedAt
  rw [if_neg (Int.lt_irrefl 0), Nat.mod_eq_of_lt (by rw [Nat.mul_comm]; exact hlt)]

theorem AddressSpace.good (s : AddressSpace) (script : List Bool) :
    GoodReservations (s.vm.withOutcomes script).mem.reservations := by
  show GoodReservations s.vm.mem.reservations
  rw [s.refines.reservations]
  exact s.plain.good

theorem affords_withOutcomes (v : Vm) (script : List Bool) (flags : Flags) (n : Nat) :
    affords (v.withOutcomes script).host flags n = affords v.host flags n := by
  have hcount : (v.withOutcomes script).host.anonPageCount = v.host.anonPageCount := rfl
  unfold affords reserveIf anonPagesReserve
  rw [hcount]
  split
  · split <;> rfl
  · rfl

/-! ## Results -/

theorem mremap_refused (h : c.Refused) (s : AddressSpace) (script : List Bool) :
    (s.mremap c script).1 = eINVAL := by
  unfold AddressSpace.mremap sysMremap
  rcases h with h | h | h
  · rw [if_pos h]
  · rw [if_pos h]
    split <;> rfl
  rw [if_pos h]
  split
  · rfl
  · split <;> rfl

theorem shrink_result (h : ¬ c.Refused) (hle : c.new ≤ c.old) (s : AddressSpace) (script : List Bool) :
    (Tail s c → s.mremap c script = (((c.start * pageSize : Nat) : Int),
      ptUnmapAlways (s.vm.withOutcomes script) (c.start + c.new) (c.old - c.new))) ∧
    (¬ Tail s c → (s.mremap c script).1 = eFAULT) := by
  have haddr := MremapArgs.addr_eq h
  have hstart := c.start_lt
  have hold := c.old_le
  unfold MremapArgs.Refused at h
  rw [not_or, not_or] at h
  have hrange : pageRange (c.start + c.new) (c.old - c.new) = List.range' (c.start + c.new) (c.old - c.new) :=
    pageRange_eq (by simp only [wordMod]; omega)
  have hcall : s.mremap c script =
      (if (ptUnmap (s.vm.withOutcomes script) (c.start + c.new) (c.old - c.new)).1 < 0 then eFAULT
        else (c.addr.toNat : Int), (ptUnmap (s.vm.withOutcomes script) (c.start + c.new) (c.old - c.new)).2) := by
    unfold AddressSpace.mremap sysMremap
    rw [if_neg h.1, if_neg h.2.1, if_neg h.2.2]
    exact if_pos hle
  have hall : ((pageRange (c.start + c.new) (c.old - c.new)).all fun p =>
      (memPt (s.vm.withOutcomes script).mem p).isSome) = true ↔ Tail s c := by
    rw [hrange, List.all_eq_true]
    constructor
    · exact fun hall p hlo hhi => hall p (List.mem_range'_1.mpr ⟨hlo, by omega⟩)
    intro htail p hp
    rw [List.mem_range'_1] at hp
    exact htail p hp.1 (by omega)
  rw [hcall]
  constructor
  · intro htail
    unfold ptUnmap
    rw [if_pos (hall.mpr htail), haddr]
    rfl
  intro hno
  unfold ptUnmap
  rw [if_neg (fun hc => hno (hall.mp hc))]
  rfl

def Grown (s : AddressSpace) (c : MremapArgs) (script : List Bool) (flags : Flags) (dest : Nat) (v' : Vm) : Prop :=
  (dest = c.start ∧ (∀ p, c.start + c.old ≤ p → p < c.start + c.new → memPt s.vm.mem p = none) ∧
    Mapped (s.vm.withOutcomes script) v' (c.start + c.old) (c.new - c.old) (flags ||| Flags.anonymous)) ∨
  (dest ≠ c.start ∧ FreeRange s.vm.mem dest c.new ∧
    ∃ w, Mapped (s.vm.withOutcomes script) w dest c.new (flags ||| Flags.anonymous) ∧
      v' = moved w c.start dest c.old flags)

section Grow

variable (h : ¬ c.Refused) (hlt : c.old < c.new) (s : AddressSpace) (script : List Bool)

include h hlt

theorem mremap_fault (hno : ∀ e, ¬ Growable s c e) : (s.mremap c script).1 = eFAULT := by
  have hstart := c.start_lt
  have hold := c.old_le
  unfold MremapArgs.Refused at h
  rw [not_or, not_or] at h
  unfold AddressSpace.mremap sysMremap
  rw [if_neg h.1, if_neg h.2.1, if_neg h.2.2]
  dsimp only
  rw [if_neg (show ¬ pageRoundUp32 c.newLen.toNat ≤ pageRoundUp32 c.oldLen.toNat from Nat.not_le_of_lt hlt)]
  rw [show memPt (s.vm.withOutcomes script).mem (page c.addr.toNat) = memPt s.vm.mem c.start from rfl]
  cases hfirst : memPt s.vm.mem c.start with
  | none => rfl
  | some e =>
    dsimp only
    split
    case isTrue => rfl
    case isFalse hany =>
      split
      case isTrue => rfl
      case isFalse hanon =>
        refine absurd ⟨hfirst, ?_, fun p hlo hhi => ?_⟩ (hno e)
        · rwa [Bool.not_eq_true', Bool.not_eq_false] at hanon
        rw [Bool.not_eq_true, List.any_eq_false] at hany
        have hrange : pageRange c.start c.old = List.range' c.start c.old :=
          pageRange_eq (by simp only [wordMod]; omega)
        have hp : ¬ (memPt s.vm.mem p).all (fun f => f.flags != e.flags) = true :=
          hany p (hrange.symm ▸ List.mem_range'_1.mpr ⟨hlo, hhi⟩)
        cases hf : memPt s.vm.mem p with
        | none => simp [hf] at hp
        | some f => exact ⟨f, rfl, by simpa [hf] using hp⟩

variable (hgrow : Growable s c e)

include hgrow

theorem mremap_growable : s.mremap c script =
    if ptIsHole s.vm.mem (c.start + c.old) (c.new - c.old) then
      let r := ptMapNothing (s.vm.withOutcomes script) (c.start + c.old) (c.new - c.old) e.flags
      (if r.1 < 0 then r.1 else (c.addr.toNat : Int), r.2)
    else if !c.mayMove then (eNOMEM, s.vm.withOutcomes script)
    else mremapMove (s.vm.withOutcomes script) c.start c.old c.new e.flags (ptFindHole s.table c.new) := by
  have hstart := c.start_lt
  have hold := c.old_le
  unfold MremapArgs.Refused at h
  rw [not_or, not_or] at h
  have hrange : pageRange c.start c.old = List.range' c.start c.old := pageRange_eq (by simp only [wordMod]; omega)
  have hsame : ¬ ((pageRange c.start c.old).any fun p => (memPt s.vm.mem p).all fun f => f.flags != e.flags) = true := by
    rw [hrange, Bool.not_eq_true, List.any_eq_false]
    intro p hp
    rw [List.mem_range'_1] at hp
    obtain ⟨f, hf, hflags⟩ := hgrow.uniform p hp.1 hp.2
    simp [hf, hflags]
  unfold AddressSpace.mremap sysMremap
  rw [if_neg h.1, if_neg h.2.1, if_neg h.2.2]
  dsimp only
  rw [if_neg (show ¬ pageRoundUp32 c.newLen.toNat ≤ pageRoundUp32 c.oldLen.toNat from Nat.not_le_of_lt hlt),
    show memPt (s.vm.withOutcomes script).mem (page c.addr.toNat) = some e from hgrow.first]
  dsimp only
  refine (if_neg hsame).trans ?_
  rw [hgrow.anonymous]
  rfl

theorem inPlace_result (hhole : ptIsHole s.vm.mem (c.start + c.old) (c.new - c.old) = true) :
    (affords s.vm.host e.flags (c.new - c.old) = true ∧ (s.vm.withOutcomes script).host.grants 2 ∧
      (s.mremap c script).1 = ((c.start * pageSize : Nat) : Int) ∧
      Grown s c script e.flags c.start (s.mremap c script).2) ∨
    (¬ (affords s.vm.host e.flags (c.new - c.old) = true ∧ (s.vm.withOutcomes script).host.grants 2) ∧
      (s.mremap c script).1 = eNOMEM) := by
  have hstart := c.start_lt
  have hold := c.old_le
  have hnew := c.new_le
  have hfree : ∀ i < c.new - c.old, memPt s.vm.mem (c.start + c.old + i) = none := by
    intro i hi
    unfold ptIsHole at hhole
    rw [Bool.and_eq_true, List.all_eq_true, pageRange_eq (by simp only [wordMod]; omega)] at hhole
    exact Option.isNone_iff_eq_none.mp (hhole.1 _ (List.mem_range'_1.mpr ⟨by omega, by omega⟩))
  rw [mremap_growable h hlt s script hgrow, if_pos hhole, ← affords_withOutcomes s.vm script]
  dsimp only
  rcases ptMapNothing_hole (v := s.vm.withOutcomes script) (show 0 < c.new - c.old by omega)
      (by simp only [memPages]; omega) (by simp only [wordMod]; omega) hfree e.flags
    with ⟨hafford, hgrants, hzero, hm⟩ | ⟨hno, hnomem⟩
  · refine .inl ⟨hafford, hgrants, ?_, .inl ⟨rfl, fun p hlo hhi => ?_, hm⟩⟩
    · rw [hzero, if_neg (Int.lt_irrefl 0), MremapArgs.addr_eq h]
    · have hp := hfree (p - (c.start + c.old)) (by omega)
      rwa [Nat.add_sub_cancel' hlo] at hp
  refine .inr ⟨hno, ?_⟩
  rw [hnomem]
  rfl

theorem move_result (hhole : ¬ ptIsHole s.vm.mem (c.start + c.old) (c.new - c.old) = true) :
    ((c.mayMove = true ∧ (ptFindHole s.table c.new).page < memPages ∧ affords s.vm.host e.flags c.new = true) ∧
      (s.vm.withOutcomes script).host.grants 2 ∧
      (s.mremap c script).1 = (((ptFindHole s.table c.new).page * pageSize : Nat) : Int) ∧
      Grown s c script e.flags (ptFindHole s.table c.new).page (s.mremap c script).2) ∨
    (¬ ((c.mayMove = true ∧ (ptFindHole s.table c.new).page < memPages ∧ affords s.vm.host e.flags c.new = true) ∧
      (s.vm.withOutcomes script).host.grants 2) ∧ (s.mremap c script).1 = eNOMEM) := by
  have hnew := c.new_le
  rw [mremap_growable h hlt s script hgrow, if_neg hhole]
  cases hmay : c.mayMove with
  | false => exact .inr ⟨fun hc => absurd hc.1.1 (by simp), rfl⟩
  | true =>
    rw [if_neg (by simp)]
    unfold mremapMove
    dsimp only
    split
    case isTrue hfull => exact .inr ⟨fun hc => absurd hc.1.2.1 (Nat.not_lt_of_le hfull), rfl⟩
    case isFalse hpage =>
      have hroom : (ptFindHole s.table c.new).page < memPages := Nat.lt_of_not_le hpage
      have hfree : FreeRange s.vm.mem (ptFindHole s.table c.new).page c.new := by
        refine ((ptFindHole_spec s.plain (show 0 < c.new by omega)).resolve_right fun hbad => ?_).freeRange s.refines
        rw [hbad.1] at hpage
        exact hpage (by decide)
      have hfits := hfree.fits
      set dest := (ptFindHole s.table c.new).page
      -- the hint is set first; no entry or reservation depends on it
      set u : Vm := { s.vm.withOutcomes script with
        mem := { (s.vm.withOutcomes script).mem with mmapHint := (ptFindHole s.table c.new).hint } }
      have hcharge : affords u.host e.flags c.new = affords s.vm.host e.flags c.new :=
        affords_withOutcomes s.vm script e.flags c.new
      rw [← hcharge]
      rcases ptMapNothing_hole (v := u) (show 0 < c.new by omega) (by simp only [memPages]; omega)
          (by simp only [memPages, wordMod] at *; omega)
          (fun i hi => hfree.unmapped _ (Nat.le_add_right _ _) (by omega)) e.flags
        with ⟨hafford, hgrants, hzero, hm⟩ | ⟨hno, hnomem⟩
      · refine .inl ⟨⟨rfl, hroom, hafford⟩, hgrants, ?_⟩
        rw [if_neg (by rw [hzero]; exact Int.lt_irrefl 0)]
        rw [mappedAt_page hroom]
        refine ⟨rfl, .inr ⟨fun heq => ?_, hfree, (ptMapNothing u dest c.new e.flags).2,
          ⟨hm.entry, hm.other, hm.reservations, hm.bytes, hm.script⟩, rfl⟩⟩
        have hnone := hfree.unmapped dest (Nat.le_refl _) (by omega)
        rw [heq, hgrow.first] at hnone
        cases hnone
      refine .inr ⟨fun hc => hno ⟨hc.1.2.2, hc.2⟩, ?_⟩
      rw [if_pos (by rw [hnomem]; decide)]
      exact hnomem

theorem grow_result :
    (∃ dest, room s c e.flags = some dest ∧ (s.vm.withOutcomes script).host.grants 2 ∧
      (s.mremap c script).1 = ((dest * pageSize : Nat) : Int) ∧ Grown s c script e.flags dest (s.mremap c script).2) ∨
    ((room s c e.flags = none ∨ ¬ (s.vm.withOutcomes script).host.grants 2) ∧
      (s.mremap c script).1 = eNOMEM) := by
  by_cases hhole : ptIsHole s.vm.mem (c.start + c.old) (c.new - c.old) = true
  · have hroom : room s c e.flags =
        if affords s.vm.host e.flags (c.new - c.old) = true then some c.start else none := if_pos hhole
    rcases inPlace_result h hlt s script hgrow hhole with ⟨hafford, hgrants, hdone⟩ | ⟨hno, hnomem⟩
    · exact .inl ⟨c.start, by rw [hroom, if_pos hafford], hgrants, hdone⟩
    refine .inr ⟨?_, hnomem⟩
    by_cases hafford : affords s.vm.host e.flags (c.new - c.old) = true
    · exact .inr fun hgrants => hno ⟨hafford, hgrants⟩
    · exact .inl (by rw [hroom, if_neg hafford])
  have hroom : room s c e.flags = if c.mayMove ∧ (ptFindHole s.table c.new).page < memPages ∧
      affords s.vm.host e.flags c.new then some (ptFindHole s.table c.new).page else none := if_neg hhole
  rcases move_result h hlt s script hgrow hhole with ⟨hfits, hgrants, hdone⟩ | ⟨hno, hnomem⟩
  · exact .inl ⟨_, by rw [hroom, if_pos hfits], hgrants, hdone⟩
  refine .inr ⟨?_, hnomem⟩
  by_cases hfits : c.mayMove = true ∧ (ptFindHole s.table c.new).page < memPages ∧
      affords s.vm.host e.flags c.new = true
  · exact .inr fun hgrants => hno ⟨hfits, hgrants⟩
  · exact .inl (by rw [hroom, if_neg hfits])

end Grow

/-! ## What a call that succeeds has done -/

def Possible (refusals : Bool) (script : List Bool) : Prop := refusals = true ∨ script = []

theorem possible_nil (refusals : Bool) : Possible refusals [] := .inr rfl

theorem noSplit_iff {start n : Nat} (script : List Bool) (hno : script.head? = some false) :
    SplitFits (s.vm.withOutcomes script) start n ↔ NoSplit s start n := by
  have hrefused : (s.vm.withOutcomes script).host.attempt.1 = false := by
    cases script with
    | nil => cases hno
    | cons b rest => exact Option.some.inj hno
  unfold SplitFits NoSplit
  rw [hrefused]
  exact ⟨fun h hn r hr hc => absurd (h hn r hr hc) Bool.noConfusion, fun h hn r hr hc => absurd hc (h hn r hr)⟩

theorem NoSplit.splitFits {start n : Nat} (h : NoSplit s start n) (script : List Bool) :
    SplitFits (s.vm.withOutcomes script) start n := fun hn r hr hc => absurd hc (h hn r hr)

theorem splitFits_possible {start n : Nat} (hno : refusals = true → NoSplit s start n) {script : List Bool}
    (hs : Possible refusals script) : SplitFits (s.vm.withOutcomes script) start n := by
  rcases hs with hr | rfl
  · exact (hno hr).splitFits script
  · exact splitFits_granted rfl start n

theorem remapped_nothing {v : Vm} {start q : Nat} (hg : GoodReservations v.mem.reservations) (hq : q < wordMod)
    (len : Nat) : Remapped v (ptUnmapAlways v q 0) start start len len := by
  have hentry : ∀ p, memPt (ptUnmapAlways v q 0).mem p = memPt v.mem p := fun p =>
    unmapped_out hq fun r hlo hhi => absurd hhi (Nat.not_lt_of_le hlo)
  have hres : ∀ p, reservedFlags (ptUnmapAlways v q 0).mem p = reservedFlags v.mem p := fun p =>
    unreserved_out hg fun hc => absurd hc.2 (Nat.not_lt_of_le hc.1)
  have hbytes := (shrinks_ptUnmapAlways v q 0).bytes_eq
  exact ⟨fun i hi _ j _ => guestByte_congr (hentry _) (hres _) fun e _ => by rw [hbytes],
    fun i hi hin => absurd hin (Nat.not_lt_of_le hi), fun p _ hlo hhi hno => absurd ⟨hlo, hhi⟩ hno,
    fun p _ _ _ => ⟨hentry p, hres p, fun e _ j _ => by rw [hbytes]⟩⟩

theorem shrink_done_iff (h : ¬ c.Refused) (hle : c.new ≤ c.old) (htail : Tail s c) :
    (∀ script, Possible refusals script → MremapDone s c script) ↔ ShrinkFits refusals s c := by
  have hstart := c.start_lt
  have hold := c.old_le
  have hresult := fun script => (shrink_result h hle s script).1 htail
  have hdone : ∀ script, MremapDone s c script ↔ Remapped (s.vm.withOutcomes script)
      (ptUnmapAlways (s.vm.withOutcomes script) (c.start + c.new) (c.old - c.new)) c.start c.start
      (pagesFor c.oldLen.toNat) (pagesFor c.newLen.toNat) := by
    intro script
    unfold MremapDone
    rw [hresult script, page_result]
    exact ⟨fun hd => hd (Int.natCast_nonneg _), fun hd _ => hd⟩
  simp only [hdone]
  unfold MremapArgs.Refused at h
  rw [not_or, not_or, not_or] at h
  have hasked : c.old ≠ 0 ∧ pagesFor c.oldLen.toNat = c.old ∧ c.old < 0x100000 ∨
      c.old = 0 ∧ pagesFor c.oldLen.toNat = 0x100000 := pageRoundUp32_cases c.oldLen.toNat_lt h.2.1.1
  have hasked' : c.new ≠ 0 ∧ pagesFor c.newLen.toNat = c.new ∧ c.new < 0x100000 ∨
      c.new = 0 ∧ pagesFor c.newLen.toNat = 0x100000 := pageRoundUp32_cases c.newLen.toNat_lt h.2.1.2
  rcases Nat.eq_or_lt_of_le hle with heq | hlt
  · refine ⟨fun _ => .inl heq, fun _ script _ => ?_⟩
    rw [heq, Nat.sub_self, show pagesFor c.newLen.toNat = pagesFor c.oldLen.toNat by omega]
    exact remapped_nothing (s.good script) (by simp only [wordMod]; omega) _
  obtain ⟨-, hlen, -⟩ := hasked.resolve_right fun hc => by omega
  have hpages : c.start + c.old < wordMod := by
    simp only [wordMod]
    omega
  rw [hlen]
  constructor
  · intro hall
    obtain ⟨hsame, htop⟩ := shrink_of_remapped (s.good []) hpages (by simp only [memPages]; omega) hlt htail
      (hasked'.imp (fun hc => hc.2.1) fun hc => ⟨hc.1, by omega⟩) rfl (hall [] (possible_nil refusals))
    refine .inr ⟨by omega, htop, fun hr => (noSplit_iff [false] rfl).mp ?_⟩
    have hrefused := hall [false] (.inl hr)
    rw [hsame] at hrefused
    exact shrink_splits (s.good [false]) hlt hrefused
  rintro (heq | ⟨hne, htop, hno⟩) script hs
  · exact absurd heq (Nat.ne_of_lt hlt)
  · rw [(hasked'.resolve_right fun hc => hne hc.1).2.1]
    exact remapped_shrink (s.good script) hpages hlt htop (splitFits_possible hno hs)

theorem grown_iff (h : ¬ c.Refused) (hlt : c.old < c.new) (hgrow : Growable s c e) {v' : Vm}
    (hd : Grown s c script e.flags dest v') :
    Remapped (s.vm.withOutcomes script) v' c.start dest (pagesFor c.oldLen.toNat) (pagesFor c.newLen.toNat) ↔
      (dest = c.start ∧ c.start + c.new ≤ memPages) ∨ (dest ≠ c.start ∧ MoveFits s.vm c.start c.old c.new e.flags ∧
        SplitFits (s.vm.withOutcomes (script.drop 2)) c.start c.old) := by
  have hstart := c.start_lt
  have hold := c.old_le
  have hnew := c.new_le
  unfold MremapArgs.Refused at h
  rw [not_or, not_or, not_or] at h
  have hasked : c.old ≠ 0 ∧ pagesFor c.oldLen.toNat = c.old ∧ c.old < 0x100000 ∨
      c.old = 0 ∧ pagesFor c.oldLen.toNat = 0x100000 := pageRoundUp32_cases c.oldLen.toNat_lt h.2.1.1
  obtain ⟨-, hlen, hshort⟩ : c.new ≠ 0 ∧ pagesFor c.newLen.toNat = c.new ∧ c.new < 0x100000 :=
    (pageRoundUp32_cases c.newLen.toNat_lt h.2.1.2).resolve_right fun hc =>
      Nat.ne_of_gt (Nat.lt_of_le_of_lt (Nat.zero_le _) hlt) hc.1
  have hsome : ∀ p, c.start ≤ p → p < c.start + c.old → (memPt s.vm.mem p).isSome := fun p hlo hhi => by
    obtain ⟨f, hf, -⟩ := hgrow.uniform p hlo hhi
    rw [hf]
    rfl
  have hlive : Live (s.vm.withOutcomes script) := s.live
  rw [hlen]
  rcases hd with ⟨rfl, hfree, hm⟩ | ⟨hne, hfree, w, hm, rfl⟩
  · -- the first page is mapped, so that the old range is not empty
    have hpos : c.old ≠ 0 := by
      intro h0
      have hnone := hfree c.start (by omega) (by omega)
      rw [hgrow.first] at hnone
      cases hnone
    rw [(hasked.resolve_right fun hc => hpos hc.1).2.1]
    refine (remapped_inPlace hlive hm hlt (by simp only [memPages]; omega) hfree).trans ?_
    exact ⟨fun htop => .inl ⟨rfl, htop⟩, fun hc => (hc.resolve_right fun hc => hc.1 rfl).2⟩
  have hpages : c.start + c.old < wordMod := by
    simp only [wordMod]
    omega
  have hrange := newRange_moved hlive (s.good script) hm hfree hlt hpages hsome e.flags
  have hmove := remapped_move hrange hfree hlt hsome (Option.isSome_of_eq_some hgrow.first)
    (hasked.imp (fun hc => ⟨hc.1, hc.2.1⟩) fun hc => ⟨hc.1, by omega⟩)
  rw [hmove, reserved_moved (s.good script) hm]
  exact ⟨fun hc => .inr ⟨hne, hc⟩, fun hc => (hc.resolve_left fun hc => hne hc.1).2⟩

theorem grow_done_iff (h : ¬ c.Refused) (hlt : c.old < c.new) (hgrow : Growable s c e)
    (hroom : room s c e.flags = some dest) :
    (∀ script, Possible refusals script → MremapDone s c script) ↔ GrowFits refusals s c e.flags dest := by
  have hdone : ∀ script, MremapDone s c script ↔ ((s.vm.withOutcomes script).host.grants 2 →
      (dest = c.start ∧ c.start + c.new ≤ memPages) ∨ (dest ≠ c.start ∧ MoveFits s.vm c.start c.old c.new e.flags ∧
        SplitFits (s.vm.withOutcomes (script.drop 2)) c.start c.old)) := by
    intro script
    unfold MremapDone
    rcases grow_result h hlt s script hgrow with ⟨dest', hroom', hgrants, hres, hd⟩ | ⟨hno, hnomem⟩
    · obtain rfl := Option.some.inj (hroom.symm.trans hroom')
      rw [hres, page_result, grown_iff h hlt hgrow hd]
      exact ⟨fun hc _ => hc (Int.natCast_nonneg _), fun hc _ => hc hgrants⟩
    rw [hnomem]
    refine ⟨fun _ hgrants => ?_, fun _ hc => absurd hc (by decide)⟩
    rcases hno with hnone | hrefused
    · rw [hroom] at hnone
      cases hnone
    · exact absurd hgrants hrefused
  simp only [hdone]
  constructor
  · intro hall
    rcases hall [] (possible_nil refusals) (show ∀ b ∈ ([] : List Bool).take 2, b = true by decide) with hin | ⟨hne, hfits, -⟩
    · exact .inl hin
    refine .inr ⟨hne, hfits, fun hr => (noSplit_iff [false] rfl).mp ?_⟩
    -- the map is granted, and the split is not
    rcases hall [true, true, false] (.inl hr) (show ∀ b ∈ [true, true, false].take 2, b = true by decide) with hin | hmove
    · exact absurd hin.1 hne
    · exact hmove.2.2
  rintro (hin | ⟨hne, hfits, hno⟩) script hs _
  · exact .inl hin
  · refine .inr ⟨hne, hfits, splitFits_possible hno ?_⟩
    exact hs.imp_right fun hnil => by rw [hnil]; rfl

/-! ## Two spaces -/

theorem mremapOk_iff : (∀ script, Possible refusals script → MremapOk s₁ s₂ c script) ↔
    (∀ script, Possible refusals script → (s₁.mremap c script).1 = (s₂.mremap c script).1) ∧
    ∀ s, s = s₁ ∨ s = s₂ → ∀ script, Possible refusals script → MremapDone s c script := by
  constructor
  · refine fun hall => ⟨fun script hs => (hall script hs).1, ?_⟩
    rintro s (rfl | rfl) script hs
    · exact (hall script hs).2.1
    · exact (hall script hs).2.2
  · exact fun hall script hs => ⟨hall.1 script hs, hall.2 s₁ (.inl rfl) script hs, hall.2 s₂ (.inr rfl) script hs⟩

theorem page_ne_neg {r : Int} (hneg : r < 0) (p : Nat) : ((p * pageSize : Nat) : Int) ≠ r := by
  rintro rfl
  exact absurd (Int.natCast_nonneg _) (Int.not_le_of_gt hneg)

theorem shrink_same_iff (h : ¬ c.Refused) (hle : c.new ≤ c.old) (script : List Bool) :
    (s₁.mremap c script).1 = (s₂.mremap c script).1 ↔ (Tail s₁ c ↔ Tail s₂ c) := by
  obtain ⟨htail₁, hno₁⟩ := shrink_result h hle s₁ script
  obtain ⟨htail₂, hno₂⟩ := shrink_result h hle s₂ script
  by_cases h₁ : Tail s₁ c <;> by_cases h₂ : Tail s₂ c
  · rw [htail₁ h₁, htail₂ h₂]
    exact ⟨fun _ => ⟨fun _ => h₂, fun _ => h₁⟩, fun _ => rfl⟩
  · rw [htail₁ h₁, hno₂ h₂]
    exact ⟨fun hc => absurd hc (page_ne_neg (by decide) _), fun hc => absurd (hc.mp h₁) h₂⟩
  · rw [hno₁ h₁, htail₂ h₂]
    exact ⟨fun hc => absurd hc.symm (page_ne_neg (by decide) _), fun hc => absurd (hc.mpr h₂) h₁⟩
  · rw [hno₁ h₁, hno₂ h₂]
    exact ⟨fun _ => ⟨fun hc => absurd hc h₁, fun hc => absurd hc h₂⟩, fun _ => rfl⟩

def grownResult (script : List Bool) : Option Nat → Int
  | some dest => if ∀ b ∈ script.take 2, b = true then ((dest * pageSize : Nat) : Int) else eNOMEM
  | none => eNOMEM

theorem grow_returns (h : ¬ c.Refused) (hlt : c.old < c.new) (hgrow : Growable s c e) (script : List Bool) :
    (s.mremap c script).1 = grownResult script (room s c e.flags) := by
  rcases grow_result h hlt s script hgrow with ⟨dest, hroom, hgrants, hres, -⟩ | ⟨hno, hnomem⟩
  · rw [hres, hroom]
    exact (if_pos hgrants).symm
  rw [hnomem]
  cases hroom : room s c e.flags with
  | none => rfl
  | some dest =>
    rw [hroom] at hno
    exact (if_neg (hno.resolve_left (Option.some_ne_none dest))).symm

theorem grownResult_inj {a b : Option Nat} (heq : grownResult [] a = grownResult [] b) : a = b := by
  have hsome : ∀ p, grownResult [] (some p) = ((p * pageSize : Nat) : Int) := by
    intro p
    unfold grownResult
    dsimp only
    rw [if_pos (show ∀ b ∈ ([] : List Bool).take 2, b = true by decide)]
  have hnone : grownResult [] none = eNOMEM := rfl
  cases a with
  | none =>
    cases b with
    | none => rfl
    | some q =>
      rw [hsome, hnone] at heq
      exact absurd heq.symm (page_ne_neg (by decide) q)
  | some p =>
    cases b with
    | none =>
      rw [hsome, hnone] at heq
      exact absurd heq (page_ne_neg (by decide) p)
    | some q =>
      rw [hsome, hsome] at heq
      exact congrArg some (Nat.eq_of_mul_eq_mul_right (by decide) (Int.ofNat.inj heq))

theorem grownResult_ne (script : List Bool) (dest : Option Nat) : grownResult script dest ≠ eFAULT := by
  unfold grownResult
  split
  · split
    · exact page_ne_neg (by decide) _
    · decide
  · decide

theorem grow_same_iff (h : ¬ c.Refused) (hlt : c.old < c.new) :
    (∀ script, Possible refusals script → (s₁.mremap c script).1 = (s₂.mremap c script).1) ↔
      ((∃ e, Growable s₁ c e) ↔ ∃ e, Growable s₂ c e) ∧
      ∀ e₁ e₂, Growable s₁ c e₁ → Growable s₂ c e₂ → room s₁ c e₁.flags = room s₂ c e₂.flags := by
  have hfault : ∀ s script, (¬ ∃ e, Growable s c e) → (s.mremap c script).1 = eFAULT := fun s script hno =>
    mremap_fault h hlt s script fun e he => hno ⟨e, he⟩
  have hne : ∀ s script e, Growable s c e → (s.mremap c script).1 ≠ eFAULT := fun s script e he => by
    rw [grow_returns h hlt he script]
    exact grownResult_ne script _
  constructor
  · intro hall
    have hnil := hall [] (possible_nil refusals)
    refine ⟨⟨?_, ?_⟩, fun e₁ e₂ h₁ h₂ => ?_⟩
    · rintro ⟨e₁, h₁⟩
      by_contra hno
      exact hne s₁ [] e₁ h₁ (hnil.trans (hfault s₂ [] hno))
    · rintro ⟨e₂, h₂⟩
      by_contra hno
      exact hne s₂ [] e₂ h₂ (hnil.symm.trans (hfault s₁ [] hno))
    · rw [grow_returns h hlt h₁ [], grow_returns h hlt h₂ []] at hnil
      exact grownResult_inj hnil
  rintro ⟨hboth, hroom⟩ script -
  by_cases hgrow : ∃ e, Growable s₁ c e
  · obtain ⟨e₂, h₂⟩ := hboth.mp hgrow
    obtain ⟨e₁, h₁⟩ := hgrow
    rw [grow_returns h hlt h₁ script, grow_returns h hlt h₂ script, hroom e₁ e₂ h₁ h₂]
  · rw [hfault s₁ script hgrow, hfault s₂ script fun hc => hgrow (hboth.mpr hc)]

theorem mremapDone_of_neg (hneg : (s.mremap c script).1 < 0) : MremapDone s c script :=
  fun hpos => absurd hpos (Int.not_le_of_gt hneg)

theorem shrink_space_iff (h : ¬ c.Refused) (hle : c.new ≤ c.old) :
    (∀ script, Possible refusals script → MremapDone s c script) ↔ (Tail s c → ShrinkFits refusals s c) := by
  by_cases htail : Tail s c
  · rw [shrink_done_iff h hle htail]
    exact ⟨fun hc _ => hc, fun hc => hc htail⟩
  refine ⟨fun _ hc => absurd hc htail, fun _ script _ => mremapDone_of_neg ?_⟩
  rw [(shrink_result h hle s script).2 htail]
  decide

theorem grow_space_iff (h : ¬ c.Refused) (hlt : c.old < c.new) :
    (∀ script, Possible refusals script → MremapDone s c script) ↔
      ∀ e, Growable s c e → ∀ dest, room s c e.flags = some dest → GrowFits refusals s c e.flags dest := by
  constructor
  · exact fun hall e he dest hroom => (grow_done_iff h hlt he hroom).mp hall
  intro hfits
  by_cases hgrow : ∃ e, Growable s c e
  · obtain ⟨e, he⟩ := hgrow
    cases hroom : room s c e.flags with
    | some dest => exact (grow_done_iff h hlt he hroom).mpr (hfits e he dest hroom)
    | none =>
      refine fun script _ => mremapDone_of_neg ?_
      rw [grow_returns h hlt he script, hroom]
      exact show eNOMEM < 0 by decide
  refine fun script _ => mremapDone_of_neg ?_
  rw [mremap_fault h hlt s script fun e he => hgrow ⟨e, he⟩]
  decide

/-- **`mremap` of two spaces**: both give the same result, and what was asked for, if and only if the call fits
both. -/
theorem mremap_iff (refusals : Bool) (s₁ s₂ : AddressSpace) (c : MremapArgs) :
    (∀ script, Possible refusals script → MremapOk s₁ s₂ c script) ↔ MremapFits refusals s₁ s₂ c := by
  rw [mremapOk_iff]
  unfold MremapFits
  by_cases h : c.Refused
  · refine ⟨fun _ => .inl h, fun _ => ⟨fun script _ => ?_, fun s _ script _ => mremapDone_of_neg ?_⟩⟩
    · rw [mremap_refused h s₁ script, mremap_refused h s₂ script]
    · rw [mremap_refused h s script]
      decide
  rcases Nat.lt_or_ge c.old c.new with hlt | hle
  · simp only [grow_space_iff h hlt]
    rw [grow_same_iff h hlt]
    constructor
    · exact fun hall => .inr (.inr ⟨hlt, hall.1.1, hall.1.2, hall.2⟩)
    rintro (hc | hc | ⟨-, hboth, hroom, hall⟩)
    · exact absurd hc h
    · exact absurd hc.1 (Nat.not_le_of_lt hlt)
    · exact ⟨⟨hboth, hroom⟩, hall⟩
  simp only [shrink_space_iff h hle, shrink_same_iff h hle]
  constructor
  · exact fun hall => .inr (.inl ⟨hle, hall.1 [] (possible_nil refusals), hall.2⟩)
  rintro (hc | ⟨-, hboth, hall⟩ | hc)
  · exact absurd hc h
  · exact ⟨fun _ _ => hboth, hall⟩
  · exact absurd hc.1 (Nat.not_lt_of_le hle)

/-! ## Two pages, one of them shared since a fork -/

def freshHost : Host := { datas := ∅, bytes := fun _ _ => 0, nextData := 0, anonPageCount := 0, script := [] }

/-- Flags of a page of heap; `shared` is whether it is shared with another process since a fork. -/
def heapFlags (shared : Bool) : Flags :=
  Flags.read ||| Flags.write ||| Flags.anonymous ||| (if shared then Flags.cow else 0)

def twoPageOps (shared : Bool) : List TableOp :=
  [.map 16 1 (some zeroFill) 0 (heapFlags false), .map 17 1 (some zeroFill) 0 (heapFlags shared)]

def twoPageVm (shared : Bool) : Vm := run flatStep ⟨freshHost, memInit⟩ (twoPageOps shared)

theorem pt_twoPageVm (shared : Bool) : (twoPageVm shared).mem.pt =
    AList.insert (slot 17) ⟨1, 0, heapFlags shared⟩ (AList.singleton (slot 16) ⟨0, 0, heapFlags false⟩) := rfl

theorem nextData_twoPageVm (shared : Bool) : (twoPageVm shared).host.nextData = 2 := by
  cases shared <;> rfl

theorem live_twoPageVm (shared : Bool) : Live (twoPageVm shared) := by
  intro t e he
  rw [nextData_twoPageVm]
  rw [pt_twoPageVm] at he
  by_cases h17 : t = slot 17
  · rw [h17, AList.lookup_insert] at he
    cases he
    exact Nat.lt_succ_self 1
  rw [AList.lookup_insert_ne h17] at he
  have hone := List.mem_singleton.mp (AList.mem_lookup_iff.mp he)
  cases hone
  exact Nat.two_pos

theorem plain_nil : PlainReservations [] :=
  ⟨⟨fun _ hr => absurd hr List.not_mem_nil, .nil⟩, fun _ hr => absurd hr List.not_mem_nil⟩

def twoPageSpace (shared : Bool) : AddressSpace where
  table := run tableStep (tableInit freshHost) (twoPageOps shared)
  vm := twoPageVm shared
  refines := tableRefines_run freshHost (twoPageOps shared)
  live := live_twoPageVm shared
  plain := plain_nil

theorem twin_twoPageSpace : Twin (twoPageSpace false).vm (twoPageSpace true).vm := by
  intro p _
  have hbytes : (twoPageVm false).host.bytes = (twoPageVm true).host.bytes := rfl
  by_cases h17 : slot p = slot 17
  · have hentry : ∀ shared, memPt (twoPageSpace shared).vm.mem p = some ⟨1, 0, heapFlags shared⟩ := fun shared => by
      show (twoPageVm shared).mem.pt.lookup (slot p) = _
      rw [pt_twoPageVm, h17, AList.lookup_insert]
    refine ⟨?_, fun j _ => ?_⟩
    · unfold pageFlags
      rw [hentry, hentry]
      exact congrArg some (show heapFlags false &&& ~~~Flags.cow = heapFlags true &&& ~~~Flags.cow by decide)
    · rw [guestByte_mapped (hentry false), guestByte_mapped (hentry true)]
      exact congrArg (fun b => some (b 1 (0 + j))) hbytes
  have hentry : memPt (twoPageSpace false).vm.mem p = memPt (twoPageSpace true).vm.mem p := by
    show (twoPageVm false).mem.pt.lookup (slot p) = (twoPageVm true).mem.pt.lookup (slot p)
    rw [pt_twoPageVm, pt_twoPageVm, AList.lookup_insert_ne h17, AList.lookup_insert_ne h17]
  refine ⟨?_, fun j _ => guestByte_congr hentry rfl fun e _ => congrArg (fun b => b e.data (e.offset + j)) hbytes⟩
  unfold pageFlags
  rw [hentry]
  rfl

/-- From two pages to three, with `MREMAP_MAYMOVE`. -/
def growTwoPages : MremapArgs := ⟨0x10000, 0x2000, 0x3000, true, false⟩

/-- If the process has written both pages since a fork, they grow; if it has written only the first, they do
not. -/
theorem mremap_shared_fails : Twin (twoPageSpace false).vm (twoPageSpace true).vm ∧
    ((twoPageSpace false).mremap growTwoPages []).1 = 0x10000 ∧
    ((twoPageSpace true).mremap growTwoPages []).1 = eFAULT ∧
    ¬ MremapOk (twoPageSpace false) (twoPageSpace true) growTwoPages [] := by
  have hgrown : ((twoPageSpace false).mremap growTwoPages []).1 = 0x10000 := by
    decide +kernel
  have hfault : ((twoPageSpace true).mremap growTwoPages []).1 = eFAULT := by
    decide +kernel
  refine ⟨twin_twoPageSpace, hgrown, hfault, fun hok => ?_⟩
  have hsame := hok.1
  rw [hgrown, hfault] at hsame
  cases hsame

end IosLinuxkit.Kernel
