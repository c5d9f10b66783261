import IosLinuxkit.Kernel.VmSpec

/-!
# One specification per page-table operation

For each function of `Memory.lean` and `MemPtr.lean`: what it can do to the table
(`Shrinks`, `Extends`), to `mmu.changes` (`Coherent`), and to the accounting
(`Balanced`). Callers cite these and never unfold the functions.
-/

namespace IosLinuxkit.Kernel

/-! ## Reservations only consume the host script -/

structure SameHost (h h' : Host) : Prop where
  datas : h'.datas = h.datas
  bytes : h'.bytes = h.bytes
  nextData : h'.nextData = h.nextData
  anonPageCount : h'.anonPageCount = h.anonPageCount

theorem SameHost.refl (h : Host) : SameHost h h := ⟨rfl, rfl, rfl, rfl⟩

theorem SameHost.trans {h₁ h₂ h₃ : Host} (a : SameHost h₁ h₂) (b : SameHost h₂ h₃) :
    SameHost h₁ h₃ :=
  ⟨b.datas.trans a.datas, b.bytes.trans a.bytes, b.nextData.trans a.nextData,
    b.anonPageCount.trans a.anonPageCount⟩

theorem sameHost_attempt (h : Host) : SameHost h h.attempt.2 := by
  unfold Host.attempt
  split
  · exact SameHost.refl h
  · exact ⟨rfl, rfl, rfl, rfl⟩

theorem sameHost_removeReservations (start stop : Nat) (rs : List Reservation) :
    ∀ h : Host, SameHost h (removeReservations start stop h rs).1 := by
  induction rs with
  | nil => exact fun h => SameHost.refl h
  | cons r rest ih =>
    intro h
    unfold removeReservations
    split_ifs
    · exact ih h
    · exact ih h
    · dsimp only
      split_ifs
      · exact (sameHost_attempt h).trans (ih _)
      · exact (sameHost_attempt h).trans (ih _)
    · exact ih h
    · exact ih h

theorem sameHost_setReservationFlags (start stop : Nat) (flags : Flags) (rs : List Reservation) :
    ∀ h : Host, SameHost h (setReservationFlags start stop flags h rs).2.1 := by
  induction rs with
  | nil => exact fun h => SameHost.refl h
  | cons r rest ih =>
    intro h
    have hone := sameHost_attempt h
    have htwo := hone.trans (sameHost_attempt h.attempt.2)
    unfold setReservationFlags
    split_ifs
    · exact ih h
    dsimp only
    split_ifs
    · exact htwo.trans (ih _)
    · exact htwo
    · exact hone.trans (ih _)
    · exact hone
    · exact hone.trans (ih _)
    · exact hone
    · exact ih h

theorem sameHost_copyReservations (rs : List Reservation) :
    ∀ (h : Host) (dst : Mem), SameHost h (copyReservations rs h dst).1 := by
  induction rs with
  | nil => exact fun h _ => SameHost.refl h
  | cons r rest ih => exact fun h dst => (sameHost_attempt h).trans (ih _ _)

theorem copyReservations_mem (rs : List Reservation) :
    ∀ (h : Host) (dst : Mem), (copyReservations rs h dst).2.pt = dst.pt ∧
      (copyReservations rs h dst).2.changes = dst.changes := by
  induction rs with
  | nil => exact fun _ _ => ⟨rfl, rfl⟩
  | cons r rest ih =>
    intro h dst
    obtain ⟨hpt, hc⟩ := ih h.attempt.2
      (if h.attempt.1 then { dst with reservations := r :: dst.reservations } else dst)
    unfold copyReservations
    rw [hpt, hc]
    split <;> exact ⟨rfl, rfl⟩

variable {v v' v₀ : Vm} {p start pages d offset : Nat} {contents : Nat → UInt8}

theorem Shrinks.of_sameHost (hh : SameHost v.host v'.host)
    (hpt : v'.mem.pt = v.mem.pt) : Shrinks v v' :=
  ⟨hh.nextData, hh.bytes, fun s e h => by rw [← hpt]; exact h⟩

theorem Balanced.of_sameHost (hh : SameHost v.host v'.host)
    (hpt : v'.mem.pt = v.mem.pt) : Balanced v v' :=
  Balanced.of_eq hpt hh.anonPageCount

theorem Sound.of_sameHost (hl : Live v) (hh : SameHost v.host v'.host)
    (hpt : v'.mem.pt = v.mem.pt) (hc : v.mem.changes ≤ v'.mem.changes) : Sound v v' :=
  ⟨(Shrinks.of_sameHost hh hpt).extends hl, Coherent.of_pt_eq hpt hc, Balanced.of_sameHost hh hpt⟩

theorem sound_changed (hl : Live v) : Sound v { v with mem := v.mem.changed } :=
  Sound.of_sameHost hl (SameHost.refl _) rfl (Nat.le_succ _)

theorem memRemoveReservations_spec (v : Vm) (start pages : Nat) :
    SameHost v.host (memRemoveReservations v start pages).host ∧
      (memRemoveReservations v start pages).mem.pt = v.mem.pt ∧
      (memRemoveReservations v start pages).mem.changes = v.mem.changes := by
  unfold memRemoveReservations
  split
  · exact ⟨SameHost.refl _, rfl, rfl⟩
  · exact ⟨sameHost_removeReservations _ _ _ _, rfl, rfl⟩

theorem memSetReservationFlags_spec (v : Vm) (start pages : Nat) (flags : Flags) :
    SameHost v.host (memSetReservationFlags v start pages flags).2.host ∧
      (memSetReservationFlags v start pages flags).2.mem.pt = v.mem.pt ∧
      (memSetReservationFlags v start pages flags).2.mem.changes = v.mem.changes := by
  unfold memSetReservationFlags
  split
  · exact ⟨SameHost.refl _, rfl, rfl⟩
  · exact ⟨sameHost_setReservationFlags _ _ _ _ _, rfl, rfl⟩

/-! ## Unmapping -/

theorem shrinks_unmapPage (v : Vm) (p : Nat) : Shrinks v (unmapPage v p) := by
  unfold unmapPage
  split
  · exact Shrinks.refl v
  refine ⟨?_, ?_, ?_⟩
  · dsimp only; split <;> simp
  · dsimp only; split <;> simp
  intro s e h
  by_cases hs : s = slot p
  · rw [hs, AList.lookup_erase] at h
    cases h
  · rwa [AList.lookup_erase_ne hs] at h

theorem balanced_unmapPage (v : Vm) (p : Nat) : Balanced v (unmapPage v p) := by
  unfold unmapPage
  split
  · rfl
  · rename_i e he
    have hw : Assoc.weightAt charge v.mem.pt (slot p) = charge e :=
      Assoc.weightAt_of_some he
    simp only [Balanced, balance, chargedPages, Assoc.sumBy_erase, hw]
    split
    · rename_i hc
      simp [charge, hc, boolToInt]
      omega
    · rename_i hc
      simp [charge, hc, boolToInt]

@[simp] theorem unmapPage_changes (v : Vm) (p : Nat) :
    (unmapPage v p).mem.changes = v.mem.changes := by
  unfold unmapPage
  split <;> rfl

theorem unmapPage_unmapped (v : Vm) (p : Nat) : (unmapPage v p).mem.pt.lookup (slot p) = none := by
  unfold unmapPage
  split
  · assumption
  · exact AList.lookup_erase _ _

theorem unmapLoop_induct {P : Vm → Prop} (hbody : ∀ v p, P v → P (unmapPage v p))
    (stop : Nat) : ∀ (fuel p : Nat) (v : Vm), P v → P (unmapLoop stop fuel p v)
  | 0, _, _, h => h
  | fuel + 1, p, v, h => by
    unfold unmapLoop
    split
    · exact unmapLoop_induct hbody stop fuel _ _ (hbody v p h)
    · exact h

theorem ptUnmapAlways_frame {P : Vm → Prop} (v : Vm) (start pages : Nat) (h0 : P v)
    (hsame : ∀ w w' : Vm, P w → SameHost w.host w'.host → w'.mem.pt = w.mem.pt → P w')
    (hbody : ∀ w p, P w → P (unmapPage w p)) : P (ptUnmapAlways v start pages) := by
  unfold ptUnmapAlways
  set w : Vm := { v with mem := v.mem.raiseHint start pages }
  have h1 : P w := hsame v w h0 (SameHost.refl _) (raiseHint_pt v.mem start pages)
  obtain ⟨hh, hpt, -⟩ := memRemoveReservations_spec w start pages
  have h2 := hsame _ _ h1 hh hpt
  have h3 := unmapLoop_induct hbody ((start + pages) % wordMod)
    ((start + pages) % wordMod - start) start _ h2
  exact hsame _ _ h3 (SameHost.refl _) rfl

theorem shrinks_ptUnmapAlways (v : Vm) (start pages : Nat) :
    Shrinks v (ptUnmapAlways v start pages) :=
  ptUnmapAlways_frame v start pages (Shrinks.refl v)
    (fun _ _ h hh hpt => h.trans (Shrinks.of_sameHost hh hpt))
    (fun w p h => h.trans (shrinks_unmapPage w p))

theorem balanced_ptUnmapAlways (v : Vm) (start pages : Nat) :
    Balanced v (ptUnmapAlways v start pages) :=
  ptUnmapAlways_frame v start pages rfl
    (fun _ _ h hh hpt => h.trans (Balanced.of_sameHost hh hpt))
    (fun w p h => h.trans (balanced_unmapPage w p))

theorem ptUnmapAlways_changes (v : Vm) (start pages : Nat) :
    (ptUnmapAlways v start pages).mem.changes = v.mem.changes + 1 := by
  unfold ptUnmapAlways
  set w : Vm := { v with mem := v.mem.raiseHint start pages }
  have hwc : w.mem.changes = v.mem.changes := raiseHint_changes v.mem start pages
  obtain ⟨-, -, hc⟩ := memRemoveReservations_spec w start pages
  have h3 := unmapLoop_induct (P := fun w => w.mem.changes = v.mem.changes)
    (fun w p h => by rw [unmapPage_changes]; exact h)
    ((start + pages) % wordMod) ((start + pages) % wordMod - start) start _ (hc.trans hwc)
  rw [changed_changes, h3]

theorem shrinks_ptUnmap (v : Vm) (start pages : Nat) : Shrinks v (ptUnmap v start pages).2 := by
  unfold ptUnmap
  split
  · exact shrinks_ptUnmapAlways v start pages
  · exact Shrinks.refl v

theorem balanced_ptUnmap (v : Vm) (start pages : Nat) : Balanced v (ptUnmap v start pages).2 := by
  unfold ptUnmap
  split
  · exact balanced_ptUnmapAlways v start pages
  · rfl

theorem coherent_ptUnmapAlways (v : Vm) (start pages : Nat) :
    Coherent v.mem (ptUnmapAlways v start pages).mem :=
  Coherent.of_lt (by rw [ptUnmapAlways_changes]; exact Nat.lt_succ_self _)

theorem coherent_ptUnmap (v : Vm) (start pages : Nat) :
    Coherent v.mem (ptUnmap v start pages).2.mem := by
  unfold ptUnmap
  split
  · exact coherent_ptUnmapAlways v start pages
  · exact Coherent.refl v.mem

/-! ### Every mapped page of the range is visited -/

theorem lt_memNextPage (m : Mem) (p : Nat) : p < memNextPage m p := by
  unfold memNextPage
  split
  · exact Nat.lt_succ_self p
  · rename_i hlt
    cases hmin : ((m.pt.keys.map Fin.val).filter fun q => p < q).min? with
    | none => simp only [Option.getD_none]; omega
    | some a =>
      have hmem := List.min?_mem hmin
      simpa using (List.mem_filter.mp hmem).2

theorem memNextPage_skips (m : Mem) (p : Nat) (s : Slot) (hlo : p < s.val)
    (hhi : s.val < memNextPage m p) : m.pt.lookup s = none := by
  by_contra hne
  have hin : s ∈ m.pt.keys := by
    rw [← AList.mem_keys]
    exact AList.lookup_isSome.mp (Option.isSome_iff_ne_none.mpr hne)
  have hfil : s.val ∈ (m.pt.keys.map Fin.val).filter fun q => p < q :=
    List.mem_filter.mpr ⟨List.mem_map_of_mem hin, by simpa using hlo⟩
  have hs := s.isLt
  unfold memNextPage at hhi
  split at hhi
  · omega
  cases hmin : ((m.pt.keys.map Fin.val).filter fun q => p < q).min? with
  | none =>
    rw [List.min?_eq_none_iff] at hmin
    rw [hmin] at hfil
    cases hfil
  | some a =>
    rw [hmin, Option.getD_some] at hhi
    have hle := (List.min?_eq_some_iff.mp hmin).2 s.val hfil
    omega

theorem slot_of_lt (h : p < memPages) : (slot p).val = p :=
  Nat.mod_eq_of_lt h

theorem unmapLoop_complete (start stop : Nat) (hstop : stop ≤ memPages) :
    ∀ (fuel p : Nat) (v : Vm), stop - p ≤ fuel →
      (∀ s : Slot, start ≤ s.val → s.val < p → v.mem.pt.lookup s = none) →
      ∀ s : Slot, start ≤ s.val → s.val < stop → (unmapLoop stop fuel p v).mem.pt.lookup s = none
  | 0, p, v, hfuel, hdone, s, hlo, hhi => hdone s hlo (by omega)
  | fuel + 1, p, v, hfuel, hdone, s, hlo, hhi => by
    unfold unmapLoop
    split
    · rename_i hp
      have hgt := lt_memNextPage (unmapPage v p).mem p
      refine unmapLoop_complete start stop hstop fuel _ _ (by omega) ?_ s hlo hhi
      intro t htlo hthi
      rcases Nat.lt_trichotomy t.val p with hlt | heq | hgt'
      · -- gone before, and unmapping adds nothing
        cases hl : (unmapPage v p).mem.pt.lookup t with
        | none => rfl
        | some e =>
          have := (shrinks_unmapPage v p).entry t e hl
          rw [hdone t htlo hlt] at this
          cases this
      · have ht : t = slot p := Fin.ext (by rw [heq, slot_of_lt (by omega)])
        rw [ht]
        exact unmapPage_unmapped v p
      · exact memNextPage_skips _ p t hgt' hthi
    · exact hdone s hlo (by omega)

theorem memDestroy_unmapped (v : Vm) (s : Slot) : (memDestroy v).mem.pt.lookup s = none := by
  unfold memDestroy ptUnmapAlways
  exact unmapLoop_complete 0 _ (by decide) _ 0 _ (le_refl _)
    (fun t _ h => absurd h (Nat.not_lt_zero _)) s (Nat.zero_le _)
    (by rw [show (0 + memPages) % wordMod = memPages from by decide]; exact s.isLt)

theorem chargedPages_memDestroy (v : Vm) : chargedPages (memDestroy v).mem = 0 :=
  Assoc.sumBy_eq_zero fun k e h => by
    rw [memDestroy_unmapped] at h
    cases h

theorem balanced_memDestroy (v : Vm) : Balanced v (memDestroy v) :=
  (balanced_ptUnmapAlways v 0 memPages).trans (Balanced.of_eq rfl rfl)

/-! ## Mapping -/

theorem ptUnmap_changes_le (v : Vm) (start pages : Nat) :
    v.mem.changes ≤ (ptUnmap v start pages).2.mem.changes :=
  (coherent_ptUnmap v start pages).1

theorem mem_pageRange_le (h : p ∈ pageRange start pages) : start ≤ p := by
  unfold pageRange at h
  simp only [List.mem_range'_1] at h
  exact h.1

structure MapInv (v₀ : Vm) (d start offset : Nat) (contents : Nat → UInt8) (v : Vm) :
    Prop where
  next : v.host.nextData = d + 1
  bytes : v.host.bytes = Function.update v₀.host.bytes d contents
  entry : ∀ s e, v.mem.pt.lookup s = some e → v₀.mem.pt.lookup s = some e ∨
    (e.data = d ∧ ∃ p, start ≤ p ∧ slot p = s ∧ e.offset = (p - start) * pageSize + offset)

theorem MapInv.shrinks (h : MapInv v₀ d start offset contents v) (hs : Shrinks v v') :
    MapInv v₀ d start offset contents v' :=
  ⟨hs.next_eq.trans h.next, hs.bytes_eq.trans h.bytes, fun s e he => h.entry s e (hs.entry s e he)⟩

theorem shrinks_clearPage (v : Vm) (p : Nat) : Shrinks v (clearPage v p) := by
  unfold clearPage
  split
  · exact shrinks_ptUnmap v p 1
  · exact Shrinks.refl v

theorem balanced_clearPage (v : Vm) (p : Nat) : Balanced v (clearPage v p) := by
  unfold clearPage
  split
  · exact balanced_ptUnmap v p 1
  · rfl

theorem clearPage_changes_le (v : Vm) (p : Nat) : v.mem.changes ≤ (clearPage v p).mem.changes := by
  unfold clearPage
  split
  · exact ptUnmap_changes_le v p 1
  · exact le_refl _

theorem MapInv.mapPage (flags : Flags) (hp : start ≤ p) (h : MapInv v₀ d start offset contents v) :
    MapInv v₀ d start offset contents (mapPage d start offset flags v p) := by
  have hc := h.shrinks (shrinks_clearPage v p)
  refine ⟨by simpa [Kernel.mapPage] using hc.next, by simpa [Kernel.mapPage] using hc.bytes, ?_⟩
  intro s e he
  simp only [Kernel.mapPage, setEntry_pt] at he
  by_cases hs : s = slot p
  · subst hs
    rw [AList.lookup_insert] at he
    cases he
    exact Or.inr ⟨rfl, p, hp, rfl, rfl⟩
  · rw [AList.lookup_insert_ne hs] at he
    exact hc.entry s e he

theorem MapInv.mapPages (flags : Flags) (ps : List Nat) (hps : ∀ p ∈ ps, start ≤ p)
    (h : MapInv v₀ d start offset contents v) :
    MapInv v₀ d start offset contents (mapPages d start offset flags ps v) := by
  induction ps generalizing v with
  | nil => exact h
  | cons p rest ih =>
    exact ih (fun q hq => hps q (List.mem_cons_of_mem p hq))
      (h.mapPage flags (hps p List.mem_cons_self))

theorem mapPages_changes_le (d start offset : Nat) (flags : Flags) (ps : List Nat) (v : Vm) :
    v.mem.changes ≤ (mapPages d start offset flags ps v).mem.changes := by
  induction ps generalizing v with
  | nil => exact le_refl _
  | cons p rest ih =>
    have hone : v.mem.changes ≤ (mapPage d start offset flags v p).mem.changes :=
      clearPage_changes_le v p
    exact hone.trans (ih _)

theorem MapInv.extends (start offset : Nat) (contents : Nat → UInt8)
    (h : MapInv v₀ v₀.host.nextData start offset contents v) (hl : Live v₀) : Extends v₀ v where
  next_le := by rw [h.next]; omega
  bytes_old := fun d hd => by rw [h.bytes, Function.update_of_ne (by omega)]
  entry := by
    intro s e he
    rcases h.entry s e he with hold | ⟨hd, -⟩
    · exact Or.inl ⟨e, hold, Kept.refl e⟩
    · exact Or.inr (by rw [h.next, hd]; omega)
  fresh_sep := by
    intro s t e f he hf hge hov
    rcases h.entry s e he with hold | ⟨hd, p, hp, hsp, hoff⟩
    · exact absurd (hl s e hold) (by omega)
    rcases h.entry t f hf with hold | ⟨-, q, hq, htq, hoff'⟩
    · have := hl t f hold
      exact absurd hov.1 (by omega)
    obtain ⟨-, h1, h2⟩ := hov
    rw [hoff, hoff'] at h1 h2
    have hpq : p = q := by
      simp only [pageSize] at h1 h2
      omega
    rw [← hsp, ← htq, hpq]

theorem extends_ptMapAccounted (hl : Live v) (start pages : Nat)
    (memory : Option (Nat → UInt8)) (offset : Nat) (flags : Flags) (precharged : Bool) :
    Extends v (ptMapAccounted v start pages memory offset flags precharged).2 := by
  unfold ptMapAccounted
  split
  · exact Extends.refl hl
  · rename_i contents
    dsimp only
    split
    · set size := (pages * pageSize + offset) % wordMod
      set base : Vm := ⟨v.host.attempt.2.newData size contents, v.mem⟩ with hbase
      have hinv : MapInv v v.host.nextData start offset contents base :=
        ⟨by simp [hbase, Host.newData], by simp [hbase, Host.newData], fun s e h => Or.inl h⟩
      have hmap := hinv.mapPages flags (pageRange start pages)
        (fun p hp => mem_pageRange_le hp)
      rw [attempt_nextData]
      refine MapInv.extends start offset contents ⟨?_, ?_, hmap.entry⟩ hl
      · dsimp only
        split
        · exact hmap.next
        · exact hmap.next
      dsimp only
      split
      · exact hmap.bytes
      · exact hmap.bytes
    have hs : Shrinks v ⟨v.host.attempt.2, v.mem⟩ :=
      Shrinks.of_sameHost (sameHost_attempt v.host) rfl
    exact hs.extends hl

theorem coherent_ptMapAccounted (v : Vm) (start pages : Nat)
    (memory : Option (Nat → UInt8)) (offset : Nat) (flags : Flags) (precharged : Bool) :
    Coherent v.mem (ptMapAccounted v start pages memory offset flags precharged).2.mem := by
  unfold ptMapAccounted
  split
  · exact Coherent.refl _
  dsimp only
  split
  · rename_i contents _
    have hle := mapPages_changes_le v.host.attempt.2.nextData start offset flags
      (pageRange start pages)
      ⟨v.host.attempt.2.newData ((pages * pageSize + offset) % wordMod) contents, v.mem⟩
    exact Coherent.of_lt (Nat.lt_succ_of_le hle)
  · exact Coherent.refl _

/-! ### Accounting of a mapping

Page numbers and page counts are addresses and lengths shifted right by `PAGE_BITS`, or
the sum of two such; `pageSpanBound` is above all of them. -/

abbrev pageSpanBound : Nat := 0x20000000000000

theorem eNOMEM_neg : eNOMEM < 0 := by decide

theorem pageRange_length (hs : start ≤ pageSpanBound)
    (hp : pages ≤ pageSpanBound) : (pageRange start pages).length = pages := by
  simp only [pageRange, List.length_range', wordMod, pageSpanBound] at *
  omega

theorem lt_of_mem_pageRange (h : p ∈ pageRange start pages) : p + 1 < wordMod := by
  have hstop : (start + pages) % wordMod < wordMod := Nat.mod_lt _ (by decide)
  unfold pageRange at h
  simp only [List.mem_range'_1] at h
  omega

theorem toLong_of_le {n : Nat} (h : n ≤ pageSpanBound) : toLong n = n := by
  simp only [pageSpanBound] at h
  unfold toLong
  rw [BitVec.toInt_eq_toNat_of_lt]
  · rw [BitVec.toNat_ofNat, Nat.mod_eq_of_lt (by omega)]
  · rw [BitVec.toNat_ofNat, Nat.mod_eq_of_lt (by omega)]
    omega

theorem unmapLoop_one {stop : Nat} (h : p < stop) (v : Vm) :
    unmapLoop stop 1 p v = unmapPage v p := by
  simp [unmapLoop, h]

theorem ptUnmapAlways_one_unmapped (v : Vm) (hp : p + 1 < wordMod) :
    (ptUnmapAlways v p 1).mem.pt.lookup (slot p) = none := by
  have hstop : (p + 1) % wordMod = p + 1 := Nat.mod_eq_of_lt hp
  have hfuel : p + 1 - p = 1 := by omega
  simp only [ptUnmapAlways, hstop, hfuel, unmapLoop_one (Nat.lt_succ_self p), changed_pt]
  exact unmapPage_unmapped _ p

theorem pageRange_one (hp : p + 1 < wordMod) : pageRange p 1 = [p] := by
  have hstop : (p + 1) % wordMod = p + 1 := Nat.mod_eq_of_lt hp
  have hlen : p + 1 - p = 1 := by omega
  unfold pageRange
  rw [hstop, hlen]
  simp

theorem clearPage_unmapped (v : Vm) (hp : p + 1 < wordMod) :
    (clearPage v p).mem.pt.lookup (slot p) = none := by
  unfold clearPage
  split
  · rename_i hsome
    have hall : ((pageRange p 1).all fun q => (memPt v.mem q).isSome) = true := by
      simpa [pageRange_one hp] using hsome
    unfold ptUnmap
    rw [if_pos hall]
    exact ptUnmapAlways_one_unmapped v hp
  · rename_i hnone
    simpa [memPt] using hnone

theorem balance_setEntry (h : Host) (m : Mem) (p : Nat) (e : PtEntry) : balance ⟨h, m.setEntry p e⟩
      = balance ⟨h, m⟩ + Assoc.weightAt charge m.pt (slot p) - charge e := by
  simp only [balance, chargedPages, setEntry_pt, Assoc.sumBy_insert]
  omega

theorem balance_mapPage (d start offset : Nat) (flags : Flags) (v : Vm) (hp : p + 1 < wordMod) :
    balance (mapPage d start offset flags v p)
      = balance v - boolToInt (Flags.charged flags) := by
  unfold mapPage
  dsimp only
  rw [balance_setEntry, Assoc.weightAt_of_none (clearPage_unmapped v hp)]
  have hb := balanced_clearPage v p
  simp only [Balanced, balance, retainData_anonPageCount, charge] at hb ⊢
  omega

theorem balance_mapPages (d start offset : Nat) (flags : Flags) (ps : List Nat)
    (hps : ∀ p ∈ ps, p + 1 < wordMod) (v : Vm) : balance (mapPages d start offset flags ps v)
      = balance v - ps.length * boolToInt (Flags.charged flags) := by
  induction ps generalizing v with
  | nil => simp [mapPages]
  | cons p rest ih =>
    have hrest := ih (fun q hq => hps q (List.mem_cons_of_mem p hq))
      (mapPage d start offset flags v p)
    rw [balance_mapPage d start offset flags v (hps p List.mem_cons_self)] at hrest
    rw [mapPages, List.foldl_cons, ← mapPages, hrest, List.length_cons]
    push_cast
    rw [Int.add_mul, Int.one_mul]
    omega

/-- **Accounting of `pt_map_accounted`.** On success the table gains `pages` entries,
charged by the call itself unless the caller had reserved them; on failure nothing moves. -/
theorem balance_ptMapAccounted (v : Vm) (hs : start ≤ pageSpanBound)
    (hp : pages ≤ pageSpanBound) (memory : Option (Nat → UInt8)) (offset : Nat)
    (flags : Flags) (precharged : Bool) :
    let r := ptMapAccounted v start pages memory offset flags precharged
    (r.1 = 0 ∧ balance r.2 =
        balance v - boolToInt precharged * (pages * boolToInt (Flags.charged flags))) ∨
      (r.1 < 0 ∧ balance r.2 = balance v) := by
  unfold ptMapAccounted
  dsimp only
  split
  · exact Or.inr ⟨eNOMEM_neg, rfl⟩
  · rename_i contents
    split
    · left
      refine ⟨rfl, ?_⟩
      set base : Vm :=
        ⟨v.host.attempt.2.newData ((pages * pageSize + offset) % wordMod) contents, v.mem⟩
      have hbase : balance base = balance v := by
        simp [balance, base, Host.newData]
      have hmap := balance_mapPages v.host.attempt.2.nextData start offset flags
        (pageRange start pages) (fun p hp => lt_of_mem_pageRange hp) base
      rw [hbase, pageRange_length hs hp] at hmap
      simp only [balance, chargedPages, changed_pt] at hmap ⊢
      cases precharged with
      | true => simpa [boolToInt] using hmap
      | false =>
        by_cases hc : Flags.charged flags = true
        · simp only [hc, boolToInt, toLong_of_le hp, Bool.not_false, Bool.and_self, if_true,
            addAnon_anonPageCount] at hmap ⊢
          simp only [Bool.false_eq_true, if_false]
          omega
        · simp [hc, boolToInt] at hmap ⊢
          omega
    · right
      exact ⟨eNOMEM_neg, by simp [balance]⟩

/-! ## `pt_map_nothing`, `pt_map`, `pt_map_lazy` -/

theorem shrinks_host {h : Host} (hn : h.nextData = v.host.nextData)
    (hb : h.bytes = v.host.bytes) : Shrinks v ⟨h, v.mem⟩ :=
  ⟨hn, hb, fun _ _ he => he⟩

theorem shrinks_addAnon (v : Vm) (k : Int) : Shrinks v ⟨v.host.addAnon k, v.mem⟩ :=
  shrinks_host rfl rfl

theorem reserveIf_some {h h' : Host} {c : Bool} {k : Int}
    (hr : reserveIf h c k = some h') : h' = h.addAnon (boolToInt c * k) := by
  unfold reserveIf at hr
  cases c with
  | false => simpa [boolToInt, Host.addAnon] using hr.symm
  | true => simpa [boolToInt] using (anonPagesReserve_some (by simpa using hr)).1

theorem extends_mapRegion (hl : Live v) (start pages : Nat)
    (contents : Nat → UInt8) (flags : Flags) (precharged : Bool) :
    Extends v (mapRegion v start pages contents flags precharged).2 := by
  have h1 : Extends v ⟨v.host.attempt.2, v.mem⟩ :=
    (shrinks_host (attempt_nextData _) (attempt_bytes _)).extends hl
  unfold mapRegion
  dsimp only
  split
  · exact h1.trans (extends_ptMapAccounted (h1.live hl) _ _ _ _ _ _)
  · exact h1

theorem coherent_mapRegion (v : Vm) (start pages : Nat) (contents : Nat → UInt8)
    (flags : Flags) (precharged : Bool) :
    Coherent v.mem (mapRegion v start pages contents flags precharged).2.mem := by
  unfold mapRegion
  dsimp only
  split
  · exact coherent_ptMapAccounted ⟨v.host.attempt.2, v.mem⟩ _ _ _ _ _ _
  · exact Coherent.refl _

theorem mapRegion_failed (v : Vm) (start pages : Nat) (contents : Nat → UInt8)
    (flags : Flags) (precharged : Bool)
    (h : (mapRegion v start pages contents flags precharged).1 < 0) :
    Balanced v (mapRegion v start pages contents flags precharged).2 := by
  unfold mapRegion ptMapAccounted at h ⊢
  dsimp only at h ⊢
  split
  · rename_i hok
    rw [if_pos hok] at h
    split
    · rename_i hok'
      rw [if_pos hok'] at h
      exact absurd h (by simp)
    · exact Balanced.of_eq rfl (by simp)
  · exact Balanced.of_eq rfl (by simp)

theorem balance_mapRegion (v : Vm) (hs : start ≤ pageSpanBound)
    (hp : pages ≤ pageSpanBound) (contents : Nat → UInt8) (flags : Flags) (precharged : Bool) :
    let r := mapRegion v start pages contents flags precharged
    (r.1 = 0 ∧ balance r.2 =
        balance v - boolToInt precharged * (pages * boolToInt (Flags.charged flags))) ∨
      (r.1 < 0 ∧ balance r.2 = balance v) := by
  have h0 : balance ⟨v.host.attempt.2, v.mem⟩ = balance v := by simp [balance]
  unfold mapRegion
  dsimp only
  split
  · rw [← h0]
    exact balance_ptMapAccounted _ hs hp _ _ _ _
  · exact Or.inr ⟨eNOMEM_neg, h0⟩

theorem extends_refundIf {r : Int × Vm} (h : Extends v r.2) (hl : Live v)
    (c : Bool) (k : Int) : Extends v (refundIf r c k).2 := by
  unfold refundIf
  split
  · exact h.trans ((shrinks_addAnon r.2 (-k)).extends (h.live hl))
  · exact h

theorem refundIf_mem (r : Int × Vm) (c : Bool) (k : Int) :
    (refundIf r c k).2.mem = r.2.mem ∧ (refundIf r c k).1 = r.1 := by
  unfold refundIf
  split <;> exact ⟨rfl, rfl⟩

theorem balance_refundIf (r : Int × Vm) (c : Bool) (k : Int) : balance (refundIf r c k).2 =
      balance r.2 - (if r.1 < 0 then boolToInt c * k else 0) := by
  unfold refundIf
  cases c with
  | false => simp [boolToInt]
  | true =>
    by_cases hneg : r.1 < 0
    · simp [hneg, balance, boolToInt]
      omega
    · simp [hneg]

theorem extends_ptMapNothing (hl : Live v) (start pages : Nat) (flags : Flags) :
    Extends v (ptMapNothing v start pages flags).2 := by
  unfold ptMapNothing
  split
  · exact Extends.refl hl
  dsimp only
  split
  · exact Extends.refl hl
  · rename_i h hr
    obtain rfl := reserveIf_some hr
    have h1 := (shrinks_addAnon v (boolToInt (Flags.charged (flags ||| Flags.anonymous))
      * toLong pages)).extends hl
    exact extends_refundIf (h1.trans (extends_mapRegion (h1.live hl) _ _ _ _ _)) hl _ _

theorem coherent_ptMapNothing (v : Vm) (start pages : Nat) (flags : Flags) :
    Coherent v.mem (ptMapNothing v start pages flags).2.mem := by
  unfold ptMapNothing
  split
  · exact Coherent.refl _
  dsimp only
  split
  · exact Coherent.refl _
  · rename_i h _
    rw [(refundIf_mem _ _ _).1]
    exact coherent_mapRegion ⟨h, v.mem⟩ _ _ _ _ _

/-- **`pt_map_nothing` is balanced**: what was reserved is either entered in the table or
refunded. A failing call is balanced whatever the page count; a succeeding one needs the
count to be a real one. -/
theorem balanced_ptMapNothing (v : Vm) (start pages : Nat) (flags : Flags)
    (hb : (start ≤ pageSpanBound ∧ pages ≤ pageSpanBound) ∨
      (ptMapNothing v start pages flags).1 < 0) :
    Balanced v (ptMapNothing v start pages flags).2 := by
  unfold ptMapNothing at hb ⊢
  split at hb
  · rename_i hp
    rw [if_pos hp]
    rfl
  · rename_i hp
    rw [if_neg hp]
    dsimp only at hb ⊢
    split at hb
    · rfl
    · rename_i h hr
      obtain rfl := reserveIf_some hr
      set c := Flags.charged (flags ||| Flags.anonymous) with hc
      have h0 : balance ⟨v.host.addAnon (boolToInt c * toLong pages), v.mem⟩
          = balance v + boolToInt c * toLong pages := by
        simp only [balance, addAnon_anonPageCount]
        omega
      rw [(refundIf_mem _ _ _).2] at hb
      unfold Balanced
      rw [balance_refundIf]
      rcases hb with ⟨hs, hpg⟩ | hneg
      · rcases balance_mapRegion ⟨v.host.addAnon (boolToInt c * toLong pages), v.mem⟩ hs hpg
          zeroFill (flags ||| Flags.anonymous) true with ⟨hok, hbal⟩ | ⟨hfail, hbal⟩
        · have hnn : ¬ (mapRegion ⟨v.host.addAnon (boolToInt c * toLong pages), v.mem⟩ start
              pages zeroFill (flags ||| Flags.anonymous) true).1 < 0 := by omega
          rw [if_neg hnn, hbal, h0, toLong_of_le hpg, ← hc]
          simp only [boolToInt, if_true, Int.one_mul]
          rw [Int.mul_comm]
          omega
        · rw [if_pos hfail, hbal, h0]
          omega
      · rw [if_pos hneg, mapRegion_failed _ _ _ _ _ _ hneg, h0]
        omega

theorem sound_ptMapLazy (hl : Live v) (start pages : Nat) (flags : Flags) :
    Sound v (ptMapLazy v start pages flags).2 := by
  unfold ptMapLazy
  dsimp only
  split
  · exact Sound.of_sameHost hl (sameHost_attempt _) rfl (Nat.le_succ _)
  · exact Sound.of_sameHost hl (sameHost_attempt _) rfl (le_refl _)

theorem sound_ptUnmapAlways (hl : Live v) (start pages : Nat) :
    Sound v (ptUnmapAlways v start pages) :=
  ⟨(shrinks_ptUnmapAlways v start pages).extends hl, coherent_ptUnmapAlways v start pages,
    balanced_ptUnmapAlways v start pages⟩

theorem sound_ptUnmap (hl : Live v) (start pages : Nat) : Sound v (ptUnmap v start pages).2 :=
  ⟨(shrinks_ptUnmap v start pages).extends hl, coherent_ptUnmap v start pages,
    balanced_ptUnmap v start pages⟩

theorem sound_ptMapNothing (hl : Live v) (flags : Flags)
    (hs : start ≤ pageSpanBound) (hp : pages ≤ pageSpanBound) :
    Sound v (ptMapNothing v start pages flags).2 :=
  ⟨extends_ptMapNothing hl start pages flags, coherent_ptMapNothing v start pages flags,
    balanced_ptMapNothing v start pages flags (Or.inl ⟨hs, hp⟩)⟩

theorem sound_ptMap (hl : Live v) (memory : Option (Nat → UInt8)) (offset : Nat) (flags : Flags)
    (hs : start ≤ pageSpanBound) (hp : pages ≤ pageSpanBound) :
    Sound v (ptMap v start pages memory offset flags).2 := by
  refine ⟨extends_ptMapAccounted hl _ _ _ _ _ _, coherent_ptMapAccounted _ _ _ _ _ _ _, ?_⟩
  rcases balance_ptMapAccounted v hs hp memory offset flags false with ⟨-, h⟩ | ⟨-, h⟩
  · simpa [Balanced, ptMap, boolToInt] using h
  · exact h

end IosLinuxkit.Kernel
