import IosLinuxkit.Kernel.FindHoleMap

/-!
# What `mremap` does to an address space
-/

namespace IosLinuxkit.Kernel

variable {v v' w : Vm} {start dest n p q d i j old new : Nat} {flags f : Flags}
  {e : PtEntry} {h : Host}

/-! ## Mapping where nothing is mapped -/

structure Mapped (v v' : Vm) (start n : Nat) (flags : Flags) : Prop where
  entry : ∀ i < n, memPt v'.mem (start + i) = some ⟨v.host.nextData, i * pageSize, flags⟩
  other : ∀ q, (∀ i < n, slot q ≠ slot (start + i)) → memPt v'.mem q = memPt v.mem q
  reservations : v'.mem.reservations = v.mem.reservations
  bytes : v'.host.bytes = Function.update v.host.bytes v.host.nextData zeroFill
  script : v'.host.script = v.host.script.drop 2

theorem clearPage_unmapped_eq (hnone : memPt v.mem p = none) : clearPage v p = v := by
  unfold clearPage
  rw [hnone]
  rfl

theorem mapPages_entry (d start offset : Nat) (flags : Flags) (ps : List Nat) :
    ∀ v : Vm, ps.Pairwise (fun p q => slot q ≠ slot p) → (∀ q ∈ ps, memPt v.mem q = none) →
      (∀ q ∈ ps, memPt (mapPages d start offset flags ps v).mem q =
        some ⟨d, (q - start) * pageSize + offset, flags⟩) ∧
      (mapPages d start offset flags ps v).host.bytes = v.host.bytes ∧
      (mapPages d start offset flags ps v).host.script = v.host.script := by
  induction ps with
  | nil => exact fun v _ _ => ⟨fun q hq => absurd hq List.not_mem_nil, rfl, rfl⟩
  | cons p ps ih =>
    intro v hpair hnone
    obtain ⟨hhead, htail⟩ := List.pairwise_cons.mp hpair
    have hround : mapPages d start offset flags (p :: ps) v =
        mapPages d start offset flags ps ⟨v.host.retainData d,
          v.mem.setEntry p ⟨d, (p - start) * pageSize + offset, flags⟩⟩ := by
      show mapPages d start offset flags ps (mapPage d start offset flags v p) = _
      unfold mapPage
      rw [clearPage_unmapped_eq (hnone p List.mem_cons_self)]
    set u : Vm := ⟨v.host.retainData d, v.mem.setEntry p ⟨d, (p - start) * pageSize + offset, flags⟩⟩ with hu
    have hrest : ∀ q ∈ ps, memPt u.mem q = none := by
      intro q hq
      rw [hu, memPt_setEntry, if_neg (hhead q hq)]
      exact hnone q (List.mem_cons_of_mem p hq)
    obtain ⟨hentry, hbytes, hscript⟩ := ih u htail hrest
    rw [hround]
    refine ⟨fun q hq => ?_, ?_, ?_⟩
    · rcases List.mem_cons.mp hq with rfl | hq
      · -- the rest of the loop leaves the page alone
        rw [(mapPages_hole d start offset flags ps u htail hrest).2 q fun r hr => (hhead r hr).symm, hu,
          memPt_setEntry, if_pos rfl]
      · exact hentry q hq
    · rw [hbytes, hu, retainData_bytes]
    rw [hscript, hu]
    unfold Host.retainData
    split <;> rfl

/-- `anon_pages_reserve` for the pages, if they are charged. -/
def affords (h : Host) (flags : Flags) (n : Nat) : Bool :=
  (reserveIf h (Flags.charged (flags ||| Flags.anonymous)) (toLong n)).isSome

theorem grants_two (h : Host) : h.grants 2 ↔ h.attempt.1 = true ∧ h.attempt.2.attempt.1 = true := by
  unfold Host.grants Host.attempt
  cases hs : h.script with
  | nil => simp [hs]
  | cons b rest =>
    cases rest with
    | nil => simp
    | cons c rest => simp

theorem attempt_script (h : Host) : h.attempt.2.script = h.script.drop 1 := by
  unfold Host.attempt
  cases hs : h.script with
  | nil => exact hs
  | cons b rest => rfl

theorem refundIf_fst (r : Int × Vm) (c : Bool) (k : Int) : (refundIf r c k).1 = r.1 := by
  unfold refundIf
  split <;> rfl

theorem slot_pairwise (hn : n ≤ memPages) (start : Nat) :
    (List.range' start n).Pairwise (fun p q => slot q ≠ slot p) := by
  refine (List.pairwise_lt_range' (s := start) (n := n)).imp_of_mem fun {a b} ha hb hlt hs => ?_
  rw [List.mem_range'_1] at ha hb
  rw [slot_eq_iff_mod] at hs
  simp only [memPages] at *
  omega

theorem ptMapNothing_hole (hn : 0 < n) (hle : n ≤ memPages) (hlt : start + n < wordMod)
    (hnone : ∀ i < n, memPt v.mem (start + i) = none) (flags : Flags) :
    (affords v.host flags n = true ∧ v.host.grants 2 ∧ (ptMapNothing v start n flags).1 = 0 ∧
      Mapped v (ptMapNothing v start n flags).2 start n (flags ||| Flags.anonymous)) ∨
    (¬ (affords v.host flags n = true ∧ v.host.grants 2) ∧ (ptMapNothing v start n flags).1 = eNOMEM) := by
  unfold affords ptMapNothing
  rw [if_neg (Nat.ne_of_gt hn)]
  dsimp only
  cases hr : reserveIf v.host (Flags.charged (flags ||| Flags.anonymous)) (toLong n) with
  | none => exact .inr ⟨fun hc => absurd hc.1 (by simp), rfl⟩
  | some h =>
    obtain rfl := reserveIf_some hr
    set k := boolToInt (Flags.charged (flags ||| Flags.anonymous)) * toLong n
    have hgrants : v.host.grants 2 ↔
        (v.host.addAnon k).attempt.1 = true ∧ (v.host.addAnon k).attempt.2.attempt.1 = true :=
      grants_two (v.host.addAnon k)
    dsimp only
    rw [hgrants]
    cases h1 : (v.host.addAnon k).attempt.1 with
    | false =>
      refine .inr ⟨fun hc => absurd hc.2.1 (by simp), ?_⟩
      rw [refundIf_fst]
      unfold mapRegion
      dsimp only
      rw [h1]
      rfl
    | true =>
      cases h2 : (v.host.addAnon k).attempt.2.attempt.1 with
      | false =>
        refine .inr ⟨fun hc => absurd hc.2.2 (by simp), ?_⟩
        rw [refundIf_fst]
        unfold mapRegion ptMapAccounted
        dsimp only
        rw [h1, if_pos rfl, h2]
        rfl
      | true =>
        refine .inl ⟨rfl, ⟨rfl, rfl⟩, ?_⟩
        have hrange : pageRange start n = List.range' start n := pageRange_eq hlt
        have hsame := (sameHost_attempt (v.host.addAnon k)).trans (sameHost_attempt _)
        set g := (v.host.addAnon k).attempt.2.attempt.2 with hg
        have hnext : g.nextData = v.host.nextData := hsame.nextData
        have hbytes : g.bytes = v.host.bytes := hsame.bytes
        have hscript : g.script = v.host.script.drop 2 := by
          rw [hg, attempt_script, attempt_script, List.drop_drop]
          rfl
        set u : Vm := ⟨g.newData ((n * pageSize + 0) % wordMod) zeroFill, v.mem⟩
        have hfree : ∀ q ∈ List.range' start n, memPt u.mem q = none := by
          intro q hq
          rw [List.mem_range'_1] at hq
          have hnone' := hnone (q - start) (by omega)
          rwa [Nat.add_sub_cancel' hq.1] at hnone'
        obtain ⟨hres, hframe⟩ := mapPages_hole g.nextData start 0 (flags ||| Flags.anonymous) _ u
          (slot_pairwise hle start) hfree
        obtain ⟨hentry, hb, hs⟩ := mapPages_entry g.nextData start 0 (flags ||| Flags.anonymous) _ u
          (slot_pairwise hle start) hfree
        have hall : mapRegion { v with host := v.host.addAnon k } start n zeroFill (flags ||| Flags.anonymous) true =
            (0, { host := (mapPages g.nextData start 0 (flags ||| Flags.anonymous) (List.range' start n) u).host,
                  mem := (mapPages g.nextData start 0 (flags ||| Flags.anonymous)
                    (List.range' start n) u).mem.changed }) := by
          unfold mapRegion ptMapAccounted
          dsimp only
          rw [h1, if_pos rfl, h2, if_pos rfl, hrange]
          rfl
        rw [hall]
        unfold refundIf
        rw [if_neg (fun hc => absurd hc.1 (Int.lt_irrefl 0))]
        refine ⟨rfl, fun i hi => ?_, fun q hq => ?_, hres, ?_, hs.trans hscript⟩
        · show memPt (mapPages _ start 0 _ _ u).mem (start + i) = _
          rw [hentry (start + i) (List.mem_range'_1.mpr ⟨by omega, by omega⟩), hnext, Nat.add_sub_cancel_left,
            Nat.add_zero]
        · refine hframe q fun r hr => ?_
          rw [List.mem_range'_1] at hr
          have hne := hq (r - start) (by omega)
          rwa [Nat.add_sub_cancel' hr.1] at hne
        show (mapPages _ start 0 _ _ u).host.bytes = _
        rw [hb]
        show Function.update g.bytes g.nextData zeroFill = _
        rw [hbytes, hnext]

/-! ## The copy loop -/

theorem copyPages_spec {m : Mem} (hdst : ∀ i < n, memPt m (dest + i) = some ⟨d, i * pageSize, f⟩)
    (hsrc : ∀ i < n, ∃ e, memPt m (start + i) = some e ∧ e.data ≠ d) (h : Host) :
    (∀ x o, x ≠ d → (copyPages m start dest (List.range n) h).bytes x o = h.bytes x o) ∧
    (∀ o, n * pageSize ≤ o → (copyPages m start dest (List.range n) h).bytes d o = h.bytes d o) ∧
    ∀ i < n, ∀ e, memPt m (start + i) = some e → ∀ j < pageSize,
      (copyPages m start dest (List.range n) h).bytes d (i * pageSize + j) = h.bytes e.data (e.offset + j) := by
  induction n with
  | zero => exact ⟨fun _ _ _ => rfl, fun _ _ => rfl, fun i hi => absurd hi (Nat.not_lt_zero i)⟩
  | succ n ih =>
    obtain ⟨hother, hbehind, hcopied⟩ := ih (fun i hi => hdst i (Nat.lt_succ_of_lt hi))
      fun i hi => hsrc i (Nat.lt_succ_of_lt hi)
    obtain ⟨e, he, hed⟩ := hsrc n (Nat.lt_succ_self n)
    have hround : ∀ x o, (copyPages m start dest (List.range (n + 1)) h).bytes x o =
        if x = d ∧ n * pageSize ≤ o ∧ o < n * pageSize + pageSize then h.bytes e.data (e.offset + (o - n * pageSize))
        else (copyPages m start dest (List.range n) h).bytes x o := by
      intro x o
      unfold copyPages
      rw [List.range_succ, List.foldl_append, List.foldl_cons, List.foldl_nil]
      unfold copyMoved
      rw [hdst n (Nat.lt_succ_self n), he]
      show (if _ then _ else _) = _
      split
      · exact hother _ _ hed
      · rfl
    refine ⟨fun x o hx => ?_, fun o ho => ?_, fun i hi e' he' j hj => ?_⟩
    · rw [hround, if_neg (fun hc => hx hc.1)]
      exact hother x o hx
    · rw [Nat.succ_mul] at ho
      rw [hround, if_neg (fun hc => absurd hc.2.2 (Nat.not_lt_of_le ho))]
      exact hbehind o (Nat.le_trans (Nat.le_add_right _ _) ho)
    rw [hround]
    by_cases hin : i = n
    · subst hin
      rw [he] at he'
      obtain rfl := Option.some.inj he'
      rw [if_pos ⟨rfl, Nat.le_add_right _ _, Nat.add_lt_add_left hj _⟩, Nat.add_sub_cancel_left]
    have hle : i * pageSize + pageSize ≤ n * pageSize := by
      rw [← Nat.succ_mul]
      exact Nat.mul_le_mul_right _ (by omega)
    rw [if_neg (fun hc => absurd hc.2.1 (Nat.not_le_of_lt (Nat.lt_of_lt_of_le (Nat.add_lt_add_left hj _) hle)))]
    exact hcopied i (by omega) e' he' j hj

theorem copyPages_script (m : Mem) (start dest : Nat) (is : List Nat) (h : Host) :
    (copyPages m start dest is h).script = h.script := by
  induction is generalizing h with
  | nil => rfl
  | cons i is ih =>
    have hround : (copyMoved m start dest h i).script = h.script := by
      unfold copyMoved
      split <;> rfl
    exact (ih _).trans hround

/-! ## What a call should have done -/

/-- What the guest reads: a page that is reserved and has no memory reads as zeroes. -/
def guestByte (v : Vm) (p j : Nat) : Option UInt8 :=
  match memPt v.mem p with
  | some e => some (v.host.bytes e.data (e.offset + j))
  | none => (reservedFlags v.mem p).map fun _ => 0

/-- `old` pages at `start` have become `new` pages at `dest`. -/
structure Remapped (v v' : Vm) (start dest old new : Nat) : Prop where
  kept : ∀ i < old, i < new → ∀ j < pageSize, guestByte v' (dest + i) j = guestByte v (start + i) j
  zeroed : ∀ i, old ≤ i → i < new → ∀ j < pageSize, guestByte v' (dest + i) j = some 0
  unmapped : ∀ p < memPages, start ≤ p → p < start + old → ¬ (dest ≤ p ∧ p < dest + new) →
    memPt v'.mem p = none ∧ reservedFlags v'.mem p = none
  others : ∀ p < memPages, ¬ (start ≤ p ∧ p < start + old) → ¬ (dest ≤ p ∧ p < dest + new) → PageKept v v' p

theorem guestByte_mapped (he : memPt v.mem p = some e) (j : Nat) :
    guestByte v p j = some (v.host.bytes e.data (e.offset + j)) := by
  unfold guestByte
  rw [he]

theorem guestByte_congr (hentry : memPt v'.mem p = memPt v.mem p)
    (hres : reservedFlags v'.mem p = reservedFlags v.mem p)
    (hbytes : ∀ e, memPt v.mem p = some e → v'.host.bytes e.data (e.offset + j) = v.host.bytes e.data (e.offset + j)) :
    guestByte v' p j = guestByte v p j := by
  unfold guestByte
  rw [hentry, hres]
  cases he : memPt v.mem p with
  | none => rfl
  | some e => exact congrArg some (hbytes e he)

theorem memPt_mod (m : Mem) (p : Nat) : memPt m (p % memPages) = memPt m p := by
  exact memPt_slot (slot_eq_iff_mod.mpr (Nat.mod_mod _ _))

theorem wrapped_below (hn : 0 < n) (hle : n ≤ memPages) (hout : memPages < start + n) :
    ¬ (start ≤ (start + n - 1) % memPages) := by
  simp only [memPages] at *
  omega

/-! ## Unmapping a range -/

section Unmap

variable (hg : GoodReservations v.mem.reservations) (hlt : start + n < wordMod)

include hlt in
theorem unmapped_in (hp : start ≤ p ∧ p < start + n) : memPt (ptUnmapAlways v start n).mem p = none := by
  rw [ptUnmapAlways_memPt v hlt, if_pos ⟨p, List.mem_range'_1.mpr hp, rfl⟩]

include hlt in
theorem unmapped_out (hp : ∀ q, start ≤ q → q < start + n → slot p ≠ slot q) :
    memPt (ptUnmapAlways v start n).mem p = memPt v.mem p := by
  rw [ptUnmapAlways_memPt v hlt, if_neg]
  rintro ⟨q, hq, hs⟩
  rw [List.mem_range'_1] at hq
  exact hp q hq.1 hq.2 hs

include hg in
theorem unreserved_out (hp : ¬ (start ≤ p ∧ p < start + n)) :
    reservedFlags (ptUnmapAlways v start n).mem p = reservedFlags v.mem p := by
  rw [ptUnmapAlways_reservedFlags]
  exact memRemoveReservations_other hg start n hp

include hg in
theorem unreserved_in_iff : (∀ p < memPages, start ≤ p → p < start + n →
    reservedFlags (ptUnmapAlways v start n).mem p = none) ↔ SplitFits v start n := by
  rw [← removesExactly_iff hg]
  have hgood := memRemoveReservations_good hg start n
  constructor
  · intro hall
    refine ⟨hgood, fun p => ?_⟩
    split
    case isTrue hp =>
      by_cases htop : p < memPages
      · rw [← ptUnmapAlways_reservedFlags]
        exact hall p htop hp.1 hp.2
      · by_contra hc
        rw [reservedFlags_eq] at hc
        exact htop (flagsAt_lt hgood hc)
    case isFalse hp => exact memRemoveReservations_other hg start n hp
  · intro hexact p _ hlo hhi
    rw [ptUnmapAlways_reservedFlags, hexact.2, if_pos ⟨hlo, hhi⟩]

end Unmap

theorem splitFits_congr (hres : v'.mem.reservations = v.mem.reservations)
    (hscript : v'.host.script = v.host.script) (start n : Nat) : SplitFits v' start n ↔ SplitFits v start n := by
  have hattempt : v'.host.attempt.1 = v.host.attempt.1 := by
    unfold Host.attempt
    rw [hscript]
    cases v.host.script <;> rfl
  unfold SplitFits
  rw [hres, hattempt]

theorem splitFits_granted (hs : v.host.script = []) (start n : Nat) : SplitFits v start n := by
  intro _ r _ _
  unfold Host.attempt
  rw [hs]

/-! ## Shrinking -/

section Shrink

variable (hg : GoodReservations v.mem.reservations) (hlt : start + old < wordMod) (hold : old ≤ memPages)
  (hnew : new < old) (htail : ∀ p, start + new ≤ p → p < start + old → (memPt v.mem p).isSome)

include hg hlt hnew in
theorem remapped_shrink (htop : start + old ≤ memPages) (hsplit : SplitFits v (start + new) (old - new)) :
    Remapped v (ptUnmapAlways v (start + new) (old - new)) start start old new := by
  have hend : start + new + (old - new) = start + old := by omega
  have hbytes := (shrinks_ptUnmapAlways v (start + new) (old - new)).bytes_eq
  have hres := (unreserved_in_iff hg).mpr hsplit
  rw [hend] at hres
  -- a page in front of the tail, or outside of the old range
  have hout : ∀ p < memPages, ¬ (start + new ≤ p ∧ p < start + old) →
      memPt (ptUnmapAlways v (start + new) (old - new)).mem p = memPt v.mem p ∧
      reservedFlags (ptUnmapAlways v (start + new) (old - new)).mem p = reservedFlags v.mem p := by
    intro p hp hno
    refine ⟨unmapped_out (by omega) fun q hlo hhi => ?_, unreserved_out hg (by omega)⟩
    exact slot_ne_of_ne (by omega) hp (by omega)
  refine ⟨fun i hi hin j _ => ?_, fun i hi hin => absurd hin (by omega), fun p hp hlo hhi hno => ?_,
    fun p hp hno _ => ?_⟩
  · obtain ⟨hentry, hflags⟩ := hout (start + i) (by omega) (by omega)
    exact guestByte_congr hentry hflags fun e _ => by rw [hbytes]
  · exact ⟨unmapped_in (by omega) (by omega), hres p hp (by omega) hhi⟩
  · obtain ⟨hentry, hflags⟩ := hout p hp (by omega)
    exact ⟨hentry, hflags, fun e _ i _ => by rw [hbytes]⟩

include hg hlt hold hnew htail in
theorem shrink_of_remapped {asked : Nat} (hasked : asked = new ∨ (new = 0 ∧ 0 < asked))
    (hs : v.host.script = []) (h : Remapped v (ptUnmapAlways v (start + new) (old - new)) start start old asked) :
    asked = new ∧ start + old ≤ memPages := by
  have hend : start + new + (old - new) = start + old := by omega
  refine ⟨?_, ?_⟩
  · rcases hasked with heq | ⟨hzero, hpos⟩
    · exact heq
    · -- the first page should be there, and is not
      exfalso
      have hfirst := h.kept 0 (by omega) hpos 0 (by decide)
      obtain ⟨e, he⟩ := Option.isSome_iff_exists.mp (htail start (by omega) (by omega))
      rw [Nat.add_zero, guestByte_mapped he] at hfirst
      have hnone : memPt (ptUnmapAlways v (start + new) (old - new)).mem start = none :=
        unmapped_in (by omega) (by omega)
      unfold guestByte at hfirst
      rw [hnone] at hfirst
      dsimp only at hfirst
      by_cases htop : start < memPages
      · rw [(unreserved_in_iff hg).mpr (splitFits_granted hs _ _) start htop (by omega) (by omega)] at hfirst
        cases hfirst
      have hres : reservedFlags (ptUnmapAlways v (start + new) (old - new)).mem start = none := by
        by_contra hc
        rw [reservedFlags_eq] at hc
        exact htop (flagsAt_lt (ptUnmapAlways_good hg _ _) hc)
      rw [hres] at hfirst
      cases hfirst
  · by_contra hout
    have hlow : ¬ start ≤ (start + old - 1) % memPages := wrapped_below (by omega) hold (by omega)
    have hkept := (h.others ((start + old - 1) % memPages) (Nat.mod_lt _ (by decide)) (fun hc => hlow hc.1)
      fun hc => hlow hc.1).entry
    have hgone : memPt (ptUnmapAlways v (start + new) (old - new)).mem (start + old - 1) = none :=
      unmapped_in (by omega) (by omega)
    rw [memPt_mod, memPt_mod, hgone] at hkept
    have hsome := htail (start + old - 1) (by omega) (by omega)
    rw [← hkept] at hsome
    cases hsome

include hg hnew in
theorem shrink_splits (h : Remapped v (ptUnmapAlways v (start + new) (old - new)) start start old new) :
    SplitFits v (start + new) (old - new) := by
  refine (unreserved_in_iff hg).mp fun p hp hlo hhi => ?_
  exact (h.unmapped p hp (by omega) (by omega) (by omega)).2

end Shrink

/-! ## Growing in place -/

theorem remapped_inPlace (hl : Live v) (hm : Mapped v v' (start + old) (new - old) f) (hnew : old < new)
    (hle : new ≤ memPages) (hfree : ∀ p, start + old ≤ p → p < start + new → memPt v.mem p = none) :
    Remapped v v' start start old new ↔ start + new ≤ memPages := by
  have hres : ∀ p, reservedFlags v'.mem p = reservedFlags v.mem p := fun p => by
    rw [reservedFlags_eq, reservedFlags_eq, hm.reservations]
  have hbytes : ∀ p e, memPt v.mem p = some e → ∀ j, v'.host.bytes e.data (e.offset + j) =
      v.host.bytes e.data (e.offset + j) := fun p e he j => by
    rw [hm.bytes, Function.update_of_ne (Nat.ne_of_lt (hl (slot p) e he))]
  constructor
  · intro h
    by_contra hout
    have hlow : ¬ start ≤ (start + new - 1) % memPages := wrapped_below (by omega) hle (by omega)
    have hkept := (h.others ((start + new - 1) % memPages) (Nat.mod_lt _ (by decide)) (fun hc => hlow hc.1)
      fun hc => hlow hc.1).entry
    have hlast := hm.entry (new - 1 - old) (by omega)
    rw [show start + old + (new - 1 - old) = start + new - 1 by omega] at hlast
    rw [memPt_mod, memPt_mod, hlast, hfree (start + new - 1) (by omega) (by omega)] at hkept
    cases hkept
  intro htop
  refine ⟨fun i hi hin j _ => ?_, fun i hi hin j _ => ?_, fun p hp hlo hhi hno => absurd hno (by omega),
    fun p hp hno hno' => ⟨?_, hres p, fun e he j _ => hbytes p e he j⟩⟩
  · refine guestByte_congr (hm.other _ fun k hk => ?_) (hres _) fun e he => hbytes _ e he j
    exact slot_ne_of_ne (by omega) (by omega) (by omega)
  · have hentry := hm.entry (i - old) (by omega)
    rw [show start + old + (i - old) = start + i by omega] at hentry
    rw [guestByte_mapped hentry, hm.bytes, Function.update_self]
    rfl
  · exact hm.other p fun k hk => slot_ne_of_ne (by omega) hp (by omega)

/-! ## Moving -/

def moved (w : Vm) (start dest old : Nat) (flags : Flags) : Vm :=
  let h := if Flags.any flags Flags.rwx then copyPages w.mem start dest (List.range old) w.host else w.host
  ptUnmapAlways { w with host := h } start old

section Move

variable (hl : Live v) (hg : GoodReservations v.mem.reservations) (hm : Mapped v w dest new f)
  (hfree : FreeRange v.mem dest new) (hnew : old < new) (hlt : start + old < wordMod)
  (hold : ∀ p, start ≤ p → p < start + old → (memPt v.mem p).isSome)

structure NewRange (v v' : Vm) (start dest old new : Nat) (copied : Prop) : Prop where
  copy : copied → ∀ i < old, ∀ e, memPt v.mem (start + i) = some e → ∀ j < pageSize,
    guestByte v' (dest + i) j = some (v.host.bytes e.data (e.offset + j))
  blank : ¬ copied → ∀ i < old, ∀ j < pageSize, guestByte v' (dest + i) j = some 0
  zero : ∀ i, old ≤ i → i < new → ∀ j < pageSize, guestByte v' (dest + i) j = some 0
  entry : ∀ p, (∀ q, start ≤ q → q < start + old → slot p ≠ slot q) → (∀ i < new, slot p ≠ slot (dest + i)) →
    memPt v'.mem p = memPt v.mem p
  gone : ∀ p, start ≤ p → p < start + old → memPt v'.mem p = none
  reserved : ∀ p, ¬ (start ≤ p ∧ p < start + old) → reservedFlags v'.mem p = reservedFlags v.mem p
  bytes : ∀ p e, memPt v.mem p = some e → ∀ j, v'.host.bytes e.data (e.offset + j) =
    v.host.bytes e.data (e.offset + j)

include hfree hold in
theorem dest_slot_ne (hi : i < new) (hp : start ≤ p ∧ p < start + old) : slot (dest + i) ≠ slot p := by
  intro hs
  have hnone := hfree.unmapped (dest + i) (by omega) (by omega)
  rw [memPt, hs, ← memPt] at hnone
  have hsome := hold p hp.1 hp.2
  rw [hnone] at hsome
  cases hsome

include hg hm in
theorem reserved_moved (flags : Flags) : (∀ p < memPages, start ≤ p → p < start + old →
    reservedFlags (moved w start dest old flags).mem p = none) ↔
      SplitFits ⟨{ v.host with script := v.host.script.drop 2 }, v.mem⟩ start old := by
  let h := if Flags.any flags Flags.rwx then copyPages w.mem start dest (List.range old) w.host else w.host
  have hscript : h.script = v.host.script.drop 2 := by
    rw [← hm.script]
    show (if _ then _ else _ : Host).script = _
    split
    · exact copyPages_script _ _ _ _ _
    · rfl
  have hres : w.mem.reservations = v.mem.reservations := hm.reservations
  refine (unreserved_in_iff (v := { w with host := h }) (hres ▸ hg)).trans (splitFits_congr ?_ hscript start old)
  exact hres

include hl hg hm hfree hnew hlt hold in
theorem newRange_moved (flags : Flags) :
    NewRange v (moved w start dest old flags) start dest old new (Flags.any flags Flags.rwx = true) := by
  have hsrc : ∀ i < old, ∃ e, memPt w.mem (start + i) = some e ∧ memPt v.mem (start + i) = some e ∧
      e.data ≠ v.host.nextData := by
    intro i hi
    obtain ⟨e, he⟩ := Option.isSome_iff_exists.mp (hold (start + i) (by omega) (by omega))
    refine ⟨e, ?_, he, Nat.ne_of_lt (hl (slot (start + i)) e he)⟩
    rw [hm.other _ fun k hk => (dest_slot_ne hfree hold hk ⟨by omega, by omega⟩).symm, he]
  obtain ⟨hother, hbehind, hcopied⟩ := copyPages_spec (n := old) (fun i hi => hm.entry i (by omega))
    (fun i hi => (hsrc i hi).imp fun e he => ⟨he.1, he.2.2⟩) w.host
  let h := if Flags.any flags Flags.rwx then copyPages w.mem start dest (List.range old) w.host else w.host
  set c : Vm := { w with host := h }
  have hcopy : Flags.any flags Flags.rwx = true → c.host = copyPages w.mem start dest (List.range old) w.host :=
    fun hrwx => if_pos hrwx
  have hplain : ¬ Flags.any flags Flags.rwx = true → c.host = w.host := fun hno => if_neg hno
  have hbytes : (moved w start dest old flags).host.bytes = c.host.bytes := (shrinks_ptUnmapAlways c start old).bytes_eq
  -- the entries of the new range are the new object's
  have hentry : ∀ i < new, memPt (moved w start dest old flags).mem (dest + i) =
      some ⟨v.host.nextData, i * pageSize, f⟩ := by
    intro i hi
    rw [← hm.entry i hi]
    exact unmapped_out (v := c) hlt fun q hlo hhi => dest_slot_ne hfree hold hi ⟨hlo, hhi⟩
  have hzero : ∀ o, w.host.bytes v.host.nextData o = 0 := fun o => by
    rw [hm.bytes, Function.update_self]
    rfl
  have hnew' : ∀ o, (Flags.any flags Flags.rwx = false ∨ old * pageSize ≤ o) →
      c.host.bytes v.host.nextData o = 0 := by
    intro o ho
    by_cases hrwx : Flags.any flags Flags.rwx = true
    · rw [hcopy hrwx, hbehind o (ho.resolve_left (by rw [hrwx]; exact Bool.noConfusion)), hzero]
    · rw [hplain hrwx, hzero]
  refine ⟨fun hrwx i hi e he j hj => ?_, fun hno i hi j hj => ?_, fun i hi hin j hj => ?_, fun p hp hp' => ?_,
    fun p hlo hhi => unmapped_in hlt ⟨hlo, hhi⟩, fun p hp => ?_, fun p e he j => ?_⟩
  · obtain ⟨e', he', hv, hne⟩ := hsrc i hi
    rw [he] at hv
    obtain rfl := Option.some.inj hv
    rw [guestByte_mapped (hentry i (by omega)), hbytes, hcopy hrwx, hcopied i hi e he' j hj, hm.bytes, Function.update_of_ne hne]
  · rw [guestByte_mapped (hentry i (by omega)), hbytes, hnew' _ (.inl (Bool.eq_false_iff.mpr hno))]
  · rw [guestByte_mapped (hentry i hin), hbytes]
    refine congrArg some (hnew' _ (.inr ?_))
    exact Nat.le_trans (Nat.mul_le_mul_right _ hi) (Nat.le_add_right _ _)
  · rw [show memPt (moved w start dest old flags).mem p = memPt c.mem p from unmapped_out (v := c) hlt hp]
    exact hm.other p hp'
  · have hres : c.mem.reservations = v.mem.reservations := hm.reservations
    rw [show reservedFlags (moved w start dest old flags).mem p = reservedFlags c.mem p from
      unreserved_out (v := c) (hres ▸ hg) hp, reservedFlags_eq, reservedFlags_eq, hres]
  have hne : e.data ≠ v.host.nextData := Nat.ne_of_lt (hl (slot p) e he)
  rw [hbytes]
  by_cases hrwx : Flags.any flags Flags.rwx = true
  · rw [hcopy hrwx, hother _ _ hne, hm.bytes, Function.update_of_ne hne]
  · rw [hplain hrwx, hm.bytes, Function.update_of_ne hne]

end Move

/-- A move has what it needs: the old range lies inside of the address space, and what is not copied reads as
zeroes. (A length that overflows asks for no page: then nothing is copied or unmapped.) -/
def MoveFits (v : Vm) (start old new : Nat) (flags : Flags) : Prop :=
  (old ≠ 0 ∧ start + old ≤ memPages ∧ (Flags.any flags Flags.rwx = true ∨
    ∀ i < old, ∀ j < pageSize, guestByte v (start + i) j = some 0)) ∨
  (old = 0 ∧ memPages ≤ start ∧ ∀ i < new, ∀ j < pageSize, guestByte v (start + i) j = some 0)

theorem remapped_move {asked : Nat} (hr : NewRange v v' start dest old new (Flags.any flags Flags.rwx = true))
    (hfree : FreeRange v.mem dest new) (hnew : old < new)
    (hold : ∀ p, start ≤ p → p < start + old → (memPt v.mem p).isSome) (hstart : (memPt v.mem start).isSome)
    (hasked : (old ≠ 0 ∧ asked = old) ∨ (old = 0 ∧ new < asked)) :
    Remapped v v' start dest asked new ↔ MoveFits v start old new flags ∧
      ∀ p < memPages, start ≤ p → p < start + old → reservedFlags v'.mem p = none := by
  have hfits := hfree.fits
  have hapart : ∀ p, (memPt v.mem p).isSome → ¬ (dest ≤ p ∧ p < dest + new) := by
    rintro p hsome ⟨hlo, hhi⟩
    rw [hfree.unmapped p hlo hhi] at hsome
    cases hsome
  have hbyte : ∀ p, (memPt v.mem p).isSome → ∃ e, memPt v.mem p = some e := fun p hsome =>
    Option.isSome_iff_exists.mp hsome
  constructor
  · intro h
    rcases hasked with ⟨h0, rfl⟩ | ⟨h0, hlong⟩
    · -- the last page of an old range that sticks out was one below the range
      have htop : start + asked ≤ memPages := by
        by_contra hout
        have hlow : ¬ start ≤ (start + asked - 1) % memPages := wrapped_below (by omega) (by omega) (by omega)
        have hsome := hold (start + asked - 1) (by omega) (by omega)
        rw [← memPt_mod] at hsome
        have hkept := (h.others ((start + asked - 1) % memPages) (Nat.mod_lt _ (by decide)) (fun hc => hlow hc.1)
          (hapart _ hsome)).entry
        rw [memPt_mod, hr.gone (start + asked - 1) (by omega) (by omega)] at hkept
        rw [← hkept] at hsome
        cases hsome
      refine ⟨.inl ⟨h0, htop, ?_⟩, fun p hp hlo hhi => (h.unmapped p hp hlo hhi (hapart p (hold p hlo hhi))).2⟩
      by_cases hrwx : Flags.any flags Flags.rwx = true
      · exact .inl hrwx
      refine .inr fun i hi j hj => ?_
      rw [← h.kept i hi (by omega) j hj]
      exact hr.blank hrwx i hi j hj
    subst h0
    refine ⟨.inr ⟨rfl, ?_, fun i hi j hj => ?_⟩, fun p _ hlo hhi => absurd hhi (by omega)⟩
    · by_contra hlow
      -- the first page is still there
      have hgone := (h.unmapped start (by omega) (Nat.le_refl _) (by omega) (hapart start hstart)).1
      have hdest : ∀ i < new, slot start ≠ slot (dest + i) := by
        intro i hi hs
        have hnone := hfree.unmapped (dest + i) (by omega) (by omega)
        rw [memPt, ← hs, ← memPt] at hnone
        rw [hnone] at hstart
        cases hstart
      rw [hr.entry start (fun q hlo hhi => absurd hhi (by omega)) hdest] at hgone
      rw [hgone] at hstart
      cases hstart
    · rw [← h.kept i (by omega) hi j hj]
      exact hr.zero i (Nat.zero_le _) hi j hj
  rintro ⟨hmove, hgone⟩
  have hout : ∀ p < memPages, ¬ (start ≤ p ∧ p < start + old) → ¬ (dest ≤ p ∧ p < dest + new) →
      start + old ≤ memPages ∨ old = 0 → PageKept v v' p := by
    intro p hp hno hno' htop
    refine ⟨hr.entry p (fun q hlo hhi => ?_) fun i hi => ?_, hr.reserved p hno, fun e he j _ => hr.bytes p e he j⟩
    · exact slot_ne_of_ne (by omega) hp (by omega)
    · exact slot_ne_of_ne (by omega) hp (by omega)
  rcases hmove with ⟨h0, htop, hcopy⟩ | ⟨h0, hhigh, hzero⟩
  · obtain ⟨-, rfl⟩ := hasked.resolve_right fun hc => h0 hc.1
    refine ⟨fun i hi _ j hj => ?_, fun i hi hin j hj => hr.zero i hi hin j hj,
      fun p hp hlo hhi _ => ⟨hr.gone p hlo hhi, hgone p hp hlo hhi⟩, fun p hp hno hno' =>
        hout p hp hno hno' (.inl htop)⟩
    obtain ⟨e, he⟩ := hbyte (start + i) (hold _ (by omega) (by omega))
    by_cases hrwx : Flags.any flags Flags.rwx = true
    · rw [hr.copy hrwx i hi e he j hj, guestByte_mapped he]
    · rw [hr.blank hrwx i hi j hj, hcopy.resolve_left hrwx i hi j hj]
  obtain ⟨-, hlong⟩ := hasked.resolve_left fun hc => hc.1 h0
  subst h0
  refine ⟨fun i _ hin j hj => ?_, fun i hi hin => absurd hin (by omega),
    fun p hp hlo => absurd hlo (by omega), fun p hp hno hno' => ?_⟩
  · rw [hr.zero i (Nat.zero_le _) hin j hj, hzero i hin j hj]
  · exact hout p hp (by omega) hno' (.inr rfl)

end IosLinuxkit.Kernel
