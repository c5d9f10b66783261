import IosLinuxkit.Kernel.OnePage

/-!
# What `MADV_DONTNEED` leaves

`sys_madvise` clears the pages of its range one by one. It skips a page of a file, which it tells by the file
of the object behind the page; a private copy of a page has an object of its own, with no file.
-/

namespace IosLinuxkit.Kernel

variable {v v' w : Vm} {p q next stop start n k : Nat} {e e' : PtEntry} {limit : Option Nat} {any : Bool}

/-! ## Contents -/

/-- What the guest reads; nothing where no page is mapped. -/
def readByte (v : Vm) (p i : Nat) : Option UInt8 :=
  (memPt v.mem p).map fun e => v.host.bytes e.data (e.offset + i)

def AllZero (v : Vm) (p : Nat) : Prop := ∀ i < pageSize, ∀ b, readByte v p i = some b → b = 0

def AnonFree (v : Vm) : Prop :=
  ∀ s e, v.mem.pt.lookup s = some e → Flags.any e.flags Flags.anonymous = true → fdOf v.host e.data = none

inductive Outlook where
  | granted
  | refused
  | any
  deriving DecidableEq

def Outlook.Script : Outlook → Nat → List Bool → Prop
  | .granted, _, script => script = []
  | .refused, n, script => ∃ m, n ≤ m ∧ script = List.replicate m false
  | .any, _, _ => True

structure Clearing (o : Outlook) (h : Host) (e : PtEntry) (z : Bool) : Prop where
  only : z = true → clears h e = true
  plain : clears h e = true → Flags.any e.flags Flags.cow = false → z = true
  granted : o = .granted → clears h e = true → z = true
  refused : o = .refused → Flags.any e.flags Flags.cow = true → z = false

/-! ## One page -/

structure Visit (o : Outlook) (n : Nat) (v v' : Vm) (p : Nat) : Prop where
  ok : SpaceOk v'
  files : AnonFree v'
  script : o.Script n v'.host.script
  entry : ∀ q, slot q ≠ slot p → memPt v'.mem q = memPt v.mem q
  reserved : ∀ q, q ≠ p → reservedFlags v'.mem q = reservedFlags v.mem q
  others : ∀ q e, slot q ≠ slot p → memPt v.mem q = some e → skipsPage v'.host e = skipsPage v.host e ∧
    ∀ i < pageSize, v'.host.bytes e.data (e.offset + i) = v.host.bytes e.data (e.offset + i)
  unmapped : memPt v.mem p = none → memPt v'.mem p = none ∧ reservedFlags v'.mem p = reservedFlags v.mem p
  page : ∀ e, memPt v.mem p = some e → ∃ e' z, memPt v'.mem p = some e' ∧
    e'.flags &&& Flags.rwx = e.flags &&& Flags.rwx ∧ Clearing o v.host e z ∧
    ∀ i < pageSize, v'.host.bytes e'.data (e'.offset + i) =
      if z then 0 else v.host.bytes e.data (e.offset + i)

variable {o : Outlook} {h : Host}

theorem Visit.same (hok : SpaceOk v) (hf : AnonFree v) (hpt : v'.mem = v.mem)
    (hhost : SameHost v.host v'.host) (hs : o.Script n v'.host.script)
    (hz : ∀ e, memPt v.mem p = some e → Clearing o v.host e false) : Visit o n v v' p := by
  have hfd : ∀ d, fdOf v'.host d = fdOf v.host d := fun d => by
    unfold fdOf
    rw [hhost.datas]
  refine ⟨⟨?_, ?_, ?_⟩, ?_, hs, ?_, ?_, ?_, ?_, ?_⟩
  · intro s e he
    rw [hpt] at he
    rw [hhost.nextData]
    exact hok.live s e he
  · rw [hpt]
    exact hok.apart
  · rw [hpt]
    exact hok.good
  · intro s e he ha
    rw [hpt] at he
    rw [hfd]
    exact hf s e he ha
  · intro q _
    rw [hpt]
  · intro q _
    rw [hpt]
  · intro q e _ _
    rw [skipsPage_eq, skipsPage_eq, hfd, hhost.bytes]
    exact ⟨rfl, fun _ _ => rfl⟩
  · intro hnone
    rw [hpt]
    exact ⟨hnone, rfl⟩
  intro e he
  rw [hpt, hhost.bytes]
  exact ⟨e, false, he, rfl, hz e he, fun i _ => rfl⟩

theorem Visit.cleared (hok : SpaceOk v) (hf : AnonFree v) (he : memPt v.mem p = some e)
    (hs : o.Script n v.host.script) (hz : Clearing o v.host e true) :
    Visit o n v { v with host := v.host.write ⟨e.data, e.offset⟩ (List.replicate pageSize 0) } p := by
  refine ⟨⟨hok.live, hok.apart, hok.good⟩, hf, hs, fun _ _ => rfl, fun _ _ => rfl, ?_, ?_, ?_⟩
  · intro q f hq hq'
    refine ⟨rfl, fun i hi => ?_⟩
    dsimp only
    rw [write_zeroes, if_neg]
    rintro ⟨hd, hlo, hhi⟩
    exact hq (hok.apart (slot q) (slot p) f e hq' he ⟨hd, by dsimp only at hhi; omega, by dsimp only at hlo; omega⟩)
  · intro hnone
    rw [he] at hnone
    cases hnone
  intro f hf'
  rw [he] at hf'
  obtain rfl := Option.some.inj hf'
  refine ⟨e, true, he, rfl, hz, fun i hi => ?_⟩
  dsimp only
  rw [write_zeroes, if_pos ⟨rfl, by dsimp only; omega, by dsimp only; omega⟩]
  rfl

/-! ## A private copy -/

theorem removeReservations_script (hs : h.script = []) (start stop : Nat) (rs : List Reservation) :
    (removeReservations start stop h rs).1.script = [] := by
  have hattempt : ∀ h : Host, h.script = [] → h.attempt.2.script = [] := fun h hs => by
    unfold Host.attempt
    rw [hs]
    exact hs
  induction rs generalizing h with
  | nil => exact hs
  | cons r rest ih =>
    unfold removeReservations
    split_ifs
    · exact ih hs
    · exact ih hs
    · dsimp only
      split_ifs
      · exact ih (hattempt h hs)
      · exact ih (hattempt h hs)
    · exact ih hs
    · exact ih hs

theorem clearPage_host (hp : p + 1 < wordMod) (he : memPt v.mem p = some e) :
    ∃ g : Host, g.datas = v.host.datas ∧ (v.host.script = [] → g.script = []) ∧
      (clearPage v p).host = g.dropData e.data := by
  have hstop : (p + 1) % wordMod = p + 1 := Nat.mod_eq_of_lt hp
  have hfuel : p + 1 - p = 1 := by omega
  let w : Vm := memRemoveReservations { v with mem := v.mem.raiseHint p 1 } p 1
  have hclear : (clearPage v p).host = (unmapPage w p).host := by
    unfold clearPage ptUnmap
    rw [if_pos (by rw [he]; rfl), if_pos (by rw [pageRange_one hp]; simp [he])]
    simp only [ptUnmapAlways, hstop, hfuel, unmapLoop_one (Nat.lt_succ_self p)]
    rfl
  obtain ⟨hsame, hpt, -⟩ := memRemoveReservations_spec { v with mem := v.mem.raiseHint p 1 } p 1
  have hentry : memPt w.mem p = some e := by
    rw [← he, memPt, memPt, hpt]
    rfl
  have hscript : v.host.script = [] → w.host.script = [] := fun hs => by
    show (memRemoveReservations { v with mem := v.mem.raiseHint p 1 } p 1).host.script = []
    unfold memRemoveReservations
    rw [if_neg (by decide)]
    exact removeReservations_script hs _ _ _
  refine ⟨if Flags.charged e.flags then w.host.addAnon (-1) else w.host, ?_, fun hs => ?_, ?_⟩
  · split
    · exact hsame.datas
    · exact hsame.datas
  · split
    · exact hscript hs
    · exact hscript hs
  rw [hclear]
  unfold unmapPage
  rw [hentry]

theorem dropData_script (h : Host) (d : Nat) : (h.dropData d).script = h.script := by
  unfold Host.dropData
  split
  · rfl
  · split <;> rfl

theorem retainData_script (h : Host) (d : Nat) : (h.retainData d).script = h.script := by
  unfold Host.retainData
  split <;> rfl

theorem fdOf_dropData_of_none {d d' : Nat} (hd : fdOf h d' = none) :
    fdOf (h.dropData d') d = fdOf h d := by
  by_cases hdd : d = d'
  · rw [hdd, hd]
    exact fdOf_dropData hd d'
  unfold Host.dropData fdOf
  split
  · rfl
  split
  · rw [AList.lookup_erase_ne hdd]
  · rw [AList.lookup_insert_ne hdd]

theorem fdOf_retainData_eq (h : Host) (d d' : Nat) : fdOf (h.retainData d') d = fdOf h d := by
  unfold Host.retainData fdOf
  cases hx : h.datas.lookup d' with
  | none => rfl
  | some x =>
    dsimp only
    by_cases hdd : d = d'
    · rw [hdd, AList.lookup_insert, hx]
      rfl
    · rw [AList.lookup_insert_ne hdd]

structure Copying (v : Vm) (r : Int × Vm) : Prop where
  fd : ∀ d < v.host.nextData, fdOf r.2.host d = fdOf v.host d
  fresh : r.1 = 0 → fdOf r.2.host v.host.nextData = none
  granted : v.host.script = [] → r.1 = 0 ∧ r.2.host.script = []
  refused : ∀ m, v.host.script = List.replicate (m + 1) false →
    r.1 < 0 ∧ r.2.host.script = List.replicate m false

theorem copying_mapRegion (hp : p + 1 < wordMod) (he : memPt v.mem p = some e) (hd : e.data < v.host.nextData)
    (hno : fdOf v.host e.data = none) (contents : Nat → UInt8) (flags : Flags) (precharged : Bool) :
    Copying v (mapRegion v p 1 contents flags precharged) := by
  have hone := sameHost_attempt v.host
  have htwo := hone.trans (sameHost_attempt v.host.attempt.2)
  have hfd : ∀ {h : Host}, SameHost v.host h → ∀ d, fdOf h d = fdOf v.host d := fun hs d => by
    unfold fdOf
    rw [hs.datas]
  unfold mapRegion
  dsimp only
  split
  case isFalse hfail =>
    refine ⟨fun d _ => hfd hone d, fun hc => absurd (show eNOMEM = 0 from hc) (by decide), fun hs => ?_, fun m hs => ?_⟩
    · exact absurd (by unfold Host.attempt; rw [hs]) hfail
    refine ⟨eNOMEM_neg, ?_⟩
    unfold Host.attempt
    rw [hs]
    rfl
  case isTrue hfirst =>
    have hrefused : ∀ m, v.host.script ≠ List.replicate (m + 1) false := fun m hs => by
      unfold Host.attempt at hfirst
      rw [hs] at hfirst
      cases hfirst
    unfold ptMapAccounted
    dsimp only
    split
    case isFalse hfail =>
      refine ⟨fun d _ => hfd htwo d, fun hc => absurd (show eNOMEM = 0 from hc) (by decide), fun hs => ?_,
        fun m hs => absurd hs (hrefused m)⟩
      exact absurd (by unfold Host.attempt; simp only [hs]) hfail
    case isTrue =>
      rw [pageRange_one hp]
      set h := v.host.attempt.2.attempt.2
      set w : Vm := ⟨h.newData ((1 * pageSize + 0) % wordMod) contents, v.mem⟩
      have hnew : ∀ d, fdOf w.host d = if d = v.host.nextData then none else fdOf v.host d := fun d => by
        show (AList.lookup d (h.datas.insert h.nextData _)).bind Data.fd = _
        rw [htwo.nextData, htwo.datas]
        split
        case isTrue heq => rw [heq, AList.lookup_insert]; rfl
        case isFalse hne =>
          rw [AList.lookup_insert_ne hne]
          rfl
      obtain ⟨g, hg, hgs, hclear⟩ := clearPage_host (v := w) hp he
      have hdrop : ∀ d, fdOf (mapPage h.nextData p 0 flags w p).host d = fdOf w.host d := fun d => by
        show fdOf ((clearPage w p).host.retainData _) d = _
        rw [fdOf_retainData_eq, hclear, fdOf_dropData_of_none]
        · unfold fdOf
          rw [hg]
        unfold fdOf
        rw [hg]
        show fdOf w.host e.data = none
        rw [hnew, if_neg (by omega), hno]
      have hscript : v.host.script = [] → (mapPage h.nextData p 0 flags w p).host.script = [] := fun hs => by
        show ((clearPage w p).host.retainData _).script = []
        rw [retainData_script, hclear, dropData_script]
        refine hgs ?_
        show v.host.attempt.2.attempt.2.script = []
        unfold Host.attempt
        simp only [hs]
      have hdone : ∀ (h' : Host) (m : Mem), h'.datas = (mapPage h.nextData p 0 flags w p).host.datas →
          h'.script = (mapPage h.nextData p 0 flags w p).host.script → Copying v (0, ⟨h', m⟩) := by
        intro h' m hdatas hs'
        have hfd' : ∀ d, fdOf h' d = if d = v.host.nextData then none else fdOf v.host d := fun d => by
          rw [← hnew, ← hdrop]
          unfold fdOf
          rw [hdatas]
        refine ⟨fun d hlt => ?_, fun _ => ?_, fun hs => ⟨rfl, hs'.trans (hscript hs)⟩,
          fun m hs => absurd hs (hrefused m)⟩
        · rw [hfd', if_neg (by omega)]
        · rw [hfd', if_pos rfl]
      split
      · exact hdone _ _ rfl rfl
      · exact hdone _ _ rfl rfl

theorem any_copyFlags {mask : Flags} (hmask : ~~~Flags.cow &&& mask = mask) (f : Flags) :
    Flags.any (copyFlags .write f) mask = Flags.any f mask := by
  unfold copyFlags
  dsimp only
  rw [if_neg (by decide), Flags.any_and, hmask]

theorem rwx_copyFlags (f : Flags) : copyFlags .write f &&& Flags.rwx = f &&& Flags.rwx := by
  unfold copyFlags
  dsimp only
  rw [if_neg (by decide), BitVec.and_assoc, show ~~~Flags.cow &&& Flags.rwx = Flags.rwx by decide]

theorem Outlook.Script.less {script : List Bool} (h : o.Script (n + 1) script) :
    o.Script n script := by
  cases o with
  | granted => exact h
  | refused =>
    obtain ⟨m, hm, hs⟩ := h
    exact ⟨m, by omega, hs⟩
  | any => trivial

theorem Visit.copied {flags : Flags} {contents : Nat → UInt8} {r : Int × Vm} (hok : SpaceOk v)
    (hf : AnonFree v) (he : memPt v.mem p = some e) (hr : Replaced v r.2 p flags contents)
    (hcopy : Copying v r) (hzero : r.1 = 0) (hflags : flags &&& Flags.rwx = e.flags &&& Flags.rwx)
    (hs : o.Script n r.2.host.script) (hz : Clearing o v.host e true) :
    Visit o n v { r.2 with host := r.2.host.write ⟨v.host.nextData, 0⟩ (List.replicate pageSize 0) } p := by
  have hentry : ∀ s, r.2.mem.pt.lookup s =
      if s = slot p then some ⟨v.host.nextData, 0, flags⟩ else v.mem.pt.lookup s := fun s => by
    have hslot : slot s.val = s := Fin.ext (Nat.mod_eq_of_lt s.isLt)
    have h := hr.entry s.val
    rw [memPt, memPt, hslot] at h
    exact h
  refine ⟨⟨?_, ?_, hr.good hok.good⟩, ?_, hs, ?_, hr.reserved hok.good, ?_, ?_, ?_⟩
  · intro s f hf'
    show f.data < r.2.host.nextData
    rw [hr.next]
    rw [hentry] at hf'
    split at hf'
    · rw [← Option.some.inj hf']
      exact Nat.lt_succ_self _
    · exact Nat.lt_succ_of_lt (hok.live s f hf')
  · intro s t f g hf' hg' hov
    dsimp only at hf' hg'
    rw [hentry] at hf' hg'
    split at hf'
    case isTrue hsp =>
      split at hg'
      case isTrue htp => rw [hsp, htp]
      case isFalse =>
        have hlive := hok.live t g hg'
        have hd := hov.1
        rw [← Option.some.inj hf'] at hd
        exact absurd hd (Nat.ne_of_gt hlive)
    case isFalse =>
      split at hg'
      case isTrue =>
        have hlive := hok.live s f hf'
        have hd := hov.1
        rw [← Option.some.inj hg'] at hd
        exact absurd hd (Nat.ne_of_lt hlive)
      case isFalse => exact hok.apart s t f g hf' hg' hov
  · intro s f hf' ha
    show fdOf r.2.host f.data = none
    dsimp only at hf'
    rw [hentry] at hf'
    split at hf'
    · rw [← Option.some.inj hf']
      exact hcopy.fresh hzero
    · rw [hcopy.fd _ (hok.live s f hf')]
      exact hf s f hf' ha
  · intro q hq
    dsimp only
    rw [hr.entry, if_neg hq]
  · intro q f hq hf'
    have hlive : f.data < v.host.nextData := hok.live (slot q) f hf'
    refine ⟨?_, fun i _ => ?_⟩
    · rw [skipsPage_eq, skipsPage_eq]
      show (!_ && (fdOf r.2.host f.data).isSome) = _
      rw [hcopy.fd _ hlive]
    dsimp only
    rw [write_zeroes, if_neg (fun hc => absurd hc.1 (Nat.ne_of_lt hlive)), hr.bytes,
      Function.update_of_ne (Nat.ne_of_lt hlive)]
  · intro hnone
    rw [he] at hnone
    cases hnone
  intro f hf'
  rw [he] at hf'
  obtain rfl := Option.some.inj hf'
  refine ⟨⟨v.host.nextData, 0, flags⟩, true, ?_, hflags, hz, fun i hi => ?_⟩
  · dsimp only
    rw [hr.entry, if_pos rfl]
  dsimp only
  rw [write_zeroes, if_pos ⟨rfl, by dsimp only; omega, by dsimp only; omega⟩]
  rfl

/-! ## The visit -/

section Page

variable (o : Outlook) (hok : SpaceOk v) (hf : AnonFree v)

include hok hf

theorem Visit.spared (hs : o.Script (n + 1) v.host.script) (he : memPt v.mem p = some e)
    (hno : clears v.host e = false) : Visit o n v v p := by
  refine .same hok hf rfl (SameHost.refl _) hs.less fun f hf' => ?_
  rw [he] at hf'
  rw [← Option.some.inj hf']
  exact ⟨fun hc => (by cases hc), fun hc => (by rw [hno] at hc; cases hc),
    fun _ hc => (by rw [hno] at hc; cases hc), fun _ _ => rfl⟩

theorem visit_copy (hs : o.Script (n + 1) v.host.script) (hp : p + 1 < wordMod) (he : memPt v.mem p = some e)
    (hclears : clears v.host e = true) (hcow : Flags.any e.flags Flags.cow = true) :
    ((breakCow v p .write).1 = false ∧ Visit o n v (breakCow v p .write).2 p) ∨
      ((breakCow v p .write).1 = true ∧
        memPt (breakCow v p .write).2.mem p = some ⟨v.host.nextData, 0, copyFlags .write e.flags⟩ ∧
        Visit o n v { (breakCow v p .write).2 with
          host := (breakCow v p .write).2.host.write ⟨v.host.nextData, 0⟩ (List.replicate pageSize 0) } p) := by
  have hclears' := hclears
  unfold clears at hclears'
  rw [Bool.and_eq_true, Bool.not_eq_true', skipsPage_eq] at hclears'
  obtain ⟨hskip, hwrite⟩ := hclears'
  -- a page that is not skipped has no file behind it
  have hno : fdOf v.host e.data = none := by
    cases ha : Flags.any e.flags Flags.anonymous with
    | true => exact hf (slot p) e he ha
    | false =>
      rw [ha, Bool.not_false, Bool.true_and, Option.isSome_eq_false_iff, Option.isNone_iff_eq_none] at hskip
      exact hskip
  have hcopy := copying_mapRegion hp he (hok.live (slot p) e he) hno (pageBytes v.host e)
    (copyFlags .write e.flags) false
  have hone := mapRegion_one v (pageBytes v.host e) (copyFlags .write e.flags) hp false
  rw [breakCow_eq he (.inl hcow) (rwx_of_write hwrite) fun _ => hwrite]
  dsimp only at hone ⊢
  generalize mapRegion v p 1 (pageBytes v.host e) (copyFlags .write e.flags) false = r at hcopy hone
  have hscript : o.Script n r.2.host.script := by
    cases o with
    | granted => exact (hcopy.granted hs).2
    | refused =>
      obtain ⟨m, hm, hs⟩ := hs
      rw [show m = m - 1 + 1 by omega] at hs
      exact ⟨m - 1, by omega, (hcopy.refused _ hs).2⟩
    | any => trivial
  rcases hone with ⟨hneg, hu⟩ | ⟨hzero, hr⟩
  · refine .inl ⟨decide_eq_false (by omega), ?_⟩
    refine ⟨⟨?_, ?_, ?_⟩, ?_, hscript, fun q _ => hu.entry q, ?_, ?_, ?_, ?_⟩
    · intro s f hf'
      rw [hu.next]
      exact hok.live s f (hu.pt ▸ hf')
    · intro s t f g hf' hg'
      exact hok.apart s t f g (hu.pt ▸ hf') (hu.pt ▸ hg')
    · rw [hu.reservations]
      exact hok.good
    · intro s f hf' ha
      have hold : v.mem.pt.lookup s = some f := hu.pt ▸ hf'
      rw [hcopy.fd _ (hok.live s f hold)]
      exact hf s f hold ha
    · intro q _
      rw [reservedFlags_eq, reservedFlags_eq, hu.reservations]
    · intro q f _ hf'
      rw [skipsPage_eq, skipsPage_eq, hcopy.fd _ (hok.live (slot q) f hf'), hu.bytes]
      exact ⟨rfl, fun _ _ => rfl⟩
    · intro hnone
      rw [he] at hnone
      cases hnone
    intro f hf'
    rw [he] at hf'
    obtain rfl := Option.some.inj hf'
    rw [hu.entry, hu.bytes]
    refine ⟨e, false, he, rfl, ⟨fun hc => (by cases hc), fun _ hc => ?_, fun hg _ => ?_, fun _ _ => rfl⟩,
      fun i _ => rfl⟩
    · rw [hcow] at hc
      cases hc
    · -- nothing would have been refused
      subst hg
      have := (hcopy.granted hs).1
      omega
  refine .inr ⟨decide_eq_true (by omega), by rw [hr.entry, if_pos rfl], ?_⟩
  refine .copied hok hf he hr hcopy hzero (rwx_copyFlags e.flags) hscript
    ⟨fun _ => hclears, fun _ _ => rfl, fun _ _ => rfl, fun hrefused _ => ?_⟩
  subst hrefused
  obtain ⟨m, hm, hs⟩ := hs
  rw [show m = m - 1 + 1 by omega] at hs
  have := (hcopy.refused _ hs).1
  omega

theorem visit_turn (hs : o.Script (n + 1) v.host.script) (hp : p + 1 < wordMod) (h : PageTurn v p w) :
    Visit o n v w p := by
  cases h with
  | spared hno =>
    cases he : memPt v.mem p with
    | none =>
      refine .same hok hf rfl (SameHost.refl _) hs.less fun f hf' => ?_
      rw [he] at hf'
      cases hf'
    | some e => exact .spared o hok hf hs he (hno e he)
  | zeroed he hclears hcow =>
    exact .cleared hok hf he hs.less ⟨fun _ => hclears, fun _ _ => rfl, fun _ _ => rfl,
      fun _ hc => absurd (hcow.symm.trans hc) Bool.false_ne_true⟩
  | left he hclears hcow hnot =>
    rcases visit_copy o hok hf hs hp he hclears hcow with ⟨-, hvisit⟩ | ⟨hdone, hcopy, -⟩
    · exact hvisit
    -- a page of its own could be written
    have hno := hnot hdone _ hcopy
    unfold clears at hclears
    rw [Bool.and_eq_true] at hclears
    rw [Flags.writable, any_copyFlags (by decide), hclears.2, Flags.not_cow_copyFlags] at hno
    cases hno
  | copied he hclears hcow hdone hcopy' =>
    rcases visit_copy o hok hf hs hp he hclears hcow with ⟨hfail, -⟩ | ⟨-, hcopy, hvisit⟩
    · exact absurd (hfail.symm.trans hdone) Bool.false_ne_true
    rw [hcopy] at hcopy'
    obtain rfl := Option.some.inj hcopy'
    exact hvisit

end Page

/-! ## The range -/

def Unswept (start k q : Nat) : Prop := ∀ j < k, slot q ≠ slot (start + j)

/-- The walk that began in `v` at page `start`, after `k` pages. -/
structure Swept (o : Outlook) (n : Nat) (v v' : Vm) (start k : Nat) : Prop where
  ok : SpaceOk v'
  files : AnonFree v'
  script : o.Script n v'.host.script
  entry : ∀ q, Unswept start k q → memPt v'.mem q = memPt v.mem q
  reserved : ∀ q, ¬ (start ≤ q ∧ q < start + k) → reservedFlags v'.mem q = reservedFlags v.mem q
  others : ∀ q e, Unswept start k q → memPt v.mem q = some e → skipsPage v'.host e = skipsPage v.host e ∧
    ∀ i < pageSize, v'.host.bytes e.data (e.offset + i) = v.host.bytes e.data (e.offset + i)
  unmapped : ∀ j < k, memPt v.mem (start + j) = none → memPt v'.mem (start + j) = none ∧
    reservedFlags v'.mem (start + j) = reservedFlags v.mem (start + j)
  page : ∀ j < k, ∀ e, memPt v.mem (start + j) = some e → ∃ e' z, memPt v'.mem (start + j) = some e' ∧
    e'.flags &&& Flags.rwx = e.flags &&& Flags.rwx ∧ Clearing o v.host e z ∧
    ∀ i < pageSize, v'.host.bytes e'.data (e'.offset + i) =
      if z then 0 else v.host.bytes e.data (e.offset + i)

theorem swept_zero (hok : SpaceOk v) (hf : AnonFree v) (hs : o.Script n v.host.script)
    (start : Nat) : Swept o n v v start 0 :=
  ⟨hok, hf, hs, fun _ _ => rfl, fun _ _ => rfl, fun _ _ _ _ => ⟨rfl, fun _ _ => rfl⟩,
    fun j hj => absurd hj (Nat.not_lt_zero j), fun j hj => absurd hj (Nat.not_lt_zero j)⟩

theorem unswept_next (hk : k < memPages) (start : Nat) : Unswept start k (start + k) := by
  intro j hj hc
  rw [slot_eq_iff_mod] at hc
  simp only [memPages] at *
  omega

theorem slot_ne_next {j : Nat} (hk : k < memPages) (hj : j < k) (start : Nat) :
    slot (start + j) ≠ slot (start + k) := fun hc => unswept_next hk start j hj hc.symm

theorem Clearing.congr {h' : Host} {z : Bool} (hskip : skipsPage h' e = skipsPage h e)
    (hc : Clearing o h' e z) : Clearing o h e z := by
  have heq : clears h' e = clears h e := by
    unfold clears
    rw [hskip]
  rw [show Clearing o h e z ↔ Clearing o h' e z from
    ⟨fun h => ⟨fun hz => heq ▸ h.only hz, fun hz => h.plain (heq ▸ hz), fun hg hz => h.granted hg (heq ▸ hz),
      h.refused⟩,
    fun h => ⟨fun hz => heq ▸ h.only hz, fun hz => h.plain (heq ▸ hz), fun hg hz => h.granted hg (heq ▸ hz),
      h.refused⟩⟩]
  exact hc

theorem Swept.step (h : Swept o (n + 1) v w start k) (hk : k < memPages)
    (hv : Visit o n w v' (start + k)) : Swept o n v v' start (k + 1) := by
  have hfirst := h.entry (start + k) (unswept_next hk start)
  have hmono : ∀ q, Unswept start (k + 1) q → Unswept start k q ∧ slot q ≠ slot (start + k) := fun q hq =>
    ⟨fun j hj => hq j (Nat.lt_succ_of_lt hj), hq k (Nat.lt_succ_self k)⟩
  refine ⟨hv.ok, hv.files, hv.script, fun q hq => ?_, fun q hq => ?_, fun q e hq he => ?_,
    fun j hj hnone => ?_, fun j hj e he => ?_⟩
  · obtain ⟨hq', hne⟩ := hmono q hq
    rw [hv.entry q hne, h.entry q hq']
  · rw [hv.reserved q (by omega), h.reserved q (by omega)]
  · obtain ⟨hq', hne⟩ := hmono q hq
    obtain ⟨hskip, hbytes⟩ := h.others q e hq' he
    obtain ⟨hskip', hbytes'⟩ := hv.others q e hne (by rw [h.entry q hq']; exact he)
    exact ⟨hskip'.trans hskip, fun i hi => (hbytes' i hi).trans (hbytes i hi)⟩
  · by_cases hjk : j = k
    · subst hjk
      obtain ⟨hn, hr⟩ := hv.unmapped (by rw [hfirst]; exact hnone)
      exact ⟨hn, hr.trans (h.reserved _ (by omega))⟩
    have hlt : j < k := by omega
    obtain ⟨hn, hr⟩ := h.unmapped j hlt hnone
    rw [hv.entry _ (slot_ne_next hk hlt start), hv.reserved _ (by omega)]
    exact ⟨hn, hr⟩
  by_cases hjk : j = k
  · subst hjk
    obtain ⟨hskip, hbytes⟩ := h.others (start + j) e (unswept_next hk start) he
    obtain ⟨e', z, he', hrwx, hz, hpage⟩ := hv.page e (by rw [hfirst]; exact he)
    refine ⟨e', z, he', hrwx, hz.congr hskip, fun i hi => ?_⟩
    rw [hpage i hi, hbytes i hi]
  · -- a page that was visited before is left alone
    have hlt : j < k := by omega
    have hne := slot_ne_next hk hlt start
    obtain ⟨e', z, he', hrwx, hz, hpage⟩ := h.page j hlt e he
    refine ⟨e', z, by rw [hv.entry _ hne]; exact he', hrwx, hz, fun i hi => ?_⟩
    rw [(hv.others _ e' hne he').2 i hi, hpage i hi]

theorem Swept.changed (h : Swept o n v w start k) :
    Swept o n v { w with mem := w.mem.changed } start k :=
  ⟨⟨h.ok.live, h.ok.apart, h.ok.good⟩, h.files, h.script, h.entry, h.reserved, h.others, h.unmapped, h.page⟩

theorem sweep_rest (o : Outlook) (limit : Option Nat) {stop : Nat} (hn : n ≤ memPages)
    (htop : (start + n) * pageSize < wordMod) (hstop : ∀ k, (start + k) * pageSize < stop ↔ k < n) (any : Bool)
    (h : Swept o n v v start 0) : ∃ v' fuel, Swept o 0 v v' start n ∧
      madviseWalk limit fuel v (.madvise 0 (start * pageSize) stop none any) = some v' := by
  refine walk_pages (fun j k w => Swept o j v w start k) limit htop hstop (fun w h => h.changed)
    (fun j k w w' hk h hturn => h.step (by omega) (visit_turn o h.ok h.files h.script ?_ hturn)) n 0 v any
    (Nat.zero_add n) h
  simp only [pageSize, wordMod] at *
  omega

theorem walk_diverges (limit : Option Nat) {stop : Nat} (htop : wordMod - pageSize < stop) (fuel : Nat) :
    ∀ (v : Vm) (next : Nat) (call : Option PtrCall) (any : Bool), pgOffset next = 0 → next < wordMod →
      madviseWalk limit fuel v (.madvise 0 next stop call any) = none := by
  induction fuel with
  | zero => exact fun _ _ _ _ _ _ => rfl
  | succ fuel ih =>
    intro v next call any halign hlt
    have hnext : pgOffset ((next + pageSize) % wordMod) = 0 ∧ (next + pageSize) % wordMod < wordMod := by
      refine ⟨?_, Nat.mod_lt _ (by decide)⟩
      unfold pgOffset at *
      simp only [pageSize, wordMod] at *
      omega
    have hbelow : next < stop := by
      unfold pgOffset at halign
      simp only [pageSize, wordMod] at *
      omega
    show madviseWalk limit fuel (madviseStep v limit 0 next stop any call).1
      (madviseStep v limit 0 next stop any call).2 = none
    cases call with
    | none =>
      unfold madviseStep
      dsimp only
      rw [if_pos hbelow]
      split
      · exact ih _ _ _ _ hnext.1 hnext.2
      split
      · exact ih _ _ _ _ hnext.1 hnext.2
      · exact ih _ _ _ _ halign hlt
    | some c =>
      unfold madviseStep
      dsimp only
      split
      · exact ih _ _ _ _ hnext.1 hnext.2
      · exact ih _ _ _ _ hnext.1 hnext.2
      · exact ih _ _ _ _ halign hlt

end IosLinuxkit.Kernel
