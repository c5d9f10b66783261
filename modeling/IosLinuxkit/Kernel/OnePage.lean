import IosLinuxkit.Kernel.RangeMadvise

/-!
# One page

What a lock interval of `mem_ptr` does to an address space: nothing, or one page gets memory of
its own.

* **`pageStep_memPtrStep`** — with what flags and contents, and why, for each interval.
-/

namespace IosLinuxkit.Kernel

/-! ## The two outcomes -/

/-- The table and the bytes are what they were. -/
structure Unchanged (v v' : Vm) : Prop where
  pt : v'.mem.pt = v.mem.pt
  reservations : v'.mem.reservations = v.mem.reservations
  bytes : v'.host.bytes = v.host.bytes
  next : v'.host.nextData = v.host.nextData

/-- Page `p` has got memory of its own. -/
structure Replaced (v v' : Vm) (p : Nat) (flags : Flags) (contents : Nat → UInt8) : Prop where
  entry : ∀ q, memPt v'.mem q =
    if slot q = slot p then some ⟨v.host.nextData, 0, flags⟩ else memPt v.mem q
  bytes : v'.host.bytes = Function.update v.host.bytes v.host.nextData contents
  next : v'.host.nextData = v.host.nextData + 1
  /-- only what was mapped is unmapped first -/
  reservations : memPt v.mem p = none → v'.mem.reservations = v.mem.reservations
  reserved : GoodReservations v.mem.reservations →
    ∀ q, q ≠ p → reservedFlags v'.mem q = reservedFlags v.mem q
  good : GoodReservations v.mem.reservations → GoodReservations v'.mem.reservations

section Outcomes

variable {v v' : Vm} {p : Nat} {flags : Flags} {contents : Nat → UInt8} {h : Host}

theorem Unchanged.refl (v : Vm) : Unchanged v v := ⟨rfl, rfl, rfl, rfl⟩

theorem Unchanged.of_sameHost (hs : SameHost v.host h) : Unchanged v ⟨h, v.mem⟩ :=
  ⟨rfl, rfl, hs.bytes, hs.nextData⟩

theorem Unchanged.entry (hu : Unchanged v v') (q : Nat) : memPt v'.mem q = memPt v.mem q := by
  rw [memPt, memPt, hu.pt]

theorem Unchanged.addAnon (hu : Unchanged v v') (k : Int) :
    Unchanged v ⟨v'.host.addAnon k, v'.mem⟩ :=
  ⟨hu.pt, hu.reservations, hu.bytes, hu.next⟩

theorem Replaced.changed (hr : Replaced v v' p flags contents) :
    Replaced v { v' with mem := v'.mem.changed } p flags contents :=
  ⟨hr.entry, hr.bytes, hr.next, hr.reservations, hr.reserved, hr.good⟩

theorem Replaced.after {w : Vm} (hu : Unchanged v w) (hr : Replaced w v' p flags contents) :
    Replaced v v' p flags contents where
  entry q := by rw [hr.entry, hu.next, hu.entry]
  bytes := by rw [hr.bytes, hu.bytes, hu.next]
  next := by rw [hr.next, hu.next]
  reservations hnone := by rw [hr.reservations (by rw [hu.entry, hnone]), hu.reservations]
  reserved hg q hq := by
    rw [hr.reserved (by rwa [hu.reservations]) q hq, reservedFlags_eq, reservedFlags_eq,
      hu.reservations]
  good hg := hr.good (by rwa [hu.reservations])

end Outcomes

/-! ## Mapping one page -/

section Mapping

variable (v : Vm) {p : Nat} (contents : Nat → UInt8) (flags : Flags)

theorem clearPage_none {p : Nat} (hnone : memPt v.mem p = none) : clearPage v p = v := by
  unfold clearPage
  rw [hnone]
  rfl

theorem replaced_mapPage (hp : p + 1 < wordMod) (size : Nat) :
    Replaced v (mapPage v.host.nextData p 0 flags ⟨v.host.newData size contents, v.mem⟩ p) p flags
      contents := by
  have hs := shrinks_clearPage ⟨v.host.newData size contents, v.mem⟩ p
  refine ⟨fun q => ?_, ?_, ?_, fun hnone => ?_, fun hg q hq => ?_, fun hg => ?_⟩
  · show memPt ((clearPage _ p).mem.setEntry p _) q = _
    rw [memPt_setEntry]
    split
    · rw [Nat.sub_self, Nat.zero_mul]
    case isFalse hq =>
      rw [memPt, clearPage_ne _ hp hq]
      rfl
  · show ((clearPage _ p).host.retainData _).bytes = _
    rw [retainData_bytes, hs.bytes_eq]
    rfl
  · show ((clearPage _ p).host.retainData _).nextData = _
    rw [retainData_nextData, hs.next_eq]
    rfl
  · show (clearPage ⟨v.host.newData size contents, v.mem⟩ p).mem.reservations = _
    rw [clearPage_none ⟨v.host.newData size contents, v.mem⟩ hnone]
  · exact clearPage_reserved hg hq
  · exact clearPage_good (v := ⟨v.host.newData size contents, v.mem⟩) hg p

theorem mapRegion_one (hp : p + 1 < wordMod) (precharged : Bool) :
    let r := mapRegion v p 1 contents flags precharged
    (r.1 < 0 ∧ Unchanged v r.2) ∨ (r.1 = 0 ∧ Replaced v r.2 p flags contents) := by
  have h1 : Unchanged v ⟨v.host.attempt.2, v.mem⟩ := .of_sameHost (sameHost_attempt v.host)
  unfold mapRegion
  dsimp only
  split
  · have h2 : Unchanged v ⟨v.host.attempt.2.attempt.2, v.mem⟩ :=
      .of_sameHost ((sameHost_attempt v.host).trans (sameHost_attempt _))
    unfold ptMapAccounted
    dsimp only
    split
    · right
      rw [pageRange_one hp]
      have hmap := replaced_mapPage ⟨v.host.attempt.2.attempt.2, v.mem⟩ contents flags hp
        ((1 * pageSize + 0) % wordMod)
      have hall := (hmap.after h2).changed
      refine ⟨rfl, ?_⟩
      split
      · exact ⟨hall.entry, hall.bytes, hall.next, hall.reservations, hall.reserved, hall.good⟩
      · exact hall
    · exact .inl ⟨eNOMEM_neg, h2⟩
  · exact .inl ⟨eNOMEM_neg, h1⟩

theorem refund_one {w : Vm} (hu : Unchanged v w) (hp : p + 1 < wordMod)
    (precharged charged : Bool) (k : Int) :
    let r := refundIf (mapRegion w p 1 contents flags precharged) charged k
    (r.1 < 0 ∧ Unchanged v r.2) ∨ (r.1 = 0 ∧ Replaced v r.2 p flags contents) := by
  unfold refundIf
  dsimp only
  rcases mapRegion_one w contents flags hp precharged with ⟨hneg, hsame⟩ | ⟨hz, hrep⟩
  · have hall : Unchanged v (mapRegion w p 1 contents flags precharged).2 :=
      ⟨hsame.pt.trans hu.pt, hsame.reservations.trans hu.reservations,
        hsame.bytes.trans hu.bytes, hsame.next.trans hu.next⟩
    left
    split
    · exact ⟨hneg, hall.addAnon _⟩
    · exact ⟨hneg, hall⟩
  · right
    rw [if_neg (fun hc => by omega)]
    exact ⟨hz, hrep.after hu⟩

theorem ptMapNothing_one (hp : p + 1 < wordMod) :
    let r := ptMapNothing v p 1 flags
    (r.1 < 0 ∧ Unchanged v r.2) ∨
      (r.1 = 0 ∧ Replaced v r.2 p (flags ||| Flags.anonymous) zeroFill) := by
  unfold ptMapNothing
  rw [if_neg (by decide)]
  dsimp only
  split
  · exact .inl ⟨eNOMEM_neg, .refl v⟩
  case h_2 h hr =>
    obtain rfl := reserveIf_some hr
    exact refund_one v zeroFill _ ((Unchanged.refl v).addAnon _) hp _ _ _

end Mapping

/-! ## The section of `mem_ptr` that copies -/

section Copy

variable {v : Vm} {p : Nat} {type : AccessType} {e : PtEntry} {f : Flags}

theorem rwx_of_write (hw : Flags.any f Flags.write = true) : Flags.any f Flags.rwx = true := by
  unfold Flags.any at hw ⊢
  rw [bne_iff_ne] at hw ⊢
  intro hzero
  refine hw ?_
  rw [show Flags.write = Flags.rwx &&& Flags.write by decide, ← BitVec.and_assoc, hzero]
  rfl

theorem charged_copyFlags (hrwx : Flags.any f Flags.rwx = true) :
    (!Flags.charged f && Flags.charged (copyFlags type f)) = false := by
  have hanon : Flags.any (copyFlags type f) Flags.anonymous = Flags.any f Flags.anonymous := by
    unfold copyFlags
    dsimp only
    split
    · rw [Flags.any_or, Flags.any_and, show ~~~Flags.cow &&& Flags.anonymous = Flags.anonymous by decide,
        show Flags.any Flags.write Flags.anonymous = false by decide, Bool.or_false]
    · rw [Flags.any_and, show ~~~Flags.cow &&& Flags.anonymous = Flags.anonymous by decide]
  unfold Flags.charged
  rw [hanon, hrwx]
  cases Flags.any f Flags.anonymous <;> rfl

theorem breakCow_eq (he : memPt v.mem p = some e) (hcow : Flags.any e.flags Flags.cow = true ∨ type = .writePtrace)
    (hrwx : Flags.any e.flags Flags.rwx = true) (hw : type = .write → Flags.any e.flags Flags.write = true) :
    breakCow v p type =
      (decide (0 ≤ (mapRegion v p 1 (pageBytes v.host e) (copyFlags type e.flags) false).1),
        (mapRegion v p 1 (pageBytes v.host e) (copyFlags type e.flags) false).2) := by
  have hok : ¬ (!Flags.any e.flags Flags.rwx || type = .write && !Flags.any e.flags Flags.write) = true := by
    rw [hrwx, Bool.not_true, Bool.false_or, Bool.and_eq_true, decide_eq_true_eq]
    rintro ⟨ht, hno⟩
    rw [hw ht] at hno
    cases hno
  unfold breakCow
  rw [he]
  dsimp only
  rw [if_pos hcow, if_neg hok, charged_copyFlags hrwx]
  show (decide (0 ≤ (refundIf _ false 1).1), (refundIf _ false 1).2) = _
  unfold refundIf
  rw [if_neg (fun h => Bool.false_ne_true h.2)]

end Copy

/-! ## The intervals of `mem_ptr` -/

theorem page_succ_lt {addr : Nat} (haddr : addr < wordMod) : page addr + 1 < wordMod := by
  have hle := page_le addr haddr
  simp only [pageSpanBound, wordMod] at *
  omega

inductive PageStep (v v' : Vm) (p : Nat) (type : AccessType) : PtrPhase → Prop
  | same {phase : PtrPhase} (hu : Unchanged v v') : PageStep v v' p type phase
  /-- the stack has grown by the page -/
  | grown (hnone : memPt v.mem p = none) (hgrows : growsDownTo v.mem p = true)
      (hres : memFindReservation v.mem p = none)
      (hr : Replaced v v' p (Flags.read ||| Flags.write ||| Flags.growsdown ||| Flags.anonymous)
        zeroFill) : PageStep v v' p type .grow
  /-- a page of an accessible reservation is there -/
  | materialised (res : Reservation) (hnone : memPt v.mem p = none)
      (hres : memFindReservation v.mem p = some res) (hrwx : Flags.any res.flags Flags.rwx = true)
      (hr : Replaced v v' p (res.flags &&& ~~~Flags.growsdown ||| Flags.anonymous) zeroFill) :
      PageStep v v' p type .materialise
  /-- the page has a copy of its own -/
  | copied (e : PtEntry) (he : memPt v.mem p = some e)
      (hcow : Flags.any e.flags Flags.cow = true ∨ type = .writePtrace)
      (hrwx : Flags.any e.flags Flags.rwx = true)
      (hr : Replaced v v' p (copyFlags type e.flags) (pageBytes v.host e)) :
      PageStep v v' p type .breakCow

section Steps

variable {v : Vm} {p : Nat} {limit : Option Nat} {type : AccessType}

theorem published_one {P : Vm → Prop} {r : Int × Vm} {flags : Flags} {contents : Nat → UInt8}
    (hone : (r.1 < 0 ∧ Unchanged v r.2) ∨ (r.1 = 0 ∧ Replaced v r.2 p flags contents))
    (hsame : ∀ w, Unchanged v w → P w) (hrep : ∀ w, Replaced v w p flags contents → P w) :
    P (if 0 ≤ r.1 then { r.2 with mem := r.2.mem.changed } else r.2) := by
  rcases hone with ⟨hneg, hu⟩ | ⟨hz, hr⟩
  · rw [if_neg (by omega)]
    exact hsame _ hu
  · rw [if_pos (by omega)]
    exact hrep _ hr.changed

theorem pageStep_growStack (hp : p + 1 < wordMod) :
    PageStep v (growStack v limit p) p type .grow := by
  unfold growStack
  split
  case isTrue hc =>
    simp only [Bool.and_eq_true, Option.isNone_iff_eq_none] at hc
    dsimp only
    exact published_one (P := fun w => PageStep v w p type .grow) (ptMapNothing_one v _ hp)
      (fun _ => .same) fun _ => .grown hc.1.1.1 hc.1.1.2 hc.2
  case isFalse => exact .same (.refl v)

theorem pageStep_materialisePage (hp : p + 1 < wordMod) :
    PageStep v (materialisePage v p) p type .materialise := by
  unfold materialisePage
  split
  case h_1 res hnone hres =>
    split
    case isTrue hrwx =>
      dsimp only
      exact published_one (P := fun w => PageStep v w p type .materialise) (ptMapNothing_one v _ hp)
        (fun _ => .same) fun _ => .materialised res hnone hres hrwx
    case isFalse => exact .same (.refl v)
  case h_2 => exact .same (.refl v)

theorem pageStep_breakCow (hp : p + 1 < wordMod) :
    PageStep v (breakCow v p type).2 p type .breakCow := by
  unfold breakCow
  split
  case h_1 => exact .same (.refl v)
  case h_2 e he =>
    split
    case isFalse => exact .same (.refl v)
    case isTrue hcow =>
      dsimp only
      split
      case isTrue => exact .same (.refl v)
      case isFalse hok =>
        rw [Bool.or_eq_true, not_or] at hok
        have hrwx : Flags.any e.flags Flags.rwx = true := by
          cases ha : Flags.any e.flags Flags.rwx with
          | true => rfl
          | false => exact absurd (by rw [ha]; rfl) hok.1
        split
        case h_1 => exact .same (.refl v)
        case h_2 h hr =>
          obtain rfl := reserveIf_some hr
          rcases refund_one v (pageBytes v.host e) (copyFlags type e.flags)
            ((Unchanged.refl v).addAnon _) hp _ _ _ with ⟨_, hu⟩ | ⟨_, hrep⟩
          · exact .same hu
          · exact .copied e he hcow hrwx hrep

theorem PageStep.after {w v' : Vm} {phase : PtrPhase} (hm : w.mem = v.mem) (hb : w.host.bytes = v.host.bytes)
    (hn : w.host.nextData = v.host.nextData) (h : PageStep w v' p type phase) :
    PageStep v v' p type phase := by
  have hu : Unchanged v w := ⟨by rw [hm], by rw [hm], hb, hn⟩
  cases h with
  | same hu' =>
    exact .same ⟨hu'.pt.trans hu.pt, hu'.reservations.trans hu.reservations,
      hu'.bytes.trans hu.bytes, hu'.next.trans hu.next⟩
  | grown hnone hgrows hres hr =>
    rw [hm] at hnone hgrows hres
    exact .grown hnone hgrows hres (hr.after hu)
  | materialised res hnone hres hrwx hr =>
    rw [hm] at hnone hres
    exact .materialised res hnone hres hrwx (hr.after hu)
  | copied e he hcow hrwx hr =>
    rw [hm] at he
    have hbytes : pageBytes w.host e = pageBytes v.host e := by
      unfold pageBytes
      rw [hb]
    rw [hbytes] at hr
    exact .copied e he hcow hrwx (hr.after hu)

theorem pageStep_memPtrStep (c : PtrCall) (haddr : c.addr < wordMod) :
    PageStep v (memPtrStep v limit c).1 (page c.addr) c.type c.phase := by
  have hp : page c.addr + 1 < wordMod := page_succ_lt haddr
  have hacq := sameHost_acquireWrite v.host c.inJit
  unfold memPtrStep
  dsimp only
  cases c.phase with
  | lookup => exact .same (.refl v)
  | grow =>
    dsimp only
    split
    · exact PageStep.after (w := ⟨(acquireWrite v.host c.inJit).2, v.mem⟩) rfl hacq.bytes
        hacq.nextData (pageStep_growStack hp)
    · exact .same (.of_sameHost hacq)
  | materialise =>
    dsimp only
    split
    · exact PageStep.after (w := ⟨(acquireWrite v.host c.inJit).2, v.mem⟩) rfl hacq.bytes hacq.nextData
        (pageStep_materialisePage hp)
    · exact .same (.of_sameHost hacq)
  | haveEntry => exact .same (.refl v)
  | breakCow => exact pageStep_breakCow hp
  | resolve => exact .same (.refl v)
  | done ptr => exact .same (.refl v)

end Steps

end IosLinuxkit.Kernel
