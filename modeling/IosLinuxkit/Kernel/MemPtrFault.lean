import IosLinuxkit.Kernel.Mremap
import IosLinuxkit.Kernel.OnePage

/-!
# When `mem_ptr` returns a pointer

A call runs in lock intervals, and other threads run between them.

* `IntervalOk`, **`intervalOk_run`** — what every interval does, whatever happened in between: a pointer belongs
  to the entry that is there when the call returns, and a fault has a reason.
* **`memPtr_faults`** — both together.
-/

namespace IosLinuxkit.Kernel

variable {v v' : Vm} {limit : Option Nat} {p addr : Nat} {type : AccessType} {c : PtrCall} {e : PtEntry}
  {ptr : Option HostPtr} {f flags : Flags} {inJit : Bool}

/-! ## Rights -/

/-- The flags permit the access: a write of the guest needs `P_WRITE`, one of a debugger some right, and a read
nothing, as `P_READ` is ignored. -/
def permits (type : AccessType) (f : Flags) : Bool :=
  match type with
  | .read => true
  | .write => Flags.any f Flags.write
  | .writePtrace => Flags.any f Flags.rwx

abbrev stackFlags : Flags := Flags.read ||| Flags.write ||| Flags.growsdown ||| Flags.anonymous

def reservedPageFlags (f : Flags) : Flags := f &&& ~~~Flags.growsdown ||| Flags.anonymous

/-- The flags of the entry that a fault finds or makes. -/
def faultFlags (m : Mem) (limit : Option Nat) (p : Nat) : Option Flags :=
  match memPt m p, memFindReservation m p with
  | some e, _ => some e.flags
  | none, some res => if Flags.any res.flags Flags.rwx then some (reservedPageFlags res.flags) else none
  | none, none => if growsDownTo m p && withinStackLimit limit p then some stackFlags else none

/-- There is or can be an entry, and it permits the access. -/
def Accessible (m : Mem) (limit : Option Nat) (p : Nat) (type : AccessType) : Prop :=
  ∃ f, faultFlags m limit p = some f ∧ permits type f = true

instance (m : Mem) (limit : Option Nat) (p : Nat) (type : AccessType) : Decidable (Accessible m limit p type) :=
  decidable_of_iff ((faultFlags m limit p).any (permits type) = true) (by simp [Accessible, Option.any_eq_true])

/-- The host refuses neither a lock nor memory. -/
structure Generous (h : Host) : Prop where
  script : h.script = []
  room : h.anonPageCount + 1 ≤ anonMmapLimitPages

/-! ## What an interval may put in place -/

/-- The page that an interval brings, with its bytes. -/
inductive Brings (v : Vm) (limit : Option Nat) (p : Nat) (type : AccessType) : Flags → (Nat → UInt8) → Prop
  /-- a page of a reservation that gives some right -/
  | reserved (res : Reservation) (hnone : memPt v.mem p = none) (hres : memFindReservation v.mem p = some res)
      (hrwx : Flags.any res.flags Flags.rwx = true) : Brings v limit p type (reservedPageFlags res.flags) zeroFill
  /-- a page of a stack; where there is a reservation the stack does not grow -/
  | stack (hnone : memPt v.mem p = none) (hres : memFindReservation v.mem p = none)
      (hgrows : growsDownTo v.mem p = true) (hlimit : withinStackLimit limit p = true) :
      Brings v limit p type stackFlags zeroFill
  /-- a copy of a page that is shared since a fork, or that a debugger writes -/
  | copy (e : PtEntry) (he : memPt v.mem p = some e)
      (hcow : Flags.any e.flags Flags.cow = true ∨ type = .writePtrace) (hrwx : Flags.any e.flags Flags.rwx = true) :
      Brings v limit p type (copyFlags type e.flags) (pageBytes v.host e)

/-- Nothing has changed, or the page has been put in place and no other. -/
def BringsOnly (v v' : Vm) (limit : Option Nat) (p : Nat) (type : AccessType) : Prop :=
  Unchanged v v' ∨ ∃ flags contents, Brings v limit p type flags contents ∧ Replaced v v' p flags contents

theorem growStack_beyond (hlimit : ¬ withinStackLimit limit p = true) : growStack v limit p = v := by
  refine if_neg fun hc => hlimit ?_
  rw [Bool.and_eq_true, Bool.and_eq_true] at hc
  exact hc.1.2

theorem bringsOnly_interval (c : PtrCall) (haddr : c.addr < wordMod) :
    BringsOnly v (memPtrStep v limit c).1 limit (page c.addr) c.type := by
  have hstep : PageStep v (memPtrStep v limit c).1 (page c.addr) c.type c.phase := pageStep_memPtrStep c haddr
  generalize hphase : c.phase = phase at hstep
  cases hstep with
  | same hu => exact .inl hu
  | grown hnone hgrows hres hr =>
    by_cases hlimit : withinStackLimit limit (page c.addr) = true
    · exact .inr ⟨_, _, .stack hnone hres hgrows hlimit, hr⟩
    · -- beyond the limit the interval only takes the lock
      left
      unfold memPtrStep
      rw [hphase]
      dsimp only
      split
      · rw [growStack_beyond hlimit]
        exact .of_sameHost (sameHost_acquireWrite v.host c.inJit)
      · exact .of_sameHost (sameHost_acquireWrite v.host c.inJit)
  | materialised res hnone hres hrwx hr => exact .inr ⟨_, _, .reserved res hnone hres hrwx, hr⟩
  | copied e he hcow hrwx hr => exact .inr ⟨_, _, .copy e he hcow hrwx, hr⟩

/-! ## When an interval fails -/

theorem attempt_granted {h : Host} (hs : h.script = []) : h.attempt = (true, h) := by
  unfold Host.attempt
  rw [hs]

theorem acquireWrite_granted {h : Host} (hs : h.script = []) (inJit : Bool) : acquireWrite h inJit = (true, h) := by
  unfold acquireWrite
  split
  · exact attempt_granted hs
  · rfl

theorem mapRegion_granted (hs : v.host.script = []) (start pages : Nat) (contents : Nat → UInt8) (flags : Flags)
    (precharged : Bool) : (mapRegion v start pages contents flags precharged).1 = 0 := by
  unfold mapRegion
  rw [attempt_granted hs]
  dsimp only
  rw [if_pos rfl]
  unfold ptMapAccounted
  dsimp only
  rw [attempt_granted hs]
  rfl

theorem breakCow_granted (hp : p + 1 < wordMod) (hs : v.host.script = []) (he : memPt v.mem p = some e)
    (hcow : Flags.any e.flags Flags.cow = true ∨ type = .writePtrace) (hrwx : Flags.any e.flags Flags.rwx = true)
    (hw : type = .write → Flags.any e.flags Flags.write = true) : (breakCow v p type).1 = true ∧
      Replaced v (breakCow v p type).2 p (copyFlags type e.flags) (pageBytes v.host e) := by
  have hzero := mapRegion_granted hs p 1 (pageBytes v.host e) (copyFlags type e.flags) false
  rw [breakCow_eq he hcow hrwx hw, hzero]
  refine ⟨rfl, ?_⟩
  rcases mapRegion_one v (pageBytes v.host e) (copyFlags type e.flags) hp false with ⟨hneg, _⟩ | ⟨_, hrep⟩
  · rw [hzero] at hneg
    exact absurd hneg (by decide)
  · exact hrep

theorem breakCow_idle (he : memPt v.mem p = some e)
    (hno : ¬ (Flags.any e.flags Flags.cow = true ∨ type = .writePtrace)) : breakCow v p type = (true, v) := by
  unfold breakCow
  rw [he]
  exact if_neg hno

theorem breakCow_refused (he : memPt v.mem p = some e)
    (hcow : Flags.any e.flags Flags.cow = true ∨ type = .writePtrace) (hno : Flags.any e.flags Flags.rwx = false) :
    breakCow v p type = (false, v) := by
  unfold breakCow
  rw [he]
  dsimp only
  rw [if_pos hcow, hno]
  rfl

theorem writable_copyFlags (hw : Flags.any f Flags.write = true) (type : AccessType) :
    Flags.writable (copyFlags type f) = true := by
  have hkeep : Flags.any (copyFlags type f) Flags.write = true := by
    unfold copyFlags
    dsimp only
    split
    · rw [Flags.any_or, Flags.any_and, show ~~~Flags.cow &&& Flags.write = Flags.write by decide, hw, Bool.true_or]
    · rw [Flags.any_and, show ~~~Flags.cow &&& Flags.write = Flags.write by decide, hw]
  unfold Flags.writable
  rw [hkeep, Flags.not_cow_copyFlags]
  rfl

theorem accessible_mapped (he : memPt v.mem p = some e) :
    Accessible v.mem limit p type ↔ permits type e.flags = true := by
  unfold Accessible faultFlags
  rw [he]
  exact ⟨fun ⟨f, hf, hp⟩ => Option.some.inj hf ▸ hp, fun hp => ⟨_, rfl, hp⟩⟩

/-- What an interval of a call does: it brings at most the page that the fault is for; a pointer is that of the
entry that is there at the end; and a fault, if the host refuses nothing, means that the page was not accessible
when the interval began, or that the entry at the end does not permit the access as it is. -/
structure IntervalOk (v v' : Vm) (limit : Option Nat) (c c' : PtrCall) : Prop where
  brings : BringsOnly v v' limit (page c.addr) c.type
  pointer : ∀ ptr, c'.phase = .done (some ptr) → memPtrNofault v'.mem c.addr c.type = some ptr
  fault : c'.phase = .done none → Generous v.host → ¬ Accessible v.mem limit (page c.addr) c.type ∨
    memPtrNofault v'.mem c.addr c.type = none

def Sensible (c : PtrCall) : Prop := c.phase = .breakCow → c.type ≠ .read

theorem lookup_fault (h : lookupPhase v.mem limit p = .done none) : ¬ Accessible v.mem limit p type := by
  unfold lookupPhase at h
  rintro ⟨f, hf, -⟩
  unfold faultFlags at hf
  cases he : memPt v.mem p with
  | some e => simp [he] at h
  | none =>
    cases hres : memFindReservation v.mem p with
    | some res => simp [he, hres] at h
    | none =>
      rw [he, hres] at hf h
      cases hgrows : growsDownTo v.mem p with
      | false => simp [hgrows] at hf
      | true =>
        cases hlimit : withinStackLimit limit p with
        | false => simp [hlimit] at hf
        | true => simp [hgrows, hlimit] at h

theorem haveEntry_fault (h : haveEntryPhase v.mem p type = .done none) : ¬ Accessible v.mem limit p type := by
  unfold haveEntryPhase at h
  cases he : memPt v.mem p with
  | none =>
    rw [he] at h
    cases h
  | some e =>
    rw [accessible_mapped he]
    rw [he] at h
    cases type with
    | read => cases h
    | write =>
      dsimp only at h
      rw [if_neg (by decide)] at h
      intro hp
      rw [show permits .write e.flags = Flags.any e.flags Flags.write from rfl] at hp
      rw [if_neg (by simp [hp])] at h
      split at h <;> cases h
    | writePtrace =>
      dsimp only at h
      rw [if_neg (by decide), if_neg (fun hc => hc.1 rfl), if_pos (.inr rfl)] at h
      cases h

theorem breakCow_fault (hp : p + 1 < wordMod) (hs : v.host.script = []) (htype : type ≠ .read) (h : (breakCow v p type).1 = false) :
    ¬ Accessible v.mem limit p type := by
  cases he : memPt v.mem p with
  | none =>
    unfold breakCow at h
    rw [he] at h
    cases h
  | some e =>
    rw [accessible_mapped he]
    intro hperm
    by_cases hcow : Flags.any e.flags Flags.cow = true ∨ type = .writePtrace
    · have hok : (breakCow v p type).1 = true := by
        cases type with
        | read => exact absurd rfl htype
        | write => exact (breakCow_granted hp hs he hcow (rwx_of_write hperm) fun _ => hperm).1
        | writePtrace => exact (breakCow_granted hp hs he hcow hperm fun hc => AccessType.noConfusion hc).1
      rw [h] at hok
      cases hok
    · rw [breakCow_idle he hcow] at h
      cases h

theorem intervalOk_memPtrStep (haddr : c.addr < wordMod) (hc : Sensible c) (hrun : ∀ ptr, c.phase ≠ .done ptr) :
    IntervalOk v (memPtrStep v limit c).1 limit c (memPtrStep v limit c).2 := by
  refine ⟨bringsOnly_interval c haddr, fun ptr hdone => ?_, fun hdone hhost => ?_⟩
  · obtain ⟨hsame, hptr⟩ := memPtrStep_done hrun hdone
    rw [hsame]
    exact hptr
  have hlock := acquireWrite_granted hhost.script c.inJit
  unfold memPtrStep at hdone ⊢
  cases hphase : c.phase with
  | lookup =>
    rw [hphase] at hdone
    exact .inl (lookup_fault hdone)
  | grow =>
    simp only [hphase, hlock, if_true] at hdone
    cases hdone
  | materialise =>
    simp only [hphase, hlock, if_true] at hdone
    cases hdone
  | haveEntry =>
    rw [hphase] at hdone
    exact .inl (haveEntry_fault hdone)
  | breakCow =>
    simp only [hphase] at hdone
    cases hbreak : (breakCow v (page c.addr) c.type).1 with
    | true =>
      rw [hbreak] at hdone
      cases hdone
    | false => exact .inl (breakCow_fault (page_succ_lt haddr) hhost.script (hc hphase) hbreak)
  | resolve =>
    simp only [hphase] at hdone
    exact .inr (PtrPhase.done.inj hdone)
  | done ptr => exact absurd hphase (hrun ptr)

/-! ## A call among other threads -/

/-- An interval of the call, under the stack limit of that time, or whatever other threads do to the address
space while the call holds no lock. -/
inductive PtrLabel where
  | interval (limit : Option Nat)
  | other (change : Vm → Vm)

def PtrLabel.isInterval : PtrLabel → Bool
  | .interval _ => true
  | .other _ => false

def ptrStep (s : Vm × PtrCall) : PtrLabel → Vm × PtrCall
  | .interval limit => memPtrStep s.1 limit s.2
  | .other change => (change s.1, s.2)

/-- The intervals until the call returns are what they should be. -/
def PtrOk (s : Vm × PtrCall) : PtrLabel → Prop
  | .interval limit => (∀ ptr, s.2.phase ≠ .done ptr) →
      IntervalOk s.1 (memPtrStep s.1 limit s.2).1 limit s.2 (memPtrStep s.1 limit s.2).2
  | .other _ => True

structure PtrInv (s : Vm × PtrCall) : Prop where
  addr : s.2.addr < wordMod
  sensible : Sensible s.2

theorem haveEntryPhase_breakCow (h : haveEntryPhase v.mem p type = .breakCow) : type ≠ .read := by
  rintro rfl
  unfold haveEntryPhase at h
  split at h
  · cases h
  · rw [if_pos rfl] at h
    cases h

theorem sensible_memPtrStep (hc : Sensible c) : Sensible (memPtrStep v limit c).2 := by
  intro hbreak
  rw [(memPtrStep_call v limit c).2]
  unfold memPtrStep at hbreak
  cases hphase : c.phase with
  | lookup =>
    simp only [hphase, lookupPhase] at hbreak
    split_ifs at hbreak
  | grow =>
    simp only [hphase] at hbreak
    split_ifs at hbreak
  | materialise =>
    simp only [hphase] at hbreak
    split_ifs at hbreak
  | haveEntry =>
    simp only [hphase] at hbreak
    exact haveEntryPhase_breakCow hbreak
  | breakCow => exact hc hphase
  | resolve =>
    simp only [hphase] at hbreak
    cases hbreak
  | done ptr =>
    simp only [hphase] at hbreak
    cases hbreak

theorem PtrInv.step {s : Vm × PtrCall} (h : PtrInv s) (l : PtrLabel) : PtrInv (ptrStep s l) := by
  cases l with
  | interval limit => exact ⟨by rw [ptrStep, (memPtrStep_call s.1 limit s.2).1]; exact h.addr, sensible_memPtrStep h.sensible⟩
  | other change => exact ⟨h.addr, h.sensible⟩

theorem PtrInv.ok {s : Vm × PtrCall} (h : PtrInv s) (l : PtrLabel) : PtrOk s l := by
  cases l with
  | interval limit => exact intervalOk_memPtrStep h.addr h.sensible
  | other change => trivial

theorem intervalOk_run (v : Vm) (haddr : addr < wordMod) (type : AccessType) (inJit : Bool) (labels : List PtrLabel) :
    AllSteps ptrStep PtrOk (v, PtrCall.start addr type inJit) labels := by
  have hstart : PtrInv (v, PtrCall.start addr type inJit) := ⟨haddr, fun hc => PtrPhase.noConfusion hc⟩
  exact allSteps_of_inv (fun _ l h => h.step l) (fun _ l h => h.ok l) hstart

/-! ## The call returns -/

def PtrPhase.rank : PtrPhase → Nat
  | .lookup => 5
  | .grow => 4
  | .materialise => 4
  | .haveEntry => 3
  | .breakCow => 2
  | .resolve => 1
  | .done _ => 0

theorem rank_memPtrStep (v : Vm) (limit : Option Nat) (c : PtrCall) :
    (memPtrStep v limit c).2.phase.rank ≤ c.phase.rank - 1 := by
  unfold memPtrStep
  dsimp only
  cases hphase : c.phase with
  | lookup =>
    dsimp only
    unfold lookupPhase
    split_ifs <;> simp [PtrPhase.rank]
  | grow =>
    dsimp only
    split_ifs <;> simp [PtrPhase.rank]
  | materialise =>
    dsimp only
    split_ifs <;> simp [PtrPhase.rank]
  | haveEntry =>
    dsimp only
    unfold haveEntryPhase
    split
    · simp [PtrPhase.rank]
    · split_ifs <;> simp [PtrPhase.rank]
  | breakCow =>
    dsimp only
    split_ifs <;> simp [PtrPhase.rank]
  | resolve => simp [PtrPhase.rank]
  | done ptr => simp [PtrPhase.rank, hphase]

theorem rank_run (labels : List PtrLabel) (s : Vm × PtrCall) :
    (run ptrStep s labels).2.phase.rank ≤ s.2.phase.rank - labels.countP PtrLabel.isInterval := by
  induction labels generalizing s with
  | nil => exact Nat.le_refl _
  | cons l labels ih =>
    have hrest := ih (ptrStep s l)
    rw [run_cons, List.countP_cons]
    cases l with
    | interval limit =>
      have hstep : (ptrStep s (.interval limit)).2.phase.rank ≤ s.2.phase.rank - 1 := rank_memPtrStep s.1 limit s.2
      rw [if_pos (show PtrLabel.isInterval (.interval limit) = true from rfl)]
      omega
    | other change => exact hrest

theorem returns_run (s : Vm × PtrCall) {labels : List PtrLabel} (hcount : 5 ≤ labels.countP PtrLabel.isInterval) :
    ∃ ptr, (run ptrStep s labels).2.phase = .done ptr := by
  have hrank := rank_run labels s
  have hle : s.2.phase.rank ≤ 5 := by
    cases s.2.phase <;> simp [PtrPhase.rank]
  generalize (run ptrStep s labels).2.phase = phase at hrank
  cases phase with
  | done ptr => exact ⟨ptr, rfl⟩
  | lookup => exact absurd hrank (by show ¬ 5 ≤ _; omega)
  | grow => exact absurd hrank (by show ¬ 4 ≤ _; omega)
  | materialise => exact absurd hrank (by show ¬ 4 ≤ _; omega)
  | haveEntry => exact absurd hrank (by show ¬ 3 ≤ _; omega)
  | breakCow => exact absurd hrank (by show ¬ 2 ≤ _; omega)
  | resolve => exact absurd hrank (by show ¬ 1 ≤ _; omega)

/-! ## A call that nobody disturbs -/

def PtrCall.enter (c : PtrCall) (phase : PtrPhase) : PtrCall := { c with phase := phase }

def Yields (limit : Option Nat) (n : Nat) (s : Vm × PtrCall) (found : Bool) : Prop :=
  ∃ v ptr, memPtrSteps limit n s = (v, s.2.enter (.done ptr)) ∧ ptr.isSome = found

theorem yields_done (limit : Option Nat) (n : Nat) (v : Vm) (c : PtrCall) (ptr : Option HostPtr) :
    Yields limit n (v, c.enter (.done ptr)) ptr.isSome := by
  induction n with
  | zero => exact ⟨v, ptr, rfl, rfl⟩
  | succ n ih => exact ih

theorem Yields.step {n : Nat} {s : Vm × PtrCall} {found : Bool} (w : Vm) (phase : PtrPhase)
    (hstep : memPtrStep s.1 limit s.2 = (w, s.2.enter phase)) (h : Yields limit n (w, s.2.enter phase) found) :
    Yields limit (n + 1) s found := by
  obtain ⟨u, ptr, hsteps, hptr⟩ := h
  refine ⟨u, ptr, ?_, hptr⟩
  show memPtrSteps limit n (memPtrStep s.1 limit s.2) = _
  rw [hstep, hsteps]
  rfl

theorem yields_resolve (limit : Option Nat) (n : Nat) (v : Vm) (c : PtrCall) :
    Yields limit (n + 1) (v, c.enter .resolve) (memPtrNofault v.mem c.addr c.type).isSome :=
  Yields.step v (.done (memPtrNofault v.mem c.addr c.type)) rfl (yields_done ..)

theorem nofault_isSome_iff {m : Mem} (he : memPt m (page addr) = some e) :
    (memPtrNofault m addr type).isSome = true ↔ (type = .write → Flags.writable e.flags = true) := by
  unfold memPtrNofault
  rw [he]
  dsimp only
  split
  case isTrue hc => exact ⟨fun h => absurd h (by simp), fun h => absurd (h hc.1) hc.2⟩
  case isFalse hc => exact ⟨fun _ ht => not_not.mp fun hno => hc ⟨ht, hno⟩, fun _ => rfl⟩

theorem yields_noEntry (n : Nat) (c : PtrCall) (hnone : memPt v.mem (page c.addr) = none) :
    Yields limit (n + 2) (v, c.enter .haveEntry) false := by
  have hphase : haveEntryPhase v.mem (page c.addr) c.type = .resolve := by
    unfold haveEntryPhase
    rw [hnone]
  have hptr : memPtrNofault v.mem c.addr c.type = none := by
    unfold memPtrNofault
    rw [hnone]
  refine Yields.step v .resolve ?_ ?_
  · show (v, c.enter (haveEntryPhase v.mem (page c.addr) c.type)) = _
    rw [hphase]
    rfl
  have h := yields_resolve limit n v c
  rw [hptr] at h
  exact h

theorem yields_found (n : Nat) (c : PtrCall) (he : memPt v.mem (page c.addr) = some e)
    (hw : c.type = .write → Flags.writable e.flags = true) : Yields limit (n + 1) (v, c.enter .resolve) true := by
  have h := yields_resolve limit n v c
  rw [(nofault_isSome_iff he).mpr hw] at h
  exact h

theorem yields_breakCow (n : Nat) (c : PtrCall) (haddr : c.addr < wordMod) (hs : v.host.script = [])
    (he : memPt v.mem (page c.addr) = some e) (hcow : Flags.any e.flags Flags.cow = true ∨ c.type = .writePtrace)
    (hread : c.type ≠ .read) (hw : c.type = .write → Flags.any e.flags Flags.write = true) :
    Yields limit (n + 2) (v, c.enter .breakCow) (permits c.type e.flags) := by
  have hperm : permits c.type e.flags = Flags.any e.flags Flags.rwx := by
    cases htype : c.type with
    | read => exact absurd htype hread
    | write => exact (hw htype).trans (rwx_of_write (hw htype)).symm
    | writePtrace => rfl
  rw [hperm]
  refine Yields.step (breakCow v (page c.addr) c.type).2
    (if (breakCow v (page c.addr) c.type).1 then .resolve else .done none) rfl ?_
  show Yields limit (n + 1) (_, c.enter _) _
  cases hrwx : Flags.any e.flags Flags.rwx with
  | false =>
    rw [breakCow_refused he hcow hrwx]
    exact yields_done limit (n + 1) v c none
  | true =>
    obtain ⟨hdone, hrep⟩ := breakCow_granted (page_succ_lt haddr) hs he hcow hrwx hw
    have hentry := hrep.entry (page c.addr)
    rw [if_pos rfl] at hentry
    rw [hdone, if_pos rfl]
    exact yields_found n c hentry fun ht => writable_copyFlags (hw ht) c.type

theorem yields_entry (n : Nat) (c : PtrCall) (haddr : c.addr < wordMod) (hs : v.host.script = [])
    (he : memPt v.mem (page c.addr) = some e) :
    Yields limit (n + 3) (v, c.enter .haveEntry) (permits c.type e.flags) := by
  have hphase : haveEntryPhase v.mem (page c.addr) c.type = if c.type = .read then .resolve
      else if c.type ≠ .writePtrace ∧ ¬ Flags.any e.flags Flags.write = true then .done none
      else if Flags.any e.flags Flags.cow = true ∨ c.type = .writePtrace then .breakCow
      else .resolve := by
    unfold haveEntryPhase
    rw [he]
  refine Yields.step v _ rfl ?_
  show Yields limit (n + 2) (v, c.enter (haveEntryPhase v.mem (page c.addr) c.type)) _
  rw [hphase]
  cases htype : c.type with
  | read =>
    rw [if_pos rfl]
    exact yields_found (n + 1) c he fun hw => by rw [htype] at hw; cases hw
  | write =>
    rw [if_neg (by decide)]
    cases hw : Flags.any e.flags Flags.write with
    | false =>
      rw [if_pos ⟨by decide, by decide⟩, show permits .write e.flags = false from hw]
      exact yields_done limit (n + 2) v c none
    | true =>
      rw [if_neg (fun hc => hc.2 rfl)]
      cases hcow : Flags.any e.flags Flags.cow with
      | true =>
        rw [if_pos (.inl rfl), ← htype]
        exact yields_breakCow n c haddr hs he (.inl hcow) (by rw [htype]; decide) fun _ => hw
      | false =>
        rw [if_neg (by decide), show permits .write e.flags = true from hw]
        refine yields_found (n + 1) c he fun _ => ?_
        unfold Flags.writable
        rw [hw, hcow]
        rfl
  | writePtrace =>
    rw [if_neg (by decide), if_neg (fun hc => hc.1 rfl), if_pos (.inr rfl), ← htype]
    exact yields_breakCow n c haddr hs he (.inr htype) (by rw [htype]; decide) fun hw => by rw [htype] at hw; cases hw

theorem ptMapNothing_granted (hp : p + 1 < wordMod) (hhost : Generous v.host) (hnone : memPt v.mem p = none)
    (flags : Flags) : 0 ≤ (ptMapNothing v p 1 flags).1 ∧ (ptMapNothing v p 1 flags).2.host.script = [] ∧
      memPt (ptMapNothing v p 1 flags).2.mem p = some ⟨v.host.nextData, 0, flags ||| Flags.anonymous⟩ := by
  have hafford : affords v.host flags 1 = true := by
    have hroom : v.host.anonPageCount + 1 ≤ 1048576 := hhost.room
    have hok : ¬ (toLong 1 > anonMmapLimitPages ∨ v.host.anonPageCount > anonMmapLimitPages - toLong 1) := by
      show ¬ ((1 : Int) > 1048576 ∨ v.host.anonPageCount > 1048576 - 1)
      omega
    unfold affords reserveIf anonPagesReserve
    rw [if_neg hok]
    split <;> rfl
  have hgrants : v.host.grants 2 := by
    unfold Host.grants
    rw [hhost.script]
    exact fun b hb => absurd hb List.not_mem_nil
  rcases ptMapNothing_hole (v := v) Nat.one_pos (by decide) hp
      (fun i hi => by rw [Nat.lt_one_iff.mp hi]; exact hnone) flags with ⟨-, -, hzero, hm⟩ | ⟨hno, -⟩
  · refine ⟨Int.le_of_eq hzero.symm, ?_, ?_⟩
    · rw [hm.script, hhost.script]
      rfl
    · have hentry := hm.entry 0 Nat.one_pos
      rwa [Nat.zero_mul] at hentry
  · exact absurd ⟨hafford, hgrants⟩ hno

def Resolved (m : Mem) (limit : Option Nat) (w : Vm) (p : Nat) : Prop :=
  w.host.script = [] ∧ (memPt w.mem p).map PtEntry.flags = faultFlags m limit p

theorem resolved_growStack (hp : p + 1 < wordMod) (hhost : Generous v.host) (hnone : memPt v.mem p = none)
    (hres : memFindReservation v.mem p = none) : Resolved v.mem limit (growStack v limit p) p := by
  obtain ⟨hdone, hs, hentry⟩ := ptMapNothing_granted hp hhost hnone (Flags.read ||| Flags.write ||| Flags.growsdown)
  have hflags : faultFlags v.mem limit p =
      if growsDownTo v.mem p && withinStackLimit limit p then some stackFlags else none := by
    unfold faultFlags
    rw [hnone, hres]
  unfold Resolved
  rw [hflags]
  unfold growStack
  rw [hnone, hres]
  by_cases hcan : (growsDownTo v.mem p && withinStackLimit limit p) = true
  · rw [if_pos hcan, if_pos (by simpa using hcan)]
    dsimp only
    rw [if_pos hdone]
    exact ⟨hs, congrArg (Option.map PtEntry.flags) hentry⟩
  · rw [if_neg hcan, if_neg (by simpa using hcan), hnone]
    exact ⟨hhost.script, rfl⟩

theorem resolved_materialisePage (hp : p + 1 < wordMod) (hhost : Generous v.host) (hnone : memPt v.mem p = none)
    {res : Reservation} (hres : memFindReservation v.mem p = some res) :
    Resolved v.mem limit (materialisePage v p) p := by
  obtain ⟨hdone, hs, hentry⟩ := ptMapNothing_granted hp hhost hnone (res.flags &&& ~~~Flags.growsdown)
  have hflags : faultFlags v.mem limit p =
      if Flags.any res.flags Flags.rwx then some (reservedPageFlags res.flags) else none := by
    unfold faultFlags
    rw [hnone, hres]
  unfold Resolved
  rw [hflags]
  unfold materialisePage
  rw [hnone, hres]
  dsimp only
  by_cases hrwx : Flags.any res.flags Flags.rwx = true
  · rw [if_pos hrwx, if_pos hrwx, if_pos hdone]
    exact ⟨hs, congrArg (Option.map PtEntry.flags) hentry⟩
  · rw [if_neg hrwx, if_neg hrwx, hnone]
    exact ⟨hhost.script, rfl⟩

theorem yields_resolved {w : Vm} (n : Nat) (c : PtrCall) (haddr : c.addr < wordMod)
    (h : Resolved v.mem limit w (page c.addr)) :
    Yields limit (n + 3) (w, c.enter .haveEntry) (decide (Accessible v.mem limit (page c.addr) c.type)) := by
  obtain ⟨hs, hflags⟩ := h
  cases he : memPt w.mem (page c.addr) with
  | none =>
    rw [he] at hflags
    have hno : ¬ Accessible v.mem limit (page c.addr) c.type := by
      rintro ⟨f, hf, -⟩
      rw [← hflags] at hf
      cases hf
    rw [decide_eq_false hno]
    exact yields_noEntry (n + 1) c he
  | some e =>
    rw [he] at hflags
    have hsame : decide (Accessible v.mem limit (page c.addr) c.type) = permits c.type e.flags := by
      rw [Bool.eq_iff_iff, decide_eq_true_eq]
      unfold Accessible
      rw [← hflags]
      exact ⟨fun ⟨f, hf, hperm⟩ => Option.some.inj hf ▸ hperm, fun hperm => ⟨_, rfl, hperm⟩⟩
    rw [hsame]
    exact yields_entry n c haddr hs he

theorem step_grow (c : PtrCall) (hs : v.host.script = []) :
    memPtrStep v limit (c.enter .grow) = (growStack v limit (page c.addr), c.enter .haveEntry) := by
  unfold memPtrStep
  dsimp only [PtrCall.enter]
  rw [acquireWrite_granted hs]
  rfl

theorem step_materialise (c : PtrCall) (hs : v.host.script = []) :
    memPtrStep v limit (c.enter .materialise) = (materialisePage v (page c.addr), c.enter .haveEntry) := by
  unfold memPtrStep
  dsimp only [PtrCall.enter]
  rw [acquireWrite_granted hs]
  rfl

theorem yields_lookup (c : PtrCall) (haddr : c.addr < wordMod) (hhost : Generous v.host) :
    Yields limit 4 (v, c.enter (lookupPhase v.mem limit (page c.addr)))
      (decide (Accessible v.mem limit (page c.addr) c.type)) := by
  have hp := page_succ_lt haddr
  have hs := hhost.script
  unfold lookupPhase
  cases he : memPt v.mem (page c.addr) with
  | some e =>
    rw [if_pos (show (some e).isSome = true from rfl)]
    refine yields_resolved 1 c haddr ⟨hs, ?_⟩
    unfold faultFlags
    rw [he]
    rfl
  | none =>
    rw [if_neg (by decide)]
    cases hres : memFindReservation v.mem (page c.addr) with
    | some res =>
      rw [if_pos (show (some res).isSome = true from rfl)]
      exact Yields.step _ .haveEntry (step_materialise c hs)
        (yields_resolved 0 c haddr (resolved_materialisePage hp hhost he hres))
    | none =>
      rw [if_neg (by decide)]
      have hflags : faultFlags v.mem limit (page c.addr) =
          if growsDownTo v.mem (page c.addr) && withinStackLimit limit (page c.addr) then some stackFlags else none := by
        unfold faultFlags
        rw [he, hres]
      have hgrow : Yields limit 4 (v, c.enter .grow) (decide (Accessible v.mem limit (page c.addr) c.type)) :=
        Yields.step _ .haveEntry (step_grow c hs)
          (yields_resolved 0 c haddr (resolved_growStack hp hhost he hres))
      have hnever : ¬ (growsDownTo v.mem (page c.addr) && withinStackLimit limit (page c.addr)) = true →
          Yields limit 4 (v, c.enter (.done none)) (decide (Accessible v.mem limit (page c.addr) c.type)) := by
        intro hno
        rw [if_neg hno] at hflags
        rw [decide_eq_false fun ⟨f, hf, _⟩ => by rw [hflags] at hf; cases hf]
        exact yields_done limit 4 v c none
      by_cases hgrows : growsDownTo v.mem (page c.addr) = true
      · rw [hgrows, if_neg (by decide)]
        split
        case isTrue => exact hgrow
        case isFalse hlimit => exact hnever fun hc => hlimit ((Bool.and_eq_true _ _).mp hc).2
      · rw [Bool.eq_false_iff.mpr hgrows, if_pos (show (!false) = true from rfl)]
        exact hnever fun hc => hgrows ((Bool.and_eq_true _ _).mp hc).1

theorem memPtr_isSome_iff (haddr : addr < wordMod) (hhost : Generous v.host) :
    (memPtr v limit addr type inJit).2.isSome = true ↔ Accessible v.mem limit (page addr) type := by
  have hyields : Yields limit 5 (v, PtrCall.start addr type inJit)
      (decide (Accessible v.mem limit (page addr) type)) :=
    Yields.step v (lookupPhase v.mem limit (page addr)) rfl
      (yields_lookup (PtrCall.start addr type inJit) haddr hhost)
  obtain ⟨w, ptr, hsteps, hptr⟩ := hyields
  unfold memPtr
  dsimp only
  rw [hsteps]
  show ptr.isSome = true ↔ _
  rw [hptr, decide_eq_true_eq]

/-- **Faults**: in every run of a call among other threads each interval is what it should be and the call
returns; and undisturbed, with a host that refuses nothing, it returns a pointer exactly for an accessible page. -/
theorem memPtr_faults (addr : UInt64) (type : AccessType) (inJit : Bool) :
    (∀ v labels, AllSteps ptrStep PtrOk (v, PtrCall.start addr.toNat type inJit) labels ∧
      (5 ≤ labels.countP PtrLabel.isInterval →
        ∃ ptr, (run ptrStep (v, PtrCall.start addr.toNat type inJit) labels).2.phase = .done ptr)) ∧
    ∀ v limit, Generous v.host → ((memPtr v limit addr.toNat type inJit).2.isSome = true ↔
      Accessible v.mem limit (page addr.toNat) type) :=
  ⟨fun v labels => ⟨intervalOk_run v addr.toNat_lt type inJit labels, returns_run _⟩,
    fun _ _ hhost => memPtr_isSome_iff addr.toNat_lt hhost⟩

def onePageReserved (script : List Bool) : Vm where
  host := { datas := ∅, bytes := fun _ _ => 0, nextData := 0, anonPageCount := 0, script := script }
  mem := { memInit with reservations := [⟨16, 1, Flags.read ||| Flags.write ||| Flags.anonymous⟩] }

theorem memPtr_faults_reserved : Generous (onePageReserved []).host ∧
    ((memPtr (onePageReserved []) none 0x10000 .write true).2.isSome = true ↔
      Accessible (onePageReserved []).mem none 16 .write) := by
  have hhost : Generous (onePageReserved []).host := ⟨rfl, by decide⟩
  exact ⟨hhost, (memPtr_faults 0x10000 .write true).2 (onePageReserved []) none hhost⟩

/-- In the JIT the write lock is only tried: if another thread has it, the call returns no pointer. -/
theorem memPtr_contended : Accessible (onePageReserved [false]).mem none 16 .write ∧
    (memPtr (onePageReserved [false]) none 0x10000 .write true).2 = none ∧
    ¬ ((memPtr (onePageReserved [false]) none 0x10000 .write true).2.isSome = true ↔
      Accessible (onePageReserved [false]).mem none 16 .write) := by
  have hacc : Accessible (onePageReserved [false]).mem none 16 .write := by decide
  have hnone : (memPtr (onePageReserved [false]) none 0x10000 .write true).2 = none := by decide
  refine ⟨hacc, hnone, fun hiff => ?_⟩
  have hsome := hiff.mpr hacc
  rw [hnone] at hsome
  cases hsome

end IosLinuxkit.Kernel
