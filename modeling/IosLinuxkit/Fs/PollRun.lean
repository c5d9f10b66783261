import IosLinuxkit.Fs.Poll

/-!
# Polls over a run

* **`pollWait_run`** — every run whose callbacks have room.
-/

namespace IosLinuxkit.Fs.Poll

variable {κ : Type} {callback : κ → Types → BitVec 64 → Int × κ} {ready : Nat → Types} {context : κ}
  {fds : List PollFd} {r : PollFd} {x : Scanned} {a b c d types : Types} {op : PollOp κ}

/-! ## Bits -/

theorem within_iff : Within a b ↔ ∀ i, i < 32 → a.getLsbD i = true → b.getLsbD i = true := by
  constructor
  · intro h i hi ha
    have hbit : (a &&& ~~~b).getLsbD i = false := by
      rw [h]
      exact BitVec.getLsbD_zero
    rw [BitVec.getLsbD_and, BitVec.getLsbD_not, ha] at hbit
    simpa [hi] using hbit
  intro h
  refine BitVec.eq_of_getLsbD_eq fun i hi => ?_
  rw [BitVec.getLsbD_and, BitVec.getLsbD_not, BitVec.getLsbD_zero]
  cases ha : a.getLsbD i with
  | false => rfl
  | true => simp [hi, h i hi ha]

theorem within_refl (a : Types) : Within a a := within_iff.mpr fun _ _ h => h

theorem zero_within (a : Types) : Within 0#32 a := BitVec.zero_and

theorem within_zero (h : Within a 0#32) : a = 0#32 := by
  have h' : a &&& ~~~0#32 = 0#32 := h
  rwa [BitVec.not_zero, BitVec.and_allOnes] at h'

theorem within_or (h : Within a b) (h' : Within c d) : Within (a ||| c) (b ||| d) := by
  rw [within_iff] at h h' ⊢
  intro i hi hor
  rw [BitVec.getLsbD_or, Bool.or_eq_true] at hor ⊢
  rcases hor with ha | hc
  · exact .inl (h i hi ha)
  · exact .inr (h' i hi hc)

theorem within_and (h : Within a b) (c : Types) : Within (a &&& c) b := by
  rw [within_iff] at h ⊢
  intro i hi hand
  rw [BitVec.getLsbD_and, Bool.and_eq_true] at hand
  exact h i hi hand.1

theorem within_and_and (h : Within a b) (c : Types) : Within (a &&& c) (b &&& c) := by
  rw [within_iff] at h ⊢
  intro i hi hand
  rw [BitVec.getLsbD_and, Bool.and_eq_true] at hand ⊢
  exact ⟨h i hi hand.1, hand.2⟩

theorem within_and_not (h : Within b c) : Within (a &&& ~~~c) (a &&& ~~~b) := by
  rw [within_iff] at h ⊢
  intro i hi hand
  rw [BitVec.getLsbD_and, BitVec.getLsbD_not, Bool.and_eq_true] at hand ⊢
  refine ⟨hand.1, ?_⟩
  cases hb : b.getLsbD i with
  | false => simp [hi]
  | true =>
    have hc := hand.2
    rw [h i hi hb] at hc
    simp [hi] at hc

theorem and_not_within (a b : Types) : Within (a &&& ~~~b) a := within_and (within_refl a) _

theorem or_and_not (a b : Types) : (a ||| b) &&& ~~~a = b &&& ~~~a := by
  refine BitVec.eq_of_getLsbD_eq fun i hi => ?_
  simp only [BitVec.getLsbD_and, BitVec.getLsbD_or, BitVec.getLsbD_not, hi, decide_true, Bool.true_and]
  cases a.getLsbD i <;> simp

theorem and_not_and_not (a b : Types) : a &&& ~~~b &&& ~~~b = a &&& ~~~b := by
  rw [BitVec.and_assoc, BitVec.and_self]

/-! ## One registration -/

inductive Visited (ready : Nat → Types) : Bool → Scanned → Prop where
  | passed (r : PollFd) (h : r.offered (ready r.key) = 0#32) : Visited ready true ⟨r, r, 0#32⟩
  | called (r : PollFd) (stored : Bool) (h : r.offered (ready r.key) ≠ 0#32) :
    Visited ready stored ⟨r, r.mark (r.offered (ready r.key)) stored,
      if stored then r.offered (ready r.key) else 0#32⟩

theorem offered_edge (hedge : r.isEdge = true) (ready : Types) :
    r.offered ready &&& ~~~r.triggeredTypes = r.offered ready := by
  unfold PollFd.offered
  rw [hedge]
  split
  · exact BitVec.zero_and
  · exact and_not_and_not _ _

theorem not_fired_of_offered {ready : Types} (h : r.offered ready ≠ 0#32) : r.oneshotFired = false := by
  cases hf : r.oneshotFired with
  | false => rfl
  | true =>
    refine absurd ?_ h
    unfold PollFd.offered
    rw [hf]
    rfl

def ExactAt (x : Scanned) : Prop :=
  (x.after.oneshotFired = true → x.before.oneshotFired = true ∨ x.stored ≠ 0#32) ∧
    Within (x.after.triggeredTypes &&& ~~~x.before.triggeredTypes) x.stored

theorem exactAt_passed (r : PollFd) : ExactAt ⟨r, r, 0#32⟩ := by
  refine ⟨fun h => .inl h, ?_⟩
  show Within (r.triggeredTypes &&& ~~~r.triggeredTypes) 0#32
  have hzero : r.triggeredTypes &&& ~~~r.triggeredTypes = 0#32 := within_refl r.triggeredTypes
  rw [hzero]
  exact zero_within _

theorem exactAt_called {stored : Bool} {ready : Types} (h : r.offered ready ≠ 0#32) :
    ExactAt ⟨r, r.mark (r.offered ready) stored, if stored then r.offered ready else 0#32⟩ ↔
      (r.isOneshot ∨ r.isEdge → stored = true) := by
  have hfired := not_fired_of_offered h
  unfold ExactAt PollFd.mark
  dsimp only
  rw [hfired, Bool.false_or]
  cases stored with
  | true =>
    refine ⟨fun _ _ => rfl, fun _ => ⟨fun _ => .inr h, ?_⟩⟩
    rw [if_pos rfl]
    split
    case isTrue hedge =>
      rw [or_and_not]
      exact and_not_within _ _
    case isFalse =>
      rw [show r.triggeredTypes &&& ~~~r.triggeredTypes = 0#32 from within_refl r.triggeredTypes]
      exact zero_within _
  | false =>
    constructor
    · intro ⟨hone, hwithin⟩ hkind
      rcases hkind with hkind | hedge
      · rcases hone hkind with hc | hc
        · cases hc
        · exact absurd rfl hc
      · rw [if_pos hedge, or_and_not, offered_edge hedge] at hwithin
        exact absurd (within_zero hwithin) h
    intro hkind
    have hone : ¬ r.isOneshot = true := fun hc => Bool.noConfusion (hkind (.inl hc))
    have hedge : ¬ r.isEdge = true := fun hc => Bool.noConfusion (hkind (.inr hc))
    refine ⟨fun hc => absurd hc hone, ?_⟩
    rw [if_neg hedge,
      show r.triggeredTypes &&& ~~~r.triggeredTypes = 0#32 from within_refl r.triggeredTypes]
    exact zero_within _

/-! ## The scan -/

theorem scan_before : (scan callback ready context fds).2.2.map Scanned.before = fds := by
  induction fds generalizing context with
  | nil => rfl
  | cons r fds ih =>
    rw [scan]
    dsimp only
    split
    · exact congrArg (r :: ·) ih
    · exact congrArg (r :: ·) ih

theorem mem_scan (hx : x ∈ (scan callback ready context fds).2.2) :
    ∃ stored, Visited ready stored x := by
  induction fds generalizing context with
  | nil => cases hx
  | cons r fds ih =>
    rw [scan] at hx
    dsimp only at hx
    split at hx
    case isTrue hzero =>
      rcases List.mem_cons.mp hx with rfl | hx
      · exact ⟨true, .passed r hzero⟩
      · exact ih hx
    case isFalse hsome =>
      rcases List.mem_cons.mp hx with rfl | hx
      · exact ⟨_, .called r _ hsome⟩
      · exact ih hx

theorem exact_iff_stores : Exact (scan callback ready context fds).2.2 ↔ Stores callback ready context fds := by
  induction fds generalizing context with
  | nil => exact ⟨fun _ => trivial, fun _ x hx => by cases hx⟩
  | cons r fds ih =>
    unfold Exact at ih ⊢
    rw [scan, Stores]
    dsimp only
    split
    case isTrue hzero =>
      rw [List.forall_mem_cons, ih]
      exact ⟨fun h => h.2, fun h => ⟨exactAt_passed r, h⟩⟩
    case isFalse hsome =>
      rw [List.forall_mem_cons, ih]
      refine and_congr ?_ Iff.rfl
      have hcall : ExactAt _ ↔ (_ → decide ((callback context (r.offered (ready r.key)) r.info).1 = 1) = true) :=
        exactAt_called hsome
      exact ⟨fun h hkind => of_decide_eq_true (hcall.mp h hkind),
        fun h => hcall.mpr fun hkind => decide_eq_true (h hkind)⟩

theorem stores_epollCallback (ready : Nat → Types) {c : EpollContext}
    (h : c.events.length + fds.countP (fun r => r.offered (ready r.key) != 0#32) ≤ c.maxEvents) :
    Stores epollCallback ready c fds := by
  induction fds generalizing c with
  | nil => trivial
  | cons r fds ih =>
    rw [List.countP_cons] at h
    rw [Stores]
    split
    case isTrue hzero => exact ih (by omega)
    case isFalse hsome =>
      rw [if_pos (bne_iff_ne.mpr hsome)] at h
      have hroom : epollCallback c (r.offered (ready r.key)) r.info =
          (1, { c with events := c.events ++ [(r.offered (ready r.key), r.info)] }) :=
        if_neg (by omega)
      rw [hroom]
      refine ⟨fun _ => rfl, ih ?_⟩
      dsimp only
      rw [List.length_append, List.length_singleton]
      omega

/-! ## What is marked was stored -/

structure Kept (r : PollFd) : Prop where
  fired : r.oneshotFired = true → r.isOneshot = true ∧ r.stored = true
  triggered : Within r.triggeredTypes r.delivered

theorem kept_mark (h : Kept r) (types : Types) {stored : Bool}
    (hstored : r.isOneshot ∨ r.isEdge → stored = true) : Kept (r.mark types stored) := by
  refine ⟨fun hf => ?_, ?_⟩
  · have hf' : (r.oneshotFired || r.isOneshot) = true := hf
    show r.isOneshot = true ∧ (r.stored || stored) = true
    have hone : r.isOneshot = true := by
      rcases (Bool.or_eq_true _ _ ▸ hf' : _ ∨ _) with hold | hnew
      · exact (h.fired hold).1
      · exact hnew
    rw [hstored (.inl hone), Bool.or_true]
    exact ⟨hone, rfl⟩
  show Within (if r.isEdge then r.triggeredTypes ||| types else r.triggeredTypes)
    (if stored then r.delivered ||| types else r.delivered)
  split
  case isTrue hedge =>
    rw [if_pos (hstored (.inr hedge))]
    exact within_or h.triggered (within_refl types)
  case isFalse =>
    split
    · have hor := within_or h.triggered (zero_within types)
      rwa [BitVec.or_zero] at hor
    · exact h.triggered

theorem kept_clear (h : Kept r) (events : Types) : Kept (r.clear events) := by
  unfold PollFd.clear
  split
  · exact ⟨h.fired, within_and_and h.triggered _⟩
  · exact h

theorem kept_modifyFound (h : ∀ r ∈ fds, Kept r) {f : PollFd → PollFd} (hf : ∀ r, Kept r → Kept (f r))
    (fd : Nat) (fdNo : Int) : ∀ r ∈ modifyFound f fd fdNo fds, Kept r := by
  induction fds with
  | nil =>
    intro r hr
    cases hr
  | cons r fds ih =>
    obtain ⟨hhead, htail⟩ := List.forall_mem_cons.mp h
    rw [modifyFound]
    split
    · exact List.forall_mem_cons.mpr ⟨hf r hhead, htail⟩
    · exact List.forall_mem_cons.mpr ⟨hhead, ih htail⟩

theorem kept_hostEvents (h : ∀ r ∈ fds, Kept r) (events : List (Nat × Types)) :
    ∀ r ∈ hostEvents fds events, Kept r := by
  induction events generalizing fds with
  | nil => exact h
  | cons e events ih =>
    obtain ⟨key, types⟩ := e
    rw [hostEvents]
    refine ih (List.forall_mem_map.mpr fun r hr => ?_)
    split
    · exact kept_clear (h r hr) types
    · exact h r hr

theorem kept_scan (h : ∀ r ∈ fds, Kept r) (hroom : Stores callback ready context fds) :
    ∀ r ∈ (scan callback ready context fds).2.2.map Scanned.after, Kept r := by
  have hexact := exact_iff_stores.mpr hroom
  refine List.forall_mem_map.mpr fun x hx => ?_
  have hbefore : Kept x.before := by
    refine h x.before ?_
    have hmem := List.mem_map_of_mem (f := Scanned.before) hx
    rwa [scan_before] at hmem
  have hat : ExactAt x := hexact x hx
  obtain ⟨stored, hvisited⟩ := mem_scan hx
  cases hvisited with
  | passed r hzero => exact hbefore
  | called r stored hsome => exact kept_mark hbefore _ ((exactAt_called hsome).mp hat)

theorem kept_step (h : ∀ r ∈ fds, Kept r) (hok : HasRoom fds op) : ∀ r ∈ pollStep fds op, Kept r := by
  cases op with
  | addFd key fd fdNo types info ok =>
    show ∀ r ∈ pollAddFd fds key fd fdNo types info ok, Kept r
    unfold pollAddFd
    split
    · exact List.forall_mem_cons.mpr ⟨⟨fun hf => (by cases hf), zero_within _⟩, h⟩
    · exact h
  | modFd fd fdNo types info =>
    refine kept_modifyFound h (fun r hr => ?_) fd fdNo
    exact ⟨fun hf => (by cases hf), within_and hr.triggered types⟩
  | delFd fd fdNo => exact fun r hr => h r (List.mem_of_mem_eraseP hr)
  | cleanupFd fd => exact fun r hr => h r (List.mem_filter.mp hr).1
  | wakeup fd events =>
    refine List.forall_mem_map.mpr fun r hr => ?_
    split
    · exact kept_clear (h r hr) events
    · exact h r hr
  | hostEvents events => exact kept_hostEvents h events
  | scan callback context ready => exact kept_scan h hok

theorem nothingLost_of_kept (h : ∀ r ∈ fds, Kept r) : NothingLost fds := by
  intro r hr ready harmed
  have hkept := h r hr
  have hfired : r.oneshotFired = false := by
    cases hf : r.oneshotFired with
    | false => rfl
    | true =>
      obtain ⟨hone, hstored⟩ := hkept.fired hf
      rw [harmed hone] at hstored
      cases hstored
  unfold PollFd.offered
  rw [if_neg (by rw [hfired]; exact Bool.false_ne_true)]
  dsimp only
  split
  · exact within_and_not hkept.triggered
  · exact and_not_within _ _

/-! ## Runs -/

/-- **One-shot and edge-triggered events.** After every run whose callbacks have room no event of an armed
registration is lost. After any run at all, the next scan marks only what was stored exactly if the callback
has room. -/
theorem pollWait_run (ops : List (PollOp κ)) :
    (AllSteps pollStep HasRoom [] ops → NothingLost (run pollStep [] ops)) ∧
      ∀ (callback : κ → Types → BitVec 64 → Int × κ) (context : κ) (ready : Nat → Types),
        Exact (scan callback ready context (run pollStep [] ops)).2.2 ↔
          Stores callback ready context (run pollStep [] ops) := by
  refine ⟨fun hops => ?_, fun callback context ready => exact_iff_stores⟩
  have hstep : ∀ (fds : List PollFd) (op : PollOp κ), (∀ r ∈ fds, Kept r) → HasRoom fds op →
      ∀ r ∈ pollStep fds op, Kept r := fun _ _ h hok => kept_step h hok
  exact nothingLost_of_kept (run_invariant hstep (fun r hr => by cases hr) hops)

/-- Two descriptors that are registered for one event each, and an array of `n` events. -/
def oneshotOps (n : Nat) : List (PollOp EpollContext) :=
  [.addFd 1 1 3 0x40000001#32 3#64 true, .addFd 2 2 4 0x40000001#32 4#64 true,
    .scan epollCallback ⟨[], n⟩ fun _ => 1#32]

def edgeOps : List (PollOp EpollContext) :=
  [.addFd 1 1 3 0x80000001#32 3#64 true, .addFd 2 2 4 0x80000001#32 4#64 true]

/-- With two events nothing is lost. -/
theorem pollWait_two :
    (scan epollCallback (fun _ => 1#32) ⟨[], 2⟩ (run pollStep [] ((oneshotOps 2).take 2))).1 = 2 ∧
      NothingLost (run pollStep [] (oneshotOps 2)) :=
  ⟨by decide, (pollWait_run (oneshotOps 2)).1
    ⟨trivial, trivial, stores_epollCallback _ (by decide), trivial⟩⟩

/-- With one, both are marked as fired, and the event of the first is lost. With edges it is the same. -/
theorem pollWait_one : ¬ NothingLost (run pollStep [] (oneshotOps 1)) ∧
      ¬ Exact (scan epollCallback (fun _ => 1#32) ⟨[], 1⟩ (run pollStep [] ((oneshotOps 1).take 2))).2.2 ∧
      ¬ Exact (scan epollCallback (fun _ => 1#32) ⟨[], 1⟩ (run pollStep [] edgeOps)).2.2 := by
  refine ⟨fun h => ?_, fun h => ?_, fun h => ?_⟩
  · have hlost := h ⟨1, 1, 3, 0x40000001#32, 3#64, 0#32, true, false, 0#32⟩ (.tail _ (.head _)) 1#32
      fun _ => rfl
    exact absurd hlost (by unfold Within; decide)
  · have hfired := (h ⟨⟨1, 1, 3, 0x40000001#32, 3#64, 0#32, false, false, 0#32⟩,
      ⟨1, 1, 3, 0x40000001#32, 3#64, 0#32, true, false, 0#32⟩, 0#32⟩ (.tail _ (.head _))).1 rfl
    exact absurd hfired (by decide)
  have hwithin := (h ⟨⟨1, 1, 3, 0x80000001#32, 3#64, 0#32, false, false, 0#32⟩,
    ⟨1, 1, 3, 0x80000001#32, 3#64, 1#32, false, false, 0#32⟩, 0#32⟩ (.tail _ (.head _))).2
  exact absurd hwithin (by unfold Within; decide)

end IosLinuxkit.Fs.Poll
