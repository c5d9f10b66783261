import IosLinuxkit.Kernel.PosixTimer

/-!
# The thread of a timer

`timer_set`, `timer_free` and `timer_thread` of `src/util/timer.c` on one timer, in steps: the thread drops the lock to
sleep and may wake at any time, any number of callers arm and disarm the timer, and one frees it.

* **`timerThread_safe`** — the timer is `Safe` in every run in which every `pthread_create` succeeds.
-/

namespace IosLinuxkit.TimerThread

open PosixTimer

/-- Where a thread stands: it waits for the lock when `starting` or `sleeping`, and has it from `looking` on. -/
inductive Pc
  | gone | starting | sleeping | looking | firing | fired | ending
deriving DecidableEq, Repr

inductive Holder
  | setter
  | freer
  | thread (i : Nat)
deriving DecidableEq, Repr

/-- `timer_free`: it waits for the lock, has it with the thread marked `dead` or without a thread, has dropped it, and
has returned. -/
inductive FreePc
  | uncalled | waiting | marked | unmarked | freeing | returned
deriving DecidableEq, Repr

structure State where
  active : Bool
  running : Bool
  dead : Bool
  expiry : Timespec
  interval : Timespec
  holder : Option Holder
  threads : Nat → Pc
  /-- the threads created so far -/
  created : Nat
  /-- the calls of `timer_set` that wait for the lock -/
  sets : Nat
  freeCall : FreePc
  /-- the times `free` was called on the timer -/
  freed : Nat
  /-- the callbacks since the last `timer_set` -/
  expiries : Nat
  /-- the callbacks that began after `timer_free` had returned -/
  late : Nat
  /-- the uses of the timer after it was freed -/
  misused : Nat

def timerNew : State where
  active := false
  running := false
  dead := false
  expiry := ⟨0, 0⟩
  interval := ⟨0, 0⟩
  holder := none
  threads := fun _ => .gone
  created := 0
  sets := 0
  freeCall := .uncalled
  freed := 0
  expiries := 0
  late := 0
  misused := 0

def State.use (s : State) : State := { s with misused := s.misused + s.freed }

def State.setPc (s : State) (i : Nat) (pc : Pc) : State := { s with threads := Function.update s.threads i pc }

inductive Event
  /-- a call of `timer_set` comes to its `lock` -/
  | callSet
  /-- it has the lock; `started` is whether a `pthread_create` succeeds -/
  | set (spec : Spec) (now : Timespec) (started : Bool)
  | unlockSet
  /-- the call of `timer_free`: only once, with no call of `timer_set` on its way -/
  | callFree
  | free
  | unlockFree
  | release
  | thread (i : Nat) (now : Timespec)

/-- `timer_set` with the lock. -/
def timerSetLocked (s : State) (spec : Spec) (now : Timespec) (started : Bool) : State :=
  let s := { s.use with
    expiry := now.add spec.value
    interval := spec.interval
    active := !spec.value.isZero
    expiries := 0 }
  if s.running then s
  else if s.active then
    let s := { s with running := true }
    if started then { s.setPc s.created .starting with created := s.created + 1 } else s
  else s

/-- One step of `timer_thread`; `now` is the clock. -/
def timerThread (s : State) (i : Nat) (now : Timespec) : State :=
  match s.threads i with
  | .gone => s
  | .starting | .sleeping =>
    if s.holder = none then { s.use.setPc i .looking with holder := some (.thread i) } else s.use
  | .looking =>
    if s.active && (s.expiry.subtract now).positive then { s.use.setPc i .sleeping with holder := none }
    else s.use.setPc i .firing
  | .firing =>
    if s.active then
      { s.use.setPc i .fired with
        expiries := s.expiries + 1
        late := s.late + if s.freeCall = .returned then 1 else 0 }
    else s.use.setPc i .fired
  | .fired =>
    if s.active && s.interval.positive then { s.use.setPc i .looking with expiry := s.expiry.add s.interval }
    else s.use.setPc i .ending
  | .ending =>
    let s := { s.use.setPc i .gone with running := false }
    if s.dead then { s with freed := s.freed + 1 } else { s with holder := none }

def step (s : State) : Event → State
  | .callSet => if s.freeCall = .uncalled then { s with sets := s.sets + 1 } else s
  | .set spec now started =>
    if 0 < s.sets ∧ s.holder = none then
      { timerSetLocked s spec now started with sets := s.sets - 1, holder := some .setter }
    else s
  | .unlockSet => if s.holder = some .setter then { s.use with holder := none } else s
  | .callFree =>
    if s.freeCall = .uncalled ∧ s.sets = 0 ∧ s.holder ≠ some .setter then { s with freeCall := .waiting } else s
  | .free =>
    if s.freeCall = .waiting ∧ s.holder = none then
      let s := { s.use with holder := some .freer, active := false }
      if s.running then { s with dead := true, freeCall := .marked } else { s with freeCall := .unmarked }
    else s
  | .unlockFree =>
    match s.freeCall with
    | .marked => { s.use with holder := none, freeCall := .returned }
    | .unmarked => { s.use with holder := none, freeCall := .freeing }
    | _ => s
  | .release => if s.freeCall = .freeing then { s with freed := s.freed + 1, freeCall := .returned } else s
  | .thread i now => timerThread s i now

/-! ## What is promised -/

def Spent (s : State) : Prop := 0 < s.expiries ∧ s.interval.positive = false

structure Safe (s : State) : Prop where
  one_thread : ∀ i j, s.threads i ≠ .gone → s.threads j ≠ .gone → i = j
  armed : s.active = true → (∃ i, s.threads i ≠ .gone) ∨ Spent s
  no_late : s.late = 0
  freed_once : s.freed ≤ 1
  no_misuse : s.misused = 0
  /-- with the thread gone the memory is freed, and the thread needs no more than five steps for that -/
  freed_at_end : s.freeCall = .returned → ∀ i, (s.threads i ≠ .gone ∨ ∀ j, s.threads j = .gone) → ∀ a b c d e,
    (run step s [.thread i a, .thread i b, .thread i c, .thread i d, .thread i e]).freed = 1

/-- A step whose `pthread_create`, if it comes to one, succeeds. -/
def Starts (s : State) (e : Event) : Prop :=
  ∀ spec now started, e = .set spec now started → s.running = false → spec.value.isZero = false → started = true

/-! ## The invariant -/

def Pc.locked (pc : Pc) : Bool := pc == .looking || pc == .firing || pc == .fired || pc == .ending

def Phase (s : State) : Prop :=
  match s.freeCall with
  | .uncalled => s.dead = false ∧ s.freed = 0 ∧ s.holder ≠ some .freer
  | .waiting => s.dead = false ∧ s.freed = 0 ∧ s.sets = 0 ∧ s.holder ≠ some .freer ∧ s.holder ≠ some .setter
  | .marked => s.dead = true ∧ s.freed = 0 ∧ s.sets = 0 ∧ s.holder = some .freer ∧ s.active = false ∧ s.running = true
  | .unmarked =>
    s.dead = false ∧ s.freed = 0 ∧ s.sets = 0 ∧ s.holder = some .freer ∧ s.active = false ∧ s.running = false
  | .freeing => s.freed = 0 ∧ s.sets = 0 ∧ s.holder = none ∧ s.active = false ∧ s.running = false
  | .returned =>
    s.sets = 0 ∧ s.holder ≠ some .freer ∧ s.holder ≠ some .setter ∧ s.active = false ∧
      if s.running then s.dead = true ∧ s.freed = 0 else s.freed = 1

structure At (s : State) (i : Nat) (pc : Pc) : Prop where
  threads : s.threads = fun j => if j = i then pc else .gone
  runs : s.running = !(pc == .gone)
  lock : pc.locked = true → s.holder = some (.thread i)
  held : ∀ j, s.holder = some (.thread j) → pc = .gone ∨ j = i ∧ pc.locked = true
  spent : s.active = true → pc = .gone ∨ pc = .ending → Spent s
  fired : s.active = true → pc = .fired → 0 < s.expiries
  phase : Phase s
  late : s.late = 0
  misused : s.misused = 0

def Inv (s : State) : Prop := ∃ i pc, At s i pc

theorem inv_timerNew : Inv timerNew := by
  refine ⟨0, .gone, ?_⟩
  constructor <;> simp [timerNew, Phase, Pc.locked]

section Steps

variable {s : State} {i : Nat} {pc : Pc}

theorem At.pc_eq (h : At s i pc) : s.threads i = pc := by simp [h.threads]

theorem At.setPc_threads (h : At s i pc) (pc' : Pc) :
    Function.update s.threads i pc' = fun j => if j = i then pc' else .gone := by
  funext j
  rw [h.threads, Function.update_apply]
  split <;> rfl

theorem At.use_eq (h : At s i pc) (hlive : pc ≠ .gone ∨ s.freeCall ≠ .returned) : s.use = s := by
  have hfreed : s.freed = 0 := by
    have hp := h.phase
    have hr := h.runs
    unfold Phase at hp
    cases hf : s.freeCall <;> simp_all
  have hsum : s.misused + s.freed = s.misused := by rw [hfreed, Nat.add_zero]
  unfold State.use
  rw [hsum]

theorem inv_thread (h : At s i pc) (now : Timespec) (hpc : pc ≠ .gone) : ∃ pc', At (timerThread s i now) i pc' := by
  have huse := h.use_eq (.inl hpc)
  have hset := h.setPc_threads
  obtain ⟨threads, runs, lock, held, spent, fired, phase, late, misused⟩ := h
  unfold timerThread
  rw [show s.threads i = pc from by simp [threads], huse]
  cases pc with
  | gone => exact absurd rfl hpc
  | starting | sleeping =>
    dsimp only
    split
    case isTrue =>
      refine ⟨.looking, ?_⟩
      constructor <;> simp_all [State.setPc, Pc.locked, Phase, Spent]
    case isFalse => exact ⟨_, threads, runs, lock, held, spent, fired, phase, late, misused⟩
  | looking =>
    dsimp only
    split
    case isTrue =>
      refine ⟨.sleeping, ?_⟩
      constructor <;> simp_all [State.setPc, Pc.locked, Phase, Spent]
    case isFalse =>
      refine ⟨.firing, ?_⟩
      constructor <;> simp_all [State.setPc, Pc.locked, Phase, Spent]
  | firing =>
    dsimp only
    split
    case isTrue hact =>
      -- the timer is active, so `timer_free` has not come
      refine ⟨.fired, ?_⟩
      constructor <;> simp_all [State.setPc, Pc.locked, Phase, Spent]
      all_goals (cases hf : s.freeCall <;> simp_all)
    case isFalse =>
      refine ⟨.fired, ?_⟩
      constructor <;> simp_all [State.setPc, Pc.locked, Phase, Spent]
  | fired =>
    dsimp only
    split
    case isTrue =>
      refine ⟨.looking, ?_⟩
      constructor <;> simp_all [State.setPc, Pc.locked, Phase, Spent]
    case isFalse =>
      refine ⟨.ending, ?_⟩
      constructor <;> simp_all [State.setPc, Pc.locked, Phase, Spent]
  | ending =>
    dsimp only
    refine ⟨.gone, ?_⟩
    split
    case isTrue => constructor <;> simp_all [State.setPc, Pc.locked, Phase, Spent]
    case isFalse =>
      constructor <;> simp_all [State.setPc, Pc.locked, Phase, Spent]
      all_goals (cases hf : s.freeCall <;> simp_all)

theorem inv_step (h : Inv s) (e : Event) (hok : Starts s e) : Inv (step s e) := by
  obtain ⟨i, pc, h⟩ := h
  have hsame : Inv s := ⟨i, pc, h⟩
  cases e with
  | thread j now =>
    by_cases hgone : s.threads j = .gone
    · rw [show step s (.thread j now) = s from by simp [step, timerThread, hgone]]
      exact hsame
    have hj : j = i := by
      rw [h.threads] at hgone
      by_contra hne
      exact hgone (if_neg hne)
    subst hj
    exact ⟨j, inv_thread h now (h.pc_eq ▸ hgone)⟩
  | set spec now started =>
    have hstarted := hok spec now started rfl
    simp only [step]
    split
    case isFalse => exact hsame
    case isTrue hgo =>
      have hfree : s.freeCall ≠ .returned := by
        intro hr
        have := h.phase
        simp_all [Phase]
      have huse := h.use_eq (.inr hfree)
      unfold timerSetLocked
      rw [huse]
      obtain ⟨threads, runs, lock, held, spent, fired, phase, late, misused⟩ := h
      dsimp only
      split
      case isTrue hrun =>
        refine ⟨i, pc, ?_⟩
        constructor <;> simp_all [Pc.locked, Phase, Spent]
        all_goals (cases hf : s.freeCall <;> simp_all)
      case isFalse hrun =>
        split
        case isTrue =>
          have hgone : pc = .gone := by simpa using runs.symm.trans (Bool.eq_false_iff.mpr hrun)
          have hnew : Function.update s.threads s.created .starting
              = fun j => if j = s.created then .starting else .gone := by
            funext j
            simp [threads, hgone, Function.update_apply]
          refine ⟨s.created, .starting, ?_⟩
          constructor <;> simp_all [State.setPc, Pc.locked, Phase, Spent]
          all_goals (cases hf : s.freeCall <;> simp_all)
        case isFalse =>
          refine ⟨i, pc, ?_⟩
          constructor <;> simp_all [Pc.locked, Phase, Spent]
          all_goals (cases hf : s.freeCall <;> simp_all)
  | callSet | callFree =>
    simp only [step]
    split
    case isFalse => exact hsame
    case isTrue =>
      obtain ⟨threads, runs, lock, held, spent, fired, phase, late, misused⟩ := h
      refine ⟨i, pc, ?_⟩
      constructor <;> simp_all [Phase, Spent]
  | unlockSet =>
    simp only [step]
    split
    case isFalse => exact hsame
    case isTrue =>
      have hfree : s.freeCall ≠ .returned := by
        intro hr
        have := h.phase
        simp_all [Phase]
      rw [h.use_eq (.inr hfree)]
      obtain ⟨threads, runs, lock, held, spent, fired, phase, late, misused⟩ := h
      refine ⟨i, pc, ?_⟩
      constructor <;> simp_all [Phase, Spent]
      all_goals (cases hf : s.freeCall <;> simp_all)
  | free =>
    simp only [step]
    split
    case isFalse => exact hsame
    case isTrue hgo =>
      rw [h.use_eq (.inr (by simp [hgo.1]))]
      obtain ⟨threads, runs, lock, held, spent, fired, phase, late, misused⟩ := h
      refine ⟨i, pc, ?_⟩
      split
      case isTrue => constructor <;> simp_all [Phase, Spent]
      case isFalse => constructor <;> simp_all [Phase, Spent]
  | unlockFree =>
    simp only [step]
    split
    case h_1 hf | h_2 hf =>
      rw [h.use_eq (.inr (by simp [hf]))]
      obtain ⟨threads, runs, lock, held, spent, fired, phase, late, misused⟩ := h
      refine ⟨i, pc, ?_⟩
      constructor <;> simp_all [Phase, Spent]
    case h_3 => exact hsame
  | release =>
    simp only [step]
    split
    case isFalse => exact hsame
    case isTrue =>
      obtain ⟨threads, runs, lock, held, spent, fired, phase, late, misused⟩ := h
      refine ⟨i, pc, ?_⟩
      constructor <;> simp_all [Phase, Spent]

def Pc.left : Pc → Nat
  | .gone => 0
  | .ending => 1
  | .fired => 2
  | .firing => 3
  | .looking => 4
  | .starting | .sleeping => 5

theorem thread_after_free (h : At s i pc) (hf : s.freeCall = .returned) (now : Timespec) :
    ∃ pc', At (timerThread s i now) i pc' ∧ (timerThread s i now).freeCall = .returned ∧ pc'.left = pc.left - 1 := by
  cases hpc : pc with
  | gone =>
    have hs : timerThread s i now = s := by simp [timerThread, h.pc_eq, hpc]
    rw [hs]
    exact ⟨.gone, hpc ▸ h, hf, rfl⟩
  | _ =>
    obtain ⟨pc', hat⟩ := inv_thread h now (by simp [hpc])
    have hphase := h.phase
    have hheld := h.held
    have hthreads := h.pc_eq
    have hruns := h.runs
    -- the lock is free, and the timer no longer active
    have hholder : pc.locked = false → s.holder = none := by
      intro hl
      cases hh : s.holder with
      | none => rfl
      | some w => cases w <;> simp_all [Phase]
    have hleft : ((timerThread s i now).threads i).left = pc.left - 1 ∧
        (timerThread s i now).freeCall = .returned := by
      unfold timerThread
      simp_all [Phase, State.setPc, State.use, Pc.left, Pc.locked]
    rw [hat.pc_eq] at hleft
    exact ⟨pc', hat, hleft.2, by rw [hleft.1, hpc]⟩

theorem freed_at_end (h : At s i pc) (hf : s.freeCall = .returned) (a b c d e : Timespec) :
    (run step s [.thread i a, .thread i b, .thread i c, .thread i d, .thread i e]).freed = 1 := by
  obtain ⟨p₁, h₁, hf₁, hl₁⟩ := thread_after_free h hf a
  obtain ⟨p₂, h₂, hf₂, hl₂⟩ := thread_after_free h₁ hf₁ b
  obtain ⟨p₃, h₃, hf₃, hl₃⟩ := thread_after_free h₂ hf₂ c
  obtain ⟨p₄, h₄, hf₄, hl₄⟩ := thread_after_free h₃ hf₃ d
  obtain ⟨p₅, h₅, hf₅, hl₅⟩ := thread_after_free h₄ hf₄ e
  have hmax : pc.left ≤ 5 := by cases pc <;> simp [Pc.left]
  have hgone : p₅ = .gone := by
    have : p₅.left = 0 := by omega
    cases p₅ <;> simp_all [Pc.left]
  have hphase := h₅.phase
  have hruns := h₅.runs
  rw [hgone] at hruns
  unfold Phase at hphase
  rw [hf₅] at hphase
  simp only [hruns] at hphase
  exact hphase.2.2.2.2

theorem Inv.safe (h : Inv s) : Safe s := by
  obtain ⟨i, pc, h⟩ := h
  have hphase := h.phase
  constructor
  · intro j k hj hk
    simp only [h.threads] at hj hk
    grind
  · intro hact
    by_cases hpc : pc = .gone
    · exact .inr (h.spent hact (.inl hpc))
    · exact .inl ⟨i, h.pc_eq ▸ hpc⟩
  · exact h.late
  · unfold Phase at hphase
    cases hf : s.freeCall <;> grind
  · exact h.misused
  intro hf j hj
  have hat : ∃ pc', At s j pc' := by
    by_cases hji : j = i
    · exact ⟨pc, hji ▸ h⟩
    · -- no thread at all
      have hgone : s.threads j = .gone := by simp [h.threads, hji]
      have hpc : pc = .gone := h.pc_eq ▸ hj.resolve_left (fun hne => hne hgone) i
      have hthreads := h.threads
      obtain ⟨-, runs, lock, held, spent, fired, phase, late, misused⟩ := h
      refine ⟨.gone, ?_⟩
      constructor <;> simp_all [Pc.locked]
  obtain ⟨pc', hat⟩ := hat
  exact freed_at_end hat hf

end Steps

/-- **One thread, no lost expiry, no callback after `timer_free`, one `free`**: in every run of any number of callers
and threads in which every thread that `timer_set` starts comes into being. -/
theorem timerThread_safe (es : List Event) (hok : AllSteps step Starts timerNew es) : Safe (run step timerNew es) := by
  have hstep : ∀ s e, Inv s → Starts s e → Inv (step s e) := fun _ e h hok => inv_step h e hok
  have hinv : Inv (run step timerNew es) := run_invariant hstep inv_timerNew hok
  exact hinv.safe

/-- A timer that fires and is freed while its thread runs. -/
theorem timerThread_safe_freed : Safe (run step timerNew
    [.callSet, .set ⟨⟨1, 0⟩, ⟨1, 0⟩⟩ ⟨5, 0⟩ true, .unlockSet, .thread 0 ⟨6, 0⟩, .thread 0 ⟨6, 0⟩, .thread 0 ⟨6, 0⟩,
      .thread 0 ⟨6, 0⟩, .thread 0 ⟨6, 0⟩, .callFree, .free, .unlockFree]) :=
  timerThread_safe _ (by simp [AllSteps, Starts])

/-- `timer_set` does not look at what `pthread_create` returns: the timer is active, and nothing will fire. -/
theorem timerThread_not_started : ¬ ∀ es, Safe (run step timerNew es) := by
  intro hall
  rcases (hall [.callSet, .set ⟨⟨1, 0⟩, ⟨0, 0⟩⟩ ⟨5, 0⟩ false, .unlockSet]).armed rfl with ⟨i, hi⟩ | hspent
  · exact hi rfl
  · exact absurd hspent.1 (by decide)

end IosLinuxkit.TimerThread
