import IosLinuxkit.Kernel.Signal

/-!
# Waking a task out of `wait_for`

`src/util/sync.c` and the second half of `deliver_signal_unlocked`. One task waits; any number
of others send to it. The locks in play are the sighand lock, which the check and the first
part of a send take, `waiting_cond_lock`, which the publication and the notification take, and
the lock the caller waits with. A section under one of the first two is one step. The caller's
lock matters only when it is the sighand lock, which the task then holds all the way from the
check to the sleep.

* `step` — one section of the task or of one sender. A condition variable has its POSIX
  meaning: a notification reaches those who sleep, and a sleeper may wake for no reason.
* **`wakeup_run`** — in every run of such steps, a task that sleeps through the end of all
  sends has nothing pending.
-/

namespace IosLinuxkit.WaitFor

open Signal

abbrev CondId := Nat

/-! ## State -/

/-- Where the task is; `own` says that it waits with its sighand lock. -/
inductive Phase where
  | outside
  /-- before the first `is_signal_pending` -/
  | entered (cond : CondId) (own : Bool)
  /-- it saw nothing -/
  | checked (cond : CondId) (own : Bool)
  /-- `waiting_cond` is set -/
  | published (cond : CondId) (own : Bool)
  /-- in `pthread_cond_wait` -/
  | asleep (cond : CondId) (own notified : Bool)
  /-- out of it, with the lock again -/
  | woken (own timedOut : Bool)
  /-- `waiting_cond` is `NULL` -/
  | cleared (own timedOut : Bool)
  deriving DecidableEq

/-- Where a call of `deliver_signal_unlocked` from another task is. -/
inductive Sender where
  | idle
  | begun
  /-- it let go of the sighand lock to notify -/
  | notifying
  /-- it is about to take the lock again -/
  | relocking
  deriving DecidableEq

inductive Ret where
  | zero
  | eintr
  | etimedout
  deriving DecidableEq

structure State where
  pending : SigSet
  blocked : SigSet
  waiting : SigSet
  waitingCond : Option CondId
  phase : Phase
  sender : Nat → Sender
  /-- what the last `wait_for` returned -/
  ret : Option Ret

/-- `task->pause` -/
def pause : CondId := 0

def isSignalPending (s : State) : Bool := s.pending &&& ~~~s.blocked != 0#64

def Phase.locked : Phase → Bool
  | .outside => false
  | .entered _ own => own
  | .checked _ own => own
  | .published _ own => own
  | .asleep _ _ _ => false
  | .woken own _ => own
  | .cleared own _ => own

/-! ## Steps -/

def notify (cond : CondId) (p : Phase) : Phase :=
  match p with
  | .asleep c own n => .asleep c own (n || c == cond)
  | p => p

def returns (r : Ret) (s : State) : State := { s with phase := .outside, ret := some r }

/-- The first check of `wait_for`. -/
def check (s : State) : State :=
  match s.phase with
  | .entered cond own =>
    if isSignalPending s then returns .eintr s else { s with phase := .checked cond own }
  | _ => s

def publish (s : State) : State :=
  match s.phase with
  | .checked cond own => { s with phase := .published cond own, waitingCond := some cond }
  | _ => s

/-- `pthread_cond_wait` lets go of the lock and sleeps, in one. -/
def block (s : State) : State :=
  match s.phase with
  | .published cond own => { s with phase := .asleep cond own false }
  | _ => s

def wake (timedOut : Bool) (s : State) : State :=
  match s.phase with
  | .asleep _ own _ => { s with phase := .woken own timedOut }
  | _ => s

def clear (s : State) : State :=
  match s.phase with
  | .woken own timedOut => { s with phase := .cleared own timedOut, waitingCond := none }
  | _ => s

/-- The end of `wait_for`. -/
def recheck (s : State) : State :=
  match s.phase with
  | .cleared _ timedOut =>
    if timedOut then returns .etimedout s
    else if isSignalPending s then returns .eintr s
    else returns .zero s
  | _ => s

/-- `deliver_signal_unlocked` up to its `unlock`; `token` says that the native token took the
signal. -/
def sendLocked (i : Nat) (sig : Sig) (token : Bool) (s : State) : State :=
  if s.sender i = .begun ∧ s.phase.locked = false then
    if token then { s with sender := Function.update s.sender i .idle }
    else if sig.num < sigrtmin && sigsetHas s.pending sig then
      { s with sender := Function.update s.sender i .idle }
    else if sigsetHas (s.blocked &&& ~~~s.waiting) sig && signalIsBlockable sig then
      { s with
        pending := sigsetAdd s.pending sig
        phase := notify pause s.phase
        sender := Function.update s.sender i .idle }
    else
      { s with
        pending := sigsetAdd s.pending sig
        sender := Function.update s.sender i .notifying }
  else s

def sendNotify (i : Nat) (s : State) : State :=
  if s.sender i = .notifying then
    { s with
      phase := match s.waitingCond with
        | some cond => notify cond s.phase
        | none => s.phase
      sender := Function.update s.sender i .relocking }
  else s

/-! ## Runs -/

inductive Event where
  | waitFor (cond : CondId) (own : Bool)
  | check
  | publish
  | block
  | wake (timedOut : Bool)
  | clear
  | recheck
  | sendBegin (i : Nat)
  | sendLocked (i : Nat) (sig : Sig) (token : Bool)
  | sendNotify (i : Nat)
  | sendReturn (i : Nat)
  /-- what the task waits for happens -/
  | notify (cond : CondId)
  /-- the task's own calls: masks, deliveries, signals to itself -/
  | setSignals (pending blocked waiting : SigSet)

def step (s : State) : Event → State
  | .waitFor cond own =>
    if s.phase = .outside then { s with phase := .entered cond own } else s
  | .check => check s
  | .publish => publish s
  | .block => block s
  | .wake timedOut => wake timedOut s
  | .clear => clear s
  | .recheck => recheck s
  | .sendBegin i =>
    if s.sender i = .idle then { s with sender := Function.update s.sender i .begun } else s
  | .sendLocked i sig token => sendLocked i sig token s
  | .sendNotify i => sendNotify i s
  | .sendReturn i =>
    if s.sender i = .relocking ∧ s.phase.locked = false then
      { s with sender := Function.update s.sender i .idle }
    else s
  | .notify cond => { s with phase := notify cond s.phase }
  | .setSignals pending blocked waiting =>
    if s.phase = .outside then { s with pending, blocked, waiting } else s

def init : State :=
  { pending := 0#64, blocked := 0#64, waiting := 0#64, waitingCond := none, phase := .outside,
    sender := fun _ => .idle, ret := none }

/-! ## What one step keeps -/

/-- Between the check and the sleep, with a lock that does not keep senders out. -/
def Phase.exposed : Phase → Bool
  | .checked _ own => !own
  | .published _ own => !own
  | _ => false

/-- A notification that finds the task there has nothing to say, or is not the last to come. -/
def NotifyOk (s : State) : Event → Prop
  | .sendNotify i => s.sender i = .notifying → s.phase.exposed = true →
      isSignalPending s = true → ∃ j, j ≠ i ∧ s.sender j = .notifying
  | _ => True

def Phase.needsNotify : Phase → Bool
  | .asleep _ _ n => !n
  | p => p.exposed

structure Inv (s : State) : Prop where
  /-- nobody sends to a task that holds its sighand lock -/
  quiet : ∀ cond, s.phase = .checked cond true ∨ s.phase = .published cond true →
    isSignalPending s = false
  /-- a signal that the task does not know of is still to be announced -/
  announced : s.phase.needsNotify = true → isSignalPending s = true → ∃ j, s.sender j = .notifying
  published : ∀ cond own, s.phase = .published cond own ∨ (∃ n, s.phase = .asleep cond own n) →
    s.waitingCond = some cond

variable {s : State}

theorem sigsetAdd_and_not (pending : SigSet) {blocked : SigSet} {sig : Sig}
    (h : sigsetHas blocked sig = true) :
    sigsetAdd pending sig &&& ~~~blocked = pending &&& ~~~blocked := by
  rw [sigsetHas_eq] at h
  apply BitVec.eq_of_getLsbD_eq
  intro i hi
  rw [sigsetAdd, sigMask, ← BitVec.twoPow_eq]
  by_cases hn : sig.num - 1 = i
  · subst hn
    simp [h]
  · simp [hn]

variable {cond c : CondId} {p : Phase} {own : Bool} {i : Nat}

theorem needsNotify_of_notify (h : (notify cond p).needsNotify = true) : p.needsNotify = true := by
  cases p with
  | asleep c own n =>
    simp only [notify, Phase.needsNotify, Bool.not_eq_true', Bool.or_eq_false_iff] at h ⊢
    exact h.1
  | _ => exact h

theorem notify_checked (h : notify cond p = .checked c own) : p = .checked c own := by
  cases p <;> simp_all [notify]

theorem notify_published (h : notify cond p = .published c own) : p = .published c own := by
  cases p <;> simp_all [notify]

theorem notify_asleep {n : Bool}
    (h : notify cond p = .asleep c own n) : ∃ n', p = .asleep c own n' := by
  cases p with
  | asleep c' own' n' =>
    simp only [notify, Phase.asleep.injEq] at h
    exact ⟨n', by rw [h.1, h.2.1]⟩
  | _ => cases h

theorem needsNotify_notify (cond : CondId) (h : ∀ c own n, p = .asleep c own n → c = cond) :
    (notify cond p).needsNotify = p.exposed := by
  cases p with
  | asleep c own n =>
    rw [h c own n rfl]
    simp [notify, Phase.needsNotify, Phase.exposed]
  | _ => rfl

theorem Inv.notified (cond : CondId) (h : Inv s) :
    Inv { s with phase := notify cond s.phase } where
  quiet := fun c hc => h.quiet c (hc.imp notify_checked notify_published)
  announced := fun hn hp => h.announced (needsNotify_of_notify hn) hp
  published := by
    rintro c own (hc | ⟨n, hc⟩)
    · exact h.published c own (Or.inl (notify_published hc))
    · exact h.published c own (Or.inr (notify_asleep hc))

def Phase.plain : Phase → Bool
  | .checked _ _ => false
  | .published _ _ => false
  | .asleep _ _ _ => false
  | _ => true

theorem inv_plain {s : State} (h : s.phase.plain = true) : Inv s where
  quiet := by
    rintro c (hc | hc) <;> (rw [hc] at h; cases h)
  announced := by
    intro hn
    cases hph : s.phase with
    | checked c own =>
      rw [hph] at h
      cases h
    | published c own =>
      rw [hph] at h
      cases h
    | asleep c own n =>
      rw [hph] at h
      cases h
    | _ =>
      rw [hph] at hn
      cases hn
  published := by
    rintro c own (hc | ⟨n, hc⟩) <;> (rw [hc] at h; cases h)

theorem inv_check (h : Inv s) : Inv (check s) := by
  unfold check
  split
  case h_2 => exact h
  case h_1 cond own hph =>
    split
    · exact inv_plain rfl
    case isFalse hp =>
      -- the check saw nothing, and nothing has happened since
      have hp' : isSignalPending s = false := by simpa using hp
      refine ⟨fun c _ => hp', fun _ hpend => ?_, ?_⟩
      · exact absurd (hpend.symm.trans hp') (by decide)
      · rintro c own' (hc | ⟨n, hc⟩) <;> cases hc

theorem inv_publish (h : Inv s) : Inv (publish s) := by
  unfold publish
  split
  case h_2 => exact h
  case h_1 cond own hph =>
    refine ⟨?_, ?_, ?_⟩
    · rintro c (hc | hc)
      · cases hc
      · obtain ⟨rfl, rfl⟩ := Phase.published.inj hc
        exact h.quiet cond (Or.inl hph)
    · intro hn hp
      apply h.announced _ hp
      rw [hph]
      exact hn
    rintro c own' (hc | ⟨n, hc⟩)
    · obtain ⟨rfl, rfl⟩ := Phase.published.inj hc
      rfl
    · cases hc

theorem inv_block (h : Inv s) : Inv (block s) := by
  unfold block
  split
  case h_2 => exact h
  case h_1 cond own hph =>
    refine ⟨?_, ?_, ?_⟩
    · rintro c (hc | hc) <;> cases hc
    · intro _ hp
      have hp' : isSignalPending s = true := hp
      cases own with
      | true =>
        have := h.quiet cond (Or.inr hph)
        exact absurd (hp'.symm.trans this) (by decide)
      | false =>
        apply h.announced _ hp
        rw [hph]
        rfl
    rintro c own' (hc | ⟨n, hc⟩)
    · cases hc
    · obtain ⟨rfl, rfl, -⟩ := Phase.asleep.inj hc
      exact h.published cond own (Or.inl hph)

theorem inv_wake {timedOut : Bool} (h : Inv s) : Inv (wake timedOut s) := by
  unfold wake
  split
  case h_2 => exact h
  case h_1 => exact inv_plain rfl

theorem inv_clear (h : Inv s) : Inv (clear s) := by
  unfold clear
  split
  case h_2 => exact h
  case h_1 => exact inv_plain rfl

theorem inv_recheck (h : Inv s) : Inv (recheck s) := by
  unfold recheck
  split
  case h_2 => exact h
  case h_1 =>
    split
    · exact inv_plain rfl
    · split <;> exact inv_plain rfl

theorem Inv.setSender {v : Sender} (h : Inv s) (hi : s.sender i ≠ .notifying) :
    Inv { s with sender := Function.update s.sender i v } where
  quiet := h.quiet
  announced := by
    intro hn hp
    obtain ⟨j, hj⟩ := h.announced hn hp
    have hji : j ≠ i := fun hji => hi (hji ▸ hj)
    exact ⟨j, by simpa [hji] using hj⟩
  published := h.published

theorem exposed_of_unlocked {s : State} (hfree : s.phase.locked = false) (cond : CondId) :
    ¬ (s.phase = .checked cond true ∨ s.phase = .published cond true) := by
  rintro (hc | hc) <;> (rw [hc] at hfree; cases hfree)

theorem inv_sendLocked {sig : Sig} {token : Bool} (h : Inv s) :
    Inv (sendLocked i sig token s) := by
  unfold sendLocked
  split
  case isFalse => exact h
  case isTrue hi =>
    obtain ⟨hi, hfree⟩ := hi
    have hne : s.sender i ≠ .notifying := by
      rw [hi]
      decide
    split
    · exact h.setSender hne
    split
    · exact h.setSender hne
    split
    case isTrue hb =>
      -- blocked: the set that the task looks at stays as it is
      simp only [Bool.and_eq_true, sigsetHas_and] at hb
      have hsame := sigsetAdd_and_not s.pending hb.1.1
      obtain ⟨hq, ha, hp⟩ := (h.setSender (v := .idle) hne).notified pause
      refine ⟨?_, ?_, hp⟩
      · intro c hc
        have := hq c hc
        simp only [isSignalPending, hsame] at this ⊢
        exact this
      intro hn hpend
      apply ha hn
      simp only [isSignalPending, hsame] at hpend ⊢
      exact hpend
    case isFalse =>
      refine ⟨?_, ?_, h.published⟩
      · intro c hc
        exact absurd hc (exposed_of_unlocked hfree c)
      · intro _ _
        exact ⟨i, Function.update_self ..⟩

theorem inv_sendNotify (h : Inv s) (hok : NotifyOk s (.sendNotify i)) : Inv (sendNotify i s) := by
  unfold sendNotify
  split
  case isFalse => exact h
  case isTrue hi =>
    have hsleep : ∀ c own n, s.phase = .asleep c own n → s.waitingCond = some c :=
      fun c own n hc => h.published c own (Or.inr ⟨n, hc⟩)
    -- a task that sleeps is notified, so only the window before it is left
    have hexp : (match s.waitingCond with
        | some cond => notify cond s.phase
        | none => s.phase).needsNotify = true → s.phase.exposed = true := by
      cases hw : s.waitingCond with
      | some cond =>
        intro hn
        rw [← needsNotify_notify cond]
        · exact hn
        · intro c own n hc
          exact Option.some.inj ((hsleep c own n hc).symm.trans hw)
      | none =>
        intro hn
        cases hph : s.phase with
        | asleep c own n =>
          have := hsleep c own n hph
          rw [hw] at this
          cases this
        | _ =>
          rw [hph] at hn
          exact hn
    have hrest : Inv { s with phase := match s.waitingCond with
        | some cond => notify cond s.phase
        | none => s.phase } := by
      cases hw : s.waitingCond with
      | some cond =>
        have := h.notified cond
        exact ⟨this.quiet, this.announced, fun c own hc => hw ▸ this.published c own hc⟩
      | none => exact ⟨h.quiet, h.announced, fun c own hc => hw ▸ h.published c own hc⟩
    refine ⟨hrest.quiet, ?_, hrest.published⟩
    intro hn hp
    obtain ⟨j, hji, hj⟩ := hok hi (hexp hn) hp
    exact ⟨j, by simpa [hji] using hj⟩

theorem inv_step {e : Event} (h : Inv s) (hok : NotifyOk s e) : Inv (step s e) := by
  cases e with
  | waitFor cond own =>
    simp only [step]
    split
    · exact inv_plain rfl
    · exact h
  | check => exact inv_check h
  | publish => exact inv_publish h
  | block => exact inv_block h
  | wake timedOut => exact inv_wake h
  | clear => exact inv_clear h
  | recheck => exact inv_recheck h
  | sendBegin i =>
    simp only [step]
    split
    case isTrue hi =>
      apply h.setSender
      rw [hi]
      decide
    case isFalse => exact h
  | sendLocked i sig token => exact inv_sendLocked h
  | sendNotify i => exact inv_sendNotify h hok
  | sendReturn i =>
    simp only [step]
    split
    case isTrue hi =>
      apply h.setSender
      rw [hi.1]
      decide
    case isFalse => exact h
  | notify cond => exact h.notified cond
  | setSignals pending blocked waiting =>
    simp only [step]
    split
    case isTrue ho =>
      apply inv_plain
      rw [show State.phase _ = s.phase from rfl, ho]
      rfl
    case isFalse => exact h

/-! ## Every run -/

/-- **No lost wakeup.** In every run whose notifications all meet `NotifyOk`: when every send
has returned and the task sleeps, then a signal it should look at has notified it, and it
returns `EINTR`. -/
theorem wakeup_run (ops : List Event) (hok : AllSteps step NotifyOk init ops)
    (hdone : ∀ i, (run step init ops).sender i = .idle) (cond : CondId) (own notified : Bool)
    (hasleep : (run step init ops).phase = .asleep cond own notified) : (notified = false →
      (run step init ops).pending &&& ~~~(run step init ops).blocked = 0#64) ∧
    ((run step init ops).pending &&& ~~~(run step init ops).blocked ≠ 0#64 →
      (run step (run step init ops) [.wake false, .clear, .recheck]).ret = some .eintr) := by
  have hinv : Inv (run step init ops) :=
    run_invariant (fun _ _ hs he => inv_step hs he) (inv_plain rfl) hok
  set s := run step init ops
  constructor
  · intro hn
    subst hn
    by_contra hp
    obtain ⟨j, hj⟩ := hinv.announced (by rw [hasleep]; rfl) (bne_iff_ne.mpr hp)
    rw [hdone j] at hj
    cases hj
  intro hp
  have hp' : isSignalPending s = true := bne_iff_ne.mpr hp
  simp only [run_cons, run_nil, step, wake, hasleep, clear, recheck]
  rw [if_neg (by decide), if_pos (by simpa only [isSignalPending] using hp')]
  rfl

theorem senders_idle (i : Nat) : Function.update (Function.update (Function.update (Function.update
      (fun _ => Sender.idle) 0 .begun) 0 .notifying) 0 .relocking) 0 .idle i = .idle := by
  by_cases hi : i = 0 <;> simp [hi]

def wakeupRun : List Event :=
  [.waitFor 1 false, .check, .publish, .block, .sendBegin 0, .sendLocked 0 sigusr1 false,
    .sendNotify 0, .sendReturn 0]

theorem wakeup_run_asleep : (run step init wakeupRun).phase = .asleep 1 false true ∧
    (run step (run step init wakeupRun) [.wake false, .clear, .recheck]).ret = some .eintr := by
  have hok : AllSteps step NotifyOk init wakeupRun := by
    refine ⟨trivial, trivial, trivial, trivial, trivial, trivial, ?_, trivial, trivial⟩
    intro _ hexp
    exact absurd hexp (by decide)
  exact ⟨rfl, (wakeup_run wakeupRun hok senders_idle 1 false true rfl).2
    (by decide)⟩

def lostRun : List Event :=
  [.waitFor 1 false, .check, .sendBegin 0, .sendLocked 0 sigusr1 false, .sendNotify 0,
    .sendReturn 0, .publish, .block]

/-- Its notification is lost, and the task sleeps on it. -/
theorem wakeup_lost : ¬ ∀ ops cond own, (∀ i, (run step init ops).sender i = .idle) →
      (run step init ops).phase = .asleep cond own false →
      (run step init ops).pending &&& ~~~(run step init ops).blocked = 0#64 := by
  intro h
  have hbad := h lostRun 1 false senders_idle rfl
  revert hbad
  decide

end IosLinuxkit.WaitFor
