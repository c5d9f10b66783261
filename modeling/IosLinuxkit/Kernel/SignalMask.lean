import IosLinuxkit.Kernel.Signal

/-!
# Signals: what can be blocked

Every system call that sets the mask goes through `sigmask_set`, which takes `SIGKILL` and
`SIGSTOP` out. Entering a handler does not: it adds the action's mask as `rt_sigaction` stored
it.

* **`blockedMask_run`** — when the mask is free of both.
-/

namespace IosLinuxkit.Signal

variable {s : State} {t : TaskId}

/-! ## Sections -/

theorem locked_of {Q : State → Prop} {f : Task → State} (hs : Q s)
    (hf : ∀ τ, s.task t = some τ → Q (f τ)) : Q (s.locked t f) := by
  unfold State.locked
  split
  case h_1 τ hτ =>
    split
    · exact hf τ hτ
    · exact hs
  case h_2 => exact hs

theorem call_of {Q : State → Prop} {f : Task → State} (hs : Q s)
    (hf : ∀ τ, s.task t = some τ → τ.phase = .running → Q (f τ)) : Q (s.call t f) := by
  apply locked_of hs
  intro τ hτ
  split
  case isTrue hrun => exact hf τ hτ hrun
  case isFalse => exact hs

def Tasks (P : Task → Prop) (s : State) : Prop := ∀ t τ, s.task t = some τ → P τ

variable {P : Task → Prop} {τ : Task} {sig : Sig}

theorem Tasks.setTask (hs : Tasks P s) (hτ : P τ) : Tasks P (s.setTask t τ) := by
  intro u υ hu
  by_cases hut : u = t
  · subst hut
    rw [show (s.setTask u τ).task u = some τ from Function.update_self ..] at hu
    exact Option.some.inj hu ▸ hτ
  · rw [show (s.setTask t τ).task u = s.task u from Function.update_of_ne hut ..] at hu
    exact hs u υ hu

theorem Tasks.frame {s' : State} (hs : Tasks P s) (h : s'.task = s.task) :
    Tasks P s' := by
  intro u υ hu
  exact hs u υ (h ▸ hu)

theorem Tasks.setLock (hs : Tasks P s) (h : SighandId) (o : Option TaskId) :
    Tasks P (s.setLock h o) :=
  hs.frame rfl

theorem Tasks.consume (hs : Tasks P s) (l : List Sigqueue) : Tasks P (s.consume l) :=
  hs.frame rfl

theorem Tasks.leave (hs : Tasks P s)
    (hτ : P { τ with phase := .exiting }) : Tasks P (leave t τ s) :=
  (hs.setTask hτ).setLock _ _

theorem Tasks.exitEnd (hs : Tasks P s) : Tasks P (exitEnd t s) := by
  unfold Signal.exitEnd
  split
  case h_2 => exact hs
  case h_1 τ hτ =>
    split
    · intro u υ hu
      by_cases hut : u = t
      · subst hut
        simp at hu
      · exact hs u υ (by simpa [hut] using hu)
    · exact hs

theorem nativeCancelRequestLocked_some {action : Sig → Sigaction} {τ' : Task}
    (h : nativeCancelRequestLocked action τ sig = some τ') :
    ∃ c, τ' = { τ with nativeCancel := c } := by
  unfold nativeCancelRequestLocked at h
  split at h
  case h_1 old _ =>
    split at h
    · exact ⟨_, (Option.some.inj h).symm⟩
    · cases h
  case h_2 => cases h

/-! ## Masks without `SIGKILL` and `SIGSTOP` -/

def Blockable (set : SigSet) : Prop :=
  sigsetHas set sigkill = false ∧ sigsetHas set sigstop = false

instance (set : SigSet) : Decidable (Blockable set) :=
  inferInstanceAs (Decidable (_ ∧ _))

theorem blockable_zero : Blockable 0#64 := ⟨sigsetHas_zero _, sigsetHas_zero _⟩

theorem blockable_sigmaskSet (set : SigSet) : Blockable (sigmaskSet set) := by
  constructor <;> simp [sigmaskSet, unblockableMask]

theorem Blockable.or {set set' : SigSet} (h : Blockable set) (h' : Blockable set') :
    Blockable (set ||| set') := by
  constructor
  · rw [sigsetHas_or, h.1, h'.1, Bool.or_false]
  · rw [sigsetHas_or, h.2, h'.2, Bool.or_false]

theorem Blockable.add {set : SigSet} (h : Blockable set)
    (hsig : signalIsBlockable sig) : Blockable (sigsetAdd set sig) := by
  obtain ⟨hk, hs⟩ : sig ≠ sigkill ∧ sig ≠ sigstop := by
    simpa [signalIsBlockable] using hsig
  constructor
  · simp [h.1, hk]
  · simp [h.2, hs]

theorem blockable_doSigprocmask (how : How) (set blocked : SigSet) :
    Blockable (doSigprocmask how set blocked) := by
  cases how with
  | block => exact blockable_sigmaskSet _
  | unblock => exact blockable_sigmaskSet _
  | setmask => exact blockable_sigmaskSet _

theorem blockable_of_callHandler {action : Sig → Sigaction}
    (h : signalAction action sig = .callHandler) : signalIsBlockable sig := by
  unfold signalAction at h
  by_cases hb : signalIsBlockable sig
  · exact hb
  simp only [hb, Bool.false_and, Bool.false_eq_true, if_false] at h
  split at h
  · cases h
  · split at h <;> cases h

theorem Blockable.handlerMask {action : Sigaction} {blocked : SigSet}
    (h : Blockable blocked) (hsig : signalIsBlockable sig) (hmask : Blockable action.mask) :
    Blockable (handlerMask action sig blocked) := by
  refine Blockable.or ?_ hmask
  split
  · exact h
  · exact h.add hsig

/-! ## One step -/

def MasksOk (τ : Task) : Prop := Blockable τ.blocked ∧ Blockable τ.savedMask

/-- The entry that the next iteration of the loop delivers to a handler: it is not blocked and
the task does not stop for it. -/
def Handles (s : State) (t : TaskId) (τ : Task) (sig : Sig) : Prop :=
  s.task t = some τ ∧ ∃ pos blocked e,
    τ.phase = .receiving pos blocked ∧ τ.queue[pos]? = some e ∧ e.sig = sig ∧
    sigsetHas blocked sig = false ∧ ¬ (τ.traced = true ∧ sig ≠ sigkill) ∧
    signalAction (s.action τ.sighand) sig = .callHandler

/-- A handler is entered only with a mask that has neither signal. -/
def HandlerMaskOk (s : State) : Event → Prop
  | .receiveNext t _ =>
    ∀ τ sig, Handles s t τ sig → Blockable (s.action τ.sighand sig).mask
  | _ => True

theorem masksOk_deliver (hs : Tasks MasksOk s) (hτ : MasksOk τ) :
    Tasks MasksOk (deliverSignalUnlocked t τ sig s) := by
  unfold deliverSignalUnlocked
  split
  case h_1 τ' h =>
    obtain ⟨c, rfl⟩ := nativeCancelRequestLocked_some h
    exact hs.setTask hτ
  case h_2 =>
    split
    · exact hs
    · refine Tasks.frame (hs.setTask (t := t) ?_) rfl
      exact hτ

theorem masksOk_sendRequest (hs : Tasks MasksOk s) : Tasks MasksOk (sendRequest t sig s) := by
  unfold sendRequest
  split
  case h_2 => exact hs
  case h_1 =>
    split
    · exact hs
    · apply locked_of hs
      intro τ hτ
      split
      case h_1 τ' h =>
        obtain ⟨c, rfl⟩ := nativeCancelRequestLocked_some h
        exact hs.setTask (hs t τ hτ)
      case h_2 => exact hs

theorem signalfdReadLoop_masks {mask : SigSet} {n : Nat} (h : MasksOk τ) :
    MasksOk (signalfdReadLoop mask n τ).2 := by
  induction n generalizing τ with
  | zero => exact h
  | succ n ih =>
    unfold signalfdReadLoop
    split
    case h_1 e τ' hd =>
      unfold signalfdDequeueLocked at hd
      split at hd
      · cases hd
        exact ih h
      · cases hd
    case h_2 => exact h

theorem masksOk_receiveSignals (hs : Tasks MasksOk s) : Tasks MasksOk (receiveSignals t s) := by
  apply call_of hs
  intro τ hτ _
  refine Tasks.setLock (hs.setTask ⟨?_, ?_⟩) _ _
  case refine_2 => exact (hs t τ hτ).2
  show Blockable (if τ.hasSavedMask = true then τ.savedMask else τ.blocked)
  split
  · exact (hs t τ hτ).2
  · exact (hs t τ hτ).1

theorem masksOk_receiveSignal {frameOk : Bool} (hs : Tasks MasksOk s) (hτ : MasksOk τ)
    (hmask : signalAction (s.action τ.sighand) sig = .callHandler →
      Blockable (s.action τ.sighand sig).mask) :
    Tasks MasksOk (receiveSignal t τ sig frameOk s) := by
  unfold receiveSignal
  split
  case h_1 => exact hs.setTask hτ
  case h_2 => exact hs.setTask hτ
  case h_3 => exact hs.leave hτ
  case h_4 hact =>
    have hb : Blockable (handlerMask (s.action τ.sighand sig) sig τ.blocked) :=
      hτ.1.handlerMask (blockable_of_callHandler hact) (hmask hact)
    dsimp only
    split
    · split
      · refine Tasks.frame (hs.setTask (t := t) ?_) rfl
        exact ⟨hb, hτ.2⟩
      · exact hs.setTask ⟨hb, hτ.2⟩
    · exact hs.leave ⟨hb, hτ.2⟩

theorem masksOk_receiveNext {frameOk : Bool} (hs : Tasks MasksOk s)
    (hok : HandlerMaskOk s (.receiveNext t frameOk)) : Tasks MasksOk (receiveNext t frameOk s) := by
  unfold receiveNext
  split
  case h_2 => exact hs
  case h_1 τ hτ =>
    have hm := hs t τ hτ
    split
    case h_2 => exact hs
    case h_1 pos blocked hphase =>
      split
      case h_1 =>
        refine Tasks.setLock (hs.setTask ?_) _ _
        exact hm
      case h_2 e he =>
        split
        · exact hs.setTask hm
        case isFalse hb =>
          dsimp only
          split
          · refine Tasks.setLock ((hs.consume _).setTask ?_) _ _
            exact hm
          case isFalse hstop =>
            -- the only step that adds a mask it has not filtered
            refine masksOk_receiveSignal (hs.consume _) ?_ ?_
            · exact hm
            intro hact
            refine hok τ e.sig ⟨hτ, pos, blocked, e, hphase, he, rfl, ?_, ?_, hact⟩
            · simpa using hb
            · simpa [Task.take] using hstop

theorem masksOk_fork {child : TaskId} {cloneSighand : Bool} (hs : Tasks MasksOk s) :
    Tasks MasksOk (fork t child cloneSighand s) := by
  unfold fork
  split
  case h_2 => exact hs
  case h_1 τ hτ _ =>
    have hm : ∀ h, MasksOk (forkTask τ h) := fun _ => hs t τ hτ
    split
    · split
      · exact hs.setTask (hm _)
      · exact Tasks.frame (hs.setTask (hm _)) rfl
    · exact hs

theorem masksOk_step {e : Event} (hs : Tasks MasksOk s) (hok : HandlerMaskOk s e) :
    Tasks MasksOk (step s e) := by
  cases e with
  | sendRequest t sig => exact masksOk_sendRequest hs
  | sendDeliver t sig =>
    apply locked_of hs
    intro τ hτ
    split
    · exact hs
    split
    · exact hs
    · exact masksOk_deliver hs (hs t τ hτ)
  | deliverSignal t sig =>
    apply locked_of hs
    intro τ hτ
    exact masksOk_deliver hs (hs t τ hτ)
  | trySelfSignal t sig =>
    apply call_of hs
    intro τ hτ _
    split
    · exact masksOk_deliver hs (hs t τ hτ)
    · exact hs
  | receiveSignals t => exact masksOk_receiveSignals hs
  | receiveNext t frameOk => exact masksOk_receiveNext hs hok
  | ptraceCont t =>
    apply locked_of hs
    intro τ hτ
    split
    · refine Tasks.setLock (hs.setTask ?_) _ _
      exact hs t τ hτ
    · exact hs.setTask (hs t τ hτ)
    · exact hs
  | ptraceKilled t =>
    apply locked_of hs
    intro τ hτ
    split
    · split
      · exact hs.setTask (hs t τ hτ)
      · exact hs
    · exact hs
  | signalfdRead t mask bufsize =>
    apply call_of hs
    intro τ hτ _
    split
    · exact hs
    · exact (hs.consume _).setTask (signalfdReadLoop_masks (hs t τ hτ))
  | sigtimedwait t set =>
    apply call_of hs
    intro τ hτ _
    exact hs.setTask (hs t τ hτ)
  | sigtimedwaitEnd t err =>
    apply locked_of hs
    intro τ hτ
    split
    case h_2 => exact hs
    case h_1 =>
      split
      · dsimp only
        split
        · exact hs.setTask (hs t τ hτ)
        split
        · exact (hs.consume _).setTask (hs t τ hτ)
        · exact hs.setTask (hs t τ hτ)
      · exact hs
  | sigprocmask t how set =>
    apply call_of hs
    intro τ hτ _
    exact hs.setTask ⟨blockable_doSigprocmask .., (hs t τ hτ).2⟩
  | sigmaskSetTemp t mask =>
    apply call_of hs
    intro τ hτ _
    exact hs.setTask ⟨blockable_sigmaskSet _, (hs t τ hτ).1⟩
  | sigreturn t mask =>
    apply call_of hs
    intro τ hτ _
    exact hs.setTask ⟨blockable_sigmaskSet _, (hs t τ hτ).2⟩
  | sigaction t sig action =>
    apply call_of hs
    intro τ hτ _
    split
    · exact hs.frame rfl
    · exact hs
  | nativeCancelBegin t =>
    apply call_of hs
    intro τ hτ _
    split
    · exact hs.setTask (hs t τ hτ)
    · exact hs
  | nativeCancelFinish t =>
    apply call_of hs
    intro τ hτ _
    exact hs.setTask (hs t τ hτ)
  | setNativeProxy t on =>
    apply call_of hs
    intro τ hτ _
    exact hs.setTask (hs t τ hτ)
  | setTraced t =>
    apply call_of hs
    intro τ hτ _
    exact hs.setTask (hs t τ hτ)
  | fork t child cloneSighand => exact masksOk_fork hs
  | exec t =>
    apply call_of hs
    intro τ hτ _
    exact hs.frame rfl
  | exitBegin t =>
    simp only [step, exitBegin]
    split
    case h_2 => exact hs
    case h_1 τ hτ =>
      split
      · exact hs.setTask (hs t τ hτ)
      · exact hs
  | exitEnd t => exact hs.exitEnd

/-! ## Every run -/

theorem masksOk_init : Tasks MasksOk init := by
  intro t τ hτ
  by_cases ht : t = 1
  · subst ht
    rw [show init.task 1 = some initTask from rfl] at hτ
    exact Option.some.inj hτ ▸ ⟨blockable_zero, blockable_zero⟩
  · simp [init, ht] at hτ

/-- **The blocked mask.** In every run that enters no handler whose mask has `SIGKILL` or
`SIGSTOP`, no task has either of them blocked. -/
theorem blockedMask_run (ops : List Event) (hok : AllSteps step HandlerMaskOk init ops)
    (t : TaskId) (τ : Task) (hτ : (run step init ops).task t = some τ) :
    sigsetHas τ.blocked sigkill = false ∧ sigsetHas τ.blocked sigstop = false :=
  (run_invariant (fun _ _ hs he => masksOk_step hs he) masksOk_init hok t τ hτ).1

/-- A handler for `SIGUSR1` with the mask `set`, and one signal for it. -/
def handlerRun (set : SigSet) : List Event :=
  [.sigaction 1 sigusr1 ⟨0x1000#64, 0#32, set⟩, .sendDeliver 1 sigusr1, .receiveSignals 1,
    .receiveNext 1 true]

theorem blockedMask_run_handler :
    ∃ τ, (run step init (handlerRun (sigMask sigterm))).task 1 = some τ ∧
      sigsetHas τ.blocked sigterm = true ∧
      sigsetHas τ.blocked sigkill = false ∧ sigsetHas τ.blocked sigstop = false := by
  have hok : AllSteps step HandlerMaskOk init (handlerRun (sigMask sigterm)) := by
    refine ⟨trivial, trivial, trivial, ?_, trivial⟩
    rintro τ sig ⟨hτ, pos, blocked, e, hphase, he, rfl, -⟩
    obtain rfl := Option.some.inj hτ
    obtain ⟨rfl, rfl⟩ := Phase.receiving.inj hphase
    obtain rfl := Option.some.inj he
    decide
  obtain ⟨τ, hτ⟩ :
      ∃ τ, (run step init (handlerRun (sigMask sigterm))).task 1 = some τ := ⟨_, rfl⟩
  refine ⟨τ, hτ, ?_, blockedMask_run _ hok 1 τ hτ⟩
  obtain rfl := Option.some.inj hτ
  decide

/-- The mask of the action is taken as it is. -/
theorem blockedMask_sigkill : ¬ ∀ ops t τ, (run step init ops).task t = some τ →
      sigsetHas τ.blocked sigkill = false ∧ sigsetHas τ.blocked sigstop = false := by
  intro h
  have hbad := h (handlerRun (sigMask sigkill)) 1 _ rfl
  revert hbad
  decide

end IosLinuxkit.Signal
