import IosLinuxkit.Kernel.SignalMask

/-!
# Signals: the frames of one call

`receive_signals` copies the mask into its local `blocked` before the loop. Every frame that
the loop pushes adds to `current->blocked`, and the loop goes on with the copy.

* **`frames_run`** — when no handler frame is for a signal that is blocked at that moment.
-/

namespace IosLinuxkit.Signal

/-! ## The frames of an iteration and of a run -/

/-- The frame that `receiveNext` pushes for `t`: the signal, and the mask before the push. -/
def framePushed (t : TaskId) (frameOk : Bool) (s : State) : Option (Sig × SigSet) :=
  match s.task t with
  | some τ =>
    match τ.phase with
    | .receiving pos blocked =>
      match τ.queue[pos]? with
      | none => none
      | some e =>
        if sigsetHas blocked e.sig then none
        else if τ.traced && e.sig ≠ sigkill then none
        else if signalAction (s.action τ.sighand) e.sig = .callHandler && frameOk then
          some (e.sig, τ.blocked)
        else none
    | _ => none
  | none => none

/-- The frames pushed for `t` in a run. -/
def framesOf (t : TaskId) : State → List Event → List (Sig × SigSet)
  | _, [] => []
  | s, .receiveNext u frameOk :: ops =>
    (if u = t then (framePushed t frameOk s).toList else []) ++
      framesOf t (step s (.receiveNext u frameOk)) ops
  | s, e :: ops => framesOf t (step s e) ops

/-! ## The frames of a call, from what it finds -/

/-- `SA_RESETHAND` -/
def afterHandler (action : Sig → Sigaction) (sig : Sig) : Sig → Sigaction :=
  if (action sig).resethand then Function.update action sig ⟨sigDfl, 0#32, 0#64⟩ else action

/-- The entries of the queue that get a handler, with the copy `blocked` of the mask. -/
def handled (blocked : SigSet) : (Sig → Sigaction) → List Sigqueue → List Sig
  | _, [] => []
  | action, e :: q =>
    if sigsetHas blocked e.sig then handled blocked action q
    else
      match signalAction action e.sig with
      | .callHandler => e.sig :: handled blocked (afterHandler action e.sig) q
      | .kill => []
      | .ignore | .stop => handled blocked action q

def withMasks : (Sig → Sigaction) → SigSet → List Sig → List (Sig × SigSet)
  | _, _, [] => []
  | action, b, sig :: l =>
    (sig, b) :: withMasks (afterHandler action sig) (handlerMask (action sig) sig b) l

/-- The first one's handler may run while the second one's does. -/
def Apart (action : Sig → Sigaction) (sig sig' : Sig) : Prop :=
  sigsetHas (action sig).mask sig' = false ∧ (sig = sig' → (action sig).nodefer = true)

variable {blocked : SigSet} {action : Sig → Sigaction} {sig : Sig}

theorem handled_blocked (action : Sig → Sigaction) {e : Sigqueue}
    (q : List Sigqueue) (h : sigsetHas blocked e.sig = true) :
    handled blocked action (e :: q) = handled blocked action q := by
  rw [handled, if_pos h]

theorem handled_taken (action : Sig → Sigaction) {e : Sigqueue}
    (q : List Sigqueue) (h : sigsetHas blocked e.sig = false) : handled blocked action (e :: q) =
      match signalAction action e.sig with
      | .callHandler => e.sig :: handled blocked (afterHandler action e.sig) q
      | .kill => []
      | .ignore | .stop => handled blocked action q := by
  rw [handled, if_neg (by simp [h])]

theorem signalAction_congr {action' : Sig → Sigaction}
    (h : action sig = action' sig) : signalAction action sig = signalAction action' sig := by
  unfold signalAction
  rw [h]

theorem afterHandler_eq {sig' : Sig}
    (h : signalAction (afterHandler action sig) sig' = .callHandler) :
    afterHandler action sig sig' = action sig' := by
  unfold afterHandler at h ⊢
  split
  case isFalse => rfl
  case isTrue hreset =>
    rw [if_pos hreset] at h
    by_cases hs : sig' = sig
    · subst hs
      -- the default action is never a handler
      unfold signalAction at h
      rw [Function.update_self] at h
      have hdfl : sigDfl ≠ sigIgn := by decide
      simp only [hdfl, ne_eq, not_true_eq_false, decide_false, Bool.and_false, Bool.false_eq_true,
        if_false] at h
      split at h
      · cases h
      · split at h <;> cases h
    · rw [Function.update_of_ne hs]

theorem handled_callHandler {q : List Sigqueue}
    (h : sig ∈ handled blocked action q) : signalAction action sig = .callHandler := by
  induction q generalizing action with
  | nil => cases h
  | cons e q ih =>
    rw [handled] at h
    split at h
    · exact ih h
    split at h
    case h_1 hact =>
      rcases List.mem_cons.mp h with rfl | h
      · exact hact
      · exact (signalAction_congr (afterHandler_eq (ih h))).symm.trans (ih h)
    case h_2 => cases h
    case h_3 => exact ih h
    case h_4 => exact ih h

theorem sigsetHas_handlerMask (a : Sigaction) (sig sig' : Sig) (b : SigSet) :
    sigsetHas (handlerMask a sig b) sig'
      = (sigsetHas b sig' || (!a.nodefer && decide (sig = sig')) || sigsetHas a.mask sig') := by
  unfold handlerMask
  rw [sigsetHas_or]
  cases a.nodefer with
  | true => simp
  | false => simp

theorem apart_iff (action : Sig → Sigaction) (sig sig' : Sig) {b : SigSet}
    (hb : sigsetHas b sig' = false) :
    Apart action sig sig' ↔ sigsetHas (handlerMask (action sig) sig b) sig' = false := by
  unfold Apart
  rw [sigsetHas_handlerMask, hb, Bool.false_or, Bool.or_eq_false_iff, Bool.and_eq_false_iff,
    Bool.not_eq_false', decide_eq_false_iff_not]
  constructor
  · rintro ⟨hmask, hself⟩
    refine ⟨?_, hmask⟩
    by_cases hs : sig = sig'
    · exact .inl (hself hs)
    · exact .inr hs
  rintro ⟨hn | hs, hmask⟩
  · exact ⟨hmask, fun _ => hn⟩
  · exact ⟨hmask, fun hc => absurd hc hs⟩

theorem handlerMask_clear {a : Sigaction} {sig' : Sig} {b : SigSet}
    (h : sigsetHas (handlerMask a sig b) sig' = false) : sigsetHas b sig' = false := by
  rw [sigsetHas_handlerMask, Bool.or_eq_false_iff, Bool.or_eq_false_iff] at h
  exact h.1.1

theorem withMasks_unblocked (blocked : SigSet) (action : Sig → Sigaction) (b : SigSet)
    (q : List Sigqueue) :
    (∀ f ∈ withMasks action b (handled blocked action q), sigsetHas f.2 f.1 = false) ↔
      (∀ sig ∈ handled blocked action q, sigsetHas b sig = false) ∧
        (handled blocked action q).Pairwise (Apart action) := by
  induction q generalizing action b with
  | nil => simp [handled, withMasks]
  | cons e q ih =>
    rw [handled]
    split
    case isTrue => exact ih action b
    case isFalse =>
      split
      case h_2 => simp [withMasks]
      case h_3 => exact ih action b
      case h_4 => exact ih action b
      case h_1 =>
        have hkeep : ∀ sig ∈ handled blocked (afterHandler action e.sig) q,
            afterHandler action e.sig sig = action sig :=
          fun sig hs => afterHandler_eq (handled_callHandler hs)
        rw [withMasks, List.forall_mem_cons, List.forall_mem_cons, ih, List.pairwise_cons]
        have hpair : (handled blocked (afterHandler action e.sig) q).Pairwise
              (Apart (afterHandler action e.sig)) ↔
            (handled blocked (afterHandler action e.sig) q).Pairwise (Apart action) := by
          refine List.Pairwise.iff_of_mem fun {a c} ha _ => ?_
          unfold Apart
          rw [hkeep a ha]
        rw [hpair]
        generalize handled blocked (afterHandler action e.sig) q = l
        constructor
        · rintro ⟨hb, hclear, hpw⟩
          have hbl := fun sig hs => handlerMask_clear (hclear sig hs)
          exact ⟨⟨hb, hbl⟩, fun sig hs => (apart_iff action e.sig sig (hbl sig hs)).mpr (hclear sig hs),
            hpw⟩
        · rintro ⟨⟨hb, hbl⟩, hap, hpw⟩
          exact ⟨hb, fun sig hs => (apart_iff action e.sig sig (hbl sig hs)).mp (hap sig hs), hpw⟩

/-! ## One event -/

def Phase.inLoop : Phase → Bool
  | .receiving .. | .stopped .. => true
  | _ => false

structure Own (τ τ' : Task) (start : Prop) : Prop where
  sighand : τ'.sighand = τ.sighand
  traced : τ.traced = true → τ'.traced = true
  inLoop : τ'.phase.inLoop = true → τ.phase.inLoop = true ∨ start
  stopped : ∀ tmp b, τ'.phase = .stopped tmp b → τ'.phase = τ.phase ∨ τ'.traced = true

/-- What an event of task `u` may do; `mine` is whether it is an iteration of the task's own
loop. -/
structure Acts (u : TaskId) (τ : Task) (mine start : Prop) (s s' : State) : Prop where
  others : ∀ v, v ≠ u → s'.task v = s.task v
  elsewhere : ∀ h, h ≠ τ.sighand → s'.lock h = s.lock h ∧ s'.action h = s.action h
  fresh : s'.freshSighand = s.freshSighand
  own : ∀ τ', s'.task u = some τ' → Own τ τ' start
  holds : ∀ τ' pos b, s'.task u = some τ' → τ'.phase = .receiving pos b →
    s'.lock τ.sighand = some u ∨ (τ'.phase = τ.phase ∧ s'.lock τ.sighand = s.lock τ.sighand)
  guard : s.lock τ.sighand = none ∨ mine ∨
    (s'.lock = s.lock ∧ s'.action = s.action ∧ τ.phase.inLoop = false)

structure Sets (t : TaskId) (τ' : Task) (s s' : State) : Prop where
  task : s'.task = Function.update s.task t (some τ')
  action : s'.action = s.action
  fresh : s'.freshSighand = s.freshSighand

def Event.isFork : Event → Prop
  | .fork .. => True
  | _ => False

def Event.isNext (t : TaskId) : Event → Prop
  | .receiveNext u _ => u = t
  | _ => False

/-- A call of `receive_signals` by task `t`. -/
def Event.isStart (t : TaskId) : Event → Prop
  | .receiveSignals u => u = t
  | _ => False

def LockInv (s : State) : Prop :=
  ∀ t τ, s.task t = some τ → τ.sighand < s.freshSighand ∧
    ∀ pos b, τ.phase = .receiving pos b → s.lock τ.sighand = some t

def ActsOrNot (s : State) (e : Event) : Prop :=
  step s e = s ∨ ∃ u τ, s.task u = some τ ∧
    Acts u τ (e.isNext u ∧ ∃ pos b, τ.phase = .receiving pos b) (e.isStart u) s (step s e)

section Steps

variable {s : State} {t : TaskId} {τ τ' : Task} {mine start : Prop}

theorem Own.same (hs : τ'.sighand = τ.sighand) (ht : τ.traced = true → τ'.traced = true)
    (hp : τ'.phase = τ.phase) : Own τ τ' start :=
  ⟨hs, ht, fun h => .inl (hp ▸ h), fun _ _ _ => .inl hp⟩

theorem Own.out (hs : τ'.sighand = τ.sighand) (ht : τ.traced = true → τ'.traced = true)
    (hp : τ'.phase.inLoop = false) : Own τ τ' start := by
  refine ⟨hs, ht, fun h => ?_, fun tmp b h => ?_⟩
  · rw [hp] at h
    cases h
  · rw [h] at hp
    cases hp

variable {pos : Nat} {b : SigSet} {s' : State} {sig : Sig}

theorem receiving_inLoop {p : Phase} (h : p = .receiving pos b) :
    p.inLoop = true := by
  rw [h]
  rfl

theorem not_receiving {p : Phase} (h : p.inLoop = false) (pos : Nat) (b : SigSet) :
    p ≠ .receiving pos b := by
  rintro rfl
  cases h

theorem acts_task (hlock : s.lock τ.sighand = none) (hset : Sets t τ' s s')
    (hl : s'.lock = s.lock) (hown : Own τ τ' start)
    (hp : τ'.phase = τ.phase ∨ τ'.phase.inLoop = false) : Acts t τ mine start s s' := by
  refine ⟨fun v hv => ?_, fun h hh => ⟨by rw [hl], by rw [hset.action]⟩, hset.fresh,
    fun υ hυ => ?_, fun υ pos b hυ hrec => ?_, .inl hlock⟩
  · rw [hset.task, Function.update_of_ne hv]
  · rw [hset.task, Function.update_self] at hυ
    exact Option.some.inj hυ ▸ hown
  rw [hset.task, Function.update_self] at hυ
  cases hυ
  rcases hp with hp | hp
  · exact .inr ⟨hp, by rw [hl]⟩
  · exact absurd hrec (not_receiving hp pos b)

theorem acts_enter (hlock : s.lock τ.sighand = none) (hset : Sets t τ' s s')
    (hl : s'.lock = Function.update s.lock τ.sighand (some t)) (hown : Own τ τ' start) :
    Acts t τ mine start s s' := by
  refine ⟨fun v hv => ?_, fun h hh => ⟨?_, by rw [hset.action]⟩, hset.fresh,
    fun υ hυ => ?_, fun υ pos b hυ hrec => .inl ?_, .inl hlock⟩
  · rw [hset.task, Function.update_of_ne hv]
  · rw [hl, Function.update_of_ne hh]
  · rw [hset.task, Function.update_self] at hυ
    exact Option.some.inj hυ ▸ hown
  · rw [hl, Function.update_self]

theorem acts_action (hτ : s.task t = some τ) (hlock : s.lock τ.sighand = none)
    (htask : s'.task = s.task) (hl : s'.lock = s.lock)
    (ha : ∀ h, h ≠ τ.sighand → s'.action h = s.action h) (hf : s'.freshSighand = s.freshSighand) :
    Acts t τ mine start s s' := by
  refine ⟨fun v hv => by rw [htask], fun h hh => ⟨by rw [hl], ha h hh⟩, hf, fun υ hυ => ?_,
    fun υ pos b hυ hrec => .inr ⟨?_, by rw [hl]⟩, .inl hlock⟩
  · rw [htask, hτ] at hυ
    cases hυ
    exact Own.same rfl id rfl
  rw [htask, hτ] at hυ
  cases hυ
  rfl

theorem acts_keep (htask : s'.task = Function.update s.task t (some τ'))
    (hl : s'.lock = s.lock) (ha : ∀ h, h ≠ τ.sighand → s'.action h = s.action h)
    (hf : s'.freshSighand = s.freshSighand) (hown : Own τ τ' start)
    (hlock : s.lock τ.sighand = some t) (hm : mine) : Acts t τ mine start s s' := by
  refine ⟨fun v hv => ?_, fun h hh => ⟨by rw [hl], ha h hh⟩, hf, fun υ hυ => ?_,
    fun υ pos b hυ hrec => .inl (by rw [hl]; exact hlock), .inr (.inl hm)⟩
  · rw [htask, Function.update_of_ne hv]
  · rw [htask, Function.update_self] at hυ
    exact Option.some.inj hυ ▸ hown

theorem acts_release (hset : Sets t τ' s s')
    (hl : s'.lock = Function.update s.lock τ.sighand none) (hown : Own τ τ' start)
    (hp : ∀ pos b, τ'.phase ≠ .receiving pos b) (hm : mine) : Acts t τ mine start s s' := by
  refine ⟨fun v hv => ?_, fun h hh => ⟨?_, by rw [hset.action]⟩, hset.fresh, fun υ hυ => ?_,
    fun υ pos b hυ hrec => ?_, .inr (.inl hm)⟩
  · rw [hset.task, Function.update_of_ne hv]
  · rw [hl, Function.update_of_ne hh]
  · rw [hset.task, Function.update_self] at hυ
    exact Option.some.inj hυ ▸ hown
  rw [hset.task, Function.update_self] at hυ
  cases hυ
  exact absurd hrec (hp pos b)

theorem acts_exit {o : Option Task} (hphase : τ.phase.inLoop = false)
    (htask : s'.task = Function.update s.task t o) (hl : s'.lock = s.lock)
    (ha : s'.action = s.action) (hf : s'.freshSighand = s.freshSighand)
    (ho : ∀ υ, o = some υ → υ = { τ with phase := .exiting }) : Acts t τ mine start s s' := by
  refine ⟨fun v hv => ?_, fun h hh => ⟨by rw [hl], by rw [ha]⟩, hf, fun υ hυ => ?_,
    fun υ pos b hυ hrec => ?_, .inr (.inr ⟨hl, ha, hphase⟩)⟩
  · rw [htask, Function.update_of_ne hv]
  · rw [htask, Function.update_self] at hυ
    rw [ho υ hυ]
    exact Own.out rfl id rfl
  rw [htask, Function.update_self] at hυ
  rw [ho υ hυ] at hrec
  cases hrec

theorem acts_own (hlock : s.lock τ.sighand = none) (hset : Sets t τ' s s')
    (hl : s'.lock = s.lock) (hs : τ'.sighand = τ.sighand)
    (ht : τ.traced = true → τ'.traced = true) (hp : τ'.phase = τ.phase) :
    s' = s ∨ Acts t τ mine start s s' :=
  .inr (acts_task hlock hset hl (Own.same hs ht hp) (.inl hp))

theorem acts_phase (hlock : s.lock τ.sighand = none) (hset : Sets t τ' s s')
    (hl : s'.lock = s.lock) (hs : τ'.sighand = τ.sighand)
    (ht : τ.traced = true → τ'.traced = true) (hp : τ'.phase.inLoop = false) :
    s' = s ∨ Acts t τ mine start s s' :=
  .inr (acts_task hlock hset hl (Own.out hs ht hp) (.inr hp))

theorem acts_locked {f : Task → State} {mine : TaskId → Task → Prop} {start : TaskId → Prop}
    (hf : ∀ τ, s.task t = some τ → s.lock τ.sighand = none →
      f τ = s ∨ Acts t τ (mine t τ) (start t) s (f τ)) : s.locked t f = s ∨
      ∃ u τ, s.task u = some τ ∧ Acts u τ (mine u τ) (start u) s (s.locked t f) := by
  unfold State.locked
  split
  case h_1 τ hτ =>
    split
    case isTrue hlock =>
      rcases hf τ hτ hlock with h | h
      · exact .inl h
      · exact .inr ⟨t, τ, hτ, h⟩
    case isFalse => exact .inl rfl
  case h_2 => exact .inl rfl

theorem acts_call {f : Task → State} {mine : TaskId → Task → Prop} {start : TaskId → Prop}
    (hf : ∀ τ, s.task t = some τ → s.lock τ.sighand = none → τ.phase = .running →
      f τ = s ∨ Acts t τ (mine t τ) (start t) s (f τ)) : s.call t f = s ∨
      ∃ u τ, s.task u = some τ ∧ Acts u τ (mine u τ) (start u) s (s.call t f) := by
  apply acts_locked
  intro τ hτ hlock
  split
  case isTrue hrun => exact hf τ hτ hlock hrun
  case isFalse => exact .inl rfl

theorem acts_deliver (hlock : s.lock τ.sighand = none) : deliverSignalUnlocked t τ sig s = s ∨
      Acts t τ mine start s (deliverSignalUnlocked t τ sig s) := by
  unfold deliverSignalUnlocked
  split
  case h_1 τ' hreq =>
    obtain ⟨r, rfl⟩ := nativeCancelRequestLocked_some hreq
    exact acts_own hlock ⟨rfl, rfl, rfl⟩ rfl rfl id rfl
  case h_2 =>
    split
    · exact .inl rfl
    · exact acts_own hlock ⟨rfl, rfl, rfl⟩ rfl rfl id rfl

theorem acts_receiveNext (frameOk : Bool) (hτ : s.task t = some τ)
    (hhold : ∀ pos b, τ.phase = .receiving pos b → s.lock τ.sighand = some t) :
    receiveNext t frameOk s = s ∨
      Acts t τ (∃ pos b, τ.phase = .receiving pos b) start s (receiveNext t frameOk s) := by
  unfold receiveNext
  rw [hτ]
  dsimp only
  split
  case h_2 => exact .inl rfl
  case h_1 pos blocked hphase =>
    have hlock := hhold pos blocked hphase
    have hm : ∃ pos b, τ.phase = .receiving pos b := ⟨pos, blocked, hphase⟩
    have hin : τ.phase.inLoop = true := receiving_inLoop hphase
    right
    split
    case h_1 =>
      exact acts_release ⟨rfl, rfl, rfl⟩ rfl (Own.out rfl id rfl) (fun pos b hc => by cases hc) hm
    case h_2 e he =>
      split
      · exact acts_keep rfl rfl (fun _ _ => rfl) rfl
          ⟨rfl, id, fun _ => .inl hin, fun _ _ hc => by cases hc⟩ hlock hm
      split
      case isTrue htraced =>
        have htr : τ.traced = true := (Bool.and_eq_true _ _ ▸ htraced).1
        exact acts_release ⟨rfl, rfl, rfl⟩ rfl
          ⟨rfl, id, fun _ => .inl hin, fun _ _ _ => .inr htr⟩ (fun pos b hc => by cases hc) hm
      case isFalse =>
        unfold receiveSignal
        split
        · exact acts_keep rfl rfl (fun _ _ => rfl) rfl (Own.same rfl id rfl) hlock hm
        · exact acts_keep rfl rfl (fun _ _ => rfl) rfl (Own.same rfl id rfl) hlock hm
        · exact acts_release ⟨rfl, rfl, rfl⟩ rfl (Own.out rfl id rfl)
            (fun pos b hc => by cases hc) hm
        split
        · dsimp only
          split
          · exact acts_keep rfl rfl (fun h hh => Function.update_of_ne hh ..) rfl
              (Own.same rfl id rfl) hlock hm
          · exact acts_keep rfl rfl (fun _ _ => rfl) rfl (Own.same rfl id rfl) hlock hm
        · exact acts_release ⟨rfl, rfl, rfl⟩ rfl (Own.out rfl id rfl)
            (fun pos b hc => by cases hc) hm

theorem signalfdReadLoop_frame (mask : SigSet) (n : Nat) (τ : Task) :
    (signalfdReadLoop mask n τ).2.sighand = τ.sighand ∧
      (signalfdReadLoop mask n τ).2.traced = τ.traced ∧
      (signalfdReadLoop mask n τ).2.phase = τ.phase := by
  induction n generalizing τ with
  | zero => exact ⟨rfl, rfl, rfl⟩
  | succ n ih =>
    unfold signalfdReadLoop
    split
    case h_2 => exact ⟨rfl, rfl, rfl⟩
    case h_1 e τ' hdeq =>
      unfold signalfdDequeueLocked at hdeq
      split at hdeq
      · cases hdeq
        exact ih _
      · cases hdeq

theorem step_acts (h : LockInv s) (e : Event) (hfork : ¬ e.isFork) : ActsOrNot s e := by
  unfold ActsOrNot
  cases e with
  | fork u child cloneSighand => exact absurd trivial hfork
  | sendRequest u sig =>
    simp only [step, sendRequest]
    split
    case h_2 => exact .inl rfl
    case h_1 τ hτ =>
      split
      · exact .inl rfl
      refine acts_locked fun τ _ hlock => ?_
      split
      case h_1 τ' hreq =>
        obtain ⟨r, rfl⟩ := nativeCancelRequestLocked_some hreq
        exact acts_own hlock ⟨rfl, rfl, rfl⟩ rfl rfl id rfl
      case h_2 => exact .inl rfl
  | sendDeliver u sig =>
    refine acts_locked fun τ _ hlock => ?_
    split
    · exact .inl rfl
    split
    · exact .inl rfl
    · exact acts_deliver hlock
  | deliverSignal u sig => exact acts_locked fun τ _ hlock => acts_deliver hlock
  | trySelfSignal u sig =>
    refine acts_call fun τ _ hlock _ => ?_
    split
    · exact acts_deliver hlock
    · exact .inl rfl
  | receiveSignals u =>
    exact acts_call fun τ _ hlock _ => .inr (acts_enter hlock ⟨rfl, rfl, rfl⟩ rfl
      ⟨rfl, id, fun _ => .inr rfl, fun _ _ hc => by cases hc⟩)
  | receiveNext u ok =>
    show receiveNext u ok s = s ∨ ∃ v τ, s.task v = some τ ∧ Acts v τ _ _ s (receiveNext u ok s)
    cases hτ : s.task u with
    | none =>
      left
      unfold receiveNext
      rw [hτ]
    | some τ =>
      rcases acts_receiveNext ok hτ (h u τ hτ).2 with hs | ha
      · exact .inl hs
      · exact .inr ⟨u, τ, hτ, ha.others, ha.elsewhere, ha.fresh, ha.own, ha.holds,
          ha.guard.imp_right (Or.imp_left fun hm => ⟨rfl, hm⟩)⟩
  | ptraceCont u =>
    refine acts_locked fun τ _ hlock => ?_
    split
    case h_1 pos b hphase =>
      have hin : τ.phase.inLoop = true := by rw [hphase]; rfl
      exact .inr (acts_enter hlock ⟨rfl, rfl, rfl⟩ rfl
        ⟨rfl, id, fun _ => .inl hin, fun _ _ hc => by cases hc⟩)
    case h_2 => exact acts_phase hlock ⟨rfl, rfl, rfl⟩ rfl rfl id rfl
    case h_3 => exact .inl rfl
  | ptraceKilled u =>
    refine acts_locked fun τ _ hlock => ?_
    split
    · split
      · exact acts_phase hlock ⟨rfl, rfl, rfl⟩ rfl rfl id rfl
      · exact .inl rfl
    · exact .inl rfl
  | signalfdRead u mask bufsize =>
    refine acts_call fun τ _ hlock _ => ?_
    split
    · exact .inl rfl
    · obtain ⟨hs, ht, hp⟩ := signalfdReadLoop_frame mask (bufsize / 128) τ
      exact acts_own hlock ⟨rfl, rfl, rfl⟩ rfl hs (fun hc => ht.trans hc) hp
  | sigtimedwait u set =>
    exact acts_call fun τ _ hlock _ => acts_phase hlock ⟨rfl, rfl, rfl⟩ rfl rfl id rfl
  | sigtimedwaitEnd u err =>
    refine acts_locked fun τ _ hlock => ?_
    split
    · split
      · dsimp only
        split
        · exact acts_phase hlock ⟨rfl, rfl, rfl⟩ rfl rfl id rfl
        split
        · exact acts_phase hlock ⟨rfl, rfl, rfl⟩ rfl rfl id rfl
        · exact acts_phase hlock ⟨rfl, rfl, rfl⟩ rfl rfl id rfl
      · exact .inl rfl
    · exact .inl rfl
  | sigprocmask u how set =>
    exact acts_call fun τ _ hlock _ => acts_own hlock ⟨rfl, rfl, rfl⟩ rfl rfl id rfl
  | sigmaskSetTemp u mask =>
    exact acts_call fun τ _ hlock _ => acts_own hlock ⟨rfl, rfl, rfl⟩ rfl rfl id rfl
  | sigreturn u mask =>
    exact acts_call fun τ _ hlock _ => acts_own hlock ⟨rfl, rfl, rfl⟩ rfl rfl id rfl
  | sigaction u sig action =>
    refine acts_call fun τ hτ hlock _ => ?_
    split
    · exact .inr (acts_action hτ hlock rfl rfl (fun g hg => Function.update_of_ne hg ..) rfl)
    · exact .inl rfl
  | nativeCancelBegin u =>
    refine acts_call fun τ _ hlock _ => ?_
    split
    · exact acts_own hlock ⟨rfl, rfl, rfl⟩ rfl rfl id rfl
    · exact .inl rfl
  | nativeCancelFinish u =>
    exact acts_call fun τ _ hlock _ => acts_own hlock ⟨rfl, rfl, rfl⟩ rfl rfl id rfl
  | setNativeProxy u on =>
    exact acts_call fun τ _ hlock _ => acts_own hlock ⟨rfl, rfl, rfl⟩ rfl rfl id rfl
  | setTraced u =>
    exact acts_call fun τ _ hlock _ => acts_own hlock ⟨rfl, rfl, rfl⟩ rfl rfl (fun _ => rfl) rfl
  | exec u =>
    exact acts_call fun τ hτ hlock _ =>
      .inr (acts_action hτ hlock rfl rfl (fun g hg => Function.update_of_ne hg ..) rfl)
  | exitBegin u =>
    simp only [step, exitBegin]
    split
    case h_2 => exact .inl rfl
    case h_1 τ hτ =>
      split
      case isFalse => exact .inl rfl
      case isTrue hrun =>
        exact .inr ⟨u, τ, hτ, acts_exit (by rw [hrun]; rfl) rfl rfl rfl rfl
          fun υ hυ => (Option.some.inj hυ).symm⟩
  | exitEnd u =>
    simp only [step, exitEnd]
    split
    case h_2 => exact .inl rfl
    case h_1 τ hτ =>
      split
      case isFalse => exact .inl rfl
      case isTrue hex =>
        exact .inr ⟨u, τ, hτ, acts_exit (by rw [hex]; rfl) rfl rfl rfl rfl
          fun υ hυ => by cases hυ⟩

theorem fork_spec (u child : TaskId) (cloneSighand : Bool) : fork u child cloneSighand s = s ∨
      ∃ υ, s.task child = none ∧ υ.phase = .running ∧
        (fork u child cloneSighand s).task = Function.update s.task child (some υ) ∧
        (LockInv s → υ.sighand < (fork u child cloneSighand s).freshSighand) ∧
        s.freshSighand ≤ (fork u child cloneSighand s).freshSighand ∧
        ∀ h, h < s.freshSighand → (fork u child cloneSighand s).lock h = s.lock h ∧
          (fork u child cloneSighand s).action h = s.action h := by
  unfold fork
  split
  case h_2 => exact .inl rfl
  case h_1 τ hτ hchild =>
    split
    case isFalse => exact .inl rfl
    case isTrue hrun =>
      right
      split
      case isTrue =>
        exact ⟨forkTask τ τ.sighand, hchild, hrun, rfl, fun h => (h u τ hτ).1, Nat.le_refl _,
          fun _ _ => ⟨rfl, rfl⟩⟩
      case isFalse =>
        refine ⟨forkTask τ s.freshSighand, hchild, hrun, rfl, fun _ => Nat.lt_succ_self _,
          Nat.le_succ _, fun h hh => ⟨?_, ?_⟩⟩
        · exact Function.update_of_ne (Nat.ne_of_lt hh) ..
        · exact Function.update_of_ne (Nat.ne_of_lt hh) ..

theorem Acts.apart {u : TaskId} {υ : Task} (h : LockInv s)
    (ha : Acts u υ (mine ∧ ∃ pos b, υ.phase = .receiving pos b) start s s') (hυ : s.task u = some υ)
    (hτ : s.task t = some τ) (hrec : τ.phase = .receiving pos b) (hne : ¬ (mine ∧ u = t)) :
    u ≠ t ∧ s'.task t = some τ ∧ s'.action τ.sighand = s.action τ.sighand ∧
      s'.lock τ.sighand = s.lock τ.sighand := by
  have hlock := (h t τ hτ).2 pos b hrec
  have hut : u ≠ t := by
    rintro rfl
    obtain rfl : τ = υ := Option.some.inj (hτ.symm.trans hυ)
    rcases ha.guard with hg | ⟨hm, -⟩ | ⟨-, -, hg⟩
    · rw [hlock] at hg
      cases hg
    · exact hne ⟨hm, rfl⟩
    · exact not_receiving hg pos b hrec
  refine ⟨hut, (ha.others t (Ne.symm hut)).trans hτ, ?_⟩
  by_cases hs : τ.sighand = υ.sighand
  · rcases ha.guard with hg | ⟨-, pos', b', hrec'⟩ | ⟨hl, hac, -⟩
    · rw [← hs, hlock] at hg
      cases hg
    · -- two tasks in the loop with one lock
      have hlock' := (h u υ hυ).2 pos' b' hrec'
      rw [← hs, hlock] at hlock'
      exact absurd (Option.some.inj hlock').symm hut
    · exact ⟨by rw [hac], by rw [hl]⟩
  · exact ⟨(ha.elsewhere _ hs).2, (ha.elsewhere _ hs).1⟩

theorem lockInv_step (h : LockInv s) (e : Event) : LockInv (step s e) := by
  by_cases hfork : e.isFork
  · cases e with
    | fork u child cloneSighand =>
      show LockInv (fork u child cloneSighand s)
      rcases fork_spec (s := s) u child cloneSighand with hs | ⟨υ, hchild, hrun, htask, hlt, hle, hkeep⟩
      · rw [hs]
        exact h
      intro t τ hτ
      rw [htask] at hτ
      by_cases ht : t = child
      · subst ht
        rw [Function.update_self] at hτ
        cases hτ
        exact ⟨hlt h, fun pos b hrec => by rw [hrun] at hrec; cases hrec⟩
      rw [Function.update_of_ne ht] at hτ
      obtain ⟨hold, hhold⟩ := h t τ hτ
      exact ⟨Nat.lt_of_lt_of_le hold hle,
        fun pos b hrec => (hkeep _ hold).1.trans (hhold pos b hrec)⟩
    | _ => exact absurd hfork id
  rcases step_acts h e hfork with hs | ⟨u, υ, hυ, ha⟩
  · rw [hs]
    exact h
  intro t τ hτ
  rw [ha.fresh]
  by_cases ht : t = u
  · subst ht
    have hown := ha.own τ hτ
    rw [hown.sighand]
    refine ⟨(h t υ hυ).1, fun pos b hrec => ?_⟩
    rcases ha.holds τ pos b hτ hrec with hl | ⟨hp, hl⟩
    · exact hl
    · exact hl.trans ((h t υ hυ).2 pos b (hp ▸ hrec))
  rw [ha.others t ht] at hτ
  refine ⟨(h t τ hτ).1, fun pos b hrec => ?_⟩
  have hap := ha.apart h hυ hτ hrec fun hc => ht hc.2.symm
  exact hap.2.2.2.trans ((h t τ hτ).2 pos b hrec)

theorem init_task {t : TaskId} {τ : Task} (hτ : init.task t = some τ) : τ = initTask := by
  change Function.update (fun _ => none) 1 (some initTask) t = some τ at hτ
  by_cases ht : t = 1
  · subst ht
    rw [Function.update_self] at hτ
    exact (Option.some.inj hτ).symm
  · rw [Function.update_of_ne ht] at hτ
    cases hτ

theorem lockInv_init : LockInv init := by
  intro t τ hτ
  rw [init_task hτ]
  exact ⟨Nat.one_pos, fun pos b hrec => by cases hrec⟩

/-! ## The frames that are still to come -/

def toCome (t : TaskId) (s : State) : List (Sig × SigSet) :=
  match s.task t with
  | some τ =>
    if τ.traced then []
    else
      match τ.phase with
      | .receiving pos blocked =>
        withMasks (s.action τ.sighand) τ.blocked
          (handled blocked (s.action τ.sighand) (τ.queue.drop pos))
      | _ => []
  | none => []

def StoppedTraced (s : State) : Prop :=
  ∀ t τ tmp b, s.task t = some τ → τ.phase = .stopped tmp b → τ.traced = true

theorem toCome_outside (hτ : s.task t = some τ) (hout : τ.phase.inLoop = false) :
    toCome t s = [] := by
  unfold toCome
  rw [hτ]
  dsimp only
  split
  · rfl
  split
  case h_1 hphase => rw [hphase] at hout; cases hout
  case h_2 => rfl

theorem toCome_traced (hτ : s.task t = some τ) (ht : τ.traced = true) : toCome t s = [] := by
  unfold toCome
  rw [hτ]
  dsimp only
  rw [if_pos ht]

theorem toCome_none (hτ : s.task t = none) : toCome t s = [] := by
  unfold toCome
  rw [hτ]

theorem toCome_receiving (hτ : s.task t = some τ)
    (ht : τ.traced = false) (hp : τ.phase = .receiving pos b) :
    toCome t s = withMasks (s.action τ.sighand) τ.blocked
      (handled b (s.action τ.sighand) (τ.queue.drop pos)) := by
  unfold toCome
  rw [hτ]
  dsimp only
  rw [if_neg (by simp [ht]), hp]

theorem stoppedTraced_step (hl : LockInv s) (h : StoppedTraced s) (e : Event) :
    StoppedTraced (step s e) := by
  by_cases hfork : e.isFork
  · cases e with
    | fork u child cloneSighand =>
      show StoppedTraced (fork u child cloneSighand s)
      rcases fork_spec (s := s) u child cloneSighand with hs | ⟨υ, -, hrun, htask, -⟩
      · rw [hs]
        exact h
      intro t τ tmp b hτ hstop
      rw [htask] at hτ
      by_cases ht : t = child
      · subst ht
        rw [Function.update_self] at hτ
        cases hτ
        rw [hrun] at hstop
        cases hstop
      · rw [Function.update_of_ne ht] at hτ
        exact h t τ tmp b hτ hstop
    | _ => exact absurd hfork id
  rcases step_acts hl e hfork with hs | ⟨u, υ, hυ, ha⟩
  · rw [hs]
    exact h
  intro t τ tmp b hτ hstop
  by_cases ht : t = u
  · subst ht
    have hown := ha.own τ hτ
    rcases hown.stopped tmp b hstop with hp | htr
    · exact hown.traced (h t υ tmp b hυ (hp ▸ hstop))
    · exact htr
  · rw [ha.others t ht] at hτ
    exact h t τ tmp b hτ hstop

theorem toCome_traced_step (hl : LockInv s) (e : Event) (hτ : s.task t = some τ)
    (htr : τ.traced = true) : toCome t (step s e) = [] := by
  have htraced : ∀ τ', (step s e).task t = some τ' → τ'.traced = true := by
    intro τ' hτ'
    by_cases hfork : e.isFork
    · cases e with
      | fork u child cloneSighand =>
        change (fork u child cloneSighand s).task t = some τ' at hτ'
        rcases fork_spec (s := s) u child cloneSighand with hs | ⟨υ, hchild, -, htask, -⟩
        · rw [hs, hτ] at hτ'
          exact Option.some.inj hτ' ▸ htr
        have ht : t ≠ child := by
          rintro rfl
          rw [hτ] at hchild
          cases hchild
        rw [htask, Function.update_of_ne ht, hτ] at hτ'
        exact Option.some.inj hτ' ▸ htr
      | _ => exact absurd hfork id
    rcases step_acts hl e hfork with hs | ⟨u, υ, hυ, ha⟩
    · rw [hs, hτ] at hτ'
      exact Option.some.inj hτ' ▸ htr
    by_cases hut : t = u
    · subst hut
      obtain rfl : τ = υ := Option.some.inj (hτ.symm.trans hυ)
      exact (ha.own τ' hτ').traced htr
    · rw [ha.others t hut, hτ] at hτ'
      exact Option.some.inj hτ' ▸ htr
  cases hτ' : (step s e).task t with
  | none => exact toCome_none hτ'
  | some τ' => exact toCome_traced hτ' (htraced τ' hτ')

theorem toCome_other (hl : LockInv s) (h : StoppedTraced s) {e : Event} (hnext : ¬ e.isNext t)
    (hstart : ¬ e.isStart t) : toCome t (step s e) = toCome t s := by
  by_cases hfork : e.isFork
  · cases e with
    | fork u child cloneSighand =>
      show toCome t (fork u child cloneSighand s) = _
      rcases fork_spec (s := s) u child cloneSighand with hs | ⟨υ, hchild, hrun, htask, -, -, hkeep⟩
      · rw [hs]
      by_cases ht : t = child
      · subst ht
        rw [toCome_none hchild]
        exact toCome_outside (τ := υ) (by rw [htask, Function.update_self]) (by rw [hrun]; rfl)
      cases hτ : s.task t with
      | none =>
        rw [toCome_none hτ, toCome_none (by rw [htask, Function.update_of_ne ht]; exact hτ)]
      | some τ =>
        unfold toCome
        rw [htask, Function.update_of_ne ht, hτ]
        dsimp only
        rw [(hkeep _ (hl t τ hτ).1).2]
    | _ => exact absurd hfork id
  rcases step_acts hl e hfork with hs | ⟨u, υ, hυ, ha⟩
  · rw [hs]
  cases hτ : s.task t with
  | none =>
    have hut : t ≠ u := by
      rintro rfl
      rw [hτ] at hυ
      cases hυ
    rw [toCome_none hτ, toCome_none ((ha.others t hut).trans hτ)]
  | some τ =>
    have hsame : u ≠ t → (step s e).task t = some τ := fun hut =>
      (ha.others t (Ne.symm hut)).trans hτ
    -- in the loop it is left alone, outside it stays there
    cases htr : τ.traced with
    | true => rw [toCome_traced hτ htr, toCome_traced_step hl e hτ htr]
    | false =>
      cases hin : τ.phase.inLoop with
      | false =>
        rw [toCome_outside hτ hin]
        cases hτ' : (step s e).task t with
        | none => exact toCome_none hτ'
        | some τ' =>
          refine toCome_outside hτ' ?_
          by_cases hut : u = t
          · subst hut
            obtain rfl : τ = υ := Option.some.inj (hτ.symm.trans hυ)
            rw [← Bool.not_eq_true]
            intro hc
            rcases (ha.own τ' hτ').inLoop hc with hc | hc
            · rw [hin] at hc
              cases hc
            · exact hstart hc
          · rw [hsame hut] at hτ'
            exact Option.some.inj hτ' ▸ hin
      | true =>
        obtain ⟨pos, b, hrec⟩ : ∃ pos b, τ.phase = .receiving pos b := by
          cases hp : τ.phase with
          | receiving pos b => exact ⟨pos, b, rfl⟩
          | stopped tmp b => rw [h t τ tmp b hτ hp] at htr; cases htr
          | _ => rw [hp] at hin; cases hin
        obtain ⟨-, hτ', hact, -⟩ := ha.apart hl hυ hτ hrec fun hc => hnext (hc.2 ▸ hc.1)
        rw [toCome_receiving hτ htr hrec, toCome_receiving hτ' htr hrec, hact]

theorem drop_eraseIdx {q : List Sigqueue} (h : pos < q.length) :
    (q.eraseIdx pos).drop pos = q.drop (pos + 1) := by
  rw [List.eraseIdx_eq_take_drop_succ, List.drop_append_of_le_length (by rw [List.length_take]; omega),
    List.drop_take_self, List.nil_append]

theorem framePushed_traced {frameOk : Bool} (hτ : s.task t = some τ) (htr : τ.traced = true) :
    framePushed t frameOk s = none := by
  unfold framePushed
  rw [hτ]
  dsimp only
  split
  case h_2 => rfl
  case h_1 =>
    split
    case h_1 => rfl
    case h_2 e he =>
      split
      case isTrue => rfl
      case isFalse =>
        split
        case isTrue => rfl
        case isFalse hkill =>
          rw [htr, Bool.true_and, decide_eq_true_eq, not_not] at hkill
          split
          case isFalse => rfl
          case isTrue hact =>
            have hb := blockable_of_callHandler (of_decide_eq_true (Bool.and_eq_true _ _ ▸ hact).1)
            rw [hkill] at hb
            exact absurd hb (by decide)

theorem receiveNext_outside (frameOk : Bool)
    (hout : ∀ τ, s.task t = some τ → ∀ pos b, τ.phase ≠ .receiving pos b) :
    receiveNext t frameOk s = s ∧ framePushed t frameOk s = none := by
  unfold receiveNext framePushed
  cases hτ : s.task t with
  | none => exact ⟨rfl, rfl⟩
  | some τ =>
    dsimp only
    cases hp : τ.phase with
    | receiving pos b => exact absurd hp (hout τ hτ pos b)
    | _ => exact ⟨rfl, rfl⟩

theorem receiveSignal_keeps (frameOk : Bool) (h : signalAction (s.action τ.sighand) sig = .ignore ∨
      signalAction (s.action τ.sighand) sig = .stop) :
    (receiveSignal t τ sig frameOk s).task t = some τ ∧
      (receiveSignal t τ sig frameOk s).action = s.action := by
  unfold receiveSignal
  rcases h with h | h
  · rw [h]
    exact ⟨Function.update_self .., rfl⟩
  · rw [h]
    exact ⟨Function.update_self .., rfl⟩

theorem receiveSignal_leaves (frameOk : Bool) (h : signalAction (s.action τ.sighand) sig = .kill ∨
      (signalAction (s.action τ.sighand) sig = .callHandler ∧ frameOk = false)) :
    ∃ υ, (receiveSignal t τ sig frameOk s).task t = some υ ∧ υ.phase = .exiting := by
  unfold receiveSignal
  rcases h with h | ⟨h, rfl⟩
  · rw [h]
    exact ⟨_, Function.update_self .., rfl⟩
  · rw [h]
    exact ⟨_, Function.update_self .., rfl⟩

theorem receiveSignal_handles (h : signalAction (s.action τ.sighand) sig = .callHandler) :
    (receiveSignal t τ sig true s).task t =
        some { τ with blocked := handlerMask (s.action τ.sighand sig) sig τ.blocked } ∧
      (receiveSignal t τ sig true s).action τ.sighand = afterHandler (s.action τ.sighand) sig := by
  unfold receiveSignal afterHandler
  rw [h]
  dsimp only
  rw [if_pos rfl]
  split
  · exact ⟨Function.update_self .., Function.update_self ..⟩
  · exact ⟨Function.update_self .., rfl⟩

theorem toCome_take {e : Sigqueue} {frameOk : Bool}
    (hτ : s.task t = some τ) (htr : τ.traced = false) (hp : τ.phase = .receiving pos b)
    (he : τ.queue[pos]? = some e) (hb : sigsetHas b e.sig = false) :
    (framePushed t frameOk s).toList ++ toCome t (receiveNext t frameOk s) = toCome t s ∨
      (frameOk = false ∧ framePushed t frameOk s = none ∧ toCome t (receiveNext t frameOk s) = []) := by
  obtain ⟨hlt, hget⟩ := List.getElem?_eq_some_iff.mp he
  have hdrop : τ.queue.drop pos = e :: τ.queue.drop (pos + 1) := by
    rw [List.drop_eq_getElem_cons hlt, hget]
  have hnext : receiveNext t frameOk s =
      receiveSignal t (τ.take pos e.sig) e.sig frameOk (s.consume [e]) := by
    unfold receiveNext
    rw [hτ]
    dsimp only
    rw [hp]
    dsimp only
    rw [he]
    dsimp only
    rw [if_neg (by simp [hb]), if_neg (by simp [Task.take, htr])]
  have hpush : framePushed t frameOk s =
      if signalAction (s.action τ.sighand) e.sig = .callHandler && frameOk then
        some (e.sig, τ.blocked) else none := by
    unfold framePushed
    rw [hτ]
    dsimp only
    rw [hp]
    dsimp only
    rw [he]
    dsimp only
    rw [if_neg (by simp [hb]), if_neg (by simp [htr])]
  rw [hnext, hpush, toCome_receiving hτ htr hp, hdrop, handled_taken _ _ hb]
  have hqueue : (τ.take pos e.sig).queue.drop pos = τ.queue.drop (pos + 1) := drop_eraseIdx hlt
  cases hact : signalAction (s.action τ.sighand) e.sig with
  | ignore =>
    left
    obtain ⟨htask, hsame⟩ := receiveSignal_keeps (s := s.consume [e]) (t := t)
      (τ := τ.take pos e.sig) frameOk (.inl hact)
    rw [toCome_receiving htask htr hp, hqueue, hsame]
    rfl
  | stop =>
    left
    obtain ⟨htask, hsame⟩ := receiveSignal_keeps (s := s.consume [e]) (t := t)
      (τ := τ.take pos e.sig) frameOk (.inr hact)
    rw [toCome_receiving htask htr hp, hqueue, hsame]
    rfl
  | kill =>
    left
    obtain ⟨υ, htask, hout⟩ := receiveSignal_leaves (s := s.consume [e]) (t := t)
      (τ := τ.take pos e.sig) frameOk (.inl hact)
    rw [toCome_outside htask (by rw [hout]; rfl)]
    rfl
  | callHandler =>
    cases frameOk with
    | false =>
      right
      obtain ⟨υ, htask, hout⟩ := receiveSignal_leaves (s := s.consume [e]) (t := t)
        (τ := τ.take pos e.sig) false (.inr ⟨hact, rfl⟩)
      exact ⟨rfl, rfl, toCome_outside htask (by rw [hout]; rfl)⟩
    | true =>
      left
      obtain ⟨htask, hafter⟩ := receiveSignal_handles (s := s.consume [e]) (t := t)
        (τ := τ.take pos e.sig) hact
      rw [toCome_receiving htask htr hp, hafter, hqueue]
      rfl

theorem toCome_next (hl : LockInv s) (frameOk : Bool) :
    ((framePushed t frameOk s).toList ++ toCome t (receiveNext t frameOk s)) <+: toCome t s ∧
      (frameOk = true →
        (framePushed t frameOk s).toList ++ toCome t (receiveNext t frameOk s) = toCome t s) := by
  suffices hs : (framePushed t frameOk s).toList ++ toCome t (receiveNext t frameOk s) = toCome t s ∨
      (frameOk = false ∧ framePushed t frameOk s = none ∧ toCome t (receiveNext t frameOk s) = []) by
    rcases hs with hs | ⟨hf, hp, hc⟩
    · exact ⟨hs ▸ List.prefix_rfl, fun _ => hs⟩
    · rw [hp, hc]
      exact ⟨List.nil_prefix, fun h => by rw [hf] at h; cases h⟩
  by_cases hloop : ∃ τ pos b, s.task t = some τ ∧ τ.phase = .receiving pos b
  · obtain ⟨τ, pos, b, hτ, hp⟩ := hloop
    cases htr : τ.traced with
    | true =>
      left
      rw [framePushed_traced hτ htr, toCome_traced hτ htr]
      exact toCome_traced_step hl (.receiveNext t frameOk) hτ htr
    | false =>
      cases he : τ.queue[pos]? with
      | none =>
        left
        have hnext : receiveNext t frameOk s =
            (s.setTask t { τ with phase := .running }).setLock τ.sighand none := by
          unfold receiveNext
          simp only [hτ, hp, he]
        have hpush : framePushed t frameOk s = none := by
          unfold framePushed
          simp only [hτ, hp, he]
        rw [hnext, hpush, toCome_receiving hτ htr hp,
          List.drop_of_length_le (List.getElem?_eq_none_iff.mp he)]
        exact toCome_outside (τ := { τ with phase := .running }) (Function.update_self ..) rfl
      | some e =>
        cases hb : sigsetHas b e.sig with
        | true =>
          left
          obtain ⟨hlt, hget⟩ := List.getElem?_eq_some_iff.mp he
          have hnext : receiveNext t frameOk s =
              s.setTask t { τ with phase := .receiving (pos + 1) b } := by
            unfold receiveNext
            simp only [hτ, hp, he, hb, if_true]
          have hpush : framePushed t frameOk s = none := by
            unfold framePushed
            simp only [hτ, hp, he, hb, if_true]
          have hcome := toCome_receiving (s := s.setTask t { τ with phase := .receiving (pos + 1) b })
            (τ := { τ with phase := .receiving (pos + 1) b }) (Function.update_self ..) htr rfl
          rw [hnext, hpush, hcome, toCome_receiving hτ htr hp, List.drop_eq_getElem_cons hlt, hget,
            handled_blocked _ _ hb]
          rfl
        | false => exact toCome_take hτ htr hp he hb
  · left
    obtain ⟨hs, hpush⟩ := receiveNext_outside (s := s) (t := t) frameOk
      fun τ hτ pos b hp => hloop ⟨τ, pos, b, hτ, hp⟩
    rw [hs, hpush]
    rfl

/-! ## Runs of a call -/

theorem framesOf_start (hl : LockInv s) (hst : StoppedTraced s) (ops : List Event)
    (hone : ∀ e ∈ ops, ¬ e.isStart t) : framesOf t s ops <+: toCome t s := by
  induction ops generalizing s with
  | nil => exact List.nil_prefix
  | cons e ops ih =>
    rw [List.forall_mem_cons] at hone
    have hrest := ih (lockInv_step hl e) (stoppedTraced_step hl hst e) hone.2
    by_cases hnext : e.isNext t
    · cases e with
      | receiveNext u frameOk =>
        obtain rfl : u = t := hnext
        rw [framesOf, if_pos rfl]
        exact ((List.prefix_append_right_inj _).mpr hrest).trans (toCome_next hl frameOk).1
      | _ => exact absurd hnext id
    rw [← toCome_other hl hst hnext hone.1]
    cases e with
    | receiveNext u frameOk =>
      rw [framesOf, if_neg (show ¬ u = t from hnext), List.nil_append]
      exact hrest
    | _ => exact hrest

def before (t : TaskId) (s : State) : Nat :=
  match s.task t with
  | some τ =>
    match τ.phase with
    | .receiving pos _ => τ.queue.length - pos
    | _ => 0
  | none => 0

theorem before_receiving (hτ : s.task t = some τ)
    (hp : τ.phase = .receiving pos b) : before t s = τ.queue.length - pos := by
  unfold before
  simp only [hτ, hp]

theorem before_outside (hτ : s.task t = some τ) (hp : ∀ pos b, τ.phase ≠ .receiving pos b) :
    before t s = 0 := by
  unfold before
  rw [hτ]
  dsimp only
  split
  case h_1 hc => exact absurd hc (hp _ _)
  case h_2 => rfl

theorem before_next (frameOk : Bool) : before t (receiveNext t frameOk s) ≤ before t s - 1 := by
  by_cases hloop : ∃ τ pos b, s.task t = some τ ∧ τ.phase = .receiving pos b
  · obtain ⟨τ, pos, b, hτ, hp⟩ := hloop
    rw [before_receiving hτ hp]
    unfold receiveNext
    rw [hτ]
    dsimp only
    rw [hp]
    dsimp only
    split
    case h_1 =>
      rw [before_outside (τ := { τ with phase := .running }) (Function.update_self ..)
        fun pos b hc => by cases hc]
      exact Nat.zero_le _
    case h_2 e he =>
      have hlt := (List.getElem?_eq_some_iff.mp he).1
      split
      case isTrue =>
        rw [before_receiving (τ := { τ with phase := .receiving (pos + 1) b })
          (Function.update_self ..) rfl]
        dsimp only
        omega
      case isFalse =>
        have hlen : (τ.take pos e.sig).queue.length = τ.queue.length - 1 :=
          List.length_eraseIdx_of_lt hlt
        split
        case isTrue =>
          rw [before_outside (τ := { τ.take pos e.sig with
            phase := .stopped (if pos < (τ.take pos e.sig).queue.length then some pos else none) b })
            (Function.update_self ..) fun pos b hc => by cases hc]
          exact Nat.zero_le _
        case isFalse =>
          cases hact : signalAction ((s.consume [e]).action (τ.take pos e.sig).sighand) e.sig with
          | ignore =>
            rw [before_receiving (receiveSignal_keeps frameOk (.inl hact)).1 hp, hlen]
            omega
          | stop =>
            rw [before_receiving (receiveSignal_keeps frameOk (.inr hact)).1 hp, hlen]
            omega
          | kill =>
            obtain ⟨υ, hυ, hout⟩ := receiveSignal_leaves (s := s.consume [e]) (t := t) frameOk
              (.inl hact)
            rw [before_outside hυ fun pos b hc => by rw [hout] at hc; cases hc]
            exact Nat.zero_le _
          | callHandler =>
            cases frameOk with
            | false =>
              obtain ⟨υ, hυ, hout⟩ := receiveSignal_leaves (s := s.consume [e]) (t := t) false
                (.inr ⟨hact, rfl⟩)
              rw [before_outside hυ fun pos b hc => by rw [hout] at hc; cases hc]
              exact Nat.zero_le _
            | true =>
              rw [before_receiving (receiveSignal_handles hact).1 hp]
              dsimp only
              rw [hlen]
              omega
  rw [(receiveNext_outside (s := s) (t := t) frameOk
    fun τ hτ pos b hp => hloop ⟨τ, pos, b, hτ, hp⟩).1]
  cases hτ : s.task t with
  | none =>
    unfold before
    simp [hτ]
  | some τ =>
    rw [before_outside hτ fun pos b hp => hloop ⟨τ, pos, b, hτ, hp⟩]

theorem toCome_of_before (h : before t s = 0) : toCome t s = [] := by
  by_cases hloop : ∃ τ pos b, s.task t = some τ ∧ τ.phase = .receiving pos b
  · obtain ⟨τ, pos, b, hτ, hp⟩ := hloop
    cases htr : τ.traced with
    | true => exact toCome_traced hτ htr
    | false =>
      rw [before_receiving hτ hp] at h
      rw [toCome_receiving hτ htr hp, List.drop_of_length_le (by omega)]
      rfl
  unfold toCome
  split
  case h_2 => rfl
  case h_1 τ hτ =>
    split
    · rfl
    split
    case h_1 hp => exact absurd ⟨τ, _, _, hτ, hp⟩ hloop
    case h_2 => rfl

theorem framesOf_all (hl : LockInv s) (n : Nat) (hn : before t s ≤ n) :
    framesOf t s (List.replicate n (.receiveNext t true)) = toCome t s := by
  induction n generalizing s with
  | zero => exact (toCome_of_before (Nat.le_zero.mp hn)).symm
  | succ n ih =>
    have hlt := before_next (s := s) (t := t) true
    rw [List.replicate_succ, framesOf, if_pos rfl, ih (lockInv_step hl _) (by
      show before t (receiveNext t true s) ≤ n
      omega)]
    exact (toCome_next hl true).2 rfl

end Steps

/-! ## The claim of a call -/

/-- The mask that `receive_signals` restores, and its copy for the loop. -/
def Task.restored (τ : Task) : SigSet := if τ.hasSavedMask then τ.savedMask else τ.blocked

def Task.copied (τ : Task) : SigSet :=
  if τ.hasSavedMask then τ.blocked &&& τ.savedMask else τ.blocked

/-- The signals with a handler to enter are not in the restored mask, and none of them is kept
out by one that comes before it. -/
def Unobstructed (s : State) (τ : Task) : Prop :=
  let l := handled τ.copied (s.action τ.sighand) τ.queue
  (∀ sig ∈ l, sigsetHas τ.restored sig = false) ∧ l.Pairwise (Apart (s.action τ.sighand))

theorem loop_step (s : State) (e : Event) (h : LockInv s ∧ StoppedTraced s) :
    LockInv (step s e) ∧ StoppedTraced (step s e) :=
  ⟨lockInv_step h.1 e, stoppedTraced_step h.1 h.2 e⟩

theorem loop_init : LockInv init ∧ StoppedTraced init := by
  refine ⟨lockInv_init, fun t τ tmp b hτ hstop => ?_⟩
  rw [init_task hτ] at hstop
  cases hstop

theorem receiveSignals_spec {s : State} {t : TaskId} {τ : Task} (hτ : s.task t = some τ)
    (hrun : τ.phase = .running) (hlock : s.lock τ.sighand = none) :
    (receiveSignals t s).task t = some { τ with
        blocked := τ.restored, hasSavedMask := false, phase := .receiving 0 τ.copied } ∧
      (receiveSignals t s).action = s.action := by
  unfold receiveSignals State.call State.locked
  simp only [hτ, hlock, hrun, if_true]
  exact ⟨Function.update_self .., rfl⟩

/-- **No handler while its signal is blocked.** In any state of a run: however a call of `receive_signals`
goes on, no frame is for a signal that is blocked when it is pushed, if and only if the task is traced, or
the signals that get a handler are not in the restored mask and each is apart from those before it. -/
theorem frames_run (ops : List Event) (t : TaskId) :
    let s := run step init ops
    ∀ τ, s.task t = some τ → τ.phase = .running → s.lock τ.sighand = none →
    ((∀ rest, (∀ e ∈ rest, ¬ e.isStart t) →
      ∀ f ∈ framesOf t (step s (.receiveSignals t)) rest, sigsetHas f.2 f.1 = false) ↔
    (τ.traced = true ∨ Unobstructed s τ)) := by
  intro s τ hτ hrun hlock
  have hinv : LockInv s ∧ StoppedTraced s := run_invariant_all loop_step loop_init
  have hl := lockInv_step hinv.1 (.receiveSignals t)
  have hst := stoppedTraced_step hinv.1 hinv.2 (.receiveSignals t)
  obtain ⟨htask, hact⟩ := receiveSignals_spec hτ hrun hlock
  change (step s (.receiveSignals t)).task t = _ at htask
  change (step s (.receiveSignals t)).action = _ at hact
  cases htr : τ.traced with
  | true =>
    have hnone := toCome_traced htask htr
    refine ⟨fun _ => .inl rfl, fun _ rest hone f hf => ?_⟩
    have hmem := (framesOf_start hl hst rest hone).subset hf
    rw [hnone] at hmem
    cases hmem
  | false =>
    have hcome := toCome_receiving htask htr rfl
    rw [hact] at hcome
    have hunb := withMasks_unblocked τ.copied (s.action τ.sighand) τ.restored τ.queue
    constructor
    · intro h
      refine .inr (hunb.mp fun f hf => ?_)
      refine h (List.replicate (before t (step s (.receiveSignals t))) (.receiveNext t true)) ?_ f ?_
      · intro e he
        rw [List.eq_of_mem_replicate he]
        exact id
      · rw [framesOf_all hl _ (Nat.le_refl _), hcome]
        exact hf
    rintro (hc | hc)
    · cases hc
    intro rest hone f hf
    refine hunb.mpr hc f ?_
    have hmem := (framesOf_start hl hst rest hone).subset hf
    rw [hcome] at hmem
    exact hmem

/-- One signal with a handler. -/
theorem frames_usr1 :
    let s := run step init [.sigaction 1 sigusr1 ⟨4096#64, 0#32, 0#64⟩, .deliverSignal 1 sigusr1]
    ∃ τ, s.task 1 = some τ ∧ ((∀ rest, (∀ e ∈ rest, ¬ e.isStart 1) →
      ∀ f ∈ framesOf 1 (step s (.receiveSignals 1)) rest, sigsetHas f.2 f.1 = false) ↔
    (τ.traced = true ∨ Unobstructed s τ)) :=
  ⟨_, rfl, frames_run
    [.sigaction 1 sigusr1 ⟨4096#64, 0#32, 0#64⟩, .deliverSignal 1 sigusr1] 1 _ rfl rfl rfl⟩

/-- Both are pending, and the mask of the first one's action has the second. -/
theorem frames_blocked : ¬ ∀ (ops rest : List Event) (t : TaskId), (∀ e ∈ rest, ¬ e.isStart t) →
      ∀ f ∈ framesOf t (step (run step init ops) (.receiveSignals t)) rest,
        sigsetHas f.2 f.1 = false := by
  intro h
  have hframe := h [.sigaction 1 sigusr1 ⟨4096#64, 0#32, sigMask sigterm⟩,
    .sigaction 1 sigterm ⟨8192#64, 0#32, 0#64⟩, .deliverSignal 1 sigusr1, .deliverSignal 1 sigterm]
    [.receiveNext 1 true, .receiveNext 1 true] 1
    (fun e he => by rw [List.eq_of_mem_replicate (n := 2) he]; exact id)
    (sigterm, handlerMask ⟨4096#64, 0#32, sigMask sigterm⟩ sigusr1 0#64) (by decide)
  exact absurd hframe (by decide)

end IosLinuxkit.Signal
