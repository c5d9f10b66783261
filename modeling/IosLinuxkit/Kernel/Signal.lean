import IosLinuxkit.Lib.Run
import Mathlib.Data.BitVec

/-!
# Signals

`src/kernel/signal.c`, `kernel/native_cancel.c`, and what fork, exec and exit do to a task's
signal state. Everything that touches the queue, the masks or the actions runs under
`sighand->lock`, so one such section is one step. The loop of `receive_signals` is the
exception: an iteration is a step of its own, with the lock held in between, since it lets go
of the lock in the middle when the task is traced.

* `step` — one section of one task. What the host or the guest decides (the outcome of a frame
  write, the words a guest passes) is part of the event.
-/

namespace IosLinuxkit.Signal

abbrev TaskId := Nat
abbrev SighandId := Nat
abbrev Word := BitVec 64
abbrev Dword := BitVec 32

/-! ## Signal sets -/

/-- What `sig_mask` takes without failing its assertion. -/
structure Sig where
  num : Nat
  pos : 1 ≤ num
  lt : num < 64
  deriving DecidableEq

def sighup : Sig := ⟨1, by decide, by decide⟩
def sigint : Sig := ⟨2, by decide, by decide⟩
def sigquit : Sig := ⟨3, by decide, by decide⟩
def sigkill : Sig := ⟨9, by decide, by decide⟩
def sigusr1 : Sig := ⟨10, by decide, by decide⟩
def sigterm : Sig := ⟨15, by decide, by decide⟩
def sigchld : Sig := ⟨17, by decide, by decide⟩
def sigcont : Sig := ⟨18, by decide, by decide⟩
def sigstop : Sig := ⟨19, by decide, by decide⟩
def sigtstp : Sig := ⟨20, by decide, by decide⟩
def sigttin : Sig := ⟨21, by decide, by decide⟩
def sigttou : Sig := ⟨22, by decide, by decide⟩
def sigurg : Sig := ⟨23, by decide, by decide⟩
def sigwinch : Sig := ⟨28, by decide, by decide⟩
def sigio : Sig := ⟨29, by decide, by decide⟩

abbrev SigSet := BitVec 64

def sigMask (sig : Sig) : SigSet := 1#64 <<< (sig.num - 1)

def sigsetHas (set : SigSet) (sig : Sig) : Bool := set &&& sigMask sig != 0#64

def sigsetAdd (set : SigSet) (sig : Sig) : SigSet := set ||| sigMask sig

def sigsetDel (set : SigSet) (sig : Sig) : SigSet := set &&& ~~~sigMask sig

def unblockableMask : SigSet := sigMask sigkill ||| sigMask sigstop

theorem Sig.index_lt (sig : Sig) : sig.num - 1 < 64 := by
  have := sig.lt
  omega

theorem Sig.index_inj {sig sig' : Sig} (h : sig.num - 1 = sig'.num - 1) : sig = sig' := by
  have hp := sig.pos
  have hp' := sig'.pos
  rcases sig with ⟨n, _, _⟩
  rcases sig' with ⟨m, _, _⟩
  have : n = m := by
    simp only at h hp hp'
    omega
  subst this
  rfl

theorem sigsetHas_eq (set : SigSet) (sig : Sig) :
    sigsetHas set sig = set.getLsbD (sig.num - 1) := by
  rw [sigsetHas, sigMask, ← BitVec.twoPow_eq, BitVec.and_twoPow]
  split
  case isTrue h =>
    rw [h, bne_iff_ne]
    intro hz
    have hbit : (BitVec.twoPow 64 (sig.num - 1)).getLsbD (sig.num - 1) = false := by
      rw [hz, BitVec.getLsbD_zero]
    simp [sig.index_lt] at hbit
  case isFalse h => simpa using h

@[simp] theorem sigsetHas_mask (sig sig' : Sig) :
    sigsetHas (sigMask sig) sig' = decide (sig = sig') := by
  rw [sigsetHas_eq, sigMask, ← BitVec.twoPow_eq, BitVec.getLsbD_twoPow]
  by_cases h : sig = sig'
  · simp [h, sig'.index_lt]
  · have hne : sig.num - 1 ≠ sig'.num - 1 := fun hi => h (Sig.index_inj hi)
    simp [h, hne]

@[simp] theorem sigsetHas_zero (sig : Sig) : sigsetHas 0#64 sig = false := by
  simp [sigsetHas_eq]

@[simp] theorem sigsetHas_or (set set' : SigSet) (sig : Sig) :
    sigsetHas (set ||| set') sig = (sigsetHas set sig || sigsetHas set' sig) := by
  simp [sigsetHas_eq]

@[simp] theorem sigsetHas_and (set set' : SigSet) (sig : Sig) :
    sigsetHas (set &&& set') sig = (sigsetHas set sig && sigsetHas set' sig) := by
  simp [sigsetHas_eq]

@[simp] theorem sigsetHas_not (set : SigSet) (sig : Sig) :
    sigsetHas (~~~set) sig = !sigsetHas set sig := by
  simp [sigsetHas_eq, sig.index_lt]

@[simp] theorem sigsetHas_add (set : SigSet) (sig sig' : Sig) :
    sigsetHas (sigsetAdd set sig) sig' = (sigsetHas set sig' || decide (sig = sig')) := by
  rw [sigsetAdd, sigsetHas_or, sigsetHas_mask]

@[simp] theorem sigsetHas_del (set : SigSet) (sig sig' : Sig) :
    sigsetHas (sigsetDel set sig) sig' = (sigsetHas set sig' && !decide (sig = sig')) := by
  rw [sigsetDel, sigsetHas_and, sigsetHas_not, sigsetHas_mask]

/-! ## State -/

/-- `struct sigaction_`, less the restorer. -/
structure Sigaction where
  handler : Word
  flags : Dword
  mask : SigSet
  deriving DecidableEq

def sigDfl : Word := 0#64
def sigIgn : Word := 1#64

/-- `SA_NODEFER_` -/
def Sigaction.nodefer (a : Sigaction) : Bool := a.flags &&& 0x40000000#32 != 0#32

/-- `SA_RESETHAND_` -/
def Sigaction.resethand (a : Sigaction) : Bool := a.flags &&& 0x80000000#32 != 0#32

/-- `struct sigqueue`; `tag` stands for the rest of its `siginfo_`. -/
structure Sigqueue where
  sig : Sig
  tag : Nat
  deriving DecidableEq

/-- Where a task is. -/
inductive Phase where
  | running
  /-- in the loop of `receive_signals`, at the entry `pos`, with its local `blocked` -/
  | receiving (pos : Nat) (blocked : SigSet)
  /-- in `signal_delivery_stop`; `tmp` is the entry the loop goes on with, none is the head -/
  | stopped (tmp : Option Nat) (blocked : SigSet)
  /-- asleep in `sys_rt_sigtimedwait` -/
  | timedwait (set : SigSet)
  /-- past `do_exit_group` -/
  | exiting
  deriving DecidableEq

/-- The signal part of `struct task`. -/
structure Task where
  sighand : SighandId
  blocked : SigSet
  pending : SigSet
  waiting : SigSet
  savedMask : SigSet
  hasSavedMask : Bool
  queue : List Sigqueue
  traced : Bool
  /-- `is_native_proxy`, with a host process -/
  nativeProxy : Bool
  /-- the token, with its `signal` -/
  nativeCancel : Option (Option Sig)
  phase : Phase
  deriving DecidableEq

structure State where
  task : TaskId → Option Task
  action : SighandId → Sig → Sigaction
  lock : SighandId → Option TaskId
  freshSighand : SighandId
  /-- the tag of the next entry -/
  fresh : Nat
  /-- the task an entry was queued for -/
  home : Nat → TaskId
  /-- entries a consumer took -/
  consumed : List Nat
  /-- entries that exit freed -/
  discarded : List Nat

def State.setTask (s : State) (t : TaskId) (τ : Task) : State :=
  { s with task := Function.update s.task t (some τ) }

def State.consume (s : State) (l : List Sigqueue) : State :=
  { s with consumed := s.consumed ++ l.map Sigqueue.tag }

def State.setLock (s : State) (h : SighandId) (o : Option TaskId) : State :=
  { s with lock := Function.update s.lock h o }

/-- A section under `task->sighand->lock`. One that would have to wait is not taken. -/
def State.locked (s : State) (t : TaskId) (f : Task → State) : State :=
  match s.task t with
  | some τ => if s.lock τ.sighand = none then f τ else s
  | none => s

/-- Such a section of a system call of the task itself. -/
def State.call (s : State) (t : TaskId) (f : Task → State) : State :=
  s.locked t fun τ => if τ.phase = .running then f τ else s

/-! ## Actions -/

def signalIsBlockable (sig : Sig) : Bool := sig != sigkill && sig != sigstop

inductive ActionType where
  | ignore
  | kill
  | callHandler
  | stop
  deriving DecidableEq

def signalAction (action : Sig → Sigaction) (sig : Sig) : ActionType :=
  if signalIsBlockable sig && (action sig).handler = sigIgn then .ignore
  else if signalIsBlockable sig && (action sig).handler ≠ sigDfl then .callHandler
  else if sig ∈ [sigurg, sigcont, sigchld, sigio, sigwinch] then .ignore
  else if sig ∈ [sigstop, sigtstp, sigttin, sigttou] then .stop
  else .kill

/-! ## Native cancellation -/

def cancellable (action : Sig → Sigaction) (τ : Task) (sig : Sig) : Bool :=
  if sig = sigkill then true
  else if sig ∉ [sigint, sigterm, sighup, sigquit] then false
  else !sigsetHas τ.blocked sig && (action sig).handler != sigIgn

def request (old : Option Sig) (sig : Sig) : Option Sig :=
  if old = none ∨ sig = sigkill then some sig else old

/-- The task with the request in its token, if the token takes it. -/
def nativeCancelRequestLocked (action : Sig → Sigaction) (τ : Task) (sig : Sig) : Option Task :=
  match τ.nativeCancel with
  | some old =>
    if cancellable action τ sig then some { τ with nativeCancel := some (request old sig) }
    else none
  | none => none

def nativeCancelRequest (t : TaskId) (sig : Sig) (s : State) : State :=
  s.locked t fun τ =>
    match nativeCancelRequestLocked (s.action τ.sighand) τ sig with
    | some τ' => s.setTask t τ'
    | none => s

def allSigs : List Sig := List.ofFn fun i : Fin 63 => ⟨i.val + 1, by omega, by omega⟩

def nativeCancelBegin (t : TaskId) (s : State) : State :=
  s.call t fun τ =>
    if τ.nativeCancel = none then
      let eligible := allSigs.filter fun sig =>
        sigsetHas τ.pending sig && cancellable (s.action τ.sighand) τ sig
      s.setTask t { τ with nativeCancel := some (eligible.foldl request none) }
    else s

def nativeCancelFinish (t : TaskId) (s : State) : State :=
  s.call t fun τ => s.setTask t { τ with nativeCancel := none }

/-! ## Sending -/

def sigrtmin : Nat := 32

/-- What it does to the target; the wakeup is the subject of `Kernel.WaitFor`. -/
def deliverSignalUnlocked (t : TaskId) (τ : Task) (sig : Sig) (s : State) : State :=
  match nativeCancelRequestLocked (s.action τ.sighand) τ sig with
  | some τ' => s.setTask t τ'
  | none =>
    if sig.num < sigrtmin && sigsetHas τ.pending sig then s
    else
      { s.setTask t { τ with
          pending := sigsetAdd τ.pending sig
          queue := τ.queue ++ [⟨sig, s.fresh⟩] } with
        fresh := s.fresh + 1
        home := Function.update s.home s.fresh t }

def deliverSignal (t : TaskId) (sig : Sig) (s : State) : State :=
  s.locked t fun τ => deliverSignalUnlocked t τ sig s

/-- `send_signal` up to its first `unlock`. -/
def sendRequest (t : TaskId) (sig : Sig) (s : State) : State :=
  match s.task t with
  | some τ => if τ.phase = .exiting then s else nativeCancelRequest t sig s
  | none => s

/-- The rest of it. The target may have begun to exit in between. -/
def sendDeliver (t : TaskId) (sig : Sig) (s : State) : State :=
  s.locked t fun τ =>
    if τ.nativeProxy then s
    else if signalAction (s.action τ.sighand) sig = .ignore then s
    else deliverSignalUnlocked t τ sig s

def trySelfSignal (t : TaskId) (sig : Sig) (s : State) : State :=
  s.call t fun τ =>
    if signalAction (s.action τ.sighand) sig ≠ .ignore && !sigsetHas τ.blocked sig then
      deliverSignalUnlocked t τ sig s
    else s

/-! ## Receiving -/

/-- `do_exit_group` from inside `receive_signals`. -/
def leave (t : TaskId) (τ : Task) (s : State) : State :=
  (s.setTask t { τ with phase := .exiting }).setLock τ.sighand none

def handlerMask (action : Sigaction) (sig : Sig) (blocked : SigSet) : SigSet :=
  (if action.nodefer then blocked else sigsetAdd blocked sig) ||| action.mask

/-- `frameOk` is what the write of the frame to the guest's stack comes to. -/
def receiveSignal (t : TaskId) (τ : Task) (sig : Sig) (frameOk : Bool) (s : State) : State :=
  match signalAction (s.action τ.sighand) sig with
  | .ignore => s.setTask t τ
  -- stops the group, which is no part of the state here
  | .stop => s.setTask t τ
  | .kill => leave t τ s
  | .callHandler =>
    let action := s.action τ.sighand sig
    let τ := { τ with blocked := handlerMask action sig τ.blocked }
    if frameOk then
      let s := s.setTask t τ
      if action.resethand then
        { s with
          action := Function.update s.action τ.sighand
            (Function.update (s.action τ.sighand) sig ⟨sigDfl, 0#32, 0#64⟩) }
      else s
    else leave t τ s

/-- `receive_signals` up to its loop. -/
def receiveSignals (t : TaskId) (s : State) : State :=
  s.call t fun τ =>
    let blocked := if τ.hasSavedMask then τ.blocked &&& τ.savedMask else τ.blocked
    let own := if τ.hasSavedMask then τ.savedMask else τ.blocked
    (s.setTask t { τ with
      blocked := own, hasSavedMask := false, phase := .receiving 0 blocked }).setLock
        τ.sighand (some t)

/-- The task without its entry `pos`, as `list_remove` and `sigset_del` leave it. -/
def Task.take (τ : Task) (pos : Nat) (sig : Sig) : Task :=
  { τ with queue := τ.queue.eraseIdx pos, pending := sigsetDel τ.pending sig }

def receiveNext (t : TaskId) (frameOk : Bool) (s : State) : State :=
  match s.task t with
  | some τ =>
    match τ.phase with
    | .receiving pos blocked =>
      match τ.queue[pos]? with
      | none => (s.setTask t { τ with phase := .running }).setLock τ.sighand none
      | some e =>
        if sigsetHas blocked e.sig then
          s.setTask t { τ with phase := .receiving (pos + 1) blocked }
        else
          let s := s.consume [e]
          let τ := τ.take pos e.sig
          if τ.traced && e.sig ≠ sigkill then
            -- the next entry was looked up before this one was taken out
            let tmp := if pos < τ.queue.length then some pos else none
            (s.setTask t { τ with phase := .stopped tmp blocked }).setLock τ.sighand none
          else receiveSignal t τ e.sig frameOk s
    | _ => s
  | none => s

def ptraceCont (t : TaskId) (s : State) : State :=
  s.locked t fun τ =>
    match τ.phase with
    | .stopped (some pos) blocked =>
      (s.setTask t { τ with phase := .receiving pos blocked }).setLock τ.sighand (some t)
    | .stopped none _ => s.setTask t { τ with phase := .running }
    | _ => s

/-- `got_sigkill` in `signal_delivery_stop` -/
def ptraceKilled (t : TaskId) (s : State) : State :=
  s.locked t fun τ =>
    match τ.phase with
    | .stopped _ _ =>
      if sigsetHas τ.pending sigkill then s.setTask t { τ with phase := .exiting } else s
    | _ => s

/-! ## `signalfd` and `sigtimedwait` -/

def signalfdDequeueLocked (mask : SigSet) (τ : Task) : Option (Sigqueue × Task) :=
  match τ.queue.find? (fun e => sigsetHas mask e.sig) with
  | some e =>
    some (e, { τ with
      queue := τ.queue.eraseP (fun e => sigsetHas mask e.sig)
      pending := sigsetDel τ.pending e.sig })
  | none => none

/-- The loop of `signalfd_read`, with room for `n` more records. -/
def signalfdReadLoop (mask : SigSet) : Nat → Task → List Sigqueue × Task
  | 0, τ => ([], τ)
  | n + 1, τ =>
    match signalfdDequeueLocked mask τ with
    | some (e, τ') => (e :: (signalfdReadLoop mask n τ').1, (signalfdReadLoop mask n τ').2)
    | none => ([], τ)

/-- With nothing to take it sleeps or returns `EAGAIN`, which changes nothing. -/
def signalfdRead (t : TaskId) (mask : SigSet) (bufsize : Nat) (s : State) : State :=
  s.call t fun τ =>
    if bufsize < 128 then s
    else
      let r := signalfdReadLoop mask (bufsize / 128) τ
      (s.consume r.1).setTask t r.2

/-- `sys_rt_sigtimedwait` up to its first sleep. -/
def sigtimedwait (t : TaskId) (set : SigSet) (s : State) : State :=
  s.call t fun τ => s.setTask t { τ with waiting := set, phase := .timedwait set }

/-- How the wait of `sys_rt_sigtimedwait` ended. -/
inductive WaitErr where
  | none
  | eintr
  | etimedout
  deriving DecidableEq

def WaitErr.possible (err : WaitErr) (τ : Task) (set : SigSet) : Bool :=
  match err with
  | .none => τ.pending &&& set != 0#64
  | .eintr => τ.pending &&& ~~~τ.blocked != 0#64
  | .etimedout => true

def sigtimedwaitEnd (t : TaskId) (err : WaitErr) (s : State) : State :=
  s.locked t fun τ =>
    match τ.phase with
    | .timedwait set =>
      if err.possible τ set then
        let τ := { τ with waiting := 0#64, phase := .running }
        if err = .etimedout then s.setTask t τ
        else
          match τ.queue.find? (fun e => sigsetHas set e.sig) with
          | some e =>
            (s.consume [e]).setTask t
              { τ with queue := τ.queue.eraseP (fun e => sigsetHas set e.sig) }
          | none => s.setTask t τ
      else s
    | _ => s

/-! ## Masks and actions -/

def sigmaskSet (set : SigSet) : SigSet := set &&& ~~~unblockableMask

inductive How where
  | block
  | unblock
  | setmask
  deriving DecidableEq

def doSigprocmask (how : How) (set blocked : SigSet) : SigSet :=
  match how with
  | .block => sigmaskSet (blocked ||| set)
  | .unblock => sigmaskSet (blocked &&& ~~~set)
  | .setmask => sigmaskSet set

def sigprocmask (t : TaskId) (how : How) (set : SigSet) (s : State) : State :=
  s.call t fun τ => s.setTask t { τ with blocked := doSigprocmask how set τ.blocked }

/-- `sigsuspend`, `ppoll`, `pselect` and `epoll_pwait` -/
def sigmaskSetTemp (t : TaskId) (mask : SigSet) (s : State) : State :=
  s.call t fun τ =>
    s.setTask t { τ with
      savedMask := τ.blocked, hasSavedMask := true, blocked := sigmaskSet mask }

/-- `mask` is the word of the frame; `sys_sigreturn` has none. -/
def sigreturn (t : TaskId) (mask : Option SigSet) (s : State) : State :=
  s.call t fun τ => s.setTask t { τ with blocked := sigmaskSet (mask.getD τ.blocked) }

def doSigaction (t : TaskId) (sig : Sig) (action : Sigaction) (s : State) : State :=
  s.call t fun τ =>
    if signalIsBlockable sig then
      { s with
        action := Function.update s.action τ.sighand
          (Function.update (s.action τ.sighand) sig action) }
    else s

/-! ## Fork, exec and exit -/

/-- The child's `struct task` out of `task_create_` and `copy_task`. -/
def forkTask (τ : Task) (sighand : SighandId) : Task :=
  { τ with
    sighand, pending := 0#64, queue := [], nativeProxy := false, nativeCancel := none }

def fork (t child : TaskId) (cloneSighand : Bool) (s : State) : State :=
  match s.task t, s.task child with
  | some τ, none =>
    if τ.phase = .running then
      if cloneSighand then s.setTask child (forkTask τ τ.sighand)
      else
        { s.setTask child (forkTask τ s.freshSighand) with
          action := Function.update s.action s.freshSighand (s.action τ.sighand)
          lock := Function.update s.lock s.freshSighand none
          freshSighand := s.freshSighand + 1 }
    else s
  | _, _ => s

def execAction (a : Sigaction) : Sigaction :=
  if a.handler = sigIgn then a else { a with handler := sigDfl }

def exec (t : TaskId) (s : State) : State :=
  s.call t fun τ =>
    { s with
      action := Function.update s.action τ.sighand
        (fun sig => execAction (s.action τ.sighand sig)) }

def setTraced (t : TaskId) (s : State) : State :=
  s.call t fun τ => s.setTask t { τ with traced := true }

def setNativeProxy (t : TaskId) (on : Bool) (s : State) : State :=
  s.call t fun τ => s.setTask t { τ with nativeProxy := on }

/-- `do_exit` up to the point where it frees the queue -/
def exitBegin (t : TaskId) (s : State) : State :=
  match s.task t with
  | some τ => if τ.phase = .running then s.setTask t { τ with phase := .exiting } else s
  | none => s

def exitEnd (t : TaskId) (s : State) : State :=
  match s.task t with
  | some τ =>
    if τ.phase = .exiting then
      { s with
        task := Function.update s.task t none
        discarded := s.discarded ++ τ.queue.map Sigqueue.tag }
    else s
  | none => s

/-! ## Runs -/

inductive Event where
  | sendRequest (t : TaskId) (sig : Sig)
  | sendDeliver (t : TaskId) (sig : Sig)
  | deliverSignal (t : TaskId) (sig : Sig)
  | trySelfSignal (t : TaskId) (sig : Sig)
  | receiveSignals (t : TaskId)
  | receiveNext (t : TaskId) (frameOk : Bool)
  | ptraceCont (t : TaskId)
  | ptraceKilled (t : TaskId)
  | signalfdRead (t : TaskId) (mask : SigSet) (bufsize : Nat)
  | sigtimedwait (t : TaskId) (set : SigSet)
  | sigtimedwaitEnd (t : TaskId) (err : WaitErr)
  | sigprocmask (t : TaskId) (how : How) (set : SigSet)
  | sigmaskSetTemp (t : TaskId) (mask : SigSet)
  | sigreturn (t : TaskId) (mask : Option SigSet)
  | sigaction (t : TaskId) (sig : Sig) (action : Sigaction)
  | nativeCancelBegin (t : TaskId)
  | nativeCancelFinish (t : TaskId)
  | setNativeProxy (t : TaskId) (on : Bool)
  | setTraced (t : TaskId)
  | fork (t child : TaskId) (cloneSighand : Bool)
  | exec (t : TaskId)
  | exitBegin (t : TaskId)
  | exitEnd (t : TaskId)

def step (s : State) : Event → State
  | .sendRequest t sig => sendRequest t sig s
  | .sendDeliver t sig => sendDeliver t sig s
  | .deliverSignal t sig => deliverSignal t sig s
  | .trySelfSignal t sig => trySelfSignal t sig s
  | .receiveSignals t => receiveSignals t s
  | .receiveNext t frameOk => receiveNext t frameOk s
  | .ptraceCont t => ptraceCont t s
  | .ptraceKilled t => ptraceKilled t s
  | .signalfdRead t mask bufsize => signalfdRead t mask bufsize s
  | .sigtimedwait t set => sigtimedwait t set s
  | .sigtimedwaitEnd t err => sigtimedwaitEnd t err s
  | .sigprocmask t how set => sigprocmask t how set s
  | .sigmaskSetTemp t mask => sigmaskSetTemp t mask s
  | .sigreturn t mask => sigreturn t mask s
  | .sigaction t sig action => doSigaction t sig action s
  | .nativeCancelBegin t => nativeCancelBegin t s
  | .nativeCancelFinish t => nativeCancelFinish t s
  | .setNativeProxy t on => setNativeProxy t on s
  | .setTraced t => setTraced t s
  | .fork t child cloneSighand => fork t child cloneSighand s
  | .exec t => exec t s
  | .exitBegin t => exitBegin t s
  | .exitEnd t => exitEnd t s

def initTask : Task :=
  { sighand := 0, blocked := 0#64, pending := 0#64, waiting := 0#64, savedMask := 0#64,
    hasSavedMask := false, queue := [], traced := false, nativeProxy := false,
    nativeCancel := none, phase := .running }

def init : State :=
  { task := Function.update (fun _ => none) 1 (some initTask)
    action := fun _ _ => ⟨sigDfl, 0#32, 0#64⟩
    lock := fun _ => none
    freshSighand := 1
    fresh := 0
    home := fun _ => 0
    consumed := []
    discarded := [] }

end IosLinuxkit.Signal
