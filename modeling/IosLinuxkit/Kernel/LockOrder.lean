import IosLinuxkit.Lib.LockOrder
import Mathlib.Data.Nat.Basic

/-!
# The order of the kernel's locks

What exit, signal delivery and timers do to `pids_lock`, `group->lock`, `fd->lock`,
`timer->lock` and `sighand->lock`, in this order (`kernel/exit.c`, `kernel/signal.c`,
`kernel/time.c`, `util/timer.c`). Each function is its sequence of `lock` and `unlock`; what it
finds on its way (the threads of a group, the action of a signal, what a timer is for) is a
parameter. Locks of other kinds are left out.

An acquisition is marked late where the code takes a lock that should have come before one it has.

* **`lockOrder_run`** — a run in which each of these finds its lock free has no deadlock.
-/

namespace IosLinuxkit.LockOrder

open Locks

inductive Lock where
  | pids
  | group (g : Nat)
  | fd (f : Nat)
  | timer (n : Nat)
  | sighand (h : Nat)
  deriving DecidableEq

def Lock.rank : Lock → Nat
  | .pids => 0
  | .group _ => 1
  | .fd _ => 2
  | .timer _ => 3
  | .sighand _ => 4

abbrev Code := List (Instr Lock)

/-- `lock(l)`, `body`, `unlock(l)` -/
def underLock (l : Lock) (late : Bool) (body : Code) : Code :=
  .acquire l late :: body ++ [.release l]

def repeated (n : Nat) (body : Code) : Code := (List.replicate n body).flatMap id

/-! ## Sending -/

/-- What `send_signal` finds. -/
structure Send where
  sighand : Nat
  group : Nat
  /-- the native token took it, or it went to a host process -/
  accepted : Bool
  ignored : Bool
  /-- the target is another task and the signal is not blocked -/
  wakes : Bool
  /-- `SIGCONT` or `SIGKILL` -/
  resumes : Bool
  deriving DecidableEq

def deliverSignalUnlocked (h : Nat) (late wakes : Bool) : Code :=
  if wakes then [.release (.sighand h), .acquire (.sighand h) late] else []

def deliverSignal (h : Nat) (wakes : Bool) : Code :=
  underLock (.sighand h) false (deliverSignalUnlocked h false wakes)

/-- `late` and `lateGroup` say which of its locks should have come before one of the caller's. -/
def sendSignal (late lateGroup : Bool) (p : Send) : Code :=
  -- native_cancel_request
  underLock (.sighand p.sighand) late [] ++ if p.accepted then []
  else
    underLock (.sighand p.sighand) late
      (if p.ignored then [] else deliverSignalUnlocked p.sighand late p.wakes) ++
    if p.resumes then underLock (.group p.group) lateGroup [] else []

/-! ## Exit -/

def timerFree (n : Nat) : Code := underLock (.timer n) false []

structure Exit where
  group : Nat
  /-- the timers whose descriptors it closes -/
  timers : List Nat
  itimer : Option Nat
  /-- the signal to the parent -/
  parent : Option Send

def doExit (x : Exit) : Code :=
  underLock .pids false [] ++ x.timers.flatMap timerFree ++ underLock (.group x.group) false [] ++
  underLock .pids false
    (x.itimer.toList.flatMap timerFree ++ x.parent.toList.flatMap (sendSignal false false))

structure ExitGroup where
  exit : Exit
  /-- the threads of the group: their sighand, and whether they need a wakeup -/
  threads : List (Nat × Bool)
  /-- how often the first thread looks for the others -/
  polls : Option Nat
  /-- the timers that go with the threads it gives up on -/
  leaked : List Nat

def doExitGroup (x : ExitGroup) : Code :=
  let both (body : Code) : Code :=
    underLock .pids false (underLock (.group x.exit.group) false body)
  both (x.threads.flatMap fun p => deliverSignal p.1 p.2) ++ (match x.polls with
    | some n => repeated n (both []) ++ both (x.leaked.flatMap timerFree) ++ both []
    | none => []) ++ doExit x.exit

/-! ## Receiving -/

inductive Delivery where
  | ignore
  | stop
  /-- the frame write looks up the stack limit `reads` times -/
  | handler (reads : Nat)
  /-- the signal to the parent, and how often the task wakes up before it may go on -/
  | traced (parent : Send) (wakes : Nat)

inductive Finish where
  /-- the parent is told if the group has stopped -/
  | returns (checks : Bool) (parent : Option Send)
  /-- `dump` is for the signals that print the registers -/
  | killed (dump : Bool) (exit : ExitGroup)
  /-- the frame could not be written -/
  | frameFault (reads : Nat) (exit : ExitGroup)
  | tracedKilled (parent : Send) (wakes : Nat) (exit : ExitGroup)

structure Receive where
  sighand : Nat
  group : Nat
  deliveries : List Delivery
  finish : Finish

/-- `rlimit(RLIMIT_STACK_)` under the sighand lock -/
def stackLimit (g reads : Nat) : Code := repeated reads (underLock (.group g) true [])

/-- An iteration of `receive_signals`, with the sighand lock. -/
def Delivery.code (h g : Nat) : Delivery → Code
  | .ignore => []
  | .stop => underLock (.group g) true []
  | .handler reads => stackLimit g reads
  | .traced parent wakes =>
    sendSignal true true parent ++
    (.release (.sighand h) :: repeated wakes (underLock (.sighand h) false []) ++
      [.acquire (.sighand h) false])

def Finish.locked (g : Nat) : Finish → Code
  | .returns _ _ => []
  | .killed _ _ => []
  | .frameFault reads _ => stackLimit g reads
  | .tracedKilled parent _ _ => sendSignal true true parent

def Finish.unlocked (h g : Nat) : Finish → Code
  | .returns checks parent =>
    if checks then
      underLock (.group g) false [] ++
      parent.toList.flatMap fun p => underLock .pids false (sendSignal false false p)
    else []
  | .killed dump exit =>
    (if dump then underLock .pids false [] else []) ++ doExitGroup exit
  | .frameFault _ exit => doExitGroup exit
  | .tracedKilled _ wakes exit =>
    repeated wakes (underLock (.sighand h) false []) ++ doExitGroup exit

def receiveSignals (r : Receive) : Code :=
  underLock (.group r.group) false [] ++ underLock (.sighand r.sighand) false
    (r.deliveries.flatMap (Delivery.code r.sighand r.group) ++ r.finish.locked r.group) ++
  r.finish.unlocked r.sighand r.group

/-! ## Timers -/

def timerSet (n : Nat) : Code := underLock (.timer n) false []

def timerSettime (g n : Nat) : Code := underLock (.group g) false (timerSet n)

def setitimer (g n : Nat) : Code := underLock (.group g) false (timerSet n)

def timerfdSettime (f n : Nat) : Code := underLock (.fd f) false (timerSet n)

inductive Callback where
  /-- the timer is not active any more -/
  | none
  | posixTimer (target : Option Send)
  | itimer (target : Send)
  | timerfd (f : Nat)

def Callback.code : Callback → Code
  | .none => []
  | .posixTimer target =>
    underLock .pids true (target.toList.flatMap (sendSignal false true))
  -- SIGALRM
  | .itimer target => sendSignal false true { target with resumes := false }
  | .timerfd f => underLock (.fd f) true []

structure Round where
  sleeps : Nat
  callback : Callback

def timerThread (n : Nat) (rounds : List Round) : Code :=
  underLock (.timer n) false (rounds.flatMap fun r =>
    repeated r.sleeps [.release (.timer n), .acquire (.timer n) false] ++ r.callback.code)

/-! ## Runs -/

inductive Op where
  | exitGroup (x : ExitGroup)
  | receiveSignals (r : Receive)
  /-- `kill` and its kind, under `pids_lock` -/
  | sendSignals (ps : List Send)
  /-- to the task itself -/
  | sendSelf (p : Send)
  | timerSettime (g n : Nat)
  | setitimer (g n : Nat)
  | timerfdSettime (f n : Nat)
  | timerThread (n : Nat) (rounds : List Round)

def Op.code : Op → Code
  | .exitGroup x => doExitGroup x
  | .receiveSignals r => LockOrder.receiveSignals r
  | .sendSignals ps => underLock .pids false (ps.flatMap (sendSignal false false))
  | .sendSelf p => sendSignal false false p
  | .timerSettime g n => LockOrder.timerSettime g n
  | .setitimer g n => LockOrder.setitimer g n
  | .timerfdSettime f n => LockOrder.timerfdSettime f n
  | .timerThread n rounds => LockOrder.timerThread n rounds

inductive Event where
  | start (t : ThreadId) (op : Op)
  | next (t : ThreadId)

def step (s : State Lock) : Event → State Lock
  | .start t op => start t op.code s
  | .next t => next t s

def LateOk (s : State Lock) : Event → Prop
  | .start _ _ => True
  | .next t => LateFree t s

/-! ## The code is in order but for these -/

variable {held : List Lock} {late : Bool}

theorem keeps_underLock {l : Lock} {body : Code}
    (hl : late = true ∨ ∀ h ∈ held, h.rank < l.rank) (h : Keeps Lock.rank (l :: held) body) :
    Keeps Lock.rank held (underLock l late body) :=
  keeps_section hl h

theorem keeps_repeated {n : Nat} {body : Code} (h : Keeps Lock.rank held body) :
    Keeps Lock.rank held (repeated n body) := by
  induction n with
  | zero => exact keeps_nil
  | succ n ih => exact h.append ih

theorem keeps_deliverSignalUnlocked {h : Nat} {wakes : Bool}
    (hl : late = true ∨ ∀ k ∈ held, k.rank < (Lock.sighand h).rank) :
    Keeps Lock.rank (.sighand h :: held) (deliverSignalUnlocked h late wakes) :=
  keeps_ite (keeps_relock hl keeps_nil) keeps_nil

theorem keeps_sendSignal {lateGroup : Bool} {p : Send} (hl : late = true ∨ ∀ k ∈ held, k.rank < 4)
    (hg : lateGroup = true ∨ ∀ k ∈ held, k.rank < 1) :
    Keeps Lock.rank held (sendSignal late lateGroup p) := by
  refine (keeps_underLock hl keeps_nil).append (keeps_ite keeps_nil ?_)
  refine (keeps_underLock hl (keeps_ite keeps_nil ?_)).append (keeps_ite ?_ keeps_nil)
  · exact keeps_deliverSignalUnlocked hl
  · exact keeps_underLock hg keeps_nil

theorem keeps_timerFree {n : Nat} (hl : ∀ k ∈ held, k.rank < 3) :
    Keeps Lock.rank held (timerFree n) :=
  keeps_underLock (Or.inr hl) keeps_nil

theorem keeps_doExit (x : Exit) : Keeps Lock.rank [] (doExit x) := by
  have hempty : ∀ {n : Nat}, ∀ k ∈ ([] : List Lock), k.rank < n := by simp
  have hpids : ∀ {n : Nat}, 0 < n → ∀ k ∈ [Lock.pids], k.rank < n := by simp [Lock.rank]
  refine Keeps.append (Keeps.append (Keeps.append ?_ ?_) ?_) ?_
  · exact keeps_underLock (Or.inr hempty) keeps_nil
  · exact keeps_flatMap fun n => keeps_timerFree hempty
  · exact keeps_underLock (Or.inr hempty) keeps_nil
  refine keeps_underLock (Or.inr hempty) (Keeps.append ?_ ?_)
  · exact keeps_flatMap fun n => keeps_timerFree (hpids (by decide))
  · exact keeps_flatMap fun p =>
      keeps_sendSignal (Or.inr (hpids (by decide))) (Or.inr (hpids (by decide)))

theorem keeps_doExitGroup (x : ExitGroup) : Keeps Lock.rank [] (doExitGroup x) := by
  have hboth : ∀ body, Keeps Lock.rank [.group x.exit.group, .pids] body → Keeps Lock.rank []
        (underLock .pids false (underLock (.group x.exit.group) false body)) := by
    intro body hbody
    refine keeps_underLock (Or.inr (by simp)) (keeps_underLock (Or.inr ?_) hbody)
    simp [Lock.rank]
  refine Keeps.append (Keeps.append ?_ ?_) (keeps_doExit x.exit)
  · refine hboth _ (keeps_flatMap fun p => ?_)
    have hord : ∀ k ∈ [Lock.group x.exit.group, .pids], k.rank < (Lock.sighand p.1).rank := by
      simp [Lock.rank]
    exact keeps_underLock (Or.inr hord) (keeps_deliverSignalUnlocked (Or.inr hord))
  cases x.polls with
  | none => exact keeps_nil
  | some n =>
    refine Keeps.append (Keeps.append (keeps_repeated (hboth _ keeps_nil)) ?_)
      (hboth _ keeps_nil)
    exact hboth _ (keeps_flatMap fun n => keeps_timerFree (by simp [Lock.rank]))

theorem keeps_stackLimit {g reads : Nat} : Keeps Lock.rank held (stackLimit g reads) :=
  keeps_repeated (keeps_underLock (Or.inl rfl) keeps_nil)

theorem keeps_delivery {h g : Nat} (d : Delivery) :
    Keeps Lock.rank [.sighand h] (d.code h g) := by
  cases d with
  | ignore => exact keeps_nil
  | stop => exact keeps_underLock (Or.inl rfl) keeps_nil
  | handler reads => exact keeps_stackLimit
  | traced parent wakes =>
    refine (keeps_sendSignal (Or.inl rfl) (Or.inl rfl)).append (keeps_relock ?_ ?_)
    · exact Or.inr (by simp)
    · exact keeps_repeated (keeps_underLock (Or.inr (by simp)) keeps_nil)

theorem keeps_finish_locked {g : Nat} (f : Finish) : Keeps Lock.rank held (f.locked g) := by
  cases f with
  | returns checks parent => exact keeps_nil
  | killed dump exit => exact keeps_nil
  | frameFault reads exit => exact keeps_stackLimit
  | tracedKilled parent wakes exit => exact keeps_sendSignal (Or.inl rfl) (Or.inl rfl)

theorem keeps_finish_unlocked {h g : Nat} (f : Finish) :
    Keeps Lock.rank [] (f.unlocked h g) := by
  have hnil : ∀ l, Keeps Lock.rank [] (underLock l false []) :=
    fun l => keeps_underLock (Or.inr (by simp)) keeps_nil
  cases f with
  | returns checks parent =>
    refine keeps_ite ((hnil _).append (keeps_flatMap fun p => ?_)) keeps_nil
    refine keeps_underLock (Or.inr (by simp)) (keeps_sendSignal (Or.inr ?_) (Or.inr ?_))
    · simp [Lock.rank]
    · simp [Lock.rank]
  | killed dump exit => exact (keeps_ite (hnil _) keeps_nil).append (keeps_doExitGroup exit)
  | frameFault reads exit => exact keeps_doExitGroup exit
  | tracedKilled parent wakes exit =>
    exact (keeps_repeated (hnil _)).append (keeps_doExitGroup exit)

theorem keeps_receiveSignals (r : Receive) : Keeps Lock.rank [] (receiveSignals r) := by
  refine Keeps.append (Keeps.append ?_ ?_) (keeps_finish_unlocked r.finish)
  · exact keeps_underLock (Or.inr (by simp)) keeps_nil
  · refine keeps_underLock (Or.inr (by simp)) (Keeps.append ?_ (keeps_finish_locked r.finish))
    exact keeps_flatMap fun d => keeps_delivery d

theorem keeps_callback {n : Nat} (c : Callback) : Keeps Lock.rank [.timer n] c.code := by
  cases c with
  | none => exact keeps_nil
  | posixTimer target =>
    refine keeps_underLock (Or.inl rfl) (keeps_flatMap fun p => ?_)
    exact keeps_sendSignal (Or.inr (by simp [Lock.rank])) (Or.inl rfl)
  | itimer target => exact keeps_sendSignal (Or.inr (by simp [Lock.rank])) (Or.inl rfl)
  | timerfd f => exact keeps_underLock (Or.inl rfl) keeps_nil

theorem ordered_code (op : Op) : Ordered Lock.rank [] op.code := by
  apply ordered_of_keeps
  have hset : ∀ l n, l.rank < 3 → Keeps Lock.rank [] (underLock l false (timerSet n)) := by
    intro l n hl
    refine keeps_underLock (Or.inr (by simp)) (keeps_underLock (Or.inr ?_) keeps_nil)
    simpa [Lock.rank] using hl
  cases op with
  | exitGroup x => exact keeps_doExitGroup x
  | receiveSignals r => exact keeps_receiveSignals r
  | sendSignals ps =>
    refine keeps_underLock (Or.inr (by simp)) (keeps_flatMap fun p => ?_)
    exact keeps_sendSignal (Or.inr (by simp [Lock.rank])) (Or.inr (by simp [Lock.rank]))
  | sendSelf p => exact keeps_sendSignal (Or.inr (by simp)) (Or.inr (by simp))
  | timerSettime g n => exact hset (.group g) n (by simp [Lock.rank])
  | setitimer g n => exact hset (.group g) n (by simp [Lock.rank])
  | timerfdSettime f n => exact hset (.fd f) n (by simp [Lock.rank])
  | timerThread n rounds =>
    refine keeps_underLock (Or.inr (by simp)) (keeps_flatMap fun r => Keeps.append ?_ ?_)
    · exact keeps_repeated (keeps_relock (Or.inr (by simp)) keeps_nil)
    · exact keeps_callback r.callback

/-! ## Every run -/

/-- **No deadlock.** For any number of threads: a run in which every late acquisition finds its
lock free has no cycle of threads that wait for each other. -/
theorem lockOrder_run (ops : List Event) (hok : AllSteps step LateOk init ops) :
    ¬ Deadlock (run step init ops) := by
  have hinv : Locks.Inv Lock.rank (run step init ops) := by
    refine run_invariant ?_ inv_init hok
    intro s e hs he
    cases e with
    | start t op => exact inv_start hs (ordered_code op)
    | next t => exact inv_next hs he
  exact not_deadlock hinv

/-- A `timerfd_settime`, and the expiry of the same timer. -/
def timerfdRun (tail : List ThreadId) : List Event :=
  [.start 0 (.timerfdSettime 5 7), .start 1 (.timerThread 7 [⟨0, .timerfd 5⟩])] ++ tail.map .next

/-- The timer thread waits until the call is over. -/
theorem lockOrder_run_timerfd : WaitsFor (run step init (timerfdRun [0, 0, 1])) 1 0 ∧
      ¬ Deadlock (run step init (timerfdRun [0, 0, 1])) := by
  refine ⟨⟨.timer 7, rfl, rfl⟩, lockOrder_run _ ?_⟩
  refine ⟨trivial, trivial, ?_, ?_, ?_, trivial⟩
  · intro l rest h
    cases h
  · intro l rest h
    cases h
  · intro l rest h
    cases h

/-- The call has the descriptor and waits for the timer; the callback has the timer and waits
for the descriptor. -/
theorem lockOrder_timerfd : ¬ ∀ ops, ¬ Deadlock (run step init ops) := by
  intro h
  apply h (timerfdRun [0, 1, 0, 1])
  have h₀ : WaitsFor (run step init (timerfdRun [0, 1, 0, 1])) 0 1 := ⟨.timer 7, rfl, rfl⟩
  have h₁ : WaitsFor (run step init (timerfdRun [0, 1, 0, 1])) 1 0 := ⟨.fd 5, rfl, rfl⟩
  exact ⟨0, Relation.TransGen.tail (Relation.TransGen.single h₀) h₁⟩

end IosLinuxkit.LockOrder
