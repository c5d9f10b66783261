import IosLinuxkit.Lib.Run
import Mathlib.Logic.Function.Basic

/-!
# Exit status

`kernel/exit.c` with the stop of `kernel/signal.c`: one thread group, its exits, and the waits of its
parent. What runs under `pids_lock`, or under the lock of the group, is one step.

`begun` and `collected` are no fields of the source: the status that the exit of the group began with,
and the statuses that the waits have reaped.
-/

namespace IosLinuxkit.ExitStatus

/-- Where a thread is. A `leaving` one has come through `do_exit_group`, and its `status` is the argument
that `do_exit` will get; `waits` says that it waits for the others first. An `exiting` one has claimed its
cleanup. -/
inductive Phase where
  | away
  | running
  | leaving (status : Nat) (waits : Bool)
  | exiting (status : Nat)
  deriving DecidableEq

/-- `struct tgroup`, and of its leader `exit_code`, `zombie` and `ptrace`. -/
structure Group where
  threads : List Nat
  phase : Nat → Phase
  leader : Nat
  stopped : Bool
  doingGroupExit : Bool
  groupExitCode : Nat
  exitCode : Nat
  zombie : Bool
  ptraceStopped : Bool
  ptraceSignal : Nat
  reaped : Bool
  begun : Option Nat
  collected : List Nat

/-- A group with one thread. `tgroup_copy` and `task_create_` copy the other fields of the parent, a stop
among them. -/
def Group.start (leader : Nat) (stopped : Bool) (groupExitCode exitCode : Nat) : Group :=
  { threads := [leader]
    phase := fun t => if t = leader then .running else .away
    leader := leader
    stopped := stopped
    doingGroupExit := false
    groupExitCode := groupExitCode
    exitCode := exitCode
    zombie := false
    ptraceStopped := false
    ptraceSignal := 0
    reaped := false
    begun := none
    collected := [] }

/-- `status << 8` -/
def exitedStatus (status : Nat) : Nat := status * 256 % 4294967296

/-- `sig << 8 | 0x7f` -/
def stoppedStatus (sig : Nat) : Nat := sig * 256 + 127

namespace Group

def setPhase (st : Group) (t : Nat) (p : Phase) : Group :=
  { st with phase := Function.update st.phase t p }

/-! ## Exits -/

/-- `do_exit_group` up to the wait for the others. The loop that sends `SIGKILL` ends a stop: it meets the
thread itself at the latest. -/
def doExitGroup (st : Group) (t status : Nat) : Group :=
  if st.phase t = .running then
    if st.doingGroupExit then
      { st with stopped := false }.setPhase t (.leaving st.groupExitCode false)
    else
      { st with
        doingGroupExit := true
        groupExitCode := status
        stopped := false
        begun := some status }.setPhase t (.leaving status (decide (1 < st.threads.length)))
  else st

def isExiting : Phase → Bool
  | .exiting _ => true
  | _ => false

/-- The safety valve of `do_exit_group`: threads that have not claimed their cleanup leave the list, and
will find themselves marked as exiting. -/
def safetyValve (st : Group) (t : Nat) : Group :=
  match st.phase t with
  | .leaving _ true =>
    let stuck := fun u => decide (u ≠ t) && !isExiting (st.phase u)
    { st with
      threads := st.threads.filter fun u => !stuck u
      phase := fun u => if stuck u then .away else st.phase u }
  | _ => st

/-- The first section of `do_exit`, for a thread that comes from `sys_exit` or the check of
`doing_group_exit` in the main loop. -/
def claim (st : Group) (t status : Nat) : Group :=
  if st.phase t = .running then st.setPhase t (.exiting status) else st

/-- The same for one that comes from `do_exit_group`. -/
def claimLeaving (st : Group) (t : Nat) : Group :=
  match st.phase t with
  | .leaving status _ => st.setPhase t (.exiting status)
  | _ => st

/-- The rest of `do_exit`, with `exit_tgroup`. -/
def exitTgroup (st : Group) (t : Nat) : Group :=
  match st.phase t with
  | .exiting status =>
    let exitCode := if t = st.leader then status else st.exitCode
    let threads := st.threads.erase t
    if threads = [] ∧ st.zombie = false then
      { st with
        threads := threads
        exitCode := exitCode
        zombie := true
        begun := if st.begun = none then some status else st.begun }.setPhase t .away
    else { st with threads := threads, exitCode := exitCode }.setPhase t .away
  | _ => st

/-- `CLONE_THREAD`, with a fresh pid -/
def cloneThread (st : Group) (t u : Nat) : Group :=
  if st.phase t = .running ∧ st.phase u = .away ∧ u ≠ st.leader then
    { st with threads := u :: st.threads }.setPhase u .running
  else st

/-! ## Stops -/

/-- `SIGNAL_STOP` of `receive_signal` -/
def receiveStop (st : Group) (t sig : Nat) : Group :=
  if st.phase t = .running then
    { st with stopped := true, groupExitCode := stoppedStatus sig }
  else st

/-- `SIGCONT` or `SIGKILL` in `deliver_signal` -/
def receiveCont (st : Group) : Group :=
  if st.reaped then st else { st with stopped := false }

/-- `signal_delivery_stop` of the leader, and the end of it. -/
def signalDeliveryStop (st : Group) (sig : Nat) : Group :=
  if st.phase st.leader = .running then { st with ptraceStopped := true, ptraceSignal := sig } else st

def ptraceResume (st : Group) : Group :=
  if st.reaped then st else { st with ptraceStopped := false }

/-! ## Waits -/

/-- `WUNTRACED`, `WEXITED` and `WNOWAIT` -/
structure WaitOptions where
  untraced : Bool
  exited : Bool
  nowait : Bool

def notifyIfStopped (st : Group) : Option (Nat × Group) :=
  if st.stopped = false ∨ st.groupExitCode = 0 then none
  else some (st.groupExitCode, { st with groupExitCode := 0 })

/-- The status that `reap_if_zombie` reports. -/
def reapStatus (st : Group) : Nat := if st.doingGroupExit then st.groupExitCode else st.exitCode

def reapIfZombie (st : Group) (nowait : Bool) : Option (Nat × Group) :=
  if !st.zombie then none
  else if nowait then some (st.reapStatus, st)
  else some (st.reapStatus, { st with reaped := true, collected := st.reapStatus :: st.collected })

/-- The end of `reap_if_needed` -/
def notifyIfTraced (st : Group) : Option (Nat × Group) :=
  if st.ptraceStopped ∧ st.ptraceSignal ≠ 0 then
    some (stoppedStatus st.ptraceSignal, { st with ptraceSignal := 0 })
  else none

def reapIfNeeded (st : Group) (o : WaitOptions) : Option (Nat × Group) :=
  match if o.untraced then st.notifyIfStopped else none with
  | some r => some r
  | none =>
    match if o.exited then st.reapIfZombie o.nowait else none with
    | some r => some r
    | none => st.notifyIfTraced

/-- A round of `do_wait`: it finds no child any more that was reaped. -/
def doWait (st : Group) (o : WaitOptions) : Option Nat × Group :=
  if st.reaped then (none, st)
  else
    match st.reapIfNeeded o with
    | none => (none, st)
    | some (status, st) => (some status, st)

end Group

/-! ## Runs -/

inductive ExitOp where
  | clone (t u : Nat)
  | sysExitGroup (t status : Nat)
  | fatalSignal (t sig : Nat)
  | valve (t : Nat)
  | sysExit (t status : Nat)
  | seeGroupExit (t : Nat)
  | claimLeaving (t : Nat)
  | exitTgroup (t : Nat)
  | stop (t sig : Nat)
  | cont
  | deliveryStop (sig : Nat)
  | ptraceResume
  | wait (o : Group.WaitOptions)

def exitStep (st : Group) : ExitOp → Group
  | .clone t u => st.cloneThread t u
  | .sysExitGroup t status => st.doExitGroup t (exitedStatus status)
  | .fatalSignal t sig => st.doExitGroup t sig
  | .valve t => st.safetyValve t
  | .sysExit t status => st.claim t (exitedStatus status)
  | .seeGroupExit t => if st.doingGroupExit then st.claim t st.groupExitCode else st
  | .claimLeaving t => st.claimLeaving t
  | .exitTgroup t => st.exitTgroup t
  | .stop t sig => st.receiveStop t sig
  | .cont => st.receiveCont
  | .deliveryStop sig => st.signalDeliveryStop sig
  | .ptraceResume => st.ptraceResume
  | .wait o => (st.doWait o).2

/-! ## What ought to hold -/

/-- At most one status is reaped, the one that the exit began with; and a wait for a dead child that was
not reaped reports it, a stop that is to be reported first apart. -/
structure Agrees (st : Group) : Prop where
  once : st.collected.length ≤ 1
  status : ∀ s ∈ st.collected, st.begun = some s
  waits : ∀ (c : Nat) (o : Group.WaitOptions), st.begun = some c → st.zombie = true → st.reaped = false →
    o.exited = true → ¬ (o.untraced = true ∧ st.stopped = true) → (st.doWait o).1 = some c

/-- No thread takes a stop signal once the exit of the group has begun; and where the exit of the last
thread is the beginning, the leader left with the same status. -/
def Undisturbed (st : Group) : ExitOp → Prop
  | .stop t _ => st.phase t = .running → st.begun = none
  | .exitTgroup t => ∀ s, st.phase t = .exiting s → st.threads.erase t = [] → st.begun = none →
    t = st.leader ∨ st.exitCode = s
  | _ => True

end IosLinuxkit.ExitStatus
