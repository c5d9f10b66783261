import IosLinuxkit.Lib.Run
import Mathlib.Data.List.Nodup

/-!
# Waits for children

`kernel/exit.c`: `do_wait` on the tree of tasks, with `clone` and the exits that change the tree. What runs
under `pids_lock` is one step. A task is known by its pid, and a thread group by a number that is not used
again.

## Modelling

* The exit of the last thread of init ends the run, and is no step. The safety valve of `do_exit_group` is left
  out, and so are usage and times.
* `id` and `reaped` are no fields of the source: the identity of a task, whose pid may be used again, and the
  identities of the tasks that were reaped.
-/

namespace IosLinuxkit.Wait

def maxPid : Nat := 32768

def eINTR : Int := -4
def eCHILD : Int := -10

structure Task where
  id : Nat
  group : Nat
  parent : Option Nat
  children : List Nat
  exiting : Bool
  zombie : Bool
  uid : Nat
  exitCode : Nat
  ptraceStopped : Bool
  ptraceSignal : Nat

structure Tgroup where
  leader : Nat
  threads : List Nat
  pgid : Int
  stopped : Bool
  doingGroupExit : Bool
  groupExitCode : Nat

/-- `idtype` and `id` -/
inductive Sel
  | all
  | pid (id : Int)
  | pgid (id : Int)
  deriving DecidableEq

/-- `WNOHANG`, `WUNTRACED`, `WEXITED` and `WNOWAIT`; the others that are allowed do nothing. -/
structure Options where
  nohang : Bool
  untraced : Bool
  exited : Bool
  nowait : Bool
  deriving DecidableEq

structure Call where
  sel : Sel
  options : Options
  deriving DecidableEq

/-- What `pid_get_task_zombie` finds: one slot behind the table is taken for a slot. -/
inductive Slot
  | none
  | outside
  | task (pid : Nat)

/-- How a round ends: with a child, with none at all or none yet, or asleep. What is behind the table is not
known. -/
inductive Out
  | found (pid uid status : Nat)
  | nothing
  | fails (err : Int)
  | sleeps
  | undefined
  deriving DecidableEq

/-- The tree; `asleep` has the calls of the tasks that wait, and whether a signal has come. -/
structure State where
  task : Nat → Option Task
  group : Nat → Option Tgroup
  asleep : Nat → Option (Call × Bool)
  next : Nat
  reaped : List Nat

namespace State

def setTask (st : State) (p : Nat) (T : Task) : State := { st with task := Function.update st.task p (some T) }

def setGroup (st : State) (g : Nat) (G : Tgroup) : State := { st with group := Function.update st.group g (some G) }

def mapTasks (st : State) (f : Nat → Task → Task) : State := { st with task := fun p => (st.task p).map (f p) }

/-- `task_destroy`: the task leaves the children of its parent, and the table. -/
def taskDestroy (st : State) (c : Nat) : State :=
  let st := st.mapTasks fun _ P => { P with children := P.children.filter (· ≠ c) }
  { st with task := Function.update st.task c none }

/-! ## Reaping -/

def notifyIfStopped (st : State) (g : Nat) (G : Tgroup) : Option (Nat × State) :=
  if G.stopped = false ∨ G.groupExitCode = 0 then none
  else some (G.groupExitCode, st.setGroup g { G with groupExitCode := 0 })

def reapIfZombie (st : State) (c : Nat) (T : Task) (G : Tgroup) (nowait : Bool) : Option (Nat × State) :=
  if T.zombie = false then none
  else
    let status := if G.doingGroupExit then G.groupExitCode else T.exitCode
    if nowait then some (status, st)
    else
      let st := { st with group := Function.update st.group T.group none, reaped := T.id :: st.reaped }
      some (status, st.taskDestroy c)

/-- The end of `reap_if_needed`. -/
def notifyIfTraced (st : State) (c : Nat) (T : Task) : Option (Nat × State) :=
  if T.ptraceStopped ∧ T.ptraceSignal ≠ 0 then
    some (T.ptraceSignal * 256 + 127, st.setTask c { T with ptraceSignal := 0 })
  else none

def reapIfNeeded (st : State) (c : Nat) (o : Options) : Option (Nat × State) :=
  match st.task c with
  | none => none
  | some T =>
    match st.group T.group with
    | none => none
    | some G =>
      match if o.untraced then st.notifyIfStopped T.group G else none with
      | some r => some r
      | none =>
        match if o.exited then st.reapIfZombie c T G o.nowait else none with
        | some r => some r
        | none => st.notifyIfTraced c T

/-! ## A round -/

def considers (st : State) (sel : Sel) (c : Nat) : Bool :=
  match st.task c with
  | none => false
  | some T =>
    match st.group T.group with
    | none => false
    | some G => decide (G.leader = c) && match sel with
      | .pgid id => decide (G.pgid = id)
      | _ => true

/-- The inner loop: whether there was a child, and the one that was found. -/
def scanChildren (st : State) (call : Call) : List Nat → Bool × Option (Nat × Nat × State)
  | [] => (false, none)
  | c :: cs =>
    if st.considers call.sel c then
      match st.reapIfNeeded c call.options with
      | some r => (true, some (c, r))
      | none => (true, (st.scanChildren call cs).2)
    else st.scanChildren call cs

/-- The outer loop, over the threads of the group: the inner one is over `current->children` each time. -/
def scanThreads (st : State) (call : Call) (children : List Nat) : List Nat → Bool × Option (Nat × Nat × State)
  | [] => (false, none)
  | _ :: threads =>
    match st.scanChildren call children with
    | (_, some r) => (true, some r)
    | (found, none) =>
      let (found', r) := st.scanThreads call children threads
      (found || found', r)

def pidGetTaskZombie (st : State) (id : Int) : Slot :=
  if id < 0 ∨ (maxPid : Int) + 1 < id then .none
  else if id = maxPid + 1 then .outside
  else if (st.task id.toNat).isSome then .task id.toNat
  else .none

def parentGroup (st : State) (T : Task) : Option Nat := (T.parent.bind st.task).map Task.group

def uidOf (st : State) (c : Nat) : Nat := ((st.task c).map Task.uid).getD 0

def idle (call : Call) (gotSignal : Bool) : Out :=
  if call.options.nohang then .nothing else if gotSignal then .fails eINTR else .sleeps

/-- A round of `do_wait` by a task `T` with threads `G.threads`. -/
def waitRound (st : State) (T : Task) (G : Tgroup) (call : Call) (gotSignal : Bool) : Out × State :=
  match call.sel with
  | .pid id =>
    match st.pidGetTaskZombie id with
    | .outside => (.undefined, st)
    | .none => (.fails eCHILD, st)
    | .task c =>
      match st.task c with
      | none => (.fails eCHILD, st)
      | some C =>
        if st.parentGroup C ≠ some T.group then (.fails eCHILD, st)
        else
          match st.group C.group with
          | none => (.fails eCHILD, st)
          | some F =>
            match st.reapIfNeeded F.leader call.options with
            | some (status, st') => (.found c (st.uidOf F.leader) status, st')
            | none => (idle call gotSignal, st)
  | _ =>
    match st.scanThreads call T.children G.threads with
    | (_, some (c, status, st')) => (.found c (st.uidOf c) status, st')
    | (false, none) => (.fails eCHILD, st)
    | (true, none) => (idle call gotSignal, st)

/-! ## New tasks and exits -/

/-- `t` runs in a call of its own. -/
def runs (st : State) (t : Nat) (T : Task) (G : Tgroup) : Bool :=
  !T.exiting && (st.asleep t).isNone && decide (t ∈ G.threads)

/-- A call of `clone` by `t` that succeeds, and gets the slot `pid`. -/
def clone (st : State) (t pid : Nat) (thread : Bool) : State :=
  match st.task t with
  | none => st
  | some T =>
    match st.group T.group with
    | none => st
    | some G =>
      if st.runs t T G ∧ 0 < pid ∧ pid ≤ maxPid ∧ (st.task pid).isNone then
        let g := if thread then T.group else st.next
        let copy := if thread then { G with threads := pid :: G.threads }
          else { G with leader := pid, threads := [pid], doingGroupExit := false }
        let st' := (st.setTask t { T with children := pid :: T.children }).setTask pid
          { T with id := st.next, group := g, parent := some t, children := [] }
        { st'.setGroup g copy with next := st.next + 1 }
      else st

/-- The first section of `do_exit`. -/
def claim (st : State) (t : Nat) : State :=
  match st.task t with
  | none => st
  | some T =>
    match st.group T.group with
    | none => st
    | some G => if st.runs t T G then st.setTask t { T with exiting := true } else st

def findNewParent (st : State) (G : Tgroup) : Option Nat :=
  match G.threads.find? fun p => (st.task p).any fun P => !P.exiting with
  | some p => some p
  | none => if (st.task 1).any fun P => !P.zombie then some 1 else none

/-- The children of an exiting task, one after the other, go to the front of another list. -/
def reparent (st : State) (t : Nat) (kids : List Nat) (heir : Nat) : State :=
  st.mapTasks fun p P =>
    { P with
      parent := if p ∈ kids then some heir else P.parent
      children := (if p = heir then kids.reverse else []) ++ (if p = t then [] else P.children) }

/-- `exit_tgroup`, and what follows it. -/
def leave (st : State) (t g : Nat) (G : Tgroup) : State :=
  let threads := G.threads.filter (· ≠ t)
  let st := st.setGroup g { G with threads := threads }
  st.mapTasks fun p P => { P with zombie := P.zombie || (decide (p = G.leader) && threads.isEmpty) }

/-- The second section of `do_exit`. -/
def doExit (st : State) (t status : Nat) : State :=
  match st.task t with
  | none => st
  | some T =>
    match st.group T.group with
    | none => st
    | some G =>
      match st.findNewParent G with
      | none => st
      | some heir =>
        if T.exiting = false ∨ t ∉ G.threads ∨ (G.leader = 1 ∧ G.threads.filter (· ≠ t) = []) then st
        else
          let st := st.mapTasks fun p P => { P with exitCode := if p = t then status else P.exitCode }
          let st := (st.reparent t T.children heir).leave t T.group G
          if t = G.leader then st else st.taskDestroy t

end State

/-! ## Steps -/

inductive Op
  | wait (t : Nat) (call : Call)
  /-- `wait_for` returns, after a signal or without one. -/
  | wake (t : Nat) (signal : Bool)
  | clone (t pid : Nat) (thread : Bool)
  | claim (t : Nat)
  | exit (t status : Nat)
  /-- Stops, continues and `do_exit_group`. -/
  | report (g : Nat) (stopped doingGroupExit : Bool) (groupExitCode : Nat)
  /-- Traps and resumptions. -/
  | trace (c : Nat) (stopped : Bool) (signal : Nat)
  | setpgid (g : Nat) (pgid : Int)
  | setuid (c uid : Nat)

/-- The round of `do_wait` that a step makes: the task, its call, and whether a signal has come. -/
def rounds (st : State) : Op → Option (Nat × Task × Tgroup × Call × Bool)
  | .wait t call =>
    match st.task t with
    | none => none
    | some T =>
      match st.group T.group with
      | none => none
      | some G => if st.runs t T G then some (t, T, G, call, false) else none
  | .wake t signal =>
    match st.asleep t, st.task t with
    | some (call, gotSignal), some T =>
      match st.group T.group with
      | none => none
      | some G => if t ∈ G.threads then some (t, T, G, call, gotSignal || signal) else none
    | _, _ => none
  | _ => none

/-- A round, after which the task sleeps or is out of its call. -/
def waitStep (st : State) (t : Nat) (T : Task) (G : Tgroup) (call : Call) (gotSignal : Bool) : Out × State :=
  let (out, st') := st.waitRound T G call gotSignal
  (out, { st' with asleep := Function.update st'.asleep t (if out = .sleeps then some (call, gotSignal) else none) })

def exec (st : State) (op : Op) : Option Out × State :=
  match rounds st op with
  | some (t, T, G, call, gotSignal) =>
    let (out, st') := waitStep st t T G call gotSignal
    (some out, st')
  | none =>
    (none, match op with
      | .clone t pid thread => st.clone t pid thread
      | .claim t => st.claim t
      | .exit t status => st.doExit t status
      | .report g stopped doingGroupExit groupExitCode =>
        match st.group g with
        | none => st
        | some G => st.setGroup g
          { G with stopped := stopped, doingGroupExit := doingGroupExit, groupExitCode := groupExitCode }
      | .trace c stopped signal =>
        st.mapTasks fun p P => if p = c then { P with ptraceStopped := stopped, ptraceSignal := signal } else P
      | .setpgid g pgid =>
        match st.group g with
        | none => st
        | some G => st.setGroup g { G with pgid := pgid }
      | .setuid c uid => st.mapTasks fun p P => if p = c then { P with uid := uid } else P
      | _ => st)

def step (st : State) (op : Op) : State := (exec st op).2

def boot : State where
  task := fun p => if p = 1 then some ⟨0, 0, none, [], false, false, 0, 0, false, 0⟩ else none
  group := fun g => if g = 0 then some ⟨1, [1], 1, false, false, 0⟩ else none
  asleep := fun _ => none
  next := 1
  reaped := []

/-! ## What a round ought to do -/

def Own (st : State) (g c : Nat) : Prop :=
  ∃ C p P, st.task c = some C ∧ C.parent = some p ∧ st.task p = some P ∧ P.group = g

def Process (st : State) (c : Nat) (T : Task) (G : Tgroup) : Prop :=
  st.task c = some T ∧ st.group T.group = some G ∧ G.leader = c

def Sel.Holds (c : Nat) (G : Tgroup) : Sel → Prop
  | all => True
  | pid id => (c : Int) = id
  | pgid id => G.pgid = id

/-- The children of all threads of the group that match the selector. -/
def Matches (st : State) (g : Nat) (sel : Sel) (c : Nat) : Prop :=
  Own st g c ∧ ∃ T G, Process st c T G ∧ sel.Holds c G

/-- A stop, a death or a trap to be reported under the options. -/
def Reapable (st : State) (o : Options) (c : Nat) : Prop :=
  ∃ T G, Process st c T G ∧
    ((o.untraced = true ∧ G.stopped = true ∧ G.groupExitCode ≠ 0) ∨ (o.exited = true ∧ T.zombie = true) ∨
      (T.ptraceStopped = true ∧ T.ptraceSignal ≠ 0))

/-- No match is `ECHILD`, a match that is reapable is returned, and if none is the call goes on. -/
structure RoundOk (st : State) (g : Nat) (call : Call) (gotSignal : Bool) (r : Out × State) : Prop where
  none : (∀ c, ¬Matches st g call.sel c) → r = (.fails eCHILD, st)
  ready : (∃ c, Matches st g call.sel c ∧ Reapable st call.options c) →
    ∃ c T status st', Matches st g call.sel c ∧ st.task c = some T ∧
      st.reapIfNeeded c call.options = some (status, st') ∧ r = (.found c T.uid status, st')
  idle : (∃ c, Matches st g call.sel c) → (∀ c, Matches st g call.sel c → ¬Reapable st call.options c) →
    r = (State.idle call gotSignal, st)

/-- A step whose round is as it ought to be, and that reaps no task again. -/
structure Precise (st : State) (op : Op) : Prop where
  round : ∀ t T G call gotSignal, rounds st op = some (t, T, G, call, gotSignal) →
    RoundOk st T.group call gotSignal (st.waitRound T G call gotSignal)
  once : (step st op).reaped.Nodup

/-! ## When it does -/

def Mine (st : State) (t c : Nat) : Prop := ∃ C, st.task c = some C ∧ C.parent = some t

/-- Where the other threads of the group have children that match, or that are reapable, so has the caller. A
pid is in the table, and not that of a thread. -/
def Fine (st : State) (t g : Nat) (call : Call) : Prop :=
  match call.sel with
  | .pid id =>
    id ≠ maxPid + 1 ∧ ∀ (c : Nat) C G, (c : Int) = id → Own st g c → st.task c = some C →
      st.group C.group = some G → G.leader = c
  | sel =>
    ((∃ c, Matches st g sel c) → ∃ c, Matches st g sel c ∧ Mine st t c) ∧
      ((∃ c, Matches st g sel c ∧ Reapable st call.options c) →
        ∃ c, Matches st g sel c ∧ Mine st t c ∧ Reapable st call.options c)

def Allowed (st : State) (op : Op) : Prop :=
  ∀ t T G call gotSignal, rounds st op = some (t, T, G, call, gotSignal) → Fine st t T.group call

end IosLinuxkit.Wait
