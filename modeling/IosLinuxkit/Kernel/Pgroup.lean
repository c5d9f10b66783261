import IosLinuxkit.Lib.Ilist
import IosLinuxkit.Lib.Run
import Mathlib.Data.List.AList

/-!
# Process groups and sessions

The table of `kernel/task.c`, with the lists of thread groups in its slots, and all that puts a group on
a list or takes it off: `kernel/group.c`, `copy_task`, `do_exit`, `reap_if_zombie`. A task is known by its
pid. A thread group has a number that is not used again, for a task can keep a pointer to one that was
freed.
-/

namespace IosLinuxkit.Pgroup

def maxPid : Nat := 32768

def ePERM : Int := -1
def eSRCH : Int := -3

/-- A task that is `created` is on no list of threads yet, one that `exited` is the leader of threads that
run on, and a `leaked` one was given up by the safety valve of `do_exit_group`. -/
inductive Stage where
  | created
  | running
  | exited
  | zombie
  | leaked
  deriving DecidableEq

structure Task where
  group : Nat
  parent : Option Nat
  stage : Stage

structure Tgroup where
  leader : Nat
  pgid : Nat
  sid : Nat
  threads : List Nat

/-- `pids`, with what its pointers lead to. -/
structure Pids where
  tasks : AList fun _ : Nat => Task
  groups : AList fun _ : Nat => Tgroup
  pgroup : Nat → List Nat
  session : Nat → List Nat
  curPid : Nat
  nextGroup : Nat

def Pids.boot : Pids := ⟨∅, ∅, fun _ => [], fun _ => [], 0, 0⟩

namespace Pids

/-! ## The table -/

def pidEmpty (st : Pids) (pid : Nat) : Bool :=
  (st.tasks.lookup pid).isNone && (st.session pid).isEmpty && (st.pgroup pid).isEmpty

/-- `pid_get` finds a slot. It lets one index too many through. -/
def pidGet (st : Pids) (id : Nat) : Bool := decide (id ≤ maxPid + 1) && !st.pidEmpty id

def nextPid (cur : Nat) : Nat := if maxPid < cur + 1 then 1 else cur + 1

/-- The search of `task_create_`, over as many slots as there are: it goes around for ever when all of
them are in use. -/
def searchPid (st : Pids) : Nat → Nat → Option Nat
  | 0, _ => none
  | n + 1, cur => if st.pidEmpty (nextPid cur) then some (nextPid cur) else st.searchPid n (nextPid cur)

/-- `task_create_`. The new task is a copy of `parent`, so it has its group. -/
def taskCreate (st : Pids) (group : Nat) (parent : Option Nat) : Option (Nat × Pids) :=
  (st.searchPid maxPid st.curPid).map fun pid =>
    (pid, { st with tasks := st.tasks.insert pid ⟨group, parent, .created⟩, curPid := pid })

def taskDestroy (st : Pids) (pid : Nat) : Pids := { st with tasks := st.tasks.erase pid }

/-- The group leaves its session and its process group and is freed: the same lines in `reap_if_zombie`
and in `task_discard_unstarted`. -/
def tearDown (st : Pids) (g : Nat) : Pids :=
  { st with
    groups := st.groups.erase g
    session := Ilist.remove st.session g
    pgroup := Ilist.remove st.pgroup g }

/-! ## New tasks -/

/-- `list_add(&task->group->threads, &task->group_links)` -/
def joinThreads (st : Pids) (pid : Nat) (t : Task) (G : Tgroup) : Pids :=
  { st with
    tasks := st.tasks.insert pid { t with stage := .running }
    groups := st.groups.insert t.group { G with threads := pid :: G.threads } }

/-- `tgroup_copy`, and the first thread of the copy. -/
def tgroupCopy (st : Pids) (pid : Nat) (t : Task) (G : Tgroup) : Pids :=
  let g := st.nextGroup
  { st with
    tasks := st.tasks.insert pid ⟨g, t.parent, .running⟩
    groups := st.groups.insert g { G with leader := pid, threads := [pid] }
    pgroup := Ilist.addAfter st.pgroup t.group g
    session := Ilist.addAfter st.session t.group g
    nextGroup := g + 1 }

/-- The section of `copy_task`. -/
def copyTask (st : Pids) (pid : Nat) (thread : Bool) : Pids :=
  match st.tasks.lookup pid with
  | none => st
  | some t =>
    match st.groups.lookup t.group with
    | none => st
    | some G => if thread then st.joinThreads pid t G else st.tgroupCopy pid t G

def taskDiscardUnstarted (st : Pids) (pid : Nat) : Pids :=
  match st.tasks.lookup pid with
  | none => st
  | some t =>
    match st.groups.lookup t.group with
    | none => st
    | some G =>
      let threads := G.threads.erase pid
      let st := { st with
        tasks := st.tasks.insert pid { t with stage := .created }
        groups := st.groups.insert t.group { G with threads := threads } }
      (if threads = [] then st.tearDown t.group else st).taskDestroy pid

/-- How a call of `clone` ends: `task_create_` gets no memory, `copy_task` fails before the new task is in
a group, it fails afterwards, at an address that it ought to store the pid at, `task_start` fails, or the
task runs. -/
inductive Fate where
  | noMemory
  | noCopy
  | badAddress
  | noStart
  | started
  deriving DecidableEq

/-- `sys_clone`. An error of `copy_task` leads to `task_destroy`, wherever it comes from. -/
def sysClone (st : Pids) (caller : Nat) (thread : Bool) (fate : Fate) : Pids :=
  match st.tasks.lookup caller with
  | none => st
  | some t =>
    match st.taskCreate t.group (some caller) with
    | none => st
    | some (pid, st') =>
      match fate with
      | .noMemory => { st with curPid := pid }
      | .noCopy => st'.taskDestroy pid
      | .badAddress => (st'.copyTask pid thread).taskDestroy pid
      | .noStart => (st'.copyTask pid thread).taskDiscardUnstarted pid
      | .started => st'.copyTask pid thread

/-! ## Sessions and process groups -/

/-- `task_setsid`. The lists are those of the task, the session is the leader's. -/
def taskSetsid (st : Pids) (pid : Nat) : Int × Pids :=
  match st.tasks.lookup pid with
  | none => (eSRCH, st)
  | some t =>
    match st.groups.lookup t.group with
    | none => (eSRCH, st)
    | some G =>
      let newSid := G.leader
      if G.pgid = newSid ∨ G.sid = newSid then (ePERM, st)
      else
        (newSid, { st with
          session := Ilist.add (Ilist.remove st.session t.group) pid t.group
          pgroup := Ilist.add (Ilist.remove st.pgroup t.group) pid t.group
          groups := st.groups.insert t.group { G with sid := newSid, pgid := newSid } })

/-- `construct_task`, up to `task_setsid`. -/
def constructTask (st : Pids) (parent : Option Nat) : Pids :=
  match st.taskCreate st.nextGroup parent with
  | none => st
  | some (pid, st') =>
    let g := st.nextGroup
    ({ st' with
      tasks := st'.tasks.insert pid ⟨g, parent, .running⟩
      groups := st'.groups.insert g ⟨pid, 0, 0, [pid]⟩
      nextGroup := g + 1 }.taskSetsid pid).2

/-- The checks of `sys_setpgid`: an error, or the group of the task. A task that was leaked can have a
group that is freed. -/
def setpgidCheck (st : Pids) (caller id pgid : Nat) : Int ⊕ (Nat × Tgroup) :=
  if st.pidGet id = false then .inl eSRCH
  else
    match st.tasks.lookup id with
    | none => .inl eSRCH
    | some task =>
      match st.groups.lookup task.group with
      | none => .inl eSRCH
      | some tgroup =>
        -- you can only join a process group in the same session
        if id ≠ pgid ∧ (st.pidGet pgid = false ∨
            ((st.pgroup pgid).head?.bind st.groups.lookup).map Tgroup.sid ≠ some tgroup.sid) then .inl ePERM
        -- you can only change the process group of yourself or a child
        else if id ≠ caller ∧ task.parent ≠ some caller then .inl eSRCH
        -- a session leader cannot create a process group
        else if tgroup.sid = tgroup.leader then .inl ePERM
        else .inr (task.group, tgroup)

/-- The first lines of `sys_setpgid`. -/
def setpgidIds (caller id pgid : Nat) : Nat × Nat :=
  let id := if id = 0 then caller else id
  (id, if pgid = 0 then id else pgid)

/-- `sys_setpgid`. The list is the one of the task that is named. -/
def sysSetpgid (st : Pids) (caller id pgid : Nat) : Int × Pids :=
  let (id, pgid) := setpgidIds caller id pgid
  match st.setpgidCheck caller id pgid with
  | .inl err => (err, st)
  | .inr (g, tgroup) =>
    if tgroup.pgid ≠ pgid then
      (0, { st with
        pgroup := Ilist.add (Ilist.remove st.pgroup g) id g
        groups := st.groups.insert g { tgroup with pgid := pgid } })
    else (0, st)

/-! ## Exits -/

def setStage (st : Pids) (pid : Nat) (s : Stage) : Pids :=
  match st.tasks.lookup pid with
  | none => st
  | some t => { st with tasks := st.tasks.insert pid { t with stage := s } }

/-- `list_remove(&task->group_links)` -/
def leaveThreads (st : Pids) (pid g : Nat) : Pids :=
  match st.groups.lookup g with
  | none => st
  | some G => { st with groups := st.groups.insert g { G with threads := G.threads.erase pid } }

/-- What `do_exit` does when the last thread is gone. A leader without a parent becomes a child of the
first process; when the first process itself goes, the program ends. -/
def zombify (st : Pids) (pid leader : Nat) : Pids :=
  match st.tasks.lookup leader with
  | none => st
  | some t =>
    if t.stage = .zombie then st
    else
      let parent := if t.parent = none ∧ pid ≠ 1 then some 1 else t.parent
      { st with tasks := st.tasks.insert leader ⟨t.group, parent, .zombie⟩ }

/-- `new_parent` for the children of an exiting task. -/
def reparent (st : Pids) (pid heir : Nat) (id : Nat) : Pids :=
  match st.tasks.lookup id with
  | none => st
  | some t =>
    if t.parent = some pid then { st with tasks := st.tasks.insert id { t with parent := some heir } } else st

/-- The sections of `do_exit`, with `exit_tgroup`. The heir is a thread of the group that is not exiting,
or the first process. -/
def doExit (st : Pids) (pid heir : Nat) : Pids :=
  match st.tasks.lookup pid with
  | none => st
  | some t =>
    match st.groups.lookup t.group with
    | none => st
    | some G =>
      let st := st.setStage pid .exited
      let st := st.tasks.keys.foldl (fun st id => st.reparent pid heir id) st
      let st := st.leaveThreads pid t.group
      let st := if G.threads.erase pid = [] then st.zombify pid G.leader else st
      if pid ≠ G.leader then st.taskDestroy pid else st

/-- The safety valve of `do_exit_group`, for one stuck thread. -/
def leak (st : Pids) (pid : Nat) : Pids :=
  match st.tasks.lookup pid with
  | none => st
  | some t => (st.setStage pid .leaked).leaveThreads pid t.group

/-- `reap_if_zombie`, without `WNOWAIT` -/
def reapIfZombie (st : Pids) (pid : Nat) : Pids :=
  match st.tasks.lookup pid with
  | none => st
  | some t => if t.stage = .zombie then (st.tearDown t.group).taskDestroy pid else st

end Pids

/-! ## The system -/

/-- One step, of the task that is named first. The heir is any. -/
inductive PidOp where
  | constructTask (parent : Option Nat)
  | clone (caller : Nat) (thread : Bool) (fate : Pids.Fate)
  | setpgid (caller id pgid : Nat)
  | setsid (caller : Nat)
  | exit (caller heir : Nat)
  | leak (caller task : Nat)
  | reap (task : Nat)

def Pids.Running (st : Pids) (pid : Nat) : Prop := (st.tasks.lookup pid).map Task.stage = some .running

instance (st : Pids) (pid : Nat) : Decidable (st.Running pid) := inferInstanceAs (Decidable (_ = _))

def Pids.SameGroup (st : Pids) (p q : Nat) : Prop :=
  p ≠ q ∧ st.Running q ∧ (st.tasks.lookup p).map Task.group = (st.tasks.lookup q).map Task.group

instance (st : Pids) (p q : Nat) : Decidable (st.SameGroup p q) := inferInstanceAs (Decidable (_ ∧ _ ∧ _))

def pidStep (st : Pids) : PidOp → Pids
  | .constructTask parent => st.constructTask parent
  | .clone caller thread fate => if st.Running caller then st.sysClone caller thread fate else st
  | .setpgid caller id pgid => if st.Running caller then (st.sysSetpgid caller id pgid).2 else st
  | .setsid caller => if st.Running caller then (st.taskSetsid caller).2 else st
  | .exit caller heir => if st.Running caller then st.doExit caller heir else st
  | .leak caller task => if st.Running caller ∧ st.SameGroup caller task then st.leak task else st
  | .reap task => st.reapIfZombie task

/-! ## What ought to hold -/

/-- A thread group that is not freed, and whose leader has not been destroyed. -/
def Pids.Live (st : Pids) (g : Nat) (G : Tgroup) : Prop :=
  st.groups.lookup g = some G ∧ ∃ t, st.tasks.lookup G.leader = some t ∧ t.group = g

/-- The lists hold the live groups, each of them once, and a pid with a list that is in use is not given
to a new task. -/
structure ListsExact (st : Pids) : Prop where
  pgroup : ∀ p g, g ∈ st.pgroup p ↔ ∃ G, st.Live g G ∧ G.pgid = p
  session : ∀ p g, g ∈ st.session p ↔ ∃ G, st.Live g G ∧ G.sid = p
  pgroupOnce : ∀ p, (st.pgroup p).Nodup
  sessionOnce : ∀ p, (st.session p).Nodup
  unused : ∀ group parent pid st', st.taskCreate group parent = some (pid, st') →
    st.pgroup pid = [] ∧ st.session pid = []

/-- `setpgid` makes a new group, or changes nothing; its ids are in the table; and it does not read a
group that was freed. -/
structure ProperSetpgid (st : Pids) (caller id pgid : Nat) : Prop where
  inTable : id ≠ maxPid + 1 ∧ pgid ≠ maxPid + 1
  notFreed : ∀ t, st.tasks.lookup id = some t → (st.groups.lookup t.group).isSome
  new : ∀ g G, st.setpgidCheck caller id pgid = .inr (g, G) → G.pgid ≠ pgid → id = pgid

def Proper (st : Pids) : PidOp → Prop
  | .clone _ _ fate => fate ≠ .badAddress
  | .setpgid caller id pgid =>
    ProperSetpgid st caller (Pids.setpgidIds caller id pgid).1 (Pids.setpgidIds caller id pgid).2
  | .setsid caller => ∀ t G, st.tasks.lookup caller = some t → st.groups.lookup t.group = some G →
    ¬ (G.pgid = G.leader ∨ G.sid = G.leader) → caller = G.leader
  | _ => True

end IosLinuxkit.Pgroup
