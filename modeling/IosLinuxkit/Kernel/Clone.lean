import IosLinuxkit.Lib.Counted
import Mathlib.Data.List.Nodup

/-!
# Failed clones

`kernel/fork.c`: `sys_clone` with `copy_task`, and what of `kernel/task.c` makes and unmakes tasks. Each call is
one step; what the host gives, and where, is a parameter.

## Modelling

* A task is known by its pid, and has the slot of the table that points to it. A null pointer that is read is a
  crash, as is a copy of the group without memory for it. So is a pointer to what is not there.
* The cursor of the table is a parameter, and not of the state.
* The pages of an address space have counts of their own, and are left out; so are itimers, usage, locks and the
  trap of a traced parent. Of the guests, it is the ARM one.
-/

namespace IosLinuxkit.Clone

def maxPid : Nat := 32768

def eAGAIN : Int := -11
def eNOMEM : Int := -12
def eFAULT : Int := -14
def eINVAL : Int := -22

def csignal : BitVec 32 := 0xff
def cloneVm : BitVec 32 := 0x100
def cloneFs : BitVec 32 := 0x200
def cloneFiles : BitVec 32 := 0x400
def cloneSighand : BitVec 32 := 0x800
def cloneVfork : BitVec 32 := 0x4000
def cloneThread : BitVec 32 := 0x10000
def cloneSysvsem : BitVec 32 := 0x40000
def cloneSettls : BitVec 32 := 0x80000
def cloneParentSettid : BitVec 32 := 0x100000
def cloneChildCleartid : BitVec 32 := 0x200000
def cloneDetached : BitVec 32 := 0x400000
def cloneChildSettid : BitVec 32 := 0x1000000

def implementedFlags : BitVec 32 :=
  cloneVm ||| cloneFiles ||| cloneFs ||| cloneSighand ||| cloneSysvsem ||| cloneVfork ||| cloneThread ||| cloneSettls |||
    cloneChildSettid ||| cloneParentSettid ||| cloneChildCleartid ||| cloneDetached

structure Call where
  flags : BitVec 32
  stack : Nat
  ptid : Nat
  tls : Nat
  ctid : Nat

def Call.has (call : Call) (flag : BitVec 32) : Bool := call.flags &&& flag != 0

inductive Start
  | ok
  | again
  | fails

/-- The host: whether it has memory for a task, where it has some for the copies, and how `pthread_create` ends. -/
structure Host where
  task : Bool
  mm : Option Nat
  files : Option Nat
  fs : Option Nat
  sighand : Option Nat
  group : Option Nat
  start : Start

structure Task where
  tgid : Nat
  group : Nat
  parent : Option Nat
  children : List Nat
  mm : Option Nat
  files : Nat
  fs : Nat
  sighand : Nat
  sp : Nat
  retval : Nat
  tls : Nat
  altstack : Nat
  altstackSize : Nat
  clearTid : Nat
  exitSignal : BitVec 32

structure Tgroup where
  leader : Nat
  threads : List Nat
  sid : Nat
  pgid : Nat
  tty : Option Nat
  doingGroupExit : Bool
  deriving DecidableEq

/-- `struct mm`: where four bytes can be written. -/
structure Mm where
  exefile : Nat
  writable : Nat → Bool

structure Fdtable where
  files : List (Option Nat)
  cloexec : List Bool

structure FsInfo where
  umask : Nat
  pwd : Nat
  root : Nat

structure Sighand where
  action : List Nat

/-! ## The groups -/

/-- `list_add` behind a node. -/
def insertAfter (old new : Nat) : List Nat → List Nat
  | [] => []
  | g :: l => if g = old then g :: new :: l else g :: insertAfter old new l

theorem mem_insertAfter {old new x : Nat} {l : List Nat} (hold : old ∈ l) :
    x ∈ insertAfter old new l ↔ x = new ∨ x ∈ l := by
  induction l with
  | nil => cases hold
  | cons g l ih =>
    rw [insertAfter]
    split
    case isTrue => simp only [List.mem_cons]; tauto
    case isFalse hne =>
      have hold : old ∈ l := (List.mem_cons.mp hold).resolve_left (Ne.symm hne)
      rw [List.mem_cons, ih hold, List.mem_cons]
      tauto

theorem nodup_insertAfter {old new : Nat} {l : List Nat} (hold : old ∈ l) (hnew : new ∉ l) (h : l.Nodup) :
    (insertAfter old new l).Nodup := by
  induction l with
  | nil => cases hold
  | cons g l ih =>
    obtain ⟨hg, hl⟩ := List.nodup_cons.mp h
    have hne : new ≠ g := List.ne_of_not_mem_cons hnew
    have hnew : new ∉ l := List.not_mem_of_not_mem_cons hnew
    rw [insertAfter]
    split
    case isTrue =>
      refine List.nodup_cons.mpr ⟨?_, List.nodup_cons.mpr ⟨hnew, hl⟩⟩
      exact List.not_mem_cons_of_ne_of_not_mem (Ne.symm hne) hg
    case isFalse hother =>
      have hold : old ∈ l := (List.mem_cons.mp hold).resolve_left (Ne.symm hother)
      refine List.nodup_cons.mpr ⟨fun hmem => ?_, ih hold hnew hl⟩
      exact ((mem_insertAfter hold).mp hmem).elim (Ne.symm hne) hg

theorem erase_insertAfter {old new : Nat} {l : List Nat} (hnew : new ∉ l) : (insertAfter old new l).erase new = l := by
  induction l with
  | nil => rfl
  | cons g l ih =>
    have hne : new ≠ g := List.ne_of_not_mem_cons hnew
    have hnew : new ∉ l := List.not_mem_of_not_mem_cons hnew
    rw [insertAfter]
    split
    case isTrue => rw [List.erase_cons_tail (by simpa using Ne.symm hne), List.erase_cons_head]
    case isFalse => rw [List.erase_cons_tail (by simpa using Ne.symm hne), ih hnew]

/-- The groups, each on the lists of its session and process group, at the pids that these are named by. -/
@[ext]
structure Groups where
  group : Nat → Option Tgroup
  sessions : Nat → List Nat
  pgroups : Nat → List Nat
  session_iff : ∀ s g, g ∈ sessions s ↔ ∃ G, group g = some G ∧ G.sid = s
  pgroup_iff : ∀ p g, g ∈ pgroups p ↔ ∃ G, group g = some G ∧ G.pgid = p
  session_nodup : ∀ s, (sessions s).Nodup
  pgroup_nodup : ∀ p, (pgroups p).Nodup

namespace Groups

variable {gs : Groups} {old new g : Nat} {G : Tgroup}

def setThreads (gs : Groups) (g : Nat) (threads : List Nat) : Groups where
  group := Function.update gs.group g ((gs.group g).map fun G => { G with threads := threads })
  sessions := gs.sessions
  pgroups := gs.pgroups
  session_iff := by
    intro s h
    rw [gs.session_iff]
    by_cases hh : h = g
    · rw [hh, Function.update_self]
      cases gs.group g with
      | none => simp
      | some G => simp
    · rw [Function.update_of_ne hh]
  pgroup_iff := by
    intro p h
    rw [gs.pgroup_iff]
    by_cases hh : h = g
    · rw [hh, Function.update_self]
      cases gs.group g with
      | none => simp
      | some G => simp
    · rw [Function.update_of_ne hh]
  session_nodup := gs.session_nodup
  pgroup_nodup := gs.pgroup_nodup

/-- A copy of a group, behind it on its lists, with its first thread. -/
def copy (gs : Groups) (old new pid : Nat) (G : Tgroup) (h : gs.group old = some G ∧ gs.group new = none) : Groups where
  group := Function.update gs.group new (some { G with leader := pid, threads := [pid], doingGroupExit := false })
  sessions := Function.update gs.sessions G.sid (insertAfter old new (gs.sessions G.sid))
  pgroups := Function.update gs.pgroups G.pgid (insertAfter old new (gs.pgroups G.pgid))
  session_iff := by
    intro s g
    have hold : old ∈ gs.sessions G.sid := (gs.session_iff G.sid old).mpr ⟨G, h.1, rfl⟩
    by_cases hs : s = G.sid
    · rw [hs, Function.update_self, mem_insertAfter hold, gs.session_iff]
      by_cases hg : g = new
      · simp [hg]
      · rw [Function.update_of_ne hg]
        simp [hg]
    rw [Function.update_of_ne hs, gs.session_iff]
    by_cases hg : g = new
    · simp [hg, h.2, Ne.symm hs]
    · rw [Function.update_of_ne hg]
  pgroup_iff := by
    intro p g
    have hold : old ∈ gs.pgroups G.pgid := (gs.pgroup_iff G.pgid old).mpr ⟨G, h.1, rfl⟩
    by_cases hp : p = G.pgid
    · rw [hp, Function.update_self, mem_insertAfter hold, gs.pgroup_iff]
      by_cases hg : g = new
      · simp [hg]
      · rw [Function.update_of_ne hg]
        simp [hg]
    rw [Function.update_of_ne hp, gs.pgroup_iff]
    by_cases hg : g = new
    · simp [hg, h.2, Ne.symm hp]
    · rw [Function.update_of_ne hg]
  session_nodup := by
    intro s
    have hold : old ∈ gs.sessions G.sid := (gs.session_iff G.sid old).mpr ⟨G, h.1, rfl⟩
    have hnew : new ∉ gs.sessions G.sid := by simp [gs.session_iff, h.2]
    by_cases hs : s = G.sid
    · rw [hs, Function.update_self]
      exact nodup_insertAfter hold hnew (gs.session_nodup _)
    · rw [Function.update_of_ne hs]
      exact gs.session_nodup s
  pgroup_nodup := by
    intro p
    have hold : old ∈ gs.pgroups G.pgid := (gs.pgroup_iff G.pgid old).mpr ⟨G, h.1, rfl⟩
    have hnew : new ∉ gs.pgroups G.pgid := by simp [gs.pgroup_iff, h.2]
    by_cases hp : p = G.pgid
    · rw [hp, Function.update_self]
      exact nodup_insertAfter hold hnew (gs.pgroup_nodup _)
    · rw [Function.update_of_ne hp]
      exact gs.pgroup_nodup p

def remove (gs : Groups) (g : Nat) : Groups where
  group := Function.update gs.group g none
  sessions := fun s => (gs.sessions s).erase g
  pgroups := fun p => (gs.pgroups p).erase g
  session_iff := by
    intro s h
    rw [(gs.session_nodup s).mem_erase_iff, gs.session_iff]
    by_cases hh : h = g
    · simp [hh]
    · rw [Function.update_of_ne hh]
      simp [hh]
  pgroup_iff := by
    intro p h
    rw [(gs.pgroup_nodup p).mem_erase_iff, gs.pgroup_iff]
    by_cases hh : h = g
    · simp [hh]
    · rw [Function.update_of_ne hh]
      simp [hh]
  session_nodup := fun s => (gs.session_nodup s).erase g
  pgroup_nodup := fun p => (gs.pgroup_nodup p).erase g

end Groups

/-! ## The state -/

structure State where
  task : Nat → Option Task
  groups : Groups
  mm : Refs Mm
  files : Refs Fdtable
  fs : Refs FsInfo
  sighand : Refs Sighand
  fd : Refs Unit
  tty : Refs Nat

namespace State

def pidEmpty (st : State) (p : Nat) : Bool :=
  (st.task p).isNone && (st.groups.sessions p).isEmpty && (st.groups.pgroups p).isEmpty

/-- The search for a slot, from the one behind the cursor on. -/
def freePid (st : State) (cur : Nat) : Option Nat :=
  ((List.range maxPid).map fun i => (cur + i) % maxPid + 1).find? st.pidEmpty

def taskCreate (st : State) (t : Nat) (T : Task) (pid : Nat) (memory : Bool) : State × Option Task :=
  if memory then
    let child := { T with parent := some t, children := [], clearTid := 0 }
    let task := Function.update st.task t (some { T with children := pid :: T.children })
    ({ st with task := Function.update task pid (some child) }, some child)
  else ({ st with task := Function.update st.task pid none }, none)

def taskDestroy (st : State) (pid : Nat) : State :=
  match (st.task pid).bind Task.parent with
  | none => { st with task := Function.update st.task pid none }
  | some p =>
    let task := Function.update st.task p ((st.task p).map fun P => { P with children := P.children.erase pid })
    { st with task := Function.update task pid none }

/-! ## Releases -/

/-- `mm_release`, and a crash without one. -/
def mmRelease (st : State) (mm : Option Nat) : Option State :=
  match mm with
  | none => none
  | some a =>
    match st.mm.dies a with
    | none => some { st with mm := st.mm.drop a }
    | some M => some { st with mm := st.mm.drop a, fd := st.fd.dropAll [M.exefile] }

def fdtableRelease (st : State) (a : Nat) : State :=
  match st.files.dies a with
  | none => { st with files := st.files.drop a }
  | some F => { st with files := st.files.drop a, fd := st.fd.dropAll (F.files.filterMap id) }

def fsInfoRelease (st : State) (a : Nat) : State :=
  match st.fs.dies a with
  | none => { st with fs := st.fs.drop a }
  | some I => { st with fs := st.fs.drop a, fd := st.fd.dropAll [I.pwd, I.root] }

def sighandRelease (st : State) (a : Nat) : State := { st with sighand := st.sighand.drop a }

/-- `task_leave_session`, and what else a group has that is left without threads. -/
def releaseGroup (st : State) (g : Nat) (G : Tgroup) : Option State :=
  let st := { st with groups := st.groups.remove g }
  match G.tty with
  | none => some st
  | some y =>
    if st.pidEmpty G.sid then none
    else
      let tty := if st.groups.sessions G.sid = [] then st.tty.modify y fun _ => 0 else st.tty
      some { st with tty := tty.drop y }

def leaveGroup (st : State) (pid g : Nat) : Option State :=
  match st.groups.group g with
  | none => none
  | some G =>
    let threads := G.threads.erase pid
    if threads = [] then st.releaseGroup g G else some { st with groups := st.groups.setThreads g threads }

def taskDiscardUnstarted (st : State) (pid : Nat) (child : Task) : Option State :=
  match st.mmRelease child.mm with
  | none => none
  | some st =>
    let st := ((st.fdtableRelease child.files).fsInfoRelease child.fs).sighandRelease child.sighand
    (st.leaveGroup pid child.group).map fun st => st.taskDestroy pid

end State

/-! ## Copies -/

/-- How a part of `copy_task` ends. -/
inductive Copied
  | ok (st : State) (child : Task)
  | fails (err : Int) (st : State)
  | crash

namespace Copied

def bind (r : Copied) (next : State → Task → Copied) : Copied :=
  match r with
  | ok st child => next st child
  | fails err st => fails err st
  | crash => crash

def orElse (r : Copied) (undo : State → Option State) : Copied :=
  match r with
  | fails err st =>
    match undo st with
    | none => crash
    | some st => fails err st
  | r => r

end Copied

namespace State

def copyMm (st : State) (child : Task) (call : Call) (host : Host) : Copied :=
  match child.mm with
  | none => .crash
  | some a =>
    if call.has cloneVm then .ok { st with mm := st.mm.retain a } child
    else
      match st.mm.val a with
      | none => .crash
      | some M =>
        match st.mm.fresh host.mm with
        | none => .ok st { child with mm := none }
        | some new =>
          .ok { st with mm := st.mm.alloc new M, fd := st.fd.retainAll [M.exefile] } { child with mm := some new }

def copyFiles (st : State) (child : Task) (call : Call) (host : Host) : Copied :=
  if call.has cloneFiles then .ok { st with files := st.files.retain child.files } child
  else
    match st.files.val child.files with
    | none => .crash
    | some F =>
      match st.files.fresh host.files with
      | none => .fails eNOMEM st
      | some new =>
        .ok { st with files := st.files.alloc new F, fd := st.fd.retainAll (F.files.filterMap id) }
          { child with files := new }

def copyFs (st : State) (child : Task) (call : Call) (host : Host) : Copied :=
  if call.has cloneFs then .ok { st with fs := st.fs.retain child.fs } child
  else
    match st.fs.val child.fs with
    | none => .crash
    | some I =>
      match st.fs.fresh host.fs with
      | none => .crash
      | some new =>
        .ok { st with fs := st.fs.alloc new I, fd := st.fd.retainAll [I.pwd, I.root] } { child with fs := new }

def copySighand (st : State) (child : Task) (call : Call) (host : Host) : Copied :=
  if call.has cloneSighand then .ok { st with sighand := st.sighand.retain child.sighand } child
  else
    match st.sighand.val child.sighand with
    | none => .crash
    | some H =>
      match st.sighand.fresh host.sighand with
      | none => .fails eNOMEM st
      | some new => .ok { st with sighand := st.sighand.alloc new H } { child with sighand := new }

/-- `tgroup_copy`, with memory at `new` if that is free. -/
def tgroupCopy (st : State) (pid : Nat) (child : Task) (G : Tgroup) (new : Nat) : Copied :=
  if h : st.groups.group child.group = some G ∧ st.groups.group new = none then
    let tty := match G.tty with
      | none => st.tty
      | some y => st.tty.retain y
    .ok { st with groups := st.groups.copy child.group new pid G h, tty := tty } { child with group := new, tgid := pid }
  else .crash

def linkGroup (st : State) (pid : Nat) (child : Task) (call : Call) (host : Host) : Copied :=
  let child := if call.has cloneVm && !call.has cloneVfork then { child with altstack := 0, altstackSize := 0 } else child
  match st.groups.group child.group with
  | none => .crash
  | some G =>
    if call.has cloneThread then
      .ok { st with groups := st.groups.setThreads child.group (pid :: G.threads) } child
    else
      match host.group with
      | none => .crash
      | some new => st.tgroupCopy pid child G new

def writable (st : State) (mm : Option Nat) (addr : Nat) : Option Bool :=
  (mm.bind st.mm.val).map fun M => M.writable addr

/-- The end of `copy_task`. -/
def setTids (st : State) (T child : Task) (call : Call) : Copied :=
  let child := if call.has cloneSettls then { child with tls := call.tls } else child
  match if call.has cloneChildSettid then st.writable child.mm call.ctid else some true with
  | none => .crash
  | some false => .fails eFAULT st
  | some true =>
    match if call.has cloneParentSettid then st.writable T.mm call.ptid else some true with
    | none => .crash
    | some false => .fails eFAULT st
    | some true =>
      let clearTid := if call.has cloneChildCleartid then call.ctid else child.clearTid
      .ok st { child with clearTid := clearTid, exitSignal := call.flags &&& csignal }

def copyTask (st : State) (T : Task) (pid : Nat) (child : Task) (call : Call) (host : Host) : Copied :=
  let child := if call.stack ≠ 0 then { child with sp := call.stack } else child
  (st.copyMm child call host).bind fun st child =>
    ((st.copyFiles child call host).bind fun st child =>
      ((st.copyFs child call host).bind fun st child =>
        ((st.copySighand child call host).bind fun st child =>
          ((st.linkGroup pid child call host).bind fun st child =>
            st.setTids T child call).orElse fun st => some (st.sighandRelease child.sighand)
        ).orElse fun st => some (st.fsInfoRelease child.fs)
      ).orElse fun st => some (st.fdtableRelease child.files)
    ).orElse fun st => st.mmRelease child.mm

end State

/-! ## The call -/

inductive Outcome
  | returns (pid : Nat) (st : State)
  | fails (err : Int) (st : State)
  | crash
  /-- All slots of the table are in use. -/
  | hangs

def Call.allowed (call : Call) : Bool :=
  call.flags &&& ~~~csignal &&& ~~~implementedFlags == 0 &&
    !(call.has cloneSighand && !call.has cloneVm) && !(call.has cloneThread && !call.has cloneSighand)

/-- `sys_clone` by a task `t`, which is `T`, with the cursor of the table. -/
def sysClone (st : State) (t : Nat) (T : Task) (cur : Nat) (call : Call) (host : Host) : Outcome :=
  if call.allowed = false then .fails eINVAL st
  else
    match st.freePid cur with
    | none => .hangs
    | some pid =>
      match st.taskCreate t T pid host.task with
      | (st, none) => .fails eNOMEM st
      | (st, some child) =>
        match st.copyTask T pid child call host with
        | .crash => .crash
        | .fails err st => .fails err (st.taskDestroy pid)
        | .ok st child =>
          let child := { child with retval := 0 }
          let discard (err : Int) : Outcome :=
            match st.taskDiscardUnstarted pid child with
            | none => .crash
            | some st => .fails err st
          match host.start with
          | .ok => .returns pid { st with task := Function.update st.task pid (some child) }
          | .again => discard eAGAIN
          | .fails => discard eNOMEM

/-! ## Failures without a trace -/

/-- A task that has all it needs. -/
structure Whole (st : State) (T : Task) where
  mm : Nat
  space : Mm
  table : Fdtable
  info : FsInfo
  hand : Sighand
  group : Tgroup
  mm_eq : T.mm = some mm
  space_eq : st.mm.val mm = some space
  table_eq : st.files.val T.files = some table
  info_eq : st.fs.val T.fs = some info
  hand_eq : st.sighand.val T.sighand = some hand
  group_eq : st.groups.group T.group = some group

/-- A task that can call, one of the threads of its group. -/
structure Caller (st : State) where
  pid : Nat
  task : Task
  whole : Whole st task
  task_eq : st.task pid = some task
  mem : pid ∈ whole.group.threads

/-- There is memory for all that is copied. -/
structure Copyable (st : State) (call : Call) (host : Host) : Prop where
  mm : call.has cloneVm = true ∨ st.mm.fresh host.mm ≠ none
  files : call.has cloneFiles = true ∨ st.files.fresh host.files ≠ none
  fs : call.has cloneFs = true ∨ st.fs.fresh host.fs ≠ none
  sighand : call.has cloneSighand = true ∨ st.sighand.fresh host.sighand ≠ none
  group : call.has cloneThread = true ∨ ∃ new, host.group = some new ∧ st.groups.group new = none

/-- The call gets as far as the tids: the flags are allowed, and there is a slot and memory. -/
structure Reaches (st : State) (cur : Nat) (call : Call) (host : Host) : Prop extends Copyable st call host where
  allowed : call.allowed = true
  slot : st.freePid cur ≠ none
  task : host.task = true

def Writes (M : Mm) (call : Call) : Prop :=
  (call.has cloneChildSettid = true → M.writable call.ctid = true) ∧
    (call.has cloneParentSettid = true → M.writable call.ptid = true)

/-- A call that gets as far as the tids can write those it is asked for. -/
def Fine (st : State) (caller : Caller st) (cur : Nat) (call : Call) (host : Host) : Prop :=
  Reaches st cur call host → Writes caller.whole.space call

end IosLinuxkit.Clone
