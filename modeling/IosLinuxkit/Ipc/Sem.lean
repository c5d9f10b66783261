import Mathlib.Data.Nat.Notation
import IosLinuxkit.Lib.Run

/-!
# System V semaphores

`kernel/ipc.c`: the semaphore sets, `semget`, `semctl` and `semtimedop`. Every call runs under
`shm_lock`. `sys_semtimedop` releases it while it sleeps and tries again when it is woken, and
`SETALL` releases it while it reads the new values, so both are cut there.
-/

namespace IosLinuxkit.Ipc

def eNOENT : Int := -2
def eAGAIN : Int := -11
def eNOMEM : Int := -12
def eFAULT : Int := -14
def eEXIST : Int := -17
def eINVAL : Int := -22
def eFBIG : Int := -27

/-- `struct semop_`; of the flags only `IPC_NOWAIT_` is looked at. -/
structure SemBuf where
  num : Nat
  op : Int
  nowait : Bool
  deriving DecidableEq, Repr

/-- `struct sem_set`. Both arrays have `nsems` elements. -/
structure SemSet where
  id : Nat
  key : Int
  values : List Nat
  pids : List Nat
  deriving DecidableEq, Repr

def SemSet.nsems (set : SemSet) : Nat := set.values.length

/-- A call of `semtimedop` that sleeps. -/
structure SemCall where
  pid : Nat
  semid : Nat
  ops : List SemBuf
  deriving DecidableEq, Repr

structure Sems where
  sets : List SemSet
  nextId : Nat
  sleeping : List SemCall
  deriving DecidableEq, Repr

def Sems.init : Sems := ⟨[], 1, []⟩

/-! ## Lookups -/

def semFindId (sets : List SemSet) (semid : Nat) : Option SemSet := sets.find? (·.id = semid)

def semFindKey (sets : List SemSet) (key : Int) : Option SemSet := sets.find? (·.key = key)

/-- Writes to the set that `semFindId` finds. -/
def withSet (semid : Nat) (f : SemSet → SemSet) : List SemSet → List SemSet
  | [] => []
  | set :: sets => if set.id = semid then f set :: sets else set :: withSet semid f sets

/-- Unlinks the set that `semFindId` finds. -/
def dropSet (semid : Nat) : List SemSet → List SemSet
  | [] => []
  | set :: sets => if set.id = semid then sets else set :: dropSet semid sets

/-! ## semtimedop -/

/-- The conversion to `unsigned short`. -/
def toShort (x : Int) : Nat := (x % 65536).toNat

/-- The first pass of `sem_try_apply`. It compares with the values at the start. -/
def semTest (values : List Nat) : List SemBuf → Int
  | [] => 0
  | b :: ops =>
    match values[b.num]? with
    | none => eFBIG
    | some val =>
      if b.op < 0 ∧ (val : Int) < -b.op then eAGAIN
      else if b.op = 0 ∧ val ≠ 0 then eAGAIN
      else semTest values ops

/-- The second pass of `sem_try_apply`. -/
def semApply (pid : Nat) (set : SemSet) : List SemBuf → SemSet
  | [] => set
  | b :: ops =>
    semApply pid
      { set with
        values := set.values.modify b.num (fun v => toShort (v + b.op))
        pids := set.pids.set b.num pid }
      ops

def semTryApply (set : SemSet) (ops : List SemBuf) (pid : Nat) : Int × SemSet :=
  let err := semTest set.values ops
  if err = 0 then (0, semApply pid set ops) else (err, set)

/-- One round of the loop in `sys_semtimedop`: what the call returns, or nothing when it goes to
sleep. -/
def semAttempt (st : Sems) (c : SemCall) : Option Int × Sems :=
  match semFindId st.sets c.semid with
  | none => (some eINVAL, st)
  | some set =>
    let (err, set') := semTryApply set c.ops c.pid
    if err = 0 then (some 0, { st with sets := withSet c.semid (fun _ => set') st.sets })
    else if err ≠ eAGAIN ∨ c.ops.any SemBuf.nowait then (some err, st)
    else (none, st)

/-- `sys_semtimedop` up to its first sleep. `fault` and `memory` are the outcomes of `user_read` and
`malloc`. -/
def semtimedop (st : Sems) (c : SemCall) (memory fault : Bool) : Option Int × Sems :=
  if c.ops.length = 0 ∨ 1024 < c.ops.length then (some eINVAL, st)
  else if !memory then (some eNOMEM, st)
  else if fault then (some eFAULT, st)
  else
    match semAttempt st c with
    | (some err, st) => (some err, st)
    | (none, st) => (none, { st with sleeping := c :: st.sleeping })

def semWake (st : Sems) (c : SemCall) : Option Int × Sems :=
  if c ∈ st.sleeping then
    match semAttempt st c with
    | (some err, st) => (some err, { st with sleeping := st.sleeping.erase c })
    | (none, st) => (none, st)
  else (none, st)

/-! ## semget and semctl -/

/-- `sys_semget`. -/
def semget (st : Sems) (key nsems : Int) (creat excl memory : Bool) : Int × Sems :=
  match if key = 0 then none else semFindKey st.sets key with
  | some set =>
    if creat ∧ excl then (eEXIST, st)
    else if 0 < nsems ∧ (set.nsems : Int) < nsems then (eINVAL, st)
    else (set.id, st)
  | none =>
    if key ≠ 0 ∧ !creat then (eNOENT, st)
    else if nsems ≤ 0 then (eINVAL, st)
    else if !memory then (eNOMEM, st)
    else
      let set : SemSet :=
        ⟨st.nextId, key, List.replicate nsems.toNat 0, List.replicate nsems.toNat 0⟩
      -- `next_semid++`, with 1 after the largest `int`
      let next := if st.nextId + 1 < 2147483648 then st.nextId + 1 else 1
      (st.nextId, { st with nextId := next, sets := set :: st.sets })

/-- The commands of `semctl` that look at one semaphore or at the set, `SETALL` up to the place where
it reads its values. -/
inductive SemCmd where
  | rmid
  | getval
  | setval (arg : Nat)
  | getpid
  | getncnt
  | getzcnt
  | getall (memory fault : Bool)
  | setall (memory : Bool)
  | stat
  | set
  | other
  deriving DecidableEq, Repr

/-- `sys_semctl`. -/
def semctl (st : Sems) (pid semid : Nat) (semnum : Int) (cmd : SemCmd) : Int × Sems :=
  match semFindId st.sets semid with
  | none => (eINVAL, st)
  | some s =>
    if cmd = .rmid then (0, { st with sets := dropSet semid st.sets })
    else if semnum < 0 ∨ (s.nsems : Int) ≤ semnum then (eINVAL, st)
    else
      match cmd with
      | .rmid | .other => (eINVAL, st)
      | .getval => ((s.values[semnum.toNat]?.getD 0 : Nat), st)
      | .setval arg =>
        (0, { st with sets := withSet semid (fun s =>
          { s with
            values := s.values.set semnum.toNat (toShort arg)
            pids := s.pids.set semnum.toNat pid }) st.sets })
      | .getpid => ((s.pids[semnum.toNat]?.getD 0 : Nat), st)
      | .getncnt | .getzcnt | .stat | .set => (0, st)
      | .getall memory fault => (if !memory then eNOMEM else if fault then eFAULT else 0, st)
      | .setall memory => (if !memory then eNOMEM else 0, st)

/-- The second half of `SETALL`: the set is looked up again and filled with the values that were
read. -/
def semSetAll (st : Sems) (pid semid : Nat) (vals : Nat → Nat) : Int × Sems :=
  match semFindId st.sets semid with
  | none => (eINVAL, st)
  | some _ =>
    (0, { st with sets := withSet semid (fun s =>
      { s with
        values := (List.range s.nsems).map (fun i => toShort (vals i))
        pids := List.replicate s.nsems pid }) st.sets })

/-! ## Runs -/

inductive SemOp where
  | semget (key nsems : Int) (creat excl memory : Bool)
  | semctl (pid semid : Nat) (semnum : Int) (cmd : SemCmd)
  | setAll (pid semid : Nat) (vals : Nat → Nat)
  | semtimedop (c : SemCall) (memory fault : Bool)
  | wake (c : SemCall)
  /-- A timeout or a signal. -/
  | giveUp (c : SemCall)

def semStep (st : Sems) : SemOp → Sems
  | .semget key nsems creat excl memory => (semget st key nsems creat excl memory).2
  | .semctl pid semid semnum cmd => (semctl st pid semid semnum cmd).2
  | .setAll pid semid vals => (semSetAll st pid semid vals).2
  | .semtimedop c memory fault => (semtimedop st c memory fault).2
  | .wake c => (semWake st c).2
  | .giveUp c => { st with sleeping := st.sleeping.erase c }

/-! ## What ought to happen -/

def semVmx : Nat := 32767

/-- An operation that can be carried out at this value. -/
def Admits (val op : Int) : Prop :=
  (0 < op → val + op ≤ semVmx) ∧ (op < 0 → 0 ≤ val + op) ∧ (op = 0 → val = 0)

instance (val op : Int) : Decidable (Admits val op) := by
  unfold Admits
  infer_instance

/-- The operations one after another, each on the values that the ones before it left. -/
def inSequence (values : List Nat) : List SemBuf → Option (List Nat)
  | [] => some values
  | b :: ops =>
    match values[b.num]? with
    | none => none
    | some val =>
      if Admits val b.op then inSequence (values.set b.num ((val : Int) + b.op).toNat) ops else none

/-- A round of `semtimedop` applies the whole list, or changes nothing. -/
def Atomic (st : Sems) (c : SemCall) : Prop :=
  if (semAttempt st c).1 = some 0 then
    ∃ set set', semFindId st.sets c.semid = some set ∧
      inSequence set.values c.ops = some set'.values ∧
      (semAttempt st c).2 = { st with sets := withSet c.semid (fun _ => set') st.sets }
  else (semAttempt st c).2 = st

def InRange (st : Sems) : Prop := ∀ set ∈ st.sets, ∀ v ∈ set.values, v ≤ semVmx

/-! ## When it does -/

def total (num : Nat) : List SemBuf → Int
  | [] => 0
  | b :: ops => (if b.num = num then b.op else 0) + total num ops

/-- Each operation of a list that passes the test can also be carried out after the ones before it. -/
def Running (st : Sems) (c : SemCall) : Prop :=
  ∀ set, semFindId st.sets c.semid = some set → semTest set.values c.ops = 0 →
    ∀ before b after, c.ops = before ++ b :: after →
      ∀ val : Nat, set.values[b.num]? = some val → Admits (val + total b.num before) b.op

/-- Lists that can be carried out in sequence when they pass the test, and new values in range. -/
def Fits (st : Sems) : SemOp → Prop
  | .semtimedop c _ _ => Running st c
  | .wake c => Running st c
  | .semctl _ semid semnum (.setval arg) => ∀ set, semFindId st.sets semid = some set →
    0 ≤ semnum → semnum < set.nsems → toShort arg ≤ semVmx
  | .setAll _ semid vals => ∀ set, semFindId st.sets semid = some set →
    ∀ i < set.nsems, toShort (vals i) ≤ semVmx
  | _ => True

end IosLinuxkit.Ipc
