import Mathlib.Data.List.Basic

/-!
# Signals to a process group

`kill_task`, `kill_group`, `kill_everything` and `do_kill` of `kernel/signal.c`, on the table of
`kernel/task.c`. What is noted of a call is its error, the calls of `send_signal` and what it does with
`pids_lock`.

* **`killMembers_spec`** — the loop over the members is right.
* **`kill_group_iff`** — a call that names a group is right when the group has members, unless it is the
  caller's own and has the number 1.
-/

namespace IosLinuxkit.Kill

def ePERM : Int := -1
def eSRCH : Int := -3
def eINVAL : Int := -22

def maxPid : Nat := 32768
def numSigs : Nat := 64

/-- `struct task`; `leader` is `task_is_leader`. -/
structure Task where
  pid : Nat
  tgid : BitVec 32
  uid : BitVec 32
  suid : BitVec 32
  zombie : Bool
  leader : Bool
  deriving DecidableEq

/-- `struct pid`. Of the thread groups on the list `pgroup` it has the leaders. -/
structure Slot where
  task : Option Task
  session : List Nat
  pgroup : List Task

/-- `pids`, and what is read of `current`. A process group has a positive number. -/
structure State where
  pids : Fin (maxPid + 1) → Slot
  pid : Nat
  uid : BitVec 32
  euid : BitVec 32
  pgid : BitVec 32
  pgid_pos : 0 < pgid.toInt

/-- A call of `send_signal`, with what it puts in `struct siginfo_`. -/
structure Delivery where
  task : Task
  sig : BitVec 32
  code : Int
  pid : Nat
  uid : BitVec 32
  deriving DecidableEq

inductive LockOp
  | lock
  | unlock
  deriving DecidableEq

structure Result where
  err : Int
  sent : List Delivery
  locks : List LockOp
  deriving DecidableEq

/-! ## The table -/

/-- `pid_empty` -/
def Slot.empty (slot : Slot) : Bool := slot.task.isNone && slot.session.isEmpty && slot.pgroup.isEmpty

namespace State

/-- `pid_get`. Without a result, it reads behind the table. -/
def pidGet (st : State) (id : Nat) : Option (Option Slot) :=
  if id > maxPid + 1 then some none
  else if h : id < maxPid + 1 then
    some (if (st.pids ⟨id, h⟩).empty then none else some (st.pids ⟨id, h⟩))
  else none

def pidGetTask (st : State) (id : Nat) : Option (Option Task) :=
  (st.pidGet id).map fun slot => (slot.bind Slot.task).filter fun task => !task.zombie

/-! ## The functions -/

/-- `superuser` and the other conditions of `kill_task`. -/
def may (st : State) (task : Task) : Bool :=
  st.euid == 0 || st.uid == task.uid || st.uid == task.suid || st.euid == task.uid || st.euid == task.suid

def delivery (st : State) (sig : BitVec 32) (code : Int) (task : Task) : Delivery :=
  ⟨task, sig, code, st.pid, st.uid⟩

def killTask (st : State) (sig : BitVec 32) (code : Int) (task : Task) : Int × List Delivery :=
  if st.may task then (0, [st.delivery sig code task]) else (ePERM, [])

/-- The loop of `kill_group` and of `kill_everything`. -/
def killMembers (st : State) (sig : BitVec 32) (code : Int) (err : Int) : List Task → Int × List Delivery
  | [] => (err, [])
  | task :: tasks =>
    let (killErr, sent) := st.killTask sig code task
    -- killing a group should return an error only if no process can be signaled
    let (err, rest) := st.killMembers sig code (if err = ePERM then killErr else err) tasks
    (err, sent ++ rest)

/-- `kill_group`. The lock is its caller's. -/
def killGroup (st : State) (pgid : BitVec 32) (sig : BitVec 32) (code : Int) : Option Result :=
  (st.pidGet pgid.toNat).map fun
    | none => ⟨eSRCH, [], [.unlock]⟩
    | some slot =>
      let (err, sent) := st.killMembers sig code ePERM slot.pgroup
      ⟨err, sent, []⟩

/-- The tasks that `kill_everything` does not pass over. -/
def everyone (st : State) : List Task :=
  (List.range' 2 (maxPid - 2)).filterMap fun i =>
    (st.pidGetTask i).join.filter fun task => task.pid != st.pid && task.leader

def killEverything (st : State) (sig : BitVec 32) (code : Int) : Result :=
  let (err, sent) := st.killMembers sig code ePERM st.everyone
  ⟨err, sent, []⟩

/-- The last lines of `do_kill`, after those that took the lock. -/
def locked (r : Result) : Result := { r with locks := .lock :: r.locks ++ [.unlock] }

/-- The branch of `do_kill` for a task; its early returns unlock as well. -/
def killOne (st : State) (id : Nat) (sig tgid : BitVec 32) (code : Int) : Option Result :=
  (st.pidGetTask id).map fun
    | none => ⟨eSRCH, [], []⟩
    | some task =>
      if tgid ≠ 0 ∧ task.tgid ≠ tgid then ⟨eSRCH, [], []⟩
      else
        let (err, sent) := st.killTask sig code task
        ⟨err, sent, []⟩

/-- What `do_kill` takes the pid for. -/
def target (st : State) (pid : BitVec 32) : BitVec 32 := if pid = 0 then -st.pgid else pid

/-- `do_kill`. Without a result, it read behind the table. -/
def doKill (st : State) (pid sig tgid : BitVec 32) (code : Int) : Option Result :=
  if numSigs ≤ sig.toNat then some ⟨eINVAL, [], []⟩
  else if st.target pid = -1 then some (locked (st.killEverything sig code))
  else if (st.target pid).slt 0 then (st.killGroup (-st.target pid) sig code).map locked
  else (st.killOne (st.target pid).toNat sig tgid code).map locked

/-! ## What is right -/

/-- The leaders of the thread groups of a process group. -/
def members (st : State) (pgid : BitVec 32) : List Task :=
  if h : pgid.toNat < maxPid + 1 then (st.pids ⟨pgid.toNat, h⟩).pgroup else []

end State

/-- A pid names a process group when it is zero or below -1. -/
def NamesGroup (pid : BitVec 32) : Prop := pid = 0 ∨ pid.toInt < -1

def State.named (st : State) (pid : BitVec 32) : BitVec 32 := if pid = 0 then st.pgid else -pid

/-- The error of a call for the tasks `tasks`, and the tasks that get the signal. -/
structure Answers (st : State) (sig : BitVec 32) (code : Int) (tasks : List Task) (err : Int)
    (sent : List Delivery) : Prop where
  sent : ∀ d, d ∈ sent ↔ ∃ task ∈ tasks, st.may task ∧ d = st.delivery sig code task
  ok : err = 0 ↔ ∃ task ∈ tasks, st.may task
  perm : err = ePERM ↔ tasks ≠ [] ∧ ∀ task ∈ tasks, ¬st.may task
  srch : err = eSRCH ↔ tasks = []

/-- A call is right when its answer is that for the members and it released the lock once. A signal that
does not exist is refused before all that. -/
def Reports (st : State) (pid sig : BitVec 32) (code : Int) (r : Option Result) : Prop :=
  ∃ res, r = some res ∧ if numSigs ≤ sig.toNat then res = ⟨eINVAL, [], []⟩
    else Answers st sig code (st.members (st.named pid)) res.err res.sent ∧ res.locks = [.lock, .unlock]

variable {st : State} {pid sig tgid : BitVec 32} {code : Int}

/-! ## The loop -/

/-- What a loop over tasks comes to when it begins with the error of nobody who can be signalled. -/
def permitted (st : State) (tasks : List Task) : List Task := tasks.filter st.may

theorem mem_permitted {tasks : List Task} {task : Task} :
    task ∈ permitted st tasks ↔ task ∈ tasks ∧ st.may task := by
  simp [permitted]

theorem killMembers_spec (tasks : List Task) (err : Int) : st.killMembers sig code err tasks =
      (if err = ePERM then (if (permitted st tasks).isEmpty then ePERM else 0) else err,
        (permitted st tasks).map (st.delivery sig code)) := by
  induction tasks generalizing err with
  | nil => simp [State.killMembers, permitted]
  | cons task tasks ih =>
    simp only [State.killMembers, State.killTask, ih]
    cases hmay : st.may task with
    | false =>
      -- who may not be signalled changes neither the error nor the list
      have herr : (if err = ePERM then ePERM else err) = err := by
        split
        case isTrue heq => exact heq.symm
        case isFalse => rfl
      simp [permitted, hmay, herr]
    | true =>
      -- the first that may be signalled ends the search for an error
      have hzero : (0 : Int) ≠ ePERM := by decide
      simp only [permitted, hmay, if_true, List.filter_cons_of_pos, List.map_cons, List.cons_append,
        List.nil_append, List.isEmpty_cons, Bool.false_eq_true, if_false, Prod.mk.injEq, and_true]
      by_cases herr : err = ePERM
      · simp only [if_pos herr, if_neg hzero]
      · simp only [if_neg herr]

theorem permitted_eq_nil {tasks : List Task} :
    permitted st tasks = [] ↔ ∀ task ∈ tasks, ¬st.may task := by
  simp [permitted]

theorem answers_iff (st : State) (sig : BitVec 32) (code : Int) (tasks others : List Task) :
    Answers st sig code tasks (st.killMembers sig code ePERM others).1
        (st.killMembers sig code ePERM others).2 ↔
      tasks ≠ [] ∧ ∀ task, task ∈ permitted st others ↔ task ∈ permitted st tasks := by
  have hsrch : (0 : Int) ≠ eSRCH ∧ ePERM ≠ eSRCH ∧ (0 : Int) ≠ ePERM := by decide
  simp only [killMembers_spec, if_true]
  constructor
  · intro h
    refine ⟨fun hnil => ?_, fun task => ?_⟩
    · -- the error is zero or `EPERM`
      have herr := h.srch.mpr hnil
      split at herr
      · exact hsrch.2.1 herr
      · exact hsrch.1 herr
    have hmem := h.sent (st.delivery sig code task)
    constructor
    · intro hin
      obtain ⟨task', hin', hmay, heq⟩ := hmem.mp (List.mem_map_of_mem hin)
      rw [show task = task' from congrArg Delivery.task heq]
      exact mem_permitted.mpr ⟨hin', hmay⟩
    intro hin
    obtain ⟨hin', hmay⟩ := mem_permitted.mp hin
    obtain ⟨task', hin'', heq⟩ := List.mem_map.mp (hmem.mpr ⟨task, hin', hmay, rfl⟩)
    rwa [show task = task' from congrArg Delivery.task heq.symm]
  rintro ⟨hne, hsame⟩
  -- nobody is permitted on one list exactly when nobody is on the other
  have hnil : permitted st others = [] ↔ ∀ task ∈ tasks, ¬st.may task := by
    simp only [← permitted_eq_nil, List.eq_nil_iff_forall_not_mem, hsame]
  have hsome : permitted st others ≠ [] ↔ ∃ task ∈ tasks, st.may task := by
    simp only [ne_eq, hnil, not_forall, not_not, exists_prop]
  have hsent (d : Delivery) : d ∈ (permitted st others).map (st.delivery sig code) ↔
      ∃ task ∈ tasks, st.may task ∧ d = st.delivery sig code task := by
    simp only [List.mem_map, hsame, mem_permitted, and_assoc, eq_comm]
  split
  case isTrue hnone =>
    have hall := hnil.mp (List.isEmpty_iff.mp hnone)
    exact ⟨hsent, by simpa [hsrch.2.2.symm] using hall, by simpa [hne] using hall, by simpa [hsrch.2.1] using hne⟩
  case isFalse hnot =>
    have hex := hsome.mp (mt List.isEmpty_iff.mpr hnot)
    have hall : ¬∀ task ∈ tasks, ¬st.may task := fun hall => hnot (List.isEmpty_iff.mpr (hnil.mpr hall))
    exact ⟨hsent, by simpa using hex, by simpa only [hsrch.2.2, false_iff, not_and] using fun _ => hall,
      by simpa [hsrch.1] using hne⟩

/-! ## The group that is named -/

theorem neg_slt_of_pos {x : BitVec 32} (h : 0 < x.toInt) : (-x).slt 0 = true := by
  rw [BitVec.slt_iff_toInt_lt, BitVec.toInt_neg]
  have hlt := @BitVec.toInt_lt 32 x
  rw [Int.bmod_eq_of_le (by omega) (by omega)]
  simp
  omega

theorem target_spec (st : State) (hnames : NamesGroup pid) :
    (st.target pid).slt 0 = true ∧ -st.target pid = st.named pid := by
  unfold State.target State.named
  split
  case isTrue hzero => exact ⟨neg_slt_of_pos st.pgid_pos, BitVec.neg_neg⟩
  case isFalse hzero =>
    have hlt : pid.toInt < -1 := hnames.resolve_left hzero
    refine ⟨?_, rfl⟩
    rw [BitVec.slt_iff_toInt_lt]
    simp
    omega

theorem killGroup_iff (st : State) (pgid sig : BitVec 32) (code : Int) :
    (∃ res, (st.killGroup pgid sig code).map State.locked = some res ∧
      Answers st sig code (st.members pgid) res.err res.sent ∧ res.locks = [.lock, .unlock]) ↔
      st.members pgid ≠ [] := by
  unfold State.killGroup State.pidGet State.members
  by_cases hid : pgid.toNat < maxPid + 1
  · rw [if_neg (by omega), dif_pos hid, dif_pos hid]
    generalize st.pids ⟨pgid.toNat, hid⟩ = slot
    split
    case isTrue hempty =>
      have hnil : slot.pgroup = [] := by simpa [Slot.empty] using (Bool.and_eq_true_iff.mp hempty).2
      simp [State.locked, hnil]
    case isFalse hslot =>
      -- the members are the tasks of the loop, so they are the same
      have hanswers := answers_iff st sig code slot.pgroup slot.pgroup
      simp [State.locked, hanswers]
  rw [dif_neg hid]
  split
  case isTrue hgt => simp [State.locked]
  case isFalse hle => simp

/-- **Signals to a group.** A call that names a group is right exactly when the signal does not exist, or when
the group has members; and if the number of the caller's group makes the call one for everybody, when those
that `kill_everything` signals are the same. -/
theorem kill_group_iff (st : State) (pid sig tgid : BitVec 32) (code : Int) (hnames : NamesGroup pid) :
    Reports st pid sig code (st.doKill pid sig tgid code) ↔
      numSigs ≤ sig.toNat ∨ st.members (st.named pid) ≠ [] ∧
        (st.target pid = -1 → ∀ task, task ∈ permitted st st.everyone ↔
          task ∈ permitted st (st.members (st.named pid))) := by
  obtain ⟨hslt, hneg⟩ := target_spec st hnames
  unfold Reports State.doKill
  by_cases hsig : numSigs ≤ sig.toNat
  · simp [hsig]
  simp only [hsig, if_false, false_or]
  by_cases hall : st.target pid = -1
  · -- the caller's own group has the number 1
    simp only [hall, if_true, true_implies, Option.some.injEq, exists_eq_left', State.locked,
      State.killEverything, List.cons_append, List.nil_append, and_true]
    exact answers_iff st sig code (st.members (st.named pid)) st.everyone
  · simp only [hall, if_false, false_implies, and_true, hslt, if_true, hneg]
    exact killGroup_iff st (st.named pid) sig code

/-! ## Groups with and without members -/

theorem two_pos : 0 < (2 : BitVec 32).toInt := by decide

/-- A task with the pid 2 that leads the group 2, and nobody else. -/
def alone : State where
  pids i := if i.val = 2 then ⟨some ⟨2, 2, 0, 0, false, true⟩, [2], [⟨2, 2, 0, 0, false, true⟩]⟩ else ⟨none, [], []⟩
  pid := 2
  uid := 0
  euid := 0
  pgid := 2
  pgid_pos := two_pos

theorem kill_group_own : Reports alone 0 15 0 (alone.doKill 0 15 0 0) ↔
      numSigs ≤ (15 : BitVec 32).toNat ∨ alone.members (alone.named 0) ≠ [] ∧
        (alone.target 0 = -1 → ∀ task, task ∈ permitted alone alone.everyone ↔
          task ∈ permitted alone (alone.members (alone.named 0))) :=
  kill_group_iff alone 0 15 0 0 (Or.inl rfl)

/-- `kill(-5, SIGTERM)`, where there is no group 5, releases `pids_lock` twice. -/
theorem kill_group_absent :
    NamesGroup (-5) ∧ alone.doKill (-5) 15 0 0 = some ⟨eSRCH, [], [.lock, .unlock, .unlock]⟩ ∧
      ¬Reports alone (-5) 15 0 (alone.doKill (-5) 15 0 0) := by
  have hcall : alone.doKill (-5) 15 0 0 = some ⟨eSRCH, [], [.lock, .unlock, .unlock]⟩ := by decide
  refine ⟨Or.inr (by decide), hcall, fun hreports => ?_⟩
  obtain ⟨res, hres, hok⟩ := hreports
  rw [hcall] at hres
  cases hres
  exact absurd hok.2 (by decide)

end IosLinuxkit.Kill
