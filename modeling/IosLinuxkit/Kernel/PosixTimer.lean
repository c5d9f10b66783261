import IosLinuxkit.Lib.Run
import Mathlib.Logic.Function.Basic

/-!
# Timers of the guest

`kernel/time.c`: the table of timers of a thread group, and the five calls on it. A timer is an object on
the heap, which the slot of its id points to.

## Modelling

* A call is made under the lock of the group, so it is one step. An `Outcome` has the locks that are
  still held when the call returns; `none` is an access outside of the table, through a null pointer
  or to memory that is freed.
* What comes from outside is part of the call: the reads and writes of guest memory, the clocks,
  whether there is a task for a thread id, and what `malloc` returns.
* `owner` and `id` of a timer say which group created it under which id; the code has no such fields.
-/

namespace IosLinuxkit.PosixTimer

def eNOMEM : Int := -12
def eFAULT : Int := -14
def eINVAL : Int := -22

def timersMax : Nat := 16

/-! ## Time -/

structure Timespec where
  sec : Int
  nsec : Int
  deriving DecidableEq

namespace Timespec

/-- `timespec_add` -/
def add (x y : Timespec) : Timespec :=
  let nsec := x.nsec + y.nsec
  if nsec ≥ 1000000000 then ⟨x.sec + y.sec + 1, nsec - 1000000000⟩ else ⟨x.sec + y.sec, nsec⟩

/-- `timespec_subtract` -/
def subtract (x y : Timespec) : Timespec :=
  if x.nsec < y.nsec then ⟨x.sec - 1 - y.sec, x.nsec + 1000000000 - y.nsec⟩
  else ⟨x.sec - y.sec, x.nsec - y.nsec⟩

def isZero (ts : Timespec) : Bool := ts.sec == 0 && ts.nsec == 0

def positive (ts : Timespec) : Bool := ts.sec > 0 || (ts.sec == 0 && ts.nsec > 0)

end Timespec

/-- `struct timer_spec` -/
structure Spec where
  value : Timespec
  interval : Timespec
  deriving DecidableEq

inductive Clock
  | realtime
  | monotonic
  deriving DecidableEq

def clockidToReal (clock : BitVec 32) : Option Clock :=
  if clock = 0 ∨ clock = 5 then some .realtime
  else if clock = 1 ∨ clock = 4 ∨ clock = 6 ∨ clock = 7 then some .monotonic
  else none

/-! ## Timers -/

/-- `struct timer`, with the group and the id it was created for. -/
structure Timer where
  clockid : Clock
  start : Timespec
  expiry : Timespec
  interval : Timespec
  active : Bool
  owner : Nat
  id : Nat
  deriving DecidableEq

/-- `timer_set`: the old setting, and the timer behind it. -/
def timerSet (timer : Timer) (now : Timespec) (spec : Spec) : Spec × Timer :=
  (⟨timer.expiry.subtract now, timer.interval⟩, { timer with
      start := now
      expiry := now.add spec.value
      interval := spec.interval
      active := !spec.value.isZero })

/-- What `timer_thread` does when the timer expires. -/
def timerExpire (timer : Timer) : Timer :=
  if timer.active ∧ timer.interval.positive then
    { timer with start := timer.expiry, expiry := timer.expiry.add timer.interval }
  else timer

/-- `struct posix_timer` -/
structure Slot where
  timer : Option Nat
  timerId : Nat
  tgroup : Option Nat
  threadPid : BitVec 32
  signal : BitVec 32
  sigValue : BitVec 64
  deriving DecidableEq

def Slot.empty : Slot := ⟨none, 0, none, 0, 0, 0⟩

/-- The groups in use have the numbers below `groups`, and the objects allocated so far those below `fresh`. -/
structure State where
  table : Nat → Nat → Slot
  timers : Nat → Option Timer
  leader : Nat → BitVec 32
  fresh : Nat
  groups : Nat

namespace State

/-- `&group->posix_timers[timer_id]` -/
def slot (st : State) (g : Nat) (timerId : BitVec 32) : Option Slot :=
  if timerId.toNat < timersMax then some (st.table g timerId.toNat) else none

def setSlot (st : State) (g id : Nat) (slot : Slot) : State :=
  { st with table := Function.update st.table g (Function.update (st.table g) id slot) }

def setTimer (st : State) (h : Nat) (timer : Option Timer) : State :=
  { st with timers := Function.update st.timers h timer }

end State

/-! ## The calls -/

inductive Lock
  | pids
  | group
  deriving DecidableEq

/-- The end of a call: what it returns, what it writes to guest memory, and the locks it still holds. -/
structure Outcome where
  res : Int
  state : State
  held : List Lock
  id : Option Nat
  spec : Option Spec

def State.ret (st : State) (res : Int) : Outcome := ⟨res, st, [], none, none⟩

structure Sigevent where
  value : BitVec 64
  signo : BitVec 32
  method : BitVec 32
  tid : BitVec 32

def sigevSignal : BitVec 32 := 0
def sigevNone : BitVec 32 := 1
def sigevThreadId : BitVec 32 := 4

/-- What a `malloc` of a timer leaves in the fields that `timer_new` does not set. -/
structure Junk where
  start : Timespec
  expiry : Timespec
  interval : Timespec

/-- The arguments of `timer_create`. A `none` for `sigevent` is a null address, and one inside of it a
bad address. -/
structure CreateArgs where
  clock : BitVec 32
  sigevent : Option (Option Sigevent)
  put : Bool
  tidAlive : Bool
  memory : Option Junk

/-- The checks of `timer_create` on its arguments. -/
def CreateArgs.checked (a : CreateArgs) : Except Int (Clock × Sigevent) :=
  match clockidToReal a.clock, a.sigevent with
  | none, _ => .error eINVAL
  | some _, some none => .error eFAULT
  | some clock, none => .ok (clock, ⟨0, 14, sigevSignal, 0⟩)
  | some clock, some (some sigev) =>
    if sigev.method ≠ sigevSignal ∧ sigev.method ≠ sigevNone ∧ sigev.method ≠ sigevThreadId then .error eINVAL
    else .ok (clock, sigev)

def firstFree (table : Nat → Slot) : Option Nat := (List.range timersMax).find? fun id => (table id).timer.isNone

def timerNew (clock : Clock) (junk : Junk) (g id : Nat) : Timer :=
  ⟨clock, junk.start, junk.expiry, junk.interval, false, g, id⟩

def newSlot (st : State) (g id : Nat) (sigev : Sigevent) : Slot where
  timer := some st.fresh
  timerId := id
  tgroup := if sigev.method = sigevSignal ∨ sigev.method = sigevThreadId then some g else none
  threadPid :=
    if sigev.method = sigevSignal ∨ sigev.method = sigevThreadId then st.leader g else (st.table g id).threadPid
  signal := sigev.signo
  sigValue := sigev.value

def created (st : State) (g id : Nat) (clock : Clock) (sigev : Sigevent) (junk : Junk) : State :=
  { (st.setSlot g id (newSlot st g id sigev)).setTimer st.fresh (some (timerNew clock junk g id)) with
    fresh := st.fresh + 1 }

def sysTimerCreate (st : State) (g : Nat) (a : CreateArgs) : Option Outcome :=
  match a.checked with
  | .error err => some (st.ret err)
  | .ok (clock, sigev) =>
    -- the return for a thread that is not there leaves `pids_lock`
    if sigev.method = sigevThreadId ∧ a.tidAlive = false then some { st.ret eINVAL with held := [.pids] }
    else
      match firstFree (st.table g) with
      | none => some (st.ret eNOMEM)
      | some id =>
        if a.put = false then some (st.ret eFAULT)
        else
          match a.memory with
          | none => none
          | some junk => some { (created st g id clock sigev junk).ret 0 with id := some id }

/-- The arguments of `timer_settime`. The clocks are read twice; `oldValue` says whether the write
succeeds, where its address is not null. -/
structure SetArgs where
  abstime : Bool
  newValue : Option Spec
  oldValue : Option Bool
  now : Clock → Timespec
  later : Clock → Timespec

def SetArgs.spec (a : SetArgs) (value : Spec) (timer : Timer) : Spec :=
  if a.abstime then { value with value := value.value.subtract (a.now timer.clockid) } else value

def sysTimerSettime (st : State) (g : Nat) (timerId : BitVec 32) (a : SetArgs) : Option Outcome :=
  match a.newValue with
  | none => some (st.ret eFAULT)
  | some value =>
    if timerId.toNat > timersMax then some (st.ret eINVAL)
    else do
      let slot ← st.slot g timerId
      let h ← slot.timer
      let timer ← st.timers h
      let (oldSpec, timer) := timerSet timer (a.later timer.clockid) (a.spec value timer)
      let st := st.setTimer h (some timer)
      match a.oldValue with
      | none => some (st.ret 0)
      | some true => some { st.ret 0 with spec := some oldSpec }
      | some false => some (st.ret eFAULT)

def remaining (timer : Timer) (now : Timespec) : Spec where
  value :=
    if timer.active ∧ (timer.expiry.subtract now).positive then timer.expiry.subtract now else ⟨0, 0⟩
  interval := timer.interval

def sysTimerGettime (st : State) (g : Nat) (timerId : BitVec 32) (put : Bool) (now : Clock → Timespec) :
    Option Outcome :=
  if timerId.toNat ≥ timersMax then some (st.ret eINVAL)
  else do
    let slot ← st.slot g timerId
    match slot.timer with
    | none => some (st.ret eINVAL)
    | some h => do
      let timer ← st.timers h
      if put then some { st.ret 0 with spec := some (remaining timer (now timer.clockid)) }
      else some (st.ret eFAULT)

def sysTimerGetoverrun (st : State) (g : Nat) (timerId : BitVec 32) : Option Outcome :=
  if timerId.toNat ≥ timersMax then some (st.ret eINVAL)
  else do
    let slot ← st.slot g timerId
    match slot.timer with
    | none => some (st.ret eINVAL)
    | some _ => some (st.ret 0)

def sysTimerDelete (st : State) (g : Nat) (timerId : BitVec 32) : Option Outcome := do
  let slot ← st.slot g timerId
  match slot.timer with
  | none => some (st.ret eINVAL)
  | some h => do
    -- `timer_free` locks the timer
    let _ ← st.timers h
    some (((st.setTimer h none).setSlot g timerId.toNat { slot with timer := none }).ret 0)

inductive Call
  | create (a : CreateArgs)
  | settime (timerId : BitVec 32) (a : SetArgs)
  | gettime (timerId : BitVec 32) (put : Bool) (now : Clock → Timespec)
  | getoverrun (timerId : BitVec 32)
  | delete (timerId : BitVec 32)

def exec (st : State) (g : Nat) : Call → Option Outcome
  | .create a => sysTimerCreate st g a
  | .settime timerId a => sysTimerSettime st g timerId a
  | .gettime timerId put now => sysTimerGettime st g timerId put now
  | .getoverrun timerId => sysTimerGetoverrun st g timerId
  | .delete timerId => sysTimerDelete st g timerId

/-! ## Runs -/

inductive Op
  /-- A thread of a group calls. -/
  | call (g : Nat) (c : Call)
  /-- The thread of a timer finds that it has expired. -/
  | expire (h : Nat)
  /-- `construct_task`, and `tgroup_copy` of a group: the copy has the slots of the group. -/
  | construct (leader : BitVec 32)
  | fork (g : Nat) (leader : BitVec 32)

namespace State

def addGroup (st : State) (table : Nat → Slot) (leader : BitVec 32) : State :=
  { st with
    table := Function.update st.table st.groups table
    leader := Function.update st.leader st.groups leader
    groups := st.groups + 1 }

end State

def step (st : State) : Op → State
  | .call g c => if g < st.groups then ((exec st g c).map Outcome.state).getD st else st
  | .expire h => st.setTimer h ((st.timers h).map timerExpire)
  | .construct leader => st.addGroup (fun _ => Slot.empty) leader
  | .fork g leader => if g < st.groups then st.addGroup (st.table g) leader else st

def start (leader : BitVec 32) : State :=
  { table := fun _ _ => Slot.empty, timers := fun _ => none, leader := fun _ => leader, fresh := 0, groups := 1 }

/-! ## What ought to hold -/

/-- `h` is a timer that group `g` created under `id` and has not deleted. -/
def Live (st : State) (g id h : Nat) : Prop := ∃ t, st.timers h = some t ∧ t.owner = g ∧ t.id = id

/-- `h` is the one such timer. -/
def TheTimer (st : State) (g id h : Nat) : Prop := Live st g id h ∧ ∀ h', Live st g id h' → h' = h

def Acts (st : State) (g : Nat) (o : Outcome) : Call → Prop
  | .create _ => ∃ id h t slot, o.id = some id ∧ id < timersMax ∧ (∀ h', ¬ Live st g id h') ∧
      st.timers h = none ∧ t.owner = g ∧ t.id = id ∧ slot.timer = some h ∧
      o.state = { (st.setSlot g id slot).setTimer h (some t) with fresh := h + 1 }
  | .settime timerId a => ∃ h t value, TheTimer st g timerId.toNat h ∧ st.timers h = some t ∧
      a.newValue = some value ∧
      o.state = st.setTimer h (some (timerSet t (a.later t.clockid) (a.spec value t)).2)
  | .gettime timerId _ now => ∃ h t, TheTimer st g timerId.toNat h ∧ st.timers h = some t ∧
      o.spec = some (remaining t (now t.clockid)) ∧ o.state = st
  | .getoverrun timerId => ∃ h, TheTimer st g timerId.toNat h ∧ o.state = st
  | .delete timerId => ∃ h, TheTimer st g timerId.toNat h ∧ o.state =
      (st.setTimer h none).setSlot g timerId.toNat { st.table g timerId.toNat with timer := none }

/-- A call stays in the table and in live memory, returns without a lock, and either fails and changes
nothing or acts on the timer its id stands for. -/
def Precise (st : State) : Op → Prop
  | .call g c => g < st.groups → ∃ o, exec st g c = some o ∧ o.held = [] ∧
      (o.res < 0 ∧ o.state = st ∨ o.res = 0 ∧ Acts st g o c)
  | _ => True

/-! ## When it does -/

/-- The thread of a `SIGEV_THREAD_ID` is there, and there is memory for the timer. -/
def CreateFits (st : State) (g : Nat) (a : CreateArgs) : Prop :=
  ∀ clock sigev, a.checked = .ok (clock, sigev) →
    (sigev.method = sigevThreadId → a.tidAlive = true) ∧
    ((firstFree (st.table g)).isSome → a.put = true → a.memory.isSome)

/-- The value cannot be read, the id is above the size of the table, or it is the id of a timer and the
old value can be written. -/
def SetFits (st : State) (g : Nat) (timerId : BitVec 32) (a : SetArgs) : Prop :=
  a.newValue = none ∨ timersMax < timerId.toNat ∨
    (timerId.toNat < timersMax ∧ (st.table g timerId.toNat).timer.isSome ∧ a.oldValue ≠ some false)

def Allowed (st : State) : Op → Prop
  | .call g (.create a) => CreateFits st g a
  | .call g (.settime timerId a) => SetFits st g timerId a
  | .call _ (.delete timerId) => timerId.toNat < timersMax
  | .fork g _ => ∀ id, id < timersMax → (st.table g id).timer = none
  | _ => True

end IosLinuxkit.PosixTimer
