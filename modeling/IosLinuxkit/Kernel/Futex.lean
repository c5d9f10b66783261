import IosLinuxkit.Lib.Assoc
import IosLinuxkit.Lib.Ilist
import IosLinuxkit.Lib.Run

/-!
# Futexes

`src/kernel/futex.c`. Everything that touches the hash or a queue runs under `futex_lock`, so
one such section is one step here; between them a waiter polls its pipe, looks at the clock,
at its signals and at the futex word, each in a step of its own.

What the host or another subsystem decides (`malloc`, `pipe`, the clock, the pending signals) is
part of the event.
-/

namespace IosLinuxkit.FutexTable

abbrev TaskId := Nat
abbrev FutexId := Nat
abbrev Word := BitVec 64
abbrev Dword := BitVec 32

def eintr : Int := -4
def eagain : Int := -11
def enomem : Int := -12
def efault : Int := -14
def einval : Int := -22
def enosys : Int := -38
def etimedout : Int := -110

/-! ## State -/

/-- `struct futex`; the chain of the hash is `State.bucket`. -/
structure Futex where
  refcount : Nat
  mem : Word
  addr : Word
  queue : List TaskId

/-- Where a waiter is in the loop of `futex_wait`. -/
inductive Phase where
  /-- before the deadline check -/
  | top
  /-- at `poll` -/
  | poll
  /-- `poll` returned 0 or failed -/
  | checks
  /-- out of the loop -/
  | leaving (err : Int)
  deriving DecidableEq

/-- `struct futex_wait` and the locals of `futex_wait`. -/
structure Wait where
  futex : FutexId
  uaddr : Word
  val : Dword
  timed : Bool
  phase : Phase
  /-- a wake took it off its queue -/
  woken : Bool
  /-- it saw another value at its address -/
  changed : Bool

/-- `futex_wake_op` between the operation on memory and the wakes. -/
structure WakeOp where
  uaddr : Word
  wakeMax1 : Nat
  uaddr2 : Word
  wakeMax2 : Nat
  cmpTrue : Bool

/-- What a call returned. -/
inductive Ret where
  /-- `futex_wait` after it had queued -/
  | waited (t : TaskId) (err : Int) (woken changed : Bool)
  /-- a wake or a requeue: the sum of the two is the value -/
  | woke (t : TaskId) (woken requeued : Nat)
  /-- an error, or a wait that did not queue -/
  | failed (t : TaskId) (err : Int)
  deriving DecidableEq

structure State where
  bucket : Nat → List FutexId
  futex : FutexId → Futex
  /-- what `malloc` hands out next -/
  fresh : FutexId
  /-- what `free` was called with -/
  freed : List FutexId
  waits : AList (fun _ : TaskId => Wait)
  wakeOp : TaskId → Option WakeOp
  /-- bytes in `futex_pipe`, if it was made -/
  pipe : TaskId → Option Nat
  /-- `current->mem` -/
  mem : TaskId → Word
  word : Word → Word → Option Dword
  /-- the assertions held so far -/
  asserts : Bool
  /-- a `NULL` from `malloc` was dereferenced -/
  crashed : Bool
  log : List Ret

def State.setFutex (s : State) (f : FutexId) (v : Futex) : State :=
  { s with futex := Function.update s.futex f v }

def State.setWait (s : State) (t : TaskId) (w : Wait) : State :=
  { s with waits := s.waits.insert t w }

def State.ret (s : State) (r : Ret) : State := { s with log := s.log ++ [r] }

/-! ## The hash -/

/-- `(addr ^ (unsigned long) mem) % FUTEX_HASH_SIZE` -/
def hash (mem addr : Word) : Nat := (addr ^^^ mem).toNat % 4096

def futexGetUnlocked (mem addr : Word) (malloc : Bool) (s : State) : State × Option FutexId :=
  match (s.bucket (hash mem addr)).find?
      (fun f => (s.futex f).addr == addr && (s.futex f).mem == mem) with
  | some f => (s.setFutex f { s.futex f with refcount := (s.futex f).refcount + 1 }, some f)
  | none =>
    if malloc then
      let f := s.fresh
      ({ s with
          fresh := f + 1
          futex := Function.update s.futex f { refcount := 1, mem, addr, queue := [] }
          bucket := Ilist.add s.bucket (hash mem addr) f }, some f)
    else (s, none)

def futexPutUnlocked (f : FutexId) (s : State) : State :=
  let n := (s.futex f).refcount - 1
  let s := s.setFutex f { s.futex f with refcount := n }
  if n = 0 then
    { s with
      asserts := s.asserts && (s.futex f).queue.isEmpty
      bucket := Ilist.remove s.bucket f
      freed := f :: s.freed }
  else s

/-! ## Waking and requeueing -/

/-- `write(wait->task->futex_pipe[1], &c, 1)` -/
def writePipe (t : TaskId) (s : State) : State :=
  { s with pipe := Function.update s.pipe t ((s.pipe t).map (· + 1)) }

def unqueue (f : FutexId) (t : TaskId) (s : State) : State :=
  s.setFutex f { s.futex f with queue := (s.futex f).queue.erase t }

def markWoken (t : TaskId) (s : State) : State :=
  match s.waits.lookup t with
  | some w => s.setWait t { w with woken := true }
  | none => s

/-- The body of the loop takes the current entry off the queue and no other, so the loop goes
over the queue as it was. -/
def wakeLoop (f : FutexId) (max : Nat) : List TaskId → Nat → State → State × Nat
  | [], woken, s => (s, woken)
  | t :: rest, woken, s =>
    if max ≤ woken then (s, woken)
    else wakeLoop f max rest (woken + 1) (markWoken t (unqueue f t (writePipe t s)))

def futexWakeQueue (f : FutexId) (max : Nat) (s : State) : State × Nat :=
  wakeLoop f max (s.futex f).queue 0 s

/-- `list_next_entry`; `none` is the head of the list. -/
def nextEntry (q : List TaskId) (t : TaskId) : Option TaskId :=
  (q.dropWhile (· != t)).tail.head?

def retarget (t : TaskId) (f : FutexId) (s : State) : State :=
  match s.waits.lookup t with
  | some w => s.setWait t { w with futex := f }
  | none => s

/-- One waiter from the queue of `f` to the end of the queue of `f2`. -/
def requeueOne (f f2 : FutexId) (t : TaskId) (s : State) : State :=
  let s := unqueue f t s
  let s := s.setFutex f2 { s.futex f2 with queue := (s.futex f2).queue ++ [t] }
  let s := { s with asserts := s.asserts && decide (1 < (s.futex f).refcount) }
  let s := s.setFutex f { s.futex f with refcount := (s.futex f).refcount - 1 }
  let s := s.setFutex f2 { s.futex f2 with refcount := (s.futex f2).refcount + 1 }
  retarget t f2 s

/-- The next entry is read before the body: with `f2 = f` the waiter that has just been put at
the end comes round again, until `requeue_max` is reached. -/
def requeueLoop (f f2 : FutexId) : Nat → Option TaskId → Nat → State → State × Nat
  | 0, _, requeued, s => (s, requeued)
  | _ + 1, none, requeued, s => (s, requeued)
  | max + 1, some t, requeued, s =>
    requeueLoop f f2 max (nextEntry (s.futex f).queue t) (requeued + 1) (requeueOne f f2 t s)

/-! `none` is a crash: a `NULL` from `malloc` is dereferenced. -/

/-- The part of `FUTEX_REQUEUE` and `FUTEX_CMP_REQUEUE` after the wakes. -/
def requeue (f : FutexId) (mem : Word) (requeueMax : Nat) (requeueAddr : Word) (malloc : Bool)
    (s : State) : Option (State × Nat) :=
  match futexGetUnlocked mem requeueAddr malloc s with
  | (_, none) => none
  | (s, some f2) =>
    let (s, requeued) := requeueLoop f f2 requeueMax (s.futex f).queue.head? 0 s
    some (futexPutUnlocked f2 s, requeued)

/-- `futex_wakelike(FUTEX_WAKE_, ...)` -/
def futexWake (t : TaskId) (uaddr : Word) (wakeMax : Nat) (malloc : Bool) (s : State) :
    Option State :=
  match futexGetUnlocked (s.mem t) uaddr malloc s with
  | (_, none) => none
  | (s, some f) =>
    let (s, woken) := futexWakeQueue f wakeMax s
    some ((futexPutUnlocked f s).ret (.woke t woken 0))

/-- `futex_wakelike(FUTEX_REQUEUE_, ...)` -/
def futexRequeue (t : TaskId) (uaddr : Word) (wakeMax requeueMax : Nat) (requeueAddr : Word)
    (malloc malloc2 : Bool) (s : State) : Option State :=
  match futexGetUnlocked (s.mem t) uaddr malloc s with
  | (_, none) => none
  | (s, some f) =>
    let (s, woken) := futexWakeQueue f wakeMax s
    match requeue f (s.mem t) requeueMax requeueAddr malloc2 s with
    | none => none
    | some (s, requeued) => some ((futexPutUnlocked f s).ret (.woke t woken requeued))

/-- `futex_load`: `none` when `mem_ptr` finds no page. -/
def futexLoad (f : FutexId) (s : State) : Option Dword := s.word (s.futex f).mem (s.futex f).addr

def futexCmpRequeue (t : TaskId) (uaddr : Word) (wakeMax requeueMax : Nat) (requeueAddr : Word)
    (expected : Dword) (malloc malloc2 : Bool) (s : State) : Option State :=
  match futexGetUnlocked (s.mem t) uaddr malloc s with
  | (s, none) => some (s.ret (.failed t enomem))
  | (s, some f) =>
    match futexLoad f s with
    | none => some ((futexPutUnlocked f s).ret (.failed t efault))
    | some cur =>
      if cur ≠ expected then some ((futexPutUnlocked f s).ret (.failed t eagain))
      else
        let (s, woken) := futexWakeQueue f wakeMax s
        match requeue f (s.mem t) requeueMax requeueAddr malloc2 s with
        | none => none
        | some (s, requeued) => some ((futexPutUnlocked f s).ret (.woke t woken requeued))

/-! ## `FUTEX_WAKE_OP` -/

/-- The operand: bits 23 to 12, sign-extended, or a power of two. `none` is `_EINVAL`. -/
def wakeOpArg (val3 : Dword) : Option Dword :=
  let oparg := (val3 <<< 8).sshiftRight 20
  if val3.getLsbD 31 then
    if oparg.toInt < 0 ∨ 31 < oparg.toInt then none else some (1#32 <<< oparg.toNat)
  else some oparg

def wakeOpNew (op : Nat) (old arg : Dword) : Option Dword :=
  match op with
  | 0 => some arg
  | 1 => some (old + arg)
  | 2 => some (old ||| arg)
  | 3 => some (old &&& ~~~arg)
  | 4 => some (old ^^^ arg)
  | _ => none

def wakeOpCmp (cmp : Nat) (old arg : Dword) : Option Bool :=
  match cmp with
  | 0 => some (old == arg)
  | 1 => some (old != arg)
  | 2 => some (old.slt arg)
  | 3 => some (old.sle arg)
  | 4 => some (arg.slt old)
  | 5 => some (arg.sle old)
  | _ => none

/-- The operation on `*uaddr2`; `ptr` is whether `mem_ptr(.., MEM_WRITE)` found the page. -/
def futexWakeOpRmw (t : TaskId) (uaddr : Word) (wakeMax1 : Nat) (uaddr2 : Word) (wakeMax2 : Nat)
    (val3 : Dword) (ptr : Bool) (s : State) : State :=
  match wakeOpArg val3 with
  | none => s.ret (.failed t einval)
  | some oparg =>
    match (if ptr then s.word (s.mem t) uaddr2 else none) with
    | none => s.ret (.failed t efault)
    | some old =>
      match wakeOpNew (val3.extractLsb' 28 3).toNat old oparg with
      | none => s.ret (.failed t enosys)
      | some new =>
        let s := { s with
          word := fun m a => if m = s.mem t ∧ a = uaddr2 then some new else s.word m a }
        match wakeOpCmp (val3.extractLsb' 24 4).toNat old ((val3 <<< 20).sshiftRight 20) with
        | none => s.ret (.failed t enosys)
        | some cmpTrue =>
          { s with
            wakeOp := Function.update s.wakeOp t
              (some { uaddr, wakeMax1, uaddr2, wakeMax2, cmpTrue }) }

/-- The wakes. Without memory for the second futex its waiters are left alone (the lock has
then been given up already, and the reference is dropped without it). -/
def futexWakeOpWake (t : TaskId) (op : WakeOp) (malloc malloc2 : Bool) (s : State) : State :=
  let s := { s with wakeOp := Function.update s.wakeOp t none }
  match futexGetUnlocked (s.mem t) op.uaddr malloc s with
  | (s, none) => s.ret (.failed t enomem)
  | (s, some f1) =>
    let (s, total) := futexWakeQueue f1 op.wakeMax1 s
    if op.cmpTrue then
      match futexGetUnlocked (s.mem t) op.uaddr2 malloc2 s with
      | (s, none) => (futexPutUnlocked f1 s).ret (.woke t total 0)
      | (s, some f2) =>
        let (s, n) := futexWakeQueue f2 op.wakeMax2 s
        (futexPutUnlocked f1 (futexPutUnlocked f2 s)).ret (.woke t (total + n) 0)
    else (futexPutUnlocked f1 s).ret (.woke t total 0)

/-! ## `futex_wait` -/

/-- Up to the `unlock` after which it polls. -/
def futexWait (t : TaskId) (uaddr : Word) (val : Dword) (timed malloc pipeOk : Bool)
    (s : State) : Option State :=
  match futexGetUnlocked (s.mem t) uaddr malloc s with
  | (_, none) => none
  | (s, some f) =>
    match futexLoad f s with
    | none => some ((futexPutUnlocked f s).ret (.failed t efault))
    | some cur =>
      if cur ≠ val then some ((futexPutUnlocked f s).ret (.failed t eagain))
      else if s.pipe t = none ∧ pipeOk = false then
        some ((futexPutUnlocked f s).ret (.failed t enomem))
      else
        -- the pipe is new, or drained of what an earlier wake left in it
        let s := { s with pipe := Function.update s.pipe t (some 0) }
        let s := s.setFutex f { s.futex f with queue := (s.futex f).queue ++ [t] }
        some (s.setWait t
          { futex := f, uaddr, val, timed, phase := .top, woken := false, changed := false })

def futexDeadline (t : TaskId) (w : Wait) (passed : Bool) (s : State) : State :=
  if w.timed && passed then s.setWait t { w with phase := .leaving etimedout }
  else s.setWait t { w with phase := .poll }

/-- A byte in the pipe makes `poll` return at once; without one it returns at the end of its
time or with `EINTR`. -/
def futexPoll (t : TaskId) (w : Wait) (s : State) : State :=
  if (s.pipe t).getD 0 = 0 then s.setWait t { w with phase := .checks }
  else
    { s.setWait t { w with phase := .leaving 0 } with
      pipe := Function.update s.pipe t (some 0) }

def futexChecks (t : TaskId) (w : Wait) (groupExit sigPending : Bool) (s : State) : State :=
  if groupExit || sigPending then s.setWait t { w with phase := .leaving eintr }
  else
    match s.word (s.mem t) w.uaddr with
    | none => s.setWait t { w with phase := .leaving efault }
    | some cur =>
      if cur ≠ w.val then s.setWait t { w with phase := .leaving 0, changed := true }
      else s.setWait t { w with phase := .top }

/-- The section after the loop: `list_remove_safe`, and the reference of whichever futex the
waiter belongs to by now. -/
def futexWaitEnd (t : TaskId) (w : Wait) (err : Int) (s : State) : State :=
  let s := unqueue w.futex t s
  let s := futexPutUnlocked w.futex s
  ({ s with waits := s.waits.erase t }).ret (.waited t err w.woken w.changed)

/-! ## Steps -/

inductive Event where
  | wait (t : TaskId) (uaddr : Word) (val : Dword) (timed malloc pipeOk : Bool)
  | deadline (t : TaskId) (passed : Bool)
  | poll (t : TaskId)
  | checks (t : TaskId) (groupExit sigPending : Bool)
  | waitEnd (t : TaskId)
  | wake (t : TaskId) (uaddr : Word) (wakeMax : Nat) (malloc : Bool)
  | requeue (t : TaskId) (uaddr : Word) (wakeMax requeueMax : Nat) (requeueAddr : Word)
      (malloc malloc2 : Bool)
  | cmpRequeue (t : TaskId) (uaddr : Word) (wakeMax requeueMax : Nat) (requeueAddr : Word)
      (expected : Dword) (malloc malloc2 : Bool)
  | wakeOpRmw (t : TaskId) (uaddr : Word) (wakeMax1 : Nat) (uaddr2 : Word) (wakeMax2 : Nat)
      (val3 : Dword) (ptr : Bool)
  | wakeOpWake (t : TaskId) (malloc malloc2 : Bool)
  /-- a store, a new mapping or an unmapping anywhere -/
  | memory (word : Word → Word → Option Dword)
  /-- `exec` -/
  | exec (t : TaskId) (mem : Word)
  /-- a task ends, and its pipe is closed -/
  | exit (t : TaskId)

def State.idle (s : State) (t : TaskId) : Bool :=
  (s.waits.lookup t).isNone && (s.wakeOp t).isNone

def State.orCrash (s : State) (r : Option State) : State := r.getD { s with crashed := true }

/-- The task of an event is where the event starts; an event that cannot happen changes
nothing. -/
def step (s : State) (e : Event) : State :=
  if s.crashed then s
  else
    match e with
    | .wait t uaddr val timed malloc pipeOk =>
      if s.idle t then s.orCrash (futexWait t uaddr val timed malloc pipeOk s) else s
    | .deadline t passed =>
      match s.waits.lookup t with
      | some w => if w.phase = .top then futexDeadline t w passed s else s
      | none => s
    | .poll t =>
      match s.waits.lookup t with
      | some w => if w.phase = .poll then futexPoll t w s else s
      | none => s
    | .checks t groupExit sigPending =>
      match s.waits.lookup t with
      | some w => if w.phase = .checks then futexChecks t w groupExit sigPending s else s
      | none => s
    | .waitEnd t =>
      match s.waits.lookup t with
      | some w =>
        match w.phase with
        | .leaving err => futexWaitEnd t w err s
        | _ => s
      | none => s
    | .wake t uaddr wakeMax malloc =>
      if s.idle t then s.orCrash (futexWake t uaddr wakeMax malloc s) else s
    | .requeue t uaddr wakeMax requeueMax requeueAddr malloc malloc2 =>
      if s.idle t then
        s.orCrash (futexRequeue t uaddr wakeMax requeueMax requeueAddr malloc malloc2 s)
      else s
    | .cmpRequeue t uaddr wakeMax requeueMax requeueAddr expected malloc malloc2 =>
      if s.idle t then
        s.orCrash
          (futexCmpRequeue t uaddr wakeMax requeueMax requeueAddr expected malloc malloc2 s)
      else s
    | .wakeOpRmw t uaddr wakeMax1 uaddr2 wakeMax2 val3 ptr =>
      if s.idle t then futexWakeOpRmw t uaddr wakeMax1 uaddr2 wakeMax2 val3 ptr s else s
    | .wakeOpWake t malloc malloc2 =>
      match s.wakeOp t with
      | some op => futexWakeOpWake t op malloc malloc2 s
      | none => s
    | .memory word => { s with word }
    | .exec t mem => if s.idle t then { s with mem := Function.update s.mem t mem } else s
    | .exit t => if s.idle t then { s with pipe := Function.update s.pipe t none } else s

def init (mem : TaskId → Word) (word : Word → Word → Option Dword) : State where
  bucket := fun _ => []
  futex := fun _ => { refcount := 0, mem := 0, addr := 0, queue := [] }
  fresh := 0
  freed := []
  waits := ∅
  wakeOp := fun _ => none
  pipe := fun _ => none
  mem
  word
  asserts := true
  crashed := false
  log := []

end IosLinuxkit.FutexTable
