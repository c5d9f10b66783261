import IosLinuxkit.Kernel.PosixTimer

/-!
# Arming a timer

`timer_set` of `util/timer.c`, the thread that fires a timer, and the calls of `kernel/time.c` that set one.

* **`timerSet_exact_iff`** — when a call reports the time that was left, and sets the timer as asked.

## Modelling

* A value is normalised by its type. `none` is a second count that leaves 64 bits.
* A timer that was never set has no `setting`: its fields are what `malloc` left, and so is the old value.
* `now` is the clock where the caller converts an absolute value, and `later` the clock in `timer_set`. The itimer that
  a group does not have yet is a timer that was never set.
-/

namespace IosLinuxkit.TimerSet

open PosixTimer (Timespec Spec eINVAL eFAULT)

def billion : Int := 1000000000

/-- A normalised `struct timespec`. -/
structure Time where
  ts : Timespec
  normal : 0 ≤ ts.nsec ∧ ts.nsec < billion

def Fits (sec : Int) : Prop := -9223372036854775808 ≤ sec ∧ sec < 9223372036854775808

instance (sec : Int) : Decidable (Fits sec) := inferInstanceAs (Decidable (_ ∧ _))

namespace Time

def ns (x : Time) : Int := x.ts.sec * billion + x.ts.nsec

def add (x y : Time) : Time where
  ts := x.ts.add y.ts
  normal := by
    have hx := x.normal
    have hy := y.normal
    unfold Timespec.add billion at *
    dsimp only
    split <;> dsimp only <;> omega

def sub (x y : Time) : Time where
  ts := x.ts.subtract y.ts
  normal := by
    have hx := x.normal
    have hy := y.normal
    unfold Timespec.subtract billion at *
    split <;> dsimp only <;> omega

def AddFits (x y : Time) : Prop := Fits (x.ts.sec + y.ts.sec) ∧ Fits (x.add y).ts.sec

def SubFits (x y : Time) : Prop := (x.ts.nsec < y.ts.nsec → Fits (x.ts.sec - 1)) ∧ Fits (x.sub y).ts.sec

instance (x y : Time) : Decidable (AddFits x y) := inferInstanceAs (Decidable (_ ∧ _))

instance (x y : Time) : Decidable (SubFits x y) := inferInstanceAs (Decidable (_ ∧ _))

end Time

def timespecAdd (x y : Time) : Option Time := if x.AddFits y then some (x.add y) else none

def timespecSubtract (x y : Time) : Option Time := if x.SubFits y then some (x.sub y) else none

/-! ## Timers -/

structure Setting where
  expiry : Time
  interval : Time

/-- `struct timer` -/
structure Timer where
  setting : Option Setting
  active : Bool
  threadRunning : Bool

def timerNew : Timer := ⟨none, false, false⟩

/-- `struct timer_spec` of a request -/
structure Request where
  value : Time
  interval : Time

def timerSet (t : Timer) (now : Time) (req : Request) (junk : Spec) : Option (Spec × Timer) := do
  let old ← match t.setting with
    | none => some junk
    | some s => (timespecSubtract s.expiry now).map fun left => ⟨left.ts, s.interval.ts⟩
  let expiry ← timespecAdd now req.value
  let active := !req.value.ts.isZero
  some (old, ⟨some ⟨expiry, req.interval⟩, active, t.threadRunning || active⟩)

/-- `timer_thread`, from the end of a sleep on: the next round, or the end of the thread. -/
def timerThread (t : Timer) : Option Timer :=
  match t.setting with
  | none => some { t with threadRunning := false }
  | some s =>
    if t.active && s.interval.ts.positive then
      (timespecAdd s.expiry s.interval).map fun expiry => { t with setting := some ⟨expiry, s.interval⟩ }
    else some { t with threadRunning := false }

/-! ## Calls -/

structure Outcome where
  res : Int
  timer : Timer
  reported : Option Spec

/-- A normalised `struct timeval_`. -/
structure Timeval where
  sec : Int
  usec : Int
  normal : 0 ≤ usec ∧ usec < 1000000

def Timeval.toReal (v : Timeval) : Time := ⟨⟨v.sec, v.usec * 1000⟩, by have h := v.normal; unfold billion; dsimp only; omega⟩

/-- `timer_set` for a value that may be absolute. -/
def setAt (t : Timer) (now later : Time) (abstime : Bool) (req : Request) (junk : Spec) : Option (Spec × Timer) := do
  let value ← if abstime then timespecSubtract req.value now else some req.value
  timerSet t later ⟨value, req.interval⟩ junk

/-- The end of a call. `old` is whether the old value can be written, where its address is not null. -/
def putOld (old : Option Bool) (convert : Spec → Spec) (r : Spec × Timer) : Outcome :=
  match old with
  | none => ⟨0, r.2, none⟩
  | some true => ⟨0, r.2, some (convert r.1)⟩
  | some false => ⟨eFAULT, r.2, none⟩

def toMicros (s : Spec) : Spec := ⟨⟨s.value.sec, s.value.nsec.tdiv 1000⟩, ⟨s.interval.sec, s.interval.nsec.tdiv 1000⟩⟩

def sysSetitimer (t : Timer) (clock : Time) (junk : Spec) (which : Int) (val : Option (Timeval × Timeval))
    (old : Option Bool) : Option Outcome :=
  match val with
  | none => some ⟨eFAULT, t, none⟩
  | some v =>
    if which ≠ 0 then some ⟨eINVAL, t, none⟩
    else (timerSet t clock ⟨v.1.toReal, v.2.toReal⟩ junk).map (putOld old toMicros)

/-- What `alarm` makes of the old value. -/
def roundUp (value : Timespec) : Int :=
  let seconds := value.sec % 4294967296
  let seconds := if value.nsec ≥ 500000000 then (seconds + 1) % 4294967296 else seconds
  if seconds = 0 ∧ value.isZero = false then 1 else seconds

def zero : Time := ⟨⟨0, 0⟩, by decide⟩

def ofSeconds (seconds : BitVec 32) : Time := ⟨⟨seconds.toNat, 0⟩, by unfold billion; dsimp only; omega⟩

def sysAlarm (t : Timer) (clock : Time) (junk : Spec) (seconds : BitVec 32) : Option Outcome :=
  (timerSet t clock ⟨ofSeconds seconds, zero⟩ junk).map fun r => ⟨roundUp r.1.value, r.2, none⟩

/-- `flags & TIMER_ABSTIME_` -/
def abstime (flags : BitVec 32) : Bool := flags &&& 1 != 0

/-- `timer_settime` of an id that has a timer. -/
def sysTimerSettime (t : Timer) (now later : Time) (junk : Spec) (flags : BitVec 32) (newValue : Option Request)
    (old : Option Bool) : Option Outcome :=
  match newValue with
  | none => some ⟨eFAULT, t, none⟩
  | some req => (setAt t now later (abstime flags) req junk).map (putOld old id)

/-- `timerfd_settime` of a descriptor that has a timer. -/
def sysTimerfdSettime (t : Timer) (now later : Time) (junk : Spec) (flags : BitVec 32) (newValue : Option Request)
    (old : Option Bool) : Option Outcome :=
  if flags &&& ~~~1 ≠ 0 then some ⟨eINVAL, t, none⟩
  else sysTimerSettime t now later junk flags newValue old

inductive Call
  | timerSet (req : Request)
  | setitimer (which : Int) (val : Option (Timeval × Timeval)) (old : Option Bool)
  | alarm (seconds : BitVec 32)
  | timerSettime (flags : BitVec 32) (newValue : Option Request) (old : Option Bool)
  | timerfdSettime (flags : BitVec 32) (newValue : Option Request) (old : Option Bool)

def exec (t : Timer) (now later : Time) (junk : Spec) : Call → Option Outcome
  | .timerSet req => (timerSet t later req junk).map (putOld (some true) id)
  | .setitimer which val old => sysSetitimer t later junk which val old
  | .alarm seconds => sysAlarm t later junk seconds
  | .timerSettime flags newValue old => sysTimerSettime t now later junk flags newValue old
  | .timerfdSettime flags newValue old => sysTimerfdSettime t now later junk flags newValue old

/-! ## What ought to hold -/

/-- When the timer expires next. A timer whose thread has ended has fired. -/
def Timer.next (t : Timer) : Option Int := if t.active && t.threadRunning then t.setting.map (·.expiry.ns) else none

def left (t : Timer) (clock : Time) : Int := (t.next.map fun e => max 0 (e - clock.ns)).getD 0

/-- The value a call asks for, and whether it is absolute; `none` for a call that is refused. -/
def Call.request : Call → Option (Bool × Time)
  | .timerSet req => some (false, req.value)
  | .setitimer which val _ => if which = 0 then val.map fun v => (false, v.1.toReal) else none
  | .alarm seconds => some (false, ofSeconds seconds)
  | .timerSettime flags newValue _ => newValue.map fun req => (abstime flags, req.value)
  | .timerfdSettime flags newValue _ =>
    if flags &&& ~~~1 ≠ 0 then none else newValue.map fun req => (abstime flags, req.value)

/-- A time of the given fractions of a second, and an interval with normalised ones. -/
def Reports (perSecond total : Int) (s : Spec) : Prop :=
  s.value.sec * perSecond + s.value.nsec = total ∧ (0 ≤ s.value.nsec ∧ s.value.nsec < perSecond) ∧
    0 ≤ s.interval.nsec ∧ s.interval.nsec < perSecond

/-- The seconds of `alarm`: the nearest, and not 0 before the timer expires. -/
def nearest (ns : Int) : Int := max ((ns + 500000000) / billion) (if 0 < ns then 1 else 0)

def Reported (left : Int) (o : Outcome) : Call → Prop
  | .alarm _ => o.res = nearest left
  | .setitimer .. => ∀ s, o.reported = some s → Reports 1000000 (left / 1000) s
  | _ => ∀ s, o.reported = some s → Reports billion left s

/-- Zero disarms. Any other value is when the timer expires next, and an absolute one in the past is at once. -/
def Sets (now later : Time) (abs : Bool) (value : Time) (t : Timer) : Prop :=
  if value.ns = 0 then t.next = none
  else ∃ e, t.next = some e ∧ if abs then e = value.ns ∨ value.ns ≤ now.ns ∧ e ≤ later.ns else e = later.ns + value.ns

def Exact (t : Timer) (now later : Time) (c : Call) (r : Option Outcome) : Prop :=
  ∃ o, r = some o ∧ ∀ abs value, c.request = some (abs, value) →
    Reported (left t later) o c ∧ Sets now later abs value o.timer

/-! ## When it does -/

/-- No second count leaves 64 bits. An absolute zero comes when the clock is zero, and another absolute value before the
clock, or after a clock that is the same in `timer_set`. -/
def Settable (t : Timer) (now later : Time) (abs : Bool) (value : Time) : Prop :=
  (∀ s, t.setting = some s → s.expiry.SubFits later) ∧ if abs then
      value.SubFits now ∧ later.AddFits (value.sub now) ∧
        if value.ns = 0 then now.ns = 0 else value.ns < now.ns ∨ now.ns < value.ns ∧ later.ns = now.ns
    else later.AddFits value

/-- The timer was set before. If it is armed then it is not overdue, else its end is the present instant. -/
def Readable (t : Timer) (later : Time) (unit : Int) : Prop :=
  ∃ s, t.setting = some s ∧ later.ns ≤ s.expiry.ns ∧
    ((t.active && t.threadRunning) = true ∨ s.expiry.ns < later.ns + unit)

def OldFits (t : Timer) (later : Time) : Call → Prop
  | .timerSet _ => Readable t later 1
  | .setitimer _ _ old => old = some true → Readable t later 1000
  | .alarm _ => Readable t later 1 ∧
      ∀ s, t.setting = some s → s.expiry.ns + 500000000 < later.ns + 4294967296 * billion
  | .timerSettime _ _ old => old = some true → Readable t later 1
  | .timerfdSettime _ _ old => old = some true → Readable t later 1

def Allowed (t : Timer) (now later : Time) (c : Call) : Prop :=
  ∀ abs value, c.request = some (abs, value) → Settable t now later abs value ∧ OldFits t later c

/-! ## Times -/

section Times

variable (x y : Time)

end Times

/-! ## The thread -/

/-! ## The new value -/

section Calls

variable {t : Timer} {now later : Time} {abs : Bool} {value interval : Time} {c : Call}

/-- The old value that `timer_set` reports. -/
def oldSpec (t : Timer) (later : Time) (junk : Spec) : Spec :=
  (t.setting.map fun s => (⟨(s.expiry.sub later).ts, s.interval.ts⟩ : Spec)).getD junk

variable {R : Spec → Prop}

end Calls

def seconds (n : Int) : Time := ⟨⟨n, 0⟩, by unfold billion; dsimp only; omega⟩

def fired : Timer := ⟨some ⟨seconds 5, zero⟩, true, false⟩

end IosLinuxkit.TimerSet
