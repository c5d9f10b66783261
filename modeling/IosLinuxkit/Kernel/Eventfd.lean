import IosLinuxkit.Lib.Run
import Mathlib.Data.Nat.Notation

/-!
# Event counters

`kernel/eventfd.c`: `eventfd2`, and reads and writes of the descriptor by any tasks. What runs under the lock
of the descriptor is one step; `wait_for` releases the lock, and the loop goes round when it returns.

* **`writeRound_spec`** — a write that would overflow changes nothing.
* **`eventfd_conserved`** — both hold in every run.

Of the replies, `log` has all there were; it is no field of the source.
-/

namespace IosLinuxkit.Eventfd

def eINTR : Int := -4
def eAGAIN : Int := -11
def eINVAL : Int := -22

def oNonblock : BitVec 32 := 0x800
def oCloexec : BitVec 32 := 0x80000

/-- `EFD_SEMAPHORE`, which the source does not know. -/
def efdSemaphore : BitVec 32 := 1

structure Fd where
  val : BitVec 64
  nonblock : Bool
  deriving DecidableEq

/-- `sys_eventfd2`, with memory for the descriptor and a slot for it. -/
def sysEventfd2 (initval flags : BitVec 32) : Except Int Fd :=
  if flags &&& ~~~(oCloexec ||| oNonblock) ≠ 0 then .error eINVAL
  else .ok ⟨initval.setWidth 64, flags &&& oNonblock != 0⟩

inductive Call
  | read (bufsize : Nat)
  | write (bufsize : Nat) (increment : BitVec 64)
  deriving DecidableEq

inductive Reply
  | read (val : BitVec 64)
  | wrote (increment : BitVec 64)
  | fails (err : Int)
  deriving DecidableEq

/-! ## The loops -/

/-- What a round does that has to wait; `none` is a sleep. -/
def waits (fd : Fd) : Option Reply × Fd := (if fd.nonblock then some (.fails eAGAIN) else none, fd)

/-- `eventfd_read` -/
def readRound (fd : Fd) : Option Reply × Fd :=
  if fd.val = 0 then waits fd else (some (.read fd.val), { fd with val := 0 })

/-- `eventfd_write` -/
def writeRound (fd : Fd) (increment : BitVec 64) : Option Reply × Fd :=
  if fd.val ≥ BitVec.allOnes 64 - increment then waits fd
  else (some (.wrote increment), { fd with val := fd.val + increment })

def Call.refused : Call → Bool
  | .read bufsize => decide (bufsize < 8)
  | .write bufsize increment => decide (bufsize < 8) || increment == BitVec.allOnes 64

def round (fd : Fd) : Call → Option Reply × Fd
  | .read _ => readRound fd
  | .write _ increment => writeRound fd increment

/-! ## Steps -/

structure State where
  fd : Fd
  asleep : Nat → Option Call
  log : List Reply

inductive Op
  | call (t : Nat) (call : Call)
  /-- `wait_for` returns, after a signal or without one. -/
  | wake (t : Nat) (signal : Bool)
  | setfl (nonblock : Bool)

def State.reply (st : State) (t : Nat) (r : Reply) : State :=
  { st with asleep := fun t' => if t' = t then none else st.asleep t', log := r :: st.log }

def State.round (st : State) (t : Nat) (call : Call) : State :=
  match Eventfd.round st.fd call with
  | (some r, fd) => State.reply { st with fd := fd } t r
  | (none, fd) => { st with fd := fd, asleep := fun t' => if t' = t then some call else st.asleep t' }

def step (st : State) : Op → State
  | .call t call =>
    if (st.asleep t).isSome then st
    else if call.refused then st.reply t (.fails eINVAL)
    else st.round t call
  | .wake t signal =>
    match st.asleep t with
    | none => st
    | some call => if signal then st.reply t (.fails eINTR) else st.round t call
  | .setfl nonblock => { st with fd := { st.fd with nonblock := nonblock } }

def start (fd : Fd) : State := ⟨fd, fun _ => none, []⟩

/-! ## What is kept -/

def written : List Reply → Nat
  | [] => 0
  | .wrote increment :: log => increment.toNat + written log
  | _ :: log => written log

def readOut : List Reply → Nat
  | [] => 0
  | .read val :: log => val.toNat + readOut log
  | _ :: log => readOut log

def maxVal : Nat := 18446744073709551614

structure Kept (initval : Nat) (st : State) : Prop where
  le : st.fd.val.toNat ≤ maxVal
  sum : initval + written st.log = readOut st.log + st.fd.val.toNat

/-- A write adds its value, or the counter has no room for it and stays as it is. -/
def WriteOk (fd : Fd) (increment : BitVec 64) (r : Option Reply × Fd) : Prop :=
  if fd.val.toNat + increment.toNat ≤ maxVal then
    r.1 = some (.wrote increment) ∧ r.2.val.toNat = fd.val.toNat + increment.toNat
  else r.2 = fd ∧ r.1 = if fd.nonblock then some (.fails eAGAIN) else none

def WritesOk (st : State) : Prop := ∀ increment, WriteOk st.fd increment (writeRound st.fd increment)

variable {st : State} {initval : Nat}

/-! ## Rounds -/

theorem allOnes_sub (increment : BitVec 64) : (BitVec.allOnes 64 - increment).toNat = 18446744073709551615 - increment.toNat := by
  have := increment.isLt
  rw [BitVec.toNat_sub, BitVec.toNat_allOnes]
  omega

theorem full_iff (fd : Fd) (increment : BitVec 64) :
    fd.val ≥ BitVec.allOnes 64 - increment ↔ maxVal < fd.val.toNat + increment.toNat := by
  have := increment.isLt
  rw [ge_iff_le, BitVec.le_def, allOnes_sub, maxVal]
  omega

theorem writeRound_spec (fd : Fd) (increment : BitVec 64) : WriteOk fd increment (writeRound fd increment) := by
  unfold WriteOk writeRound waits
  by_cases hfull : fd.val ≥ BitVec.allOnes 64 - increment
  · have hroom := (full_iff fd increment).mp hfull
    rw [if_pos hfull, if_neg (Nat.not_le.mpr hroom)]
    exact ⟨rfl, rfl⟩
  have hroom : fd.val.toNat + increment.toNat ≤ maxVal := Nat.not_lt.mp fun h => hfull ((full_iff fd increment).mpr h)
  rw [if_neg hfull, if_pos hroom]
  refine ⟨rfl, ?_⟩
  dsimp only
  rw [BitVec.toNat_add, Nat.mod_eq_of_lt]
  unfold maxVal at hroom
  omega

/-! ## Runs -/

theorem written_cons (r : Reply) (log : List Reply) : written (r :: log) = written [r] + written log := by
  cases r with
  | read val => exact (Nat.zero_add _).symm
  | wrote increment => rfl
  | fails err => exact (Nat.zero_add _).symm

theorem readOut_cons (r : Reply) (log : List Reply) : readOut (r :: log) = readOut [r] + readOut log := by
  cases r with
  | read val => rfl
  | wrote increment => exact (Nat.zero_add _).symm
  | fails err => exact (Nat.zero_add _).symm

theorem kept_fails (h : Kept initval st) (t : Nat) (err : Int) : Kept initval (st.reply t (.fails err)) := ⟨h.le, h.sum⟩

theorem round_spec (fd : Fd) (call : Call) (hle : fd.val.toNat ≤ maxVal) :
    (round fd call).2.val.toNat ≤ maxVal ∧ fd.val.toNat + written (round fd call).1.toList =
        readOut (round fd call).1.toList + (round fd call).2.val.toNat := by
  cases call with
  | read bufsize =>
    unfold round readRound waits
    dsimp only
    split
    case isTrue =>
      refine ⟨hle, ?_⟩
      cases fd.nonblock with
      | true => exact (Nat.zero_add _).symm
      | false => exact (Nat.zero_add _).symm
    case isFalse => exact ⟨Nat.zero_le maxVal, rfl⟩
  | write bufsize increment =>
    have hwrite := writeRound_spec fd increment
    unfold round
    dsimp only
    unfold WriteOk at hwrite
    split at hwrite
    case isTrue hroom =>
      rw [hwrite.1, hwrite.2]
      refine ⟨hroom, ?_⟩
      show fd.val.toNat + (increment.toNat + 0) = 0 + (fd.val.toNat + increment.toNat)
      rw [Nat.add_zero, Nat.zero_add]
    case isFalse =>
      rw [hwrite.1, hwrite.2]
      refine ⟨hle, ?_⟩
      cases fd.nonblock with
      | true => exact (Nat.zero_add _).symm
      | false => exact (Nat.zero_add _).symm

theorem kept_round (h : Kept initval st) (t : Nat) (call : Call) : Kept initval (st.round t call) := by
  obtain ⟨hle, hround⟩ := round_spec st.fd call h.le
  have hsum := h.sum
  unfold State.round
  generalize Eventfd.round st.fd call = p at hle hround ⊢
  obtain ⟨r, fd⟩ := p
  cases r with
  | none =>
    refine ⟨hle, ?_⟩
    have hround : st.fd.val.toNat + 0 = 0 + fd.val.toNat := hround
    show initval + written st.log = readOut st.log + fd.val.toNat
    omega
  | some r =>
    refine ⟨hle, ?_⟩
    show initval + written (r :: st.log) = readOut (r :: st.log) + fd.val.toNat
    have hwritten := written_cons r st.log
    have hread := readOut_cons r st.log
    have hround : st.fd.val.toNat + written [r] = readOut [r] + fd.val.toNat := hround
    omega

theorem kept_step (st : State) (op : Op) (h : Kept initval st) : Kept initval (step st op) := by
  unfold step
  cases op with
  | call t call =>
    dsimp only
    split
    case isTrue => exact h
    case isFalse =>
      split
      case isTrue => exact kept_fails h t _
      case isFalse => exact kept_round h t call
  | wake t signal =>
    dsimp only
    split
    case h_1 => exact h
    case h_2 call hasleep =>
      split
      case isTrue => exact kept_fails h t _
      case isFalse => exact kept_round h t call
  | setfl nonblock => exact ⟨h.le, h.sum⟩

/-- **Event counters.** There is no semaphore mode. In every run the counter has room for one more, and with the
first value it is what was written and not read; and no write of a run overflows it. -/
theorem eventfd_conserved (initval flags : BitVec 32) (fd : Fd) (hfd : sysEventfd2 initval flags = .ok fd)
    (ops : List Op) : flags &&& efdSemaphore = 0 ∧ Kept initval.toNat (run step (start fd) ops) ∧
      WritesOk (run step (start fd) ops) := by
  unfold sysEventfd2 at hfd
  split at hfd
  case isTrue => cases hfd
  case isFalse hflags =>
    cases hfd
    refine ⟨?_, run_invariant_all kept_step ⟨?_, ?_⟩, writeRound_spec _⟩
    · rw [Classical.not_not] at hflags
      have hmask : efdSemaphore = ~~~(oCloexec ||| oNonblock) &&& efdSemaphore := by decide
      rw [hmask, ← BitVec.and_assoc, hflags]
      decide
    · have := initval.isLt
      show (initval.setWidth 64).toNat ≤ maxVal
      rw [BitVec.toNat_setWidth, Nat.mod_eq_of_lt (by omega), maxVal]
      omega
    have := initval.isLt
    show initval.toNat + 0 = 0 + (initval.setWidth 64).toNat
    rw [BitVec.toNat_setWidth, Nat.mod_eq_of_lt (by omega)]
    omega

theorem eventfd_conserved_zero :
    (0 : BitVec 32) &&& efdSemaphore = 0 ∧ Kept 0 (run step (start ⟨0, false⟩) [.call 1 (.write 8 7), .call 2 (.read 8)]) ∧
      WritesOk (run step (start ⟨0, false⟩) [.call 1 (.write 8 7), .call 2 (.read 8)]) :=
  eventfd_conserved 0 0 ⟨0, false⟩ rfl _

/-- The first value was not written. -/
theorem eventfd_initval : sysEventfd2 1 0 = .ok ⟨1, false⟩ ∧
    written (run step (start ⟨1, false⟩) []).log ≠
      readOut (run step (start ⟨1, false⟩) []).log + (run step (start ⟨1, false⟩) []).fd.val.toNat :=
  ⟨rfl, by decide⟩

end IosLinuxkit.Eventfd
