import IosLinuxkit.Fs.GuestPath
import IosLinuxkit.Lib.Run
import Mathlib.Algebra.Group.Nat.Defs
import Mathlib.Data.List.Basic

/-!
# Pseudo-terminal numbers

The table of the slaves (fs/pty.c). An open reserves a number with a pointer to nothing, makes the
terminals, and gives them back when the last file is closed; a devpts call looks a number up and uses
the slot later. Each step is what one thread does between taking `ttys_lock` and letting it go.

* **`run_good`** — what every run of `Allowed` steps keeps.

## Modelling

The owner and the mode of a terminal, the hangup, and which file of a process holds it are left out.
-/

namespace IosLinuxkit.Pty

open Fs

def maxPtys : Nat := 1 <<< 12

inductive Slot
  | free
  /-- The pointer 1, of `pty_reserve_next`. -/
  | reserved
  | tty (refcount : Nat)
  deriving DecidableEq

structure State where
  ttys : Nat → Slot
  /-- The references to a number's master, none where there is no master. -/
  master : Nat → Nat
  /-- The open files and the sessions that hold the slave. -/
  users : Nat → Nat
  /-- The numbers that an open has reserved and goes on with. -/
  opening : List Nat
  /-- The numbers that a devpts call or file has looked up. -/
  looked : List Nat
  /-- An access outside the table, or through a pointer to no terminal. -/
  fault : Bool

def State.init : State := ⟨fun _ => .free, fun _ => 0, fun _ => 0, [], [], false⟩

inductive Op
  | reserveNext
  | openMaster (n : Nat) (master slave : Bool)
  | openFake (n : Nat) (ok : Bool)
  | holdMaster (n : Nat)
  | releaseMaster (n : Nat)
  | openSlave (n : Nat) (ok : Bool)
  | releaseSlave (n : Nat)
  | lookup (path : Blob)
  | access (n : Nat)
  | finish (n : Nat)
  | readdir (offset : Int)

/-! ## Opens and closes -/

/-- The slot behind the table takes the mark when no number is free. -/
def reserveNext (st : State) : State :=
  match (List.range maxPtys).find? (st.ttys · = .free) with
  | some n => { st with ttys := Function.update st.ttys n .reserved, opening := n :: st.opening }
  | none => { st with ttys := Function.update st.ttys maxPtys .reserved, fault := true }

/-- `tty_get` of the master; `pty_master_init` uses the slave it could not allocate. -/
def openMaster (st : State) (n : Nat) (master slave : Bool) : State :=
  let st' := { st with opening := st.opening.erase n }
  if 0 < st.master n then { st' with master := Function.update st.master n (st.master n + 1) }
  else if master = false then st'
  else if slave = false then { st' with fault := true }
  else { st' with
    ttys := Function.update st.ttys n (.tty 1)
    master := Function.update st.master n 1 }

def openFake (st : State) (n : Nat) (ok : Bool) : State :=
  let st' := { st with opening := st.opening.erase n }
  let use (refcount : Nat) : State := { st' with
    ttys := Function.update st.ttys n (.tty refcount)
    users := Function.update st.users n (st.users n + 1) }
  match st.ttys n with
  | .tty refcount => use (refcount + 1)
  | _ => if ok then use 1 else st'

def Slot.release : Slot → Slot
  | .tty refcount => if refcount ≤ 1 then .free else .tty (refcount - 1)
  | slot => slot

def releaseMaster (st : State) (n : Nat) : State :=
  let st' := { st with master := Function.update st.master n (st.master n - 1) }
  if st.master n = 1 then { st' with ttys := Function.update st.ttys n (st.ttys n).release } else st'

/-- An open of a number without a terminal ends in `pty_return_eio`. -/
def openSlave (st : State) (n : Nat) (ok : Bool) : State :=
  match st.ttys n, ok with
  | .tty refcount, true => { st with
    ttys := Function.update st.ttys n (.tty (refcount + 1))
    users := Function.update st.users n (st.users n + 1) }
  | _, _ => st

def releaseSlave (st : State) (n : Nat) : State :=
  { st with
    ttys := Function.update st.ttys n (st.ttys n).release
    users := Function.update st.users n (st.users n - 1) }

/-! ## devpts -/

def isDigit (c : UInt8) : Bool := 0x30 ≤ c && c ≤ 0x39

def atol (s : Blob) : Nat := min (s.foldl (fun n c => 10 * n + (c.toNat - 0x30)) 0) (2 ^ 63 - 1)

/-- The number in the path of `devpts_get_pty_num`, before it is looked up. -/
def ptyNum : Blob → Option Nat
  | [] => none
  | c :: name =>
    if c ≠ slash ∨ name = [] ∨ slash ∈ name ∨ name.all isDigit = false ∨ 2 ^ 31 - 1 < atol name then none
    else some (atol name)

/-- `devpts_pty_exists`, and whether it reads within the table. -/
def ptyExists (st : State) (n : Int) : Bool × Bool :=
  if n < 0 ∨ maxPtys < n then (false, true) else (st.ttys n.toNat ≠ .free, n < maxPtys)

def lookup (st : State) (path : Blob) : State :=
  match ptyNum path with
  | none => st
  | some n =>
    let e := ptyExists st n
    { st with
      looked := if e.1 then n :: st.looked else st.looked
      fault := st.fault || !e.2 }

/-- `devpts_stat_num` and `devpts_setattr_num`. -/
def access (st : State) (n : Nat) : State :=
  match st.ttys n with
  | .tty _ => st
  | _ => { st with fault := true }

def readdir (st : State) : Nat → Int → State
  | 0, _ => st
  | k + 1, n =>
    if n < maxPtys then
      let e := ptyExists st n
      let st' := { st with fault := st.fault || !e.2 }
      if e.1 then st' else readdir st' k (n + 1)
    else st

def step (st : State) : Op → State
  | .reserveNext => reserveNext st
  | .openMaster n master slave => if n ∈ st.opening then openMaster st n master slave else st
  | .openFake n ok => if n ∈ st.opening then openFake st n ok else st
  | .holdMaster n =>
    if 0 < st.master n then { st with master := Function.update st.master n (st.master n + 1) } else st
  | .releaseMaster n => if 0 < st.master n then releaseMaster st n else st
  | .openSlave n ok => if n ∈ st.looked then openSlave st n ok else st
  | .releaseSlave n => if 0 < st.users n then releaseSlave st n else st
  | .lookup path => lookup st path
  | .access n => if n ∈ st.looked then access st n else st
  | .finish n => { st with looked := st.looked.erase n }
  | .readdir offset => readdir st (maxPtys - offset).toNat offset

/-! ## The invariant -/

structure Good (st : State) : Prop where
  inside : st.fault = false
  once : st.opening.Nodup
  bound : ∀ n, st.ttys n ≠ .free → n < maxPtys
  free : ∀ n, st.ttys n = .free ↔ n ∉ st.opening ∧ st.users n = 0 ∧ st.master n = 0
  opening : ∀ n, n ∈ st.opening → st.ttys n = .reserved ∧ st.users n = 0 ∧ st.master n = 0
  tty : ∀ n r, st.ttys n = .tty r → n ∉ st.opening ∧ 0 < r ∧ r = st.users n + if 0 < st.master n then 1 else 0
  reserved : ∀ n, st.ttys n = .reserved → n ∈ st.opening
  looked : ∀ n ∈ st.looked, st.ttys n ≠ .free ∧ st.ttys n ≠ .reserved

def Allowed (st : State) : Op → Prop
  | .reserveNext => ∃ n, n < maxPtys ∧ st.ttys n = .free
  | .openMaster _ master slave => master = true ∧ slave = true
  | .openFake _ ok => ok = true
  | .releaseMaster n => st.master n = 1 → n ∈ st.looked → st.ttys n ≠ .tty 1
  | .releaseSlave n => n ∈ st.looked → st.ttys n ≠ .tty 1
  | .lookup path => ∀ n, ptyNum path = some n → n ≠ maxPtys ∧ st.ttys n ≠ .reserved
  | _ => True

section Steps

variable {st : State} {n : Nat}

theorem Good.init : Good .init := by
  constructor <;> simp [State.init]

theorem good_reserve (h : Good st) (hok : ∃ n, n < maxPtys ∧ st.ttys n = .free) : Good (reserveNext st) := by
  unfold reserveNext
  cases hfind : (List.range maxPtys).find? (st.ttys · = .free) with
  | none =>
    obtain ⟨n, hn, hfree⟩ := hok
    exact absurd (decide_eq_true hfree) (List.find?_eq_none.mp hfind n (List.mem_range.mpr hn))
  | some n =>
    have hn : n < maxPtys := List.mem_range.mp (List.mem_of_find?_eq_some hfind)
    have hfree : st.ttys n = .free :=
      of_decide_eq_true (List.find?_some (p := fun n => decide (st.ttys n = .free)) hfind)
    obtain ⟨h1, h2, h3, h4, h5, h6, h7, h8⟩ := h
    constructor <;> grind [Function.update_apply]

theorem good_openMaster (h : Good st) (hn : n ∈ st.opening) : Good (openMaster st n true true) := by
  unfold openMaster
  rw [(h.opening n hn).2.2]
  obtain ⟨h1, h2, h3, h4, h5, h6, h7, h8⟩ := h
  constructor <;> grind [Function.update_apply, List.Nodup.mem_erase_iff, List.Nodup.erase]

theorem good_openFake (h : Good st) (hn : n ∈ st.opening) : Good (openFake st n true) := by
  unfold openFake
  rw [(h.opening n hn).1]
  obtain ⟨h1, h2, h3, h4, h5, h6, h7, h8⟩ := h
  constructor <;> grind [Function.update_apply, List.Nodup.mem_erase_iff, List.Nodup.erase]

theorem Good.held (h : Good st) (hn : 0 < st.users n ∨ 0 < st.master n ∨ n ∈ st.looked) :
    ∃ r, st.ttys n = .tty r := by
  cases hs : st.ttys n with
  | free => grind [h.free n, h.looked n]
  | reserved => grind [h.opening n, h.reserved n, h.looked n]
  | tty r => exact ⟨r, rfl⟩

theorem good_releaseMaster (h : Good st) (hn : 0 < st.master n)
    (hok : st.master n = 1 → n ∈ st.looked → st.ttys n ≠ .tty 1) : Good (releaseMaster st n) := by
  obtain ⟨r, hs⟩ := h.held (.inr (.inl hn))
  unfold releaseMaster
  rw [hs, Slot.release]
  obtain ⟨h1, h2, h3, h4, h5, h6, h7, h8⟩ := h
  split <;> constructor <;> grind [Function.update_apply]

theorem good_openSlave (h : Good st) (ok : Bool) : Good (openSlave st n ok) := by
  unfold openSlave
  split
  case h_1 r hs =>
    obtain ⟨h1, h2, h3, h4, h5, h6, h7, h8⟩ := h
    constructor <;> grind [Function.update_apply]
  case h_2 => exact h

theorem good_releaseSlave (h : Good st) (hn : 0 < st.users n)
    (hok : n ∈ st.looked → st.ttys n ≠ .tty 1) : Good (releaseSlave st n) := by
  obtain ⟨r, hs⟩ := h.held (.inl hn)
  unfold releaseSlave
  rw [hs, Slot.release]
  obtain ⟨h1, h2, h3, h4, h5, h6, h7, h8⟩ := h
  constructor <;> grind [Function.update_apply]

theorem good_lookup {path : Blob} (h : Good st)
    (hok : ∀ n, ptyNum path = some n → n ≠ maxPtys ∧ st.ttys n ≠ .reserved) : Good (lookup st path) := by
  unfold lookup ptyExists
  cases hnum : ptyNum path with
  | none => exact h
  | some n =>
    obtain ⟨hmax, hres⟩ := hok n hnum
    obtain ⟨h1, h2, h3, h4, h5, h6, h7, h8⟩ := h
    constructor <;> grind

theorem reserved_free (hn : n ∈ (reserveNext st).opening) (hnot : n ∉ st.opening) : st.ttys n = .free := by
  unfold reserveNext at hn
  cases hfind : (List.range maxPtys).find? (st.ttys · = .free) with
  | none =>
    rw [hfind] at hn
    exact absurd hn hnot
  | some m =>
    rw [hfind] at hn
    obtain rfl := (List.mem_cons.mp hn).resolve_right hnot
    exact of_decide_eq_true (List.find?_some (p := fun n => decide (st.ttys n = .free)) hfind)

theorem readdir_eq (k : Nat) (offset : Int) : readdir st k offset = st := by
  induction k generalizing offset with
  | zero => rfl
  | succ k ih =>
    rw [readdir]
    split
    case isTrue hlt =>
      have hin : (ptyExists st offset).2 = true := by
        unfold ptyExists
        split
        · rfl
        · exact decide_eq_true hlt
      have hst : { st with fault := st.fault || !(ptyExists st offset).2 } = st := by
        rw [hin, Bool.not_true, Bool.or_false]
      dsimp only
      rw [hst, ih, ite_self]
    case isFalse => rfl

theorem good_step (o : Op) (h : Good st) (hok : Allowed st o) : Good (step st o) := by
  cases o with
  | reserveNext =>
    simp only [step]
    exact good_reserve h hok
  | openMaster n master slave =>
    obtain ⟨rfl, rfl⟩ := hok
    show Good (if n ∈ st.opening then _ else st)
    split
    case isTrue hn => exact good_openMaster h hn
    case isFalse => exact h
  | openFake n ok =>
    obtain rfl := hok
    show Good (if n ∈ st.opening then _ else st)
    split
    case isTrue hn => exact good_openFake h hn
    case isFalse => exact h
  | holdMaster n =>
    simp only [step]
    split
    case isFalse => exact h
    obtain ⟨h1, h2, h3, h4, h5, h6, h7, h8⟩ := h
    constructor <;> grind [Function.update_apply]
  | releaseMaster n =>
    show Good (if 0 < st.master n then _ else st)
    split
    case isTrue hn => exact good_releaseMaster h hn hok
    case isFalse => exact h
  | openSlave n ok =>
    show Good (if n ∈ st.looked then _ else st)
    split
    case isTrue => exact good_openSlave h ok
    case isFalse => exact h
  | releaseSlave n =>
    show Good (if 0 < st.users n then _ else st)
    split
    case isTrue hn => exact good_releaseSlave h hn hok
    case isFalse => exact h
  | lookup path => exact good_lookup h hok
  | access n =>
    show Good (if n ∈ st.looked then _ else st)
    split
    case isTrue hn =>
      obtain ⟨r, hr⟩ := h.held (.inr (.inr hn))
      rw [access, hr]
      exact h
    case isFalse => exact h
  | finish n =>
    exact { h with looked := fun m hm => h.looked m (List.mem_of_mem_erase hm) }
  | readdir offset =>
    show Good (readdir st _ offset)
    rw [readdir_eq]
    exact h

end Steps

/-- **Pseudo-terminal numbers.** Over every sequence of steps that meet the condition, no access goes
outside the table or to a slot without a terminal, a number that is handed out was free, and a number
that nobody opens or holds is free. -/
theorem run_good {ops : List Op} (h : AllSteps step Allowed .init ops) :
    (run step .init ops).fault = false ∧ (∀ n, (run step .init ops).ttys n ≠ .free → n < maxPtys) ∧
      (∀ n, (run step .init ops).ttys n = .free ↔ n ∉ (run step .init ops).opening ∧
        (run step .init ops).users n = 0 ∧ (run step .init ops).master n = 0) ∧
      ∀ n, n ∈ (reserveNext (run step .init ops)).opening → n ∉ (run step .init ops).opening →
        (run step .init ops).ttys n = .free := by
  have hgood : Good (run step .init ops) := run_invariant (fun _ o => good_step o) Good.init h
  generalize run step .init ops = st at hgood
  refine ⟨hgood.inside, hgood.bound, hgood.free, fun n hn hnot => ?_⟩
  exact reserved_free hn hnot

def session : List Op :=
  [.reserveNext, .openMaster 0 true true, .lookup [slash, 0x30], .access 0, .finish 0, .releaseMaster 0]

theorem run_good_session : (run step .init session).fault = false := by
  refine (@run_good session
    ⟨⟨0, by decide, rfl⟩, ⟨rfl, rfl⟩, fun n hn => ?_, trivial, trivial, fun _ hl => ?_, trivial⟩).1
  · obtain rfl : 0 = n := Option.some.inj hn
    exact ⟨by decide, by decide +kernel⟩
  · exact absurd hl (by decide +kernel)

/-- `/4096` is looked up behind the end of the table, whatever it holds. -/
theorem lookup_outside : (run step .init [.lookup [slash, 0x34, 0x30, 0x39, 0x36]]).fault = true := by
  decide +kernel

end IosLinuxkit.Pty
