import Mathlib.Data.List.Basic
import IosLinuxkit.Lib.Run

/-!
# pidfds

`kernel/pidfd.c`, with what it looks at in `task.c` and `exit.c`. `pidfd_open` looks the process up under `pids_lock` and
puts the descriptor into its list later, under `pidfd_lock`; `do_exit` makes the process a zombie and goes through that
list while it has `pids_lock`.

* **`pidfd_exact`** — it holds in every run of such steps.
-/

namespace IosLinuxkit.Pidfd

/-- A task in the table of pids. -/
structure Proc where
  id : Nat
  /-- of its thread group -/
  leader : Bool
  zombie : Bool

/-- A `struct fd` in `pidfd_list`. -/
structure Fd where
  addr : Nat
  pid : Nat
  exited : Bool
  /-- the process that was looked up -/
  proc : Nat
deriving DecidableEq

/-- A call of `pidfd_open` between its two locks. -/
structure Opening where
  caller : Nat
  pid : Nat
  proc : Nat
deriving DecidableEq

/-- A task in `poll`: it has added the descriptor; has its notify pipe, with a byte or without; and blocks. -/
inductive Poller
  | idle
  | added (fd : Nat)
  | waiting (fd : Nat) (byte : Bool)
  | blocked (fd : Nat) (byte : Bool)

structure State where
  pids : Nat → Option Proc
  /-- the number of the next process -/
  next : Nat
  /-- the processes that have exited -/
  dead : Nat → Bool
  /-- the pid of the zombie whose `do_exit` has `pids_lock` -/
  exiting : Option Nat
  fds : List Fd
  opening : List Opening
  pollers : Nat → Poller
  /-- the processes that had exited and for which `pidfd_open` returned `ESRCH` -/
  refused : List Nat

def init : State := ⟨fun _ => none, 0, fun _ => false, none, [], [], fun _ => .idle, []⟩

/-! ## Steps -/

inductive Event
  /-- `task_create_` -/
  | create (pid : Nat) (leader : Bool)
  /-- `do_exit` of the last thread of a group, up to `leader->zombie = true` -/
  | exit (pid : Nat)
  /-- ... and from there on -/
  | notify
  /-- ... or without a parent, which is the end of the system -/
  | halt (pid : Nat)
  /-- `reap_if_zombie` -/
  | reap (pid : Nat)
  /-- `task_destroy` of a task that is no zombie: a thread of a group that goes on, or a child that never ran -/
  | destroy (pid : Nat)
  /-- `pidfd_open` up to its `unlock(&pids_lock)` -/
  | lookup (caller pid : Nat)
  /-- ... and from there on, with memory for a descriptor at an address or without -/
  | register (caller fd : Nat) (memory : Bool)
  /-- the last `fd_close` -/
  | close (fd : Nat)
  /-- `poll_add_fd` -/
  | add (poller fd : Nat)
  /-- `poll_wait` up to its loop -/
  | begin (poller : Nat)
  /-- the loop: a round over the descriptors -/
  | check (poller : Nat)
  /-- the return from the host's `poll` -/
  | wake (poller : Nat)

def pidfdPoll (fd : Fd) : Bool := fd.exited

/-- The pipe of a poller after `poll_wakeup` on the descriptors of a pid. -/
def pollWakeup (fds : List Fd) (pid : Nat) : Poller → Poller
  | .waiting k b => .waiting k (b || fds.any fun fd => fd.addr = k ∧ fd.pid = pid)
  | .blocked k b => .blocked k (b || fds.any fun fd => fd.addr = k ∧ fd.pid = pid)
  | p => p

def pidfdNotifyExit (s : State) (pid : Nat) : State :=
  { s with
    fds := s.fds.map fun fd => if fd.pid = pid then { fd with exited := true } else fd
    pollers := fun q => pollWakeup s.fds pid (s.pollers q) }

/-- A poller when a descriptor is closed: `poll_cleanup_fd`. -/
def Poller.without (k : Nat) : Poller → Poller
  | .added k' => if k' = k then .idle else .added k'
  | .waiting k' b => if k' = k then .idle else .waiting k' b
  | .blocked k' b => if k' = k then .idle else .blocked k' b
  | .idle => .idle

/-- `pidfd_open` under `pids_lock`, where `pid_get_task` passes over zombies. -/
def lookup (s : State) (c p : Nat) : State :=
  match s.pids p with
  | none => s
  | some P =>
    if P.zombie then { s with refused := P.id :: s.refused }
    else if !P.leader then s
    else { s with opening := ⟨c, p, P.id⟩ :: s.opening }

/-- The rest of `pidfd_open`. A descriptor that `f_install` drops is closed. -/
def register (s : State) (c k : Nat) (memory : Bool) : State :=
  match s.opening.find? fun o => o.caller = c with
  | none => s
  | some o =>
    let s := { s with opening := s.opening.erase o }
    if memory ∧ ∀ fd ∈ s.fds, fd.addr ≠ k then { s with fds := ⟨k, o.pid, false, o.proc⟩ :: s.fds } else s

/-- A step that needs `pids_lock` does not happen while `do_exit` has it. -/
def step (s : State) : Event → State
  | .create p leader =>
    if s.exiting = none ∧ (s.pids p).isNone then
      { s with pids := Function.update s.pids p (some ⟨s.next, leader, false⟩), next := s.next + 1 }
    else s
  | .exit p =>
    match s.pids p with
    | some P =>
      if s.exiting = none ∧ P.leader ∧ !P.zombie then
        { s with pids := Function.update s.pids p (some { P with zombie := true }), exiting := some p }
      else s
    | none => s
  | .notify =>
    match s.exiting with
    | some p =>
      { pidfdNotifyExit s p with
        dead := fun i => s.dead i || (s.pids p).any fun P => P.id = i
        exiting := none }
    | none => s
  | .halt p =>
    match s.pids p with
    | some P => if s.exiting = none then { s with dead := fun i => s.dead i || P.id = i } else s
    | none => s
  | .reap p =>
    match s.pids p with
    | some P => if s.exiting = none ∧ P.zombie then { s with pids := Function.update s.pids p none } else s
    | none => s
  | .destroy p =>
    match s.pids p with
    | some P =>
      if s.exiting = none ∧ !P.zombie then
        { s with pids := Function.update s.pids p none, dead := fun i => s.dead i || P.id = i }
      else s
    | none => s
  | .lookup c p => if s.exiting = none then lookup s c p else s
  | .register c k memory => register s c k memory
  | .close k => { s with fds := s.fds.filter fun fd => fd.addr ≠ k, pollers := fun q => (s.pollers q).without k }
  | .add q k =>
    match s.pollers q with
    | .idle => { s with pollers := Function.update s.pollers q (.added k) }
    | _ => s
  | .begin q =>
    match s.pollers q with
    | .added k => { s with pollers := Function.update s.pollers q (.waiting k false) }
    | _ => s
  | .check q =>
    match s.pollers q with
    | .waiting k b =>
      let ready := s.fds.any fun fd => fd.addr = k ∧ pidfdPoll fd
      { s with pollers := Function.update s.pollers q (if ready then .idle else .blocked k b) }
    | _ => s
  | .wake q =>
    match s.pollers q with
    | .blocked k true => { s with pollers := Function.update s.pollers q (.waiting k false) }
    | _ => s

/-! ## What ought to hold -/

/-- A pidfd is readable if and only if its process has exited, none was refused for a process that had, and who blocks
on a pidfd of such a process has been woken. -/
structure Exact (s : State) : Prop where
  readable : ∀ fd ∈ s.fds, pidfdPoll fd = true ↔ s.dead fd.proc = true
  refused : s.refused = []
  woken : ∀ q k b, s.pollers q = .blocked k b → ∀ fd ∈ s.fds, fd.addr = k → s.dead fd.proc = true → b = true

/-- No call and no descriptor has the process at the pid. -/
def unopened (s : State) (P : Proc) : Bool := s.opening.all fun o => o.proc ≠ P.id

def unknown (s : State) (P : Proc) : Bool := unopened s P && s.fds.all fun fd => fd.proc ≠ P.id

def prompt (s : State) : Event → Bool
  | .lookup _ p => (s.pids p).all fun P => !P.zombie
  | .exit p => (s.pids p).all (unopened s)
  | .destroy p => (s.pids p).all fun P => !P.leader || unknown s P
  | .halt p => (s.pids p).isNone
  | _ => true

/-! ## The invariant -/

structure Inv (s : State) : Prop where
  fresh : ∀ p P, s.pids p = some P → P.id < s.next
  unborn : ∀ i, s.next ≤ i → s.dead i = false
  apart : ∀ p q P Q, s.pids p = some P → s.pids q = some Q → P.id = Q.id → p = q
  dead : ∀ p P, s.pids p = some P → (s.dead P.id = true ↔ P.zombie = true ∧ s.exiting ≠ some p)
  exiting : ∀ p, s.exiting = some p → ∃ P, s.pids p = some P ∧ P.zombie = true ∧ ∀ o ∈ s.opening, o.proc ≠ P.id
  fd : ∀ fd ∈ s.fds, fd.exited = s.dead fd.proc ∧ fd.proc < s.next ∧
    (fd.exited = false → ∃ P, s.pids fd.pid = some P ∧ P.id = fd.proc ∧ P.leader = true)
  opening : ∀ o ∈ s.opening, ∃ P, s.pids o.pid = some P ∧ P.id = o.proc ∧ P.leader = true ∧ P.zombie = false
  woken : ∀ q k b, s.pollers q = .blocked k b → ∀ fd ∈ s.fds, fd.addr = k → fd.exited = true → b = true
  refused : s.refused = []

theorem Inv.exact {s : State} (h : Inv s) : Exact s where
  readable fd hfd := by rw [pidfdPoll, (h.fd fd hfd).1]
  refused := h.refused
  woken q k b hq fd hfd hk hd := h.woken q k b hq fd hfd hk ((h.fd fd hfd).1.trans hd)

theorem inv_init : Inv init := by
  constructor <;> simp [init]

section Steps

variable {s : State} {p : Nat} {P : Proc}

theorem inv_create (h : Inv s) (hex : s.exiting = none) (hp : s.pids p = none) (leader : Bool) :
    Inv { s with pids := Function.update s.pids p (some ⟨s.next, leader, false⟩), next := s.next + 1 } := by
  obtain ⟨fresh, unborn, apart, dead, -, fd, opening, woken, refused⟩ := h
  constructor <;> grind [Function.update_apply]

theorem inv_exit (h : Inv s) (hex : s.exiting = none) (hp : s.pids p = some P) (hz : P.zombie = false)
    (hno : unopened s P = true) :
    Inv { s with pids := Function.update s.pids p (some { P with zombie := true }), exiting := some p } := by
  obtain ⟨fresh, unborn, apart, dead, -, fd, opening, woken, refused⟩ := h
  simp only [unopened, List.all_eq_true, decide_eq_true_eq] at hno
  constructor <;> grind [Function.update_apply]

theorem inv_reap (h : Inv s) (hex : s.exiting = none) (hp : s.pids p = some P) (hz : P.zombie = true) :
    Inv { s with pids := Function.update s.pids p none } := by
  obtain ⟨fresh, unborn, apart, dead, -, fd, opening, woken, refused⟩ := h
  constructor <;> grind [Function.update_apply]

theorem inv_destroy (h : Inv s) (hex : s.exiting = none) (hp : s.pids p = some P) (hz : P.zombie = false)
    (hno : P.leader = false ∨ unknown s P = true) :
    Inv { s with pids := Function.update s.pids p none, dead := fun i => s.dead i || P.id = i } := by
  obtain ⟨fresh, unborn, apart, dead, -, fd, opening, woken, refused⟩ := h
  simp only [unknown, unopened, Bool.and_eq_true, List.all_eq_true, decide_eq_true_eq] at hno
  constructor <;> grind [Function.update_apply]

theorem inv_notify (h : Inv s) (hex : s.exiting = some p) (hp : s.pids p = some P) :
    Inv { pidfdNotifyExit s p with dead := fun i => s.dead i || P.id = i, exiting := none } := by
  obtain ⟨fresh, unborn, apart, dead, exiting, fd, opening, woken, refused⟩ := h
  have hwoken : ∀ q k b, pollWakeup s.fds p (s.pollers q) = .blocked k b → ∃ b', s.pollers q = .blocked k b' ∧
      b = (b' || s.fds.any fun fd => fd.addr = k ∧ fd.pid = p) := by
    intro q k b hq
    cases hs : s.pollers q with
    | blocked k' b' =>
      rw [hs] at hq
      cases hq
      exact ⟨b', rfl, rfl⟩
    | idle | added k' | waiting k' b' =>
      rw [hs] at hq
      cases hq
  unfold pidfdNotifyExit
  constructor
  case woken =>
    intro q k b hq fd' hfd' hk hd
    obtain ⟨b', hb', rfl⟩ := hwoken q k b hq
    obtain ⟨fd₀, hfd₀, rfl⟩ := List.mem_map.mp hfd'
    by_cases hpid : fd₀.pid = p
    · rw [Bool.or_eq_true, List.any_eq_true]
      refine .inr ⟨fd₀, hfd₀, ?_⟩
      rw [if_pos hpid] at hk
      exact decide_eq_true ⟨hk, hpid⟩
    · rw [if_neg hpid] at hk hd
      rw [woken q k b' hb' fd₀ hfd₀ hk hd, Bool.true_or]
  all_goals grind

theorem inv_lookup (h : Inv s) (hex : s.exiting = none) (c : Nat) (hz : ∀ P, s.pids p = some P → P.zombie = false) :
    Inv (lookup s c p) := by
  unfold lookup
  split
  case h_1 => exact h
  case h_2 P hp =>
    rw [if_neg (by simp [hz P hp])]
    split
    case isTrue => exact h
    case isFalse hl =>
      obtain ⟨fresh, unborn, apart, dead, -, fd, opening, woken, refused⟩ := h
      have hzp := hz P hp
      constructor <;> grind

theorem inv_register (h : Inv s) (c k : Nat) (memory : Bool) : Inv (register s c k memory) := by
  unfold register
  split
  case h_1 => exact h
  case h_2 o ho =>
    have hmem := List.mem_of_find?_eq_some ho
    obtain ⟨fresh, unborn, apart, dead, exiting, fd, opening, woken, refused⟩ := h
    dsimp only
    split
    case isTrue => constructor <;> grind
    case isFalse => constructor <;> grind

theorem inv_close (h : Inv s) (k : Nat) :
    Inv { s with fds := s.fds.filter fun fd => fd.addr ≠ k, pollers := fun q => (s.pollers q).without k } := by
  have hblocked : ∀ q k' b, (s.pollers q).without k = .blocked k' b → s.pollers q = .blocked k' b := by
    intro q k' b hq
    cases hs : s.pollers q <;> grind [Poller.without]
  obtain ⟨fresh, unborn, apart, dead, exiting, fd, opening, woken, refused⟩ := h
  constructor <;> grind

theorem inv_poller (h : Inv s) (q : Nat) (v : Poller)
    (hv : ∀ k b, v = .blocked k b → ∀ fd ∈ s.fds, fd.addr = k → fd.exited = true → b = true) :
    Inv { s with pollers := Function.update s.pollers q v } := by
  obtain ⟨fresh, unborn, apart, dead, exiting, fd, opening, woken, refused⟩ := h
  constructor <;> grind [Function.update_apply]

end Steps

theorem inv_step (s : State) (e : Event) (h : Inv s) (hok : prompt s e = true) : Inv (step s e) := by
  cases e with
  | create p leader =>
    simp only [step]
    split
    case isTrue hgo => exact inv_create h hgo.1 (Option.isNone_iff_eq_none.mp hgo.2) leader
    case isFalse => exact h
  | exit p =>
    simp only [step]
    split
    case h_1 P hp =>
      split
      case isTrue hgo => exact inv_exit h hgo.1 hp (by simpa using hgo.2.2) (by simpa [prompt, hp] using hok)
      case isFalse => exact h
    case h_2 => exact h
  | notify =>
    simp only [step]
    split
    case h_1 p hex =>
      obtain ⟨P, hp, -⟩ := h.exiting p hex
      simpa [hp] using inv_notify h hex hp
    case h_2 => exact h
  | halt p =>
    have hnone : s.pids p = none := by simpa [prompt] using hok
    simpa [step, hnone] using h
  | reap p =>
    simp only [step]
    split
    case h_1 P hp =>
      split
      case isTrue hgo => exact inv_reap h hgo.1 hp hgo.2
      case isFalse => exact h
    case h_2 => exact h
  | destroy p =>
    simp only [step]
    split
    case h_1 P hp =>
      split
      case isTrue hgo => exact inv_destroy h hgo.1 hp (by simpa using hgo.2) (by simpa [prompt, hp] using hok)
      case isFalse => exact h
    case h_2 => exact h
  | lookup c p =>
    simp only [step]
    split
    case isTrue hex => exact inv_lookup h hex c fun P hp => by simpa [prompt, hp] using hok
    case isFalse => exact h
  | register c k memory => exact inv_register h c k memory
  | close k => exact inv_close h k
  | add q k =>
    simp only [step]
    split
    case h_1 => exact inv_poller h q _ fun k b heq => by cases heq
    case h_2 => exact h
  | begin q =>
    simp only [step]
    split
    case h_1 => exact inv_poller h q _ fun k b heq => by cases heq
    case h_2 => exact h
  | check q =>
    simp only [step]
    split
    case h_1 k b hq =>
      refine inv_poller h q _ fun k' b' heq fd hfd hk hd => ?_
      -- it would have found the descriptor
      have hany : (s.fds.any fun fd => decide (fd.addr = k ∧ pidfdPoll fd = true)) = false := by
        by_contra hno
        rw [if_pos (by simpa using hno)] at heq
        cases heq
      grind [pidfdPoll]
    case h_2 => exact h
  | wake q =>
    simp only [step]
    split
    case h_1 => exact inv_poller h q _ fun k b heq => by cases heq
    case h_2 => exact h

/-- **pidfds.** In every state of every run whose steps are prompt, a pidfd is readable if and only if its process has
exited, whoever has got its pid since; and who blocks on it when the process exits is woken. -/
theorem pidfd_exact (ops : List Event) (hok : AllSteps step (fun s e => prompt s e = true) init ops) :
    Exact (run step init ops) := by
  have h : Inv (run step init ops) := run_invariant (fun s e h ho => inv_step s e h ho) inv_init hok
  exact h.exact

/-- A poller blocks on the pidfd of process 5, which exits; pid 5 is used again. -/
theorem pidfd_exact_reused : Exact (run step init
    [.create 5 true, .lookup 1 5, .register 1 9 true, .add 2 9, .begin 2, .check 2, .exit 5, .notify, .reap 5,
      .create 5 true]) :=
  pidfd_exact _ (by decide)

/-- The process exits while it is being opened: its pidfd is never readable. -/
theorem pidfd_never_readable : ¬ ∀ ops, Exact (run step init ops) := by
  intro h
  have hfd := (h [.create 5 true, .lookup 1 5, .exit 5, .notify, .register 1 9 true]).readable ⟨9, 5, false, 0⟩ (by decide)
  exact absurd (hfd.mpr (by decide)) (by decide)

end IosLinuxkit.Pidfd
