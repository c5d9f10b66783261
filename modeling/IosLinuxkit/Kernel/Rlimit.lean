import IosLinuxkit.Lib.Run
import Mathlib.Logic.Function.Basic

/-!
# Resource limits

`kernel/resource.c`: the limits of a thread group, and the calls that set them. `check_setrlimit` and
`rlimit_set` take the lock of the group one after the other, so a call has two steps, with those of the
other threads of the group between them.

* **`rlimits_iff`** — when the limits stay in order, and no unprivileged task raises one.

## Modelling

* `user_get` and `user_put` are part of the request: what was read, and whether the write succeeded.
* A group is copied as a whole by `tgroup_copy`.
-/

namespace IosLinuxkit.Rlimit

def ePERM : Int := -1
def eFAULT : Int := -14
def eINVAL : Int := -22

/-- `struct rlimit_`, in 64-bit words. -/
structure Limit where
  cur : BitVec 64
  max : BitVec 64
  deriving DecidableEq

abbrev Limits := Nat → Limit

def rlimInfinity : BitVec 64 := BitVec.allOnes 64

def rlimitNlimits : Nat := 16

def initRlimits : Limits
  | 3 => ⟨128 * 1024 * 1024, rlimInfinity⟩
  | 4 => ⟨0, rlimInfinity⟩
  | 6 => ⟨1024, 1024⟩
  | 7 => ⟨1024, 4096⟩
  | 8 => ⟨64 * 1024, 64 * 1024⟩
  | 11 => ⟨1024, 1024⟩
  | 12 => ⟨819200, 819200⟩
  | 13 | 14 => ⟨0, 0⟩
  | _ => ⟨rlimInfinity, rlimInfinity⟩

/-! ## The calls -/

def resourceValid (resource : BitVec 32) : Prop := 0 ≤ resource.toInt ∧ resource.toInt < rlimitNlimits

instance (resource : BitVec 32) : Decidable (resourceValid resource) :=
  inferInstanceAs (Decidable (_ ∧ _))

def rlimitGet (limits : Limits) (resource : BitVec 32) : Except Int Limit :=
  if resourceValid resource then .ok (limits resource.toNat) else .error eINVAL

def rlimitSet (limits : Limits) (resource : BitVec 32) (limit : Limit) : Int × Limits :=
  if resourceValid resource then (0, Function.update limits resource.toNat limit) else (eINVAL, limits)

def checkSetrlimit (superuser : Bool) (limits : Limits) (resource : BitVec 32) (newLimit : Limit) : Int :=
  if superuser then 0
  else
    match rlimitGet limits resource with
    | .error err => err
    | .ok oldLimit => if newLimit.max > oldLimit.max then ePERM else 0

/-- A call that sets a limit. A `none` for what is read is a bad address. -/
inductive Request
  | setrlimit32 (resource : BitVec 32) (rlimit : Option Limit)
  | setrlimit64 (resource : BitVec 32) (rlimit : Option Limit)
  /-- The new limit and the success of writing the old one, where their addresses are not null. -/
  | prlimit64 (pid : BitVec 32) (resource : BitVec 32) (newLimit : Option (Option Limit)) (oldLimit : Option Bool)

/-- Where a call is after its check: it returns, or goes on to `rlimit_set`. -/
inductive Checked
  | ret (res : Int)
  | store (resource : BitVec 32) (limit : Limit)
  deriving DecidableEq

def checkRead (superuser : Bool) (limits : Limits) (resource : BitVec 32) : Option Limit → Checked
  | none => .ret eFAULT
  | some limit =>
    let err := checkSetrlimit superuser limits resource limit
    if err < 0 then .ret err else .store resource limit

/-- `sys_setrlimit32`, `sys_setrlimit64` and `sys_prlimit64`, up to `rlimit_set`. -/
def Request.check (superuser : Bool) (limits : Limits) : Request → Checked
  | .setrlimit32 resource rlimit => checkRead superuser limits resource rlimit
  | .setrlimit64 resource rlimit => checkRead superuser limits resource rlimit
  | .prlimit64 pid resource newLimit oldLimit =>
    if pid ≠ 0 then .ret eINVAL
    else
      match oldLimit, rlimitGet limits resource with
      | some _, .error err => .ret err
      | some false, .ok _ => .ret eFAULT
      | _, _ =>
        match newLimit with
        | none => .ret 0
        | some rlimit => checkRead superuser limits resource rlimit

/-! ## Tasks and groups -/

/-- What of `struct task` the calls use, and the store it has ahead of it. -/
structure Task where
  euid : BitVec 32
  group : Nat
  store : Option (BitVec 32 × Limit)

def Task.superuser (t : Task) : Bool := t.euid == 0

/-- The tasks and groups in use have the numbers below `tasks` and `groups`. -/
structure State where
  task : Nat → Task
  limits : Nat → Limits
  tasks : Nat
  groups : Nat

inductive Op
  /-- A task calls, and passes the check or returns. -/
  | call (t : Nat) (request : Request)
  /-- A task whose check has passed sets the limit. -/
  | store (t : Nat)
  /-- `clone`, of a thread or with `tgroup_copy`. -/
  | clone (t : Nat) (thread : Bool)
  /-- `construct_task` -/
  | construct
  /-- A task changes its effective user id. -/
  | seteuid (t : Nat) (euid : BitVec 32)

namespace State

def put (st : State) (t : Nat) (task : Task) : State := { st with task := Function.update st.task t task }

def limitsOf (st : State) (t : Nat) : Limits := st.limits (st.task t).group

/-- A new task of the group with the number `group`. -/
def spawn (st : State) (euid : BitVec 32) (group : Nat) : State :=
  { st with task := Function.update st.task st.tasks ⟨euid, group, none⟩, tasks := st.tasks + 1 }

def spawnGroup (st : State) (euid : BitVec 32) (limits : Limits) : State :=
  { st.spawn euid st.groups with
    limits := Function.update st.limits st.groups limits, groups := st.groups + 1 }

end State

def step (st : State) : Op → State
  | .call t request =>
    -- a task that has a store ahead of it is still in its last call
    if t < st.tasks ∧ (st.task t).store = none then
      match request.check (st.task t).superuser (st.limitsOf t) with
      | .ret _ => st
      | .store resource limit => st.put t { st.task t with store := some (resource, limit) }
    else st
  | .store t =>
    match (st.task t).store with
    | none => st
    | some (resource, limit) =>
      { st.put t { st.task t with store := none } with
        limits := Function.update st.limits (st.task t).group (rlimitSet (st.limitsOf t) resource limit).2 }
  | .clone t thread =>
    if t < st.tasks ∧ (st.task t).store = none then
      if thread then st.spawn (st.task t).euid (st.task t).group
      else st.spawnGroup (st.task t).euid (st.limitsOf t)
    else st
  | .construct => st.spawnGroup 0 initRlimits
  | .seteuid t euid =>
    if t < st.tasks ∧ (st.task t).store = none then st.put t { st.task t with euid := euid } else st

def Op.actor : Op → Option Nat
  | .call t _ | .store t | .clone t _ | .seteuid t _ => some t
  | .construct => none

def start : State :=
  { task := fun _ => ⟨0, 0, none⟩, limits := fun _ => initRlimits, tasks := 1, groups := 1 }

/-! ## What ought to hold -/

def Limit.Ordered (l : Limit) : Prop := l.cur ≤ l.max

instance (l : Limit) : Decidable l.Ordered := inferInstanceAs (Decidable (l.cur ≤ l.max))

/-- Neither field is above the hard limit `old` had. -/
def Limit.Under (l old : Limit) : Prop := l.cur ≤ old.max ∧ l.max ≤ old.max

def Ordered (st : State) : Prop := ∀ g r, (st.limits g r).Ordered

/-- The limits stay in order, and a task without privilege raises no limit of a group. -/
def Lawful (st : State) (op : Op) : Prop :=
  Ordered (step st op) ∧ ∀ t, op.actor = some t → (st.task t).superuser = false →
    ∀ g, g < st.groups → ∀ r, ((step st op).limits g r).Under (st.limits g r)

/-! ## When it does -/

/-- A store of limits in order, by root or not above the hard limit at the time of the store. -/
def Allowed (st : State) : Op → Prop
  | .store t => ∀ resource limit, (st.task t).store = some (resource, limit) → resourceValid resource →
      limit.Ordered ∧ ((st.task t).superuser = true ∨ limit.max ≤ (st.limitsOf t resource.toNat).max)
  | _ => True

variable {st : State} {op : Op} {t : Nat} {limits : Limits} {resource : BitVec 32} {limit : Limit}

theorem Limit.Ordered.under {l : Limit} (h : l.Ordered) : l.Under l := ⟨h, BitVec.le_refl _⟩

theorem initRlimits_ordered (r : Nat) : (initRlimits r).Ordered := by
  unfold initRlimits Limit.Ordered
  split <;> decide

structure Inv (st : State) : Prop where
  ordered : Ordered st
  group : ∀ t, (st.task t).group < st.groups

theorem inv_start : Inv start := ⟨fun _ r => initRlimits_ordered r, fun _ => Nat.zero_lt_one⟩

/-! ## Setting a limit -/

theorem rlimitSet_valid (hvalid : resourceValid resource) :
    (rlimitSet limits resource limit).2 = Function.update limits resource.toNat limit := by
  unfold rlimitSet
  rw [if_pos hvalid]

theorem rlimitSet_invalid (hvalid : ¬ resourceValid resource) : (rlimitSet limits resource limit).2 = limits := by
  unfold rlimitSet
  rw [if_neg hvalid]

theorem rlimitSet_forall {P : Nat → Limit → Prop} (hold : ∀ r, P r (limits r))
    (hnew : resourceValid resource → P resource.toNat limit) (r : Nat) : P r ((rlimitSet limits resource limit).2 r) := by
  by_cases hvalid : resourceValid resource
  · rw [rlimitSet_valid hvalid]
    by_cases hr : r = resource.toNat
    · rw [hr, Function.update_self]
      exact hnew hvalid
    · rw [Function.update_of_ne hr]
      exact hold r
  · rw [rlimitSet_invalid hvalid]
    exact hold r

/-! ## Steps -/

structure Spares (st st' : State) : Prop where
  limits : ∀ g, g < st.groups → st'.limits g = st.limits g
  inv : Inv st'

theorem Spares.refl (h : Inv st) : Spares st st := ⟨fun _ _ => rfl, h⟩

theorem spares_put (h : Inv st) {task : Task} (hgroup : task.group = (st.task t).group) : Spares st (st.put t task) := by
  refine ⟨fun _ _ => rfl, h.ordered, fun t' => ?_⟩
  show (Function.update st.task t task t').group < st.groups
  by_cases ht : t' = t
  · rw [ht, Function.update_self, hgroup]
    exact h.group t
  · rw [Function.update_of_ne ht]
    exact h.group t'

theorem spares_spawn (h : Inv st) (euid : BitVec 32) {group : Nat} (hgroup : group < st.groups) :
    Spares st (st.spawn euid group) := by
  refine ⟨fun _ _ => rfl, h.ordered, fun t' => ?_⟩
  show (Function.update st.task st.tasks ⟨euid, group, none⟩ t').group < st.groups
  by_cases ht : t' = st.tasks
  · rw [ht, Function.update_self]
    exact hgroup
  · rw [Function.update_of_ne ht]
    exact h.group t'

theorem spares_spawnGroup (h : Inv st) (euid : BitVec 32) (hlimits : ∀ r, (limits r).Ordered) :
    Spares st (st.spawnGroup euid limits) := by
  refine ⟨fun g hg => Function.update_of_ne (Nat.ne_of_lt hg) _ _, fun g r => ?_, fun t' => ?_⟩
  · show (Function.update st.limits st.groups limits g r).Ordered
    by_cases hg : g = st.groups
    · rw [hg, Function.update_self]
      exact hlimits r
    · rw [Function.update_of_ne hg]
      exact h.ordered g r
  show (Function.update st.task st.tasks ⟨euid, st.groups, none⟩ t').group < st.groups + 1
  by_cases ht : t' = st.tasks
  · rw [ht, Function.update_self]
    exact Nat.lt_succ_self _
  · rw [Function.update_of_ne ht]
    exact Nat.lt_succ_of_lt (h.group t')

theorem spares_step (h : Inv st) (hop : ∀ t, op ≠ .store t) : Spares st (step st op) := by
  cases op with
  | call t request =>
    simp only [step]
    split
    case isTrue =>
      split
      · exact Spares.refl h
      · exact spares_put h rfl
    case isFalse => exact Spares.refl h
  | store t => exact absurd rfl (hop t)
  | clone t thread =>
    simp only [step]
    split
    case isTrue =>
      split
      case isTrue => exact spares_spawn h _ (h.group t)
      case isFalse => exact spares_spawnGroup h _ (h.ordered _)
    case isFalse => exact Spares.refl h
  | construct => exact spares_spawnGroup h 0 initRlimits_ordered
  | seteuid t euid =>
    simp only [step]
    split
    case isTrue => exact spares_put h rfl
    case isFalse => exact Spares.refl h

theorem lawful_spared (h : Inv st) (hspares : Spares st (step st op)) : Lawful st op := by
  refine ⟨hspares.inv.ordered, fun t _ _ g hg r => ?_⟩
  rw [hspares.limits g hg]
  exact (h.ordered g r).under

theorem limits_store (hstore : (st.task t).store = some (resource, limit)) (g : Nat) :
    (step st (.store t)).limits g =
      if g = (st.task t).group then (rlimitSet (st.limitsOf t) resource limit).2 else st.limits g := by
  simp only [step, hstore, Function.update_apply]

theorem inv_store (h : Inv st) (hstore : (st.task t).store = some (resource, limit))
    (hnew : resourceValid resource → limit.Ordered) : Inv (step st (.store t)) := by
  refine ⟨fun g r => ?_, ?_⟩
  · rw [limits_store hstore]
    split
    case isTrue => exact rlimitSet_forall (P := fun _ l => l.Ordered) (h.ordered _) hnew r
    case isFalse => exact h.ordered g r
  have hput : Spares st (st.put t { st.task t with store := none }) := spares_put h rfl
  simp only [step, hstore]
  exact hput.inv.group

theorem lawful_iff (h : Inv st) (op : Op) : Lawful st op ↔ Allowed st op := by
  by_cases hop : ∀ t, op ≠ .store t
  · refine iff_of_true (lawful_spared h (spares_step h hop)) ?_
    cases op with
    | store t => exact absurd rfl (hop t)
    | call | clone | construct | seteuid => trivial
  rw [not_forall] at hop
  obtain ⟨t, hop⟩ := hop
  rw [not_not] at hop
  subst hop
  constructor
  · intro hlawful resource limit hstore hvalid
    have hlimit : (step st (.store t)).limits (st.task t).group resource.toNat = limit := by
      rw [limits_store hstore, if_pos rfl, rlimitSet_valid hvalid, Function.update_self]
    refine ⟨hlimit ▸ hlawful.1 _ _, ?_⟩
    cases hsuper : (st.task t).superuser with
    | true => exact Or.inl rfl
    | false =>
      have hunder := hlawful.2 t rfl hsuper _ (h.group t) resource.toNat
      rw [hlimit] at hunder
      exact Or.inr hunder.2
  intro hallowed
  cases hstore : (st.task t).store with
  | none =>
    have hsame : step st (.store t) = st := by simp only [step, hstore]
    have hspares : Spares st (step st (.store t)) := by
      rw [hsame]
      exact Spares.refl h
    exact lawful_spared h hspares
  | some p =>
    obtain ⟨resource, limit⟩ := p
    refine ⟨(inv_store h hstore fun hvalid => (hallowed resource limit hstore hvalid).1).ordered, ?_⟩
    intro t' hactor hsuper g hg r
    cases hactor
    rw [limits_store hstore]
    split
    case isTrue hgroup =>
      rw [hgroup]
      refine rlimitSet_forall (P := fun r l => l.Under (st.limitsOf t r)) (fun r => (h.ordered _ r).under) ?_ r
      intro hvalid
      obtain ⟨hordered, hroot⟩ := hallowed resource limit hstore hvalid
      have hmax := hroot.resolve_left (Bool.eq_false_iff.mp hsuper)
      exact ⟨BitVec.le_trans hordered hmax, hmax⟩
    case isFalse => exact (h.ordered g r).under

theorem inv_step (h : Inv st) (op : Op) (hallowed : Allowed st op) : Inv (step st op) := by
  by_cases hop : ∀ t, op ≠ .store t
  · exact (spares_step h hop).inv
  rw [not_forall] at hop
  obtain ⟨t, hop⟩ := hop
  rw [not_not] at hop
  subst hop
  cases hstore : (st.task t).store with
  | none =>
    simp only [step, hstore]
    exact h
  | some p => exact inv_store h hstore fun hvalid => (hallowed p.1 p.2 hstore hvalid).1

/-! ## Runs -/

/-- **Resource limits.** In a run of any calls of any tasks, the limits stay in order and no task without
privilege raises one, if and only if every store of the run is allowed. -/
theorem rlimits_iff (ops : List Op) : AllSteps step Lawful start ops ↔ AllSteps step Allowed start ops :=
  allSteps_congr (fun _ op h => lawful_iff h op) (fun _ op h hallowed => inv_step h op hallowed) inv_start

/-- The first task becomes an ordinary user and asks for 5000 open files of at most 4096. -/
def raised : List Op := [.seteuid 0 1000, .call 0 (.setrlimit64 7 (some ⟨5000, 4096⟩)), .store 0]

/-- The soft limit is above the hard limit, the one set and the one there was. -/
theorem rlimits_raised : (run step start raised).limits 0 7 = ⟨5000, 4096⟩ ∧ start.limits 0 7 = ⟨1024, 4096⟩ ∧
    ¬ AllSteps step Lawful start raised := by
  refine ⟨by decide, by decide, fun hlawful => ?_⟩
  have hordered := hlawful.2.2.1.1 0 7
  exact absurd hordered (by decide)

end IosLinuxkit.Rlimit
