import Mathlib.Logic.Function.Basic

/-!
# The table of pids

`kernel/task.c`: the slots of the pids, their lookup by any 32-bit id, and the search for a free one.

A lookup outside of the array is `none`, and the search ends if it has enough fuel.

* **`pidTable_exact_iff`** — when lookups and creations are right.
-/

namespace IosLinuxkit.PidTable

def maxPid : Nat := 32768

structure Task where
  pid : Nat
  zombie : Bool
  deriving DecidableEq

/-- `struct pid`, with the groups on its lists. -/
structure Slot where
  id : Nat
  task : Option Task
  session : List Nat
  pgroup : List Nat
  deriving DecidableEq

def Slot.empty (s : Slot) : Bool := s.task.isNone && s.session.isEmpty && s.pgroup.isEmpty

/-- `pids`, the `cur_pid` of `task_create_`, and the children of each pid. A task is in the slot of its pid. -/
structure Table where
  slot : Nat → Slot
  curPid : Nat
  children : Nat → List Nat
  own : ∀ i t, (slot i).task = some t → t.pid = i
  cur_le : curPid ≤ maxPid

/-! ## Lookups -/

/-- `&pids[id]` -/
def Table.at (tb : Table) (id : Nat) : Option Slot := if id < maxPid + 1 then some (tb.slot id) else none

def pidGet (tb : Table) (id : BitVec 32) : Option (Option Slot) :=
  if id.toNat > maxPid + 1 then some none
  else (tb.at id.toNat).map fun pid => if pid.empty then none else some pid

def pidGetTaskZombie (tb : Table) (id : BitVec 32) : Option (Option Task) := (pidGet tb id).map fun p => p.bind Slot.task

def pidGetTask (tb : Table) (id : BitVec 32) : Option (Option Task) :=
  (pidGetTaskZombie tb id).map fun t => t.filter fun t => !t.zombie

/-- The ids that `do_kill` looks up, for a caller in the group `pgid`: all of them for -1. -/
def killIds (pgid pid : BitVec 32) : List (BitVec 32) :=
  let pid := if pid = 0 then -pgid else pid
  if pid = -1 then (List.range' 2 (maxPid - 2)).map (BitVec.ofNat 32)
  else if pid.slt 0 then [-pid] else [pid]

/-! ## Creation -/

def nextPid (cur : Nat) : Nat := if cur + 1 > maxPid then 1 else cur + 1

/-- The `do` loop. -/
def pidSearch (empty : Nat → Bool) : Nat → Nat → Option Nat
  | 0, _ => none
  | fuel + 1, cur => if empty (nextPid cur) then some (nextPid cur) else pidSearch empty fuel (nextPid cur)

theorem nextPid_range (cur : Nat) : 1 ≤ nextPid cur ∧ nextPid cur ≤ maxPid := by
  unfold nextPid maxPid
  split <;> omega

theorem pidSearch_some {empty : Nat → Bool} {fuel cur i : Nat} (h : pidSearch empty fuel cur = some i) :
    1 ≤ i ∧ i ≤ maxPid ∧ empty i = true := by
  induction fuel generalizing cur with
  | zero => cases h
  | succ fuel ih =>
    rw [pidSearch] at h
    split at h
    case isTrue he =>
      cases h
      exact ⟨(nextPid_range cur).1, (nextPid_range cur).2, he⟩
    case isFalse => exact ih h

/-- `pid`, the slot at `i`, with a task of that pid or none. -/
def Table.claim (tb : Table) (i : Nat) (hi : i ≤ maxPid) (id : Nat) (zombie : Option Bool) (children : Nat → List Nat) :
    Table where
  slot := Function.update tb.slot i ⟨id, zombie.map fun z => ⟨i, z⟩, [], []⟩
  curPid := i
  children := children
  own := by
    intro j t ht
    rw [Function.update_apply] at ht
    split at ht
    case isTrue hj =>
      obtain ⟨z, -, rfl⟩ := Option.map_eq_some_iff.mp ht
      exact hj.symm
    case isFalse => exact tb.own j t ht
  cur_le := hi

/-- `task_create_`: the new pid, or `none` without memory. The first `none` is a search that has not ended. -/
def taskCreate (tb : Table) (parent : Option Task) (memory : Bool) (fuel : Nat) : Option (Option Nat × Table) :=
  match h : pidSearch (fun i => (tb.slot i).empty) fuel tb.curPid with
  | none => none
  | some i =>
    have hi := (pidSearch_some h).2.1
    if memory then
      let children := match parent with
        | none => tb.children
        | some p => Function.update tb.children p.pid (i :: tb.children p.pid)
      some (some i, tb.claim i hi i (some (parent.any Task.zombie)) children)
    else some (none, tb.claim i hi 0 none tb.children)

inductive Op
  | lookup (id : BitVec 32)
  | kill (pgid pid : BitVec 32)
  | create (parent : Option Task) (memory : Bool)

/-! ## What ought to hold -/

def Table.held (tb : Table) (id : BitVec 32) : Option Slot :=
  if id.toNat ≤ maxPid ∧ (tb.slot id.toNat).empty = false then some (tb.slot id.toNat) else none

/-- The lookups access the array only, and find the task whose pid is `id` or nothing. -/
structure Finds (tb : Table) (id : BitVec 32) : Prop where
  get : pidGet tb id = some (tb.held id)
  zombie : pidGetTaskZombie tb id = some ((tb.held id).bind Slot.task)
  task : ∃ r, pidGetTask tb id = some r ∧ ∀ t, r = some t → t.pid = id.toNat ∧ t.zombie = false ∧
    (tb.held id).bind Slot.task = some t

/-- A slot but for its `id`, which nothing reads while it is free. -/
def Slot.users (s : Slot) : Option Task × List Nat × List Nat := (s.task, s.session, s.pgroup)

def Creates (tb : Table) (parent : Option Task) : Option Nat × Table → Prop
  | (none, tb') => (∀ j, (tb'.slot j).users = (tb.slot j).users) ∧ tb'.children = tb.children
  | (some i, tb') => 1 ≤ i ∧ i ≤ maxPid ∧ (tb.slot i).empty = true ∧
      (tb'.slot i).task = some ⟨i, parent.any Task.zombie⟩ ∧ (∀ j, j ≠ i → tb'.slot j = tb.slot j) ∧
      ∀ p, tb'.children p = if ∃ q ∈ parent, q.pid = p then i :: tb.children p else tb.children p

def Exact (tb : Table) : Op → Prop
  | .lookup id => Finds tb id
  | .kill pgid pid => ∀ id ∈ killIds pgid pid, Finds tb id
  | .create parent memory => ∃ fuel r, taskCreate tb parent memory fuel = some r ∧ Creates tb parent r

/-! ## When it does -/

/-- The id is not the first past the end, and some pid is free. -/
def Allowed (tb : Table) : Op → Prop
  | .lookup id => id ≠ 32769
  | .kill pgid pid => ∀ id ∈ killIds pgid pid, id ≠ 32769
  | .create _ _ => ∃ i, 1 ≤ i ∧ i ≤ maxPid ∧ (tb.slot i).empty = true

theorem finds_iff (tb : Table) (id : BitVec 32) : Finds tb id ↔ id ≠ 32769 := by
  have hid : id ≠ 32769 ↔ id.toNat ≠ maxPid + 1 := not_congr BitVec.toNat_inj.symm
  rw [hid]
  constructor
  · intro h hend
    have hget := h.get
    unfold pidGet Table.at at hget
    rw [if_neg (by omega), if_neg (by omega)] at hget
    cases hget
  · intro hne
    have hget : pidGet tb id = some (tb.held id) := by
      unfold pidGet Table.at Table.held
      by_cases hin : id.toNat ≤ maxPid
      · rw [if_neg (by omega), if_pos (by omega)]
        cases h : (tb.slot id.toNat).empty <;> simp [hin, h]
      · rw [if_pos (by omega), if_neg fun hc => hin hc.1]
    have hzombie : pidGetTaskZombie tb id = some ((tb.held id).bind Slot.task) := by
      unfold pidGetTaskZombie
      rw [hget]
      rfl
    refine ⟨hget, hzombie, _, by rw [pidGetTask, hzombie]; rfl, fun t ht => ?_⟩
    obtain ⟨hmem, hlive⟩ := Option.filter_eq_some_iff.mp ht
    refine ⟨?_, by simpa using hlive, hmem⟩
    obtain ⟨s, hs, htask⟩ := Option.bind_eq_some_iff.mp hmem
    unfold Table.held at hs
    split at hs
    · cases hs
      exact tb.own _ t htask
    · cases hs

/-- The search reaches every pid, in the order that starts after the last one. -/
theorem pidSearch_reaches {empty : Nat → Bool} {i : Nat} (hi : 1 ≤ i) (hle : i ≤ maxPid) (he : empty i = true) (d : Nat) :
    ∀ cur, cur ≤ maxPid → i = cur + 1 + d ∨ i + maxPid = cur + 1 + d →
      (pidSearch empty (d + 1) cur).isSome = true := by
  induction d with
  | zero =>
    intro cur hcur hd
    have hnext : nextPid cur = i := by unfold nextPid; split <;> omega
    simp [pidSearch, hnext, he]
  | succ d ih =>
    intro cur hcur hd
    rw [pidSearch]
    split
    · rfl
    refine ih _ (nextPid_range cur).2 ?_
    unfold nextPid
    split <;> omega

theorem creates_of {tb : Table} {parent : Option Task} {memory : Bool} {fuel : Nat} {r : Option Nat × Table}
    (h : taskCreate tb parent memory fuel = some r) : Creates tb parent r := by
  unfold taskCreate at h
  split at h
  · cases h
  case h_2 i hsearch =>
  obtain ⟨hpos, hle, he⟩ := pidSearch_some hsearch
  cases memory with
  | true =>
    cases h
    refine ⟨hpos, hle, he, ?_, fun j hj => Function.update_of_ne hj .., fun p => ?_⟩
    · simp [Table.claim]
    cases parent with
    | none => simp [Table.claim]
    | some q =>
      by_cases hp : q.pid = p
      · simp [Table.claim, hp]
      · simp [Table.claim, hp, Function.update_of_ne (Ne.symm hp)]
  | false =>
    cases h
    refine ⟨fun j => ?_, rfl⟩
    simp only [Table.claim, Function.update_apply]
    split
    case isTrue hj =>
      subst hj
      simp only [Slot.empty, Bool.and_eq_true, Option.isNone_iff_eq_none, List.isEmpty_iff] at he
      simp [Slot.users, he]
    case isFalse => rfl

/-- **Lookups and creations** do what they ought to if and only if no lookup is for the first id past the end, and a
creation finds a free pid. -/
theorem pidTable_exact_iff (tb : Table) (op : Op) : Exact tb op ↔ Allowed tb op := by
  cases op with
  | lookup id => exact finds_iff tb id
  | kill pgid pid => exact forall₂_congr fun id _ => finds_iff tb id
  | create parent memory =>
    constructor
    · rintro ⟨fuel, r, h, -⟩
      unfold taskCreate at h
      split at h
      · cases h
      case h_2 i hsearch => exact ⟨i, pidSearch_some hsearch⟩
    · rintro ⟨i, hpos, hle, he⟩
      have hcur := tb.cur_le
      obtain ⟨d, hd⟩ : ∃ d, i = tb.curPid + 1 + d ∨ i + maxPid = tb.curPid + 1 + d := by
        by_cases hlt : tb.curPid < i
        · exact ⟨i - tb.curPid - 1, by omega⟩
        · exact ⟨i + maxPid - tb.curPid - 1, by omega⟩
      have hsome := @pidSearch_reaches (fun i => (tb.slot i).empty) _ hpos hle he d tb.curPid hcur hd
      obtain ⟨r, hr⟩ : ∃ r, taskCreate tb parent memory (d + 1) = some r := by
        unfold taskCreate
        split
        case h_1 hnone => simp [hnone] at hsome
        case h_2 => cases memory <;> exact ⟨_, rfl⟩
      exact ⟨d + 1, r, hr, creates_of hr⟩

def vacant : Table := ⟨fun _ => ⟨0, none, [], []⟩, 0, fun _ => [], by simp, by decide⟩

/-- The bound lets 32769 through. -/
theorem lookup_past_end : ¬ ∀ tb op, Exact tb op := by
  intro h
  have hget := (h vacant (.lookup 32769)).get
  exact absurd hget (by decide)

end IosLinuxkit.PidTable
