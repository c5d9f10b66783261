import Mathlib.Data.List.Perm.Basic

/-!
# Counted objects

Objects with counts of their references, by address. An object is freed with its last reference, so a count is
never zero.

* **`drop_retain`**, **`drop_alloc`** — dropping undoes retaining and allocating.
* **`dropAll_retainAll`** — references are dropped in any order.
-/

namespace IosLinuxkit

variable {α : Type}

structure Counted (α : Type) where
  refs : Nat
  pos : 0 < refs
  val : α

abbrev Refs (α : Type) := Nat → Option (Counted α)

namespace Refs

variable {r : Refs α} {a b : Nat} {v : α} {l l' : List Nat}

def val (r : Refs α) (a : Nat) : Option α := (r a).map Counted.val

/-- An address for a new object: `malloc` gives one that is not in use, or none. -/
def fresh (r : Refs α) (a : Option Nat) : Option Nat := a.filter fun a => (r a).isNone

def alloc (r : Refs α) (a : Nat) (v : α) : Refs α := Function.update r a (some ⟨1, Nat.one_pos, v⟩)

def retain (r : Refs α) (a : Nat) : Refs α :=
  Function.update r a ((r a).map fun c => ⟨c.refs + 1, Nat.succ_pos _, c.val⟩)

/-- The object that is freed when a reference is dropped. -/
def dies (r : Refs α) (a : Nat) : Option α :=
  match r a with
  | none => none
  | some c => if c.refs = 1 then some c.val else none

def drop (r : Refs α) (a : Nat) : Refs α :=
  Function.update r a ((r a).bind fun c =>
    if h : c.refs = 1 then none else some ⟨c.refs - 1, Nat.sub_pos_of_lt (Nat.lt_of_le_of_ne c.pos (Ne.symm h)), c.val⟩)

def modify (r : Refs α) (a : Nat) (f : α → α) : Refs α :=
  Function.update r a ((r a).map fun c => { c with val := f c.val })

def retainAll (r : Refs α) (l : List Nat) : Refs α := l.foldl retain r

def dropAll (r : Refs α) (l : List Nat) : Refs α := l.foldl drop r

/-- One more reference, to the object at `a`, than `r` has; the references in `l` go with it. -/
structure Held (inner : α → List Nat) (r r' : Refs α) (a : Nat) (l : List Nat) : Prop where
  drop : r'.drop a = r
  inner : ((r'.dies a).map inner).getD [] = l

/-! ## One reference -/

theorem fresh_eq_some {o : Option Nat} (h : r.fresh o = some a) : r a = none := by
  obtain ⟨-, hfree⟩ := Option.filter_eq_some_iff.mp h
  exact Option.isNone_iff_eq_none.mp hfree

@[simp] theorem val_retain (r : Refs α) (a b : Nat) : (r.retain a).val b = r.val b := by
  unfold val retain
  by_cases hb : b = a
  · rw [hb, Function.update_self, Option.map_map]
    rfl
  · rw [Function.update_of_ne hb]

@[simp] theorem dies_retain (r : Refs α) (a : Nat) : (r.retain a).dies a = none := by
  unfold dies retain
  rw [Function.update_self]
  cases r a with
  | none => rfl
  | some c => exact if_neg (Nat.succ_ne_succ_iff.mpr (Nat.ne_of_gt c.pos))

@[simp] theorem drop_retain (r : Refs α) (a : Nat) : (r.retain a).drop a = r := by
  unfold drop retain
  rw [Function.update_idem, Function.update_self]
  cases ha : r a with
  | none => rw [Option.map_none, Option.bind_none, ← ha, Function.update_eq_self]
  | some c =>
    have hne : c.refs + 1 ≠ 1 := Nat.succ_ne_succ_iff.mpr (Nat.ne_of_gt c.pos)
    rw [Option.map_some, Option.bind_some, dif_neg hne]
    exact (congrArg (Function.update r a) ha.symm).trans (Function.update_eq_self a r)

@[simp] theorem val_alloc (r : Refs α) (a : Nat) (v : α) : (r.alloc a v).val a = some v := by
  unfold val alloc
  rw [Function.update_self]
  rfl

@[simp] theorem dies_alloc (r : Refs α) (a : Nat) (v : α) : (r.alloc a v).dies a = some v := by
  unfold dies alloc
  rw [Function.update_self]
  exact if_pos rfl

theorem drop_alloc (h : r a = none) (v : α) : (r.alloc a v).drop a = r := by
  unfold drop alloc
  rw [Function.update_idem, Function.update_self, Option.bind_some, dif_pos rfl, ← h, Function.update_eq_self]

theorem val_alloc_ne (h : b ≠ a) (v : α) : (r.alloc a v).val b = r.val b := by
  unfold val alloc
  rw [Function.update_of_ne h]

theorem held_retain (inner : α → List Nat) (r : Refs α) (a : Nat) : Held inner r (r.retain a) a [] :=
  ⟨drop_retain r a, by rw [dies_retain]; rfl⟩

theorem held_alloc (inner : α → List Nat) (h : r a = none) (v : α) : Held inner r (r.alloc a v) a (inner v) :=
  ⟨drop_alloc h v, by rw [dies_alloc]; rfl⟩

/-! ## Several references -/

theorem retain_comm (r : Refs α) (a b : Nat) : (r.retain a).retain b = (r.retain b).retain a := by
  obtain rfl | hab := eq_or_ne a b
  · rfl
  · unfold retain
    rw [Function.update_of_ne hab.symm, Function.update_of_ne hab, Function.update_comm hab]

theorem retainAll_perm (r : Refs α) (h : l.Perm l') : r.retainAll l = r.retainAll l' := by
  have hcomm : RightCommutative (retain : Refs α → Nat → Refs α) := ⟨retain_comm⟩
  exact h.foldl_eq r

theorem retainAll_append (r : Refs α) (l l' : List Nat) : r.retainAll (l ++ l') = (r.retainAll l).retainAll l' :=
  List.foldl_append

theorem dropAll_retainAll (r : Refs α) (h : l.Perm l') : (r.retainAll l).dropAll l' = r := by
  rw [retainAll_perm r (h.trans l'.reverse_perm.symm)]
  clear h
  induction l' generalizing r with
  | nil => rfl
  | cons a l' ih =>
    rw [List.reverse_cons, retainAll_append]
    show ((r.retainAll l'.reverse).retain a |>.drop a).dropAll l' = r
    rw [drop_retain, ih]

end Refs

end IosLinuxkit
