import Mathlib.Data.List.Nodup

/-!
# Families of intrusive lists

A C program that embeds list nodes in its objects (`util/list.h` style) has, for each kind
of node, a family of list heads; every object sits on at most one list of the family. The
family is a function from heads to the lists of objects on them. Adding puts an object at
the front of one list; removing takes it off whichever list it is on, which the C code does
through the neighbours' pointers without knowing the head.

`Exact` is for objects that know where they are: a field of each names the list that it is on.
-/

namespace IosLinuxkit.Ilist

variable {H N : Type} [DecidableEq H] [DecidableEq N]

/-- `list_add`: object `n` becomes the first one on the list of `h`. -/
def add (f : H → List N) (h : H) (n : N) : H → List N :=
  Function.update f h (n :: f h)

/-- `list_remove`: object `n` is taken off the list it is on. -/
def remove (f : H → List N) (n : N) : H → List N :=
  fun h => (f h).erase n

def Nodups (f : H → List N) : Prop := ∀ h, (f h).Nodup

omit [DecidableEq N] in
theorem mem_add {f : H → List N} {h k : H} {n m : N} :
    m ∈ add f h n k ↔ (k = h ∧ m = n) ∨ m ∈ f k := by
  unfold add
  by_cases hk : k = h
  · subst hk
    rw [Function.update_self, List.mem_cons]
    simp
  · rw [Function.update_of_ne hk]
    simp [hk]

omit [DecidableEq H] in
theorem mem_remove {f : H → List N} (hf : Nodups f) {k : H} {n m : N} :
    m ∈ remove f n k ↔ m ≠ n ∧ m ∈ f k :=
  (hf k).mem_erase_iff

omit [DecidableEq N] in
theorem nodups_add {f : H → List N} (hf : Nodups f) {h : H} {n : N} (hn : n ∉ f h) :
    Nodups (add f h n) := by
  intro k
  unfold add
  by_cases hk : k = h
  · subst hk
    rw [Function.update_self]
    exact List.nodup_cons.mpr ⟨hn, hf k⟩
  · rw [Function.update_of_ne hk]
    exact hf k

omit [DecidableEq H] in
theorem nodups_remove {f : H → List N} (hf : Nodups f) (n : N) : Nodups (remove f n) :=
  fun k => (hf k).erase n

/-- Adding a list of objects, each to the head `key` picks for it. -/
def addAll (key : N → H) (f : H → List N) (ns : List N) : H → List N :=
  ns.foldl (fun g n => add g (key n) n) f

omit [DecidableEq N] in
theorem mem_addAll {key : N → H} {ns : List N} {f : H → List N} {k : H} {m : N} :
    m ∈ addAll key f ns k ↔ (m ∈ ns ∧ k = key m) ∨ m ∈ f k := by
  induction ns generalizing f with
  | nil => simp [addAll]
  | cons n ns ih =>
    rw [show addAll key f (n :: ns) = addAll key (add f (key n) n) ns from rfl, ih, mem_add,
      List.mem_cons]
    constructor
    · rintro (⟨h1, h2⟩ | ⟨h1, rfl⟩ | h)
      · exact Or.inl ⟨Or.inr h1, h2⟩
      · exact Or.inl ⟨Or.inl rfl, h1⟩
      · exact Or.inr h
    rintro (⟨rfl | h1, h2⟩ | h)
    · exact Or.inr (Or.inl ⟨h2, rfl⟩)
    · exact Or.inl ⟨h1, h2⟩
    · exact Or.inr (Or.inr h)

omit [DecidableEq N] in
theorem nodups_addAll {key : N → H} {ns : List N} {f : H → List N} (hf : Nodups f)
    (hns : ns.Nodup) (hnew : ∀ n ∈ ns, n ∉ f (key n)) : Nodups (addAll key f ns) := by
  induction ns generalizing f with
  | nil => exact hf
  | cons n ns ih =>
    obtain ⟨hn, hns⟩ := List.nodup_cons.mp hns
    refine ih (nodups_add hf (hnew n List.mem_cons_self)) hns fun m hm => ?_
    rw [mem_add]
    rintro (⟨-, rfl⟩ | hmem)
    · exact hn hm
    · exact hnew m (List.mem_cons_of_mem n hm) hmem

/-! ## A node for the head -/

/-- `n` comes right after `m`, where `m` is. -/
def insertAfter (m n : N) : List N → List N
  | [] => []
  | k :: l => if k = m then k :: n :: l else k :: insertAfter m n l

/-- `list_add` with the node of `m` for a head. -/
def addAfter (f : H → List N) (m n : N) : H → List N :=
  fun h => insertAfter m n (f h)

theorem mem_insertAfter {m n k : N} {l : List N} :
    k ∈ insertAfter m n l ↔ (m ∈ l ∧ k = n) ∨ k ∈ l := by
  induction l with
  | nil => simp [insertAfter]
  | cons a l ih =>
    unfold insertAfter
    split
    case isTrue ha =>
      subst ha
      simp only [List.mem_cons, true_or, true_and]
      exact or_left_comm
    case isFalse ha =>
      simp only [List.mem_cons, ih, Ne.symm ha, false_or]
      exact or_left_comm

theorem nodup_insertAfter {m n : N} {l : List N} (hl : l.Nodup) (hn : n ∉ l) :
    (insertAfter m n l).Nodup := by
  induction l with
  | nil => exact hl
  | cons a l ih =>
    obtain ⟨hna, hnl⟩ := not_or.mp (List.mem_cons.not.mp hn)
    obtain ⟨hal, hl⟩ := List.nodup_cons.mp hl
    unfold insertAfter
    split
    · refine List.nodup_cons.mpr ⟨fun ha => ?_, List.nodup_cons.mpr ⟨hnl, hl⟩⟩
      rcases List.mem_cons.mp ha with rfl | ha
      · exact hna rfl
      · exact hal ha
    refine List.nodup_cons.mpr ⟨fun ha => ?_, ih hl hnl⟩
    rcases mem_insertAfter.mp ha with ⟨_, rfl⟩ | ha
    · exact hna rfl
    · exact hal ha

/-! ## Objects that know their list -/

/-- An object is on the list at the head that `place` names, and on no other. -/
structure Exact (f : H → List N) (place : N → Option H) : Prop where
  mem : ∀ n h, n ∈ f h ↔ place n = some h
  nodups : Nodups f

namespace Exact

variable {f : H → List N} {place : N → Option H} {h : H} {m n : N}

omit [DecidableEq H] [DecidableEq N] in
theorem empty : Exact (fun _ : H => ([] : List N)) (fun _ => none) :=
  ⟨fun _ _ => ⟨fun hn => (by cases hn), fun hn => (by cases hn)⟩, fun _ => List.nodup_nil⟩

omit [DecidableEq H] in
theorem remove (hx : Exact f place) (n : N) : Exact (remove f n) (Function.update place n none) := by
  refine ⟨fun k h => ?_, nodups_remove hx.nodups n⟩
  rw [mem_remove hx.nodups, hx.mem]
  by_cases hk : k = n
  · subst hk
    rw [Function.update_self]
    exact ⟨fun hc => absurd rfl hc.1, fun hc => by cases hc⟩
  · rw [Function.update_of_ne hk]
    exact ⟨And.right, fun hc => ⟨hk, hc⟩⟩

theorem add (hx : Exact f place) (hn : place n = none) (h : H) :
    Exact (add f h n) (Function.update place n (some h)) := by
  have hoff : ∀ k, n ∉ f k := by
    intro k hk
    rw [hx.mem, hn] at hk
    cases hk
  refine ⟨fun k h' => ?_, nodups_add hx.nodups (hoff h)⟩
  rw [mem_add]
  by_cases hk : k = n
  · subst hk
    rw [Function.update_self]
    refine ⟨fun hc => ?_, fun hc => .inl ⟨(Option.some.inj hc).symm, rfl⟩⟩
    rcases hc with ⟨rfl, _⟩ | hc
    · rfl
    · exact absurd hc (hoff h')
  · rw [Function.update_of_ne hk, ← hx.mem]
    exact ⟨fun hc => hc.resolve_left fun hc => hk hc.2, .inr⟩

theorem move (hx : Exact f place) (n : N) (h : H) :
    Exact (Ilist.add (Ilist.remove f n) h n) (Function.update place n (some h)) := by
  have hadd := (hx.remove n).add (Function.update_self n none place) h
  rwa [Function.update_idem] at hadd

omit [DecidableEq H] in
theorem addAfter (hx : Exact f place) (hm : place m = some h) (hn : place n = none) :
    Exact (addAfter f m n) (Function.update place n (some h)) := by
  have hoff : ∀ k, n ∉ f k := by
    intro k hk
    rw [hx.mem, hn] at hk
    cases hk
  refine ⟨fun k h' => ?_, fun k => nodup_insertAfter (hx.nodups k) (hoff k)⟩
  rw [show k ∈ Ilist.addAfter f m n h' ↔ _ from mem_insertAfter, hx.mem, hm]
  by_cases hk : k = n
  · subst hk
    rw [Function.update_self]
    exact ⟨fun hc => hc.elim And.left fun hc => absurd hc (hoff h'), fun hc => .inl ⟨hc, rfl⟩⟩
  · rw [Function.update_of_ne hk, ← hx.mem]
    exact ⟨fun hc => hc.resolve_left fun hc => hk hc.2, .inr⟩

end Exact

end IosLinuxkit.Ilist
