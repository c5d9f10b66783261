import Mathlib.Data.List.Basic
import Mathlib.Order.Lattice

/-!
# Scans for a minimum

`for (i = 0; i < n; i++) if (p(x[i]) && key(x[i]) < bound) { best = i; bound = key(x[i]); }`: the first of the
elements with the smallest key, among those that are under the bound to begin with.

* **`scanMin_spec`** — where the scan ends, by the place of the element it has found.
-/

namespace IosLinuxkit

variable {α κ : Type} [LinearOrder κ] {p : α → Bool} {key : α → κ} {i : Nat} {best : Option Nat} {bound : κ}
  {xs : List α}

/-- The scan from index `i` on, with the best index and key so far. -/
def scanMin (p : α → Bool) (key : α → κ) : Nat → Option Nat → κ → List α → Option Nat
  | _, best, _, [] => best
  | i, best, bound, x :: xs =>
    if p x ∧ key x < bound then scanMin p key (i + 1) (some i) (key x) xs
    else scanMin p key (i + 1) best bound xs

structure FirstMin (p : α → Bool) (key : α → κ) (xs pre : List α) (m : α) (post : List α) : Prop where
  split : xs = pre ++ m :: post
  holds : p m = true
  pre : ∀ x ∈ pre, p x = true → key m < key x
  post : ∀ x ∈ post, p x = true → key m ≤ key x

theorem FirstMin.cons {pre post : List α} {m x : α} (h : FirstMin p key xs pre m post)
    (hx : p x = true → key m < key x) : FirstMin p key (x :: xs) (x :: pre) m post := by
  refine ⟨by rw [h.split, List.cons_append], h.holds, fun y hy hp => ?_, h.post⟩
  cases List.mem_cons.mp hy with
  | inl heq => exact heq ▸ hx (heq ▸ hp)
  | inr hmem => exact h.pre y hmem hp

theorem scanMin_spec (p : α → Bool) (key : α → κ) (i : Nat) (best : Option Nat) (bound : κ) (xs : List α) :
    ((∀ x ∈ xs, p x = true → bound ≤ key x) ∧ scanMin p key i best bound xs = best) ∨
    ∃ pre m post, FirstMin p key xs pre m post ∧ key m < bound ∧
      scanMin p key i best bound xs = some (i + pre.length) := by
  induction xs generalizing i best bound with
  | nil => exact Or.inl ⟨fun x hx => absurd hx List.not_mem_nil, rfl⟩
  | cons x xs ih =>
    unfold scanMin
    split
    case isTrue hbetter =>
      right
      cases ih (i + 1) (some i) (key x) with
      | inl hnone =>
        -- `x` stays the best
        exact ⟨[], x, xs, ⟨rfl, hbetter.1, fun y hy => absurd hy List.not_mem_nil, hnone.1⟩, hbetter.2, hnone.2⟩
      | inr hsome =>
        obtain ⟨pre, m, post, hmin, hlt, hscan⟩ := hsome
        refine ⟨x :: pre, m, post, hmin.cons fun _ => hlt, lt_trans hlt hbetter.2, ?_⟩
        rw [hscan, List.length_cons]
        congr 1
        omega
    case isFalse hworse =>
      have hle : p x = true → bound ≤ key x := fun hp => not_lt.mp fun hlt => hworse ⟨hp, hlt⟩
      cases ih (i + 1) best bound with
      | inl hnone =>
        refine Or.inl ⟨fun y hy hp => ?_, hnone.2⟩
        cases List.mem_cons.mp hy with
        | inl heq => exact heq ▸ hle (heq ▸ hp)
        | inr hmem => exact hnone.1 y hmem hp
      | inr hsome =>
        obtain ⟨pre, m, post, hmin, hlt, hscan⟩ := hsome
        refine Or.inr ⟨x :: pre, m, post, hmin.cons fun hp => lt_of_lt_of_le hlt (hle hp), hlt, ?_⟩
        rw [hscan, List.length_cons]
        congr 1
        omega

def scanFirst (p : α → Bool) : Nat → List α → Option Nat
  | _, [] => none
  | i, x :: xs => if p x then some i else scanFirst p (i + 1) xs

theorem scanFirst_spec (p : α → Bool) (i : Nat) (xs : List α) :
    ((∀ x ∈ xs, p x = false) ∧ scanFirst p i xs = none) ∨
    ∃ pre m post, xs = pre ++ m :: post ∧ p m = true ∧ (∀ x ∈ pre, p x = false) ∧
      scanFirst p i xs = some (i + pre.length) := by
  induction xs generalizing i with
  | nil => exact Or.inl ⟨fun x hx => absurd hx List.not_mem_nil, rfl⟩
  | cons x xs ih =>
    unfold scanFirst
    split
    case isTrue hx => exact Or.inr ⟨[], x, xs, rfl, hx, fun y hy => absurd hy List.not_mem_nil, rfl⟩
    case isFalse hx =>
      have hx : p x = false := Bool.eq_false_iff.mpr hx
      cases ih (i + 1) with
      | inl hnone => exact Or.inl ⟨List.forall_mem_cons.mpr ⟨hx, hnone.1⟩, hnone.2⟩
      | inr hsome =>
        obtain ⟨pre, m, post, hsplit, hm, hpre, hscan⟩ := hsome
        refine Or.inr ⟨x :: pre, m, post, by rw [hsplit, List.cons_append], hm,
          List.forall_mem_cons.mpr ⟨hx, hpre⟩, ?_⟩
        rw [hscan, List.length_cons]
        congr 1
        omega

end IosLinuxkit
