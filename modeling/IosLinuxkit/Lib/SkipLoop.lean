import Mathlib.Data.List.Basic

/-!
# Loops that skip

`for (p = start; p < stop; p = next p) body(p)`, where `next` may jump over numbers at which the
body would do nothing.

* **`skipLoop_eq_foldl`** — such a loop is the plain loop over every number of the range.
* `visited_pairwise`, **`visited_filter`** — it visits its numbers once each in increasing order,
  and among them every one that may not be jumped over.
-/

namespace IosLinuxkit

variable {σ : Type} {body : σ → Nat → σ} {next : σ → Nat → Nat} {stop fuel p q : Nat} {s : σ}

/-- The loop from `p` on; `fuel` bounds the iterations, which each advance the number. -/
def skipLoop (body : σ → Nat → σ) (next : σ → Nat → Nat) (stop : Nat) : Nat → Nat → σ → σ
  | 0, _, s => s
  | fuel + 1, p, s =>
    if p < stop then skipLoop body next stop fuel (next (body s p) p) (body s p) else s

/-- The numbers at which the loop runs its body when the state does not matter. -/
def visited (next : Nat → Nat) (stop : Nat) : Nat → Nat → List Nat
  | 0, _ => []
  | fuel + 1, p => if p < stop then p :: visited next stop fuel (next p) else []

theorem foldl_range'_skip (hskip : ∀ r, p ≤ r → r < q → body s r = s) (hle : p ≤ q) :
    (List.range' p (stop - p)).foldl body s = (List.range' q (stop - q)).foldl body s := by
  induction hle with
  | refl => rfl
  | @step m hm ih =>
    rw [ih fun r hr hlt => hskip r hr (Nat.lt_succ_of_lt hlt)]
    by_cases hstop : m < stop
    · have hlen : stop - m = stop - (m + 1) + 1 := by omega
      rw [hlen, List.range'_succ, List.foldl_cons, hskip m hm (Nat.lt_succ_self m)]
    · rw [show stop - m = 0 by omega, show stop - (m + 1) = 0 by omega]
      rfl

theorem skipLoop_eq_foldl (hlt : ∀ s p, p < next s p)
    (hskip : ∀ s p r, p < r → r < next s p → body s r = s) (hfuel : stop - p ≤ fuel) :
    skipLoop body next stop fuel p s = (List.range' p (stop - p)).foldl body s := by
  induction fuel generalizing p s with
  | zero =>
    rw [Nat.le_zero.mp hfuel]
    rfl
  | succ fuel ih =>
    unfold skipLoop
    split
    case isTrue hp =>
      have hadv := hlt (body s p) p
      rw [ih (by omega), show stop - p = stop - (p + 1) + 1 by omega, List.range'_succ,
        List.foldl_cons]
      exact (foldl_range'_skip (fun r hr hr' => hskip (body s p) p r hr hr') hadv).symm
    case isFalse hp =>
      rw [show stop - p = 0 by omega]
      rfl

section Visited

variable {next : Nat → Nat}

theorem mem_visited (hlt : ∀ p, p < next p) (hq : q ∈ visited next stop fuel p) :
    p ≤ q ∧ q < stop := by
  induction fuel generalizing p with
  | zero => exact absurd hq (by simp [visited])
  | succ fuel ih =>
    unfold visited at hq
    split at hq
    case isTrue hp =>
      rcases List.mem_cons.mp hq with rfl | hq
      · exact ⟨Nat.le_refl _, hp⟩
      have := ih hq
      have := hlt p
      omega
    case isFalse => exact absurd hq (by simp)

theorem visited_pairwise (hlt : ∀ p, p < next p) : (visited next stop fuel p).Pairwise (· < ·) := by
  induction fuel generalizing p with
  | zero => exact .nil
  | succ fuel ih =>
    unfold visited
    split
    · refine List.pairwise_cons.mpr ⟨fun q hq => ?_, ih⟩
      exact Nat.lt_of_lt_of_le (hlt p) (mem_visited hlt hq).1
    · exact .nil

theorem filter_range'_skip {P : Nat → Bool} (hskip : ∀ r, p ≤ r → r < q → P r = false)
    (hle : p ≤ q) : (List.range' p (stop - p)).filter P = (List.range' q (stop - q)).filter P := by
  induction hle with
  | refl => rfl
  | @step m hm ih =>
    rw [ih fun r hr hlt => hskip r hr (Nat.lt_succ_of_lt hlt)]
    by_cases hstop : m < stop
    · rw [show stop - m = stop - (m + 1) + 1 by omega, List.range'_succ, List.filter_cons_of_neg]
      rw [hskip m hm (Nat.lt_succ_self m)]
      exact Bool.false_ne_true
    · rw [show stop - m = 0 by omega, show stop - (m + 1) = 0 by omega]
      rfl

theorem visited_filter {P : Nat → Bool} (hlt : ∀ p, p < next p)
    (hskip : ∀ p r, p < r → r < next p → P r = false) (hfuel : stop - p ≤ fuel) :
    (visited next stop fuel p).filter P = (List.range' p (stop - p)).filter P := by
  induction fuel generalizing p with
  | zero =>
    rw [Nat.le_zero.mp hfuel]
    rfl
  | succ fuel ih =>
    unfold visited
    split
    case isTrue hp =>
      have hadv := hlt p
      rw [show stop - p = stop - (p + 1) + 1 by omega, List.range'_succ, List.filter_cons,
        List.filter_cons, ih (by omega), filter_range'_skip (fun r hr => hskip p r hr) hadv]
    case isFalse hp =>
      rw [show stop - p = 0 by omega]
      rfl

end Visited

end IosLinuxkit
