import Mathlib.Algebra.BigOperators.Intervals
import Mathlib.Data.BitVec

/-!
# Carry-less multiplication

The product of two bit vectors as polynomials over the field of two elements: shifted copies of
one factor, one for each bit of the other.

* **`clmul_comm`** — the factors can be exchanged.
-/

namespace IosLinuxkit.Clmul

variable {k l m : Nat}

/-- The low `m` coefficients of the product. -/
def clmul (m : Nat) (a : BitVec k) (b : BitVec l) : BitVec m :=
  (List.range k).foldl (fun r i => if a.getLsbD i then r ^^^ b.setWidth m <<< i else r) 0

def term (a : BitVec k) (b : BitVec l) (d i : Nat) : Nat :=
  if a.getLsbD i ∧ i ≤ d ∧ b.getLsbD (d - i) then 1 else 0

theorem term_flip (a : BitVec k) (b : BitVec l) {d i : Nat} (hi : i ≤ d) :
    term a b d (d - i) = term b a d i := by
  unfold term
  rw [show d - (d - i) = i from by omega]
  apply if_congr _ rfl rfl
  constructor
  · rintro ⟨ha, -, hb⟩
    exact ⟨hb, hi, ha⟩
  · rintro ⟨hb, -, ha⟩
    exact ⟨ha, Nat.sub_le d i, hb⟩

theorem parity_succ (x : Nat) : decide ((x + 1) % 2 = 1) = !decide (x % 2 = 1) := by
  rcases Nat.mod_two_eq_zero_or_one x with h | h
  · rw [decide_eq_true (show (x + 1) % 2 = 1 from by omega),
      decide_eq_false (show ¬ x % 2 = 1 from by omega)]
    rfl
  · rw [decide_eq_false (show ¬ (x + 1) % 2 = 1 from by omega), decide_eq_true h]
    rfl

theorem getLsbD_foldl (a : BitVec k) (b : BitVec l) {d : Nat} (hd : d < m) (j : Nat) :
    ((List.range j).foldl (fun r i => if a.getLsbD i then r ^^^ b.setWidth m <<< i else r)
      (0 : BitVec m)).getLsbD d = decide ((∑ i ∈ Finset.range j, term a b d i) % 2 = 1) := by
  induction j with
  | zero =>
    show (0#m).getLsbD d = _
    rw [BitVec.getLsbD_zero]
    rfl
  | succ j ih =>
    rw [List.range_succ, List.foldl_append, Finset.sum_range_succ]
    show (if a.getLsbD j = true then _ else _ : BitVec m).getLsbD d = _
    have hshift : (b.setWidth m <<< j).getLsbD d = decide (j ≤ d ∧ b.getLsbD (d - j)) := by
      rw [BitVec.getLsbD_shiftLeft, BitVec.getLsbD_setWidth, decide_eq_true hd, Bool.true_and]
      rcases Nat.lt_or_ge d j with hlt | hge
      · rw [decide_eq_true hlt,
          decide_eq_false (show ¬ (j ≤ d ∧ b.getLsbD (d - j) = true) from fun h => by omega)]
        rfl
      rw [decide_eq_false (show ¬ d < j from by omega),
        decide_eq_true (show d - j < m from by omega), Bool.not_false, Bool.true_and,
        Bool.true_and, Bool.decide_and, decide_eq_true hge, Bool.true_and, Bool.decide_eq_true]
    unfold term
    by_cases ha : a.getLsbD j = true
    · rw [if_pos ha, BitVec.getLsbD_xor, ih, hshift]
      by_cases hb : j ≤ d ∧ b.getLsbD (d - j) = true
      · rw [decide_eq_true hb, if_pos ⟨ha, hb⟩, Bool.xor_true]
        exact (parity_succ _).symm
      · rw [decide_eq_false hb, if_neg (fun h => hb h.2), Bool.xor_false]
        rfl
    · rw [if_neg ha, ih, if_neg (fun h => ha h.1)]
      rfl

theorem sum_term (a : BitVec k) (b : BitVec l) (d : Nat) :
    ∑ i ∈ Finset.range k, term a b d i = ∑ i ∈ Finset.range (d + 1), term a b d i := by
  have hall : ∀ j, (∀ i, j ≤ i → term a b d i = 0) →
      ∑ i ∈ Finset.range j, term a b d i = ∑ i ∈ Finset.range (max k (d + 1)), term a b d i := by
    intro j hj
    rcases Nat.le_total j (max k (d + 1)) with hle | hge
    · refine Finset.sum_subset (Finset.range_subset_range.mpr hle) fun i _ hi => hj i ?_
      exact Nat.le_of_not_lt fun h => hi (Finset.mem_range.mpr h)
    refine (Finset.sum_subset (Finset.range_subset_range.mpr hge) fun i _ hi => ?_).symm
    have hi' : max k (d + 1) ≤ i := Nat.le_of_not_lt fun h => hi (Finset.mem_range.mpr h)
    exact if_neg fun h => absurd h.2.1 (by omega)
  rw [hall k, ← hall (d + 1)]
  · intro i hi
    exact if_neg fun h => absurd h.2.1 (by omega)
  · intro i hi
    exact if_neg fun h => by rw [BitVec.getLsbD_of_ge a i hi] at h; cases h.1

theorem getLsbD_clmul (a : BitVec k) (b : BitVec l) {d : Nat} (hd : d < m) :
    (clmul m a b).getLsbD d = decide ((∑ i ∈ Finset.range (d + 1), term a b d i) % 2 = 1) := by
  unfold clmul
  rw [getLsbD_foldl a b hd, sum_term]

theorem clmul_comm (a : BitVec k) (b : BitVec l) : clmul m a b = clmul m b a := by
  apply BitVec.eq_of_getLsbD_eq
  intro d hd
  have hsum : ∑ i ∈ Finset.range (d + 1), term a b d i = ∑ i ∈ Finset.range (d + 1), term b a d i := by
    rw [← Finset.sum_flip]
    refine Finset.sum_congr rfl fun i hi => term_flip a b ?_
    exact Nat.le_of_lt_succ (Finset.mem_range.mp hi)
  rw [getLsbD_clmul a b hd, getLsbD_clmul b a hd, hsum]

end IosLinuxkit.Clmul
