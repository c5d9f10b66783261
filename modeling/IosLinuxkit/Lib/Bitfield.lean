import Mathlib.Data.BitVec

/-!
# Fields packed into a word

A word is put together from fields of known width with `|` and `<<` (`put`), and taken apart
again with shifts and masks. The lemmas say which bits of a packed word a read sees: the
field put there, and nothing of the fields below or above it.
-/

namespace IosLinuxkit.Bitfield

/-- The field `f`, moved up to bit `k` of a word of `n` bits. -/
def put {n w : Nat} (f : BitVec w) (k : Nat) : BitVec n := f.setWidth n <<< k

variable {n w v k l : Nat}

theorem put_zero (f : BitVec w) : (put f 0 : BitVec n) = f.setWidth n :=
  BitVec.shiftLeft_zero _

/-! ## Reading a field -/

@[simp] theorem extract_put_self (f : BitVec w) (k : Nat) (h : k + w ≤ n) :
    (put f k : BitVec n).extractLsb' k w = f := by
  apply BitVec.eq_of_getLsbD_eq
  intro i hi
  rw [BitVec.getLsbD_extractLsb', put, BitVec.getLsbD_shiftLeft, BitVec.getLsbD_setWidth,
    show k + i - k = i from by omega]
  have hin : k + i < n := by omega
  have hlow : i < n := by omega
  simp [hi, hin, hlow]

@[simp] theorem extract_put_above (f : BitVec v) (h : l + w ≤ k) :
    (put f k : BitVec n).extractLsb' l w = 0#w := by
  apply BitVec.eq_of_getLsbD_eq
  intro i hi
  rw [BitVec.getLsbD_extractLsb', put, BitVec.getLsbD_shiftLeft]
  have hbelow : l + i < k := by omega
  simp [hbelow]

@[simp] theorem extract_put_below (f : BitVec v) (h : k + v ≤ l) :
    (put f k : BitVec n).extractLsb' l w = 0#w := by
  apply BitVec.eq_of_getLsbD_eq
  intro i hi
  rw [BitVec.getLsbD_extractLsb', put, BitVec.getLsbD_shiftLeft, BitVec.getLsbD_setWidth,
    BitVec.getLsbD_of_ge f _ (show v ≤ l + i - k from by omega)]
  simp

theorem extract_put_within (f : BitVec v) (hl : l ≤ k) (hw : k + v ≤ l + w) (hn : l + w ≤ n) :
    ((put f k : BitVec n).extractLsb' l w).setWidth n = put f (k - l) := by
  apply BitVec.eq_of_getLsbD_eq
  intro i hi
  rw [BitVec.getLsbD_setWidth, BitVec.getLsbD_extractLsb', put, put, BitVec.getLsbD_shiftLeft,
    BitVec.getLsbD_shiftLeft, BitVec.getLsbD_setWidth, BitVec.getLsbD_setWidth,
    show l + i - k = i - (k - l) from by omega]
  by_cases hlow : i < k - l
  · have hlow' : l + i < k := by omega
    simp [hlow, hlow']
  by_cases hin : i - (k - l) < v
  · have hn' : l + i < n := by omega
    have hw' : i < w := by omega
    have hlow' : ¬ l + i < k := by omega
    simp [hlow, hlow', hn', hw', hi]
  · rw [BitVec.getLsbD_of_ge f _ (by omega)]
    simp

theorem getLsbD_put (f : BitVec w) (k j : Nat) :
    (put f k : BitVec n).getLsbD j = (decide (k ≤ j ∧ j < n) && f.getLsbD (j - k)) := by
  rw [put, BitVec.getLsbD_shiftLeft, BitVec.getLsbD_setWidth]
  by_cases hj : j < k
  · have hj' : ¬ k ≤ j := by omega
    simp [hj, hj']
  by_cases hn : j < n
  · have hk : k ≤ j := by omega
    have hjk : j - k < n := by omega
    simp [hn, hk, hjk]
  · simp [hn]

/-! ## Shifting the low fields out -/

@[simp] theorem put_ushiftRight (f : BitVec w) {j : Nat} (hj : k ≤ j)
    (h : j + w ≤ n) : (put f j : BitVec n) >>> k = put f (j - k) := by
  apply BitVec.eq_of_getLsbD_eq
  intro i hi
  rw [BitVec.getLsbD_ushiftRight, put, put, BitVec.getLsbD_shiftLeft, BitVec.getLsbD_shiftLeft,
    BitVec.getLsbD_setWidth, BitVec.getLsbD_setWidth, show k + i - j = i - (j - k) from by omega]
  by_cases hlow : i < j - k
  · have hlow' : k + i < j := by omega
    simp [hlow, hlow']
  by_cases hin : i - (j - k) < w
  · have hn : k + i < n := by omega
    have hlow' : ¬ k + i < j := by omega
    simp [hlow, hlow', hn, hi]
  · rw [BitVec.getLsbD_of_ge f _ (by omega)]
    simp

@[simp] theorem put_ushiftRight_below (f : BitVec w) {j : Nat} (h : j + w ≤ k) :
    (put f j : BitVec n) >>> k = 0#n := by
  apply BitVec.eq_of_getLsbD_eq
  intro i hi
  rw [BitVec.getLsbD_ushiftRight, put, BitVec.getLsbD_shiftLeft, BitVec.getLsbD_setWidth,
    BitVec.getLsbD_of_ge f _ (show w ≤ k + i - j from by omega)]
  simp

theorem put_put (f : BitVec w) (j k : Nat) :
    (put (put f j : BitVec n) k : BitVec n) = put f (j + k) := by
  rw [put, put, put, BitVec.setWidth_eq, BitVec.shiftLeft_add]

/-! ## Patterns -/

theorem and_mask_of {x m v : BitVec n} (h : x &&& m = v) (m' : BitVec n)
    (hm : m &&& m' = m') : x &&& m' = v &&& m' := by
  rw [← h, BitVec.and_assoc, hm]

theorem and_ne_of {x m v m' v' : BitVec n} (h : x &&& m = v) (c : BitVec n)
    (hm : m &&& c = c) (hm' : m' &&& c = c) (hv : v' &&& c ≠ v &&& c) : x &&& m' ≠ v' :=
  fun h' => hv ((and_mask_of h' c hm').symm.trans (and_mask_of h c hm))

theorem extract_eq_and (x : BitVec n) (l w : Nat) (h : l + w ≤ n) :
    x.extractLsb' l w = (x &&& put (BitVec.allOnes w) l).extractLsb' l w := by
  rw [BitVec.extractLsb'_and, extract_put_self _ _ h, BitVec.and_allOnes]

theorem extract_of_and {x m v : BitVec n} (h : x &&& m = v) (l w : Nat) (hn : l + w ≤ n)
    (hm : m &&& put (BitVec.allOnes w) l = put (BitVec.allOnes w) l) :
    x.extractLsb' l w = (v &&& put (BitVec.allOnes w) l).extractLsb' l w := by
  rw [extract_eq_and x l w hn, and_mask_of h _ hm]

end IosLinuxkit.Bitfield
