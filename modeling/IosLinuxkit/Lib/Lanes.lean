import IosLinuxkit.Lib.Layout

/-!
# Vectors and their elements

A vector is a bit vector that is also an array of elements of one width. In memory it is a
field of a buffer, and its elements are fields of that field.
-/

namespace IosLinuxkit.Lanes

open Layout

variable {n w : Nat}

/-- Element `e` of `w` bits. -/
def elem (w e : Nat) (v : BitVec n) : BitVec w := v.extractLsb' (w * e) w

/-- The vector with `x` as its element `e`. -/
def setElem (e : Nat) (x : BitVec w) (v : BitVec n) : BitVec n :=
  v &&& ~~~((BitVec.allOnes w).setWidth n <<< (w * e)) ||| x.setWidth n <<< (w * e)

theorem getLsbD_elem (e : Nat) (v : BitVec n) (i : Nat) :
    (elem w e v).getLsbD i = (decide (i < w) && v.getLsbD (w * e + i)) := by
  unfold elem
  rw [BitVec.getLsbD_extractLsb']

theorem getLsbD_setElem (e : Nat) (x : BitVec w) (v : BitVec n) {i : Nat} (hi : i < n) :
    (setElem e x v).getLsbD i =
      if w * e ≤ i ∧ i < w * e + w then x.getLsbD (i - w * e) else v.getLsbD i := by
  have hin : i - w * e < n := by omega
  unfold setElem
  simp only [BitVec.getLsbD_or, BitVec.getLsbD_and, BitVec.getLsbD_not, BitVec.getLsbD_shiftLeft,
    BitVec.getLsbD_setWidth, BitVec.getLsbD_allOnes, decide_eq_true hi, decide_eq_true hin,
    Bool.true_and]
  rcases Nat.lt_or_ge i (w * e) with hlo | hhi
  · rw [if_neg (by omega), decide_eq_true hlo, Bool.not_true, Bool.false_and, Bool.false_and,
      Bool.not_false, Bool.and_true, Bool.or_false]
  rw [decide_eq_false (show ¬ i < w * e from by omega), Bool.not_false, Bool.true_and,
    Bool.true_and]
  rcases Nat.lt_or_ge (i - w * e) w with hin | hout
  · rw [if_pos (by omega), decide_eq_true hin, Bool.not_true, Bool.and_false, Bool.false_or]
  · rw [if_neg (by omega), decide_eq_false (show ¬ i - w * e < w from by omega), Bool.not_false,
      Bool.and_true, BitVec.getLsbD_of_ge x _ hout, Bool.or_false]

theorem elem_end {e : Nat} (h : w * (e + 1) ≤ n) : w * e + w ≤ n := by
  rwa [Nat.mul_succ] at h

theorem elem_setElem_self (e : Nat) (x : BitVec w) (v : BitVec n) (h : w * (e + 1) ≤ n) :
    elem w e (setElem e x v) = x := by
  have hend := elem_end h
  apply BitVec.eq_of_getLsbD_eq
  intro i hi
  rw [getLsbD_elem, decide_eq_true hi, Bool.true_and, getLsbD_setElem e x v (by omega),
    if_pos (by omega)]
  congr 1
  omega

theorem elem_apart {e e' : Nat} (h : e ≠ e') : w * e + w ≤ w * e' ∨ w * e' + w ≤ w * e := by
  rcases Nat.lt_or_gt_of_ne h with hlt | hgt
  · left
    rw [← Nat.mul_succ]
    exact Nat.mul_le_mul_left w hlt
  · right
    rw [← Nat.mul_succ]
    exact Nat.mul_le_mul_left w hgt

theorem elem_setElem_ne {e e' : Nat} (x : BitVec w) (v : BitVec n) (h : e ≠ e')
    (he : w * (e + 1) ≤ n) : elem w e (setElem e' x v) = elem w e v := by
  have hend := elem_end he
  apply BitVec.eq_of_getLsbD_eq
  intro i hi
  rw [getLsbD_elem, getLsbD_elem, decide_eq_true hi, Bool.true_and, Bool.true_and,
    getLsbD_setElem e' x v (by omega)]
  rcases elem_apart (w := w) h with hlo | hhi
  · exact if_neg (by omega)
  · exact if_neg (by omega)

theorem eq_of_elem (w : Nat) {k : Nat} {u v : BitVec n} (hn : n = w * k)
    (h : ∀ e, e < k → elem w e u = elem w e v) : u = v := by
  apply BitVec.eq_of_getLsbD_eq
  intro i hi
  have hw : 0 < w := by
    rcases Nat.eq_zero_or_pos w with h0 | hpos
    · rw [h0, Nat.zero_mul] at hn
      omega
    · exact hpos
  have hk : i / w < k := Nat.div_lt_of_lt_mul (by omega)
  have hmod := Nat.mod_lt i hw
  have hbit := congrArg (fun x => x.getLsbD (i % w)) (h (i / w) hk)
  rwa [getLsbD_elem, getLsbD_elem, decide_eq_true hmod, Bool.true_and, Bool.true_and,
    Nat.div_add_mod] at hbit

theorem elem_xor (e : Nat) (u v : BitVec n) : elem w e (u ^^^ v) = elem w e u ^^^ elem w e v := by
  apply BitVec.eq_of_getLsbD_eq
  intro i hi
  rw [BitVec.getLsbD_xor, getLsbD_elem, getLsbD_elem, getLsbD_elem, BitVec.getLsbD_xor,
    decide_eq_true hi, Bool.true_and, Bool.true_and, Bool.true_and]

theorem elem_or (e : Nat) (u v : BitVec n) : elem w e (u ||| v) = elem w e u ||| elem w e v := by
  apply BitVec.eq_of_getLsbD_eq
  intro i hi
  rw [BitVec.getLsbD_or, getLsbD_elem, getLsbD_elem, getLsbD_elem, BitVec.getLsbD_or,
    decide_eq_true hi, Bool.true_and, Bool.true_and, Bool.true_and]

theorem elem_shiftLeft {e : Nat} (k : Nat) (x : BitVec w) (he : w * (e + 1) ≤ n) :
    elem w e (x.setWidth n <<< (w * k)) = if e = k then x else 0#w := by
  have hend := elem_end he
  apply BitVec.eq_of_getLsbD_eq
  intro i hi
  rw [getLsbD_elem, decide_eq_true hi, Bool.true_and, BitVec.getLsbD_shiftLeft,
    BitVec.getLsbD_setWidth, decide_eq_true (show w * e + i < n from by omega), Bool.true_and]
  by_cases hek : e = k
  · rw [hek, decide_eq_false (show ¬ w * k + i < w * k from by omega),
      show w * k + i - w * k = i from by omega, if_pos rfl, Bool.not_false, Bool.true_and]
    rw [hek] at hend
    rw [decide_eq_true (show i < n from by omega), Bool.true_and]
  rw [if_neg hek, BitVec.getLsbD_zero]
  rcases elem_apart (w := w) hek with hlo | hhi
  · rw [decide_eq_true (show w * e + i < w * k from by omega)]
    rfl
  · rw [BitVec.getLsbD_of_ge x _ (by omega), Bool.and_false, Bool.and_false]

theorem elem_elem {q r : Nat} (k : Nat) (v : BitVec n) (hr : r < q) :
    elem w r (elem (w * q) k v) = elem w (q * k + r) v := by
  have hle : w * (r + 1) ≤ w * q := Nat.mul_le_mul_left w hr
  have hend := elem_end hle
  apply BitVec.eq_of_getLsbD_eq
  intro i hi
  rw [getLsbD_elem, getLsbD_elem, getLsbD_elem, decide_eq_true hi, Bool.true_and, Bool.true_and,
    decide_eq_true (show w * r + i < w * q from by omega), Bool.true_and, Nat.mul_assoc,
    ← Nat.add_assoc, ← Nat.mul_add]

theorem elem_zero (e : Nat) : elem w e (0#n) = 0#w := by
  apply BitVec.eq_of_getLsbD_eq
  intro i hi
  rw [getLsbD_elem, BitVec.getLsbD_zero, BitVec.getLsbD_zero, Bool.and_false]

/-! ## In memory -/

/-- Element `e` of the array at `p`: `p[e]`. -/
def load (w p e : Nat) (b : Buffer) : BitVec w := get (p + e * (w / 8)) w b

/-- `p[e] = x` -/
def store (p e : Nat) (x : BitVec w) (b : Buffer) : Buffer := Layout.set (p + e * (w / 8)) x b

theorem mul_bytes {e : Nat} (hw : w % 8 = 0) : 8 * (e * (w / 8)) = w * e := by
  rw [Nat.mul_left_comm, Nat.mul_div_cancel' (Nat.dvd_of_mod_eq_zero hw), Nat.mul_comm]

theorem load_eq_elem {p e : Nat} (b : Buffer) (hw : w % 8 = 0) (h : w * (e + 1) ≤ n) :
    load w p e b = elem w e (get p n b) := by
  have hend := elem_end h
  have hbytes := mul_bytes (e := e) hw
  apply BitVec.eq_of_getLsbD_eq
  intro i hi
  unfold load
  rw [getLsbD_get, getLsbD_elem, getLsbD_get, decide_eq_true hi, Bool.true_and, Bool.true_and,
    decide_eq_true (show w * e + i < n from by omega), Bool.true_and]
  generalize e * (w / 8) = q at hbytes
  rw [← hbytes, show (8 * q + i) / 8 = q + i / 8 from by omega,
    show (8 * q + i) % 8 = i % 8 from by omega, Nat.add_assoc]

theorem get_store {p e : Nat} (x : BitVec w) (b : Buffer) (hw : w % 8 = 0)
    (h : w * (e + 1) ≤ n) : get p n (store p e x b) = setElem e x (get p n b) := by
  have hbytes := mul_bytes (e := e) hw
  apply BitVec.eq_of_getLsbD_eq
  intro i hi
  rw [getLsbD_setElem e x _ hi, getLsbD_get, getLsbD_get, decide_eq_true hi, Bool.true_and,
    Bool.true_and]
  unfold store Layout.set
  generalize e * (w / 8) = q at hbytes
  rw [← hbytes]
  rcases Nat.lt_or_ge i (8 * q) with hlo | hhi
  · rw [if_neg (by omega), if_neg (by omega)]
  rcases Nat.lt_or_ge i (8 * q + w) with hin | hout
  · rw [if_pos (by omega), if_pos (by omega), BitVec.getLsbD_extractLsb',
      decide_eq_true (show i % 8 < 8 from by omega), Bool.true_and]
    congr 1
    omega
  · rw [if_neg (by omega), if_neg (by omega)]

/-! ## One after the other -/

def assign (k : Nat) (c : Nat → Bool) (x : Nat → BitVec w) (v : BitVec n) : BitVec n :=
  (List.range k).foldl (fun v e => if c e then setElem e (x e) v else v) v

theorem elem_assign (k : Nat) (c : Nat → Bool) (x : Nat → BitVec w) (v : BitVec n) {e : Nat}
    (he : w * (e + 1) ≤ n) :
    elem w e (assign k c x v) = if e < k ∧ c e then x e else elem w e v := by
  induction k with
  | zero =>
    rw [if_neg (fun h => Nat.not_lt_zero e h.1)]
    rfl
  | succ k ih =>
    have hsucc : assign (k + 1) c x v =
        if c k then setElem k (x k) (assign k c x v) else assign k c x v := by
      unfold assign
      rw [List.range_succ, List.foldl_append]
      rfl
    rw [hsucc]
    by_cases hek : e = k
    · rw [hek] at he ih ⊢
      split
      case isTrue hc => rw [elem_setElem_self _ _ _ he, if_pos ⟨Nat.lt_succ_self k, hc⟩]
      case isFalse hc => rw [ih, if_neg (fun h => hc h.2), if_neg (fun h => hc h.2)]
    have hiff : (e < k + 1 ∧ c e) ↔ (e < k ∧ c e) := by
      constructor
      · exact fun h => ⟨by omega, h.2⟩
      · exact fun h => ⟨by omega, h.2⟩
    rw [if_congr hiff rfl rfl, ← ih]
    split
    · exact elem_setElem_ne _ _ hek he
    · rfl

def setElems (k : Nat) (x : Nat → BitVec w) (v : BitVec n) : BitVec n :=
  (List.range k).foldl (fun v e => setElem e (x e) v) v

theorem elem_setElems (k : Nat) (x : Nat → BitVec w) (v : BitVec n) {e : Nat}
    (he : w * (e + 1) ≤ n) : elem w e (setElems k x v) = if e < k then x e else elem w e v := by
  rw [show setElems k x v = assign k (fun _ => true) x v from rfl, elem_assign k _ x v he]
  exact if_congr ⟨fun h => h.1, fun h => ⟨h, rfl⟩⟩ rfl rfl

theorem setElems_full {k : Nat} (x : Nat → BitVec w) (u v : BitVec n) (hn : n = w * k) :
    setElems k x u = setElems k x v := by
  refine eq_of_elem w hn fun e he => ?_
  have hle : w * (e + 1) ≤ n := by
    rw [hn]
    exact Nat.mul_le_mul_left w he
  rw [elem_setElems k x u hle, elem_setElems k x v hle, if_pos he, if_pos he]

end IosLinuxkit.Lanes
