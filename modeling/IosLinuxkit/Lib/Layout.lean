import Mathlib.Data.BitVec
import Mathlib.Data.List.Pairwise

/-!
# Records laid out in bytes

A C structure that goes through memory is a buffer of bytes with fields at fixed offsets, the
bytes of a field in little-endian order. `Store` is one assignment to a field; `writeAll` does
several in order.

* **`get_writeAll`** — when no two assignments overlap, each field holds what was assigned to
  it, in whatever order that was done.
-/

namespace IosLinuxkit.Layout

abbrev Byte := BitVec 8

abbrev Buffer := Nat → Byte

/-- The `w` bits at the byte `off`. -/
def get (off w : Nat) (b : Buffer) : BitVec w :=
  (BitVec.ofBoolListLE
    ((List.range w).map fun i => (b (off + i / 8)).getLsbD (i % 8))).setWidth w

/-- `v` at the byte `off`. -/
def set (off : Nat) {w : Nat} (v : BitVec w) (b : Buffer) : Buffer := fun i =>
  if off ≤ i ∧ i < off + w / 8 then v.extractLsb' (8 * (i - off)) 8 else b i

theorem getLsbD_get (off w : Nat) (b : Buffer) (i : Nat) :
    (get off w b).getLsbD i = (decide (i < w) && (b (off + i / 8)).getLsbD (i % 8)) := by
  unfold get
  rw [BitVec.getLsbD_setWidth, BitVec.getLsbD_ofBoolListLE]
  by_cases hi : i < w
  · rw [decide_eq_true hi, Bool.true_and, Bool.true_and, List.getD_eq_getElem?_getD,
      List.getElem?_map, List.getElem?_range hi]
    rfl
  · rw [decide_eq_false hi, Bool.false_and, Bool.false_and]

theorem get_congr {off w : Nat} {b b' : Buffer}
    (h : ∀ i, off ≤ i → i < off + (w + 7) / 8 → b i = b' i) : get off w b = get off w b' := by
  apply BitVec.eq_of_getLsbD_eq
  intro i hi
  rw [getLsbD_get, getLsbD_get, h (off + i / 8) (by omega) (by omega)]

theorem get_set_self (off : Nat) {w : Nat} (hw : w % 8 = 0) (v : BitVec w) (b : Buffer) :
    get off w (set off v b) = v := by
  apply BitVec.eq_of_getLsbD_eq
  intro i hi
  rw [getLsbD_get, decide_eq_true hi, Bool.true_and]
  unfold set
  rw [if_pos (by omega), BitVec.getLsbD_extractLsb', decide_eq_true (by omega), Bool.true_and]
  congr 1
  omega

theorem get_set_apart {off off' w w' : Nat} (v : BitVec w) (b : Buffer) (hw : w' % 8 = 0)
    (h : off' + w' / 8 ≤ off ∨ off + w / 8 ≤ off') : get off' w' (set off v b) = get off' w' b := by
  apply get_congr
  intro i hlo hhi
  exact if_neg (by omega)

/-! ## Several assignments -/

/-- An assignment to a field. -/
structure Store where
  off : Nat
  width : Nat
  val : BitVec width

def Store.run (s : Store) (b : Buffer) : Buffer := set s.off s.val b

def writeAll (l : List Store) (b : Buffer) : Buffer := l.foldl (fun b s => s.run b) b

def Store.Apart (s s' : Store) : Prop :=
  s.off + s.width / 8 ≤ s'.off ∨ s'.off + s'.width / 8 ≤ s.off

theorem get_writeAll_apart {l : List Store} {off w : Nat} (b : Buffer) (hw : w % 8 = 0)
    (h : ∀ s ∈ l, off + w / 8 ≤ s.off ∨ s.off + s.width / 8 ≤ off) :
    get off w (writeAll l b) = get off w b := by
  induction l generalizing b with
  | nil => rfl
  | cons s l ih =>
    rw [List.forall_mem_cons] at h
    show get off w (writeAll l (s.run b)) = _
    rw [ih _ h.2]
    exact get_set_apart s.val b hw h.1

theorem get_writeAll {l : List Store} {s : Store} (b : Buffer) (hap : l.Pairwise Store.Apart)
    (hs : s ∈ l) (hw : s.width % 8 = 0) : get s.off s.width (writeAll l b) = s.val := by
  induction l generalizing b with
  | nil => cases hs
  | cons a l ih =>
    obtain ⟨ha, hap⟩ := List.pairwise_cons.mp hap
    show get s.off s.width (writeAll l (a.run b)) = _
    rcases List.mem_cons.mp hs with rfl | hs
    · rw [get_writeAll_apart _ hw ha]
      exact get_set_self s.off hw s.val b
    · exact ih _ hap hs

/-! ## Where the fields are -/

def Store.place (s : Store) : Nat × Nat := (s.off, s.width)

def PlacesApart (p q : Nat × Nat) : Prop := p.1 + p.2 / 8 ≤ q.1 ∨ q.1 + q.2 / 8 ≤ p.1

instance (p q : Nat × Nat) : Decidable (PlacesApart p q) := by
  unfold PlacesApart
  exact inferInstance

theorem pairwise_of_places {l : List Store} (h : (l.map Store.place).Pairwise PlacesApart) :
    l.Pairwise Store.Apart := by
  rw [List.pairwise_map] at h
  exact h

/-- An array of `k` elements of `w` bits at `off`. -/
def array (off w k : Nat) (f : Fin k → BitVec w) : List Store :=
  List.ofFn fun i => ⟨off + i.val * (w / 8), w, f i⟩

theorem mem_array {off w k : Nat} {f : Fin k → BitVec w} (i : Fin k) :
    (⟨off + i.val * (w / 8), w, f i⟩ : Store) ∈ array off w k f :=
  List.mem_ofFn.mpr ⟨i, rfl⟩

end IosLinuxkit.Layout
