import IosLinuxkit.Asbestos.ArmVector
import IosLinuxkit.Asbestos.CryptoHelpers

/-!
# The helpers and the architecture

What a helper leaves in the register file, next to what the pseudocode says. Sources and
destination may be the same register: a store to an element is a store to that element only,
and the helpers read an element before they store to it.

* **`agrees_iff`** — when a helper leaves what the pseudocode defines.
-/

namespace IosLinuxkit.Crypto

open Layout Lanes Clmul
open ArmVector (VReg VFile V128 p1 sbox sboxWord vpart)

/-! ## The register file -/

def ptr (r : VReg) : Ptr := 16 * r.num

def vregs (b : Buffer) : VFile := fun r => get (ptr r) 128 b

section File

variable {w : Nat} {b : Buffer} {d r : VReg} {e k : Nat}

theorem load_vreg (hw : w % 8 = 0) (he : w * (e + 1) ≤ 128) :
    load w (ptr r) e b = elem w e (vregs b r) :=
  load_eq_elem b hw he

theorem vregs_store (x : BitVec w) (hw : w % 8 = 0) (he : w * (e + 1) ≤ 128) :
    vregs (store (ptr d) e x b) = Function.update (vregs b) d (setElem e x (vregs b d)) := by
  funext r
  by_cases hr : r = d
  · rw [hr, Function.update_self]
    exact get_store x b hw he
  rw [Function.update_of_ne hr]
  have hnum : r.num ≠ d.num := fun h => hr (by cases r; cases d; cases h; rfl)
  have hend := elem_end he
  have hbytes := mul_bytes (e := e) hw
  refine get_set_apart x b (by decide) ?_
  unfold ptr
  generalize e * (w / 8) = q at hbytes
  omega

theorem vregs_foldl_store {l : List Nat} (g : Nat → Nat) (x : Nat → BitVec w) (hw : w % 8 = 0)
    (hl : ∀ i ∈ l, w * (g i + 1) ≤ 128) :
    vregs (l.foldl (fun b i => store (ptr d) (g i) (x i) b) b) =
      Function.update (vregs b) d (l.foldl (fun v i => setElem (g i) (x i) v) (vregs b d)) := by
  induction l generalizing b with
  | nil => exact (Function.update_eq_self d _).symm
  | cons i l ih =>
    rw [List.forall_mem_cons] at hl
    rw [List.foldl_cons, List.foldl_cons, ih hl.2, vregs_store _ hw hl.1, Function.update_self,
      Function.update_idem]

theorem vregs_storeElems (x : Nat → BitVec w) (hw : w % 8 = 0) (hk : w * k ≤ 128) :
    vregs ((List.range k).foldl (fun b e => store (ptr d) e (x e) b) b) =
      Function.update (vregs b) d (setElems k x (vregs b d)) := by
  refine vregs_foldl_store (fun e => e) x hw fun e he => ?_
  exact Nat.le_trans (Nat.mul_le_mul_left w (List.mem_range.mp he)) hk

theorem load_storeElems (x : Nat → BitVec w) (hw : w % 8 = 0) (he : w * (e + 1) ≤ 128) :
    load w (ptr r) e ((List.range e).foldl (fun b i => store (ptr d) i (x i) b) b) =
      elem w e (vregs b r) := by
  have hle : w * e ≤ 128 := Nat.le_trans (Nat.mul_le_mul_left w (Nat.le_succ e)) he
  rw [load_vreg hw he, vregs_storeElems x hw hle]
  by_cases hr : r = d
  · rw [hr, Function.update_self, elem_setElems _ _ _ he, if_neg (Nat.lt_irrefl e)]
  · rw [Function.update_of_ne hr]

theorem foldl_inPlace (p : Ptr) (f : Nat → Buffer → BitVec w) (x : Nat → BitVec w)
    (hf : ∀ e, e < k → f e ((List.range e).foldl (fun b i => store p i (x i) b) b) = x e) :
    (List.range k).foldl (fun b e => store p e (f e b) b) b =
      (List.range k).foldl (fun b e => store p e (x e) b) b := by
  induction k with
  | zero => rfl
  | succ k ih =>
    rw [List.range_succ, List.foldl_append, List.foldl_append,
      ih fun e he => hf e (Nat.lt_succ_of_lt he)]
    show store p k (f k _) _ = store p k (x k) _
    rw [hf k (Nat.lt_succ_self k)]

theorem vregs_inPlace (f : Nat → Buffer → BitVec w) (x : Nat → BitVec w) (hw : w % 8 = 0)
    (hk : 128 = w * k) (v : V128)
    (hf : ∀ e, e < k → f e ((List.range e).foldl (fun b i => store (ptr d) i (x i) b) b) = x e) :
    vregs ((List.range k).foldl (fun b e => store (ptr d) e (f e b) b) b) =
      Function.update (vregs b) d (setElems k x v) := by
  rw [foldl_inPlace (ptr d) f x hf, vregs_storeElems x hw (Nat.le_of_eq hk.symm),
    setElems_full x _ v hk]

end File

/-! ## Rotations -/

theorem rol32_eq (x : Dword) {k : Nat} (hk : k < 32) : rol32 x k = x.rotateLeft k := by
  unfold rol32 BitVec.rotateLeft BitVec.rotateLeftAux
  rw [Nat.mod_eq_of_lt hk]

theorem ror64_eq (x : Qword) (k : Nat) : ror64 x k = x.rotateRight k := by
  unfold ror64 BitVec.rotateRight BitVec.rotateRightAux
  dsimp only
  split
  case isTrue h =>
    rw [h, BitVec.ushiftRight_zero, Nat.sub_zero, BitVec.shiftLeft_eq_zero (Nat.le_refl 64),
      BitVec.or_zero]
  case isFalse => rfl

theorem getLsbD_rotl {w : Nat} (x : BitVec w) (k : Nat) {i : Nat} (hi : i < w) :
    (x.rotateLeft k).getLsbD i = x.getLsbD ((i + (w - k % w)) % w) := by
  have hk := Nat.mod_lt k (show 0 < w from by omega)
  rw [BitVec.getLsbD_rotateLeft]
  rcases Nat.lt_or_ge i (k % w) with hlt | hge
  · rw [decide_eq_true hlt, cond_true, Nat.mod_eq_of_lt (show i + (w - k % w) < w from by omega)]
    congr 1
    omega
  rw [decide_eq_false (show ¬ i < k % w from by omega), cond_false, decide_eq_true hi,
    Bool.true_and, show i + (w - k % w) = i - k % w + w from by omega, Nat.add_mod_right,
    Nat.mod_eq_of_lt (show i - k % w < w from by omega)]

theorem rotl_xor {w : Nat} (x y : BitVec w) (k : Nat) :
    (x ^^^ y).rotateLeft k = x.rotateLeft k ^^^ y.rotateLeft k := by
  apply BitVec.eq_of_getLsbD_eq
  intro i hi
  rw [BitVec.getLsbD_xor, getLsbD_rotl _ k hi, getLsbD_rotl _ k hi, getLsbD_rotl _ k hi,
    BitVec.getLsbD_xor]

theorem rotl_rotl (x : Dword) (j k : Nat) :
    (x.rotateLeft j).rotateLeft k = x.rotateLeft ((j + k) % 32) := by
  apply BitVec.eq_of_getLsbD_eq
  intro i hi
  rw [getLsbD_rotl _ k hi, getLsbD_rotl x j (Nat.mod_lt _ (by decide)), getLsbD_rotl x _ hi]
  congr 1
  omega

theorem rotl_zero (x : Dword) : x.rotateLeft 0 = x := by
  apply BitVec.eq_of_getLsbD_eq
  intro i hi
  rw [getLsbD_rotl x 0 hi]
  congr 1
  omega

theorem xor_square (y a b c e f : Dword) :
    y ^^^ (a ^^^ b) ^^^ (a ^^^ (c ^^^ e) ^^^ (b ^^^ (e ^^^ f))) = y ^^^ (c ^^^ f) := by
  have hbool : ∀ y a b c e f : Bool,
      (((y ^^ (a ^^ b)) ^^ ((a ^^ (c ^^ e)) ^^ (b ^^ (e ^^ f)))) = (y ^^ (c ^^ f))) := by decide
  apply BitVec.eq_of_getLsbD_eq
  intro i hi
  simp only [BitVec.getLsbD_xor]
  exact hbool _ _ _ _ _ _

theorem p1_twice (x : Dword) : p1 (p1 x) = x ^^^ (x.rotateLeft 30 ^^^ x.rotateLeft 14) := by
  unfold p1
  rw [rotl_xor, rotl_xor, rotl_xor, rotl_xor, rotl_rotl, rotl_rotl, rotl_rotl, rotl_rotl]
  exact xor_square x (x.rotateLeft 15) (x.rotateLeft 23) (x.rotateLeft 30) (x.rotateLeft 6)
    (x.rotateLeft 14)

theorem p1_four (x : Dword) : p1 (p1 (p1 (p1 x))) = x := by
  rw [p1_twice, p1_twice, rotl_xor, rotl_xor, rotl_xor, rotl_xor, rotl_rotl, rotl_rotl, rotl_rotl,
    rotl_rotl]
  have h := xor_square x (x.rotateLeft 30) (x.rotateLeft 14) (x.rotateLeft 28) (x.rotateLeft 12)
    (x.rotateLeft 28)
  rwa [BitVec.xor_self, BitVec.xor_zero] at h

theorem p1_injective {x y : Dword} (h : p1 x = p1 y) : x = y := by
  rw [← p1_four x, h, p1_four]

theorem p1_eq_self {x : Dword} : p1 x = x ↔ x.rotateLeft 8 = x := by
  unfold p1
  constructor
  · intro h
    have hxor := congrArg (x ^^^ ·) h
    rw [← BitVec.xor_assoc, BitVec.xor_self, BitVec.zero_xor] at hxor
    have heq := congrArg (fun y => y.rotateLeft 17) (BitVec.xor_eq_zero_iff.mp hxor)
    rw [rotl_rotl, rotl_rotl] at heq
    exact heq.symm.trans (rotl_zero x)
  intro h
  have h23 : x.rotateLeft 23 = x.rotateLeft 15 := by
    conv_rhs => rw [← h]
    exact (rotl_rotl x 8 15).symm
  rw [h23, BitVec.xor_self, BitVec.xor_zero]

/-! ## Lane by lane -/

theorem vregs_eor3 (d n m a : VReg) (b : Buffer) :
    vregs (eor3Helper (ptr d) (ptr n) (ptr m) (ptr a) b) =
      Function.update (vregs b) d (ArmVector.eor3 (vregs b n) (vregs b m) (vregs b a)) := by
  have hload : ∀ (r : VReg) (x : Nat → Byte) (e : Nat), e < 16 →
      load 8 (ptr r) e ((List.range e).foldl (fun b i => store (ptr d) i (x i) b) b) =
        elem 8 e (vregs b r) := fun r x e he => load_storeElems x rfl (by omega)
  unfold eor3Helper
  rw [vregs_inPlace _ (fun e => elem 8 e (vregs b n ^^^ vregs b m ^^^ vregs b a)) rfl rfl
    (vregs b n ^^^ vregs b m ^^^ vregs b a)]
  · congr 1
    refine eq_of_elem 8 (show 128 = 8 * 16 from rfl) fun e he => ?_
    rw [elem_setElems _ _ _ (by omega), if_pos he]
    rfl
  · intro e he
    rw [hload n _ e he, hload m _ e he, hload a _ e he, elem_xor, elem_xor]

theorem and_63 (imm : Dword) : (imm &&& 63#32).toNat = imm.toNat % 64 := by
  rw [BitVec.toNat_and]
  exact Nat.and_two_pow_sub_one_eq_mod imm.toNat 6

theorem vregs_xarD (d n m : VReg) (imm : Dword) (b : Buffer) :
    vregs (sveXarDHelper (ptr d) (ptr n) (ptr m) imm b) =
      Function.update (vregs b) d (ArmVector.xarD (vregs b n) (vregs b m) imm.toNat) := by
  have hload : ∀ (r : VReg) (x : Nat → Qword) (e : Nat), e < 2 →
      load 64 (ptr r) e ((List.range e).foldl (fun b i => store (ptr d) i (x i) b) b) =
        elem 64 e (vregs b r) := fun r x e he => load_storeElems x rfl (by omega)
  refine vregs_inPlace (k := 2)
    (fun e b => ror64 (load 64 (ptr n) e b ^^^ load 64 (ptr m) e b) (imm &&& 63#32).toNat)
    (fun e => (elem 64 e (vregs b n) ^^^ elem 64 e (vregs b m)).rotateRight imm.toNat) rfl rfl 0 ?_
  intro e he
  rw [hload n _ e he, hload m _ e he, ror64_eq, and_63]
  unfold BitVec.rotateRight
  rw [Nat.mod_mod]

def words (x0 x1 x2 x3 : Dword) : V128 :=
  setElem 3 x3 (setElem 2 x2 (setElem 1 x1 (setElem 0 x0 0)))

theorem elem_words (x0 x1 x2 x3 : Dword) :
    elem 32 0 (words x0 x1 x2 x3) = x0 ∧ elem 32 1 (words x0 x1 x2 x3) = x1 ∧
      elem 32 2 (words x0 x1 x2 x3) = x2 ∧ elem 32 3 (words x0 x1 x2 x3) = x3 := by
  unfold words
  simp (disch := decide) only [elem_setElem_self, elem_setElem_ne, and_self]

theorem eq_words {v : V128} {x0 x1 x2 x3 : Dword} :
    v = words x0 x1 x2 x3 ↔
      elem 32 0 v = x0 ∧ elem 32 1 v = x1 ∧ elem 32 2 v = x2 ∧ elem 32 3 v = x3 := by
  obtain ⟨h0, h1, h2, h3⟩ := elem_words x0 x1 x2 x3
  constructor
  · intro h
    rw [h]
    exact ⟨h0, h1, h2, h3⟩
  rintro ⟨g0, g1, g2, g3⟩
  refine eq_of_elem 32 (show 128 = 32 * 4 from rfl) fun e he => ?_
  match e, he with
  | 0, _ => rw [g0, h0]
  | 1, _ => rw [g1, h1]
  | 2, _ => rw [g2, h2]
  | 3, _ => rw [g3, h3]

theorem vregs_words (d : VReg) (x0 x1 x2 x3 : Dword) (b : Buffer) :
    vregs (store (ptr d) 3 x3 (store (ptr d) 2 x2 (store (ptr d) 1 x1 (store (ptr d) 0 x0 b)))) =
      Function.update (vregs b) d (words x0 x1 x2 x3) := by
  simp (disch := decide) only [vregs_store, Function.update_self, Function.update_idem]
  congr 1
  rw [eq_words]
  simp (disch := decide) only [elem_setElem_self, elem_setElem_ne, and_self]

/-! ## SM3PARTW1 -/

/-- Lane `e` before the permutation; the last lane has `last` where the others have a lane of the
third operand. -/
def sm3Lane (V : VFile) (d n m : VReg) (e : Nat) : Dword :=
  elem 32 e (V d) ^^^ elem 32 e (V n) ^^^ (elem 32 (e + 1) (V m)).rotateLeft 15

def sm3Last (V : VFile) (d n : VReg) (first : Dword) : Dword :=
  p1 (elem 32 3 (V d) ^^^ elem 32 3 (V n) ^^^ first.rotateLeft 15)

theorem xor_rol32 (x : Dword) : x ^^^ rol32 x 15 ^^^ rol32 x 23 = p1 x := by
  unfold p1
  rw [rol32_eq x (by decide), rol32_eq x (by decide), BitVec.xor_assoc]

theorem vregs_sm3partw1 (d n m : VReg) (b : Buffer) :
    let first := sm3Lane (vregs b) d n m 0
    vregs (sm3partw1Helper (ptr d) (ptr n) (ptr m) b) = Function.update (vregs b) d
        (words (p1 first) (p1 (sm3Lane (vregs b) d n m 1)) (p1 (sm3Lane (vregs b) d n m 2))
          (sm3Last (vregs b) d n first)) := by
  unfold sm3partw1Helper
  dsimp only
  rw [vregs_words, xor_rol32, xor_rol32, xor_rol32, xor_rol32]
  unfold sm3Last sm3Lane
  simp (disch := decide) only [load_vreg, rol32_eq]

theorem sm3partw1_words (V : VFile) (d n m : VReg) :
    let first := sm3Lane V d n m 0
    ArmVector.sm3partw1 (V d) (V n) (V m) =
      words (p1 first) (p1 (sm3Lane V d n m 1)) (p1 (sm3Lane V d n m 2))
        (sm3Last V d n (p1 first)) := by
  dsimp only
  rw [eq_words]
  unfold ArmVector.sm3partw1 sm3Last sm3Lane
  rw [show List.range 4 = [0, 1, 2, 3] from rfl]
  simp (disch := decide) [elem_setElem_self, elem_setElem_ne, elem_xor]

theorem sm3Last_iff (V : VFile) (d n : VReg) (first : Dword) :
    sm3Last V d n first = sm3Last V d n (p1 first) ↔ first.rotateLeft 8 = first := by
  rw [← p1_eq_self]
  unfold sm3Last
  constructor
  · intro h
    have hrot := BitVec.xor_right_inj _ |>.mp (p1_injective h)
    have heq := congrArg (fun y => y.rotateLeft 17) hrot
    rw [rotl_rotl, rotl_rotl] at heq
    exact (rotl_zero _).symm.trans (heq.symm.trans (rotl_zero first))
  · intro h
    rw [h]

/-! ## SM4E -/

theorem sm4Sbox_eq : ∀ i, i < 256 → sm4Sbox.getD i 0 = sbox (BitVec.ofNat 8 i) := by
  decide +kernel

theorem sm4SboxAt_byte (x : Dword) (k : Nat) :
    sm4SboxAt (x >>> (8 * k) &&& 0xff) = (sbox (elem 8 k x)).setWidth 32 := by
  have hbyte : (x >>> (8 * k) &&& 0xff).toNat = (elem 8 k x).toNat := by
    unfold elem
    rw [BitVec.toNat_and, BitVec.extractLsb'_toNat, BitVec.toNat_ushiftRight]
    exact Nat.and_two_pow_sub_one_eq_mod _ 8
  unfold sm4SboxAt
  rw [hbyte, sm4Sbox_eq _ (elem 8 k x).isLt, BitVec.ofNat_toNat, BitVec.setWidth_eq]

theorem sm4SboxSub_eq (x : Dword) : sm4SboxSub x = sboxWord x := by
  have h0 : sm4SboxAt (x &&& 0xff) = (sbox (elem 8 0 x)).setWidth 32 <<< (8 * 0) := by
    rw [BitVec.shiftLeft_zero]
    exact sm4SboxAt_byte x 0
  have h1 := sm4SboxAt_byte x 1
  have h2 := sm4SboxAt_byte x 2
  have h3 := sm4SboxAt_byte x 3
  have hsub : sm4SboxSub x = (sbox (elem 8 0 x)).setWidth 32 <<< (8 * 0) |||
      (sbox (elem 8 1 x)).setWidth 32 <<< (8 * 1) ||| (sbox (elem 8 2 x)).setWidth 32 <<< (8 * 2) |||
      (sbox (elem 8 3 x)).setWidth 32 <<< (8 * 3) := by
    unfold sm4SboxSub
    rw [h0, ← h1, ← h2, ← h3]
  have hword : sboxWord x = setElems 4 (fun i => sbox (elem 8 i x)) x := by
    unfold sboxWord setElems
    rw [show List.range 4 = [0, 1, 2, 3] from rfl]
    simp (disch := decide) only [List.foldl_cons, List.foldl_nil, elem_setElem_ne]
  rw [hsub, hword]
  refine eq_of_elem 8 (show 32 = 8 * 4 from rfl) fun e he => ?_
  have hend : 8 * (e + 1) ≤ 32 := by omega
  rw [elem_setElems _ _ _ hend, if_pos he, elem_or, elem_or, elem_or, elem_shiftLeft 0 _ hend,
    elem_shiftLeft 1 _ hend, elem_shiftLeft 2 _ hend, elem_shiftLeft 3 _ hend]
  match e, he with
  | 0, _ => simp
  | 1, _ => simp
  | 2, _ => simp
  | 3, _ => simp

def Sm4Regs.vector (r : Sm4Regs) : V128 := words r.r0 r.r1 r.r2 r.r3

theorem sm4eStep_vector (n : V128) (r : Sm4Regs) (i : Nat) :
    ArmVector.sm4eStep n r.vector i = (sm4eRound (elem 32 i n) r).vector := by
  obtain ⟨h0, h1, h2, h3⟩ := elem_words r.r0 r.r1 r.r2 r.r3
  have hxor : elem 32 3 r.vector ^^^ elem 32 2 r.vector ^^^ elem 32 1 r.vector ^^^ elem 32 i n =
      r.r1 ^^^ r.r2 ^^^ r.r3 ^^^ elem 32 i n := by
    unfold Sm4Regs.vector
    rw [h3, h2, h1, BitVec.xor_comm (r.r3 ^^^ r.r2) r.r1, BitVec.xor_comm r.r3 r.r2,
      ← BitVec.xor_assoc r.r1]
  unfold ArmVector.sm4eStep sm4eRound
  dsimp only
  rw [hxor]
  unfold Sm4Regs.vector
  rw [eq_words, sm4SboxSub_eq]
  simp (disch := decide) only [elem_setElem_self, elem_setElem_ne, h0, h1, h2, h3, rol32_eq,
    and_self]

theorem vregs_sm4e (d n : VReg) (b : Buffer) : vregs (sm4eHelper (ptr d) (ptr n) b) =
      Function.update (vregs b) d (ArmVector.sm4e (vregs b d) (vregs b n)) := by
  have hrun : ∀ l : List Nat, (∀ i ∈ l, i < 4) → ∀ r : Sm4Regs,
      l.foldl (ArmVector.sm4eStep (vregs b n)) r.vector =
        (l.foldl (fun r i => sm4eRound (load 32 (ptr n) i b) r) r).vector := by
    intro l
    induction l with
    | nil => exact fun _ _ => rfl
    | cons i l ih =>
      intro hl r
      rw [List.forall_mem_cons] at hl
      rw [List.foldl_cons, List.foldl_cons, sm4eStep_vector, ← ih hl.2,
        load_vreg rfl (show 32 * (i + 1) ≤ 128 from by omega)]
  have hstart : vregs b d = Sm4Regs.vector ⟨load 32 (ptr d) 0 b, load 32 (ptr d) 1 b,
      load 32 (ptr d) 2 b, load 32 (ptr d) 3 b⟩ := by
    unfold Sm4Regs.vector
    rw [eq_words]
    simp (disch := decide) only [load_vreg, and_self]
  unfold sm4eHelper ArmVector.sm4e
  dsimp only
  rw [vregs_words, hstart, hrun _ fun i hi => List.mem_range.mp hi]
  rfl

/-! ## Polynomial products -/

theorem load_half (r : VReg) (part : Bool) (b : Buffer) :
    load 64 (ptr r) (if part then 1 else 0) b = vpart part (vregs b r) := by
  cases part with
  | true => exact load_vreg rfl (by decide)
  | false => exact load_vreg rfl (by decide)

theorem load_byte (r : VReg) (part : Bool) (b : Buffer) {e : Nat} (he : e < 8) :
    load 8 (ptr r + if part then 8 else 0) e b = elem 8 e (vpart part (vregs b r)) := by
  have hhalf : get (ptr r + if part then 8 else 0) 64 b = vpart part (vregs b r) := by
    rw [← load_half]
    cases part with
    | true => rfl
    | false => rfl
  rw [← hhalf]
  exact load_eq_elem b rfl (by omega)

def half (part : Bool) : Dword := if part then 1 else 0

theorem half_ne (part : Bool) : half part ≠ 0#32 ↔ part = true := by
  cases part with
  | true => exact ⟨fun _ => rfl, fun _ => by decide⟩
  | false => exact ⟨fun h => absurd rfl h, fun h => by cases h⟩

theorem vregs_pmull8 (part : Bool) (d n m : VReg) (b : Buffer) :
    vregs (pmullHelper (ptr d) (ptr n) (ptr m) (half part) 0#32 b) =
      Function.update (vregs b) d (ArmVector.pmull 8 part (vregs b n) (vregs b m)) := by
  have hspec : ArmVector.pmull 8 part (vregs b n) (vregs b m) = setElems 8 (fun e =>
      clmul 16 (elem 8 e (vpart part (vregs b n))) (elem 8 e (vpart part (vregs b m)))) 0 := rfl
  unfold pmullHelper
  rw [if_pos rfl, hspec]
  simp only [half_ne]
  rw [vregs_storeElems _ rfl (by decide), setElems_full _ _ 0 (show 128 = 16 * 8 from rfl)]
  congr 1
  refine eq_of_elem 16 (show 128 = 16 * 8 from rfl) fun e he => ?_
  have hend : 16 * (e + 1) ≤ 128 := by omega
  rw [elem_setElems _ _ _ hend, elem_setElems _ _ _ hend, if_pos he, if_pos he, clmul_comm,
    load_byte n part b he, load_byte m part b he]
  rfl

theorem vregs_pmull64 (part : Bool) (d n m : VReg) (b : Buffer) :
    vregs (pmullHelper (ptr d) (ptr n) (ptr m) (half part) 3#32 b) =
      Function.update (vregs b) d (ArmVector.pmull 64 part (vregs b n) (vregs b m)) := by
  have hself : ∀ v : BitVec 64, elem 64 0 v = v := fun v => BitVec.extractLsb'_eq_self
  have hspec : ArmVector.pmull 64 part (vregs b n) (vregs b m) =
      setElem 0 (clmul 128 (elem 64 0 (vpart part (vregs b n)))
        (elem 64 0 (vpart part (vregs b m)))) 0 := rfl
  have hwhole : ∀ x u v : V128, setElem 0 x u = setElem 0 x v :=
    fun x u v => setElems_full (k := 1) (fun _ => x) u v rfl
  have hload : ∀ r : VReg, (if part = true then load 64 (ptr r) 1 b else load 64 (ptr r) 0 b) =
      vpart part (vregs b r) := by
    intro r
    rw [← load_half, apply_ite (fun e => load 64 (ptr r) e b)]
  unfold pmullHelper
  rw [if_neg (by decide), if_pos rfl, hspec, hself, hself]
  simp only [half_ne, hload]
  rw [vregs_store _ rfl (by decide), hwhole _ _ 0, clmul_comm]
  rfl

/-! ## Table lookups -/

theorem ptr_wrap {n i : Nat} (hn : n < 32) (hi : i < 16) :
    (if 0 + 32 * 16 ≤ 16 * n + i * 16 then 16 * n + i * 16 - 32 * 16 else 16 * n + i * 16) =
      16 * ((n + i) % 32) := by
  split
  · omega
  · omega

theorem tableByte_eq (n : VReg) {index : Nat} (b : Buffer) (hi : index < 256) :
    tableByte (ptr n) 0 index b = elem 8 (index % 16) (vregs b (n.next (index / 16))) := by
  have hreg : (if 0 + 32 * 16 ≤ ptr n + index / 16 * 16 then ptr n + index / 16 * 16 - 32 * 16
      else ptr n + index / 16 * 16) = ptr (n.next (index / 16)) :=
    ptr_wrap n.lt (by omega)
  unfold tableByte
  dsimp only
  rw [hreg]
  exact load_vreg rfl (by omega)

theorem elem_table (V : VFile) (n : VReg) {regs index : Nat} (hi : index < 16 * regs) :
    elem 8 index (ArmVector.table V n regs) = elem 8 (index % 16) (V (n.next (index / 16))) := by
  have hreg : elem 128 (index / 16) (ArmVector.table V n regs) = V (n.next (index / 16)) := by
    refine (elem_setElems regs (fun i => V (n.next i)) 0 (by omega)).trans (if_pos (by omega))
  have helem := elem_elem (w := 8) (index / 16) (ArmVector.table V n regs)
    (Nat.mod_lt index (show 0 < 16 from by decide))
  rw [Nat.div_add_mod] at helem
  rw [← hreg]
  exact helem.symm

theorem elem_narrow (q : Bool) (v : V128) {e : Nat} (he : e < 16) :
    elem 8 e (ArmVector.narrow q v) = if q = true ∨ e < 8 then elem 8 e v else 0#8 := by
  unfold ArmVector.narrow
  cases q with
  | true => rfl
  | false =>
    apply BitVec.eq_of_getLsbD_eq
    intro i hi
    rw [if_neg (by decide), getLsbD_elem, BitVec.getLsbD_setWidth, BitVec.getLsbD_setWidth,
      decide_eq_true hi, decide_eq_true (show 8 * e + i < 128 from by omega), Bool.true_and,
      Bool.true_and]
    rcases Nat.lt_or_ge e 8 with hlo | hhi
    · rw [if_pos (Or.inr hlo), getLsbD_elem, decide_eq_true hi,
        decide_eq_true (show 8 * e + i < 64 from by omega)]
    · rw [if_neg (fun h => by rcases h with h | h <;> [cases h; omega]),
        decide_eq_false (show ¬ 8 * e + i < 64 from by omega), Bool.false_and, BitVec.getLsbD_zero]

theorem elem_clear (k : Nat) (v : V128) {e : Nat} (he : e < 16) :
    elem 8 e ((List.range k).foldl (fun v i => setElem (8 + i) 0#8 v) v) =
      if 8 ≤ e ∧ e < 8 + k then 0#8 else elem 8 e v := by
  induction k with
  | zero => exact (if_neg (by omega)).symm
  | succ k ih =>
    rw [List.range_succ, List.foldl_append]
    show elem 8 e (setElem (8 + k) 0#8 _) = _
    by_cases hek : e = 8 + k
    · rw [hek, elem_setElem_self _ _ _ (by omega), if_pos (by omega)]
    · rw [elem_setElem_ne _ _ hek (by omega), ih]
      exact if_congr (by omega) rfl rfl

theorem vregs_tblStore (d : VReg) (q : Bool) (result : Nat → Byte) (b : Buffer) :
    vregs (tblStore (ptr d) q result b) =
      Function.update (vregs b) d (ArmVector.narrow q (setElems 16 result 0)) := by
  unfold tblStore
  cases q with
  | true =>
    show vregs ((List.range 16).foldl _ b) = Function.update (vregs b) d (setElems 16 result 0)
    rw [vregs_storeElems _ rfl (by decide), setElems_full result _ 0 (show 128 = 8 * 16 from rfl)]
  | false =>
    show vregs ((List.range 8).foldl (fun b i => store (ptr d) (8 + i) 0#8 b)
      ((List.range 8).foldl (fun b i => store (ptr d) i (result i) b) b)) = _
    rw [vregs_foldl_store (fun i => 8 + i) (fun _ => 0#8) rfl, vregs_storeElems _ rfl (by decide),
      Function.update_self, Function.update_idem]
    · congr 1
      refine eq_of_elem 8 (show 128 = 8 * 16 from rfl) fun e he => ?_
      rw [elem_clear 8 _ he, elem_narrow _ _ he, elem_setElems _ _ _ (by omega),
        elem_setElems _ _ _ (by omega), if_pos he]
      rcases Nat.lt_or_ge e 8 with hlo | hhi
      · rw [if_neg (by omega), if_pos hlo, if_pos (Or.inr hlo)]
      · rw [if_pos (by omega), if_neg (fun h => by rcases h with h | h <;> [cases h; omega])]
    intro i hi
    have := List.mem_range.mp hi
    omega

theorem lookup_eq (V : VFile) (n m : VReg) (regs : Nat) (q : Bool) (base : V128) :
    ArmVector.lookup V n m regs q base = ArmVector.narrow q (setElems 16 (fun i =>
        if (elem 8 i (V m)).toNat < 16 * regs then
          elem 8 ((elem 8 i (V m)).toNat % 16) (V (n.next ((elem 8 i (V m)).toNat / 16)))
        else elem 8 i base) 0) := by
  refine eq_of_elem 8 (show 128 = 8 * 16 from rfl) fun e he => ?_
  have hassign : ArmVector.lookup V n m regs q base = assign (if q then 16 else 8)
      (fun i => decide ((elem 8 i (V m)).toNat < 16 * regs))
      (fun i => elem 8 (elem 8 i (V m)).toNat (ArmVector.table V n regs))
      (ArmVector.narrow q base) := by
    unfold ArmVector.lookup assign
    simp only [decide_eq_true_eq]
  rw [hassign, elem_assign _ _ _ _ (by omega), elem_narrow _ _ he, elem_narrow _ _ he,
    elem_setElems _ _ _ (by omega), if_pos he]
  have hlow : (e < if q then 16 else 8) ↔ (q = true ∨ e < 8) := by
    cases q with
    | true => simp [he]
    | false => simp
  simp only [hlow, decide_eq_true_eq]
  by_cases hq : q = true ∨ e < 8
  · by_cases hin : (elem 8 e (V m)).toNat < 16 * regs
    · rw [if_pos ⟨hq, hin⟩, if_pos hq, if_pos hin, elem_table V n hin]
    · rw [if_neg (fun h => hin h.2), if_pos hq, if_pos hq, if_neg hin]
  · rw [if_neg (fun h => hq h.1), if_neg hq, if_neg hq]

theorem vregs_lookup (d n m : VReg) (len : Nat) (q : Bool) (b : Buffer) (base : V128)
    (other : Nat → Byte) (hother : ∀ e, e < 16 → other e = elem 8 e base) :
    vregs (tblStore (ptr d) q (fun i =>
      if (load 8 (ptr m) i b).toNat < (len + 1) * 16 then
        tableByte (ptr n) 0 (load 8 (ptr m) i b).toNat b
      else other i) b) =
      Function.update (vregs b) d (ArmVector.lookup (vregs b) n m (len + 1) q base) := by
  rw [vregs_tblStore, lookup_eq]
  congr 2
  refine eq_of_elem 8 (show 128 = 8 * 16 from rfl) fun e he => ?_
  have hend : 8 * (e + 1) ≤ 128 := by omega
  rw [elem_setElems _ _ _ hend, elem_setElems _ _ _ hend, if_pos he, if_pos he,
    load_vreg rfl hend, tableByte_eq n b (elem 8 e (vregs b m)).isLt, hother e he,
    Nat.mul_comm 16 (len + 1)]

theorem vregs_tbl (d n m : VReg) (len : Nat) (q : Bool) (b : Buffer) :
    vregs (tblHelper (ptr d) (ptr n) (ptr m) len q 0 b) =
      Function.update (vregs b) d (ArmVector.tbl (vregs b) n m (len + 1) q) :=
  vregs_lookup d n m len q b 0 (fun _ => 0#8) fun _ _ => (elem_zero _).symm

theorem vregs_tbx (d n m : VReg) (len : Nat) (q : Bool) (b : Buffer) :
    vregs (tbxHelper (ptr d) (ptr n) (ptr m) len q 0 b) =
      Function.update (vregs b) d (ArmVector.tbx (vregs b) d n m (len + 1) q) :=
  vregs_lookup d n m len q b (vregs b d) (fun i => load 8 (ptr d) i b)
    fun _ he => load_vreg rfl (by omega)

/-! ## The helpers together -/

/-- A call of a helper with pointers to registers. -/
inductive Call where
  | eor3 (d n m a : VReg)
  | sm3partw1 (d n m : VReg)
  | sm4e (d n : VReg)
  | sveXarD (d n m : VReg) (imm : Dword)
  | pmull8 (part : Bool) (d n m : VReg)
  | pmull64 (part : Bool) (d n m : VReg)
  | tbl (d n m : VReg) (len : Nat) (q : Bool)
  | tbx (d n m : VReg) (len : Nat) (q : Bool)
  deriving DecidableEq

def Call.run : Call → Buffer → Buffer
  | .eor3 d n m a => eor3Helper (ptr d) (ptr n) (ptr m) (ptr a)
  | .sm3partw1 d n m => sm3partw1Helper (ptr d) (ptr n) (ptr m)
  | .sm4e d n => sm4eHelper (ptr d) (ptr n)
  | .sveXarD d n m imm => sveXarDHelper (ptr d) (ptr n) (ptr m) imm
  | .pmull8 part d n m => pmullHelper (ptr d) (ptr n) (ptr m) (half part) 0#32
  | .pmull64 part d n m => pmullHelper (ptr d) (ptr n) (ptr m) (half part) 3#32
  | .tbl d n m len q => tblHelper (ptr d) (ptr n) (ptr m) len q 0
  | .tbx d n m len q => tbxHelper (ptr d) (ptr n) (ptr m) len q 0

def Call.dest : Call → VReg
  | .eor3 d _ _ _ | .sm3partw1 d _ _ | .sm4e d _ | .sveXarD d _ _ _ | .pmull8 _ d _ _
  | .pmull64 _ d _ _ | .tbl d _ _ _ _ | .tbx d _ _ _ _ => d

def Call.value (V : VFile) : Call → V128
  | .eor3 _ n m a => ArmVector.eor3 (V n) (V m) (V a)
  | .sm3partw1 d n m => ArmVector.sm3partw1 (V d) (V n) (V m)
  | .sm4e d n => ArmVector.sm4e (V d) (V n)
  | .sveXarD _ n m imm => ArmVector.xarD (V n) (V m) imm.toNat
  | .pmull8 part _ n m => ArmVector.pmull 8 part (V n) (V m)
  | .pmull64 part _ n m => ArmVector.pmull 64 part (V n) (V m)
  | .tbl _ n m len q => ArmVector.tbl V n m (len + 1) q
  | .tbx d n m len q => ArmVector.tbx V d n m (len + 1) q

/-- The destination has the value of the pseudocode, and no other register has changed. -/
def Call.Agrees (c : Call) (b : Buffer) : Prop :=
  vregs (c.run b) = Function.update (vregs b) c.dest (c.value (vregs b))

/-- The first lane of SM3PARTW1 repeats one byte, so that the permutation leaves it alone. -/
def Call.Settled (V : VFile) : Call → Prop
  | .sm3partw1 d n m => (sm3Lane V d n m 0).rotateLeft 8 = sm3Lane V d n m 0
  | _ => True

theorem sm3partw1_agrees (d n m : VReg) (b : Buffer) :
    (Call.sm3partw1 d n m).Agrees b ↔ (Call.sm3partw1 d n m).Settled (vregs b) := by
  have hrun := vregs_sm3partw1 d n m b
  have hspec := sm3partw1_words (vregs b) d n m
  dsimp only at hrun hspec
  unfold Call.Agrees
  show vregs (sm3partw1Helper (ptr d) (ptr n) (ptr m) b) = Function.update (vregs b) d
    (ArmVector.sm3partw1 (vregs b d) (vregs b n) (vregs b m)) ↔ _
  rw [hrun, hspec, ← show _ ↔ (Call.sm3partw1 d n m).Settled (vregs b) from
    sm3Last_iff (vregs b) d n (sm3Lane (vregs b) d n m 0)]
  constructor
  · intro h
    have hd := congrFun h d
    rw [Function.update_self, Function.update_self, eq_words] at hd
    exact (elem_words _ _ _ _).2.2.2.symm.trans hd.2.2.2
  · intro h
    rw [h]

/-- A helper leaves what the pseudocode defines, except SM3PARTW1 where the permutation changes
the first lane: its last lane is then wrong. -/
theorem agrees_iff (c : Call) (b : Buffer) : c.Agrees b ↔ c.Settled (vregs b) := by
  cases c with
  | eor3 d n m a => exact iff_of_true (vregs_eor3 d n m a b) trivial
  | sm3partw1 d n m => exact sm3partw1_agrees d n m b
  | sm4e d n => exact iff_of_true (vregs_sm4e d n b) trivial
  | sveXarD d n m imm => exact iff_of_true (vregs_xarD d n m imm b) trivial
  | pmull8 part d n m => exact iff_of_true (vregs_pmull8 part d n m b) trivial
  | pmull64 part d n m => exact iff_of_true (vregs_pmull64 part d n m b) trivial
  | tbl d n m len q => exact iff_of_true (vregs_tbl d n m len q b) trivial
  | tbx d n m len q => exact iff_of_true (vregs_tbx d n m len q b) trivial

def v0 : VReg := ⟨0, Nat.succ_pos 31⟩

def oneFile : Buffer := fun i => if i = 0 then 1#8 else 0#8

/-- `SM3PARTW1 V0, V1, V1` with 1 in V0. -/
theorem sm3partw1_wrong : ¬ (Call.sm3partw1 v0 (v0.next 1) (v0.next 1)).Agrees oneFile := by
  intro h
  have hlane : sm3Lane (vregs oneFile) v0 (v0.next 1) (v0.next 1) 0 = 1#32 := by decide +kernel
  have hrot := (sm3partw1_agrees v0 (v0.next 1) (v0.next 1) oneFile).mp h
  unfold Call.Settled at hrot
  dsimp only at hrot
  rw [hlane] at hrot
  exact absurd hrot (by decide)

/-! ## SM4E undone -/

def Sm4Regs.reversed (r : Sm4Regs) : Sm4Regs := ⟨r.r3, r.r2, r.r1, r.r0⟩

/-- The words in the other order. -/
def reversed (v : V128) : V128 := words (elem 32 3 v) (elem 32 2 v) (elem 32 1 v) (elem 32 0 v)

theorem sm4eRound_reversed (rk : Dword) (r : Sm4Regs) : sm4eRound rk (sm4eRound rk r).reversed = r.reversed := by
  have hkey : r.r3 ^^^ r.r2 ^^^ r.r1 ^^^ rk = r.r1 ^^^ r.r2 ^^^ r.r3 ^^^ rk := by
    rw [BitVec.xor_comm _ r.r1, BitVec.xor_comm r.r3, ← BitVec.xor_assoc]
  unfold sm4eRound Sm4Regs.reversed
  dsimp only
  rw [hkey, ← BitVec.xor_assoc, BitVec.xor_self, BitVec.zero_xor]

theorem reversed_vector (r : Sm4Regs) : reversed r.vector = r.reversed.vector := by
  obtain ⟨h0, h1, h2, h3⟩ := elem_words r.r0 r.r1 r.r2 r.r3
  unfold reversed Sm4Regs.vector
  rw [h0, h1, h2, h3]
  rfl

theorem sm4e_reversed (v k : V128) : ArmVector.sm4e (reversed (ArmVector.sm4e v k)) (reversed k) = reversed v := by
  obtain ⟨h0, h1, h2, h3⟩ := elem_words (elem 32 3 k) (elem 32 2 k) (elem 32 1 k) (elem 32 0 k)
  have hv : v = Sm4Regs.vector ⟨elem 32 0 v, elem 32 1 v, elem 32 2 v, elem 32 3 v⟩ := eq_words.mpr ⟨rfl, rfl, rfl, rfl⟩
  unfold ArmVector.sm4e
  rw [hv, show List.range 4 = [0, 1, 2, 3] from rfl]
  simp only [List.foldl_cons, List.foldl_nil, sm4eStep_vector, reversed_vector]
  rw [reversed, h0, h1, h2, h3]
  simp only [sm4eRound_reversed]

theorem foldl_undone {α β : Type} {f : α → β → α} {r : α → α} {s : β → β} (h : ∀ v k, f (r (f v k)) (s k) = r v)
    (ks : List β) (v : α) : (ks.map s).reverse.foldl f (r (ks.foldl f v)) = r v := by
  induction ks generalizing v with
  | nil => rfl
  | cons k ks ih =>
    rw [List.map_cons, List.reverse_cons, List.foldl_append, List.foldl_cons, List.foldl_nil, List.foldl_cons, ih, h]

theorem foldl_sm4e {d : VReg} {ns : List VReg} (hd : d ∉ ns) (b : Buffer) :
    vregs (ns.foldl (fun b n => sm4eHelper (ptr d) (ptr n) b) b) d =
      (ns.map (vregs b)).foldl ArmVector.sm4e (vregs b d) := by
  induction ns generalizing b with
  | nil => rfl
  | cons n ns ih =>
    rw [List.mem_cons, not_or] at hd
    rw [List.foldl_cons, ih hd.2, vregs_sm4e, Function.update_self,
      List.map_congr_left fun k hk => Function.update_of_ne (show k ≠ d by rintro rfl; exact hd.2 hk) _ _]
    rfl

/-- **SM4.** The calls on a state with its words in the other order, with the keys from the last to the first and their
words in the other order, take back what the calls with the keys did. -/
theorem sm4e_undone {d : VReg} {ns ms : List VReg} {b c : Buffer} (hn : d ∉ ns) (hm : d ∉ ms)
    (hkeys : ms.map (vregs c) = ((ns.map (vregs b)).map reversed).reverse)
    (hstate : vregs c d = reversed (vregs (ns.foldl (fun b n => sm4eHelper (ptr d) (ptr n) b) b) d)) :
    vregs (ms.foldl (fun b n => sm4eHelper (ptr d) (ptr n) b) c) d = reversed (vregs b d) := by
  rw [foldl_sm4e hm, hkeys, hstate, foldl_sm4e hn]
  exact foldl_undone sm4e_reversed _ _

theorem sm4e_undone_zero : let b : Buffer := fun _ => 0
    let x := vregs (sm4eHelper (ptr v0) (ptr (v0.next 1)) b) v0
    vregs (sm4eHelper (ptr v0) (ptr (v0.next 1)) (store (ptr v0) 3 (elem 32 0 x) (store (ptr v0) 2 (elem 32 1 x)
      (store (ptr v0) 1 (elem 32 2 x) (store (ptr v0) 0 (elem 32 3 x) b))))) v0 = reversed (vregs b v0) := by
  intro b x
  have hzero : vregs b (v0.next 1) = reversed (vregs b (v0.next 1)) := by decide +kernel
  refine @sm4e_undone v0 [v0.next 1] [v0.next 1] b _ (by decide) (by decide) ?_ ?_
  · rw [vregs_words]
    exact congrArg (fun v => [v]) hzero
  · rw [vregs_words, Function.update_self]
    rfl

end IosLinuxkit.Crypto
