import Mathlib.Data.BitVec

/-!
# A64 branch offsets

The `b` instruction holds a signed word offset in its low 26 bits. A byte distance that is a
multiple of four and fits comes back from the encoded instruction unchanged
(`branchTarget_encB`).
-/

namespace IosLinuxkit.A64

/-- A signed 64-bit value fits in `bits` bits. -/
def fits (v : BitVec 64) (bits : Nat) : Bool :=
  decide (-(2 : Int) ^ (bits - 1) ≤ v.toInt) && decide (v.toInt < (2 : Int) ^ (bits - 1))

/-- `b . + off`. -/
def encB (off : BitVec 64) : BitVec 32 :=
  0x14000000#32 ||| ((off.sshiftRight 2).setWidth 32 &&& 0x3ffffff#32)

/-- Where a `b` at `site` goes. -/
def branchTarget (site : BitVec 64) (insn : BitVec 32) : BitVec 64 :=
  site + (insn.setWidth 26 ++ 0#2).signExtend 64

def Aligned (a : BitVec 64) : Prop := a.toNat % 4 = 0

theorem Aligned.sub {a b : BitVec 64} (ha : Aligned a) (hb : Aligned b) : Aligned (a - b) := by
  unfold Aligned at *
  rw [BitVec.toNat_sub]
  omega

theorem Aligned.add_four {a : BitVec 64} (ha : Aligned a) : Aligned (a + 4#64) := by
  unfold Aligned at *
  rw [BitVec.toNat_add, show (4#64).toNat = 4 from rfl]
  omega

theorem Aligned.ne_one {a : BitVec 64} (ha : Aligned a) : a ≠ 1#64 := by
  rintro rfl
  exact absurd ha (by unfold Aligned; decide)

theorem setWidth_encB (off : BitVec 64) :
    (encB off).setWidth 26 = (off.sshiftRight 2).setWidth 26 := by
  unfold encB
  rw [BitVec.setWidth_or, BitVec.setWidth_and, BitVec.setWidth_setWidth_of_le _ (by decide),
    show (0x14000000#32).setWidth 26 = 0#26 from rfl,
    show (0x3ffffff#32).setWidth 26 = BitVec.allOnes 26 from rfl, BitVec.and_allOnes,
    BitVec.zero_or]

theorem branchTarget_encB {site d : BitVec 64} (hd : Aligned d)
    (hfits : fits (d.sshiftRight 2) 26 = true) : branchTarget site (encB d) = site + d := by
  unfold branchTarget
  rw [setWidth_encB]
  congr 1
  apply BitVec.eq_of_toInt_eq
  have hk : (d.sshiftRight 2).toInt = d.toInt / 4 := by
    rw [BitVec.toInt_sshiftRight, Int.shiftRight_eq_div_pow]
    rfl
  simp only [fits, Bool.and_eq_true, decide_eq_true_eq, hk] at hfits
  have h4 : d.toInt % 4 = 0 := by
    unfold Aligned at hd
    rw [BitVec.toInt_eq_toNat_bmod, Int.bmod_def]
    omega
  -- the field is the word offset modulo `2 ^ 26`
  have hfield : ((d.sshiftRight 2).setWidth 26 ++ 0#2).toNat
      = 4 * ((d.toInt / 4) % 2 ^ 26).toNat := by
    have hint := hk
    rw [BitVec.toInt_eq_toNat_bmod, Int.bmod_def] at hint
    rw [BitVec.toNat_append, show (0#2).toNat = 0 from rfl, Nat.or_zero, Nat.shiftLeft_eq,
      BitVec.toNat_setWidth]
    omega
  rw [BitVec.toInt_signExtend_of_le (by decide), BitVec.toInt_eq_toNat_bmod, hfield, Int.bmod_def]
  simp at *
  omega

end IosLinuxkit.A64
