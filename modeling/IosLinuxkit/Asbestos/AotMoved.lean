import IosLinuxkit.Asbestos.AotKey
import Mathlib.Data.List.GetD
import Mathlib.Data.List.TakeWhile
import Mathlib.Tactic.IntervalCases

/-!
# A recorded translation runs a block where it is

What a key says about the units of a block (`regKey_word`, `aotKeyWord_insn`), what
`insn_norm` keeps of an instruction's class, and the address algebra of `adr` and `adrp`.

* **`aot_same_addresses`** — the addresses that a translation computes.
-/

namespace IosLinuxkit.Aot

open A64

/-! ## Words of a key -/

theorem getD_flatMap {α β : Type} {f : α → List β} {n : Nat} (hf : ∀ a, (f a).length = n)
    {l : List α} {i : Nat} {a : α} (ha : l[i]? = some a) {j : Nat} (hj : j < n) (d : β) :
    (l.flatMap f).getD (n * i + j) d = (f a).getD j d := by
  induction l generalizing i with
  | nil => simp at ha
  | cons x l ih =>
    rw [List.flatMap_cons]
    cases i with
    | zero =>
      obtain rfl : x = a := by simpa using ha
      rw [Nat.mul_zero, Nat.zero_add, List.getD_append _ _ _ _ (by rw [hf]; exact hj)]
    | succ i =>
      rw [List.getD_append_right _ _ _ _ (by rw [hf, Nat.mul_succ]; omega), hf,
        show n * (i + 1) + j - n = n * i + j from by rw [Nat.mul_succ]; omega]
      exact ih (by simpa using ha)

theorem length_regKey (b : Located) (mod : BitVec 32) :
    (regKey b mod).length = 7 + 9 * b.units.length := by
  have hunits : ∀ us : List JitUnit, (us.flatMap b.unitKey).length = 9 * us.length := by
    intro us
    induction us with
    | nil => rfl
    | cons u us ih =>
      rw [List.flatMap_cons, List.length_append, ih, List.length_cons,
        show (b.unitKey u).length = 9 from rfl]
      omega
  rw [regKey, List.length_append, hunits]
  rfl

theorem regKey_word {b : Located} (mod : BitVec 32) {i : Nat} {u : JitUnit}
    (hu : b.units[i]? = some u) {j : Nat} (hj : j < 9) :
    word (regKey b mod) (7 + 9 * i + j) = (b.unitKey u).getD j 0#32 := by
  rw [word, regKey, List.getD_append_right _ _ _ _
      (show (b.header mod).length ≤ 7 + 9 * i + j from by
        rw [show (b.header mod).length = 7 from rfl]; omega),
    show (b.header mod).length = 7 from rfl, show 7 + 9 * i + j - 7 = 9 * i + j from by omega]
  exact getD_flatMap (n := 9) (fun _ => rfl) hu hj 0#32

theorem regKey_header (b : Located) (mod : BitVec 32) {i : Nat} (hi : i < 7) :
    word (regKey b mod) i = (b.header mod).getD i 0#32 :=
  List.getD_append _ _ _ _ hi

theorem record_header (b : Located) (loop : Bool) {i : Nat} (hi : i < 7) :
    word (record b loop).key i = (b.header 0).getD i 0#32 :=
  List.getD_append _ _ _ _ hi

theorem record_word {b : Located} (loop : Bool) {i : Nat} {u : JitUnit}
    (hu : b.units[i]? = some u) {j : Nat} (hj : j < 6) :
    word (record b loop).key (7 + 6 * i + j) = (b.unitCompact u).getD j 0#32 := by
  rw [word, record]
  dsimp only
  rw [List.getD_append_right _ _ _ _
      (show (b.header 0).length ≤ 7 + 6 * i + j from by
        rw [show (b.header 0).length = 7 from rfl]; omega),
    show (b.header 0).length = 7 from rfl, show 7 + 6 * i + j - 7 = 6 * i + j from by omega]
  exact getD_flatMap (n := 6) (fun _ => rfl) hu hj 0#32

theorem aotKeyWord_unit (t : AotTrans) (i : Nat) {j q : Nat} (hj : j < 9) (hq : keyAt j = some q) :
    aotKeyWord t (7 + 9 * i + j) = word t.key (7 + 6 * i + q) := by
  unfold aotKeyWord
  rw [if_neg (show ¬ 7 + 9 * i + j < 7 from by omega),
    show (7 + 9 * i + j - 7) % 9 = j from by omega,
    show (7 + 9 * i + j - 7) / 9 = i from by omega, hq]

theorem join32_split (v : BitVec 64) : join32 (lo32 v) (hi32 v) = v := by
  apply BitVec.eq_of_getLsbD_eq
  intro i hi
  simp only [join32, lo32, hi32, BitVec.getLsbD_or, BitVec.getLsbD_setWidth,
    BitVec.getLsbD_shiftLeft, BitVec.getLsbD_ushiftRight]
  by_cases h : i < 32
  · simp [h, hi]
  · have hback : 32 + (i - 32) = i := by omega
    simp [h, hi, hback, show i - 32 < 32 from by omega, show i - 32 < 64 from by omega]

theorem eq_of_halves {v v' : BitVec 64} (hlo : lo32 v = lo32 v') (hhi : hi32 v = hi32 v') :
    v = v' := by
  rw [← join32_split v, ← join32_split v', hlo, hhi]

theorem hi32_eq_zero {v : BitVec 64} (h : v.toNat < 2 ^ 32) : hi32 v = 0#32 := by
  apply BitVec.eq_of_toNat_eq
  simp only [hi32, BitVec.toNat_setWidth, BitVec.toNat_ushiftRight, Nat.shiftRight_eq_div_pow]
  rw [Nat.div_eq_of_lt h]
  rfl

section Shape

theorem shape_n (u : JitUnit) : (u.shape &&& 0xff#32).toNat = u.n := by
  obtain ⟨start, stop, pc, n, follow, last, w, hn⟩ := u
  simp only [JitUnit.shape]
  interval_cases n <;> cases follow <;> cases last <;> rfl

theorem shape_follow (u : JitUnit) : u.shape.getLsbD 8 = u.follow := by
  obtain ⟨start, stop, pc, n, follow, last, w, hn⟩ := u
  simp only [JitUnit.shape]
  interval_cases n <;> cases follow <;> cases last <;> rfl

theorem shape_last (u : JitUnit) : u.shape.getLsbD 16 = u.last := by
  obtain ⟨start, stop, pc, n, follow, last, w, hn⟩ := u
  simp only [JitUnit.shape]
  interval_cases n <;> cases follow <;> cases last <;> rfl

end Shape

/-! ## Instruction classes -/

theorem test_kept {m A : BitVec 32} (w a : BitVec 32) (h : m &&& A = A) :
    (w &&& m &&& A == a) = (w &&& A == a) := by
  rw [BitVec.and_assoc, h]

theorem test_fails {w K k m A a : BitVec 32} (C : BitVec 32) (hw : w &&& K = k)
    (hK : K &&& C = C) (hm : m &&& C = C) (hA : A &&& C = C) (hne : k &&& C ≠ a &&& C) :
    (w &&& m &&& A == a) = (w &&& A == a) := by
  have hC : w &&& C = k &&& C := by rw [← hw, BitVec.and_assoc, hK]
  have h1 : ¬ (w &&& m &&& A = a) := fun h => hne <| by
    rw [← hC, ← h, BitVec.and_assoc, hA, BitVec.and_assoc, hm]
  have h2 : ¬ (w &&& A = a) := fun h => hne <| by rw [← hC, ← h, BitVec.and_assoc, hA]
  rw [beq_eq_false_iff_ne.mpr h1, beq_eq_false_iff_ne.mpr h2]

theorem isAdr_norm (w : BitVec 32) : isAdr (insnNorm w) = isAdr w := by
  unfold isAdr insnNorm normMask
  split
  · rename_i h
    exact test_fails 0x1C000000#32 h (by decide) (by decide) (by decide) (by decide)
  · split_ifs <;> exact test_kept w _ (by decide)

theorem isLiteral_norm (w : BitVec 32) : isLiteral (insnNorm w) = isLiteral w := by
  unfold isLiteral insnNorm normMask
  split
  · rename_i h
    exact test_fails 0x38000000#32 h (by decide) (by decide) (by decide) (by decide)
  split_ifs with h1 h2 h3 h4
  · exact test_kept w _ (by decide)
  · exact test_kept w _ (by decide)
  · exact test_kept w _ (by decide)
  · exact test_fails 0x1B000000#32 h4 (by decide) (by decide) (by decide) (by decide)
  · exact test_kept w _ (by decide)

theorem isCall_norm (w : BitVec 32) : isCall (insnNorm w) = isCall w := by
  unfold isCall insnNorm normMask
  split_ifs with h1 h2 h3 h4 h5
  · rw [test_kept w _ (by decide : 0xFC000000#32 &&& 0xFC000000#32 = _),
      test_fails 0x7C000000#32 h1 (by decide) (by decide) (by decide) (by decide)]
  · rw [test_kept w _ (by decide : 0xFF00001F#32 &&& 0xFC000000#32 = _),
      test_fails 0xFF000000#32 h2 (by decide) (by decide) (by decide) (by decide)]
  · rw [test_kept w _ (by decide : 0xFF00001F#32 &&& 0xFC000000#32 = _),
      test_fails 0x7E000000#32 h3 (by decide) (by decide) (by decide) (by decide)]
  · rw [test_kept w _ (by decide : 0xFFF8001F#32 &&& 0xFC000000#32 = _),
      test_fails 0x7E000000#32 h4 (by decide) (by decide) (by decide) (by decide)]
  · rw [test_fails 0x1C000000#32 h5 (by decide) (by decide) (by decide) (by decide),
      test_fails 0x1F000000#32 h5 (by decide) (by decide) (by decide) (by decide)]
  · rw [test_kept w _ (by decide : 0xFFFFFFFF#32 &&& 0xFC000000#32 = _),
      test_kept w _ (by decide : 0xFFFFFFFF#32 &&& 0xFFFFFC1F#32 = _)]

theorem insnNorm_of_isLiteral {w : BitVec 32} (h : isLiteral w = true) : insnNorm w = w := by
  have hlit : w &&& 0x3B000000#32 = 0x18000000#32 := by simpa [isLiteral] using h
  have hbit : w &&& 0x08000000#32 = 0x08000000#32 := by
    rw [show (0x08000000#32) = 0x3B000000#32 &&& 0x08000000#32 from by decide,
      ← BitVec.and_assoc, hlit]
    decide
  have hno : ∀ {K k : BitVec 32}, w &&& K = k → K &&& 0x08000000#32 = 0x08000000#32 →
      k &&& 0x08000000#32 = 0#32 → False := by
    intro K k hw hK hk
    rw [← hw, BitVec.and_assoc, hK, hbit] at hk
    exact absurd hk (by decide)
  unfold insnNorm normMask
  split_ifs with h1 h2 h3 h4 h5
  · exact (hno h1 (by decide) (by decide)).elim
  · exact (hno h2 (by decide) (by decide)).elim
  · exact (hno h3 (by decide) (by decide)).elim
  · exact (hno h4 (by decide) (by decide)).elim
  · exact (hno h5 (by decide) (by decide)).elim
  · exact BitVec.and_allOnes

/-! ## Addresses -/

theorem page_add {base x : BitVec 64} (h : base.toNat % 4096 = 0) :
    (base + x) &&& ~~~0xfff#64 = base + (x &&& ~~~0xfff#64) := by
  have hmask : ∀ y : BitVec 64, (y &&& ~~~0xfff#64).toNat = y.toNat / 4096 * 4096 := by
    intro y
    rw [show ~~~0xfff#64 = BitVec.allOnes 64 <<< 12 from by decide, ← BitVec.shiftLeft_ushiftRight,
      BitVec.toNat_shiftLeft, BitVec.toNat_ushiftRight, Nat.shiftRight_eq_div_pow, Nat.shiftLeft_eq]
    have := y.isLt
    omega
  apply BitVec.eq_of_toNat_eq
  rw [hmask, BitVec.toNat_add, BitVec.toNat_add, hmask]
  have := base.isLt
  have := x.isLt
  omega

theorem adrTarget_add {base : BitVec 64} (h : base.toNat % 4096 = 0) (w : BitVec 32)
    (x : BitVec 64) : adrTarget w (base + x) = base + adrTarget w x := by
  unfold adrTarget
  split
  · rw [page_add h, BitVec.add_assoc]
  · rw [BitVec.add_assoc]

/-! ## Acceptance -/

/-- The two ways a block gets a recorded translation, with the `dbase` it runs with. -/
inductive Accepts (t : AotTrans) (b : Located) (mod : BitVec 32) : BitVec 64 → Prop
  | found (trans : List AotTrans) (x : Option AotOffidx)
      (h : aotFind trans x b (regKey b mod) = some t) : Accepts t b mod (b.addr - b.off)
  | moved (hkey : t.nkey = (regKey b mod).length) (hunits : t.nunits = b.units.length)
      (hgadgets : gadgetsSame t b = true) (dbase : BitVec 64)
      (h : aotFitsMoved t (regKey b mod) (regKey b mod).length b = some dbase) :
      Accepts t b mod dbase

structure UnitFits (r b : Located) (loop : Bool) (u u' : JitUnit) : Prop where
  n : u'.n = u.n
  follow : u'.follow = u.follow
  last : u'.last = u.last
  dpc : u'.pc - b.addr = u.pc - r.addr
  norm : ∀ k < 2, insnNorm (u'.w k) = insnNorm (u.w k)
  same : loop = true → ∀ k < 2, u'.w k = u.w k

/-- The block is the recorded one, moved, and `dbase` puts its `adr` targets right. -/
structure Fits (r : Recording) (b : Located) (dbase : BitVec 64) : Prop where
  length : b.units.length = r.src.units.length
  unit : ∀ (i : Nat) (u u' : JitUnit), r.src.units[i]? = some u → b.units[i]? = some u' →
    UnitFits r.src b r.loop u u'
  adr : ∀ (i : Nat) (u u' : JitUnit) (k : Nat), r.src.units[i]? = some u →
    b.units[i]? = some u' → k < u'.n → isAdr (u'.w k) = true →
      b.base + adrTarget (u'.w k) (b.off + ((u'.pc - b.addr) + BitVec.ofNat 64 (4 * k))) =
        dbase + adrTarget (u.w k) (r.src.off + ((u'.pc - b.addr) + BitVec.ofNat 64 (4 * k)))

theorem Located.addr_sub_off (b : Located) : b.addr - b.off = b.base := by
  rw [b.addr_eq]
  exact BitVec.add_sub_cancel b.base b.off

theorem unitFits_of_shape {r b : Located} {loop : Bool} {u u' : JitUnit} (hu : u ∈ r.units)
    (hu' : u' ∈ b.units) (hshape : u'.shape = u.shape)
    (hlo : lo32 (u'.pc - b.addr) = lo32 (u.pc - r.addr))
    (hnorm : ∀ k < 2, insnNorm (u'.w k) = insnNorm (u.w k))
    (hsame : loop = true → ∀ k < 2, u'.w k = u.w k) : UnitFits r b loop u u' := by
  refine ⟨?_, ?_, ?_, eq_of_halves hlo ?_, hnorm, hsame⟩
  · rw [← shape_n u', ← shape_n u, hshape]
  · rw [← shape_follow u', ← shape_follow u, hshape]
  · rw [← shape_last u', ← shape_last u, hshape]
  · rw [hi32_eq_zero (r.near u hu), hi32_eq_zero (b.near u' hu')]

/-! ### `aot_find` -/

theorem aotFindAt_some {trans : List AotTrans} {off : BitVec 64} {b : Located}
    {key : List (BitVec 32)} {t : AotTrans} (h : aotFindAt trans off b key = some t) :
    t.off = off ∧ t.nunits = b.units.length ∧ aotKeySame t key key.length = true := by
  have hmem := List.mem_of_find?_eq_some h
  have hpred := List.find?_some h
  have hoff := List.mem_takeWhile_imp hmem
  simp only [Bool.and_eq_true, beq_iff_eq] at hpred hoff
  exact ⟨hoff, hpred.1.1.2, hpred.1.2⟩

theorem aotFind_some {trans : List AotTrans} {x : Option AotOffidx} {b : Located}
    {mod : BitVec 32} {t : AotTrans} (h : aotFind trans x b (regKey b mod) = some t) :
    t.off = b.off ∧ t.nunits = b.units.length ∧
      aotKeySame t (regKey b mod) (regKey b mod).length = true := by
  have hoff : join32 (word (regKey b mod) 1) (word (regKey b mod) 2) = b.off := by
    rw [regKey_header b mod (by decide), regKey_header b mod (by decide)]
    exact join32_split b.off
  unfold aotFind at h
  rw [hoff] at h
  cases x with
  | none => exact aotFindAt_some h
  | some x =>
    dsimp only at h
    split at h
    · cases h
    · exact aotFindAt_some h

theorem fits_of_found {r : Recording} {b : Located} {mod : BitVec 32} (hoff : r.trans.off = b.off)
    (hunits : r.trans.nunits = b.units.length)
    (hkey : aotKeySame r.trans (regKey b mod) (regKey b mod).length = true) :
    Fits r b (b.addr - b.off) := by
  have hlen : b.units.length = r.src.units.length := hunits.symm
  have hwords : ∀ (i : Nat) (u u' : JitUnit), r.src.units[i]? = some u → b.units[i]? = some u' →
      u'.shape = u.shape ∧ lo32 (u'.pc - b.addr) = lo32 (u.pc - r.src.addr) ∧
        ∀ k < 2, u'.w k = u.w k := by
    intro i u u' hu hu'
    have hi : i < b.units.length := (List.getElem?_eq_some_iff.mp hu').1
    rw [aotKeySame, Bool.and_eq_true, List.all_eq_true, List.all_eq_true, length_regKey] at hkey
    have hrow := hkey.2 i (List.mem_range.mpr (by omega))
    simp only [Bool.and_eq_true, beq_iff_eq] at hrow
    obtain ⟨⟨⟨⟨⟨⟨-, -⟩, h2⟩, h3⟩, -⟩, h5⟩, h6⟩ := hrow
    rw [regKey_word mod hu' (by decide), Recording.trans, record_word r.loop hu (by decide)]
      at h2 h3 h5 h6
    refine ⟨h2, h3, fun k hk => ?_⟩
    interval_cases k
    · exact h5
    · exact h6
  refine ⟨hlen, fun i u u' hu hu' => ?_, fun i u u' k hu hu' hk _ => ?_⟩
  · obtain ⟨hshape, hlo, hw⟩ := hwords i u u' hu hu'
    exact unitFits_of_shape (List.mem_of_getElem? hu) (List.mem_of_getElem? hu') hshape hlo
      (fun k hk => by rw [hw k hk]) fun _ => hw
  · obtain ⟨-, -, hw⟩ := hwords i u u' hu hu'
    rw [b.addr_sub_off, hw k (Nat.lt_of_lt_of_le hk u'.n_le), show r.src.off = b.off from hoff]

/-! ### `aot_fits_moved` -/

theorem wordFits_plain {t : AotTrans} {k : List (BitVec 32)} {i j : Nat} (hj : j < 5)
    (h : wordFits t k (7 + 9 * i + j) = true) :
    aotKeyWord t (7 + 9 * i + j) = word k (7 + 9 * i + j) := by
  have hmod : (7 + 9 * i + j - 7) % 9 = j := by omega
  unfold wordFits keyIsGadget keyIsInsn at h
  rw [hmod, decide_eq_false (show ¬ 7 ≤ j from by omega),
    decide_eq_false (show ¬ j = 5 from by omega), decide_eq_false (show ¬ j = 6 from by omega)] at h
  simpa using h

theorem wordFits_insn {t : AotTrans} {k : List (BitVec 32)} {i j : Nat} (hj : j = 5 ∨ j = 6)
    (h : wordFits t k (7 + 9 * i + j) = true) :
    insnNorm (aotKeyWord t (7 + 9 * i + j)) = insnNorm (word k (7 + 9 * i + j)) ∧
      (t.loop = true → aotKeyWord t (7 + 9 * i + j) = word k (7 + 9 * i + j)) := by
  have hmod : (7 + 9 * i + j - 7) % 9 = j := by omega
  have hinsn : keyIsInsn (7 + 9 * i + j) = true := by
    unfold keyIsInsn
    rw [hmod]
    simpa [show 7 ≤ 7 + 9 * i + j from by omega] using hj
  have hgadget : keyIsGadget (7 + 9 * i + j) = false := by
    unfold keyIsGadget
    rw [hmod, decide_eq_false (show ¬ 7 ≤ j from by omega), Bool.and_false]
  unfold wordFits at h
  rw [hgadget, hinsn] at h
  cases hloop : t.loop with
  | true =>
    rw [hloop] at h
    have heq : aotKeyWord t (7 + 9 * i + j) = word k (7 + 9 * i + j) := by simpa using h
    exact ⟨by rw [heq], fun _ => heq⟩
  | false =>
    rw [hloop] at h
    exact ⟨by simpa using h, fun hno => by cases hno⟩

def adrMoved (t : AotTrans) (k : List (BitVec 32)) (off : BitVec 64) (p : Nat × Nat) : BitVec 64 :=
  let ku := 7 + 9 * p.1
  let at4 := join32 (word k (ku + 3)) (word k (ku + 4)) + BitVec.ofNat 64 (4 * p.2)
  adrTarget (word k (ku + 5 + p.2)) (off + at4) -
    adrTarget (aotKeyWord t (ku + 5 + p.2)) (t.off + at4)

theorem adrStep_some {t : AotTrans} {k : List (BitVec 32)} {off : BitVec 64}
    {s s' : Bool × BitVec 64} {p : Nat × Nat} (h : adrStep t k off s p = some s') :
    (isAdr (word k (7 + 9 * p.1 + 5 + p.2)) = true → s' = (true, adrMoved t k off p)) ∧
      (s.1 = true → s' = s) := by
  unfold adrStep at h
  dsimp only at h
  split at h
  · rename_i hno
    obtain rfl := Option.some.inj h
    exact ⟨fun hadr => (by rw [hadr] at hno; cases hno), fun _ => rfl⟩
  split at h
  · cases h
  · rename_i hsame
    obtain rfl := Option.some.inj h
    refine ⟨fun _ => rfl, fun hhave => ?_⟩
    -- `have` was set, so that the distance is the one there is
    obtain ⟨have', shift⟩ := s
    obtain rfl : have' = true := hhave
    simp only [Bool.true_and, bne_iff_ne, ne_eq, Decidable.not_not] at hsame
    rw [hsame]

theorem adrSteps_some {t : AotTrans} {k : List (BitVec 32)} {off : BitVec 64}
    (ps : List (Nat × Nat)) {s s' : Bool × BitVec 64}
    (h : ps.foldlM (adrStep t k off) s = some s') : (s.1 = true → s' = s) ∧
      ∀ p ∈ ps, isAdr (word k (7 + 9 * p.1 + 5 + p.2)) = true → s' = (true, adrMoved t k off p) := by
  induction ps generalizing s with
  | nil =>
    obtain rfl : s = s' := by simpa using h
    exact ⟨fun _ => rfl, fun p hp => by cases hp⟩
  | cons p ps ih =>
    rw [List.foldlM_cons] at h
    obtain ⟨s₁, h₁, h₂⟩ := Option.bind_eq_some_iff.mp h
    obtain ⟨hadr, hkeep⟩ := adrStep_some h₁
    obtain ⟨hkeep', hadrs⟩ := ih h₂
    constructor
    · intro hhave
      have hs₁ := hkeep hhave
      rw [hkeep' (by rw [hs₁]; exact hhave), hs₁]
    intro q hq hisadr
    rcases List.mem_cons.mp hq with rfl | hq
    · have hs₁ := hadr hisadr
      rw [hkeep' (by rw [hs₁]), hs₁]
    · exact hadrs q hq hisadr

theorem mem_adrSites {b : Located} {mod : BitVec 32} {i : Nat} {u : JitUnit}
    (hu : b.units[i]? = some u) {k : Nat} (hk : k < u.n) : (i, k) ∈ adrSites (regKey b mod) := by
  have hi : i < b.units.length := (List.getElem?_eq_some_iff.mp hu).1
  have hle := b.units_le
  have hcount : (word (regKey b mod) 4).toNat = b.units.length := by
    rw [regKey_header b mod (by decide)]
    show (BitVec.ofNat 32 b.units.length).toNat = _
    rw [BitVec.toNat_ofNat, Nat.mod_eq_of_lt (by simp only [jitMaxUnits] at hle; omega)]
  have hn : (word (regKey b mod) (7 + 9 * i + 2) &&& 0xff#32).toNat = u.n := by
    rw [regKey_word mod hu (by decide)]
    exact shape_n u
  have hn2 := u.n_le
  refine List.mem_flatMap.mpr ⟨i, List.mem_range.mpr (by rw [hcount]; exact hi), ?_⟩
  refine List.mem_map.mpr ⟨k, List.mem_range.mpr ?_, rfl⟩
  rw [hn]
  omega

theorem insn_words {r : Recording} {b : Located} {mod : BitVec 32} {i : Nat} {u u' : JitUnit}
    (hu : r.src.units[i]? = some u) (hu' : b.units[i]? = some u') {k : Nat} (hk : k < 2) :
    aotKeyWord r.trans (7 + 9 * i + 5 + k) = u.w k ∧
      word (regKey b mod) (7 + 9 * i + 5 + k) = u'.w k := by
  rw [Nat.add_assoc (7 + 9 * i) 5 k,
    aotKeyWord_unit r.trans i (j := 5 + k) (q := 4 + k) (by omega) (by interval_cases k <;> rfl),
    Recording.trans, record_word r.loop hu (by omega), regKey_word mod hu' (by omega)]
  interval_cases k <;> exact ⟨rfl, rfl⟩

theorem fits_of_moved {r : Recording} {b : Located} {mod : BitVec 32} {dbase : BitVec 64}
    (hunits : r.trans.nunits = b.units.length)
    (h : aotFitsMoved r.trans (regKey b mod) (regKey b mod).length b = some dbase) :
    Fits r b dbase := by
  have hlen : b.units.length = r.src.units.length := hunits.symm
  unfold aotFitsMoved at h
  split at h
  · rename_i hall
    obtain ⟨s, hfold, hdbase⟩ := Option.map_eq_some_iff.mp h
    rw [List.all_eq_true] at hall
    have hword : ∀ (i : Nat) (u' : JitUnit), b.units[i]? = some u' → ∀ j, j < 7 →
        wordFits r.trans (regKey b mod) (7 + 9 * i + j) = true := by
      intro i u' hu' j hj
      have hi : i < b.units.length := (List.getElem?_eq_some_iff.mp hu').1
      refine hall _ (List.mem_range'_1.mpr ?_)
      rw [length_regKey]
      omega
    have hinsn := @insn_words r b mod
    refine ⟨hlen, fun i u u' hu hu' => ?_, fun i u u' k hu hu' hk hadr => ?_⟩
    · have hw := hword i u' hu'
      have hplain : ∀ {j q}, j < 5 → q < 6 → keyAt j = some q →
          (r.src.unitCompact u).getD q 0#32 = (b.unitKey u').getD j 0#32 := by
        intro j q hj hq6 hq
        have heq := wordFits_plain hj (hw j (by omega))
        rw [aotKeyWord_unit r.trans i (by omega) hq, Recording.trans, record_word r.loop hu hq6,
          regKey_word mod hu' (by omega)] at heq
        exact heq
      have hwords : ∀ k < 2, insnNorm (u.w k) = insnNorm (u'.w k) ∧
          (r.loop = true → u.w k = u'.w k) := by
        intro k hlt
        obtain ⟨ht, hb⟩ := hinsn hu hu' hlt
        have hfit := wordFits_insn (by omega) (hw (5 + k) (by omega))
        rw [← Nat.add_assoc, ht, hb] at hfit
        exact hfit
      exact unitFits_of_shape (List.mem_of_getElem? hu) (List.mem_of_getElem? hu')
        (hplain (j := 2) (by decide) (by decide) rfl).symm
        (hplain (j := 3) (by decide) (by decide) rfl).symm
        (fun k hk => (hwords k hk).1.symm) fun hloop k hk => ((hwords k hk).2 hloop).symm
    obtain ⟨ht, hb⟩ := hinsn hu hu' (Nat.lt_of_lt_of_le hk u'.n_le)
    have hs := (adrSteps_some _ hfold).2 (i, k) (mem_adrSites hu' hk)
      (by rw [show word (regKey b mod) (7 + 9 * i + 5 + k) = u'.w k from hb]; exact hadr)
    have hdpc : join32 (word (regKey b mod) (7 + 9 * i + 3)) (word (regKey b mod) (7 + 9 * i + 4))
        = u'.pc - b.addr := by
      rw [regKey_word mod hu' (by decide), regKey_word mod hu' (by decide)]
      exact join32_split _
    have hshift : s.2 = adrTarget (u'.w k)
          (b.off + (u'.pc - b.addr + BitVec.ofNat 64 (4 * k))) -
        adrTarget (u.w k) (r.src.off + (u'.pc - b.addr + BitVec.ofNat 64 (4 * k))) := by
      rw [hs]
      simp only [adrMoved]
      rw [hdpc, ht, hb]
      rfl
    rw [← hdbase, hshift, b.addr_sub_off, BitVec.add_assoc, BitVec.sub_add_cancel]
  · cases h

theorem Accepts.fits {r : Recording} {b : Located} {mod : BitVec 32} {dbase : BitVec 64}
    (h : Accepts r.trans b mod dbase) : Fits r b dbase := by
  cases h with
  | found trans x h =>
    obtain ⟨hoff, hunits, hkey⟩ := aotFind_some h
    exact fits_of_found hoff hunits hkey
  | moved hkey hunits hgadgets _ h => exact fits_of_moved hunits h

/-! ## The same addresses -/

structure InsnFits (r : Recording) (b : Located) (dbase : BitVec 64)
    (p p' : BitVec 32 × BitVec 64) : Prop where
  norm : insnNorm p'.1 = insnNorm p.1
  same : r.loop = true → p'.1 = p.1
  dist : p'.2 - b.addr = p.2 - r.src.addr
  adr : isAdr p'.1 = true → b.base + adrTarget p'.1 (b.off + (p'.2 - b.addr)) =
    dbase + adrTarget p.1 (r.src.off + (p.2 - r.src.addr))

theorem add_sub_right_comm (x y z : BitVec 64) : x + y - z = x - z + y := by
  rw [BitVec.sub_eq_add_neg, BitVec.sub_eq_add_neg, BitVec.add_assoc, BitVec.add_comm y,
    ← BitVec.add_assoc]

theorem Fits.insn {r : Recording} {b : Located} {dbase : BitVec 64} (h : Fits r b dbase)
    {i : Nat} {u u' : JitUnit} (hu : r.src.units[i]? = some u) (hu' : b.units[i]? = some u')
    (k : Nat) : (u.insn k = none ∧ u'.insn k = none) ∨
      ∃ p p', u.insn k = some p ∧ u'.insn k = some p' ∧ InsnFits r b dbase p p' := by
  have hunit := h.unit i u u' hu hu'
  unfold JitUnit.insn
  by_cases hk : k < u.n
  · have hk' : k < u'.n := by rw [hunit.n]; exact hk
    have hlt : k < 2 := Nat.lt_of_lt_of_le hk u.n_le
    rw [if_pos hk, if_pos hk']
    refine Or.inr ⟨_, _, rfl, rfl, hunit.norm k hlt, fun hl => hunit.same hl k hlt, ?_, ?_⟩
    · dsimp only
      rw [add_sub_right_comm, add_sub_right_comm, hunit.dpc]
    intro hadr
    have hgoal := h.adr i u u' k hu hu' hk' hadr
    dsimp only at hgoal ⊢
    rw [add_sub_right_comm, add_sub_right_comm, ← hunit.dpc]
    exact hgoal
  have hk' : ¬ k < u'.n := by rw [hunit.n]; exact hk
  rw [if_neg hk, if_neg hk']
  exact Or.inl ⟨rfl, rfl⟩

theorem Fits.units_none {r : Recording} {b : Located} {dbase : BitVec 64} (h : Fits r b dbase)
    (i : Nat) : (r.src.units[i]? = none ∧ b.units[i]? = none) ∨
      ∃ u u', r.src.units[i]? = some u ∧ b.units[i]? = some u' := by
  by_cases hi : i < b.units.length
  · have hi' : i < r.src.units.length := by rw [← h.length]; exact hi
    exact Or.inr ⟨_, _, List.getElem?_eq_getElem hi', List.getElem?_eq_getElem hi⟩
  refine Or.inl ⟨List.getElem?_eq_none ?_, List.getElem?_eq_none (by omega)⟩
  have hlen := h.length
  omega

theorem eval_movGuest {r b : Located} {v v' dbase : BitVec 64} (h : v' - b.addr = v - r.addr) :
    (movGuest r.base v).eval (b.addr - r.off) dbase = v' := by
  simp only [movGuest, Operand.eval]
  have hv : v = v' - b.addr + r.addr := by rw [h, BitVec.sub_add_cancel]
  rw [hv, r.addr_eq]
  grind

theorem eval_movGuestRef {r : Recording} {b : Located} {dbase : BitVec 64}
    {p p' : BitVec 32 × BitVec 64} (h : InsnFits r b dbase p p') (hadr : isAdr p'.1 = true)
    (slot : BitVec 64) :
    (movGuestRef r.src.base (adrTarget p.1 p.2)).eval slot dbase = adrTarget p'.1 p'.2 := by
  have hr : adrTarget p.1 p.2 = r.src.base + adrTarget p.1 (r.src.off + (p.2 - r.src.addr)) := by
    rw [← adrTarget_add r.src.page_aligned]
    congr 1
    rw [r.src.addr_eq]
    grind
  have hb : adrTarget p'.1 p'.2 = b.base + adrTarget p'.1 (b.off + (p'.2 - b.addr)) := by
    rw [← adrTarget_add b.page_aligned]
    congr 1
    rw [b.addr_eq]
    grind
  simp only [movGuestRef, Operand.eval]
  rw [hb, h.adr hadr, hr]
  grind

theorem InsnFits.value {r : Recording} {b : Located} {dbase : BitVec 64}
    {p p' : BitVec 32 × BitVec 64} (h : InsnFits r b dbase p p') (use : Use) (i k : Nat) :
    ((use.value p).map (Const.operand r.src.base (.insn use i k))).map
      (Operand.eval (b.addr - r.src.off) dbase) = use.value p' := by
  cases use with
  | faultPc => exact congrArg some (eval_movGuest h.dist)
  | returnPc =>
    have hcall : isCall p.1 = isCall p'.1 := by rw [← isCall_norm, ← h.norm, isCall_norm]
    simp only [Use.value]
    rw [hcall]
    cases isCall p'.1 with
    | false => rfl
    | true =>
      refine congrArg some (eval_movGuest ?_)
      rw [add_sub_right_comm, add_sub_right_comm, h.dist]
  | literal =>
    have hlit : isLiteral p.1 = isLiteral p'.1 := by
      rw [← isLiteral_norm, ← h.norm, isLiteral_norm]
    simp only [Use.value]
    rw [hlit]
    cases hcase : isLiteral p'.1 with
    | false => rfl
    | true =>
      -- `insn_norm` leaves a literal load alone: the two words are one
      have hword : p'.1 = p.1 := by
        rw [← insnNorm_of_isLiteral hcase, h.norm, insnNorm_of_isLiteral (hlit.trans hcase)]
      refine congrArg some (eval_movGuest ?_)
      simp only [literalTarget]
      rw [hword, add_sub_right_comm, add_sub_right_comm, h.dist]
  | adr =>
    have hadr : isAdr p.1 = isAdr p'.1 := by rw [← isAdr_norm, ← h.norm, isAdr_norm]
    simp only [Use.value]
    rw [hadr]
    cases hcase : isAdr p'.1 with
    | false => rfl
    | true => exact congrArg some (eval_movGuestRef h hcase _)

theorem Fits.value {r : Recording} {b : Located} {dbase : BitVec 64} (h : Fits r b dbase)
    (c : Const) : (c.emitted r.src).map (Operand.eval (b.addr - r.src.off) dbase) = c.value b := by
  cases c with
  | blockPc =>
    exact congrArg some (eval_movGuest (by rw [BitVec.sub_self, BitVec.sub_self]))
  | insn use i k =>
    simp only [Const.emitted, Const.value]
    rcases h.units_none i with ⟨hr, hb⟩ | ⟨u, u', hu, hu'⟩
    · rw [hr, hb]
      rfl
    rw [hu, hu', Option.bind_some, Option.bind_some]
    rcases h.insn hu hu' k with ⟨hn, hn'⟩ | ⟨p, p', hp, hp', hfit⟩
    · rw [hn, hn']
      rfl
    · rw [hp, hp', Option.bind_some, Option.bind_some]
      exact hfit.value use i k

theorem Fits.follow {r : Recording} {b : Located} {dbase : BitVec 64} (h : Fits r b dbase)
    {i : Nat} {u' v : JitUnit} (hu' : b.units[i]? = some u') (hfollow : u'.follow = true)
    (hv : r.src.units[i + 1]? = some v) :
    bTarget (u'.w 0) u'.pc = (movGuest r.src.base v.pc).eval (b.addr - r.src.off) dbase := by
  rcases h.units_none (i + 1) with ⟨hr, -⟩ | ⟨w, v', hw, hv'⟩
  · rw [hr] at hv
    cases hv
  obtain rfl := Option.some.inj (hw.symm.trans hv)
  rw [eval_movGuest (h.unit (i + 1) w v' hw hv').dpc]
  exact (b.followed i u' v' hu' hv' hfollow).symm

theorem Fits.loop {r : Recording} {b : Located} {dbase : BitVec 64} (h : Fits r b dbase)
    (hloop : r.loop = true) : b.taken = some b.addr := by
  have hr := r.loop_ok hloop
  unfold Located.taken at hr ⊢
  rw [h.length]
  rcases h.units_none (r.src.units.length - 1) with ⟨hnone, -⟩ | ⟨u, u', hu, hu'⟩
  · rw [hnone] at hr
    cases hr
  rw [hu, Option.bind_some] at hr
  rw [hu', Option.bind_some]
  have hunit := h.unit _ u u' hu hu'
  unfold JitUnit.taken at hr ⊢
  rw [hunit.last, hunit.n]
  cases hlast : u.last with
  | false =>
    rw [hlast] at hr
    cases hr
  | true =>
    rw [hlast, if_pos rfl] at hr
    rw [if_pos rfl]
    rcases h.insn hu hu' (u.n - 1) with ⟨hn, -⟩ | ⟨p, p', hp, hp', hfit⟩
    · rw [hn] at hr
      cases hr
    rw [hp, Option.bind_some] at hr
    rw [hp', Option.bind_some, hfit.same hloop]
    obtain ⟨off, hoff, htarget⟩ := Option.map_eq_some_iff.mp hr
    rw [hoff, Option.map_some]
    have hdist := hfit.dist
    refine congrArg some ?_
    grind

/-- A recorded translation that a block gets computes the block's own addresses: every
constant of its code, where it goes on after a followed branch, and the start that a
self-loop branches back to. -/
theorem aot_same_addresses (r : Recording) (b : Located) (mod : BitVec 32) (dbase : BitVec 64)
    (h : Accepts r.trans b mod dbase) :
    (∀ c : Const, (c.emitted r.src).map (Operand.eval (b.addr - r.trans.off) dbase) = c.value b) ∧
      (∀ (i : Nat) (u v : JitUnit), b.units[i]? = some u → u.follow = true →
        r.src.units[i + 1]? = some v →
          bTarget (u.w 0) u.pc = (movGuest r.src.base v.pc).eval (b.addr - r.trans.off) dbase) ∧
      (r.trans.loop = true → b.taken = some b.addr) := by
  have hfits := h.fits
  exact ⟨hfits.value, fun i u v hu hfollow hv => hfits.follow hu hfollow hv, hfits.loop⟩

/-- A block of one unit, the word `w`. -/
def oneUnit (base off : BitVec 64) (w : BitVec 32) (h : base.toNat % 4096 = 0) : Located :=
  { addr := base + off, off := off, used := 1, code := fun _ => 0x5000#64
    jumpIp := fun _ => none
    units := [{ start := 0#32, stop := 1#32, pc := base + off, n := 1, follow := false
                last := true, w := fun i => if i = 0 then w else 0#32
                n_le := Nat.le_succ 1 }]
    base := base, addr_eq := rfl, page_aligned := h, units_le := Nat.le_add_left 1 1099
    near := by
      intro u hu
      obtain rfl := List.mem_singleton.mp hu
      rw [BitVec.sub_self]
      decide
    followed := by
      intro i u u' _ hu' _
      simp at hu' }

/-- `adr x0, .+8` at file offset `0x1000`. -/
def recordedAdr : Recording :=
  { src := oneUnit 0x400000#64 0x1000#64 0x10000040#32 (by decide), loop := false
    loop_ok := fun h => by cases h }

/-- `adr x0, .+16` at file offset `0x2004`: code and data moved by different distances. -/
def movedAdr : Located := oneUnit 0x7000000#64 0x2004#64 0x10000080#32 (by decide)

theorem aot_same_addresses_movedAdr : ((Const.insn .adr 0 0).emitted recordedAdr.src).map
      (Operand.eval (movedAdr.addr - recordedAdr.trans.off) 0x700100c#64) = some 0x7002014#64 := by
  have h : Accepts recordedAdr.trans movedAdr 0#32 0x700100c#64 :=
    .moved (by decide) (by decide) (by decide) _ (by decide)
  rw [(aot_same_addresses recordedAdr movedAdr 0#32 _ h).1 (.insn .adr 0 0)]
  decide

end IosLinuxkit.Aot
