import IosLinuxkit.Asbestos.AotMoved
import IosLinuxkit.Lib.Bisect

/-!
# The tables of an image

What `tools/jit_aot` writes into an image, and how `jit.c` reads it: the compact key of a translation
(`compact.py`), and the table of content hashes (`gen.py`) that `aot_find_moved` searches.

* **`keys_agree`** — all of it, for every key.
-/

namespace IosLinuxkit.Aot

/-! ## Keys in the layout of `reg_key` -/

def Laid (k : List (BitVec 32)) : Prop := k.length = 7 + 9 * (word k 4).toNat

/-- `DROP` of `compact.py`. -/
def dropped (j : Nat) : Bool := j == 4 || j == 7 || j == 8

structure PlainKey where
  words : List (BitVec 32)
  laid : Laid words
  zero : ∀ u, u < (word words 4).toNat → ∀ j, j < 9 → dropped j = true → word words (7 + 9 * u + j) = 0#32

/-- `gen.py` on the key of a recording: no module, no gadgets. -/
def clearKey (k : List (BitVec 32)) : List (BitVec 32) :=
  (List.range k.length).map fun i => if i == 0 || keyIsGadget i then 0#32 else word k i

/-! ## `compact.py` -/

/-- The words of unit `u`. -/
def unitOf (words : List (BitVec 32)) (u : Nat) : List (BitVec 32) := (words.drop (7 + 9 * u)).take 9

def compactUnit (unit : List (BitVec 32)) : Option (List (BitVec 32)) :=
  if (List.range unit.length).any fun j => dropped j && word unit j != 0#32 then none
  else some (((List.range unit.length).filter fun j => !dropped j).map (word unit))

/-- The loop of `compact_key`, after its first units. -/
def compactUnits (words : List (BitVec 32)) : Nat → Option (List (BitVec 32))
  | 0 => some (words.take 7)
  | u + 1 =>
    match compactUnits words u with
    | none => none
    | some out => (compactUnit (unitOf words u)).map (out ++ ·)

/-- `compact_key`; none is where it gives up. -/
def compactKey (words : List (BitVec 32)) : Option (List (BitVec 32)) :=
  if words.length ≠ 7 + 9 * (word words 4).toNat then none else compactUnits words (word words 4).toNat

section Compact

variable {k c : List (BitVec 32)} {u j q n : Nat}

theorem word_eq_getElem? (k : List (BitVec 32)) (i : Nat) : word k i = (k[i]?).getD 0#32 :=
  List.getD_eq_getElem?_getD

theorem word_map_range (f : Nat → BitVec 32) {i : Nat} (hi : i < n) : word ((List.range n).map f) i = f i := by
  rw [word_eq_getElem?, List.getElem?_map, List.getElem?_range hi]
  rfl

theorem unitOf_length (hu : 7 + 9 * (u + 1) ≤ k.length) : (unitOf k u).length = 9 := by
  unfold unitOf
  rw [List.length_take, List.length_drop]
  omega

theorem unitOf_word (hj : j < 9) : word (unitOf k u) j = word k (7 + 9 * u + j) := by
  unfold unitOf
  rw [word_eq_getElem?, word_eq_getElem?, List.getElem?_take, if_pos hj, List.getElem?_drop]

theorem kept_words : (List.range 9).filter (fun j => !dropped j) = [0, 1, 2, 3, 5, 6] := by decide

theorem keyAt_kept (hq : keyAt j = some q) : q < 6 ∧ j < 9 ∧ [0, 1, 2, 3, 5, 6][q]? = some j := by
  unfold keyAt at hq
  split at hq
  all_goals
    cases hq
  all_goals decide

theorem keyAt_none (hj : j < 9) : keyAt j = none ↔ dropped j = true := by
  have h : ∀ j < 9, keyAt j = none ↔ dropped j = true := by decide
  exact h j hj

theorem compactUnit_plain {unit : List (BitVec 32)} (hlen : unit.length = 9)
    (hzero : ∀ j, j < 9 → dropped j = true → word unit j = 0#32) :
    compactUnit unit = some ([0, 1, 2, 3, 5, 6].map (word unit)) := by
  have hany : ¬ ((List.range unit.length).any fun j => dropped j && word unit j != 0#32) = true := by
    rw [List.any_eq_true]
    rintro ⟨j, hj, hbad⟩
    rw [hlen, List.mem_range] at hj
    rw [Bool.and_eq_true, bne_iff_ne] at hbad
    exact hbad.2 (hzero j hj hbad.1)
  unfold compactUnit
  rw [if_neg hany, hlen, kept_words]

structure CompactOf (k c : List (BitVec 32)) (n : Nat) : Prop where
  length : c.length = 7 + 6 * n
  header : ∀ i, i < 7 → word c i = word k i
  unit : ∀ u, u < n → ∀ j q, keyAt j = some q → word c (7 + 6 * u + q) = word k (7 + 9 * u + j)

theorem compactOf_zero (hlen : 7 ≤ k.length) : CompactOf k (k.take 7) 0 := by
  refine ⟨?_, fun i hi => ?_, fun u hu => absurd hu (Nat.not_lt_zero u)⟩
  · rw [List.length_take]
    omega
  · rw [word_eq_getElem?, word_eq_getElem?, List.getElem?_take, if_pos hi]

theorem CompactOf.step (h : CompactOf k c n) (hn : 7 + 9 * (n + 1) ≤ k.length) :
    CompactOf k (c ++ [0, 1, 2, 3, 5, 6].map (word (unitOf k n))) (n + 1) := by
  have hold : ∀ i, i < 7 + 6 * n → word (c ++ [0, 1, 2, 3, 5, 6].map (word (unitOf k n))) i = word c i := by
    intro i hi
    rw [word_eq_getElem?, word_eq_getElem?, List.getElem?_append_left (by rw [h.length]; exact hi)]
  refine ⟨?_, fun i hi => (hold i (by omega)).trans (h.header i hi), fun u hu j q hq => ?_⟩
  · rw [List.length_append, h.length, List.length_map]
    show 7 + 6 * n + 6 = 7 + 6 * (n + 1)
    omega
  obtain ⟨hq6, hj9, hat⟩ := keyAt_kept hq
  by_cases hun : u < n
  · rw [hold _ (by omega)]
    exact h.unit u hun j q hq
  · -- of the unit that was added
    obtain rfl : u = n := by omega
    rw [word_eq_getElem?, List.getElem?_append_right (by rw [h.length]; omega), h.length,
      show 7 + 6 * u + q - (7 + 6 * u) = q by omega, List.getElem?_map, hat]
    exact unitOf_word hj9

theorem compactKey_spec (k : PlainKey) :
    ∃ c, compactKey k.words = some c ∧ CompactOf k.words c (word k.words 4).toNat := by
  have hlaid := k.laid
  unfold Laid at hlaid
  have hunits : ∀ n, n ≤ (word k.words 4).toNat → ∃ c, compactUnits k.words n = some c ∧ CompactOf k.words c n := by
    intro n hn
    induction n with
    | zero => exact ⟨_, rfl, compactOf_zero (by omega)⟩
    | succ n ih =>
      obtain ⟨c, hc, hof⟩ := ih (by omega)
      have hroom : 7 + 9 * (n + 1) ≤ k.words.length := by omega
      have hunit : compactUnit (unitOf k.words n) = some ([0, 1, 2, 3, 5, 6].map (word (unitOf k.words n))) := by
        apply compactUnit_plain (unitOf_length hroom)
        intro j hj hdrop
        rw [unitOf_word hj]
        exact k.zero n (by omega) j hj hdrop
      refine ⟨_, ?_, hof.step hroom⟩
      rw [compactUnits, hc]
      dsimp only
      rw [hunit]
      rfl
  unfold compactKey
  rw [if_neg (fun h => h hlaid)]
  exact hunits _ (Nat.le_refl _)

end Compact

/-! ## Reading the compact key -/

/-- The keys that are equal but for the module and the gadgets. -/
def SameKey (k k' : List (BitVec 32)) : Prop :=
  k'.length = k.length ∧ ∀ i, 1 ≤ i → i < k.length → keyIsGadget i = false → word k' i = word k i

section Read

variable {t : AotTrans} {k k' : List (BitVec 32)} {n i : Nat}

theorem unit_place (hlo : 7 ≤ i) (hi : i < 7 + 9 * n) :
    ∃ u j, i = 7 + 9 * u + j ∧ j < 9 ∧ u < n ∧ (i - 7) % 9 = j ∧ (i - 7) / 9 = u :=
  ⟨(i - 7) / 9, (i - 7) % 9, by omega, by omega, by omega, rfl, rfl⟩

theorem aotKeyWord_compact (k : PlainKey) (h : CompactOf k.words t.key (word k.words 4).toNat)
    (hi : i < k.words.length) : aotKeyWord t i = word k.words i := by
  rw [k.laid] at hi
  by_cases hlow : i < 7
  · rw [aotKeyWord, if_pos hlow]
    exact h.header i hlow
  obtain ⟨u, j, rfl, hj, hu, _, _⟩ := unit_place (by omega) hi
  cases hq : keyAt j with
  | some q =>
    rw [aotKeyWord_unit t u hj hq]
    exact h.unit u hu j q hq
  | none =>
    -- left out, as it was zero
    rw [k.zero u hu j hj ((keyAt_none hj).mp hq), aotKeyWord, if_neg hlow,
      show (7 + 9 * u + j - 7) % 9 = j by omega, hq]

theorem keyIsGadget_unit {u j : Nat} (hj : j < 9) : keyIsGadget (7 + 9 * u + j) = decide (7 ≤ j) := by
  unfold keyIsGadget
  rw [show (7 + 9 * u + j - 7) % 9 = j by omega, decide_eq_true (by omega), Bool.true_and]

theorem keyIsGadget_low (hi : i < 7) : keyIsGadget i = false := by
  unfold keyIsGadget
  rw [decide_eq_false (by omega), Bool.false_and]

theorem aotKeySame_iff {nkey : Nat} : aotKeySame t k' nkey = true ↔
    (∀ i, 1 ≤ i → i < 7 → i < nkey → word t.key i = word k' i) ∧ ∀ u, u < (nkey - 7) / 9 →
        (∀ j q, keyAt j = some q → word k' (7 + 9 * u + j) = word t.key (7 + 6 * u + q)) ∧
          word k' (7 + 9 * u + 4) = 0#32 := by
  unfold aotKeySame
  rw [Bool.and_eq_true, List.all_eq_true, List.all_eq_true]
  refine and_congr ?_ ?_
  · constructor
    · intro h i h1 h7 hn
      have hi := h i (by rw [List.mem_range'_1]; omega)
      rw [Bool.or_eq_true, decide_eq_true_eq, beq_iff_eq] at hi
      exact hi.resolve_left (by omega)
    intro h i hi
    rw [List.mem_range'_1] at hi
    rw [Bool.or_eq_true, decide_eq_true_eq, beq_iff_eq]
    by_cases hn : nkey ≤ i
    · exact .inl hn
    · exact .inr (h i hi.1 (by omega) (by omega))
  · constructor
    · intro h u hu
      have hall := h u (List.mem_range.mpr hu)
      simp only [Bool.and_eq_true, beq_iff_eq] at hall
      obtain ⟨⟨⟨⟨⟨⟨h0, h1⟩, h2⟩, h3⟩, h4⟩, h5⟩, h6⟩ := hall
      refine ⟨fun j q hq => ?_, h4⟩
      unfold keyAt at hq
      split at hq
      all_goals cases hq
      all_goals assumption
    intro h u hu
    obtain ⟨hat, h4⟩ := h u (List.mem_range.mp hu)
    simp only [Bool.and_eq_true, beq_iff_eq]
    exact ⟨⟨⟨⟨⟨⟨hat 0 0 rfl, hat 1 1 rfl⟩, hat 2 2 rfl⟩, hat 3 3 rfl⟩, h4⟩, hat 5 4 rfl⟩, hat 6 5 rfl⟩

theorem aotKeySame_compact (k : PlainKey) (h : CompactOf k.words t.key (word k.words 4).toNat)
    (hlaid : Laid k') : aotKeySame t k' k'.length = true ↔ SameKey k.words k' := by
  have hk := k.laid
  unfold Laid at hlaid hk
  rw [aotKeySame_iff, hlaid, show (7 + 9 * (word k' 4).toNat - 7) / 9 = (word k' 4).toNat by omega]
  constructor
  · rintro ⟨hhead, hunits⟩
    have h4 : word k' 4 = word k.words 4 := by
      rw [← h.header 4 (by decide)]
      exact (hhead 4 (by decide) (by decide) (by omega)).symm
    refine ⟨by rw [hlaid, hk, h4], fun i h1 hi hg => ?_⟩
    rw [hk] at hi
    by_cases hlow : i < 7
    · rw [← h.header i hlow]
      exact (hhead i h1 hlow (by omega)).symm
    obtain ⟨u, j, rfl, hj, hu, _, _⟩ := unit_place (by omega) hi
    obtain ⟨hat, hzero⟩ := hunits u (by rw [h4]; exact hu)
    cases hq : keyAt j with
    | some q =>
      rw [hat j q hq]
      exact h.unit u hu j q hq
    | none =>
      rw [keyIsGadget_unit hj, decide_eq_false_iff_not] at hg
      have hdrop := (keyAt_none hj).mp hq
      -- the high half of the distance is the only other word left out
      obtain rfl : j = 4 := by
        have hcases : ∀ j < 7, dropped j = true → j = 4 := by decide
        exact hcases j (by omega) hdrop
      rw [hzero, k.zero u hu 4 hj hdrop]
  rintro ⟨hlen, hsame⟩
  have h4 : word k' 4 = word k.words 4 := hsame 4 (by decide) (by omega) (keyIsGadget_low (by decide))
  refine ⟨fun i h1 hlow _ => ?_, fun u hu => ⟨fun j q hq => ?_, ?_⟩⟩
  · rw [h.header i hlow]
    exact (hsame i h1 (by omega) (keyIsGadget_low hlow)).symm
  · rw [h4] at hu
    obtain ⟨hq6, hj, hat⟩ := keyAt_kept hq
    rw [h.unit u hu j q hq]
    apply hsame _ (by omega) (by omega)
    rw [keyIsGadget_unit hj, decide_eq_false_iff_not]
    intro h7
    have hcases : ∀ j < 9, 7 ≤ j → keyAt j = none := by decide
    rw [hcases j hj h7] at hq
    cases hq
  rw [h4] at hu
  rw [← k.zero u hu 4 (by decide) rfl]
  exact hsame _ (by omega) (by omega) (by rw [keyIsGadget_unit (by decide)]; rfl)

end Read

/-! ## Content hashes -/

def contentWord (k : List (BitVec 32)) (i : Nat) : BitVec 32 :=
  if keyIsInsn i then insnNorm (word k i) else word k i

def fnvBasis : Nat := 0xcbf29ce484222325

def fnvPrime : Nat := 0x100000001b3

/-- One round of `key_content_hash`. -/
def hashRound (k : List (BitVec 32)) (h : BitVec 64) (i : Nat) : BitVec 64 :=
  if keyIsGadget i then h else (h ^^^ (contentWord k i).setWidth 64) * BitVec.ofNat 64 fnvPrime

def keyContentHash (k : List (BitVec 32)) (n : Nat) : BitVec 64 :=
  (List.range' 4 (n - 4)).foldl (hashRound k) (BitVec.ofNat 64 fnvBasis)

/-- `insn_norm` of `gen.py`, on an integer. -/
def genInsnNorm (w : Nat) : Nat :=
  if w &&& 0x7C000000 = 0x14000000 then w &&& 0xFC000000
  else if w &&& 0xFF000010 = 0x54000000 then w &&& 0xFF00001F
  else if w &&& 0x7E000000 = 0x34000000 then w &&& 0xFF00001F
  else if w &&& 0x7E000000 = 0x36000000 then w &&& 0xFFF8001F
  else if w &&& 0x1F000000 = 0x10000000 then w &&& 0x9F00001F
  else w

/-- One round of `content_hash`, of `gen.py`. -/
def genRound (key : List Nat) (h i : Nat) : Nat :=
  if 7 ≤ i ∧ 7 ≤ (i - 7) % 9 then h
  else
    let w := if 7 ≤ i ∧ ((i - 7) % 9 = 5 ∨ (i - 7) % 9 = 6) then genInsnNorm (key.getD i 0) else key.getD i 0
    ((h ^^^ w) * fnvPrime) &&& 0xffffffffffffffff

/-- `content_hash` of `gen.py`. -/
def contentHash (key : List Nat) : Nat := (List.range' 4 (key.length - 4)).foldl (genRound key) fnvBasis

section Hash

variable {k k' : List (BitVec 32)} {i : Nat}

theorem norm_class {w m c keep other : BitVec 32} {m' c' keep' x : Nat} (hm : m.toNat = m')
    (hc : c.toNat = c') (hkeep : keep.toNat = keep') (hx : x = (w &&& other).toNat) :
    (if w.toNat &&& m' = c' then w.toNat &&& keep' else x) =
      (w &&& if w &&& m = c then keep else other).toNat := by
  have htest : w.toNat &&& m' = c' ↔ w &&& m = c := by
    rw [← hm, ← hc, ← BitVec.toNat_and, BitVec.toNat_inj]
  by_cases h : w &&& m = c
  · rw [if_pos (htest.mpr h), if_pos h, BitVec.toNat_and, hkeep]
  · rw [if_neg (fun h' => h (htest.mp h')), if_neg h, hx]

theorem genInsnNorm_eq (w : BitVec 32) : genInsnNorm w.toNat = (insnNorm w).toNat := by
  have hall : w &&& 0xFFFFFFFF#32 = w := BitVec.and_allOnes
  unfold insnNorm normMask genInsnNorm
  refine norm_class (by rfl) (by rfl) (by rfl) ?_
  refine norm_class (by rfl) (by rfl) (by rfl) ?_
  refine norm_class (by rfl) (by rfl) (by rfl) ?_
  refine norm_class (by rfl) (by rfl) (by rfl) ?_
  refine norm_class (by rfl) (by rfl) (by rfl) ?_
  rw [hall]

theorem getD_map_toNat (k : List (BitVec 32)) (i : Nat) : (k.map BitVec.toNat).getD i 0 = (word k i).toNat := by
  rw [word_eq_getElem?, List.getD_eq_getElem?_getD, List.getElem?_map]
  cases k[i]? with
  | none => rfl
  | some w => rfl

theorem fnvPrime_lt : fnvPrime < 2 ^ 64 := by decide

theorem genRound_toNat (k : List (BitVec 32)) (h : BitVec 64) (i : Nat) :
    genRound (k.map BitVec.toNat) h.toNat i = (hashRound k h i).toNat := by
  have hw : (if 7 ≤ i ∧ ((i - 7) % 9 = 5 ∨ (i - 7) % 9 = 6) then
      genInsnNorm ((k.map BitVec.toNat).getD i 0) else (k.map BitVec.toNat).getD i 0) =
      (contentWord k i).toNat := by
    unfold contentWord keyIsInsn
    simp only [Bool.and_eq_true, Bool.or_eq_true, decide_eq_true_eq]
    split
    · rw [getD_map_toNat, genInsnNorm_eq]
    · rw [getD_map_toNat]
  have hwide : ((contentWord k i).setWidth 64).toNat = (contentWord k i).toNat := by
    rw [BitVec.toNat_setWidth]
    exact Nat.mod_eq_of_lt (Nat.lt_of_lt_of_le (contentWord k i).isLt (by decide))
  unfold genRound hashRound keyIsGadget
  simp only [Bool.and_eq_true, decide_eq_true_eq]
  split
  · rfl
  · rw [hw, BitVec.toNat_mul, BitVec.toNat_xor, hwide, BitVec.toNat_ofNat, Nat.mod_eq_of_lt fnvPrime_lt]
    exact Nat.and_two_pow_sub_one_eq_mod _ 64

theorem contentHash_eq (k : List (BitVec 32)) :
    contentHash (k.map BitVec.toNat) = (keyContentHash k k.length).toNat := by
  unfold contentHash keyContentHash
  rw [List.length_map, ← List.foldl_hom BitVec.toNat (genRound_toNat k), BitVec.toNat_ofNat]
  congr 1

/-- The keys with the same content, wherever their blocks are. -/
def SameContent (k k' : List (BitVec 32)) : Prop :=
  k'.length = k.length ∧
    ∀ i, 4 ≤ i → i < k.length → keyIsGadget i = false → contentWord k' i = contentWord k i

theorem SameContent.hash (h : SameContent k k') :
    keyContentHash k' k'.length = keyContentHash k k.length := by
  unfold keyContentHash
  rw [h.1]
  apply List.foldl_ext
  intro x i hi
  rw [List.mem_range'_1] at hi
  unfold hashRound
  split
  · rfl
  case isFalse hg =>
    rw [h.2 i hi.1 (by omega) (Bool.not_eq_true _ ▸ hg)]

end Hash

/-! ## The table of hashes -/

structure AotHash where
  hash : BitVec 64
  trans : Nat

def pairLe (a b : Nat × Nat) : Bool := decide (a.1 < b.1) || a.1 == b.1 && decide (a.2 ≤ b.2)

/-- `Lbyhash` of `gen.py`, for the keys of the recording. -/
def byHashTable (keys : List (List (BitVec 32))) : List AotHash :=
  ((keys.zipIdx.map fun p => (contentHash (p.1.map BitVec.toNat), p.2)).mergeSort pairLe).map fun e =>
    ⟨BitVec.ofNat 64 e.1, e.2⟩

/-- The entries that `aot_find_moved` goes through. -/
def scanned (byHash : List AotHash) (h : BitVec 64) : List AotHash :=
  (byHash.drop (bisect (fun mid => (byHash[mid]?).any fun e => decide (e.hash.toNat < h.toNat)) 0
    byHash.length)).takeWhile fun e => e.hash == h

/-- `aot_find_moved`: the translation, by its index, and its `dbase`. An image without a table has an
empty one, and `usable` is `aot_slot_usable`. -/
def aotFindMoved (trans : List AotTrans) (byHash : List AotHash) (usable : Nat → Bool) (b : Located)
    (key : List (BitVec 32)) : Option (Nat × BitVec 64) :=
  (scanned byHash (keyContentHash key key.length)).findSome? fun e =>
    (trans[e.trans]?).bind fun t =>
      if t.nkey ≠ key.length ∨ t.nunits ≠ b.units.length then none
      else if gadgetsSame t b then
        (aotFitsMoved t key key.length b).bind fun dbase => if usable e.trans then some (e.trans, dbase) else none
      else none

section Table

variable {keys : List (List (BitVec 32))} {byHash : List AotHash} {h : BitVec 64} {i : Nat}

theorem contentHash_lt (key : List (BitVec 32)) : contentHash (key.map BitVec.toNat) < 2 ^ 64 := by
  rw [contentHash_eq]
  exact BitVec.isLt _

theorem pairLe_iff (a b : Nat × Nat) : pairLe a b = true ↔ a.1 < b.1 ∨ (a.1 = b.1 ∧ a.2 ≤ b.2) := by
  simp [pairLe]

theorem mem_byHashTable {key : List (BitVec 32)} (hi : keys[i]? = some key) :
    ∃ e ∈ byHashTable keys, e.trans = i ∧ e.hash = keyContentHash key key.length := by
  have hmem : (contentHash (key.map BitVec.toNat), i) ∈
      (keys.zipIdx.map fun p => (contentHash (p.1.map BitVec.toNat), p.2)).mergeSort pairLe := by
    rw [List.mem_mergeSort, List.mem_map]
    exact ⟨(key, i), List.mem_zipIdx_iff_getElem?.mpr hi, rfl⟩
  refine ⟨_, List.mem_map_of_mem hmem, rfl, ?_⟩
  dsimp only
  rw [contentHash_eq, BitVec.ofNat_toNat, BitVec.setWidth_eq]

theorem sorted_byHashTable (keys : List (List (BitVec 32))) :
    SortedBy (fun e : AotHash => e.hash.toNat) (byHashTable keys) := by
  have htrans : ∀ a b c : Nat × Nat, pairLe a b = true → pairLe b c = true → pairLe a c = true := by
    intro a b c hab hbc
    rw [pairLe_iff] at hab hbc ⊢
    omega
  have htotal : ∀ a b : Nat × Nat, (pairLe a b || pairLe b a) = true := by
    intro a b
    rw [Bool.or_eq_true, pairLe_iff, pairLe_iff]
    omega
  have hsorted := List.pairwise_mergeSort htrans htotal
    (keys.zipIdx.map fun p => (contentHash (p.1.map BitVec.toNat), p.2))
  unfold SortedBy byHashTable
  rw [List.pairwise_map]
  refine hsorted.imp_of_mem fun {a b} ha hb hab => ?_
  have hlt : ∀ p ∈ (keys.zipIdx.map fun p => (contentHash (p.1.map BitVec.toNat), p.2)).mergeSort pairLe,
      p.1 < 2 ^ 64 := by
    intro p hp
    rw [List.mem_mergeSort] at hp
    obtain ⟨q, _, rfl⟩ := List.mem_map.mp hp
    exact contentHash_lt q.1
  dsimp only
  rw [BitVec.toNat_ofNat, BitVec.toNat_ofNat, Nat.mod_eq_of_lt (hlt a ha), Nat.mod_eq_of_lt (hlt b hb)]
  rw [pairLe_iff] at hab
  omega

theorem scanned_eq_filter (hs : SortedBy (fun e : AotHash => e.hash.toNat) byHash) :
    scanned byHash h = byHash.filter fun e => e.hash == h := by
  have hbound := lowerBound_bisect (k := h.toNat) hs (fun i x _ hi => absurd hi (Nat.not_lt_zero i))
    (fun i x hx hi => by
      rw [List.getElem?_eq_none hi] at hx
      cases hx) (Nat.zero_le _) (Nat.le_refl _)
  have hscan := scan_eq_filter hs hbound
  have heq : ∀ e : AotHash, (e.hash.toNat == h.toNat) = (e.hash == h) := by
    intro e
    rw [Bool.eq_iff_iff, beq_iff_eq, beq_iff_eq]
    exact BitVec.toNat_inj
  simp only [heq] at hscan
  exact hscan

theorem mem_scanned {key k' : List (BitVec 32)} (hi : keys[i]? = some key) (hsame : SameContent key k') :
    ∃ e ∈ scanned (byHashTable keys) (keyContentHash k' k'.length), e.trans = i := by
  obtain ⟨e, he, hti, hhash⟩ := mem_byHashTable hi
  refine ⟨e, ?_, hti⟩
  rw [scanned_eq_filter (sorted_byHashTable keys), List.mem_filter, beq_iff_eq]
  exact ⟨he, hhash.trans hsame.hash.symm⟩

theorem aotFindMoved_isSome {trans : List AotTrans} {usable : Nat → Bool} {b : Located} {t : AotTrans}
    {k' : List (BitVec 32)} {dbase : BitVec 64} {e : AotHash}
    (he : e ∈ scanned byHash (keyContentHash k' k'.length)) (ht : trans[e.trans]? = some t)
    (hkey : t.nkey = k'.length) (hunits : t.nunits = b.units.length) (hgadgets : gadgetsSame t b = true)
    (hfits : aotFitsMoved t k' k'.length b = some dbase) (husable : usable e.trans = true) :
    (aotFindMoved trans byHash usable b k').isSome = true := by
  unfold aotFindMoved
  rw [List.findSome?_isSome_iff]
  refine ⟨e, he, ?_⟩
  rw [ht, Option.bind_some, if_neg (fun h => h.elim (fun h => h hkey) fun h => h hunits), if_pos hgadgets, hfits,
    Option.bind_some, if_pos husable]
  rfl

end Table

/-! ## All of it -/

theorem clearKey_length (k : List (BitVec 32)) : (clearKey k).length = k.length := by
  unfold clearKey
  rw [List.length_map, List.length_range]

theorem clearKey_word {k : List (BitVec 32)} {i : Nat} (hi : i < k.length) :
    word (clearKey k) i = if i == 0 || keyIsGadget i then 0#32 else word k i :=
  word_map_range _ hi

theorem clearKey_kept {k : List (BitVec 32)} {i : Nat} (hi : i < k.length) (h0 : i ≠ 0)
    (hg : keyIsGadget i = false) : word (clearKey k) i = word k i := by
  rw [clearKey_word hi, if_neg]
  rw [hg, Bool.or_false, beq_iff_eq]
  exact h0

theorem sameContent_clearKey (k : List (BitVec 32)) : SameContent k (clearKey k) := by
  refine ⟨clearKey_length k, fun i h4 hi hg => ?_⟩
  unfold contentWord
  rw [clearKey_kept hi (by omega) hg]

theorem SameContent.trans {k₁ k₂ k₃ : List (BitVec 32)} (h₁ : SameContent k₁ k₂) (h₂ : SameContent k₂ k₃) :
    SameContent k₁ k₃ :=
  ⟨h₂.1.trans h₁.1, fun i h4 hi hg => (h₂.2 i h4 (by rw [h₁.1]; exact hi) hg).trans (h₁.2 i h4 hi hg)⟩

def regKeyPlain (b : Located) (mod : BitVec 32) : PlainKey where
  words := clearKey (regKey b mod)
  laid := by
    have hlen := length_regKey b mod
    have h4 : word (clearKey (regKey b mod)) 4 = BitVec.ofNat 32 b.units.length :=
      (clearKey_kept (by omega) (by decide) (keyIsGadget_low (by decide))).trans
        (regKey_header b mod (by decide))
    have hle := b.units_le
    unfold jitMaxUnits at hle
    unfold Laid
    rw [h4, clearKey_length, hlen, BitVec.toNat_ofNat, Nat.mod_eq_of_lt (by omega)]
  zero u hu j hj hdrop := by
    have hlen := length_regKey b mod
    have h4 : word (clearKey (regKey b mod)) 4 = BitVec.ofNat 32 b.units.length :=
      (clearKey_kept (by omega) (by decide) (keyIsGadget_low (by decide))).trans
        (regKey_header b mod (by decide))
    have hu' : u < b.units.length := by
      rw [h4, BitVec.toNat_ofNat] at hu
      exact Nat.lt_of_lt_of_le hu (Nat.mod_le _ _)
    have hget := List.getElem?_eq_getElem hu'
    by_cases hg : keyIsGadget (7 + 9 * u + j) = true
    · rw [clearKey_word (by omega), hg, Bool.or_true, if_pos rfl]
    · -- the high half of a distance within a page
      have h7 : ¬ 7 ≤ j := by
        rw [keyIsGadget_unit hj, decide_eq_true_eq] at hg
        exact hg
      obtain rfl : j = 4 := by
        have hcases : ∀ j < 7, dropped j = true → j = 4 := by decide
        exact hcases j (by omega) hdrop
      rw [clearKey_kept (by omega) (by omega) (Bool.not_eq_true _ ▸ hg), regKey_word mod hget (by decide)]
      exact hi32_eq_zero (b.near _ (List.getElem_mem hu'))

theorem regKeyPlain_units (b : Located) (mod : BitVec 32) :
    (word (regKeyPlain b mod).words 4).toNat = b.units.length := by
  have hlaid := (regKeyPlain b mod).laid
  have hlen : (regKeyPlain b mod).words.length = 7 + 9 * b.units.length :=
    (clearKey_length _).trans (length_regKey b mod)
  unfold Laid at hlaid
  omega

theorem ext_word {c d : List (BitVec 32)} (hlen : c.length = d.length)
    (h : ∀ i, i < c.length → word c i = word d i) : c = d := by
  apply List.ext_getElem hlen
  intro i hc hd
  have hi := h i hc
  rw [word_eq_getElem?, word_eq_getElem?, List.getElem?_eq_getElem hc, List.getElem?_eq_getElem hd] at hi
  exact hi

/-- **`compact.py`** makes of the key of a block that of its record. -/
theorem compactKey_regKey (b : Located) (mod : BitVec 32) (loop : Bool) :
    compactKey (regKeyPlain b mod).words = some (record b loop).key := by
  obtain ⟨c, hc, hof⟩ := compactKey_spec (regKeyPlain b mod)
  have hlen := length_regKey b mod
  have hrec : ∀ us : List JitUnit, (us.flatMap b.unitCompact).length = 6 * us.length := by
    intro us
    induction us with
    | nil => rfl
    | cons u us ih =>
      rw [List.flatMap_cons, List.length_append, ih, List.length_cons, show (b.unitCompact u).length = 6 from rfl]
      omega
  have hreclen : (record b loop).key.length = 7 + 6 * b.units.length := by
    show (b.header 0 ++ b.units.flatMap b.unitCompact).length = _
    rw [List.length_append, hrec]
    rfl
  rw [regKeyPlain_units] at hof
  rw [hc]
  congr 1
  refine ext_word (hof.length.trans hreclen.symm) fun i hi => ?_
  rw [hof.length] at hi
  by_cases hlow : i < 7
  · rw [hof.header i hlow, record_header b loop hlow]
    by_cases h0 : i = 0
    · subst h0
      exact (clearKey_word (by omega)).trans (if_pos rfl)
    rw [show word (regKeyPlain b mod).words i = word (regKey b mod) i from
      clearKey_kept (by omega) h0 (keyIsGadget_low hlow), regKey_header b mod hlow]
    -- only the first word of the two headers differs
    obtain ⟨j, rfl⟩ := Nat.exists_eq_succ_of_ne_zero h0
    rfl
  obtain ⟨u, q, rfl, hq, hu⟩ : ∃ u q, i = 7 + 6 * u + q ∧ q < 6 ∧ u < b.units.length :=
    ⟨(i - 7) / 6, (i - 7) % 6, by omega, by omega, by omega⟩
  have hget := List.getElem?_eq_getElem hu
  rw [record_word loop hget hq]
  have hword : ∀ j, j < 7 → keyAt j = some q → word c (7 + 6 * u + q) = (b.unitKey b.units[u]).getD j 0#32 := by
    intro j hj hat
    rw [hof.unit u hu j q hat, ← regKey_word mod hget (by omega)]
    refine clearKey_kept (by omega) (by omega) ?_
    rw [keyIsGadget_unit (by omega), decide_eq_false (by omega)]
  have hcases : q = 0 ∨ q = 1 ∨ q = 2 ∨ q = 3 ∨ q = 4 ∨ q = 5 := by omega
  rcases hcases with rfl | rfl | rfl | rfl | rfl | rfl
  · exact hword 0 (by decide) rfl
  · exact hword 1 (by decide) rfl
  · exact hword 2 (by decide) rfl
  · exact hword 3 (by decide) rfl
  · exact hword 5 (by decide) rfl
  · exact hword 6 (by decide) rfl

/-- The claim about one key, as it is recorded, stored, compared and searched for. -/
structure KeysAgree (k : PlainKey) : Prop where
  /-- the compact key stands for the key -/
  compact : ∃ c, compactKey k.words = some c ∧ ∀ t : AotTrans, t.key = c →
    (∀ i, i < k.words.length → aotKeyWord t i = word k.words i) ∧
      ∀ k', Laid k' → (aotKeySame t k' k'.length = true ↔ SameKey k.words k')
  /-- the hash that is stored, of the key before it is cleared -/
  hash : ∀ k₀, clearKey k₀ = clearKey k.words →
    contentHash (k₀.map BitVec.toNat) = (keyContentHash k.words k.words.length).toNat
  /-- a block with that content finds it -/
  found : ∀ keys i k₀ k', keys[i]? = some k₀ → clearKey k₀ = clearKey k.words → SameContent k.words k' →
    ∃ e ∈ scanned (byHashTable keys) (keyContentHash k' k'.length), e.trans = i ∧
      ∀ trans usable b t dbase, trans[e.trans]? = some t → t.nkey = k'.length → t.nunits = b.units.length →
        gadgetsSame t b = true → aotFitsMoved t k' k'.length b = some dbase → usable e.trans = true →
          (aotFindMoved trans (byHashTable keys) usable b k').isSome = true

theorem SameContent.symm {k k' : List (BitVec 32)} (h : SameContent k k') : SameContent k' k :=
  ⟨h.1.symm, fun i h4 hi hg => (h.2 i h4 (by rw [← h.1]; exact hi) hg).symm⟩

theorem sameContent_of_clearKey {k k' : List (BitVec 32)} (h : clearKey k' = clearKey k) : SameContent k' k :=
  (sameContent_clearKey k').trans (h ▸ (sameContent_clearKey k).symm)

/-- **The generator and the loader agree on keys.** -/
theorem keys_agree (k : PlainKey) : KeysAgree k := by
  obtain ⟨c, hc, hof⟩ := compactKey_spec k
  refine ⟨⟨c, hc, ?_⟩, fun k₀ hk₀ => ?_, fun keys i k₀ k' hi hk₀ hsame => ?_⟩
  · rintro t rfl
    exact ⟨fun i hi => aotKeyWord_compact k hof hi, fun k' hk' => aotKeySame_compact k hof hk'⟩
  · rw [contentHash_eq, (sameContent_of_clearKey hk₀).hash]
  obtain ⟨e, he, hti⟩ := mem_scanned hi ((sameContent_of_clearKey hk₀).trans hsame)
  exact ⟨e, he, hti, fun trans usable b t dbase ht hkey hunits hg hfits husable =>
    aotFindMoved_isSome he ht hkey hunits hg hfits husable⟩

end IosLinuxkit.Aot
