import IosLinuxkit.Kernel.UserCopy

/-!
# What a successful copy has copied

`user_read`, `user_write` and `user_read_string` of `src/kernel/user.c`, for every address and
every length. The end of a range is a sum of 64 bits: where it wraps, the loop does nothing and
the call succeeds.

* **`userCopies_iff`** — when a success means that everything was copied.
-/

namespace IosLinuxkit.UserCopy

open Layout

/-- The address of byte `i` of a range. -/
def byteAt (addr : Word) (i : Nat) : Word := addr + BitVec.ofNat 64 i

/-- `buf[i] = v` -/
def setByte (i : Nat) (v : Byte) (buf : Buffer) : Buffer := fun j => if j = i then v else buf j

/-- The loop of `user_read_string` with `n` bytes of the buffer left, at byte `i`. -/
def stringLoop (m : UserMem) (addr : Word) : Nat → Nat → Buffer → Option Buffer
  | 0, _, buf => some buf
  | n + 1, i, buf =>
    match userRead m (byteAt addr i) (fun j => buf (i + j)) 1 with
    | none => none
    | some c =>
      let buf' := setByte i (c 0) buf
      if buf' i = 0 then some buf' else stringLoop m addr n (i + 1) buf'

/-- `user_read_string` into a buffer that holds `old`. -/
def userReadString (m : UserMem) (addr : Word) (max : Nat) (old : Buffer) : Option Buffer :=
  if addr = 0 then none else stringLoop m addr max 0 old

/-! ## One byte -/

/-- The last address: the end of a range of one byte there is 0. -/
def Last (a : Word) : Prop := a.toNat + 1 = 2 ^ 64

/-- Where a read of one byte does not succeed: in a page that is not readable, and in the last
page, whose chunk ends at 0, so that the loop starts over. -/
def Faults (m : UserMem) (a : Word) : Prop :=
  m.readable (page a) = false ∨ 2 ^ 64 - 4096 ≤ a.toNat

theorem userRead_last {m : UserMem} {a : Word} (old : Buffer) (h : Last a) :
    userRead m a old 1 = some old := by
  unfold Last at h
  exact userRead_wrap (by decide) (by omega)

theorem userRead_faults {m : UserMem} {a : Word} (old : Buffer) (hl : ¬ Last a)
    (h : Faults m a) : userRead m a old 1 = none := by
  have ha := a.isLt
  unfold Last at hl
  have hfin : (a + BitVec.ofNat 64 1).toNat = a.toNat + 1 := fin_toNat (by omega)
  unfold userRead
  cases h with
  | inl hpage =>
    rw [show chunks 1 = 2 + 1 from rfl, userLoop, if_pos (BitVec.lt_def.mpr (by omega)),
      if_neg (by rw [hpage]; exact Bool.false_ne_true)]
  | inr htop => exact userLoop_round (by omega) _ _ _ (by omega)

theorem userRead_byte {m : UserMem} {a : Word} (old : Buffer) (h : ¬ Faults m a) :
    ∃ c, userRead m a old 1 = some c ∧ c 0 = m.byte (loc a) := by
  obtain ⟨hpage, hlow⟩ := not_or.mp h
  have hfin : (a + BitVec.ofNat 64 1).toNat = a.toNat + 1 := fin_toNat (by omega)
  have hend : chunkEnd a (a + BitVec.ofNat 64 1) = a + BitVec.ofNat 64 1 := by
    apply BitVec.eq_of_toNat_eq
    rw [chunkEnd_toNat _ (by omega), hfin]
    omega
  have hread : userRead m a old 1 = some (readChunk m a a (a + BitVec.ofNat 64 1) old) := by
    unfold userRead
    rw [show chunks 1 = 1 + 1 + 1 from rfl, userLoop, if_pos (BitVec.lt_def.mpr (by omega)),
      if_pos (by simpa using hpage), hend]
    exact userLoop_empty _ _ (Nat.le_refl _)
  refine ⟨_, hread, ?_⟩
  have hsize : (a + BitVec.ofNat 64 1 - a).toNat = 1 := by
    rw [BitVec.toNat_sub, hfin]
    omega
  unfold readChunk
  rw [BitVec.sub_self, hsize, if_pos ⟨Nat.le_refl _, by decide⟩]
  exact congrArg m.byte (BitVec.add_zero _)

/-! ## The string -/

section StringLoop

variable {m : UserMem} {addr : Word} {n i : Nat} {buf : Buffer}

/-- The byte of the string at `i`. -/
def charAt (m : UserMem) (addr : Word) (i : Nat) : Byte := m.byte (loc (byteAt addr i))

def filled (m : UserMem) (addr : Word) (i d : Nat) (buf : Buffer) : Buffer := fun j =>
  if i ≤ j ∧ j < i + d then charAt m addr j else buf j

theorem filled_zero : filled m addr i 0 buf = buf := by
  funext j
  unfold filled
  rw [if_neg (by omega)]

theorem filled_filled (c d : Nat) :
    filled m addr (i + c) d (filled m addr i c buf) = filled m addr i (c + d) buf := by
  funext j
  unfold filled
  by_cases hin : i + c ≤ j ∧ j < i + c + d
  · rw [if_pos hin, if_pos (by omega)]
  · rw [if_neg hin]
    exact if_congr (by omega) rfl rfl

def Inside (m : UserMem) (addr : Word) (i : Nat) : Prop :=
  ¬ Last (byteAt addr i) ∧ ¬ Faults m (byteAt addr i) ∧ charAt m addr i ≠ 0

theorem stringLoop_byte (h : ¬ Faults m (byteAt addr i)) :
    stringLoop m addr (n + 1) i buf = if charAt m addr i = 0 then some (filled m addr i 1 buf)
      else stringLoop m addr n (i + 1) (filled m addr i 1 buf) := by
  obtain ⟨c, hread, hc⟩ := userRead_byte (fun j => buf (i + j)) h
  have hset : setByte i (c 0) buf = filled m addr i 1 buf := by
    funext j
    unfold setByte filled charAt
    by_cases hj : j = i
    · rw [if_pos hj, if_pos (by omega), hc, hj]
    · rw [if_neg hj, if_neg (by omega)]
  have hat : filled m addr i 1 buf i = charAt m addr i := if_pos (by omega)
  rw [stringLoop, hread]
  dsimp only
  rw [hset, hat]

theorem stringLoop_faults (hl : ¬ Last (byteAt addr i)) (h : Faults m (byteAt addr i)) :
    stringLoop m addr (n + 1) i buf = none := by
  rw [stringLoop, userRead_faults _ hl h]

theorem stringLoop_last (h : Last (byteAt addr i)) : stringLoop m addr (n + 1) i buf =
      if buf i = 0 then some buf else stringLoop m addr n (i + 1) buf := by
  have hset : setByte i (buf (i + 0)) buf = buf := by
    funext j
    unfold setByte
    split
    case isTrue hj => rw [hj, Nat.add_zero]
    case isFalse => rfl
  rw [stringLoop, userRead_last _ h]
  dsimp only
  rw [hset]

theorem stringLoop_run (d : Nat) (h : ∀ j, i ≤ j → j < i + d → Inside m addr j) :
    stringLoop m addr (d + n) i buf = stringLoop m addr n (i + d) (filled m addr i d buf) := by
  induction d generalizing i buf with
  | zero => rw [filled_zero, Nat.zero_add, Nat.add_zero]
  | succ d ih =>
    obtain ⟨_, hread, hchar⟩ := h i (Nat.le_refl _) (by omega)
    rw [show d + 1 + n = d + n + 1 from by omega, stringLoop_byte hread, if_neg hchar,
      ih fun j hj hj' => h j (by omega) (by omega), filled_filled, Nat.add_comm 1 d,
      show i + 1 + d = i + (d + 1) from by omega]

end StringLoop

/-! ## What the calls promise -/

/-- A successful `user_read` has copied every byte, from a page that may be read. -/
def ReadsWhole (addr : Word) (count : Nat) : Prop :=
  ∀ (m : UserMem) (old r : Buffer), userRead m addr old count = some r →
    ∀ i < count, m.readable (page (byteAt addr i)) = true ∧ r i = m.byte (loc (byteAt addr i))

/-- A successful `user_write` has copied every byte to a page that may be written. Of bytes that
go to one place, the last stays. -/
def WritesWhole (addr : Word) (count : Nat) : Prop :=
  ∀ (m : UserMem) (buf : Buffer) (m' : UserMem), userWrite m addr buf count = some m' →
    ∀ i < count, m.writable (page (byteAt addr i)) = true ∧
      ((∀ j < count, i < j → loc (byteAt addr j) ≠ loc (byteAt addr i)) →
        m'.byte (loc (byteAt addr i)) = buf i)

/-- After a successful `user_read_string` the buffer holds the string of the guest, with its
terminator. -/
def ReadsString (m : UserMem) (addr : Word) (max : Nat) : Prop :=
  ∀ old r : Buffer, userReadString m addr max old = some r →
    ∃ k < max, r k = 0 ∧ ∀ j ≤ k, m.readable (page (byteAt addr j)) = true ∧
      r j = charAt m addr j ∧ (j < k → r j ≠ 0)

/-- The range of a copy does not reach the end of the 64 bits. -/
def Fits (addr : Word) (count : Nat) : Prop := count = 0 ∨ addr.toNat + count < 2 ^ 64

/-- Within the buffer the string ends, or meets an address whose read does not succeed. From the
last address the loop goes on at address 0, where it has to fail. -/
def StringEnds (m : UserMem) (addr : Word) (max : Nat) : Prop :=
  addr = 0 ∨ (¬ Last addr ∧ ∃ k < max, Faults m (byteAt addr k) ∨ charAt m addr k = 0) ∨
  (Last addr ∧ m.readable (page addr) = true ∧ m.byte (loc addr) = 0 ∧
    ∃ k < max, 0 < k ∧ Faults m (byteAt addr k) ∧ ∀ j < k, 0 < j → charAt m addr j ≠ 0)

/-! ## Ranges -/

section Ranges

variable {addr : Word} {count : Nat}

theorem byteAt_zero : byteAt addr 0 = addr := BitVec.add_zero addr

theorem loc_byteAt (addr : Word) (i : Nat) :
    loc (byteAt addr i) = loc addr + BitVec.ofNat 48 i := by
  apply BitVec.eq_of_toNat_eq
  unfold loc byteAt
  simp only [BitVec.toNat_add, BitVec.toNat_setWidth, BitVec.toNat_ofNat]
  omega

def noPages : UserMem where
  byte := fun _ => 0
  readable := fun _ => false
  writable := fun _ => false
  readable_of_writable := fun _ h => h

theorem readsWhole_of_fits (h : Fits addr count) : ReadsWhole addr count := by
  intro m old r hr i hi
  cases h with
  | inl h0 => omega
  | inr hfin =>
    have hbyte := userRead_spec hfin hr i
    rw [if_pos hi] at hbyte
    refine ⟨userLoop_ok hfin hr i hi, ?_⟩
    rw [loc_byteAt, hbyte]

theorem writesWhole_of_fits (h : Fits addr count) : WritesWhole addr count := by
  intro m buf m' hw i hi
  cases h with
  | inl h0 => omega
  | inr hfin =>
    have hloop := hw
    unfold userWrite at hloop
    obtain ⟨byte, hloop, _⟩ := Option.map_eq_some_iff.mp hloop
    refine ⟨userLoop_ok hfin hloop i hi, fun hlast => ?_⟩
    obtain ⟨_, _, hbyte⟩ := userWrite_bytes hfin hw
    have hd : (loc (byteAt addr i) - loc addr).toNat = i % 2 ^ 48 := by
      rw [loc_byteAt, BitVec.add_comm, BitVec.add_sub_cancel, BitVec.toNat_ofNat]
    rw [hbyte, hd, if_pos (by omega)]
    -- a later byte of the same place would be the one that stays
    have hsame : BitVec.ofNat 48 (i + 2 ^ 48) = BitVec.ofNat 48 i := by
      apply BitVec.eq_of_toNat_eq
      rw [BitVec.toNat_ofNat, BitVec.toNat_ofNat]
      omega
    have hstay : ¬ i + 2 ^ 48 < count := fun hlt =>
      hlast (i + 2 ^ 48) hlt (by omega) (by rw [loc_byteAt, loc_byteAt, hsame])
    exact congrArg buf (by omega)

theorem not_readsWhole (hc : count < 2 ^ 64) (h : ¬ Fits addr count) : ¬ ReadsWhole addr count := by
  intro hall
  obtain ⟨-, hwrap⟩ := not_or.mp h
  have hread := (hall noPages (fun _ => 0) _ (userRead_wrap hc (by omega)) 0 (by omega)).1
  exact Bool.false_ne_true hread

theorem not_writesWhole (hc : count < 2 ^ 64) (h : ¬ Fits addr count) :
    ¬ WritesWhole addr count := by
  intro hall
  obtain ⟨-, hwrap⟩ := not_or.mp h
  have hwrite := (hall noPages (fun _ => 0) _ (userWrite_wrap hc (by omega)) 0 (by omega)).1
  exact Bool.false_ne_true hwrite

end Ranges

/-! ## Strings -/

section Strings

variable {m : UserMem} {addr : Word} {max : Nat} {old r : Buffer}

theorem byteAt_low {k : Nat} (h : ∀ j < k, ¬ Faults m (byteAt addr j)) (hl : ¬ Last addr) :
    addr.toNat + k + 1 < 2 ^ 64 := by
  have ha := addr.isLt
  unfold Last at hl
  induction k with
  | zero => omega
  | succ k ih =>
    have hk := ih fun j hj => h j (by omega)
    obtain ⟨_, hlow⟩ := not_or.mp (h k (Nat.lt_succ_self k))
    have hat : (byteAt addr k).toNat = addr.toNat + k := fin_toNat (by omega)
    omega

theorem first_end (h : ∃ k < max, Faults m (byteAt addr k) ∨ charAt m addr k = 0)
    (hl : ¬ Last addr) : ∃ k < max, (Faults m (byteAt addr k) ∨ charAt m addr k = 0) ∧
      ¬ Last (byteAt addr k) ∧ ∀ j < k, Inside m addr j := by
  classical
  obtain ⟨hlt, hend⟩ := Nat.find_spec h
  have hbefore : ∀ j < Nat.find h, ¬ (Faults m (byteAt addr j) ∨ charAt m addr j = 0) :=
    fun j hj hc => Nat.find_min h hj ⟨by omega, hc⟩
  generalize Nat.find h = k at hlt hend hbefore
  have hnl : ∀ j ≤ k, ¬ Last (byteAt addr j) := fun j hj => by
    have hlow := byteAt_low (fun i hi => (not_or.mp (hbefore i (by omega))).1) hl (k := j)
    have hat : (byteAt addr j).toNat = addr.toNat + j := fin_toNat (by omega)
    unfold Last
    omega
  refine ⟨k, hlt, hend, hnl k (Nat.le_refl k), fun j hj => ?_⟩
  obtain ⟨hread, hchar⟩ := not_or.mp (hbefore j hj)
  exact ⟨hnl j (by omega), hread, hchar⟩

theorem filled_string {k : Nat} (h : ∀ j < k, Inside m addr j)
    (hk : ¬ Faults m (byteAt addr k)) (hc : charAt m addr k = 0) (hr : r k = 0)
    (hbelow : ∀ j < k, r j = charAt m addr j) :
    r k = 0 ∧ ∀ j ≤ k, m.readable (page (byteAt addr j)) = true ∧ r j = charAt m addr j ∧
      (j < k → r j ≠ 0) := by
  refine ⟨hr, fun j hj => ?_⟩
  rcases Nat.lt_or_eq_of_le hj with hlt | rfl
  · obtain ⟨_, hread, hchar⟩ := h j hlt
    rw [hbelow j hlt]
    exact ⟨by simpa using (not_or.mp hread).1, rfl, fun _ => hchar⟩
  · exact ⟨by simpa using (not_or.mp hk).1, hr.trans hc.symm, fun hlt => absurd hlt (Nat.lt_irrefl _)⟩

theorem stringLoop_ends {k : Nat} (hk : k < max)
    (hend : Faults m (byteAt addr k) ∨ charAt m addr k = 0) (hnl : ¬ Last (byteAt addr k))
    (hbefore : ∀ j < k, Inside m addr j) (h : stringLoop m addr max 0 old = some r) :
    r k = 0 ∧ ∀ j ≤ k, m.readable (page (byteAt addr j)) = true ∧ r j = charAt m addr j ∧
      (j < k → r j ≠ 0) := by
  rw [show max = k + (max - k - 1 + 1) from by omega,
    stringLoop_run k fun j _ hj => hbefore j (by omega), Nat.zero_add] at h
  by_cases hf : Faults m (byteAt addr k)
  · rw [stringLoop_faults hnl hf] at h
    cases h
  have hc := hend.resolve_left hf
  rw [stringLoop_byte hf, if_pos hc] at h
  obtain rfl := Option.some.inj h
  refine filled_string hbefore hf hc ((if_pos (by omega)).trans hc) fun j hj => ?_
  exact (if_neg (by omega)).trans (if_pos (by omega))

theorem stringLoop_fails {n i k : Nat} {buf : Buffer} (hi : i ≤ k) (hk : k < i + n)
    (hl : ∀ j, i ≤ j → j < i + n → ¬ Last (byteAt addr j)) (hf : Faults m (byteAt addr k))
    (hc : ∀ j, i ≤ j → j < k → charAt m addr j ≠ 0) : stringLoop m addr n i buf = none := by
  induction n generalizing i buf with
  | zero => omega
  | succ n ih =>
    by_cases hfi : Faults m (byteAt addr i)
    · exact stringLoop_faults (hl i (Nat.le_refl i) (by omega)) hfi
    have hne : i ≠ k := fun he => hfi (he ▸ hf)
    rw [stringLoop_byte hfi, if_neg (hc i (Nat.le_refl i) (by omega))]
    exact ih (by omega) (by omega) (fun j hj hj' => hl j (by omega) (by omega))
      fun j hj hj' => hc j (by omega) hj'

theorem stringLoop_succeeds {n i : Nat} {buf : Buffer}
    (h : ∀ k, i ≤ k → k < i + n → Faults m (byteAt addr k) → ∃ j, i ≤ j ∧ j < k ∧ charAt m addr j = 0) :
    ∃ r, stringLoop m addr n i buf = some r ∧ ∀ j < i, r j = buf j := by
  induction n generalizing i buf with
  | zero => exact ⟨buf, rfl, fun _ _ => rfl⟩
  | succ n ih =>
    have hfi : ¬ Faults m (byteAt addr i) := fun hf => by
      obtain ⟨j, hj, hj', _⟩ := h i (Nat.le_refl i) (by omega) hf
      omega
    rw [stringLoop_byte hfi]
    split
    case isTrue => exact ⟨_, rfl, fun j hj => if_neg (by omega)⟩
    case isFalse hc =>
      have hnext : ∃ r, stringLoop m addr n (i + 1) (filled m addr i 1 buf) = some r ∧
          ∀ j < i + 1, r j = filled m addr i 1 buf j := ih fun k hk hk' hf => by
        obtain ⟨j, hj, hj', h0⟩ := h k (by omega) (by omega) hf
        have hne : j ≠ i := fun he => hc (he ▸ h0)
        exact ⟨j, by omega, hj', h0⟩
      obtain ⟨r, hr, hbelow⟩ := hnext
      exact ⟨r, hr, fun j hj => (hbelow j (by omega)).trans (if_neg (by omega))⟩

theorem not_last_after {j : Nat} (hl : Last addr) (h0 : 0 < j) (hj : j < 2 ^ 64) :
    ¬ Last (byteAt addr j) := by
  unfold Last byteAt at *
  rw [BitVec.toNat_add, BitVec.toNat_ofNat]
  omega

theorem readsString_of_ends (hmax : max < 2 ^ 64) (h : StringEnds m addr max) :
    ReadsString m addr max := by
  intro old r hr
  unfold userReadString at hr
  split at hr
  case isTrue => cases hr
  case isFalse hne =>
    rcases h with h0 | ⟨hl, hends⟩ | ⟨hl, hpage, hchar, k, hk, h0, hf, hc⟩
    · exact absurd h0 hne
    · obtain ⟨k, hk, hend, hnl, hbefore⟩ := first_end hends hl
      exact ⟨k, hk, stringLoop_ends hk hend hnl hbefore hr⟩
    rw [show max = max - 1 + 1 from by omega, stringLoop_last (by rwa [byteAt_zero])] at hr
    split at hr
    case isTrue hz =>
      -- the buffer happens to hold the terminator
      obtain rfl := Option.some.inj hr
      refine ⟨0, by omega, hz, fun j hj => ?_⟩
      obtain rfl := Nat.le_zero.mp hj
      unfold charAt
      rw [byteAt_zero]
      exact ⟨hpage, hz.trans hchar.symm, fun hlt => absurd hlt (Nat.lt_irrefl 0)⟩
    case isFalse =>
      rw [stringLoop_fails (by omega) (by omega)
        (fun j hj hj' => not_last_after hl (by omega) (by omega)) hf
        fun j hj hj' => hc j hj' (by omega)] at hr
      cases hr

theorem not_readsString_of_inside (hne : addr ≠ 0) (h : ∀ j < max, Inside m addr j) :
    ¬ ReadsString m addr max := by
  intro hall
  have hr : userReadString m addr max (fun _ => 0) = some (filled m addr 0 max fun _ => 0) := by
    have hrun : stringLoop m addr (max + 0) 0 (fun _ => 0) = _ :=
      stringLoop_run max fun j _ hj => h j (by omega)
    unfold userReadString
    rw [if_neg hne, ← Nat.add_zero max, hrun]
    rfl
  obtain ⟨k, hk, h0, _⟩ := hall _ _ hr
  exact (h k hk).2.2 ((if_pos (by omega)).symm.trans h0)

theorem ends_of_readsString_last (hl : Last addr) (hmax : max ≠ 0) (h : ReadsString m addr max) :
    StringEnds m addr max := by
  have hne : addr ≠ 0 := fun h0 => by
    rw [h0] at hl
    cases hl
  have hlast : Last (byteAt addr 0) := by rwa [byteAt_zero]
  obtain ⟨n, rfl⟩ : ∃ n, max = n + 1 := ⟨max - 1, by omega⟩
  -- a buffer of zeros
  have hzero : userReadString m addr (n + 1) (fun _ => 0) = some fun _ => 0 := by
    unfold userReadString
    rw [if_neg hne, stringLoop_last hlast, if_pos rfl]
  obtain ⟨k, _, _, hall⟩ := h _ _ hzero
  obtain ⟨hpage, hchar, _⟩ := hall 0 (Nat.zero_le k)
  have hchar0 : charAt m addr 0 = 0 := hchar.symm
  rw [byteAt_zero] at hpage
  refine .inr (.inr ⟨hl, hpage, by rwa [charAt, byteAt_zero] at hchar0, ?_⟩)
  by_contra hno
  -- a buffer of ones: the loop goes on at address 0
  have hgo : ∃ r, stringLoop m addr n 1 (fun _ => 1) = some r ∧ ∀ j < 1, r j = (1 : Byte) := by
    refine stringLoop_succeeds fun k hk hk' hf => ?_
    by_contra hnone
    exact hno ⟨k, by omega, by omega, hf, fun j hj h0 hc => hnone ⟨j, by omega, hj, hc⟩⟩
  obtain ⟨r, hr, hbelow⟩ := hgo
  have hone : userReadString m addr (n + 1) (fun _ => 1) = some r := by
    unfold userReadString
    rw [if_neg hne, stringLoop_last hlast, if_neg (by decide), hr]
  obtain ⟨k, _, _, hall⟩ := h _ _ hone
  have hr0 := (hall 0 (Nat.zero_le k)).2.1
  rw [hbelow 0 Nat.one_pos, hchar0] at hr0
  exact absurd hr0 (by decide)

theorem ends_of_readsString (h : ReadsString m addr max) : StringEnds m addr max := by
  by_cases h0 : addr = 0
  · exact .inl h0
  by_cases hl : Last addr
  · rcases Nat.eq_zero_or_pos max with rfl | hpos
    · exact absurd h (not_readsString_of_inside h0 fun j hj => absurd hj (Nat.not_lt_zero j))
    · exact ends_of_readsString_last hl (by omega) h
  refine .inr (.inl ⟨hl, ?_⟩)
  by_contra hno
  refine not_readsString_of_inside h0 (fun j hj => ?_) h
  have hin : ∀ i < max, ¬ Faults m (byteAt addr i) ∧ charAt m addr i ≠ 0 := fun i hi =>
    not_or.mp fun hc => hno ⟨i, hi, hc⟩
  have hlow := byteAt_low (fun i hi => (hin i (by omega)).1) hl (k := j)
  have hat : (byteAt addr j).toNat = addr.toNat + j := fin_toNat (by omega)
  refine ⟨?_, hin j hj⟩
  unfold Last
  omega

end Strings

/-- **When a success means that everything was copied.** `user_read` and `user_write` keep the
promise exactly for the ranges whose end does not wrap; `user_read_string` keeps it exactly when
the string ends, or cannot be read, before the end of the buffer. -/
theorem userCopies_iff (addr count : Word) : (ReadsWhole addr count.toNat ↔ Fits addr count.toNat) ∧
    (WritesWhole addr count.toNat ↔ Fits addr count.toNat) ∧
    ∀ m, ReadsString m addr count.toNat ↔ StringEnds m addr count.toNat := by
  have hc := count.isLt
  refine ⟨⟨fun h => ?_, readsWhole_of_fits⟩, ⟨fun h => ?_, writesWhole_of_fits⟩,
    fun m => ⟨ends_of_readsString, readsString_of_ends hc⟩⟩
  · by_contra hwrap
    exact not_readsWhole hc hwrap h
  · by_contra hwrap
    exact not_writesWhole hc hwrap h

def fullName : UserMem where
  byte := fun _ => 0x61
  readable := fun p => p == 1
  writable := fun p => p == 1
  readable_of_writable := fun _ h => h

/-- 32 bytes 16 before the end of the address space: both copies succeed and copy nothing. And a
string that fills its buffer is read without a terminator. -/
theorem userCopies_short :
    ¬ ReadsWhole 0xfffffffffffffff0 32 ∧ ¬ WritesWhole 0xfffffffffffffff0 32 ∧
      ¬ ReadsString fullName 0x1000 4 := by
  have hwrap : ¬ Fits 0xfffffffffffffff0 32 := by
    unfold Fits
    decide
  refine ⟨not_readsWhole (by decide) hwrap, not_writesWhole (by decide) hwrap,
    not_readsString_of_inside (by decide) fun j hj => ?_⟩
  have hat : (byteAt 0x1000 j).toNat = 0x1000 + j := fin_toNat (by show 0x1000 + j < 2 ^ 64; omega)
  have hpage : page (byteAt 0x1000 j) = 1 := by
    apply BitVec.eq_of_toNat_eq
    unfold page
    rw [BitVec.toNat_ushiftRight, hat, Nat.shiftRight_eq_div_pow]
    show (0x1000 + j) / 2 ^ 12 = 1
    omega
  refine ⟨?_, fun hf => ?_, by show (0x61 : Byte) ≠ 0; decide⟩
  · unfold Last
    omega
  cases hf with
  | inl hr =>
    rw [hpage] at hr
    cases hr
  | inr htop => omega

end IosLinuxkit.UserCopy
