import IosLinuxkit.Lib.Layout

/-!
# Copying to and from the guest

`user_read` and `user_write` of `src/kernel/user.c`: a loop over the pages of the range, with
one `memcpy` for each. What `mem_ptr` does is the subject of `Kernel.MemPtr`; here it finds a
page or does not.
-/

namespace IosLinuxkit.UserCopy

open Layout

abbrev Word := BitVec 64

/-- A page number, with the bits `mem_pt` ignores and a reservation does not. -/
abbrev Page := BitVec 64

/-- A place in guest memory; `mem_pt` ignores the bits above. -/
abbrev Loc := BitVec 48

def loc (a : Word) : Loc := a.setWidth 48

def page (a : Word) : Page := a >>> 12

/-- Guest memory for the length of a copy: the bytes, and where `mem_ptr` finds a page. -/
structure UserMem where
  byte : Loc → Byte
  readable : Page → Bool
  writable : Page → Bool
  /-- what can be written can be read -/
  readable_of_writable : ∀ p, writable p = true → readable p = true

/-- `(PAGE(p) + 1) << PAGE_BITS`, or the end of the range. -/
def chunkEnd (p fin : Word) : Word :=
  let e := ((p >>> 12) + 1#64) <<< 12
  if fin < e then fin else e

/-- The loop of both. Past the top of the address space it would go on at address 0; that ends
at the first page that is not mapped, with an error, and here with the fuel. -/
def userLoop {α : Type} (ok : Page → Bool) (copy : Word → Word → α → α) (fin : Word) :
    Nat → Word → α → Option α
  | 0, _, _ => none
  | n + 1, p, a =>
    if p < fin then
      if ok (page p) then userLoop ok copy fin n (chunkEnd p fin) (copy p (chunkEnd p fin) a)
      else none
    else some a

/-- One `memcpy` from the buffer. -/
def writeChunk (addr : Word) (buf : Buffer) (p e : Word) (b : Loc → Byte) : Loc → Byte := fun x =>
  if (x - loc p).toNat < (e - p).toNat then buf ((p - addr).toNat + (x - loc p).toNat) else b x

/-- One `memcpy` to the buffer. -/
def readChunk (m : UserMem) (addr p e : Word) (b : Buffer) : Buffer := fun i =>
  if (p - addr).toNat ≤ i ∧ i < (p - addr).toNat + (e - p).toNat then
    m.byte (loc p + BitVec.ofNat 48 (i - (p - addr).toNat))
  else b i

def chunks (count : Nat) : Nat := count / 4096 + 3

/-- `user_write`; none is an error. -/
def userWrite (m : UserMem) (addr : Word) (buf : Buffer) (count : Nat) : Option UserMem :=
  (userLoop m.writable (writeChunk addr buf) (addr + BitVec.ofNat 64 count) (chunks count) addr
    m.byte).map fun byte => { m with byte }

/-- `user_read` into a buffer that holds `old`. -/
def userRead (m : UserMem) (addr : Word) (old : Buffer) (count : Nat) : Option Buffer :=
  userLoop m.readable (readChunk m addr) (addr + BitVec.ofNat 64 count) (chunks count) addr old

/-! ## The loop -/

section Loop

variable {α : Type} {ok : Page → Bool} {copy : Word → Word → α → α} {fin : Word}

variable {p : Word}

theorem chunkEnd_toNat (fin : Word) (h : p.toNat < 2 ^ 64 - 4096) :
    (chunkEnd p fin).toNat = min (4096 * (p.toNat / 4096 + 1)) fin.toNat := by
  have he : (((p >>> 12) + 1#64) <<< 12).toNat = 4096 * (p.toNat / 4096 + 1) := by
    rw [BitVec.toNat_shiftLeft, BitVec.toNat_add, BitVec.toNat_ushiftRight, Nat.shiftRight_eq_div_pow,
      Nat.shiftLeft_eq]
    have h1 : (1#64).toNat = 1 := rfl
    rw [h1]
    omega
  unfold chunkEnd
  dsimp only
  split
  case isTrue hlt =>
    rw [BitVec.lt_def, he] at hlt
    omega
  case isFalse hlt =>
    rw [BitVec.lt_def, he] at hlt
    omega

theorem chunkEnd_last (h : 2 ^ 64 - 4096 ≤ p.toNat) : (chunkEnd p fin).toNat = 0 := by
  have he : (((p >>> 12) + 1#64) <<< 12).toNat = 0 := by
    rw [BitVec.toNat_shiftLeft, BitVec.toNat_add, BitVec.toNat_ushiftRight,
      Nat.shiftRight_eq_div_pow, Nat.shiftLeft_eq, show (1#64).toNat = 1 from rfl]
    have := p.isLt
    omega
  unfold chunkEnd
  dsimp only
  rw [if_neg (by rw [BitVec.lt_def]; omega)]
  exact he

theorem userLoop_round (hf : 2 ^ 64 - 4096 < fin.toNat) (n : Nat) (p : Word) (a : α)
    (h : p.toNat < fin.toNat) : userLoop ok copy fin n p a = none := by
  induction n generalizing p a with
  | zero => rfl
  | succ n ih =>
    have hnext : (chunkEnd p fin).toNat < fin.toNat := by
      rcases Nat.lt_or_ge p.toNat (2 ^ 64 - 4096) with hlow | htop
      · have he := chunkEnd_toNat fin hlow
        omega
      · rw [chunkEnd_last htop]
        omega
    rw [userLoop, if_pos (BitVec.lt_def.mpr h)]
    split
    · exact ih _ _ hnext
    · rfl

theorem userLoop_spec (addr : Word) {count : Nat} (P : Nat → α → Prop)
    (hfin : addr.toNat + count < 2 ^ 64) (hf : fin.toNat = addr.toNat + count)
    (hcopy : ∀ k k' a (p e : Word), k < k' → k' ≤ count → p.toNat = addr.toNat + k →
      e.toNat = addr.toNat + k' → e.toNat ≤ 4096 * (p.toNat / 4096 + 1) → ok (page p) = true →
      P k a → P k' (copy p e a)) : ∀ (n : Nat) (k : Nat) (p : Word) (a r : α), k ≤ count →
      p.toNat = addr.toNat + k → P k a → userLoop ok copy fin n p a = some r → P count r := by
  intro n
  induction n with
  | zero =>
    intro k p a r _ _ _ h
    cases h
  | succ n ih =>
    intro k p a r hk hp hP h
    rw [userLoop] at h
    split at h
    case isFalse hlt =>
      rw [BitVec.lt_def] at hlt
      cases h
      rwa [show count = k from by omega]
    case isTrue hlt =>
      rw [BitVec.lt_def] at hlt
      split at h
      case isFalse => cases h
      case isTrue hok =>
        rcases Nat.lt_or_ge p.toNat (2 ^ 64 - 4096) with hlow | htop
        · have he := chunkEnd_toNat fin hlow
          generalize chunkEnd p fin = e at he h
          obtain ⟨k', hk'⟩ : ∃ k', e.toNat = addr.toNat + k' := ⟨e.toNat - addr.toNat, by omega⟩
          have hlt' : k < k' := by omega
          have hle : k' ≤ count := by omega
          have hend : e.toNat ≤ 4096 * (p.toNat / 4096 + 1) := by omega
          exact ih k' e _ r hle hk' (hcopy k k' a p e hlt' hle hp hk' hend hok hP) h
        · -- the last page: the loop starts again at address 0
          rw [userLoop_round (by omega) n _ _ (by rw [chunkEnd_last htop]; omega)] at h
          cases h

theorem userLoop_empty (n : Nat) (a : α) (h : fin.toNat ≤ p.toNat) :
    userLoop ok copy fin (n + 1) p a = some a := by
  rw [userLoop, if_neg (by rw [BitVec.lt_def]; omega)]

theorem userLoop_mono {β : Type} {ok' : Page → Bool} {copy' : Word → Word → β → β}
    (hok : ∀ p, ok p = true → ok' p = true) (n : Nat) (p : Word) (a : α) (b : β)
    (h : (userLoop ok copy fin n p a).isSome) : (userLoop ok' copy' fin n p b).isSome := by
  induction n generalizing p a b with
  | zero => cases h
  | succ n ih =>
    rw [userLoop] at h ⊢
    split at h
    case isFalse hlt =>
      rw [if_neg hlt]
      rfl
    case isTrue hlt =>
      rw [if_pos hlt]
      split at h
      case isFalse => cases h
      case isTrue hp =>
        rw [if_pos (hok _ hp)]
        exact ih _ _ _ h

end Loop

/-! ## The copies -/

section Copies

variable {m m' : UserMem} {addr : Word} {count : Nat}

theorem fin_toNat (h : addr.toNat + count < 2 ^ 64) :
    (addr + BitVec.ofNat 64 count).toNat = addr.toNat + count := by
  rw [BitVec.toNat_add, BitVec.toNat_ofNat, Nat.mod_eq_of_lt (show count < 2 ^ 64 from by omega),
    Nat.mod_eq_of_lt h]

theorem fin_wrap (hc : count < 2 ^ 64) (h : 2 ^ 64 ≤ addr.toNat + count) :
    (addr + BitVec.ofNat 64 count).toNat ≤ addr.toNat := by
  rw [BitVec.toNat_add, BitVec.toNat_ofNat, Nat.mod_eq_of_lt hc]
  omega

theorem loc_sub {p : Word} {k : Nat} (hp : p.toNat = addr.toNat + k) (x : Loc) :
    (x - loc p).toNat = ((x - loc addr).toNat + (2 ^ 48 - k % 2 ^ 48)) % 2 ^ 48 := by
  unfold loc
  rw [BitVec.toNat_sub, BitVec.toNat_sub, BitVec.toNat_setWidth, BitVec.toNat_setWidth, hp]
  omega

theorem userLoop_ok {α : Type} {ok : Page → Bool} {copy : Word → Word → α → α} {n : Nat} {a r : α}
    (hfin : addr.toNat + count < 2 ^ 64)
    (h : userLoop ok copy (addr + BitVec.ofNat 64 count) n addr a = some r) :
    ∀ i < count, ok (page (addr + BitVec.ofNat 64 i)) = true := by
  refine userLoop_spec addr (fun k _ => ∀ i < k, ok (page (addr + BitVec.ofNat 64 i)) = true)
    hfin (fin_toNat hfin) ?_ n 0 addr a r (Nat.zero_le _) rfl (fun i hi => (by cases hi)) h
  intro k k' _ p e hk hk' hp he hend hok hdone i hi
  by_cases hlo : i < k
  · exact hdone i hlo
  · -- a byte of the chunk lies in the page of its first one
    have hpage : page (addr + BitVec.ofNat 64 i) = page p := by
      apply BitVec.eq_of_toNat_eq
      unfold page
      rw [BitVec.toNat_ushiftRight, BitVec.toNat_ushiftRight, fin_toNat (by omega),
        Nat.shiftRight_eq_div_pow, Nat.shiftRight_eq_div_pow]
      omega
    rw [hpage]
    exact hok

variable {buf old : Buffer}

theorem userWrite_bytes (hfin : addr.toNat + count < 2 ^ 64)
    (h : userWrite m addr buf count = some m') :
    m'.readable = m.readable ∧ m'.writable = m.writable ∧
      ∀ x, m'.byte x = if (x - loc addr).toNat < count then
          buf ((x - loc addr).toNat + 2 ^ 48 * ((count - 1 - (x - loc addr).toNat) / 2 ^ 48))
        else m.byte x := by
  unfold userWrite at h
  obtain ⟨byte, hloop, rfl⟩ := Option.map_eq_some_iff.mp h
  refine ⟨rfl, rfl, ?_⟩
  refine userLoop_spec addr (fun k b => ∀ x, b x = if (x - loc addr).toNat < k then
        buf ((x - loc addr).toNat + 2 ^ 48 * ((k - 1 - (x - loc addr).toNat) / 2 ^ 48))
      else m.byte x)
    hfin (fin_toNat hfin) ?_ (chunks count) 0 addr m.byte byte (Nat.zero_le _) rfl ?_ hloop
  · intro k k' b p e hk hk' hp he hend _ hb x
    have hpa : (p - addr).toNat = k := by
      have := addr.isLt
      rw [BitVec.toNat_sub]
      omega
    have hep : (e - p).toNat = k' - k := by
      have := p.isLt
      rw [BitVec.toNat_sub]
      omega
    have hx := (x - loc addr).isLt
    unfold writeChunk
    rw [hpa, hep, hb x, loc_sub hp x]
    have hchunk : k' - k ≤ 4096 := by omega
    generalize (x - loc addr).toNat = d at hx
    generalize hq : (k - 1 - d) / 2 ^ 48 = q
    generalize hq' : (k' - 1 - d) / 2 ^ 48 = q'
    generalize hc : (d + (2 ^ 48 - k % 2 ^ 48)) % 2 ^ 48 = c
    by_cases hin : c < k' - k
    · -- in the chunk, whose bytes lie in different places
      rw [if_pos hin, if_pos (show d < k' from by omega),
        show d + 2 ^ 48 * q' = k + c from by omega]
    rw [if_neg hin]
    by_cases hlo : d < k
    · rw [if_pos hlo, if_pos (show d < k' from by omega), show q' = q from by omega]
    · rw [if_neg hlo, if_neg (show ¬ d < k' from by omega)]
  · intro x
    rw [if_neg (Nat.not_lt_zero _)]

theorem userWrite_spec (hc : count ≤ 2 ^ 48) (hfin : addr.toNat + count < 2 ^ 64)
    (h : userWrite m addr buf count = some m') :
    m'.readable = m.readable ∧ m'.writable = m.writable ∧
      ∀ x, m'.byte x = if (x - loc addr).toNat < count then buf (x - loc addr).toNat
        else m.byte x := by
  obtain ⟨hr, hw, hbyte⟩ := userWrite_bytes hfin h
  refine ⟨hr, hw, fun x => ?_⟩
  rw [hbyte x, show (count - 1 - (x - loc addr).toNat) / 2 ^ 48 = 0 from by omega, Nat.mul_zero,
    Nat.add_zero]

theorem userRead_spec {r : Buffer} (hfin : addr.toNat + count < 2 ^ 64)
    (h : userRead m addr old count = some r) (i : Nat) :
    r i = if i < count then m.byte (loc addr + BitVec.ofNat 48 i) else old i := by
  unfold userRead at h
  refine userLoop_spec addr (fun k b => ∀ i, b i =
      if i < k then m.byte (loc addr + BitVec.ofNat 48 i) else old i)
    hfin (fin_toNat hfin) ?_ (chunks count) 0 addr old r (Nat.zero_le _) rfl ?_ h i
  · intro k k' b p e hk hk' hp he _ _ hb i
    have hpa : (p - addr).toNat = k := by
      have := addr.isLt
      rw [BitVec.toNat_sub]
      omega
    have hep : (e - p).toNat = k' - k := by
      have := p.isLt
      rw [BitVec.toNat_sub]
      omega
    unfold readChunk
    rw [hpa, hep, hb i]
    by_cases hlo : i < k
    · rw [if_neg (by omega), if_pos hlo, if_pos (by omega)]
    by_cases hhi : i < k'
    · rw [if_pos (by omega), if_pos hhi]
      congr 1
      apply BitVec.eq_of_toNat_eq
      unfold loc
      simp only [BitVec.toNat_add, BitVec.toNat_setWidth, BitVec.toNat_ofNat, hp]
      omega
    · rw [if_neg (by omega), if_neg hlo, if_neg hhi]
  · intro i
    rw [if_neg (Nat.not_lt_zero _)]

theorem userWrite_wrap (hc : count < 2 ^ 64) (h : 2 ^ 64 ≤ addr.toNat + count) :
    userWrite m addr buf count = some m := by
  unfold userWrite chunks
  rw [userLoop_empty _ _ (fin_wrap hc h)]
  rfl

theorem userRead_wrap (hc : count < 2 ^ 64) (h : 2 ^ 64 ≤ addr.toNat + count) :
    userRead m addr old count = some old := by
  unfold userRead chunks
  exact userLoop_empty _ _ (fin_wrap hc h)

theorem userRead_of_userWrite (h : userWrite m addr buf count = some m') :
    (userRead m' addr old count).isSome := by
  unfold userWrite at h
  obtain ⟨byte, hloop, rfl⟩ := Option.map_eq_some_iff.mp h
  exact userLoop_mono m.readable_of_writable (chunks count) addr m.byte old
    (by rw [hloop]; rfl)

end Copies

end IosLinuxkit.UserCopy
