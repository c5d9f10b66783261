import IosLinuxkit.Asbestos.AotTable
import IosLinuxkit.Lib.Run

/-!
# Looking a block up in the images

`aot_find` with its index of an image by offset, and `aot_lookup` with its memo, of
`asbestos/guest-arm64/jit.c`.

* **`aotFind_eq_linear`** — the search through it finds what a scan of the whole table does.
* **`lookup_ok`** — what a call that is answered from the memo returns.
-/

namespace IosLinuxkit.Aot

/-! ## The index of an image -/

/-- `while ((span >> shift) > ntrans) shift++` -/
def offShift (ntrans span shift : Nat) : Nat :=
  if ntrans < span >>> shift then offShift ntrans span (shift + 1) else shift
termination_by span >>> shift
decreasing_by
  rw [Nat.shiftRight_succ]
  omega

def bucket (lo : BitVec 64) (shift : Nat) (off : BitVec 64) : Nat := (off - lo).toNat >>> shift

/-- `while (t < m->ntrans && ((m->trans[t].off - lo) >> shift) < bk) t++` -/
def advance (trans : List AotTrans) (lo : BitVec 64) (shift bk t : Nat) : Nat :=
  if h : t < trans.length then
    if bucket lo shift (trans[t]).off < bk then advance trans lo shift bk (t + 1) else t
  else t
termination_by trans.length - t

/-- The next `n` entries of `first[]`, from bucket `bk` on. -/
def firsts (trans : List AotTrans) (lo : BitVec 64) (shift : Nat) : Nat → Nat → Nat → List Nat
  | 0, _, _ => []
  | n + 1, bk, t =>
    advance trans lo shift bk t :: firsts trans lo shift n (bk + 1) (advance trans lo shift bk t)

/-- `aot_offidx_get`; `alloc` is whether there is memory for the table. -/
def aotOffidxGet (trans : List AotTrans) (alloc : Bool) : Option AotOffidx :=
  match trans.head?, trans.getLast? with
  | some t₀, some tₗ =>
    if 0xffffffff < trans.length then none
    else
      let lo := t₀.off
      let span := tₗ.off - lo + 1#64
      let shift := offShift trans.length span.toNat 0
      let nb := (((span - 1#64) >>> shift) + 1#64).toNat
      if alloc then some { first := firsts trans lo shift (nb + 1) 0 0, lo := lo, nb := nb, shift := shift }
      else none
  | _, _ => none

/-- What a translation must have for the block of a key. -/
def matchesKey (b : Located) (key : List (BitVec 32)) (t : AotTrans) : Bool :=
  t.nkey == key.length && t.nunits == b.units.length && aotKeySame t key key.length && gadgetsSame t b

/-- A linear scan of `trans[]`. -/
def linearFind (trans : List AotTrans) (b : Located) (key : List (BitVec 32)) : Option AotTrans :=
  trans.find? fun t => t.off == join32 (word key 1) (word key 2) && matchesKey b key t

/-- The offsets of `trans[]`, as numbers. -/
def offOf (t : AotTrans) : Nat := t.off.toNat

/-- The offsets do not go all the way from 0 to the largest. -/
def SpanFits (trans : List AotTrans) : Prop :=
  ∀ t ∈ trans, ∀ t' ∈ trans, t'.off.toNat - t.off.toNat < 2 ^ 64 - 1

section Index

variable {trans : List AotTrans} {lo off : BitVec 64} {shift bk t n r : Nat} {b : Located} {key : List (BitVec 32)}

theorem lowerBound_eq_bisect (trans : List AotTrans) (off : BitVec 64) (lo hi : Nat) :
    lowerBound trans off lo hi = bisect (belowAt offOf off.toNat trans) lo hi := by
  have htest : ∀ mid, (((trans[mid]?).map AotTrans.off).any fun o => decide (o.toNat < off.toNat)) =
      belowAt offOf off.toNat trans mid := by
    intro mid
    unfold belowAt
    cases trans[mid]? with
    | none => rfl
    | some t => rfl
  fun_induction bisect (belowAt offOf off.toNat trans) lo hi with
  | case1 lo hi hlt mid hbelow ih =>
    rw [lowerBound, if_pos hlt]
    dsimp only
    rw [htest, if_pos hbelow]
    exact ih
  | case2 lo hi hlt mid hbelow ih =>
    rw [lowerBound, if_pos hlt]
    dsimp only
    rw [htest, if_neg hbelow]
    exact ih
  | case3 lo hi hge => rw [lowerBound, if_neg hge]

theorem aotFindAt_lowerBound (hs : SortedBy offOf trans) (hr : LowerBound offOf off.toNat trans r) :
    aotFindAt (trans.drop r) off b key = trans.find? fun t => t.off == off && matchesKey b key t := by
  have heq : ∀ t : AotTrans, (offOf t == off.toNat) = (t.off == off) := by
    intro t
    rw [Bool.eq_iff_iff, beq_iff_eq, beq_iff_eq]
    exact BitVec.toNat_inj
  have hscan := scan_eq_filter hs hr
  simp only [heq] at hscan
  unfold aotFindAt
  rw [hscan, List.find?_filter]
  congr 1
  funext t
  unfold matchesKey
  rw [Bool.eq_iff_iff, decide_eq_true_iff, Bool.and_eq_true (t.off == off)]

/-! ### Buckets -/

def bucketOf (lo : BitVec 64) (shift : Nat) (t : AotTrans) : Nat := bucket lo shift t.off

theorem bucket_eq (h : lo.toNat ≤ off.toNat) : bucket lo shift off = (off.toNat - lo.toNat) / 2 ^ shift := by
  unfold bucket
  rw [BitVec.toNat_sub_of_le (BitVec.le_def.mpr h), Nat.shiftRight_eq_div_pow]

theorem bucket_mono {off' : BitVec 64} (h : lo.toNat ≤ off.toNat) (hle : off.toNat ≤ off'.toNat) :
    bucket lo shift off ≤ bucket lo shift off' := by
  rw [bucket_eq h, bucket_eq (Nat.le_trans h hle)]
  exact Nat.div_le_div_right (Nat.sub_le_sub_right hle _)

def FromLo (lo : BitVec 64) (trans : List AotTrans) : Prop := ∀ t ∈ trans, lo.toNat ≤ t.off.toNat

theorem sorted_bucketOf (hs : SortedBy offOf trans) (hlo : FromLo lo trans) (shift : Nat) :
    SortedBy (bucketOf lo shift) trans := by
  unfold SortedBy at hs ⊢
  refine hs.imp_of_mem fun {t t'} ht _ hle => ?_
  exact bucket_mono (hlo t ht) hle

theorem lowerBound_of_edge (hs : SortedBy (bucketOf lo shift) trans)
    (hbefore : ∀ i x, trans[i]? = some x → i < r → bucketOf lo shift x < bk)
    (hedge : ∀ x, trans[r]? = some x → bk ≤ bucketOf lo shift x) :
    LowerBound (bucketOf lo shift) bk trans r := by
  intro i x hx
  refine ⟨fun hlt => ?_, hbefore i x hx⟩
  by_contra hge
  obtain ⟨hi, _⟩ := List.getElem?_eq_some_iff.mp hx
  have hrlt : r < trans.length := by omega
  have hr : trans[r]? = some trans[r] := List.getElem?_eq_getElem hrlt
  have hle := hs.le (Nat.le_of_not_lt hge) hr hx
  have := hedge _ hr
  omega

theorem advance_spec (hs : SortedBy (bucketOf lo shift) trans)
    (hbefore : ∀ i x, trans[i]? = some x → i < t → bucketOf lo shift x < bk) (hle : t ≤ trans.length) :
    LowerBound (bucketOf lo shift) bk trans (advance trans lo shift bk t) ∧
      advance trans lo shift bk t ≤ trans.length := by
  fun_induction advance trans lo shift bk t with
  | case1 t hlt hbelow ih =>
    apply ih _ hlt
    intro i x hx hi
    by_cases hit : i < t
    · exact hbefore i x hx hit
    obtain rfl : i = t := by omega
    rw [List.getElem?_eq_getElem hlt] at hx
    cases hx
    exact hbelow
  | case2 t hlt hnot =>
    refine ⟨lowerBound_of_edge hs hbefore fun x hx => ?_, hle⟩
    rw [List.getElem?_eq_getElem hlt] at hx
    cases hx
    exact Nat.le_of_not_lt hnot
  | case3 t hge =>
    refine ⟨lowerBound_of_edge hs hbefore fun x hx => ?_, hle⟩
    rw [List.getElem?_eq_none (by omega)] at hx
    cases hx

theorem firsts_spec (hs : SortedBy (bucketOf lo shift) trans) (n bk t : Nat)
    (hbefore : ∀ i x, trans[i]? = some x → i < t → bucketOf lo shift x < bk) (hle : t ≤ trans.length)
    {j : Nat} (hj : j < n) :
    LowerBound (bucketOf lo shift) (bk + j) trans ((firsts trans lo shift n bk t).getD j 0) ∧
      (firsts trans lo shift n bk t).getD j 0 ≤ trans.length := by
  induction n generalizing bk t j with
  | zero => exact absurd hj (Nat.not_lt_zero j)
  | succ n ih =>
    have hadv := advance_spec hs hbefore hle
    cases j with
    | zero => exact hadv
    | succ j =>
      have hnext := ih (bk + 1) (advance trans lo shift bk t) (fun i x hx hi =>
        Nat.lt_succ_of_lt ((hadv.1 i x hx).mpr hi)) hadv.2 (Nat.lt_of_succ_lt_succ hj)
      rw [Nat.add_assoc, Nat.add_comm 1 j] at hnext
      exact hnext

theorem lowerBound_bucket {first last : Nat} (hs : SortedBy offOf trans) (hlo : FromLo lo trans)
    (hoff : lo.toNat ≤ off.toNat)
    (hfirst : LowerBound (bucketOf lo shift) (bucket lo shift off) trans first)
    (hlast : LowerBound (bucketOf lo shift) (bucket lo shift off + 1) trans last)
    (hfirstle : first ≤ trans.length) (hlastle : last ≤ trans.length) :
    LowerBound offOf off.toNat trans (lowerBound trans off first last) := by
  rw [lowerBound_eq_bisect]
  refine lowerBound_bisect hs (fun i x hx hi => ?_) (fun i x hx hi => ?_) ?_ hlastle
  · -- in an earlier bucket, so at an earlier offset
    have hlt := (hfirst i x hx).mpr hi
    by_contra hge
    have hmono : bucket lo shift off ≤ bucketOf lo shift x := bucket_mono hoff (Nat.le_of_not_lt hge)
    omega
  · have hge : ¬ bucketOf lo shift x < bucket lo shift off + 1 := fun h =>
      absurd ((hlast i x hx).mp h) (by omega)
    by_contra hlt
    have hmem : x ∈ trans := List.mem_of_getElem? hx
    have hmono : bucketOf lo shift x ≤ bucket lo shift off :=
      bucket_mono (hlo x hmem) (Nat.le_of_lt (Nat.lt_of_not_le hlt))
    omega
  · by_contra hgt
    have hx := List.getElem?_eq_getElem (show last < trans.length by omega)
    have hlt := (hfirst last _ hx).mpr (by omega)
    exact absurd ((hlast last _ hx).mp (Nat.lt_succ_of_lt hlt)) (by omega)

/-! ### The search through the index -/

structure IndexOk (trans : List AotTrans) (x : AotOffidx) : Prop where
  fromLo : FromLo x.lo trans
  inside : ∀ t ∈ trans, bucketOf x.lo x.shift t < x.nb
  first : ∀ bk, bk ≤ x.nb → LowerBound (bucketOf x.lo x.shift) bk trans (x.first.getD bk 0) ∧
    x.first.getD bk 0 ≤ trans.length

theorem aotOffidxGet_ok {x : AotOffidx} {alloc : Bool} (hs : SortedBy offOf trans) (hspan : SpanFits trans)
    (hx : aotOffidxGet trans alloc = some x) : IndexOk trans x := by
  unfold aotOffidxGet at hx
  split at hx
  case h_2 => cases hx
  case h_1 t₀ tₗ hhead hlast =>
    split at hx
    · cases hx
    dsimp only at hx
    split at hx
    case isFalse => cases hx
    case isTrue =>
      cases hx
      have hlen : 0 < trans.length := by
        cases trans with
        | nil => cases hhead
        | cons a l => exact Nat.succ_pos _
      have h0 : trans[0]? = some t₀ := by rw [← List.head?_eq_getElem?, hhead]
      have hl : trans[trans.length - 1]? = some tₗ := by rw [← List.getLast?_eq_getElem?, hlast]
      have hfrom : FromLo t₀.off trans := by
        intro t ht
        obtain ⟨i, hi⟩ := List.mem_iff_getElem?.mp ht
        exact hs.le (Nat.zero_le i) h0 hi
      have hle : ∀ t ∈ trans, t.off.toNat ≤ tₗ.off.toNat := by
        intro t ht
        obtain ⟨i, hi⟩ := List.mem_iff_getElem?.mp ht
        obtain ⟨hlt, _⟩ := List.getElem?_eq_some_iff.mp hi
        exact hs.le (by omega) hi hl
      have hmem0 : t₀ ∈ trans := List.mem_of_getElem? h0
      have hmeml : tₗ ∈ trans := List.mem_of_getElem? hl
      generalize hshift : offShift trans.length (tₗ.off - t₀.off + 1#64).toNat 0 = shift
      -- the bucket of the last translation is the last one
      have hnb : (((tₗ.off - t₀.off + 1#64 - 1#64) >>> shift) + 1#64).toNat = bucket t₀.off shift tₗ.off + 1 := by
        have hsub := hspan t₀ hmem0 tₗ hmeml
        have hb : bucket t₀.off shift tₗ.off ≤ tₗ.off.toNat - t₀.off.toNat := by
          rw [bucket_eq (hle t₀ hmem0)]
          exact Nat.div_le_self _ _
        rw [BitVec.add_sub_cancel, BitVec.toNat_add, BitVec.toNat_ushiftRight]
        exact Nat.mod_eq_of_lt (Nat.lt_of_le_of_lt (Nat.succ_le_succ hb) (by
          show tₗ.off.toNat - t₀.off.toNat + 1 < 2 ^ 64
          omega))
      rw [hnb]
      refine ⟨hfrom, fun t ht => Nat.lt_succ_of_le (bucket_mono (hfrom t ht) (hle t ht)), fun bk hbk => ?_⟩
      have hfirst := firsts_spec (sorted_bucketOf hs hfrom shift) (bucket t₀.off shift tₗ.off + 1 + 1) 0 0
        (fun i x _ hi => absurd hi (Nat.not_lt_zero i)) (Nat.zero_le _) (Nat.lt_succ_of_le hbk)
      rw [Nat.zero_add] at hfirst
      exact hfirst

theorem aotFind_eq_linear (hs : SortedBy offOf trans) (hspan : SpanFits trans) (alloc : Bool) :
    aotFind trans (aotOffidxGet trans alloc) b key = linearFind trans b key := by
  unfold aotFind linearFind
  dsimp only
  generalize join32 (word key 1) (word key 2) = off
  cases hx : aotOffidxGet trans alloc with
  | none =>
    -- all of the table is searched
    apply aotFindAt_lowerBound hs
    rw [lowerBound_eq_bisect]
    refine lowerBound_bisect hs (fun i x _ hi => absurd hi (Nat.not_lt_zero i)) (fun i x hx hi => ?_)
      (Nat.zero_le _) (Nat.le_refl _)
    rw [List.getElem?_eq_none hi] at hx
    cases hx
  | some x =>
    have hok := aotOffidxGet_ok hs hspan hx
    dsimp only
    rw [show (off - x.lo).toNat >>> x.shift = bucket x.lo x.shift off from rfl]
    split
    case isTrue hout =>
      -- no translation has this offset
      symm
      rw [List.find?_eq_none]
      intro t ht hmatch
      rw [Bool.and_eq_true, beq_iff_eq] at hmatch
      rw [Bool.or_eq_true, decide_eq_true_eq, decide_eq_true_eq] at hout
      have h1 := hok.fromLo t ht
      have h2 : bucket x.lo x.shift t.off < x.nb := hok.inside t ht
      rw [hmatch.1] at h1 h2
      omega
    case isFalse hin =>
      rw [Bool.or_eq_true, decide_eq_true_eq, decide_eq_true_eq, not_or] at hin
      obtain ⟨hfirst, hfirstle⟩ := hok.first _ (Nat.le_of_lt (Nat.lt_of_not_le hin.2))
      obtain ⟨hlast, hlastle⟩ := hok.first _ (Nat.succ_le_of_lt (Nat.lt_of_not_le hin.2))
      exact aotFindAt_lowerBound hs
        (lowerBound_bucket hs hok.fromLo (Nat.le_of_not_lt hin.1) hfirst hlast hfirstle hlastle)

end Index

/-! ## Offsets from end to end -/

def atZero : Located := oneUnit 0x500000#64 0#64 0x10000040#32 (by decide)

/-- The block of offset 0, and a translation at the largest offset. -/
def wideTrans : List AotTrans :=
  [record atZero false, { record atZero false with off := 0xffffffffffffffff#64 }]

theorem wideTrans_sorted : SortedBy offOf wideTrans := by
  unfold SortedBy wideTrans
  rw [List.pairwise_cons]
  exact ⟨fun t _ => Nat.zero_le _, List.pairwise_singleton _ _⟩

theorem aotOffidxGet_wide : ∃ x, aotOffidxGet wideTrans true = some x ∧ x.nb = 0 := by
  refine ⟨_, rfl, ?_⟩
  have hshift : offShift wideTrans.length 0 0 = 0 := by
    rw [offShift, if_neg (by decide)]
  show (((0#64 - 1#64) >>> offShift wideTrans.length 0 0) + 1#64).toNat = 0
  rw [hshift]
  decide

theorem aotFind_wide (key : List (BitVec 32)) (b : Located) :
    aotFind wideTrans (aotOffidxGet wideTrans true) b key = none := by
  obtain ⟨x, hx, hnb⟩ := aotOffidxGet_wide
  unfold aotFind
  rw [hx]
  dsimp only
  rw [if_pos]
  rw [hnb, Bool.or_eq_true]
  exact .inr (decide_eq_true (Nat.zero_le _))

/-! ## The images of a module -/

/-- `struct aot_module`, as far as a lookup reads it; `alloc` is whether there is memory for its index. -/
structure AotImage where
  trans : List AotTrans
  byHash : List AotHash
  alloc : Bool
  sorted : SortedBy offOf trans
  span : SpanFits trans

/-- `aot_images[]`, with `mod_same[]` and `mod_family[]`. -/
structure Images where
  images : List AotImage
  same : BitVec 32 → BitVec 64
  family : BitVec 32 → BitVec 64

def bits (mask : BitVec 64) : List Nat := (List.range 64).filter mask.getLsbD

structure Found where
  img : Nat
  t : AotTrans
  dbase : BitVec 64

def AotImage.find (m : AotImage) (b : Located) (key : List (BitVec 32)) : Option AotTrans :=
  aotFind m.trans (aotOffidxGet m.trans m.alloc) b key

def aotFindSame (A : Images) (mod : BitVec 32) (b : Located) (key : List (BitVec 32)) : Option Found :=
  (bits (A.same mod)).findSome? fun i =>
    (A.images[i]?).bind fun m => (m.find b key).map fun t => ⟨i, t, b.addr - b.off⟩

/-- One image in `aot_find_family`: at the block's offset, else wherever its code was recorded. -/
def AotImage.findEither (m : AotImage) (i : Nat) (usable : Nat → Bool) (b : Located)
    (key : List (BitVec 32)) : Option Found :=
  match m.find b key with
  | some t => some ⟨i, t, b.addr - b.off⟩
  | none =>
    (aotFindMoved m.trans m.byHash usable b key).bind fun r => (m.trans[r.1]?).map fun t => ⟨i, t, r.2⟩

/-- `aot_find_family`; `usable` is `aot_slot_usable`, by image and translation. -/
def aotFindFamily (A : Images) (mod : BitVec 32) (usable : Nat → Nat → Bool) (b : Located)
    (key : List (BitVec 32)) : Option Found :=
  (bits (A.family mod)).findSome? fun i => (A.images[i]?).bind fun m => m.findEither i (usable i) b key

/-! ## The memo -/

def regHash (k : List (BitVec 32)) : BitVec 64 × BitVec 64 :=
  k.foldl (fun h w => ((h.1 ^^^ w.setWidth 64) * BitVec.ofNat 64 fnvPrime,
    (h.2 ^^^ (w + 0x9e3779b9#32).setWidth 64) * 0xff51afd7ed558ccd#64))
    (BitVec.ofNat 64 fnvBasis, 0x84222325cbf29ce4#64)

/-- What a memo entry keeps of a translation; `dshift` is `dbase` less the block's base. -/
structure Remembered where
  img : Nat
  t : AotTrans
  dshift : BitVec 64

/-- `struct aot_memo`, where it is valid; `found` is none where no image has it. -/
structure AotMemo where
  hash : BitVec 64 × BitVec 64
  found : Option Remembered

/-- `aot_memo[]`; none before it is allocated. -/
abbrev Memo := Option (Nat → Option AotMemo)

/-- A call of `aot_lookup`: the block, the slots of its address space at the time, and whether there
would be memory for the memo. -/
structure Call where
  b : Located
  mod : BitVec 32
  usable : Nat → Nat → Bool
  alloc : Bool

def Call.key (c : Call) : List (BitVec 32) := regKey c.b c.mod

def Call.hash (c : Call) : BitVec 64 × BitVec 64 := regHash c.key

/-- `&aot_memo[h & ((1u << AOT_MEMO_BITS) - 2)]` -/
def Call.set (c : Call) : Nat := (c.hash.1 &&& 131070#64).toNat

/-- `aot_find_family`, run afresh. -/
def Call.fresh (c : Call) (A : Images) : Option Found := aotFindFamily A c.mod c.usable c.b c.key

def Call.way (c : Call) (m : Nat → Option AotMemo) (i : Nat) : Option AotMemo :=
  (m i).filter fun e => e.hash == c.hash

def Call.hit (c : Call) (m : Nat → Option AotMemo) : Option AotMemo :=
  (c.way m c.set).or (c.way m (c.set + 1))

/-- The way to fill: an empty one, else the one not refilled last time. -/
def Call.fillWay (c : Call) (m : Nat → Option AotMemo) : Nat :=
  if (m c.set).isNone then c.set
  else if (m (c.set + 1)).isNone then c.set + 1
  else c.set + ((c.hash.1 >>> 17) &&& 1#64).toNat

def Call.remember (c : Call) (f : Found) : Remembered := ⟨f.img, f.t, f.dbase - (c.b.addr - c.b.off)⟩

def Call.recall (c : Call) (r : Remembered) : Found := ⟨r.img, r.t, c.b.addr - c.b.off + r.dshift⟩

def aotLookup (A : Images) (s : Memo) (c : Call) : Memo × Option Found :=
  match aotFindSame A c.mod c.b c.key with
  | some f => (s, some f)
  | none =>
    if A.family c.mod = 0#64 then (s, none)
    else
      match s.or (if c.alloc then some fun _ => none else none) with
      | none => (none, c.fresh A)
      | some m =>
        match c.hit m with
        | some e => (some m, e.found.map c.recall)
        | none =>
          (some (Function.update m (c.fillWay m) (some ⟨c.hash, (c.fresh A).map c.remember⟩)), c.fresh A)

def memoAfter (A : Images) (cs : List Call) : Memo := run (fun s c => (aotLookup A s c).1) none cs

/-- The call is answered from the memo, with this entry. -/
def FromMemo (A : Images) (s : Memo) (c : Call) (e : AotMemo) : Prop :=
  aotFindSame A c.mod c.b c.key = none ∧ A.family c.mod ≠ 0#64 ∧ ∃ m, s = some m ∧ c.hit m = some e

def Distinct (cs : List Call) : Prop := ∀ c ∈ cs, ∀ c' ∈ cs, c.hash = c'.hash → c.key = c'.key

def MemoTransparent (A : Images) : Prop :=
  ∀ cs c e, Distinct (c :: cs) → FromMemo A (memoAfter A cs) c e →
    (aotLookup A (memoAfter A cs) c).2.isSome = (c.fresh A).isSome

/-! ## Blocks with the same key -/

section Keys

variable {b b' : Located} {mod mod' : BitVec 32} {k : List (BitVec 32)}

structure SameBlock (b b' : Located) : Prop where
  off : b'.off = b.off
  units : b'.units.length = b.units.length
  gadget : ∀ i : Nat, ((b'.units[i]?).map b'.gadget).getD 0#64 = ((b.units[i]?).map b.gadget).getD 0#64

theorem mod_of_regKey (h : regKey b' mod' = regKey b mod) : mod' = mod := by
  have h0 : word (regKey b' mod') 0 = word (regKey b mod) 0 := by rw [h]
  rw [regKey_header b' mod' (by decide), regKey_header b mod (by decide)] at h0
  exact h0

theorem sameBlock_of_regKey (h : regKey b' mod' = regKey b mod) : SameBlock b b' := by
  have hword : ∀ i, word (regKey b' mod') i = word (regKey b mod) i := fun i => by rw [h]
  have hunits : b'.units.length = b.units.length := by
    have hlen := congrArg List.length h
    rw [length_regKey, length_regKey] at hlen
    omega
  refine ⟨?_, hunits, fun i => ?_⟩
  · have h1 := hword 1
    have h2 := hword 2
    rw [regKey_header b' mod' (by decide), regKey_header b mod (by decide)] at h1 h2
    exact eq_of_halves h1 h2
  by_cases hi : i < b.units.length
  · have hu := List.getElem?_eq_getElem hi
    have hu' := List.getElem?_eq_getElem (hunits ▸ hi : i < b'.units.length)
    have h7 := hword (7 + 9 * i + 7)
    have h8 := hword (7 + 9 * i + 8)
    rw [regKey_word mod' hu' (by decide), regKey_word mod hu (by decide)] at h7 h8
    rw [hu, hu']
    exact eq_of_halves h7 h8
  · rw [List.getElem?_eq_none (by omega), List.getElem?_eq_none (by omega)]
    rfl

theorem SameBlock.gadgetsSame (h : SameBlock b b') (t : AotTrans) : gadgetsSame t b' = gadgetsSame t b := by
  unfold Aot.gadgetsSame
  simp only [h.units, h.gadget]

theorem SameBlock.find (h : SameBlock b b') (m : AotImage) (k : List (BitVec 32)) : m.find b' k = m.find b k := by
  unfold AotImage.find
  rw [aotFind_eq_linear m.sorted m.span, aotFind_eq_linear m.sorted m.span]
  unfold linearFind matchesKey
  simp only [h.units, h.gadgetsSame]

theorem SameBlock.fits (h : SameBlock b b') (t : AotTrans) (k : List (BitVec 32)) (n : Nat) :
    (aotFitsMoved t k n b').map (fun d => d - (b'.addr - b'.off)) =
      (aotFitsMoved t k n b).map fun d => d - (b.addr - b.off) := by
  unfold aotFitsMoved
  rw [h.off]
  split
  · rw [Option.map_map, Option.map_map]
    congr 1
    funext s
    show _ + s.2 - _ = _ + s.2 - _
    rw [BitVec.add_comm, BitVec.add_sub_cancel, BitVec.add_comm, BitVec.add_sub_cancel]
  · rfl

end Keys

/-! ## When a search finds something -/

structure Candidate (trans : List AotTrans) (b : Located) (k : List (BitVec 32)) (e : AotHash) (t : AotTrans) :
    Prop where
  trans : trans[e.trans]? = some t
  nkey : t.nkey = k.length
  nunits : t.nunits = b.units.length
  gadgets : gadgetsSame t b = true
  fits : (aotFitsMoved t k k.length b).isSome = true

section Search

variable {A : Images} {mod : BitVec 32} {usable : Nat → Nat → Bool} {b b' : Located} {k : List (BitVec 32)}
  {trans : List AotTrans} {byHash : List AotHash} {m : AotImage} {e : AotHash} {t : AotTrans} {f : Found}

theorem SameBlock.candidate (h : SameBlock b b') (hc : Candidate trans b k e t) : Candidate trans b' k e t := by
  refine ⟨hc.trans, hc.nkey, hc.nunits.trans h.units.symm, (h.gadgetsSame t).trans hc.gadgets, ?_⟩
  have hfits := congrArg Option.isSome (h.fits t k k.length)
  rw [Option.isSome_map, Option.isSome_map] at hfits
  exact hfits.trans hc.fits

theorem SameBlock.symm (h : SameBlock b b') : SameBlock b' b :=
  ⟨h.off.symm, h.units.symm, fun i => (h.gadget i).symm⟩

variable {u : Nat → Bool} {i : Nat}

theorem aotFindMoved_some {r : Nat × BitVec 64} (h : aotFindMoved trans byHash u b k = some r) :
    ∃ e ∈ scanned byHash (keyContentHash k k.length), ∃ t, e.trans = r.1 ∧ Candidate trans b k e t ∧
      u e.trans = true := by
  obtain ⟨e, he, hr⟩ := List.exists_of_findSome?_eq_some h
  obtain ⟨t, ht, hr⟩ := Option.bind_eq_some_iff.mp hr
  split at hr
  · cases hr
  case isFalse hlen =>
    rw [not_or, not_not, not_not] at hlen
    split at hr
    case isFalse => cases hr
    case isTrue hg =>
      obtain ⟨d, hd, hr⟩ := Option.bind_eq_some_iff.mp hr
      split at hr
      case isFalse => cases hr
      case isTrue hu =>
        cases hr
        exact ⟨e, he, t, rfl, ⟨ht, hlen.1, hlen.2, hg, by rw [hd]; rfl⟩, hu⟩

theorem Candidate.found (hc : Candidate trans b k e t)
    (he : e ∈ scanned byHash (keyContentHash k k.length)) (hu : u e.trans = true) :
    (aotFindMoved trans byHash u b k).isSome = true := by
  obtain ⟨d, hd⟩ := Option.isSome_iff_exists.mp hc.fits
  exact aotFindMoved_isSome he hc.trans hc.nkey hc.nunits hc.gadgets hd hu

def HasFor (m : AotImage) (b : Located) (k : List (BitVec 32)) (p : Nat → Prop) (t : AotTrans) : Prop :=
  m.find b k = some t ∨
    ∃ e ∈ scanned m.byHash (keyContentHash k k.length), Candidate m.trans b k e t ∧ p e.trans

theorem HasFor.congr {p : Nat → Prop} (h : SameBlock b b') (hm : HasFor m b k p t) : HasFor m b' k p t := by
  rcases hm with hfind | ⟨e, he, hc, hp⟩
  · exact .inl ((h.find m k).trans hfind)
  · exact .inr ⟨e, he, h.candidate hc, hp⟩

theorem findEither_some (h : m.findEither i u b k = some f) :
    f.img = i ∧ HasFor m b k (fun j => u j = true) f.t := by
  unfold AotImage.findEither at h
  split at h
  case h_1 t hfind =>
    cases h
    exact ⟨rfl, .inl hfind⟩
  case h_2 =>
    obtain ⟨r, hr, h⟩ := Option.bind_eq_some_iff.mp h
    obtain ⟨t, ht, rfl⟩ := Option.map_eq_some_iff.mp h
    obtain ⟨e, he, t', hj, hc, hu⟩ := aotFindMoved_some hr
    have htt : t' = t := by
      have htrans := hc.trans
      rw [hj, ht] at htrans
      exact (Option.some.inj htrans).symm
    exact ⟨rfl, .inr ⟨e, he, htt ▸ hc, hu⟩⟩

theorem HasFor.found (h : HasFor m b k (fun j => u j = true) t) :
    (m.findEither i u b k).isSome = true := by
  unfold AotImage.findEither
  split
  · rfl
  case h_2 hnone =>
    rcases h with hfind | ⟨e, he, hc, hu⟩
    · rw [hnone] at hfind
      cases hfind
    obtain ⟨r, hr⟩ := Option.isSome_iff_exists.mp (hc.found he hu)
    obtain ⟨e', _, t', hj, hc', _⟩ := aotFindMoved_some hr
    rw [hr, Option.bind_some, ← hj, hc'.trans]
    rfl

theorem aotFindFamily_some (h : aotFindFamily A mod usable b k = some f) :
    f.img ∈ bits (A.family mod) ∧
      ∃ m, A.images[f.img]? = some m ∧ HasFor m b k (fun j => usable f.img j = true) f.t := by
  obtain ⟨i, hi, hr⟩ := List.exists_of_findSome?_eq_some h
  obtain ⟨m, hm, hr⟩ := Option.bind_eq_some_iff.mp hr
  obtain ⟨rfl, hhas⟩ := findEither_some hr
  exact ⟨hi, m, hm, hhas⟩

theorem aotFindFamily_isSome (hi : i ∈ bits (A.family mod)) (hm : A.images[i]? = some m)
    (h : HasFor m b k (fun j => usable i j = true) t) : (aotFindFamily A mod usable b k).isSome = true := by
  unfold aotFindFamily
  rw [List.findSome?_isSome_iff]
  refine ⟨i, hi, ?_⟩
  rw [hm, Option.bind_some]
  exact h.found

theorem aotFindFamily_congr (h : SameBlock b b') :
    (aotFindFamily A mod usable b' k).isSome = (aotFindFamily A mod usable b k).isSome := by
  have hone : ∀ {b b' : Located}, SameBlock b b' → (aotFindFamily A mod usable b k).isSome = true →
      (aotFindFamily A mod usable b' k).isSome = true := by
    intro b b' h hsome
    obtain ⟨f, hf⟩ := Option.isSome_iff_exists.mp hsome
    obtain ⟨hi, m, hm, hhas⟩ := aotFindFamily_some hf
    exact aotFindFamily_isSome hi hm (hhas.congr h)
  rw [Bool.eq_iff_iff]
  exact ⟨hone h.symm, hone h⟩

end Search

/-! ## What is in the memo -/

section Memo

variable {A : Images} {cs : List Call} {c c' : Call} {s : Memo} {m : Nat → Option AotMemo} {e : AotMemo}

def MemoOk (A : Images) (cs : List Call) (s : Memo) : Prop :=
  ∀ m i e, s = some m → m i = some e →
    ∃ c ∈ cs, e.hash = c.hash ∧ e.found = (c.fresh A).map c.remember

theorem MemoOk.mono {cs' : List Call} (h : MemoOk A cs s) (hsub : ∀ c ∈ cs, c ∈ cs') : MemoOk A cs' s := by
  intro m i e hm he
  obtain ⟨c, hc, hh, hf⟩ := h m i e hm he
  exact ⟨c, hsub c hc, hh, hf⟩

theorem memoOk_lookup (h : MemoOk A cs s) (hc : c ∈ cs) : MemoOk A cs (aotLookup A s c).1 := by
  have hnew : ∀ m, s.or (if c.alloc then some fun _ => none else none) = some m → MemoOk A cs (some m) := by
    intro m hm m' i e hm' he
    cases hm'
    rw [Option.or_eq_some_iff] at hm
    rcases hm with hm | ⟨_, hm⟩
    · exact h m i e hm he
    · -- a memo that was allocated now is empty
      split at hm
      · cases hm
        cases he
      · cases hm
  unfold aotLookup
  split
  · exact h
  split
  · exact h
  split
  case h_1 =>
    intro m i e hm
    cases hm
  case h_2 m hm =>
    split
    · exact hnew m hm
    intro m' i e hm' he
    cases hm'
    by_cases hi : i = c.fillWay m
    · rw [hi, Function.update_self, Option.some.injEq] at he
      rw [← he]
      refine ⟨c, hc, ?_⟩
      dsimp only
      exact ⟨Eq.refl c.hash, Eq.refl _⟩
    · rw [Function.update_of_ne hi] at he
      exact hnew m hm m i e rfl he

theorem memoOk_run (cs past : List Call) (h : MemoOk A past s) :
    MemoOk A (past ++ cs) (run (fun s c => (aotLookup A s c).1) s cs) := by
  induction cs generalizing past s with
  | nil => rw [List.append_nil]; exact h
  | cons c cs ih =>
    rw [run_cons, List.append_cons]
    apply ih
    apply memoOk_lookup (h.mono fun c hc => List.mem_append_left _ hc)
    exact List.mem_append_right _ List.mem_cons_self

theorem memoOk_after (A : Images) (cs : List Call) : MemoOk A cs (memoAfter A cs) := by
  apply memoOk_run cs []
  intro m i e hm
  cases hm

theorem hit_entry (hok : MemoOk A cs (some m)) (hd : Distinct (c :: cs)) (hhit : c.hit m = some e) :
    ∃ c' ∈ cs, c'.key = c.key ∧ e.found = (c'.fresh A).map c'.remember := by
  have hway : ∀ i, c.way m i = some e → ∃ c' ∈ cs, c'.key = c.key ∧ e.found = (c'.fresh A).map c'.remember := by
    intro i hi
    obtain ⟨he, hh⟩ := Option.filter_eq_some_iff.mp hi
    rw [beq_iff_eq] at hh
    obtain ⟨c', hc', hh', hf⟩ := hok m i e rfl he
    exact ⟨c', hc', hd c' (List.mem_cons_of_mem c hc') c List.mem_cons_self (hh'.symm.trans hh), hf⟩
  unfold Call.hit at hhit
  rw [Option.or_eq_some_iff] at hhit
  rcases hhit with h | ⟨_, h⟩
  · exact hway _ h
  · exact hway _ h

theorem lookup_fromMemo (h : FromMemo A s c e) : (aotLookup A s c).2 = e.found.map c.recall := by
  obtain ⟨hsame, hfam, m, rfl, hhit⟩ := h
  unfold aotLookup
  rw [hsame]
  dsimp only
  rw [if_neg hfam, Option.some_or]
  dsimp only
  rw [hhit]

end Memo

/-! ## Lookups -/

/-- The slots, with that of translation `j` of image `i` made free for the block. -/
def freed (usable : Nat → Nat → Bool) (i j : Nat) : Nat → Nat → Bool := fun i' j' =>
  usable i' j' || (i' == i && j' == j)

/-- What a call that is answered from the memo returns, after the calls `cs`. -/
structure MemoAnswer (A : Images) (cs : List Call) (c : Call) (ans : Option Found) : Prop where
  /-- a translation is returned only where the search would find one, had that one its slot -/
  found : ∀ f, ans = some f → ∃ m j, A.images[f.img]? = some m ∧ m.trans[j]? = some f.t ∧
    (aotFindFamily A c.mod (freed c.usable f.img j) c.b c.key).isSome = true
  /-- none is returned only where no image has one at the block's own offset -/
  missing : ans = none → ∀ i ∈ bits (A.family c.mod), ∀ m, A.images[i]? = some m → m.find c.b c.key = none
  /-- with the slots as they were in the call that filled the entry, the search agrees -/
  agree : ∃ c' ∈ cs, c'.key = c.key ∧ (c'.usable = c.usable → ans.isSome = (c.fresh A).isSome)

/-- Calls whose keys the hashes tell apart. -/
structure History where
  calls : List Call
  next : Call
  distinct : Distinct (next :: calls)

/-- What holds of the searches in the images and of a call after others. -/
structure LookupOk (A : Images) (hist : History) : Prop where
  find : ∀ m ∈ A.images, ∀ b key, m.find b key = linearFind m.trans b key
  memo : ∀ e, FromMemo A (memoAfter A hist.calls) hist.next e →
    MemoAnswer A hist.calls hist.next (aotLookup A (memoAfter A hist.calls) hist.next).2

section Lookup

variable {A : Images} {cs : List Call} {c c' : Call} {e : AotMemo} {f : Found}

theorem Call.sameBlock (h : c'.key = c.key) : c'.mod = c.mod ∧ SameBlock c.b c'.b :=
  ⟨mod_of_regKey h, sameBlock_of_regKey h⟩

theorem AotImage.find_mem {m : AotImage} {b : Located} {key : List (BitVec 32)} {t : AotTrans}
    (h : m.find b key = some t) : ∃ j : Nat, m.trans[j]? = some t := by
  unfold AotImage.find at h
  rw [aotFind_eq_linear m.sorted m.span] at h
  exact List.mem_iff_getElem?.mp (List.mem_of_find?_eq_some h)

theorem fresh_congr (h : c'.key = c.key) :
    (c'.fresh A).isSome = (aotFindFamily A c.mod c'.usable c.b c.key).isSome := by
  obtain ⟨hmod, hsame⟩ := Call.sameBlock h
  unfold Call.fresh
  rw [hmod, h]
  exact aotFindFamily_congr hsame

theorem found_again (h : c'.key = c.key) (hf : c'.fresh A = some f) :
    ∃ m j, A.images[f.img]? = some m ∧ m.trans[j]? = some f.t ∧
      (aotFindFamily A c.mod (freed c.usable f.img j) c.b c.key).isSome = true := by
  obtain ⟨hmod, hsame⟩ := Call.sameBlock h
  obtain ⟨hi, m, hm, hhas⟩ := aotFindFamily_some hf
  rw [hmod] at hi
  rw [h] at hhas
  have hhas' := hhas.congr hsame.symm
  rcases hhas' with hfind | ⟨e, he, hc, _⟩
  · obtain ⟨j, hj⟩ := AotImage.find_mem hfind
    exact ⟨m, j, hm, hj, aotFindFamily_isSome hi hm (.inl hfind)⟩
  refine ⟨m, e.trans, hm, hc.trans, aotFindFamily_isSome hi hm (.inr ⟨e, he, hc, ?_⟩)⟩
  show freed c.usable f.img e.trans f.img e.trans = true
  unfold freed
  rw [beq_self_eq_true, beq_self_eq_true, Bool.and_self, Bool.or_true]

theorem missing_again (h : c'.key = c.key) (hnone : c'.fresh A = none) :
    ∀ i ∈ bits (A.family c.mod), ∀ m, A.images[i]? = some m → m.find c.b c.key = none := by
  intro i hi m hm
  cases hfind : m.find c.b c.key with
  | none => rfl
  | some t =>
    have hsome : (aotFindFamily A c.mod c'.usable c.b c.key).isSome = true :=
      aotFindFamily_isSome hi hm (.inl hfind)
    rw [← fresh_congr h, hnone] at hsome
    cases hsome

/-- **What a lookup returns**, in any order of the calls of all address spaces. -/
theorem lookup_ok (A : Images) (hist : History) : LookupOk A hist := by
  refine ⟨fun m _ b key => aotFind_eq_linear m.sorted m.span m.alloc, fun e hfrom => ?_⟩
  have hans := lookup_fromMemo hfrom
  obtain ⟨_, _, m, hm, hhit⟩ := hfrom
  have hok := memoOk_after A hist.calls
  rw [hm] at hok
  obtain ⟨c', hc', hkey, hfound⟩ := hit_entry hok hist.distinct hhit
  rw [hans, hfound]
  refine ⟨fun f hf => ?_, fun hnone => ?_, c', hc', hkey, fun hu => ?_⟩
  · obtain ⟨r, hr, rfl⟩ := Option.map_eq_some_iff.mp hf
    obtain ⟨f', hf', rfl⟩ := Option.map_eq_some_iff.mp hr
    obtain ⟨m', j, hm', hj, hagain⟩ := found_again hkey hf'
    exact ⟨m', j, hm', hj, hagain⟩
  · rw [Option.map_eq_none_iff, Option.map_eq_none_iff] at hnone
    exact missing_again hkey hnone
  · rw [Option.isSome_map, Option.isSome_map, fresh_congr hkey, hu]
    rfl

end Lookup

/-! ## A slot that is taken -/

/-- An image with one translation, of the block of `recordedAdr`. -/
def adrImage : AotImage where
  trans := [recordedAdr.trans]
  byHash := byHashTable [regKey recordedAdr.src 0#32]
  alloc := true
  sorted := List.pairwise_singleton _ _
  span := by
    intro t ht t' ht'
    rw [List.mem_singleton.mp ht, List.mem_singleton.mp ht', Nat.sub_self]
    decide

def adrImages : Images where
  images := [adrImage]
  same := fun _ => 0#64
  family := fun _ => 1#64

def adrCall (free : Bool) : Call := { b := movedAdr, mod := 0#32, usable := fun _ _ => free, alloc := true }

theorem adrCall_key (free : Bool) : (adrCall free).key = regKey movedAdr 0#32 := rfl

theorem adr_sameContent : SameContent (regKey recordedAdr.src 0#32) (regKey movedAdr 0#32) := by
  have hlen : (regKey recordedAdr.src 0#32).length = 16 := by decide
  refine ⟨by decide, fun i h4 hi hg => ?_⟩
  rw [hlen] at hi
  have hall : ∀ i < 16, 4 ≤ i → keyIsGadget i = false →
      contentWord (regKey movedAdr 0#32) i = contentWord (regKey recordedAdr.src 0#32) i := by decide
  exact hall i hi h4 hg

theorem adr_find : adrImage.find movedAdr (regKey movedAdr 0#32) = none := by
  unfold AotImage.find
  rw [aotFind_eq_linear adrImage.sorted adrImage.span]
  decide

theorem adr_family : bits 1#64 = [0] := by decide

theorem adr_none : bits 0#64 = [] := by decide

theorem adrCall_fresh (free : Bool) : ((adrCall free).fresh adrImages).isSome = free := by
  have hmoved : ∀ f, (adrCall free).fresh adrImages = some f →
      ∃ j, (adrCall free).usable 0 j = true := by
    intro f hf
    obtain ⟨hi, m, hm, hhas⟩ := aotFindFamily_some hf
    rw [show (adrImages.family (adrCall free).mod) = 1#64 from rfl, adr_family, List.mem_singleton] at hi
    rw [hi] at hm hhas
    cases hm
    rcases hhas with hfind | ⟨e, _, _, hu⟩
    · rw [show (adrCall free).b = movedAdr from rfl, adrCall_key, adr_find] at hfind
      cases hfind
    · exact ⟨e.trans, hu⟩
  cases free with
  | false =>
    cases hf : (adrCall false).fresh adrImages with
    | none => rfl
    | some f =>
      obtain ⟨j, hj⟩ := hmoved f hf
      cases hj
  | true =>
    have hget : [regKey recordedAdr.src 0#32][0]? = some (regKey recordedAdr.src 0#32) := rfl
    obtain ⟨e, he, htrans⟩ := mem_scanned hget adr_sameContent
    have hc : Candidate adrImage.trans movedAdr (regKey movedAdr 0#32) e recordedAdr.trans :=
      ⟨by rw [htrans]; rfl, by decide, by decide, by decide, by decide⟩
    have hi : 0 ∈ bits (adrImages.family (adrCall true).mod) := by
      rw [show adrImages.family (adrCall true).mod = 1#64 from rfl, adr_family]
      exact List.mem_singleton.mpr rfl
    have hm : adrImages.images[0]? = some adrImage := rfl
    exact aotFindFamily_isSome hi hm (.inr ⟨e, he, hc, rfl⟩)

theorem hit_filled {c c' : Call} (m : Nat → Option AotMemo) (r : Option Remembered) (h : c'.hash = c.hash) :
    (c'.hit (Function.update m (c.fillWay m) (some ⟨c.hash, r⟩))).isSome = true := by
  have hset : c'.set = c.set := by
    unfold Call.set
    rw [h]
  have hway : (c'.way (Function.update m (c.fillWay m) (some ⟨c.hash, r⟩)) (c.fillWay m)).isSome = true := by
    unfold Call.way
    rw [Function.update_self, Option.filter_some, if_pos (beq_iff_eq.mpr h.symm)]
    rfl
  have hfill : c.fillWay m = c.set ∨ c.fillWay m = c.set + 1 := by
    -- the last way is the first or the second of the set, by one bit of the hash
    have hbit : ((c.hash.1 >>> 17) &&& 1#64).toNat < 2 := by
      rw [BitVec.toNat_and]
      exact Nat.and_lt_two_pow _ (by decide : (1#64).toNat < 2 ^ 1)
    unfold Call.fillWay
    split
    · exact .inl rfl
    split
    · exact .inr rfl
    · omega
  unfold Call.hit
  rw [hset, Option.isSome_or, Bool.or_eq_true]
  rcases hfill with hfill | hfill
  · rw [hfill] at hway
    rw [hfill]
    exact .inl hway
  rw [hfill] at hway
  rw [hfill]
  exact .inr hway

theorem adrCall_same (free : Bool) :
    aotFindSame adrImages (adrCall free).mod (adrCall free).b (adrCall free).key = none := by
  unfold aotFindSame
  rw [show adrImages.same (adrCall free).mod = 0#64 from rfl, adr_none, List.findSome?_nil]

theorem adrCall_family (free : Bool) : adrImages.family (adrCall free).mod ≠ 0#64 := by
  show 1#64 ≠ 0#64
  decide

theorem memoAfter_adrCall : ∃ m, memoAfter adrImages [adrCall true] =
      some (Function.update m ((adrCall true).fillWay m)
        (some ⟨(adrCall true).hash, ((adrCall true).fresh adrImages).map (adrCall true).remember⟩)) := by
  refine ⟨fun _ => none, ?_⟩
  unfold memoAfter
  rw [run_cons, run_nil]
  unfold aotLookup
  rw [adrCall_same]
  dsimp only
  rw [if_neg (adrCall_family true)]
  rfl

/-- A translation that one address space found is returned in another, where its slot is taken; and the
index of an image whose offsets go from 0 to the largest has no buckets. -/
theorem lookup_wrong : ¬ MemoTransparent adrImages ∧ SortedBy offOf wideTrans ∧
    aotFind wideTrans (aotOffidxGet wideTrans true) atZero (regKey atZero 0#32) ≠
      linearFind wideTrans atZero (regKey atZero 0#32) := by
  refine ⟨fun h => ?_, wideTrans_sorted, fun h => ?_⟩
  case refine_2 =>
    rw [aotFind_wide] at h
    have hsome : (linearFind wideTrans atZero (regKey atZero 0#32)).isSome = true := by decide
    rw [← h] at hsome
    cases hsome
  obtain ⟨m, hm⟩ := memoAfter_adrCall
  have hhash : (adrCall false).hash = (adrCall true).hash := rfl
  have hhit := hit_filled m (((adrCall true).fresh adrImages).map (adrCall true).remember) hhash
  obtain ⟨e, he⟩ := Option.isSome_iff_exists.mp hhit
  have hfrom : FromMemo adrImages (memoAfter adrImages [adrCall true]) (adrCall false) e :=
    ⟨adrCall_same false, adrCall_family false, _, hm, he⟩
  have hkeys : ∀ c ∈ [adrCall false, adrCall true], c.key = regKey movedAdr 0#32 := by
    intro c hc
    rw [List.mem_cons, List.mem_singleton] at hc
    rcases hc with rfl | rfl
    · rfl
    · rfl
  have hdist : Distinct [adrCall false, adrCall true] := fun c hc c' hc' _ =>
    (hkeys c hc).trans (hkeys c' hc').symm
  have hans := h [adrCall true] (adrCall false) e hdist hfrom
  -- the entry is of the first call, whose search found a translation
  have hfound : e.found.isSome = true := by
    have hok := memoOk_after adrImages [adrCall true]
    rw [hm] at hok
    obtain ⟨c', hc', _, hf⟩ := hit_entry hok hdist he
    rw [hf, Option.isSome_map, List.mem_singleton.mp hc', adrCall_fresh]
  rw [lookup_fromMemo hfrom, Option.isSome_map, hfound, adrCall_fresh] at hans
  cases hans

end IosLinuxkit.Aot
