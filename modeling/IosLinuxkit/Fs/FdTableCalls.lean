import IosLinuxkit.Fs.FdTable

/-!
# One descriptor table under the calls

* **`fInstallStart_spec`** — the new descriptor.
-/

namespace IosLinuxkit.Fs

namespace FdView

variable {o : Nat → Int} {v v' : FdView} {d start limit : Nat} {f : Int} {memory : Bool}

structure Sound (o : Nat → Int) (v : FdView) : Prop where
  intact : v.corrupt = false
  counted : ∀ d, v.refcount d = o d + v.table.slots d
  cloexec : ∀ i, v.table.cloexec i = true → 0 ≤ i ∧ (v.table.slot i.toNat).isSome
  size : v.table.files.length ≤ 2147483648

/-! ## Slots -/

variable {t : FdTable} {i n size : Nat} {x : Option Nat} {max : Int}

theorem slot_of_lt (hi : i < t.files.length) : t.files[i]? = some (t.slot i) := by
  unfold FdTable.slot
  rw [List.getElem?_eq_getElem hi]
  rfl

theorem slot_of_le (hi : t.files.length ≤ i) : t.slot i = none := by
  unfold FdTable.slot
  rw [List.getElem?_eq_none hi]
  rfl

theorem slot_set (hn : n < t.files.length) :
    ({ t with files := t.files.set n x } : FdTable).slot i = if i = n then x else t.slot i := by
  unfold FdTable.slot
  dsimp only
  rw [List.getElem?_set]
  by_cases hi : i = n
  · subst hi
    rw [if_pos rfl, if_pos hn, if_pos rfl]
    rfl
  · rw [if_neg (fun h => hi h.symm), if_neg hi]

theorem slots_set (hn : n < t.files.length) (d : Nat) :
    ({ t with files := t.files.set n x } : FdTable).slots d =
      t.slots d - (if t.slot n = some d then 1 else 0) + if x = some d then 1 else 0 := by
  have hslot : t.files[n] = t.slot n := by
    rw [← Option.some.injEq, ← slot_of_lt hn, List.getElem?_eq_getElem hn]
  have hpos : t.slot n = some d → 0 < t.files.count (some d) := fun h =>
    List.count_pos_iff.mpr (h ▸ hslot ▸ List.getElem_mem hn)
  unfold FdTable.slots
  dsimp only
  rw [List.count_set hn, hslot]
  simp only [beq_iff_eq]
  split_ifs with h1 h2 h2
  · have := hpos h1
    omega
  · have := hpos h1
    omega
  · omega
  · omega

theorem slots_eq_zero (h : ∀ i, t.slot i = none) (d : Nat) : t.slots d = 0 := by
  unfold FdTable.slots
  rw [List.count_eq_zero.mpr]
  · rfl
  intro hmem
  obtain ⟨i, hi, hget⟩ := List.getElem_of_mem hmem
  have hslot := slot_of_lt hi
  rw [List.getElem?_eq_getElem hi, hget, h i] at hslot
  cases hslot

/-! ## What the calls are made of -/

theorem get_some (h : v.get f = some d) :
    0 ≤ f ∧ f < v.table.files.length ∧ v.table.slot f.toNat = some d := by
  unfold get at h
  split at h
  · cases h
  · exact ⟨by omega, by omega, h⟩

theorem get_of_slot : v.get i = v.table.slot i := by
  unfold get
  split
  case isTrue h => exact (slot_of_le (by omega)).symm
  case isFalse => rfl

theorem sound_retain (h : Sound o v) (d : Nat) : Sound (bump d 1 o) (v.retain d) := by
  refine ⟨h.intact, fun e => ?_, h.cloexec, h.size⟩
  have hc := h.counted e
  show bump d 1 v.refcount e = bump d 1 o e + v.table.slots e
  unfold bump
  split <;> omega

theorem sound_fdClose (h : Sound (bump d 1 o) v) : Sound o (v.fdClose d) := by
  refine ⟨h.intact, fun e => ?_, h.cloexec, h.size⟩
  have hc := h.counted e
  show bump d (-1) v.refcount e = o e + v.table.slots e
  unfold bump at hc ⊢
  split at hc <;> split <;> omega

theorem store_of_lt (h0 : 0 ≤ f) (h1 : f < v.table.files.length) :
    v.store f x = { v with table := { v.table with files := v.table.files.set f.toNat x } } :=
  if_pos ⟨h0, h1⟩

theorem slot_store (h0 : 0 ≤ f) (h1 : f < v.table.files.length) (i : Nat) :
    (v.store f x).table.slot i = if i = f.toNat then x else v.table.slot i := by
  rw [store_of_lt h0 h1]
  exact slot_set (by omega)

theorem sound_store (h : Sound (bump d 1 o) v) (h0 : 0 ≤ f) (h1 : f < v.table.files.length)
    (hempty : v.table.slot f.toNat = none) : Sound o (v.store f (some d)) := by
  have hlt : f.toNat < v.table.files.length := by omega
  refine ⟨?_, fun e => ?_, fun i hi => ?_, ?_⟩
  · rw [store_of_lt h0 h1]
    exact h.intact
  · have hc := h.counted e
    rw [store_of_lt h0 h1]
    dsimp only
    rw [slots_set hlt, hempty, if_neg (by simp), hc]
    unfold bump
    simp only [Option.some.injEq, eq_comm (a := d)]
    split <;> omega
  · rw [slot_store h0 h1]
    rw [store_of_lt h0 h1] at hi
    obtain ⟨hi0, hi1⟩ := h.cloexec i hi
    refine ⟨hi0, ?_⟩
    split
    · rfl
    · exact hi1
  rw [store_of_lt h0 h1]
  dsimp only
  rw [List.length_set]
  exact h.size

theorem sound_setBit (h : Sound o v) {b : Bool}
    (hopen : b = true → 0 ≤ f ∧ (v.table.slot f.toNat).isSome) : Sound o (v.setBit f b) := by
  refine ⟨h.intact, h.counted, fun i hi => ?_, h.size⟩
  have hi' : (if i = f then b else v.table.cloexec i) = true := hi
  split at hi'
  case isTrue hif =>
    rw [hif]
    exact hopen hi'
  case isFalse => exact h.cloexec i hi'

theorem fdtableClose_of_get (h : v.get f = some d) : (v.fdtableClose f).2 = { v with
      table := { v.table with
        files := v.table.files.set f.toNat none
        cloexec := fun i => if i = f then false else v.table.cloexec i }
      refcount := bump d (-1) v.refcount } := by
  obtain ⟨h0, h1, _⟩ := get_some h
  unfold fdtableClose
  rw [h]
  show ((v.fdClose d).store f none).setBit f false = _
  rw [store, if_pos ⟨h0, h1⟩]
  rfl

theorem fdtableClose_of_none (h : v.get f = none) : (v.fdtableClose f).2 = v := by
  unfold fdtableClose
  rw [h]

theorem slot_fdtableClose (f : Int) (i : Nat) : (v.fdtableClose f).2.table.slot i =
      if (v.get f).isSome ∧ i = f.toNat then none else v.table.slot i := by
  cases hget : v.get f with
  | none =>
    rw [fdtableClose_of_none hget]
    rfl
  | some d =>
    obtain ⟨h0, h1, _⟩ := get_some hget
    rw [fdtableClose_of_get hget]
    simp only [Option.isSome_some, true_and]
    exact slot_set (t := v.table) (by omega)

theorem length_fdtableClose (v : FdView) (f : Int) :
    (v.fdtableClose f).2.table.files.length = v.table.files.length := by
  cases hget : v.get f with
  | none => rw [fdtableClose_of_none hget]
  | some d =>
    rw [fdtableClose_of_get hget]
    exact List.length_set

theorem sound_fdtableClose (h : Sound o v) (f : Int) : Sound o (v.fdtableClose f).2 := by
  have hslot := fun i => slot_fdtableClose (v := v) f i
  have hlen := length_fdtableClose v f
  cases hget : v.get f with
  | none =>
    rw [fdtableClose_of_none hget]
    exact h
  | some d =>
    obtain ⟨h0, h1, hopen⟩ := get_some hget
    have hlt : f.toNat < v.table.files.length := by omega
    refine ⟨?_, fun e => ?_, fun i hi => ?_, ?_⟩
    · rw [fdtableClose_of_get hget]
      exact h.intact
    · have hc := h.counted e
      have hset := slots_set (t := v.table) (x := none) hlt e
      rw [hopen] at hset
      rw [fdtableClose_of_get hget]
      show bump d (-1) v.refcount e =
        o e + ({ v.table with files := v.table.files.set f.toNat none } : FdTable).slots e
      rw [hset]
      unfold bump
      rw [hc]
      simp only [Option.some.injEq, eq_comm (a := d), reduceCtorEq, if_false]
      split <;> omega
    · rw [fdtableClose_of_get hget] at hi
      have hi' : (if i = f then false else v.table.cloexec i) = true := hi
      split at hi'
      · cases hi'
      case isFalse hif =>
        obtain ⟨hi0, hi1⟩ := h.cloexec i hi'
        refine ⟨hi0, ?_⟩
        rw [hslot, if_neg (fun hc => hif (by omega))]
        exact hi1
    · rw [hlen]
      exact h.size

/-! ## New descriptors -/

theorem slot_expand (v : FdView) (max : Int) (limit : Nat) (memory : Bool) (i : Nat) :
    (v.fdtableExpand max limit memory).2.table.slot i = v.table.slot i := by
  unfold fdtableExpand
  dsimp only
  split
  · rfl
  split
  · rfl
  split
  · rfl
  unfold FdTable.slot
  dsimp only
  rw [List.getElem?_append]
  split
  · rfl
  case isFalse hi =>
    rw [List.getElem?_eq_none (Nat.le_of_not_lt hi), List.getElem?_replicate]
    split <;> rfl

theorem slots_expand (v : FdView) (max : Int) (limit : Nat) (memory : Bool) (d : Nat) :
    (v.fdtableExpand max limit memory).2.table.slots d = v.table.slots d := by
  unfold fdtableExpand
  dsimp only
  split
  · rfl
  split
  · rfl
  split
  · rfl
  unfold FdTable.slots
  dsimp only
  rw [List.count_append, List.count_replicate]
  rfl

theorem toUInt32_of_int (h0 : 0 ≤ max) (h1 : max < 2147483648) :
    toUInt32 (max + 1) = max.toNat + 1 := by
  unfold toUInt32
  rw [Int.emod_eq_of_lt (by omega) (by omega)]
  omega

theorem length_expand (h0 : 0 ≤ max) (h1 : max < 2147483648) (limit : Nat) (memory : Bool) :
    v.table.files.length ≤ (v.fdtableExpand max limit memory).2.table.files.length ∧
      ((v.fdtableExpand max limit memory).2.table.files.length ≤ v.table.files.length ∨
        (v.fdtableExpand max limit memory).2.table.files.length = max.toNat + 1) ∧
      (0 ≤ (v.fdtableExpand max limit memory).1 →
        max < (v.fdtableExpand max limit memory).2.table.files.length) := by
  have hsize := toUInt32_of_int h0 h1
  unfold fdtableExpand
  dsimp only
  rw [hsize]
  split
  · refine ⟨Nat.le_refl _, .inl (Nat.le_refl _), fun h => ?_⟩
    exact absurd h (show ¬ 0 ≤ eMFILE by decide)
  split
  · exact ⟨Nat.le_refl _, .inl (Nat.le_refl _), fun _ => by dsimp only; omega⟩
  split
  · exact ⟨Nat.le_refl _, .inl (Nat.le_refl _), fun h => absurd h (show ¬ (0 : Int) ≤ -12 by decide)⟩
  dsimp only
  rw [List.length_append, List.length_replicate]
  exact ⟨by omega, .inr (by omega), fun _ => by omega⟩

theorem expand_result (v : FdView) {f : Nat} (hf : f < 2147483648) (limit : Nat) (memory : Bool) :
    (v.fdtableExpand f limit memory).1 < 0 ∨ (v.fdtableExpand f limit memory).1 = 0 ∧ f < limit := by
  have hsize := toUInt32_of_int (Int.natCast_nonneg f) (by omega)
  rw [Int.toNat_natCast] at hsize
  unfold fdtableExpand
  dsimp only
  rw [hsize]
  split_ifs
  · exact .inl (show eMFILE < 0 by decide)
  · exact .inr ⟨rfl, by omega⟩
  · exact .inl (show (-12 : Int) < 0 by decide)
  · exact .inr ⟨rfl, by omega⟩

theorem sound_expand (h : Sound o v) (h0 : 0 ≤ max) (h1 : max < 2147483648) (limit : Nat)
    (memory : Bool) : Sound o (v.fdtableExpand max limit memory).2 := by
  have hlen := length_expand (v := v) h0 h1 limit memory
  have hslot := slot_expand v max limit memory
  refine ⟨?_, fun d => ?_, fun i hi => ?_, ?_⟩
  · rw [← h.intact]
    unfold fdtableExpand
    dsimp only
    split_ifs <;> rfl
  · rw [slots_expand, ← h.counted d]
    unfold fdtableExpand
    dsimp only
    split_ifs <;> rfl
  · rw [hslot]
    refine h.cloexec i ?_
    unfold fdtableExpand at hi
    dsimp only at hi
    split_ifs at hi
    · exact hi
    · exact hi
    · exact hi
    · exact (Bool.and_eq_true _ _ ▸ hi).2
  · have hsize := h.size
    omega

theorem expand_failed (h : (v.fdtableExpand max limit memory).1 < 0) :
    (v.fdtableExpand max limit memory).2 = v := by
  unfold fdtableExpand at h ⊢
  dsimp only at h ⊢
  split_ifs at h ⊢
  · rfl
  · rfl
  · rfl
  · exact absurd h (show ¬ (0 : Int) < 0 by decide)

theorem firstFree_ge (files : List (Option Nat)) (start size : Nat) :
    start ≤ firstFree files start size := Nat.le_add_right _ _

theorem firstFree_passed (hsize : size ≤ t.files.length) (hi : start ≤ i)
    (hlt : i < firstFree t.files start size) : (t.slot i).isSome := by
  unfold firstFree at hlt
  have hidx : i - start < ((t.files.take size).drop start).findIdx Option.isNone := by omega
  have hlen := Nat.lt_of_lt_of_le hidx List.findIdx_le_length
  have hnot := List.not_of_lt_findIdx hidx
  rw [List.getElem_drop, List.getElem_take] at hnot
  rw [List.length_drop, List.length_take] at hlen
  have hslot := slot_of_lt (t := t) (i := i) (by omega)
  rw [List.getElem?_eq_getElem (by omega)] at hslot
  rw [← Option.some.inj hslot]
  simp only [show start + (i - start) = i by omega] at hnot
  simpa using hnot

theorem firstFree_free (hsize : size ≤ t.files.length)
    (hlt : firstFree t.files start size < size) : t.slot (firstFree t.files start size) = none := by
  have hidx : ((t.files.take size).drop start).findIdx Option.isNone <
      ((t.files.take size).drop start).length := by
    unfold firstFree at hlt
    rw [List.length_drop, List.length_take]
    omega
  have hfree := List.findIdx_getElem (w := hidx)
  rw [List.getElem_drop, List.getElem_take] at hfree
  have hslot := slot_of_lt (t := t) (i := firstFree t.files start size) (by omega)
  rw [List.getElem?_eq_getElem (by omega)] at hslot
  rw [← Option.some.inj hslot]
  exact Option.isNone_iff_eq_none.mp hfree

def Placed (v v' : FdView) (d f : Nat) : Prop :=
  ∀ i, v'.table.slot i = if i = f then some d else v.table.slot i

structure Found (t : FdTable) (start f : Nat) : Prop where
  start_le : start ≤ f
  empty : t.slot f = none
  passed : ∀ i, start ≤ i → i < f → (t.slot i).isSome

theorem toUInt32_natCast (hn : n < 4294967296) : toUInt32 n = n := by
  unfold toUInt32
  rw [Int.emod_eq_of_lt (by omega) (by omega)]
  omega

theorem toInt32_natCast (hn : n < 2147483648) : toInt32 n = n := by
  unfold toInt32
  rw [Int.emod_eq_of_lt (by omega) (by omega)]
  omega

theorem found_of_search (hs : v.table.Searchable start limit)
    (hroom : v.searchSize limit ≤ firstFree v.table.files start (v.searchSize limit) →
      firstFree v.table.files start (v.searchSize limit) < limit) :
    Found v.table start (firstFree v.table.files start (v.searchSize limit)) := by
  have hsize : v.searchSize limit ≤ v.table.files.length := Nat.min_le_right _ _
  refine ⟨firstFree_ge _ _ _, ?_, fun i hi hlt => firstFree_passed hsize hi hlt⟩
  by_cases hlt : firstFree v.table.files start (v.searchSize limit) < v.searchSize limit
  · exact firstFree_free hsize hlt
  · -- the search went up to the size of the table, not only up to the limit
    have hless := hroom (Nat.le_of_not_lt hlt)
    refine slot_of_le ?_
    rcases hs.1 with hlim | hlim
    · have htrunc : toUInt32 limit = limit := toUInt32_natCast hlim
      unfold searchSize at hlt hless ⊢
      rw [htrunc] at hlt hless ⊢
      omega
    unfold searchSize at hlt ⊢
    rw [Nat.min_eq_right hlim] at hlt ⊢
    exact Nat.le_of_not_lt hlt

theorem installAt_spec {f : Nat} (h : Sound (bump d 1 o) v) (hint : f < 2147483648)
    (hsize : size ≤ v.table.files.length)
    (hempty : (size ≤ f → f < limit) → v.table.slot f = none) (memory : Bool) :
    Sound o (v.installAt d size f limit memory).2 ∧ (((v.installAt d size f limit memory).1 < 0 ∧
          ∀ i, (v.installAt d size f limit memory).2.table.slot i = v.table.slot i) ∨
        ((v.installAt d size f limit memory).1 = f ∧ (size ≤ f → f < limit) ∧
          Placed v (v.installAt d size f limit memory).2 d f)) := by
  have hf0 : (0 : Int) ≤ f := Int.natCast_nonneg f
  have hwide : toUInt32 f = f := toUInt32_natCast (by omega)
  unfold installAt
  rw [hwide]
  by_cases hge : size ≤ f
  case neg =>
    have hin : (f : Int) < v.table.files.length := by omega
    have hno : size ≤ f → f < limit := fun hc => absurd hc hge
    rw [if_neg hge]
    dsimp only
    rw [if_pos hf0]
    refine ⟨sound_setBit (sound_store h hf0 hin (hempty hno)) (fun hc => by cases hc),
      .inr ⟨rfl, hno, fun i => slot_store hf0 hin i⟩⟩
  case pos =>
    have hsound := sound_expand h hf0 (by omega) limit memory
    have hslot := slot_expand v f limit memory
    have hlen := (length_expand (v := v) hf0 (by omega) limit memory).2.2
    rw [if_pos hge]
    dsimp only
    rcases expand_result v hint limit memory with herr | ⟨herr, hless⟩
    · rw [if_pos herr, if_neg (Int.not_le.mpr herr)]
      exact ⟨sound_fdClose hsound, .inl ⟨herr, hslot⟩⟩
    have hin := hlen (by omega)
    have hnone := hempty fun _ => hless
    rw [herr, if_neg (Int.lt_irrefl 0), if_pos hf0]
    refine ⟨sound_setBit (sound_store hsound hf0 hin ((hslot f).trans hnone))
      (fun hc => by cases hc), .inr ⟨rfl, fun _ => hless, fun i => ?_⟩⟩
    rw [← hslot i]
    exact slot_store hf0 hin i

theorem fInstallStart_spec (h : Sound (bump d 1 o) v) (hs : v.table.Searchable start limit) (memory : Bool) :
    Sound o (v.fInstallStart d start limit memory).2 ∧
      (((v.fInstallStart d start limit memory).1 < 0 ∧
          ∀ i, (v.fInstallStart d start limit memory).2.table.slot i = v.table.slot i) ∨
        ∃ f : Nat, (v.fInstallStart d start limit memory).1 = f ∧ Found v.table start f ∧
          Placed v (v.fInstallStart d start limit memory).2 d f) := by
  have hint : firstFree v.table.files start (v.searchSize limit) < 2147483648 := hs.2
  unfold fInstallStart
  rw [toInt32_natCast hint]
  obtain ⟨hsound, hres⟩ := installAt_spec h hint (Nat.min_le_right _ _)
    (fun hroom => (found_of_search hs hroom).empty) memory
  refine ⟨hsound, ?_⟩
  rcases hres with hfail | ⟨hf, hroom, hplaced⟩
  · exact .inl hfail
  · exact .inr ⟨_, hf, found_of_search hs hroom, hplaced⟩

theorem fInstall_spec (h : Sound (bump d 1 o) v) (hs : v.table.Searchable 0 limit) (cloexec memory : Bool) :
    Sound o (v.fInstall d limit cloexec memory).2 ∧ (((v.fInstall d limit cloexec memory).1 < 0 ∧
          ∀ i, (v.fInstall d limit cloexec memory).2.table.slot i = v.table.slot i) ∨
        ∃ f : Nat, (v.fInstall d limit cloexec memory).1 = f ∧ Found v.table 0 f ∧
          Placed v (v.fInstall d limit cloexec memory).2 d f) := by
  obtain ⟨hsound, hres⟩ := fInstallStart_spec h hs memory
  unfold fInstall
  dsimp only
  rcases hres with ⟨hneg, hslot⟩ | ⟨f, hf, hfound, hplaced⟩
  · rw [if_neg (fun hc => absurd hc.1 (Int.not_le.mpr hneg))]
    exact ⟨hsound, .inl ⟨hneg, hslot⟩⟩
  split
  · refine ⟨sound_setBit hsound fun _ => ?_, .inr ⟨f, hf, hfound, hplaced⟩⟩
    rw [hf, Int.toNat_natCast, hplaced f, if_pos rfl]
    exact ⟨Int.natCast_nonneg f, rfl⟩
  · exact ⟨hsound, .inr ⟨f, hf, hfound, hplaced⟩⟩

theorem fInstallStart_room (hs : v.table.Searchable start limit)
    (hroom : v.table.HasRoom start limit memory) : 0 ≤ (v.fInstallStart d start limit memory).1 := by
  have hint : firstFree v.table.files start (v.searchSize limit) < 2147483648 := hs.2
  have hroom' : firstFree v.table.files start (v.searchSize limit) < v.searchSize limit ∨
      (firstFree v.table.files start (v.searchSize limit) < limit ∧
        (firstFree v.table.files start (v.searchSize limit) < v.table.files.length ∨ memory)) := hroom
  unfold fInstallStart
  rw [toInt32_natCast hint]
  generalize firstFree v.table.files start (v.searchSize limit) = f at hint hroom' ⊢
  unfold installAt
  rw [toUInt32_natCast (by omega)]
  by_cases hge : v.searchSize limit ≤ f
  case neg =>
    rw [if_neg hge]
    dsimp only
    rw [if_pos (Int.natCast_nonneg f)]
    exact Int.natCast_nonneg f
  case pos =>
    obtain ⟨hless, hmem⟩ := hroom'.resolve_left (Nat.not_lt.mpr hge)
    have hexp : (v.fdtableExpand f limit memory).1 = 0 := by
      have hsize := toUInt32_of_int (Int.natCast_nonneg f) (by omega)
      rw [Int.toNat_natCast] at hsize
      unfold fdtableExpand
      dsimp only
      rw [hsize, if_neg (by omega)]
      split
      · rfl
      rw [if_neg]
      have hmem' : memory = true := hmem.resolve_left (by omega)
      simp [hmem']
    rw [if_pos hge]
    dsimp only
    rw [hexp, if_neg (Int.lt_irrefl 0), if_pos (Int.natCast_nonneg f)]
    exact Int.natCast_nonneg f

/-! ## The calls -/

def Closes (v v' : FdView) : Prop := ∀ i, v'.table.slot i = v.table.slot i ∨ v'.table.slot i = none

theorem Closes.trans {v'' : FdView} (h : Closes v v') (h' : Closes v' v'') : Closes v v'' := by
  intro i
  rcases h' i with heq | hnone
  · rw [heq]
    exact h i
  · exact .inr hnone

def Spares (v v' : FdView) (target : Option Nat) : Prop :=
  ∀ i, (v.table.slot i).isSome →
    v'.table.slot i = v.table.slot i ∨ v'.table.slot i = none ∨ target = some i

theorem Closes.spares (h : Closes v v') (target : Option Nat) : Spares v v' target := by
  intro i _
  rcases h i with heq | hnone
  · exact .inl heq
  · exact .inr (.inl hnone)

theorem spares_of_eq (h : ∀ i, v'.table.slot i = v.table.slot i) (target : Option Nat) :
    Spares v v' target := fun i _ => .inl (h i)

theorem Placed.spares (h : Placed v v' d n) (hempty : v.table.slot n = none)
    (target : Option Nat) : Spares v v' target := by
  intro i hi
  rw [h i, if_neg (fun hin => by rw [hin, hempty] at hi; cases hi)]
  exact .inl rfl

structure NewSpec (o : Nat → Int) (v : FdView) (start : Nat) (r : Int × FdView) : Prop where
  sound : Sound o r.2
  spares : Spares v r.2 none
  found : ∀ f : Nat, r.1 = f → Found v.table start f

theorem newSpec_of {r : Int × FdView}
    (hr : Sound o r.2 ∧ ((r.1 < 0 ∧ ∀ i, r.2.table.slot i = v.table.slot i) ∨
      ∃ f : Nat, r.1 = f ∧ Found v.table start f ∧ Placed v r.2 d f)) : NewSpec o v start r := by
  obtain ⟨hsound, ⟨hneg, hslot⟩ | ⟨f, hf, hfound, hplaced⟩⟩ := hr
  · exact ⟨hsound, spares_of_eq hslot none, fun f hf => by omega⟩
  refine ⟨hsound, hplaced.spares hfound.empty none, fun f' hf' => ?_⟩
  obtain rfl : f = f' := by omega
  exact hfound

theorem newSpec_failed (h : Sound o v) {err : Int} (herr : err < 0) : NewSpec o v start (err, v) :=
  ⟨h, spares_of_eq (fun _ => rfl) none, fun f hf => by
    have hf' : err = f := hf
    omega⟩

theorem sysDup_spec (h : Sound o v) (f : Int) (memory : Bool)
    (hs : (v.get f).isSome → v.table.Searchable 0 limit) :
    NewSpec o v 0 (v.sysDup f limit memory) := by
  unfold sysDup
  cases hget : v.get f with
  | none => exact newSpec_failed h (by decide)
  | some d => exact newSpec_of (fInstall_spec (sound_retain h d) (hs (by rw [hget]; rfl)) false memory)

theorem sysFcntlDupfd_spec (h : Sound o v) (f arg : Int) (cloexec memory : Bool)
    (hs : (v.get f).isSome → 0 ≤ toInt32 arg → v.table.Searchable (toInt32 arg).toNat limit ∧
      (cloexec → v.table.HasRoom (toInt32 arg).toNat limit memory)) :
    NewSpec o v (toInt32 arg).toNat
      ((v.sysFcntlDupfd f arg limit cloexec memory).getD (-1, v)) := by
  unfold sysFcntlDupfd
  cases hget : v.get f with
  | none => exact newSpec_failed h (by decide)
  | some d =>
    dsimp only
    split
    · exact newSpec_failed h (by decide)
    case isFalse harg =>
      obtain ⟨hsearch, hroom⟩ := hs (by rw [hget]; rfl) (Int.not_lt.mp harg)
      have hspec := fInstallStart_spec (sound_retain h d) hsearch memory
      rw [Option.getD_some]
      cases cloexec with
      | false => exact newSpec_of hspec
      | true =>
        have h0 : 0 ≤ ((v.retain d).fInstallStart d (toInt32 arg).toNat limit memory).1 :=
          fInstallStart_room hsearch (hroom rfl)
        obtain ⟨hsound, ⟨hneg, _⟩ | ⟨n, hn, hfound, hplaced⟩⟩ := hspec
        · omega
        refine newSpec_of (d := d) ⟨sound_setBit hsound fun _ => ⟨h0, ?_⟩,
          .inr ⟨n, hn, hfound, hplaced⟩⟩
        rw [hn, Int.toNat_natCast, hplaced n, if_pos rfl]
        rfl

theorem sysDup3_spec (h : Sound o v) (f : Int) {newF : Int} (cloexec memory : Bool)
    (hnew : newF < 2147483648)
    (hpos : (v.get f).isSome → 0 ≤ (v.fdtableExpand newF limit memory).1 → 0 ≤ newF) :
    Sound o (v.sysDup3 f newF limit cloexec memory).2 ∧
      Spares v (v.sysDup3 f newF limit cloexec memory).2 (some newF.toNat) := by
  unfold sysDup3
  cases hget : v.get f with
  | none => exact ⟨h, spares_of_eq (fun _ => rfl) _⟩
  | some d =>
    dsimp only
    split
    case isTrue herr =>
      rw [expand_failed herr]
      exact ⟨h, spares_of_eq (fun _ => rfl) _⟩
    case isFalse herr =>
      have hok := Int.not_lt.mp herr
      have h0 := hpos (by rw [hget]; rfl) hok
      have hslot := slot_expand v newF limit memory
      have hlt := (length_expand (v := v) h0 hnew limit memory).2.2 hok
      have hexp := sound_retain (sound_expand h h0 hnew limit memory) d
      generalize (v.fdtableExpand newF limit memory).2 = w at hslot hlt hexp ⊢
      have hclosed := sound_fdtableClose hexp newF
      have hlen := length_fdtableClose (w.retain d) newF
      have hcslot := fun i => slot_fdtableClose (v := w.retain d) newF i
      generalize ((w.retain d).fdtableClose newF).2 = u at hclosed hlen hcslot ⊢
      have hin : newF < u.table.files.length := by
        rw [hlen]
        exact hlt
      have hempty : u.table.slot newF.toNat = none := by
        rw [hcslot]
        split
        · rfl
        case isFalse hno =>
          have hget' : (w.retain d).get newF = w.table.slot newF.toNat := by
            rw [← Int.toNat_of_nonneg h0]
            exact get_of_slot
          rw [hget'] at hno
          exact Option.not_isSome_iff_eq_none.mp fun hs => hno ⟨hs, rfl⟩
      have hstore := sound_store hclosed h0 hin hempty
      have hplaced := fun i => slot_store (x := some d) h0 hin i
      have hspares : Spares v (u.store newF (some d)) (some newF.toNat) := by
        intro i hi
        by_cases hin : i = newF.toNat
        · exact .inr (.inr (hin ▸ rfl))
        refine .inl ?_
        rw [hplaced i, if_neg hin, hcslot i, if_neg (fun hc => hin hc.2)]
        exact hslot i
      split
      · refine ⟨sound_setBit hstore fun _ => ⟨h0, ?_⟩, hspares⟩
        rw [hplaced newF.toNat, if_pos rfl]
        rfl
      · exact ⟨hstore, hspares⟩

theorem closes_fdtableClose (v : FdView) (f : Int) : Closes v (v.fdtableClose f).2 := by
  intro i
  rw [slot_fdtableClose]
  split
  · exact .inr rfl
  · exact .inl rfl

theorem closeAll_spec (h : Sound o v) (fs : List Nat) :
    Sound o (v.closeAll fs) ∧ Closes v (v.closeAll fs) ∧
      ∀ i ∈ fs, (v.closeAll fs).table.slot i = none := by
  induction fs generalizing v with
  | nil => exact ⟨h, fun i => .inl rfl, fun i hi => by cases hi⟩
  | cons f fs ih =>
    obtain ⟨hsound, hcloses, hnone⟩ := ih (sound_fdtableClose h f)
    refine ⟨hsound, (closes_fdtableClose v f).trans hcloses, fun i hi => ?_⟩
    rcases List.mem_cons.mp hi with rfl | hi
    · -- closed now, and not opened again
      have hnow : (v.fdtableClose i).2.table.slot i = none := by
        rw [slot_fdtableClose]
        split
        · rfl
        case isFalse hno =>
          rw [get_of_slot, Int.toNat_natCast] at hno
          exact Option.not_isSome_iff_eq_none.mp fun hs => hno ⟨hs, rfl⟩
      rcases hcloses i with heq | hnone'
      · exact heq.trans hnow
      · exact hnone'
    · exact hnone i hi

theorem doCloexecFrom_spec (h : Sound o v) (fs : List Nat) :
    Sound o (v.doCloexecFrom fs) ∧ Closes v (v.doCloexecFrom fs) := by
  induction fs generalizing v with
  | nil => exact ⟨h, fun i => .inl rfl⟩
  | cons f fs ih =>
    rw [doCloexecFrom]
    split
    · obtain ⟨hsound, hcloses⟩ := ih (sound_fdtableClose h f)
      exact ⟨hsound, (closes_fdtableClose v f).trans hcloses⟩
    · exact ih h

theorem cloexecAll_spec (h : Sound o v) (fs : List Nat) :
    Sound o (v.cloexecAll fs) ∧ Closes v (v.cloexecAll fs) := by
  induction fs generalizing v with
  | nil => exact ⟨h, fun i => .inl rfl⟩
  | cons f fs ih =>
    rw [cloexecAll]
    split
    case isTrue hopen =>
      exact ih (sound_setBit h fun _ => ⟨Int.natCast_nonneg f, by rw [Int.toNat_natCast]; exact hopen⟩)
    case isFalse => exact ih h

theorem sysCloseRange_spec (h : Sound o v) (first last : Nat) (cloexec : Bool) :
    Sound o (v.sysCloseRange first last cloexec).2 ∧
      Closes v (v.sysCloseRange first last cloexec).2 := by
  unfold sysCloseRange
  split
  · exact ⟨h, fun i => .inl rfl⟩
  split
  · exact ⟨h, fun i => .inl rfl⟩
  dsimp only
  generalize (if v.table.files.length ≤ last then v.table.files.length - 1 else last) = last
  split
  · exact ⟨h, fun i => .inl rfl⟩
  split
  · exact cloexecAll_spec h _
  · exact ⟨(closeAll_spec h _).1, (closeAll_spec h _).2.1⟩

theorem sysFcntlSetfd_spec (h : Sound o v) (f : Int) (on : Bool) :
    Sound o (v.sysFcntlSetfd f on).2 ∧ Closes v (v.sysFcntlSetfd f on).2 := by
  unfold sysFcntlSetfd
  cases hget : v.get f with
  | none => exact ⟨h, fun i => .inl rfl⟩
  | some d =>
    obtain ⟨h0, _, hopen⟩ := get_some hget
    exact ⟨sound_setBit h fun _ => ⟨h0, by rw [hopen]; rfl⟩, fun i => .inl rfl⟩

end FdView

end IosLinuxkit.Fs
