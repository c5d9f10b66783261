import IosLinuxkit.Kernel.Memory
import Mathlib.Algebra.Ring.Nat
import Mathlib.Data.List.Flatten

/-!
# The reservation list as a partial map

`mem_remove_reservations` and `mem_set_reservation_flags` edit a list of disjoint ranges; what the
list stands for is the partial map from pages to flags that `mem_find_reservation` reads
(`reservedFlags`).

* **`reservations_exact_iff`** — exactly when each of the two does what it is for.
-/

namespace IosLinuxkit.Kernel

variable {start stop p a b : Nat} {flags f : Flags} {r q : Reservation} {rs rs' : List Reservation}
  {h : Host}

/-! ## Lists of ranges -/

def Reservation.Covers (r : Reservation) (p : Nat) : Prop := r.start ≤ p ∧ p < r.stop

instance (r : Reservation) (p : Nat) : Decidable (r.Covers p) :=
  inferInstanceAs (Decidable (_ ∧ _))

theorem Reservation.covers_iff : r.Covers p ↔ r.start ≤ p ∧ p < r.stop := Iff.rfl

def flagsAt (rs : List Reservation) (p : Nat) : Option Flags :=
  (rs.find? fun r => r.Covers p).map Reservation.flags

/-- The partial map an address space's reservations stand for. -/
def reservedFlags (m : Mem) (p : Nat) : Option Flags :=
  (memFindReservation m p).map Reservation.flags

/-- Ranges that are not empty and share no page. -/
structure GoodReservations (rs : List Reservation) : Prop where
  nonempty : ∀ r ∈ rs, r.start < r.stop
  disjoint : rs.Pairwise fun a b => a.stop ≤ b.start ∨ b.stop ≤ a.start

theorem stop_le (r : Reservation) (hr : r.start < r.stop) : r.stop ≤ memPages := by
  unfold Reservation.stop pageRangeEnd at *
  split_ifs at * <;> omega

theorem reservedFlags_eq (m : Mem) (p : Nat) : reservedFlags m p = flagsAt m.reservations p := by
  have hsame : (fun r : Reservation => decide (r.pages ≠ 0 ∧ r.start ≤ p ∧ p < r.stop)) =
      fun r => decide (r.Covers p) := by
    funext r
    refine decide_eq_decide.mpr ⟨And.right, fun hr => ⟨fun h0 => ?_, hr⟩⟩
    have hstop : r.stop = r.start := if_pos h0
    have hlt := Nat.lt_of_le_of_lt hr.1 hr.2
    omega
  unfold reservedFlags flagsAt memFindReservation
  rw [hsame]

theorem flagsAt_append : flagsAt (rs ++ rs') p = (flagsAt rs p).or (flagsAt rs' p) := by
  unfold flagsAt
  rw [List.find?_append, Option.map_or]

theorem flagsAt_cons : flagsAt (r :: rs) p = if r.Covers p then some r.flags else flagsAt rs p := by
  unfold flagsAt
  rw [List.find?_cons]
  split_ifs with hr <;> simp [hr]

@[simp] theorem flagsAt_nil : flagsAt [] p = none := rfl

theorem flagsAt_eq_none (hr : ∀ r ∈ rs, ¬ r.Covers p) : flagsAt rs p = none := by
  unfold flagsAt
  rw [Option.map_eq_none_iff, List.find?_eq_none]
  exact fun r hmem => by simpa using hr r hmem

theorem flagsAt_isSome (hmem : r ∈ rs) (hr : r.Covers p) : (flagsAt rs p).isSome := by
  unfold flagsAt
  rw [Option.isSome_map, List.find?_isSome]
  exact ⟨r, hmem, decide_eq_true hr⟩

theorem flagsAt_of_mem (hg : GoodReservations rs) (hmem : r ∈ rs) (hr : r.Covers p) :
    flagsAt rs p = some r.flags := by
  induction rs with
  | nil => exact absurd hmem (by simp)
  | cons q rs ih =>
    obtain ⟨hq, hdis⟩ := List.pairwise_cons.mp hg.disjoint
    rw [flagsAt_cons]
    rcases List.mem_cons.mp hmem with rfl | hmem'
    · rw [if_pos hr]
    have hnot : ¬ q.Covers p := by
      intro hc
      have hsep := hq r hmem'
      simp only [Reservation.Covers] at hc hr
      omega
    rw [if_neg hnot]
    exact ih ⟨fun s hs => hg.nonempty s (.tail _ hs), hdis⟩ hmem'

/-- The reservation of the pages from `a` up to `b`. -/
def piece (a b : Nat) (f : Flags) : Reservation := ⟨a, b - a, f⟩

/-- The pages from `a` up to `b`, if there are any. -/
def pieces (a b : Nat) (f : Flags) : List Reservation := if a < b then [piece a b f] else []

theorem piece_stop (hab : a < b) (hb : b ≤ memPages) : (piece a b f).stop = b := by
  have hn : b - a ≠ 0 := by omega
  have hs : ¬ (a ≥ memPages ∨ b - a > memPages - a) := by omega
  show pageRangeEnd a (b - a) = b
  unfold pageRangeEnd
  rw [if_neg hn, if_neg hs]
  omega

theorem mem_pieces (hb : b ≤ memPages) (hr : r ∈ pieces a b f) :
    a < b ∧ r.start = a ∧ r.stop = b := by
  unfold pieces at hr
  split at hr
  case isTrue hab =>
    rw [List.mem_singleton.mp hr]
    exact ⟨hab, rfl, piece_stop hab hb⟩
  case isFalse => exact absurd hr (by simp)

theorem flagsAt_pieces (hb : b ≤ memPages) :
    flagsAt (pieces a b f) p = if a ≤ p ∧ p < b then some f else none := by
  unfold pieces
  split
  case isTrue hab =>
    have hcov : (piece a b f).Covers p ↔ a ≤ p ∧ p < b := by
      rw [Reservation.covers_iff, piece_stop hab hb]
      exact Iff.rfl
    rw [flagsAt_cons, flagsAt_nil]
    exact if_congr hcov rfl rfl
  case isFalse hab => rw [flagsAt_nil, if_neg (by omega)]

theorem goodReservations_pieces (hb : b ≤ memPages) : GoodReservations (pieces a b f) := by
  refine ⟨fun r hr => ?_, ?_⟩
  · obtain ⟨hab, hs, he⟩ := mem_pieces hb hr
    omega
  · unfold pieces
    split <;> simp

structure Parts (r : Reservation) (ps : List Reservation) : Prop where
  within : ∀ s ∈ ps, r.start ≤ s.start ∧ s.stop ≤ r.stop
  good : GoodReservations ps

theorem goodReservations_append {as bs : List Reservation} :
    GoodReservations (as ++ bs) ↔ GoodReservations as ∧ GoodReservations bs ∧
      ∀ a ∈ as, ∀ b ∈ bs, a.stop ≤ b.start ∨ b.stop ≤ a.start := by
  constructor
  · intro hg
    obtain ⟨h1, h2, h3⟩ := List.pairwise_append.mp hg.disjoint
    exact ⟨⟨fun r hr => hg.nonempty r (List.mem_append_left _ hr), h1⟩,
      ⟨fun r hr => hg.nonempty r (List.mem_append_right _ hr), h2⟩, h3⟩
  rintro ⟨h1, h2, h3⟩
  refine ⟨fun r hr => ?_, List.pairwise_append.mpr ⟨h1.disjoint, h2.disjoint, h3⟩⟩
  exact (List.mem_append.mp hr).elim (h1.nonempty r) (h2.nonempty r)

variable {g : Reservation → List Reservation} {pages : Nat}

theorem good_flatMap
    (hparts : ∀ r ∈ rs, r.start < r.stop → Parts r (g r)) (hg : GoodReservations (rs ++ rs')) :
    GoodReservations (rs.flatMap g ++ rs') := by
  induction rs with
  | nil => exact hg
  | cons r rs ih =>
    have hr : r.start < r.stop := hg.nonempty r (.head _)
    have hhead := hparts r (.head _) hr
    obtain ⟨hdis, -⟩ := List.pairwise_cons.mp hg.disjoint
    have htail : GoodReservations (rs ++ rs') :=
      ⟨fun s hs => hg.nonempty s (.tail _ hs), (List.pairwise_cons.mp hg.disjoint).2⟩
    rw [List.flatMap_cons, List.append_assoc, goodReservations_append]
    refine ⟨hhead.good, ih (fun s hs => hparts s (.tail _ hs)) htail, fun s hs t ht => ?_⟩
    -- `t` is a part of a later reservation, which shares no page with `r`
    have hout : r.stop ≤ t.start ∨ t.stop ≤ r.start := by
      rcases List.mem_append.mp ht with ht | ht
      · obtain ⟨u, hu, htu⟩ := List.mem_flatMap.mp ht
        have hsep := hdis u (List.mem_append_left _ hu)
        have hin := (hparts u (.tail _ hu)
          (hg.nonempty u (.tail _ (List.mem_append_left _ hu)))).within t htu
        omega
      · exact hdis t (List.mem_append_right _ ht)
    have hin := hhead.within s hs
    omega

theorem good_flatMap_all
    (hparts : ∀ r ∈ rs, r.start < r.stop → Parts r (g r)) (hg : GoodReservations rs) :
    GoodReservations (rs.flatMap g) := by
  have hall := good_flatMap hparts (by rwa [List.append_nil] : GoodReservations (rs ++ []))
  rwa [List.append_nil] at hall

theorem flatMap_id (hg : ∀ r ∈ rs, g r = [r]) : rs.flatMap g = rs := by
  induction rs with
  | nil => rfl
  | cons r rs ih =>
    rw [List.flatMap_cons, hg r (.head _), ih fun s hs => hg s (.tail _ hs)]
    rfl

/-! ## `mem_remove_reservations` -/

def Overlaps (start stop : Nat) (r : Reservation) : Prop := r.start < stop ∧ start < r.stop

instance (start stop : Nat) (r : Reservation) : Decidable (Overlaps start stop r) :=
  inferInstanceAs (Decidable (_ ∧ _))

/-- The reservation sticks out of the range on both sides. -/
def Contains (start stop : Nat) (r : Reservation) : Prop := r.start < start ∧ stop < r.stop

instance (start stop : Nat) (r : Reservation) : Decidable (Contains start stop r) :=
  inferInstanceAs (Decidable (_ ∧ _))

def leftOver (start stop : Nat) (r : Reservation) : List Reservation :=
  if Overlaps start stop r then pieces r.start start r.flags ++ pieces stop r.stop r.flags
  else [r]

theorem goodReservations_singleton (hr : r.start < r.stop) : GoodReservations [r] :=
  ⟨by simpa using hr, by simp⟩

theorem parts_leftOver (hss : start ≤ stop) (hr : r.start < r.stop) :
    Parts r (leftOver start stop r) := by
  have hle := stop_le r hr
  unfold leftOver
  split
  case isFalse => exact ⟨by simp, goodReservations_singleton hr⟩
  case isTrue ho =>
    have hstart : start ≤ memPages := Nat.le_trans (Nat.le_of_lt ho.2) hle
    obtain ⟨ho1, ho2⟩ := ho
    refine ⟨fun s hs => ?_, goodReservations_append.mpr
      ⟨goodReservations_pieces hstart, goodReservations_pieces hle, fun s hs t ht => ?_⟩⟩
    · rcases List.mem_append.mp hs with hs | hs
      · obtain ⟨-, h1, h2⟩ := mem_pieces hstart hs
        omega
      · obtain ⟨-, h1, h2⟩ := mem_pieces hle hs
        omega
    obtain ⟨-, -, h2⟩ := mem_pieces hstart hs
    obtain ⟨-, h3, h4⟩ := mem_pieces hle ht
    omega

theorem flagsAt_leftOver (hr : r.start < r.stop) : flagsAt (leftOver start stop r) p =
      if r.Covers p ∧ ¬ (start ≤ p ∧ p < stop) then some r.flags else none := by
  have hle := stop_le r hr
  unfold leftOver
  split
  case isFalse ho =>
    rw [flagsAt_cons, flagsAt_nil]
    refine if_congr ⟨fun hc => ⟨hc, fun hin => ?_⟩, And.left⟩ rfl rfl
    simp only [Overlaps, Reservation.Covers] at ho hc
    omega
  case isTrue ho =>
    have hstart : start ≤ memPages := Nat.le_trans (Nat.le_of_lt ho.2) hle
    obtain ⟨ho1, ho2⟩ := ho
    rw [flagsAt_append, flagsAt_pieces hstart, flagsAt_pieces hle]
    by_cases h1 : r.start ≤ p ∧ p < start
    · rw [if_pos h1, Option.some_or, if_pos (by rw [Reservation.covers_iff]; omega)]
    · rw [if_neg h1, Option.none_or]
      exact if_congr (by rw [Reservation.covers_iff]; omega) rfl rfl

theorem flagsAt_flatMap_leftOver (hne : ∀ r ∈ rs, r.start < r.stop) :
    flagsAt (rs.flatMap (leftOver start stop)) p =
      if start ≤ p ∧ p < stop then none else flagsAt rs p := by
  induction rs with
  | nil => simp
  | cons r rs ih =>
    rw [List.flatMap_cons, flagsAt_append, flagsAt_leftOver (hne r (.head _)),
      ih fun s hs => hne s (.tail _ hs), flagsAt_cons]
    by_cases hin : start ≤ p ∧ p < stop
    · simp [hin]
    · by_cases hc : r.Covers p <;> simp [hin, hc]

theorem removeReservations_cons (hn : ¬ Contains start stop r) :
    removeReservations start stop h (r :: rs) = ((removeReservations start stop h rs).1,
        leftOver start stop r ++ (removeReservations start stop h rs).2) := by
  rw [removeReservations]
  unfold Contains at hn
  by_cases ho : Overlaps start stop r
  · have ho' : ¬ (r.start ≥ stop ∨ r.stop ≤ start) := by
      unfold Overlaps at ho
      omega
    rw [if_neg ho', leftOver, if_pos ho]
    by_cases hb : r.start < start
    · have ha : ¬ stop < r.stop := fun ha => hn ⟨hb, ha⟩
      rw [if_neg (by omega), if_neg hn, if_pos hb]
      simp [pieces, hb, ha, piece]
    by_cases ha : stop < r.stop
    · rw [if_neg (by omega), if_neg hn, if_neg hb]
      simp [pieces, hb, ha, piece]
    · rw [if_pos ⟨by omega, by omega⟩]
      simp [pieces, hb, ha]
  have ho' : r.start ≥ stop ∨ r.stop ≤ start := by
    unfold Overlaps at ho
    omega
  rw [if_pos ho', leftOver, if_neg ho]
  rfl

theorem removeReservations_contains (hss : start < stop) (hc : Contains start stop r) :
    (removeReservations start stop h (r :: rs)).2 =
      (if h.attempt.1 then leftOver start stop r else [r]) ++
        (removeReservations start stop h.attempt.2 rs).2 := by
  have ho : Overlaps start stop r := ⟨Nat.lt_trans hc.1 hss, Nat.lt_trans hss hc.2⟩
  have h1 : ¬ (r.start ≥ stop ∨ r.stop ≤ start) := by
    unfold Overlaps at ho
    omega
  have h2 : ¬ (r.start ≥ start ∧ r.stop ≤ stop) := by
    unfold Contains at hc
    omega
  rw [removeReservations, if_neg h1, if_neg h2,
    if_pos (show r.start < start ∧ r.stop > stop from hc), leftOver, if_pos ho]
  cases hok : h.attempt.1 with
  | true => simp [pieces, piece, hc.1, hc.2, hok]
  | false => simp [hok]

theorem removeReservations_all (hn : ∀ r ∈ rs, ¬ Contains start stop r) :
    removeReservations start stop h rs = (h, rs.flatMap (leftOver start stop)) := by
  induction rs with
  | nil => rfl
  | cons r rs ih =>
    rw [removeReservations_cons (hn r (.head _)),
      ih fun s hs => hn s (.tail _ hs), List.flatMap_cons]

theorem not_contains_of_contains (hss : start < stop)
    (hsep : r.stop ≤ q.start ∨ q.stop ≤ r.start) (hr : Contains start stop r) :
    ¬ Contains start stop q := by
  unfold Contains at *
  omega

theorem removeReservations_eq (hss : start < stop) (hg : GoodReservations rs)
    (hok : ∀ r ∈ rs, Contains start stop r → h.attempt.1 = true) :
    (removeReservations start stop h rs).2 = rs.flatMap (leftOver start stop) := by
  induction rs with
  | nil => rfl
  | cons r rs ih =>
    obtain ⟨hdis, hrest⟩ := List.pairwise_cons.mp hg.disjoint
    have hg' : GoodReservations rs := ⟨fun s hs => hg.nonempty s (.tail _ hs), hrest⟩
    by_cases hc : Contains start stop r
    · rw [removeReservations_contains hss hc, if_pos (hok r (.head _) hc),
        removeReservations_all fun s hs => not_contains_of_contains hss (hdis s hs) hc,
        List.flatMap_cons]
    · rw [removeReservations_cons hc, List.flatMap_cons, ih hg' fun s hs => hok s (.tail _ hs)]

theorem removeReservations_apart (hn : ∀ r ∈ rs, ¬ Overlaps start stop r ∧ ¬ Contains start stop r) :
    (removeReservations start stop h rs).2 = rs := by
  rw [removeReservations_all fun r hr => (hn r hr).2]
  exact flatMap_id fun r hr => if_neg (hn r hr).1

theorem removeReservations_kept (hss : start < stop) (hg : GoodReservations rs) (hr : r ∈ rs)
    (hc : Contains start stop r) (hfail : h.attempt.1 = false) :
    (removeReservations start stop h rs).2 = rs := by
  have hout : ∀ q : Reservation, r.stop ≤ q.start ∨ q.stop ≤ r.start →
      ¬ Overlaps start stop q ∧ ¬ Contains start stop q := by
    intro q hq
    unfold Contains Overlaps at *
    omega
  induction rs with
  | nil => exact absurd hr (by simp)
  | cons s rs ih =>
    obtain ⟨hdis, hrest⟩ := List.pairwise_cons.mp hg.disjoint
    have hg' : GoodReservations rs := ⟨fun s hs => hg.nonempty s (.tail _ hs), hrest⟩
    rcases List.mem_cons.mp hr with rfl | hmem
    · rw [removeReservations_contains hss hc, if_neg (by simp [hfail]),
        removeReservations_apart fun q hq => hout q (hdis q hq)]
      rfl
    obtain ⟨ho, hs⟩ := hout s (hdis r hmem).symm
    rw [removeReservations_cons hs, ih hg' hmem, leftOver, if_neg ho]
    rfl

theorem removeReservations_good (hss : start < stop) (hg : GoodReservations rs) :
    GoodReservations (removeReservations start stop h rs).2 := by
  by_cases hok : ∀ r ∈ rs, Contains start stop r → h.attempt.1 = true
  · rw [removeReservations_eq hss hg hok]
    exact good_flatMap_all (fun r _ hr => parts_leftOver (Nat.le_of_lt hss) hr) hg
  simp only [not_forall] at hok
  obtain ⟨r, hr, hc, hfail⟩ := hok
  rw [removeReservations_kept hss hg hr hc (by simpa using hfail)]
  exact hg

/-! ## `mem_set_reservation_flags` -/

/-- The next `n` host calls succeed. -/
def Host.grants (h : Host) (n : Nat) : Prop := ∀ b ∈ h.script.take n, b = true

instance (h : Host) (n : Nat) : Decidable (h.grants n) :=
  inferInstanceAs (Decidable (∀ b ∈ h.script.take n, b = true))

def Host.skip (h : Host) (n : Nat) : Host := { h with script := h.script.drop n }

theorem attempt_eq (h : Host) : h.attempt.2 = h.skip 1 ∧ (h.attempt.1 = true ↔ h.grants 1) := by
  obtain ⟨datas, bytes, nextData, count, script⟩ := h
  cases script with
  | nil => simp [Host.attempt, Host.skip, Host.grants]
  | cons b rest => simp [Host.attempt, Host.skip, Host.grants]

theorem grants_add (h : Host) (m n : Nat) :
    h.grants (m + n) ↔ h.grants m ∧ (h.skip m).grants n := by
  unfold Host.grants Host.skip
  rw [List.take_add]
  simp only [List.mem_append, or_imp, forall_and]

theorem skip_skip (h : Host) (m n : Nat) : (h.skip m).skip n = h.skip (m + n) := by
  unfold Host.skip
  simp only [List.drop_drop]

/-- The allocations that changing the flags of the range takes at the reservation. -/
def splits (start stop : Nat) (r : Reservation) : Nat :=
  if Overlaps start stop r then
    (if r.start < start then 1 else 0) + (if stop < r.stop then 1 else 0)
  else 0

/-- The flags of a reservation in the range: the requested ones and the anonymous bit. -/
def reflagged (flags old : Flags) : Flags := flags ||| (old &&& Flags.anonymous)

def middle (start stop : Nat) (flags : Flags) (r : Reservation) : Reservation :=
  if r.start < start ∨ stop < r.stop then
    piece (max r.start start) (min r.stop stop) (reflagged flags r.flags)
  else { r with flags := reflagged flags r.flags }

/-- What stands for a reservation after its flags were changed in the range. -/
def reflag (start stop : Nat) (flags : Flags) (r : Reservation) : List Reservation :=
  if Overlaps start stop r then
    pieces r.start start r.flags ++ middle start stop flags r :: pieces stop r.stop r.flags
  else [r]

theorem middle_stop (flags : Flags) (hss : start < stop) (hr : r.start < r.stop) (ho : Overlaps start stop r) :
    (middle start stop flags r).start = max r.start start ∧
      (middle start stop flags r).stop = min r.stop stop ∧
      (middle start stop flags r).flags = reflagged flags r.flags := by
  have hle := stop_le r hr
  obtain ⟨ho1, ho2⟩ := ho
  unfold middle
  split
  case isTrue => exact ⟨rfl, piece_stop (by omega) (by omega), rfl⟩
  case isFalse hout =>
    refine ⟨?_, ?_, rfl⟩
    · show r.start = max r.start start
      omega
    · show r.stop = min r.stop stop
      omega

theorem parts_reflag (hss : start < stop) (hr : r.start < r.stop) :
    Parts r (reflag start stop flags r) := by
  have hle := stop_le r hr
  unfold reflag
  split
  case isFalse => exact ⟨by simp, goodReservations_singleton hr⟩
  case isTrue ho =>
    have hstart : start ≤ memPages := Nat.le_trans (Nat.le_of_lt ho.2) hle
    obtain ⟨hm1, hm2, -⟩ := middle_stop flags hss hr ho
    obtain ⟨ho1, ho2⟩ := ho
    have hmid : GoodReservations [middle start stop flags r] :=
      goodReservations_singleton (by omega)
    rw [show middle start stop flags r :: pieces stop r.stop r.flags =
      [middle start stop flags r] ++ pieces stop r.stop r.flags from rfl]
    refine ⟨fun s hs => ?_, goodReservations_append.mpr ⟨goodReservations_pieces hstart,
      goodReservations_append.mpr ⟨hmid, goodReservations_pieces hle, fun s hs t ht => ?_⟩,
      fun s hs t ht => ?_⟩⟩
    · rcases List.mem_append.mp hs with hs | hs
      · obtain ⟨-, h1, h2⟩ := mem_pieces hstart hs
        omega
      rcases List.mem_append.mp hs with hs | hs
      · rw [List.mem_singleton.mp hs]
        omega
      · obtain ⟨-, h1, h2⟩ := mem_pieces hle hs
        omega
    · rw [List.mem_singleton.mp hs]
      obtain ⟨-, h1, h2⟩ := mem_pieces hle ht
      omega
    obtain ⟨-, h1, h2⟩ := mem_pieces hstart hs
    rcases List.mem_append.mp ht with ht | ht
    · rw [List.mem_singleton.mp ht]
      omega
    · obtain ⟨-, h3, -⟩ := mem_pieces hle ht
      omega

theorem flagsAt_reflag (hss : start < stop) (hr : r.start < r.stop) :
    flagsAt (reflag start stop flags r) p = if r.Covers p then
        some (if start ≤ p ∧ p < stop then reflagged flags r.flags else r.flags)
      else none := by
  have hle := stop_le r hr
  unfold reflag
  split
  case isFalse ho =>
    rw [flagsAt_cons, flagsAt_nil]
    by_cases hc : r.Covers p
    · rw [if_pos hc, if_pos hc, if_neg]
      unfold Overlaps at ho
      rw [Reservation.covers_iff] at hc
      omega
    · rw [if_neg hc, if_neg hc]
  case isTrue ho =>
    have hstart : start ≤ memPages := Nat.le_trans (Nat.le_of_lt ho.2) hle
    obtain ⟨hm1, hm2, hm3⟩ := middle_stop flags hss hr ho
    have hmid : (middle start stop flags r).Covers p ↔ r.Covers p ∧ start ≤ p ∧ p < stop := by
      rw [Reservation.covers_iff, Reservation.covers_iff, hm1, hm2]
      omega
    obtain ⟨ho1, ho2⟩ := ho
    rw [flagsAt_append, flagsAt_pieces hstart, flagsAt_cons, flagsAt_pieces hle, hm3]
    by_cases hc : r.Covers p
    · rw [if_pos hc]
      by_cases hin : start ≤ p ∧ p < stop
      · rw [if_neg (by omega), Option.none_or, if_pos (hmid.mpr ⟨hc, hin⟩), if_pos hin]
      rw [if_neg hin, if_neg (mt hmid.mp fun hm => hin hm.2)]
      rw [Reservation.covers_iff] at hc
      by_cases hb : r.start ≤ p ∧ p < start
      · rw [if_pos hb, Option.some_or]
      · rw [if_neg hb, Option.none_or, if_pos (by omega)]
    rw [if_neg hc, if_neg (mt hmid.mp fun hm => hc hm.1)]
    rw [Reservation.covers_iff] at hc
    rw [if_neg (by omega), if_neg (by omega), Option.none_or]

theorem flagsAt_flatMap_reflag (hss : start < stop) (hne : ∀ r ∈ rs, r.start < r.stop) :
    flagsAt (rs.flatMap (reflag start stop flags)) p =
      (flagsAt rs p).map fun f => if start ≤ p ∧ p < stop then reflagged flags f else f := by
  induction rs with
  | nil => rfl
  | cons r rs ih =>
    rw [List.flatMap_cons, flagsAt_append, flagsAt_reflag hss (hne r (.head _)),
      ih fun s hs => hne s (.tail _ hs), flagsAt_cons]
    by_cases hc : r.Covers p
    · rw [if_pos hc, if_pos hc, Option.some_or, Option.map_some]
    · rw [if_neg hc, if_neg hc, Option.none_or]

theorem setReservationFlags_cons : (h.grants (splits start stop r) →
      setReservationFlags start stop flags h (r :: rs) =
        ((setReservationFlags start stop flags (h.skip (splits start stop r)) rs).1,
          (setReservationFlags start stop flags (h.skip (splits start stop r)) rs).2.1,
          reflag start stop flags r ++
            (setReservationFlags start stop flags (h.skip (splits start stop r)) rs).2.2)) ∧
    (¬ h.grants (splits start stop r) → setReservationFlags start stop flags h (r :: rs) =
        (eNOMEM, h.skip (splits start stop r), r :: rs)) := by
  have hzero : h.grants 0 ∧ h.skip 0 = h := ⟨by simp [Host.grants], by simp [Host.skip]⟩
  by_cases ho : Overlaps start stop r
  · have hskip : ¬ (r.start ≥ stop ∨ r.stop ≤ start) := by
      unfold Overlaps at ho
      omega
    obtain ⟨ha1, ha2⟩ := attempt_eq h
    obtain ⟨hb1, hb2⟩ := attempt_eq (h.skip 1)
    rw [setReservationFlags, if_neg hskip]
    dsimp only
    rw [splits, reflag, middle, pieces, pieces, if_pos ho, if_pos ho]
    -- the four ways the reservation sticks out of the range
    by_cases hb : r.start < start
    · have hmax : max r.start start = start := by omega
      have h1 : start - r.start ≠ 0 := by omega
      by_cases ha : stop < r.stop
      · have hmin : min r.stop stop = stop := by omega
        have h2 : r.stop - stop ≠ 0 := by omega
        simp only [hmax, hmin, hb, ha, true_or, if_true, grants_add, ← ha2, ← hb2, ha1, hb1,
          skip_skip, h1, h2, ne_eq, not_false_eq_true, and_self, Bool.and_eq_true]
        exact ⟨fun hg => by rw [if_pos hg]; rfl, fun hg => by rw [if_neg hg]⟩
      have hmin : min r.stop stop = r.stop := by omega
      simp only [hmax, hmin, hb, ha, true_or, if_true, if_false, ← ha2, ha1, h1, Nat.sub_self,
        ne_eq, not_true_eq_false, not_false_eq_true, and_false, Nat.add_zero]
      exact ⟨fun hg => by rw [if_pos hg]; rfl, fun hg => by rw [if_neg hg]⟩
    have hmax : max r.start start = r.start := by omega
    by_cases ha : stop < r.stop
    · have hmin : min r.stop stop = stop := by omega
      have h2 : r.stop - stop ≠ 0 := by omega
      simp only [hmax, hmin, hb, ha, or_true, if_true, if_false, ← ha2, ha1, h2, Nat.sub_self,
        ne_eq, not_true_eq_false, not_false_eq_true, false_and, Nat.zero_add]
      exact ⟨fun hg => by rw [if_pos hg]; rfl, fun hg => by rw [if_neg hg]⟩
    have hmin : min r.stop stop = r.stop := by omega
    simp only [hmax, hmin, hb, ha, or_self, if_false, Nat.sub_self, ne_eq, not_true_eq_false,
      and_self, Nat.add_zero, hzero.2]
    exact ⟨fun _ => rfl, fun hn => absurd hzero.1 hn⟩
  have hskip : r.start ≥ stop ∨ r.stop ≤ start := by
    unfold Overlaps at ho
    omega
  rw [setReservationFlags, if_pos hskip, splits, if_neg ho, reflag, if_neg ho, hzero.2]
  exact ⟨fun _ => rfl, fun hn => absurd hzero.1 hn⟩

/-- The allocations that changing the flags of the range takes on a list. -/
def allocations (start stop : Nat) (rs : List Reservation) : Nat := (rs.map (splits start stop)).sum

theorem allocations_cons :
    allocations start stop (r :: rs) = splits start stop r + allocations start stop rs := rfl

theorem setReservationFlags_ok (flags : Flags) (hg : h.grants (allocations start stop rs)) :
    (setReservationFlags start stop flags h rs).1 = 0 ∧
      (setReservationFlags start stop flags h rs).2.2 = rs.flatMap (reflag start stop flags) := by
  induction rs generalizing h with
  | nil => exact ⟨rfl, rfl⟩
  | cons r rs ih =>
    rw [allocations_cons, grants_add] at hg
    obtain ⟨h1, h2⟩ := ih hg.2
    rw [setReservationFlags_cons.1 hg.1, List.flatMap_cons, h1, h2]
    exact ⟨rfl, rfl⟩

theorem setReservationFlags_fail (flags : Flags) {pre : List Reservation} (post : List Reservation)
    (hpre : h.grants (allocations start stop pre))
    (hr : ¬ h.grants (allocations start stop (pre ++ [r]))) :
    (setReservationFlags start stop flags h (pre ++ r :: post)).1 = eNOMEM ∧
      (setReservationFlags start stop flags h (pre ++ r :: post)).2.2 =
        pre.flatMap (reflag start stop flags) ++ r :: post := by
  induction pre generalizing h with
  | nil =>
    have hsplit : ¬ h.grants (splits start stop r) := by simpa [allocations] using hr
    rw [List.nil_append, setReservationFlags_cons.2 hsplit]
    exact ⟨rfl, rfl⟩
  | cons q pre ih =>
    rw [allocations_cons, grants_add] at hpre
    rw [List.cons_append, allocations_cons, grants_add] at hr
    obtain ⟨h1, h2⟩ := ih hpre.2 fun hn => hr ⟨hpre.1, hn⟩
    rw [List.cons_append, setReservationFlags_cons.1 hpre.1, h1, h2, List.flatMap_cons,
      List.append_assoc]
    exact ⟨rfl, rfl⟩

theorem exists_failed_split (hg : ¬ h.grants (allocations start stop rs)) :
    ∃ pre r post, rs = pre ++ r :: post ∧ h.grants (allocations start stop pre) ∧
      ¬ h.grants (allocations start stop (pre ++ [r])) := by
  induction rs generalizing h with
  | nil => exact absurd (by simp [Host.grants, allocations]) hg
  | cons r rs ih =>
    rw [allocations_cons, grants_add] at hg
    by_cases hr : h.grants (splits start stop r)
    · obtain ⟨pre, q, post, hrs, hpre, hq⟩ := ih fun hn => hg ⟨hr, hn⟩
      refine ⟨r :: pre, q, post, by rw [hrs]; rfl, ?_, ?_⟩
      · rw [allocations_cons, grants_add]
        exact ⟨hr, hpre⟩
      · rw [List.cons_append, allocations_cons, grants_add]
        exact fun hn => hq hn.2
    · exact ⟨[], r, rs, rfl, by simp [Host.grants, allocations], by simpa [allocations] using hr⟩

theorem not_grants_of_failed_split {pre post : List Reservation}
    (hr : ¬ h.grants (allocations start stop (pre ++ [r]))) :
    ¬ h.grants (allocations start stop (pre ++ r :: post)) := by
  intro hall
  have hsum : allocations start stop (pre ++ r :: post) =
      allocations start stop (pre ++ [r]) + allocations start stop post := by
    simp only [allocations, List.map_append, List.sum_append, List.map_cons, List.sum_cons,
      List.map_nil, List.sum_nil]
    omega
  rw [hsum, grants_add] at hall
  exact hr hall.1

theorem not_overlaps_above (hg : GoodReservations rs) (hs : memPages ≤ start) (hr : r ∈ rs) :
    ¬ Overlaps start stop r := by
  have hle := stop_le r (hg.nonempty r hr)
  unfold Overlaps
  omega

/-! ## When the two functions do what they are for -/

/-- `mem_remove_reservations` makes the map undefined on the range and leaves the rest. -/
def RemovesExactly (v : Vm) (start pages : Nat) : Prop :=
  GoodReservations (memRemoveReservations v start pages).mem.reservations ∧
  ∀ p, reservedFlags (memRemoveReservations v start pages).mem p =
    if start ≤ p ∧ p < start + pages then none else reservedFlags v.mem p

/-- No allocation of `mem_set_reservation_flags` fails. -/
def Allocates (v : Vm) (start pages : Nat) : Prop :=
  pages = 0 ∨ v.host.grants (allocations start (pageRangeEnd start pages) v.mem.reservations)

/-- `mem_set_reservation_flags` changes the flags on the reserved pages of the range, or reports a
failed allocation and changes nothing. -/
def ReflagsExactly (v : Vm) (start pages : Nat) (flags : Flags) : Prop :=
  GoodReservations (memSetReservationFlags v start pages flags).2.mem.reservations ∧
  (Allocates v start pages → (memSetReservationFlags v start pages flags).1 = 0 ∧
    ∀ p, reservedFlags (memSetReservationFlags v start pages flags).2.mem p =
      (reservedFlags v.mem p).map fun f =>
        if start ≤ p ∧ p < start + pages then reflagged flags f else f) ∧
  (¬ Allocates v start pages → (memSetReservationFlags v start pages flags).1 = eNOMEM ∧
    ∀ p, reservedFlags (memSetReservationFlags v start pages flags).2.mem p = reservedFlags v.mem p)

/-- If a reservation sticks out of the range on both sides, the allocation of its tail succeeds. -/
def SplitFits (v : Vm) (start pages : Nat) : Prop :=
  pages ≠ 0 → ∀ r ∈ v.mem.reservations, Contains start (pageRangeEnd start pages) r →
    v.host.attempt.1 = true

/-- If the split of a reservation cannot be allocated, those in front of it that overlap the range
have the requested flags already. -/
def FlagsFit (v : Vm) (start pages : Nat) (flags : Flags) : Prop :=
  pages ≠ 0 → ∀ pre r post, v.mem.reservations = pre ++ r :: post →
    v.host.grants (allocations start (pageRangeEnd start pages) pre) →
    ¬ v.host.grants (allocations start (pageRangeEnd start pages) (pre ++ [r])) →
    ∀ q ∈ pre, Overlaps start (pageRangeEnd start pages) q → reflagged flags q.flags = q.flags

theorem inPages_iff (h0 : pages ≠ 0) (hp : p < memPages) :
    (start ≤ p ∧ p < start + pages) ↔ (start ≤ p ∧ p < pageRangeEnd start pages) := by
  unfold pageRangeEnd
  rw [if_neg h0]
  split <;> omega

theorem lt_pageRangeEnd (h0 : pages ≠ 0) (hs : start < memPages) :
    start < pageRangeEnd start pages := by
  unfold pageRangeEnd
  rw [if_neg h0]
  split <;> omega

theorem pageRangeEnd_above (h0 : pages ≠ 0) (hs : memPages ≤ start) :
    pageRangeEnd start pages = memPages := by
  unfold pageRangeEnd
  rw [if_neg h0, if_pos (.inl hs)]

theorem flagsAt_lt (hg : GoodReservations rs) (hp : flagsAt rs p ≠ none) : p < memPages := by
  by_contra hge
  refine hp (flagsAt_eq_none fun r hr hc => ?_)
  have hle := stop_le r (hg.nonempty r hr)
  rw [Reservation.covers_iff] at hc
  omega

theorem flagsAt_range {g : Option Flags → Option Flags} (h0 : pages ≠ 0)
    (hg : GoodReservations rs) (hnone : g none = none)
    (hall : flagsAt rs' p = if start ≤ p ∧ p < pageRangeEnd start pages then g (flagsAt rs p)
      else flagsAt rs p) :
    flagsAt rs' p = if start ≤ p ∧ p < start + pages then g (flagsAt rs p) else flagsAt rs p := by
  rw [hall]
  by_cases hp : p < memPages
  · exact if_congr (inPages_iff h0 hp).symm rfl rfl
  have hn : flagsAt rs p = none := by
    by_contra hc
    exact hp (flagsAt_lt hg hc)
  rw [hn, hnone, ite_self, ite_self]

theorem map_ite {c : Prop} [Decidable c] {g : Flags → Flags} (x : Option Flags) :
    (x.map fun f => if c then g f else f) = if c then x.map g else x := by
  split
  · rfl
  · exact Option.map_id'

section Exact

variable {v : Vm} {pages : Nat} (hg : GoodReservations v.mem.reservations)
include hg

theorem removesExactly_iff : RemovesExactly v start pages ↔ SplitFits v start pages := by
  unfold RemovesExactly SplitFits
  by_cases h0 : pages = 0
  · subst h0
    simp only [memRemoveReservations, if_true, Nat.add_zero]
    refine ⟨fun _ hc => absurd rfl hc, fun _ => ⟨hg, fun p => ?_⟩⟩
    rw [if_neg (by omega)]
  simp only [memRemoveReservations, if_neg h0, reservedFlags_eq]
  by_cases hlt : start < memPages
  · have hss := lt_pageRangeEnd h0 hlt
    constructor
    · intro hex _ r hr hc
      by_contra hfail
      -- the reservation still covers the first page of the range
      have hsome := flagsAt_isSome (p := start) hr ⟨Nat.le_of_lt hc.1, Nat.lt_trans hss hc.2⟩
      have hmap := hex.2 start
      rw [removeReservations_kept hss hg hr hc (by simpa using hfail)] at hmap
      rw [hmap, if_pos ⟨Nat.le_refl _, by omega⟩] at hsome
      exact absurd hsome (by simp)
    intro hfit
    rw [removeReservations_eq hss hg (hfit h0)]
    refine ⟨?_, fun p => ?_⟩
    · exact good_flatMap_all (fun r _ hr => parts_leftOver (Nat.le_of_lt hss) hr) hg
    · exact flagsAt_range (g := fun _ => none) h0 hg rfl (flagsAt_flatMap_leftOver hg.nonempty)
  have hge : memPages ≤ start := Nat.le_of_not_lt hlt
  have hnot : ∀ r ∈ v.mem.reservations, ¬ Contains start (pageRangeEnd start pages) r := by
    intro r hr hc
    have hle := stop_le r (hg.nonempty r hr)
    rw [pageRangeEnd_above h0 hge] at hc
    unfold Contains at hc
    omega
  have hsame : v.mem.reservations.flatMap (leftOver start (pageRangeEnd start pages)) =
      v.mem.reservations :=
    flatMap_id fun r hr => if_neg (not_overlaps_above hg hge hr)
  rw [removeReservations_all hnot, hsame]
  refine ⟨fun _ _ r hr hc => absurd hc (hnot r hr), fun _ => ⟨hg, fun p => ?_⟩⟩
  refine flagsAt_range (g := fun _ => none) h0 hg rfl ?_
  rw [pageRangeEnd_above h0 hge, if_neg (by omega)]

theorem flagsFit_iff (h0 : pages ≠ 0) (hlt : start < memPages) {pre post : List Reservation}
    (hrs : v.mem.reservations = pre ++ r :: post) :
    (∀ p, flagsAt (pre.flatMap (reflag start (pageRangeEnd start pages) flags) ++ r :: post) p =
      flagsAt v.mem.reservations p) ↔
    ∀ q ∈ pre, Overlaps start (pageRangeEnd start pages) q → reflagged flags q.flags = q.flags := by
  have hss := lt_pageRangeEnd h0 hlt
  rw [hrs] at hg ⊢
  obtain ⟨hpre, -, -⟩ := goodReservations_append.mp hg
  constructor
  · intro hsame q hq ho
    have hne := hpre.nonempty q hq
    -- a page of `q` in the range
    have hcov : q.Covers (max q.start start) := by
      rw [Reservation.covers_iff]
      unfold Overlaps at ho
      omega
    have hat := flagsAt_of_mem hpre hq hcov
    have hp := hsame (max q.start start)
    rw [flagsAt_append, flagsAt_append, flagsAt_flatMap_reflag hss hpre.nonempty, hat,
      Option.map_some, Option.some_or, Option.some_or, if_pos (by unfold Overlaps at ho; omega)]
      at hp
    exact Option.some.inj hp
  intro hflags p
  rw [flagsAt_append, flagsAt_append, flagsAt_flatMap_reflag hss hpre.nonempty]
  cases hat : flagsAt pre p with
  | none => rfl
  | some f =>
    obtain ⟨q, hfind, hqf⟩ := Option.map_eq_some_iff.mp hat
    have hcov : q.Covers p := by simpa using List.find?_some hfind
    have hmem := List.mem_of_find?_eq_some hfind
    rw [Option.map_some, Option.some_or, Option.some_or]
    split
    case isTrue hin =>
      rw [← hqf, hflags q hmem]
      rw [Reservation.covers_iff] at hcov
      exact ⟨by omega, by omega⟩
    case isFalse => rfl

theorem reflagsExactly_iff : ReflagsExactly v start pages flags ↔ FlagsFit v start pages flags := by
  unfold ReflagsExactly FlagsFit Allocates
  by_cases h0 : pages = 0
  · subst h0
    refine ⟨fun _ hc => absurd rfl hc, fun _ => ⟨hg, fun _ => ⟨rfl, fun p => ?_⟩, ?_⟩⟩
    · rw [map_ite, if_neg (by omega)]
      rfl
    · exact fun hc => absurd (.inl rfl) hc
  simp only [memSetReservationFlags, reservedFlags_eq, h0, false_or, if_false, map_ite]
  by_cases hlt : start < memPages
  · have hss := lt_pageRangeEnd h0 hlt
    constructor
    · rintro ⟨-, -, hfail⟩ - pre r post hrs hpre hr
      have hnot : ¬ v.host.grants
          (allocations start (pageRangeEnd start pages) v.mem.reservations) := by
        rw [hrs]
        exact not_grants_of_failed_split hr
      have hsame := (hfail hnot).2
      rw [hrs, (setReservationFlags_fail flags post hpre hr).2, ← hrs] at hsame
      exact (flagsFit_iff hg h0 hlt hrs).mp hsame
    intro hfit
    by_cases hall : v.host.grants
        (allocations start (pageRangeEnd start pages) v.mem.reservations)
    · obtain ⟨h1, h2⟩ := setReservationFlags_ok flags hall
      rw [h1, h2]
      refine ⟨?_, fun _ => ⟨rfl, fun p => ?_⟩, fun hn => absurd hall hn⟩
      · exact good_flatMap_all (fun r _ hr => parts_reflag hss hr) hg
      · refine flagsAt_range h0 hg rfl ?_
        rw [flagsAt_flatMap_reflag hss hg.nonempty, map_ite]
    obtain ⟨pre, r, post, hrs, hpre, hr⟩ := exists_failed_split hall
    obtain ⟨h1, h2⟩ := setReservationFlags_fail flags post hpre hr
    rw [hrs, h1, h2]
    refine ⟨?_, fun hc => absurd (hrs ▸ hc) hall, fun _ => ⟨rfl, ?_⟩⟩
    · exact good_flatMap (fun r _ hr => parts_reflag hss hr) (hrs ▸ hg)
    · rw [← hrs]
      exact (flagsFit_iff hg h0 hlt hrs).mpr (hfit h0 pre r post hrs hpre hr)
  have hge : memPages ≤ start := Nat.le_of_not_lt hlt
  have hnot : ∀ r ∈ v.mem.reservations, ¬ Overlaps start (pageRangeEnd start pages) r :=
    fun r hr => not_overlaps_above hg hge hr
  have hnone : ∀ rs : List Reservation, (∀ r ∈ rs, r ∈ v.mem.reservations) →
      v.host.grants (allocations start (pageRangeEnd start pages) rs) := by
    intro rs hrs
    have hzero : allocations start (pageRangeEnd start pages) rs = 0 := by
      induction rs with
      | nil => rfl
      | cons r rs ih =>
        rw [allocations_cons, ih fun s hs => hrs s (.tail _ hs), splits,
          if_neg (hnot r (hrs r (.head _)))]
    rw [hzero]
    simp [Host.grants]
  have hsame : v.mem.reservations.flatMap (reflag start (pageRangeEnd start pages) flags) =
      v.mem.reservations :=
    flatMap_id fun r hr => if_neg (hnot r hr)
  have hall := hnone v.mem.reservations fun _ h => h
  obtain ⟨h1, h2⟩ := setReservationFlags_ok flags hall
  rw [h1, h2, hsame]
  constructor
  · rintro - - pre r post hrs - hfail
    exact absurd hall (hrs ▸ not_grants_of_failed_split hfail)
  intro _
  refine ⟨hg, fun _ => ⟨rfl, fun p => ?_⟩, fun hn => absurd hall hn⟩
  refine flagsAt_range h0 hg rfl ?_
  rw [pageRangeEnd_above h0 hge, if_neg (by omega)]

end Exact

/-- **When the reservation list refines its map.** Removing is exact if and only if the one reservation
that sticks out of the range on both sides can be split, and changing flags if and only if nothing was
changed before a split that cannot be allocated. -/
theorem reservations_exact_iff (v : Vm) (start pages : Nat) (flags : Flags)
    (hg : GoodReservations v.mem.reservations) :
    (RemovesExactly v start pages ↔ SplitFits v start pages) ∧
    (ReflagsExactly v start pages flags ↔ FlagsFit v start pages flags) :=
  ⟨removesExactly_iff hg, reflagsExactly_iff hg⟩

/-- Two neighbouring reservations, and the outcomes of the allocations to come. -/
def reservedVm (script : List Bool) : Vm :=
  { host := ⟨∅, fun _ _ => 0, 0, 0, script⟩
    mem := ⟨∅, [⟨16, 16, 66#32⟩, ⟨32, 16, 66#32⟩], 0, 0⟩ }

theorem reservedVm_good (script : List Bool) :
    GoodReservations (reservedVm script).mem.reservations := by
  show GoodReservations [⟨16, 16, 66#32⟩, ⟨32, 16, 66#32⟩]
  exact ⟨by decide, by decide⟩

/-- With memory for the splits both are exact. -/
theorem reservations_exact_split : RemovesExactly (reservedVm []) 20 4 ∧
    ReflagsExactly (reservedVm []) 16 24 Flags.read := by
  have h := reservations_exact_iff (reservedVm []) 20 4 Flags.read (reservedVm_good [])
  have h' := reservations_exact_iff (reservedVm []) 16 24 Flags.read (reservedVm_good [])
  refine ⟨h.1.mpr fun _ _ _ _ => rfl, h'.2.mpr fun _ pre r post _ _ hfail => ?_⟩
  exact absurd (by simp [Host.grants, reservedVm]) hfail

/-- Without memory, pages in the middle of a reservation stay reserved, and a refused change of
flags leaves the first reservation changed. -/
theorem reservations_inexact : ¬ RemovesExactly (reservedVm [false]) 20 4 ∧
    ¬ ReflagsExactly (reservedVm [false]) 16 24 Flags.read := by
  rw [removesExactly_iff (reservedVm_good _), reflagsExactly_iff (reservedVm_good _)]
  refine ⟨fun h => ?_, fun h => ?_⟩
  · have hfail := h (by decide) ⟨16, 16, 66#32⟩ (.head _) (by decide)
    exact absurd hfail (by decide)
  have hsame := h (by decide) [⟨16, 16, 66#32⟩] ⟨32, 16, 66#32⟩ [] rfl (by decide) (by decide)
    ⟨16, 16, 66#32⟩ (.head _) (by decide)
  exact absurd hsame (by decide)

end IosLinuxkit.Kernel
