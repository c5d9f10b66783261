import Mathlib.Data.List.Basic

/-!
# Search by halves

`while (lo < hi) { mid = (lo + hi) / 2; if (below(mid)) lo = mid + 1; else hi = mid; }` in a table that is
sorted by a number, and the scan of the entries with that number from there on.

* **`scan_eq_filter`** — the scan from a lower bound meets all entries with the number, and only those.
-/

namespace IosLinuxkit

/-! ## The search -/

def bisect (below : Nat → Bool) (lo hi : Nat) : Nat :=
  if lo < hi then
    let mid := (lo + hi) / 2
    if below mid then bisect below (mid + 1) hi else bisect below lo mid
  else lo
termination_by hi - lo

variable {below : Nat → Bool} {lo hi : Nat}

structure Bisected (below : Nat → Bool) (lo hi r : Nat) : Prop where
  le : lo ≤ r
  le_hi : r ≤ hi
  before : ∀ i, lo ≤ i → i < r → below i = true
  after : ∀ i, r ≤ i → i < hi → below i = false

theorem bisect_spec (hmono : ∀ i j, i ≤ j → j < hi → below j = true → below i = true) (hle : lo ≤ hi) :
    Bisected below lo hi (bisect below lo hi) := by
  fun_induction bisect below lo hi with
  | case1 lo hi hlt mid hbelow ih =>
    obtain ⟨h1, h2, h3, h4⟩ := ih hmono (by omega)
    refine ⟨by omega, h2, fun i hi1 hi2 => ?_, h4⟩
    by_cases him : i ≤ mid
    · exact hmono i mid him (by omega) hbelow
    · exact h3 i (by omega) hi2
  | case2 lo hi hlt mid hbelow ih =>
    obtain ⟨h1, h2, h3, h4⟩ := ih (fun i j hij hj => hmono i j hij (by omega)) (by omega)
    refine ⟨h1, by omega, h3, fun i hi1 hi2 => ?_⟩
    by_cases him : i < mid
    · exact h4 i hi1 him
    · -- what is below at `i` would be below at `mid`
      cases hb : below i with
      | false => rfl
      | true => exact absurd (hmono mid i (by omega) hi2 hb) hbelow
  | case3 lo hi hge =>
    exact ⟨Nat.le_refl lo, hle, fun i h1 h2 => by omega, fun i h1 h2 => by omega⟩

/-! ## Sorted tables -/

section Table

variable {α : Type} {key : α → Nat} {k r : Nat} {xs : List α}

def SortedBy (key : α → Nat) (xs : List α) : Prop := xs.Pairwise fun x y => key x ≤ key y

theorem SortedBy.le (h : SortedBy key xs) {i j : Nat} (hij : i ≤ j) {x y : α} (hx : xs[i]? = some x)
    (hy : xs[j]? = some y) : key x ≤ key y := by
  rcases Nat.eq_or_lt_of_le hij with heq | hlt
  · rw [heq, hy] at hx
    cases hx
    exact Nat.le_refl _
  obtain ⟨hi, rfl⟩ := List.getElem?_eq_some_iff.mp hx
  obtain ⟨hj, rfl⟩ := List.getElem?_eq_some_iff.mp hy
  exact List.pairwise_iff_getElem.mp h i j hi hj hlt

/-- The entries before place `r` are those with a smaller number. -/
def LowerBound (key : α → Nat) (k : Nat) (xs : List α) (r : Nat) : Prop :=
  ∀ i x, xs[i]? = some x → (key x < k ↔ i < r)

def belowAt (key : α → Nat) (k : Nat) (xs : List α) (i : Nat) : Bool :=
  (xs[i]?).any fun x => decide (key x < k)

theorem belowAt_iff {i : Nat} {x : α} (hx : xs[i]? = some x) : belowAt key k xs i = true ↔ key x < k := by
  simp [belowAt, hx]

theorem lowerBound_bisect (hs : SortedBy key xs) (hlo : ∀ i x, xs[i]? = some x → i < lo → key x < k)
    (hhi : ∀ i x, xs[i]? = some x → hi ≤ i → k ≤ key x) (hle : lo ≤ hi) (hlen : hi ≤ xs.length) :
    LowerBound key k xs (bisect (belowAt key k xs) lo hi) := by
  have hmono : ∀ i j, i ≤ j → j < hi → belowAt key k xs j = true → belowAt key k xs i = true := by
    intro i j hij hj hb
    obtain ⟨x, hx⟩ : ∃ x, xs[i]? = some x := ⟨_, List.getElem?_eq_getElem (by omega)⟩
    obtain ⟨y, hy⟩ : ∃ y, xs[j]? = some y := ⟨_, List.getElem?_eq_getElem (by omega)⟩
    rw [belowAt_iff hy] at hb
    rw [belowAt_iff hx]
    exact Nat.lt_of_le_of_lt (hs.le hij hx hy) hb
  have hr := bisect_spec hmono hle
  intro i x hx
  constructor
  · intro hlt
    by_contra hge
    by_cases hin : i < hi
    · have hnot := hr.after i (by omega) hin
      rw [← Bool.not_eq_true, belowAt_iff hx] at hnot
      exact hnot hlt
    · exact absurd (hhi i x hx (by omega)) (by omega)
  intro hlt
  by_cases hin : i < lo
  · exact hlo i x hx hin
  · exact (belowAt_iff hx).mp (hr.before i (by omega) hlt)

theorem takeWhile_eq_filter (hs : SortedBy key xs) (hge : ∀ x ∈ xs, k ≤ key x) :
    xs.takeWhile (fun x => key x == k) = xs.filter fun x => key x == k := by
  induction xs with
  | nil => rfl
  | cons x xs ih =>
    obtain ⟨hx, hs⟩ := List.pairwise_cons.mp hs
    rw [List.takeWhile_cons, List.filter_cons]
    split
    case isTrue heq => rw [ih hs fun y hy => hge y (List.mem_cons_of_mem x hy)]
    case isFalse hne =>
      -- the entries after it are larger still
      symm
      rw [List.filter_eq_nil_iff]
      intro y hy heq
      have hxk := hge x List.mem_cons_self
      have hxy := hx y hy
      rw [beq_iff_eq] at hne heq
      omega

theorem scan_eq_filter (hs : SortedBy key xs) (hr : LowerBound key k xs r) :
    (xs.drop r).takeWhile (fun x => key x == k) = xs.filter fun x => key x == k := by
  have hbefore : (xs.take r).filter (fun x => key x == k) = [] := by
    rw [List.filter_eq_nil_iff]
    intro x hx
    obtain ⟨i, hi⟩ := List.mem_iff_getElem?.mp hx
    rw [List.getElem?_take] at hi
    split at hi
    case isTrue hlt =>
      have := (hr i x hi).mpr hlt
      rw [beq_iff_eq]
      omega
    case isFalse => cases hi
  have hafter : ∀ x ∈ xs.drop r, k ≤ key x := by
    intro x hx
    obtain ⟨i, hi⟩ := List.mem_iff_getElem?.mp hx
    rw [List.getElem?_drop] at hi
    by_contra hlt
    have := (hr (r + i) x hi).mp (by omega)
    omega
  rw [takeWhile_eq_filter (hs.sublist (List.drop_sublist r xs)) hafter]
  conv_rhs => rw [← List.take_append_drop r xs, List.filter_append, hbefore, List.nil_append]

end Table

end IosLinuxkit
