import Mathlib.Data.List.Basic

/-!
# What is taken and given back

Code that takes things (locks, descriptors, buffers) and gives them back, as the list of these events. How many of
each thing are held is counted.

* **`settles_group`** — things that are taken, and given back after code that settles.
* **`net_of_play`** — what it says of the holdings.
-/

namespace IosLinuxkit

inductive Ev (R : Type) where
  | take (r : R)
  | drop (r : R)
  deriving DecidableEq

namespace Ledger

variable {R : Type} [DecidableEq R] {r r' : R} {k k' : List R} {l l' : List (Ev R)} {h h' : R → Nat}

def play (h : R → Nat) : List (Ev R) → Option (R → Nat)
  | [] => some h
  | .take r :: l => play (Function.update h r (h r + 1)) l
  | .drop r :: l => if h r = 0 then none else play (Function.update h r (h r - 1)) l

def Settles (k : List R) (l : List (Ev R)) : Prop := ∀ h, (∀ r ∈ k, 0 < h r) → play h l = some h

/-- Each thing that is taken is given back once, and no other is. -/
def Settled (l : List (Ev R)) : Prop := play (fun _ => 0) l = some fun _ => 0

@[simp] theorem play_nil (h : R → Nat) : play h [] = some h := rfl

theorem play_append (h : R → Nat) (l l' : List (Ev R)) : play h (l ++ l') = (play h l).bind fun h => play h l' := by
  induction l generalizing h with
  | nil => rfl
  | cons e l ih =>
    cases e with
    | take r => exact ih _
    | drop r =>
      show (if h r = 0 then none else play _ (l ++ l')) = (if h r = 0 then none else play _ l).bind _
      split
      · rfl
      · exact ih _

/-! ## Code that settles -/

theorem settles_nil (k : List R) : Settles k ([] : List (Ev R)) := fun _ _ => rfl

theorem Settles.append (hl : Settles k l) (hl' : Settles k l') : Settles k (l ++ l') := by
  intro h hk
  rw [play_append, hl h hk]
  exact hl' h hk

theorem Settles.mono (hl : Settles k l) (hsub : ∀ r ∈ k, r ∈ k') : Settles k' l :=
  fun h hk => hl h fun r hr => hk r (hsub r hr)

theorem Settles.weaken (hl : Settles [] l) (k : List R) : Settles k l :=
  hl.mono fun _ hr => absurd hr List.not_mem_nil

theorem settles_again (hr : r ∈ k) : Settles k [.drop r, .take r] := by
  intro h hk
  have hpos := hk r hr
  show (if h r = 0 then none else some (Function.update (Function.update h r (h r - 1)) r _)) = some h
  rw [if_neg (Nat.ne_of_gt hpos), Function.update_self, Function.update_idem, Nat.sub_add_cancel hpos,
    Function.update_eq_self]

theorem settles_around (hl : Settles (r :: k) l) : Settles k (.take r :: l ++ [.drop r]) := by
  intro h hk
  have hheld : ∀ s ∈ r :: k, 0 < Function.update h r (h r + 1) s := by
    intro s hs
    by_cases hsr : s = r
    · rw [hsr, Function.update_self]
      exact Nat.succ_pos _
    · rw [Function.update_of_ne hsr]
      exact hk s ((List.mem_cons.mp hs).resolve_left hsr)
  rw [List.cons_append]
  show play (Function.update h r (h r + 1)) (l ++ [.drop r]) = some h
  rw [play_append, hl _ hheld, Option.bind_some]
  show (if Function.update h r (h r + 1) r = 0 then none else some _) = some h
  rw [Function.update_self, if_neg (Nat.succ_ne_zero _), Function.update_idem, Nat.add_sub_cancel,
    Function.update_eq_self]

theorem settles_pair (r : R) : Settles [] [.take r, .drop r] := settles_around (settles_nil _)

def hold (h : R → Nat) (k : List R) : R → Nat := fun r => h r + k.count r

theorem play_take (h : R → Nat) (k : List R) : play h (k.map .take) = some (hold h k) := by
  induction k generalizing h with
  | nil => rfl
  | cons r k ih =>
    show play (Function.update h r (h r + 1)) (k.map .take) = _
    rw [ih]
    congr 1
    funext s
    unfold hold
    by_cases hs : s = r
    · rw [hs, Function.update_self, List.count_cons_self]
      omega
    · rw [Function.update_of_ne hs, List.count_cons_of_ne (Ne.symm hs)]

theorem play_drop (h : R → Nat) (k : List R) : play (hold h k) (k.map .drop) = some h := by
  induction k generalizing h with
  | nil => rfl
  | cons r k ih =>
    have hr : hold h (r :: k) r = hold h k r + 1 := by
      unfold hold
      rw [List.count_cons_self, Nat.add_assoc]
    have hless : Function.update (hold h (r :: k)) r (hold h (r :: k) r - 1) = hold h k := by
      rw [hr, Nat.add_sub_cancel]
      funext s
      by_cases hs : s = r
      · rw [hs, Function.update_self]
      rw [Function.update_of_ne hs]
      unfold hold
      rw [List.count_cons_of_ne (Ne.symm hs)]
    show (if hold h (r :: k) r = 0 then none else play _ (k.map .drop)) = some h
    rw [if_neg (by rw [hr]; exact Nat.succ_ne_zero _), hless]
    exact ih h

theorem settles_group (k' : List R) (hl : Settles (k' ++ k) l) :
    Settles k (k'.map .take ++ l ++ k'.map .drop) := by
  intro h hk
  have hheld : ∀ r ∈ k' ++ k, 0 < hold h k' r := by
    intro r hr
    rcases List.mem_append.mp hr with hr | hr
    · exact Nat.add_pos_right _ (List.count_pos_iff.mpr hr)
    · exact Nat.add_pos_left (hk r hr) _
  rw [play_append, play_append, play_take, Option.bind_some, hl _ hheld, Option.bind_some]
  exact play_drop h k'

theorem Settles.settled (hl : Settles [] l) : Settled l := hl _ fun _ hr => absurd hr List.not_mem_nil

/-! ## Counting -/

def net (r : R) : List (Ev R) → Int
  | [] => 0
  | .take s :: l => (if s = r then 1 else 0) + net r l
  | .drop s :: l => net r l - if s = r then 1 else 0

theorem net_append (r : R) (l l' : List (Ev R)) : net r (l ++ l') = net r l + net r l' := by
  induction l with
  | nil => exact (Int.zero_add _).symm
  | cons e l ih =>
    cases e with
    | take s =>
      show _ + net r (l ++ l') = _ + net r l + net r l'
      rw [ih, Int.add_assoc]
    | drop s =>
      show net r (l ++ l') - _ = net r l - _ + net r l'
      rw [ih]
      omega

theorem net_of_play (hp : play h l = some h') : (h' r : Int) = h r + net r l := by
  induction l generalizing h with
  | nil =>
    cases hp
    exact (Int.add_zero _).symm
  | cons e l ih =>
    cases e with
    | take s =>
      rw [ih hp]
      show _ = (h r : Int) + ((if s = r then 1 else 0) + net r l)
      by_cases hs : s = r
      · rw [hs, Function.update_self, if_pos rfl]
        omega
      · rw [Function.update_of_ne (Ne.symm hs), if_neg hs]
        omega
    | drop s =>
      have hp : (if h s = 0 then none else play (Function.update h s (h s - 1)) l) = some h' := hp
      split at hp
      · cases hp
      case isFalse hne =>
        rw [ih hp]
        show _ = (h r : Int) + (net r l - if s = r then 1 else 0)
        by_cases hs : s = r
        · rw [hs, Function.update_self, if_pos rfl]
          rw [hs] at hne
          omega
        · rw [Function.update_of_ne (Ne.symm hs), if_neg hs]
          omega

theorem net_of_settles (hl : Settles k l) (r : R) : net r l = 0 := by
  have hp := hl (fun _ => 1) fun _ _ => Nat.one_pos
  have := net_of_play (r := r) hp
  omega

theorem net_of_settled (hl : Settled l) (r : R) : net r l = 0 := by
  have := net_of_play (r := r) hl
  omega

end Ledger

end IosLinuxkit
