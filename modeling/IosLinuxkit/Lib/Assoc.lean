import Mathlib.Data.List.AList

/-!
# Association lists

`AList` is the finite map of this development: tables whose keys are unique by
construction. This module adds what is needed on top of Mathlib's lookup API: the sum
`sumBy f s` of a weight over all stored values, and what `insert` and `erase` do to it; and
`moveKeys f l s`, which gives new keys to some of the entries.
-/

namespace IosLinuxkit.Assoc

variable {κ β : Type} [DecidableEq κ]

variable {k k' : κ} {v : β} {f : β → Int}

theorem lookup_insert_some {s : AList (fun _ : κ => β)} {w : β}
    (h : (s.insert k v).lookup k' = some w) : (k' = k ∧ w = v) ∨ (k' ≠ k ∧ s.lookup k' = some w) := by
  by_cases hk : k' = k
  · rw [hk, AList.lookup_insert] at h
    exact .inl ⟨hk, (Option.some.inj h).symm⟩
  · exact .inr ⟨hk, (AList.lookup_insert_ne hk).symm.trans h⟩

theorem lookup_erase_some {s : AList (fun _ : κ => β)} {w : β}
    (h : (s.erase k).lookup k' = some w) : k' ≠ k ∧ s.lookup k' = some w := by
  by_cases hk : k' = k
  · rw [hk, AList.lookup_erase] at h
    cases h
  · exact ⟨hk, (AList.lookup_erase_ne hk).symm.trans h⟩

def weightAt (f : β → Int) (s : AList (fun _ : κ => β)) (k : κ) : Int :=
  ((s.lookup k).map f).getD 0

def sumBy (f : β → Int) (s : AList (fun _ : κ => β)) : Int :=
  s.entries.foldr (fun e acc => f e.2 + acc) 0

theorem weightAt_of_some {s : AList (fun _ : κ => β)}
    (h : s.lookup k = some v) : weightAt f s k = f v := by
  simp [weightAt, h]

theorem weightAt_of_none {s : AList (fun _ : κ => β)}
    (h : s.lookup k = none) : weightAt f s k = 0 := by
  simp [weightAt, h]

theorem foldr_kerase (f : β → Int) (k : κ) (l : List (Sigma fun _ : κ => β)) :
    (l.kerase k).foldr (fun e acc => f e.2 + acc) 0
      = l.foldr (fun e acc => f e.2 + acc) 0 - ((l.dlookup k).map f).getD 0 := by
  induction l with
  | nil => rfl
  | cons e l ih =>
    obtain ⟨k', v⟩ := e
    by_cases hk : k = k'
    · subst hk
      rw [show (⟨k, v⟩ :: l : List (Sigma fun _ : κ => β)).kerase k = l from
        List.kerase_cons_eq rfl, List.dlookup_cons_eq]
      simp only [List.foldr_cons, Option.map_some, Option.getD_some]
      omega
    rw [List.kerase_cons_ne hk, List.dlookup_cons_ne _ _ hk]
    simp only [List.foldr_cons, ih]
    omega

theorem sumBy_erase (f : β → Int) (k : κ) (s : AList (fun _ : κ => β)) :
    sumBy f (s.erase k) = sumBy f s - weightAt f s k :=
  foldr_kerase f k s.entries

theorem sumBy_insert (f : β → Int) (k : κ) (v : β) (s : AList (fun _ : κ => β)) :
    sumBy f (s.insert k v) = sumBy f s - weightAt f s k + f v := by
  have herase : (s.entries.kerase k).foldr (fun e acc => f e.2 + acc) 0
      = sumBy f s - weightAt f s k := foldr_kerase f k s.entries
  rw [sumBy, AList.entries_insert, List.foldr_cons, herase]
  show f v + _ = _
  omega

theorem sumBy_congr {s s' : AList (fun _ : κ => β)}
    (h : ∀ k, s'.lookup k = s.lookup k) : sumBy f s' = sumBy f s := by
  have hperm : s'.entries.Perm s.entries :=
    List.lookup_ext s'.nodupKeys s.nodupKeys fun k v => by
      rw [show s'.entries.dlookup k = s.entries.dlookup k from h k]
  exact hperm.foldr_eq' (fun _ _ _ _ _ => by omega) 0

theorem sumBy_eq_zero {s : AList (fun _ : κ => β)}
    (h : ∀ k v, s.lookup k = some v → f v = 0) : sumBy f s = 0 := by
  have hall : ∀ e ∈ s.entries, f e.2 = 0 :=
    fun e he => h e.1 e.2 (AList.mem_lookup_iff.mpr he)
  unfold sumBy
  revert hall
  induction s.entries with
  | nil => exact fun _ => rfl
  | cons e l ih =>
    intro hall
    rw [List.foldr_cons, ih fun x hx => hall x (List.mem_cons_of_mem e hx),
      hall e List.mem_cons_self, Int.add_zero]

omit [DecidableEq κ] in
theorem sumBy_nonneg (hf : ∀ v, 0 ≤ f v) (s : AList (fun _ : κ => β)) : 0 ≤ sumBy f s := by
  unfold sumBy
  induction s.entries with
  | nil => exact Int.le_refl 0
  | cons e l ih =>
    rw [List.foldr_cons]
    exact Int.add_nonneg (hf e.2) ih

theorem weightAt_le_sumBy (hf : ∀ v, 0 ≤ f v) (s : AList (fun _ : κ => β))
    (k : κ) : weightAt f s k ≤ sumBy f s := by
  have herase := sumBy_erase f k s
  have hrest := sumBy_nonneg hf (s.erase k)
  omega

/-! ## New keys -/

/-- The entry of `k` under the key `f k`, in the place of what was there. -/
def moveKey (f : κ → κ) (s : AList (fun _ : κ => β)) (k : κ) : AList (fun _ : κ => β) :=
  match s.lookup k with
  | none => s
  | some v => (s.erase k).insert (f k) v

def moveKeys (f : κ → κ) (l : List κ) (s : AList (fun _ : κ => β)) : AList (fun _ : κ => β) :=
  l.foldl (moveKey f) s

variable {f : κ → κ} {l : List κ} {s : AList (fun _ : κ => β)} {k : κ}

theorem lookup_moveKey_of_ne (hk : k' ≠ k) (hfk : k' ≠ f k) :
    (moveKey f s k).lookup k' = s.lookup k' := by
  unfold moveKey
  cases s.lookup k with
  | none => rfl
  | some v => rw [AList.lookup_insert_ne hfk, AList.lookup_erase_ne hk]

theorem lookup_moveKeys_of_notMem (hk : k ∉ l) (hf : ∀ a ∈ l, f a ≠ k) :
    (moveKeys f l s).lookup k = s.lookup k := by
  induction l generalizing s with
  | nil => rfl
  | cons a l ih =>
    rw [moveKeys, List.foldl_cons, ← moveKeys,
      ih (fun h => hk (List.mem_cons_of_mem _ h)) (fun b hb => hf b (List.mem_cons_of_mem _ hb))]
    exact lookup_moveKey_of_ne (fun h => hk (h ▸ List.mem_cons_self))
      (hf a List.mem_cons_self).symm

theorem lookup_moveKeys_of_fixed (hf : ∀ a ∈ l, f a = a) (k : κ) :
    (moveKeys f l s).lookup k = s.lookup k := by
  induction l generalizing s with
  | nil => rfl
  | cons a l ih =>
    rw [moveKeys, List.foldl_cons, ← moveKeys, ih fun b hb => hf b (List.mem_cons_of_mem _ hb)]
    unfold moveKey
    rw [hf a List.mem_cons_self]
    cases hs : s.lookup a with
    | none => rfl
    | some v =>
      by_cases hk : k = a
      · subst hk
        rw [AList.lookup_insert, hs]
      · rw [AList.lookup_insert_ne hk, AList.lookup_erase_ne hk]

theorem lookup_moveKey_some (h : (moveKey f s k).lookup k' = some v) :
    s.lookup k' = some v ∨ s.lookup k = some v := by
  unfold moveKey at h
  split at h
  case h_1 => exact Or.inl h
  case h_2 w hw =>
    by_cases hfk : k' = f k
    · rw [hfk, AList.lookup_insert] at h
      exact Or.inr (hw.trans h)
    rw [AList.lookup_insert_ne hfk] at h
    by_cases hk : k' = k
    · rw [hk, AList.lookup_erase] at h
      cases h
    · rw [AList.lookup_erase_ne hk] at h
      exact Or.inl h

theorem lookup_moveKeys_some (h : (moveKeys f l s).lookup k = some v) :
    s.lookup k = some v ∨ ∃ a ∈ l, s.lookup a = some v := by
  induction l generalizing s with
  | nil => exact Or.inl h
  | cons a l ih =>
    rw [moveKeys, List.foldl_cons, ← moveKeys] at h
    rcases ih h with hk | ⟨b, hb, hv⟩
    · rcases lookup_moveKey_some hk with hk | ha
      · exact Or.inl hk
      · exact Or.inr ⟨a, List.mem_cons_self, ha⟩
    rcases lookup_moveKey_some hv with hv | ha
    · exact Or.inr ⟨b, List.mem_cons_of_mem _ hb, hv⟩
    · exact Or.inr ⟨a, List.mem_cons_self, ha⟩

theorem lookup_moveKeys_of_mem (hdisj : ∀ a ∈ l, f a ∉ l) (hk : k ∈ l) :
    (moveKeys f l s).lookup k = none := by
  induction l generalizing s with
  | nil => cases hk
  | cons a l ih =>
    have hdisj' : ∀ b ∈ l, f b ∉ l := fun b hb h =>
      hdisj b (List.mem_cons_of_mem _ hb) (List.mem_cons_of_mem _ h)
    rw [moveKeys, List.foldl_cons, ← moveKeys]
    by_cases hkl : k ∈ l
    · exact ih hdisj' hkl
    obtain rfl : k = a := (List.mem_cons.mp hk).resolve_right hkl
    rw [lookup_moveKeys_of_notMem hkl fun b hb h =>
      hdisj b (List.mem_cons_of_mem _ hb) (h ▸ List.mem_cons_self)]
    have hne : k ≠ f k := fun h => hdisj k List.mem_cons_self (h ▸ List.mem_cons_self)
    unfold moveKey
    cases hs : s.lookup k with
    | none => exact hs
    | some v => rw [AList.lookup_insert_ne hne, AList.lookup_erase]

theorem lookup_moveKeys_apply (hdisj : ∀ a ∈ l, f a ∉ l)
    (hinj : ∀ a ∈ l, ∀ b ∈ l, f a = f b → a = b) (hnd : l.Nodup) (hk : k ∈ l)
    (hs : (s.lookup k).isSome) : (moveKeys f l s).lookup (f k) = s.lookup k := by
  induction l generalizing s with
  | nil => cases hk
  | cons a l ih =>
    have hdisj' : ∀ b ∈ l, f b ∉ l := fun b hb h =>
      hdisj b (List.mem_cons_of_mem _ hb) (List.mem_cons_of_mem _ h)
    have hinj' : ∀ b ∈ l, ∀ c ∈ l, f b = f c → b = c := fun b hb c hc =>
      hinj b (List.mem_cons_of_mem _ hb) c (List.mem_cons_of_mem _ hc)
    obtain ⟨hal, hnd'⟩ := List.nodup_cons.mp hnd
    rw [moveKeys, List.foldl_cons, ← moveKeys]
    rcases List.mem_cons.mp hk with rfl | hkl
    · rw [lookup_moveKeys_of_notMem
        (fun h => hdisj k List.mem_cons_self (List.mem_cons_of_mem _ h)) fun b hb h => hal
          (hinj b (List.mem_cons_of_mem _ hb) k List.mem_cons_self h ▸ hb)]
      obtain ⟨v, hv⟩ := Option.isSome_iff_exists.mp hs
      rw [hv, moveKey, hv, AList.lookup_insert]
    have hka : k ≠ a := fun h => hal (h ▸ hkl)
    have hkf : k ≠ f a := fun h => hdisj a List.mem_cons_self (h ▸ List.mem_cons_of_mem _ hkl)
    have hsame : (moveKey f s a).lookup k = s.lookup k := lookup_moveKey_of_ne hka hkf
    rw [← hsame] at hs ⊢
    exact ih hdisj' hinj' hnd' hkl hs

end IosLinuxkit.Assoc
