import Mathlib.Data.List.Basic

/-!
# Lists grouped by a key

A list is grouped when the elements of each key stand next to each other, in no order of the keys.

* **`Grouped.split`** — a grouped list is what stands before a key, the key's elements, and what
  stands behind, and the key occurs in the middle part only.
* **`Grouped.replace`** — the elements of a key may be replaced by any others of that key.
-/

namespace IosLinuxkit

variable {α κ : Type} {key : α → κ}

def Grouped (key : α → κ) : List α → Prop
  | [] => True
  | a :: as => Grouped key as ∧ ((∃ b ∈ as, key b = key a) → ∃ b, as.head? = some b ∧ key b = key a)

structure GroupSplit (key : α → κ) (k : κ) (as pre own post : List α) : Prop where
  eq : as = pre ++ (own ++ post)
  pre_ne : ∀ a ∈ pre, key a ≠ k
  own_eq : ∀ a ∈ own, key a = k
  post_ne : ∀ a ∈ post, key a ≠ k
  post_nil : own = [] → post = []

namespace Grouped

theorem append_right {as bs : List α} (h : Grouped key (as ++ bs)) : Grouped key bs := by
  induction as with
  | nil => exact h
  | cons a as ih => exact ih h.1

theorem split [DecidableEq κ] (k : κ) {as : List α} (h : Grouped key as) :
    ∃ pre own post, GroupSplit key k as pre own post := by
  induction as with
  | nil => exact ⟨[], [], [], rfl, nofun, nofun, nofun, fun _ => rfl⟩
  | cons a as ih =>
    obtain ⟨pre, own, post, hs⟩ := ih h.1
    have heq := hs.eq
    subst heq
    by_cases ha : key a = k
    · -- the key starts here, so what stands before its next elements is empty
      cases pre with
      | nil =>
        refine ⟨[], a :: own, post, rfl, nofun, ?_, hs.post_ne, fun hnil => by simp at hnil⟩
        intro b hb
        cases hb with
        | head => exact ha
        | tail _ hb => exact hs.own_eq b hb
      | cons p pre =>
        have hnot : ∀ b ∈ p :: pre ++ (own ++ post), key b ≠ k := by
          intro b hb hk
          obtain ⟨c, hc, hck⟩ := h.2 ⟨b, hb, hk.trans ha.symm⟩
          have hcp : p = c := by simpa using hc
          exact hs.pre_ne p (.head _) (hcp ▸ hck.trans ha)
        refine ⟨[], [a], p :: pre ++ (own ++ post), rfl, nofun, ?_, hnot, fun hnil => by simp at hnil⟩
        intro b hb
        rw [List.mem_singleton.mp hb]
        exact ha
    refine ⟨a :: pre, own, post, rfl, ?_, hs.own_eq, hs.post_ne, hs.post_nil⟩
    intro b hb
    cases hb with
    | head => exact ha
    | tail _ hb => exact hs.pre_ne b hb

theorem append_own {k : κ} {own post : List α} (heq : ∀ a ∈ own, key a = k)
    (hne : ∀ a ∈ post, key a ≠ k) (h : Grouped key post) : Grouped key (own ++ post) := by
  induction own with
  | nil => exact h
  | cons a own ih =>
    refine ⟨ih fun b hb => heq b (.tail _ hb), ?_⟩
    rintro ⟨b, hb, hk⟩
    have ha : key a = k := heq a (.head _)
    cases own with
    | nil => exact absurd (hk.trans ha) (hne b hb)
    | cons a' own => exact ⟨a', rfl, (heq a' (.tail _ (.head _))).trans ha.symm⟩

theorem replace {k : κ} {as pre own post own' : List α} (h : Grouped key as)
    (hs : GroupSplit key k as pre own post) (heq : ∀ a ∈ own', key a = k) :
    Grouped key (pre ++ (own' ++ post)) := by
  obtain ⟨has, hpre, hown, hpost, hnil⟩ := hs
  subst has
  induction pre with
  | nil =>
    have hold : Grouped key (own ++ post) := h
    show Grouped key (own' ++ post)
    exact append_own heq hpost hold.append_right
  | cons a pre ih =>
    refine ⟨ih (fun b hb => hpre b (.tail _ hb)) h.1, ?_⟩
    have ha : key a ≠ k := hpre a (.head _)
    rintro ⟨b, hb, hk⟩
    -- the element of the same key is not one of the replaced ones, so it was there before
    have hold : b ∈ pre ++ (own ++ post) := by
      rcases List.mem_append.mp hb with hb | hb
      · exact List.mem_append_left _ hb
      rcases List.mem_append.mp hb with hb | hb
      · exact absurd ((hk.symm.trans (heq b hb))) ha
      · exact List.mem_append_right _ (List.mem_append_right _ hb)
    obtain ⟨c, hc, hck⟩ := h.2 ⟨b, hold, hk⟩
    cases pre with
    | cons p pre => exact ⟨c, hc, hck⟩
    | nil =>
      cases own with
      | cons o own =>
        have hco : o = c := by simpa using hc
        exact absurd (hck.symm.trans (hco ▸ hown o (.head _))) ha
      | nil =>
        rw [hnil rfl] at hold
        exact absurd hold (by simp)

end Grouped

end IosLinuxkit
