/-!
# Prefixes as a range of the lexicographic order

A key that sorts at or after `a ++ [c]` and before `a ++ [d]`, where `d` is next after `c`, is one
that begins with `a ++ [c]`. An index on strings can so be asked for all keys with a prefix.
-/

namespace IosLinuxkit

variable {α : Type} [LT α]

def NextAfter (c d : α) : Prop := ∀ x : α, (¬ x < c ∧ x < d) ↔ x = c

theorem lexRange_iff_prefix {c d : α} (hirr : ∀ x : α, ¬ x < x) (hcd : NextAfter c d)
    (a b : List α) : (¬ b < a ++ [c] ∧ b < a ++ [d]) ↔ ∃ rest, b = a ++ c :: rest := by
  induction a generalizing b with
  | nil =>
    cases b with
    | nil =>
      have hnil : ([] : List α) < [c] := List.nil_lt_cons _ _
      simp [hnil]
    | cons x xs =>
      have hc := hcd x
      simp only [List.nil_append, List.cons_lt_cons_iff, List.not_lt_nil, and_false, or_false,
        List.cons.injEq]
      rw [hc]
      exact ⟨fun hx => ⟨xs, hx, rfl⟩, fun ⟨_, hx, _⟩ => hx⟩
  | cons y a ih =>
    cases b with
    | nil =>
      simp
    | cons x xs =>
      simp only [List.cons_append, List.cons_lt_cons_iff, List.cons.injEq]
      constructor
      · rintro ⟨hlo, hhi⟩
        rcases hhi with hlt | ⟨rfl, hhi⟩
        · exact absurd (Or.inl hlt) hlo
        · obtain ⟨rest, hrest⟩ := (ih xs).mp ⟨fun h => hlo (Or.inr ⟨rfl, h⟩), hhi⟩
          exact ⟨rest, rfl, hrest⟩
      rintro ⟨rest, rfl, hrest⟩
      obtain ⟨hlo, hhi⟩ := (ih xs).mpr ⟨rest, hrest⟩
      refine ⟨?_, Or.inr ⟨rfl, hhi⟩⟩
      rintro (hlt | ⟨_, hlt⟩)
      · exact hirr x hlt
      · exact hlo hlt

end IosLinuxkit
