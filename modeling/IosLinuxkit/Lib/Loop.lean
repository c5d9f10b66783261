/-!
# Loops that return

`for (;;) body`, where the body goes on in another state or returns a result, and something decreases.

* **`Loop.result_of_invariant`** — what holds at the start and is kept by each iteration holds where the
  loop returns. The iterations may rely on a condition that all visited states meet.
-/

namespace IosLinuxkit

/-- The body, and what it decreases. -/
structure Loop (σ ρ : Type) where
  step : σ → σ ⊕ ρ
  size : σ → Nat
  decreases : ∀ s s', step s = .inl s' → size s' < size s

namespace Loop

variable {σ ρ : Type} {l : Loop σ ρ} {s s' s'' : σ} {r : ρ}

def result (l : Loop σ ρ) (s : σ) : ρ :=
  match _h : l.step s with
  | .inl s' => l.result s'
  | .inr r => r
termination_by l.size s
decreasing_by exact l.decreases s s' _h

theorem result_of_next (h : l.step s = .inl s') : l.result s = l.result s' := by
  rw [result]
  split
  case h_1 t ht =>
    rw [h] at ht
    cases ht
    rfl
  case h_2 t ht =>
    rw [h] at ht
    cases ht

theorem result_of_return (h : l.step s = .inr r) : l.result s = r := by
  rw [result]
  split
  case h_1 t ht =>
    rw [h] at ht
    cases ht
  case h_2 t ht =>
    rw [h] at ht
    cases ht
    rfl

/-- The states that the loop comes through. -/
inductive Visits (l : Loop σ ρ) : σ → σ → Prop where
  | start (s : σ) : l.Visits s s
  | next {s s' s'' : σ} (h : l.step s = .inl s') (hrest : l.Visits s' s'') : l.Visits s s''

theorem result_of_invariant (ok Inv : σ → Prop) (Post : ρ → Prop)
    (hnext : ∀ s s', Inv s → ok s → l.step s = .inl s' → Inv s')
    (hreturn : ∀ s r, Inv s → ok s → l.step s = .inr r → Post r)
    (hok : ∀ t, l.Visits s t → ok t) (hinv : Inv s) : Post (l.result s) := by
  -- on the size, for the loop may return only after many iterations
  induction hsize : l.size s using Nat.strongRecOn generalizing s with
  | ind n ih =>
    have hnow := hok s (.start s)
    cases hstep : l.step s with
    | inl t =>
      rw [result_of_next hstep]
      have hlt := l.decreases s t hstep
      exact ih (l.size t) (hsize ▸ hlt) (fun u hu => hok u (.next hstep hu))
        (hnext s t hinv hnow hstep) rfl
    | inr r =>
      rw [result_of_return hstep]
      exact hreturn s r hinv hnow hstep

end Loop

end IosLinuxkit
