/-!
# Runs of a labelled step function

A system is a total step function on states and labels; the outcome of every
nondeterministic choice is part of the label. A run is a list of labels. The two rules
below are the induction principles every whole-run result in this development goes
through.
-/

namespace IosLinuxkit

variable {σ ι : Type}

def run (step : σ → ι → σ) (s : σ) (ops : List ι) : σ :=
  ops.foldl step s

@[simp] theorem run_nil (step : σ → ι → σ) (s : σ) : run step s [] = s := rfl

@[simp] theorem run_cons (step : σ → ι → σ) (s : σ) (o : ι) (ops : List ι) :
    run step s (o :: ops) = run step (step s o) ops := rfl

theorem run_append (step : σ → ι → σ) (s : σ) (ops ops' : List ι) :
    run step s (ops ++ ops') = run step (run step s ops) ops' :=
  List.foldl_append

/-- Every step of the run meets the condition `ok` in the state it is taken from. -/
def AllSteps (step : σ → ι → σ) (ok : σ → ι → Prop) : σ → List ι → Prop
  | _, [] => True
  | s, o :: ops => ok s o ∧ AllSteps step ok (step s o) ops

instance AllSteps.decidable {step : σ → ι → σ} {ok : σ → ι → Prop} [∀ s o, Decidable (ok s o)] :
    (s : σ) → (ops : List ι) → Decidable (AllSteps step ok s ops)
  | _, [] => isTrue trivial
  | s, o :: ops => @instDecidableAnd _ _ _ (AllSteps.decidable (step s o) ops)

variable {step : σ → ι → σ} {ok : σ → ι → Prop} {Inv : σ → Prop} {ops : List ι} {s : σ}

/-- **Invariant rule.** What holds at the start and is kept by every step that meets `ok`
holds at the end of every run whose steps all do. -/
theorem run_invariant (hstep : ∀ s o, Inv s → ok s o → Inv (step s o)) (hinv : Inv s)
    (hok : AllSteps step ok s ops) : Inv (run step s ops) := by
  induction ops generalizing s with
  | nil => exact hinv
  | cons o ops ih => exact ih (hstep s o hinv hok.1) hok.2

theorem run_invariant_all (hstep : ∀ s o, Inv s → Inv (step s o)) (hinv : Inv s) :
    Inv (run step s ops) := by
  induction ops generalizing s with
  | nil => exact hinv
  | cons o ops ih => exact ih (hstep s o hinv)

theorem allSteps_congr {ok' : σ → ι → Prop}
    (hiff : ∀ s o, Inv s → (ok s o ↔ ok' s o)) (hstep : ∀ s o, Inv s → ok' s o → Inv (step s o))
    (hinv : Inv s) : AllSteps step ok s ops ↔ AllSteps step ok' s ops := by
  induction ops generalizing s with
  | nil => exact Iff.rfl
  | cons o ops ih =>
    constructor
    · rintro ⟨hok, hrest⟩
      have hok' := (hiff s o hinv).mp hok
      exact ⟨hok', (ih (hstep s o hinv hok')).mp hrest⟩
    · rintro ⟨hok', hrest⟩
      exact ⟨(hiff s o hinv).mpr hok', (ih (hstep s o hinv hok')).mpr hrest⟩

theorem allSteps_imp {ok' : σ → ι → Prop}
    (himp : ∀ s o, Inv s → ok s o → ok' s o) (hstep : ∀ s o, Inv s → ok s o → Inv (step s o))
    (hinv : Inv s) (hok : AllSteps step ok s ops) : AllSteps step ok' s ops := by
  induction ops generalizing s with
  | nil => trivial
  | cons o ops ih => exact ⟨himp s o hinv hok.1, ih (hstep s o hinv hok.1) hok.2⟩

theorem allSteps_of_inv
    (hstep : ∀ s o, Inv s → Inv (step s o)) (hok : ∀ s o, Inv s → ok s o) (hinv : Inv s) :
    AllSteps step ok s ops := by
  induction ops generalizing s with
  | nil => trivial
  | cons o ops ih => exact ⟨hok s o hinv, ih (hstep s o hinv)⟩

theorem allSteps_of_forall {P : ι → Prop} (hmem : ∀ o ∈ ops, P o) :
    AllSteps step (fun _ o => P o) s ops := by
  induction ops generalizing s with
  | nil => trivial
  | cons o ops ih => exact ⟨hmem o List.mem_cons_self, ih fun o' ho' => hmem o' (List.mem_cons_of_mem o ho')⟩

theorem allSteps_mem {P : ι → Prop} (hmem : ∀ o ∈ ops, P o) (hok : AllSteps step ok s ops) :
    AllSteps step (fun s o => P o ∧ ok s o) s ops := by
  induction ops generalizing s with
  | nil => trivial
  | cons o ops ih =>
    exact ⟨⟨hmem o List.mem_cons_self, hok.1⟩, ih (fun o' ho' => hmem o' (List.mem_cons_of_mem o ho')) hok.2⟩

end IosLinuxkit
