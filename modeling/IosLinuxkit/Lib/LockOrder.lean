import IosLinuxkit.Lib.Run
import Mathlib.Logic.Relation
import Mathlib.Order.Basic

/-!
# Threads that take locks

A thread runs a list of acquisitions and releases. A step of it does the next one, or, when the
lock is taken, puts the thread to sleep on it until a later step finds the lock free. Locks are
not recursive, so a thread that asks for a lock it has sleeps on itself.

Locks have ranks, and an acquisition should be of a lock above those the thread has. One that
is not is marked late in the code.

* **`not_deadlock`** — when the code of every thread is ordered and every late acquisition finds
  its lock free, no cycle of waiting threads arises.
-/

namespace IosLinuxkit.Locks

variable {L : Type} [DecidableEq L]

abbrev ThreadId := Nat

inductive Instr (L : Type) where
  | acquire (l : L) (late : Bool)
  | release (l : L)
  deriving DecidableEq

structure State (L : Type) where
  code : ThreadId → List (Instr L)
  owner : L → Option ThreadId
  waiting : ThreadId → Option L

def init : State L := { code := fun _ => [], owner := fun _ => none, waiting := fun _ => none }

/-- A thread with nothing left to do starts on `code`. -/
def start (t : ThreadId) (code : List (Instr L)) (s : State L) : State L :=
  match s.code t with
  | [] => { s with code := Function.update s.code t code }
  | _ :: _ => s

def next (t : ThreadId) (s : State L) : State L :=
  match s.code t with
  | [] => s
  | .acquire l _ :: rest =>
    match s.owner l with
    | none =>
      { code := Function.update s.code t rest
        owner := Function.update s.owner l (some t)
        waiting := Function.update s.waiting t none }
    | some _ => { s with waiting := Function.update s.waiting t (some l) }
  | .release l :: rest =>
    { s with
      code := Function.update s.code t rest
      owner := if s.owner l = some t then Function.update s.owner l none else s.owner }

def WaitsFor (s : State L) (t u : ThreadId) : Prop :=
  ∃ l, s.waiting t = some l ∧ s.owner l = some u

/-- A cycle of threads, each waiting for a lock that the next has. -/
def Deadlock (s : State L) : Prop := ∃ t, Relation.TransGen (WaitsFor s) t t

def LateFree (t : ThreadId) (s : State L) : Prop :=
  ∀ l rest, s.code t = .acquire l true :: rest → s.owner l = none

/-! ## Code -/

section Code

variable {R : Type} [Preorder R] (rank : L → R)

def Ordered : List L → List (Instr L) → Prop
  | held, [] => held = []
  | held, .acquire l late :: rest =>
    (late = true ∨ ∀ h ∈ held, rank h < rank l) ∧ Ordered (l :: held) rest
  | held, .release l :: rest => Ordered (held.erase l) rest

/-- A piece of code after which the thread has the locks it had before. -/
def Keeps (held : List L) (code : List (Instr L)) : Prop :=
  ∀ rest, Ordered rank held rest → Ordered rank held (code ++ rest)

variable {rank} {held : List L} {l : L} {late : Bool}

variable {code : List (Instr L)}

theorem ordered_of_keeps (h : Keeps rank [] code) : Ordered rank [] code := by
  have := h [] rfl
  rwa [List.append_nil] at this

theorem keeps_nil : Keeps rank held ([] : List (Instr L)) := fun _ h => h

theorem Keeps.append {code' : List (Instr L)} (h : Keeps rank held code)
    (h' : Keeps rank held code') : Keeps rank held (code ++ code') := by
  intro rest hrest
  rw [List.append_assoc]
  exact h _ (h' _ hrest)

theorem keeps_ite {c : Prop} [Decidable c] {code' : List (Instr L)}
    (h : Keeps rank held code) (h' : Keeps rank held code') :
    Keeps rank held (if c then code else code') := by
  split
  · exact h
  · exact h'

theorem keeps_flatMap {α : Type} {f : α → List (Instr L)} {xs : List α}
    (h : ∀ x, Keeps rank held (f x)) : Keeps rank held (xs.flatMap f) := by
  induction xs with
  | nil => exact keeps_nil
  | cons x xs ih =>
    rw [List.flatMap_cons]
    exact (h x).append ih

theorem keeps_section {body : List (Instr L)}
    (hl : late = true ∨ ∀ h ∈ held, rank h < rank l) (h : Keeps rank (l :: held) body) :
    Keeps rank held (.acquire l late :: body ++ [.release l]) := by
  intro rest hrest
  refine ⟨hl, ?_⟩
  show Ordered rank (l :: held) (body ++ [.release l] ++ rest)
  rw [List.append_assoc]
  apply h
  show Ordered rank ((l :: held).erase l) rest
  rwa [List.erase_cons_head]

theorem keeps_relock {body : List (Instr L)}
    (hl : late = true ∨ ∀ h ∈ held, rank h < rank l) (h : Keeps rank held body) :
    Keeps rank (l :: held) (.release l :: body ++ [.acquire l late]) := by
  intro rest hrest
  show Ordered rank ((l :: held).erase l) (body ++ [.acquire l late] ++ rest)
  rw [List.erase_cons_head, List.append_assoc]
  apply h
  exact ⟨hl, hrest⟩

end Code

/-! ## Steps -/

variable {R : Type} [Preorder R] {rank : L → R} {s : State L}

structure Inv (rank : L → R) (s : State L) : Prop where
  /-- a thread that sleeps has not moved since -/
  sleeps : ∀ t l, s.waiting t = some l → ∃ late rest, s.code t = .acquire l late :: rest
  /-- it went to sleep on a lock above those it has -/
  above : ∀ t l l', s.waiting t = some l → s.owner l' = some t → rank l' < rank l
  ordered : ∀ t, ∃ held, (∀ l, s.owner l = some t → l ∈ held) ∧ Ordered rank held (s.code t)

theorem inv_init : Inv rank (init : State L) where
  sleeps := by
    intro t l h
    cases h
  above := by
    intro t l l' h
    cases h
  ordered := fun t => ⟨[], fun l h => (by cases h), rfl⟩

variable {t : ThreadId} {l : L} {rest : List (Instr L)}

theorem inv_start {code : List (Instr L)} (h : Inv rank s)
    (hcode : Ordered rank [] code) : Inv rank (start t code s) := by
  unfold start
  split
  case h_2 => exact h
  case h_1 hc =>
    refine ⟨?_, h.above, ?_⟩
    · intro u l hu
      obtain ⟨late, rest, hrest⟩ := h.sleeps u l hu
      have hut : u ≠ t := by
        intro hut
        rw [hut, hc] at hrest
        cases hrest
      exact ⟨late, rest, by simpa [hut] using hrest⟩
    intro u
    obtain ⟨held, hheld, hord⟩ := h.ordered u
    by_cases hut : u = t
    · subst hut
      -- the thread was done, so it has nothing
      rw [hc] at hord
      obtain rfl : held = [] := hord
      exact ⟨[], hheld, by simpa using hcode⟩
    · exact ⟨held, hheld, by simpa [hut] using hord⟩

theorem inv_acquire {late : Bool}
    (h : Inv rank s) (hc : s.code t = .acquire l late :: rest) (hfree : s.owner l = none) : Inv rank
      { code := Function.update s.code t rest
        owner := Function.update s.owner l (some t)
        waiting := Function.update s.waiting t none } where
  sleeps := by
    intro u k hu
    by_cases hut : u = t
    · subst hut
      simp at hu
    · obtain ⟨lt, r, hr⟩ := h.sleeps u k (by simpa [hut] using hu)
      exact ⟨lt, r, by simpa [hut] using hr⟩
  above := by
    intro u k k' hu hown
    by_cases hut : u = t
    · subst hut
      simp at hu
    · apply h.above u k k' (by simpa [hut] using hu)
      by_cases hk : k' = l
      · subst hk
        simp only [Function.update_self, Option.some.injEq] at hown
        exact absurd hown.symm hut
      · simpa [hk] using hown
  ordered := by
    intro u
    obtain ⟨held, hheld, hord⟩ := h.ordered u
    by_cases hut : u = t
    · subst hut
      rw [hc] at hord
      refine ⟨l :: held, ?_, by simpa using hord.2⟩
      intro k hk
      by_cases hkl : k = l
      · exact hkl ▸ List.mem_cons_self
      · exact List.mem_cons_of_mem _ (hheld k (by simpa [hkl] using hk))
    refine ⟨held, ?_, by simpa [hut] using hord⟩
    intro k hk
    by_cases hkl : k = l
    · subst hkl
      simp only [Function.update_self, Option.some.injEq] at hk
      exact absurd hk.symm hut
    · exact hheld k (by simpa [hkl] using hk)

theorem inv_sleep (h : Inv rank s) (hc : s.code t = .acquire l false :: rest) :
    Inv rank { s with waiting := Function.update s.waiting t (some l) } where
  sleeps := by
    intro u k hu
    by_cases hut : u = t
    · subst hut
      simp only [Function.update_self, Option.some.injEq] at hu
      exact ⟨false, rest, hu ▸ hc⟩
    · exact h.sleeps u k (by simpa [hut] using hu)
  above := by
    intro u k k' hu hown
    by_cases hut : u = t
    · subst hut
      simp only [Function.update_self, Option.some.injEq] at hu
      obtain ⟨held, hheld, hord⟩ := h.ordered u
      rw [hc] at hord
      rcases hord.1 with hlate | hlt
      · cases hlate
      · exact hu ▸ hlt k' (hheld k' hown)
    · exact h.above u k k' (by simpa [hut] using hu) hown
  ordered := h.ordered

theorem owner_release {u : ThreadId} {k : L}
    (h : (if s.owner l = some t then Function.update s.owner l none else s.owner) k = some u) :
    s.owner k = some u ∧ (u = t → k ≠ l) := by
  split at h
  · by_cases hk : k = l
    · subst hk
      simp at h
    · exact ⟨by simpa [hk] using h, fun _ => hk⟩
  case isFalse hne => exact ⟨h, fun hut hk => hne (by rw [← hk, h, hut])⟩

theorem inv_release (h : Inv rank s) (hc : s.code t = .release l :: rest) : Inv rank { s with
      code := Function.update s.code t rest
      owner := if s.owner l = some t then Function.update s.owner l none else s.owner } where
  sleeps := by
    intro u k hu
    obtain ⟨late, r, hr⟩ := h.sleeps u k hu
    have hut : u ≠ t := by
      intro hut
      rw [hut, hc] at hr
      cases hr
    exact ⟨late, r, by simpa [hut] using hr⟩
  above := fun u k k' hu hown => h.above u k k' hu (owner_release hown).1
  ordered := by
    intro u
    obtain ⟨held, hheld, hord⟩ := h.ordered u
    by_cases hut : u = t
    · subst hut
      rw [hc] at hord
      refine ⟨held.erase l, ?_, by simpa [Ordered] using hord⟩
      intro k hk
      obtain ⟨hown, hne⟩ := owner_release hk
      exact (List.mem_erase_of_ne (hne rfl)).mpr (hheld k hown)
    · exact ⟨held, fun k hk => hheld k (owner_release hk).1, by simpa [hut] using hord⟩

theorem inv_next (h : Inv rank s) (hfree : LateFree t s) : Inv rank (next t s) := by
  unfold next
  split
  case h_1 => exact h
  case h_2 l late rest hc =>
    split
    case h_1 hnone => exact inv_acquire h hc hnone
    case h_2 u hu =>
      cases late with
      | true =>
        have := hfree l rest hc
        rw [hu] at this
        cases this
      | false => exact inv_sleep h hc
  case h_3 l rest hc => exact inv_release h hc

theorem rank_lt_of_waits (h : Inv rank s) {u : ThreadId}
    (hw : Relation.TransGen (WaitsFor s) t u) (hu : s.waiting u = some l) :
    ∃ k, s.waiting t = some k ∧ rank k < rank l := by
  induction hw generalizing l with
  | single hw =>
    obtain ⟨k, hk, hown⟩ := hw
    exact ⟨k, hk, h.above _ l k hu hown⟩
  | tail _ hw ih =>
    obtain ⟨m, hm, hown⟩ := hw
    obtain ⟨k, hk, hlt⟩ := ih hm
    exact ⟨k, hk, hlt.trans (h.above _ l m hu hown)⟩

theorem not_deadlock (h : Inv rank s) : ¬ Deadlock s := by
  rintro ⟨t, hcycle⟩
  obtain ⟨l, hl⟩ : ∃ l, s.waiting t = some l := by
    obtain ⟨_, ⟨l, hl, -⟩, -⟩ := Relation.TransGen.head'_iff.mp hcycle
    exact ⟨l, hl⟩
  obtain ⟨k, hk, hlt⟩ := rank_lt_of_waits h hcycle hl
  rw [hl] at hk
  obtain rfl := Option.some.inj hk
  exact lt_irrefl _ hlt

end IosLinuxkit.Locks
