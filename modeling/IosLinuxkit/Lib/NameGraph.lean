/-!
# Objects under names

Objects with named entries, as the directories of a file system have them, where an object may
stand for another (`follow`). A path stands for the objects a walk along its names comes to; a walk
may begin at several places.

Some paths are roots of what is to be kept. The paths at and under them are covered, the ones above
them are the way there, and all others are outside.

* **`reach_iff_of_covered`** — an edit leaves what covered paths stand for.
* **`Separate.edit`** — and it keeps the separation.
-/

namespace IosLinuxkit.Names

variable {O N : Type}

structure Graph (O N : Type) where
  entry : O → N → Option O
  follow : O → O

/-- A walk along the names of the path ends in the object. -/
inductive Reach (base : List N → O → Prop) (g : Graph O N) : List N → O → Prop
  | base {p : List N} {x : O} (hbase : base p x) : Reach base g p x
  | step {p : List N} {x y : O} {n : N} (hreach : Reach base g p x)
    (hentry : g.entry (g.follow x) n = some y) : Reach base g (p ++ [n]) y

/-- The object a path stands for, or the one that stands for it. -/
def StandsFor (base : List N → O → Prop) (g : Graph O N) (p : List N) (x : O) : Prop :=
  ∃ y, Reach base g p y ∧ (x = y ∨ x = g.follow y)

/-! ## Covered paths -/

section

variable (kept : List N → Prop)

def Covered (p : List N) : Prop := ∃ m, kept m ∧ m <+: p

def Above (p : List N) : Prop := ¬ Covered kept p ∧ ∃ m, kept m ∧ p <+: m

def Outside (p : List N) : Prop := ¬ Covered kept p ∧ ¬ ∃ m, kept m ∧ p <+: m

def Alike (p q : List N) : Prop :=
  p = q ∨ Covered kept p ∧ Covered kept q ∨ Outside kept p ∧ Outside kept q

end

variable {kept : List N → Prop} {p q : List N} {n : N}

theorem Covered.append (h : Covered kept p) (q : List N) : Covered kept (p ++ q) := by
  obtain ⟨m, hm, hpre⟩ := h
  exact ⟨m, hm, hpre.trans (List.prefix_append p q)⟩

theorem Outside.append (h : Outside kept p) (q : List N) : Outside kept (p ++ q) := by
  refine ⟨?_, ?_⟩
  · rintro ⟨m, hm, hpre⟩
    -- two beginnings of one path are comparable
    rcases List.prefix_or_prefix_of_prefix hpre (List.prefix_append p q) with hmp | hpm
    · exact h.1 ⟨m, hm, hmp⟩
    · exact h.2 ⟨m, hm, hpm⟩
  · rintro ⟨m, hm, hpre⟩
    exact h.2 ⟨m, hm, (List.prefix_append p q).trans hpre⟩

theorem outside_or (kept : List N → Prop) (p : List N) :
    Covered kept p ∨ Above kept p ∨ Outside kept p := by
  by_cases hc : Covered kept p
  · exact Or.inl hc
  by_cases ha : ∃ m, kept m ∧ p <+: m
  · exact Or.inr (Or.inl ⟨hc, ha⟩)
  · exact Or.inr (Or.inr ⟨hc, ha⟩)

theorem Above.not_outside (h : Above kept p) : ¬ Outside kept p := fun ho => ho.2 h.2

theorem Covered.not_outside (h : Covered kept p) : ¬ Outside kept p := fun ho => ho.1 h

/-! ## Separation and edits -/

section

variable (base : List N → O → Prop) (kept : List N → Prop) (old : O → Prop)

structure Separate (g : Graph O N) : Prop where
  objects : ∀ p q x, Covered kept p → ¬ Covered kept q → StandsFor base g p x →
    ¬ StandsFor base g q x
  entries : ∀ p q x y n, Reach base g p x → Reach base g q y → g.follow x = g.follow y →
    Alike kept (p ++ [n]) (q ++ [n])

structure Closed (g : Graph O N) : Prop where
  base : ∀ p x, base p x → old x
  entry : ∀ d n y, g.entry d n = some y → old y
  follow : ∀ x, old x → old (g.follow x)

def Leaf (g : Graph O N) (x : O) : Prop := g.follow x = x ∧ ∀ n, g.entry x n = none

inductive EntryEdit (g g' : Graph O N) (d : O) (n : N) : Prop
  | same (h : g'.entry d n = g.entry d n)
  | outside {q : List N} {x : O} (hreach : Reach base g q x) (hd : g.follow x = d)
    (hout : Outside kept (q ++ [n]))
    (hval : ∀ y, g'.entry d n = some y → old y → ∃ o, Outside kept o ∧ Reach base g o y)
  | above {q : List N} {x : O} (hreach : Reach base g q x) (hd : g.follow x = d)
    (habove : Above kept (q ++ [n])) (hwas : ∀ y, g.entry d n = some y → Leaf g y)
    (hval : ∀ y, g'.entry d n = some y → ¬ old y)

structure Edit (g g' : Graph O N) : Prop where
  follow : ∀ x, old x → g'.follow x = g.follow x
  entry : ∀ d n, EntryEdit base kept old g g' d n
  fresh : ∀ x, ¬ old x → Leaf g' x
  /-- a new object gets one name -/
  once : ∀ d n d' n' y, ¬ old y → g'.entry d n = some y → g'.entry d' n' = some y → d = d' ∧ n = n'

end

variable {base : List N → O → Prop} {old : O → Prop} {g g' : Graph O N} {x y : O}

theorem Reach.isOld (hc : Closed base old g) (h : Reach base g p x) : old x := by
  cases h with
  | base hb => exact hc.base _ _ hb
  | step _ he => exact hc.entry _ _ _ he

theorem StandsFor.isOld (hc : Closed base old g) (h : StandsFor base g p x) : old x := by
  obtain ⟨y, hy, rfl | rfl⟩ := h
  · exact hy.isOld hc
  · exact hc.follow y (hy.isOld hc)

theorem Reach.standsFor (h : Reach base g p x) : StandsFor base g p x := ⟨x, h, Or.inl rfl⟩

theorem Reach.standsFor_follow (h : Reach base g p x) : StandsFor base g p (g.follow x) :=
  ⟨x, h, Or.inr rfl⟩

def Origin (base : List N → O → Prop) (kept : List N → Prop) (g : Graph O N) (p : List N)
    (x : O) : Prop :=
  ¬ Outside kept p ∧ Reach base g p x ∨ Outside kept p ∧ ∃ o, Outside kept o ∧ Reach base g o x

theorem Reach.origin (h : Reach base g p x) : Origin base kept g p x := by
  by_cases hp : Outside kept p
  · exact Or.inr ⟨hp, p, hp, h⟩
  · exact Or.inl ⟨hp, h⟩

theorem Origin.alike (hs : Separate base kept g) (hx : Origin base kept g p x)
    (hy : Origin base kept g q y) (hd : g.follow x = g.follow y) (n : N) :
    Alike kept (p ++ [n]) (q ++ [n]) := by
  rcases hx with ⟨hp, hx⟩ | ⟨hp, o, ho, hx⟩
  · rcases hy with ⟨-, hy⟩ | ⟨hq, o, ho, hy⟩
    · exact hs.entries p q x y n hx hy hd
    rcases hs.entries p o x y n hx hy hd with heq | ⟨_, hcov⟩ | ⟨hout, _⟩
    · obtain rfl : p = o := List.append_cancel_right heq
      exact absurd ho hp
    · exact absurd (ho.append [n]) hcov.not_outside
    · exact Or.inr (Or.inr ⟨hout, hq.append [n]⟩)
  rcases hy with ⟨hq, hy⟩ | ⟨hq, o', -, hy⟩
  · rcases hs.entries o q x y n hx hy hd with heq | ⟨hcov, _⟩ | ⟨_, hout⟩
    · obtain rfl : o = q := List.append_cancel_right heq
      exact absurd ho hq
    · exact absurd (ho.append [n]) hcov.not_outside
    · exact Or.inr (Or.inr ⟨hp.append [n], hout⟩)
  · exact Or.inr (Or.inr ⟨hp.append [n], hq.append [n]⟩)

theorem Origin.isOld (hc : Closed base old g) (h : Origin base kept g p x) : old x := by
  rcases h with ⟨_, hx⟩ | ⟨_, _, _, hx⟩
  · exact hx.isOld hc
  · exact hx.isOld hc

theorem Origin.step (h : Origin base kept g p x) (he : g.entry (g.follow x) n = some y) :
    Origin base kept g (p ++ [n]) y := by
  rcases h with ⟨_, hx⟩ | ⟨hp, o, ho, hx⟩
  · exact (hx.step he).origin
  · exact Or.inr ⟨hp.append [n], o ++ [n], ho.append [n], hx.step he⟩

theorem Alike.outside (h : Alike kept p q) (hq : Outside kept q) : Outside kept p := by
  rcases h with rfl | ⟨_, hcov⟩ | ⟨hp, _⟩
  · exact hq
  · exact absurd hq hcov.not_outside
  · exact hp

theorem Alike.eq_of_above (h : Alike kept p q) (hq : Above kept q) : p = q := by
  rcases h with rfl | ⟨_, hcov⟩ | ⟨_, hout⟩
  · rfl
  · exact absurd hcov hq.1
  · exact absurd hout hq.not_outside

section

variable (hs : Separate base kept g) (hc : Closed base old g) (he : Edit base kept old g g')
include hs hc he

theorem reach_edit (h : Reach base g' p y) : Origin base kept g p y ∨ ¬ old y ∧ ¬ Covered kept p ∧
      ∃ p₀ x₀ n, p = p₀ ++ [n] ∧ Origin base kept g p₀ x₀ ∧ g'.entry (g.follow x₀) n = some y := by
  induction h with
  | base hb => exact Or.inl (Reach.base hb).origin
  | @step p₀ x₀ y n _ hentry ih =>
    rcases ih with hx | ⟨hnew, _, _⟩
    · rw [he.follow x₀ (hx.isOld hc)] at hentry
      cases he.entry (g.follow x₀) n with
      | same h =>
        rw [h] at hentry
        exact Or.inl (hx.step hentry)
      | outside hq hd hout hval =>
        have hp := (hx.alike hs hq.origin hd.symm n).outside hout
        by_cases hy : old y
        · exact Or.inl (Or.inr ⟨hp, hval y hentry hy⟩)
        · exact Or.inr ⟨hy, hp.1, p₀, x₀, n, rfl, hx, hentry⟩
      | above hq hd habove _ hval =>
        have hp := (hx.alike hs hq.origin hd.symm n).eq_of_above habove
        refine Or.inr ⟨hval y hentry, ?_, p₀, x₀, n, rfl, hx, hentry⟩
        rw [hp]
        exact habove.1
    · -- nothing is reached through a new object
      obtain ⟨hfollow, hnone⟩ := he.fresh x₀ hnew
      rw [hfollow, hnone n] at hentry
      cases hentry

theorem reach_of_edit (h : Reach base g p x) (hp : ¬ Outside kept p) :
    Reach base g' p x ∨ Above kept p ∧ Leaf g x := by
  induction h with
  | base hb => exact Or.inl (.base hb)
  | @step p₀ x₀ y n hreach hentry ih =>
    rcases ih fun ho => hp (ho.append [n]) with hx | ⟨_, hfollow, hnone⟩
    · have hstep : g'.entry (g.follow x₀) n = some y → Reach base g' (p₀ ++ [n]) y := by
        intro h
        rw [← he.follow x₀ (hreach.isOld hc)] at h
        exact hx.step h
      cases he.entry (g.follow x₀) n with
      | same h => exact Or.inl (hstep (h.trans hentry))
      | outside hq hd hout _ =>
        exact absurd ((hreach.origin.alike hs hq.origin hd.symm n).outside hout) hp
      | above hq hd habove hwas _ =>
        have hp' := (hreach.origin.alike hs hq.origin hd.symm n).eq_of_above habove
        rw [hp']
        exact Or.inr ⟨habove, hwas y hentry⟩
    · rw [hfollow, hnone n] at hentry
      cases hentry

theorem reach_iff_of_covered (hp : Covered kept p) : Reach base g' p x ↔ Reach base g p x := by
  constructor
  · intro h
    rcases reach_edit hs hc he h with (⟨_, hx⟩ | ⟨hout, _⟩) | ⟨_, hnot, _⟩
    · exact hx
    · exact absurd hout hp.not_outside
    · exact absurd hp hnot
  intro h
  rcases reach_of_edit hs hc he h hp.not_outside with hx | ⟨habove, _⟩
  · exact hx
  · exact absurd hp habove.1

theorem standsFor_iff_of_covered (hp : Covered kept p) :
    StandsFor base g' p x ↔ StandsFor base g p x := by
  constructor
  · rintro ⟨y, hy, hx⟩
    rw [reach_iff_of_covered hs hc he hp] at hy
    rw [he.follow y (hy.isOld hc)] at hx
    exact ⟨y, hy, hx⟩
  rintro ⟨y, hy, hx⟩
  rw [← he.follow y (hy.isOld hc)] at hx
  exact ⟨y, (reach_iff_of_covered hs hc he hp).mpr hy, hx⟩

theorem Separate.edit : Separate base kept g' := by
  constructor
  · intro p q x hp hq hpx hqx
    rw [standsFor_iff_of_covered hs hc he hp] at hpx
    have hold := hpx.isOld hc
    obtain ⟨z, hz, hxz⟩ := hqx
    rcases reach_edit hs hc he hz with hz | ⟨hnew, _⟩
    · rw [he.follow z (hz.isOld hc)] at hxz
      rcases hz with ⟨_, hz⟩ | ⟨_, o, ho, hz⟩
      · exact hs.objects p q x hp hq hpx ⟨z, hz, hxz⟩
      · exact hs.objects p o x hp ho.1 hpx ⟨z, hz, hxz⟩
    · -- a new object stands for itself
      rw [(he.fresh z hnew).1, or_self] at hxz
      exact hnew (hxz ▸ hold)
  intro p q x y n hx hy hd
  rcases reach_edit hs hc he hx with hx | ⟨hxnew, hpcov, p₀, x₀, a, rfl, hx₀, hxe⟩
  · rw [he.follow x (hx.isOld hc)] at hd
    rcases reach_edit hs hc he hy with hy | ⟨hynew, _⟩
    · rw [he.follow y (hy.isOld hc)] at hd
      exact hx.alike hs hy hd n
    · rw [(he.fresh y hynew).1] at hd
      exact absurd (hd ▸ hc.follow x (hx.isOld hc)) hynew
  rw [(he.fresh x hxnew).1] at hd
  rcases reach_edit hs hc he hy with hy | ⟨hynew, _, q₀, y₀, b, rfl, hy₀, hye⟩
  · rw [he.follow y (hy.isOld hc)] at hd
    exact absurd (hd ▸ hc.follow y (hy.isOld hc)) hxnew
  · -- both are the new object, so they have its one entry
    rw [(he.fresh y hynew).1] at hd
    subst hd
    obtain ⟨hdir, rfl⟩ := he.once _ _ _ _ _ hxnew hxe hye
    rcases hx₀.alike hs hy₀ hdir a with heq | ⟨hcov, _⟩ | ⟨hp, hq⟩
    · exact Or.inl (by rw [heq])
    · exact absurd hcov hpcov
    · exact Or.inr (Or.inr ⟨hp.append [n], hq.append [n]⟩)

end

end IosLinuxkit.Names
