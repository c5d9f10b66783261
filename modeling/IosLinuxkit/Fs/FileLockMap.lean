import IosLinuxkit.Lib.Grouped
import IosLinuxkit.Fs.FileLockOwn

/-!
# The lock list refines a map

* **`fileLock_run`** — every history whose requests meet `NoWrap`.
-/

namespace IosLinuxkit.Fs

variable {Owner : Type} {l req : FileLock Owner}
  {L pre own post : List (FileLock Owner)} {o : Owner} {x : Int} {ty : LockType}

structure GoodLocks (L : List (FileLock Owner)) : Prop where
  valid : ∀ l ∈ L, l.Valid
  held : ∀ l ∈ L, l.type ≠ .unlck
  apart : L.Pairwise fun a b => a.owner = b.owner → Gapped a b
  grouped : Grouped FileLock.owner L

theorem goodLocks_nil : GoodLocks ([] : List (FileLock Owner)) :=
  ⟨nofun, nofun, .nil, trivial⟩

/-! ## Good lists -/

theorem mem_placed : l ∈ placed req ↔ req.type ≠ .unlck ∧ l = req := by
  unfold placed
  split <;> simp [*]

theorem GoodLocks.own_apart (h : GoodLocks L)
    (hs : GroupSplit FileLock.owner o L pre own post) : own.Pairwise Gapped := by
  have hsub := h.apart
  rw [hs.eq] at hsub
  have hown := (List.pairwise_append.mp (List.pairwise_append.mp hsub).2.1).1
  exact hown.imp_of_mem fun ha hb hab => hab ((hs.own_eq _ ha).trans (hs.own_eq _ hb).symm)

theorem GoodLocks.replace (h : GoodLocks L) (hs : GroupSplit FileLock.owner o L pre own post)
    {own' : List (FileLock Owner)} (hown : ∀ l ∈ own', l.owner = o) (hvalid : ∀ l ∈ own', l.Valid)
    (hheld : ∀ l ∈ own', l.type ≠ .unlck) (hapart : own'.Pairwise Gapped) :
    GoodLocks (pre ++ (own' ++ post)) where
  valid l hl := by
    rcases List.mem_append.mp hl with hl | hl
    · exact h.valid l (hs.eq ▸ List.mem_append_left _ hl)
    rcases List.mem_append.mp hl with hl | hl
    · exact hvalid l hl
    · exact h.valid l (hs.eq ▸ List.mem_append_right _ (List.mem_append_right _ hl))
  held l hl := by
    rcases List.mem_append.mp hl with hl | hl
    · exact h.held l (hs.eq ▸ List.mem_append_left _ hl)
    rcases List.mem_append.mp hl with hl | hl
    · exact hheld l hl
    · exact h.held l (hs.eq ▸ List.mem_append_right _ (List.mem_append_right _ hl))
  apart := by
    have hall := h.apart
    rw [hs.eq] at hall
    obtain ⟨hpre, hrest, hcross⟩ := List.pairwise_append.mp hall
    obtain ⟨-, hpost, -⟩ := List.pairwise_append.mp hrest
    have hnew : own'.Pairwise fun a b => a.owner = b.owner → Gapped a b :=
      hapart.imp_of_mem fun _ _ hab _ => hab
    refine List.pairwise_append.mpr ⟨hpre, List.pairwise_append.mpr
      ⟨hnew, hpost, fun a ha b hb hab => ?_⟩, fun a ha b hb => ?_⟩
    · exact absurd (hab.symm.trans (hown a ha)) (hs.post_ne b hb)
    rcases List.mem_append.mp hb with hb | hb
    · exact fun hab => absurd (hab.trans (hown b hb)) (hs.pre_ne a ha)
    · exact hcross a ha b (List.mem_append_right _ hb)
  grouped := h.grouped.replace hs hown

/-! ## The map of a list -/

def HeldBy (L : List (FileLock Owner)) (o : Owner) (ty : LockType) (x : Int) : Prop :=
  ∃ l ∈ L, l.owner = o ∧ l.type = ty ∧ l.Covers x

theorem heldBy_own {g : List (FileLock Owner)} (hpre : ∀ l ∈ pre, l.owner ≠ o)
    (hg : ∀ l ∈ g, l.owner = o) (hpost : ∀ l ∈ post, l.owner ≠ o) :
    HeldBy (pre ++ (g ++ post)) o ty x ↔ Held g ty x := by
  constructor
  · rintro ⟨l, hl, hlo, hlx⟩
    rcases List.mem_append.mp hl with hl | hl
    · exact absurd hlo (hpre l hl)
    rcases List.mem_append.mp hl with hl | hl
    · exact ⟨l, hl, hlx⟩
    · exact absurd hlo (hpost l hl)
  · rintro ⟨l, hl, hlx⟩
    exact ⟨l, List.mem_append_right _ (List.mem_append_left _ hl), hg l hl, hlx⟩

theorem heldBy_split (hs : GroupSplit FileLock.owner o L pre own post) :
    HeldBy L o ty x ↔ Held own ty x := by
  rw [hs.eq]
  exact heldBy_own hs.pre_ne hs.own_eq hs.post_ne

theorem heldBy_other {own' : List (FileLock Owner)} {o' : Owner} (hne : o ≠ o')
    (hown : ∀ l ∈ own, l.owner = o') (hown' : ∀ l ∈ own', l.owner = o') :
    HeldBy (pre ++ (own' ++ post)) o ty x ↔ HeldBy (pre ++ (own ++ post)) o ty x := by
  have hnot : ∀ g : List (FileLock Owner), (∀ l ∈ g, l.owner = o') →
      (HeldBy (pre ++ (g ++ post)) o ty x ↔ HeldBy (pre ++ post) o ty x) := by
    intro g hg
    constructor
    · rintro ⟨l, hl, hlo, hlx⟩
      refine ⟨l, ?_, hlo, hlx⟩
      rcases List.mem_append.mp hl with hl | hl
      · exact List.mem_append_left _ hl
      rcases List.mem_append.mp hl with hl | hl
      · exact absurd (hlo.symm.trans (hg l hl)) hne
      · exact List.mem_append_right _ hl
    rintro ⟨l, hl, hlx⟩
    refine ⟨l, ?_, hlx⟩
    rcases List.mem_append.mp hl with hl | hl
    · exact List.mem_append_left _ hl
    · exact List.mem_append_right _ (List.mem_append_right _ hl)
  rw [hnot own hown, hnot own' hown']

variable [DecidableEq Owner]

theorem GoodLocks.type_eq (h : GoodLocks L) (hl : l ∈ L) (hx : l.Covers x) :
    heldType L l.owner x = l.type := by
  unfold heldType
  split
  case h_1 m hm =>
    have hmem := List.mem_of_find?_eq_some hm
    have hfound := List.find?_some hm
    obtain ⟨hmo, hmx⟩ : m.owner = l.owner ∧ m.Covers x := by simpa using hfound
    obtain ⟨pre, own, post, hs⟩ := h.grouped.split l.owner
    have hHeld : ∀ k ∈ L, k.owner = l.owner → k.Covers x → Held own k.type x :=
      fun k hk hko hkx => (heldBy_split hs).mp ⟨k, hk, hko, rfl, hkx⟩
    exact held_unique (h.own_apart hs) (hHeld m hmem hmo hmx) (hHeld l hl rfl hx)
  case h_2 hm =>
    exact absurd (decide_eq_true ⟨rfl, hx⟩) (List.find?_eq_none.mp hm l hl)

theorem heldType_eq (h : GoodLocks L) (hty : ty ≠ .unlck) :
    heldType L o x = ty ↔ HeldBy L o ty x := by
  constructor
  · intro heq
    unfold heldType at heq
    split at heq
    case h_1 m hm =>
      have hfound := List.find?_some hm
      obtain ⟨hmo, hmx⟩ : m.owner = o ∧ m.Covers x := by simpa using hfound
      exact ⟨m, List.mem_of_find?_eq_some hm, hmo, heq, hmx⟩
    case h_2 => exact absurd heq.symm hty
  · rintro ⟨l, hl, rfl, rfl, hx⟩
    exact h.type_eq hl hx

theorem lockType_ext {a b : LockType} (h : ∀ ty, ty ≠ .unlck → (a = ty ↔ b = ty)) : a = b := by
  cases a with
  | rdlck => exact ((h .rdlck (by decide)).mp rfl).symm
  | wrlck => exact ((h .wrlck (by decide)).mp rfl).symm
  | unlck =>
    cases b with
    | rdlck => exact (h .rdlck (by decide)).mpr rfl
    | wrlck => exact (h .wrlck (by decide)).mpr rfl
    | unlck => rfl

/-! ## The loop -/

theorem walk_own (hpost : ∀ l ∈ post, l.owner ≠ req.owner) (hown : ∀ l ∈ own, l.owner = req.owner) :
    (walk req true (own ++ post)).1 =
      (visits req own).2 ++ (placed (visits req own).1 ++ post) := by
  induction own generalizing req with
  | nil =>
    cases post with
    | nil => simp [walk, visits]
    | cons l post => simp [walk, visits, hpost l (.head _)]
  | cons l own ih =>
    have hl : l.owner = req.owner := hown l (.head _)
    have hreq : (visit req l).request.owner = req.owner := by
      unfold visit extend
      split_ifs <;> rfl
    rw [List.cons_append, walk, if_neg (by simp [hl])]
    simp only [visits]
    rw [ih (by rwa [hreq]) fun k hk => by rw [hreq]; exact hown k (.tail _ hk)]
    simp

theorem walk_split (hs : GroupSplit FileLock.owner req.owner L pre own post) :
    (walk req false L).1 = pre ++ ((visits req own).2 ++ placed (visits req own).1 ++ post) := by
  obtain ⟨hL, hpre, hown, hpost, hnil⟩ := hs
  subst hL
  induction pre with
  | cons l pre ih =>
    have hl : l.owner ≠ req.owner := hpre l (.head _)
    rw [List.cons_append, walk, if_pos hl]
    simp only [Bool.false_eq_true, if_false]
    rw [ih fun k hk => hpre k (.tail _ hk), List.cons_append]
  | nil =>
    rw [List.nil_append, List.nil_append, List.append_assoc]
    cases own with
    | nil => rw [hnil rfl]; simp [walk, visits]
    | cons l own =>
      -- at an own lock it makes no difference whether one was found before
      rw [← walk_own hpost hown, List.cons_append, walk, walk, hown l (.head _)]
      simp

/-! ## A granted request -/

section Granted

variable (h : GoodLocks L) (hs : GroupSplit FileLock.owner req.owner L pre own post)
  (hv : Visited req own (visits req own).1 (visits req own).2)
include h hs hv

omit [DecidableEq Owner] in
theorem acquire_own_good :
    (∀ l ∈ (visits req own).2 ++ placed (visits req own).1, l.owner = req.owner) ∧
    (∀ l ∈ (visits req own).2 ++ placed (visits req own).1, l.Valid) ∧
    (∀ l ∈ (visits req own).2 ++ placed (visits req own).1, l.type ≠ .unlck) ∧
    ((visits req own).2 ++ placed (visits req own).1).Pairwise Gapped := by
  have hmem : ∀ g ∈ own, g ∈ L := fun g hg =>
    hs.eq ▸ List.mem_append_right _ (List.mem_append_left _ hg)
  refine ⟨fun l hl => ?_, fun l hl => ?_, fun l hl => ?_, ?_⟩
  · rcases List.mem_append.mp hl with hl | hl
    · obtain ⟨g, hg, hpart⟩ := hv.parts l hl
      exact hpart.owner.trans (hs.own_eq g hg)
    · rw [(mem_placed.mp hl).2]
      exact hv.owner
  · rcases List.mem_append.mp hl with hl | hl
    · obtain ⟨g, hg, hpart⟩ := hv.parts l hl
      exact hpart.valid (h.valid g (hmem g hg))
    · rw [(mem_placed.mp hl).2]
      exact hv.valid
  · rcases List.mem_append.mp hl with hl | hl
    · obtain ⟨g, hg, hpart⟩ := hv.parts l hl
      rw [hpart.type]
      exact h.held g (hmem g hg)
    · obtain ⟨hty, rfl⟩ := mem_placed.mp hl
      exact hty
  refine List.pairwise_append.mpr ⟨hv.apart, ?_, fun k hk l hl => ?_⟩
  · unfold placed
    split <;> simp
  · rw [(mem_placed.mp hl).2]
    exact hv.clear k hk

theorem acquire_good : GoodLocks (walk req false L).1 := by
  rw [walk_split hs]
  obtain ⟨hown, hvalid, hheld, hapart⟩ := acquire_own_good h hs hv
  exact h.replace hs hown hvalid hheld hapart

omit [DecidableEq Owner] h hs in
theorem acquire_own_held (hty : ty ≠ .unlck) :
    Held ((visits req own).2 ++ placed (visits req own).1) ty x ↔
      (req.type = ty ∧ req.Covers x) ∨ (Held own ty x ∧ ¬ req.Covers x) := by
  have hplaced : Held (placed (visits req own).1) ty x ↔
      req.type = ty ∧ (visits req own).1.Covers x := by
    constructor
    · rintro ⟨l, hl, hlt, hlx⟩
      obtain ⟨-, rfl⟩ := mem_placed.mp hl
      exact ⟨hv.type.symm.trans hlt, hlx⟩
    · rintro ⟨ht, hx⟩
      exact ⟨_, mem_placed.mpr ⟨by rw [hv.type, ht]; exact hty, rfl⟩, hv.type.trans ht, hx⟩
  rw [held_append, hplaced]
  by_cases ht : req.type = ty
  · subst ht
    constructor
    · rintro (hx | ⟨-, hx⟩)
      · by_cases hreq : req.Covers x
        · exact .inl ⟨rfl, hreq⟩
        obtain ⟨k, hk, hkt, hkx⟩ := hx
        obtain ⟨g, hg, hpart⟩ := hv.parts k hk
        exact .inr ⟨⟨g, hg, hpart.type.symm.trans hkt, hpart.covers hkx⟩, hreq⟩
      by_cases hreq : req.Covers x
      · exact .inl ⟨rfl, hreq⟩
      · exact .inr ⟨(hv.within x hx).resolve_left hreq, hreq⟩
    rintro (⟨-, hx⟩ | ⟨hx, -⟩)
    · exact .inr ⟨rfl, hv.grown x hx⟩
    · exact (hv.same x hx).symm.imp id fun hF => ⟨rfl, hF⟩
  rw [hv.other ty x fun he => ht he.symm]
  exact ⟨fun hx => hx.elim .inr fun hc => absurd hc.1 ht,
    fun hx => hx.elim (fun hc => absurd hc.1 ht) .inl⟩

theorem acquire_map : heldType (walk req false L).1 = (LockMap.put (heldType L) req) := by
  have hgood := acquire_good h hs hv
  funext o x
  refine lockType_ext fun ty hty => ?_
  rw [heldType_eq hgood hty, LockMap.put]
  obtain ⟨hown, -, -, -⟩ := acquire_own_good h hs hv
  rw [walk_split hs]
  by_cases ho : o = req.owner
  · subst ho
    rw [heldBy_own hs.pre_ne hown hs.post_ne, acquire_own_held hv hty, ← heldBy_split hs,
      ← heldType_eq h hty]
    by_cases hx : req.Covers x
    · simp [hx]
    · simp [hx]
  · rw [heldBy_other ho hs.own_eq hown, ← hs.eq, ← heldType_eq h hty, if_neg fun hc => ho hc.1]

end Granted

/-! ## The other calls -/

theorem removeOwnedBy_eq (hs : GroupSplit FileLock.owner o L pre own post) :
    fileLockRemoveOwnedBy L o = pre ++ ([] ++ post) := by
  have hkeep : ∀ g : List (FileLock Owner), (∀ l ∈ g, l.owner ≠ o) →
      fileLockRemoveOwnedBy g o = g := fun g hg =>
    List.filter_eq_self.mpr fun l hl => decide_eq_true (hg l hl)
  have hdrop : fileLockRemoveOwnedBy own o = [] :=
    List.filter_eq_nil_iff.mpr fun l hl => by simp [hs.own_eq l hl]
  have happ : ∀ g g' : List (FileLock Owner), fileLockRemoveOwnedBy (g ++ g') o =
      fileLockRemoveOwnedBy g o ++ fileLockRemoveOwnedBy g' o := fun g g' => List.filter_append ..
  rw [hs.eq, happ, happ, hkeep pre hs.pre_ne, hkeep post hs.post_ne, hdrop]

theorem removeOwnedBy_good (h : GoodLocks L) (o : Owner) :
    GoodLocks (fileLockRemoveOwnedBy L o) := by
  obtain ⟨pre, own, post, hs⟩ := h.grouped.split o
  rw [removeOwnedBy_eq hs]
  exact h.replace hs (by simp) (by simp) (by simp) .nil

theorem removeOwnedBy_map (h : GoodLocks L) (o : Owner) :
    heldType (fileLockRemoveOwnedBy L o) = LockMap.clear (heldType L) o := by
  obtain ⟨pre, own, post, hs⟩ := h.grouped.split o
  funext o' x
  refine lockType_ext fun ty hty => ?_
  rw [heldType_eq (removeOwnedBy_good h o) hty, removeOwnedBy_eq hs, LockMap.clear]
  by_cases ho : o' = o
  · subst ho
    rw [heldBy_own hs.pre_ne (by simp) hs.post_ne, if_pos rfl]
    exact ⟨fun ⟨_, hl, _⟩ => absurd hl (by simp), fun he => absurd he.symm hty⟩
  · rw [heldBy_other ho hs.own_eq (by simp), ← hs.eq, ← heldType_eq h hty, if_neg ho]

theorem conflicting_iff {a b : LockType} :
    LockMap.Conflicting a b ↔ a ≠ .unlck ∧ b ≠ .unlck ∧ (a = .wrlck ∨ b = .wrlck) := by
  cases a <;> cases b <;> simp [LockMap.Conflicting]

theorem acquire_none_iff (h : GoodLocks L) (hr : req.Valid) :
    fileLockAcquire L req = none ↔ LockMap.Blocked (heldType L) req := by
  have hleft : fileLockAcquire L req = none ↔
      req.type ≠ .unlck ∧ ∃ l ∈ L, fileLocksConflict l req = true := by
    unfold fileLockAcquire
    split
    case isTrue hc => exact ⟨fun _ => ⟨hc.1, List.any_eq_true.mp hc.2⟩, fun _ => rfl⟩
    case isFalse hc =>
      exact ⟨fun hn => by simp at hn, fun hn => absurd ⟨hn.1, List.any_eq_true.mpr hn.2⟩ hc⟩
  have hconf : ∀ l : FileLock Owner, fileLocksConflict l req = true ↔
      l.owner ≠ req.owner ∧ (req.start ≤ l.stop ∧ l.start ≤ req.stop) ∧
        (l.type = .wrlck ∨ req.type = .wrlck) := by
    intro l
    unfold fileLocksConflict
    rw [← fileLocksOverlap_iff]
    split_ifs <;> simp_all
  rw [hleft]
  constructor
  · rintro ⟨hty, l, hl, hc⟩
    obtain ⟨ho, hover, hw⟩ := (hconf l).mp hc
    have hle := hr.le
    have hlle := (h.valid l hl).le
    have hx : ∃ x, l.Covers x ∧ req.Covers x := by
      by_cases hs : l.start ≤ req.start
      · exact ⟨req.start, ⟨hs, hover.1⟩, Int.le_refl _, hle⟩
      · exact ⟨l.start, ⟨Int.le_refl _, hlle⟩, by omega, hover.2⟩
    obtain ⟨x, hlx, hrx⟩ := hx
    refine ⟨l.owner, x, ho, hrx, conflicting_iff.mpr ?_⟩
    rw [h.type_eq hl hlx]
    exact ⟨h.held l hl, hty, hw⟩
  rintro ⟨o, x, ho, hrx, hc⟩
  obtain ⟨hheld, hty, hw⟩ := conflicting_iff.mp hc
  obtain ⟨l, hl, rfl, hlt, hlx⟩ := (heldType_eq h hheld).mp rfl
  refine ⟨hty, l, hl, (hconf l).mpr ⟨ho, ?_, hlt ▸ hw⟩⟩
  simp only [FileLock.Covers] at hrx hlx
  omega

/-! ## Histories -/

theorem fullOrEnd_of_noWrap {r : LockRequest Owner} (h : GoodLocks L)
    (hs : GroupSplit FileLock.owner r.1.owner L pre own post) (hty : r.1.type ≠ .unlck)
    (hw : NoWrap L (.acquire r)) : FullOrEnd r.1 own := by
  have hiff : ∀ x, heldType L r.1.owner x = r.1.type ↔ Held own r.1.type x := fun x => by
    rw [heldType_eq h hty, heldBy_split hs]
  have hall := hw hty
  simp only [hiff] at hall
  exact hall

omit [DecidableEq Owner] in
theorem fullOrEnd_unlck (h : GoodLocks L) (hs : GroupSplit FileLock.owner o L pre own post)
    (hty : req.type = .unlck) : FullOrEnd req own := by
  have hnone : ∀ x, ¬ Held own req.type x := by
    rintro x ⟨l, hl, hlt, -⟩
    exact h.held l (hs.eq ▸ List.mem_append_right _ (List.mem_append_left _ hl)) (hlt.trans hty)
  intro h1 h2 x hx1 hx2
  have hlow := h1.resolve_right (hnone _)
  have hhigh := h2.resolve_right (hnone _)
  exact .inl ⟨Int.le_trans hlow.1 hx1, Int.le_trans hx2 hhigh.2⟩

structure Refines (L : List (FileLock Owner)) (m : LockMap Owner) : Prop where
  good : GoodLocks L
  map : heldType L = m
  exclusive : m.Exclusive

variable {m : LockMap Owner}

theorem exclusive_step (h : m.Exclusive) (c : LockCall Owner) : (m.step c).Exclusive := by
  cases c with
  | removeOwnedBy owner =>
    intro o o' x hne hw
    simp only [LockMap.step, LockMap.clear] at hw ⊢
    split at hw
    · cases hw
    split
    · rfl
    · exact h o o' x hne hw
  | acquire r =>
    simp only [LockMap.step]
    split
    · exact h
    case isFalse hb =>
      intro o o' x hne hw
      simp only [LockMap.put] at hw ⊢
      -- at an offset of the request another owner's lock would have blocked it
      have hfree : ∀ o', o' ≠ r.1.owner → r.1.Covers x →
          ¬ LockMap.Conflicting (m o' x) r.1.type := fun o' ho' hx hc => hb ⟨o', x, ho', hx, hc⟩
      split at hw
      case isTrue ho =>
        have ho' : o' ≠ r.1.owner := fun he => hne (ho.1.trans he.symm)
        rw [if_neg fun hc => ho' hc.1]
        have hnot := hfree o' ho' ho.2
        rw [conflicting_iff, hw] at hnot
        by_contra hu
        exact hnot ⟨hu, by decide, .inr rfl⟩
      case isFalse ho =>
        split
        case isTrue ho' =>
          have hor : o ≠ r.1.owner := fun he => hne (he.trans ho'.1.symm)
          have hnot := hfree o hor ho'.2
          rw [conflicting_iff, hw] at hnot
          by_contra hu
          exact hnot ⟨by decide, hu, .inl rfl⟩
        case isFalse ho' => exact h o o' x hne hw

theorem step_apply_of_not_covers {r : LockRequest Owner}
    (hx : ¬ r.1.Covers x) : m.step (.acquire r) o x = m o x := by
  simp only [LockMap.step]
  split
  · rfl
  · exact if_neg fun hc => hx hc.2

theorem Refines.step {c : LockCall Owner} (h : Refines L m)
    (hw : NoWrap L c) : Refines (lockStep L c) (m.step c) := by
  have hexcl := exclusive_step h.exclusive c
  cases c with
  | removeOwnedBy owner =>
    refine ⟨removeOwnedBy_good h.good owner, ?_, hexcl⟩
    simp only [lockStep, LockMap.step, ← h.map]
    exact removeOwnedBy_map h.good owner
  | acquire r =>
    have hnone := acquire_none_iff h.good r.2
    rw [h.map] at hnone
    by_cases hb : m.Blocked r.1
    · have hstep : m.step (.acquire r) = m := by simp only [LockMap.step, if_pos hb]
      have hsame : lockStep L (.acquire r) = L := by simp [lockStep, hnone.mpr hb]
      rw [hstep, hsame]
      exact h
    obtain ⟨pre, own, post, hs⟩ := h.good.grouped.split r.1.owner
    have hfull : FullOrEnd r.1 own := by
      by_cases hty : r.1.type = .unlck
      · exact fullOrEnd_unlck h.good hs hty
      · exact fullOrEnd_of_noWrap h.good hs hty hw
    have hvalid : ∀ g ∈ own, g.Valid := fun g hg =>
      h.good.valid g (hs.eq ▸ List.mem_append_right _ (List.mem_append_left _ hg))
    have hv := visits_spec r.2 hvalid (h.good.own_apart hs) hfull
    have hgrant : lockStep L (.acquire r) = (walk r.1 false L).1 := by
      have hsome : ¬ (r.1.type ≠ .unlck ∧ L.any (fileLocksConflict · r.1)) := by
        intro hc
        exact hb (hnone.mp (if_pos hc))
      simp only [lockStep, fileLockAcquire, if_neg hsome, Option.map_some, Option.getD_some]
    have hstep : m.step (.acquire r) = m.put r.1 := by simp only [LockMap.step, if_neg hb]
    rw [hgrant]
    refine ⟨acquire_good h.good hs hv, ?_, hexcl⟩
    rw [hstep, ← h.map]
    exact acquire_map h.good hs hv

theorem refines_run {calls : List (LockCall Owner)} (h : Refines L m)
    (hw : AllSteps lockStep NoWrap L calls) :
    Refines (run lockStep L calls) (run LockMap.step m calls) := by
  induction calls generalizing L m with
  | nil => exact h
  | cons c calls ih => exact ih (h.step hw.1) hw.2

theorem refused_iff (h : Refines L m) (c : LockCall Owner) : refused L c ↔ m.Refuses c := by
  cases c with
  | removeOwnedBy owner => exact Iff.rfl
  | acquire r => rw [refused, LockMap.Refuses, acquire_none_iff h.good r.2, h.map]

/-- **POSIX locks refine a pointwise map.** After every history whose requests meet `NoWrap` an owner has
one type at an offset, the one that the specification gives; a next call is refused exactly when another
owner conflicts on an offset of its range; and no offset has a write lock beside another owner's lock. -/
theorem fileLock_run (calls : List (LockCall Owner)) (hw : AllSteps lockStep NoWrap [] calls) :
    (∀ l ∈ run lockStep [] calls, ∀ x, l.Covers x →
      heldType (run lockStep [] calls) l.owner x = l.type) ∧
    heldType (run lockStep [] calls) = run LockMap.step LockMap.empty calls ∧
    (∀ c, refused (run lockStep [] calls) c ↔ (run LockMap.step LockMap.empty calls).Refuses c) ∧
    (run LockMap.step LockMap.empty calls).Exclusive := by
  have hempty : Refines ([] : List (FileLock Owner)) LockMap.empty :=
    ⟨goodLocks_nil, rfl, fun _ _ _ _ hc => by cases hc⟩
  have h := refines_run hempty hw
  exact ⟨fun l hl x hx => h.good.type_eq hl hx, h.map, refused_iff h, h.exclusive⟩

/-- A read lock from 0 on, a write lock in its middle, and an offset of that one unlocked. -/
def splitCalls : List (LockCall Nat) :=
  [.acquire ⟨⟨0, offTMax, .rdlck, 7, 1⟩, by decide⟩, .acquire ⟨⟨10, 19, .wrlck, 7, 1⟩, by decide⟩,
    .acquire ⟨⟨15, 15, .unlck, 7, 1⟩, by decide⟩]

theorem fileLock_run_split : AllSteps lockStep NoWrap [] splitCalls ∧
    heldType (run lockStep [] splitCalls) = run LockMap.step LockMap.empty splitCalls := by
  have hw : AllSteps lockStep NoWrap [] splitCalls :=
    ⟨fun _ h => absurd h (by decide), fun _ h => absurd h (by decide),
      fun h => absurd rfl h, trivial⟩
  exact ⟨hw, (fileLock_run splitCalls hw).2.1⟩

/-- A read lock from 0 to the greatest offset and then one at the least offset: the owner gets a
read lock on -1 as well. -/
theorem fileLock_wrapped : ¬ ∀ calls : List (LockCall Nat),
      heldType (run lockStep [] calls) = run LockMap.step LockMap.empty calls := by
  intro h
  have hcode := congrFun (congrFun (h
    [.acquire ⟨⟨0, offTMax, .rdlck, 7, 1⟩, by decide⟩,
      .acquire ⟨⟨offTMin, offTMin, .rdlck, 7, 1⟩, by decide⟩]) 7) (-1)
  have hheld : heldType (run lockStep ([] : List (FileLock Nat))
      [.acquire ⟨⟨0, offTMax, .rdlck, 7, 1⟩, by decide⟩,
        .acquire ⟨⟨offTMin, offTMin, .rdlck, 7, 1⟩, by decide⟩]) 7 (-1) = .rdlck := by decide
  rw [hheld, run_cons, run_cons, run_nil, step_apply_of_not_covers (by decide),
    step_apply_of_not_covers (by decide)] at hcode
  cases hcode

end IosLinuxkit.Fs
