import IosLinuxkit.Fs.BindHost

/-!
# What the host's calls leave alone

A call at a path that is not under a read-only mount, when no file has both a name there and a name
elsewhere.

* **`HostStep.unchanged`**, `HostStep.apart` — a call that edits entries outside leaves them, and
  leaves them apart.
-/

namespace IosLinuxkit.Fs

open Names (Covered Above Outside StandsFor)

section

variable (t : List BindMount) (root : HostId)

structure Apart (h : HostFs) : Prop where
  start : ∀ p x, Start t root p x → (h.kind x).isSome
  separate : Names.Separate (Start t root) (ReadOnlyAt t) h.graph

/-- What is reached at and under the read-only mounts is what was. -/
structure Unchanged (h h' : HostFs) : Prop where
  reached : ∀ p x, Covered (ReadOnlyAt t) p → (Reached t root h' p x ↔ Reached t root h p x)
  kind : ∀ p x, Covered (ReadOnlyAt t) p → StandsFor (Start t root) h.graph p x →
    h'.kind x = h.kind x
  data : ∀ p x, Covered (ReadOnlyAt t) p → StandsFor (Start t root) h.graph p x →
    h'.data x = h.data x

structure HostStep (h h' : HostFs) : Prop where
  kind : ∀ x, (h.kind x).isSome → h'.kind x = h.kind x
  edit : Names.Edit (Start t root) (ReadOnlyAt t) (fun x => (h.kind x).isSome) h.graph h'.graph
  data : ∀ p x, Covered (ReadOnlyAt t) p → StandsFor (Start t root) h.graph p x →
    h'.data x = h.data x

end

variable {t : List BindMount} {root : HostId} {h h' h'' : HostFs} {p src dst : Path} {x d : HostId}
  {n : Name}

theorem Apart.closed (ha : Apart t root h) :
    Names.Closed (Start t root) (fun x => (h.kind x).isSome) h.graph where
  base := ha.start
  entry := h.leads
  follow x hx := by
    show (h.kind (h.follow x)).isSome
    unfold HostFs.follow
    split
    case h_1 y hy => rcases h.target x y hy with hk | hk <;> rw [hk] <;> rfl
    case h_2 => exact hx

theorem standsFor_of_unchanged (hu : Unchanged t root h h') (hp : Covered (ReadOnlyAt t) p)
    (hx : StandsFor (Start t root) h.graph p x) : StandsFor (Start t root) h'.graph p x := by
  obtain ⟨y, hy, hxy⟩ := hx
  refine ⟨y, (hu.reached p y hp).mpr hy, ?_⟩
  have hfollow : h'.follow y = h.follow y := by
    unfold HostFs.follow
    rw [hu.kind p y hp hy.standsFor]
  show x = y ∨ x = h'.follow y
  rw [hfollow]
  exact hxy

theorem Unchanged.refl (h : HostFs) : Unchanged t root h h :=
  ⟨fun _ _ _ => Iff.rfl, fun _ _ _ _ => rfl, fun _ _ _ _ => rfl⟩

theorem Unchanged.trans (h₁ : Unchanged t root h h') (h₂ : Unchanged t root h' h'') :
    Unchanged t root h h'' where
  reached p x hp := (h₂.reached p x hp).trans (h₁.reached p x hp)
  kind p x hp hx :=
    (h₂.kind p x hp (standsFor_of_unchanged h₁ hp hx)).trans (h₁.kind p x hp hx)
  data p x hp hx :=
    (h₂.data p x hp (standsFor_of_unchanged h₁ hp hx)).trans (h₁.data p x hp hx)

theorem HostStep.unchanged (hs : HostStep t root h h') (ha : Apart t root h) :
    Unchanged t root h h' where
  reached _ _ hp := Names.reach_iff_of_covered ha.separate ha.closed hs.edit hp
  kind _ x _ hx := by
    have hold := hx.isOld ha.closed
    exact hs.kind x hold
  data := hs.data

theorem HostStep.apart (hs : HostStep t root h h') (ha : Apart t root h) : Apart t root h' where
  start p x hx := by
    rw [hs.kind x (ha.start p x hx)]
    exact ha.start p x hx
  separate := ha.separate.edit ha.closed hs.edit

/-! ## Edits of the host -/

theorem follow_eq (hk : h'.kind x = h.kind x) : h'.follow x = h.follow x := by
  unfold HostFs.follow
  rw [hk]

theorem follow_of_not_link (hk : ∀ y, h.kind x ≠ some (.link y)) : h.follow x = x := by
  unfold HostFs.follow
  split
  case h_1 y hy => exact absurd hy (hk y)
  case h_2 => rfl

theorem entry_of_not_dir (hk : h.kind x ≠ some .dir) (n : Name) : h.entry x n = none := by
  cases hx : h.entry x n with
  | none => rfl
  | some y => exact absurd (h.inDir x n y hx) hk

theorem leaf_of (hk : ∀ y, h.kind x ≠ some (.link y)) (he : ∀ n, h.entry x n = none) :
    Names.Leaf h.graph x := ⟨follow_of_not_link hk, he⟩

theorem setEntry_self (e : HostId → Name → Option HostId) (d : HostId) (n : Name)
    (v : Option HostId) : setEntry e d n v d n = v := by
  rw [setEntry, Function.update_self, Function.update_self]

theorem setEntry_of_ne {e : HostId → Name → Option HostId} {d' : HostId} {n' : Name}
    {v : Option HostId} (hne : ¬ (d' = d ∧ n' = n)) : setEntry e d n v d' n' = e d' n' := by
  unfold setEntry
  by_cases hd : d' = d
  · subst hd
    rw [Function.update_self, Function.update_of_ne fun hn => hne ⟨rfl, hn⟩]
  · rw [Function.update_of_ne hd]

theorem edit_of_entries (hkind : ∀ x, (h.kind x).isSome → h'.kind x = h.kind x)
    (hlink : ∀ x y, ¬ (h.kind x).isSome → h'.kind x ≠ some (.link y))
    (hempty : ∀ x m, ¬ (h.kind x).isSome → h'.entry x m = none)
    (hentry : ∀ d n, Names.EntryEdit (Start t root) (ReadOnlyAt t) (fun x => (h.kind x).isSome)
      h.graph h'.graph d n) (honce : ∀ d n d' n' y, ¬ (h.kind y).isSome → h'.entry d n = some y →
      h'.entry d' n' = some y → d = d' ∧ n = n') :
    Names.Edit (Start t root) (ReadOnlyAt t) (fun x => (h.kind x).isSome) h.graph h'.graph where
  follow x hx := follow_eq (hkind x hx)
  entry := hentry
  fresh x hx := leaf_of (fun y => hlink x y hx) fun m => hempty x m hx
  once := honce

theorem edit_of_kind_eq (hkind : h'.kind = h.kind)
    (hentry : ∀ d n, Names.EntryEdit (Start t root) (ReadOnlyAt t) (fun x => (h.kind x).isSome)
      h.graph h'.graph d n) :
    Names.Edit (Start t root) (ReadOnlyAt t) (fun x => (h.kind x).isSome) h.graph h'.graph := by
  have hnone : ∀ x, ¬ (h.kind x).isSome → h'.kind x = none := by
    intro x hx
    rw [hkind]
    exact Option.not_isSome_iff_eq_none.mp hx
  refine edit_of_entries (fun x _ => by rw [hkind]) ?_ ?_ hentry ?_
  · intro x y hx
    rw [hnone x hx]
    exact fun hcon => nomatch hcon
  · intro x m hx
    refine entry_of_not_dir ?_ m
    rw [hnone x hx]
    exact fun hcon => nomatch hcon
  intro d n d' n' y hy he
  -- entries lead to what there is
  have hsome := h'.leads d n y he
  rw [hnone y hy] at hsome
  cases hsome

/-! ## The calls -/

section

variable {q : Path} {y : HostId} {r : Int}

theorem Apart.ne (ha : Apart t root h) (hp : Covered (ReadOnlyAt t) p)
    (hx : StandsFor (Start t root) h.graph p x) (hq : ¬ Covered (ReadOnlyAt t) q)
    (hy : StandsFor (Start t root) h.graph q y) : x ≠ y := by
  rintro rfl
  exact ha.separate.objects p q x hp hq hx hy

theorem Apart.ne_new (ha : Apart t root h) (hx : StandsFor (Start t root) h.graph p x)
    (hy : h.kind y = none) : x ≠ y := by
  rintro rfl
  have hold := hx.isOld ha.closed
  rw [hy] at hold
  cases hold

theorem not_covered_dir (hp : ¬ Covered (ReadOnlyAt t) (p ++ [n])) : ¬ Covered (ReadOnlyAt t) p :=
  fun hc => hp (hc.append [n])

theorem HostStep.refl (h : HostFs) : HostStep t root h h :=
  ⟨fun _ _ => rfl, edit_of_kind_eq rfl fun _ _ => .same rfl, fun _ _ _ _ => rfl⟩

theorem write_step (hsame : SameTree h h') (hdata : ∀ z, z ≠ y → h'.data z = h.data z)
    (hy : ∀ p, Covered (ReadOnlyAt t) p → ¬ StandsFor (Start t root) h.graph p y) :
    HostStep t root h h' := by
  refine ⟨fun _ _ => by rw [hsame.kind], edit_of_kind_eq hsame.kind fun d n => .same ?_, ?_⟩
  · show h'.entry d n = h.entry d n
    rw [hsame.entry]
  intro p x hp hx
  refine hdata x ?_
  rintro rfl
  exact hy p hp hx

theorem make_step {k : HostKind} {x₀ : HostId} (ha : Apart t root h)
    (hbase : Reached t root h q x₀) (hmake : HostMake h x₀ p k r x h')
    (hk : ∀ y, k ≠ .link y) (hp : ¬ Covered (ReadOnlyAt t) (q ++ p)) : HostStep t root h h' := by
  cases hmake with
  | fail _ => exact .refl h
  | @ok d _ n _ hplace hdir hfree hnew hkind hentry hdata =>
    obtain ⟨a, z, ha', hz, rfl⟩ := hplace.reached hbase
    rw [ha'] at hp
    have hlive : ∀ y, (h.kind y).isSome → y ≠ x := by
      rintro y hy rfl
      rw [hnew] at hy
      cases hy
    have hkind' : ∀ y, (h.kind y).isSome → h'.kind y = h.kind y := by
      intro y hy
      rw [hkind, Function.update_of_ne (hlive y hy)]
    -- the entry is the only way to the new object
    have hval : ∀ b m y, ¬ (h.kind y).isSome → h'.entry b m = some y → b = h.follow z ∧ m = n := by
      intro b m y hy he
      by_contra hne
      rw [hentry, setEntry_of_ne hne] at he
      exact hy (h.leads b m y he)
    refine ⟨hkind', edit_of_entries hkind' ?_ ?_ ?_ ?_, ?_⟩
    · intro y w hy hcon
      by_cases hyx : y = x
      · rw [hkind, hyx, Function.update_self, Option.some_inj] at hcon
        exact hk w hcon
      rw [hkind, Function.update_of_ne hyx] at hcon
      rw [hcon] at hy
      exact hy rfl
    · intro y m hy
      rw [hentry, setEntry_of_ne]
      · refine entry_of_not_dir (fun hcon => ?_) m
        rw [hcon] at hy
        exact hy rfl
      rintro ⟨rfl, _⟩
      rw [hdir] at hy
      exact hy rfl
    · intro b m
      by_cases hbm : b = h.follow z ∧ m = n
      · obtain ⟨rfl, rfl⟩ := hbm
        have hself : h'.entry (h.follow z) m = some x := by rw [hentry, setEntry_self]
        rcases Names.outside_or (ReadOnlyAt t) (a ++ [m]) with hcov | habove | hout
        · exact absurd hcov hp
        · refine .above hz rfl habove (fun y hy => ?_) (fun y hy => ?_)
          · rw [show h.graph.entry (h.follow z) m = none from hfree] at hy
            cases hy
          cases hself.symm.trans hy
          rw [hnew]
          exact Bool.false_ne_true
        refine .outside hz rfl hout fun y hy hold => ?_
        cases hself.symm.trans hy
        rw [hnew] at hold
        cases hold
      refine .same ?_
      show h'.entry b m = h.entry b m
      rw [hentry, setEntry_of_ne hbm]
    · intro b m b' m' y hy he he'
      obtain ⟨rfl, rfl⟩ := hval b m y hy he
      obtain ⟨rfl, rfl⟩ := hval b' m' y hy he'
      exact ⟨rfl, rfl⟩
    · intro c y hc hy
      exact hdata y (ha.ne hc hy (not_covered_dir hp) hz.standsFor_follow) (ha.ne_new hy hnew)

theorem unlink_step {dir : Bool} (ha : Apart t root h) (hun : HostUnlink h root p dir r h')
    (hp : ¬ Covered (ReadOnlyAt t) p)
    (hlink : Above (ReadOnlyAt t) p → ∀ x y, h.walk root p = some x → h.kind x ≠ some (.link y)) :
    HostStep t root h h' := by
  cases hun with
  | fail _ => exact .refl h
  | @ok d x n _ hplace hx _ hempty hkind hentry hdata =>
    obtain ⟨a, z, rfl, hw, rfl⟩ := hplace
    have hz : Reached t root h a z := reached_root.walk hw
    have hx' : Reached t root h (a ++ [n]) x := Names.Reach.step hz hx
    refine ⟨fun _ _ => by rw [hkind], edit_of_kind_eq hkind fun b m => ?_, ?_⟩
    · by_cases hbm : b = h.follow z ∧ m = n
      · obtain ⟨rfl, rfl⟩ := hbm
        have hself : h'.entry (h.follow z) m = none := by rw [hentry, setEntry_self]
        have hnone : ∀ y, h'.graph.entry (h.follow z) m ≠ some y := by
          intro y hy
          cases hself.symm.trans hy
        rcases Names.outside_or (ReadOnlyAt t) (a ++ [m]) with hcov | habove | hout
        · exact absurd hcov hp
        · refine .above hz rfl habove (fun y hy => ?_) (fun y hy => absurd hy (hnone y))
          cases hx.symm.trans hy
          refine leaf_of (fun w => hlink habove x w ?_) hempty
          rw [walk_concat hw, hx]
        · exact .outside hz rfl hout fun y hy => absurd hy (hnone y)
      refine .same ?_
      show h'.entry b m = h.entry b m
      rw [hentry, setEntry_of_ne hbm]
    intro c y hc hy
    exact hdata y (ha.ne hc hy (not_covered_dir hp) hz.standsFor_follow)
      (ha.ne hc hy hp hx'.standsFor)

theorem link_step (ha : Apart t root h) (hl : HostLinkAt h root src dst r h')
    (hsrc : Outside (ReadOnlyAt t) src) (hdst : Outside (ReadOnlyAt t) dst) :
    HostStep t root h h' := by
  cases hl with
  | fail _ => exact .refl h
  | @ok d x n _ hw _ hplace _ _ hkind hentry hdata =>
    have hx : Reached t root h src x := reached_root.walk hw
    obtain ⟨a, z, rfl, hz, rfl⟩ := hplace.reached reached_root
    refine ⟨fun _ _ => by rw [hkind], edit_of_kind_eq hkind fun b m => ?_, ?_⟩
    · by_cases hbm : b = h.follow z ∧ m = n
      · obtain ⟨rfl, rfl⟩ := hbm
        refine .outside hz rfl hdst fun y hy _ => ⟨src, hsrc, ?_⟩
        have hself : h'.entry (h.follow z) m = some x := by rw [hentry, setEntry_self]
        cases hself.symm.trans hy
        exact hx
      refine .same ?_
      show h'.entry b m = h.entry b m
      rw [hentry, setEntry_of_ne hbm]
    intro c y hc hy
    exact hdata y (ha.ne hc hy (not_covered_dir hdst.1) hz.standsFor_follow)
      (ha.ne hc hy hsrc.1 hx.standsFor)

theorem rename_step (ha : Apart t root h) (hr : HostRenameAt h root src dst r h')
    (hsrc : Outside (ReadOnlyAt t) src) (hdst : Outside (ReadOnlyAt t) dst) :
    HostStep t root h h' := by
  cases hr with
  | fail _ => exact .refl h
  | same _ _ => exact .refl h
  | @ok d e x n m _ hplace hx hplace' _ _ hkind hentry hdata =>
    obtain ⟨a, z, rfl, hz, rfl⟩ := hplace.reached reached_root
    obtain ⟨b, w, rfl, hw, rfl⟩ := hplace'.reached reached_root
    have hx' : Reached t root h (a ++ [n]) x := Names.Reach.step hz hx
    refine ⟨fun _ _ => by rw [hkind], edit_of_kind_eq hkind fun c k => ?_, ?_⟩
    · by_cases hnew : c = h.follow w ∧ k = m
      · obtain ⟨rfl, rfl⟩ := hnew
        refine .outside hw rfl hdst fun y hy _ => ⟨a ++ [n], hsrc, ?_⟩
        have hself : h'.entry (h.follow w) k = some x := by rw [hentry, setEntry_self]
        cases hself.symm.trans hy
        exact hx'
      by_cases hold : c = h.follow z ∧ k = n
      · obtain ⟨rfl, rfl⟩ := hold
        refine .outside hz rfl hsrc fun y hy _ => ?_
        have hgone : h'.entry (h.follow z) k = none := by
          rw [hentry, setEntry_of_ne hnew, setEntry_self]
        cases hgone.symm.trans hy
      refine .same ?_
      show h'.entry c k = h.entry c k
      rw [hentry, setEntry_of_ne hnew, setEntry_of_ne hold]
    intro c y hc hy
    refine hdata y (ha.ne hc hy (not_covered_dir hsrc.1) hz.standsFor_follow)
      (ha.ne hc hy (not_covered_dir hdst.1) hw.standsFor_follow)
      (ha.ne hc hy hsrc.1 hx'.standsFor) (fun hrep => ?_)
    -- what was at the new name
    have hrep' : Reached t root h (b ++ [m]) y := Names.Reach.step hw hrep
    exact ha.ne hc hy hdst.1 hrep'.standsFor rfl

end

end IosLinuxkit.Fs
