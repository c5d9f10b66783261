import IosLinuxkit.Fs.BindFs

/-!
# Rows under read-only mounts

The metadata of what is at and under read-only mounts. A row there is never changed or removed, but
one is added when a file without metadata is met.
-/

namespace IosLinuxkit.Fs

open Names (Covered Above Outside)

section

variable (t : List BindMount) (fds : AList (fun _ : Nat => BindFd))

structure RowsOk (db : FakeDb) : Prop where
  paths : AllPaths db
  rows : ∀ b i, db.paths.lookup b = some i → i ≠ 0 ∧ i ∈ db.stats
  inodes : ∀ p q i, Covered (ReadOnlyAt t) p → ¬ Covered (ReadOnlyAt t) q →
    db.paths.lookup (render p) = some i → db.paths.lookup (render q) ≠ some i
  held : ∀ fd f, fds.lookup fd = some f → f.inode ∈ db.stats
  opened : ∀ fd f p, fds.lookup fd = some f → ¬ Covered (ReadOnlyAt t) f.path →
    Covered (ReadOnlyAt t) p → db.paths.lookup (render p) ≠ some f.inode

structure RowsKept (db db' : FakeDb) : Prop where
  row : ∀ p i, Covered (ReadOnlyAt t) p → db.paths.lookup (render p) = some i →
    db'.paths.lookup (render p) = some i ∧ db'.stats.lookup i = db.stats.lookup i
  made : ∀ p i, Covered (ReadOnlyAt t) p → db.paths.lookup (render p) = none →
    db'.paths.lookup (render p) = some i → ∃ mode, db'.stats.lookup i = some (autoStat mode)

def NewRow (db db' : FakeDb) (p : Path) (i : Nat) : Prop :=
  i ≠ 0 ∧ i ∉ db.stats ∧ i ∈ db'.stats ∧ ∀ b, db'.paths.lookup b = some i → b = render p

structure RowsStep (db db' : FakeDb) : Prop where
  paths : AllPaths db'
  covered : ∀ p, Covered (ReadOnlyAt t) p →
    db'.paths.lookup (render p) = db.paths.lookup (render p) ∨
      db.paths.lookup (render p) = none ∧ ∃ i mode, db'.paths.lookup (render p) = some i ∧
        NewRow db db' p i ∧ db'.stats.lookup i = some (autoStat mode)
  others : ∀ q i, ¬ Covered (ReadOnlyAt t) q → db'.paths.lookup (render q) = some i →
    NewRow db db' q i ∨ ∃ o, ¬ Covered (ReadOnlyAt t) o ∧
      db.paths.lookup (render o) = some i ∧ i ∈ db'.stats
  stats : ∀ p i, Covered (ReadOnlyAt t) p → db.paths.lookup (render p) = some i →
    db'.stats.lookup i = db.stats.lookup i
  held : ∀ fd f, fds.lookup fd = some f → f.inode ∈ db.stats → f.inode ∈ db'.stats

end

variable {t : List BindMount} {fds : AList (fun _ : Nat => BindFd)} {db db' db'' : FakeDb}
  {p q src dst : Path} {i : Nat}

theorem RowsKept.refl (db : FakeDb) : RowsKept t db db := by
  refine ⟨fun p i _ hi => ⟨hi, rfl⟩, fun p i _ hnone hi => ?_⟩
  rw [hnone] at hi
  cases hi

theorem RowsKept.trans (h₁ : RowsKept t db db') (h₂ : RowsKept t db' db'') :
    RowsKept t db db'' := by
  refine ⟨fun p i hp hi => ?_, fun p i hp hnone hi => ?_⟩
  · obtain ⟨hi', hs⟩ := h₁.row p i hp hi
    obtain ⟨hi'', hs'⟩ := h₂.row p i hp hi'
    exact ⟨hi'', hs'.trans hs⟩
  cases hmid : db'.paths.lookup (render p) with
  | none => exact h₂.made p i hp hmid hi
  | some k =>
    obtain ⟨hk, hs⟩ := h₂.row p k hp hmid
    obtain rfl : k = i := Option.some_inj.mp (hk.symm.trans hi)
    rw [hs]
    exact h₁.made p k hp hnone hmid

theorem RowsStep.kept (hs : RowsStep t fds db db') : RowsKept t db db' := by
  refine ⟨fun p i hp hi => ?_, fun p i hp hnone hi => ?_⟩
  · rcases hs.covered p hp with heq | ⟨hnone, _⟩
    · exact ⟨heq.trans hi, hs.stats p i hp hi⟩
    · rw [hnone] at hi
      cases hi
  rcases hs.covered p hp with heq | ⟨_, k, mode, hk, _, hauto⟩
  · rw [heq, hnone] at hi
    cases hi
  · obtain rfl : k = i := Option.some_inj.mp (hk.symm.trans hi)
    exact ⟨mode, hauto⟩

theorem mem_of_lookup_eq {s s' : AList (fun _ : Nat => IshStat)} (h : s'.lookup i = s.lookup i)
    (hi : i ∈ s) : i ∈ s' := by
  rw [← AList.lookup_isSome, h, AList.lookup_isSome]
  exact hi

theorem RowsStep.ok (hs : RowsStep t fds db db') (h : RowsOk t fds db) : RowsOk t fds db' := by
  -- a row under a read-only mount is an old one or has a new inode
  have hcov : ∀ p i, Covered (ReadOnlyAt t) p → db'.paths.lookup (render p) = some i →
      db.paths.lookup (render p) = some i ∨ NewRow db db' p i := by
    intro p i hp hi
    rcases hs.covered p hp with heq | ⟨_, k, _, hk, hnew, _⟩
    · exact Or.inl (heq.symm.trans hi)
    · obtain rfl : k = i := Option.some_inj.mp (hk.symm.trans hi)
      exact Or.inr hnew
  refine ⟨hs.paths, ?_, ?_, fun fd f hf => hs.held fd f hf (h.held fd f hf), ?_⟩
  · intro b i hi
    obtain ⟨p, rfl⟩ := hs.paths b (AList.lookup_isSome.mp (by rw [hi]; rfl))
    by_cases hp : Covered (ReadOnlyAt t) p
    · rcases hcov p i hp hi with hold | hnew
      · exact ⟨(h.rows _ i hold).1, mem_of_lookup_eq (hs.stats p i hp hold) (h.rows _ i hold).2⟩
      · exact ⟨hnew.1, hnew.2.2.1⟩
    rcases hs.others p i hp hi with hnew | ⟨o, _, hold, hmem⟩
    · exact ⟨hnew.1, hnew.2.2.1⟩
    · exact ⟨(h.rows _ i hold).1, hmem⟩
  · intro p q i hp hq hi hk
    rcases hcov p i hp hi with hold | hnew
    · rcases hs.others q i hq hk with hnew | ⟨o, ho, hold', _⟩
      · exact hnew.2.1 (h.rows _ i hold).2
      · exact h.inodes p o i hp ho hold hold'
    · obtain rfl := render_injective (hnew.2.2.2 _ hk)
      exact hq hp
  intro fd f p hf hpath hp hi
  rcases hcov p f.inode hp hi with hold | hnew
  · exact h.opened fd f p hf hpath hp hold
  · exact hnew.2.1 (h.held fd f hf)

/-! ## Statements -/

theorem lookup_pathCreate_of_ne {b : Blob} {stat : IshStat} (hb : b ≠ render q) :
    (pathCreate db (render q) stat).paths.lookup b = db.paths.lookup b :=
  AList.lookup_insert_ne hb

theorem newRow_pathCreate (h : RowsOk t fds db) (stat : IshStat) :
    NewRow db (pathCreate db (render q) stat) q (newRow db) := by
  refine ⟨newRow_ne_zero db, newRow_fresh db, (AList.mem_insert _).mpr (Or.inl rfl), fun b hb => ?_⟩
  by_contra hne
  rw [lookup_pathCreate_of_ne hne] at hb
  exact newRow_fresh db (h.rows b _ hb).2

theorem step_create {stat : IshStat} (h : RowsOk t fds db) (hq : ¬ Covered (ReadOnlyAt t) q ∨
      db.paths.lookup (render q) = none ∧ ∃ mode, stat = autoStat mode) :
    RowsStep t fds db (pathCreate db (render q) stat) := by
  have hself : (pathCreate db (render q) stat).paths.lookup (render q) = some (newRow db) :=
    AList.lookup_insert _
  have hnew := newRow_pathCreate (q := q) h stat
  constructor
  · intro b hb
    rcases (AList.mem_insert _).mp hb with rfl | hb
    · exact ⟨q, rfl⟩
    · exact h.paths b hb
  · intro p hp
    by_cases hpq : p = q
    · subst hpq
      obtain ⟨hnone, mode, rfl⟩ := hq.resolve_left fun hc => hc hp
      exact Or.inr ⟨hnone, newRow db, mode, hself, hnew, AList.lookup_insert _⟩
    · exact Or.inl (lookup_pathCreate_of_ne fun hr => hpq (render_injective hr))
  · intro p i hp hi
    by_cases hpq : p = q
    · subst hpq
      obtain rfl : newRow db = i := Option.some_inj.mp (hself.symm.trans hi)
      exact Or.inl hnew
    · rw [lookup_pathCreate_of_ne fun hr => hpq (render_injective hr)] at hi
      exact Or.inr ⟨p, hp, hi, (AList.mem_insert _).mpr (Or.inr (h.rows _ i hi).2)⟩
  · intro p i _ hi
    refine AList.lookup_insert_ne ?_
    rintro rfl
    exact newRow_fresh db (h.rows _ _ hi).2
  · intro fd f _ hmem
    exact (AList.mem_insert _).mpr (Or.inr hmem)

theorem step_link (h : RowsOk t fds db) (hsrc : ¬ Covered (ReadOnlyAt t) src)
    (hdst : ¬ Covered (ReadOnlyAt t) dst) (hi : db.paths.lookup (render src) = some i) :
    RowsStep t fds db { db with paths := db.paths.insert (render dst) i } := by
  have hne : ∀ p, p ≠ dst → (db.paths.insert (render dst) i).lookup (render p) =
      db.paths.lookup (render p) :=
    fun p hp => AList.lookup_insert_ne fun hr => hp (render_injective hr)
  constructor
  · intro b hb
    rcases (AList.mem_insert _).mp hb with rfl | hb
    · exact ⟨dst, rfl⟩
    · exact h.paths b hb
  · intro p hp
    refine Or.inl (hne p ?_)
    rintro rfl
    exact hdst hp
  · intro q k hq hk
    right
    by_cases hqd : q = dst
    · subst hqd
      obtain rfl : i = k := by
        rw [AList.lookup_insert, Option.some_inj] at hk
        exact hk
      exact ⟨src, hsrc, hi, (h.rows _ i hi).2⟩
    dsimp only at hk
    rw [hne q hqd] at hk
    exact ⟨q, hq, hk, (h.rows _ k hk).2⟩
  · intro _ _ _ _
    rfl
  · intro _ _ _ hmem
    exact hmem

theorem step_erase (h : RowsOk t fds db) (hq : ¬ Covered (ReadOnlyAt t) q) :
    RowsStep t fds db { db with paths := db.paths.erase (render q) } := by
  have hne : ∀ p, p ≠ q → (db.paths.erase (render q)).lookup (render p) =
      db.paths.lookup (render p) :=
    fun p hp => AList.lookup_erase_ne fun hr => hp (render_injective hr)
  constructor
  · intro b hb
    exact h.paths b (AList.mem_erase.mp hb).2
  · intro p hp
    refine Or.inl (hne p ?_)
    rintro rfl
    exact hq hp
  · intro p k hp hk
    dsimp only at hk
    by_cases hpq : p = q
    · rw [hpq, AList.lookup_erase] at hk
      cases hk
    · rw [hne p hpq] at hk
      exact Or.inr ⟨p, hp, hk, (h.rows _ k hk).2⟩
  · intro _ _ _ _
    rfl
  · intro _ _ _ hmem
    exact hmem

theorem step_stats (h : RowsOk t fds db) (hpaths : db'.paths = db.paths)
    (hrows : ∀ b i, db.paths.lookup b = some i → i ∈ db'.stats)
    (hcov : ∀ p i, Covered (ReadOnlyAt t) p → db.paths.lookup (render p) = some i →
      db'.stats.lookup i = db.stats.lookup i)
    (hheld : ∀ fd f, fds.lookup fd = some f → f.inode ∈ db.stats → f.inode ∈ db'.stats) :
    RowsStep t fds db db' := by
  refine ⟨fun b hb => h.paths b (hpaths ▸ hb), fun p _ => Or.inl (by rw [hpaths]), ?_, hcov, hheld⟩
  intro q i hq hi
  rw [hpaths] at hi
  exact Or.inr ⟨q, hq, hi, hrows _ i hi⟩

theorem step_cleanup {inode : Nat} (h : RowsOk t fds db)
    (hfree : ∀ fd f, fds.lookup fd = some f → f.inode ≠ inode) :
    RowsStep t fds db (tryCleanupInode db inode) := by
  refine step_stats h (tryCleanupInode_paths db inode) ?_ ?_ ?_
  · intro b i hi
    exact mem_of_lookup_eq (lookup_tryCleanupInode inode hi) (h.rows b i hi).2
  · intro p i _ hi
    exact lookup_tryCleanupInode inode hi
  intro fd f hf hmem
  unfold tryCleanupInode
  split
  · exact hmem
  · exact AList.mem_erase.mpr ⟨hfree fd f hf, hmem⟩

theorem step_writeStat {inode : Nat} {stat : IshStat} (h : RowsOk t fds db)
    (hinode : ∀ p, Covered (ReadOnlyAt t) p → db.paths.lookup (render p) ≠ some inode) :
    RowsStep t fds db (inodeWriteStat db inode stat) := by
  have hmem : ∀ i, i ∈ db.stats → i ∈ (inodeWriteStat db inode stat).stats := by
    intro i hi
    unfold inodeWriteStat
    split
    · exact (AList.mem_insert _).mpr (Or.inr hi)
    · exact hi
  refine step_stats h ?_ (fun b i hi => hmem i (h.rows b i hi).2) ?_ (fun _ _ _ => hmem _)
  · unfold inodeWriteStat
    split <;> rfl
  intro p i hp hi
  unfold inodeWriteStat
  split
  · refine AList.lookup_insert_ne ?_
    rintro rfl
    exact hinode p hp hi
  · rfl

theorem step_rename (h : RowsOk t fds db) (hsrc : Outside (ReadOnlyAt t) src)
    (hdst : Outside (ReadOnlyAt t) dst) :
    RowsStep t fds db (pathRename db (render src) (render dst)) := by
  constructor
  · exact allPaths_pathRename src dst h.paths
  · intro p hp
    refine Or.inl (lookup_pathRename_other h.paths ?_ ?_)
    · rintro q rfl
      exact hp.not_outside (hsrc.append q)
    · rintro q rfl
      exact absurd (hdst.append q) hp.not_outside
  · intro q i hq hi
    rcases Assoc.lookup_moveKeys_some hi with hold | ⟨b, hb, hold⟩
    · exact Or.inr ⟨q, hq, hold, (h.rows _ i hold).2⟩
    · obtain ⟨r, rfl, _⟩ := (mem_rows h.paths).mp hb
      exact Or.inr ⟨src ++ r, (hsrc.append r).1, hold, (h.rows _ i hold).2⟩
  · intro _ _ _ _
    rfl
  · intro _ _ _ hmem
    exact hmem

end IosLinuxkit.Fs
