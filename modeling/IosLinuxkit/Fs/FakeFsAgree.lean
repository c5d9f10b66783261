import IosLinuxkit.Fs.FakeFs

/-!
# The metadata and the tree agree

The paths in the database are the names on the host, and two of them have one inode if they are
hard links of one file.
-/

namespace IosLinuxkit.Fs

variable {s : FsState} {p : Path}

structure Agree (s : FsState) : Prop where
  names : ∀ p, (s.tree p).isSome ↔ (s.db.paths.lookup (render p)).isSome
  paths : AllPaths s.db
  links : ∀ p q x y i k, s.tree p = some x → s.tree q = some y →
    s.db.paths.lookup (render p) = some i → s.db.paths.lookup (render q) = some k →
    (i = k ↔ x.ino = y.ino)
  /-- the foreign key, and row ids begin with 1 -/
  stats : ∀ b i, s.db.paths.lookup b = some i → i ≠ 0 ∧ i ∈ s.db.stats

/-! ## Names that stand for what other names stood for -/

structure Pullback (s s' : FsState) (g : Path → Option Path) : Prop where
  tree : ∀ p, s'.tree p = (g p).bind s.tree
  rows : ∀ p, s'.db.paths.lookup (render p) = (g p).bind fun q => s.db.paths.lookup (render q)

theorem Agree.pullback {s' : FsState} {g : Path → Option Path} (h : Agree s)
    (hg : Pullback s s' g) (hpaths : AllPaths s'.db)
    (hstats : ∀ b i, s'.db.paths.lookup b = some i → i ∈ s.db.stats → i ∈ s'.db.stats) :
    Agree s' where
  names p := by
    rw [hg.tree, hg.rows]
    cases g p with
    | none => rfl
    | some q => exact h.names q
  paths := hpaths
  links p q x y i k hx hy hi hk := by
    rw [hg.tree, Option.bind_eq_some_iff] at hx hy
    rw [hg.rows, Option.bind_eq_some_iff] at hi hk
    obtain ⟨p', hp, hx⟩ := hx
    obtain ⟨q', hq, hy⟩ := hy
    obtain ⟨p'', hp', hi⟩ := hi
    obtain ⟨q'', hq', hk⟩ := hk
    cases hp.symm.trans hp'
    cases hq.symm.trans hq'
    exact h.links p' q' x y i k hx hy hi hk
  stats b i hi := by
    obtain ⟨p, rfl⟩ := hpaths b (AList.lookup_isSome.mp (by rw [hi]; rfl))
    have hrow := hi
    rw [hg.rows, Option.bind_eq_some_iff] at hrow
    obtain ⟨q, _, hq⟩ := hrow
    exact ⟨(h.stats _ i hq).1, hstats _ i hi (h.stats _ i hq).2⟩

theorem pullback_id {s' : FsState} (htree : s'.tree = s.tree)
    (hrows : ∀ b, s'.db.paths.lookup b = s.db.paths.lookup b) : Pullback s s' some where
  tree p := by rw [htree]; rfl
  rows p := hrows (render p)

variable {db : FakeDb} {i : Nat}

theorem Agree.stats_only (h : Agree s) (hpaths : db.paths = s.db.paths)
    (hstats : ∀ b i, s.db.paths.lookup b = some i → i ∈ s.db.stats → i ∈ db.stats) :
    Agree ⟨s.tree, db⟩ := by
  refine h.pullback (pullback_id rfl fun b => by rw [hpaths]) ?_ ?_
  · intro b hb
    rw [hpaths] at hb
    exact h.paths b hb
  intro b i hi
  rw [hpaths] at hi
  exact hstats b i hi

theorem mem_tryCleanupInode {b : Blob} (inode : Nat)
    (hi : db.paths.lookup b = some i) (hmem : i ∈ db.stats) :
    i ∈ (tryCleanupInode db inode).stats := by
  rw [← AList.lookup_isSome, lookup_tryCleanupInode inode hi, AList.lookup_isSome]
  exact hmem

theorem inodeCheckOrphaned_paths (db : FakeDb) (inode : Nat) (held : Bool) :
    (inodeCheckOrphaned db inode held).paths = db.paths := by
  unfold inodeCheckOrphaned
  split
  · rfl
  · exact tryCleanupInode_paths db inode

theorem mem_inodeCheckOrphaned {b : Blob} (inode : Nat) (held : Bool)
    (hi : db.paths.lookup b = some i) (hmem : i ∈ db.stats) :
    i ∈ (inodeCheckOrphaned db inode held).stats := by
  unfold inodeCheckOrphaned
  split
  · exact hmem
  · exact mem_tryCleanupInode inode hi hmem

theorem mem_inodeWriteStat (inode : Nat) (stat : IshStat)
    (hmem : i ∈ db.stats) : i ∈ (inodeWriteStat db inode stat).stats := by
  unfold inodeWriteStat
  split
  · exact (AList.mem_insert _).mpr (Or.inr hmem)
  · exact hmem

theorem inodeWriteStat_paths (db : FakeDb) (inode : Nat) (stat : IshStat) :
    (inodeWriteStat db inode stat).paths = db.paths := by
  unfold inodeWriteStat
  split <;> rfl

/-! ## New names -/

theorem allPaths_insert (hall : AllPaths db) (p : Path) (i : Nat)
    (stats : AList (fun _ : Nat => IshStat)) :
    AllPaths { paths := db.paths.insert (render p) i, stats } := by
  intro b hb
  rcases (AList.mem_insert _).mp hb with rfl | hb
  · exact ⟨p, rfl⟩
  · exact hall b hb

theorem Agree.create {ino : Nat} {dir : Bool} (h : Agree s) (hfree : s.tree p = none)
    (hino : FreshIno s.tree ino) (stat : IshStat) :
    Agree ⟨Function.update s.tree p (some ⟨ino, dir⟩), pathCreate s.db (render p) stat⟩ := by
  have hrow : ∀ q, q ≠ p →
      (pathCreate s.db (render p) stat).paths.lookup (render q) = s.db.paths.lookup (render q) :=
    fun q hq => AList.lookup_insert_ne fun hr => hq (render_injective hr)
  have hnew : (pathCreate s.db (render p) stat).paths.lookup (render p) = some (newRow s.db) :=
    AList.lookup_insert _
  -- the new inode is nobody's
  have hother : ∀ b i, s.db.paths.lookup b = some i → i ≠ newRow s.db := by
    intro b i hi hnr
    exact newRow_fresh s.db (hnr ▸ (h.stats b i hi).2)
  constructor
  · intro q
    dsimp only
    by_cases hq : q = p
    · subst hq
      rw [Function.update_self, hnew]
      exact Iff.rfl
    · rw [Function.update_of_ne hq, hrow q hq]
      exact h.names q
  · exact allPaths_insert h.paths p _ _
  · intro q r x y i k hx hy hi hk
    dsimp only at hx hy hi hk
    by_cases hq : q = p
    · subst hq
      rw [Function.update_self] at hx
      rw [hnew] at hi
      cases hx
      cases hi
      by_cases hr : r = q
      · subst hr
        rw [Function.update_self] at hy
        rw [hnew] at hk
        cases hy
        cases hk
        exact Iff.intro (fun _ => rfl) (fun _ => rfl)
      rw [Function.update_of_ne hr] at hy
      rw [hrow r hr] at hk
      exact iff_of_false (fun he => hother _ k hk he.symm) (fun he => hino r y hy he.symm)
    rw [Function.update_of_ne hq] at hx
    rw [hrow q hq] at hi
    by_cases hr : r = p
    · subst hr
      rw [Function.update_self] at hy
      rw [hnew] at hk
      cases hy
      cases hk
      exact iff_of_false (hother _ i hi) (hino q x hx)
    rw [Function.update_of_ne hr] at hy
    rw [hrow r hr] at hk
    exact h.links q r x y i k hx hy hi hk
  intro b i hi
  dsimp only at hi ⊢
  by_cases hb : b = render p
  · subst hb
    rw [hnew] at hi
    cases hi
    exact ⟨newRow_ne_zero s.db, (AList.mem_insert _).mpr (Or.inl rfl)⟩
  have hi' : s.db.paths.lookup b = some i := by
    rw [← hi]
    exact (AList.lookup_insert_ne hb).symm
  exact ⟨(h.stats b i hi').1, (AList.mem_insert _).mpr (Or.inr (h.stats b i hi').2)⟩

end IosLinuxkit.Fs
