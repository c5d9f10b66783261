import IosLinuxkit.Fs.BindFrame
import IosLinuxkit.Fs.BindRows

/-!
# Operations that leave read-only mounts alone
-/

namespace IosLinuxkit.Fs

open Names (Covered Above Outside StandsFor)

variable {t : List BindMount} {root : HostId} {fds : AList (fun _ : Nat => BindFd)}
  {db db' db'' : FakeDb} {p q src dst : Path} {s : BindState} {e : BindEvent}

/-! ## Rows -/

/-- The rows under read-only mounts are kept, and stay apart. -/
def RowsGood (t : List BindMount) (fds : AList (fun _ : Nat => BindFd)) (db db' : FakeDb) : Prop :=
  RowsOk t fds db' ∧ RowsKept t db db'

theorem RowsStep.good (hs : RowsStep t fds db db') (h : RowsOk t fds db) : RowsGood t fds db db' :=
  ⟨hs.ok h, hs.kept⟩

theorem RowsGood.refl (h : RowsOk t fds db) : RowsGood t fds db db := ⟨h, .refl db⟩

theorem RowsGood.trans (h₁ : RowsGood t fds db db') (h₂ : RowsGood t fds db' db'') :
    RowsGood t fds db db'' := ⟨h₂.1, h₁.2.trans h₂.2⟩

theorem lookup_none_of_zero (h : RowsOk t fds db) (hz : pathGetInode db (render q) = 0) :
    db.paths.lookup (render q) = none := by
  cases hi : db.paths.lookup (render q) with
  | none => rfl
  | some i =>
    rw [pathGetInode_of_lookup hi] at hz
    exact absurd hz (h.rows _ i hi).1

theorem good_ensure (h : RowsOk t fds db) (q : Path) (probe : Option (BitVec 32)) :
    RowsGood t fds db (bindMountEnsureInode db (render q) probe).2 := by
  unfold bindMountEnsureInode
  split
  case isTrue => exact .refl h
  case isFalse hz =>
    cases probe with
    | none => exact .refl h
    | some mode =>
      have hnone := lookup_none_of_zero h (Decidable.not_not.mp hz)
      exact (step_create h (Or.inr ⟨hnone, mode, rfl⟩)).good h

theorem good_ensured (h : RowsOk t fds db) (q : Path) (probe : Option (BitVec 32)) :
    RowsGood t fds db (ensured t db (render q) probe) := by
  unfold ensured
  split
  · exact good_ensure h q probe
  · exact .refl h

theorem good_openInode (creat : Bool) (stat : IshStat) (probe : Option (BitVec 32))
    (h : RowsOk t fds db) (hq : creat = true → ¬ Covered (ReadOnlyAt t) q) :
    RowsGood t fds db (openInode t db (render q) creat stat probe).2 := by
  unfold openInode
  have hmid : RowsGood t fds db (if creat = true ∧ pathGetInode db (render q) = 0 then
      pathCreate db (render q) stat else db) := by
    split
    case isTrue hc => exact (step_create h (Or.inl (hq hc.1))).good h
    case isFalse => exact .refl h
  dsimp only
  generalize (if creat = true ∧ pathGetInode db (render q) = 0 then pathCreate db (render q) stat
    else db) = mid at hmid ⊢
  split
  · exact hmid.trans (good_ensure hmid.1 q probe)
  · exact hmid

variable {held : Bool} {r : Int} {stat : IshStat} {host : HostFs} {fd : Nat}

theorem good_orphaned {inode : Nat} (h : RowsOk t fds db)
    (hfree : held = false → ∀ fd f, fds.lookup fd = some f → f.inode ≠ inode) :
    RowsGood t fds db (inodeCheckOrphaned db inode held) := by
  unfold inodeCheckOrphaned
  split
  case isTrue => exact .refl h
  case isFalse hheld =>
    exact (step_cleanup h (hfree (Bool.not_eq_true _ ▸ hheld))).good h

theorem good_remove (h : RowsOk t fds db) (hq : ¬ Covered (ReadOnlyAt t) q)
    (hfree : held = false → ∀ fd f, fds.lookup fd = some f → f.inode ≠ pathGetInode db (render q)) :
    RowsGood t fds db (fakefsRemove db (render q) r held).2 := by
  unfold fakefsRemove
  split
  case isTrue => exact .refl h
  case isFalse =>
    show RowsGood t fds db (inodeCheckOrphaned (pathUnlink db (render q)).2
      (pathUnlink db (render q)).1 held)
    unfold pathUnlink
    split
    case isTrue hz =>
      refine good_orphaned h fun hheld => ?_
      rw [← hz]
      exact hfree hheld
    case isFalse =>
      have herase := (step_erase h hq).good h
      exact herase.trans (good_orphaned herase.1 hfree)

theorem good_rename (h : RowsOk t fds db)
    (hsrc : Outside (ReadOnlyAt t) src) (hdst : Outside (ReadOnlyAt t) dst)
    (hfree : held = false → ∀ fd f, fds.lookup fd = some f →
      f.inode ≠ pathGetInode db (render dst)) :
    RowsGood t fds db (fakefsRename db (render src) (render dst) r held).2 := by
  have hren := (step_rename h hsrc hdst).good h
  unfold fakefsRename
  dsimp only
  split
  · exact .refl h
  split
  · exact hren.trans (good_orphaned hren.1 hfree)
  · exact hren

theorem good_mknod {cred : Cred} {mode dev : BitVec 32} (h : RowsOk t fds db)
    (hq : ¬ Covered (ReadOnlyAt t) q) :
    RowsGood t fds db (fakefsMknod db (render q) cred mode dev r).2 := by
  unfold fakefsMknod
  split
  case isTrue => exact .refl h
  case isFalse =>
    dsimp only
    split
    case isTrue => exact (step_create h (Or.inl hq)).good h
    case isFalse hne =>
      refine (step_writeStat h fun p hp hi => ?_).good h
      -- the inode is that of a path elsewhere
      cases hrow : db.paths.lookup (render q) with
      | none => exact hne (pathGetInode_of_none hrow)
      | some k =>
        rw [pathGetInode_of_lookup hrow] at hi
        exact h.inodes p q k hp hq hi hrow

theorem lookup_of_readStat {i : Nat} {b : Blob}
    (h : pathReadStat db b = some (i, stat)) : db.paths.lookup b = some i := by
  unfold pathReadStat at h
  simp only [Option.bind_eq_bind, Option.bind_eq_some_iff, Option.pure_def, Option.some_inj,
    Prod.mk.injEq] at h
  obtain ⟨k, hk, _, _, rfl, _⟩ := h
  exact hk

theorem good_writeRow {i : Nat} {stat' : IshStat} (h : RowsOk t fds db)
    (hq : ¬ Covered (ReadOnlyAt t) q) (hi : pathReadStat db (render q) = some (i, stat)) :
    RowsGood t fds db (inodeWriteStat db i stat') :=
  (step_writeStat h fun p hp hp' => h.inodes p q i hp hq hp' (lookup_of_readStat hi)).good h

theorem good_setattrRow {attr : Attr} {probe : Option (BitVec 32)} (h : RowsOk t fds db)
    (hq : ¬ Covered (ReadOnlyAt t) q) :
    RowsGood t fds db (setattrRow t db (render q) attr probe).2 := by
  have hens := good_ensured h q probe
  unfold setattrRow
  split
  case h_1 hi => exact good_writeRow h hq hi
  case h_2 =>
    split
    case h_1 hi => exact hens.trans (good_writeRow hens.1 hq hi)
    case h_2 => exact hens

/-! ## States -/

section

variable (t : List BindMount) (root : HostId)

structure BindInv (s : BindState) : Prop where
  apart : Apart t root s.host
  rows : RowsOk t s.fds s.db
  writable : ∀ fd f p, s.fds.lookup fd = some f → f.writable = true →
    Covered (ReadOnlyAt t) p → ¬ StandsFor (Start t root) s.host.graph p f.obj

/-- What is reached at and under the read-only mounts, and its metadata. -/
structure ReadonlyKept (s s' : BindState) : Prop where
  host : Unchanged t root s.host s'.host
  rows : RowsKept t s.db s'.db

def Good (s s' : BindState) : Prop := BindInv t root s' ∧ ReadonlyKept t root s s'

/-- The path is a mount point or a directory above one. -/
def AtOrAbove (p : Path) : Prop := ∃ b ∈ t, b.active = true ∧ p <+: b.path

def BindOk (s : BindState) : BindEvent → Prop
  | .link src dst _ _ =>
    ¬ Covered (ReadOnlyAt t) src ∧ ¬ AtOrAbove t src ∧ ¬ Above (ReadOnlyAt t) dst
  | .unlink path _ _ _ _ =>
    Above (ReadOnlyAt t) path → ∀ x y, s.host.walk root path = some x →
      s.host.kind x ≠ some (.link y)
  | .rename src dst _ _ _ => ¬ AtOrAbove t src ∧ ¬ Above (ReadOnlyAt t) dst
  | .fsetattr fd attr _ _ =>
    (∃ n, attr = .size n) ∨ ∀ f, s.fds.lookup fd = some f → ¬ Covered (ReadOnlyAt t) f.path
  | .utime path _ _ => ¬ Covered (ReadOnlyAt t) path
  | _ => True

end

theorem outside_of_not_above (hc : ¬ Covered (ReadOnlyAt t) p) (ha : ¬ Above (ReadOnlyAt t) p) :
    Outside (ReadOnlyAt t) p := ⟨hc, fun hm => ha ⟨hc, hm⟩⟩

theorem outside_of_not_atOrAbove (hc : ¬ Covered (ReadOnlyAt t) p) (ha : ¬ AtOrAbove t p) :
    Outside (ReadOnlyAt t) p := by
  refine ⟨hc, ?_⟩
  rintro ⟨m, ⟨b, hb, hactive, _, rfl⟩, hpre⟩
  exact ha ⟨b, hb, hactive, hpre⟩

theorem Good.refl (h : BindInv t root s) : Good t root s s := ⟨h, .refl s.host, .refl s.db⟩

theorem Good.trans {s' s'' : BindState} (h₁ : Good t root s s') (h₂ : Good t root s' s'') :
    Good t root s s'' :=
  ⟨h₂.1, h₁.2.host.trans h₂.2.host, h₁.2.rows.trans h₂.2.rows⟩

theorem good_of_step (h : BindInv t root s) (hh : HostStep t root s.host host)
    (hd : RowsGood t s.fds s.db db) : Good t root s { s with host, db } := by
  refine ⟨⟨hh.apart h.apart, hd.1, fun fd f p hf hw hp hx => ?_⟩, hh.unchanged h.apart, hd.2⟩
  rw [show StandsFor (Start t root) host.graph p f.obj ↔ _ from
    Names.standsFor_iff_of_covered h.apart.separate h.apart.closed hh.edit hp] at hx
  exact h.writable fd f p hf hw hp hx

theorem good_host (h : BindInv t root s) (hh : HostStep t root s.host host) :
    Good t root s { s with host } := good_of_step h hh (.refl h.rows)

theorem good_db (h : BindInv t root s) (hd : RowsGood t s.fds s.db db) :
    Good t root s { s with db } := good_of_step h (.refl s.host) hd

theorem good_guarded {path : Path} {c : Option (Int × BindState)} (h : BindInv t root s)
    (hc : ¬ Covered (ReadOnlyAt t) path → ∀ r s', c = some (r, s') → Good t root s s') :
    ∀ r s', guarded t s path c = some (r, s') → Good t root s s' := by
  intro r s' heq
  unfold guarded at heq
  split at heq
  case isTrue =>
    cases heq
    exact .refl h
  case isFalse hro =>
    refine hc (fun hcov => hro ?_) r s' heq
    exact isUnderReadonlyBindMount_iff.mpr hcov

theorem good_done {c : Int × FakeDb} (h : BindInv t root s)
    (hh : HostStep t root s.host host) (hd : RowsGood t s.fds s.db c.2) :
    ∀ r s', s.done host c = some (r, s') → Good t root s s' := by
  intro r s' heq
  cases heq
  exact good_of_step h hh hd

theorem not_held {inode : Nat} {other : Bool} (h : s.held inode other = false) :
    ∀ fd f, s.fds.lookup fd = some f → f.inode ≠ inode := by
  intro fd f hf hinode
  unfold BindState.held at h
  rw [Bool.or_eq_false_iff, List.any_eq_false] at h
  exact h.2 ⟨fd, f⟩ (AList.mem_lookup_iff.mp hf) (decide_eq_true hinode)

/-! ## Descriptors -/

theorem openInode_row {creat : Bool} {probe : Option (BitVec 32)}
    (hne : (openInode t db (render q) creat stat probe).1 ≠ 0) :
    (openInode t db (render q) creat stat probe).2.paths.lookup (render q) =
      some (openInode t db (render q) creat stat probe).1 := by
  have hget : ∀ db : FakeDb, pathGetInode db (render q) ≠ 0 →
      db.paths.lookup (render q) = some (pathGetInode db (render q)) := by
    intro db hz
    cases hi : db.paths.lookup (render q) with
    | none => exact absurd (pathGetInode_of_none hi) hz
    | some i => rw [pathGetInode_of_lookup hi]
  unfold openInode at hne ⊢
  dsimp only at hne ⊢
  generalize (if creat = true ∧ pathGetInode db (render q) = 0 then pathCreate db (render q) stat
    else db) = mid at hne ⊢
  split at hne
  case isTrue hz =>
    rw [if_pos hz]
    unfold bindMountEnsureInode at hne ⊢
    rw [if_neg (by omega)] at hne ⊢
    cases probe with
    | none => exact absurd rfl hne
    | some mode => exact AList.lookup_insert _
  case isFalse hz =>
    rw [if_neg hz]
    exact hget mid hne

theorem rowsOk_insert {f : BindFd} (h : RowsOk t fds db)
    (hrow : db.paths.lookup (render f.path) = some f.inode) : RowsOk t (fds.insert fd f) db := by
  have hcases : ∀ k g, (fds.insert fd f).lookup k = some g → g = f ∨ fds.lookup k = some g := by
    intro k g hg
    by_cases hk : k = fd
    · rw [hk, AList.lookup_insert] at hg
      exact Or.inl (Option.some_inj.mp hg).symm
    · rw [AList.lookup_insert_ne hk] at hg
      exact Or.inr hg
  refine ⟨h.paths, h.rows, h.inodes, fun k g hg => ?_, fun k g p hg hpath hp hi => ?_⟩
  · rcases hcases k g hg with rfl | hg
    · exact (h.rows _ _ hrow).2
    · exact h.held k g hg
  rcases hcases k g hg with rfl | hg
  · exact h.inodes p g.path g.inode hp hpath hi hrow
  · exact h.opened k g p hg hpath hp hi

theorem rowsOk_erase (h : RowsOk t fds db) : RowsOk t (fds.erase fd) db := by
  have hsub : ∀ k g, (fds.erase fd).lookup k = some g → fds.lookup k = some g := by
    intro k g hg
    by_cases hk : k = fd
    · rw [hk, AList.lookup_erase] at hg
      cases hg
    · rw [AList.lookup_erase_ne hk] at hg
      exact hg
  exact ⟨h.paths, h.rows, h.inodes, fun k g hg => h.held k g (hsub k g hg),
    fun k g p hg => h.opened k g p (hsub k g hg)⟩

theorem BindInv.insert {f : BindFd} (h : BindInv t root s)
    (hrow : s.db.paths.lookup (render f.path) = some f.inode)
    (hobj : f.writable = true → ∀ p, Covered (ReadOnlyAt t) p →
      ¬ StandsFor (Start t root) s.host.graph p f.obj) :
    BindInv t root { s with fds := s.fds.insert fd f } := by
  refine ⟨h.apart, rowsOk_insert h.rows hrow, fun k g p hg hw hp => ?_⟩
  dsimp only at hg
  by_cases hk : k = fd
  · rw [hk, AList.lookup_insert, Option.some_inj] at hg
    subst hg
    exact hobj hw p hp
  · rw [AList.lookup_insert_ne hk] at hg
    exact h.writable k g p hg hw hp

theorem reached_openAt (t : List BindMount) (root : HostId) (h : HostFs) (path : Path) :
    ∃ q, Reached t root h q (openAt t root path).1 ∧ q ++ (openAt t root path).2 = path := by
  unfold openAt
  split
  case h_1 b rest htr =>
    obtain ⟨hb, hactive, hp⟩ := translate_covers htr
    exact ⟨b.path, .base (.mount hb hactive), hp.symm⟩
  case h_2 => exact ⟨[], reached_root, rfl⟩

end IosLinuxkit.Fs
