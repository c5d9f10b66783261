import IosLinuxkit.Fs.FakeFsAgree

/-!
# Runs of a fakefs

Each operation keeps the metadata and the tree in agreement, but for five cases.

* **`fakefs_run`** — the agreement after every run that meets `FsOk`, and what each of its steps
  does: an operation that fails or finds the name taken changes nothing, and a rename moves the
  rows of the path and of what is under it and no others.
-/

namespace IosLinuxkit.Fs

variable {s : FsState} {e : FsEvent} {p src dst : Path}

/-! ## What an operation may rely on

The code does not meet what is asked of it in five cases, all about the host's answer: it takes
`EEXIST` from `mknod` for success; it does not know that a rename between two names of one file
does nothing; and after `openat` made a file it may still fail, in `inode_get`, in the write of a
link's target, and in the `close` of a node. -/

def FsOk (s : FsState) : FsEvent → Prop
  | .open path _ _ _ r _ inodeOk => r < 0 ∨ inodeOk = true ∨ (s.tree path).isSome
  | .rename src dst r _ _ =>
    r < 0 ∨ src = dst ∨ ∀ x y, s.tree src = some x → s.tree dst = some y → x.ino ≠ y.ino
  | .symlink path _ r _ written tree => r < 0 ∨ 0 ≤ written ∨ tree path = none
  | .mknod _ _ _ _ r tree => r ≠ eEXIST ∧ (r < 0 → tree = s.tree)
  | _ => True

def FsEvent.creates : FsEvent → Option Path
  | .open path _ _ _ _ _ _ => some path
  | .link _ dst _ _ => some dst
  | .symlink path _ _ _ _ _ => some path
  | .mknod path _ _ _ _ _ => some path
  | .mkdir path _ _ _ _ => some path
  | _ => none

def renamedFrom (src dst p : Path) : Option Path :=
  if dst <+: p then some (src ++ p.drop dst.length)
  else if src <+: p then none
  else some p

structure StepOk (s : FsState) (e : FsEvent) : Prop where
  failed : ∀ r, fsRet s e = some r → r < 0 → fsStep s e = s
  taken : ∀ p, e.creates = some p → (s.tree p).isSome → fsStep s e = s
  renamed : ∀ src dst r tree held, e = .rename src dst r tree held → 0 ≤ r →
    ∀ p, pathReadStat (fsStep s e).db (render p) =
      (renamedFrom src dst p).bind fun q => pathReadStat s.db (render q)

variable {r : Int} {cred : Cred} {mode : BitVec 32} {tree t t' : Tree} {dir held : Bool} {attr : Attr}

theorem fsRet_of_call {db : FakeDb} (hc : e.call s = some (r, db)) :
    fsRet s e = some r := by
  rw [fsRet, hc]
  rfl

theorem fsStep_of_call {db : FakeDb} (hc : e.call s = some (r, db)) :
    fsStep s e = ⟨e.after s, db⟩ := by
  rw [fsStep, hc]
  rfl

theorem stepOk_of_done (h : fsStep s e = s ∨ fsRet s e = some 0 ∧ ∀ p, e.creates = some p →
    s.tree p = none) (hren : ∀ src dst r tree held, e ≠ .rename src dst r tree held) :
    StepOk s e := by
  refine ⟨fun r hr hlt => ?_, fun q hq htaken => ?_, fun src dst r tree held he => ?_⟩
  · rcases h with heq | ⟨hret, _⟩
    · exact heq
    rw [hret] at hr
    cases hr
    omega
  · rcases h with heq | ⟨_, hfree⟩
    · exact heq
    · rw [hfree q hq] at htaken
      cases htaken
  · exact absurd he (hren src dst r tree held)

/-! ## Operations that make a file -/

/-- Nothing happens, or a file and a row are made for a name that was free. -/
def Made (s : FsState) (e : FsEvent) (p : Path) : Prop :=
  fsStep s e = s ∨ fsRet s e = some 0 ∧ s.tree p = none ∧ ∃ ino dir stat, FreshIno s.tree ino ∧
      fsStep s e = ⟨Function.update s.tree p (some ⟨ino, dir⟩), pathCreate s.db (render p) stat⟩

theorem Agree.made (h : Agree s) (hm : Made s e p) : Agree (fsStep s e) := by
  rcases hm with heq | ⟨_, hfree, ino, dir, stat, hino, heq⟩
  · rw [heq]
    exact h
  · rw [heq]
    exact h.create hfree hino stat

theorem Made.stepOk (hm : Made s e p) (hp : e.creates = some p) : StepOk s e := by
  refine stepOk_of_done ?_ fun src dst r tree held he => ?_
  · rcases hm with heq | ⟨hret, hfree, _⟩
    · exact Or.inl heq
    refine Or.inr ⟨hret, fun q hq => ?_⟩
    cases hp.symm.trans hq
    exact hfree
  · rw [he] at hp
    cases hp

theorem Agree.row_of_tree (h : Agree s) {x : HostNode} (hx : s.tree p = some x) :
    ∃ i, s.db.paths.lookup (render p) = some i ∧ i ≠ 0 := by
  obtain ⟨i, hi⟩ := Option.isSome_iff_exists.mp ((h.names p).mp (by rw [hx]; rfl))
  exact ⟨i, hi, (h.stats _ i hi).1⟩

theorem Agree.no_row (h : Agree s) (hp : s.tree p = none) :
    s.db.paths.lookup (render p) = none := by
  rw [← Option.not_isSome_iff_eq_none, ← h.names p, hp]
  exact Bool.false_ne_true

theorem pathGetInode_pathCreate (db : FakeDb) (path : Blob) (stat : IshStat) :
    pathGetInode (pathCreate db path stat) path = newRow db :=
  pathGetInode_of_lookup (AList.lookup_insert _)

theorem made_open {excl inodeOk : Bool} (h : Agree s) (hposix : HostOpen s.tree p excl r tree)
    (hok : r < 0 ∨ inodeOk = true ∨ (s.tree p).isSome) :
    Made s (.open p excl cred mode r tree inodeOk) p := by
  cases hposix with
  | fail hr =>
    left
    show FsState.mk s.tree (fakefsOpen s.db (render p) cred mode r inodeOk).2 = s
    rw [fakefsOpen, if_pos hr]
  | exist hx _ _ =>
    -- whether there is memory for the inode or not
    left
    obtain ⟨i, hi, hne⟩ := h.row_of_tree hx
    have hget := pathGetInode_of_lookup hi
    show FsState.mk s.tree (fakefsOpen s.db (render p) cred mode 0 inodeOk).2 = s
    rw [fakefsOpen, if_neg (by omega)]
    dsimp only
    rw [if_neg (by omega : ¬ pathGetInode s.db (render p) = 0),
      if_neg (by omega : ¬ pathGetInode s.db (render p) = 0)]
    split <;> rfl
  | create hc =>
    cases hc with
    | fail hr _ => omega
    | @ok ino hfree _ hino =>
      have hinode : inodeOk = true := by
        rcases hok with hlt | hinode | hsome
        · omega
        · exact hinode
        · rw [hfree] at hsome
          cases hsome
      have hcall : fakefsOpen s.db (render p) cred mode 0 inodeOk =
          (0, pathCreate s.db (render p) (newStat cred (mode ||| sIFREG) 0)) := by
        rw [fakefsOpen, if_neg (by omega)]
        dsimp only
        rw [if_pos (pathGetInode_of_none (h.no_row hfree)), pathGetInode_pathCreate,
          if_neg (newRow_ne_zero _), if_pos hinode]
      exact Or.inr ⟨fsRet_of_call (congrArg some hcall), hfree, ino, false, _, hino,
        fsStep_of_call (congrArg some hcall)⟩

theorem made_mkdir
    (hposix : HostCreate s.tree p true r tree) : Made s (.mkdir p cred mode r tree) p := by
  cases hposix with
  | fail hr _ =>
    left
    show FsState.mk s.tree (fakefsMkdir s.db (render p) cred mode r).2 = s
    rw [fakefsMkdir, if_pos hr]
  | @ok ino hfree _ hino =>
    have hcall : fakefsMkdir s.db (render p) cred mode 0 =
        (0, pathCreate s.db (render p) (newStat cred (mode ||| sIFDIR) 0)) := by
      rw [fakefsMkdir, if_neg (by omega)]
    exact Or.inr ⟨fsRet_of_call (congrArg some hcall), hfree, ino, true, _, hino,
      fsStep_of_call (congrArg some hcall)⟩

theorem made_symlink {written : Int} {made : Tree}
    (hposix : Posix s (.symlink p cred r made written tree))
    (hok : r < 0 ∨ 0 ≤ written ∨ tree p = none) :
    Made s (.symlink p cred r made written tree) p := by
  obtain ⟨hmake, htree⟩ := hposix
  cases hmake with
  | fail hr _ =>
    left
    rw [if_pos (Or.inl hr)] at htree
    subst htree
    show FsState.mk s.tree (fakefsSymlink s.db (render p) cred r written).2 = s
    rw [fakefsSymlink, if_pos hr]
  | @ok ino hfree _ hino =>
    by_cases hw : 0 ≤ written
    · rw [if_pos (Or.inr hw)] at htree
      subst htree
      have hcall : fakefsSymlink s.db (render p) cred 0 written =
          (0, pathCreate s.db (render p) (newStat cred (sIFLNK ||| 0o777) 0)) := by
        rw [fakefsSymlink, if_neg (by omega), if_neg (by omega)]
      exact Or.inr ⟨fsRet_of_call (congrArg some hcall), hfree, ino, false, _, hino,
        fsStep_of_call (congrArg some hcall)⟩
    · -- the link is taken back, so its name is as free as before
      left
      rw [if_neg (by omega)] at htree
      have hback : tree = s.tree := by
        obtain ⟨r', hremove⟩ := htree
        cases hremove with
        | fail _ =>
          rw [Function.update_self] at hok
          rcases hok with hlt | hle | hnone
          · omega
          · exact absurd hle hw
          · cases hnone
        | ok _ _ _ => rw [Function.update_idem, ← hfree, Function.update_eq_self]
      subst hback
      show FsState.mk s.tree (fakefsSymlink s.db (render p) cred 0 written).2 = s
      rw [fakefsSymlink, if_neg (by omega), if_pos (by omega)]

theorem RealfsMknod.create (hm : RealfsMknod t p mode r t') (hback : r < 0 → t' = t) :
    (r < 0 ∧ t' = t) ∨ HostCreate t p false r t' := by
  cases hm with
  | fifo _ hc => exact Or.inr hc
  | reg _ hc => exact Or.inr hc
  | close _ _ hr _ => exact Or.inl ⟨hr, hback hr⟩
  | other _ _ => exact Or.inl ⟨by decide, rfl⟩

theorem made_mknod {dev : BitVec 32} (h : Agree s)
    (hposix : RealfsMknod s.tree p (realMode mode) r tree) (hexist : r ≠ eEXIST)
    (hback : r < 0 → tree = s.tree) : Made s (.mknod p cred mode dev r tree) p := by
  have hfail : r < 0 → Made s (.mknod p cred mode dev r tree) p := by
    intro hr
    left
    show FsState.mk tree (fakefsMknod s.db (render p) cred mode dev r).2 = s
    rw [fakefsMknod, if_pos ⟨hr, hexist⟩, hback hr]
  rcases hposix.create hback with ⟨hr, _⟩ | hc
  · exact hfail hr
  cases hc with
  | fail hr _ => exact hfail hr
  | @ok ino hfree _ hino =>
    have hcall : fakefsMknod s.db (render p) cred mode dev 0 = (0, pathCreate s.db (render p)
        (newStat cred mode (if isType mode sIFBLK || isType mode sIFCHR then dev else 0))) := by
      rw [fakefsMknod, if_neg (by omega)]
      dsimp only
      rw [if_pos (pathGetInode_of_none (h.no_row hfree))]
    exact Or.inr ⟨fsRet_of_call (congrArg some hcall), hfree, ino, false, _, hino,
      fsStep_of_call (congrArg some hcall)⟩

/-! ## Links and removals -/

theorem link_cases (h : Agree s) (hposix : HostLink s.tree src dst r tree) :
    fsStep s (.link src dst r tree) = s ∨
      fsRet s (.link src dst r tree) = some 0 ∧ s.tree dst = none ∧
        ∃ x i, s.tree src = some x ∧ s.db.paths.lookup (render src) = some i ∧
          fsStep s (.link src dst r tree) = ⟨Function.update s.tree dst (some x),
            { s.db with paths := s.db.paths.insert (render dst) i }⟩ := by
  cases hposix with
  | fail hr =>
    left
    have hcall : fakefsLink s.db (render src) (render dst) r = some (r, s.db) := by
      rw [fakefsLink, if_pos hr]
    exact fsStep_of_call hcall
  | @ok x hsrc _ hfree _ =>
    -- the source is a name on the host, so `path_link` finds its row and does not die
    obtain ⟨i, hi, hne⟩ := h.row_of_tree hsrc
    have hcall : fakefsLink s.db (render src) (render dst) 0 =
        some (0, { s.db with paths := s.db.paths.insert (render dst) i }) := by
      rw [fakefsLink, if_neg (by omega), pathLink, pathGetInode_of_lookup hi, if_neg hne]
      rfl
    exact Or.inr ⟨fsRet_of_call hcall, hfree, x, i, hsrc, hi, fsStep_of_call hcall⟩

theorem agree_link (h : Agree s)
    (hposix : HostLink s.tree src dst r tree) : Agree (fsStep s (.link src dst r tree)) := by
  rcases link_cases h hposix with heq | ⟨_, _, x, i, hx, hi, heq⟩
  · rw [heq]
    exact h
  rw [heq]
  refine h.pullback (g := fun p => if p = dst then some src else some p) ⟨?_, ?_⟩
    (allPaths_insert h.paths dst i _) (fun _ _ _ hmem => hmem)
  · intro p
    dsimp only
    by_cases hp : p = dst
    · rw [if_pos hp, hp, Function.update_self]
      exact hx.symm
    · rw [if_neg hp, Function.update_of_ne hp]
      rfl
  intro p
  dsimp only
  by_cases hp : p = dst
  · rw [if_pos hp, hp, AList.lookup_insert]
    exact hi.symm
  · rw [if_neg hp, AList.lookup_insert_ne fun hr => hp (render_injective hr)]
    rfl

theorem agree_remove (h : Agree s) (hposix : HostRemove s.tree p dir r tree) :
    Agree ⟨tree, (fakefsRemove s.db (render p) r held).2⟩ := by
  cases hposix with
  | fail hr =>
    rw [fakefsRemove, if_pos hr]
    exact h
  | @ok x hx _ _ =>
    obtain ⟨i, hi, hne⟩ := h.row_of_tree hx
    rw [fakefsRemove, if_neg (by omega), pathUnlink, pathGetInode_of_lookup hi, if_neg hne]
    dsimp only
    refine h.pullback (g := fun q => if q = p then none else some q) ⟨?_, ?_⟩ ?_ ?_
    · intro q
      dsimp only
      by_cases hq : q = p
      · rw [if_pos hq, hq, Function.update_self]
        rfl
      · rw [if_neg hq, Function.update_of_ne hq]
        rfl
    · intro q
      dsimp only
      rw [inodeCheckOrphaned_paths]
      by_cases hq : q = p
      · rw [if_pos hq, hq, AList.lookup_erase]
        rfl
      · rw [if_neg hq, AList.lookup_erase_ne fun hr => hq (render_injective hr)]
        rfl
    · intro b hb
      rw [inodeCheckOrphaned_paths] at hb
      exact h.paths b (AList.mem_erase.mp hb).2
    intro b k hk hmem
    rw [inodeCheckOrphaned_paths] at hk
    exact mem_inodeCheckOrphaned i held hk hmem

theorem remove_done (db : FakeDb) (path : Blob) (r : Int) (held : Bool) :
    fakefsRemove db path r held = (r, db) ∧ r < 0 ∨ (fakefsRemove db path r held).1 = 0 ∧ 0 ≤ r := by
  rw [fakefsRemove]
  split
  case isTrue hr => exact Or.inl ⟨rfl, hr⟩
  case isFalse hr => exact Or.inr ⟨rfl, by omega⟩

theorem HostRemove.tree_of_neg (h : HostRemove t p dir r t') (hr : r < 0) : t' = t := by
  cases h with
  | fail _ => rfl
  | ok _ _ _ => omega

/-! ## Renames -/

theorem moved_eq (t : Tree) (src dst p : Path) :
    t.moved src dst p = (renamedFrom src dst p).bind t := by
  unfold Tree.moved renamedFrom
  split
  · rfl
  · split <;> rfl

theorem renamedFrom_self (src p : Path) : renamedFrom src src p = some p := by
  unfold renamedFrom
  split
  case isTrue hp =>
    obtain ⟨q, rfl⟩ := hp
    rw [List.drop_left]
  case isFalse => rfl

theorem lookup_pathRename_move {x : HostNode} (h : Agree s) (hx : s.tree src = some x)
    (hunder : ¬ src <+: dst) (hempty : ∀ q, q ≠ [] → s.tree (dst ++ q) = none) (p : Path) :
    (pathRename s.db (render src) (render dst)).paths.lookup (render p) =
      (renamedFrom src dst p).bind fun q => s.db.paths.lookup (render q) := by
  have hapart := rename_apart hx hunder hempty
  unfold renamedFrom
  split
  case isTrue hp =>
    obtain ⟨q, rfl⟩ := hp
    rw [List.drop_left]
    show _ = s.db.paths.lookup (render (src ++ q))
    by_cases hrow : (s.db.paths.lookup (render (src ++ q))).isSome
    · exact lookup_pathRename_moved h.paths hapart q hrow
    rw [Option.not_isSome_iff_eq_none] at hrow
    -- there is nothing at `src ++ q`, and nothing was at `dst ++ q`
    have hq : q ≠ [] := by
      intro hq
      obtain ⟨i, hi, _⟩ := h.row_of_tree hx
      rw [hq, List.append_nil, hi] at hrow
      cases hrow
    rw [lookup_pathRename_other h.paths (hapart q), hrow, h.no_row (hempty q hq)]
    intro r hr
    rw [← List.append_cancel_left hr]
    exact hrow
  case isFalse hdst =>
    split
    case isTrue hp =>
      obtain ⟨q, rfl⟩ := hp
      exact lookup_pathRename_source h.paths hapart q
    case isFalse hsrc =>
      exact lookup_pathRename_other h.paths (fun q hq => hsrc ⟨q, hq.symm⟩)
        fun q hq => absurd ⟨q, hq.symm⟩ hdst

theorem fakefsRename_ok (db : FakeDb) (src dst : Blob) (held : Bool) :
    (fakefsRename db src dst 0 held).1 = 0 ∧
      (fakefsRename db src dst 0 held).2.paths = (pathRename db src dst).paths ∧
      ∀ b i, (pathRename db src dst).paths.lookup b = some i →
        (fakefsRename db src dst 0 held).2.stats.lookup i = db.stats.lookup i := by
  have horphan : ∀ inode b i, (pathRename db src dst).paths.lookup b = some i →
      (inodeCheckOrphaned (pathRename db src dst) inode held).stats.lookup i = db.stats.lookup i := by
    intro inode b i hi
    unfold inodeCheckOrphaned
    split
    · rfl
    · exact lookup_tryCleanupInode inode hi
  rw [fakefsRename, if_neg (by omega)]
  dsimp only
  split
  · exact ⟨rfl, inodeCheckOrphaned_paths _ _ _, horphan _⟩
  · exact ⟨rfl, rfl, fun _ _ _ => rfl⟩

theorem rename_pullback (held : Bool) (h : Agree s) (hposix : HostRename s.tree src dst r tree)
    (hok : src = dst ∨ ∀ x y, s.tree src = some x → s.tree dst = some y → x.ino ≠ y.ino)
    (hr : 0 ≤ r) : Pullback s (fsStep s (.rename src dst r tree held)) (renamedFrom src dst) := by
  cases hposix with
  | fail hlt => omega
  | same hx hy hino =>
    rcases hok with rfl | hne
    · refine ⟨fun p => ?_, fun p => ?_⟩
      · rw [renamedFrom_self]
        rfl
      show (fakefsRename s.db (render src) (render src) 0 held).2.paths.lookup (render p) = _
      rw [(fakefsRename_ok _ _ _ _).2.1, lookup_pathRename_self h.paths, renamedFrom_self]
      rfl
    · exact absurd hino (hne _ _ hx hy)
  | move hx _ _ hunder hempty =>
    refine ⟨moved_eq s.tree src dst, fun p => ?_⟩
    show (fakefsRename s.db (render src) (render dst) 0 held).2.paths.lookup (render p) = _
    rw [(fakefsRename_ok _ _ _ _).2.1, lookup_pathRename_move h hx hunder hempty]

theorem HostRename.ret_zero (h : HostRename t src dst r t') (hr : 0 ≤ r) : r = 0 := by
  cases h with
  | fail hlt => omega
  | same _ _ _ => rfl
  | move _ _ _ _ _ => rfl

theorem rename_failed (hposix : HostRename s.tree src dst r tree) (hr : r < 0) :
    fsStep s (.rename src dst r tree held) = s := by
  cases hposix with
  | fail _ =>
    show FsState.mk s.tree (fakefsRename s.db (render src) (render dst) r held).2 = s
    rw [fakefsRename, if_pos hr]
  | same _ _ _ => omega
  | move _ _ _ _ _ => omega

theorem agree_rename (h : Agree s) (hposix : HostRename s.tree src dst r tree)
    (hok : src = dst ∨ ∀ x y, s.tree src = some x → s.tree dst = some y → x.ino ≠ y.ino)
    (hr : 0 ≤ r) : Agree (fsStep s (.rename src dst r tree held)) := by
  obtain rfl := hposix.ret_zero hr
  obtain ⟨_, hpaths, hstats⟩ := fakefsRename_ok s.db (render src) (render dst) held
  refine h.pullback (rename_pullback held h hposix hok hr) ?_ ?_
  · intro b hb
    refine allPaths_pathRename src dst h.paths b ?_
    rw [← hpaths]
    exact hb
  intro b i hi hmem
  have hi' : (pathRename s.db (render src) (render dst)).paths.lookup b = some i := by
    rw [← hpaths]
    exact hi
  show i ∈ (fakefsRename s.db (render src) (render dst) 0 held).2.stats
  rw [← AList.lookup_isSome, hstats b i hi', AList.lookup_isSome]
  exact hmem

theorem stepOk_rename (h : Agree s) (hposix : HostRename s.tree src dst r tree)
    (hok : r < 0 ∨ src = dst ∨ ∀ x y, s.tree src = some x → s.tree dst = some y → x.ino ≠ y.ino) :
    StepOk s (.rename src dst r tree held) := by
  refine ⟨fun r' hr' hlt => ?_, fun q hq _ => ?_, ?_⟩
  · by_cases hr : r < 0
    · exact rename_failed hposix hr
    obtain rfl := hposix.ret_zero (by omega)
    have hret := (fakefsRename_ok s.db (render src) (render dst) held).1
    obtain rfl : (fakefsRename s.db (render src) (render dst) 0 held).1 = r' :=
      Option.some_inj.mp hr'
    omega
  · cases hq
  intro src' dst' r' tree' held' he hr p
  cases he
  obtain rfl := hposix.ret_zero hr
  have hpull := rename_pullback held h hposix (hok.resolve_left (by omega)) hr
  obtain ⟨_, hpaths, hstats⟩ := fakefsRename_ok s.db (render src) (render dst) held
  show (fakefsRename s.db (render src) (render dst) 0 held).2.paths.lookup (render p) >>= _ = _
  rw [show (fakefsRename s.db (render src) (render dst) 0 held).2.paths.lookup (render p) = _
    from hpull.rows p]
  cases hfrom : renamedFrom src dst p with
  | none => rfl
  | some q =>
    show s.db.paths.lookup (render q) >>= _ = pathReadStat s.db (render q)
    unfold pathReadStat
    cases hi : s.db.paths.lookup (render q) with
    | none => rfl
    | some i =>
      have hrow : (pathRename s.db (render src) (render dst)).paths.lookup (render p) = some i := by
        rw [← hpaths, ← hi]
        exact (hpull.rows p).trans (by rw [hfrom]; rfl)
      show (fakefsRename s.db (render src) (render dst) 0 held).2.stats.lookup i >>= _ =
        s.db.stats.lookup i >>= _
      rw [hstats _ i hrow]

/-! ## Metadata -/

theorem agree_setattr (h : Agree s) : Agree (fsStep s (.setattr p attr r)) := by
  show Agree ⟨s.tree, (fakefsSetattr s.db (render p) attr r).2⟩
  unfold fakefsSetattr
  split
  · exact h
  split
  · exact h
  · exact h.stats_only (inodeWriteStat_paths _ _ _) fun _ _ _ => mem_inodeWriteStat _ _

theorem stepOk_setattr : StepOk s (.setattr p attr r) := by
  refine ⟨fun r' hr' hlt => ?_, fun q hq _ => (nomatch hq), fun _ _ _ _ _ he => (nomatch he)⟩
  obtain rfl : (fakefsSetattr s.db (render p) attr r).1 = r' := Option.some_inj.mp hr'
  show FsState.mk s.tree (fakefsSetattr s.db (render p) attr r).2 = s
  unfold fakefsSetattr at hlt ⊢
  split at hlt
  · rfl
  split at hlt
  · rfl
  · exact absurd hlt (Int.lt_irrefl 0)

theorem agree_fsetattr {inode : Nat} (h : Agree s) :
    Agree (fsStep s (.fsetattr inode attr r)) := by
  show Agree ⟨s.tree, ((fakefsFsetattr s.db inode attr r).map Prod.snd).getD s.db⟩
  unfold fakefsFsetattr
  split
  · exact h
  split
  · exact h
  · exact h.stats_only (inodeWriteStat_paths _ _ _) fun _ _ _ => mem_inodeWriteStat _ _

theorem stepOk_fsetattr {inode : Nat} :
    StepOk s (.fsetattr inode attr r) := by
  refine ⟨fun r' hr' hlt => ?_, fun q hq _ => (nomatch hq), fun _ _ _ _ _ he => (nomatch he)⟩
  replace hr' : (fakefsFsetattr s.db inode attr r).map Prod.fst = some r' := hr'
  show FsState.mk s.tree (((fakefsFsetattr s.db inode attr r).map Prod.snd).getD s.db) = s
  unfold fakefsFsetattr at hr' ⊢
  split at hr'
  · rfl
  split at hr'
  · rfl
  · cases hr'
    exact absurd hlt (Int.lt_irrefl 0)

/-! ## Every operation -/

theorem agree_step (h : Agree s) (hposix : Posix s e) (hok : FsOk s e) : Agree (fsStep s e) := by
  cases e with
  | «open» path excl cred mode r tree inodeOk => exact h.made (made_open h hposix hok)
  | link src dst r tree => exact agree_link h hposix
  | unlink path r tree held => exact agree_remove h hposix
  | rmdir path r tree held => exact agree_remove h hposix
  | rename src dst r tree held =>
    by_cases hr : r < 0
    · rw [rename_failed hposix hr]
      exact h
    · exact agree_rename h hposix (hok.resolve_left hr) (by omega)
  | symlink path cred r made written tree => exact h.made (made_symlink hposix hok)
  | mknod path cred mode dev r tree => exact h.made (made_mknod h hposix hok.1 hok.2)
  | mkdir path cred mode r tree => exact h.made (made_mkdir hposix)
  | setattr path attr r => exact agree_setattr h
  | fsetattr inode attr r => exact agree_fsetattr h
  | orphaned inode =>
    exact h.stats_only (tryCleanupInode_paths _ _) fun _ _ hi hmem => mem_tryCleanupInode _ hi hmem

theorem stepOk_remove (hposix : HostRemove s.tree p dir r tree)
    (hcall : e.call s = some (fakefsRemove s.db (render p) r held)) (hafter : e.after s = tree)
    (hname : e.creates = none) (hren : ∀ src dst r tree held, e ≠ .rename src dst r tree held) :
    StepOk s e := by
  refine stepOk_of_done ?_ hren
  rcases remove_done s.db (render p) r held with ⟨heq, hr⟩ | ⟨hret, _⟩
  · left
    rw [heq] at hcall
    rw [fsStep_of_call hcall, hafter, hposix.tree_of_neg hr]
  · right
    rw [hname]
    exact ⟨by rw [fsRet, hcall, ← hret]; rfl, fun q hq => (nomatch hq)⟩

theorem stepOk_step (h : Agree s) (hposix : Posix s e) (hok : FsOk s e) : StepOk s e := by
  cases e with
  | «open» path excl cred mode r tree inodeOk => exact (made_open h hposix hok).stepOk rfl
  | link src dst r tree =>
    refine stepOk_of_done ?_ fun _ _ _ _ _ he => (nomatch he)
    rcases link_cases h hposix with heq | ⟨hret, hfree, _⟩
    · exact Or.inl heq
    refine Or.inr ⟨hret, fun q hq => ?_⟩
    cases hq
    exact hfree
  | unlink path r tree held =>
    exact stepOk_remove hposix rfl rfl rfl fun _ _ _ _ _ he => (nomatch he)
  | rmdir path r tree held =>
    exact stepOk_remove hposix rfl rfl rfl fun _ _ _ _ _ he => (nomatch he)
  | rename src dst r tree held => exact stepOk_rename h hposix hok
  | symlink path cred r made written tree => exact (made_symlink hposix hok).stepOk rfl
  | mknod path cred mode dev r tree => exact (made_mknod h hposix hok.1 hok.2).stepOk rfl
  | mkdir path cred mode r tree => exact (made_mkdir hposix).stepOk rfl
  | setattr path attr r => exact stepOk_setattr
  | fsetattr inode attr r => exact stepOk_fsetattr
  | orphaned inode =>
    exact stepOk_of_done (Or.inr ⟨rfl, fun q hq => (nomatch hq)⟩) fun _ _ _ _ _ he => (nomatch he)

theorem fakefs_run {s0 : FsState} {ops : List FsEvent} (h : Agree s0)
    (hops : AllSteps fsStep (fun s e => Posix s e ∧ FsOk s e) s0 ops) :
    Agree (run fsStep s0 ops) ∧ ∀ e, Posix (run fsStep s0 ops) e → FsOk (run fsStep s0 ops) e →
      StepOk (run fsStep s0 ops) e := by
  have hrun : Agree (run fsStep s0 ops) :=
    run_invariant (fun s e hs hok => agree_step hs hok.1 hok.2) h hops
  exact ⟨hrun, fun e hposix hok => stepOk_step hrun hposix hok⟩

/-! ## A run, and the cases left out -/

theorem slash_nmem_a : slash ∉ ([0x61] : Blob) := by decide

def nameA : Name := ⟨[0x61], List.cons_ne_nil _ _, slash_nmem_a⟩
def nameB : Name := ⟨[0x62], List.cons_ne_nil _ _, by decide⟩

def root : Cred := ⟨0, 0⟩

def rootState : FsState where
  tree p := if p = [] then some ⟨1, true⟩ else none
  db := {
    paths := AList.singleton (render []) 1
    stats := AList.singleton 1 (newStat root (sIFDIR ||| 0o755) 0) }

theorem agree_rootState : Agree rootState := by
  have hrow : ∀ b i, rootState.db.paths.lookup b = some i → b = [] ∧ i = 1 := by
    intro b i hi
    have hmem : b ∈ rootState.db.paths := AList.lookup_isSome.mp (by rw [hi]; rfl)
    obtain rfl : b = [] := List.mem_singleton.mp (AList.mem_keys.mp hmem)
    exact ⟨rfl, (Option.some_inj.mp hi).symm⟩
  constructor
  · intro p
    cases p with
    | nil => exact Iff.intro (fun _ => rfl) (fun _ => rfl)
    | cons n p =>
      refine iff_of_false (fun h => (nomatch h)) (fun h => ?_)
      obtain ⟨i, hi⟩ := Option.isSome_iff_exists.mp h
      exact nomatch (hrow _ i hi).1
  · intro b hb
    obtain ⟨i, hi⟩ := Option.isSome_iff_exists.mp (AList.lookup_isSome.mpr hb)
    exact ⟨[], (hrow b i hi).1⟩
  · intro p q x y i k hx hy hi hk
    -- both names are the root
    obtain ⟨hp, rfl⟩ := hrow _ i hi
    obtain ⟨hq, rfl⟩ := hrow _ k hk
    obtain rfl := render_injective (hp.trans hq.symm)
    cases hx.symm.trans hy
    exact Iff.intro (fun _ => rfl) (fun _ => rfl)
  intro b i hi
  obtain ⟨_, rfl⟩ := hrow b i hi
  exact ⟨Nat.one_ne_zero, AList.mem_keys.mpr (List.mem_singleton.mpr rfl)⟩

def treeA : Tree := Function.update rootState.tree [nameA] (some ⟨2, false⟩)
def treeAB : Tree := Function.update treeA [nameB] (some ⟨2, false⟩)

def makeLinked : List FsEvent :=
  [.open [nameA] true root 0o644 0 treeA true, .link [nameA] [nameB] 0 treeAB]

theorem posix_makeLinked : AllSteps fsStep (fun s e => Posix s e ∧ FsOk s e) rootState makeLinked := by
  refine ⟨⟨?_, Or.inr (Or.inl rfl)⟩, ⟨?_, trivial⟩, trivial⟩
  · refine HostOpen.create (HostCreate.ok rfl ⟨_, rfl, rfl⟩ fun p x hx => ?_)
    cases p with
    | nil =>
      cases hx
      decide
    | cons n p => cases hx
  · exact HostLink.ok (x := ⟨2, false⟩) rfl rfl rfl ⟨⟨1, true⟩, rfl, rfl⟩

/-- The two names are one inode, and making a directory at one of them does nothing. -/
theorem fakefs_run_linked : Agree (run fsStep rootState makeLinked) ∧
    StepOk (run fsStep rootState makeLinked) (.mkdir [nameB] root 0o755 eEXIST treeAB) := by
  have hrun := fakefs_run agree_rootState posix_makeLinked
  refine ⟨hrun.1, hrun.2 _ (HostCreate.fail (by decide) fun _ => ?_) trivial⟩
  exact rfl

theorem fakefs_broken :
    -- the names of one file, of which the database has one after the rename
    (∃ e, Posix (run fsStep rootState makeLinked) e ∧
      ¬ Agree (fsStep (run fsStep rootState makeLinked) e)) ∧
    -- a name that is taken, and gets the metadata of a new node
    ∃ p e, e.creates = some p ∧ Posix (run fsStep rootState makeLinked) e ∧
      ((run fsStep rootState makeLinked).tree p).isSome ∧
      fsRet (run fsStep rootState makeLinked) e = some 0 ∧
      (pathReadStat (fsStep (run fsStep rootState makeLinked) e).db (render p)).map Prod.snd ≠
        (pathReadStat (run fsStep rootState makeLinked).db (render p)).map Prod.snd := by
  refine ⟨⟨.rename [nameA] [nameB] 0 treeAB false, HostRename.same (x := ⟨2, false⟩)
    (y := ⟨2, false⟩) ?_ ?_ rfl, fun h => ?_⟩, [nameA],
    .mknod [nameA] root (sIFIFO ||| 0o600) 0 eEXIST treeAB, rfl, RealfsMknod.fifo rfl
      (HostCreate.fail (by decide) fun _ => ?_), ?_, rfl, by decide⟩
  · rfl
  · rfl
  · have hrow := (h.names [nameA]).mp rfl
    exact absurd hrow (by decide)
  · rfl
  · rfl

end IosLinuxkit.Fs
