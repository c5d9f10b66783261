import IosLinuxkit.Fs.BindInv

/-!
# Read-only bind mounts are not modified

* **`readonly_run`** — every run of operations that the checks see.
-/

namespace IosLinuxkit.Fs

open Names (Covered Above Outside StandsFor)

variable {t : List BindMount} {root : HostId} {s s' : BindState} {e : BindEvent} {h h' : HostFs}
  {x y : HostId} {p q : Path} {r : Int}

/-! ## Open -/

theorem openAt_step {creat trunc : Bool} (ha : Apart t root h)
    (hopen : HostOpenAt h (openAt t root p).1 (openAt t root p).2 creat trunc r x h')
    (hp : (creat || trunc) = true → ¬ Covered (ReadOnlyAt t) p) : HostStep t root h h' := by
  obtain ⟨q, hq, hqp⟩ := reached_openAt t root h p
  cases hopen with
  | fail _ => exact .refl h
  | @exist y _ hwalk hsame hdata htrunc =>
    cases htr : trunc with
    | false =>
      rw [htrunc htr]
      exact .refl h
    | true =>
      have hnot := hp (by rw [htr, Bool.or_true])
      have hreach := hq.walk hwalk
      rw [hqp] at hreach
      exact write_step hsame hdata fun c hc hx =>
        ha.separate.objects c p _ hc hnot hx hreach.standsFor_follow
  | create hcreat hmake =>
    refine make_step ha hq hmake (fun y hcon => nomatch hcon) ?_
    rw [hqp]
    exact hp (by rw [hcreat, Bool.true_or])

theorem openAt_obj {creat trunc : Bool} (ha : Apart t root h)
    (hopen : HostOpenAt h (openAt t root p).1 (openAt t root p).2 creat trunc r x h')
    (hr : 0 ≤ r) (hp : ¬ Covered (ReadOnlyAt t) p) (hq : Covered (ReadOnlyAt t) q) :
    ¬ StandsFor (Start t root) h.graph q x := by
  obtain ⟨a, hbase, hap⟩ := reached_openAt t root h p
  intro hx
  cases hopen with
  | fail hlt => omega
  | @exist y _ hwalk _ _ _ =>
    have hreach := hbase.walk hwalk
    rw [hap] at hreach
    exact ha.separate.objects q p _ hq hp hx hreach.standsFor_follow
  | create _ hmake =>
    cases hmake with
    | fail hlt => omega
    | ok _ _ _ hnew _ _ _ => exact ha.ne_new hx hnew rfl

variable {fd : Nat} {host : HostFs}

theorem good_open {path : Path} {flags : OpenFlags} {cred : Cred} {mode : BitVec 32}
    {obj : HostId} {probe : Option (BitVec 32)} {inodeOk : Bool} (hinv : BindInv t root s)
    (hhost : HostOk t root s (.open path flags cred mode fd r obj host probe inodeOk)) :
    ∀ r' s', (BindEvent.open path flags cred mode fd r obj host probe inodeOk).call t s =
      some (r', s') → Good t root s s' := by
  intro r' s' heq
  simp only [BindEvent.call] at heq
  split at heq
  case isTrue =>
    cases heq
    exact .refl hinv
  case isFalse hro =>
    have hcov : flags.writes = true → ¬ Covered (ReadOnlyAt t) path := by
      intro hw hc
      rw [hw, isUnderReadonlyBindMount_iff.mpr hc] at hro
      exact hro rfl
    have hct : (flags.creat || flags.trunc) = true → flags.writes = true := by
      intro hct
      unfold OpenFlags.writes
      rcases Bool.or_eq_true _ _ ▸ hct with hb | hb <;> rw [hb] <;> simp
    have hstep := openAt_step hinv.apart hhost fun hw => hcov (hct hw)
    have hrows := good_openInode flags.creat (newStat cred (mode ||| sIFREG) 0) probe hinv.rows
      fun hc => hcov (hct (by rw [hc, Bool.true_or]))
    split at heq
    case isTrue =>
      cases heq
      exact good_host hinv hstep
    case isFalse hr =>
      split at heq
      case isTrue =>
        cases heq
        exact good_of_step hinv hstep hrows
      case isFalse hz =>
        split at heq
        case isTrue =>
          cases heq
          have hgood := good_of_step hinv hstep hrows
          refine ⟨hgood.1.insert (openInode_row hz) fun hw c hc hx => ?_, hgood.2.host, hgood.2.rows⟩
          -- a descriptor for writing is of a path elsewhere
          have hwrites : flags.writes = true := by
            unfold OpenFlags.writes
            dsimp only at hw
            rw [hw, Bool.true_or, Bool.true_or, Bool.true_or]
          rw [show StandsFor (Start t root) host.graph c obj ↔ _ from
            Names.standsFor_iff_of_covered hinv.apart.separate hinv.apart.closed hstep.edit hc] at hx
          exact openAt_obj hinv.apart hhost (by omega) (hcov hwrites) hc hx
        case isFalse =>
          cases heq
          exact good_of_step hinv hstep hrows

/-! ## Files that are made -/

theorem make_at_root {k : HostKind} (ha : Apart t root h) (hmake : HostMake h root p k r x h')
    (hk : ∀ y, k ≠ .link y) (hp : ¬ Covered (ReadOnlyAt t) p) : HostStep t root h h' :=
  make_step ha reached_root hmake hk hp

theorem walk_of_entries (hkind : ∀ x, (h.kind x).isSome → h'.kind x = h.kind x)
    (hentry : ∀ d n x, h.entry d n = some x → h'.entry d n = some x) (hx : (h.kind x).isSome)
    (hw : h.walk x p = some y) : h'.walk x p = some y := by
  induction p generalizing x with
  | nil => exact hw
  | cons n p ih =>
    rw [HostFs.walk] at hw
    split at hw
    case h_1 => cases hw
    case h_2 z hz =>
      rw [HostFs.walk, follow_eq (hkind x hx), hentry _ _ _ hz]
      exact ih (h.leads _ _ _ hz) hw

theorem HostWrite.sameTree (hw : HostWrite h x r h') : SameTree h h' := by
  cases hw with
  | fail _ => exact ⟨rfl, rfl⟩
  | ok _ hsame _ => exact hsame

theorem write_of_new {made : HostFs} {written : Int} (ha : Apart t root h)
    (hmade : HostStep t root h made) (hnew : h.kind x = none) (hw : HostWrite made x written h') :
    HostStep t root made h' := by
  cases hw with
  | fail _ => exact .refl h'
  | ok _ hsame hdata =>
    refine write_step hsame hdata fun c hc hx => ?_
    rw [show StandsFor (Start t root) made.graph c x ↔ _ from
      Names.standsFor_iff_of_covered ha.separate ha.closed hmade.edit hc] at hx
    exact ha.ne_new hx hnew rfl

theorem walk_made {made : HostFs} {k : HostKind} (hroot : (h.kind root).isSome)
    (hmake : HostMake h root p k 0 x made) (hsame : SameTree made h') :
    h'.walk root p = some x ∧ h'.kind x = some k := by
  cases hmake with
  | fail hr => omega
  | @ok d _ n _ hplace hdir hfree hnew hkind hentry hdata =>
    obtain ⟨q, y, rfl, hw, rfl⟩ := hplace
    have hkind' : ∀ z, (h.kind z).isSome → h'.kind z = h.kind z := by
      intro z hz
      rw [hsame.kind, hkind, Function.update_of_ne]
      rintro rfl
      rw [hnew] at hz
      cases hz
    have hentry' : ∀ d m z, h.entry d m = some z → h'.entry d m = some z := by
      intro d m z hz
      rw [hsame.entry, hentry, setEntry_of_ne]
      · exact hz
      rintro ⟨rfl, rfl⟩
      rw [hfree] at hz
      cases hz
    have hy : (h.kind y).isSome := by
      cases hyk : h.kind y with
      | some _ => rfl
      | none =>
        -- nothing there, so no entry could be made in it
        rw [HostFs.follow, hyk] at hdir
        dsimp only at hdir
        rw [hyk] at hdir
        cases hdir
    refine ⟨?_, ?_⟩
    · rw [walk_concat (walk_of_entries hkind' hentry' hroot hw), follow_eq (hkind' y hy),
        hsame.entry, hentry, setEntry_self]
    · rw [hsame.kind, hkind, Function.update_self]

theorem good_symlink {cred : Cred} {written : Int} (hinv : BindInv t root s)
    (hhost : HostOk t root s (.symlink p cred r written host)) :
    ∀ r' s', (BindEvent.symlink p cred r written host).call t s = some (r', s') →
      Good t root s s' := by
  refine good_guarded hinv fun hp r' s' heq => ?_
  obtain ⟨obj, made, hmake, hrest⟩ := hhost
  have hmade := make_at_root hinv.apart hmake (fun y hcon => nomatch hcon) hp
  have hrows : RowsGood t s.fds s.db (fakefsSymlink s.db (render p) cred r written).2 := by
    unfold fakefsSymlink
    split
    · exact .refl hinv.rows
    split
    · exact .refl hinv.rows
    · exact (step_create hinv.rows (Or.inl hp)).good hinv.rows
  cases heq
  split at hrest
  case isTrue =>
    subst hrest
    exact good_of_step hinv hmade hrows
  case isFalse hr =>
    obtain ⟨filled, hwrite, hrest⟩ := hrest
    have hgood := good_host hinv hmade
    cases hmake with
    | fail hlt => exact absurd hlt hr
    | ok hplace hdir hfree hnew hkind hentry hdata =>
      have hfilled := write_of_new hinv.apart hmade hnew hwrite
      split at hrest
      case isTrue =>
        subst hrest
        exact hgood.trans (good_of_step hgood.1 hfilled hrows)
      case isFalse =>
        obtain ⟨r', hunlink⟩ := hrest
        have hgood' := hgood.trans (good_host hgood.1 hfilled)
        refine hgood'.trans (good_of_step hgood'.1 (unlink_step hgood'.1.apart hunlink hp ?_) hrows)
        intro _ x y hwalk
        obtain ⟨hobj, hfile⟩ := walk_made (hinv.apart.start [] root .data)
          (.ok hplace hdir hfree hnew hkind hentry hdata) hwrite.sameTree
        cases hwalk.symm.trans hobj
        rw [hfile]
        exact fun hcon => nomatch hcon

/-! ## Every operation -/

theorem good_fd {f : BindFd} (hinv : BindInv t root s)
    (hf : s.fds.lookup fd = some f) (hhost : FdOk s fd r host) : Good t root s { s with host } := by
  obtain ⟨hwrite, hwritable⟩ := hhost f hf
  cases hwrite with
  | fail _ => exact .refl hinv
  | ok hr hsame hdata =>
    exact good_host hinv (write_step hsame hdata fun c hc =>
      hinv.writable fd f c hf (hwritable hr) hc)

theorem good_writeAt (hinv : BindInv t root s)
    (hhost : HostWriteAt s.host root p r host) (hp : ¬ Covered (ReadOnlyAt t) p) :
    Good t root s { s with host } := by
  cases hhost with
  | fail _ => exact .refl hinv
  | @ok y _ hwalk hwrite =>
    cases hwrite with
    | fail _ => exact .refl hinv
    | ok _ hsame hdata =>
      have hreach : Reached t root s.host p y := reached_root.walk hwalk
      exact good_host hinv (write_step hsame hdata fun c hc hx =>
        hinv.apart.separate.objects c p _ hc hp hx hreach.standsFor_follow)

theorem good_link {src dst : Path} (hinv : BindInv t root s)
    (hhost : HostLinkAt s.host root src dst r host) (hok : BindOk t root s (.link src dst r host)) :
    ∀ r' s', (BindEvent.link src dst r host).call t s = some (r', s') → Good t root s s' := by
  obtain ⟨hcov, hsrc, hdst⟩ := hok
  refine good_guarded hinv fun hc r' s' heq => ?_
  have hstep := link_step hinv.apart hhost (outside_of_not_atOrAbove hcov hsrc)
    (outside_of_not_above hc hdst)
  obtain ⟨c, hcall, hdone⟩ := Option.bind_eq_some_iff.mp heq
  refine good_done hinv hstep ?_ r' s' hdone
  unfold fakefsLink at hcall
  split at hcall
  case isTrue =>
    cases hcall
    exact .refl hinv.rows
  case isFalse =>
    unfold pathLink at hcall
    split at hcall
    case isTrue => cases hcall
    case isFalse hz =>
      cases hcall
      cases hi : s.db.paths.lookup (render src) with
      | none => exact absurd (pathGetInode_of_none hi) hz
      | some i =>
        rw [pathGetInode_of_lookup hi]
        exact (step_link hinv.rows hcov hc hi).good hinv.rows

theorem good_unlink {held : Bool} {probe : Option (BitVec 32)} (hinv : BindInv t root s)
    (hstep : ¬ Covered (ReadOnlyAt t) p → HostStep t root s.host host) :
    ∀ r' s', guarded t s p (s.done host (fakefsRemove (ensured t s.db (render p) probe) (render p) r
      (s.held (pathGetInode (ensured t s.db (render p) probe) (render p)) held))) = some (r', s') →
      Good t root s s' := by
  refine good_guarded hinv fun hc => ?_
  have hens := good_ensured hinv.rows p probe
  exact good_done hinv (hstep hc)
    (hens.trans (good_remove hens.1 hc not_held))

theorem rmdir_step (ha : Apart t root h) (hun : HostUnlink h root p true r h')
    (hp : ¬ Covered (ReadOnlyAt t) p) : HostStep t root h h' := by
  cases hun with
  | fail _ => exact .refl h
  | @ok d x n _ hplace hx hdir hempty hkind hentry hdata =>
    refine unlink_step ha (.ok hplace hx hdir hempty hkind hentry hdata) hp fun _ x' y hx' => ?_
    obtain ⟨q, z, rfl, hw, rfl⟩ := hplace
    rw [walk_concat hw, hx] at hx'
    cases hx'
    rw [hdir.mpr rfl]
    exact fun hcon => nomatch hcon

theorem good_fsetattr {attr : Attr} (hinv : BindInv t root s)
    (hhost : HostOk t root s (.fsetattr fd attr r host))
    (hok : BindOk t root s (.fsetattr fd attr r host)) :
    ∀ r' s', (BindEvent.fsetattr fd attr r host).call t s = some (r', s') → Good t root s s' := by
  -- the inode of a descriptor that was opened elsewhere
  have hrow : ∀ f stat, s.fds.lookup fd = some f → (∀ n, attr ≠ .size n) →
      RowsGood t s.fds s.db (inodeWriteStat s.db f.inode stat) := by
    intro f stat hf hsize
    have hpath : ¬ Covered (ReadOnlyAt t) f.path := by
      rcases hok with ⟨n, hn⟩ | hok
      · exact absurd hn (hsize n)
      · exact hok f hf
    exact (step_writeStat hinv.rows fun c hc =>
      hinv.rows.opened fd f c hf hpath hc).good hinv.rows
  intro r' s' heq
  simp only [BindEvent.call] at heq
  split at heq
  case h_1 =>
    cases heq
    exact .refl hinv
  case h_2 f hf =>
    split at heq
    case h_1 =>
      cases heq
      exact good_fd hinv hf hhost
    case h_2 hsize =>
      obtain ⟨c, hcall, hdone⟩ := Option.bind_eq_some_iff.mp heq
      refine good_done hinv (.refl s.host) ?_ r' s' hdone
      unfold fakefsFsetattr at hcall
      split at hcall
      case h_1 n => exact absurd rfl (hsize n)
      case h_2 =>
        split at hcall
        · cases hcall
        · cases hcall
          exact hrow f _ hf hsize

theorem good_close {orphan : Bool} (hinv : BindInv t root s) :
    ∀ r' s', (BindEvent.close fd orphan).call t s = some (r', s') → Good t root s s' := by
  intro r' s' heq
  simp only [BindEvent.call] at heq
  split at heq
  case h_1 =>
    cases heq
    exact .refl hinv
  case h_2 f hf =>
    have hsub : ∀ k g, (s.fds.erase fd).lookup k = some g → s.fds.lookup k = some g := by
      intro k g hg
      by_cases hk : k = fd
      · rw [hk, AList.lookup_erase] at hg
        cases hg
      · rw [AList.lookup_erase_ne hk] at hg
        exact hg
    have hclosed : Good t root s { s with fds := s.fds.erase fd } :=
      ⟨⟨hinv.apart, rowsOk_erase hinv.rows, fun k g p hg => hinv.writable k g p (hsub k g hg)⟩,
        .refl s.host, .refl s.db⟩
    cases heq
    split
    case isTrue horphan =>
      exact hclosed.trans (good_db hclosed.1
        ((step_cleanup hclosed.1.rows (not_held horphan.2)).good hclosed.1.rows))
    case isFalse => exact hclosed

theorem good_call (hinv : BindInv t root s) (hhost : HostOk t root s e) (hok : BindOk t root s e) :
    ∀ r' s', e.call t s = some (r', s') → Good t root s s' := by
  cases e with
  | «open» path flags cred mode fd r obj host probe inodeOk => exact good_open hinv hhost
  | write fd r host =>
    intro r' s' heq
    simp only [BindEvent.call] at heq
    split at heq
    case h_1 =>
      cases heq
      exact .refl hinv
    case h_2 f hf =>
      cases heq
      exact good_fd hinv hf hhost
  | link src dst r host => exact good_link hinv hhost hok
  | unlink path r host probe held =>
    exact good_unlink hinv fun hc => unlink_step hinv.apart hhost hc hok
  | rmdir path r host probe held =>
    exact good_unlink hinv fun hc => rmdir_step hinv.apart hhost hc
  | rename src dst r host held =>
    refine good_guarded hinv fun hsrc => good_guarded hinv fun hdst => ?_
    have hout := outside_of_not_atOrAbove hsrc hok.1
    have hout' := outside_of_not_above hdst hok.2
    exact good_done hinv (rename_step hinv.apart hhost hout hout')
      (good_rename hinv.rows hout hout' not_held)
  | symlink path cred r written host => exact good_symlink hinv hhost
  | mknod path cred mode dev r host =>
    obtain ⟨obj, made, hmake, _⟩ := hhost
    exact good_guarded hinv fun hc => good_done hinv
      (make_at_root hinv.apart hmake (fun y hcon => nomatch hcon) hc) (good_mknod hinv.rows hc)
  | mkdir path cred mode r host =>
    obtain ⟨obj, hmake⟩ := hhost
    refine good_guarded hinv fun hc => good_done hinv
      (make_at_root hinv.apart hmake (fun y hcon => nomatch hcon) hc) ?_
    unfold fakefsMkdir
    split
    · exact .refl hinv.rows
    · exact (step_create hinv.rows (Or.inl hc)).good hinv.rows
  | setattr path attr r host probe =>
    refine good_guarded hinv fun hc r' s' heq => ?_
    cases attr with
    | size n =>
      cases heq
      exact good_writeAt hinv hhost hc
    | _ =>
      cases heq
      exact good_db hinv (good_setattrRow hinv.rows hc)
  | fsetattr fd attr r host => exact good_fsetattr hinv hhost hok
  | utime path r host =>
    intro r' s' heq
    cases heq
    exact good_writeAt hinv hhost hok
  | stat path probe =>
    intro r' s' heq
    simp only [BindEvent.call] at heq
    split at heq
    case h_1 =>
      cases heq
      exact .refl hinv
    case h_2 =>
      cases heq
      exact good_db hinv (good_ensured hinv.rows path probe)
  | readdir entry probe =>
    intro r' s' heq
    cases heq
    exact good_db hinv (good_ensured hinv.rows entry probe)
  | close fd orphan => exact good_close hinv

theorem good_step (hinv : BindInv t root s) (hhost : HostOk t root s e) (hok : BindOk t root s e) :
    Good t root s (bindStep t s e) := by
  unfold bindStep
  cases hcall : e.call t s with
  | none => exact .refl hinv
  | some c => exact good_call hinv hhost hok c.1 c.2 hcall

end IosLinuxkit.Fs
