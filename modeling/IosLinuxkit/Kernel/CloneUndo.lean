import IosLinuxkit.Kernel.Clone

/-!
# Failed clones, undone

* **`clone_iff`** — when a call that fails leaves no trace.
-/

namespace IosLinuxkit.Clone

variable {st st' : State} {T child : Task} {pid g new : Nat} {G : Tgroup} {gs : Groups} {call : Call} {host : Host}
  {l : List Nat}

/-! ## Releases -/

open Refs

variable {a : Nat} {M : Mm} {s : State}

theorem mmRelease_held {r : Refs Mm} (h : Held (fun M => [M.exefile]) r st.mm a l) :
    st.mmRelease (some a) = some { st with mm := r, fd := st.fd.dropAll l } := by
  unfold State.mmRelease
  rw [← h.drop, ← h.inner]
  dsimp only
  cases st.mm.dies a with
  | none => rfl
  | some M => rfl

theorem fdtableRelease_held {r : Refs Fdtable} (h : Held (fun F => F.files.filterMap id) r st.files a l) :
    st.fdtableRelease a = { st with files := r, fd := st.fd.dropAll l } := by
  unfold State.fdtableRelease
  rw [← h.drop, ← h.inner]
  cases st.files.dies a with
  | none => rfl
  | some F => rfl

theorem fsInfoRelease_held {r : Refs FsInfo} (h : Held (fun I => [I.pwd, I.root]) r st.fs a l) :
    st.fsInfoRelease a = { st with fs := r, fd := st.fd.dropAll l } := by
  unfold State.fsInfoRelease
  rw [← h.drop, ← h.inner]
  cases st.fs.dies a with
  | none => rfl
  | some I => rfl

/-! ## Copies -/

inductive HasMm (st : State) (mm' : Refs Mm) (M : Mm) (l : List Nat) (ok : Prop) : Option Nat → Prop
  | lost (hnot : ¬ok) : HasMm st mm' M l ok none
  | held {new : Nat} (hok : ok) (hheld : Held (fun M => [M.exefile]) st.mm mm' new l) (hval : mm'.val new = some M) :
      HasMm st mm' M l ok (some new)

theorem copyMm_cases (st : State) (child : Task) (call : Call) (host : Host) (hmm : child.mm = some a) (hM : st.mm.val a = some M) :
    ∃ mm' m l, st.copyMm child call host = .ok { st with mm := mm', fd := st.fd.retainAll l } { child with mm := m } ∧
      mm'.val a = some M ∧ HasMm st mm' M l (call.has cloneVm = true ∨ st.mm.fresh host.mm ≠ none) m := by
  unfold State.copyMm
  rw [hmm]
  dsimp only
  split
  case isTrue hshare =>
    refine ⟨st.mm.retain a, some a, [], ?_, ?_, .held (Or.inl hshare) (held_retain _ _ _) ?_⟩
    · rw [show ({ child with mm := some a } : Task) = child from by rw [← hmm]]
      rfl
    · rw [val_retain, hM]
    · rw [val_retain, hM]
  case isFalse hshare =>
    rw [hM]
    dsimp only
    cases hnew : st.mm.fresh host.mm with
    | none => exact ⟨st.mm, none, [], rfl, hM, .lost fun h => h.elim hshare fun hne => hne rfl⟩
    | some new =>
      have hfree := fresh_eq_some hnew
      refine ⟨st.mm.alloc new M, some new, _, rfl, ?_,
        .held (Or.inr (Option.some_ne_none new)) (held_alloc _ hfree M) (val_alloc _ _ _)⟩
      rw [val_alloc_ne, hM]
      rintro rfl
      rw [Refs.val, hfree] at hM
      cases hM

theorem copyFiles_cases (st : State) (child : Task) (call : Call) (host : Host) {F : Fdtable} (hF : st.files.val child.files = some F) :
    (¬(call.has cloneFiles = true ∨ st.files.fresh host.files ≠ none) ∧ st.copyFiles child call host = .fails eNOMEM st) ∨
      ((call.has cloneFiles = true ∨ st.files.fresh host.files ≠ none) ∧ ∃ files' new l,
        st.copyFiles child call host =
          .ok { st with files := files', fd := st.fd.retainAll l } { child with files := new } ∧
          Held (fun F => F.files.filterMap id) st.files files' new l) := by
  unfold State.copyFiles
  split
  case isTrue hshare => exact Or.inr ⟨Or.inl hshare, _, child.files, [], rfl, held_retain _ _ _⟩
  case isFalse hshare =>
    rw [hF]
    dsimp only
    cases hnew : st.files.fresh host.files with
    | none => exact Or.inl ⟨fun h => h.elim hshare fun hne => hne rfl, rfl⟩
    | some new =>
      exact Or.inr ⟨Or.inr (Option.some_ne_none new), _, new, _, rfl, held_alloc _ (fresh_eq_some hnew) F⟩

theorem copyFs_cases (st : State) (child : Task) (call : Call) (host : Host) {I : FsInfo} (hI : st.fs.val child.fs = some I) :
    (¬(call.has cloneFs = true ∨ st.fs.fresh host.fs ≠ none) ∧ st.copyFs child call host = .crash) ∨
      ((call.has cloneFs = true ∨ st.fs.fresh host.fs ≠ none) ∧ ∃ fs' new l,
        st.copyFs child call host = .ok { st with fs := fs', fd := st.fd.retainAll l } { child with fs := new } ∧
          Held (fun I => [I.pwd, I.root]) st.fs fs' new l) := by
  unfold State.copyFs
  split
  case isTrue hshare => exact Or.inr ⟨Or.inl hshare, _, child.fs, [], rfl, held_retain _ _ _⟩
  case isFalse hshare =>
    rw [hI]
    dsimp only
    cases hnew : st.fs.fresh host.fs with
    | none => exact Or.inl ⟨fun h => h.elim hshare fun hne => hne rfl, rfl⟩
    | some new =>
      exact Or.inr ⟨Or.inr (Option.some_ne_none new), _, new, _, rfl, held_alloc _ (fresh_eq_some hnew) I⟩

theorem copySighand_cases (st : State) (child : Task) (call : Call) (host : Host) {H : Sighand} (hH : st.sighand.val child.sighand = some H) :
    (¬(call.has cloneSighand = true ∨ st.sighand.fresh host.sighand ≠ none) ∧
      st.copySighand child call host = .fails eNOMEM st) ∨
      ((call.has cloneSighand = true ∨ st.sighand.fresh host.sighand ≠ none) ∧ ∃ sighand' new,
        st.copySighand child call host = .ok { st with sighand := sighand' } { child with sighand := new } ∧
          sighand'.drop new = st.sighand) := by
  unfold State.copySighand
  split
  case isTrue hshare => exact Or.inr ⟨Or.inl hshare, _, child.sighand, rfl, drop_retain _ _⟩
  case isFalse hshare =>
    rw [hH]
    dsimp only
    cases hnew : st.sighand.fresh host.sighand with
    | none => exact Or.inl ⟨fun h => h.elim hshare fun hne => hne rfl, rfl⟩
    | some new => exact Or.inr ⟨Or.inr (Option.some_ne_none new), _, new, rfl, drop_alloc (fresh_eq_some hnew) H⟩

/-! ## The group -/

theorem setThreads_self (gs : Groups) (hG : gs.group g = some G) (l : List Nat) :
    (gs.setThreads g l).group g = some { G with threads := l } := by
  show Function.update gs.group g _ g = _
  rw [Function.update_self, hG]
  rfl

theorem copy_self (gs : Groups) (old new pid : Nat) (h : gs.group old = some G ∧ gs.group new = none) :
    (gs.copy old new pid G h).group new = some { G with leader := pid, threads := [pid], doingGroupExit := false } :=
  Function.update_self ..

theorem setThreads_setThreads (gs : Groups) (hG : gs.group g = some G) (l : List Nat) :
    (gs.setThreads g l).setThreads g G.threads = gs := by
  refine Groups.ext ?_ rfl rfl
  unfold Groups.setThreads
  dsimp only
  rw [Function.update_idem, Function.update_self, hG, Option.map_some, Option.map_some]
  exact (congrArg (Function.update gs.group g) hG.symm).trans (Function.update_eq_self g gs.group)

theorem remove_copy (gs : Groups) (old new pid : Nat) (h : gs.group old = some G ∧ gs.group new = none) :
    (gs.copy old new pid G h).remove new = gs := by
  have hsession (s : Nat) : new ∉ gs.sessions s := by simp [gs.session_iff, h.2]
  have hpgroup (p : Nat) : new ∉ gs.pgroups p := by simp [gs.pgroup_iff, h.2]
  unfold Groups.remove Groups.copy
  refine Groups.ext ?_ (funext fun s => ?_) (funext fun p => ?_)
  · dsimp only
    rw [Function.update_idem, ← h.2, Function.update_eq_self]
  · dsimp only
    by_cases hs : s = G.sid
    · rw [hs, Function.update_self, erase_insertAfter (hsession _)]
    · rw [Function.update_of_ne hs, List.erase_of_not_mem (hsession s)]
  dsimp only
  by_cases hp : p = G.pgid
  · rw [hp, Function.update_self, erase_insertAfter (hpgroup _)]
  · rw [Function.update_of_ne hp, List.erase_of_not_mem (hpgroup p)]

structure Shares (child T : Task) : Prop where
  mm : child.mm = T.mm
  files : child.files = T.files
  fs : child.fs = T.fs
  sighand : child.sighand = T.sighand

theorem leaveGroup_setThreads (hG : st.groups.group g = some G) (hthreads : G.threads ≠ [])
    (hgroups : s.groups = st.groups.setThreads g (pid :: G.threads)) (htty : s.tty = st.tty) :
    s.leaveGroup pid g = some { s with groups := st.groups, tty := st.tty } := by
  have hg : s.groups.group g = some { G with threads := pid :: G.threads } := by
    rw [hgroups, setThreads_self _ hG]
  unfold State.leaveGroup
  rw [hg]
  dsimp only
  rw [List.erase_cons_head, if_neg hthreads, hgroups, setThreads_setThreads _ hG, htty]

theorem releaseGroup_none (hy : G.tty = none) :
    s.releaseGroup g G = some { s with groups := s.groups.remove g } := by
  unfold State.releaseGroup
  simp only [hy]

theorem releaseGroup_some {y : Nat} (hy : G.tty = some y)
    (hsession : (s.groups.remove g).sessions G.sid ≠ []) :
    s.releaseGroup g G = some { s with groups := s.groups.remove g, tty := s.tty.drop y } := by
  have hfull : State.pidEmpty { s with groups := s.groups.remove g } G.sid = false := by
    unfold State.pidEmpty
    simp [hsession]
  unfold State.releaseGroup
  simp only [hy, hfull, hsession, Bool.false_eq_true, if_false]

theorem leaveGroup_copy (h : st.groups.group g = some G ∧ st.groups.group new = none)
    (hgroups : s.groups = st.groups.copy g new pid G h)
    (htty : s.tty = match G.tty with | none => st.tty | some y => st.tty.retain y) :
    s.leaveGroup pid new = some { s with groups := st.groups, tty := st.tty } := by
  have hg : s.groups.group new = some { G with leader := pid, threads := [pid], doingGroupExit := false } := by
    rw [hgroups, copy_self]
  have hmem : g ∈ st.groups.sessions G.sid := (st.groups.session_iff G.sid g).mpr ⟨G, h.1, rfl⟩
  have hsession : st.groups.sessions G.sid ≠ [] := List.ne_nil_of_mem hmem
  unfold State.leaveGroup
  rw [hg]
  dsimp only
  rw [List.erase_cons_head, if_pos rfl]
  have hremove : s.groups.remove new = st.groups := by rw [hgroups, remove_copy]
  cases hy : G.tty with
  | none =>
    have htty : s.tty = st.tty := by rw [htty, hy]
    rw [← htty, ← hremove]
    exact releaseGroup_none rfl
  | some y =>
    -- the old group is still in the session
    have hleft : (s.groups.remove new).sessions G.sid ≠ [] := by rw [hremove]; exact hsession
    have htty : s.tty.drop y = st.tty := by rw [htty, hy]; exact Refs.drop_retain st.tty y
    rw [← htty, ← hremove]
    exact releaseGroup_some rfl hleft

theorem copy_ne (h : st.groups.group g = some G ∧ st.groups.group new = none) :
    st.groups.copy g new pid G h ≠ st.groups := by
  intro heq
  have hnew : (st.groups.copy g new pid G h).group new = none := by
    rw [heq]
    exact h.2
  rw [copy_self] at hnew
  cases hnew

theorem setThreads_ne (hG : st.groups.group g = some G) : st.groups.setThreads g (pid :: G.threads) ≠ st.groups := by
  intro heq
  have hg : (st.groups.setThreads g (pid :: G.threads)).group g = some G := by
    rw [heq]
    exact hG
  rw [setThreads_self _ hG] at hg
  have hlist : pid :: G.threads = G.threads := congrArg Tgroup.threads (Option.some.inj hg)
  exact List.cons_ne_self pid G.threads hlist

theorem linkGroup_cases (st : State) (pid : Nat) (child : Task) (call : Call) (host : Host) (hG : st.groups.group child.group = some G) (hthreads : G.threads ≠ []) :
    (¬(call.has cloneThread = true ∨ ∃ new, host.group = some new ∧ st.groups.group new = none) ∧
      st.linkGroup pid child call host = .crash) ∨
      ((call.has cloneThread = true ∨ ∃ new, host.group = some new ∧ st.groups.group new = none) ∧
        ∃ gs tty child', st.linkGroup pid child call host = .ok { st with groups := gs, tty := tty } child' ∧
          Shares child' child ∧ gs ≠ st.groups ∧ ∀ s : State, s.groups = gs → s.tty = tty →
            s.leaveGroup pid child'.group = some { s with groups := st.groups, tty := st.tty }) := by
  have hstack : ∃ c : Task, (if call.has cloneVm && !call.has cloneVfork then
      { child with altstack := 0, altstackSize := 0 } else child) = c ∧ Shares c child ∧ c.group = child.group := by
    refine ⟨_, rfl, ?_⟩
    split
    case isTrue => exact ⟨⟨rfl, rfl, rfl, rfl⟩, rfl⟩
    case isFalse => exact ⟨⟨rfl, rfl, rfl, rfl⟩, rfl⟩
  obtain ⟨c, hc, hshares, hgroup⟩ := hstack
  rw [← hgroup] at hG
  unfold State.linkGroup
  rw [hc]
  dsimp only
  rw [hG]
  dsimp only
  split
  case isTrue hthread =>
    exact Or.inr ⟨Or.inl hthread, _, st.tty, c, rfl, hshares, setThreads_ne hG,
      fun s hgroups htty => leaveGroup_setThreads hG hthreads hgroups htty⟩
  case isFalse hthread =>
    split
    case h_1 hnone =>
      refine Or.inl ⟨fun h => ?_, rfl⟩
      obtain hshare | ⟨new, hsome, -⟩ := h
      · exact hthread hshare
      · rw [hnone] at hsome
        cases hsome
    case h_2 new hsome =>
      unfold State.tgroupCopy
      split
      case isTrue h =>
        refine Or.inr ⟨Or.inr ⟨new, hsome, h.2⟩, _, _, _, rfl, ⟨hshares.mm, hshares.files, hshares.fs, hshares.sighand⟩,
          copy_ne h, fun s hgroups htty => leaveGroup_copy h hgroups htty⟩
      case isFalse hused =>
        refine Or.inl ⟨fun h => ?_, rfl⟩
        obtain hshare | ⟨new', hsome', hfree⟩ := h
        · exact hthread hshare
        · cases hsome.symm.trans hsome'
          exact hused ⟨hG, hfree⟩

/-! ## The tids -/

theorem setTids_cases (st : State) (T child : Task) (call : Call) (hparent : ∀ addr, st.writable T.mm addr = some (M.writable addr))
    (hchild : child.mm = none ∨ ∀ addr, st.writable child.mm addr = some (M.writable addr)) :
    (child.mm = none ∧ st.setTids T child call = .crash) ∨
      ((child.mm = none ∨ ¬Writes M call) ∧ st.setTids T child call = .fails eFAULT st) ∨
      ((child.mm = none ∨ Writes M call) ∧ ∃ child', st.setTids T child call = .ok st child' ∧ Shares child' child ∧
        child'.group = child.group) := by
  have htls : ∃ c : Task, (if call.has cloneSettls then { child with tls := call.tls } else child) = c ∧
      Shares c child ∧ c.group = child.group := by
    refine ⟨_, rfl, ?_⟩
    split
    case isTrue => exact ⟨⟨rfl, rfl, rfl, rfl⟩, rfl⟩
    case isFalse => exact ⟨⟨rfl, rfl, rfl, rfl⟩, rfl⟩
  obtain ⟨c, hc, hshares, hgroup⟩ := htls
  rw [← hshares.mm] at hchild ⊢
  unfold State.setTids
  rw [hc]
  dsimp only
  split
  case h_1 hnone =>
    -- there is no address space
    refine Or.inl ⟨?_, rfl⟩
    obtain hnull | hchild := hchild
    · exact hnull
    split at hnone
    case isTrue =>
      rw [hchild] at hnone
      cases hnone
    case isFalse => cases hnone
  case h_2 hfault =>
    refine Or.inr (Or.inl ⟨?_, rfl⟩)
    obtain hnull | hchild := hchild
    · exact Or.inl hnull
    split at hfault
    case isTrue hasked =>
      rw [hchild] at hfault
      refine Or.inr fun hw => ?_
      rw [hw.1 hasked] at hfault
      cases hfault
    case isFalse => cases hfault
  case h_3 hwritten =>
    have hfirst : c.mm = none ∨ (call.has cloneChildSettid = true → M.writable call.ctid = true) := by
      obtain hnull | hchild := hchild
      · exact Or.inl hnull
      refine Or.inr fun hasked => ?_
      rw [if_pos hasked, hchild] at hwritten
      exact Option.some.inj hwritten
    split
    case h_1 hnone =>
      split at hnone
      case isTrue =>
        rw [hparent] at hnone
        cases hnone
      case isFalse => cases hnone
    case h_2 hfault =>
      refine Or.inr (Or.inl ⟨Or.inr fun hw => ?_, rfl⟩)
      split at hfault
      case isTrue hasked =>
        rw [hparent, hw.2 hasked] at hfault
        cases hfault
      case isFalse => cases hfault
    case h_3 hwritten' =>
      have hsecond : call.has cloneParentSettid = true → M.writable call.ptid = true := by
        intro hasked
        rw [if_pos hasked, hparent] at hwritten'
        exact Option.some.inj hwritten'
      exact Or.inr (Or.inr ⟨hfirst.imp_right fun h => ⟨h, hsecond⟩, _, rfl,
        ⟨hshares.mm, hshares.files, hshares.fs, hshares.sighand⟩, hgroup⟩)

/-! ## The ladder -/

theorem dropAll_retainAll_first (r : Refs Unit) (l k : List Nat) :
    ((r.retainAll l).retainAll k).dropAll l = r.retainAll k := by
  rw [← retainAll_append, retainAll_perm r List.perm_append_comm, retainAll_append, dropAll_retainAll _ (List.Perm.refl l)]

theorem dropAll_retainAll_last (r : Refs Unit) (l : List Nat) : (r.retainAll l).dropAll l = r :=
  dropAll_retainAll r (List.Perm.refl l)

structure Holds (st s : State) (files fs : Nat) (l lfiles lfs : List Nat) : Prop where
  files : Held (fun F => F.files.filterMap id) st.files s.files files lfiles
  fs : Held (fun I => [I.pwd, I.root]) st.fs s.fs fs lfs
  fd : s.fd = ((st.fd.retainAll l).retainAll lfiles).retainAll lfs

theorem orElse_mmRelease {ok : Prop} {m : Option Nat} {r : Refs Unit} (hm : HasMm st s.mm M l ok m)
    (hfd : s.fd = r.retainAll l) (err : Int) :
    (¬ok ∧ (Copied.fails err s).orElse (fun s => s.mmRelease m) = .crash) ∨
      (ok ∧ (Copied.fails err s).orElse (fun s => s.mmRelease m) = .fails err { s with mm := st.mm, fd := r }) := by
  cases hm with
  | lost hnot => exact Or.inl ⟨hnot, rfl⟩
  | held hok hheld hval =>
    refine Or.inr ⟨hok, ?_⟩
    unfold Copied.orElse
    dsimp only
    rw [mmRelease_held hheld, hfd, dropAll_retainAll_last]

theorem Holds.orElse {files fs : Nat} {lfiles lfs : List Nat} (h : Holds st s files fs l lfiles lfs) (err : Int) :
    ((Copied.fails err s).orElse fun s => some (s.fsInfoRelease fs)).orElse (fun s => some (s.fdtableRelease files)) =
      .fails err { s with files := st.files, fs := st.fs, fd := st.fd.retainAll l } := by
  unfold Copied.orElse
  dsimp only
  rw [fsInfoRelease_held h.fs, h.fd, dropAll_retainAll_last]
  have hfiles : Held (fun F => F.files.filterMap id) st.files
      { s with fs := st.fs, fd := (st.fd.retainAll l).retainAll lfiles : State }.files files lfiles := h.files
  rw [fdtableRelease_held hfiles, dropAll_retainAll_last]

theorem Holds.discard {c : Task} {mm' : Refs Mm} {ok : Prop} {lfiles lfs : List Nat}
    (h : Holds st s c.files c.fs l lfiles lfs) (hm : HasMm st mm' M l ok c.mm) (hmm : s.mm = mm')
    (hsighand : s.sighand.drop c.sighand = st.sighand) (htask : s.task = st.task)
    (hleave : ∀ s' : State, s'.groups = s.groups → s'.tty = s.tty →
      s'.leaveGroup pid c.group = some { s' with groups := st.groups, tty := st.tty }) :
    s.taskDiscardUnstarted pid c = none ∨ s.taskDiscardUnstarted pid c = some (st.taskDestroy pid) := by
  unfold State.taskDiscardUnstarted
  cases hmm' : c.mm with
  | none => exact Or.inl rfl
  | some new =>
    refine Or.inr ?_
    rw [hmm'] at hm
    cases hm with
    | held hok hheld hval =>
      have hfd : s.fd.dropAll l = (st.fd.retainAll lfiles).retainAll lfs := by
        rw [h.fd, ← retainAll_append, dropAll_retainAll_first, retainAll_append]
      have hfiles : Held (fun F => F.files.filterMap id) st.files
          { s with mm := st.mm, fd := (st.fd.retainAll lfiles).retainAll lfs : State }.files c.files lfiles := h.files
      have hfs : Held (fun I => [I.pwd, I.root]) st.fs
          { s with mm := st.mm, files := st.files, fd := st.fd.retainAll lfs : State }.fs c.fs lfs := h.fs
      rw [← hmm] at hheld
      rw [mmRelease_held hheld, hfd]
      dsimp only
      rw [fdtableRelease_held hfiles, dropAll_retainAll_first, fsInfoRelease_held hfs, dropAll_retainAll_last]
      unfold State.sighandRelease
      dsimp only
      rw [hsighand, hleave { s with mm := st.mm, files := st.files, fs := st.fs, sighand := st.sighand, fd := st.fd } rfl rfl,
        htask]
      rfl

/-- **A copy** is made or fails. What it leaves when a tid is not written is in the groups; any other failure leaves
nothing, and so does one that is made and discarded. -/
inductive Ended (st : State) (pid : Nat) (copyable writes : Prop) : Copied → Prop
  | crash (hnot : ¬copyable) : Ended st pid copyable writes .crash
  | undone (err : Int) (hnot : ¬copyable) : Ended st pid copyable writes (.fails err st)
  | left {st' : State} (hok : copyable) (hnot : ¬writes) (hgroups : st'.groups ≠ st.groups) :
      Ended st pid copyable writes (.fails eFAULT st')
  | made {st' : State} {child' : Task} (hwrites : copyable → writes)
      (hdiscard : ∀ c, Shares c child' → c.group = child'.group →
        st'.taskDiscardUnstarted pid c = none ∨ st'.taskDiscardUnstarted pid c = some (st.taskDestroy pid)) :
      Ended st pid copyable writes (.ok st' child')

theorem copyTask_ended (h : Whole st child) (hT : T.mm = child.mm) (hthreads : h.group.threads ≠ []) (pid : Nat)
    (call : Call) (host : Host) :
    Ended st pid (Copyable st call host) (Writes h.space call) (st.copyTask T pid child call host) := by
  have hstack : ∃ c : Task, (if call.stack ≠ 0 then { child with sp := call.stack } else child) = c ∧
      Shares c child ∧ c.group = child.group := by
    refine ⟨_, rfl, ?_⟩
    split
    case isTrue => exact ⟨⟨rfl, rfl, rfl, rfl⟩, rfl⟩
    case isFalse => exact ⟨⟨rfl, rfl, rfl, rfl⟩, rfl⟩
  obtain ⟨c, hc, hshares, hgroup⟩ := hstack
  obtain ⟨mm', m, l, hcopy, hparent, hm⟩ := copyMm_cases st c call host (hshares.mm.trans h.mm_eq) h.space_eq
  unfold State.copyTask
  rw [hc]
  dsimp only
  rw [hcopy]
  dsimp only [Copied.bind]
  -- the open files
  obtain ⟨hfiles, hcopy⟩ | ⟨hfiles, files', files, lfiles, hcopy, hheldFiles⟩ :=
    copyFiles_cases { st with mm := mm', fd := st.fd.retainAll l } { c with mm := m } call host
      (hshares.files.symm ▸ h.table_eq)
  · rw [hcopy]
    have hnot : ¬Copyable st call host := fun hok => hfiles hok.files
    have hlast : HasMm st { st with mm := mm', fd := st.fd.retainAll l : State }.mm h.space l _ m := hm
    obtain ⟨-, heq⟩ | ⟨-, heq⟩ := orElse_mmRelease hlast rfl eNOMEM
    · dsimp only
      rw [heq]
      exact .crash hnot
    dsimp only
    rw [heq]
    exact .undone eNOMEM hnot
  rw [hcopy]
  dsimp only
  -- the directories
  obtain ⟨hfs, hcopy⟩ | ⟨hfs, fs', fs, lfs, hcopy, hheldFs⟩ :=
    copyFs_cases { st with mm := mm', files := files', fd := (st.fd.retainAll l).retainAll lfiles }
      { c with mm := m, files := files } call host (hshares.fs.symm ▸ h.info_eq)
  · rw [hcopy]
    exact .crash fun hok => hfs hok.fs
  rw [hcopy]
  dsimp only
  -- the signal handlers
  have hholds (s : State) (hsfiles : s.files = files') (hsfs : s.fs = fs')
      (hsfd : s.fd = ((st.fd.retainAll l).retainAll lfiles).retainAll lfs) : Holds st s files fs l lfiles lfs :=
    ⟨hsfiles.symm ▸ hheldFiles, hsfs.symm ▸ hheldFs, hsfd⟩
  obtain ⟨hsighand, hcopy⟩ | ⟨hsighand, sighand', sighand, hcopy, hheldSighand⟩ :=
    copySighand_cases
      { st with mm := mm', files := files', fs := fs', fd := ((st.fd.retainAll l).retainAll lfiles).retainAll lfs }
      { c with mm := m, files := files, fs := fs } call host (hshares.sighand.symm ▸ h.hand_eq)
  · rw [hcopy]
    have hnot : ¬Copyable st call host := fun hok => hsighand hok.sighand
    dsimp only
    rw [Holds.orElse (hholds _ rfl rfl rfl)]
    have hlast : HasMm st { st with mm := mm', fd := st.fd.retainAll l : State }.mm h.space l _ m := hm
    obtain ⟨-, heq⟩ | ⟨-, heq⟩ := orElse_mmRelease hlast rfl eNOMEM
    · refine (congrArg (Ended st pid _ _) heq).mpr ?_
      exact .crash hnot
    · refine (congrArg (Ended st pid _ _) heq).mpr ?_
      exact .undone eNOMEM hnot
  rw [hcopy]
  dsimp only
  -- the group
  obtain ⟨hlink, hcopy⟩ | ⟨hlink, gs, tty, c', hcopy, hshares', hne, hleave⟩ :=
    linkGroup_cases
      { st with mm := mm', files := files', fs := fs', sighand := sighand', fd := ((st.fd.retainAll l).retainAll lfiles).retainAll lfs }
      pid { c with mm := m, files := files, fs := fs, sighand := sighand } call host (hgroup.symm ▸ h.group_eq) hthreads
  · rw [hcopy]
    exact .crash fun hok => hlink hok.group
  rw [hcopy]
  dsimp only
  -- the tids
  have hwritable {mm : Option Nat} {a : Nat} (ha : mm = some a) (hval : mm'.val a = some h.space) (addr : Nat) :
      State.writable { st with
          mm := mm', files := files', fs := fs', sighand := sighand', groups := gs, tty := tty
          fd := ((st.fd.retainAll l).retainAll lfiles).retainAll lfs } mm addr = some (h.space.writable addr) := by
    rw [ha, State.writable, Option.bind_some, hval]
    rfl
  have hc' : c'.mm = m := hshares'.mm
  have hlost (hnull : c'.mm = none) : ¬Copyable st call host := by
    intro hok
    rw [hc'] at hnull
    rw [hnull] at hm
    cases hm with
    | lost hnot => exact hnot hok.mm
  have hchild : c'.mm = none ∨ ∀ addr, State.writable { st with
      mm := mm', files := files', fs := fs', sighand := sighand', groups := gs, tty := tty
      fd := ((st.fd.retainAll l).retainAll lfiles).retainAll lfs } c'.mm addr = some (h.space.writable addr) := by
    rw [hc']
    cases hm with
    | lost => exact Or.inl rfl
    | held hok hheld hval => exact Or.inr (hwritable rfl hval)
  obtain ⟨hnull, htids⟩ | ⟨hfault, htids⟩ | ⟨hwritten, c'', htids, hshares'', hgroup''⟩ :=
    setTids_cases _ T c' call (hwritable (hT.trans h.mm_eq) hparent) hchild
  · rw [htids]
    exact .crash (hlost hnull)
  · rw [htids]
    -- what is linked stays
    have hunlinked : Copied.orElse (.fails eFAULT { st with
        mm := mm', files := files', fs := fs', sighand := sighand', groups := gs, tty := tty
        fd := ((st.fd.retainAll l).retainAll lfiles).retainAll lfs }) (fun s => some (s.sighandRelease sighand)) =
          .fails eFAULT { st with
            mm := mm', files := files', fs := fs', groups := gs, tty := tty
            fd := ((st.fd.retainAll l).retainAll lfiles).retainAll lfs } := by
      rw [← hheldSighand]
      rfl
    rw [hunlinked]
    rw [Holds.orElse (hholds _ rfl rfl rfl)]
    have hlast : HasMm st { st with mm := mm', groups := gs, tty := tty, fd := st.fd.retainAll l : State }.mm h.space l _ m := hm
    obtain ⟨hno, heq⟩ | ⟨hok, heq⟩ := orElse_mmRelease hlast rfl eFAULT
    · refine (congrArg (Ended st pid _ _) heq).mpr ?_
      exact .crash fun hok => hno hok.mm
    refine (congrArg (Ended st pid _ _) heq).mpr ?_
    have hcopyable : Copyable st call host := ⟨hok, hfiles, hfs, hsighand, hlink⟩
    exact .left hcopyable (hfault.resolve_left fun hnull => hlost hnull hcopyable) hne
  rw [htids]
  refine .made (fun hok => hwritten.resolve_left fun hnull => hlost hnull hok) fun cc hcc hccgroup => ?_
  have hmm : cc.mm = m := (hcc.mm.trans hshares''.mm).trans hc'
  have hccfiles : cc.files = files := (hcc.files.trans hshares''.files).trans hshares'.files
  have hccfs : cc.fs = fs := (hcc.fs.trans hshares''.fs).trans hshares'.fs
  have hccsighand : cc.sighand = sighand := (hcc.sighand.trans hshares''.sighand).trans hshares'.sighand
  have hall : Holds st { st with
      mm := mm', files := files', fs := fs', sighand := sighand', groups := gs, tty := tty
      fd := ((st.fd.retainAll l).retainAll lfiles).retainAll lfs } cc.files cc.fs l lfiles lfs := by
    rw [hccfiles, hccfs]
    exact hholds _ rfl rfl rfl
  refine hall.discard (hmm ▸ hm) rfl (hccsighand ▸ hheldSighand) rfl fun s' hs hstty => ?_
  rw [hccgroup, hgroup'']
  exact hleave s' hs hstty

/-! ## The call -/

theorem update_undo {β : Type} (f : Nat → β) (i j : Nat) (v w : β) :
    Function.update (Function.update (Function.update (Function.update f i v) j w) i (f i)) j (f j) = f := by
  funext x
  by_cases hj : x = j
  · rw [hj, Function.update_self]
  rw [Function.update_of_ne hj]
  by_cases hi : x = i
  · rw [hi, Function.update_self]
  · rw [Function.update_of_ne hi, Function.update_of_ne hj, Function.update_of_ne hi]

theorem taskCreate_spec (ht : st.task g = some T) (hpid : st.task pid = none) :
    ∃ task child, st.taskCreate g T pid true = ({ st with task := task }, some child) ∧ Shares child T ∧
      child.group = T.group ∧ State.taskDestroy { st with task := task } pid = st := by
  have hne : g ≠ pid := by
    rintro rfl
    rw [ht] at hpid
    cases hpid
  refine ⟨_, _, rfl, ⟨rfl, rfl, rfl, rfl⟩, rfl, ?_⟩
  unfold State.taskDestroy
  dsimp only
  rw [Function.update_self, Option.bind_some]
  dsimp only
  rw [Function.update_of_ne hne, Function.update_self, Option.map_some, List.erase_cons_head]
  -- the slot of the parent is as it was, and then that of the task
  have hundo := update_undo st.task g pid (some { T with children := pid :: T.children })
    (some { T with parent := some g, children := [], clearTid := 0 })
  rw [ht, hpid] at hundo
  exact congrArg (fun task => ({ st with task := task } : State)) hundo

theorem freePid_empty {cur : Nat} (h : st.freePid cur = some pid) : st.task pid = none := by
  have hempty : st.pidEmpty pid = true := List.find?_some h
  obtain ⟨hempty, -⟩ := Bool.and_eq_true_iff.mp hempty
  exact Option.isNone_iff_eq_none.mp (Bool.and_eq_true_iff.mp hempty).1

theorem taskDestroy_groups (st : State) (pid : Nat) : (st.taskDestroy pid).groups = st.groups := by
  unfold State.taskDestroy
  split
  case h_1 => rfl
  case h_2 => rfl

theorem sysClone_iff (st : State) (caller : Caller st) (cur : Nat) (call : Call) (host : Host) :
    (∀ err st', sysClone st caller.pid caller.task cur call host = .fails err st' → st' = st) ↔
      Fine st caller cur call host := by
  unfold sysClone Fine
  split
  case isTrue hflags =>
    refine ⟨fun _ hreaches => ?_, fun _ err st' heq => ?_⟩
    · rw [hreaches.allowed] at hflags
      cases hflags
    · cases heq
      rfl
  case isFalse hflags =>
    split
    case h_1 hfull => exact ⟨fun _ hreaches => absurd hfull hreaches.slot, fun _ err st' heq => by cases heq⟩
    case h_2 pid hpid =>
      have hempty := freePid_empty hpid
      cases htask : host.task with
      | false =>
        refine ⟨fun _ hreaches => ?_, fun _ err st' heq => ?_⟩
        · cases htask.symm.trans hreaches.task
        · cases heq
          rw [← hempty, Function.update_eq_self]
      | true =>
        obtain ⟨task, child, hcreate, hshares, hgroup, hdestroy⟩ := taskCreate_spec caller.task_eq hempty
        -- the resources are still those of the caller
        have hwhole : ∃ w' : Whole { st with task := task } child, w'.space = caller.whole.space ∧
            w'.group = caller.whole.group :=
          ⟨⟨caller.whole.mm, caller.whole.space, caller.whole.table, caller.whole.info, caller.whole.hand,
            caller.whole.group, hshares.mm.trans caller.whole.mm_eq, caller.whole.space_eq,
            hshares.files.symm ▸ caller.whole.table_eq, hshares.fs.symm ▸ caller.whole.info_eq,
            hshares.sighand.symm ▸ caller.whole.hand_eq, hgroup.symm ▸ caller.whole.group_eq⟩, rfl, rfl⟩
        obtain ⟨whole, hspace, hthreads⟩ := hwhole
        have hended := copyTask_ended (T := caller.task) whole hshares.mm.symm
          (hthreads ▸ List.ne_nil_of_mem caller.mem) pid call host
        rw [hspace] at hended
        have hreaches (hok : Copyable st call host) : Reaches st cur call host :=
          ⟨hok, Bool.not_eq_false _ ▸ hflags, by rw [hpid]; exact Option.some_ne_none pid, htask⟩
        have hcopyable (hok : Copyable { st with task := task } call host) : Copyable st call host :=
          ⟨hok.mm, hok.files, hok.fs, hok.sighand, hok.group⟩
        have hcopyable' (hok : Copyable st call host) : Copyable { st with task := task } call host :=
          ⟨hok.mm, hok.files, hok.fs, hok.sighand, hok.group⟩
        rw [hcreate]
        dsimp only
        generalize State.copyTask { st with task := task } caller.task pid child call host = r at hended ⊢
        cases hended with
        | crash hnot =>
          exact ⟨fun _ hr => absurd (hcopyable' hr.toCopyable) hnot, fun _ err st' heq => by cases heq⟩
        | undone e hnot =>
          refine ⟨fun _ hr => absurd (hcopyable' hr.toCopyable) hnot, fun _ err st' heq => ?_⟩
          cases heq
          exact hdestroy
        | @left s hok hnot hgroups =>
          refine ⟨fun htrace => ?_, fun hfine => absurd (hfine (hreaches (hcopyable hok))) hnot⟩
          have heq := htrace eFAULT (s.taskDestroy pid) rfl
          refine absurd ?_ hgroups
          rw [← taskDestroy_groups s pid, heq]
        | @made s child' hwrites hdiscard =>
          refine ⟨fun _ hr => hwrites (hcopyable' hr.toCopyable), fun _ err st' heq => ?_⟩
          dsimp only at heq
          split at heq
          case h_1 => cases heq
          case h_2 | h_3 =>
            obtain hcrash | hsome := hdiscard { child' with retval := 0 } ⟨rfl, rfl, rfl, rfl⟩ rfl
            · rw [hcrash] at heq
              cases heq
            rw [hsome, hdestroy] at heq
            cases heq
            rfl

/-- **Failed clones.** A call that fails leaves no trace exactly when it can write the tids, or does not get as far. -/
theorem clone_iff (st : State) (caller : Caller st) (cur : Nat) (call : Call) (host : Host) :
    (∀ err st', sysClone st caller.pid caller.task cur call host = .fails err st' → st' = st) ↔
      Fine st caller cur call host :=
  sysClone_iff st caller cur call host

/-! ## A thread that stays -/

def alone : State where
  task := fun p => if p = 1 then some ⟨1, 0, none, [], some 0, 0, 0, 0, 0, 0, 0, 0, 0, 0, 0⟩ else none
  groups :=
    { group := fun g => if g = 0 then some ⟨1, [1], 1, 1, none, false⟩ else none
      sessions := fun s => if s = 1 then [0] else []
      pgroups := fun p => if p = 1 then [0] else []
      session_iff := by
        intro s g
        by_cases hs : s = 1
        · simp [hs]
        · simp [hs, Ne.symm hs]
      pgroup_iff := by
        intro p g
        by_cases hp : p = 1
        · simp [hp]
        · simp [hp, Ne.symm hp]
      session_nodup := by
        intro s
        by_cases hs : s = 1
        · simp [hs]
        · simp [hs]
      pgroup_nodup := by
        intro p
        by_cases hp : p = 1
        · simp [hp]
        · simp [hp] }
  mm := fun a => if a = 0 then some ⟨1, Nat.one_pos, ⟨0, fun _ => false⟩⟩ else none
  files := fun a => if a = 0 then some ⟨1, Nat.one_pos, ⟨[], []⟩⟩ else none
  fs := fun a => if a = 0 then some ⟨1, Nat.one_pos, ⟨0, 0, 0⟩⟩ else none
  sighand := fun a => if a = 0 then some ⟨1, Nat.one_pos, ⟨[]⟩⟩ else none
  fd := fun a => if a = 0 then some ⟨3, Nat.succ_pos 2, ()⟩ else none
  tty := fun _ => none

def aloneCaller : Caller alone where
  pid := 1
  task := ⟨1, 0, none, [], some 0, 0, 0, 0, 0, 0, 0, 0, 0, 0, 0⟩
  whole := ⟨0, ⟨0, fun _ => false⟩, ⟨[], []⟩, ⟨0, 0, 0⟩, ⟨[]⟩, ⟨1, [1], 1, 1, none, false⟩, rfl, rfl, rfl, rfl, rfl, rfl⟩
  task_eq := rfl
  mem := List.mem_singleton_self 1

/-- A new thread whose tid is to be written where nothing can be. -/
def threadCall : Call := ⟨0x110f00, 0, 0, 0, 0⟩

def willing : Host := ⟨true, none, none, none, none, none, .ok⟩

/-- The thread is on the list of its group after the call has failed. -/
theorem clone_leaves_thread :
    ¬∀ err st', sysClone alone aloneCaller.pid aloneCaller.task 1 threadCall willing = .fails err st' → st' = alone := by
  intro htrace
  have hslot : alone.freePid 1 ≠ none := by
    intro hnone
    have hused := List.find?_eq_none.mp hnone 2 (List.mem_map.mpr ⟨0, List.mem_range.mpr (by decide), by decide⟩)
    exact hused (by decide)
  have hreaches : Reaches alone 1 threadCall willing :=
    ⟨⟨Or.inl (by decide), Or.inl (by decide), Or.inl (by decide), Or.inl (by decide), Or.inl (by decide)⟩, by decide,
      hslot, rfl⟩
  have hwrites := (sysClone_iff alone aloneCaller 1 threadCall willing).mp htrace hreaches
  exact absurd (hwrites.2 (by decide)) (by decide)

end IosLinuxkit.Clone
