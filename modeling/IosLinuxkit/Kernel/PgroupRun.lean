import IosLinuxkit.Kernel.Pgroup
import IosLinuxkit.Lib.Assoc

/-!
# Process groups and sessions stay exact

* **`processGroups_run`** — a run of proper steps keeps all lists exact.
-/

namespace IosLinuxkit.Pgroup

variable {tasks : AList fun _ : Nat => Task} {groups : AList fun _ : Nat => Tgroup} {n g p : Nat}
  {t t' : Task} {G G' : Tgroup} {st st' : Pids}

/-! ## Tasks and groups -/

/-- The leader of a group is there; running threads are on the list of a group, and a group with a zombie
has none. -/
structure Shape (tasks : AList fun _ : Nat => Task) (groups : AList fun _ : Nat => Tgroup) (n : Nat) :
    Prop where
  leader : ∀ g G, groups.lookup g = some G → ∃ t, tasks.lookup G.leader = some t ∧ t.group = g
  fresh : ∀ g, n ≤ g → groups.lookup g = none
  known : ∀ p t, tasks.lookup p = some t → t.group < n
  member : ∀ p t, tasks.lookup p = some t → t.stage = .running →
    ∃ G, groups.lookup t.group = some G ∧ p ∈ G.threads
  zombie : ∀ p t G, tasks.lookup p = some t → t.stage = .zombie → groups.lookup t.group = some G →
    G.threads = []

def NoLeader (groups : AList fun _ : Nat => Tgroup) (p : Nat) : Prop :=
  ∀ g G, groups.lookup g = some G → G.leader ≠ p

theorem noLeader_of_none (h : Shape tasks groups n) (hp : tasks.lookup p = none) : NoLeader groups p := by
  intro g G hG hl
  obtain ⟨t, ht, _⟩ := h.leader g G hG
  rw [hl, hp] at ht
  cases ht

theorem shape_task (h : Shape tasks groups n) (ht : tasks.lookup p = some t) (hgroup : t'.group = t.group)
    (hrun : t'.stage = .running → ∃ G, groups.lookup t'.group = some G ∧ p ∈ G.threads)
    (hzombie : t'.stage = .zombie → ∀ G, groups.lookup t'.group = some G → G.threads = []) :
    Shape (tasks.insert p t') groups n := by
  refine ⟨fun g G hG => ?_, h.fresh, fun q u hu => ?_, fun q u hu hs => ?_, fun q u G hu hs hG => ?_⟩
  · obtain ⟨u, hu, hg⟩ := h.leader g G hG
    by_cases hl : G.leader = p
    · rw [hl, ht] at hu
      cases hu
      exact ⟨t', hl ▸ AList.lookup_insert tasks, hgroup.trans hg⟩
    · exact ⟨u, (AList.lookup_insert_ne hl).trans hu, hg⟩
  all_goals rcases Assoc.lookup_insert_some hu with ⟨rfl, rfl⟩ | ⟨_, hu⟩
  · exact hgroup ▸ h.known q t ht
  · exact h.known q u hu
  · exact hrun hs
  · exact h.member q u hu hs
  · exact hzombie hs G hG
  · exact h.zombie q u G hu hs hG

theorem shape_create (h : Shape tasks groups n) (hp : tasks.lookup p = none) (hg : g < n)
    (parent : Option Nat) : Shape (tasks.insert p ⟨g, parent, .created⟩) groups n := by
  refine ⟨fun g G hG => ?_, h.fresh, fun q u hu => ?_, fun q u hu hs => ?_, fun q u G hu hs hG => ?_⟩
  · obtain ⟨u, hu, hgu⟩ := h.leader g G hG
    exact ⟨u, (AList.lookup_insert_ne (noLeader_of_none h hp g G hG)).trans hu, hgu⟩
  all_goals rcases Assoc.lookup_insert_some hu with ⟨rfl, rfl⟩ | ⟨_, hu⟩
  · exact hg
  · exact h.known q u hu
  · cases hs
  · exact h.member q u hu hs
  · cases hs
  · exact h.zombie q u G hu hs hG

theorem shape_destroy (h : Shape tasks groups n) (hp : NoLeader groups p) :
    Shape (tasks.erase p) groups n := by
  refine ⟨fun g G hG => ?_, h.fresh, fun q u hu => ?_, fun q u hu hs => ?_, fun q u G hu hs hG => ?_⟩
  · obtain ⟨u, hu, hgu⟩ := h.leader g G hG
    exact ⟨u, (AList.lookup_erase_ne (hp g G hG)).trans hu, hgu⟩
  · exact h.known q u (Assoc.lookup_erase_some hu).2
  · exact h.member q u (Assoc.lookup_erase_some hu).2 hs
  · exact h.zombie q u G (Assoc.lookup_erase_some hu).2 hs hG

theorem shape_group (h : Shape tasks groups n) (hG : groups.lookup g = some G) (hl : G'.leader = G.leader)
    (hrun : ∀ p t, tasks.lookup p = some t → t.group = g → t.stage = .running → p ∈ G'.threads)
    (hzombie : ∀ p t, tasks.lookup p = some t → t.group = g → t.stage = .zombie → G'.threads = []) :
    Shape tasks (groups.insert g G') n := by
  refine ⟨fun g' K hK => ?_, fun g' hg' => ?_, h.known, fun q u hu hs => ?_, fun q u K hu hs hK => ?_⟩
  · rcases Assoc.lookup_insert_some hK with ⟨rfl, rfl⟩ | ⟨_, hK⟩
    · rw [hl]
      exact h.leader g' G hG
    · exact h.leader g' K hK
  · have hne : g' ≠ g := by
      intro hc
      have hnone := h.fresh g' hg'
      rw [hc, hG] at hnone
      cases hnone
    exact (AList.lookup_insert_ne hne).trans (h.fresh g' hg')
  · by_cases hg : u.group = g
    · exact ⟨G', hg ▸ AList.lookup_insert groups, hrun q u hu hg hs⟩
    · obtain ⟨K, hK, hq⟩ := h.member q u hu hs
      exact ⟨K, (AList.lookup_insert_ne hg).trans hK, hq⟩
  rcases Assoc.lookup_insert_some hK with ⟨hg, rfl⟩ | ⟨_, hK⟩
  · exact hzombie q u hu hg hs
  · exact h.zombie q u K hu hs hK

theorem shape_ids (h : Shape tasks groups n) (hG : groups.lookup g = some G) (hl : G'.leader = G.leader)
    (hthreads : G'.threads = G.threads) : Shape tasks (groups.insert g G') n := by
  refine shape_group h hG hl (fun p t ht hg hs => ?_) fun p t ht hg hs => ?_
  · obtain ⟨K, hK, hp⟩ := h.member p t ht hs
    rw [hg, hG] at hK
    cases hK
    exact hthreads ▸ hp
  · exact hthreads.trans (h.zombie p t G ht hs (hg ▸ hG))

theorem shape_leaveThreads (h : Shape tasks groups n) (hG : groups.lookup g = some G)
    (hp : ∀ t, tasks.lookup p = some t → t.stage ≠ .running) :
    Shape tasks (groups.insert g { G with threads := G.threads.erase p }) n := by
  refine shape_group h hG rfl (fun q t ht hg hs => ?_) fun q t ht hg hs => ?_
  · obtain ⟨K, hK, hq⟩ := h.member q t ht hs
    rw [hg, hG] at hK
    cases hK
    have hne : q ≠ p := fun hc => hp t (hc ▸ ht) hs
    exact (List.mem_erase_of_ne hne).mpr hq
  show G.threads.erase p = []
  rw [h.zombie q t G ht hs (hg ▸ hG)]
  rfl

theorem shape_newGroup (h : Shape tasks groups n) (hp : NoLeader groups p) (parent : Option Nat)
    (pgid sid : Nat) :
    Shape (tasks.insert p ⟨n, parent, .running⟩) (groups.insert n ⟨p, pgid, sid, [p]⟩) (n + 1) := by
  refine ⟨fun g G hG => ?_, fun g hg => ?_, fun q u hu => ?_, fun q u hu hs => ?_, fun q u G hu hs hG => ?_⟩
  · rcases Assoc.lookup_insert_some hG with ⟨rfl, rfl⟩ | ⟨_, hG⟩
    · exact ⟨_, AList.lookup_insert tasks, rfl⟩
    · obtain ⟨u, hu, hgu⟩ := h.leader g G hG
      exact ⟨u, (AList.lookup_insert_ne (hp g G hG)).trans hu, hgu⟩
  · exact (AList.lookup_insert_ne (Nat.ne_of_gt hg)).trans (h.fresh g (Nat.le_of_succ_le hg))
  all_goals rcases Assoc.lookup_insert_some hu with ⟨rfl, rfl⟩ | ⟨_, hu⟩
  · exact Nat.lt_succ_self n
  · exact Nat.lt_succ_of_lt (h.known q u hu)
  · exact ⟨_, AList.lookup_insert groups, List.mem_singleton_self q⟩
  · obtain ⟨G, hG, hmem⟩ := h.member q u hu hs
    exact ⟨G, (AList.lookup_insert_ne (Nat.ne_of_lt (h.known q u hu))).trans hG, hmem⟩
  · cases hs
  · exact h.zombie q u G hu hs
      ((AList.lookup_insert_ne (Nat.ne_of_lt (h.known q u hu))).symm.trans hG)

theorem shape_tearDown (h : Shape tasks groups n) (hempty : ∀ G, groups.lookup g = some G → G.threads = []) :
    Shape tasks (groups.erase g) n := by
  refine ⟨fun g' K hK => h.leader g' K (Assoc.lookup_erase_some hK).2, fun g' hg' => ?_, h.known,
    fun q u hu hs => ?_, fun q u K hu hs hK => h.zombie q u K hu hs (Assoc.lookup_erase_some hK).2⟩
  · by_cases hg : g' = g
    · rw [hg]
      exact AList.lookup_erase g groups
    · exact (AList.lookup_erase_ne hg).trans (h.fresh g' hg')
  obtain ⟨K, hK, hq⟩ := h.member q u hu hs
  have hne : u.group ≠ g := by
    intro hc
    rw [hempty K (hc ▸ hK)] at hq
    cases hq
  exact ⟨K, (AList.lookup_erase_ne hne).trans hK, hq⟩

/-! ## The lists -/

def placeOf (key : Tgroup → Nat) (groups : AList fun _ : Nat => Tgroup) : Nat → Option Nat :=
  fun g => (groups.lookup g).map key

theorem placeOf_insert (key : Tgroup → Nat) (g : Nat) (G : Tgroup) :
    placeOf key (groups.insert g G) = Function.update (placeOf key groups) g (some (key G)) := by
  funext k
  unfold placeOf
  by_cases hk : k = g
  · subst hk
    rw [AList.lookup_insert, Function.update_self]
    rfl
  · rw [AList.lookup_insert_ne hk, Function.update_of_ne hk]

theorem placeOf_same {key : Tgroup → Nat} (hG : groups.lookup g = some G) (hkey : key G' = key G) :
    placeOf key (groups.insert g G') = placeOf key groups := by
  have hplace : placeOf key groups g = some (key G') := by
    unfold placeOf
    rw [hG, hkey]
    rfl
  rw [placeOf_insert, ← hplace, Function.update_eq_self]

theorem placeOf_erase (key : Tgroup → Nat) (g : Nat) :
    placeOf key (groups.erase g) = Function.update (placeOf key groups) g none := by
  funext k
  unfold placeOf
  by_cases hk : k = g
  · subst hk
    rw [AList.lookup_erase, Function.update_self]
    rfl
  · rw [AList.lookup_erase_ne hk, Function.update_of_ne hk]

structure PidInv (st : Pids) : Prop where
  shape : Shape st.tasks st.groups st.nextGroup
  pgroup : Ilist.Exact st.pgroup (placeOf Tgroup.pgid st.groups)
  session : Ilist.Exact st.session (placeOf Tgroup.sid st.groups)

theorem pidInv_boot : PidInv Pids.boot := by
  refine ⟨⟨fun g G hG => ?_, fun _ _ => rfl, fun p t ht => ?_, fun p t ht => ?_, fun p t G ht => ?_⟩,
    Ilist.Exact.empty, Ilist.Exact.empty⟩
  · cases hG
  all_goals cases ht

/-! ## New tasks -/

theorem searchPid_some {k cur : Nat} (h : st.searchPid k cur = some p) : st.pidEmpty p = true ∧ 0 < p := by
  induction k generalizing cur with
  | zero => cases h
  | succ k ih =>
    unfold Pids.searchPid at h
    split at h
    case isTrue hempty =>
      cases h
      refine ⟨hempty, ?_⟩
      unfold Pids.nextPid
      split
      · exact Nat.one_pos
      · exact Nat.succ_pos cur
    case isFalse => exact ih h

structure Fresh (st : Pids) (p : Nat) : Prop where
  pos : 0 < p
  task : st.tasks.lookup p = none
  pgroup : st.pgroup p = []
  session : st.session p = []

theorem taskCreate_some {parent : Option Nat} (h : st.taskCreate g parent = some (p, st')) :
    Fresh st p ∧
      st' = { st with tasks := st.tasks.insert p ⟨g, parent, .created⟩, curPid := p } := by
  unfold Pids.taskCreate at h
  obtain ⟨q, hq, heq⟩ := Option.map_eq_some_iff.mp h
  cases heq
  obtain ⟨hempty, hpos⟩ := searchPid_some hq
  simp only [Pids.pidEmpty, Bool.and_eq_true, List.isEmpty_iff, Option.isNone_iff_eq_none] at hempty
  exact ⟨⟨hpos, hempty.1.1, hempty.2, hempty.1.2⟩, rfl⟩

theorem pidInv_taskDestroy (h : PidInv st) (hp : NoLeader st.groups p) : PidInv (st.taskDestroy p) :=
  ⟨shape_destroy h.shape hp, h.pgroup, h.session⟩

theorem pidInv_tearDown (h : PidInv st) (hempty : ∀ G, st.groups.lookup g = some G → G.threads = []) :
    PidInv (st.tearDown g) := by
  refine ⟨shape_tearDown h.shape hempty, ?_, ?_⟩
  · show Ilist.Exact _ (placeOf _ (st.groups.erase g))
    rw [placeOf_erase]
    exact h.pgroup.remove g
  show Ilist.Exact _ (placeOf _ (st.groups.erase g))
  rw [placeOf_erase]
  exact h.session.remove g

theorem pidInv_sameIds (h : PidInv st) (hshape : Shape tasks (st.groups.insert g G') st.nextGroup)
    (hG : st.groups.lookup g = some G) (hpgid : G'.pgid = G.pgid) (hsid : G'.sid = G.sid) :
    PidInv { st with tasks := tasks, groups := st.groups.insert g G' } := by
  refine ⟨hshape, ?_, ?_⟩
  · show Ilist.Exact st.pgroup (placeOf _ (st.groups.insert g G'))
    rw [placeOf_same hG hpgid]
    exact h.pgroup
  show Ilist.Exact st.session (placeOf _ (st.groups.insert g G'))
  rw [placeOf_same hG hsid]
  exact h.session

theorem pidInv_joinThreads (h : PidInv st) (ht : st.tasks.lookup p = some t)
    (hG : st.groups.lookup t.group = some G) (hthreads : G.threads ≠ []) : PidInv (st.joinThreads p t G) := by
  have hgroup : Shape st.tasks (st.groups.insert t.group { G with threads := p :: G.threads }) st.nextGroup := by
    refine shape_group h.shape hG rfl (fun q u hu hg hs => ?_) fun q u hu hg hs => ?_
    · obtain ⟨K, hK, hq⟩ := h.shape.member q u hu hs
      rw [hg, hG] at hK
      cases hK
      exact List.mem_cons_of_mem p hq
    · exact absurd (h.shape.zombie q u G hu hs (hg ▸ hG)) hthreads
  have htask : Shape (st.tasks.insert p { t with stage := .running })
      (st.groups.insert t.group { G with threads := p :: G.threads }) st.nextGroup :=
    shape_task hgroup ht rfl (fun _ => ⟨_, AList.lookup_insert st.groups, List.mem_cons_self⟩)
      fun hs => by cases hs
  exact pidInv_sameIds h htask hG rfl rfl

theorem pidInv_tgroupCopy (h : PidInv st) (hp : NoLeader st.groups p)
    (hG : st.groups.lookup t.group = some G) : PidInv (st.tgroupCopy p t G) := by
  have hnone : ∀ key : Tgroup → Nat, placeOf key st.groups st.nextGroup = none := by
    intro key
    unfold placeOf
    rw [h.shape.fresh st.nextGroup (Nat.le_refl _)]
    rfl
  have hold : ∀ key : Tgroup → Nat, placeOf key st.groups t.group = some (key G) := by
    intro key
    unfold placeOf
    rw [hG]
    rfl
  refine ⟨shape_newGroup h.shape hp t.parent G.pgid G.sid, ?_, ?_⟩
  · show Ilist.Exact _ (placeOf _ (st.groups.insert st.nextGroup _))
    rw [placeOf_insert]
    exact h.pgroup.addAfter (hold _) (hnone _)
  show Ilist.Exact _ (placeOf _ (st.groups.insert st.nextGroup _))
  rw [placeOf_insert]
  exact h.session.addAfter (hold _) (hnone _)

theorem noLeader_insert (hl : NoLeader groups p) (hG : groups.lookup g = some G)
    (hleader : G'.leader = G.leader) : NoLeader (groups.insert g G') p := by
  intro g' K hK
  rcases Assoc.lookup_insert_some hK with ⟨_, rfl⟩ | ⟨_, hK⟩
  · exact hleader ▸ hl g G hG
  · exact hl g' K hK

theorem noLeader_erase (h : Shape tasks groups n) (ht : tasks.lookup p = some t) :
    NoLeader (groups.erase t.group) p := by
  intro g' K hK hl
  obtain ⟨hne, hK⟩ := Assoc.lookup_erase_some hK
  obtain ⟨u, hu, hgu⟩ := h.leader g' K hK
  rw [hl, ht] at hu
  cases hu
  exact hne hgu.symm

theorem pidInv_taskDiscardUnstarted (h : PidInv st)
    (hl : ∀ t G, st.tasks.lookup p = some t → st.groups.lookup t.group = some G →
      G.threads.erase p = [] ∨ G.leader ≠ p) : PidInv (st.taskDiscardUnstarted p) := by
  unfold Pids.taskDiscardUnstarted
  split
  · exact h
  case h_2 t ht =>
    split
    · exact h
    case h_2 G hG =>
      have htask : Shape (st.tasks.insert p { t with stage := .created }) st.groups st.nextGroup :=
        shape_task h.shape ht rfl (fun hs => by cases hs) fun hs => by cases hs
      have hcreated : ∀ u, (st.tasks.insert p { t with stage := .created }).lookup p = some u →
          u.stage ≠ .running := by
        intro u hu
        rw [AList.lookup_insert] at hu
        cases hu
        exact Stage.noConfusion
      have hinv := pidInv_sameIds h (shape_leaveThreads htask hG hcreated) hG rfl rfl
      have ht' := AList.lookup_insert (s := st.tasks) (a := p) (b := { t with stage := Stage.created })
      dsimp only
      split
      case isTrue hempty =>
        have hlead := noLeader_erase hinv.shape ht'
        refine pidInv_taskDestroy (pidInv_tearDown hinv fun K hK => ?_) hlead
        rcases Assoc.lookup_insert_some hK with ⟨_, rfl⟩ | ⟨hne, _⟩
        · exact hempty
        · exact absurd rfl hne
      case isFalse hrest =>
        refine pidInv_taskDestroy hinv fun g' K hK hlead => ?_
        obtain ⟨u, hu, hgu⟩ := hinv.shape.leader g' K hK
        rw [hlead, ht'] at hu
        cases hu
        rcases Assoc.lookup_insert_some hK with ⟨_, rfl⟩ | ⟨hne, _⟩
        · exact (hl t G ht hG).elim hrest fun hne => hne hlead
        · exact hne hgu.symm

theorem pidInv_copyTask (h : PidInv st) (ht : st.tasks.lookup p = some t) (hp : NoLeader st.groups p)
    (hthreads : ∀ G, st.groups.lookup t.group = some G → G.threads ≠ []) (thread : Bool) :
    PidInv (st.copyTask p thread) := by
  unfold Pids.copyTask
  split
  · exact h
  case h_2 t' ht' =>
    rw [ht] at ht'
    cases ht'
    split
    · exact h
    case h_2 G hG =>
      split
      · exact pidInv_joinThreads h ht hG (hthreads G hG)
      · exact pidInv_tgroupCopy h hp hG

theorem copyTask_leader (st : Pids) (ht : st.tasks.lookup p = some t) (hp : NoLeader st.groups p)
    (hG : st.groups.lookup t.group = some G) (thread : Bool) {t' : Task} {K : Tgroup}
    (ht' : (st.copyTask p thread).tasks.lookup p = some t')
    (hK : (st.copyTask p thread).groups.lookup t'.group = some K) :
    K.threads.erase p = [] ∨ K.leader ≠ p := by
  unfold Pids.copyTask at ht' hK
  rw [ht] at ht' hK
  dsimp only at ht' hK
  rw [hG] at ht' hK
  dsimp only at ht' hK
  cases thread with
  | true =>
    have hsame : NoLeader (st.groups.insert t.group { G with threads := p :: G.threads }) p :=
      noLeader_insert hp hG rfl
    exact .inr (hsame t'.group K hK)
  | false =>
    have heq := (AList.lookup_insert st.tasks).symm.trans ht'
    cases heq
    have hgroup := (AList.lookup_insert st.groups).symm.trans hK
    cases hgroup
    refine .inl ?_
    show [p].erase p = []
    rw [List.erase_cons_head]

theorem pidInv_sysClone (h : PidInv st) {caller : Nat} {thread : Bool} {fate : Pids.Fate}
    (hrunning : st.Running caller) (hfate : fate ≠ .badAddress) :
    PidInv (st.sysClone caller thread fate) := by
  unfold Pids.sysClone
  split
  · exact h
  case h_2 t ht =>
    split
    · exact h
    case h_2 p st' hcreate =>
      obtain ⟨hfresh, rfl⟩ := taskCreate_some hcreate
      have hs : t.stage = .running := by
        unfold Pids.Running at hrunning
        rw [ht] at hrunning
        exact Option.some.inj hrunning
      obtain ⟨G, hG, hmem⟩ := h.shape.member caller t ht hs
      have hnew : PidInv { st with
          tasks := st.tasks.insert p ⟨t.group, some caller, .created⟩, curPid := p } :=
        ⟨shape_create h.shape hfresh.task (h.shape.known caller t ht) _, h.pgroup, h.session⟩
      have hlead : NoLeader st.groups p := noLeader_of_none h.shape hfresh.task
      have hthreads : ∀ K, st.groups.lookup t.group = some K → K.threads ≠ [] := by
        intro K hK hc
        rw [hG] at hK
        cases hK
        rw [hc] at hmem
        cases hmem
      have ht' := AList.lookup_insert (s := st.tasks) (a := p) (b := ⟨t.group, some caller, .created⟩)
      have hcopy := pidInv_copyTask hnew ht' hlead hthreads thread
      cases fate with
      | noMemory => exact ⟨h.shape, h.pgroup, h.session⟩
      | noCopy => exact pidInv_taskDestroy hnew hlead
      | badAddress => exact absurd rfl hfate
      | noStart =>
        refine pidInv_taskDiscardUnstarted hcopy fun u K hu hK => ?_
        exact copyTask_leader { st with tasks := _, curPid := p } ht' hlead hG thread hu hK
      | started => exact hcopy

/-! ## Sessions and process groups -/

theorem exact_setsid {f : Nat → List Nat} {key : Tgroup → Nat} {place : Nat → Option Nat}
    (hx : Ilist.Exact f place) (hplace : Function.update (placeOf key groups) g none = Function.update place g none)
    (hkey : key G' = p) :
    Ilist.Exact (Ilist.add (Ilist.remove f g) p g) (placeOf key (groups.insert g G')) := by
  have hupdate : placeOf key (groups.insert g G') = Function.update place g (some p) := by
    have hagain := congrArg (fun f : Nat → Option Nat => Function.update f g (some p)) hplace
    rw [Function.update_idem, Function.update_idem] at hagain
    rw [placeOf_insert, hkey, hagain]
  rw [hupdate]
  exact hx.move g p

theorem pidInv_taskSetsid (h : PidInv st)
    (hproper : ∀ t G, st.tasks.lookup p = some t → st.groups.lookup t.group = some G →
      ¬ (G.pgid = G.leader ∨ G.sid = G.leader) → p = G.leader) : PidInv (st.taskSetsid p).2 := by
  unfold Pids.taskSetsid
  split
  · exact h
  case h_2 t ht =>
    split
    · exact h
    case h_2 G hG =>
      dsimp only
      split
      · exact h
      case isFalse hids =>
        have hleader := (hproper t G ht hG hids).symm
        exact ⟨shape_ids h.shape hG rfl rfl, exact_setsid h.pgroup rfl hleader,
          exact_setsid h.session rfl hleader⟩

theorem pidInv_constructTask (h : PidInv st) (parent : Option Nat) : PidInv (st.constructTask parent) := by
  unfold Pids.constructTask
  split
  · exact h
  case h_2 p st' hcreate =>
    obtain ⟨hfresh, rfl⟩ := taskCreate_some hcreate
    have hlead : NoLeader st.groups p := noLeader_of_none h.shape hfresh.task
    have hshape := shape_newGroup h.shape hlead parent 0 0
    have hids : ¬ (0 = p ∨ 0 = p) := fun hc => hc.elim (Nat.ne_of_lt hfresh.pos) (Nat.ne_of_lt hfresh.pos)
    have hplace : ∀ key : Tgroup → Nat,
        Function.update (placeOf key (st.groups.insert st.nextGroup ⟨p, 0, 0, [p]⟩)) st.nextGroup none =
          Function.update (placeOf key st.groups) st.nextGroup none := by
      intro key
      rw [placeOf_insert, Function.update_idem]
    have htask := AList.lookup_insert (s := st.tasks) (a := p) (b := ⟨st.nextGroup, parent, .running⟩)
    have hgroup := AList.lookup_insert (s := st.groups) (a := st.nextGroup) (b := ⟨p, 0, 0, [p]⟩)
    dsimp only
    rw [AList.insert_insert]
    unfold Pids.taskSetsid
    dsimp only
    rw [htask]
    dsimp only
    rw [hgroup]
    dsimp only
    rw [if_neg hids]
    exact ⟨shape_ids hshape hgroup rfl rfl, exact_setsid h.pgroup (hplace _) rfl,
      exact_setsid h.session (hplace _) rfl⟩

theorem setpgidCheck_some {caller id pgid : Nat} (h : st.setpgidCheck caller id pgid = .inr (g, G)) :
    st.groups.lookup g = some G := by
  unfold Pids.setpgidCheck at h
  split at h
  · cases h
  split at h
  · cases h
  case h_2 t ht =>
    split at h
    · cases h
    case h_2 K hK =>
      split at h
      · cases h
      split at h
      · cases h
      split at h
      · cases h
      · cases h
        exact hK

theorem pidInv_sysSetpgid (h : PidInv st) {caller id pgid : Nat}
    (hproper : ProperSetpgid st caller (Pids.setpgidIds caller id pgid).1 (Pids.setpgidIds caller id pgid).2) :
    PidInv (st.sysSetpgid caller id pgid).2 := by
  unfold Pids.sysSetpgid
  cases hids : Pids.setpgidIds caller id pgid with
  | mk id pgid =>
  rw [hids] at hproper
  dsimp only
  split
  · exact h
  case h_2 g G hcheck =>
    have hG := setpgidCheck_some hcheck
    split
    case isFalse => exact h
    case isTrue hne =>
      have hid := hproper.new g G hcheck hne
      refine ⟨shape_ids h.shape hG rfl rfl, exact_setsid h.pgroup rfl hid.symm, ?_⟩
      show Ilist.Exact st.session (placeOf _ (st.groups.insert g { G with pgid := pgid }))
      have hsame : placeOf Tgroup.sid (st.groups.insert g { G with pgid := pgid }) = _ := placeOf_same hG rfl
      rw [hsame]
      exact h.session

/-! ## Exits -/

theorem pidInv_task (h : PidInv st) (hshape : Shape tasks st.groups st.nextGroup) :
    PidInv { st with tasks := tasks } :=
  ⟨hshape, h.pgroup, h.session⟩

theorem pidInv_setStage (h : PidInv st) {s : Stage} (hrun : s ≠ .running) (hzombie : s ≠ .zombie) :
    PidInv (st.setStage p s) := by
  unfold Pids.setStage
  split
  · exact h
  case h_2 t ht =>
    exact pidInv_task h (shape_task h.shape ht rfl (fun hs => absurd hs hrun) fun hs => absurd hs hzombie)

theorem pidInv_leaveThreads (h : PidInv st) (hp : ∀ t, st.tasks.lookup p = some t → t.stage ≠ .running) :
    PidInv (st.leaveThreads p g) := by
  unfold Pids.leaveThreads
  split
  · exact h
  case h_2 G hG => exact pidInv_sameIds h (shape_leaveThreads h.shape hG hp) hG rfl rfl

theorem pidInv_reparent (h : PidInv st) (heir id : Nat) : PidInv (st.reparent p heir id) := by
  unfold Pids.reparent
  split
  · exact h
  case h_2 t ht =>
    split
    · exact pidInv_task h (shape_task h.shape ht rfl (h.shape.member id t ht)
        fun hs G hG => h.shape.zombie id t G ht hs hG)
    · exact h

theorem pidInv_zombify (h : PidInv st) {leader : Nat} (hempty : ∀ t G, st.tasks.lookup leader = some t →
    st.groups.lookup t.group = some G → G.threads = []) : PidInv (st.zombify p leader) := by
  unfold Pids.zombify
  split
  · exact h
  case h_2 t ht =>
    split
    · exact h
    · exact pidInv_task h (shape_task h.shape ht rfl (fun hs => by cases hs) fun _ G hG => hempty t G ht hG)

def Leaving (st : Pids) (p g : Nat) : Prop :=
  ∀ t, st.tasks.lookup p = some t → t.group = g ∧ t.stage ≠ .running

theorem leaving_setStage {s : Stage} (ht : st.tasks.lookup p = some t) (hs : s ≠ .running) :
    Leaving (st.setStage p s) p t.group := by
  intro u hu
  unfold Pids.setStage at hu
  rw [ht] at hu
  dsimp only at hu
  rw [AList.lookup_insert] at hu
  cases hu
  exact ⟨rfl, hs⟩

theorem groups_setStage (st : Pids) (p : Nat) (s : Stage) : (st.setStage p s).groups = st.groups := by
  unfold Pids.setStage
  split <;> rfl

theorem leaving_reparent (h : Leaving st p g) (q heir id : Nat) : Leaving (st.reparent q heir id) p g := by
  intro u hu
  unfold Pids.reparent at hu
  split at hu
  · exact h u hu
  case h_2 t ht =>
    split at hu
    · rcases Assoc.lookup_insert_some hu with ⟨rfl, rfl⟩ | ⟨_, hu⟩
      · exact h t ht
      · exact h u hu
    · exact h u hu

theorem groups_reparent (st : Pids) (p heir id : Nat) : (st.reparent p heir id).groups = st.groups := by
  unfold Pids.reparent
  split
  · rfl
  · split <;> rfl

theorem reparent_all (h : PidInv st) (hp : Leaving st p g) (heir : Nat) (ids : List Nat) :
    PidInv (ids.foldl (fun st id => st.reparent p heir id) st) ∧
      Leaving (ids.foldl (fun st id => st.reparent p heir id) st) p g ∧
      (ids.foldl (fun st id => st.reparent p heir id) st).groups = st.groups := by
  induction ids generalizing st with
  | nil => exact ⟨h, hp, rfl⟩
  | cons id ids ih =>
    obtain ⟨hinv, hleaving, hgroups⟩ := ih (pidInv_reparent h heir id) (leaving_reparent hp p heir id)
    exact ⟨hinv, hleaving, hgroups.trans (groups_reparent st p heir id)⟩

theorem noLeader_of_leaving (h : PidInv st) (hp : Leaving st p g) (hG : st.groups.lookup g = some G)
    (hne : p ≠ G.leader) : NoLeader st.groups p := by
  intro g' K hK hl
  obtain ⟨t, ht, hg⟩ := h.shape.leader g' K hK
  rw [hl] at ht
  obtain rfl : g = g' := (hp t ht).1.symm.trans hg
  rw [hG] at hK
  cases hK
  exact hne hl.symm

theorem pidInv_lastSection (h : PidInv st) (hp : Leaving st p g) (hG : st.groups.lookup g = some G) :
    PidInv (if p ≠ G.leader then (if G.threads = [] then st.zombify p G.leader else st).taskDestroy p
      else if G.threads = [] then st.zombify p G.leader else st) := by
  have hzombie : PidInv (if G.threads = [] then st.zombify p G.leader else st) := by
    split
    case isFalse => exact h
    case isTrue hempty =>
      refine pidInv_zombify h fun u K hu hK => ?_
      obtain ⟨u', hu', hg⟩ := h.shape.leader g G hG
      rw [show u = u' from Option.some.inj (hu.symm.trans hu'), hg, hG] at hK
      cases hK
      exact hempty
  split
  case isFalse => exact hzombie
  case isTrue hne =>
    have hlead := noLeader_of_leaving h hp hG hne
    refine pidInv_taskDestroy hzombie ?_
    split
    case isFalse => exact hlead
    case isTrue =>
      unfold Pids.zombify
      split
      · exact hlead
      · split <;> exact hlead

theorem pidInv_doExit (h : PidInv st) (heir : Nat) : PidInv (st.doExit p heir) := by
  unfold Pids.doExit
  split
  · exact h
  case h_2 t ht =>
    split
    · exact h
    case h_2 G hG =>
      have hstage := pidInv_setStage h (p := p) (s := .exited) Stage.noConfusion Stage.noConfusion
      obtain ⟨hinv, hleaving, hgroups⟩ :=
        reparent_all hstage (leaving_setStage ht Stage.noConfusion) heir (st.setStage p .exited).tasks.keys
      dsimp only
      revert hinv hleaving hgroups
      generalize (st.setStage p .exited).tasks.keys.foldl (fun st id => st.reparent p heir id)
        (st.setStage p .exited) = st₁
      intro hinv hleaving hgroups
      have hG₁ : st₁.groups.lookup t.group = some G := by rw [hgroups, groups_setStage, hG]
      have hthreads : PidInv (st₁.leaveThreads p t.group) :=
        pidInv_leaveThreads hinv fun u hu => (hleaving u hu).2
      have hst₂ : st₁.leaveThreads p t.group =
          { st₁ with groups := st₁.groups.insert t.group { G with threads := G.threads.erase p } } := by
        unfold Pids.leaveThreads
        rw [hG₁]
      rw [hst₂] at hthreads ⊢
      exact pidInv_lastSection hthreads hleaving (AList.lookup_insert st₁.groups)

theorem pidInv_leak (h : PidInv st) : PidInv (st.leak p) := by
  unfold Pids.leak
  split
  · exact h
  case h_2 t ht =>
    exact pidInv_leaveThreads (pidInv_setStage h Stage.noConfusion Stage.noConfusion)
      fun u hu => (leaving_setStage ht Stage.noConfusion u hu).2

theorem pidInv_reapIfZombie (h : PidInv st) : PidInv (st.reapIfZombie p) := by
  unfold Pids.reapIfZombie
  split
  · exact h
  case h_2 t ht =>
    split
    case isFalse => exact h
    case isTrue hs =>
      exact pidInv_taskDestroy (pidInv_tearDown h fun G hG => h.shape.zombie p t G ht hs hG)
        (noLeader_erase h.shape ht)

/-! ## Runs -/

theorem pidInv_step {op : PidOp} (h : PidInv st) (hproper : Proper st op) : PidInv (pidStep st op) := by
  cases op with
  | constructTask parent => exact pidInv_constructTask h parent
  | clone caller thread fate =>
    show PidInv (if st.Running caller then st.sysClone caller thread fate else st)
    split
    case isTrue hrunning => exact pidInv_sysClone h hrunning hproper
    case isFalse => exact h
  | setpgid caller id pgid =>
    show PidInv (if st.Running caller then (st.sysSetpgid caller id pgid).2 else st)
    split
    · exact pidInv_sysSetpgid h hproper
    · exact h
  | setsid caller =>
    show PidInv (if st.Running caller then (st.taskSetsid caller).2 else st)
    split
    · exact pidInv_taskSetsid h hproper
    · exact h
  | exit caller heir =>
    show PidInv (if st.Running caller then st.doExit caller heir else st)
    split
    · exact pidInv_doExit h heir
    · exact h
  | leak caller task =>
    show PidInv (if st.Running caller ∧ st.SameGroup caller task then st.leak task else st)
    split
    · exact pidInv_leak h
    · exact h
  | reap task => exact pidInv_reapIfZombie h

theorem placeOf_live (h : PidInv st) (key : Tgroup → Nat) :
    placeOf key st.groups g = some p ↔ ∃ G, st.Live g G ∧ key G = p := by
  unfold placeOf
  rw [Option.map_eq_some_iff]
  refine ⟨fun hc => ?_, fun hc => ?_⟩
  · obtain ⟨G, hG, hkey⟩ := hc
    exact ⟨G, ⟨hG, h.shape.leader g G hG⟩, hkey⟩
  · obtain ⟨G, hlive, hkey⟩ := hc
    exact ⟨G, hlive.1, hkey⟩

theorem listsExact_of_pidInv (h : PidInv st) : ListsExact st := by
  refine ⟨fun p g => ?_, fun p g => ?_, h.pgroup.nodups, h.session.nodups, fun group parent pid st' hc => ?_⟩
  · exact (h.pgroup.mem g p).trans (placeOf_live h Tgroup.pgid)
  · exact (h.session.mem g p).trans (placeOf_live h Tgroup.sid)
  · obtain ⟨hfresh, _⟩ := taskCreate_some hc
    exact ⟨hfresh.pgroup, hfresh.session⟩

/-- **Process groups.** In every state that a run of proper steps reaches, the lists of each pid hold exactly
the live groups with that id, and no pid with such a list is handed out. -/
theorem processGroups_run (ops : List PidOp) (hops : AllSteps pidStep Proper Pids.boot ops) :
    ListsExact (run pidStep Pids.boot ops) := by
  have hstep : ∀ st op, PidInv st → Proper st op → PidInv (pidStep st op) :=
    fun _ _ h hproper => pidInv_step h hproper
  exact listsExact_of_pidInv (run_invariant hstep pidInv_boot hops)

/-- A shell makes a group of its own, and a child of it a session, with a second thread. The child ends and
is reaped. -/
def jobOps : List PidOp :=
  [.constructTask none, .clone 1 false .started, .setpgid 2 0 0, .clone 2 false .started, .setsid 3,
    .clone 3 true .started, .exit 4 3, .exit 3 1, .reap 3]

theorem processGroups_job :
    (run pidStep Pids.boot jobOps).pgroup 2 = [1] ∧ (run pidStep Pids.boot jobOps).session 3 = [] ∧
      ListsExact (run pidStep Pids.boot jobOps) := by
  refine ⟨by decide, by decide, processGroups_run jobOps ⟨trivial, Pids.Fate.noConfusion,
    ⟨by decide, fun t ht => ?_, fun _ _ _ _ => rfl⟩, Pids.Fate.noConfusion, fun t G ht hG _ => ?_,
    Pids.Fate.noConfusion, trivial, trivial, trivial, trivial⟩⟩
  · cases ht
    decide
  cases ht
  cases hG
  rfl

/-- A child joins the group of another; a thread makes a session; and `clone` fails at the address of the
pid. -/
theorem processGroups_wrong :
    ¬ ListsExact (run pidStep Pids.boot [.constructTask none, .clone 1 false .started, .clone 1 false .started,
      .setpgid 2 0 0, .setpgid 3 0 2]) ∧
    ¬ ListsExact (run pidStep Pids.boot [.constructTask none, .clone 1 false .started, .clone 2 true .started,
      .setsid 3]) ∧
    ¬ ListsExact (run pidStep Pids.boot [.constructTask none, .clone 1 false .badAddress]) := by
  refine ⟨fun h => ?_, fun h => ?_, fun h => ?_⟩
  · obtain ⟨G, ⟨hG, _⟩, hp⟩ := (h.pgroup 3 2).mp (by decide)
    cases hG
    exact absurd hp (by decide)
  · obtain ⟨G, ⟨hG, _⟩, hp⟩ := (h.session 3 1).mp (by decide)
    cases hG
    exact absurd hp (by decide)
  obtain ⟨G, ⟨hG, t, ht, _⟩, _⟩ := (h.pgroup 1 1).mp (by decide)
  cases hG
  cases ht

end IosLinuxkit.Pgroup
