import IosLinuxkit.Kernel.TaskForest
import IosLinuxkit.Kernel.WaitChildRound

/-!
# Waits for children over a run

* **`wf_step`** — every step keeps the forest.
* **`wait_iff`** — when all rounds of a run do what they ought to.
-/

namespace IosLinuxkit.Wait

variable {st st' : State} {c g t p pid : Nat} {C T T' P : Task} {G G' F : Tgroup} {call : Call} {gotSignal : Bool}
  {o : Options} {op : Op} {status : Nat} {thread : Bool}

def Task.node (T : Task) : Node := ⟨T.id, T.group, T.parent, T.children, T.zombie⟩

def Tgroup.kin (G : Tgroup) : Kin := ⟨G.leader, G.threads⟩

def State.forest (st : State) : Forest where
  node := fun p => (st.task p).map Task.node
  kin := fun g => (st.group g).map Tgroup.kin
  next := st.next
  reaped := st.reaped

/-! ## The changes of a state -/

theorem map_update {α β : Type} (f : α → β) (s : Nat → Option α) (i : Nat) (v : Option α) :
    (fun j => (Function.update s i v j).map f) = Function.update (fun j => (s j).map f) i (v.map f) := by
  funext j
  by_cases hj : j = i
  · rw [hj, Function.update_self, Function.update_self]
  · rw [Function.update_of_ne hj, Function.update_of_ne hj]

theorem forest_setTask (st : State) (p : Nat) (T : Task) :
    (st.setTask p T).forest = { st.forest with node := Function.update st.forest.node p (some T.node) } := by
  unfold State.setTask State.forest
  rw [map_update Task.node]
  rfl

theorem forest_setGroup (st : State) (g : Nat) (G : Tgroup) :
    (st.setGroup g G).forest = { st.forest with kin := Function.update st.forest.kin g (some G.kin) } := by
  unfold State.setGroup State.forest
  rw [map_update Tgroup.kin]
  rfl

theorem forest_setTask_same (hc : st.task c = some C) (hnode : T.node = C.node) :
    (st.setTask c T).forest = st.forest := by
  rw [forest_setTask, hnode, show some C.node = st.forest.node c from (congrArg (Option.map Task.node) hc).symm,
    Function.update_eq_self]

theorem forest_setGroup_same (hg : st.group g = some G) (hkin : G'.kin = G.kin) :
    (st.setGroup g G').forest = st.forest := by
  rw [forest_setGroup, hkin, show some G.kin = st.forest.kin g from (congrArg (Option.map Tgroup.kin) hg).symm,
    Function.update_eq_self]

theorem forest_mapTasks_same (st : State) (f : Nat → Task → Task) (hf : ∀ p P, (f p P).node = P.node) :
    (st.mapTasks f).forest = st.forest := by
  have htask (p : Nat) : ((st.task p).map (f p)).map Task.node = (st.task p).map Task.node := by
    cases st.task p with
    | none => rfl
    | some P => exact congrArg some (hf p P)
  unfold State.mapTasks State.forest
  rw [funext htask]

theorem taskDestroy_task (st : State) (c p : Nat) : (st.taskDestroy c).task p =
      if p = c then none else (st.task p).map fun P => { P with children := P.children.filter (· ≠ c) } :=
  Function.update_apply _ _ _ _

theorem node_of_task (h : st.task c = some C) : st.forest.node c = some C.node :=
  congrArg (Option.map Task.node) h

theorem kin_of_group (h : st.group g = some G) : st.forest.kin g = some G.kin :=
  congrArg (Option.map Tgroup.kin) h

/-! ## Births, exits and reapings -/

theorem forest_clone (st : State) (t pid : Nat) (thread : Bool) :
    st.clone t pid thread = st ∨ ∃ T G, st.task t = some T ∧ st.group T.group = some G ∧ t ∈ G.threads ∧
      pid ≤ maxPid ∧ st.task pid = none ∧ (st.clone t pid thread).forest = st.forest.born t pid T.node G.kin thread := by
  unfold State.clone
  split
  case h_1 => exact Or.inl rfl
  case h_2 T ht =>
    split
    case h_1 => exact Or.inl rfl
    case h_2 G hg =>
      split
      case isFalse => exact Or.inl rfl
      case isTrue hok =>
        obtain ⟨hruns, -, hle, hfree⟩ := hok
        obtain ⟨-, hmem⟩ := Bool.and_eq_true_iff.mp hruns
        refine Or.inr ⟨T, G, ht, hg, of_decide_eq_true hmem, hle, Option.isNone_iff_eq_none.mp hfree, ?_⟩
        have hnext (s : State) : ({ s with next := st.next + 1 } : State).forest =
            { s.forest with next := st.next + 1 } := rfl
        unfold Forest.born
        dsimp only
        rw [hnext, forest_setGroup, forest_setTask, forest_setTask]
        cases thread with
        | true => rfl
        | false => rfl

theorem forest_doExit (st : State) (t status : Nat) :
    st.doExit t status = st ∨ ∃ T G heir, st.task t = some T ∧ st.group T.group = some G ∧ t ∈ G.threads ∧
      T.exiting = true ∧ st.findNewParent G = some heir ∧ ¬(G.leader = 1 ∧ G.threads.filter (· ≠ t) = []) ∧
      (st.doExit t status).forest = st.forest.left t heir T.node G.kin := by
  unfold State.doExit
  split
  case h_1 => exact Or.inl rfl
  case h_2 T ht =>
    split
    case h_1 => exact Or.inl rfl
    case h_2 G hg =>
      split
      case h_1 => exact Or.inl rfl
      case h_2 heir hheir =>
        split
        case isTrue => exact Or.inl rfl
        case isFalse hok =>
          simp only [not_or, Bool.not_eq_false, Classical.not_not] at hok
          obtain ⟨hexiting, hmem, hlast⟩ := hok
          refine Or.inr ⟨T, G, heir, ht, hg, hmem, hexiting, hheir, hlast, ?_⟩
          have hkin (s' : State) : (s'.leave t T.group G).forest.kin = Function.update s'.forest.kin T.group
              (some ⟨G.leader, G.threads.filter (· ≠ t)⟩) := map_update Tgroup.kin _ _ _
          by_cases hlead : t = G.leader
          case pos =>
            rw [if_pos hlead]
            refine Forest.ext (funext fun p => ?_) (hkin _) rfl rfl
            have hall (l : List Nat) : l.filter (fun c => decide (t = G.leader) || decide (c ≠ t)) = l :=
              List.filter_eq_self.mpr fun c _ => by rw [decide_eq_true hlead, Bool.true_or]
            have hstays : ¬(p = t ∧ t ≠ G.kin.leader) := fun hgone => hgone.2 hlead
            unfold Forest.left State.forest State.leave State.reparent State.mapTasks State.setGroup
            dsimp only
            rw [if_neg hstays]
            cases st.task p with
            | none => rfl
            | some P => exact congrArg (fun l => some (⟨P.id, P.group, _, l, _⟩ : Node)) (hall _).symm
          case neg =>
            rw [if_neg hlead]
            refine Forest.ext (funext fun p => ?_) (hkin _) rfl rfl
            have hothers (l : List Nat) : l.filter (fun c => decide (t = G.leader) || decide (c ≠ t)) =
                l.filter (fun c => decide (c ≠ t)) :=
              List.filter_congr fun c _ => by rw [decide_eq_false hlead, Bool.false_or]
            unfold Forest.left State.forest
            dsimp only
            rw [taskDestroy_task]
            unfold State.leave State.reparent State.mapTasks State.setGroup
            dsimp only
            by_cases hp : p = t
            · rw [if_pos hp, if_pos ⟨hp, hlead⟩]
              rfl
            have hstays : ¬(p = t ∧ t ≠ G.kin.leader) := fun hgone => hp hgone.1
            rw [if_neg hp, if_neg hstays]
            cases st.task p with
            | none => rfl
            | some P => exact congrArg (fun l => some (⟨P.id, P.group, _, l, _⟩ : Node)) (hothers _).symm

theorem forest_reaped (st : State) (c : Nat) (T : Task) :
    (State.taskDestroy { st with group := Function.update st.group T.group none, reaped := T.id :: st.reaped }
      c).forest = st.forest.reap c T.node := by
  refine Forest.ext (funext fun p => ?_) (map_update Tgroup.kin _ _ _) rfl rfl
  unfold Forest.reap State.forest
  dsimp only
  rw [taskDestroy_task]
  split
  case isTrue => rfl
  case isFalse =>
    dsimp only
    cases st.task p with
    | none => rfl
    | some P => rfl

/-! ## Rounds -/

theorem forest_reapIfNeeded (hreap : st.reapIfNeeded c o = some (status, st')) :
    st'.forest = st.forest ∨ ∃ C F, st.task c = some C ∧ C.zombie = true ∧ st.group C.group = some F ∧
      st'.forest = st.forest.reap c C.node := by
  unfold State.reapIfNeeded at hreap
  split at hreap
  case h_1 => cases hreap
  case h_2 C hc =>
    split at hreap
    case h_1 => cases hreap
    case h_2 F hf =>
      split at hreap
      case h_1 r hstopped =>
        -- a stop
        cases hreap
        split at hstopped
        case isFalse => cases hstopped
        case isTrue =>
          unfold State.notifyIfStopped at hstopped
          split at hstopped
          case isTrue => cases hstopped
          case isFalse =>
            cases hstopped
            exact Or.inl (forest_setGroup_same hf rfl)
      case h_2 =>
        split at hreap
        case h_1 r hzombie =>
          -- a death
          cases hreap
          split at hzombie
          case isFalse => cases hzombie
          case isTrue =>
            unfold State.reapIfZombie at hzombie
            split at hzombie
            case isTrue => cases hzombie
            case isFalse hdead =>
              rw [Bool.not_eq_false] at hdead
              dsimp only at hzombie
              split at hzombie
              case isTrue =>
                cases hzombie
                exact Or.inl rfl
              case isFalse =>
                cases hzombie
                exact Or.inr ⟨C, F, hc, hdead, hf, forest_reaped st c C⟩
        case h_2 =>
          -- a trap
          unfold State.notifyIfTraced at hreap
          split at hreap
          case isFalse => cases hreap
          case isTrue =>
            cases hreap
            exact Or.inl (forest_setTask_same hc rfl)

theorem wf_reapIfNeeded (h : st.forest.Wf) (hreap : st.reapIfNeeded c o = some (status, st')) : st'.forest.Wf := by
  obtain heq | ⟨C, F, hc, hdead, hf, heq⟩ := forest_reapIfNeeded hreap
  · rw [heq]
    exact h
  · rw [heq]
    exact Forest.wf_reap h (node_of_task hc) hdead (kin_of_group hf)

theorem wf_waitRound (h : st.forest.Wf) (hmem : t ∈ G.threads) (call : Call) (gotSignal : Bool) :
    (st.waitRound T G call gotSignal).2.forest.Wf := by
  by_cases hsel : ∀ id, call.sel ≠ .pid id
  case pos =>
    have hsearched : Searched st call gotSignal T.children (st.waitRound T G call gotSignal) :=
      waitRound_searched hsel (List.ne_nil_of_mem hmem) gotSignal
    generalize st.waitRound T G call gotSignal = r at hsearched ⊢
    cases hsearched with
    | found hc hconsidered htask hreap => exact wf_reapIfNeeded h hreap
    | none => exact h
    | idle => exact h
  case neg =>
    simp only [not_forall, Classical.not_not] at hsel
    obtain ⟨id, hsel⟩ := hsel
    unfold State.waitRound
    rw [hsel]
    dsimp only
    split
    case h_1 => exact h
    case h_2 => exact h
    case h_3 c hget =>
      split
      case h_1 => exact h
      case h_2 C hc =>
        split
        case isTrue => exact h
        case isFalse =>
          split
          case h_1 => exact h
          case h_2 F hf =>
            split
            case h_1 status st' hreap => exact wf_reapIfNeeded h hreap
            case h_2 => exact h

/-! ## Steps -/

theorem rounds_some (hrounds : rounds st op = some (t, T, G, call, gotSignal)) :
    st.task t = some T ∧ st.group T.group = some G ∧ t ∈ G.threads := by
  unfold rounds at hrounds
  split at hrounds
  case h_1 t' call' =>
    split at hrounds
    case h_1 => cases hrounds
    case h_2 T' ht =>
      split at hrounds
      case h_1 => cases hrounds
      case h_2 G' hg =>
        split at hrounds
        case isFalse => cases hrounds
        case isTrue hruns =>
          cases hrounds
          exact ⟨ht, hg, of_decide_eq_true (Bool.and_eq_true_iff.mp hruns).2⟩
  case h_2 t' signal =>
    split at hrounds
    case h_2 => cases hrounds
    case h_1 call' got' T' hasleep ht =>
      split at hrounds
      case h_1 => cases hrounds
      case h_2 G' hg =>
        split at hrounds
        case isFalse => cases hrounds
        case isTrue hmem =>
          cases hrounds
          exact ⟨ht, hg, hmem⟩
  case h_3 => cases hrounds

theorem wf_doExit (h : st.forest.Wf) (t status : Nat) : (st.doExit t status).forest.Wf := by
  obtain heq | ⟨T, G, heir, ht, hg, hmem, hexiting, hheir, hlast, heq⟩ := forest_doExit st t status
  · rw [heq]
    exact h
  rw [heq]
  refine Forest.wf_left h (node_of_task ht) (kin_of_group hg) hmem ?_ hlast
  -- the exiting task is no heir of its own
  unfold State.findNewParent at hheir
  split at hheir
  case h_1 p hfind =>
    cases hheir
    refine Or.inl ⟨List.mem_of_find?_eq_some hfind, ?_⟩
    rintro rfl
    have hsome := List.find?_some hfind
    rw [ht] at hsome
    simp [hexiting] at hsome
  case h_2 =>
    split at hheir
    case isTrue =>
      cases hheir
      exact Or.inr rfl
    case isFalse => cases hheir

theorem wf_setTask (h : st.forest.Wf) (hc : st.task c = some C) (hnode : T.node = C.node) :
    (st.setTask c T).forest.Wf := by
  rw [forest_setTask_same hc hnode]
  exact h

theorem wf_setGroup (h : st.forest.Wf) (hg : st.group g = some G) (hkin : G'.kin = G.kin) :
    (st.setGroup g G').forest.Wf := by
  rw [forest_setGroup_same hg hkin]
  exact h

/-- **Every step** keeps the forest. -/
theorem wf_step (h : st.forest.Wf) (op : Op) : (step st op).forest.Wf := by
  unfold step exec
  split
  case h_1 t T G call gotSignal hrounds =>
    obtain ⟨-, -, hmem⟩ := rounds_some hrounds
    have hround : (st.waitRound T G call gotSignal).2.forest.Wf := wf_waitRound h hmem call gotSignal
    exact hround
  case h_2 =>
    cases op with
    | wait => exact h
    | wake => exact h
    | clone t pid thread =>
      obtain heq | ⟨T, G, ht, hg, hmem, hle, hfree, heq⟩ := forest_clone st t pid thread
      · show (st.clone t pid thread).forest.Wf
        rw [heq]
        exact h
      show (st.clone t pid thread).forest.Wf
      rw [heq]
      exact Forest.wf_born h (node_of_task ht) (kin_of_group hg) hmem (congrArg (Option.map Task.node) hfree) hle thread
    | claim t =>
      show (st.claim t).forest.Wf
      unfold State.claim
      split
      case h_1 => exact h
      case h_2 T ht =>
        split
        case h_1 => exact h
        case h_2 G hg =>
          split
          case isTrue => exact wf_setTask h ht rfl
          case isFalse => exact h
    | exit t status => exact wf_doExit h t status
    | report g stopped doingGroupExit groupExitCode =>
      dsimp only
      split
      case h_1 => exact h
      case h_2 G hg => exact wf_setGroup h hg rfl
    | trace c stopped signal =>
      dsimp only
      rwa [forest_mapTasks_same]
      intro p P
      split
      case isTrue => rfl
      case isFalse => rfl
    | setpgid g pgid =>
      dsimp only
      split
      case h_1 => exact h
      case h_2 G hg => exact wf_setGroup h hg rfl
    | setuid c uid =>
      dsimp only
      rwa [forest_mapTasks_same]
      intro p P
      split
      case isTrue => rfl
      case isFalse => rfl

theorem wf_boot : boot.forest.Wf := by
  have hnode {p : Nat} {P : Node} (hp : boot.forest.node p = some P) : p = 1 ∧ P = ⟨0, 0, none, [], false⟩ := by
    unfold boot State.forest at hp
    dsimp only at hp
    split at hp
    case isTrue heq =>
      cases hp
      exact ⟨heq, rfl⟩
    case isFalse => cases hp
  have hkin {g : Nat} {K : Kin} (hg : boot.forest.kin g = some K) : g = 0 ∧ K = ⟨1, [1]⟩ := by
    unfold boot State.forest at hg
    dsimp only at hg
    split at hg
    case isTrue heq =>
      cases hg
      exact ⟨heq, rfl⟩
    case isFalse => cases hg
  have hinit : boot.forest.node 1 = some ⟨0, 0, none, [], false⟩ := rfl
  constructor
  case child =>
    intro p P hp c
    obtain ⟨-, rfl⟩ := hnode hp
    refine ⟨fun hc => absurd hc List.not_mem_nil, fun ⟨C, hc, hparent⟩ => ?_⟩
    obtain ⟨-, rfl⟩ := hnode hc
    cases hparent
  case parent =>
    intro c C p hc hparent
    obtain ⟨-, rfl⟩ := hnode hc
    cases hparent
  case threads =>
    intro g K hg c hc
    obtain ⟨rfl, rfl⟩ := hkin hg
    exact ⟨_, (List.mem_singleton.mp hc) ▸ hinit, rfl⟩
  case leader =>
    intro g K hg
    obtain ⟨rfl, rfl⟩ := hkin hg
    exact ⟨_, hinit, rfl⟩
  case childless => exact fun p P K hp _ _ hp1 => absurd (hnode hp).1 hp1
  case dead =>
    intro p P K hp hz
    obtain ⟨-, rfl⟩ := hnode hp
    cases hz
  case init => exact ⟨_, hinit, rfl, fun K hg => by rw [(hkin hg).2]⟩
  case slots =>
    intro p P hp
    rw [(hnode hp).1]
    decide
  case fresh =>
    intro p P hp
    rw [(hnode hp).2]
    decide
  case freshKin =>
    intro g K hg
    rw [(hkin hg).1]
    decide
  case ids => exact fun p P q Q hp hq _ => (hnode hp).1.trans (hnode hq).1.symm
  case nodup => exact List.nodup_nil
  case old => exact fun i hi => absurd hi List.not_mem_nil

/-! ## Runs -/

theorem round_iff (h : st.forest.Wf) (ht : st.task t = some T) (hmem : t ∈ G.threads) :
    RoundOk st T.group call gotSignal (st.waitRound T G call gotSignal) ↔ Fine st t T.group call := by
  have hslots (p : Nat) (P : Task) (hp : st.task p = some P) : p ≤ maxPid := h.slots p P.node (node_of_task hp)
  have hchildren (c : Nat) : c ∈ T.children ↔ ∃ C, st.task c = some C ∧ C.parent = some t := by
    refine (h.child t T.node (node_of_task ht) c).trans ⟨?_, ?_⟩
    · rintro ⟨N, hnode, hparent⟩
      obtain ⟨C, hC, rfl⟩ := Option.map_eq_some_iff.mp hnode
      exact ⟨C, hC, hparent⟩
    · rintro ⟨C, hC, hparent⟩
      exact ⟨C.node, node_of_task hC, hparent⟩
  have hthreads := List.ne_nil_of_mem hmem
  unfold Fine
  split
  case h_1 id hsel => exact round_pid hsel hslots
  case h_2 sel hsel => exact round_search ht hsel hthreads hchildren

theorem precise_iff (h : st.forest.Wf) (op : Op) : Precise st op ↔ Allowed st op := by
  constructor
  · intro hprecise t T G call gotSignal hrounds
    obtain ⟨ht, -, hmem⟩ := rounds_some hrounds
    exact (round_iff h ht hmem).mp (hprecise.round t T G call gotSignal hrounds)
  intro hallowed
  refine ⟨fun t T G call gotSignal hrounds => ?_, (wf_step h op).nodup⟩
  obtain ⟨ht, -, hmem⟩ := rounds_some hrounds
  exact (round_iff h ht hmem).mpr (hallowed t T G call gotSignal hrounds)

def Tree (st : State) : Prop := st.forest.Wf

theorem tree_step (st : State) (op : Op) (h : Tree st) : Tree (step st op) := wf_step h op

/-- **Waits.** All rounds of a run do what they ought to, and no child is reaped twice, exactly when the matches of
the caller's threads are matches of its own. -/
theorem wait_iff (ops : List Op) : AllSteps step Precise boot ops ↔ AllSteps step Allowed boot ops := by
  have hstep (st : State) (op : Op) (h : Tree st) (_ : Allowed st op) : Tree (step st op) := tree_step st op h
  have hiff (st : State) (op : Op) (h : Tree st) : Precise st op ↔ Allowed st op := precise_iff h op
  exact allSteps_congr hiff hstep wf_boot

/-- A second thread makes a child, and the first is told that there is none. -/
theorem wait_misses_child :
    ¬AllSteps step Precise boot [.clone 1 2 true, .clone 2 3 false, .wait 1 ⟨.all, ⟨true, false, true, false⟩⟩] := by
  rintro ⟨-, -, hprecise, -⟩
  have hok := hprecise.round 1 _ _ _ _ rfl
  have hchild : Matches (step (step boot (.clone 1 2 true)) (.clone 2 3 false)) 0 .all 3 :=
    ⟨⟨_, 2, _, rfl, rfl, rfl, rfl⟩, _, _, ⟨rfl, rfl, rfl⟩, trivial⟩
  by_cases hready : ∃ c, Matches (step (step boot (.clone 1 2 true)) (.clone 2 3 false)) 0 .all c ∧
      Reapable (step (step boot (.clone 1 2 true)) (.clone 2 3 false)) ⟨true, false, true, false⟩ c
  · obtain ⟨c, C, status, st', -, -, -, heq⟩ := hok.ready hready
    cases congrArg Prod.fst heq
  · have heq := hok.idle ⟨3, hchild⟩ fun c hc hreapable => hready ⟨c, hc, hreapable⟩
    cases congrArg Prod.fst heq

end IosLinuxkit.Wait
