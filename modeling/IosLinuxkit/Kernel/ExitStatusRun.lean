import IosLinuxkit.Kernel.ExitStatus

/-!
# Exit statuses over a run

* **`exitStatus_run`** — every undisturbed run.
-/

namespace IosLinuxkit.ExitStatus

variable {st : Group} {t u status sig : Nat} {op : ExitOp} {o : Group.WaitOptions}

def Collected (st : Group) : Prop :=
  (st.reaped = false ∧ st.collected = []) ∨
    (st.reaped = true ∧ st.zombie = true ∧ ∃ c, st.begun = some c ∧ st.collected = [c])

structure ExitInv (st : Group) : Prop where
  listed : ∀ t, st.phase t ≠ .away → t ∈ st.threads
  dead : st.zombie = true → st.threads = []
  doing : st.doingGroupExit = true → st.stopped = false ∧ st.begun = some st.groupExitCode
  last : st.doingGroupExit = false → st.zombie = true → st.begun = some st.exitCode
  early : st.doingGroupExit = false → st.zombie = false → st.begun = none
  waited : Collected st

theorem exitInv_start (leader : Nat) (stopped : Bool) (code exitCode : Nat) :
    ExitInv (Group.start leader stopped code exitCode) := by
  refine ⟨fun t ht => ?_, fun h => (by cases h), fun h => (by cases h), fun _ h => (by cases h),
    fun _ _ => rfl, .inl ⟨rfl, rfl⟩⟩
  have ht' : (if t = leader then Phase.running else Phase.away) ≠ .away := ht
  split at ht'
  case isTrue hl => exact List.mem_singleton.mpr hl
  case isFalse => exact absurd rfl ht'

/-! ## Threads -/

theorem ExitInv.alive (h : ExitInv st) (ht : st.phase t ≠ .away) :
    st.zombie = false ∧ st.reaped = false := by
  have hz : st.zombie = false := by
    cases hz : st.zombie with
    | false => rfl
    | true =>
      have hmem := h.listed t ht
      rw [h.dead hz] at hmem
      cases hmem
  refine ⟨hz, ?_⟩
  rcases h.waited with ⟨hr, _⟩ | ⟨_, hz', _⟩
  · exact hr
  · rw [hz] at hz'
    cases hz'

theorem Collected.of_alive (h : Collected st) (hr : st.reaped = false) : st.collected = [] := by
  rcases h with ⟨_, hc⟩ | ⟨hr', _⟩
  · exact hc
  · rw [hr] at hr'
    cases hr'

theorem listed_setPhase (h : ∀ t, st.phase t ≠ .away → t ∈ st.threads) (ht : t ∈ st.threads) (p : Phase) :
    ∀ u, (st.setPhase t p).phase u ≠ .away → u ∈ (st.setPhase t p).threads := by
  intro u hu
  have hu' : Function.update st.phase t p u ≠ .away := hu
  by_cases hut : u = t
  · subst hut
    exact ht
  · rw [Function.update_of_ne hut] at hu'
    exact h u hu'

theorem exitInv_setPhase (h : ExitInv st) (ht : st.phase t ≠ .away) (p : Phase) :
    ExitInv (st.setPhase t p) :=
  ⟨listed_setPhase h.listed (h.listed t ht) p, h.dead, h.doing, h.last, h.early, h.waited⟩

theorem exitInv_cloneThread (h : ExitInv st) (t u : Nat) : ExitInv (st.cloneThread t u) := by
  unfold Group.cloneThread
  split
  case isFalse => exact h
  case isTrue hc =>
    obtain ⟨hz, -⟩ := h.alive (t := t) (by rw [hc.1]; exact Phase.noConfusion)
    refine ⟨listed_setPhase (fun v hv => ?_) List.mem_cons_self .running, fun hz' => ?_, h.doing, h.last,
      h.early, h.waited⟩
    · exact List.mem_cons_of_mem u (h.listed v hv)
    have hz'' : st.zombie = true := hz'
    rw [hz] at hz''
    cases hz''

/-! ## Exits -/

theorem exitInv_doExitGroup (h : ExitInv st) (t status : Nat) : ExitInv (st.doExitGroup t status) := by
  unfold Group.doExitGroup
  split
  case isFalse => exact h
  case isTrue hrun =>
    have ht : st.phase t ≠ .away := by
      rw [hrun]
      exact Phase.noConfusion
    obtain ⟨-, hr⟩ := h.alive ht
    split
    case isTrue hdoing =>
      exact ⟨listed_setPhase h.listed (h.listed t ht) _, h.dead, fun hd => ⟨rfl, (h.doing hd).2⟩, h.last,
        h.early, h.waited⟩
    case isFalse hdoing =>
      refine ⟨listed_setPhase h.listed (h.listed t ht) _, h.dead, fun _ => ⟨rfl, rfl⟩,
        fun hd => (by cases hd), fun hd => (by cases hd), .inl ⟨hr, h.waited.of_alive hr⟩⟩

theorem exitInv_safetyValve (h : ExitInv st) (t : Nat) : ExitInv (st.safetyValve t) := by
  unfold Group.safetyValve
  split
  case h_2 => exact h
  case h_1 status hphase =>
    obtain ⟨hz, _⟩ := h.alive (t := t) (by rw [hphase]; exact Phase.noConfusion)
    refine ⟨fun u hu => ?_, fun hz' => ?_, h.doing, h.last, h.early, h.waited⟩
    · dsimp only at hu ⊢
      split at hu
      · exact absurd rfl hu
      case isFalse hstuck =>
        refine List.mem_filter.mpr ⟨h.listed u hu, ?_⟩
        exact (Bool.not_eq_true _ ▸ hstuck) ▸ rfl
    have hz'' : st.zombie = true := hz'
    rw [hz] at hz''
    cases hz''

theorem exitInv_claim (h : ExitInv st) (t status : Nat) : ExitInv (st.claim t status) := by
  unfold Group.claim
  split
  case isFalse => exact h
  case isTrue hrun => exact exitInv_setPhase h (by rw [hrun]; exact Phase.noConfusion) _

theorem exitInv_claimLeaving (h : ExitInv st) (t : Nat) : ExitInv (st.claimLeaving t) := by
  unfold Group.claimLeaving
  split
  case h_2 => exact h
  case h_1 status waits hphase => exact exitInv_setPhase h (by rw [hphase]; exact Phase.noConfusion) _

theorem listed_erase (h : ∀ t, st.phase t ≠ .away → t ∈ st.threads) (t : Nat) :
    ∀ u, Function.update st.phase t .away u ≠ .away → u ∈ st.threads.erase t := by
  intro u hu
  by_cases hut : u = t
  · rw [hut, Function.update_self] at hu
    exact absurd rfl hu
  · rw [Function.update_of_ne hut] at hu
    exact (List.mem_erase_of_ne hut).mpr (h u hu)

theorem exitInv_exitTgroup (h : ExitInv st) (hok : Undisturbed st (.exitTgroup t)) :
    ExitInv (st.exitTgroup t) := by
  unfold Group.exitTgroup
  split
  case h_2 => exact h
  case h_1 status hphase =>
    obtain ⟨hz, hr⟩ := h.alive (t := t) (by rw [hphase]; exact Phase.noConfusion)
    have hlisted := listed_erase h.listed t
    dsimp only
    split
    case isTrue hlast =>
      refine ⟨hlisted, fun _ => hlast.1, fun hd => ?_, fun hd _ => ?_, fun _ hz' => (by cases hz'),
        .inl ⟨hr, h.waited.of_alive hr⟩⟩
      · -- the exit of the group had begun
        obtain ⟨hstop, hbegun⟩ := h.doing hd
        refine ⟨hstop, ?_⟩
        show (if st.begun = none then some status else st.begun) = some st.groupExitCode
        rw [hbegun, if_neg (fun hc => by cases hc)]
      have hnone := h.early hd hz
      show (if st.begun = none then some status else st.begun) =
        some (if t = st.leader then status else st.exitCode)
      rw [if_pos hnone]
      split
      · rfl
      case isFalse hne =>
        rw [(hok status hphase hlast.1 hnone).resolve_left hne]
    case isFalse hmore =>
      refine ⟨hlisted, fun hz' => ?_, h.doing, fun _ hz' => ?_, h.early, .inl ⟨hr, h.waited.of_alive hr⟩⟩
      · have hz'' : st.zombie = true := hz'
        rw [hz] at hz''
        cases hz''
      have hz'' : st.zombie = true := hz'
      rw [hz] at hz''
      cases hz''

/-! ## Stops -/

theorem exitInv_receiveStop (h : ExitInv st) (hok : Undisturbed st (.stop t sig)) :
    ExitInv (st.receiveStop t sig) := by
  unfold Group.receiveStop
  split
  case isFalse => exact h
  case isTrue hrun =>
    have hnone : st.begun = none := hok hrun
    refine ⟨h.listed, h.dead, fun hd => ?_, h.last, h.early, h.waited⟩
    have hbegun := (h.doing hd).2
    rw [hnone] at hbegun
    cases hbegun

theorem exitInv_receiveCont (h : ExitInv st) : ExitInv st.receiveCont := by
  unfold Group.receiveCont
  split
  · exact h
  · exact ⟨h.listed, h.dead, fun hd => ⟨rfl, (h.doing hd).2⟩, h.last, h.early, h.waited⟩

theorem exitInv_signalDeliveryStop (h : ExitInv st) (sig : Nat) : ExitInv (st.signalDeliveryStop sig) := by
  unfold Group.signalDeliveryStop
  split
  · exact ⟨h.listed, h.dead, h.doing, h.last, h.early, h.waited⟩
  · exact h

theorem exitInv_ptraceResume (h : ExitInv st) : ExitInv st.ptraceResume := by
  unfold Group.ptraceResume
  split
  · exact h
  · exact ⟨h.listed, h.dead, h.doing, h.last, h.early, h.waited⟩

/-! ## Waits -/

theorem begun_reapStatus (h : ExitInv st) (hz : st.zombie = true) : st.begun = some st.reapStatus := by
  unfold Group.reapStatus
  split
  case isTrue hd => exact (h.doing hd).2
  case isFalse hd => exact h.last (Bool.not_eq_true _ ▸ hd) hz

theorem exitInv_notifyIfStopped (h : ExitInv st) {r : Nat × Group} (hr : st.notifyIfStopped = some r) :
    ExitInv r.2 := by
  unfold Group.notifyIfStopped at hr
  split at hr
  · cases hr
  case isFalse hstop =>
    cases hr
    refine ⟨h.listed, h.dead, fun hd => ?_, h.last, h.early, h.waited⟩
    -- an exit has ended the stop
    exact absurd (Or.inl (h.doing hd).1) hstop

theorem exitInv_reapIfZombie (h : ExitInv st) (hreaped : st.reaped = false) {nowait : Bool}
    {r : Nat × Group} (hr : st.reapIfZombie nowait = some r) : ExitInv r.2 := by
  unfold Group.reapIfZombie at hr
  split at hr
  · cases hr
  case isFalse hz =>
    have hz' : st.zombie = true := by simpa using hz
    split at hr
    · cases hr
      exact h
    have hbegun := begun_reapStatus h hz'
    cases hr
    refine ⟨h.listed, h.dead, h.doing, h.last, h.early, .inr ⟨rfl, hz', st.reapStatus, hbegun, ?_⟩⟩
    · show st.reapStatus :: st.collected = _
      rw [h.waited.of_alive hreaped]

theorem exitInv_notifyIfTraced (h : ExitInv st) {r : Nat × Group} (hr : st.notifyIfTraced = some r) :
    ExitInv r.2 := by
  unfold Group.notifyIfTraced at hr
  split at hr
  · cases hr
    exact ⟨h.listed, h.dead, h.doing, h.last, h.early, h.waited⟩
  · cases hr

theorem exitInv_reapIfNeeded (h : ExitInv st) (hreaped : st.reaped = false) {r : Nat × Group}
    (hr : st.reapIfNeeded o = some r) : ExitInv r.2 := by
  unfold Group.reapIfNeeded at hr
  split at hr
  case h_1 r' heq =>
    cases hr
    split at heq
    · exact exitInv_notifyIfStopped h heq
    · cases heq
  case h_2 =>
    split at hr
    case h_1 r' heq =>
      cases hr
      split at heq
      · exact exitInv_reapIfZombie h hreaped heq
      · cases heq
    case h_2 => exact exitInv_notifyIfTraced h hr

theorem exitInv_doWait (h : ExitInv st) (o : Group.WaitOptions) : ExitInv (st.doWait o).2 := by
  unfold Group.doWait
  split
  · exact h
  case isFalse hreaped =>
    split
    · exact h
    case h_2 status st' heq => exact exitInv_reapIfNeeded h (Bool.not_eq_true _ ▸ hreaped) heq

theorem exitInv_step (h : ExitInv st) (hok : Undisturbed st op) : ExitInv (exitStep st op) := by
  cases op with
  | clone t u => exact exitInv_cloneThread h t u
  | sysExitGroup t status => exact exitInv_doExitGroup h t _
  | fatalSignal t sig => exact exitInv_doExitGroup h t sig
  | valve t => exact exitInv_safetyValve h t
  | sysExit t status => exact exitInv_claim h t _
  | seeGroupExit t =>
    show ExitInv (if st.doingGroupExit then st.claim t st.groupExitCode else st)
    split
    · exact exitInv_claim h t _
    · exact h
  | claimLeaving t => exact exitInv_claimLeaving h t
  | exitTgroup t => exact exitInv_exitTgroup h hok
  | stop t sig => exact exitInv_receiveStop h hok
  | cont => exact exitInv_receiveCont h
  | deliveryStop sig => exact exitInv_signalDeliveryStop h sig
  | ptraceResume => exact exitInv_ptraceResume h
  | wait o => exact exitInv_doWait h o

/-! ## Runs -/

theorem doWait_zombie (h : ExitInv st) {c : Nat} (hbegun : st.begun = some c) (hz : st.zombie = true)
    (hreaped : st.reaped = false) (ho : o.exited = true) (hstop : ¬ (o.untraced = true ∧ st.stopped = true)) :
    (st.doWait o).1 = some c := by
  have hfirst : (if o.untraced then st.notifyIfStopped else none) = none := by
    split
    case isTrue hu =>
      have hs : st.stopped = false := Bool.not_eq_true _ ▸ fun hs => hstop ⟨hu, hs⟩
      exact if_pos (.inl hs)
    case isFalse => rfl
  have hstatus : st.reapStatus = c := Option.some.inj ((begun_reapStatus h hz).symm.trans hbegun)
  have hreap : ∃ st', st.reapIfZombie o.nowait = some (c, st') := by
    unfold Group.reapIfZombie
    rw [hz, hstatus]
    cases o.nowait with
    | false => exact ⟨_, rfl⟩
    | true => exact ⟨_, rfl⟩
  obtain ⟨st', hreap⟩ := hreap
  have hneeded : st.reapIfNeeded o = some (c, st') := by
    unfold Group.reapIfNeeded
    rw [hfirst, if_pos ho, hreap]
  unfold Group.doWait
  rw [hreaped, hneeded]
  rfl

theorem agrees_of_exitInv (h : ExitInv st) : Agrees st := by
  refine ⟨?_, fun s hs => ?_, fun c o hbegun hz hreaped ho hstop =>
    doWait_zombie h hbegun hz hreaped ho hstop⟩
  · rcases h.waited with ⟨_, hc⟩ | ⟨_, _, c, _, hc⟩
    · rw [hc]
      exact Nat.zero_le 1
    · rw [hc]
      exact Nat.le_refl 1
  rcases h.waited with ⟨_, hc⟩ | ⟨_, _, c, hbegun, hc⟩
  · rw [hc] at hs
    cases hs
  · rw [hc] at hs
    rw [hbegun, List.mem_singleton.mp hs]

/-- **Exit status.** In every state that an undisturbed run of a new group reaches, at most one status was
reaped, the one that the exit of the group began with, and a wait for the dead child reports it. -/
theorem exitStatus_run (leader : Nat) (stopped : Bool) (code exitCode : Nat) (ops : List ExitOp)
    (hops : AllSteps exitStep Undisturbed (Group.start leader stopped code exitCode) ops) :
    Agrees (run exitStep (Group.start leader stopped code exitCode) ops) := by
  have hstep : ∀ st op, ExitInv st → Undisturbed st op → ExitInv (exitStep st op) :=
    fun _ _ h hok => exitInv_step h hok
  exact agrees_of_exitInv (run_invariant hstep (exitInv_start leader stopped code exitCode) hops)

def waitExited : Group.WaitOptions := ⟨false, true, false⟩

/-- The second thread calls `exit_group(5)`, the leader is killed, and the parent waits. -/
def killedOps : List ExitOp :=
  [.clone 10 11, .sysExitGroup 11 5, .fatalSignal 10 9, .claimLeaving 10, .exitTgroup 10, .claimLeaving 11,
    .exitTgroup 11, .wait waitExited]

theorem exitStatus_killed : (run exitStep (Group.start 10 false 0 0) killedOps).collected = [1280] ∧
      Agrees (run exitStep (Group.start 10 false 0 0) killedOps) := by
  refine ⟨by decide, exitStatus_run 10 false 0 0 killedOps
    ⟨trivial, trivial, trivial, trivial, fun s _ herase => ?_, trivial, fun s _ _ hnone => ?_, trivial, trivial⟩⟩
  · exact absurd herase (by decide)
  · exact absurd hnone (by decide)

/-- The leader takes `SIGTSTP` before it is killed: the status of the stop is reaped, or nothing is left of
the status after a wait with `WUNTRACED`. And the status of a thread that outlives the leader is not
reported. -/
theorem exitStatus_stopped : ¬ Agrees (run exitStep (Group.start 10 false 0 0)
      [.clone 10 11, .sysExitGroup 11 5, .stop 10 20, .fatalSignal 10 9, .claimLeaving 10, .exitTgroup 10,
        .claimLeaving 11, .exitTgroup 11, .wait waitExited]) ∧
    ¬ Agrees (run exitStep (Group.start 10 false 0 0)
      [.clone 10 11, .sysExitGroup 11 5, .stop 10 20, .wait ⟨true, true, false⟩, .fatalSignal 10 9,
        .claimLeaving 10, .exitTgroup 10, .claimLeaving 11, .exitTgroup 11, .wait waitExited]) ∧
    ¬ Agrees (run exitStep (Group.start 10 false 0 0)
      [.clone 10 11, .sysExit 10 1, .exitTgroup 10, .sysExit 11 2, .exitTgroup 11, .wait waitExited]) := by
  refine ⟨fun h => ?_, fun h => ?_, fun h => ?_⟩
  · exact absurd (h.status 5247 (by decide)) (by decide)
  · exact absurd (h.status 0 (by decide)) (by decide)
  · exact absurd (h.status 256 (by decide)) (by decide)

end IosLinuxkit.ExitStatus
