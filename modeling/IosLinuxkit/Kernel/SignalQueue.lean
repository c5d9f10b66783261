import IosLinuxkit.Kernel.SignalMask

/-!
# Signals: the queue and the pending set

The pending set and the queue say the same thing twice, and each consumer of the queue keeps
them together by hand. Clearing the bit is right when no other entry of the signal is left;
not clearing it is right when one is.

* **`signalQueue_run`** — in every run whose steps are `QueueOk`.
-/

namespace IosLinuxkit.Signal

variable {s : State} {t : TaskId}

/-! ## The loop of `signalfd_read` -/

def matching (mask : SigSet) (q : List Sigqueue) : List Sigqueue :=
  q.filter fun e => sigsetHas mask e.sig

theorem find_matching (mask : SigSet) (q : List Sigqueue) :
    q.find? (fun e => sigsetHas mask e.sig) = (matching mask q).head? := by
  rw [matching, List.head?_filter]

theorem matching_eraseP (mask : SigSet) (q : List Sigqueue) :
    matching mask (q.eraseP fun e => sigsetHas mask e.sig) = (matching mask q).tail := by
  induction q with
  | nil => rfl
  | cons e q ih =>
    by_cases he : sigsetHas mask e.sig
    · simp [matching, he]
    · simpa [matching, he] using ih

theorem filter_not_eraseP (mask : SigSet) (q : List Sigqueue) :
    (q.eraseP fun e => sigsetHas mask e.sig).filter (fun e => !sigsetHas mask e.sig) =
      q.filter fun e => !sigsetHas mask e.sig := by
  induction q with
  | nil => rfl
  | cons e q ih =>
    by_cases he : sigsetHas mask e.sig
    · simp [he]
    · simp [he, ih]

structure ReadSpec (mask : SigSet) (n : Nat) (τ : Task) (r : List Sigqueue × Task) : Prop where
  taken : r.1 = (matching mask τ.queue).take n
  left : matching mask r.2.queue = (matching mask τ.queue).drop n
  others : r.2.queue.filter (fun e => !sigsetHas mask e.sig) =
    τ.queue.filter fun e => !sigsetHas mask e.sig
  pending : ∀ sig, sigsetHas r.2.pending sig = true ↔
    sigsetHas τ.pending sig = true ∧ ∀ e ∈ r.1, e.sig ≠ sig
  phase : r.2.phase = τ.phase

theorem signalfdReadLoop_spec (mask : SigSet) (n : Nat) (τ : Task) :
    ReadSpec mask n τ (signalfdReadLoop mask n τ) := by
  induction n generalizing τ with
  | zero =>
    exact ⟨rfl, rfl, rfl, fun sig => by simp [signalfdReadLoop], rfl⟩
  | succ n ih =>
    unfold signalfdReadLoop signalfdDequeueLocked
    rw [find_matching]
    cases hm : matching mask τ.queue with
    | nil =>
      refine ⟨?_, ?_, rfl, fun sig => ?_, rfl⟩
      · simp [hm]
      · simp [hm]
      · simp
    | cons e rest =>
      set τ' : Task := { τ with
        queue := τ.queue.eraseP fun e => sigsetHas mask e.sig
        pending := sigsetDel τ.pending e.sig } with hτ'
      have hrest : matching mask τ'.queue = rest := by
        rw [hτ', matching_eraseP, hm, List.tail_cons]
      obtain ⟨htaken, hleft, hothers, hpending, hphase⟩ := ih τ'
      refine ⟨?_, ?_, ?_, fun sig => ?_, ?_⟩
      · show e :: (signalfdReadLoop mask n τ').1 = _
        rw [htaken, hrest, hm, List.take_succ_cons]
      · show matching mask (signalfdReadLoop mask n τ').2.queue = _
        rw [hleft, hrest, hm, List.drop_succ_cons]
      · show List.filter _ (signalfdReadLoop mask n τ').2.queue = _
        rw [hothers, hτ', filter_not_eraseP]
      · show sigsetHas (signalfdReadLoop mask n τ').2.pending sig = true ↔ _
        rw [hpending sig]
        simp [hτ', List.mem_cons, and_assoc]
      · exact hphase

/-! ## Agreement -/

/-- The bit of a signal is set when the queue holds an entry for it, and only then. -/
def Agree (τ : Task) : Prop :=
  ∀ sig, sigsetHas τ.pending sig = true ↔ ∃ e ∈ τ.queue, e.sig = sig

def Passed (pos : Nat) (blocked : SigSet) (q : List Sigqueue) : Prop :=
  pos ≤ q.length ∧ ∀ e ∈ q.take pos, sigsetHas blocked e.sig = true

structure InLoop (pos : Nat) (blocked : SigSet) (τ : Task) : Prop where
  sound : ∀ sig, sigsetHas τ.pending sig = true → ∃ e ∈ τ.queue, e.sig = sig
  kept : ∀ e ∈ τ.queue, sigsetHas blocked e.sig = true → sigsetHas τ.pending e.sig = true
  passed : Passed pos blocked τ.queue
  traced : τ.traced = true → Agree τ

def TaskInv (τ : Task) : Prop :=
  match τ.phase with
  | .running => Agree τ
  | .timedwait _ => Agree τ
  | .receiving pos blocked => InLoop pos blocked τ
  | .stopped tmp blocked =>
    Agree τ ∧ τ.traced = true ∧ ∀ pos, tmp = some pos → Passed pos blocked τ.queue
  | .exiting => True

variable {τ : Task} {blocked mask : SigSet} {pos n : Nat} {q : List Sigqueue} {e : Sigqueue} {sig : Sig}
  {frameOk : Bool}

theorem TaskInv.frame (h : TaskInv τ) (sighand : SighandId)
    (blocked waiting savedMask : SigSet) (hasSavedMask nativeProxy : Bool)
    (nativeCancel : Option (Option Sig)) : TaskInv { τ with
      sighand, blocked, waiting, savedMask, hasSavedMask, nativeProxy, nativeCancel } := by
  cases hp : τ.phase with
  | running => simpa only [TaskInv, hp, Agree] using h
  | timedwait set => simpa only [TaskInv, hp, Agree] using h
  | receiving pos blocked =>
    simp only [TaskInv, hp] at h ⊢
    exact ⟨h.sound, h.kept, h.passed, h.traced⟩
  | stopped tmp blocked => simpa only [TaskInv, hp, Agree, Passed] using h
  | exiting => simp only [TaskInv]

theorem TaskInv.agree (h : TaskInv τ) (hrun : τ.phase = .running) : Agree τ := by
  simpa only [TaskInv, hrun] using h

theorem TaskInv.stopped {tmp : Option Nat} (h : TaskInv τ)
    (hstop : τ.phase = .stopped tmp blocked) :
    Agree τ ∧ τ.traced = true ∧ ∀ pos, tmp = some pos → Passed pos blocked τ.queue := by
  simpa only [TaskInv, hstop] using h

theorem taskInv_of_running (h : Agree τ) (hrun : τ.phase = .running) : TaskInv τ := by
  simpa only [TaskInv, hrun] using h

theorem Agree.enqueue (h : Agree τ) (sig : Sig) (tag : Nat) : Agree { τ with
      pending := sigsetAdd τ.pending sig, queue := τ.queue ++ [⟨sig, tag⟩] } := by
  intro sig'
  have := h sig'
  simp only [sigsetHas_add, Bool.or_eq_true, decide_eq_true_eq, List.mem_append, List.mem_singleton]
  constructor
  · rintro (hp | rfl)
    · obtain ⟨e, he, hs⟩ := this.mp hp
      exact ⟨e, Or.inl he, hs⟩
    · exact ⟨_, Or.inr rfl, rfl⟩
  rintro ⟨e, he | rfl, rfl⟩
  · exact Or.inl (this.mpr ⟨e, he, rfl⟩)
  · exact Or.inr rfl

theorem Passed.append
    (h : Passed pos blocked q) (e : Sigqueue) : Passed pos blocked (q ++ [e]) := by
  refine ⟨?_, ?_⟩
  · have := h.1
    simp only [List.length_append, List.length_singleton]
    omega
  · rw [List.take_append_of_le_length h.1]
    exact h.2

theorem InLoop.enqueue (h : InLoop pos blocked τ) (sig : Sig) (tag : Nat) :
    InLoop pos blocked { τ with
      pending := sigsetAdd τ.pending sig, queue := τ.queue ++ [⟨sig, tag⟩] } where
  sound := by
    intro sig' hp
    simp only [sigsetHas_add, Bool.or_eq_true, decide_eq_true_eq] at hp
    rcases hp with hp | rfl
    · obtain ⟨e, he, hs⟩ := h.sound sig' hp
      exact ⟨e, List.mem_append_left _ he, hs⟩
    · exact ⟨⟨sig, tag⟩, List.mem_append_right _ List.mem_cons_self, rfl⟩
  kept := by
    intro e he hb
    simp only [sigsetHas_add, Bool.or_eq_true, decide_eq_true_eq]
    rcases List.mem_append.mp he with he | he
    · exact Or.inl (h.kept e he hb)
    · exact Or.inr (List.mem_singleton.mp he ▸ rfl)
  passed := h.passed.append _
  traced := fun ht => (h.traced ht).enqueue sig tag

theorem TaskInv.enqueue (h : TaskInv τ) (sig : Sig) (tag : Nat) : TaskInv { τ with
      pending := sigsetAdd τ.pending sig, queue := τ.queue ++ [⟨sig, tag⟩] } := by
  cases hp : τ.phase with
  | running =>
    simp only [TaskInv, hp] at h ⊢
    exact h.enqueue sig tag
  | timedwait set =>
    simp only [TaskInv, hp] at h ⊢
    exact h.enqueue sig tag
  | receiving pos blocked =>
    simp only [TaskInv, hp] at h ⊢
    rw [← hp]
    exact h.enqueue sig tag
  | stopped tmp blocked =>
    simp only [TaskInv, hp] at h ⊢
    exact ⟨h.1.enqueue sig tag, h.2.1, fun pos hpos => (h.2.2 pos hpos).append _⟩
  | exiting => simp only [TaskInv]

theorem Agree.inLoop (h : Agree τ) (hp : Passed pos blocked τ.queue) : InLoop pos blocked τ where
  sound := fun sig hs => (h sig).mp hs
  kept := fun e he _ => (h e.sig).mpr ⟨e, he, rfl⟩
  passed := hp
  traced := fun _ => h

/-! ## The loop of `receive_signals` -/

variable {τ : Task} {pos : Nat} {blocked : SigSet} {e : Sigqueue}

theorem mem_eraseIdx_of_ne {e' : Sigqueue} (he : q[pos]? = some e)
    (hmem : e' ∈ q) (hne : e' ≠ e) : e' ∈ q.eraseIdx pos := by
  obtain ⟨hlt, rfl⟩ := List.getElem?_eq_some_iff.mp he
  have hperm := (List.getElem_cons_eraseIdx_perm hlt).mem_iff.mpr hmem
  rcases List.mem_cons.mp hperm with rfl | h
  · exact absurd rfl hne
  · exact h

theorem InLoop.skip (h : InLoop pos blocked τ) (he : τ.queue[pos]? = some e)
    (hb : sigsetHas blocked e.sig = true) : InLoop (pos + 1) blocked τ := by
  obtain ⟨hlt, rfl⟩ := List.getElem?_eq_some_iff.mp he
  refine ⟨h.sound, h.kept, ⟨hlt, ?_⟩, h.traced⟩
  intro e' he'
  rw [List.take_succ_eq_append_getElem hlt] at he'
  rcases List.mem_append.mp he' with he' | he'
  · exact h.passed.2 e' he'
  · exact List.mem_singleton.mp he' ▸ hb

theorem InLoop.finish (h : InLoop pos blocked τ) (he : τ.queue[pos]? = none) : Agree τ := by
  have hlen := List.getElem?_eq_none_iff.mp he
  intro sig
  constructor
  · exact h.sound sig
  rintro ⟨e, hmem, rfl⟩
  apply h.kept e hmem
  apply h.passed.2
  rwa [List.take_of_length_le hlen]

theorem Passed.eraseIdx (h : Passed pos blocked q)
    (he : q[pos]? = some e) : Passed pos blocked (q.eraseIdx pos) := by
  obtain ⟨hlt, -⟩ := List.getElem?_eq_some_iff.mp he
  refine ⟨?_, ?_⟩
  · rw [List.length_eraseIdx_of_lt hlt]
    omega
  · rw [List.take_eraseIdx_eq_take_of_le _ _ _ le_rfl]
    exact h.2

theorem InLoop.take (h : InLoop pos blocked τ) (he : τ.queue[pos]? = some e)
    (hb : ¬ sigsetHas blocked e.sig = true) (ht : ¬ τ.traced = true) :
    InLoop pos blocked (τ.take pos e.sig) where
  sound := by
    intro sig hp
    simp only [Task.take, sigsetHas_del, Bool.and_eq_true, Bool.not_eq_true',
      decide_eq_false_iff_not] at hp
    obtain ⟨e', hmem, rfl⟩ := h.sound sig hp.1
    exact ⟨e', mem_eraseIdx_of_ne he hmem (fun heq => hp.2 (heq ▸ rfl)), rfl⟩
  kept := by
    intro e' hmem hb'
    have hp := h.kept e' (List.mem_of_mem_eraseIdx hmem) hb'
    have hne : e.sig ≠ e'.sig := fun heq => hb (heq ▸ hb')
    simp [Task.take, hp, hne]
  passed := h.passed.eraseIdx he
  traced := fun h => absurd h ht

theorem Agree.take (h : Agree τ) (he : τ.queue[pos]? = some e)
    (honly : ∀ e' ∈ τ.queue.eraseIdx pos, e'.sig ≠ e.sig) : Agree (τ.take pos e.sig) := by
  intro sig
  simp only [Task.take, sigsetHas_del, Bool.and_eq_true, Bool.not_eq_true', decide_eq_false_iff_not]
  constructor
  · rintro ⟨hp, hne⟩
    obtain ⟨e', hmem, rfl⟩ := (h sig).mp hp
    exact ⟨e', mem_eraseIdx_of_ne he hmem (fun heq => hne (heq ▸ rfl)), rfl⟩
  rintro ⟨e', hmem, rfl⟩
  exact ⟨(h e'.sig).mpr ⟨e', List.mem_of_mem_eraseIdx hmem, rfl⟩, fun heq => honly e' hmem heq.symm⟩

/-! ## The other consumers -/

theorem matching_split (n : Nat) :
    e ∈ q ↔ e ∈ (matching mask q).take n ∨ e ∈ (matching mask q).drop n ∨
      e ∈ q.filter fun e => !sigsetHas mask e.sig := by
  rw [← or_assoc, ← List.mem_append, List.take_append_drop, matching, List.mem_filter,
    List.mem_filter]
  cases sigsetHas mask e.sig <;> simp

theorem mem_readLeft {r : List Sigqueue × Task} (h : ReadSpec mask n τ r) :
    e ∈ r.2.queue ↔ e ∈ (matching mask τ.queue).drop n ∨
      e ∈ τ.queue.filter fun e => !sigsetHas mask e.sig := by
  rw [← h.left, ← h.others, matching, List.mem_filter, List.mem_filter]
  cases sigsetHas mask e.sig <;> simp

theorem Agree.read {r : List Sigqueue × Task} (h : Agree τ) (hr : ReadSpec mask n τ r)
    (hsplit : ∀ e ∈ (matching mask τ.queue).take n, ∀ e' ∈ (matching mask τ.queue).drop n,
      e.sig ≠ e'.sig) : Agree r.2 := by
  intro sig
  rw [hr.pending, h sig, hr.taken]
  constructor
  · rintro ⟨⟨e, hmem, rfl⟩, hnot⟩
    refine ⟨e, (mem_readLeft hr).mpr ?_, rfl⟩
    rcases (matching_split n).mp hmem with htaken | hleft
    · exact absurd rfl (hnot e htaken)
    · exact hleft
  rintro ⟨e, hmem, rfl⟩
  have hleft := (mem_readLeft hr).mp hmem
  refine ⟨⟨e, (matching_split n).mpr (Or.inr hleft), rfl⟩, ?_⟩
  intro e' htaken
  rcases hleft with hdrop | hother
  · exact hsplit e' htaken e hdrop
  · -- what was taken is in the mask, and this entry is not
    have hin := (List.mem_filter.mp (List.mem_of_mem_take htaken)).2
    have hout := (List.mem_filter.mp hother).2
    intro heq
    rw [heq] at hin
    simp [hin] at hout

theorem mem_eraseP_of_sig {e' : Sigqueue}
    (hfind : q.find? (fun e => sigsetHas mask e.sig) = some e) (hmem : e' ∈ q)
    (hne : e'.sig ≠ e.sig) : e' ∈ q.eraseP fun e => sigsetHas mask e.sig := by
  induction q with
  | nil => cases hmem
  | cons a q ih =>
    by_cases ha : sigsetHas mask a.sig
    · have hae : a = e := by simpa [ha] using hfind
      rcases List.mem_cons.mp hmem with rfl | hmem
      · exact absurd (congrArg Sigqueue.sig hae) hne
      · simpa [ha] using hmem
    rw [List.eraseP_cons_of_neg (by simpa using ha)]
    rcases List.mem_cons.mp hmem with rfl | hmem
    · exact List.mem_cons_self
    · exact List.mem_cons_of_mem _ (ih (by simpa [ha] using hfind) hmem)

theorem Agree.timedwait {set : SigSet} (h : Agree τ)
    (hfind : τ.queue.find? (fun e => sigsetHas set e.sig) = some e)
    (hother : ∃ e' ∈ τ.queue.eraseP fun e => sigsetHas set e.sig, e'.sig = e.sig) :
    Agree { τ with queue := τ.queue.eraseP fun e => sigsetHas set e.sig } := by
  intro sig
  rw [show sigsetHas _ sig = sigsetHas τ.pending sig from rfl, h sig]
  constructor
  · rintro ⟨e', hmem, rfl⟩
    by_cases heq : e'.sig = e.sig
    · obtain ⟨e₂, hmem₂, hs₂⟩ := hother
      exact ⟨e₂, hmem₂, hs₂.trans heq.symm⟩
    · exact ⟨e', mem_eraseP_of_sig hfind hmem heq, rfl⟩
  · rintro ⟨e', hmem, hs⟩
    exact ⟨e', List.mem_of_mem_eraseP hmem, hs⟩

/-! ## One step -/

/-- The steps after which the bits and the entries still agree. -/
def QueueOk (s : State) : Event → Prop
  -- a traced task stops for the only entry of its signal
  | .receiveNext t _ => ∀ τ pos blocked e, s.task t = some τ →
      τ.phase = .receiving pos blocked → τ.queue[pos]? = some e →
      sigsetHas blocked e.sig = false → τ.traced = true → e.sig ≠ sigkill →
      ∀ e' ∈ τ.queue.eraseIdx pos, e'.sig ≠ e.sig
  -- no signal has entries both in the buffer and beyond it
  | .signalfdRead t mask bufsize => ∀ τ, s.task t = some τ →
      ∀ e ∈ (matching mask τ.queue).take (bufsize / 128),
      ∀ e' ∈ (matching mask τ.queue).drop (bufsize / 128), e.sig ≠ e'.sig
  -- the entry taken is not the last one of its signal
  | .sigtimedwaitEnd t err => ∀ τ set e, s.task t = some τ → τ.phase = .timedwait set →
      err ≠ .etimedout → τ.queue.find? (fun e => sigsetHas set e.sig) = some e →
      ∃ e' ∈ τ.queue.eraseP fun e => sigsetHas set e.sig, e'.sig = e.sig
  | _ => True

theorem taskInv_deliver (hs : Tasks TaskInv s) (hτ : TaskInv τ) :
    Tasks TaskInv (deliverSignalUnlocked t τ sig s) := by
  unfold deliverSignalUnlocked
  split
  case h_1 τ' h =>
    obtain ⟨c, rfl⟩ := nativeCancelRequestLocked_some h
    exact hs.setTask (hτ.frame _ _ _ _ _ _ c)
  case h_2 =>
    split
    · exact hs
    · refine Tasks.frame (hs.setTask (t := t) ?_) rfl
      exact hτ.enqueue sig s.fresh

theorem taskInv_sendRequest (hs : Tasks TaskInv s) : Tasks TaskInv (sendRequest t sig s) := by
  unfold sendRequest
  split
  case h_2 => exact hs
  case h_1 =>
    split
    · exact hs
    · apply locked_of hs
      intro τ hτ
      split
      case h_1 τ' h =>
        obtain ⟨c, rfl⟩ := nativeCancelRequestLocked_some h
        exact hs.setTask ((hs t τ hτ).frame _ _ _ _ _ _ c)
      case h_2 => exact hs

theorem taskInv_receiveSignals (hs : Tasks TaskInv s) : Tasks TaskInv (receiveSignals t s) := by
  apply call_of hs
  intro τ hτ hrun
  refine Tasks.setLock (hs.setTask ?_) _ _
  apply Agree.inLoop
  · exact (hs t τ hτ).agree hrun
  · exact ⟨Nat.zero_le _, fun e he => absurd he (List.not_mem_nil)⟩

theorem taskInv_receiveSignal (hs : Tasks TaskInv s)
    (hτ : TaskInv τ) : Tasks TaskInv (receiveSignal t τ sig frameOk s) := by
  unfold receiveSignal
  split
  case h_1 => exact hs.setTask hτ
  case h_2 => exact hs.setTask hτ
  case h_3 => exact hs.leave trivial
  case h_4 =>
    dsimp only
    split
    · split
      · refine Tasks.frame (hs.setTask (t := t) ?_) rfl
        exact hτ.frame _ _ _ _ _ _ _
      · exact hs.setTask (hτ.frame _ _ _ _ _ _ _)
    · exact hs.leave trivial

theorem taskInv_receiveNext (hs : Tasks TaskInv s)
    (hok : QueueOk s (.receiveNext t frameOk)) : Tasks TaskInv (receiveNext t frameOk s) := by
  unfold receiveNext
  split
  case h_2 => exact hs
  case h_1 τ hτ =>
    split
    case h_2 => exact hs
    case h_1 pos blocked hphase =>
      have hloop : InLoop pos blocked τ := by
        simpa only [TaskInv, hphase] using hs t τ hτ
      split
      case h_1 he =>
        refine Tasks.setLock (hs.setTask ?_) _ _
        exact hloop.finish he
      case h_2 e he =>
        split
        case isTrue hb =>
          refine hs.setTask ?_
          obtain ⟨h₁, h₂, h₃, h₄⟩ := hloop.skip he hb
          exact ⟨h₁, h₂, h₃, h₄⟩
        case isFalse hb =>
          dsimp only
          split
          case isTrue hstop =>
            simp only [Bool.and_eq_true, decide_eq_true_eq] at hstop
            have hagree : Agree (τ.take pos e.sig) :=
              (hloop.traced hstop.1).take he
                (hok τ pos blocked e hτ hphase he (by simpa using hb) hstop.1 hstop.2)
            refine Tasks.setLock ((hs.consume _).setTask ?_) _ _
            refine ⟨hagree, hstop.1, ?_⟩
            intro p hp
            split at hp
            · cases hp
              exact hloop.passed.eraseIdx he
            · cases hp
          case isFalse hstop =>
            by_cases ht : τ.traced = true
            · -- a traced task goes on only with `SIGKILL`, and that ends it
              have hk : e.sig = sigkill := by
                simpa [Task.take, ht] using hstop
              rw [hk]
              exact (hs.consume _).leave trivial
            · apply taskInv_receiveSignal (hs.consume _)
              have := hloop.take he hb ht
              simpa only [TaskInv, Task.take, hphase] using this

theorem taskInv_fork {child : TaskId} {cloneSighand : Bool} (hs : Tasks TaskInv s) :
    Tasks TaskInv (fork t child cloneSighand s) := by
  unfold fork
  split
  case h_2 => exact hs
  case h_1 τ hτ _ =>
    split
    case isFalse => exact hs
    case isTrue hrun =>
      have hm : ∀ h, TaskInv (forkTask τ h) := by
        intro h
        apply taskInv_of_running
        · intro sig
          simp [forkTask]
        · exact hrun
      split
      · exact hs.setTask (hm _)
      · refine Tasks.frame (hs.setTask (t := child) ?_) rfl
        exact hm _

theorem taskInv_signalfdRead {bufsize : Nat} (hs : Tasks TaskInv s)
    (hok : QueueOk s (.signalfdRead t mask bufsize)) :
    Tasks TaskInv (signalfdRead t mask bufsize s) := by
  apply call_of hs
  intro τ hτ hrun
  split
  · exact hs
  have hr := signalfdReadLoop_spec mask (bufsize / 128) τ
  have hagree := ((hs t τ hτ).agree hrun).read hr (hok τ hτ)
  refine (hs.consume _).setTask ?_
  exact taskInv_of_running hagree (hr.phase.trans hrun)

theorem taskInv_sigtimedwaitEnd {err : WaitErr} (hs : Tasks TaskInv s)
    (hok : QueueOk s (.sigtimedwaitEnd t err)) : Tasks TaskInv (sigtimedwaitEnd t err s) := by
  apply locked_of hs
  intro τ hτ
  split
  case h_2 => exact hs
  case h_1 set hphase =>
    have hagree : Agree τ := by
      simpa only [TaskInv, hphase] using hs t τ hτ
    split
    case isFalse => exact hs
    case isTrue =>
      dsimp only
      split
      · exact hs.setTask hagree
      case isFalse herr =>
        split
        case h_1 e he =>
          refine (hs.consume _).setTask ?_
          exact hagree.timedwait he (hok τ set e hτ hphase herr he)
        case h_2 => exact hs.setTask hagree

theorem taskInv_step {e : Event} (hs : Tasks TaskInv s) (hok : QueueOk s e) :
    Tasks TaskInv (step s e) := by
  cases e with
  | sendRequest t sig => exact taskInv_sendRequest hs
  | sendDeliver t sig =>
    apply locked_of hs
    intro τ hτ
    split
    · exact hs
    split
    · exact hs
    · exact taskInv_deliver hs (hs t τ hτ)
  | deliverSignal t sig =>
    apply locked_of hs
    intro τ hτ
    exact taskInv_deliver hs (hs t τ hτ)
  | trySelfSignal t sig =>
    apply call_of hs
    intro τ hτ _
    split
    · exact taskInv_deliver hs (hs t τ hτ)
    · exact hs
  | receiveSignals t => exact taskInv_receiveSignals hs
  | receiveNext t frameOk => exact taskInv_receiveNext hs hok
  | ptraceCont t =>
    apply locked_of hs
    intro τ hτ
    split
    case h_1 pos blocked hphase =>
      obtain ⟨hagree, -, hpassed⟩ := (hs t τ hτ).stopped hphase
      refine Tasks.setLock (hs.setTask ?_) _ _
      obtain ⟨h₁, h₂, h₃, h₄⟩ := hagree.inLoop (hpassed pos rfl)
      exact ⟨h₁, h₂, h₃, h₄⟩
    case h_2 hphase =>
      obtain ⟨hagree, -⟩ := (hs t τ hτ).stopped hphase
      exact hs.setTask hagree
    case h_3 => exact hs
  | ptraceKilled t =>
    apply locked_of hs
    intro τ hτ
    split
    · split
      · exact hs.setTask trivial
      · exact hs
    · exact hs
  | signalfdRead t mask bufsize => exact taskInv_signalfdRead hs hok
  | sigtimedwait t set =>
    apply call_of hs
    intro τ hτ hrun
    exact hs.setTask ((hs t τ hτ).agree hrun)
  | sigtimedwaitEnd t err => exact taskInv_sigtimedwaitEnd hs hok
  | sigprocmask t how set =>
    apply call_of hs
    intro τ hτ _
    exact hs.setTask ((hs t τ hτ).frame _ _ _ _ _ _ _)
  | sigmaskSetTemp t mask =>
    apply call_of hs
    intro τ hτ _
    exact hs.setTask ((hs t τ hτ).frame _ _ _ _ _ _ _)
  | sigreturn t mask =>
    apply call_of hs
    intro τ hτ _
    exact hs.setTask ((hs t τ hτ).frame _ _ _ _ _ _ _)
  | sigaction t sig action =>
    apply call_of hs
    intro τ hτ _
    split
    · exact hs.frame rfl
    · exact hs
  | nativeCancelBegin t =>
    apply call_of hs
    intro τ hτ _
    split
    · exact hs.setTask ((hs t τ hτ).frame _ _ _ _ _ _ _)
    · exact hs
  | nativeCancelFinish t =>
    apply call_of hs
    intro τ hτ _
    exact hs.setTask ((hs t τ hτ).frame _ _ _ _ _ _ _)
  | setNativeProxy t on =>
    apply call_of hs
    intro τ hτ _
    exact hs.setTask ((hs t τ hτ).frame _ _ _ _ _ _ _)
  | setTraced t =>
    apply call_of hs
    intro τ hτ hrun
    exact hs.setTask (taskInv_of_running (τ := { τ with traced := true })
      ((hs t τ hτ).agree hrun) hrun)
  | fork t child cloneSighand => exact taskInv_fork hs
  | exec t =>
    apply call_of hs
    intro τ hτ _
    exact hs.frame rfl
  | exitBegin t =>
    simp only [step, exitBegin]
    split
    case h_2 => exact hs
    case h_1 τ hτ =>
      split
      · exact hs.setTask trivial
      · exact hs
  | exitEnd t => exact hs.exitEnd

/-! ## The ledger -/

/-- How often the entry `n` is in the queue of a task. -/
def queuedAt (s : State) (t : TaskId) (n : Nat) : Nat :=
  match s.task t with
  | some τ => (τ.queue.map Sigqueue.tag).count n
  | none => 0

/-- An entry that was made is in the queue of its task, or was taken, or was freed at exit: one
of the three, and once. -/
def Ledger (s : State) : Prop :=
  ∀ n, (∀ t, t ≠ s.home n → queuedAt s t n = 0) ∧
    queuedAt s (s.home n) n + s.consumed.count n + s.discarded.count n =
      if n < s.fresh then 1 else 0

theorem queuedAt_of_some (h : s.task t = some τ) :
    queuedAt s t n = (τ.queue.map Sigqueue.tag).count n := by
  rw [queuedAt, h]

theorem queuedAt_setTask {u : TaskId} :
    queuedAt (s.setTask t τ) u n =
      if u = t then (τ.queue.map Sigqueue.tag).count n else queuedAt s u n := by
  unfold queuedAt State.setTask
  by_cases h : u = t
  · subst h
    simp
  · simp [h]

theorem Ledger.take {l : List Sigqueue} {τ' : Task} (hs : Ledger s) (hτ : s.task t = some τ)
    (hperm : (l ++ τ'.queue).Perm τ.queue) : Ledger ((s.consume l).setTask t τ') := by
  have hcount : ∀ n, (l.map Sigqueue.tag).count n + (τ'.queue.map Sigqueue.tag).count n =
      queuedAt s t n := by
    intro n
    rw [queuedAt_of_some hτ, ← List.count_append, ← List.map_append]
    exact (hperm.map _).count_eq n
  intro n
  obtain ⟨hother, hsum⟩ := hs n
  constructor
  · intro u hu
    rw [queuedAt_setTask]
    split
    case isTrue h =>
      have := hcount n
      rw [← h, hother u hu] at this
      omega
    case isFalse => exact hother u hu
  rw [queuedAt_setTask]
  show (if s.home n = t then _ else queuedAt s (s.home n) n) +
    (s.consumed ++ l.map Sigqueue.tag).count n + s.discarded.count n = _
  rw [List.count_append]
  split
  case isTrue h =>
    have := hcount n
    rw [h] at hsum
    show _ = if n < s.fresh then 1 else 0
    omega
  case isFalse h =>
    have := hcount n
    rw [hother t (Ne.symm h)] at this
    show _ = if n < s.fresh then 1 else 0
    omega

theorem Ledger.keep {τ' : Task} (hs : Ledger s) (hτ : s.task t = some τ)
    (hq : τ'.queue = τ.queue) : Ledger (s.setTask t τ') := by
  have hperm : ([] ++ τ'.queue).Perm τ.queue := by rw [List.nil_append, hq]
  have h := hs.take hτ hperm
  rwa [show s.consume [] = s by simp [State.consume]] at h

theorem Ledger.mint {s' : State} (hs : Ledger s)
    (hq : ∀ u n, queuedAt s' u n = queuedAt s u n + if u = t ∧ n = s.fresh then 1 else 0)
    (hfresh : s'.fresh = s.fresh + 1) (hhome : s'.home = Function.update s.home s.fresh t)
    (hcons : s'.consumed = s.consumed) (hdisc : s'.discarded = s.discarded) : Ledger s' := by
  intro n
  obtain ⟨hother, hsum⟩ := hs n
  rw [hfresh, hhome, hcons, hdisc]
  by_cases hn : n = s.fresh
  · subst hn
    rw [if_neg (lt_irrefl _)] at hsum
    -- nothing carries the new tag yet
    have hzero : ∀ u, queuedAt s u s.fresh = 0 := by
      intro u
      by_cases hu : u = s.home s.fresh
      · rw [hu]
        omega
      · exact hother u hu
    rw [Function.update_self]
    constructor
    · intro u hu
      rw [hq, hzero u, if_neg (fun h => hu h.1)]
    · rw [hq, hzero t, if_pos ⟨rfl, rfl⟩, if_pos (Nat.lt_succ_self _)]
      omega
  rw [Function.update_of_ne hn]
  constructor
  · intro u hu
    rw [hq, hother u hu, if_neg (fun h => hn h.2)]
  rw [hq, if_neg (fun h => hn h.2), Nat.add_zero, hsum]
  by_cases hlt : n < s.fresh
  · rw [if_pos hlt, if_pos (Nat.lt_succ_of_lt hlt)]
  · rw [if_neg hlt, if_neg (by omega)]

theorem Ledger.enqueue {pending : SigSet} (hs : Ledger s) (hτ : s.task t = some τ) :
    Ledger { s.setTask t { τ with pending, queue := τ.queue ++ [⟨sig, s.fresh⟩] } with
      fresh := s.fresh + 1
      home := Function.update s.home s.fresh t } := by
  refine hs.mint (t := t) ?_ rfl rfl rfl rfl
  intro u n
  show queuedAt (s.setTask t { τ with pending, queue := τ.queue ++ [⟨sig, s.fresh⟩] }) u n = _
  rw [queuedAt_setTask]
  by_cases hu : u = t
  · subst hu
    rw [queuedAt_of_some hτ]
    by_cases hn : n = s.fresh
    · simp [hn]
    · simp [hn, Ne.symm hn]
  · simp [hu]

theorem ledger_deliver (hs : Ledger s) (hτ : s.task t = some τ) :
    Ledger (deliverSignalUnlocked t τ sig s) := by
  unfold deliverSignalUnlocked
  split
  case h_1 τ' h =>
    obtain ⟨c, rfl⟩ := nativeCancelRequestLocked_some h
    exact hs.keep hτ rfl
  case h_2 =>
    split
    · exact hs
    · exact hs.enqueue hτ

theorem Ledger.exitEnd (hs : Ledger s) : Ledger (exitEnd t s) := by
  unfold Signal.exitEnd
  split
  case h_2 => exact hs
  case h_1 τ hτ =>
    split
    case isFalse => exact hs
    case isTrue =>
      set s' : State := { s with
        task := Function.update s.task t none
        discarded := s.discarded ++ τ.queue.map Sigqueue.tag } with hs'
      have hq : ∀ u n, queuedAt s' u n = if u = t then 0 else queuedAt s u n := by
        intro u n
        unfold queuedAt
        by_cases hu : u = t
        · subst hu
          simp [hs']
        · simp [hs', hu]
      intro n
      obtain ⟨hother, hsum⟩ := hs n
      have hcount := queuedAt_of_some (n := n) hτ
      constructor
      · intro u hu
        rw [hq]
        split
        · rfl
        · exact hother u hu
      rw [hq]
      show _ + s.consumed.count n + (s.discarded ++ τ.queue.map Sigqueue.tag).count n =
        if n < s.fresh then 1 else 0
      rw [List.count_append, ← hcount]
      by_cases hh : s.home n = t
      · rw [if_pos hh]
        rw [hh] at hsum
        omega
      rw [show (if s.home n = t then 0 else queuedAt s (s.home n) n) =
        queuedAt s (s.home n) n from if_neg hh, hother t (Ne.symm hh)]
      omega

theorem ledger_receiveSignal (hs : ∀ τ' : Task, τ'.queue = τ.queue → Ledger (s.setTask t τ')) :
    Ledger (receiveSignal t τ sig frameOk s) := by
  unfold receiveSignal
  split
  case h_1 => exact hs τ rfl
  case h_2 => exact hs τ rfl
  case h_3 => exact hs { τ with phase := .exiting } rfl
  case h_4 =>
    dsimp only
    split
    · split
      · exact hs { τ with blocked := _ } rfl
      · exact hs { τ with blocked := _ } rfl
    · exact hs { τ with blocked := _, phase := .exiting } rfl

theorem ledger_receiveNext (hs : Ledger s) : Ledger (receiveNext t frameOk s) := by
  unfold receiveNext
  split
  case h_2 => exact hs
  case h_1 τ hτ =>
    split
    case h_2 => exact hs
    case h_1 pos blocked _ =>
      split
      case h_1 => exact Ledger.keep hs hτ rfl
      case h_2 e he =>
        obtain ⟨hlt, rfl⟩ := List.getElem?_eq_some_iff.mp he
        have htake : ∀ τ' : Task, τ'.queue = τ.queue.eraseIdx pos →
            Ledger ((s.consume [τ.queue[pos]]).setTask t τ') := by
          intro τ' hq
          apply hs.take hτ
          rw [hq]
          exact List.getElem_cons_eraseIdx_perm hlt
        split
        · exact hs.keep hτ rfl
        dsimp only
        split
        · exact htake _ rfl
        · exact ledger_receiveSignal fun τ' hq => htake τ' hq

theorem ledger_fork {child : TaskId} {cloneSighand : Bool} (hs : Ledger s) :
    Ledger (fork t child cloneSighand s) := by
  unfold fork
  split
  case h_2 => exact hs
  case h_1 τ _ hchild =>
    have hq : ∀ h u n, queuedAt (s.setTask child (forkTask τ h)) u n = queuedAt s u n := by
      intro h u n
      rw [queuedAt_setTask]
      split
      case isTrue hu =>
        rw [hu, queuedAt, hchild]
        rfl
      case isFalse => rfl
    have hnew : ∀ h, Ledger (s.setTask child (forkTask τ h)) := by
      intro h n
      simp only [hq]
      exact hs n
    split
    · split
      · exact hnew _
      · exact hnew _
    · exact hs

theorem perm_eraseP (h : q.find? (fun e => sigsetHas mask e.sig) = some e) :
    (e :: q.eraseP fun e => sigsetHas mask e.sig).Perm q := by
  induction q with
  | nil => cases h
  | cons a q ih =>
    by_cases ha : sigsetHas mask a.sig
    · obtain rfl : a = e := by simpa [ha] using h
      simp [ha]
    · rw [List.eraseP_cons_of_neg (by simpa using ha)]
      exact (List.Perm.swap a e _).trans ((ih (by simpa [ha] using h)).cons a)

theorem perm_signalfdReadLoop (mask : SigSet) (n : Nat) (τ : Task) :
    ((signalfdReadLoop mask n τ).1 ++ (signalfdReadLoop mask n τ).2.queue).Perm τ.queue := by
  induction n generalizing τ with
  | zero => exact List.Perm.refl _
  | succ n ih =>
    unfold signalfdReadLoop signalfdDequeueLocked
    cases hf : τ.queue.find? (fun e => sigsetHas mask e.sig) with
    | none => exact List.Perm.refl _
    | some e => exact ((ih _).cons e).trans (perm_eraseP hf)

theorem ledger_step {e : Event} (hs : Ledger s) : Ledger (step s e) := by
  cases e with
  | sendRequest t sig =>
    simp only [step, sendRequest]
    split
    case h_2 => exact hs
    case h_1 =>
      split
      · exact hs
      · apply locked_of hs
        intro τ hτ
        split
        case h_1 τ' h =>
          obtain ⟨c, rfl⟩ := nativeCancelRequestLocked_some h
          exact hs.keep hτ rfl
        case h_2 => exact hs
  | sendDeliver t sig =>
    apply locked_of hs
    intro τ hτ
    split
    · exact hs
    split
    · exact hs
    · exact ledger_deliver hs hτ
  | deliverSignal t sig =>
    apply locked_of hs
    intro τ hτ
    exact ledger_deliver hs hτ
  | trySelfSignal t sig =>
    apply call_of hs
    intro τ hτ _
    split
    · exact ledger_deliver hs hτ
    · exact hs
  | receiveSignals t =>
    apply call_of hs
    intro τ hτ _
    exact Ledger.keep hs hτ rfl
  | receiveNext t frameOk => exact ledger_receiveNext hs
  | ptraceCont t =>
    apply locked_of hs
    intro τ hτ
    split
    · exact Ledger.keep hs hτ rfl
    · exact hs.keep hτ rfl
    · exact hs
  | ptraceKilled t =>
    apply locked_of hs
    intro τ hτ
    split
    · split
      · exact hs.keep hτ rfl
      · exact hs
    · exact hs
  | signalfdRead t mask bufsize =>
    apply call_of hs
    intro τ hτ _
    split
    · exact hs
    · exact hs.take hτ (perm_signalfdReadLoop mask _ τ)
  | sigtimedwait t set =>
    apply call_of hs
    intro τ hτ _
    exact hs.keep hτ rfl
  | sigtimedwaitEnd t err =>
    apply locked_of hs
    intro τ hτ
    split
    case h_2 => exact hs
    case h_1 =>
      split
      · dsimp only
        split
        · exact hs.keep hτ rfl
        split
        case h_1 e he => exact hs.take hτ (perm_eraseP he)
        case h_2 => exact hs.keep hτ rfl
      · exact hs
  | sigprocmask t how set =>
    apply call_of hs
    intro τ hτ _
    exact hs.keep hτ rfl
  | sigmaskSetTemp t mask =>
    apply call_of hs
    intro τ hτ _
    exact hs.keep hτ rfl
  | sigreturn t mask =>
    apply call_of hs
    intro τ hτ _
    exact hs.keep hτ rfl
  | sigaction t sig action =>
    apply call_of hs
    intro τ hτ _
    split
    · exact hs
    · exact hs
  | nativeCancelBegin t =>
    apply call_of hs
    intro τ hτ _
    split
    · exact hs.keep hτ rfl
    · exact hs
  | nativeCancelFinish t =>
    apply call_of hs
    intro τ hτ _
    exact hs.keep hτ rfl
  | setNativeProxy t on =>
    apply call_of hs
    intro τ hτ _
    exact hs.keep hτ rfl
  | setTraced t =>
    apply call_of hs
    intro τ hτ _
    exact hs.keep hτ rfl
  | fork t child cloneSighand => exact ledger_fork hs
  | exec t =>
    apply call_of hs
    intro τ hτ _
    exact hs
  | exitBegin t =>
    simp only [step, exitBegin]
    split
    case h_2 => exact hs
    case h_1 τ hτ =>
      split
      · exact hs.keep hτ rfl
      · exact hs
  | exitEnd t => exact hs.exitEnd

/-! ## Every run -/

/-- Not inside the loop of `receive_signals`, which holds the lock, and not exiting. -/
def Task.settled (τ : Task) : Prop :=
  τ.phase ≠ .exiting ∧ ∀ pos blocked, τ.phase ≠ .receiving pos blocked

theorem TaskInv.settled (h : TaskInv τ) (hset : τ.settled) : Agree τ := by
  cases hp : τ.phase with
  | running => exact h.agree hp
  | timedwait set => simpa only [TaskInv, hp] using h
  | receiving pos blocked => exact absurd hp (hset.2 pos blocked)
  | stopped tmp blocked => exact (h.stopped hp).1
  | exiting => exact absurd hp hset.1

theorem TaskInv.sound (h : TaskInv τ) (hex : τ.phase ≠ .exiting)
    (hp : sigsetHas τ.pending sig = true) : ∃ e ∈ τ.queue, e.sig = sig := by
  cases hph : τ.phase with
  | running => exact (h.agree hph sig).mp hp
  | timedwait set =>
    have hagree : Agree τ := by simpa only [TaskInv, hph] using h
    exact (hagree sig).mp hp
  | receiving pos blocked =>
    have hloop : InLoop pos blocked τ := by simpa only [TaskInv, hph] using h
    exact hloop.sound sig hp
  | stopped tmp blocked => exact ((h.stopped hph).1 sig).mp hp
  | exiting => exact absurd hph hex

/-- A send to a task, past the native paths and not ignored, makes an entry, unless it is for a
standard signal that has one. -/
def NotDropped (s : State) : Prop :=
  ∀ t τ sig, s.task t = some τ → τ.phase ≠ .exiting → s.lock τ.sighand = none →
    τ.nativeProxy = false → signalAction (s.action τ.sighand) sig ≠ .ignore →
    nativeCancelRequestLocked (s.action τ.sighand) τ sig = none →
    ∃ τ', (step s (.sendDeliver t sig)).task t = some τ' ∧ (τ'.queue = τ.queue ++ [⟨sig, s.fresh⟩] ∨
        sig.num < sigrtmin ∧ τ' = τ ∧ ∃ e ∈ τ.queue, e.sig = sig)

theorem notDropped_of_inv (hs : Tasks TaskInv s) : NotDropped s := by
  intro t τ sig hτ hex hlock hproxy hact hcancel
  have hstep : step s (.sendDeliver t sig) = deliverSignalUnlocked t τ sig s := by
    simp [step, sendDeliver, State.locked, hτ, hlock, hproxy, hact]
  rw [hstep]
  unfold deliverSignalUnlocked
  rw [hcancel]
  dsimp only
  split
  case isTrue h =>
    simp only [Bool.and_eq_true, decide_eq_true_eq] at h
    exact ⟨τ, hτ, Or.inr ⟨h.1, rfl, (hs t τ hτ).sound hex h.2⟩⟩
  case isFalse =>
    refine ⟨_, Function.update_self .., Or.inl rfl⟩

theorem taskInv_init : Tasks TaskInv init := by
  intro t τ hτ
  by_cases ht : t = 1
  · subst ht
    rw [show init.task 1 = some initTask from rfl] at hτ
    obtain rfl := Option.some.inj hτ
    intro sig
    simp [initTask]
  · simp [init, ht] at hτ

theorem ledger_init : Ledger init := by
  have hzero : ∀ t n, queuedAt init t n = 0 := by
    intro t n
    by_cases ht : t = 1
    · subst ht
      rfl
    · simp [queuedAt, init, ht]
  intro n
  refine ⟨fun t _ => hzero t n, ?_⟩
  rw [hzero]
  exact (if_neg (Nat.not_lt_zero n)).symm

/-- **The queue and the pending set.** In every run of steps that `QueueOk` allows: outside the
loop of `receive_signals`, a signal's bit is set when the queue holds an entry for it; a signal
that is sent gets an entry, or has one; and every entry is taken once. -/
theorem signalQueue_run (ops : List Event) (hok : AllSteps step QueueOk init ops) :
    (∀ t τ, (run step init ops).task t = some τ → τ.settled → ∀ sig,
      sigsetHas τ.pending sig = true ↔ ∃ e ∈ τ.queue, e.sig = sig) ∧
    NotDropped (run step init ops) ∧ Ledger (run step init ops) := by
  have hinv : Tasks TaskInv (run step init ops) :=
    run_invariant (fun _ _ hs he => taskInv_step hs he) taskInv_init hok
  refine ⟨fun t τ hτ hset => (hinv t τ hτ).settled hset, notDropped_of_inv hinv, ?_⟩
  exact run_invariant_all (fun _ _ hs => ledger_step hs) ledger_init

/-- A signal is sent once or twice while it is blocked, and waited for. -/
def timedwaitRun (sig : Sig) (twice : Bool) : List Event :=
  [.sigprocmask 1 .block (sigMask sig), .sendDeliver 1 sig] ++
    (if twice then [.sendDeliver 1 sig] else []) ++
    [.sigtimedwait 1 (sigMask sig), .sigtimedwaitEnd 1 .none]

def sigrt8 : Sig := ⟨40, by decide, by decide⟩

/-- With two entries queued, the bit that `sigtimedwait` leaves is right. -/
theorem signalQueue_run_twice : ∃ τ, (run step init (timedwaitRun sigrt8 true)).task 1 = some τ ∧
      (sigsetHas τ.pending sigrt8 = true ↔ ∃ e ∈ τ.queue, e.sig = sigrt8) ∧ τ.queue.length = 1 := by
  have hok : AllSteps step QueueOk init (timedwaitRun sigrt8 true) := by
    refine ⟨trivial, trivial, trivial, trivial, ?_, trivial⟩
    intro τ set e hτ hphase _ he
    obtain rfl := Option.some.inj hτ
    obtain rfl := Phase.timedwait.inj hphase
    obtain rfl := Option.some.inj he
    decide
  have hset : Task.settled { initTask with
      blocked := sigMask sigrt8, pending := sigMask sigrt8, queue := [⟨sigrt8, 1⟩] } :=
    ⟨by decide, fun _ _ h => by cases h⟩
  have hrun : (run step init (timedwaitRun sigrt8 true)).task 1 = some { initTask with
      blocked := sigMask sigrt8, pending := sigMask sigrt8, queue := [⟨sigrt8, 1⟩] } := by
    decide +kernel
  exact ⟨_, hrun, (signalQueue_run _ hok).1 1 _ hrun hset sigrt8, rfl⟩

/-- The entry is gone and the bit stays, so the next `SIGUSR1` is dropped. -/
theorem signalQueue_timedwait :
    ¬ ∀ ops t τ, (run step init ops).task t = some τ → τ.settled → ∀ sig,
      (sigsetHas τ.pending sig = true ↔ ∃ e ∈ τ.queue, e.sig = sig) := by
  intro h
  have hset : Task.settled
      { initTask with blocked := sigMask sigusr1, pending := sigMask sigusr1 } :=
    ⟨by decide, fun _ _ h => by cases h⟩
  have hbad := h (timedwaitRun sigusr1 false) 1 _ (by decide +kernel) hset sigusr1
  revert hbad
  decide

end IosLinuxkit.Signal
