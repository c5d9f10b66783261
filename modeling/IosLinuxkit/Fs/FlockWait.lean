import IosLinuxkit.Fs.Flock

/-!
# Waiting for a lock

The lock commands of `sys_fcntl`, the loop of `fcntl_setlk` with its `wait_for`, and the notifications of
`posix_unlock`. The inode's lock is held from the check of the conflicts to the sleep and around every
change of the list, so each of these is one step. A sleeping task may wake for no reason.

* **`flock_run`** — in a run without the others no waiter is stuck.
-/

namespace IosLinuxkit.Fs.Lock

variable {Owner : Type} [DecidableEq Owner]

/-! ## The commands -/

def fSETLK : Nat := 6
def fSETLKW : Nat := 7
def fSETLK64 : Nat := 13
def fSETLKW64 : Nat := 14

/-- What the guest has at `arg`, as each of the structures; none is a fault. -/
structure LockArg where
  flock32 : Option Flock32
  flock : Option Flock

/-- The lock cases of `sys_fcntl`: the structure, and the argument `blocking`. -/
def setlkCommand (cmd : Nat) (arg : LockArg) : Except Int (Flock × Bool) :=
  if cmd = fSETLK ∨ cmd = fSETLKW then
    match arg.flock32 with
    | none => .error eFAULT
    | some f => .ok (f.toFlock, cmd == fSETLKW64)
  else if cmd = fSETLK64 ∨ cmd = fSETLKW64 then
    match arg.flock with
    | none => .error eFAULT
    | some f => .ok (f, cmd == fSETLKW)
  else .error eINVAL

def commandRequest (cmd : Nat) (arg : LockArg) (fd : LockFd Owner) : Except Int (FileLock Owner × Bool) :=
  match setlkCommand cmd arg with
  | .error e => .error e
  | .ok (flock, blocking) => (setlkRequest fd flock).map fun r => (r, blocking)

/-! ## The inode and its waiters -/

/-- A task in `wait_for`. -/
structure Waiter (Owner : Type) where
  request : FileLock Owner
  notified : Bool

structure LockState (Owner : Type) where
  locks : List (FileLock Owner)
  waiting : Nat → Option (Waiter Owner)

inductive LockEvent (Owner : Type) where
  /-- the task `t` calls `fcntl`; `signal` says that `wait_for` finds one pending -/
  | setlk (t : Nat) (cmd : Nat) (fd : LockFd Owner) (arg : LockArg) (signal : Bool)
  /-- the task comes out of `wait_for`, with a signal or without; `again` is for the next one -/
  | wake (t : Nat) (signal again : Bool)
  /-- a table closes a descriptor of the file, by itself or when its last task exits -/
  | close (owner : Owner)

/-- A step: the state, what the task gets (nothing while it sleeps), and whether `posix_unlock` was
notified. -/
structure LockStepped (Owner : Type) where
  state : LockState Owner
  ret : Option Int
  notified : Bool

/-- `notify(&inode->posix_unlock)` -/
def notifyWaiters (notified : Bool) (waiting : Nat → Option (Waiter Owner)) : Nat → Option (Waiter Owner) :=
  fun t => (waiting t).map fun w => { w with notified := w.notified || notified }

/-- An iteration of the loop of `fcntl_setlk`. -/
def setlkLoop (s : LockState Owner) (t : Nat) (request : FileLock Owner) (blocking signal : Bool) :
    LockStepped Owner :=
  match fileLockAcquire s.locks request with
  | some (locks, notified) => ⟨⟨locks, notifyWaiters notified s.waiting⟩, some 0, notified⟩
  | none =>
    if !blocking then ⟨s, some eAGAIN, false⟩
    else if signal then ⟨s, some eINTR, false⟩
    else ⟨{ s with waiting := Function.update s.waiting t (some ⟨request, false⟩) }, none, false⟩

def lockEvent (s : LockState Owner) : LockEvent Owner → LockStepped Owner
  | .setlk t cmd fd arg signal =>
    match s.waiting t with
    | some _ => ⟨s, none, false⟩
    | none =>
      match commandRequest cmd arg fd with
      | .error e => ⟨s, some e, false⟩
      | .ok (request, blocking) => setlkLoop s t request blocking signal
  | .wake t signal again =>
    match s.waiting t with
    | none => ⟨s, none, false⟩
    | some w =>
      let s := { s with waiting := Function.update s.waiting t none }
      if signal then ⟨s, some eINTR, false⟩ else setlkLoop s t w.request true again
  | .close owner => ⟨{ s with locks := fileLockRemoveOwnedBy s.locks owner }, none, false⟩

def lockEventState (s : LockState Owner) (e : LockEvent Owner) : LockState Owner := (lockEvent s e).state

/-! ## What ought to hold -/

def InTheWay (locks : List (FileLock Owner)) (request : FileLock Owner) : Prop :=
  request.type ≠ .unlck ∧ ∃ l ∈ locks, fileLocksConflict l request = true

/-- The lock is still there, or one of its owner that is as strong and contains it. -/
def KeptIn (l : FileLock Owner) (locks : List (FileLock Owner)) : Prop :=
  ∃ l' ∈ locks, l'.owner = l.owner ∧ (l'.type = l.type ∨ l'.type = .wrlck) ∧
    l'.start ≤ l.start ∧ l.stop ≤ l'.stop

def Weakened (locks locks' : List (FileLock Owner)) : Prop := ∃ l ∈ locks, ¬ KeptIn l locks'

def Waits (cmd : Nat) : Prop := cmd = fSETLKW ∨ cmd = fSETLKW64

instance (cmd : Nat) : Decidable (Waits cmd) := inferInstanceAs (Decidable (_ ∨ _))

/-- A waiting command that meets a conflict sleeps, or returns for a signal. -/
def Blocks (s : LockState Owner) : LockEvent Owner → Prop
  | .setlk t cmd fd arg signal => Waits cmd → s.waiting t = none → ∀ request blocking,
      commandRequest cmd arg fd = .ok (request, blocking) → InTheWay s.locks request →
      let r := lockEvent s (.setlk t cmd fd arg signal)
      (r.ret = none ∧ r.state.waiting t = some ⟨request, false⟩) ∨ (signal = true ∧ r.ret = some eINTR)
  | _ => True

/-- What a step ought to do. -/
structure StepGood (s : LockState Owner) (e : LockEvent Owner) : Prop where
  blocks : Blocks s e
  notifies : Weakened s.locks (lockEventState s e).locks → (lockEvent s e).notified = true

/-- A waiter that sleeps, with no notification to come, has a lock in its way. -/
def NoneStuck (s : LockState Owner) : Prop :=
  ∀ t w, s.waiting t = some w → w.notified = false → InTheWay s.locks w.request

def RealLocks (locks : List (FileLock Owner)) : Prop := ∀ l ∈ locks, l.type ≠ .unlck

/-- The steps that do it: no waiting command meets a conflict, and no table with a lock closes a
descriptor. -/
def StepOk (s : LockState Owner) : LockEvent Owner → Prop
  | .setlk t cmd fd arg _ => Waits cmd → s.waiting t = none → ∀ request blocking,
      commandRequest cmd arg fd = .ok (request, blocking) → ¬ InTheWay s.locks request
  | .wake _ _ _ => True
  | .close owner => ∀ l ∈ s.locks, l.owner ≠ owner

/-! ## The list -/

section Locks

variable {l req lock' : FileLock Owner} {locks locks' : List (FileLock Owner)} {found : Bool}

theorem KeptIn.mono (h : KeptIn l locks) (hsub : ∀ k ∈ locks, k ∈ locks') : KeptIn l locks' := by
  obtain ⟨k, hk, hkept⟩ := h
  exact ⟨k, hsub k hk, hkept⟩

theorem keptIn_of_mem (h : l ∈ locks) : KeptIn l locks :=
  ⟨l, h, rfl, .inl rfl, Int.le_refl _, Int.le_refl _⟩

theorem KeptIn.of_extend (hty : req.type = l.type) (howner : req.owner = l.owner)
    (h : KeptIn (extend req l) locks) : KeptIn l locks := by
  obtain ⟨k, hk, hko, hkt, hks, hke⟩ := h
  unfold extend at hko hkt hks hke
  dsimp only at hko hkt hks hke
  refine ⟨k, hk, hko.trans howner, hty ▸ hkt, ?_, ?_⟩
  · split at hks <;> omega
  · split at hke <;> omega

theorem walk_kept (hreal : RealLocks locks) (hn : (walk req found locks).2 = false) :
    (∀ l ∈ locks, KeptIn l (walk req found locks).1) ∧
      (req.type ≠ .unlck → KeptIn req (walk req found locks).1) := by
  induction locks generalizing req found with
  | nil =>
    refine ⟨fun l hl => (by cases hl), fun hty => ?_⟩
    rw [walk, placed, if_neg hty]
    exact keptIn_of_mem List.mem_cons_self
  | cons lock rest ih =>
    have hrest : RealLocks rest := fun l hl => hreal l (List.mem_cons_of_mem _ hl)
    rw [walk] at hn ⊢
    by_cases howner : lock.owner ≠ req.owner
    · rw [if_pos howner] at hn ⊢
      cases found with
      | true =>
        rw [if_pos rfl]
        refine ⟨fun l hl => keptIn_of_mem (List.mem_append_right _ hl), fun hty => ?_⟩
        rw [placed, if_neg hty]
        exact keptIn_of_mem List.mem_cons_self
      | false =>
        rw [if_neg Bool.false_ne_true] at hn ⊢
        obtain ⟨hkept, hplaced⟩ := ih hrest hn
        refine ⟨fun l hl => ?_, fun hty => (hplaced hty).mono fun k hk => List.mem_cons_of_mem _ hk⟩
        rcases List.mem_cons.mp hl with rfl | hl
        · exact keptIn_of_mem List.mem_cons_self
        · exact (hkept l hl).mono fun k hk => List.mem_cons_of_mem _ hk
    rw [if_neg howner] at hn ⊢
    have howner : lock.owner = req.owner := not_not.mp howner
    have hlock : lock.type ≠ .unlck := hreal lock List.mem_cons_self
    -- the lock is kept as it is
    have hkeep : visit req lock = ⟨req, [lock], false⟩ →
        (∀ l ∈ lock :: rest, KeptIn l ((visit req lock).left ++
          (walk (visit req lock).request true rest).1)) ∧
        (req.type ≠ .unlck → KeptIn req ((visit req lock).left ++
          (walk (visit req lock).request true rest).1)) := fun hv => by
      rw [hv] at hn ⊢
      obtain ⟨hkept, hplaced⟩ := ih hrest hn
      refine ⟨fun l hl => ?_, fun hty => (hplaced hty).mono fun k hk => List.mem_cons_of_mem _ hk⟩
      rcases List.mem_cons.mp hl with rfl | hl
      · exact keptIn_of_mem List.mem_cons_self
      · exact (hkept l hl).mono fun k hk => List.mem_cons_of_mem _ hk
    by_cases hty : req.type = lock.type
    · by_cases hapart : (!fileLocksOverlap lock req && !fileLocksAdjacent req lock) = true
      · exact hkeep (by unfold visit; rw [if_pos hty, if_pos hapart])
      · -- the lock is merged into the request
        have hv : visit req lock = ⟨extend req lock, [], false⟩ := by
          unfold visit
          rw [if_pos hty, if_neg hapart]
        rw [hv] at hn ⊢
        obtain ⟨hkept, hplaced⟩ := ih hrest hn
        have hext : KeptIn (extend req lock) (walk (extend req lock) true rest).1 :=
          hplaced (show req.type ≠ .unlck from hty ▸ hlock)
        refine ⟨fun l hl => ?_, fun _ => ?_⟩
        · rcases List.mem_cons.mp hl with rfl | hl
          · exact hext.of_extend hty howner.symm
          · exact hkept l hl
        obtain ⟨k, hk, hko, hkt, hks, hke⟩ := hext
        unfold extend at hko hkt hks hke
        dsimp only at hko hkt hks hke
        refine ⟨k, hk, hko, hkt, ?_, ?_⟩
        · split at hks <;> omega
        · split at hke <;> omega
    by_cases hover : (!fileLocksOverlap lock req) = true
    · exact hkeep (by unfold visit; rw [if_neg hty, if_pos hover])
    have hv : visit req lock = ⟨req, remains req lock, true⟩ := by
      unfold visit
      rw [if_neg hty, if_neg hover]
    rw [hv] at hn
    cases hn

theorem mem_remains_type (h : l ∈ remains req lock') : l.type = lock'.type := by
  unfold remains at h
  split at h
  · rcases List.mem_cons.mp h with rfl | h
    · rfl
    · rw [List.mem_singleton.mp h]
  split at h
  · cases h
  split at h
  · rw [List.mem_singleton.mp h]
  split at h
  · rw [List.mem_singleton.mp h]
  · rw [List.mem_singleton.mp h]

theorem walk_real (h : RealLocks locks) : RealLocks (walk req found locks).1 := by
  have hplaced : ∀ r : FileLock Owner, RealLocks (placed r) := fun r k hk => by
    unfold placed at hk
    split at hk
    · cases hk
    case isFalse hty =>
      rw [List.mem_singleton.mp hk]
      exact hty
  induction locks generalizing req found with
  | nil => exact hplaced req
  | cons lock rest ih =>
    have hrest : RealLocks rest := fun k hk => h k (List.mem_cons_of_mem _ hk)
    have hlock := h lock List.mem_cons_self
    rw [walk]
    split
    · cases found with
      | true =>
        rw [if_pos rfl]
        intro k hk
        rcases List.mem_append.mp hk with hk | hk
        · exact hplaced req k hk
        · exact h k hk
      | false =>
        rw [if_neg Bool.false_ne_true]
        intro k hk
        rcases List.mem_cons.mp hk with rfl | hk
        · exact hlock
        · exact ih hrest k hk
    intro k hk
    rcases List.mem_append.mp hk with hk | hk
    · -- what is left of the lock has its type
      have htype : k.type = lock.type := by
        unfold visit at hk
        split at hk
        · split at hk
          · rw [List.mem_singleton.mp hk]
          · cases hk
        split at hk
        · rw [List.mem_singleton.mp hk]
        · exact mem_remains_type hk
      rw [htype]
      exact hlock
    · exact ih hrest k hk

theorem fileLockAcquire_eq (locks : List (FileLock Owner)) (req : FileLock Owner) :
    (InTheWay locks req ∧ fileLockAcquire locks req = none) ∨
      (¬ InTheWay locks req ∧ fileLockAcquire locks req = some (walk req false locks)) := by
  have hiff : (req.type ≠ .unlck ∧ locks.any (fileLocksConflict · req) = true) ↔ InTheWay locks req :=
    and_congr_right fun _ => List.any_eq_true
  unfold fileLockAcquire
  by_cases h : req.type ≠ .unlck ∧ locks.any (fileLocksConflict · req) = true
  · exact .inl ⟨hiff.mp h, if_pos h⟩
  · exact .inr ⟨fun hc => h (hiff.mpr hc), if_neg h⟩

theorem conflict_of_kept {l' r : FileLock Owner} (howner : l'.owner = l.owner)
    (hty : l'.type = l.type ∨ l'.type = .wrlck) (hs : l'.start ≤ l.start) (he : l.stop ≤ l'.stop)
    (h : fileLocksConflict l r = true) : fileLocksConflict l' r = true := by
  unfold fileLocksConflict fileLocksOverlap at *
  rw [howner]
  split at h
  · cases h
  case isFalse hne =>
    rw [if_neg hne]
    split at h
    · cases h
    case isFalse hover =>
      have hov : r.start ≤ l.stop ∧ l.start ≤ r.stop := by simpa using hover
      rw [if_neg (by simp; omega)]
      rcases hty with hty | hty
      · rw [hty]
        exact h
      · rw [hty]
        rfl

theorem InTheWay.kept {r : FileLock Owner} (h : InTheWay locks r) (hkept : ∀ l ∈ locks, KeptIn l locks') :
    InTheWay locks' r := by
  obtain ⟨hty, l, hl, hc⟩ := h
  obtain ⟨l', hl', howner, htype, hs, he⟩ := hkept l hl
  exact ⟨hty, l', hl', conflict_of_kept howner htype hs he hc⟩

theorem not_weakened (h : ∀ l ∈ locks, KeptIn l locks') : ¬ Weakened locks locks' :=
  fun ⟨l, hl, hn⟩ => hn (h l hl)

end Locks

/-! ## The steps -/

section Steps

variable {s : LockState Owner} {t : Nat} {request : FileLock Owner} {blocking signal : Bool}

/-- The parts of the invariant. -/
structure Calm (s : LockState Owner) : Prop where
  real : RealLocks s.locks
  none_stuck : NoneStuck s

theorem notifyWaiters_some {n : Bool} {waiting : Nat → Option (Waiter Owner)} {w : Waiter Owner}
    (h : notifyWaiters n waiting t = some w) (hw : w.notified = false) :
    n = false ∧ waiting t = some w := by
  unfold notifyWaiters at h
  obtain ⟨w', hw', rfl⟩ := Option.map_eq_some_iff.mp h
  have hboth : (w'.notified || n) = false := hw
  obtain ⟨-, h2⟩ := Bool.or_eq_false_iff.mp hboth
  refine ⟨h2, ?_⟩
  rw [hw', h2, Bool.or_false]

theorem setlkLoop_notifies (h : RealLocks s.locks)
    (hweak : Weakened s.locks (setlkLoop s t request blocking signal).state.locks) :
    (setlkLoop s t request blocking signal).notified = true := by
  have hsame : ¬ Weakened s.locks s.locks := not_weakened fun l hl => keptIn_of_mem hl
  unfold setlkLoop at hweak ⊢
  rcases fileLockAcquire_eq s.locks request with ⟨_, heq⟩ | ⟨_, heq⟩
  · rw [heq] at hweak
    dsimp only at hweak
    cases blocking with
    | false => exact absurd hweak hsame
    | true => cases signal <;> exact absurd hweak hsame
  rw [heq] at hweak ⊢
  dsimp only at hweak ⊢
  by_contra hn
  exact not_weakened (walk_kept h (Bool.eq_false_iff.mpr hn)).1 hweak

theorem calm_setlkLoop (h : Calm s) : Calm (setlkLoop s t request blocking signal).state := by
  unfold setlkLoop
  rcases fileLockAcquire_eq s.locks request with ⟨hway, heq⟩ | ⟨_, heq⟩
  · rw [heq]
    cases blocking with
    | false => exact h
    | true =>
      cases signal with
      | true => exact h
      | false =>
        refine ⟨h.real, fun u w hw hn => ?_⟩
        have hw : Function.update s.waiting t (some ⟨request, false⟩) u = some w := hw
        by_cases hu : u = t
        · -- the task that goes to sleep
          rw [hu, Function.update_self] at hw
          cases hw
          exact hway
        · rw [Function.update_of_ne hu] at hw
          exact h.none_stuck u w hw hn
  rw [heq]
  refine ⟨walk_real h.real, fun u w hw hn => ?_⟩
  obtain ⟨hquiet, hw⟩ := notifyWaiters_some hw hn
  exact (h.none_stuck u w hw hn).kept (walk_kept h.real hquiet).1

theorem removeOwnedBy_none {locks : List (FileLock Owner)} {owner : Owner}
    (h : ∀ l ∈ locks, l.owner ≠ owner) : fileLockRemoveOwnedBy locks owner = locks := by
  unfold fileLockRemoveOwnedBy
  exact List.filter_eq_self.mpr fun l hl => by simpa using h l hl

theorem calm_step {e : LockEvent Owner} (h : Calm s) (hok : StepOk s e) : Calm (lockEventState s e) := by
  unfold lockEventState
  cases e with
  | setlk t cmd fd arg signal =>
    rw [lockEvent]
    split
    · exact h
    split
    · exact h
    · exact calm_setlkLoop h
  | wake t signal again =>
    rw [lockEvent]
    split
    · exact h
    case h_2 w hw =>
      have hwoken : Calm { s with waiting := Function.update s.waiting t none } := by
        refine ⟨h.real, fun u w' hw' hn => ?_⟩
        dsimp only at hw'
        by_cases hu : u = t
        · rw [hu, Function.update_self] at hw'
          cases hw'
        · rw [Function.update_of_ne hu] at hw'
          exact h.none_stuck u w' hw' hn
      dsimp only
      split
      · exact hwoken
      · exact calm_setlkLoop hwoken
  | close owner =>
    rw [lockEvent, removeOwnedBy_none hok]
    exact h

variable {cmd : Nat} {arg : LockArg} {fd : LockFd Owner}

theorem not_blocking (hw : Waits cmd)
    (h : commandRequest cmd arg fd = .ok (request, blocking)) : blocking = false := by
  have hcmd : ∀ flock b, setlkCommand cmd arg = .ok (flock, b) → b = false := fun flock b hc => by
    unfold setlkCommand at hc
    rcases hw with rfl | rfl
    · rw [if_pos (.inr rfl)] at hc
      split at hc
      · cases hc
      · cases hc
        rfl
    rw [if_neg (by decide), if_pos (.inr rfl)] at hc
    split at hc
    · cases hc
    · cases hc
      rfl
  unfold commandRequest at h
  split at h
  · cases h
  case h_2 flock b hc =>
    cases hr : setlkRequest fd flock with
    | error e =>
      rw [hr] at h
      cases h
    | ok r =>
      rw [hr] at h
      cases h
      exact hcmd flock blocking hc

theorem setlk_eagain (hw : Waits cmd)
    (ht : s.waiting t = none) (h : commandRequest cmd arg fd = .ok (request, blocking))
    (hway : InTheWay s.locks request) :
    lockEvent s (.setlk t cmd fd arg signal) = ⟨s, some eAGAIN, false⟩ := by
  have heq := (fileLockAcquire_eq s.locks request).resolve_right fun hc => hc.1 hway
  rw [lockEvent, ht]
  dsimp only
  rw [h]
  dsimp only
  rw [setlkLoop, heq.2, not_blocking hw h]
  rfl

theorem blocks_iff :
    Blocks s (.setlk t cmd fd arg signal) ↔ StepOk s (.setlk t cmd fd arg signal) := by
  constructor
  · intro h hw ht request blocking hr hway
    have hblocks := h hw ht request blocking hr hway
    rw [setlk_eagain hw ht hr hway] at hblocks
    rcases hblocks with ⟨hret, _⟩ | ⟨_, hret⟩
    · cases hret
    · exact absurd (Option.some.inj hret) (by decide)
  · intro h hw ht request blocking hr hway
    exact absurd hway (h hw ht request blocking hr)

theorem stepGood_iff {e : LockEvent Owner} (h : RealLocks s.locks) : StepGood s e ↔ StepOk s e := by
  have hsame : ¬ Weakened s.locks s.locks := not_weakened fun l hl => keptIn_of_mem hl
  cases e with
  | setlk t cmd fd arg signal =>
    refine ⟨fun hg => blocks_iff.mp hg.blocks, fun hok => ⟨blocks_iff.mpr hok, ?_⟩⟩
    unfold lockEventState
    rw [lockEvent]
    split
    · exact fun hc => absurd hc hsame
    split
    · exact fun hc => absurd hc hsame
    · exact setlkLoop_notifies h
  | wake t signal again =>
    refine ⟨fun _ => trivial, fun _ => ⟨trivial, ?_⟩⟩
    unfold lockEventState
    rw [lockEvent]
    split
    · exact fun hc => absurd hc hsame
    dsimp only
    split
    · exact fun hc => absurd hc hsame
    · -- the loop again, on the same list
      exact setlkLoop_notifies (s := ⟨s.locks, Function.update s.waiting t none⟩) h
  | close owner =>
    constructor
    · -- a lock that is removed is not kept, and nobody is notified
      intro hg l hl howner
      have hweak : Weakened s.locks (fileLockRemoveOwnedBy s.locks owner) := by
        refine ⟨l, hl, fun ⟨k, hk, hko, _⟩ => ?_⟩
        have hne : k.owner ≠ owner := by simpa using (List.mem_filter.mp hk).2
        exact hne (hko.trans howner)
      exact Bool.false_ne_true (hg.notifies hweak)
    intro hok
    refine ⟨trivial, fun hweak => absurd ?_ hsame⟩
    have hlocks : (lockEventState s (.close owner)).locks = s.locks := removeOwnedBy_none hok
    rwa [hlocks] at hweak

end Steps

/-! ## Runs -/

/-- **Waiting for locks.** In every run, from any state without a stuck waiter, the steps block and notify
as they should exactly when no waiting command meets a conflict and no table with a lock on the file closes
a descriptor of it; and then no waiter is stuck in the end. -/
theorem flock_run (s : LockState Owner) (h : Calm s) (events : List (LockEvent Owner)) :
    (AllSteps lockEventState StepGood s events ↔ AllSteps lockEventState StepOk s events) ∧
    (AllSteps lockEventState StepOk s events → NoneStuck (run lockEventState s events)) := by
  have hstep : ∀ s (e : LockEvent Owner), Calm s → StepOk s e → Calm (lockEventState s e) :=
    fun s e hinv he => calm_step hinv he
  exact ⟨allSteps_congr (fun s e hinv => stepGood_iff hinv.real) hstep h,
    fun hok => (run_invariant hstep h hok).none_stuck⟩

/-! ## Examples -/

/-- Table 1 waits for the first ten bytes, which table 0 has locked. -/
def heldState : LockState Nat where
  locks := [⟨0, 9, .wrlck, 0, 1⟩]
  waiting := fun t => if t = 7 then some ⟨⟨0, 9, .wrlck, 1, 7⟩, false⟩ else none

theorem calm_heldState : Calm heldState := by
  refine ⟨fun l hl => ?_, fun t w hw _ => ?_⟩
  · rw [List.mem_singleton.mp hl]
    decide
  have hw : (if t = 7 then some (⟨⟨0, 9, .wrlck, 1, 7⟩, false⟩ : Waiter Nat) else none) = some w := hw
  split at hw
  · cases hw
    exact ⟨by decide, _, List.mem_singleton.mpr rfl, by decide⟩
  · cases hw

def unlockAll : LockArg := ⟨none, some ⟨fUNLCK, lseekSet, 0, 0, 0⟩⟩

/-- Table 0 unlocks, with a command that does not wait; the waiter is notified. -/
theorem flock_run_unlock :
    NoneStuck (run lockEventState heldState [.setlk 1 fSETLK64 lockFd unlockAll false]) :=
  (flock_run heldState calm_heldState _).2
    ⟨fun hw => absurd hw (by decide), trivial⟩

def wantedLock : LockArg :=
  ⟨some ⟨fWRLCK, lseekSet, 0, 10, 0⟩, some ⟨fWRLCK, lseekSet, 0, 10, 0⟩⟩

def otherFd : LockFd Nat := { lockFd with owner := 1 }

/-- Both waiting commands return `EAGAIN` instead of waiting. And when table 0 closes a descriptor, its lock
goes and the waiter of table 1 sleeps on. -/
theorem flock_stuck :
    (lockEvent heldState (.setlk 8 fSETLKW otherFd wantedLock false)).ret = some eAGAIN ∧
    (lockEvent heldState (.setlk 8 fSETLKW64 otherFd wantedLock false)).ret = some eAGAIN ∧
    Weakened heldState.locks (lockEventState heldState (.close 0)).locks ∧
    (lockEvent heldState (.close 0)).notified = false ∧
    ¬ NoneStuck (lockEventState heldState (.close 0)) := by
  have hlocks : (lockEventState heldState (.close 0)).locks = [] := by decide
  refine ⟨by decide, by decide, ?_, rfl, fun h => ?_⟩
  · rw [hlocks]
    exact ⟨_, List.mem_singleton.mpr rfl, fun ⟨k, hk, _⟩ => (by cases hk)⟩
  obtain ⟨_, l, hl, _⟩ := h 7 ⟨⟨0, 9, .wrlck, 1, 7⟩, false⟩ rfl rfl
  rw [hlocks] at hl
  cases hl

end IosLinuxkit.Fs.Lock
