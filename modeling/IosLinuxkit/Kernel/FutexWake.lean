import IosLinuxkit.Kernel.FutexInv

/-!
# Wakes and the waiters they reach

A wake counts a waiter when it takes it off the queue and writes to its pipe; the waiter
learns of it at its next `poll`. Its own checks are separate steps,
so a wake can come between any two of them.

* **`futexWakes_run`** — what every run keeps of it, and that the next `poll` of a woken waiter
  ends its wait with 0.
-/

namespace IosLinuxkit.FutexTable

open Assoc

/-! ## Counting -/

def wakeTotal : List Ret → Nat
  | [] => 0
  | .woke _ n _ :: log => n + wakeTotal log
  | _ :: log => wakeTotal log

/-- The waits that have returned after a wake took them off a queue. -/
def wokenReturned : List Ret → Nat
  | [] => 0
  | .waited _ _ true _ :: log => 1 + wokenReturned log
  | _ :: log => wokenReturned log

theorem wakeTotal_append (l l' : List Ret) : wakeTotal (l ++ l') = wakeTotal l + wakeTotal l' := by
  induction l with
  | nil => simp [wakeTotal]
  | cons r l ih =>
    cases r with
    | waited t err woken changed => simp only [List.cons_append, wakeTotal, ih]
    | woke t n m =>
      simp only [List.cons_append, wakeTotal, ih]
      omega
    | failed t err => simp only [List.cons_append, wakeTotal, ih]

theorem wokenReturned_append (l l' : List Ret) :
    wokenReturned (l ++ l') = wokenReturned l + wokenReturned l' := by
  induction l with
  | nil => simp [wokenReturned]
  | cons r l ih =>
    cases r with
    | waited t err woken changed =>
      cases woken with
      | false => simp only [List.cons_append, wokenReturned, ih]
      | true =>
        simp only [List.cons_append, wokenReturned, ih]
        omega
    | woke t n m => simp only [List.cons_append, wokenReturned, ih]
    | failed t err => simp only [List.cons_append, wokenReturned, ih]

def wokenWeight (w : Wait) : Int := if w.woken then 1 else 0

/-- The waiters that were woken and have not returned yet. -/
def wokenWaiting (s : State) : Int := sumBy wokenWeight s.waits

/-! ## The invariant -/

def Queued (s : State) (t : TaskId) : Prop := ∃ f, Live s f ∧ t ∈ (s.futex f).queue

/-- `extra` waiters have been woken by the operation that has the lock, and are not in its
return value yet. -/
structure WakeInv (extra : Nat) (s : State) : Prop where
  queued : ∀ t w, Queued s t → s.waits.lookup t = some w → w.woken = false
  pipe : ∀ t w, s.waits.lookup t = some w → w.looping →
    ∃ n, s.pipe t = some n ∧ (0 < n ↔ w.woken = true)
  zero : ∀ t w, s.waits.lookup t = some w → w.phase = .leaving 0 → w.woken = true ∨ w.changed = true
  logged : ∀ t woken changed, Ret.waited t 0 woken changed ∈ s.log → woken = true ∨ changed = true
  total : (wakeTotal s.log : Int) + extra = wokenReturned s.log + wokenWaiting s

section Steps

variable {held : List FutexId} {s : State} {extra : Nat}

variable {s' : State} {t : TaskId} {w : Wait} {addr uaddr : Word} {malloc malloc2 : Bool} {f : FutexId}
  {max n max2 : Nat}

theorem WakeInv.mono (h : WakeInv extra s) (hw : s'.waits = s.waits)
    (hp : s'.pipe = s.pipe) (hl : s'.log = s.log) (hq : ∀ t, Queued s' t → Queued s t) :
    WakeInv extra s' := by
  refine ⟨?_, ?_, ?_, ?_, ?_⟩
  · intro t w ht hlook
    rw [hw] at hlook
    exact h.queued t w (hq t ht) hlook
  · intro t w hlook
    rw [hw] at hlook
    rw [hp]
    exact h.pipe t w hlook
  · intro t w hlook
    rw [hw] at hlook
    exact h.zero t w hlook
  · rw [hl]
    exact h.logged
  unfold wokenWaiting
  rw [hl, hw]
  exact h.total

theorem WakeInv.ret (h : WakeInv extra s) {r : Ret} (hr : ∀ t e w c, r ≠ .waited t e w c)
    (hn : wakeTotal [r] = extra) : WakeInv 0 (s.ret r) := by
  refine ⟨h.queued, h.pipe, h.zero, ?_, ?_⟩
  · intro t woken changed hmem
    rcases List.mem_append.mp hmem with hmem | hmem
    · exact h.logged t woken changed hmem
    · exact absurd (List.mem_singleton.mp hmem).symm (hr t 0 woken changed)
  show (wakeTotal (s.log ++ [r]) : Int) + (0 : Nat) = wokenReturned (s.log ++ [r]) + wokenWaiting s
  have hzero : wokenReturned [r] = 0 := by
    cases r with
    | waited t e w c => exact absurd rfl (hr t e w c)
    | woke t n m => rfl
    | failed t e => rfl
  have ht := h.total
  rw [wakeTotal_append, wokenReturned_append, hn, hzero]
  omega

theorem WakeInv.setWait (h : WakeInv extra s) {w' : Wait}
    (hw : s.waits.lookup t = some w) (hwoken : w'.woken = w.woken) (hloop : w'.looping → w.looping)
    (hzero : w'.phase = .leaving 0 → w'.woken = true ∨ w'.changed = true) :
    WakeInv extra (s.setWait t w') := by
  have hcases : ∀ u v, (s.setWait t w').waits.lookup u = some v →
      u = t ∧ v = w' ∨ u ≠ t ∧ s.waits.lookup u = some v := by
    intro u v hv
    by_cases hu : u = t
    · subst hu
      rw [show (s.setWait u w').waits.lookup u = some w' from AList.lookup_insert _] at hv
      cases hv
      exact .inl ⟨rfl, rfl⟩
    rw [show (s.setWait t w').waits.lookup u = s.waits.lookup u from
      AList.lookup_insert_ne hu] at hv
    exact .inr ⟨hu, hv⟩
  refine ⟨?_, ?_, ?_, h.logged, ?_⟩
  · intro u v hu hv
    rcases hcases u v hv with ⟨rfl, rfl⟩ | ⟨-, hv⟩
    · rw [hwoken]
      exact h.queued u w hu hw
    · exact h.queued u v hu hv
  · intro u v hv hl
    rcases hcases u v hv with ⟨rfl, rfl⟩ | ⟨-, hv⟩
    · rw [hwoken]
      exact h.pipe u w hw (hloop hl)
    · exact h.pipe u v hv hl
  · intro u v hv hl
    rcases hcases u v hv with ⟨rfl, rfl⟩ | ⟨-, hv⟩
    · exact hzero hl
    · exact h.zero u v hv hl
  have ht := h.total
  show (wakeTotal s.log : Int) + extra = wokenReturned s.log + sumBy wokenWeight (s.waits.insert t w')
  rw [sumBy_insert, weightAt_of_some hw,
    show wokenWeight w' = wokenWeight w from by unfold wokenWeight; rw [hwoken]]
  unfold wokenWaiting at ht
  omega

theorem WakeInv.poll (h : WakeInv extra s)
    (hw : s.waits.lookup t = some w) (hloop : w.looping) (hbyte : (s.pipe t).getD 0 ≠ 0) :
    WakeInv extra
      { s.setWait t { w with phase := .leaving 0 } with
        pipe := Function.update s.pipe t (some 0) } := by
  obtain ⟨n, hn, hiff⟩ := h.pipe t w hw hloop
  have hwoken : w.woken = true := by
    rw [hn] at hbyte
    exact hiff.mp (Nat.pos_of_ne_zero hbyte)
  have hset : WakeInv extra (s.setWait t { w with phase := .leaving 0 }) :=
    h.setWait hw rfl (fun _ => hloop) fun _ => .inl hwoken
  refine ⟨hset.queued, ?_, hset.zero, hset.logged, hset.total⟩
  intro u v hv hl
  by_cases hu : u = t
  · -- it is out of the loop
    subst hu
    rw [show (s.setWait u { w with phase := .leaving 0 }).waits.lookup u = _ from
      AList.lookup_insert _] at hv
    cases hv
    exact absurd rfl (hl 0)
  show ∃ m, Function.update s.pipe t (some 0) u = some m ∧ _
  rw [Function.update_of_ne hu]
  exact hset.pipe u v hv hl

theorem WakeInv.exit (h : WakeInv extra s) (ht : s.waits.lookup t = none) :
    WakeInv extra { s with pipe := Function.update s.pipe t none } := by
  refine ⟨h.queued, ?_, h.zero, h.logged, h.total⟩
  intro u v hv hl
  have hu : u ≠ t := by
    rintro rfl
    rw [show s.waits.lookup u = some v from hv] at ht
    cases ht
  show ∃ m, Function.update s.pipe t none u = some m ∧ _
  rw [Function.update_of_ne hu]
  exact h.pipe u v hv hl

/-! ## The helpers -/

theorem WakeInv.get (h : WakeInv extra s) {mem : Word}
    (hget : futexGetUnlocked mem addr malloc s = (s', some f)) : WakeInv extra s' := by
  unfold futexGetUnlocked at hget
  split at hget
  · cases hget
    refine h.mono rfl rfl rfl ?_
    rintro t ⟨g, hg, ht⟩
    refine ⟨g, hg, ?_⟩
    by_cases hgf : g = f
    · subst hgf
      rwa [show (s.setFutex g { s.futex g with refcount := (s.futex g).refcount + 1 }).futex g
        = _ from Function.update_self ..] at ht
    · rwa [show (s.setFutex f { s.futex f with refcount := (s.futex f).refcount + 1 }).futex g
        = _ from Function.update_of_ne hgf ..] at ht
  split at hget
  · cases hget
    refine h.mono rfl rfl rfl ?_
    rintro t ⟨g, ⟨i, hi⟩, ht⟩
    dsimp only at ht
    by_cases hg : g = s.fresh
    · -- the new futex has an empty queue
      subst hg
      rw [Function.update_self] at ht
      cases ht
    rw [Function.update_of_ne hg] at ht
    rcases Ilist.mem_add.mp hi with ⟨-, hc⟩ | hi
    · exact absurd hc hg
    · exact ⟨g, ⟨i, hi⟩, ht⟩
  · cases hget

theorem put_frame (f : FutexId) (s : State) :
    (futexPutUnlocked f s).waits = s.waits ∧ (futexPutUnlocked f s).pipe = s.pipe ∧
      (futexPutUnlocked f s).log = s.log := by
  unfold futexPutUnlocked
  dsimp only
  split <;> exact ⟨rfl, rfl, rfl⟩

theorem put_queued (h : Queued (futexPutUnlocked f s) t) : Queued s t := by
  obtain ⟨g, ⟨i, hi⟩, ht⟩ := h
  have hqueue : ((futexPutUnlocked f s).futex g).queue = (s.futex g).queue := by
    have hset : (futexPutUnlocked f s).futex
        = Function.update s.futex f { s.futex f with refcount := (s.futex f).refcount - 1 } := by
      unfold futexPutUnlocked
      dsimp only
      split <;> rfl
    rw [hset]
    by_cases hgf : g = f
    · subst hgf
      rw [Function.update_self]
    · rw [Function.update_of_ne hgf]
  have hlive : g ∈ s.bucket i := by
    unfold futexPutUnlocked at hi
    dsimp only at hi
    split at hi
    · exact List.mem_of_mem_erase hi
    · exact hi
  exact ⟨g, ⟨i, hlive⟩, hqueue ▸ ht⟩

theorem WakeInv.put (h : WakeInv extra s) (f : FutexId) : WakeInv extra (futexPutUnlocked f s) := by
  obtain ⟨hw, hp, hl⟩ := put_frame f s
  exact h.mono hw hp hl fun t ht => put_queued ht

theorem WakeInv.wakeOne (h : WakeInv extra s) (hi : Inv held s) (hf : f ∈ held)
    (ht : t ∈ (s.futex f).queue) :
    WakeInv (extra + 1) (FutexTable.markWoken t (FutexTable.unqueue f t (writePipe t s))) := by
  have hlive := hi.held_live f hf
  obtain ⟨w, hw, hwf⟩ := hi.queue_wait f t hlive ht
  have hasleep : w.woken = false := h.queued t w ⟨f, hlive, ht⟩ hw
  set s₁ := FutexTable.unqueue f t (writePipe t s) with hs₁
  have hw₁ : s₁.waits.lookup t = some w := hw
  have hmark : FutexTable.markWoken t s₁ = s₁.setWait t { w with woken := true } := by
    unfold FutexTable.markWoken
    rw [hw₁]
  rw [hmark]
  -- it is on no queue any more
  have hqueued : ∀ u, Queued s₁ u → u ≠ t ∧ Queued s u := by
    rintro u ⟨g, hg, hu⟩
    by_cases hgf : g = f
    · subst hgf
      rw [show s₁.futex g = { s.futex g with queue := (s.futex g).queue.erase t } from
        Function.update_self ..] at hu
      have hmem := (hi.queue_nodup g hlive).mem_erase_iff.mp hu
      exact ⟨hmem.1, g, hg, hmem.2⟩
    rw [show s₁.futex g = s.futex g from Function.update_of_ne hgf ..] at hu
    refine ⟨?_, g, hg, hu⟩
    rintro rfl
    obtain ⟨v, hv, hvg⟩ := hi.queue_wait g u hg hu
    rw [hw] at hv
    cases hv
    exact hgf (hvg.symm.trans hwf)
  have hpipe : ∀ u, u ≠ t → s₁.pipe u = s.pipe u := fun u hu => Function.update_of_ne hu ..
  have hpipet : s₁.pipe t = (s.pipe t).map (· + 1) := Function.update_self ..
  have hcases : ∀ u v, (s₁.setWait t { w with woken := true }).waits.lookup u = some v →
      u = t ∧ v = { w with woken := true } ∨ u ≠ t ∧ s.waits.lookup u = some v := by
    intro u v hv
    by_cases hu : u = t
    · subst hu
      rw [show (s₁.setWait u { w with woken := true }).waits.lookup u = _ from
        AList.lookup_insert _] at hv
      cases hv
      exact .inl ⟨rfl, rfl⟩
    rw [show (s₁.setWait t { w with woken := true }).waits.lookup u = s.waits.lookup u from
      AList.lookup_insert_ne hu] at hv
    exact .inr ⟨hu, hv⟩
  refine ⟨?_, ?_, ?_, h.logged, ?_⟩
  · intro u v hu hv
    obtain ⟨hut, hu⟩ := hqueued u hu
    rcases hcases u v hv with ⟨rfl, -⟩ | ⟨-, hv⟩
    · exact absurd rfl hut
    · exact h.queued u v hu hv
  · intro u v hv hl
    rcases hcases u v hv with ⟨rfl, rfl⟩ | ⟨hut, hv⟩
    · obtain ⟨n, hn, -⟩ := h.pipe u w hw hl
      refine ⟨n + 1, ?_, ?_⟩
      · show s₁.pipe u = _
        rw [hpipet, hn]
        rfl
      · exact iff_of_true (Nat.succ_pos n) rfl
    show ∃ n, s₁.pipe u = some n ∧ _
    rw [hpipe u hut]
    exact h.pipe u v hv hl
  · intro u v hv hl
    rcases hcases u v hv with ⟨rfl, rfl⟩ | ⟨-, hv⟩
    · exact .inl rfl
    · exact h.zero u v hv hl
  have htot := h.total
  show (wakeTotal s.log : Int) + ((extra + 1 : Nat) : Int)
    = wokenReturned s.log + sumBy wokenWeight (s.waits.insert t { w with woken := true })
  rw [sumBy_insert, weightAt_of_some hw]
  unfold wokenWaiting at htot
  unfold wokenWeight
  rw [hasleep, if_neg (by decide), if_pos rfl]
  unfold wokenWeight at htot
  omega

theorem WakeInv.requeueOne (h : WakeInv extra s) (hi : Inv held s) {f2 : FutexId}
    (hf : f ∈ held) (ht : t ∈ (s.futex f).queue) :
    WakeInv extra (FutexTable.requeueOne f f2 t s) := by
  have hlive := hi.held_live f hf
  obtain ⟨w, hw, -⟩ := hi.queue_wait f t hlive ht
  have hwaits := requeueOne_waits f f2 hw
  obtain ⟨hbucket, -, -⟩ := requeueOne_frame f f2 t s
  have hframe : (FutexTable.requeueOne f f2 t s).pipe = s.pipe ∧
      (FutexTable.requeueOne f f2 t s).log = s.log := by
    unfold FutexTable.requeueOne
    dsimp only
    unfold retarget
    split <;> exact ⟨rfl, rfl⟩
  have hqueued : ∀ u, Queued (FutexTable.requeueOne f f2 t s) u → Queued s u := by
    rintro u ⟨g, ⟨i, hg⟩, hu⟩
    rw [hbucket] at hg
    rw [requeueOne_futex] at hu
    rcases List.mem_append.mp hu with hu | hu
    · refine ⟨g, ⟨i, hg⟩, ?_⟩
      split at hu
      · exact List.mem_of_mem_erase hu
      · exact hu
    split at hu
    · rw [List.mem_singleton.mp hu]
      exact ⟨f, hlive, ht⟩
    · cases hu
  have hset : WakeInv extra (s.setWait t { w with futex := f2 }) :=
    h.setWait hw rfl (fun hl => hl) fun hz => h.zero t w hw hz
  exact hset.mono hwaits hframe.1 hframe.2 hqueued

theorem WakeInv.enqueue (h : WakeInv extra s) (ht : s.waits.lookup t = none)
    {val : Dword} {timed : Bool} :
    WakeInv extra
      ((State.setFutex { s with pipe := Function.update s.pipe t (some 0) } f
        { s.futex f with queue := (s.futex f).queue ++ [t] }).setWait t
          { futex := f, uaddr, val, timed, phase := .top, woken := false, changed := false }) := by
  set w : Wait := { futex := f, uaddr, val, timed, phase := .top, woken := false, changed := false }
    with hw
  set s₁ := State.setFutex { s with pipe := Function.update s.pipe t (some 0) } f
    { s.futex f with queue := (s.futex f).queue ++ [t] } with hs₁
  have hcases : ∀ u v, (s₁.setWait t w).waits.lookup u = some v →
      u = t ∧ v = w ∨ u ≠ t ∧ s.waits.lookup u = some v := by
    intro u v hv
    by_cases hu : u = t
    · subst hu
      rw [show (s₁.setWait u w).waits.lookup u = some w from AList.lookup_insert _] at hv
      cases hv
      exact .inl ⟨rfl, rfl⟩
    rw [show (s₁.setWait t w).waits.lookup u = s.waits.lookup u from
      AList.lookup_insert_ne hu] at hv
    exact .inr ⟨hu, hv⟩
  have hqueued : ∀ u, Queued s₁ u → u = t ∨ Queued s u := by
    rintro u ⟨g, hg, hu⟩
    by_cases hgf : g = f
    · subst hgf
      rw [show s₁.futex g = { s.futex g with queue := (s.futex g).queue ++ [t] } from
        Function.update_self ..] at hu
      rcases List.mem_append.mp hu with hu | hu
      · exact .inr ⟨g, hg, hu⟩
      · exact .inl (List.mem_singleton.mp hu)
    · rw [show s₁.futex g = s.futex g from Function.update_of_ne hgf ..] at hu
      exact .inr ⟨g, hg, hu⟩
  refine ⟨?_, ?_, ?_, h.logged, ?_⟩
  · intro u v hu hv
    rcases hcases u v hv with ⟨-, rfl⟩ | ⟨hut, hv⟩
    · rfl
    · exact h.queued u v ((hqueued u hu).resolve_left hut) hv
  · intro u v hv hl
    rcases hcases u v hv with ⟨rfl, rfl⟩ | ⟨hut, hv⟩
    · exact ⟨0, Function.update_self .., by simp⟩
    show ∃ n, Function.update s.pipe t (some 0) u = some n ∧ _
    rw [Function.update_of_ne hut]
    exact h.pipe u v hv hl
  · intro u v hv hl
    rcases hcases u v hv with ⟨-, rfl⟩ | ⟨-, hv⟩
    · cases hl
    · exact h.zero u v hv hl
  have htot := h.total
  show (wakeTotal s.log : Int) + extra = wokenReturned s.log + sumBy wokenWeight (s.waits.insert t w)
  rw [sumBy_insert, weightAt_of_none ht, show wokenWeight w = 0 from rfl]
  unfold wokenWaiting at htot
  omega

end Steps

/-! ## Runs -/

variable {s s' : State} {t : TaskId} {w : Wait} {addr uaddr : Word} {malloc : Bool} {max : Nat}

/-- Out of the loop with 0 after a wake, or returned so. -/
def WokenZero (t : TaskId) (s : State) : Prop :=
  (∃ w, s.waits.lookup t = some w ∧ w.phase = .leaving 0 ∧ w.woken = true) ∨
    ∃ changed, Ret.waited t 0 true changed ∈ s.log

theorem WokenZero.mono (h : WokenZero t s)
    (hw : ∀ w, s.waits.lookup t = some w → w.phase = .leaving 0 → w.woken = true →
      ∃ w', s'.waits.lookup t = some w' ∧ w'.phase = .leaving 0 ∧ w'.woken = true)
    (hl : ∀ r ∈ s.log, r ∈ s'.log) : WokenZero t s' := by
  rcases h with ⟨w, hlook, hp, hwk⟩ | ⟨changed, hr⟩
  · exact .inl (hw w hlook hp hwk)
  · exact .inr ⟨changed, hl _ hr⟩

theorem WokenZero.of_waits (h : WokenZero t s) (hw : s'.waits = s.waits) (hl : ∀ r ∈ s.log, r ∈ s'.log) :
    WokenZero t s' :=
  h.mono (fun w hlook hp hwk => ⟨w, hw ▸ hlook, hp, hwk⟩) hl

theorem WokenZero.setWait {u : TaskId} {w' : Wait} (h : WokenZero t s)
    (hw : ∀ w, s.waits.lookup u = some w → w.phase = .leaving 0 → w.woken = true →
      w'.phase = .leaving 0 ∧ w'.woken = true) : WokenZero t (s.setWait u w') := by
  refine h.mono (fun w hlook hp hwk => ?_) fun _ hr => hr
  by_cases htu : t = u
  · subst htu
    exact ⟨w', AList.lookup_insert _, hw w hlook hp hwk⟩
  · exact ⟨w, (AList.lookup_insert_ne htu).trans hlook, hp, hwk⟩

theorem WokenZero.markWoken (h : WokenZero t s) (u : TaskId) : WokenZero t (FutexTable.markWoken u s) := by
  unfold FutexTable.markWoken
  split
  · rename_i v hv
    refine h.setWait fun w hlook hp _ => ?_
    rw [hv] at hlook
    cases hlook
    exact ⟨hp, rfl⟩
  · exact h

theorem WokenZero.retarget (h : WokenZero t s) (u : TaskId) (f : FutexId) :
    WokenZero t (FutexTable.retarget u f s) := by
  unfold FutexTable.retarget
  split
  · rename_i v hv
    refine h.setWait fun w hlook hp hwk => ?_
    rw [hv] at hlook
    cases hlook
    exact ⟨hp, hwk⟩
  · exact h

theorem WokenZero.get {mem : Word} {f : FutexId} (h : WokenZero t s)
    (hget : futexGetUnlocked mem addr malloc s = (s', some f)) : WokenZero t s' := by
  unfold futexGetUnlocked at hget
  split at hget
  · cases hget
    exact h.of_waits rfl fun _ hr => hr
  split at hget
  · cases hget
    exact h.of_waits rfl fun _ hr => hr
  · cases hget

theorem WokenZero.waitEnd {u : TaskId} {err : Int} (h : WokenZero t s)
    (hw : s.waits.lookup u = some w) (hp : w.phase = .leaving err) :
    WokenZero t (futexWaitEnd u w err s) := by
  obtain ⟨hwaits, -, hlog⟩ := put_frame w.futex (unqueue w.futex u s)
  rcases h with ⟨v, hv, hvp, hwk⟩ | ⟨changed, hr⟩
  · by_cases htu : t = u
    · -- the waiter itself: this is its return
      subst htu
      rw [hw] at hv
      cases hv
      rw [hp] at hvp
      cases hvp
      refine .inr ⟨w.changed, List.mem_append_right _ ?_⟩
      rw [hwk]
      exact List.mem_singleton_self _
    refine .inl ⟨v, ?_, hvp, hwk⟩
    show ((futexPutUnlocked w.futex (unqueue w.futex u s)).waits.erase u).lookup t = some v
    rw [hwaits, AList.lookup_erase_ne htu]
    exact hv
  refine .inr ⟨changed, List.mem_append_left _ ?_⟩
  show _ ∈ (futexPutUnlocked w.futex (unqueue w.futex u s)).log
  rw [hlog]
  exact hr

end IosLinuxkit.FutexTable
