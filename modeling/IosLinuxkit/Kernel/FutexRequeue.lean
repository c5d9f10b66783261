import IosLinuxkit.Kernel.FutexInv
import Mathlib.Data.List.Rotate

/-!
# Requeueing

`futex_cmp_requeue` on the queues alone. A queue is named by the address that the guest gives,
so that the call can be compared with what it is for: the first waiters are woken, the next
ones go to the end of the other queue, the rest stay.

* **`cmpRequeue_run`** — when the call is that function, from any state that a run reaches.
-/

namespace IosLinuxkit.FutexTable

open Assoc

/-! ## Queues by address -/

def futexAt (s : State) (mem addr : Word) : Option FutexId :=
  (s.bucket (hash mem addr)).find? fun f => (s.futex f).addr == addr && (s.futex f).mem == mem

def queueAt (s : State) (mem addr : Word) : List TaskId :=
  match futexAt s mem addr with
  | some f => (s.futex f).queue
  | none => []

def requeued (q : Word → List TaskId) (uaddr : Word) (wakeMax requeueMax : Nat)
    (requeueAddr : Word) : Word → List TaskId :=
  let left := (q uaddr).drop wakeMax
  let q := Function.update q uaddr (left.drop requeueMax)
  Function.update q requeueAddr (q requeueAddr ++ left.take requeueMax)

theorem requeued_apart (q : Word → List TaskId) {uaddr requeueAddr : Word}
    (hne : uaddr ≠ requeueAddr) (wakeMax requeueMax : Nat) :
    requeued q uaddr wakeMax requeueMax requeueAddr =
      Function.update (Function.update q uaddr (((q uaddr).drop wakeMax).drop requeueMax)) requeueAddr
        (q requeueAddr ++ ((q uaddr).drop wakeMax).take requeueMax) := by
  unfold requeued
  dsimp only
  rw [Function.update_of_ne (Ne.symm hne)]

theorem requeued_same (q : Word → List TaskId) (uaddr : Word) (wakeMax requeueMax : Nat) :
    requeued q uaddr wakeMax requeueMax uaddr = Function.update q uaddr
      (((q uaddr).drop wakeMax).drop requeueMax ++ ((q uaddr).drop wakeMax).take requeueMax) := by
  unfold requeued
  dsimp only
  rw [Function.update_self, Function.update_idem]

/-- The call woke the first waiters, moved the next ones once each and returned their number. -/
structure MovedOnce (s s' : State) (mem uaddr : Word) (wakeMax requeueMax : Nat)
    (requeueAddr : Word) (value : Nat) : Prop where
  queues : ∀ a, queueAt s' mem a = requeued (queueAt s mem) uaddr wakeMax requeueMax requeueAddr a
  others : ∀ m a, m ≠ mem → queueAt s' m a = queueAt s m a
  pipes : ∀ u, s'.pipe u = if u ∈ (queueAt s mem uaddr).take wakeMax then (s.pipe u).map (· + 1)
    else s.pipe u
  counts : value = min wakeMax (queueAt s mem uaddr).length +
    min requeueMax ((queueAt s mem uaddr).length - wakeMax)

section Table

variable {held : List FutexId} {s : State}

variable {mem addr : Word} {f : FutexId} {s' : State} {malloc : Bool} {q : List TaskId}

theorem futexAt_some (h : futexAt s mem addr = some f) :
    Live s f ∧ (s.futex f).addr = addr ∧ (s.futex f).mem = mem := by
  obtain ⟨hmem, hkey⟩ := find_spec h
  exact ⟨⟨_, hmem⟩, hkey⟩

theorem futexAt_live (h : Inv held s) (hlive : Live s f)
    (hm : (s.futex f).mem = mem) (ha : (s.futex f).addr = addr) : futexAt s mem addr = some f := by
  obtain ⟨i, hi⟩ := hlive
  have hi' := hi
  rw [h.place i f hi, hm, ha] at hi'
  cases hat : futexAt s mem addr with
  | none =>
    have hnone := List.find?_eq_none.mp hat f hi'
    simp [hm, ha] at hnone
  | some g =>
    obtain ⟨hg, hga, hgm⟩ := find_spec hat
    rw [h.one _ g f hg hi' (hga.trans ha.symm) (hgm.trans hm.symm)]

theorem queueAt_some (h : futexAt s mem addr = some f) :
    queueAt s mem addr = (s.futex f).queue := by
  unfold queueAt
  rw [h]

theorem queueAt_none (h : futexAt s mem addr = none) : queueAt s mem addr = [] := by
  unfold queueAt
  rw [h]

theorem queueAt_ext {held' : List FutexId} (h : Inv held s) (h' : Inv held' s')
    (hlive : ∀ f, Live s' f → Live s f ∧ (s'.futex f).mem = (s.futex f).mem ∧
      (s'.futex f).addr = (s.futex f).addr ∧ (s'.futex f).queue = (s.futex f).queue)
    (hgone : ∀ f, Live s f → ¬ Live s' f → (s.futex f).queue = []) (mem addr : Word) :
    queueAt s' mem addr = queueAt s mem addr := by
  cases hat' : futexAt s' mem addr with
  | some f =>
    obtain ⟨hl', ha, hm⟩ := futexAt_some hat'
    obtain ⟨hl, hmem, haddr, hqueue⟩ := hlive f hl'
    have hat := futexAt_live h hl (hmem.symm.trans hm) (haddr.symm.trans ha)
    rw [queueAt_some hat', queueAt_some hat, hqueue]
  | none =>
    rw [queueAt_none hat']
    cases hat : futexAt s mem addr with
    | none => exact (queueAt_none hat).symm
    | some f =>
      obtain ⟨hl, ha, hm⟩ := futexAt_some hat
      rw [queueAt_some hat]
      refine (hgone f hl fun hl' => ?_).symm
      obtain ⟨-, hmem, haddr, -⟩ := hlive f hl'
      have hsome := futexAt_live h' hl' (hmem.trans hm) (haddr.trans ha)
      rw [hat'] at hsome
      cases hsome

/-! ## Getting and putting -/

theorem get_isSome (h : malloc = true ∨ (futexAt s mem addr).isSome) :
    ∃ s' f, futexGetUnlocked mem addr malloc s = (s', some f) := by
  unfold futexGetUnlocked
  cases hat : futexAt s mem addr with
  | some f =>
    rw [show List.find? _ _ = some f from hat]
    exact ⟨_, f, rfl⟩
  | none =>
    rw [show List.find? _ _ = none from hat]
    rw [hat] at h
    obtain rfl : malloc = true := by simpa using h
    exact ⟨_, _, rfl⟩

theorem get_isNone (h : ¬ (futexAt s mem addr).isSome) :
    futexGetUnlocked mem addr false s = (s, none) := by
  unfold futexGetUnlocked
  have hat : futexAt s mem addr = none := by simpa using h
  rw [show List.find? _ _ = none from hat]
  rfl

theorem get_frame {r : Option FutexId} (hget : futexGetUnlocked mem addr malloc s = (s', r)) :
    s'.pipe = s.pipe ∧ s'.mem = s.mem ∧ s'.word = s.word ∧ s'.crashed = s.crashed ∧
      s'.log = s.log := by
  unfold futexGetUnlocked at hget
  split at hget
  · cases hget
    exact ⟨rfl, rfl, rfl, rfl, rfl⟩
  split at hget
  · cases hget
    exact ⟨rfl, rfl, rfl, rfl, rfl⟩
  · cases hget
    exact ⟨rfl, rfl, rfl, rfl, rfl⟩

theorem get_queueAt (h : Inv held s) (hget : futexGetUnlocked mem addr malloc s = (s', some f)) :
    futexAt s' mem addr = some f ∧ (∀ m a, queueAt s' m a = queueAt s m a) ∧
      ∀ m a g, futexAt s m a = some g → futexAt s' m a = some g := by
  have h' := (inv_get h hget).1
  have hlive : Live s' f := h'.held_live f List.mem_cons_self
  unfold futexGetUnlocked at hget
  split at hget
  · rename_i g hfind
    obtain ⟨-, ha, hm⟩ := find_spec hfind
    cases hget
    have hself : (s.setFutex f { s.futex f with refcount := (s.futex f).refcount + 1 }).futex f
        = { s.futex f with refcount := (s.futex f).refcount + 1 } := Function.update_self ..
    have hrec : ∀ g, ((s.setFutex f { s.futex f with
        refcount := (s.futex f).refcount + 1 }).futex g).mem = (s.futex g).mem ∧
        ((s.setFutex f { s.futex f with
          refcount := (s.futex f).refcount + 1 }).futex g).addr = (s.futex g).addr ∧
        ((s.setFutex f { s.futex f with
          refcount := (s.futex f).refcount + 1 }).futex g).queue = (s.futex g).queue := by
      intro g
      by_cases hgf : g = f
      · subst hgf
        rw [hself]
        exact ⟨rfl, rfl, rfl⟩
      · rw [show (s.setFutex f _).futex g = s.futex g from Function.update_of_ne hgf ..]
        exact ⟨rfl, rfl, rfl⟩
    refine ⟨futexAt_live h' hlive ((congrArg Futex.mem hself).trans hm)
      ((congrArg Futex.addr hself).trans ha),
      queueAt_ext h h' (fun g hg => ⟨hg, hrec g⟩) fun g hg hng => absurd hg hng, ?_⟩
    intro m a g hat
    obtain ⟨hg, hga, hgm⟩ := futexAt_some hat
    exact futexAt_live h' hg ((hrec g).1.trans hgm) ((hrec g).2.1.trans hga)
  · rename_i hnone
    split at hget
    · cases hget
      have hself : Function.update s.futex s.fresh { refcount := 1, mem, addr, queue := [] } s.fresh
          = { refcount := 1, mem, addr, queue := [] } := Function.update_self ..
      have hother : ∀ g, Live s g →
          Function.update s.futex s.fresh { refcount := 1, mem, addr, queue := [] } g = s.futex g :=
        fun g hg => Function.update_of_ne (Nat.ne_of_lt (h.old g hg).1) ..
      refine ⟨futexAt_live h' hlive (congrArg Futex.mem hself) (congrArg Futex.addr hself),
        fun m a => (queueAt_ext h' h ?_ ?_ m a).symm, ?_⟩
      · intro g hg
        dsimp only
        rw [hother g hg]
        obtain ⟨i, hi⟩ := hg
        exact ⟨⟨i, Ilist.mem_add.mpr (.inr hi)⟩, rfl, rfl, rfl⟩
      · rintro g ⟨i, hi⟩ hold
        rcases Ilist.mem_add.mp hi with ⟨-, rfl⟩ | hi
        · dsimp only
          rw [Function.update_self]
        · exact absurd ⟨i, hi⟩ hold
      intro m a g hat
      obtain ⟨hg, hga, hgm⟩ := futexAt_some hat
      obtain ⟨i, hi⟩ := id hg
      refine futexAt_live h' ⟨i, Ilist.mem_add.mpr (.inr hi)⟩ ?_ ?_
      · dsimp only
        rw [hother g hg]
        exact hgm
      dsimp only
      rw [hother g hg]
      exact hga
    · cases hget

theorem put_queueAt (h : Inv (f :: held) s) (mem addr : Word) :
    queueAt (futexPutUnlocked f s) mem addr = queueAt s mem addr := by
  have h' := inv_put h
  have hlive : Live s f := h.held_live f List.mem_cons_self
  have hfut : ∀ g, ((futexPutUnlocked f s).futex g).mem = (s.futex g).mem ∧
      ((futexPutUnlocked f s).futex g).addr = (s.futex g).addr ∧
      ((futexPutUnlocked f s).futex g).queue = (s.futex g).queue := by
    intro g
    have hrec : (futexPutUnlocked f s).futex =
        (s.setFutex f { s.futex f with refcount := (s.futex f).refcount - 1 }).futex := by
      unfold futexPutUnlocked
      dsimp only
      split <;> rfl
    rw [hrec]
    unfold State.setFutex
    dsimp only
    by_cases hg : g = f
    · subst hg
      rw [Function.update_self]
      exact ⟨rfl, rfl, rfl⟩
    · rw [Function.update_of_ne hg]
      exact ⟨rfl, rfl, rfl⟩
  refine queueAt_ext h h' (fun g hg => ⟨?_, hfut g⟩) ?_ mem addr
  · unfold futexPutUnlocked at hg
    dsimp only at hg
    split at hg
    · obtain ⟨i, hi⟩ := hg
      exact ⟨i, List.mem_of_mem_erase hi⟩
    · exact hg
  intro g hg hgone
  have hold := (h.old g hg).1
  have hfresh : (futexPutUnlocked f s).fresh = s.fresh := by
    unfold futexPutUnlocked
    dsimp only
    split <;> rfl
  rw [← (hfut g).2.2]
  exact (h'.gone g (hfresh ▸ hold) hgone).2.2

/-! ## The loops -/

theorem futexAt_congr (hb : s'.bucket = s.bucket)
    (hkey : ∀ g, (s'.futex g).mem = (s.futex g).mem ∧ (s'.futex g).addr = (s.futex g).addr)
    (mem addr : Word) : futexAt s' mem addr = futexAt s mem addr := by
  unfold futexAt
  rw [hb]
  congr 1
  funext g
  rw [(hkey g).1, (hkey g).2]

theorem markWoken_frame (t : TaskId) (s : State) :
    (markWoken t s).bucket = s.bucket ∧ (markWoken t s).futex = s.futex ∧
      (markWoken t s).pipe = s.pipe ∧ (markWoken t s).mem = s.mem ∧
      (markWoken t s).crashed = s.crashed ∧ (markWoken t s).log = s.log := by
  unfold markWoken
  split <;> exact ⟨rfl, rfl, rfl, rfl, rfl, rfl⟩

theorem wakeLoop_frame (f : FutexId) (max : Nat) (ts : List TaskId) (n : Nat) (s : State) :
    let s' := (wakeLoop f max ts n s).1
    s'.bucket = s.bucket ∧ s'.mem = s.mem ∧ s'.crashed = s.crashed ∧ s'.log = s.log := by
  induction ts generalizing n s with
  | nil => exact ⟨rfl, rfl, rfl, rfl⟩
  | cons t ts ih =>
    rw [wakeLoop]
    split
    · exact ⟨rfl, rfl, rfl, rfl⟩
    obtain ⟨hb, -, -, hm, hc, hl⟩ := markWoken_frame t (unqueue f t (writePipe t s))
    obtain ⟨ihb, ihm, ihc, ihl⟩ := ih (n + 1) (markWoken t (unqueue f t (writePipe t s)))
    exact ⟨ihb.trans hb, ihm.trans hm, ihc.trans hc, ihl.trans hl⟩

theorem wakeQueue_frame (f : FutexId) (max : Nat) (s : State) :
    let s' := (futexWakeQueue f max s).1
    s'.bucket = s.bucket ∧ s'.mem = s.mem ∧ s'.crashed = s.crashed ∧ s'.log = s.log :=
  wakeLoop_frame f max (s.futex f).queue 0 s

theorem wakeLoop_queue (max : Nat) {ts : List TaskId} (n : Nat) (hq : (s.futex f).queue = ts) :
    (wakeLoop f max ts n s).1.futex
      = Function.update s.futex f { s.futex f with queue := ts.drop (max - n) } ∧
    (wakeLoop f max ts n s).2 = n + min (max - n) ts.length := by
  induction ts generalizing n s with
  | nil =>
    rw [wakeLoop, List.drop_nil, ← hq, Function.update_eq_self]
    exact ⟨rfl, by rw [hq, List.length_nil, Nat.min_zero, Nat.add_zero]⟩
  | cons t ts ih =>
    rw [wakeLoop]
    split
    · rename_i hmax
      rw [show max - n = 0 from by omega, List.drop_zero, ← hq, Function.update_eq_self,
        Nat.zero_min]
      exact ⟨rfl, rfl⟩
    · rename_i hmax
      have hfut : (markWoken t (unqueue f t (writePipe t s))).futex
          = Function.update s.futex f { s.futex f with queue := ts } := by
        rw [(markWoken_frame t _).2.1]
        show Function.update s.futex f { s.futex f with queue := (s.futex f).queue.erase t } = _
        rw [hq, List.erase_cons_head]
      obtain ⟨ihf, ihn⟩ := ih (n + 1) (s := markWoken t (unqueue f t (writePipe t s)))
        (by rw [hfut, Function.update_self])
      rw [ihf, ihn, hfut, Function.update_self, Function.update_idem, List.length_cons,
        show max - n = (max - (n + 1)) + 1 from by omega, List.drop_succ_cons]
      exact ⟨rfl, by omega⟩

theorem wakeLoop_pipe {max : Nat} {ts : List TaskId} {n : Nat} (hn : ts.Nodup) (u : TaskId) :
    (wakeLoop f max ts n s).1.pipe u =
      if u ∈ ts.take (max - n) then (s.pipe u).map (· + 1) else s.pipe u := by
  induction ts generalizing n s with
  | nil =>
    rw [wakeLoop, List.take_nil, if_neg List.not_mem_nil]
  | cons t ts ih =>
    obtain ⟨ht, hn⟩ := List.nodup_cons.mp hn
    rw [wakeLoop]
    split
    · rename_i hmax
      rw [show max - n = 0 from by omega, List.take_zero, if_neg List.not_mem_nil]
    · rename_i hmax
      rw [ih hn, (markWoken_frame t _).2.2.1, show max - n = (max - (n + 1)) + 1 from by omega,
        List.take_succ_cons]
      show (if u ∈ ts.take (max - (n + 1)) then
        (Function.update s.pipe t ((s.pipe t).map (· + 1)) u).map (· + 1)
        else Function.update s.pipe t ((s.pipe t).map (· + 1)) u) = _
      by_cases hu : u = t
      · subst hu
        rw [if_neg fun hc => ht (List.mem_of_mem_take hc), if_pos List.mem_cons_self,
          Function.update_self]
      · rw [Function.update_of_ne hu]
        simp only [List.mem_cons, hu, false_or]

theorem nextEntry_head (t : TaskId) (q : List TaskId) : nextEntry (t :: q) t = q.head? := by
  unfold nextEntry
  rw [List.dropWhile_cons_of_neg (by simp)]
  rfl

theorem requeueOne_rest (f f2 : FutexId) (t : TaskId) (s : State) :
    (requeueOne f f2 t s).pipe = s.pipe ∧ (requeueOne f f2 t s).crashed = s.crashed ∧
      (requeueOne f f2 t s).log = s.log := by
  unfold requeueOne retarget
  dsimp only
  split <;> exact ⟨rfl, rfl, rfl⟩

theorem requeueLoop_frame (f f2 : FutexId) (max : Nat) (cur : Option TaskId) (n : Nat) (s : State) :
    let s' := (requeueLoop f f2 max cur n s).1
    s'.bucket = s.bucket ∧ s'.pipe = s.pipe ∧ s'.crashed = s.crashed ∧ s'.log = s.log ∧
      ∀ g, (s'.futex g).mem = (s.futex g).mem ∧ (s'.futex g).addr = (s.futex g).addr := by
  induction max generalizing cur n s with
  | zero => exact ⟨rfl, rfl, rfl, rfl, fun _ => ⟨rfl, rfl⟩⟩
  | succ max ih =>
    cases cur with
    | none => exact ⟨rfl, rfl, rfl, rfl, fun _ => ⟨rfl, rfl⟩⟩
    | some t =>
      rw [requeueLoop]
      obtain ⟨hp, hc, hl⟩ := requeueOne_rest f f2 t s
      obtain ⟨ihb, ihp, ihc, ihl, ihk⟩ :=
        ih (nextEntry (s.futex f).queue t) (n + 1) (requeueOne f f2 t s)
      refine ⟨ihb.trans (requeueOne_frame f f2 t s).1, ihp.trans hp, ihc.trans hc, ihl.trans hl,
        fun g => ?_⟩
      rw [(ihk g).1, (ihk g).2, requeueOne_futex]
      exact ⟨rfl, rfl⟩

theorem requeueLoop_apart {f2 : FutexId} (hne : f ≠ f2) (max n : Nat) (hq : (s.futex f).queue = q) :
    let r := requeueLoop f f2 max q.head? n s
    (r.1.futex f).queue = q.drop max ∧ (r.1.futex f2).queue = (s.futex f2).queue ++ q.take max ∧
      (∀ g, g ≠ f → g ≠ f2 → (r.1.futex g).queue = (s.futex g).queue) ∧
      r.2 = n + min max q.length := by
  induction max generalizing n s q with
  | zero =>
    refine ⟨hq, ?_, fun _ _ _ => rfl, ?_⟩
    · rw [List.take_zero, List.append_nil]
      rfl
    · rw [Nat.zero_min]
      rfl
  | succ max ih =>
    cases q with
    | nil =>
      refine ⟨hq, ?_, fun _ _ _ => rfl, ?_⟩
      · rw [List.take_nil, List.append_nil]
        rfl
      · rw [List.length_nil, Nat.min_zero]
        rfl
    | cons t q =>
      have hf : ((requeueOne f f2 t s).futex f).queue = q := by
        rw [requeueOne_futex, if_pos rfl, hq, List.erase_cons_head]
        simp [hne]
      have hf2 : ((requeueOne f f2 t s).futex f2).queue = (s.futex f2).queue ++ [t] := by
        rw [requeueOne_futex]
        simp [Ne.symm hne]
      obtain ⟨ihf, ihf2, ihg, ihn⟩ := ih (n + 1) hf
      rw [List.head?_cons, requeueLoop, hq, nextEntry_head]
      refine ⟨ihf, ?_, ?_, ?_⟩
      · rw [ihf2, hf2, List.append_assoc, List.take_succ_cons]
        rfl
      · intro g hg hg2
        rw [ihg g hg hg2, requeueOne_futex]
        simp [hg, hg2]
      · rw [ihn, List.length_cons]
        omega

theorem requeueOne_same {t : TaskId} (hq : (s.futex f).queue = t :: q) :
    ((requeueOne f f t s).futex f).queue = q ++ [t] ∧
      ∀ g, g ≠ f → ((requeueOne f f t s).futex g).queue = (s.futex g).queue := by
  refine ⟨?_, fun g hg => ?_⟩
  · rw [requeueOne_futex, if_pos rfl, hq, List.erase_cons_head]
    simp
  · rw [requeueOne_futex]
    simp [hg]

theorem requeueLoop_rotates (max n : Nat) (hq : (s.futex f).queue = q) (htwo : 2 ≤ q.length) :
    let r := requeueLoop f f max q.head? n s
    (r.1.futex f).queue = q.rotate max ∧
      (∀ g, g ≠ f → (r.1.futex g).queue = (s.futex g).queue) ∧ r.2 = n + max := by
  induction max generalizing n s q with
  | zero =>
    refine ⟨?_, fun _ _ => rfl, rfl⟩
    rw [List.rotate_zero]
    exact hq
  | succ max ih =>
    cases q with
    | nil => cases htwo
    | cons t q =>
      obtain ⟨hf, hg⟩ := requeueOne_same hq
      have hhead : (q ++ [t]).head? = q.head? := by
        cases q with
        | nil => exact absurd htwo (by simp)
        | cons u q => rfl
      obtain ⟨ihf, ihg, ihn⟩ := ih (n + 1) hf (by simpa using htwo)
      rw [hhead] at ihf ihg ihn
      rw [List.head?_cons, requeueLoop, hq, nextEntry_head, List.rotate_cons_succ]
      refine ⟨ihf, fun g hne => (ihg g hne).trans (hg g hne), ?_⟩
      rw [ihn]
      omega

theorem requeueLoop_alone (max n : Nat) (hq : (s.futex f).queue = q) (hone : q.length ≤ 1) :
    let r := requeueLoop f f max q.head? n s
    (r.1.futex f).queue = q ∧
      (∀ g, g ≠ f → (r.1.futex g).queue = (s.futex g).queue) ∧ r.2 = n + min max q.length := by
  cases max with
  | zero => exact ⟨hq, fun _ _ => rfl, by rw [Nat.zero_min]; rfl⟩
  | succ max =>
    cases q with
    | nil => exact ⟨hq, fun _ _ => rfl, by rw [List.length_nil, Nat.min_zero]; rfl⟩
    | cons t q =>
      obtain rfl : q = [] := by
        cases q with
        | nil => rfl
        | cons u q => simp at hone
      obtain ⟨hf, hg⟩ := requeueOne_same hq
      have hend : requeueLoop f f max none (n + 1) (requeueOne f f t s)
          = (requeueOne f f t s, n + 1) := by
        cases max <;> rfl
      rw [List.head?_cons, requeueLoop, hq, nextEntry_head, List.head?_nil, hend]
      refine ⟨hf, hg, ?_⟩
      rw [List.length_singleton]
      omega

/-! ## The call -/

theorem put_rest (f : FutexId) (s : State) :
    (futexPutUnlocked f s).pipe = s.pipe ∧ (futexPutUnlocked f s).crashed = s.crashed ∧
      (futexPutUnlocked f s).log = s.log := by
  unfold futexPutUnlocked
  dsimp only
  split <;> exact ⟨rfl, rfl, rfl⟩

theorem requeue_spec {uaddr : Word} {max n : Nat}
    (h : Inv held s) (hf : f ∈ held) (hat : futexAt s mem uaddr = some f)
    (hr : requeue f mem max addr malloc s = some (s', n)) :
    let q := queueAt s mem
    (∀ m a, m ≠ mem → queueAt s' m a = queueAt s m a) ∧
    (uaddr ≠ addr → (∀ a, queueAt s' mem a = Function.update
        (Function.update q uaddr ((q uaddr).drop max)) addr (q addr ++ (q uaddr).take max) a) ∧
      n = min max (q uaddr).length) ∧ (uaddr = addr → 2 ≤ (q uaddr).length →
      (∀ a, queueAt s' mem a = Function.update q uaddr ((q uaddr).rotate max) a) ∧ n = max) ∧
    (uaddr = addr → (q uaddr).length ≤ 1 →
      (∀ a, queueAt s' mem a = q a) ∧ n = min max (q uaddr).length) ∧
    s'.pipe = s.pipe ∧ s'.crashed = s.crashed ∧ s'.log = s.log := by
  intro q
  unfold requeue at hr
  rcases hget : futexGetUnlocked mem addr malloc s with ⟨s₁, _ | f2⟩
  · rw [hget] at hr
    cases hr
  rw [hget] at hr
  cases hr
  obtain ⟨h₁, -⟩ := inv_get h hget
  obtain ⟨hat2, hq₁, hkeep⟩ := get_queueAt h hget
  obtain ⟨hgp, -, -, hgc, hgl⟩ := get_frame hget
  have hat1 := hkeep mem uaddr f hat
  obtain ⟨hlf, hfa, hfm⟩ := futexAt_some hat1
  obtain ⟨hlf2, hf2a, hf2m⟩ := futexAt_some hat2
  have hqf : (s₁.futex f).queue = q uaddr := (queueAt_some hat1).symm.trans (hq₁ mem uaddr)
  have hqf2 : (s₁.futex f2).queue = q addr := (queueAt_some hat2).symm.trans (hq₁ mem addr)
  obtain ⟨hb, hp, hc, hl, hkey⟩ := requeueLoop_frame f f2 max (s₁.futex f).queue.head? 0 s₁
  have h₂ : Inv (f2 :: held) (requeueLoop f f2 max (s₁.futex f).queue.head? 0 s₁).1 :=
    inv_rules.requeues (n := 0) h₁ (List.mem_cons_of_mem f2 hf) List.mem_cons_self
      fun t ht => List.mem_of_head? ht
  set r := requeueLoop f f2 max (s₁.futex f).queue.head? 0 s₁ with hrdef
  have hat' := futexAt_congr hb hkey
  obtain ⟨hpp, hpc, hpl⟩ := put_rest f2 r.1
  -- the queue of an address after the loop, from that of its futex
  have hqueue : ∀ m a g, futexAt s₁ m a = some g →
      queueAt (futexPutUnlocked f2 r.1) m a = (r.1.futex g).queue := by
    intro m a g hg
    rw [put_queueAt h₂, queueAt_some ((hat' m a).trans hg)]
  have hempty : ∀ m a, futexAt s₁ m a = none →
      queueAt (futexPutUnlocked f2 r.1) m a = queueAt s m a := by
    intro m a hg
    rw [put_queueAt h₂, queueAt_none ((hat' m a).trans hg), ← hq₁ m a, queueAt_none hg]
  have hsame : ∀ m a, (∀ g, futexAt s₁ m a = some g → (r.1.futex g).queue = (s₁.futex g).queue) →
      queueAt (futexPutUnlocked f2 r.1) m a = queueAt s m a := by
    intro m a hg
    cases hata : futexAt s₁ m a with
    | none => exact hempty m a hata
    | some g => rw [hqueue m a g hata, hg g hata, ← hq₁ m a, queueAt_some hata]
  have hne1 : ∀ m a g, futexAt s₁ m a = some g → ¬ (m = mem ∧ a = uaddr) → g ≠ f := by
    rintro m a g hg hkey' rfl
    obtain ⟨-, ha, hm⟩ := futexAt_some hg
    exact hkey' ⟨hm.symm.trans hfm, ha.symm.trans hfa⟩
  have hne2 : ∀ m a g, futexAt s₁ m a = some g → ¬ (m = mem ∧ a = addr) → g ≠ f2 := by
    rintro m a g hg hkey' rfl
    obtain ⟨-, ha, hm⟩ := futexAt_some hg
    exact hkey' ⟨hm.symm.trans hf2m, ha.symm.trans hf2a⟩
  refine ⟨?_, ?_, ?_, ?_, hpp.trans (hp.trans hgp), hpc.trans (hc.trans hgc),
    hpl.trans (hl.trans hgl)⟩
  · intro m a hm
    refine hsame m a fun g hg => ?_
    have hgf := hne1 m a g hg fun hc => hm hc.1
    have hgf2 := hne2 m a g hg fun hc => hm hc.1
    by_cases hff : f = f2
    · subst hff
      rcases Nat.lt_or_ge (s₁.futex f).queue.length 2 with hlen | hlen
      · exact (requeueLoop_alone max 0 rfl (by omega)).2.1 g hgf
      · exact (requeueLoop_rotates max 0 rfl hlen).2.1 g hgf
    · exact (requeueLoop_apart hff max 0 rfl).2.2.1 g hgf hgf2
  · intro hua
    have hff : f ≠ f2 := by
      rintro rfl
      exact hua (hfa.symm.trans hf2a)
    obtain ⟨hrf, hrf2, hrg, hrn⟩ := requeueLoop_apart hff max 0 (rfl : (s₁.futex f).queue = _)
    rw [← hrdef] at hrf hrf2 hrg hrn
    refine ⟨fun a => ?_, by rw [hrn, hqf, Nat.zero_add]⟩
    by_cases ha2 : a = addr
    · subst ha2
      rw [Function.update_self, hqueue mem a f2 hat2, hrf2, hqf, hqf2]
    rw [Function.update_of_ne ha2]
    by_cases ha : a = uaddr
    · subst ha
      rw [Function.update_self, hqueue mem a f hat1, hrf, hqf]
    rw [Function.update_of_ne ha]
    exact hsame mem a fun g hg =>
      hrg g (hne1 mem a g hg fun hc => ha hc.2) (hne2 mem a g hg fun hc => ha2 hc.2)
  · rintro rfl htwo
    obtain rfl : f = f2 := Option.some.inj (hat1.symm.trans hat2)
    rw [← hqf] at htwo ⊢
    obtain ⟨hrf, hrg, hrn⟩ := requeueLoop_rotates max 0 rfl htwo
    rw [← hrdef] at hrf hrg hrn
    refine ⟨fun a => ?_, by rw [hrn, Nat.zero_add]⟩
    by_cases ha : a = uaddr
    · subst ha
      rw [Function.update_self, hqueue mem a f hat1, hrf]
    · rw [Function.update_of_ne ha]
      exact hsame mem a fun g hg => hrg g (hne1 mem a g hg fun hc => ha hc.2)
  rintro rfl hone
  obtain rfl : f = f2 := Option.some.inj (hat1.symm.trans hat2)
  rw [← hqf] at hone ⊢
  obtain ⟨hrf, hrg, hrn⟩ := requeueLoop_alone max 0 rfl hone
  rw [← hrdef] at hrf hrg hrn
  refine ⟨fun a => hsame mem a fun g hg => ?_, by rw [hrn, Nat.zero_add]⟩
  by_cases hgf : g = f
  · subst hgf
    exact hrf
  · exact hrg g hgf

theorem wakeQueue_byAddr {uaddr : Word} (max : Nat) (h : Inv held s)
    (hat : futexAt s mem uaddr = some f) :
    let r := futexWakeQueue f max s
    let q := queueAt s mem
    (∀ m a, futexAt r.1 m a = futexAt s m a) ∧ (∀ m a, m ≠ mem → queueAt r.1 m a = queueAt s m a) ∧
    (∀ a, queueAt r.1 mem a = Function.update q uaddr ((q uaddr).drop max) a) ∧
    (∀ u, r.1.pipe u = if u ∈ (q uaddr).take max then (s.pipe u).map (· + 1) else s.pipe u) ∧
    r.2 = min max (q uaddr).length := by
  intro r q
  obtain ⟨hlive, ha, hm⟩ := futexAt_some hat
  have hq : (s.futex f).queue = q uaddr := (queueAt_some hat).symm
  obtain ⟨hfut, hn⟩ := wakeLoop_queue max 0 hq
  rw [Nat.sub_zero] at hfut hn
  rw [← hq, show wakeLoop f max (s.futex f).queue 0 s = r from rfl, hq] at hfut hn
  have hself : (r.1.futex f) = { s.futex f with queue := (q uaddr).drop max } := by
    rw [hfut, Function.update_self]
  have hne : ∀ g, g ≠ f → r.1.futex g = s.futex g := by
    intro g hg
    rw [hfut, Function.update_of_ne hg]
  have hat' : ∀ m a, futexAt r.1 m a = futexAt s m a := by
    refine futexAt_congr (wakeLoop_frame f max _ 0 s).1 fun g => ?_
    by_cases hg : g = f
    · subst hg
      rw [hself]
      exact ⟨rfl, rfl⟩
    · rw [hne g hg]
      exact ⟨rfl, rfl⟩
  have hsame : ∀ m a, ¬ (m = mem ∧ a = uaddr) → queueAt r.1 m a = queueAt s m a := by
    intro m a hkey
    unfold queueAt
    rw [hat' m a]
    cases hg : futexAt s m a with
    | none => rfl
    | some g =>
      have hgf : g ≠ f := by
        rintro rfl
        obtain ⟨-, hga, hgm⟩ := futexAt_some hg
        exact hkey ⟨hgm.symm.trans hm, hga.symm.trans ha⟩
      dsimp only
      rw [hne g hgf]
  refine ⟨hat', fun m a hmem => hsame m a fun hc => hmem hc.1, fun a => ?_, fun u => ?_, ?_⟩
  · by_cases haa : a = uaddr
    · subst haa
      rw [Function.update_self, queueAt_some ((hat' mem a).trans hat), hself]
    · rw [Function.update_of_ne haa]
      exact hsame mem a fun hc => haa hc.2
  · rw [← hq]
    exact wakeLoop_pipe (h.queue_nodup f hlive) u
  · rw [hn, Nat.zero_add]

theorem get_back (h : Inv held s)
    (hget : futexGetUnlocked mem addr malloc s = (s', some f)) {m a : Word}
    (hat : (futexAt s' m a).isSome) : (m = mem ∧ a = addr) ∨ (futexAt s m a).isSome := by
  have h' := (inv_get h hget).1
  obtain ⟨g, hg⟩ := Option.isSome_iff_exists.mp hat
  obtain ⟨hlive, hga, hgm⟩ := futexAt_some hg
  by_cases hgf : g = f
  · subst hgf
    obtain ⟨-, hfa, hfm⟩ := futexAt_some (get_queueAt h hget).1
    exact .inl ⟨hgm.symm.trans hfm, hga.symm.trans hfa⟩
  refine .inr ?_
  suffices hs : Live s g ∧ (s.futex g).mem = (s'.futex g).mem ∧
      (s.futex g).addr = (s'.futex g).addr by
    rw [futexAt_live h hs.1 (hs.2.1.trans hgm) (hs.2.2.trans hga)]
    rfl
  unfold futexGetUnlocked at hget
  split at hget
  · cases hget
    rw [show (s.setFutex f _).futex g = s.futex g from Function.update_of_ne hgf ..]
    exact ⟨hlive, rfl, rfl⟩
  split at hget
  · cases hget
    dsimp only
    rw [Function.update_of_ne hgf]
    obtain ⟨i, hi⟩ := hlive
    rcases Ilist.mem_add.mp hi with ⟨-, hc⟩ | hi
    · exact absurd hc hgf
    · exact ⟨⟨i, hi⟩, rfl, rfl⟩
  · cases hget

theorem rotate_of_short (l : List TaskId) (n : Nat) (h : l.length ≤ 1) :
    l.drop n ++ l.take n = l := by
  cases n with
  | zero => rw [List.drop_zero, List.take_zero, List.append_nil]
  | succ n =>
    rw [List.drop_of_length_le (by omega), List.take_of_length_le (by omega), List.nil_append]

end Table

/-! ## Runs -/

/-- The futex of the target can be had, and the loop ends before it comes round. -/
def Ends (s : State) (mem uaddr : Word) (wakeMax requeueMax : Nat) (requeueAddr : Word)
    (malloc2 : Bool) : Prop :=
  (malloc2 = true ∨ uaddr = requeueAddr ∨ (futexAt s mem requeueAddr).isSome) ∧
    (uaddr ≠ requeueAddr ∨ requeueMax ≤ (queueAt s mem uaddr).length - wakeMax ∨
      (queueAt s mem uaddr).length - wakeMax ≤ 1)

/-- **Each waiter moves at most once.** In any state of a run, with the value there: the call does what
it is for if and only if the target's futex can be had and, where the addresses are the same,
at most as many are to move as are left or one at most is left. -/
theorem cmpRequeue_run (mem : TaskId → Word) (word : Word → Word → Option Dword)
    (ops : List Event) (t : TaskId) (uaddr : Word) (wakeMax requeueMax : Nat)
    (requeueAddr : Word) (expected : Dword) (malloc malloc2 : Bool) :
    let s := run step (init mem word) ops
    s.crashed = false → s.idle t = true → s.word (s.mem t) uaddr = some expected →
    (malloc = true ∨ (futexAt s (s.mem t) uaddr).isSome) →
    let s' := step s (.cmpRequeue t uaddr wakeMax requeueMax requeueAddr expected malloc malloc2)
    ((∃ woken requeued, s'.crashed = false ∧ s'.log = s.log ++ [.woke t woken requeued] ∧
      MovedOnce s s' (s.mem t) uaddr wakeMax requeueMax requeueAddr (woken + requeued)) ↔
    Ends s (s.mem t) uaddr wakeMax requeueMax requeueAddr malloc2) := by
  intro s hcrash hidle hword hmalloc s'
  have h : Inv [] s := run_invariant_all inv_rules.step (inv_init mem word)
  obtain ⟨s₁, f, hget⟩ := get_isSome hmalloc
  obtain ⟨h₁, -⟩ := inv_get h hget
  obtain ⟨hat₁, hq₁, -⟩ := get_queueAt h hget
  obtain ⟨hp₁, hm₁, hw₁, hc₁, hl₁⟩ := get_frame hget
  have hload : futexLoad f s₁ = some expected := by
    obtain ⟨-, ha, hm⟩ := futexAt_some hat₁
    unfold futexLoad
    rw [ha, hm, hw₁]
    exact hword
  obtain ⟨hat₂, ho₂, hq₂, hp₂, hn₂⟩ := wakeQueue_byAddr wakeMax h₁ hat₁
  obtain ⟨-, hm₂, hc₂, hl₂⟩ := wakeQueue_frame f wakeMax s₁
  have h₂ := inv_rules.wakeQueue (n := 0) wakeMax h₁ List.mem_cons_self
  have hs' : s' = s.orCrash
      (futexCmpRequeue t uaddr wakeMax requeueMax requeueAddr expected malloc malloc2 s) := by
    show step s _ = _
    unfold step
    rw [if_neg (by rw [hcrash]; decide)]
    dsimp only
    rw [if_pos hidle]
  unfold futexCmpRequeue at hs'
  rw [hget] at hs'
  dsimp only at hs'
  rw [hload] at hs'
  dsimp only at hs'
  rw [if_neg (by simp)] at hs'
  rw [hm₂, hm₁] at hs'
  -- the target's futex, as the second half of the call finds it
  have htarget : (malloc2 = true ∨ (futexAt (futexWakeQueue f wakeMax s₁).1 (s.mem t)
      requeueAddr).isSome) ↔
      (malloc2 = true ∨ uaddr = requeueAddr ∨ (futexAt s (s.mem t) requeueAddr).isSome) := by
    rw [hat₂]
    constructor
    · rintro (hm | hs)
      · exact .inl hm
      rcases get_back h hget hs with ⟨-, hu⟩ | hs
      · exact .inr (.inl hu.symm)
      · exact .inr (.inr hs)
    rintro (hm | rfl | hs)
    · exact .inl hm
    · rw [hat₁]
      exact .inr rfl
    obtain ⟨g, hg⟩ := Option.isSome_iff_exists.mp hs
    rw [(get_queueAt h hget).2.2 _ _ g hg]
    exact .inr rfl
  unfold Ends
  rw [← htarget]
  rw [hp₁] at hp₂
  rw [show queueAt s₁ (s.mem t) = queueAt s (s.mem t) from funext (hq₁ _)] at hq₂ hp₂ hn₂
  generalize futexWakeQueue f wakeMax s₁ = r at hs' hat₂ ho₂ hq₂ hp₂ hn₂ hc₂ hl₂ h₂ ⊢
  obtain ⟨s₂, w⟩ := r
  dsimp only at hs' hat₂ ho₂ hq₂ hp₂ hn₂ hc₂ hl₂ h₂ ⊢
  set q := queueAt s (s.mem t) with hq
  cases hr : requeue f (s.mem t) requeueMax requeueAddr malloc2 s₂ with
  | none =>
    rw [hr] at hs'
    constructor
    · rintro ⟨-, -, hcr, -⟩
      rw [hs'] at hcr
      cases hcr
    rintro ⟨htgt, -⟩
    obtain ⟨s₃, f2, hget2⟩ := get_isSome htgt
    unfold requeue at hr
    rw [hget2] at hr
    cases hr
  | some res =>
    obtain ⟨s₃, n⟩ := res
    rw [hr] at hs'
    change s' = (futexPutUnlocked f s₃).ret (.woke t w n) at hs'
    have h₃ : Inv [f] s₃ := inv_rules.requeue (n := 0) h₂ List.mem_cons_self hr
    obtain ⟨ho₃, hapart, hrot, halone, hp₃, hc₃, hl₃⟩ :=
      requeue_spec h₂ List.mem_cons_self ((hat₂ _ _).trans hat₁) hr
    obtain ⟨hpp, hpc, hpl⟩ := put_rest f s₃
    have hqueue : ∀ m a, queueAt s' m a = queueAt s₃ m a := by
      intro m a
      rw [hs']
      exact put_queueAt h₃ m a
    have hlog : s'.log = s.log ++ [.woke t w n] := by
      rw [hs']
      show (futexPutUnlocked f s₃).log ++ _ = _
      rw [hpl, hl₃, hl₂, hl₁]
    have hcr : s'.crashed = false := by
      rw [hs']
      exact hpc.trans (hc₃.trans (hc₂.trans (hc₁.trans hcrash)))
    have htgt : malloc2 = true ∨ (futexAt s₂ (s.mem t) requeueAddr).isSome := by
      cases malloc2 with
      | true => exact .inl rfl
      | false =>
        refine .inr (Classical.byContradiction fun hno => ?_)
        unfold requeue at hr
        rw [get_isNone hno] at hr
        cases hr
    have hq₂' : queueAt s₂ (s.mem t) = Function.update q uaddr ((q uaddr).drop wakeMax) :=
      funext hq₂
    rw [hq₂', Function.update_self, List.length_drop] at hapart hrot halone
    rw [Function.update_idem] at hapart hrot
    have hmoved : (∀ a, queueAt s₃ (s.mem t) a = requeued q uaddr wakeMax requeueMax requeueAddr a) →
        n = min requeueMax ((q uaddr).length - wakeMax) →
        MovedOnce s s' (s.mem t) uaddr wakeMax requeueMax requeueAddr (w + n) := by
      intro hqs hn
      refine ⟨fun a => (hqueue _ a).trans (hqs a), fun m a hm => ?_, fun u => ?_, ?_⟩
      · rw [hqueue, ho₃ m a hm, ho₂ m a hm, hq₁]
      · rw [hs']
        show (futexPutUnlocked f s₃).pipe u = _
        rw [hpp, hp₃, hp₂ u]
      · rw [hn₂, hn]
    by_cases hua : uaddr = requeueAddr
    · subst hua
      rw [requeued_same] at hmoved
      rcases Nat.lt_or_ge ((q uaddr).length - wakeMax) 2 with hshort | hlong
      · obtain ⟨hqs, hn⟩ := halone rfl (by omega)
        rw [rotate_of_short _ _ (by rw [List.length_drop]; omega)] at hmoved
        exact ⟨fun _ => ⟨htgt, .inr (.inr (by omega))⟩, fun _ => ⟨w, n, hcr, hlog, hmoved hqs hn⟩⟩
      obtain ⟨hqs, hn⟩ := hrot rfl hlong
      constructor
      · rintro ⟨woken, moved, -, hlog', hm⟩
        have hret : Ret.woke t w n = .woke t woken moved := by
          simpa using hlog.symm.trans hlog'
        cases hret
        have hcount := hm.counts
        rw [← hq] at hcount
        exact ⟨htgt, .inr (.inl (by omega))⟩
      rintro ⟨-, hne | hle | hone⟩
      · exact absurd rfl hne
      · rw [← List.rotate_eq_drop_append_take (by rw [List.length_drop]; exact hle)] at hmoved
        exact ⟨w, n, hcr, hlog, hmoved hqs (by omega)⟩
      · omega
    obtain ⟨hqs, hn⟩ := hapart hua
    rw [Function.update_of_ne (Ne.symm hua)] at hqs
    rw [requeued_apart q hua] at hmoved
    exact ⟨fun _ => ⟨htgt, .inl hua⟩, fun _ => ⟨w, n, hcr, hlog, hmoved hqs hn⟩⟩

/-- Tasks 1 and 2 wait for the value 1 at address 0; task 3 moves them to address 64. -/
theorem cmpRequeue_twoAddresses :
    let s := run step (init (fun _ => 0) fun _ _ => some 1)
      [.wait 1 0 1 false true true, .wait 2 0 1 false true true]
    let s' := step s (.cmpRequeue 3 0 1 5 64 1 true true)
    (∃ woken requeued, s'.crashed = false ∧ s'.log = s.log ++ [.woke 3 woken requeued] ∧
      MovedOnce s s' 0 0 1 5 64 (woken + requeued)) ↔ Ends s 0 0 1 5 64 true :=
  cmpRequeue_run (fun _ => 0) (fun _ _ => some 1)
    [.wait 1 0 1 false true true, .wait 2 0 1 false true true] 3 0 1 5 64 1 true true
    (by decide) (by decide) (by decide) (.inl rfl)

/-- Two tasks wait at address 0, and are to go to address 0: the call says 5. -/
theorem cmpRequeue_comesRound :
    ¬ ∀ (ops : List Event) (uaddr requeueAddr : Word) (wakeMax requeueMax : Nat),
      let s := run step (init (fun _ => 0) fun _ _ => some 1) ops
      let s' := step s (.cmpRequeue 3 uaddr wakeMax requeueMax requeueAddr 1 true true)
      s.crashed = false → s.idle 3 = true →
      ∃ woken requeued, s'.crashed = false ∧ s'.log = s.log ++ [.woke 3 woken requeued] ∧
        MovedOnce s s' 0 uaddr wakeMax requeueMax requeueAddr (woken + requeued) := by
  intro h
  obtain ⟨woken, moved, -, hlog, hm⟩ := h
    [.wait 1 0 1 false true true, .wait 2 0 1 false true true] 0 0 0 5 (by decide) (by decide)
  have hret : [Ret.woke 3 0 5] = [Ret.woke 3 woken moved] := hlog
  cases hret
  exact absurd hm.counts (by decide)

end IosLinuxkit.FutexTable
