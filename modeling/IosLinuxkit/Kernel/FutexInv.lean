import IosLinuxkit.Kernel.Futex

/-!
# The futex table

What the hash, the counts and the queues have to do with each other, at every point where
`futex_lock` is free.

* **`futexTable_run`** — every run.
-/

namespace IosLinuxkit.FutexTable

open Assoc

def Live (s : State) (f : FutexId) : Prop := ∃ i, f ∈ s.bucket i

def belongs (f : FutexId) (w : Wait) : Int := if w.futex = f then 1 else 0

/-- The number of waiters whose `wait.futex` is `f`. -/
def waiters (s : State) (f : FutexId) : Int := sumBy (belongs f) s.waits

structure Inv (held : List FutexId) (s : State) : Prop where
  nodups : Ilist.Nodups s.bucket
  place : ∀ i f, f ∈ s.bucket i → i = hash (s.futex f).mem (s.futex f).addr
  one : ∀ i f f', f ∈ s.bucket i → f' ∈ s.bucket i → (s.futex f).addr = (s.futex f').addr →
    (s.futex f).mem = (s.futex f').mem → f = f'
  old : ∀ f, Live s f → f < s.fresh ∧ f ∉ s.freed
  gone : ∀ f, f < s.fresh → ¬ Live s f →
    f ∈ s.freed ∧ (s.futex f).refcount = 0 ∧ (s.futex f).queue = []
  freed_old : ∀ f ∈ s.freed, f < s.fresh
  freed_nodup : s.freed.Nodup
  count : ∀ f, Live s f → ((s.futex f).refcount : Int) = waiters s f + held.count f
  pos : ∀ f, Live s f → 0 < (s.futex f).refcount
  held_live : ∀ f ∈ held, Live s f
  wait_live : ∀ t w, s.waits.lookup t = some w → Live s w.futex
  queue_wait : ∀ f t, Live s f → t ∈ (s.futex f).queue →
    ∃ w, s.waits.lookup t = some w ∧ w.futex = f
  queue_nodup : ∀ f, Live s f → (s.futex f).queue.Nodup
  asserts : s.asserts = true

/-! ## Waiters -/

theorem belongs_nonneg (f : FutexId) (w : Wait) : 0 ≤ belongs f w := by
  unfold belongs
  split <;> decide

theorem waiters_nonneg (s : State) (f : FutexId) : 0 ≤ waiters s f :=
  sumBy_nonneg (belongs_nonneg f) s.waits

variable {s : State} {t : TaskId} {w : Wait}

theorem waiters_pos (h : s.waits.lookup t = some w) : 1 ≤ waiters s w.futex := by
  have hle := weightAt_le_sumBy (belongs_nonneg w.futex) s.waits t
  rwa [weightAt_of_some h, belongs, if_pos rfl] at hle

theorem waiters_setWait {w' : Wait} (h : s.waits.lookup t = some w)
    (f : FutexId) : waiters (s.setWait t w') f = waiters s f - belongs f w + belongs f w' := by
  unfold waiters State.setWait
  rw [sumBy_insert, weightAt_of_some h]

theorem Inv.frame {held : List FutexId} (h : Inv held s)
    (wakeOp : TaskId → Option WakeOp) (pipe : TaskId → Option Nat) (mem : TaskId → Word)
    (word : Word → Word → Option Dword) (crashed : Bool) (log : List Ret) :
    Inv held { s with wakeOp, pipe, mem, word, crashed, log } :=
  ⟨h.nodups, h.place, h.one, h.old, h.gone, h.freed_old, h.freed_nodup, h.count, h.pos,
    h.held_live, h.wait_live, h.queue_wait, h.queue_nodup, h.asserts⟩

theorem Inv.setWait {held : List FutexId} (h : Inv held s) {w' : Wait}
    (hw : s.waits.lookup t = some w) (hf : w'.futex = w.futex) : Inv held (s.setWait t w') := by
  have hlook : ∀ u v, (s.setWait t w').waits.lookup u = some v →
      ∃ v', s.waits.lookup u = some v' ∧ v'.futex = v.futex := by
    intro u v hv
    by_cases hu : u = t
    · subst hu
      rw [show (s.setWait u w').waits.lookup u = some w' from AList.lookup_insert _] at hv
      cases hv
      exact ⟨w, hw, hf.symm⟩
    rw [show (s.setWait t w').waits.lookup u = s.waits.lookup u from
      AList.lookup_insert_ne hu] at hv
    exact ⟨v, hv, rfl⟩
  refine ⟨h.nodups, h.place, h.one, h.old, h.gone, h.freed_old, h.freed_nodup, ?_, h.pos,
    h.held_live, ?_, ?_, h.queue_nodup, h.asserts⟩
  · intro f hlive
    rw [waiters_setWait hw, show belongs f w' = belongs f w from by unfold belongs; rw [hf]]
    have hc := h.count f hlive
    show ((s.futex f).refcount : Int) = _
    omega
  · intro u v hv
    obtain ⟨v', hv', hf'⟩ := hlook u v hv
    exact hf' ▸ h.wait_live u v' hv'
  intro f u hlive hu
  obtain ⟨v, hv, hvf⟩ := h.queue_wait f u hlive hu
  by_cases hut : u = t
  · subst hut
    rw [hw] at hv
    cases hv
    exact ⟨w', AList.lookup_insert _, hf.trans hvf⟩
  · exact ⟨v, (AList.lookup_insert_ne hut).trans hv, hvf⟩

/-! ## Getting and putting a futex -/

section Table

variable {held : List FutexId} {s : State}

variable {mem addr uaddr : Word} {f f2 : FutexId} {n max max2 : Nat} {malloc malloc2 : Bool} {s' : State}
  {t : TaskId} {w : Wait}

theorem find_spec (h : (s.bucket (hash mem addr)).find?
      (fun f => (s.futex f).addr == addr && (s.futex f).mem == mem) = some f) :
    f ∈ s.bucket (hash mem addr) ∧ (s.futex f).addr = addr ∧ (s.futex f).mem = mem := by
  have hp := List.find?_some h
  simp only [Bool.and_eq_true, beq_iff_eq] at hp
  exact ⟨List.mem_of_find?_eq_some h, hp⟩

theorem Inv.setRefcount (h : Inv held s) {held' : List FutexId}
    (hlive : Live s f) (hn : 0 < n) (hcount : (n : Int) = waiters s f + held'.count f)
    (hother : ∀ g, g ≠ f → held'.count g = held.count g) (hheld : ∀ g ∈ held', Live s g) :
    Inv held' (s.setFutex f { s.futex f with refcount := n }) := by
  set s' := s.setFutex f { s.futex f with refcount := n } with hs'
  have hself : s'.futex f = { s.futex f with refcount := n } := Function.update_self ..
  have hne : ∀ g, g ≠ f → s'.futex g = s.futex g := fun g hg => Function.update_of_ne hg ..
  have hkey : ∀ g, (s'.futex g).mem = (s.futex g).mem ∧ (s'.futex g).addr = (s.futex g).addr ∧
      (s'.futex g).queue = (s.futex g).queue := by
    intro g
    by_cases hg : g = f
    · subst hg
      rw [hself]
      exact ⟨rfl, rfl, rfl⟩
    · rw [hne g hg]
      exact ⟨rfl, rfl, rfl⟩
  refine ⟨h.nodups, ?_, ?_, h.old, ?_, h.freed_old, h.freed_nodup, ?_, ?_, hheld, h.wait_live, ?_,
    ?_, h.asserts⟩
  · intro i g hg
    rw [(hkey g).1, (hkey g).2.1]
    exact h.place i g hg
  · intro i g g' hg hg' ha hm
    rw [(hkey g).2.1, (hkey g').2.1] at ha
    rw [(hkey g).1, (hkey g').1] at hm
    exact h.one i g g' hg hg' ha hm
  · intro g hold hg
    have hgf : g ≠ f := fun hc => hg (hc ▸ hlive)
    rw [hne g hgf]
    exact h.gone g hold hg
  · intro g hg
    by_cases hgf : g = f
    · subst hgf
      rw [hself]
      exact hcount
    · rw [hne g hgf, hother g hgf]
      exact h.count g hg
  · intro g hg
    by_cases hgf : g = f
    · subst hgf
      rw [hself]
      exact hn
    · rw [hne g hgf]
      exact h.pos g hg
  · intro g t hg ht
    rw [(hkey g).2.2] at ht
    exact h.queue_wait g t hg ht
  intro g hg
  rw [(hkey g).2.2]
  exact h.queue_nodup g hg

theorem Inv.new (h : Inv held s) (hnone : (s.bucket (hash mem addr)).find?
      (fun f => (s.futex f).addr == addr && (s.futex f).mem == mem) = none) : Inv (s.fresh :: held)
      { s with
        fresh := s.fresh + 1
        futex := Function.update s.futex s.fresh { refcount := 1, mem, addr, queue := [] }
        bucket := Ilist.add s.bucket (hash mem addr) s.fresh } := by
  set f := s.fresh
  have hnew : ¬ Live s f := fun hl => Nat.lt_irrefl _ (h.old f hl).1
  have hne : ∀ g, Live s g → g ≠ f := fun g hg hc => hnew (hc ▸ hg)
  set s' : State := { s with
    fresh := f + 1
    futex := Function.update s.futex f { refcount := 1, mem, addr, queue := [] }
    bucket := Ilist.add s.bucket (hash mem addr) f } with hs'
  have hself : s'.futex f = { refcount := 1, mem, addr, queue := [] } := Function.update_self ..
  have hold : ∀ g, g ≠ f → s'.futex g = s.futex g := fun g hg => Function.update_of_ne hg ..
  have hmem : ∀ i g, g ∈ s'.bucket i ↔ (i = hash mem addr ∧ g = f) ∨ g ∈ s.bucket i :=
    fun i g => Ilist.mem_add
  have hlive : ∀ g, Live s' g ↔ g = f ∨ Live s g := by
    intro g
    constructor
    · rintro ⟨i, hi⟩
      rcases (hmem i g).mp hi with ⟨-, rfl⟩ | hi
      · exact .inl rfl
      · exact .inr ⟨i, hi⟩
    rintro (rfl | ⟨i, hi⟩)
    · exact ⟨_, (hmem _ _).mpr (.inl ⟨rfl, rfl⟩)⟩
    · exact ⟨i, (hmem i g).mpr (.inr hi)⟩
  -- nothing in the bucket has the key
  have hkey : ∀ g ∈ s.bucket (hash mem addr), (s.futex g).addr = addr → (s.futex g).mem ≠ mem := by
    intro g hg ha hm
    have hp := List.find?_eq_none.mp hnone g hg
    simp [ha, hm] at hp
  refine ⟨Ilist.nodups_add h.nodups fun hc => hnew ⟨_, hc⟩, ?_, ?_, ?_, ?_, ?_, h.freed_nodup, ?_, ?_,
    ?_, ?_, ?_, ?_, h.asserts⟩
  · intro i g hg
    rcases (hmem i g).mp hg with ⟨rfl, rfl⟩ | hg
    · rw [hself]
    · rw [hold g (hne g ⟨i, hg⟩)]
      exact h.place i g hg
  · intro i g g' hg hg' ha hm
    rcases (hmem i g).mp hg with ⟨hi, rfl⟩ | hg <;>
      rcases (hmem i g').mp hg' with ⟨hi', rfl⟩ | hg'
    · rfl
    · subst hi
      rw [hself, hold g' (hne g' ⟨_, hg'⟩)] at ha hm
      exact absurd hm.symm (hkey g' hg' ha.symm)
    · subst hi'
      rw [hself, hold g (hne g ⟨_, hg⟩)] at ha hm
      exact absurd hm (hkey g hg ha)
    · rw [hold g (hne g ⟨i, hg⟩), hold g' (hne g' ⟨i, hg'⟩)] at ha hm
      exact h.one i g g' hg hg' ha hm
  · intro g hg
    rcases (hlive g).mp hg with rfl | hg
    · exact ⟨Nat.lt_succ_self _, fun hc => Nat.lt_irrefl _ (h.freed_old _ hc)⟩
    · exact ⟨Nat.lt_succ_of_lt (h.old g hg).1, (h.old g hg).2⟩
  · intro g hg hnl
    have hgf : g ≠ f := fun hc => hnl ((hlive g).mpr (.inl hc))
    rw [hold g hgf]
    have hlt : g < f := Nat.lt_of_le_of_ne (Nat.le_of_lt_succ hg) hgf
    exact h.gone g hlt fun hc => hnl ((hlive g).mpr (.inr hc))
  · intro g hg
    exact Nat.lt_succ_of_lt (h.freed_old g hg)
  · intro g hg
    rcases (hlive g).mp hg with rfl | hg
    · have hheld : held.count f = 0 := List.count_eq_zero.mpr fun hc => hnew (h.held_live f hc)
      have hzero : waiters s f = 0 := by
        refine sumBy_eq_zero fun t w hw => ?_
        have hwf : w.futex ≠ f := fun hc => hnew (hc ▸ h.wait_live t w hw)
        exact if_neg hwf
      rw [hself, List.count_cons_self, hheld]
      show (1 : Int) = waiters s f + 1
      omega
    · rw [hold g (hne g hg), List.count_cons_of_ne (Ne.symm (hne g hg))]
      exact h.count g hg
  · intro g hg
    rcases (hlive g).mp hg with rfl | hg
    · rw [hself]
      exact Nat.one_pos
    · rw [hold g (hne g hg)]
      exact h.pos g hg
  · intro g hg
    rw [hlive]
    rcases List.mem_cons.mp hg with rfl | hg
    · exact .inl rfl
    · exact .inr (h.held_live g hg)
  · intro t w hw
    exact (hlive _).mpr (.inr (h.wait_live t w hw))
  · intro g t hg ht
    rcases (hlive g).mp hg with rfl | hg
    · rw [hself] at ht
      cases ht
    · rw [hold g (hne g hg)] at ht
      exact h.queue_wait g t hg ht
  intro g hg
  rcases (hlive g).mp hg with rfl | hg
  · rw [hself]
    exact List.nodup_nil
  · rw [hold g (hne g hg)]
    exact h.queue_nodup g hg

theorem inv_get (h : Inv held s) (hget : futexGetUnlocked mem addr malloc s = (s', some f)) :
    Inv (f :: held) s' ∧ s'.waits = s.waits := by
  unfold futexGetUnlocked at hget
  split at hget
  · rename_i g hfind
    obtain ⟨hmem, -, -⟩ := find_spec hfind
    cases hget
    have hlive : Live s f := ⟨_, hmem⟩
    refine ⟨h.setRefcount hlive (Nat.succ_pos _) ?_ ?_ ?_, rfl⟩
    · rw [List.count_cons_self]
      have hc := h.count f hlive
      omega
    · intro g hg
      exact List.count_cons_of_ne (Ne.symm hg)
    intro g hg
    rcases List.mem_cons.mp hg with rfl | hg
    · exact hlive
    · exact h.held_live g hg
  · rename_i hnone
    split at hget
    · cases hget
      exact ⟨h.new hnone, rfl⟩
    · cases hget

theorem get_none (hget : futexGetUnlocked mem addr malloc s = (s', none)) : s' = s := by
  unfold futexGetUnlocked at hget
  split at hget
  · cases hget
  split at hget
  · cases hget
  · cases hget
    rfl

theorem Inv.free (h : Inv (f :: held) s) (hlast : (s.futex f).refcount - 1 = 0) : Inv held
      { s.setFutex f { s.futex f with refcount := (s.futex f).refcount - 1 } with
        asserts := (s.setFutex f { s.futex f with refcount := (s.futex f).refcount - 1 }).asserts &&
          ((s.setFutex f { s.futex f with refcount := (s.futex f).refcount - 1 }).futex
            f).queue.isEmpty
        bucket := Ilist.remove s.bucket f
        freed := f :: s.freed } := by
  have hlive : Live s f := h.held_live f List.mem_cons_self
  have hcount := h.count f hlive
  rw [List.count_cons_self] at hcount
  have hnn := waiters_nonneg s f
  have hpos := h.pos f hlive
  have hzero : waiters s f = 0 := by omega
  have hheld : f ∉ held := List.count_eq_zero.mp (by omega)
  have hnobody : ∀ t w, s.waits.lookup t = some w → w.futex ≠ f := by
    intro t w hw hc
    have hone := waiters_pos hw
    rw [hc] at hone
    omega
  have hqueue : (s.futex f).queue = [] := by
    rw [List.eq_nil_iff_forall_not_mem]
    intro t ht
    obtain ⟨w, hw, hwf⟩ := h.queue_wait f t hlive ht
    exact hnobody t w hw hwf
  set v : Futex := { s.futex f with refcount := (s.futex f).refcount - 1 } with hv
  have hself : (s.setFutex f v).futex f = v := Function.update_self ..
  have hne : ∀ g, g ≠ f → (s.setFutex f v).futex g = s.futex g :=
    fun g hg => Function.update_of_ne hg ..
  rw [hself, show v.queue = [] from hqueue]
  set s' : State := { s.setFutex f v with
    asserts := (s.setFutex f v).asserts && ([] : List TaskId).isEmpty
    bucket := Ilist.remove s.bucket f
    freed := f :: s.freed } with hs'
  have hfut : s'.futex = (s.setFutex f v).futex := rfl
  have hmem : ∀ i g, g ∈ s'.bucket i ↔ g ≠ f ∧ g ∈ s.bucket i :=
    fun i g => Ilist.mem_remove h.nodups
  have hlive' : ∀ g, Live s' g ↔ g ≠ f ∧ Live s g := by
    intro g
    constructor
    · rintro ⟨i, hi⟩
      exact ⟨((hmem i g).mp hi).1, i, ((hmem i g).mp hi).2⟩
    · rintro ⟨hg, i, hi⟩
      exact ⟨i, (hmem i g).mpr ⟨hg, hi⟩⟩
  refine ⟨Ilist.nodups_remove h.nodups f, ?_, ?_, ?_, ?_, ?_, ?_, ?_, ?_, ?_, ?_, ?_, ?_, ?_⟩
  · intro i g hg
    obtain ⟨hgf, hg⟩ := (hmem i g).mp hg
    rw [hfut, hne g hgf]
    exact h.place i g hg
  · intro i g g' hg hg' ha hm
    obtain ⟨hgf, hg⟩ := (hmem i g).mp hg
    obtain ⟨hgf', hg'⟩ := (hmem i g').mp hg'
    rw [hfut, hne g hgf, hne g' hgf'] at ha hm
    exact h.one i g g' hg hg' ha hm
  · intro g hg
    obtain ⟨hgf, hg⟩ := (hlive' g).mp hg
    refine ⟨(h.old g hg).1, fun hc => ?_⟩
    rcases List.mem_cons.mp hc with rfl | hc
    · exact hgf rfl
    · exact (h.old g hg).2 hc
  · intro g hg hnl
    by_cases hgf : g = f
    · subst hgf
      rw [hfut, hself]
      exact ⟨List.mem_cons_self, hlast, hqueue⟩
    rw [hfut, hne g hgf]
    obtain ⟨hfr, hr, hq⟩ := h.gone g hg fun hc => hnl ((hlive' g).mpr ⟨hgf, hc⟩)
    exact ⟨List.mem_cons_of_mem f hfr, hr, hq⟩
  · intro g hg
    rcases List.mem_cons.mp hg with rfl | hg
    · exact (h.old g hlive).1
    · exact h.freed_old g hg
  · exact List.nodup_cons.mpr ⟨(h.old f hlive).2, h.freed_nodup⟩
  · intro g hg
    obtain ⟨hgf, hg⟩ := (hlive' g).mp hg
    rw [hfut, hne g hgf]
    have hc := h.count g hg
    rwa [List.count_cons_of_ne (Ne.symm hgf)] at hc
  · intro g hg
    obtain ⟨hgf, hg⟩ := (hlive' g).mp hg
    rw [hfut, hne g hgf]
    exact h.pos g hg
  · intro g hg
    exact (hlive' g).mpr ⟨fun hc => hheld (hc ▸ hg), h.held_live g (List.mem_cons_of_mem f hg)⟩
  · intro t w hw
    exact (hlive' _).mpr ⟨hnobody t w hw, h.wait_live t w hw⟩
  · intro g t hg ht
    obtain ⟨hgf, hg⟩ := (hlive' g).mp hg
    rw [hfut, hne g hgf] at ht
    exact h.queue_wait g t hg ht
  · intro g hg
    obtain ⟨hgf, hg⟩ := (hlive' g).mp hg
    rw [hfut, hne g hgf]
    exact h.queue_nodup g hg
  show (s.asserts && true) = true
  rw [h.asserts]
  rfl

theorem inv_put (h : Inv (f :: held) s) : Inv held (futexPutUnlocked f s) := by
  have hlive : Live s f := h.held_live f List.mem_cons_self
  have hcount := h.count f hlive
  rw [List.count_cons_self] at hcount
  have hnn := waiters_nonneg s f
  unfold futexPutUnlocked
  dsimp only
  split
  · rename_i hzero
    -- the last reference: no waiter points here any more
    exact h.free hzero
  · rename_i hzero
    refine h.setRefcount hlive (by omega) (by omega) ?_ ?_
    · intro g hg
      exact (List.count_cons_of_ne (Ne.symm hg)).symm
    · intro g hg
      exact h.held_live g (List.mem_cons_of_mem f hg)

/-! ## Queues -/

theorem Inv.setQueue (h : Inv held s) {q : List TaskId} (hlive : Live s f)
    (hnodup : q.Nodup) (hq : ∀ t ∈ q, ∃ w, s.waits.lookup t = some w ∧ w.futex = f) :
    Inv held (s.setFutex f { s.futex f with queue := q }) := by
  set s' := s.setFutex f { s.futex f with queue := q } with hs'
  have hself : s'.futex f = { s.futex f with queue := q } := Function.update_self ..
  have hne : ∀ g, g ≠ f → s'.futex g = s.futex g := fun g hg => Function.update_of_ne hg ..
  have hkey : ∀ g, (s'.futex g).mem = (s.futex g).mem ∧ (s'.futex g).addr = (s.futex g).addr ∧
      (s'.futex g).refcount = (s.futex g).refcount := by
    intro g
    by_cases hg : g = f
    · subst hg
      rw [hself]
      exact ⟨rfl, rfl, rfl⟩
    · rw [hne g hg]
      exact ⟨rfl, rfl, rfl⟩
  refine ⟨h.nodups, ?_, ?_, h.old, ?_, h.freed_old, h.freed_nodup, ?_, ?_, h.held_live, h.wait_live,
    ?_, ?_, h.asserts⟩
  · intro i g hg
    rw [(hkey g).1, (hkey g).2.1]
    exact h.place i g hg
  · intro i g g' hg hg' ha hm
    rw [(hkey g).2.1, (hkey g').2.1] at ha
    rw [(hkey g).1, (hkey g').1] at hm
    exact h.one i g g' hg hg' ha hm
  · intro g hold hg
    have hgf : g ≠ f := fun hc => hg (hc ▸ hlive)
    rw [hne g hgf]
    exact h.gone g hold hg
  · intro g hg
    rw [(hkey g).2.2]
    exact h.count g hg
  · intro g hg
    rw [(hkey g).2.2]
    exact h.pos g hg
  · intro g t hg ht
    by_cases hgf : g = f
    · subst hgf
      rw [hself] at ht
      exact hq t ht
    · rw [hne g hgf] at ht
      exact h.queue_wait g t hg ht
  intro g hg
  by_cases hgf : g = f
  · subst hgf
    rw [hself]
    exact hnodup
  · rw [hne g hgf]
    exact h.queue_nodup g hg

theorem Inv.unqueue (h : Inv held s) (hlive : Live s f) (t : TaskId) : Inv held (unqueue f t s) :=
  h.setQueue hlive ((h.queue_nodup f hlive).erase t)
    fun u hu => h.queue_wait f u hlive (List.mem_of_mem_erase hu)

theorem Inv.markWoken (h : Inv held s) (t : TaskId) : Inv held (markWoken t s) := by
  unfold FutexTable.markWoken
  cases hw : s.waits.lookup t with
  | none => exact h
  | some w => exact h.setWait hw rfl

/-! ## Requeueing -/

theorem requeueOne_futex (f f2 : FutexId) (t : TaskId) (s : State) (g : FutexId) :
    (requeueOne f f2 t s).futex g = { s.futex g with
        refcount := (s.futex g).refcount - (if g = f then 1 else 0) + (if g = f2 then 1 else 0)
        queue := (if g = f then (s.futex g).queue.erase t else (s.futex g).queue) ++
          (if g = f2 then [t] else []) } := by
  have hret : ∀ s' : State, (retarget t f2 s').futex = s'.futex := by
    intro s'
    unfold retarget
    split <;> rfl
  unfold requeueOne FutexTable.unqueue State.setFutex
  dsimp only
  rw [hret]
  by_cases hgf : g = f <;> by_cases hgf2 : g = f2
  · subst hgf hgf2
    simp
  · subst hgf
    simp [hgf2]
  · subst hgf2
    simp [hgf]
  · simp [hgf, hgf2]

theorem retarget_frame (t : TaskId) (f : FutexId) (s : State) :
    (retarget t f s).bucket = s.bucket ∧ (retarget t f s).fresh = s.fresh ∧
      (retarget t f s).freed = s.freed ∧ (retarget t f s).asserts = s.asserts := by
  unfold retarget
  split <;> exact ⟨rfl, rfl, rfl, rfl⟩

theorem requeueOne_frame (f f2 : FutexId) (t : TaskId) (s : State) :
    (requeueOne f f2 t s).bucket = s.bucket ∧ (requeueOne f f2 t s).fresh = s.fresh ∧
      (requeueOne f f2 t s).freed = s.freed := by
  unfold requeueOne
  dsimp only
  obtain ⟨hb, hn, hfr, -⟩ := retarget_frame t f2 _
  exact ⟨hb, hn, hfr⟩

theorem requeueOne_asserts (f f2 : FutexId) (t : TaskId) (s : State) :
    (requeueOne f f2 t s).asserts = (s.asserts && decide (1 < (s.futex f).refcount)) := by
  unfold requeueOne
  dsimp only
  obtain ⟨-, -, -, ha⟩ := retarget_frame t f2 _
  rw [ha]
  by_cases hff : f = f2
  · subst hff
    simp [State.setFutex, FutexTable.unqueue]
  · simp [State.setFutex, FutexTable.unqueue, hff]

theorem requeueOne_waits (f f2 : FutexId) {s : State} (hw : s.waits.lookup t = some w) :
    (requeueOne f f2 t s).waits = s.waits.insert t { w with futex := f2 } := by
  have hret : ∀ s' : State, s'.waits = s.waits →
      (retarget t f2 s').waits = s'.waits.insert t { w with futex := f2 } := by
    intro s' he
    unfold retarget
    rw [he, hw]
    show s'.waits.insert t _ = _
    rw [he]
  unfold requeueOne
  dsimp only
  exact hret _ rfl

theorem inv_requeueOne (h : Inv held s) (hf : f ∈ held)
    (hf2 : f2 ∈ held) (ht : t ∈ (s.futex f).queue) : Inv held (requeueOne f f2 t s) := by
  have hlf : Live s f := h.held_live f hf
  have hlf2 : Live s f2 := h.held_live f2 hf2
  obtain ⟨w, hw, hwf⟩ := h.queue_wait f t hlf ht
  -- a waiter is on the queue of its own futex only
  have hown : ∀ g, Live s g → t ∈ (s.futex g).queue → g = f := by
    intro g hg htg
    obtain ⟨w', hw', hwg⟩ := h.queue_wait g t hg htg
    rw [hw] at hw'
    cases hw'
    exact hwg.symm.trans hwf
  have hcountf := h.count f hlf
  have hone := waiters_pos hw
  rw [hwf] at hone
  have hheldf : 1 ≤ held.count f := List.count_pos_iff.mpr hf
  have href : 1 < (s.futex f).refcount := by omega
  have hfut := requeueOne_futex f f2 t s
  obtain ⟨hbucket, hfresh, hfreed⟩ := requeueOne_frame f f2 t s
  have hwaits := requeueOne_waits f f2 hw
  have hasserts := requeueOne_asserts f f2 t s
  set s' := requeueOne f f2 t s with hs'
  have hlive : ∀ g, Live s' g ↔ Live s g := by
    intro g
    unfold Live
    rw [hbucket]
  have hlook : ∀ u, u ≠ t → s'.waits.lookup u = s.waits.lookup u := by
    intro u hu
    rw [hwaits, AList.lookup_insert_ne hu]
  have hlookt : s'.waits.lookup t = some { w with futex := f2 } := by
    rw [hwaits, AList.lookup_insert]
  have hwaiters : ∀ g, waiters s' g
      = waiters s g - (if g = f then 1 else 0) + (if g = f2 then 1 else 0) := by
    intro g
    unfold waiters
    rw [hwaits, sumBy_insert, weightAt_of_some hw]
    unfold belongs
    simp only [hwf, eq_comm (a := f), eq_comm (a := f2)]
  have hqueue : ∀ g u, Live s g → u ∈ (s'.futex g).queue →
      u ≠ t ∧ u ∈ (s.futex g).queue ∨ u = t ∧ g = f2 := by
    intro g u hg hu
    rw [hfut g] at hu
    rcases List.mem_append.mp hu with hu | hu
    · left
      split at hu
      · exact (h.queue_nodup g hg).mem_erase_iff.mp hu
      · rename_i hgf
        exact ⟨fun hc => hgf (hown g hg (hc ▸ hu)), hu⟩
    · right
      split at hu
      · rename_i hgf2
        exact ⟨List.mem_singleton.mp hu, hgf2⟩
      · cases hu
  refine ⟨hbucket ▸ h.nodups, ?_, ?_, ?_, ?_, ?_, hfreed ▸ h.freed_nodup, ?_, ?_, ?_, ?_, ?_, ?_, ?_⟩
  · intro i g hg
    rw [hfut g]
    rw [hbucket] at hg
    exact h.place i g hg
  · intro i g g' hg hg' ha hm
    rw [hfut g, hfut g'] at ha hm
    rw [hbucket] at hg hg'
    exact h.one i g g' hg hg' ha hm
  · intro g hg
    rw [hfresh, hfreed]
    exact h.old g ((hlive g).mp hg)
  · intro g hold hg
    rw [hlive] at hg
    rw [hfresh] at hold
    rw [hfreed]
    have hgf : g ≠ f := fun hc => hg (hc ▸ hlf)
    have hgf2 : g ≠ f2 := fun hc => hg (hc ▸ hlf2)
    rw [hfut g]
    simpa [hgf, hgf2] using h.gone g hold hg
  · intro g hg
    rw [hfresh]
    rw [hfreed] at hg
    exact h.freed_old g hg
  · intro g hg
    rw [hlive] at hg
    rw [hfut g, hwaiters g]
    have hc := h.count g hg
    have hp := h.pos g hg
    dsimp only
    split <;> split <;> omega
  · intro g hg
    rw [hlive] at hg
    rw [hfut g]
    have hp := h.pos g hg
    dsimp only
    by_cases hgf : g = f
    · subst hgf
      rw [if_pos rfl]
      omega
    · rw [if_neg hgf]
      omega
  · intro g hg
    exact (hlive g).mpr (h.held_live g hg)
  · intro u v hv
    rw [hlive]
    by_cases hu : u = t
    · subst hu
      rw [hlookt] at hv
      cases hv
      exact hlf2
    · rw [hlook u hu] at hv
      exact h.wait_live u v hv
  · intro g u hg hu
    rw [hlive] at hg
    rcases hqueue g u hg hu with ⟨hut, hu⟩ | ⟨rfl, rfl⟩
    · rw [hlook u hut]
      exact h.queue_wait g u hg hu
    · exact ⟨_, hlookt, rfl⟩
  · intro g hg
    rw [hlive] at hg
    rw [hfut g]
    have hn := h.queue_nodup g hg
    rw [List.nodup_append]
    refine ⟨?_, ?_, ?_⟩
    · split
      · exact hn.erase t
      · exact hn
    · split
      · exact List.nodup_singleton t
      · exact List.nodup_nil
    intro u hu v hv
    split at hv
    · rw [List.mem_singleton.mp hv]
      rintro rfl
      split at hu
      · exact hn.not_mem_erase hu
      · rename_i hgf
        exact hgf (hown g hg hu)
    · cases hv
  · rw [hasserts, h.asserts, decide_eq_true href]
    rfl

theorem nextEntry_spec {q : List TaskId} {u : TaskId} (hn : q.Nodup)
    (h : nextEntry q t = some u) : u ∈ q ∧ u ≠ t := by
  induction q with
  | nil => cases h
  | cons v q ih =>
    obtain ⟨hv, hn⟩ := List.nodup_cons.mp hn
    unfold nextEntry at h
    by_cases hvt : v = t
    · subst hvt
      rw [List.dropWhile_cons_of_neg (by simp)] at h
      have hmem : u ∈ q := List.mem_of_head? h
      exact ⟨List.mem_cons_of_mem v hmem, fun hc => hv (hc ▸ hmem)⟩
    rw [List.dropWhile_cons_of_pos (by simp [hvt])] at h
    obtain ⟨hmem, hne⟩ := ih hn h
    exact ⟨List.mem_cons_of_mem v hmem, hne⟩

theorem nextEntry_stays (h : Inv held s) (hf : f ∈ held) {u : TaskId}
    (hu : nextEntry (s.futex f).queue t = some u) : u ∈ ((requeueOne f f2 t s).futex f).queue := by
  obtain ⟨hmem, hne⟩ := nextEntry_spec (h.queue_nodup f (h.held_live f hf)) hu
  rw [requeueOne_futex]
  refine List.mem_append_left _ ?_
  rw [if_pos rfl]
  exact (List.mem_erase_of_ne hne).mpr hmem

/-! ## Waiters come and go -/

theorem Inv.addWait (h : Inv (f :: held) s)
    (ht : s.waits.lookup t = none) (hw : w.futex = f) : Inv held (s.setWait t w) := by
  have hlook : ∀ u, u ≠ t → (s.setWait t w).waits.lookup u = s.waits.lookup u :=
    fun u hu => AList.lookup_insert_ne hu
  refine ⟨h.nodups, h.place, h.one, h.old, h.gone, h.freed_old, h.freed_nodup, ?_, h.pos, ?_, ?_, ?_,
    h.queue_nodup, h.asserts⟩
  · intro g hg
    have hsum : waiters (s.setWait t w) g = waiters s g + belongs g w := by
      unfold waiters State.setWait
      rw [sumBy_insert, weightAt_of_none ht]
      omega
    have hc := h.count g hg
    show ((s.futex g).refcount : Int) = _
    rw [hsum, belongs, hw]
    by_cases hfg : f = g
    · subst hfg
      rw [List.count_cons_self] at hc
      rw [if_pos rfl]
      omega
    rw [List.count_cons_of_ne hfg] at hc
    rw [if_neg hfg]
    omega
  · intro g hg
    exact h.held_live g (List.mem_cons_of_mem f hg)
  · intro u v hv
    by_cases hu : u = t
    · subst hu
      rw [show (s.setWait u w).waits.lookup u = some w from AList.lookup_insert _] at hv
      cases hv
      exact hw ▸ h.held_live f List.mem_cons_self
    · rw [hlook u hu] at hv
      exact h.wait_live u v hv
  intro g u hg hu
  obtain ⟨v, hv, hvf⟩ := h.queue_wait g u hg hu
  have hut : u ≠ t := by
    rintro rfl
    rw [ht] at hv
    cases hv
  exact ⟨v, (hlook u hut).trans hv, hvf⟩

theorem Inv.enqueue (h : Inv (f :: held) s) (ht : s.waits.lookup t = none) (hw : w.futex = f) :
    Inv held
      ((s.setFutex f { s.futex f with queue := (s.futex f).queue ++ [t] }).setWait t w) := by
  have hlive : Live s f := h.held_live f List.mem_cons_self
  have hlookt : (s.setWait t w).waits.lookup t = some w := AList.lookup_insert _
  have hnew : t ∉ (s.futex f).queue := by
    intro hc
    obtain ⟨v, hv, -⟩ := h.queue_wait f t hlive hc
    rw [ht] at hv
    cases hv
  -- the two updates touch different fields
  show Inv held ((s.setWait t w).setFutex f
    { (s.setWait t w).futex f with queue := (s.futex f).queue ++ [t] })
  have hadd := h.addWait ht hw
  refine hadd.setQueue hlive ?_ ?_
  · rw [List.nodup_append]
    refine ⟨h.queue_nodup f hlive, List.nodup_singleton t, ?_⟩
    intro u hu v hv
    rw [List.mem_singleton.mp hv]
    rintro rfl
    exact hnew hu
  intro u hu
  rcases List.mem_append.mp hu with hu | hu
  · exact hadd.queue_wait f u hlive hu
  · rw [List.mem_singleton.mp hu]
    exact ⟨w, hlookt, hw⟩

theorem Inv.eraseWait (h : Inv held s) (ht : s.waits.lookup t = some w)
    (hq : t ∉ (s.futex w.futex).queue) :
    Inv (w.futex :: held) { s with waits := s.waits.erase t } := by
  have hlive := h.wait_live t w ht
  set s' : State := { s with waits := s.waits.erase t } with hs'
  have hlook : ∀ u, u ≠ t → s'.waits.lookup u = s.waits.lookup u :=
    fun u hu => AList.lookup_erase_ne hu
  have hlookt : s'.waits.lookup t = none := AList.lookup_erase _ _
  refine ⟨h.nodups, h.place, h.one, h.old, h.gone, h.freed_old, h.freed_nodup, ?_, h.pos, ?_, ?_, ?_,
    h.queue_nodup, h.asserts⟩
  · intro g hg
    have hsum : waiters s' g = waiters s g - belongs g w := by
      unfold waiters
      rw [show s'.waits = s.waits.erase t from rfl, sumBy_erase, weightAt_of_some ht]
    have hc := h.count g hg
    show ((s.futex g).refcount : Int) = _
    rw [hsum, belongs]
    by_cases hfg : w.futex = g
    · rw [hfg, List.count_cons_self, if_pos rfl]
      omega
    · rw [List.count_cons_of_ne hfg, if_neg hfg]
      omega
  · intro g hg
    rcases List.mem_cons.mp hg with rfl | hg
    · exact hlive
    · exact h.held_live g hg
  · intro u v hv
    have hut : u ≠ t := by
      rintro rfl
      rw [hlookt] at hv
      cases hv
    rw [hlook u hut] at hv
    exact h.wait_live u v hv
  intro g u hg hu
  obtain ⟨v, hv, hvf⟩ := h.queue_wait g u hg hu
  have hut : u ≠ t := by
    rintro rfl
    rw [ht] at hv
    cases hv
    subst hvf
    exact hq hu
  exact ⟨v, (hlook u hut).trans hv, hvf⟩

theorem Inv.dequeue (h : Inv held s) (ht : s.waits.lookup t = some w) :
    Inv (w.futex :: held) { FutexTable.unqueue w.futex t s with waits := s.waits.erase t } := by
  have hlive := h.wait_live t w ht
  refine (h.unqueue hlive t).eraseWait ht ?_
  rw [show (FutexTable.unqueue w.futex t s).futex w.futex
    = { s.futex w.futex with queue := (s.futex w.futex).queue.erase t } from
    Function.update_self ..]
  exact (h.queue_nodup _ hlive).not_mem_erase

theorem inv_futexWaitEnd {err : Int} (h : Inv [] s)
    (ht : s.waits.lookup t = some w) : Inv [] (futexWaitEnd t w err s) := by
  have hput := inv_put (h.dequeue ht)
  have hcomm : ∀ (f : FutexId) (s : State) (ws : AList (fun _ : TaskId => Wait)),
      futexPutUnlocked f { s with waits := ws } = { futexPutUnlocked f s with waits := ws } := by
    intro f s ws
    unfold futexPutUnlocked
    dsimp only [State.setFutex]
    split <;> rfl
  rw [hcomm] at hput
  have hwaits : (futexPutUnlocked w.futex (FutexTable.unqueue w.futex t s)).waits = s.waits := by
    unfold futexPutUnlocked
    dsimp only [State.setFutex]
    split <;> rfl
  unfold futexWaitEnd
  dsimp only
  rw [hwaits]
  exact hput.frame _ _ _ _ _ _

end Table

/-! ## Operations

The operations are made of a few parts. What these keep of a state, with references to `held` in hand and `n` waiters
woken by the operation that has the lock, the operations and steps keep. -/

def Wait.looping (w : Wait) : Prop := ∀ err, w.phase ≠ .leaving err

structure Rules (P : List FutexId → Nat → State → Prop) : Prop where
  inv : ∀ {held n s}, P held n s → Inv held s
  get : ∀ {held n s mem addr malloc s' f}, P held n s → futexGetUnlocked mem addr malloc s = (s', some f) →
    P (f :: held) n s'
  put : ∀ {held n s f}, P (f :: held) n s → P held n (futexPutUnlocked f s)
  wakeOne : ∀ {held n s f t}, P held n s → f ∈ held → t ∈ (s.futex f).queue →
    P held (n + 1) (markWoken t (unqueue f t (writePipe t s)))
  requeueOne : ∀ {held n s f f2 t}, P held n s → f ∈ held → f2 ∈ held → t ∈ (s.futex f).queue →
    P held n (requeueOne f f2 t s)
  frame : ∀ {held n s} wakeOp mem word crashed, P held n s → P held n { s with wakeOp, mem, word, crashed }
  failed : ∀ {s} t err, P [] 0 s → P [] 0 (s.ret (.failed t err))
  woke : ∀ {n s} t m, P [] n s → P [] 0 (s.ret (.woke t n m))
  enqueue : ∀ {s f t} uaddr val timed, P [f] 0 s → s.waits.lookup t = none →
    P [] 0 ((State.setFutex { s with pipe := Function.update s.pipe t (some 0) } f
      { s.futex f with queue := (s.futex f).queue ++ [t] }).setWait t
        { futex := f, uaddr, val, timed, phase := .top, woken := false, changed := false })
  turn : ∀ {s t w} phase changed, P [] 0 s → s.waits.lookup t = some w → w.looping →
    (phase = .leaving 0 → changed = true) → P [] 0 (s.setWait t { w with phase, changed })
  poll : ∀ {s t w}, P [] 0 s → s.waits.lookup t = some w → w.looping → (s.pipe t).getD 0 ≠ 0 →
    P [] 0 { s.setWait t { w with phase := .leaving 0 } with pipe := Function.update s.pipe t (some 0) }
  waitEnd : ∀ {s t w err}, P [] 0 s → s.waits.lookup t = some w → w.phase = .leaving err →
    P [] 0 (futexWaitEnd t w err s)
  exit : ∀ {s t}, P [] 0 s → s.waits.lookup t = none → P [] 0 { s with pipe := Function.update s.pipe t none }

theorem idle_lookup {s : State} {t : TaskId} (h : s.idle t = true) : s.waits.lookup t = none := by
  unfold State.idle at h
  rw [Bool.and_eq_true] at h
  exact Option.isNone_iff_eq_none.mp h.1

section Rules

variable {P : List FutexId → Nat → State → Prop} {held : List FutexId} {n max max2 : Nat} {s s' : State}
  {t : TaskId} {mem addr uaddr : Word} {malloc malloc2 : Bool} {f : FutexId}

theorem Rules.wakes (R : Rules P) {ts : List TaskId} {m : Nat} (h : P held (n + m) s) (hf : f ∈ held)
    (hn : ts.Nodup) (hts : ∀ t ∈ ts, t ∈ (s.futex f).queue) :
    P held (n + (wakeLoop f max ts m s).2) (wakeLoop f max ts m s).1 := by
  induction ts generalizing m s with
  | nil => exact h
  | cons t ts ih =>
    obtain ⟨ht, hn⟩ := List.nodup_cons.mp hn
    rw [wakeLoop]
    split
    case isTrue => exact h
    refine ih (R.wakeOne h hf (hts t List.mem_cons_self)) hn fun u hu => ?_
    have hut : u ≠ t := fun hc => ht (hc ▸ hu)
    have hfut : ∀ s' : State, (markWoken t s').futex = s'.futex := by
      intro s'
      unfold markWoken
      split <;> rfl
    rw [hfut, show (unqueue f t (writePipe t s)).futex f
      = { s.futex f with queue := (s.futex f).queue.erase t } from Function.update_self ..]
    exact (List.mem_erase_of_ne hut).mpr (hts u (List.mem_cons_of_mem t hu))

theorem Rules.wakeQueue (R : Rules P) (max : Nat) (h : P held n s) (hf : f ∈ held) :
    P held (n + (futexWakeQueue f max s).2) (futexWakeQueue f max s).1 :=
  R.wakes h hf ((R.inv h).queue_nodup f ((R.inv h).held_live f hf)) fun _ ht => ht

theorem Rules.requeues (R : Rules P) {f2 : FutexId} {cur : Option TaskId} {m : Nat} (h : P held n s) (hf : f ∈ held)
    (hf2 : f2 ∈ held) (hcur : ∀ t, cur = some t → t ∈ (s.futex f).queue) :
    P held n (requeueLoop f f2 max cur m s).1 := by
  induction max generalizing cur m s with
  | zero => exact h
  | succ max ih =>
    cases cur with
    | none => exact h
    | some t =>
      rw [requeueLoop]
      exact ih (R.requeueOne h hf hf2 (hcur t rfl)) fun u hu => nextEntry_stays (R.inv h) hf hu

theorem Rules.requeue (R : Rules P) {m : Nat} (h : P held n s) (hf : f ∈ held)
    (hr : FutexTable.requeue f mem max addr malloc s = some (s', m)) : P held n s' := by
  unfold FutexTable.requeue at hr
  rcases hget : futexGetUnlocked mem addr malloc s with ⟨s₁, _ | f2⟩
  · rw [hget] at hr
    cases hr
  rw [hget] at hr
  cases hr
  refine R.put (R.requeues (R.get h hget) (List.mem_cons_of_mem f2 hf) List.mem_cons_self ?_)
  exact fun t ht => List.mem_of_head? ht

theorem Rules.futexWake (R : Rules P) (h : P [] 0 s) (hop : FutexTable.futexWake t uaddr max malloc s = some s') :
    P [] 0 s' := by
  unfold FutexTable.futexWake at hop
  rcases hget : futexGetUnlocked (s.mem t) uaddr malloc s with ⟨s₁, _ | f⟩
  · rw [hget] at hop
    cases hop
  rw [hget] at hop
  cases hop
  have hwoken := R.put (R.wakeQueue max (R.get h hget) List.mem_cons_self)
  rw [Nat.zero_add] at hwoken
  exact R.woke t 0 hwoken

theorem Rules.futexRequeue (R : Rules P) (h : P [] 0 s)
    (hop : FutexTable.futexRequeue t uaddr max max2 addr malloc malloc2 s = some s') : P [] 0 s' := by
  unfold FutexTable.futexRequeue at hop
  rcases hget : futexGetUnlocked (s.mem t) uaddr malloc s with ⟨s₁, _ | f⟩
  · rw [hget] at hop
    cases hop
  rw [hget] at hop
  have hwoken := R.wakeQueue max (R.get h hget) List.mem_cons_self
  rw [Nat.zero_add] at hwoken
  dsimp only at hop
  split at hop
  · cases hop
  · rename_i s₂ n hr
    cases hop
    exact R.woke t n (R.put (R.requeue hwoken List.mem_cons_self hr))

theorem Rules.futexCmpRequeue (R : Rules P) {expected : Dword} (h : P [] 0 s)
    (hop : FutexTable.futexCmpRequeue t uaddr max max2 addr expected malloc malloc2 s = some s') : P [] 0 s' := by
  unfold FutexTable.futexCmpRequeue at hop
  rcases hget : futexGetUnlocked (s.mem t) uaddr malloc s with ⟨s₁, _ | f⟩
  · rw [hget] at hop
    cases hop
    rw [get_none hget]
    exact R.failed t enomem h
  rw [hget] at hop
  have hgot := R.get h hget
  have hwoken := R.wakeQueue max hgot List.mem_cons_self
  rw [Nat.zero_add] at hwoken
  dsimp only at hop
  split at hop
  · cases hop
    exact R.failed t efault (R.put hgot)
  split at hop
  · cases hop
    exact R.failed t eagain (R.put hgot)
  split at hop
  · cases hop
  · rename_i s₂ n hr
    cases hop
    exact R.woke t n (R.put (R.requeue hwoken List.mem_cons_self hr))

theorem Rules.wakeOpRmw (R : Rules P) {uaddr2 : Word} {val3 : Dword} {ptr : Bool} (h : P [] 0 s) :
    P [] 0 (futexWakeOpRmw t uaddr max uaddr2 max2 val3 ptr s) := by
  unfold futexWakeOpRmw
  split
  · exact R.failed t einval h
  split
  · exact R.failed t efault h
  split
  · exact R.failed t enosys h
  dsimp only
  split
  · exact R.failed t enosys (R.frame _ _ _ _ h)
  · exact R.frame _ _ _ _ h

theorem Rules.wakeOpWake (R : Rules P) {op : WakeOp} (h : P [] 0 s) :
    P [] 0 (futexWakeOpWake t op malloc malloc2 s) := by
  unfold futexWakeOpWake
  have h₀ : P [] 0 { s with wakeOp := Function.update s.wakeOp t none } := R.frame _ _ _ _ h
  dsimp only
  rcases hget : futexGetUnlocked (s.mem t) op.uaddr malloc
    { s with wakeOp := Function.update s.wakeOp t none } with ⟨s₁, _ | f1⟩
  · dsimp only
    rw [get_none hget]
    exact R.failed t enomem h₀
  have h₂ := R.wakeQueue op.wakeMax1 (R.get h₀ hget) List.mem_cons_self
  rw [Nat.zero_add] at h₂
  dsimp only
  split
  · rcases hget2 : futexGetUnlocked ((futexWakeQueue f1 op.wakeMax1 s₁).1.mem t) op.uaddr2
      malloc2 (futexWakeQueue f1 op.wakeMax1 s₁).1 with ⟨s₂, _ | f2⟩
    · dsimp only
      rw [get_none hget2]
      exact R.woke t 0 (R.put h₂)
    exact R.woke t 0 (R.put (R.put (R.wakeQueue op.wakeMax2 (R.get h₂ hget2) List.mem_cons_self)))
  · exact R.woke t 0 (R.put h₂)

theorem Rules.futexWait (R : Rules P) {val : Dword} {timed pipeOk : Bool} (h : P [] 0 s)
    (ht : s.waits.lookup t = none) (hop : FutexTable.futexWait t uaddr val timed malloc pipeOk s = some s') :
    P [] 0 s' := by
  unfold FutexTable.futexWait at hop
  rcases hget : futexGetUnlocked (s.mem t) uaddr malloc s with ⟨s₁, _ | f⟩
  · rw [hget] at hop
    cases hop
  rw [hget] at hop
  have hgot := R.get h hget
  have ht₁ : s₁.waits.lookup t = none := (inv_get (R.inv h) hget).2 ▸ ht
  dsimp only at hop
  split at hop
  · cases hop
    exact R.failed t efault (R.put hgot)
  split at hop
  · cases hop
    exact R.failed t eagain (R.put hgot)
  split at hop
  · cases hop
    exact R.failed t enomem (R.put hgot)
  · cases hop
    exact R.enqueue uaddr val timed hgot ht₁

theorem Rules.orCrash (R : Rules P) {r : Option State} (h : P [] 0 s) (hr : ∀ s', r = some s' → P [] 0 s') :
    P [] 0 (s.orCrash r) := by
  cases r with
  | none => exact R.frame _ _ _ _ h
  | some s' => exact hr s' rfl

theorem looping_of_phase {w : Wait} {p : Phase} (h : w.phase = p) (hp : ∀ err, p ≠ .leaving err) : w.looping :=
  fun err hc => hp err (h.symm.trans hc)

theorem Rules.step (R : Rules P) (s : State) (e : Event) (h : P [] 0 s) : P [] 0 (FutexTable.step s e) := by
  unfold FutexTable.step
  split
  · exact h
  cases e with
  | wait t uaddr val timed malloc pipeOk =>
    dsimp only
    split
    · rename_i hidle
      exact R.orCrash h fun s' hs' => R.futexWait h (idle_lookup hidle) hs'
    · exact h
  | deadline t passed =>
    dsimp only
    split
    · rename_i w hw
      split
      · rename_i hphase
        have hloop := looping_of_phase hphase nofun
        unfold futexDeadline
        split
        · exact R.turn _ w.changed h hw hloop fun hz => absurd (Phase.leaving.inj hz) (by decide)
        · exact R.turn _ w.changed h hw hloop nofun
      · exact h
    · exact h
  | poll t =>
    dsimp only
    split
    · rename_i w hw
      split
      · rename_i hphase
        have hloop := looping_of_phase hphase nofun
        unfold futexPoll
        split
        · exact R.turn _ w.changed h hw hloop nofun
        · rename_i hbyte
          exact R.poll h hw hloop hbyte
      · exact h
    · exact h
  | checks t groupExit sigPending =>
    dsimp only
    split
    · rename_i w hw
      split
      · rename_i hphase
        have hloop := looping_of_phase hphase nofun
        unfold futexChecks
        split
        · exact R.turn _ w.changed h hw hloop fun hz => absurd (Phase.leaving.inj hz) (by decide)
        split
        · exact R.turn _ w.changed h hw hloop fun hz => absurd (Phase.leaving.inj hz) (by decide)
        split
        · exact R.turn _ true h hw hloop fun _ => rfl
        · exact R.turn _ w.changed h hw hloop nofun
      · exact h
    · exact h
  | waitEnd t =>
    dsimp only
    split
    · rename_i w hw
      split
      · rename_i err hphase
        exact R.waitEnd h hw hphase
      · exact h
    · exact h
  | wake t uaddr wakeMax malloc =>
    dsimp only
    split
    · exact R.orCrash h fun s' hs' => R.futexWake h hs'
    · exact h
  | requeue t uaddr wakeMax requeueMax requeueAddr malloc malloc2 =>
    dsimp only
    split
    · exact R.orCrash h fun s' hs' => R.futexRequeue h hs'
    · exact h
  | cmpRequeue t uaddr wakeMax requeueMax requeueAddr expected malloc malloc2 =>
    dsimp only
    split
    · exact R.orCrash h fun s' hs' => R.futexCmpRequeue h hs'
    · exact h
  | wakeOpRmw t uaddr wakeMax1 uaddr2 wakeMax2 val3 ptr =>
    dsimp only
    split
    · exact R.wakeOpRmw h
    · exact h
  | wakeOpWake t malloc malloc2 =>
    dsimp only
    split
    · exact R.wakeOpWake h
    · exact h
  | memory word => exact R.frame _ _ _ _ h
  | exec t mem =>
    dsimp only
    split
    · exact R.frame _ _ _ _ h
    · exact h
  | exit t =>
    dsimp only
    split
    · rename_i hidle
      exact R.exit h (idle_lookup hidle)
    · exact h

end Rules

/-! ## Runs -/

theorem inv_rules : Rules fun held _ s => Inv held s where
  inv h := h
  get h hget := (inv_get h hget).1
  put h := inv_put h
  wakeOne {held _ s f t} h hf _ := by
    have hpipe : Inv held (writePipe t s) := h.frame _ _ _ _ _ _
    exact (hpipe.unqueue (hpipe.held_live f hf) t).markWoken t
  requeueOne h hf hf2 ht := inv_requeueOne h hf hf2 ht
  frame _ _ _ _ h := h.frame _ _ _ _ _ _
  failed _ _ h := h.frame _ _ _ _ _ _
  woke _ _ h := h.frame _ _ _ _ _ _
  enqueue {s f t} _ _ _ h ht := by
    have hpipe : Inv [f] { s with pipe := Function.update s.pipe t (some 0) } := h.frame _ _ _ _ _ _
    exact hpipe.enqueue ht rfl
  turn _ _ h hw _ _ := h.setWait hw rfl
  poll {s t w} h hw _ _ := by
    have hset : Inv [] (s.setWait t { w with phase := .leaving 0 }) := h.setWait hw rfl
    exact hset.frame _ _ _ _ _ _
  waitEnd h hw _ := inv_futexWaitEnd h hw
  exit h _ := h.frame _ _ _ _ _ _

theorem inv_init (mem : TaskId → Word) (word : Word → Word → Option Dword) :
    Inv [] (init mem word) := by
  have hdead : ∀ f, ¬ Live (init mem word) f := by
    rintro f ⟨i, hi⟩
    cases hi
  refine ⟨fun _ => List.nodup_nil, ?_, ?_, ?_, ?_, ?_, List.nodup_nil, ?_, ?_, ?_, ?_, ?_, ?_, rfl⟩
  · intro i f hf
    cases hf
  · intro i f f' hf
    cases hf
  · exact fun f hf => absurd hf (hdead f)
  · intro f hf
    cases hf
  · intro f hf
    cases hf
  · exact fun f hf => absurd hf (hdead f)
  · exact fun f hf => absurd hf (hdead f)
  · intro f hf
    cases hf
  · intro t w hw
    cases hw
  · exact fun f t hf => absurd hf (hdead f)
  · exact fun f hf => absurd hf (hdead f)

end IosLinuxkit.FutexTable
