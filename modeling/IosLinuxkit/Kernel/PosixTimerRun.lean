import IosLinuxkit.Kernel.PosixTimer

/-!
# Timers of the guest: runs

* **`timers_precise`** — in a run whose steps are allowed, every call is precise.
-/

namespace IosLinuxkit.PosixTimer

variable {st : State} {g id h : Nat} {timer : Timer} {timerId : BitVec 32}

structure Inv (st : State) : Prop where
  slots : ∀ g id h, g < st.groups → id < timersMax → ((st.table g id).timer = some h ↔ Live st g id h)
  timers : ∀ h t, st.timers h = some t → t.owner < st.groups ∧ t.id < timersMax ∧ h < st.fresh

theorem inv_start (leader : BitVec 32) : Inv (start leader) := by
  refine ⟨fun g id h _ _ => ⟨fun hslot => ?_, fun hlive => ?_⟩, fun h t ht => ?_⟩
  · cases hslot
  · obtain ⟨t, ht, -, -⟩ := hlive
    cases ht
  · cases ht

theorem Inv.theTimer (hinv : Inv st) (hg : g < st.groups) (hid : id < timersMax)
    (hslot : (st.table g id).timer = some h) : TheTimer st g id h := by
  refine ⟨(hinv.slots g id h hg hid).mp hslot, fun h' hlive => ?_⟩
  have hslot' := (hinv.slots g id h' hg hid).mpr hlive
  exact Option.some.inj (hslot'.symm.trans hslot)

theorem slot_eq (hid : timerId.toNat < timersMax) : st.slot g timerId = some (st.table g timerId.toNat) := if_pos hid

/-! ## Changes of the state -/

theorem table_setSlot (g id g' id' : Nat) (slot : Slot) :
    (st.setSlot g id slot).table g' id' = if g' = g ∧ id' = id then slot else st.table g' id' := by
  unfold State.setSlot
  by_cases hg : g' = g
  · subst hg
    by_cases hid : id' = id
    · simp [hid]
    · simp [hid]
  · simp [hg]

theorem live_setTimer (st : State) (g id h' : Nat) (t' : Option Timer) :
    Live (st.setTimer h t') g id h' ↔
      (h' = h ∧ ∃ t, t' = some t ∧ t.owner = g ∧ t.id = id) ∨ (h' ≠ h ∧ Live st g id h') := by
  unfold Live State.setTimer
  by_cases heq : h' = h
  · simp [heq]
  · simp [heq]

theorem inv_setTimer (hinv : Inv st) {t t' : Timer} (ht : st.timers h = some t) (howner : t'.owner = t.owner)
    (hid : t'.id = t.id) : Inv (st.setTimer h (some t')) := by
  have hlive : ∀ g id h', Live (st.setTimer h (some t')) g id h' ↔ Live st g id h' := by
    intro g id h'
    rw [live_setTimer]
    by_cases heq : h' = h
    · subst heq
      simp [Live, ht, howner, hid]
    · simp [heq]
  refine ⟨fun g id h' hg hid' => ?_, fun h' t'' ht'' => ?_⟩
  · rw [hlive]
    exact hinv.slots g id h' hg hid'
  by_cases heq : h' = h
  · subst heq
    have hsame : t' = t'' := by simpa [State.setTimer] using ht''
    rw [← hsame, howner, hid]
    exact hinv.timers h' t ht
  · exact hinv.timers h' t'' (by simpa [State.setTimer, heq] using ht'')

theorem inv_created (hinv : Inv st) (hg : g < st.groups) (hid : id < timersMax)
    (hfree : (st.table g id).timer = none) {slot : Slot} (hslot : slot.timer = some st.fresh) {t : Timer}
    (howner : t.owner = g) (htid : t.id = id) :
    Inv { (st.setSlot g id slot).setTimer st.fresh (some t) with fresh := st.fresh + 1 } := by
  have hlive : ∀ g' id' h', Live { (st.setSlot g id slot).setTimer st.fresh (some t) with fresh := st.fresh + 1 } g' id' h' ↔
      (h' = st.fresh ∧ g' = g ∧ id' = id) ∨ (h' ≠ st.fresh ∧ Live st g' id' h') := by
    intro g' id' h'
    refine (live_setTimer _ g' id' h' (some t)).trans (or_congr_left ?_)
    constructor
    · rintro ⟨hh, t', ht', ho, hi⟩
      cases ht'
      exact ⟨hh, ho.symm.trans howner, hi.symm.trans htid⟩
    · rintro ⟨hh, hg', hid'⟩
      exact ⟨hh, t, rfl, howner.trans hg'.symm, htid.trans hid'.symm⟩
  have hold : ∀ {g' id' h'}, Live st g' id' h' → h' ≠ st.fresh := by
    rintro g' id' h' ⟨t', ht', -, -⟩ heq
    exact Nat.lt_irrefl _ (heq ▸ (hinv.timers h' t' ht').2.2)
  refine ⟨fun g' id' h' hg' hid' => ?_, fun h' t' ht' => ?_⟩
  · rw [hlive]
    show ((st.setSlot g id slot).table g' id').timer = some h' ↔ _
    rw [table_setSlot]
    split
    case isTrue heq =>
      obtain ⟨rfl, rfl⟩ := heq
      rw [hslot]
      constructor
      · intro hh
        exact Or.inl ⟨(Option.some.inj hh).symm, rfl, rfl⟩
      rintro (⟨rfl, -, -⟩ | ⟨-, hl⟩)
      · rfl
      · -- the slot was free
        cases hfree.symm.trans ((hinv.slots g' id' h' hg' hid').mpr hl)
    case isFalse hne =>
      rw [hinv.slots g' id' h' hg' hid']
      constructor
      · intro hl
        exact Or.inr ⟨hold hl, hl⟩
      rintro (⟨-, heq⟩ | ⟨-, hl⟩)
      · exact absurd heq hne
      · exact hl
  have ht' : Function.update st.timers st.fresh (some t) h' = some t' := ht'
  show t'.owner < st.groups ∧ t'.id < timersMax ∧ h' < st.fresh + 1
  by_cases heq : h' = st.fresh
  · rw [heq, Function.update_self] at ht'
    cases ht'
    exact ⟨howner ▸ hg, htid ▸ hid, heq ▸ Nat.lt_succ_self _⟩
  rw [Function.update_of_ne heq] at ht'
  obtain ⟨ho, hi, hlt⟩ := hinv.timers h' t' ht'
  exact ⟨ho, hi, Nat.lt_succ_of_lt hlt⟩

theorem inv_deleted (hinv : Inv st) (hg : g < st.groups) (hid : id < timersMax)
    (hslot : (st.table g id).timer = some h) :
    Inv ((st.setTimer h none).setSlot g id { st.table g id with timer := none }) := by
  obtain ⟨hthe, hone⟩ := hinv.theTimer hg hid hslot
  have hlive : ∀ g' id' h', Live ((st.setTimer h none).setSlot g id { st.table g id with timer := none }) g' id' h' ↔
      h' ≠ h ∧ Live st g' id' h' := by
    intro g' id' h'
    refine (live_setTimer st g' id' h' none).trans ⟨fun hl => ?_, Or.inr⟩
    obtain ⟨-, t, ht, -⟩ | hl := hl
    · cases ht
    · exact hl
  refine ⟨fun g' id' h' hg' hid' => ?_, fun h' t' ht' => ?_⟩
  · rw [hlive, table_setSlot]
    split
    case isTrue heq =>
      obtain ⟨rfl, rfl⟩ := heq
      refine iff_of_false (fun hnone => by cases hnone) fun hl => hl.1 (hone h' hl.2)
    case isFalse hne =>
      refine (hinv.slots g' id' h' hg' hid').trans ⟨fun hl => ⟨?_, hl⟩, And.right⟩
      -- a timer has one owner and one id
      rintro rfl
      obtain ⟨t, ht, ho, hi⟩ := hthe
      obtain ⟨t', ht', ho', hi'⟩ := hl
      rw [ht] at ht'
      cases ht'
      exact hne ⟨ho'.symm.trans ho, hi'.symm.trans hi⟩
  have ht' : Function.update st.timers h none h' = some t' := ht'
  by_cases heq : h' = h
  · rw [heq, Function.update_self] at ht'
    cases ht'
  · rw [Function.update_of_ne heq] at ht'
    exact hinv.timers h' t' ht'

theorem inv_addGroup (hinv : Inv st) {table : Nat → Slot} (hempty : ∀ id, id < timersMax → (table id).timer = none)
    (leader : BitVec 32) : Inv (st.addGroup table leader) := by
  refine ⟨fun g id h hg hid => ?_, fun h t ht => ?_⟩
  · show (Function.update st.table st.groups table g id).timer = some h ↔ Live st g id h
    by_cases heq : g = st.groups
    · rw [heq, Function.update_self, hempty id hid]
      refine iff_of_false (fun h => by cases h) fun hlive => ?_
      obtain ⟨t, ht, howner, -⟩ := hlive
      exact Nat.lt_irrefl _ (howner ▸ (hinv.timers h t ht).1)
    · rw [Function.update_of_ne heq]
      exact hinv.slots g id h (Nat.lt_of_le_of_ne (Nat.le_of_lt_succ hg) heq) hid
  · obtain ⟨howner, hrest⟩ := hinv.timers h t ht
    exact ⟨Nat.lt_succ_of_lt howner, hrest⟩

/-! ## The calls -/

def Good (st : State) (g : Nat) (c : Call) : Prop :=
  ∃ o, exec st g c = some o ∧ Inv o.state ∧ o.held = [] ∧ (o.res < 0 ∧ o.state = st ∨ o.res = 0 ∧ Acts st g o c)

theorem good_ret (hinv : Inv st) {c : Call} (err : Int) (hexec : exec st g c = some (st.ret err)) (hneg : err < 0) :
    Good st g c := ⟨_, hexec, hinv, rfl, Or.inl ⟨hneg, rfl⟩⟩

theorem firstFree_some (hfree : firstFree (st.table g) = some id) :
    id < timersMax ∧ (st.table g id).timer = none := by
  have hnone : (st.table g id).timer.isNone = true := List.find?_some (p := fun id => (st.table g id).timer.isNone) hfree
  exact ⟨List.mem_range.mp (List.mem_of_find?_eq_some hfree), Option.isNone_iff_eq_none.mp hnone⟩

theorem checked_error {a : CreateArgs} {err : Int} (hchecked : a.checked = .error err) : err < 0 := by
  unfold CreateArgs.checked at hchecked
  split at hchecked
  · cases hchecked
    decide
  · cases hchecked
    decide
  · cases hchecked
  split at hchecked
  case isTrue =>
    cases hchecked
    decide
  case isFalse => cases hchecked

theorem create_spec (hinv : Inv st) (hg : g < st.groups) {a : CreateArgs} (hfits : CreateFits st g a) :
    Good st g (.create a) := by
  cases hchecked : a.checked with
  | error err =>
    exact good_ret hinv err (by simp only [exec, sysTimerCreate, hchecked]) (checked_error hchecked)
  | ok p =>
    obtain ⟨clock, sigev⟩ := p
    obtain ⟨htid, hmem⟩ := hfits clock sigev hchecked
    have halive : ¬ (sigev.method = sigevThreadId ∧ a.tidAlive = false) := fun h =>
      absurd ((htid h.1).symm.trans h.2) (by decide)
    cases hfree : firstFree (st.table g) with
    | none => exact good_ret hinv eNOMEM (by simp only [exec, sysTimerCreate, hchecked, if_neg halive, hfree]) (by decide)
    | some id =>
      cases hput : a.put with
      | false =>
        exact good_ret hinv eFAULT
          (by simp only [exec, sysTimerCreate, hchecked, if_neg halive, hfree, hput, if_true]) (by decide)
      | true =>
        obtain ⟨junk, hjunk⟩ := Option.isSome_iff_exists.mp (hmem (by rw [hfree]; rfl) hput)
        obtain ⟨hid, hnone⟩ := firstFree_some hfree
        refine ⟨{ (created st g id clock sigev junk).ret 0 with id := some id }, ?_,
          inv_created hinv hg hid hnone rfl rfl rfl, rfl, Or.inr ⟨rfl, ?_⟩⟩
        · simp only [exec, sysTimerCreate, hchecked, if_neg halive, hfree, hput, hjunk, Bool.true_eq_false, if_false]
        refine ⟨id, st.fresh, timerNew clock junk g id, newSlot st g id sigev, rfl, hid, fun h' hlive => ?_, ?_,
          rfl, rfl, rfl, rfl⟩
        · cases hnone.symm.trans ((hinv.slots g id h' hg hid).mpr hlive)
        cases ht : st.timers st.fresh with
        | none => rfl
        | some t => exact absurd (hinv.timers _ t ht).2.2 (Nat.lt_irrefl _)

theorem settime_spec (hinv : Inv st) (hg : g < st.groups) {a : SetArgs} (hfits : SetFits st g timerId a) :
    Good st g (.settime timerId a) := by
  cases hvalue : a.newValue with
  | none => exact good_ret hinv eFAULT (by simp only [exec, sysTimerSettime, hvalue]) (by decide)
  | some value =>
    by_cases hmany : timersMax < timerId.toNat
    · exact good_ret hinv eINVAL
        (by simp only [exec, sysTimerSettime, hvalue, if_pos (show timerId.toNat > timersMax from hmany)]) (by decide)
    obtain hnone | hbig | ⟨hid, hsome, hold⟩ := hfits
    · cases hnone.symm.trans hvalue
    · exact absurd hbig hmany
    obtain ⟨h, hslot⟩ := Option.isSome_iff_exists.mp hsome
    have hthe := hinv.theTimer hg hid hslot
    obtain ⟨t, ht, -, htid⟩ := hthe.1
    let t' := (timerSet t (a.later t.clockid) (a.spec value t)).2
    have hinv' : Inv (st.setTimer h (some t')) := inv_setTimer hinv ht rfl rfl
    have hacts : ∀ o : Outcome, o.state = st.setTimer h (some t') → Acts st g o (.settime timerId a) :=
      fun o ho => ⟨h, t, value, hthe, ht, hvalue, ho⟩
    have hle : ¬ timerId.toNat > timersMax := hmany
    cases hw : a.oldValue with
    | none =>
      refine ⟨(st.setTimer h (some t')).ret 0, ?_, hinv', rfl, Or.inr ⟨rfl, hacts _ rfl⟩⟩
      simp only [exec, sysTimerSettime, hvalue, if_neg hle, slot_eq hid, Option.bind_eq_bind, Option.bind_some, hslot,
        ht, hw]
      rfl
    | some put =>
      cases put with
      | false => exact absurd hw hold
      | true =>
        refine ⟨{ (st.setTimer h (some t')).ret 0 with
          spec := some (timerSet t (a.later t.clockid) (a.spec value t)).1 }, ?_, hinv', rfl,
          Or.inr ⟨rfl, hacts _ rfl⟩⟩
        simp only [exec, sysTimerSettime, hvalue, if_neg hle, slot_eq hid, Option.bind_eq_bind, Option.bind_some,
          hslot, ht, hw]
        rfl

theorem gettime_spec (hinv : Inv st) (hg : g < st.groups) (put : Bool) (now : Clock → Timespec) :
    Good st g (.gettime timerId put now) := by
  by_cases hid : timerId.toNat < timersMax
  · have hlt : ¬ timerId.toNat ≥ timersMax := Nat.not_le_of_lt hid
    cases hslot : (st.table g timerId.toNat).timer with
    | none =>
      exact good_ret hinv eINVAL (by simp only [exec, sysTimerGettime, if_neg hlt, slot_eq hid, Option.bind_eq_bind,
        Option.bind_some, hslot]) (by decide)
    | some h =>
      have hthe := hinv.theTimer hg hid hslot
      obtain ⟨t, ht, -, htid⟩ := hthe.1
      cases put with
      | false =>
        exact good_ret hinv eFAULT (by simp only [exec, sysTimerGettime, if_neg hlt, slot_eq hid, Option.bind_eq_bind,
          Option.bind_some, hslot, ht, Bool.false_eq_true, if_false]) (by decide)
      | true =>
        refine ⟨{ st.ret 0 with spec := some (remaining t (now t.clockid)) }, ?_, hinv, rfl,
          Or.inr ⟨rfl, h, t, hthe, ht, rfl, rfl⟩⟩
        simp only [exec, sysTimerGettime, if_neg hlt, slot_eq hid, Option.bind_eq_bind, Option.bind_some, hslot, ht,
          if_true]
  · exact good_ret hinv eINVAL
      (by simp only [exec, sysTimerGettime, if_pos (show timerId.toNat ≥ timersMax from Nat.le_of_not_lt hid)]) (by decide)

theorem getoverrun_spec (hinv : Inv st) (hg : g < st.groups) : Good st g (.getoverrun timerId) := by
  by_cases hid : timerId.toNat < timersMax
  · have hlt : ¬ timerId.toNat ≥ timersMax := Nat.not_le_of_lt hid
    cases hslot : (st.table g timerId.toNat).timer with
    | none =>
      exact good_ret hinv eINVAL (by simp only [exec, sysTimerGetoverrun, if_neg hlt, slot_eq hid, Option.bind_eq_bind,
        Option.bind_some, hslot]) (by decide)
    | some h =>
      refine ⟨st.ret 0, ?_, hinv, rfl, Or.inr ⟨rfl, h, hinv.theTimer hg hid hslot, rfl⟩⟩
      simp only [exec, sysTimerGetoverrun, if_neg hlt, slot_eq hid, Option.bind_eq_bind, Option.bind_some, hslot]
  · exact good_ret hinv eINVAL
      (by simp only [exec, sysTimerGetoverrun, if_pos (show timerId.toNat ≥ timersMax from Nat.le_of_not_lt hid)])
      (by decide)

theorem delete_spec (hinv : Inv st) (hg : g < st.groups) (hid : timerId.toNat < timersMax) :
    Good st g (.delete timerId) := by
  cases hslot : (st.table g timerId.toNat).timer with
  | none =>
    exact good_ret hinv eINVAL
      (by simp only [exec, sysTimerDelete, slot_eq hid, Option.bind_eq_bind, Option.bind_some, hslot]) (by decide)
  | some h =>
    have hthe := hinv.theTimer hg hid hslot
    obtain ⟨t, ht, -, htid⟩ := hthe.1
    refine ⟨((st.setTimer h none).setSlot g timerId.toNat { st.table g timerId.toNat with timer := none }).ret 0, ?_,
      inv_deleted hinv hg hid hslot, rfl, Or.inr ⟨rfl, h, hthe, rfl⟩⟩
    simp only [exec, sysTimerDelete, slot_eq hid, Option.bind_eq_bind, Option.bind_some, hslot, ht]

/-! ## Runs -/

theorem call_good (hinv : Inv st) (hg : g < st.groups) {c : Call} (hallowed : Allowed st (.call g c)) : Good st g c := by
  cases c with
  | create a => exact create_spec hinv hg hallowed
  | settime timerId a => exact settime_spec hinv hg hallowed
  | gettime timerId put now => exact gettime_spec hinv hg put now
  | getoverrun timerId => exact getoverrun_spec hinv hg
  | delete timerId => exact delete_spec hinv hg hallowed

theorem inv_step (hinv : Inv st) (op : Op) (hallowed : Allowed st op) : Inv (step st op) := by
  cases op with
  | call g c =>
    simp only [step]
    split
    case isTrue hg =>
      obtain ⟨o, hexec, hinv', -, -⟩ := call_good hinv hg hallowed
      rw [hexec]
      exact hinv'
    case isFalse => exact hinv
  | expire h =>
    cases ht : st.timers h with
    | none =>
      have hsame : st.setTimer h none = st := by
        unfold State.setTimer
        rw [← ht, Function.update_eq_self]
      simp only [step, ht, Option.map_none, hsame]
      exact hinv
    | some t =>
      simp only [step, ht, Option.map_some]
      refine inv_setTimer hinv ht ?_ ?_ <;> unfold timerExpire <;> split <;> rfl
  | construct leader => exact inv_addGroup hinv (fun _ _ => rfl) leader
  | fork g leader =>
    simp only [step]
    split
    case isTrue => exact inv_addGroup hinv hallowed leader
    case isFalse => exact hinv

theorem precise_step (hinv : Inv st) (op : Op) (hallowed : Allowed st op) : Precise st op := by
  cases op with
  | call g c =>
    intro hg
    obtain ⟨o, hexec, -, hdone⟩ := call_good hinv hg hallowed
    exact ⟨o, hexec, hdone⟩
  | expire | construct | fork => trivial

/-- **Timers of the guest.** In a run of calls of any groups whose steps are all allowed, each call either
fails and changes nothing, or acts on the one timer of its group that has its id; no access leaves the
table or live memory, and no call returns with a lock. -/
theorem timers_precise (leader : BitVec 32) (ops : List Op) (hops : AllSteps step Allowed (start leader) ops) :
    AllSteps step Precise (start leader) ops :=
  allSteps_imp (fun _ op hinv hok => precise_step hinv op hok) (fun _ op hinv hok => inv_step hinv op hok)
    (inv_start leader) hops

def defaultTimer : CreateArgs := ⟨1, none, true, true, some ⟨⟨0, 0⟩, ⟨0, 0⟩, ⟨0, 0⟩⟩⟩

/-- One second from now, and every second from then on. -/
def everySecond : SetArgs := ⟨false, some ⟨⟨1, 0⟩, ⟨1, 0⟩⟩, some true, fun _ => ⟨5, 0⟩, fun _ => ⟨5, 0⟩⟩

/-- A timer is set and deleted, and its id is used again. -/
theorem timers_precise_reused : AllSteps step Precise (start 1)
    [.call 0 (.create defaultTimer), .call 0 (.settime 0 everySecond), .expire 0, .call 0 (.delete 0),
      .call 0 (.create defaultTimer)] := by
  have hcreate : ∀ st, CreateFits st 0 defaultTimer := fun _ _ _ _ => ⟨fun _ => rfl, fun _ _ => rfl⟩
  apply timers_precise
  refine ⟨hcreate _, Or.inr (Or.inr ⟨by decide, by decide, by decide⟩), trivial, ?_, hcreate _, trivial⟩
  show (0 : BitVec 32).toNat < timersMax
  decide

/-- The id 16 passes the check of `timer_settime`, and is the slot behind the last. -/
theorem settime_past_table : exec (start 1) 0 (.settime 16 everySecond) = none ∧
    ¬ Precise (start 1) (.call 0 (.settime 16 everySecond)) := by
  have hnone : exec (start 1) 0 (.settime 16 everySecond) = none := rfl
  refine ⟨hnone, fun hprecise => ?_⟩
  obtain ⟨o, hexec, -⟩ := hprecise Nat.zero_lt_one
  rw [hnone] at hexec
  cases hexec

end IosLinuxkit.PosixTimer
