import IosLinuxkit.Fs.FdTableCalls

/-!
# Descriptor tables over a run

* **`descriptorTable_run`** — every run of bounded calls.
-/

namespace IosLinuxkit.Fs

open FdView

namespace Fds

variable {st st' : Fds} {op : FdOp} {t : FdTable} {v : FdView} {a b d limit : Nat} {memory : Bool}
  {held : List Nat} {f : FdView → Int × FdView}

/-- The references that the other tables have, or that are in flight. -/
def elsewhere (st : Fds) (a d : Nat) : Int :=
  Assoc.sumBy (FdTable.slots d) (st.tables.erase a) + (st.held.count d : Nat)

structure FdInv (st : Fds) : Prop extends FdSafe st where
  fresh : ∀ a, st.nextTable ≤ a → st.tables.lookup a = none
  size : ∀ a t, st.tables.lookup a = some t → t.files.length ≤ 2147483648

theorem fdInv_init : FdInv init := by
  have hall : ∀ a t, init.tables.lookup a = some t → a = 0 ∧ t = ⟨[none, none, none], fun _ => false, 1⟩ := by
    intro a t ht
    by_cases ha : a = 0
    · subst ha
      exact ⟨rfl, (Option.some.inj ht).symm⟩
    · rw [show init.tables.lookup a = none from AList.lookup_insert_ne ha] at ht
      cases ht
  refine ⟨⟨rfl, fun d => ?_, fun a t ht i hi => ?_⟩, fun a ha => ?_, fun a t ht => ?_⟩
  · rw [Assoc.sumBy_eq_zero fun a t ht => ?_]
    · rfl
    · rw [(hall a t ht).2]
      rfl
  · rw [(hall a t ht).2] at hi
    cases hi
  · refine AList.lookup_insert_ne fun h0 => ?_
    rw [h0] at ha
    exact absurd ha (by decide)
  · rw [(hall a t ht).2]
    exact (by decide : 3 ≤ 2147483648)

/-! ## From all tables to one, and back -/

theorem elsewhere_eq (st : Fds) (ht : st.tables.lookup a = some t) (d : Nat) : elsewhere st a d =
      Assoc.sumBy (FdTable.slots d) st.tables - t.slots d + (st.held.count d : Nat) := by
  unfold elsewhere
  rw [Assoc.sumBy_erase, Assoc.weightAt_of_some ht]

theorem sound_view (h : FdInv st) (ht : st.tables.lookup a = some t) :
    Sound (elsewhere st a) (st.view t) := by
  refine ⟨h.intact, fun d => ?_, h.cloexec a t ht, h.size a t ht⟩
  have hc := h.counted d
  rw [elsewhere_eq st ht]
  show st.refcount d = _ + t.slots d
  omega

theorem fdInv_put (held : List Nat) (h : FdInv st) (ht : st.tables.lookup a = some t)
    (hv : Sound (elsewhere { st with held := held } a) v) :
    FdInv ({ st with held := held }.put a v) := by
  refine ⟨⟨hv.intact, fun d => ?_, fun b u hu => ?_⟩, fun b hb => ?_, fun b u hu => ?_⟩
  · have hc := hv.counted d
    rw [elsewhere_eq { st with held := held } ht] at hc
    show v.refcount d = Assoc.sumBy (FdTable.slots d) (st.tables.insert a v.table) + (held.count d : Nat)
    rw [Assoc.sumBy_insert, Assoc.weightAt_of_some ht, hc]
    dsimp only
    omega
  · have hu' : (st.tables.insert a v.table).lookup b = some u := hu
    by_cases hba : b = a
    · subst hba
      rw [AList.lookup_insert] at hu'
      cases hu'
      exact hv.cloexec
    · rw [AList.lookup_insert_ne hba] at hu'
      exact h.cloexec b u hu'
  · have hba : b ≠ a := by
      intro hba
      have hnone := h.fresh b hb
      rw [hba, ht] at hnone
      cases hnone
    exact (AList.lookup_insert_ne hba).trans (h.fresh b hb)
  have hu' : (st.tables.insert a v.table).lookup b = some u := hu
  by_cases hba : b = a
  · subst hba
    rw [AList.lookup_insert] at hu'
    cases hu'
    exact hv.size
  · rw [AList.lookup_insert_ne hba] at hu'
    exact h.size b u hu'

theorem fdInv_users (h : FdInv st) (ht : st.tables.lookup a = some t) (n : Nat) :
    FdInv { st with tables := st.tables.insert a { t with users := n } } := by
  have hv := sound_view h ht
  exact fdInv_put (v := st.view { t with users := n }) st.held h ht
    ⟨hv.intact, hv.counted, hv.cloexec, hv.size⟩

/-! ## What a step has to show -/

structure StepSpec (st : Fds) (op : FdOp) : Prop where
  inv : FdInv (fdStep st op)
  lowest : Lowest st op
  spared : Spared st op

theorem spared_of_slots (h : ∀ a t t' i, st.tables.lookup a = some t →
    (fdStep st op).tables.lookup a = some t' → t'.slot i = t.slot i) : Spared st op :=
  fun a t t' i ht ht' _ => .inl (h a t t' i ht ht')

theorem spared_of_tables (h : (fdStep st op).tables = st.tables) : Spared st op := by
  refine spared_of_slots fun a t t' i ht ht' => ?_
  rw [h, ht] at ht'
  cases ht'
  rfl

theorem lowest_of_none (h : startOf op = none) : Lowest st op := by
  intro a start t hs
  rw [h] at hs
  cases hs

theorem spared_put (target : Option Nat) (ht : st.tables.lookup a = some t)
    (htables : (fdStep st op).tables = st.tables.insert a v.table)
    (hv : Spares (st.view t) v target) (htarget : targetOf op = target.map fun i => (a, i)) :
    Spared st op := by
  intro b u u' i hu hu' hi
  rw [htables] at hu'
  by_cases hba : b = a
  · subst hba
    rw [AList.lookup_insert] at hu'
    cases hu'
    obtain rfl : t = u := Option.some.inj (ht.symm.trans hu)
    rcases hv i hi with heq | hnone | hat
    · exact .inl heq
    · exact .inr (.inl hnone)
    · rw [htarget, hat]
      exact .inr (.inr rfl)
  rw [AList.lookup_insert_ne hba, hu] at hu'
  cases hu'
  exact .inl rfl

theorem call_of_some (ht : st.tables.lookup a = some t) :
    st.call a f = ((f (st.view t)).1, st.put a (f (st.view t)).2) := by
  unfold call
  rw [ht]

theorem call_of_none (ht : st.tables.lookup a = none) : st.call a f = (-9, st) := by
  unfold call
  rw [ht]

theorem step_call (target : Option Nat) (h : FdInv st) (hop : fdCall st op = st.call a f) (hstart : startOf op = none)
    (htarget : targetOf op = target.map fun i => (a, i))
    (hf : ∀ t, st.tables.lookup a = some t → Sound (elsewhere st a) (st.view t) →
      Sound (elsewhere st a) (f (st.view t)).2 ∧ Spares (st.view t) (f (st.view t)).2 target) :
    StepSpec st op := by
  cases ht : st.tables.lookup a with
  | none =>
    have hstep : fdStep st op = st := by rw [fdStep, hop, call_of_none ht]
    exact ⟨by rw [hstep]; exact h, lowest_of_none hstart, spared_of_tables (by rw [hstep])⟩
  | some t =>
    obtain ⟨hsound, hspares⟩ := hf t ht (sound_view h ht)
    have hstep : fdStep st op = st.put a (f (st.view t)).2 := by rw [fdStep, hop, call_of_some ht]
    refine ⟨?_, lowest_of_none hstart, spared_put target ht (by rw [hstep]; rfl) hspares htarget⟩
    rw [hstep]
    exact fdInv_put st.held h ht hsound

theorem step_closes (h : FdInv st) (hop : fdCall st op = st.call a f) (hstart : startOf op = none)
    (htarget : targetOf op = none) (hf : ∀ t, Sound (elsewhere st a) (st.view t) →
      Sound (elsewhere st a) (f (st.view t)).2 ∧ Closes (st.view t) (f (st.view t)).2) :
    StepSpec st op :=
  step_call none h hop hstart htarget fun t _ hv => ⟨(hf t hv).1, (hf t hv).2.spares none⟩

theorem step_newCall {start : Nat} (h : FdInv st) (hop : fdCall st op = st.call a f)
    (hstart : startOf op = some (a, start)) (htarget : targetOf op = none)
    (hf : ∀ t, st.tables.lookup a = some t → Sound (elsewhere st a) (st.view t) →
      NewSpec (elsewhere st a) (st.view t) start (f (st.view t))) : StepSpec st op := by
  have hlowest : Lowest st op := by
    intro b start' t hs ht n hn
    rw [hstart] at hs
    obtain ⟨rfl, rfl⟩ := Prod.mk.inj (Option.some.inj hs)
    rw [hop, call_of_some ht] at hn
    have hfound := (hf t ht (sound_view h ht)).found n hn
    exact ⟨hfound.start_le, hfound.empty, hfound.passed⟩
  cases ht : st.tables.lookup a with
  | none =>
    have hstep : fdStep st op = st := by rw [fdStep, hop, call_of_none ht]
    exact ⟨by rw [hstep]; exact h, hlowest, spared_of_tables (by rw [hstep])⟩
  | some t =>
    have hnew := hf t ht (sound_view h ht)
    have hstep : fdStep st op = st.put a (f (st.view t)).2 := by rw [fdStep, hop, call_of_some ht]
    refine ⟨?_, hlowest, spared_put none ht (by rw [hstep]; rfl) hnew.spares htarget⟩
    rw [hstep]
    exact fdInv_put st.held h ht hnew.sound

/-! ## References in flight -/

theorem fdInv_create (h : FdInv st) (d : Nat) : FdInv (st.create d) := by
  unfold create
  split
  case isFalse => exact h
  case isTrue hfree =>
    refine ⟨⟨h.intact, fun e => ?_, h.cloexec⟩, h.fresh, h.size⟩
    have hc := h.counted e
    show (if e = d then 1 else st.refcount e) =
      Assoc.sumBy (FdTable.slots e) st.tables + ((d :: st.held).count e : Nat)
    rw [List.count_cons]
    by_cases he : e = d
    · -- the count was zero, and so is each part of the sum
      subst he
      simp only [if_true, BEq.rfl]
      omega
    have hne : (d == e) = false := by simpa using fun hde => he hde.symm
    rw [if_neg he, hne, hc]
    simp

theorem fdInv_hold (h : FdInv st) (d : Nat) : FdInv (st.hold d) := by
  unfold hold
  split
  case isFalse => exact h
  case isTrue =>
    refine ⟨⟨h.intact, fun e => ?_, h.cloexec⟩, h.fresh, h.size⟩
    have hc := h.counted e
    show bump d 1 st.refcount e =
      Assoc.sumBy (FdTable.slots e) st.tables + ((d :: st.held).count e : Nat)
    rw [List.count_cons]
    unfold bump
    simp only [beq_iff_eq, eq_comm (a := d)]
    split <;> omega

theorem count_erase_held (hd : d ∈ st.held) (e : Nat) :
    ((st.held.erase d).count e : Int) = st.held.count e - if e = d then 1 else 0 := by
  rw [List.count_erase]
  simp only [beq_iff_eq, eq_comm (a := d)]
  split
  case isTrue he =>
    have := List.count_pos_iff.mpr (he ▸ hd)
    omega
  case isFalse => omega

theorem fdInv_release (h : FdInv st) (d : Nat) : FdInv (st.release d) := by
  unfold release
  split
  case isFalse => exact h
  case isTrue hd =>
    refine ⟨⟨h.intact, fun e => ?_, h.cloexec⟩, h.fresh, h.size⟩
    have hc := h.counted e
    show bump d (-1) st.refcount e =
      Assoc.sumBy (FdTable.slots e) st.tables + ((st.held.erase d).count e : Nat)
    rw [count_erase_held hd]
    unfold bump
    split <;> omega

theorem elsewhere_erase_held (hd : d ∈ st.held) :
    bump d 1 (elsewhere { st with held := st.held.erase d } a) = elsewhere st a := by
  funext e
  have hcount := count_erase_held hd e
  unfold bump elsewhere
  dsimp only
  rw [hcount]
  split <;> omega

/-! ## Tables come and go -/

theorem retainAll_apply (count : Nat → Int) (files : List (Option Nat)) (d : Nat) :
    retainAll count files d = count d + (files.count (some d) : Nat) := by
  induction files generalizing count with
  | nil => exact (Int.add_zero _).symm
  | cons x files ih =>
    cases x with
    | none =>
      rw [retainAll, ih, List.count_cons]
      simp
    | some e =>
      rw [retainAll, ih, List.count_cons]
      unfold bump
      simp only [beq_iff_eq, Option.some.injEq, eq_comm (a := e)]
      split <;> omega

theorem fdInv_copy (h : FdInv st) (hb : ∀ t, st.tables.lookup a = some t → t.files.length < 2147483648)
    (memory : Bool) : FdInv (st.fdtableCopy a memory).2 := by
  unfold fdtableCopy
  cases ht : st.tables.lookup a with
  | none => exact h
  | some t =>
    dsimp only
    split
    · exact h
    rw [if_neg (Nat.not_le.mpr (hb t ht))]
    have hnone := h.fresh st.nextTable (Nat.le_refl _)
    refine ⟨⟨h.intact, fun d => ?_, fun b u hu i hi => ?_⟩, fun b hb' => ?_, fun b u hu => ?_⟩
    · have hc := h.counted d
      dsimp only
      rw [retainAll_apply, Assoc.sumBy_insert, Assoc.weightAt_of_none hnone, hc]
      unfold FdTable.slots
      dsimp only
      omega
    · dsimp only at hu
      by_cases hbn : b = st.nextTable
      · subst hbn
        rw [AList.lookup_insert] at hu
        cases hu
        exact h.cloexec a t ht i (Bool.and_eq_true _ _ ▸ hi).2
      · rw [AList.lookup_insert_ne hbn] at hu
        exact h.cloexec b u hu i hi
    · dsimp only at hb' ⊢
      rw [AList.lookup_insert_ne (by omega)]
      exact h.fresh b (by omega)
    dsimp only at hu
    by_cases hbn : b = st.nextTable
    · subst hbn
      rw [AList.lookup_insert] at hu
      cases hu
      exact h.size a t ht
    · rw [AList.lookup_insert_ne hbn] at hu
      exact h.size b u hu

theorem spared_copy (h : FdInv st) (a : Nat) (memory : Bool) : Spared st (.copy a memory) := by
  refine spared_of_slots fun b u u' i hu hu' => ?_
  have hbn : b ≠ st.nextTable := fun hbn => by
    rw [h.fresh b (Nat.le_of_eq hbn.symm)] at hu
    cases hu
  have hsame : (fdStep st (.copy a memory)).tables.lookup b = st.tables.lookup b := by
    show (st.fdtableCopy a memory).2.tables.lookup b = _
    unfold fdtableCopy
    cases st.tables.lookup a with
    | none => rfl
    | some t =>
      dsimp only
      split
      · rfl
      split
      · rfl
      · exact AList.lookup_insert_ne hbn
  rw [hsame, hu] at hu'
  cases hu'
  rfl

theorem spared_users (ht : st.tables.lookup a = some t) (n : Nat)
    (htables : (fdStep st op).tables = st.tables.insert a { t with users := n })
    (htarget : targetOf op = none) : Spared st op :=
  spared_put (v := st.view { t with users := n }) none ht htables (fun _ _ => .inl rfl) htarget

theorem step_share (h : FdInv st) (a : Nat) : StepSpec st (.share a) := by
  cases ht : st.tables.lookup a with
  | none =>
    have hstep : fdStep st (.share a) = st := by
      show st.share a = st
      rw [share, ht]
    exact ⟨by rw [hstep]; exact h, lowest_of_none rfl, spared_of_tables (by rw [hstep])⟩
  | some t =>
    have hstep : fdStep st (.share a) =
        { st with tables := st.tables.insert a { t with users := t.users + 1 } } := by
      show st.share a = _
      rw [share, ht]
    exact ⟨by rw [hstep]; exact fdInv_users h ht _, lowest_of_none rfl,
      spared_users ht _ (by rw [hstep]) rfl⟩

theorem slots_closeAll (hv : Sound (elsewhere st a) v) (d : Nat) :
    (v.closeAll (List.range v.table.files.length)).table.slots d = 0 := by
  obtain ⟨_, hcloses, hnone⟩ := closeAll_spec hv (List.range v.table.files.length)
  refine slots_eq_zero (fun i => ?_) d
  by_cases hi : i < v.table.files.length
  · exact hnone i (List.mem_range.mpr hi)
  rcases hcloses i with heq | hgone
  · exact heq.trans (slot_of_le (Nat.le_of_not_lt hi))
  · exact hgone

theorem step_drop (h : FdInv st) (a : Nat) : StepSpec st (.drop a) := by
  cases ht : st.tables.lookup a with
  | none =>
    have hstep : fdStep st (.drop a) = st := by
      show st.fdtableRelease a = st
      rw [fdtableRelease, ht]
    exact ⟨by rw [hstep]; exact h, lowest_of_none rfl, spared_of_tables (by rw [hstep])⟩
  | some t =>
    by_cases hlast : t.users - 1 = 0
    case neg =>
      have hstep : fdStep st (.drop a) =
          { st with tables := st.tables.insert a { t with users := t.users - 1 } } := by
        show st.fdtableRelease a = _
        rw [fdtableRelease, ht]
        exact if_neg hlast
      exact ⟨by rw [hstep]; exact fdInv_users h ht _, lowest_of_none rfl,
        spared_users ht _ (by rw [hstep]) rfl⟩
    case pos =>
      have hview := sound_view h ht
      have hclosed := (closeAll_spec hview (List.range t.files.length)).1
      have hzero := slots_closeAll hview
      have hstep : fdStep st (.drop a) = { st with
            tables := st.tables.erase a
            refcount := ((st.view t).closeAll (List.range t.files.length)).refcount
            corrupt := ((st.view t).closeAll (List.range t.files.length)).corrupt } := by
        show st.fdtableRelease a = _
        rw [fdtableRelease, ht]
        exact if_pos hlast
      -- what is left was there before
      have hleft : ∀ b u, (st.tables.erase a).lookup b = some u → b ≠ a ∧ st.tables.lookup b = some u := by
        intro b u hu
        have hba : b ≠ a := fun hba => by
          rw [hba, AList.lookup_erase] at hu
          cases hu
        exact ⟨hba, AList.lookup_erase_ne hba ▸ hu⟩
      refine ⟨?_, lowest_of_none rfl, spared_of_slots fun b u u' i hu hu' => ?_⟩
      · rw [hstep]
        refine ⟨⟨hclosed.intact, fun d => ?_, fun b u hu => ?_⟩, fun b hb => ?_, fun b u hu => ?_⟩
        · have hc := hclosed.counted d
          have hz : ((st.view t).closeAll (List.range t.files.length)).table.slots d = 0 := hzero d
          rw [hz, Int.add_zero] at hc
          exact hc
        · exact h.cloexec b u (hleft b u hu).2
        · cases hget : (st.tables.erase a).lookup b with
          | none => rfl
          | some u =>
            have hu := (hleft b u hget).2
            rw [h.fresh b hb] at hu
            cases hu
        · exact h.size b u (hleft b u hu).2
      rw [hstep] at hu'
      have hu'' := (hleft b u' hu').2
      rw [hu] at hu''
      cases hu''
      rfl

/-! ## Every step -/

theorem toInt32_lt (x : Int) : toInt32 x < 2147483648 := by
  have := Int.emod_lt_of_pos (x + 2147483648) (show (0 : Int) < 4294967296 by decide)
  unfold toInt32
  omega

theorem step_install (h : FdInv st) {a d limit : Nat} {cloexec memory : Bool}
    (hb : Bounded st (.install a d limit cloexec memory)) :
    StepSpec st (.install a d limit cloexec memory) := by
  have hstay : st.install a d limit cloexec memory = (-9, st) →
      StepSpec st (.install a d limit cloexec memory) := by
    intro hstay
    have hstep : fdStep st (.install a d limit cloexec memory) = st := congrArg Prod.snd hstay
    refine ⟨by rw [hstep]; exact h, fun b start u _ _ n hn => ?_, spared_of_tables (by rw [hstep])⟩
    have hn' : (st.install a d limit cloexec memory).1 = n := hn
    rw [hstay] at hn'
    exact absurd hn' (by dsimp only; omega)
  cases ht : st.tables.lookup a with
  | none => exact hstay (by rw [install, ht])
  | some t =>
    by_cases hd : d ∈ st.held
    case neg => exact hstay (by rw [install, ht]; exact if_neg hd)
    case pos =>
      have hcall : fdCall st (.install a d limit cloexec memory) =
          (((st.view t).fInstall d limit cloexec memory).1,
            { st with held := st.held.erase d }.put a ((st.view t).fInstall d limit cloexec memory).2) := by
        show st.install a d limit cloexec memory = _
        rw [install, ht]
        exact if_pos hd
      -- its reference is not in flight any more, and the table is not in the books yet
      have hview := sound_view h ht
      rw [← elsewhere_erase_held hd] at hview
      have hspec := newSpec_of (fInstall_spec hview (hb t ht hd) cloexec memory)
      refine ⟨?_, fun b start u hs hu n hn => ?_,
        spared_put none ht (by rw [fdStep, hcall]; rfl) hspec.spares rfl⟩
      · rw [fdStep, hcall]
        exact fdInv_put _ h ht hspec.sound
      obtain ⟨rfl, rfl⟩ := Prod.mk.inj (Option.some.inj hs)
      obtain rfl : t = u := Option.some.inj (ht.symm.trans hu)
      rw [hcall] at hn
      have hfound := hspec.found n hn
      exact ⟨hfound.start_le, hfound.empty, hfound.passed⟩

theorem step_spec (h : FdInv st) (hb : Bounded st op) : StepSpec st op := by
  cases op with
  | create d =>
    refine ⟨fdInv_create h d, lowest_of_none rfl, spared_of_tables ?_⟩
    show (st.create d).tables = _
    unfold create
    split <;> rfl
  | hold d =>
    refine ⟨fdInv_hold h d, lowest_of_none rfl, spared_of_tables ?_⟩
    show (st.hold d).tables = _
    unfold hold
    split <;> rfl
  | release d =>
    refine ⟨fdInv_release h d, lowest_of_none rfl, spared_of_tables ?_⟩
    show (st.release d).tables = _
    unfold release
    split <;> rfl
  | install a d limit cloexec memory => exact step_install h hb
  | dup a n limit memory =>
    exact step_newCall (f := fun v => v.sysDup (toInt32 n) limit memory) h rfl rfl rfl
      fun t ht hv => sysDup_spec hv _ memory (hb t ht)
  | dupfd a n arg limit cloexec memory =>
    exact step_newCall (f := fun v => (v.sysFcntlDupfd (toInt32 n) arg limit cloexec memory).getD (-1, v))
      h rfl rfl rfl fun t ht hv => sysFcntlDupfd_spec hv _ arg cloexec memory (hb t ht)
  | dup3 a n newF limit cloexec memory =>
    exact step_call (f := fun v => v.sysDup3 (toInt32 n) (toInt32 newF) limit cloexec memory)
      (some (toInt32 newF).toNat) h rfl rfl rfl
      fun t ht hv => sysDup3_spec hv _ cloexec memory (toInt32_lt newF) (hb t ht)
  | setfd a n on =>
    exact step_closes (f := fun v => v.sysFcntlSetfd (toInt32 n) on) h rfl rfl rfl
      fun t hv => sysFcntlSetfd_spec hv _ on
  | close a n =>
    exact step_closes (f := fun v => v.fdtableClose (toInt32 n)) h rfl rfl rfl
      fun t hv => ⟨sound_fdtableClose hv _, closes_fdtableClose _ _⟩
  | closeRange a first last cloexec =>
    exact step_closes (f := fun v => v.sysCloseRange first last cloexec) h rfl rfl rfl
      fun t hv => sysCloseRange_spec hv first last cloexec
  | doCloexec a =>
    exact step_closes (f := fun v => (0, v.fdtableDoCloexec)) h rfl rfl rfl
      fun t hv => doCloexecFrom_spec hv _
  | copy a memory => exact ⟨fdInv_copy h hb memory, lowest_of_none rfl, spared_copy h a memory⟩
  | share a => exact step_share h a
  | drop a => exact step_drop h a

end Fds

/-! ## Runs -/

/-- **Descriptors.** In every state that a run of bounded calls reaches, no access was outside of an
array, every count is that of the slots and the references in flight, and the bits are on open slots; and
the next bounded call returns the lowest free descriptor and spares the open slots. -/
theorem descriptorTable_run (ops : List FdOp) (hops : AllSteps fdStep Bounded Fds.init ops) :
    FdSafe (run fdStep Fds.init ops) ∧ ∀ op, Bounded (run fdStep Fds.init ops) op →
        Lowest (run fdStep Fds.init ops) op ∧ Spared (run fdStep Fds.init ops) op := by
  have hstep : ∀ st op, Fds.FdInv st → Bounded st op → Fds.FdInv (fdStep st op) :=
    fun st op h hb => (Fds.step_spec h hb).inv
  have hinv := run_invariant hstep Fds.fdInv_init hops
  exact ⟨hinv.toFdSafe, fun op hb => ⟨(Fds.step_spec hinv hb).lowest, (Fds.step_spec hinv hb).spared⟩⟩

def stdinOnly : List FdOp := [.create 5, .install 0 5 1024 false true]

theorem stdinOnly_bounded : AllSteps fdStep Bounded Fds.init stdinOnly := by
  refine ⟨trivial, fun t ht _ => ?_, trivial⟩
  obtain rfl : ⟨[none, none, none], fun _ => false, 1⟩ = t := Option.some.inj ht
  exact ⟨.inl (by decide), by decide⟩

/-- The duplicate of descriptor 0 is 1: it is the lowest that was free. -/
theorem descriptorTable_dup : (fdCall (run fdStep Fds.init stdinOnly) (.dup 0 0 1024 true)).1 = 1 ∧
      Lowest (run fdStep Fds.init stdinOnly) (.dup 0 0 1024 true) := by
  refine ⟨by decide, ((descriptorTable_run stdinOnly stdinOnly_bounded).2 (.dup 0 0 1024 true)
    fun t ht _ => ?_).1⟩
  obtain rfl : _ = t := Option.some.inj ht
  exact ⟨.inl (by decide), by decide⟩

/-- `dup3` to −1 stores before the array; `F_DUPFD_CLOEXEC` over the limit sets the bit of its error
number; and a limit of `2 ^ 32` searches nothing and stores over an open file. -/
theorem descriptorTable_negative :
    ¬ FdSafe (run fdStep Fds.init (stdinOnly ++ [.dup3 0 0 (-1) 1024 false true])) ∧
      ¬ FdSafe (run fdStep Fds.init (stdinOnly ++ [.dupfd 0 0 1024 1024 true true])) ∧
      ¬ Spared (run fdStep Fds.init (stdinOnly ++ [.create 6])) (.install 0 6 4294967296 false true) := by
  refine ⟨fun h => ?_, fun h => ?_, fun h => ?_⟩
  · exact absurd h.intact (by decide)
  · have hbit := h.cloexec 0 _ rfl (-24) (by decide)
    exact absurd hbit.1 (by decide)
  have hslot := h 0 _ _ 0 rfl rfl (by decide)
  revert hslot
  decide

end IosLinuxkit.Fs
