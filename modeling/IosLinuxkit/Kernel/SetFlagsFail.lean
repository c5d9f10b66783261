import IosLinuxkit.Kernel.HostProtRun
import Mathlib.Data.Finset.Card

/-!
# Protection changes that fail

`pt_set_flags` looks at all pages of its range before it changes one. Behind that check there are two more
ways to fail: the host refuses an `mprotect`, or a reservation can not be split. What was changed before
stays changed.

* **`failedSetFlags_iff`** — the calls that change nothing when they fail.
-/

namespace IosLinuxkit.HostProt

open Kernel

variable {mc : Machine} {vdso : Nat → Bool} {prot : HostPage → Prot} {v v' : Vm} {m : Mem} {h : Host}
  {flags : Flags} {p start stop pages : Nat} {ps : List Nat} {e : PtEntry} {r : Reservation}
  {rs : List Reservation}

/-! ## The condition -/

/-- Entries, reservations, the anonymous-page counter and the protections of the host are as before. -/
structure AsBefore (v v' : Vm) (prot prot' : HostPage → Prot) : Prop where
  entries : ∀ s, v'.mem.pt.lookup s = v.mem.pt.lookup s
  reservations : v'.mem.reservations = v.mem.reservations
  anonPageCount : v'.host.anonPageCount = v.host.anonPageCount
  prot : prot' = prot

def HasFlags (m : Mem) (flags : Flags) (p : Nat) : Prop :=
  ∀ e, memPt m p = some e → newFlags flags e.flags = e.flags

def raised (m : Mem) (flags : Flags) (s : Slot) : Bool :=
  match m.pt.lookup s with
  | none => false
  | some e => grows flags e.flags

/-- The `mprotect` calls for some pages. -/
def raises (m : Mem) (flags : Flags) (ps : List Nat) : Nat :=
  ((ps.map slot).toFinset.filter fun s => raised m flags s = true).card

def splitCalls (start pages : Nat) (rs : List Reservation) : Nat :=
  if pages = 0 then 0 else allocations start (pageRangeEnd start pages) rs

/-- The first page that is to change needs an `mprotect`, which the host refuses. -/
def StopsFirst (v : Vm) (flags : Flags) (ps : List Nat) : Prop :=
  ∃ pre p post e, ps = pre ++ p :: post ∧ (∀ q ∈ pre, HasFlags v.mem flags q) ∧ memPt v.mem p = some e ∧
    grows flags e.flags = true ∧ ¬ v.host.grants 1

/-- The first reservation that is to change needs allocations, of which one fails. -/
def SplitStops (h : Host) (start stop : Nat) (flags : Flags) (rs : List Reservation) : Prop :=
  ∃ pre r post, rs = pre ++ r :: post ∧ (∀ q ∈ pre, reflag start stop flags q = [q]) ∧
    ¬ h.grants (splits start stop r)

/-- A page of the range is missing; or the call succeeds; or its first change is refused. -/
def SetFlagsKeeps (v : Vm) (start pages : Nat) (flags : Flags) : Prop :=
  (∃ p ∈ pageRange start pages, memPt v.mem p = none ∧ memFindReservation v.mem p = none) ∨
    v.host.grants (raises v.mem flags (pageRange start pages) + splitCalls start pages v.mem.reservations) ∨
    StopsFirst v flags (pageRange start pages) ∨
    ((∀ p ∈ pageRange start pages, HasFlags v.mem flags p) ∧ pages ≠ 0 ∧
      SplitStops v.host start (pageRangeEnd start pages) flags v.mem.reservations)

/-! ## The pages -/

theorem newFlags_newFlags (flags old : Flags) : newFlags flags (newFlags flags old) = newFlags flags old := by
  unfold newFlags
  rw [BitVec.and_or_distrib_right]
  ext i hi
  simp only [BitVec.getElem_or, BitVec.getElem_and]
  cases flags[i] <;> cases old[i] <;> cases Flags.metaFlags[i] <;> rfl

theorem not_grows_of_settled {old : Flags} (hs : newFlags flags old = old) : grows flags old = false := by
  rw [← hs]
  exact grows_newFlags flags old

def reflagPage (v : Vm) (flags : Flags) (p : Nat) (e : PtEntry) : Vm where
  host := (if grows flags e.flags then v.host.attempt.2 else v.host).addAnon
    (boolToInt (Flags.charged (newFlags flags e.flags)) - boolToInt (Flags.charged e.flags))
  mem := v.mem.setEntry p { e with flags := newFlags flags e.flags }

section Rounds

variable (rest : List Nat) (he : memPt v.mem p = some e)

include he

theorem setFlagsLoop_next (hok : grows flags e.flags = true → v.host.grants 1) :
    setFlagsLoop flags (p :: rest) v = setFlagsLoop flags rest (reflagPage v flags p e) := by
  rw [setFlagsLoop, he]
  unfold reflagPage
  dsimp only
  rw [show Flags.any (flags &&& ~~~e.flags) (Flags.read ||| Flags.write) = grows flags e.flags from rfl]
  cases hgrow : grows flags e.flags with
  | true =>
    rw [if_pos rfl, if_pos ((attempt_eq v.host).2.mpr (hok hgrow))]
    rfl
  | false =>
    rw [if_neg Bool.false_ne_true, if_pos rfl]
    rfl

theorem mprotectLoop_next (hok : grows flags e.flags = true → v.host.grants 1) :
    mprotectLoop mc vdso flags (p :: rest) v prot = mprotectLoop mc vdso flags rest (reflagPage v flags p e)
      (if grows flags e.flags then Function.update prot (hostPage mc vdso e 0) (raisedProt flags)
        else prot) := by
  rw [mprotectLoop, he]
  unfold reflagPage
  dsimp only
  cases hgrow : grows flags e.flags with
  | true =>
    rw [if_pos rfl, if_pos ((attempt_eq v.host).2.mpr (hok hgrow))]
    rfl
  | false =>
    rw [if_neg Bool.false_ne_true, if_pos rfl]
    rfl

section Refused

variable (hgrow : grows flags e.flags = true) (hno : ¬ v.host.grants 1)

include hgrow hno

theorem setFlagsLoop_refused : setFlagsLoop flags (p :: rest) v = (eNOMEM, ⟨v.host.attempt.2, v.mem⟩) := by
  rw [setFlagsLoop, he]
  dsimp only
  rw [show Flags.any (flags &&& ~~~e.flags) (Flags.read ||| Flags.write) = grows flags e.flags from rfl,
    hgrow, if_pos rfl, if_neg fun hc => hno ((attempt_eq v.host).2.mp hc)]

theorem mprotectLoop_refused : mprotectLoop mc vdso flags (p :: rest) v prot = prot := by
  rw [mprotectLoop, he]
  dsimp only
  rw [hgrow, if_pos rfl, if_neg fun hc => hno ((attempt_eq v.host).2.mp hc)]

end Refused

end Rounds

theorem reflagPage_script (v : Vm) (flags : Flags) (p : Nat) (e : PtEntry) :
    (reflagPage v flags p e).host.script = v.host.script.drop (if grows flags e.flags then 1 else 0) := by
  unfold reflagPage
  dsimp only
  split
  case isTrue hgrow =>
    rw [(attempt_eq v.host).1]
    rfl
  case isFalse hgrow => rfl

theorem memPt_settled (hs : newFlags flags e.flags = e.flags) (he : memPt m p = some e) (s : Slot) :
    (m.setEntry p { e with flags := newFlags flags e.flags }).pt.lookup s = m.pt.lookup s := by
  show (m.pt.insert (slot p) _).lookup s = _
  by_cases hsp : s = slot p
  · rw [hsp, AList.lookup_insert, hs]
    exact he.symm
  · rw [AList.lookup_insert_ne hsp]

theorem settled_kept {f : Flags} (ps : List Nat) (v : Vm)
    (hp : ∃ e, memPt v.mem p = some e ∧ e.flags = newFlags flags f) :
    ∃ e, memPt (setFlagsLoop flags ps v).2.mem p = some e ∧ e.flags = newFlags flags f := by
  refine setFlagsLoop_induct (P := fun m => ∃ e, memPt m p = some e ∧ e.flags = newFlags flags f) flags
    (fun m q e' he' hm => ?_) ps v hp
  obtain ⟨e, he, hf⟩ := hm
  rw [memPt_setEntry]
  split
  case isTrue hslot =>
    -- the page itself, seen again
    have hsame : some e = some e' := by
      rw [← he, ← he']
      unfold memPt
      rw [hslot]
    cases hsame
    exact ⟨_, rfl, by rw [hf, newFlags_newFlags]⟩
  case isFalse => exact ⟨e, he, hf⟩

theorem stopsFirst_cons {rest : List Nat} (hs : HasFlags v.mem flags p) :
    StopsFirst v flags (p :: rest) ↔ StopsFirst v flags rest := by
  constructor
  · rintro ⟨pre, q, post, e, heq, hpre, he, hgrow, hno⟩
    cases pre with
    | nil =>
      obtain ⟨rfl, -⟩ := List.cons.inj heq
      rw [not_grows_of_settled (hs e he)] at hgrow
      cases hgrow
    | cons q' pre =>
      obtain ⟨rfl, hrest⟩ := List.cons.inj heq
      exact ⟨pre, q, post, e, hrest, fun x hx => hpre x (List.mem_cons_of_mem _ hx), he, hgrow, hno⟩
  rintro ⟨pre, q, post, e, heq, hpre, he, hgrow, hno⟩
  refine ⟨p :: pre, q, post, e, by rw [heq]; rfl, fun x hx => ?_, he, hgrow, hno⟩
  rcases List.mem_cons.mp hx with rfl | hx
  · exact hs
  · exact hpre x hx

theorem stopsFirst_congr (hpt : ∀ s, v'.mem.pt.lookup s = v.mem.pt.lookup s)
    (hscript : v'.host.script = v.host.script) : StopsFirst v' flags ps ↔ StopsFirst v flags ps := by
  have hmem : ∀ q, memPt v'.mem q = memPt v.mem q := fun q => hpt (slot q)
  unfold StopsFirst HasFlags Host.grants
  simp only [hmem, hscript]

theorem settled_congr (hpt : ∀ s, v'.mem.pt.lookup s = v.mem.pt.lookup s) :
    HasFlags v'.mem flags p ↔ HasFlags v.mem flags p := by
  have hmem : memPt v'.mem p = memPt v.mem p := hpt (slot p)
  unfold HasFlags
  rw [hmem]

/-- **The loop over the pages** changes nothing if its first change is refused, and otherwise only if nothing
is to change. -/
theorem loop_unchanged (mc : Machine) (vdso : Nat → Bool) (flags : Flags) (ps : List Nat) (prot : HostPage → Prot)
    (v : Vm) : (StopsFirst v flags ps → (setFlagsLoop flags ps v).1 = eNOMEM ∧
      AsBefore v (setFlagsLoop flags ps v).2 prot (mprotectLoop mc vdso flags ps v prot)) ∧
    (¬ StopsFirst v flags ps → (AsBefore v (setFlagsLoop flags ps v).2 prot
      (mprotectLoop mc vdso flags ps v prot) ↔
        (setFlagsLoop flags ps v).1 = 0 ∧ ∀ p ∈ ps, HasFlags v.mem flags p)) := by
  induction ps generalizing v with
  | nil =>
    refine ⟨fun ⟨pre, q, post, e, heq, _⟩ => ?_, fun _ => ?_⟩
    · cases pre <;> cases heq
    · exact iff_of_true ⟨fun _ => rfl, rfl, rfl, rfl⟩ ⟨rfl, fun p hp => (by cases hp)⟩
  | cons p rest ih =>
    cases he : memPt v.mem p with
    | none =>
      have hs : HasFlags v.mem flags p := fun e he' => by
        rw [he] at he'
        cases he'
      rw [stopsFirst_cons hs, setFlagsLoop_cons_none flags rest he,
        show mprotectLoop mc vdso flags (p :: rest) v prot = mprotectLoop mc vdso flags rest v prot by
          rw [mprotectLoop, he], List.forall_mem_cons, and_iff_right hs]
      exact ih v
    | some e =>
      by_cases hs : newFlags flags e.flags = e.flags
      · -- nothing to do at this page
        have hsettled : HasFlags v.mem flags p := fun e' he' => by
          rw [he] at he'
          rw [← Option.some.inj he', hs]
        have hgrow := not_grows_of_settled hs
        have hok : grows flags e.flags = true → v.host.grants 1 := fun hc => by
          rw [hgrow] at hc
          cases hc
        rw [setFlagsLoop_next rest he hok, mprotectLoop_next rest he hok, hgrow,
          if_neg Bool.false_ne_true, stopsFirst_cons hsettled, List.forall_mem_cons, and_iff_right hsettled]
        have hscript := reflagPage_script v flags p e
        have hcount : (reflagPage v flags p e).host.anonPageCount = v.host.anonPageCount := by
          unfold reflagPage
          rw [hgrow, if_neg Bool.false_ne_true, hs, Int.sub_self]
          exact Int.add_zero _
        rw [hgrow, if_neg Bool.false_ne_true, List.drop_zero] at hscript
        have hpt : ∀ s, (reflagPage v flags p e).mem.pt.lookup s = v.mem.pt.lookup s := memPt_settled hs he
        have hres : (reflagPage v flags p e).mem.reservations = v.mem.reservations := rfl
        generalize reflagPage v flags p e = v' at hscript hcount hpt hres ⊢
        have hunchanged : ∀ w prot', AsBefore v' w prot prot' ↔ AsBefore v w prot prot' := fun w prot' =>
          ⟨fun h => ⟨fun s => (h.entries s).trans (hpt s), h.reservations.trans hres,
            h.anonPageCount.trans hcount, h.prot⟩,
          fun h => ⟨fun s => (h.entries s).trans (hpt s).symm, h.reservations.trans hres.symm,
            h.anonPageCount.trans hcount.symm, h.prot⟩⟩
        have hih := ih v'
        rw [stopsFirst_congr hpt hscript, hunchanged] at hih
        simp only [settled_congr hpt] at hih
        exact hih
      by_cases hrefused : grows flags e.flags = true ∧ ¬ v.host.grants 1
      · rw [setFlagsLoop_refused rest he hrefused.1 hrefused.2,
          mprotectLoop_refused rest he hrefused.1 hrefused.2]
        have hstops : StopsFirst v flags (p :: rest) :=
          ⟨[], p, rest, e, rfl, fun q hq => (by cases hq), he, hrefused.1, hrefused.2⟩
        have hcount := (sameHost_attempt v.host).anonPageCount
        exact ⟨fun _ => ⟨rfl, fun _ => rfl, rfl, hcount, rfl⟩, fun hno => absurd hstops hno⟩
      have hnostop : ¬ StopsFirst v flags (p :: rest) := by
        rintro ⟨pre, q, post, e', heq, hpre, he', hgrow, hno⟩
        cases pre with
        | nil =>
          obtain ⟨rfl, -⟩ := List.cons.inj heq
          rw [he] at he'
          cases he'
          exact hrefused ⟨hgrow, hno⟩
        | cons q' pre =>
          obtain ⟨rfl, -⟩ := List.cons.inj heq
          exact hs (hpre p List.mem_cons_self e he)
      refine ⟨fun hc => absurd hc hnostop, fun _ => iff_of_false (fun hu => ?_) fun hall => ?_⟩
      · -- the page has its new flags, and keeps them
        have hnew : memPt (reflagPage v flags p e).mem p =
            some { e with flags := newFlags flags e.flags } := by
          unfold reflagPage
          rw [memPt_setEntry, if_pos rfl]
        obtain ⟨e', he', hf⟩ := settled_kept rest (reflagPage v flags p e) ⟨_, hnew, rfl⟩
        rw [← setFlagsLoop_next rest he fun hc => Decidable.byContradiction fun hno =>
          hrefused ⟨hc, hno⟩] at he'
        have hback : memPt (setFlagsLoop flags (p :: rest) v).2.mem p = memPt v.mem p :=
          hu.entries (slot p)
        rw [hback, he] at he'
        obtain rfl := Option.some.inj he'
        exact hs hf.symm
      · exact hs (hall.2 p List.mem_cons_self e he)

/-! ## The calls -/

theorem raises_cons_none (rest : List Nat) (he : memPt m p = none) :
    raises m flags (p :: rest) = raises m flags rest := by
  have hno : raised m flags (slot p) = false := by
    have he' : m.pt.lookup (slot p) = none := he
    unfold raised
    rw [he']
  unfold raises
  rw [List.map_cons, List.toFinset_cons, Finset.filter_insert, if_neg (by rw [hno]; exact Bool.false_ne_true)]

theorem raises_cons (rest : List Nat) (he : memPt m p = some e) :
    raises m flags (p :: rest) = (if grows flags e.flags then 1 else 0) +
      raises (m.setEntry p { e with flags := newFlags flags e.flags }) flags rest := by
  have hslot : m.pt.lookup (slot p) = some e := he
  have hself : raised (m.setEntry p { e with flags := newFlags flags e.flags }) flags (slot p) = false := by
    unfold raised Mem.setEntry
    dsimp only
    rw [AList.lookup_insert]
    exact grows_newFlags flags e.flags
  have hother : ∀ s, s ≠ slot p →
      raised (m.setEntry p { e with flags := newFlags flags e.flags }) flags s = raised m flags s := by
    intro s hs
    unfold raised Mem.setEntry
    dsimp only
    rw [AList.lookup_insert_ne hs]
  have hask : raised m flags (slot p) = grows flags e.flags := by
    unfold raised
    rw [hslot]
  unfold raises
  rw [List.map_cons, List.toFinset_cons, Finset.filter_insert, hask]
  generalize m.setEntry p { e with flags := newFlags flags e.flags } = m' at hself hother
  have hnot : slot p ∉ (rest.map slot).toFinset.filter fun s => raised m' flags s = true := by
    rw [Finset.mem_filter, hself]
    exact fun hc => (by cases hc.2)
  cases hgrow : grows flags e.flags with
  | true =>
    rw [if_pos rfl, if_pos rfl, Nat.add_comm, ← Finset.card_insert_of_notMem hnot]
    congr 1
    ext s
    rw [Finset.mem_insert, Finset.mem_insert, Finset.mem_filter, Finset.mem_filter]
    by_cases hs : s = slot p
    · exact iff_of_true (.inl hs) (.inl hs)
    · rw [hother s hs]
  | false =>
    rw [if_neg Bool.false_ne_true, if_neg Bool.false_ne_true, Nat.zero_add]
    congr 1
    ext s
    rw [Finset.mem_filter, Finset.mem_filter]
    by_cases hs : s = slot p
    · rw [hs, hself, hask, hgrow]
    · rw [hother s hs]

theorem loop_grants (flags : Flags) (ps : List Nat) (v : Vm) :
    (v.host.grants (raises v.mem flags ps) → (setFlagsLoop flags ps v).1 = 0 ∧
      (setFlagsLoop flags ps v).2.host.script = v.host.script.drop (raises v.mem flags ps)) ∧
    (¬ v.host.grants (raises v.mem flags ps) → (setFlagsLoop flags ps v).1 = eNOMEM) := by
  induction ps generalizing v with
  | nil =>
    have hzero : raises v.mem flags [] = 0 := rfl
    rw [hzero, List.drop_zero]
    exact ⟨fun _ => ⟨rfl, rfl⟩, fun hno => absurd (by simp [Host.grants]) hno⟩
  | cons p rest ih =>
    cases he : memPt v.mem p with
    | none =>
      rw [raises_cons_none rest he, setFlagsLoop_cons_none flags rest he]
      exact ih v
    | some e =>
      rw [raises_cons rest he, grants_add]
      by_cases hrefused : grows flags e.flags = true ∧ ¬ v.host.grants 1
      · rw [hrefused.1, if_pos rfl]
        rw [setFlagsLoop_refused rest he hrefused.1 hrefused.2]
        exact ⟨fun hc => absurd hc.1 hrefused.2, fun _ => rfl⟩
      have hok : grows flags e.flags = true → v.host.grants 1 := fun hc =>
        Decidable.byContradiction fun hno => hrefused ⟨hc, hno⟩
      have hone : v.host.grants (if grows flags e.flags then 1 else 0) := by
        split
        case isTrue hgrow => exact hok hgrow
        case isFalse => simp [Host.grants]
      rw [setFlagsLoop_next rest he hok, and_iff_right hone, ← List.drop_drop]
      have hih := ih (reflagPage v flags p e)
      have hscript := reflagPage_script v flags p e
      rw [hscript, show (reflagPage v flags p e).mem =
        v.mem.setEntry p { e with flags := newFlags flags e.flags } from rfl] at hih
      have hgrants : ∀ n, (reflagPage v flags p e).host.grants n ↔
          (v.host.skip (if grows flags e.flags then 1 else 0)).grants n := fun n => by
        unfold Host.grants Host.skip
        rw [hscript]
      rw [hgrants] at hih
      exact hih

/-! ## The reservations -/

theorem length_reflag (start stop : Nat) (flags : Flags) (r : Reservation) :
    1 ≤ (reflag start stop flags r).length := by
  unfold reflag
  split
  · rw [List.length_append, List.length_cons]
    omega
  · exact Nat.le_refl 1

theorem splits_settled (hr : reflag start stop flags r = [r]) : splits start stop r = 0 := by
  unfold splits
  split
  case isTrue ho =>
    unfold reflag at hr
    rw [if_pos ho] at hr
    have hlen := congrArg List.length hr
    rw [List.length_append, List.length_cons, List.length_singleton] at hlen
    unfold pieces at hlen
    by_cases hb : r.start < start
    · rw [if_pos hb, List.length_singleton] at hlen
      omega
    by_cases ha : stop < r.stop
    · rw [if_pos ha, List.length_singleton] at hlen
      omega
    · rw [if_neg hb, if_neg ha]
  case isFalse => rfl

theorem length_setReservationFlags (start stop : Nat) (flags : Flags) (h : Host) (rs : List Reservation) :
    rs.length ≤ (setReservationFlags start stop flags h rs).2.2.length := by
  induction rs generalizing h with
  | nil => exact Nat.zero_le _
  | cons r rs ih =>
    by_cases hg : h.grants (splits start stop r)
    · rw [setReservationFlags_cons.1 hg, List.length_append, List.length_cons]
      have hle := ih (h.skip (splits start stop r))
      have hone := length_reflag start stop flags r
      omega
    · rw [setReservationFlags_cons.2 hg]

theorem reservations_unchanged (h : Host) (rs : List Reservation)
    (hfail : (setReservationFlags start stop flags h rs).1 < 0) :
    (setReservationFlags start stop flags h rs).2.2 = rs ↔ SplitStops h start stop flags rs := by
  induction rs generalizing h with
  | nil => exact absurd hfail (Int.lt_irrefl 0)
  | cons r rs ih =>
    by_cases hg : h.grants (splits start stop r)
    · rw [setReservationFlags_cons.1 hg] at hfail ⊢
      dsimp only at hfail ⊢
      have hlen := length_setReservationFlags start stop flags (h.skip (splits start stop r)) rs
      by_cases hr : reflag start stop flags r = [r]
      · rw [hr, List.singleton_append, List.cons.injEq, and_iff_right rfl, ih _ hfail,
          splits_settled hr, show h.skip 0 = h from rfl]
        constructor
        · rintro ⟨pre, q, post, heq, hpre, hno⟩
          refine ⟨r :: pre, q, post, by rw [heq]; rfl, fun x hx => ?_, hno⟩
          rcases List.mem_cons.mp hx with rfl | hx
          · exact hr
          · exact hpre x hx
        rintro ⟨pre, q, post, heq, hpre, hno⟩
        cases pre with
        | nil =>
          obtain ⟨rfl, -⟩ := List.cons.inj heq
          exact absurd hg hno
        | cons q' pre =>
          obtain ⟨rfl, hrest⟩ := List.cons.inj heq
          exact ⟨pre, q, post, hrest, fun x hx => hpre x (List.mem_cons_of_mem _ hx), hno⟩
      refine iff_of_false (fun heq => hr ?_) ?_
      · -- the list is no longer than before
        have hall := congrArg List.length heq
        rw [List.length_append, List.length_cons] at hall
        have hone := length_reflag start stop flags r
        obtain ⟨q, hq⟩ : ∃ q, reflag start stop flags r = [q] := List.length_eq_one_iff.mp (by omega)
        rw [hq, List.singleton_append, List.cons.injEq] at heq
        rw [hq, heq.1]
      rintro ⟨pre, q, post, heq, hpre, hno⟩
      cases pre with
      | nil =>
        obtain ⟨rfl, -⟩ := List.cons.inj heq
        exact hno hg
      | cons q' pre =>
        obtain ⟨rfl, -⟩ := List.cons.inj heq
        exact hr (hpre r List.mem_cons_self)
    · rw [setReservationFlags_cons.2 hg]
      exact iff_of_true rfl ⟨[], r, rs, rfl, fun q hq => (by cases hq), hg⟩

/-! ## The call -/

theorem raises_settled (hs : ∀ p ∈ ps, HasFlags m flags p) : raises m flags ps = 0 := by
  unfold raises
  rw [Finset.card_eq_zero, Finset.filter_eq_empty_iff]
  intro s hmem
  obtain ⟨p, hp, rfl⟩ := List.mem_map.mp (List.mem_toFinset.mp hmem)
  unfold raised
  cases he : m.pt.lookup (slot p) with
  | none => exact Bool.false_ne_true
  | some e =>
    dsimp only
    rw [not_grows_of_settled (hs p hp e he)]
    exact Bool.false_ne_true

theorem reservations_failed {w : Vm} (flags : Flags) (hpages : pages ≠ 0)
    (hno : ¬ w.host.grants (allocations start (pageRangeEnd start pages) w.mem.reservations)) :
    (memSetReservationFlags w start pages flags).1 = eNOMEM ∧
      ((memSetReservationFlags w start pages flags).2.mem.reservations = w.mem.reservations ↔
        SplitStops w.host start (pageRangeEnd start pages) flags w.mem.reservations) := by
  obtain ⟨pre, r, post, heq, hpre, hr⟩ := exists_failed_split hno
  have hfail : (setReservationFlags start (pageRangeEnd start pages) flags w.host w.mem.reservations).1 =
      eNOMEM := by
    rw [heq]
    exact (setReservationFlags_fail flags post hpre hr).1
  unfold memSetReservationFlags
  rw [if_neg hpages]
  exact ⟨hfail, reservations_unchanged w.host w.mem.reservations (by rw [hfail]; decide)⟩

theorem unchanged_reservations {w : Vm} {prot' : HostPage → Prot}
    (hres : w.mem.reservations = v.mem.reservations) (start pages : Nat) (flags : Flags) :
    AsBefore v (memSetReservationFlags w start pages flags).2 prot prot' ↔ AsBefore v w prot prot' ∧
        (memSetReservationFlags w start pages flags).2.mem.reservations = w.mem.reservations := by
  obtain ⟨hsame, hpt, -⟩ := memSetReservationFlags_spec w start pages flags
  constructor
  · intro hu
    exact ⟨⟨fun s => by rw [← hu.entries s, hpt], hres, hsame.anonPageCount.symm.trans hu.anonPageCount,
      hu.prot⟩, hu.reservations.trans hres.symm⟩
  rintro ⟨hu, hkept⟩
  exact ⟨fun s => by rw [hpt]; exact hu.entries s, hkept.trans hres,
    hsame.anonPageCount.trans hu.anonPageCount, hu.prot⟩

/-- **Protection changes that fail.** For every address space, range and flags, and whatever the host says:
a call that fails has changed nothing, if and only if it fails at its check, or succeeds, or its first change
is the one that is refused. -/
theorem failedSetFlags_iff (mc : Machine) (vdso : Nat → Bool) (prot : HostPage → Prot) (v : Vm)
    (start pages : Nat) (flags : Flags) :
    ((ptSetFlags v start pages flags).1 < 0 → AsBefore v (ptSetFlags v start pages flags).2 prot
      (setFlagsProt mc vdso v start pages flags prot)) ↔ SetFlagsKeeps v start pages flags := by
  unfold ptSetFlags setFlagsProt
  by_cases hall : ((pageRange start pages).all fun p =>
      (memPt v.mem p).isSome || (memFindReservation v.mem p).isSome) = true
  swap
  · -- a page is missing
    rw [if_neg hall, if_neg hall]
    refine iff_of_true (fun _ => ⟨fun _ => rfl, rfl, rfl, rfl⟩) (.inl ?_)
    rw [List.all_eq_true] at hall
    push Not at hall
    obtain ⟨p, hp, hnone⟩ := hall
    rw [Ne, Bool.or_eq_true, not_or, Option.not_isSome_iff_eq_none, Option.not_isSome_iff_eq_none] at hnone
    exact ⟨p, hp, hnone⟩
  have hthere : ¬ ∃ p ∈ pageRange start pages, memPt v.mem p = none ∧ memFindReservation v.mem p = none := by
    rintro ⟨p, hp, hmem, hres⟩
    have hfound := List.all_eq_true.mp hall p hp
    rw [hmem, hres] at hfound
    cases hfound
  rw [if_pos hall, if_pos hall]
  unfold SetFlagsKeeps
  rw [or_iff_right hthere, grants_add]
  obtain ⟨hgranted, hrefused⟩ := loop_grants flags (pageRange start pages) v
  obtain ⟨hstops, hgoes⟩ := loop_unchanged mc vdso flags (pageRange start pages) prot v
  have hres := setFlagsLoop_reservations flags (pageRange start pages) v
  generalize setFlagsLoop flags (pageRange start pages) v = r at hgranted hrefused hstops hgoes hres ⊢
  obtain ⟨err, w⟩ := r
  dsimp only at hgranted hrefused hstops hgoes hres ⊢
  by_cases hraises : v.host.grants (raises v.mem flags (pageRange start pages))
  swap
  · -- an `mprotect` is refused
    obtain rfl := hrefused hraises
    have hsettled : ¬ ∀ p ∈ pageRange start pages, HasFlags v.mem flags p := fun hs => by
      rw [raises_settled hs] at hraises
      exact hraises (by simp [Host.grants])
    rw [if_pos eNOMEM_neg, imp_iff_right eNOMEM_neg, or_iff_right (fun hc => hraises hc.1),
      or_iff_left (fun hc => hsettled hc.1)]
    refine ⟨fun hu => ?_, fun hs => (hstops hs).2⟩
    by_contra hno
    exact absurd ((hgoes hno).mp hu).1 (by decide)
  obtain ⟨rfl, hscript⟩ := hgranted hraises
  have hnostop : ¬ StopsFirst v flags (pageRange start pages) := fun hs => absurd (hstops hs).1 (by decide)
  have hloop := hgoes hnostop
  rw [if_neg (Int.lt_irrefl 0), and_iff_right hraises, or_iff_right hnostop]
  by_cases hpages : pages = 0
  · have hdone : memSetReservationFlags w start pages flags = (0, w) := if_pos hpages
    rw [hdone, if_neg (Int.lt_irrefl 0)]
    refine iff_of_true (fun hc => absurd hc (Int.lt_irrefl 0)) (.inl ?_)
    unfold splitCalls
    rw [if_pos hpages]
    simp [Host.grants]
  rw [and_iff_right hpages]
  have hgrants : w.host.grants (allocations start (pageRangeEnd start pages) w.mem.reservations) ↔
      (v.host.skip (raises v.mem flags (pageRange start pages))).grants
        (splitCalls start pages v.mem.reservations) := by
    unfold splitCalls Host.grants Host.skip
    rw [if_neg hpages, hres, hscript]
  rw [← hgrants]
  by_cases hallocs : w.host.grants (allocations start (pageRangeEnd start pages) w.mem.reservations)
  · -- nothing fails
    have hdone : (memSetReservationFlags w start pages flags).1 = 0 := by
      unfold memSetReservationFlags
      rw [if_neg hpages]
      exact (setReservationFlags_ok flags hallocs).1
    rw [hdone, if_neg (Int.lt_irrefl 0)]
    exact iff_of_true (fun hc => absurd hc (Int.lt_irrefl 0)) (.inl hallocs)
  obtain ⟨hfail, hkept⟩ := reservations_failed flags hpages hallocs
  rw [hfail, if_pos eNOMEM_neg, hfail, imp_iff_right eNOMEM_neg, or_iff_right hallocs,
    unchanged_reservations hres, hloop, hkept, and_iff_right rfl, hres]
  refine and_congr_right fun hsettled => ?_
  -- no `mprotect` was called
  rw [raises_settled hsettled, List.drop_zero] at hscript
  unfold SplitStops Host.grants
  rw [hscript]

def readOnly (script : List Bool) : Vm where
  host := ⟨AList.insert 1 ⟨4096, 1, none⟩ (AList.insert 0 ⟨4096, 1, none⟩ ∅), fun _ _ => 0, 2, 2, script⟩
  mem := { pt := AList.insert (slot 17) ⟨1, 0, 65#32⟩ (AList.insert (slot 16) ⟨0, 0, 65#32⟩ ∅)
           reservations := [], mmapHint := 0, changes := 0 }

/-- The host refuses the second page; the first stays writable. -/
theorem failedSetFlags_second : (ptSetFlags (readOnly [true, false]) 16 2 3#32).1 = eNOMEM ∧
      ¬ AsBefore (readOnly [true, false]) (ptSetFlags (readOnly [true, false]) 16 2 3#32).2 noAccess
        (setFlagsProt host4k (fun _ => false) (readOnly [true, false]) 16 2 3#32 noAccess) := by
  refine ⟨by decide, fun hu => ?_⟩
  exact absurd (hu.entries (slot 16)) (by decide)

end IosLinuxkit.HostProt
