import IosLinuxkit.Kernel.Tlb

/-!
# TLB hits and the page table

What an entry of the current generation says about the page table, in every state a thread can
reach while others remap pages under it.

* **`tlbCoherent_run`** — an entry of the current generation is the table's, and a hit is what
  `mem_ptr` would return, in every run that meets `TlbOk`.
-/

namespace IosLinuxkit.Kernel

/-! ## A stamped fact -/

/-- `P` was read off the page table while the generation was `gen`. -/
def Stamped (m : Mem) (gen : Nat) (P : Mem → Prop) : Prop :=
  gen ≤ m.changes ∧ (gen = m.changes → P m)

def OfTable (P : Mem → Prop) : Prop := ∀ m m' : Mem, m'.pt = m.pt → P m → P m'

variable {m m' : Mem} {P : Mem → Prop} {addr : Nat} {type : AccessType} {ptr : HostPtr} {s : TlbState}

theorem Stamped.advances {gen : Nat} (hP : OfTable P)
    (h : Stamped m gen P) (hadv : m.Advances m') : Stamped m' gen P := by
  refine ⟨h.1.trans hadv.1, fun hgen => ?_⟩
  -- the stamp is current again, so nothing moved since
  have hsame : m'.changes = m.changes := le_antisymm (hgen ▸ h.1) hadv.1
  exact hP m m' (hadv.2 hsame) (h.2 (hgen.trans hsame))

theorem Stamped.now (h : P m) : Stamped m m.changes P :=
  ⟨le_refl _, fun _ => h⟩

theorem Stamped.mono {gen : Nat} {Q : Mem → Prop} (h : Stamped m gen P)
    (hPQ : P m → Q m) : Stamped m gen Q :=
  ⟨h.1, fun hgen => hPQ (h.2 hgen)⟩

/-- Page `p` is mapped at `data`, and writable if it is to be. -/
def Backed (p : Nat) (data : HostPtr) (writable : Prop) (m : Mem) : Prop :=
  ∃ e, memPt m (page p) = some e ∧ data = ⟨e.data, e.offset⟩ ∧
    (writable → Flags.writable e.flags = true)

theorem ofTable_backed (p : Nat) (data : HostPtr) (writable : Prop) :
    OfTable (Backed p data writable) := by
  intro m m' hpt h
  unfold Backed memPt
  rw [hpt]
  exact h

theorem ofTable_memPtrNofault (addr : Nat) (type : AccessType) (ptr : HostPtr) :
    OfTable fun m => memPtrNofault m addr type = some ptr := by
  intro m m' hpt h
  unfold memPtrNofault memPt
  rw [hpt]
  exact h

/-! ## Pages and pointers -/

theorem page_tlbPage (addr : Nat) : page (tlbPage addr) = page addr := by
  have h : tlbPage addr = pageSize * (addr / pageSize) := by
    rw [tlbPage, Nat.sub_eq_iff_eq_add (Nat.mod_le _ _)]
    exact (Nat.div_add_mod addr pageSize).symm
  rw [page, h, Nat.mul_div_cancel_left _ (by decide : 0 < pageSize)]
  rfl

theorem pgOffset_tlbPage (addr : Nat) : pgOffset (tlbPage addr) = 0 := by
  have h : tlbPage addr = pageSize * (addr / pageSize) := by
    rw [tlbPage, Nat.sub_eq_iff_eq_add (Nat.mod_le _ _)]
    exact (Nat.div_add_mod addr pageSize).symm
  rw [pgOffset, h, Nat.mul_mod_right]

theorem memPtrNofault_eq_some : memPtrNofault m addr type = some ptr ↔
      ∃ e, memPt m (page addr) = some e ∧ ptr = ⟨e.data, e.offset + pgOffset addr⟩ ∧
        (type = .write → Flags.writable e.flags = true) := by
  unfold memPtrNofault
  cases hp : memPt m (page addr) with
  | none => simp
  | some e =>
    by_cases hw : type = .write ∧ ¬ Flags.writable e.flags = true
    · simp [hw]
    have himp : type = .write → Flags.writable e.flags = true := by
      intro ht
      by_contra hne
      exact hw ⟨ht, hne⟩
    simp only [if_neg hw, Option.some.injEq, exists_eq_left']
    exact ⟨fun h => ⟨h.symm, himp⟩, fun h => h.1.symm⟩

theorem backed_of_memPtrNofault (h : memPtrNofault m (tlbPage addr) type = some ptr) :
    Backed (tlbPage addr) ptr
      (type = .write ∨ (memPtrNofault m (tlbPage addr) .write).isSome = true) m := by
  obtain ⟨e, he, hptr, hw⟩ := memPtrNofault_eq_some.mp h
  rw [pgOffset_tlbPage] at hptr
  refine ⟨e, he, hptr, ?_⟩
  rintro (htype | htag)
  · exact hw htype
  obtain ⟨q, hq⟩ := Option.isSome_iff_exists.mp htag
  obtain ⟨e', he', _, hw'⟩ := memPtrNofault_eq_some.mp hq
  rw [he, Option.some.injEq] at he'
  exact he' ▸ hw' rfl

theorem memPtr_of_nofault {v : Vm} {limit : Option Nat} {inJit : Bool} (htype : type ≠ .writePtrace)
    (h : memPtrNofault v.mem addr type = some ptr) :
    memPtr v limit addr type inJit = (v, some ptr) := by
  obtain ⟨e, he, _, hw⟩ := memPtrNofault_eq_some.mp h
  have hlookup : lookupPhase v.mem limit (page addr) = .haveEntry := by
    unfold lookupPhase
    rw [he]
    rfl
  have hhave : haveEntryPhase v.mem (page addr) type = .resolve := by
    unfold haveEntryPhase
    rw [he]
    cases type with
    | read => rfl
    | write =>
      have hf := hw rfl
      unfold Flags.writable at hf
      rw [Bool.and_eq_true, Bool.not_eq_true'] at hf
      simp [hf.1, hf.2]
    | writePtrace => exact absurd rfl htype
  simp only [memPtr, memPtrSteps, memPtrStep, PtrCall.start, hlookup, hhave, h]

/-! ## The invariant -/

structure EntryOk (m : Mem) (en : TlbEntry) : Prop where
  tag : ∀ p, en.pageIfWritable = some p → en.page = some p
  backed : ∀ p, en.page = some p → Stamped m en.gen (Backed p en.data (en.pageIfWritable = some p))

/-- What `tlb_handle_miss` has in hand. -/
def PhaseOk (m : Mem) : TlbPhase → Prop
  | .idle => True
  | .load _ _ _ => True
  | .walk addr type _ gen call =>
    gen ≤ m.changes ∧ call.addr = tlbPage addr ∧ call.type = type ∧ ∀ ptr, call.phase ≠ .done ptr
  | .reload addr type _ gen ptr | .tag addr type gen ptr =>
    ∀ q, ptr = some q → Stamped m gen fun m => memPtrNofault m (tlbPage addr) type = some q
  | .giveUp _ _ _ => True
  | .fill addr _ gen ptr writable => Stamped m gen (Backed (tlbPage addr) ptr (writable = true))

structure TlbInv (s : TlbState) : Prop where
  entries : ∀ i, EntryOk s.vm.mem (s.tlb.entries i)
  phase : PhaseOk s.vm.mem s.phase

theorem entryOk_empty (m : Mem) : EntryOk m emptyEntry :=
  { tag := by
      intro p hp
      cases hp
    backed := by
      intro p hp
      cases hp }

theorem EntryOk.advances {en : TlbEntry} (h : EntryOk m en)
    (hadv : m.Advances m') : EntryOk m' en :=
  { tag := h.tag
    backed := fun p hp => (h.backed p hp).advances (ofTable_backed _ _ _) hadv }

theorem PhaseOk.advances {ph : TlbPhase} (h : PhaseOk m ph)
    (hadv : m.Advances m') : PhaseOk m' ph := by
  cases ph with
  | idle => trivial
  | load addr type attempt => trivial
  | walk addr type attempt gen call => exact ⟨h.1.trans hadv.1, h.2⟩
  | reload addr type attempt gen ptr =>
    exact fun q hq => (h q hq).advances (ofTable_memPtrNofault _ _ _) hadv
  | giveUp addr type ptr => trivial
  | tag addr type gen ptr =>
    exact fun q hq => (h q hq).advances (ofTable_memPtrNofault _ _ _) hadv
  | fill addr type gen ptr writable => exact Stamped.advances (ofTable_backed _ _ _) h hadv

theorem tlbInv_init (v : Vm) : TlbInv (tlbInit v) :=
  { entries := fun _ => entryOk_empty _, phase := trivial }

/-! ## Steps -/

/-- The condition. At the end of the nine attempts the table still gives the pointer, and no other
thread makes a change of flags that fails half-way. -/
def TlbOk (s : TlbState) : TlbEvent → Prop
  | .missNext _ _ =>
    match s.phase with
    | .giveUp addr type (some ptr) => memPtrNofault s.vm.mem (tlbPage addr) type = some ptr
    | _ => True
  | .mutate op => op.shows s.vm
  | _ => True

theorem TlbInv.access (h : TlbInv s) (addr : Nat) (type : AccessType) :
    TlbInv (access addr type s) := by
  unfold Kernel.access
  split
  · split
    · split
      · exact h
      · exact { entries := h.entries, phase := h.phase }
    · exact { entries := h.entries, phase := trivial }
  · exact h

theorem TlbInv.missNext {inJit : Bool} {limit : Option Nat} (h : TlbInv s)
    (hok : TlbOk s (.missNext inJit limit)) : TlbInv (missNext inJit limit s) := by
  obtain ⟨v, b, ph⟩ := s
  have hph : PhaseOk v.mem ph := h.phase
  cases ph with
  | idle => exact h
  | load addr type attempt =>
    refine { entries := fun i => ?_, phase := ⟨le_refl _, rfl, rfl, fun ptr hp => nomatch hp⟩ }
    -- flushed or not, the entries are those of before or empty
    by_cases hgen : v.mem.changes ≠ b.memChanges
    · simp only [Kernel.missNext, if_pos hgen]
      exact entryOk_empty _
    · simp only [Kernel.missNext, if_neg hgen]
      exact h.entries i
  | walk addr type attempt gen call =>
    obtain ⟨hle, haddr, htype, hdone⟩ := hph
    have hadv := advances_memPtrStep v limit call
    refine { entries := fun i => (h.entries i).advances hadv, phase := ?_ }
    show PhaseOk (memPtrStep v limit call).1.mem _
    simp only [Kernel.missNext]
    split
    case h_1 ptr hp =>
      rintro q rfl
      obtain ⟨hv, hq⟩ := memPtrStep_done hdone hp
      rw [haddr, htype] at hq
      rw [hv]
      exact ⟨hle, fun _ => hq⟩
    case h_2 hp =>
      have hcall := memPtrStep_call v limit call
      exact ⟨hle.trans hadv.1, hcall.1.trans haddr, hcall.2.trans htype, hp⟩
  | reload addr type attempt gen ptr =>
    refine { entries := h.entries, phase := ?_ }
    simp only [Kernel.missNext]
    split_ifs
    · exact hph
    · trivial
    · trivial
  | giveUp addr type ptr =>
    refine { entries := h.entries, phase := ?_ }
    rintro q rfl
    exact Stamped.now hok
  | tag addr type gen ptr =>
    cases ptr with
    | none => exact { entries := h.entries, phase := trivial }
    | some q =>
      refine { entries := h.entries, phase := ?_ }
      show Stamped _ _ _
      simp only [decide_eq_true_eq]
      exact (hph q rfl).mono backed_of_memPtrNofault
  | fill addr type gen ptr writable =>
    refine { entries := fun i => ?_, phase := trivial }
    show EntryOk v.mem (Function.update b.entries (tlbIndex addr) _ i)
    by_cases hi : i = tlbIndex addr
    · subst hi
      rw [Function.update_self]
      refine { tag := fun p hp => ?_, backed := fun p hp => ?_ }
      · dsimp only at hp ⊢
        split_ifs at hp
        exact hp
      cases hp
      refine Stamped.mono hph ?_
      rintro ⟨e, he, hptr, hw⟩
      refine ⟨e, he, hptr, fun htag => hw ?_⟩
      dsimp only at htag
      split_ifs at htag with hwr
      exact hwr
    · rw [Function.update_of_ne hi]
      exact h.entries i

theorem TlbInv.step {e : TlbEvent} (h : TlbInv s) (hok : TlbOk s e) :
    TlbInv (tlbStep s e) := by
  cases e with
  | access addr type => exact h.access addr _
  | missNext inJit limit => exact h.missNext hok
  | refresh =>
    unfold tlbStep
    dsimp only
    split
    case h_1 hidle =>
      unfold tlbRefresh
      split
      · exact h
      · exact { entries := fun _ => entryOk_empty _, phase := h.phase }
    case h_2 => exact h
  | switch mem =>
    unfold tlbStep
    dsimp only
    split
    case h_1 hidle =>
      refine { entries := fun _ => entryOk_empty _, phase := ?_ }
      rw [hidle]
      trivial
    case h_2 => exact h
  | mutate op =>
    have hadv := advances_mutation op hok
    exact { entries := fun i => (h.entries i).advances hadv, phase := h.phase.advances hadv }

/-! ## Hits -/

/-- What the TLB promises to the accesses that hit in it. -/
structure TlbCoherent (s : TlbState) : Prop where
  page : ∀ i p, (s.tlb.entries i).page = some p → (s.tlb.entries i).gen = s.vm.mem.changes →
    Backed p (s.tlb.entries i).data False s.vm.mem
  writable : ∀ i p, (s.tlb.entries i).pageIfWritable = some p →
    (s.tlb.entries i).gen = s.vm.mem.changes → Backed p (s.tlb.entries i).data True s.vm.mem
  /-- a hit is the pointer of a walk made now, by any thread -/
  hit : ∀ addr type limit inJit ptr, type ≠ .writePtrace → tlbHit s addr type = some ptr →
    memPtr s.vm limit addr type inJit = (s.vm, some ptr)

theorem TlbInv.hit (h : TlbInv s) (hhit : tlbHit s addr type = some ptr) :
    memPtrNofault s.vm.mem addr type = some ptr := by
  unfold tlbHit at hhit
  dsimp only at hhit
  split_ifs at hhit with hcond
  obtain ⟨htag, hgen⟩ := hcond
  set en := s.tlb.entries (tlbIndex addr) with hen
  have hok : EntryOk s.vm.mem en := h.entries _
  have hpage : en.page = some (tlbPage addr) := by
    unfold TlbEntry.tagFor at htag
    split_ifs at htag
    · exact htag
    · exact hok.tag _ htag
  obtain ⟨e, he, hdata, hw⟩ := (hok.backed _ hpage).2 hgen
  rw [page_tlbPage] at he
  rw [memPtrNofault_eq_some]
  refine ⟨e, he, ?_, fun hwrite => hw ?_⟩
  · rw [← Option.some.inj hhit, hdata]
  · rw [hwrite] at htag
    exact htag

theorem TlbInv.coherent (h : TlbInv s) : TlbCoherent s where
  page i p hp hgen := by
    obtain ⟨e, he, hdata, _⟩ := ((h.entries i).backed p hp).2 hgen
    exact ⟨e, he, hdata, fun hf => hf.elim⟩
  writable i p hp hgen := by
    obtain ⟨e, he, hdata, hw⟩ := ((h.entries i).backed p ((h.entries i).tag p hp)).2 hgen
    exact ⟨e, he, hdata, fun _ => hw hp⟩
  hit addr type limit inJit ptr htype hhit := memPtr_of_nofault htype (h.hit hhit)

/-- **The TLB of a thread agrees with the page table.** Other threads map, unmap, protect, fork
and break copies between any two steps. -/
theorem tlbCoherent_run {v : Vm} {ops : List TlbEvent}
    (hok : AllSteps tlbStep TlbOk (tlbInit v) ops) : TlbCoherent (run tlbStep (tlbInit v) ops) :=
  (run_invariant (fun _ _ hinv hstep => TlbInv.step hinv hstep) (tlbInv_init v) hok).coherent

/-! ## The ninth attempt -/

def onePage : Vm :=
  { host :=
      { datas := ∅, bytes := fun _ _ => 0, nextData := 1, anonPageCount := 0, script := [] }
    mem := { memInit with pt := AList.singleton (slot 0) ⟨0, 0, Flags.read⟩ } }

/-- A read of address zero that misses, and the four steps to its walk's end. -/
def readWalk : List TlbEvent := List.replicate 4 (.missNext false none)

theorem tlbCoherent_run_miss : AllSteps tlbStep TlbOk (tlbInit onePage)
        (.access 0 .read :: readWalk ++ List.replicate 3 (.missNext false none)) ∧
      TlbCoherent (run tlbStep (tlbInit onePage)
        (.access 0 .read :: readWalk ++ List.replicate 3 (.missNext false none))) ∧
      tlbHit (run tlbStep (tlbInit onePage)
        (.access 0 .read :: readWalk ++ List.replicate 3 (.missNext false none))) 5 .read
        = some ⟨0, 5⟩ := by
  have hok : AllSteps tlbStep TlbOk (tlbInit onePage)
      (.access 0 .read :: readWalk ++ List.replicate 3 (.missNext false none)) := by
    simp only [readWalk, List.replicate, List.cons_append, List.nil_append]
    exact ⟨trivial, trivial, trivial, trivial, trivial, trivial, trivial, trivial, trivial⟩
  exact ⟨hok, tlbCoherent_run hok, by decide⟩

/-- Eight attempts that other threads disturb somewhere, and a ninth whose page is unmapped between
the walk and the load of the generation. -/
def nineAttempts : List TlbEvent :=
  .access 0 .read ::
    (List.replicate 8 (readWalk ++ [.mutate .changed, .missNext false none])).flatten ++
    readWalk ++ [.mutate (.unmapAlways 0 1)] ++ List.replicate 4 (.missNext false none)

/-- The read after it hits, on a page that is not mapped. -/
theorem tlbCoherent_cap :
    tlbHit (run tlbStep (tlbInit onePage) nineAttempts) 0 .read = some ⟨0, 0⟩ ∧
      memPtrNofault (run tlbStep (tlbInit onePage) nineAttempts).vm.mem 0 .read = none ∧
      ¬ TlbCoherent (run tlbStep (tlbInit onePage) nineAttempts) := by
  have hhit : tlbHit (run tlbStep (tlbInit onePage) nineAttempts) 0 .read = some ⟨0, 0⟩ := by
    decide
  have hnone :
      (memPtr (run tlbStep (tlbInit onePage) nineAttempts).vm none 0 .read false).2 = none := by
    decide
  refine ⟨hhit, by decide, fun hcoh => ?_⟩
  have hptr := hcoh.hit 0 .read none false ⟨0, 0⟩ (by decide) hhit
  rw [hptr] at hnone
  cases hnone

end IosLinuxkit.Kernel
