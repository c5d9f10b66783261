import IosLinuxkit.Kernel.Atomics

/-!
# The range of the atomic helpers

Which guest bytes a helper accesses, and through whose translation. All translations of a helper
come before its accesses, so that the pointers are good for the whole of them.

* **`inRange_iff`** — when a helper stays in its operand, or refuses.
-/

namespace IosLinuxkit.Atomics

open Kernel Layout

/-! ## The claim about one call -/

/-- A thread that is not in a miss. -/
structure Ready where
  st : TlbState
  idle : st.phase = .idle
  live : Live st.vm

/-- The byte of a page is as before, or it has been accessed. -/
def Kept (touched : List Touch) (v v' : Vm) : Prop :=
  ∀ q e, memPt v.mem q = some e → ∃ e', memPt v'.mem q = some e' ∧ ∀ k, k < pageSize →
    v'.host.bytes e'.data (e'.offset + k) = v.host.bytes e.data (e.offset + k) ∨
      ∃ t ∈ touched, t.ptr.data = e'.data ∧ t.ptr.offset ≤ e'.offset + k ∧
        e'.offset + k < t.ptr.offset + t.len

/-- The bytes are of the operand, and on the page of the pointer they are accessed through. -/
def Touch.Within (t : Touch) (addr : Word) (bytes : Nat) : Prop :=
  ∀ j, j < t.len → (t.addr + BitVec.ofNat 64 j - addr).toNat < bytes ∧
    page (t.addr + BitVec.ofNat 64 j).toNat = page t.addr.toNat

/-- Each access went through the translation of its page for writing. -/
def Exec.Checked (x : Exec) : Prop :=
  ∀ t ∈ x.touched, memPtrNofault x.st.vm.mem t.addr.toNat .write = some t.ptr

/-- The helper fails and has accessed nothing, or has accessed its operand only, each byte
through the translation of its page for writing. -/
structure InRange (env : Env) (c : Call) (s : Ready) : Prop where
  kept : Kept (c.run env ⟨s.st, []⟩).1.touched s.st.vm (c.run env ⟨s.st, []⟩).1.st.vm
  outcome : ((c.run env ⟨s.st, []⟩).2 = fault ∧ (c.run env ⟨s.st, []⟩).1.touched = []) ∨
    ((c.run env ⟨s.st, []⟩).2.ret ≠ -1 ∧ (c.run env ⟨s.st, []⟩).1.Checked ∧
      ∀ t ∈ (c.run env ⟨s.st, []⟩).1.touched, t.Within c.addr c.bytes)

/-! ## In a helper -/

structure Going (s : Ready) (x : Exec) : Prop where
  idle : x.st.phase = .idle
  live : Live x.st.vm
  kept : Kept x.touched s.st.vm x.st.vm

section Helper

variable {env : Env} {s : Ready} {x : Exec} {addr : Word} {ptr : HostPtr} {w : Nat}

theorem going_start (s : Ready) : Going s ⟨s.st, []⟩ :=
  ⟨s.idle, s.live, fun _ e he => ⟨e, he, fun _ _ => .inl rfl⟩⟩

theorem checked_nil (hnew : x.touched = []) : x.Checked := by
  intro t ht
  rw [hnew] at ht
  cases ht

theorem Going.writePtr (h : Going s x) (env : Env) (addr : Word) (hnew : x.touched = []) :
    Going s (x.writePtr env addr).1 ∧ (x.writePtr env addr).1.touched = [] ∧
      Translated addr.toNat x.st (tlbWritePtr env.inJit env.limit addr.toNat x.st) := by
  have ht : Translated addr.toNat x.st (tlbWritePtr env.inJit env.limit addr.toNat x.st) :=
    tlbWritePtr_spec addr.isLt h.idle h.live
  refine ⟨⟨ht.idle, ht.calmAt.calm.live, ?_⟩, hnew, ht⟩
  intro q e he
  obtain ⟨e₁, he₁, hb₁⟩ := h.kept q e he
  obtain ⟨e₂, he₂, hb₂⟩ := ht.calmAt.calm.contents q e₁ he₁
  refine ⟨e₂, he₂, fun k hk => .inl ?_⟩
  rcases hb₁ k hk with hsame | ⟨t, htouch, _⟩
  · exact (hb₂ k hk).trans hsame
  · rw [hnew] at htouch
    cases htouch

theorem Going.load (h : Going s x) (addr : Word) (ptr : HostPtr) (w : Nat) :
    Going s (x.load addr ptr w).1 := by
  refine ⟨h.idle, h.live, fun q e he => ?_⟩
  obtain ⟨e', he', hb⟩ := h.kept q e he
  refine ⟨e', he', fun k hk => (hb k hk).imp_right ?_⟩
  rintro ⟨t, ht, hin⟩
  exact ⟨t, List.mem_cons_of_mem _ ht, hin⟩

theorem leBytes_length (v : BitVec w) : (leBytes v).length = w / 8 := by
  unfold leBytes
  rw [List.length_map, List.length_range]

theorem Going.store (h : Going s x) (addr : Word) (ptr : HostPtr) (v : BitVec w) :
    Going s (x.store addr ptr v) := by
  refine ⟨h.idle, h.live, fun q e he => ?_⟩
  obtain ⟨e', he', hb⟩ := h.kept q e he
  refine ⟨e', he', fun k hk => ?_⟩
  by_cases hin : e'.data = ptr.data ∧ ptr.offset ≤ e'.offset + k ∧
      e'.offset + k < ptr.offset + w / 8
  · exact .inr ⟨_, List.mem_cons_self, hin.1.symm, hin.2⟩
  refine (hb k hk).imp (fun hsame => ?_) ?_
  · -- a byte that is not of the value
    refine Eq.trans ?_ hsame
    show (if e'.data = ptr.data ∧ ptr.offset ≤ e'.offset + k then _ else _) = _
    split
    case isTrue hlo =>
      rw [List.getElem?_eq_none (by rw [leBytes_length]; omega)]
      rfl
    case isFalse => rfl
  · rintro ⟨t, ht, hin⟩
    exact ⟨t, List.mem_cons_of_mem _ ht, hin⟩

theorem checked_load : (x.load addr ptr w).1.Checked ↔
    memPtrNofault x.st.vm.mem addr.toNat .write = some ptr ∧ x.Checked :=
  List.forall_mem_cons

theorem checked_store (v : BitVec w) : (x.store addr ptr v).Checked ↔
    memPtrNofault x.st.vm.mem addr.toNat .write = some ptr ∧ x.Checked :=
  List.forall_mem_cons

/-! ## How a helper ends -/

structure Declined (s : Ready) (r : Exec × Reply) : Prop where
  going : Going s r.1
  reply : r.2 = fault
  touched : r.1.touched = []

structure Pieces (pieces : List (Word × Nat)) (touched : List Touch) : Prop where
  only : ∀ t ∈ touched, (t.addr, t.len) ∈ pieces
  all : ∀ p ∈ pieces, ∃ t ∈ touched, (t.addr, t.len) = p

theorem pieces_nil : Pieces [] [] := by
  constructor
  · intro t h
    cases h
  · intro p h
    cases h

variable {touched : List Touch} {n : Nat}

theorem Pieces.new {pieces : List (Word × Nat)} (h : Pieces pieces touched)
    (t : Touch) : Pieces ((t.addr, t.len) :: pieces) (t :: touched) := by
  refine ⟨fun u hu => ?_, fun p hp => ?_⟩
  · rcases List.mem_cons.mp hu with rfl | hu
    · exact List.mem_cons_self
    · exact List.mem_cons_of_mem _ (h.only u hu)
  rcases List.mem_cons.mp hp with rfl | hp
  · exact ⟨t, List.mem_cons_self, rfl⟩
  · obtain ⟨u, hu, hup⟩ := h.all p hp
    exact ⟨u, List.mem_cons_of_mem _ hu, hup⟩

theorem Pieces.again {pieces : List (Word × Nat)} (h : Pieces pieces touched)
    {t : Touch} (ht : (t.addr, t.len) ∈ pieces) : Pieces pieces (t :: touched) := by
  refine ⟨fun u hu => ?_, fun p hp => ?_⟩
  · rcases List.mem_cons.mp hu with rfl | hu
    · exact ht
    · exact h.only u hu
  · obtain ⟨u, hu, hup⟩ := h.all p hp
    exact ⟨u, List.mem_cons_of_mem _ hu, hup⟩

theorem Pieces.swap {p q : Word × Nat} (h : Pieces [p, q] touched) :
    Pieces [q, p] touched := by
  refine ⟨fun t ht => ?_, fun r hr => h.all r ?_⟩
  · exact (List.Perm.swap q p []).subset (h.only t ht)
  · exact (List.Perm.swap p q []).subset hr

structure Accessed (s : Ready) (pieces : List (Word × Nat)) (backed : Prop) (r : Exec × Reply) :
    Prop where
  going : Going s r.1
  reply : r.2.ret ≠ -1
  pieces : Pieces pieces r.1.touched
  checked : r.1.Checked ↔ backed

theorem accessed_atomic {backed : Prop} (h : Going s x) (hnew : x.touched = [])
    (hptr : memPtrNofault x.st.vm.mem addr.toNat .write = some ptr ↔ backed)
    (f : BitVec w → Option (BitVec w)) (hn : w / 8 = n) {reply : Reply} (hret : reply.ret ≠ -1) :
    Accessed s [(addr, n)] backed ((x.atomic addr ptr f).1, reply) := by
  subst hn
  have hload := h.load addr ptr w
  have hchecked : (x.load addr ptr w).1.Checked ↔ backed := by
    rw [checked_load, hptr]
    exact and_iff_left (checked_nil hnew)
  have hpiece : Pieces [(addr, w / 8)] (x.load addr ptr w).1.touched := by
    show Pieces _ (_ :: x.touched)
    rw [hnew]
    exact pieces_nil.new ⟨addr, ptr, w / 8⟩
  unfold Exec.atomic
  dsimp only
  split
  · refine ⟨hload.store addr ptr _, hret, hpiece.again List.mem_cons_self, ?_⟩
    rw [checked_store, hchecked]
    exact and_iff_right_of_imp hptr.mpr
  · exact ⟨hload, hret, hpiece, hchecked⟩

theorem zero_ne {out : List Word} : (⟨0, out⟩ : Reply).ret ≠ -1 := by
  show (0 : Int) ≠ -1
  decide

theorem declined_of (h : Going s x) (hnew : x.touched = []) : Declined s (x, fault) :=
  ⟨h, rfl, hnew⟩

theorem withPtr_cases (s : Ready) (env : Env) (addr : Word) (f : HostPtr → Exec → Exec × Reply)
    (P : Exec × Reply → Prop) (hnone : ((⟨s.st, []⟩ : Exec).writePtr env addr).2 = none →
      ∀ x, Going s x → x.touched = [] → P (x, fault))
    (hsome : ((⟨s.st, []⟩ : Exec).writePtr env addr).2 ≠ none → ∀ x ptr, Going s x →
      x.touched = [] → (memPtrNofault x.st.vm.mem addr.toNat .write = some ptr ↔
        HitBacked addr.toNat s.st) → P (f ptr x)) : P (withPtr env addr f ⟨s.st, []⟩) := by
  obtain ⟨hgo, hnew, ht⟩ := (going_start s).writePtr env addr rfl
  have hptr : ∀ q, ((⟨s.st, []⟩ : Exec).writePtr env addr).2 = some q →
      (memPtrNofault ((⟨s.st, []⟩ : Exec).writePtr env addr).1.st.vm.mem addr.toNat .write = some q ↔
        HitBacked addr.toNat s.st) := ht.ptr
  unfold withPtr
  generalize hw : (⟨s.st, []⟩ : Exec).writePtr env addr = r at hgo hnew hptr hnone hsome
  obtain ⟨x, ptr⟩ := r
  cases ptr with
  | none => exact hnone rfl x hgo hnew
  | some ptr => exact hsome (fun h => by cases h) x ptr hgo hnew (hptr ptr rfl)

theorem sized_cases {size : Nat} {f : Nat → Exec → Exec × Reply} {P : Exec × Reply → Prop}
    (hbad : 3 < size → P (x, fault)) (hok : size ≤ 3 → ∀ w, w / 8 = 2 ^ size → P (f w x)) :
    P (sized size f x) := by
  match size with
  | 0 => exact hok (by decide) 8 rfl
  | 1 => exact hok (by decide) 16 rfl
  | 2 => exact hok (by decide) 32 rfl
  | 3 => exact hok (by decide) 64 rfl
  | n + 4 => exact hbad (by omega)

/-! ## The calls -/

/-- The helper refuses: a size or an operation that it does not know, no place for the result, an
operand that is not aligned where it checks, or a page that cannot be written. -/
def Call.Refused (env : Env) (s : Ready) : Call → Prop
  | .rmw addr _ size op oldOut => oldOut = false ∨ 3 < size ∨ 8 < op ∨
      ((⟨s.st, []⟩ : Exec).writePtr env addr).2 = none
  | .cas addr _ _ size oldOut => oldOut = false ∨ 3 < size ∨
      ((⟨s.st, []⟩ : Exec).writePtr env addr).2 = none
  | .stxr addr _ _ size => 3 < size ∨ ((⟨s.st, []⟩ : Exec).writePtr env addr).2 = none
  | .stxp addr _ _ _ _ size =>
      ¬ ((size = 2 ∧ addr &&& 7 = 0) ∨
        (size = 3 ∧ addr &&& 0xf = 0 ∧ pgOffset addr.toNat + 16 ≤ pageSize)) ∨
      ((⟨s.st, []⟩ : Exec).writePtr env addr).2 = none
  | .casp addr _ _ _ _ size =>
      ¬ (size = 2 ∨ (size = 3 ∧ addr &&& 0xf = 0)) ∨
      ((⟨s.st, []⟩ : Exec).writePtr env addr).2 = none ∨
      (((⟨s.st, []⟩ : Exec).writePtr env addr).1.writePtr env
        (addr + BitVec.ofNat 64 (2 ^ size))).2 = none

def Call.Fits (c : Call) : Prop := ∀ p ∈ c.pieces, pgOffset p.1.toNat + p.2 ≤ pageSize

/-- The TLB entries that the helper hits agree with the page table. -/
def Call.Backed (env : Env) (s : Ready) : Call → Prop
  | .rmw addr _ _ _ _ | .cas addr _ _ _ _ | .stxr addr _ _ _ | .stxp addr _ _ _ _ _ =>
    HitBacked addr.toNat s.st
  | .casp addr _ _ _ _ size =>
    HitBacked addr.toNat s.st ∧ HitBacked (addr + BitVec.ofNat 64 (2 ^ size)).toNat
      ((⟨s.st, []⟩ : Exec).writePtr env addr).1.st

def Ends (env : Env) (s : Ready) (c : Call) (r : Exec × Reply) : Prop :=
  (c.Refused env s ∧ Declined s r) ∨ (¬ c.Refused env s ∧ Accessed s c.pieces (c.Backed env s) r)

theorem ends_rmw (value : Word) (size op : Nat) (oldOut : Bool) :
    Ends env s (.rmw addr value size op oldOut)
      (cAtomicRmw env addr value size op oldOut ⟨s.st, []⟩) := by
  unfold cAtomicRmw
  split
  case isTrue hout => exact .inl ⟨.inl hout, declined_of (going_start s) rfl⟩
  case isFalse hout =>
    refine withPtr_cases s env addr _ _ (fun hnone x hgo hnew => ?_) fun hsome x ptr hgo hnew hptr => ?_
    · exact .inl ⟨.inr (.inr (.inr hnone)), declined_of hgo hnew⟩
    refine sized_cases (fun hbad => ?_) fun hsize w hw => ?_
    · exact .inl ⟨.inr (.inl hbad), declined_of hgo hnew⟩
    unfold rmwSized
    split
    case isTrue hop =>
      refine .inr ⟨?_, accessed_atomic hgo hnew hptr _ hw zero_ne⟩
      rintro (h | h | h | h)
      · exact hout h
      · omega
      · omega
      · exact hsome h
    case isFalse hop =>
      exact .inl ⟨.inr (.inr (.inl (by omega))), declined_of hgo hnew⟩

theorem ends_cas (expected desired : Word) (size : Nat) (oldOut : Bool) :
    Ends env s (.cas addr expected desired size oldOut)
      (cAtomicCas env addr expected desired size oldOut ⟨s.st, []⟩) := by
  unfold cAtomicCas
  split
  case isTrue hout => exact .inl ⟨.inl hout, declined_of (going_start s) rfl⟩
  case isFalse hout =>
    refine withPtr_cases s env addr _ _ (fun hnone x hgo hnew => ?_) fun hsome x ptr hgo hnew hptr => ?_
    · exact .inl ⟨.inr (.inr hnone), declined_of hgo hnew⟩
    refine sized_cases (fun hbad => ?_) fun hsize w hw => ?_
    · exact .inl ⟨.inr (.inl hbad), declined_of hgo hnew⟩
    refine .inr ⟨?_, accessed_atomic hgo hnew hptr _ hw zero_ne⟩
    rintro (h | h | h)
    · exact hout h
    · omega
    · exact hsome h

theorem accessed_exchanged {backed : Prop} (h : Going s x) (hnew : x.touched = [])
    (hptr : memPtrNofault x.st.vm.mem addr.toNat .write = some ptr ↔ backed)
    (expected desired : BitVec w) (hn : w / 8 = n) :
    Accessed s [(addr, n)] backed (exchanged addr ptr expected desired x) := by
  refine accessed_atomic h hnew hptr _ hn ?_
  dsimp only
  split
  · decide
  · decide

theorem ends_stxr (expectedVal newVal : Word) (size : Nat) :
    Ends env s (.stxr addr expectedVal newVal size)
      (cStxrCas env addr expectedVal newVal size ⟨s.st, []⟩) := by
  refine withPtr_cases s env addr _ _ (fun hnone x hgo hnew => ?_) fun hsome x ptr hgo hnew hptr => ?_
  · exact .inl ⟨.inr hnone, declined_of hgo hnew⟩
  refine sized_cases (fun hbad => ?_) fun hsize w hw => ?_
  · exact .inl ⟨.inl hbad, declined_of hgo hnew⟩
  refine .inr ⟨?_, accessed_exchanged hgo hnew hptr _ _ hw⟩
  rintro (h | h)
  · omega
  · exact hsome h

theorem ends_stxp (expectedLo expectedHi newLo newHi : Word) (size : Nat) :
    Ends env s (.stxp addr expectedLo expectedHi newLo newHi size)
      (cStxpPair env addr expectedLo expectedHi newLo newHi size ⟨s.st, []⟩) := by
  refine withPtr_cases s env addr _ _ (fun hnone x hgo hnew => ?_) fun hsome x ptr hgo hnew hptr => ?_
  · exact .inl ⟨.inr hnone, declined_of hgo hnew⟩
  split
  case isTrue hsize =>
    subst hsize
    split
    case isTrue hmis =>
      refine .inl ⟨.inl ?_, declined_of hgo hnew⟩
      rintro (h | h)
      · exact hmis h.2
      · exact absurd h.1 (by decide)
    case isFalse hal =>
      refine .inr ⟨?_, accessed_exchanged hgo hnew hptr _ _ rfl⟩
      rintro (h | h)
      · exact h (.inl ⟨rfl, Decidable.not_not.mp hal⟩)
      · exact hsome h
  case isFalse hsize2 =>
    split
    case isTrue hsize =>
      subst hsize
      split
      case isTrue hmis =>
        refine .inl ⟨.inl ?_, declined_of hgo hnew⟩
        rintro (h | h)
        · exact absurd h.1 (by decide)
        rcases hmis with hmis | hmis
        · exact hmis h.2.1
        · omega
      case isFalse hal =>
        rw [not_or] at hal
        refine .inr ⟨?_, accessed_exchanged hgo hnew hptr _ _ rfl⟩
        rintro (h | h)
        · exact h (.inr ⟨rfl, Decidable.not_not.mp hal.1, by omega⟩)
        · exact hsome h
    case isFalse hsize3 =>
      refine .inl ⟨.inl ?_, declined_of hgo hnew⟩
      rintro (h | h)
      · exact hsize2 h.1
      · exact hsize3 h.1

theorem tlbHit_page {a b : Nat} {st : TlbState} {type : AccessType} (hpage : page b = page a)
    (h : (tlbHit st a type).isSome) : (tlbHit st b type).isSome := by
  have hrest : tlbPage b = tlbPage a ∧ tlbIndex b = tlbIndex a := by
    have hdiv : b / 4096 = a / 4096 := hpage
    have hshift : ∀ n : Nat, n >>> 25 = n / 4096 / 8192 := fun n => by
      rw [Nat.shiftRight_eq_div_pow, Nat.div_div_eq_div_mul]
    unfold tlbPage tlbIndex
    rw [hshift, hshift, Nat.shiftRight_eq_div_pow, Nat.shiftRight_eq_div_pow,
      show 2 ^ 12 = 4096 from rfl, hdiv, pageSize]
    exact ⟨by omega, rfl⟩
  unfold tlbHit at h ⊢
  rw [hrest.1, hrest.2]
  dsimp only at h ⊢
  split at h
  case isTrue hhit => rw [if_pos hhit]; rfl
  case isFalse => cases h

theorem nofault_second {addr2 : Word} (hidle : x.st.phase = .idle) (hl : Live x.st.vm)
    (hpage : page addr2.toNat = page addr.toNat ∨ slot (page addr.toNat) ≠ slot (page addr2.toNat))
    (hptr : (x.writePtr env addr).2 = some ptr) :
    memPtrNofault ((x.writePtr env addr).1.writePtr env addr2).1.st.vm.mem addr.toNat .write =
      some ptr ↔ HitBacked addr.toNat x.st := by
  have ht1 : Translated addr.toNat x.st (tlbWritePtr env.inJit env.limit addr.toNat x.st) :=
    tlbWritePtr_spec addr.isLt hidle hl
  have ht2 : Translated addr2.toNat (x.writePtr env addr).1.st
      (tlbWritePtr env.inJit env.limit addr2.toNat (x.writePtr env addr).1.st) :=
    tlbWritePtr_spec addr2.isLt ht1.idle ht1.calmAt.calm.live
  cases hh : tlbHit x.st addr.toNat .write with
  | none =>
    have hend : Settled addr.toNat x.st (tlbWritePtr env.inJit env.limit addr.toNat x.st) :=
      tlbWritePtr_miss addr.isLt hidle hl hh
    constructor
    · intro _ p hp
      rw [hh] at hp
      cases hp
    · intro _
      exact ht2.calmAt.calm.nofault (hend.ptr ptr hptr)
  | some p =>
    have hend : Hit p x.st (tlbWritePtr env.inJit env.limit addr.toNat x.st) :=
      tlbWritePtr_hit hidle hh
    -- the first translation has changed nothing
    have hsame : memPt ((x.writePtr env addr).1.writePtr env addr2).1.st.vm.mem (page addr.toNat) =
        memPt x.st.vm.mem (page addr.toNat) := by
      rw [← hend.vm]
      rcases hpage with hpage | hslot
      · have hsome : (tlbHit (x.writePtr env addr).1.st addr2.toNat .write).isSome := by
          refine tlbHit_page hpage ?_
          rw [show tlbHit (x.writePtr env addr).1.st addr.toNat .write = _ from hend.hits _, hh]
          rfl
        obtain ⟨q, hq⟩ := Option.isSome_iff_exists.mp hsome
        have hend2 : Hit q (x.writePtr env addr).1.st
            (tlbWritePtr env.inJit env.limit addr2.toNat (x.writePtr env addr).1.st) :=
          tlbWritePtr_hit ht1.idle hq
        exact congrArg (fun v : Vm => memPt v.mem (page addr.toNat)) hend2.vm
      · exact ht2.calmAt.others _ hslot
    have hnofault : memPtrNofault ((x.writePtr env addr).1.writePtr env addr2).1.st.vm.mem addr.toNat
        .write = memPtrNofault x.st.vm.mem addr.toNat .write := by
      unfold memPtrNofault
      rw [hsame]
    rw [hnofault]
    cases hend.ptr.symm.trans hptr
    refine ⟨fun hback q hq => ?_, fun hback => hback ptr hh⟩
    cases hh.symm.trans hq
    exact hback

theorem page_near (addr : Word) (hn : n ≤ 8) :
    page (addr + BitVec.ofNat 64 n).toNat = page addr.toNat ∨
      slot (page addr.toNat) ≠ slot (page (addr + BitVec.ofNat 64 n).toNat) := by
  have haddr := addr.isLt
  by_cases hpage : (addr.toNat + n) % 2 ^ 64 / 4096 = addr.toNat / 4096
  · left
    rw [BitVec.toNat_add, BitVec.toNat_ofNat, Nat.mod_eq_of_lt (show n < 2 ^ 64 from by omega)]
    exact hpage
  · right
    rw [BitVec.toNat_add, BitVec.toNat_ofNat, Nat.mod_eq_of_lt (show n < 2 ^ 64 from by omega)]
    intro hslot
    have hval : addr.toNat / 4096 % 0x1000000000 =
        (addr.toNat + n) % 2 ^ 64 / 4096 % 0x1000000000 := congrArg Fin.val hslot
    omega

theorem ends_caspSized (oldLo oldHi newLo newHi : Word) {size w : Nat} (hw : w / 8 = 2 ^ size)
    (hok : size = 2 ∨ (size = 3 ∧ addr &&& 0xf = 0)) :
    Ends env s (.casp addr oldLo oldHi newLo newHi size)
      (caspSized env addr oldLo oldHi newLo newHi w ⟨s.st, []⟩) := by
  obtain ⟨hgo1, hnew1, -⟩ := (going_start s).writePtr env addr rfl
  obtain ⟨hgo2, hnew2, ht2⟩ := hgo1.writePtr env (addr + BitVec.ofNat 64 (2 ^ size)) hnew1
  have hfirst : ∀ ptr, ((⟨s.st, []⟩ : Exec).writePtr env addr).2 = some ptr →
      (memPtrNofault (((⟨s.st, []⟩ : Exec).writePtr env addr).1.writePtr env
        (addr + BitVec.ofNat 64 (2 ^ size))).1.st.vm.mem addr.toNat .write = some ptr ↔
        HitBacked addr.toNat s.st) :=
    fun ptr hptr => nofault_second s.idle s.live
      (page_near addr (by rcases hok with rfl | ⟨rfl, _⟩ <;> decide)) hptr
  have hsecond : ∀ ptr, (((⟨s.st, []⟩ : Exec).writePtr env addr).1.writePtr env
      (addr + BitVec.ofNat 64 (2 ^ size))).2 = some ptr →
      (memPtrNofault (((⟨s.st, []⟩ : Exec).writePtr env addr).1.writePtr env
        (addr + BitVec.ofNat 64 (2 ^ size))).1.st.vm.mem
          (addr + BitVec.ofNat 64 (2 ^ size)).toNat .write = some ptr ↔
        HitBacked (addr + BitVec.ofNat 64 (2 ^ size)).toNat
          ((⟨s.st, []⟩ : Exec).writePtr env addr).1.st) := ht2.ptr
  unfold caspSized
  rw [hw]
  dsimp only
  generalize hx2 : (Exec.writePtr env (addr + BitVec.ofNat 64 (2 ^ size))
    (Exec.writePtr env addr ⟨s.st, []⟩).1) = r2 at hgo2 hnew2 hfirst hsecond
  split
  case h_1 ptr1 ptr2 h1 h2 =>
    have hlo := hgo2.load addr ptr1 w
    have hhi : Going s (Exec.load (addr + BitVec.ofNat 64 (2 ^ size)) ptr2 w
        (Exec.load addr ptr1 w r2.1).1).1 := hlo.load _ ptr2 w
    have hpieces : Pieces [(addr, 2 ^ size), (addr + BitVec.ofNat 64 (2 ^ size), 2 ^ size)]
        (Exec.load (addr + BitVec.ofNat 64 (2 ^ size)) ptr2 w
          (Exec.load addr ptr1 w r2.1).1).1.touched := by
      show Pieces _ (⟨addr + BitVec.ofNat 64 (2 ^ size), ptr2, w / 8⟩ ::
        ⟨addr, ptr1, w / 8⟩ :: r2.1.touched)
      rw [hnew2, hw]
      exact ((pieces_nil.new ⟨addr, ptr1, 2 ^ size⟩).new
        ⟨addr + BitVec.ofNat 64 (2 ^ size), ptr2, 2 ^ size⟩).swap
    have hq1 := hfirst ptr1 h1
    have hq2 := hsecond ptr2 h2
    have hchecked : (Exec.load (addr + BitVec.ofNat 64 (2 ^ size)) ptr2 w
        (Exec.load addr ptr1 w r2.1).1).1.Checked ↔
          (Call.casp addr oldLo oldHi newLo newHi size).Backed env s := by
      rw [checked_load, checked_load]
      constructor
      · rintro ⟨hc2, hc1, _⟩
        exact ⟨hq1.mp hc1, hq2.mp hc2⟩
      · rintro ⟨hb1, hb2⟩
        exact ⟨hq2.mpr hb2, hq1.mpr hb1, checked_nil hnew2⟩
    refine .inr ⟨?_, ?_⟩
    · rintro (h | h | h)
      · exact h hok
      · rw [h1] at h
        cases h
      · rw [hx2, h2] at h
        cases h
    split
    · have hsnd : ((addr + BitVec.ofNat 64 (2 ^ size), w / 8) : Word × Nat) ∈
          [(addr, 2 ^ size), (addr + BitVec.ofNat 64 (2 ^ size), 2 ^ size)] := by
        rw [hw]
        exact List.mem_cons_of_mem _ List.mem_cons_self
      have hfst : ((addr, w / 8) : Word × Nat) ∈
          [(addr, 2 ^ size), (addr + BitVec.ofNat 64 (2 ^ size), 2 ^ size)] := by
        rw [hw]
        exact List.mem_cons_self
      refine ⟨(hhi.store addr ptr1 _).store _ ptr2 _, zero_ne, (hpieces.again hfst).again hsnd, ?_⟩
      rw [checked_store, checked_store, hchecked]
      constructor
      · rintro ⟨_, _, hb⟩
        exact hb
      · intro hb
        exact ⟨hq2.mpr hb.2, hq1.mpr hb.1, hb⟩
    · exact ⟨hhi, zero_ne, hpieces, hchecked⟩
  case h_2 hnot =>
    refine .inl ⟨.inr ?_, declined_of hgo2 hnew2⟩
    cases h1 : ((⟨s.st, []⟩ : Exec).writePtr env addr).2 with
    | none => exact .inl rfl
    | some ptr1 =>
      cases h2 : r2.2 with
      | none => exact .inr (hx2 ▸ h2)
      | some ptr2 => exact absurd h2 (hnot ptr1 ptr2 h1)

theorem ends_casp (oldLo oldHi newLo newHi : Word) (size : Nat) :
    Ends env s (.casp addr oldLo oldHi newLo newHi size)
      (cCaspPair env addr oldLo oldHi newLo newHi size ⟨s.st, []⟩) := by
  unfold cCaspPair
  split
  case isTrue hmis =>
    refine .inl ⟨.inl ?_, declined_of (going_start s) rfl⟩
    rintro (h | h)
    · omega
    · exact hmis.2 h.2
  case isFalse hal =>
    split
    case isTrue h2 =>
      subst h2
      exact ends_caspSized oldLo oldHi newLo newHi rfl (.inl rfl)
    case isFalse h2 =>
      split
      case isTrue h3 =>
        subst h3
        refine ends_caspSized oldLo oldHi newLo newHi rfl (.inr ⟨rfl, ?_⟩)
        exact Decidable.not_not.mp fun h => hal ⟨rfl, h⟩
      case isFalse h3 =>
        refine .inl ⟨.inl ?_, declined_of (going_start s) rfl⟩
        rintro (h | h)
        · exact h2 h
        · exact h3 h.1

theorem ends_run (env : Env) (s : Ready) (c : Call) : Ends env s c (c.run env ⟨s.st, []⟩) := by
  cases c with
  | rmw addr value size op oldOut => exact ends_rmw value size op oldOut
  | cas addr expected desired size oldOut => exact ends_cas expected desired size oldOut
  | stxr addr expectedVal newVal size => exact ends_stxr expectedVal newVal size
  | stxp addr expectedLo expectedHi newLo newHi size =>
    exact ends_stxp expectedLo expectedHi newLo newHi size
  | casp addr oldLo oldHi newLo newHi size => exact ends_casp oldLo oldHi newLo newHi size

end Helper

/-! ## Pages -/

theorem samePage_iff (addr : Word) {n : Nat} (hn : n ≤ pageSize) :
    (∀ j, j < n → page (addr + BitVec.ofNat 64 j).toNat = page addr.toNat) ↔
      pgOffset addr.toNat + n ≤ pageSize := by
  have haddr := addr.isLt
  have hsum : ∀ j, j < n → (addr + BitVec.ofNat 64 j).toNat = (addr.toNat + j) % 2 ^ 64 := by
    intro j hj
    rw [BitVec.toNat_add, BitVec.toNat_ofNat, Nat.mod_eq_of_lt (show j < 2 ^ 64 from by
      unfold pageSize at hn
      omega)]
  unfold page pgOffset
  unfold pageSize at hn ⊢
  constructor
  · intro h
    refine Nat.le_of_not_lt fun hlt => ?_
    -- the first byte of the next page
    have hnext := h (4096 - addr.toNat % 4096) (by omega)
    rw [hsum _ (by omega)] at hnext
    omega
  intro h j hj
  rw [hsum j hj]
  omega

theorem offset_of (addr : Word) {k j n : Nat} (hn : n ≤ 16) (h : k + j < n) :
    (addr + BitVec.ofNat 64 k + BitVec.ofNat 64 j - addr).toNat < n := by
  have hsum : addr + BitVec.ofNat 64 k + BitVec.ofNat 64 j - addr = BitVec.ofNat 64 (k + j) := by
    rw [BitVec.add_assoc, BitVec.add_comm addr, BitVec.add_sub_cancel, BitVec.ofNat_add]
  rw [hsum, BitVec.toNat_ofNat]
  omega

variable {env : Env} {s : Ready} {c : Call}

theorem piece_in (h : ¬ c.Refused env s) {p : Word × Nat}
    (hp : p ∈ c.pieces) : ∃ k, p.1 = c.addr + BitVec.ofNat 64 k ∧ k + p.2 ≤ c.bytes ∧
      c.bytes ≤ 16 := by
  have hpow : ∀ {size : Nat}, size ≤ 3 → 2 ^ size ≤ 8 := fun hle =>
    Nat.pow_le_pow_right (by decide : 0 < 2) hle
  have hfirst : ∀ addr : Word, addr = addr + BitVec.ofNat 64 0 := fun addr => (BitVec.add_zero addr).symm
  cases c with
  | rmw addr value size op oldOut =>
    obtain ⟨_, hsize, _⟩ := not_or.mp h |>.imp id not_or.mp
    cases List.mem_singleton.mp hp
    have := hpow (Nat.le_of_not_lt hsize)
    exact ⟨0, hfirst addr, Nat.le_of_eq (Nat.zero_add _), by show 2 ^ size ≤ 16; omega⟩
  | cas addr expected desired size oldOut =>
    obtain ⟨_, hsize, _⟩ := not_or.mp h |>.imp id not_or.mp
    cases List.mem_singleton.mp hp
    have := hpow (Nat.le_of_not_lt hsize)
    exact ⟨0, hfirst addr, Nat.le_of_eq (Nat.zero_add _), by show 2 ^ size ≤ 16; omega⟩
  | stxr addr expectedVal newVal size =>
    obtain ⟨hsize, _⟩ := not_or.mp h
    cases List.mem_singleton.mp hp
    have := hpow (Nat.le_of_not_lt hsize)
    exact ⟨0, hfirst addr, Nat.le_of_eq (Nat.zero_add _), by show 2 ^ size ≤ 16; omega⟩
  | stxp addr expectedLo expectedHi newLo newHi size =>
    have hsize : size ≤ 3 := by
      rcases Decidable.not_not.mp (not_or.mp h).1 with h2 | h3
      · omega
      · omega
    cases List.mem_singleton.mp hp
    have := hpow hsize
    exact ⟨0, hfirst addr, Nat.le_of_eq (Nat.zero_add _), by show 2 * 2 ^ size ≤ 16; omega⟩
  | casp addr oldLo oldHi newLo newHi size =>
    have hsize : size ≤ 3 := by
      rcases Decidable.not_not.mp (not_or.mp h).1 with h2 | h3
      · omega
      · omega
    have := hpow hsize
    have hbytes : 2 * 2 ^ size ≤ 16 := by omega
    rcases List.mem_cons.mp hp with rfl | hp
    · refine ⟨0, hfirst addr, ?_, hbytes⟩
      show 0 + 2 ^ size ≤ 2 * 2 ^ size
      omega
    cases List.mem_singleton.mp hp
    refine ⟨2 ^ size, rfl, ?_, hbytes⟩
    show 2 ^ size + 2 ^ size ≤ 2 * 2 ^ size
    omega

theorem within_iff (h : ¬ c.Refused env s) {t : Touch} (ht : (t.addr, t.len) ∈ c.pieces) :
    t.Within c.addr c.bytes ↔ pgOffset t.addr.toNat + t.len ≤ pageSize := by
  obtain ⟨k, hk, hlen, hbytes⟩ := piece_in h ht
  have hle : t.len ≤ pageSize := by
    unfold pageSize
    dsimp only at hlen
    omega
  rw [← samePage_iff t.addr hle]
  refine ⟨fun hin j hj => (hin j hj).2, fun hpage j hj => ⟨?_, hpage j hj⟩⟩
  dsimp only at hk hlen
  rw [hk]
  exact offset_of c.addr hbytes (by omega)

theorem fits_of_inRange (hin : InRange env c s)
    (href : ¬ c.Refused env s) : c.Fits ∧ c.Backed env s := by
  rcases ends_run env s c with ⟨hdecl, _⟩ | ⟨_, hacc⟩
  · exact absurd hdecl href
  rcases hin.outcome with ⟨hfault, _⟩ | ⟨_, hchecked, hall⟩
  · exact absurd (congrArg Reply.ret hfault) hacc.reply
  refine ⟨fun p hp => ?_, hacc.checked.mp hchecked⟩
  -- every piece has been accessed
  obtain ⟨t, ht, rfl⟩ := hacc.pieces.all p hp
  exact (within_iff href hp).mp (hall t ht)

theorem inRange_of_ends (h : c.Refused env s ∨ (c.Fits ∧ c.Backed env s)) : InRange env c s := by
  rcases ends_run env s c with ⟨_, hdecl⟩ | ⟨href, hacc⟩
  · exact ⟨hdecl.going.kept, .inl ⟨hdecl.reply, hdecl.touched⟩⟩
  obtain ⟨hfits, hback⟩ := h.resolve_left href
  refine ⟨hacc.going.kept, .inr ⟨hacc.reply, hacc.checked.mpr hback, fun t ht => ?_⟩⟩
  have hp := hacc.pieces.only t ht
  exact (within_iff href hp).mpr (hfits _ hp)

/-- A helper stays in its operand exactly when it refuses, or when no piece that it accesses
through one pointer crosses the end of a page and the entries it hits are right. -/
theorem inRange_iff (env : Env) (c : Call) (s : Ready) :
    InRange env c s ↔ c.Refused env s ∨ (c.Fits ∧ c.Backed env s) := by
  constructor
  · intro hin
    by_cases href : c.Refused env s
    · exact .inl href
    · exact .inr (fits_of_inRange hin href)
  · exact inRange_of_ends

/-! ## An operand on two pages -/

def writablePage : Vm :=
  { onePage with
    mem := { memInit with pt := AList.singleton (slot 0) ⟨0, 0, Flags.read ||| Flags.write⟩ } }

theorem live_writablePage : Live writablePage := by
  intro q e he
  have hkey := AList.mem_lookup_iff.mp he
  have hone := List.mem_singleton.mp hkey
  cases hone
  exact Nat.one_pos

def onePageThread : Ready where
  st := tlbInit writablePage
  idle := rfl
  live := live_writablePage

/-- An eight-byte `LDADD` four bytes before the end of that page. -/
def addAtPageEnd : Call := .rmw 0xffc 1 3 0 true

theorem addAtPageEnd_outside : ¬ InRange ⟨true, none⟩ addAtPageEnd onePageThread := by
  intro hin
  have hfits : addAtPageEnd.Fits := by
    refine (fits_of_inRange hin ?_).1
    rintro (h | h | h | h)
    · cases h
    · exact absurd h (by decide)
    · exact absurd h (by decide)
    have hptr : (tlbWritePtr true none 0xffc (tlbInit writablePage)).2 = some ⟨0, 0xffc⟩ := by
      decide
    exact absurd (hptr.symm.trans h) (by decide)
  exact absurd (hfits (0xffc, 8) List.mem_cons_self) (by decide)

end IosLinuxkit.Atomics
