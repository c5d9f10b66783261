import IosLinuxkit.Kernel.OnePage
import IosLinuxkit.Kernel.TlbCoherence

/-!
# Pointers for the C helpers

`__tlb_write_ptr` as a helper calls it: the steps of `Kernel.Tlb` one after the other, with
nobody in between.

* **`tlbWritePtr_spec`** — the pointer is the table's, for writing.
-/

namespace IosLinuxkit.Kernel

/-! ## The call -/

def PtrPhase.left : PtrPhase → Nat
  | .lookup => 5
  | .grow | .materialise => 4
  | .haveEntry => 3
  | .breakCow => 2
  | .resolve | .done _ => 1

def TlbPhase.left : TlbPhase → Nat
  | .idle => 0
  | .load _ _ attempt => 7 * (8 - attempt) + 10
  | .walk _ _ attempt _ call => 7 * (8 - attempt) + 4 + call.phase.left
  | .reload _ _ attempt _ _ => 7 * (8 - attempt) + 4
  | .giveUp _ _ _ => 3
  | .tag _ _ _ _ => 2
  | .fill _ _ _ _ _ => 1

/-- `tlb_handle_miss` from where it is, and what it returns. -/
def settle (inJit : Bool) (limit : Option Nat) : Nat → TlbState → TlbState × Option HostPtr
  | 0, s => (s, none)
  | n + 1, s =>
    match s.phase with
    | .tag _ _ _ none => (missNext inJit limit s, none)
    | .fill addr _ _ ptr _ =>
      (missNext inJit limit s, some ⟨ptr.data, ptr.offset + pgOffset addr⟩)
    | _ => settle inJit limit n (missNext inJit limit s)

def tlbWritePtr (inJit : Bool) (limit : Option Nat) (addr : Nat) (s : TlbState) :
    TlbState × Option HostPtr :=
  match tlbHit s addr .write with
  | some ptr => (access addr .write s, some ptr)
  | none =>
    let s := access addr .write s
    settle inJit limit s.phase.left s

/-! ## What a translation may do -/

/-- Pages keep their contents, and those that can be written their place. -/
structure Calm (v v' : Vm) : Prop where
  live : Live v'
  contents : ∀ q e, memPt v.mem q = some e → ∃ e', memPt v'.mem q = some e' ∧
    ∀ k, k < pageSize → v'.host.bytes e'.data (e'.offset + k) = v.host.bytes e.data (e.offset + k)
  writable : ∀ q e, memPt v.mem q = some e → Flags.writable e.flags = true → memPt v'.mem q = some e

theorem Calm.refl {v : Vm} (hl : Live v) : Calm v v :=
  ⟨hl, fun _ e he => ⟨e, he, fun _ _ => rfl⟩, fun _ _ he _ => he⟩

theorem Calm.trans {v₁ v₂ v₃ : Vm} (h₁ : Calm v₁ v₂) (h₂ : Calm v₂ v₃) : Calm v₁ v₃ where
  live := h₂.live
  contents q e he := by
    obtain ⟨e₂, he₂, hb₂⟩ := h₁.contents q e he
    obtain ⟨e₃, he₃, hb₃⟩ := h₂.contents q e₂ he₂
    exact ⟨e₃, he₃, fun k hk => (hb₃ k hk).trans (hb₂ k hk)⟩
  writable q e he hw := h₂.writable q e (h₁.writable q e he hw) hw

section Steps

variable {v v' : Vm} {p q : Nat} {flags : Flags} {contents : Nat → UInt8} {type : AccessType}

theorem Calm.of_new (hl : Live v) (hl' : Live v') (hnone : memPt v.mem p = none)
    (hr : Replaced v v' p flags contents) : Calm v v' := by
  have hother : ∀ q e, memPt v.mem q = some e → memPt v'.mem q = some e := by
    intro q e he
    have hq : slot q ≠ slot p := by
      intro hs
      rw [memPt_slot hs, hnone] at he
      cases he
    rw [hr.entry, if_neg hq]
    exact he
  refine ⟨hl', fun q e he => ⟨e, hother q e he, fun k _ => ?_⟩, fun q e he _ => hother q e he⟩
  rw [hr.bytes, Function.update_of_ne (Nat.ne_of_lt (hl _ e he))]

theorem PageStep.calm {phase : PtrPhase} (hl : Live v) (hl' : Live v') (htype : type ≠ .writePtrace)
    (h : PageStep v v' p type phase) : Calm v v' := by
  cases h with
  | same hu =>
    refine ⟨hl', fun q e he => ⟨e, by rw [hu.entry, he], fun k _ => by rw [hu.bytes]⟩, ?_⟩
    intro q e he _
    rw [hu.entry, he]
  | grown hnone _ _ hr => exact .of_new hl hl' hnone hr
  | materialised _ hnone _ _ hr => exact .of_new hl hl' hnone hr
  | copied e he hcow _ hr =>
    have hc : Flags.any e.flags Flags.cow = true := hcow.resolve_right htype
    refine ⟨hl', fun q f hf => ?_, fun q f hf hw => ?_⟩
    · by_cases hq : slot q = slot p
      · rw [memPt_slot hq, he] at hf
        cases hf
        refine ⟨_, (hr.entry q).trans (if_pos hq), fun k hk => ?_⟩
        rw [hr.bytes, Function.update_self, Nat.zero_add]
        exact if_pos hk
      · refine ⟨f, by rw [hr.entry, if_neg hq, hf], fun k _ => ?_⟩
        rw [hr.bytes, Function.update_of_ne (Nat.ne_of_lt (hl _ f hf))]
    have hq : slot q ≠ slot p := by
      intro hs
      rw [memPt_slot hs, he] at hf
      cases hf
      rw [Flags.not_cow_of_writable hw] at hc
      cases hc
    rw [hr.entry, if_neg hq, hf]

theorem PageStep.others {phase : PtrPhase} (h : PageStep v v' p type phase) (hq : slot q ≠ slot p) :
    memPt v'.mem q = memPt v.mem q := by
  cases h with
  | same hu => exact hu.entry q
  | grown _ _ _ hr | materialised _ _ _ _ hr | copied _ _ _ _ hr => rw [hr.entry, if_neg hq]

theorem calm_memPtrStep (hl : Live v) (limit : Option Nat) (c : PtrCall) (haddr : c.addr < wordMod)
    (htype : c.type ≠ .writePtrace) : Calm v (memPtrStep v limit c).1 :=
  (pageStep_memPtrStep c haddr).calm hl ((sound_memPtrStep hl limit c haddr).live hl) htype

theorem Calm.nofault {addr : Nat} {ptr : HostPtr} (h : Calm v v')
    (hptr : memPtrNofault v.mem addr .write = some ptr) :
    memPtrNofault v'.mem addr .write = some ptr := by
  rw [memPtrNofault_eq_some] at hptr ⊢
  obtain ⟨e, he, hp, hw⟩ := hptr
  exact ⟨e, h.writable _ e he (hw rfl), hp, hw⟩

end Steps

/-! ## A walk ends -/

theorem left_memPtrStep (v : Vm) (limit : Option Nat) (c : PtrCall) :
    (memPtrStep v limit c).2.phase.left < c.phase.left ∨
      ∃ ptr, (memPtrStep v limit c).2.phase = .done ptr := by
  unfold memPtrStep
  dsimp only
  cases hph : c.phase with
  | lookup =>
    left
    dsimp only [lookupPhase]
    split_ifs <;> decide
  | grow =>
    left
    dsimp only
    split_ifs
    · exact Nat.lt_succ_self 3
    · exact Nat.lt_of_sub_eq_succ (show 4 - 1 = 3 from rfl)
  | materialise =>
    left
    dsimp only
    split_ifs
    · exact Nat.lt_succ_self 3
    · exact Nat.lt_of_sub_eq_succ (show 4 - 1 = 3 from rfl)
  | haveEntry =>
    left
    dsimp only [haveEntryPhase]
    split
    · decide
    · split_ifs <;> decide
  | breakCow =>
    left
    dsimp only
    split_ifs <;> decide
  | resolve => exact .inr ⟨_, rfl⟩
  | done ptr => exact .inr ⟨ptr, hph⟩

theorem left_pos (ph : PtrPhase) : 0 < ph.left := by
  cases ph <;> exact Nat.succ_pos _

theorem left_missNext (inJit : Bool) (limit : Option Nat) (s : TlbState) (h : s.phase ≠ .idle) :
    (missNext inJit limit s).phase.left < s.phase.left := by
  obtain ⟨v, b, ph⟩ := s
  cases ph with
  | idle => exact absurd rfl h
  | load addr type attempt =>
    show 7 * (8 - attempt) + 4 + 5 < 7 * (8 - attempt) + 10
    omega
  | walk addr type attempt gen call =>
    have hpos := left_pos call.phase
    simp only [missNext]
    split
    case h_1 ptr hp =>
      show 7 * (8 - attempt) + 4 < 7 * (8 - attempt) + 4 + call.phase.left
      omega
    case h_2 hp =>
      show 7 * (8 - attempt) + 4 + _ < 7 * (8 - attempt) + 4 + call.phase.left
      rcases left_memPtrStep v limit call with hlt | ⟨ptr, hdone⟩
      · omega
      · exact absurd hdone (hp ptr)
  | reload addr type attempt gen ptr =>
    simp only [missNext]
    split_ifs with h1 h2
    · show 2 < 7 * (8 - attempt) + 4
      omega
    · show 3 < 7 * (8 - attempt) + 4
      omega
    · show 7 * (8 - (attempt + 1)) + 10 < 7 * (8 - attempt) + 4
      omega
  | giveUp addr type ptr => exact Nat.lt_succ_self 2
  | tag addr type gen ptr =>
    cases ptr with
    | none => exact Nat.zero_lt_two
    | some q => exact Nat.lt_succ_self 1
  | fill addr type gen ptr writable => exact Nat.lt_succ_self 0

/-! ## What it returns -/

def Missing (addr : Nat) (m : Mem) : TlbPhase → Prop
  | .idle => False
  | .load a type _ => a = addr ∧ type = .write
  | .walk a type _ _ call =>
    a = addr ∧ type = .write ∧ call.addr = tlbPage addr ∧ call.type = .write ∧
      ∀ ptr, call.phase ≠ .done ptr
  | .reload a type _ _ ptr | .giveUp a type ptr | .tag a type _ ptr =>
    a = addr ∧ type = .write ∧ ∀ q, ptr = some q → memPtrNofault m (tlbPage addr) .write = some q
  | .fill a type _ ptr _ =>
    a = addr ∧ type = .write ∧ memPtrNofault m (tlbPage addr) .write = some ptr

section Miss

variable {addr : Nat} {inJit : Bool} {limit : Option Nat} {s : TlbState}

theorem nofault_offset {m : Mem} {ptr : HostPtr} {type : AccessType}
    (h : memPtrNofault m (tlbPage addr) type = some ptr) :
    memPtrNofault m addr type = some ⟨ptr.data, ptr.offset + pgOffset addr⟩ := by
  rw [memPtrNofault_eq_some] at h ⊢
  obtain ⟨e, he, hp, hw⟩ := h
  rw [page_tlbPage] at he
  rw [pgOffset_tlbPage, Nat.add_zero] at hp
  exact ⟨e, he, by rw [hp], hw⟩

theorem tlbPage_lt (haddr : addr < wordMod) : tlbPage addr < wordMod :=
  Nat.lt_of_le_of_lt (Nat.sub_le _ _) haddr

structure CalmAt (addr : Nat) (v v' : Vm) : Prop where
  calm : Calm v v'
  others : ∀ q, slot q ≠ slot (page addr) → memPt v'.mem q = memPt v.mem q

theorem CalmAt.refl {v : Vm} (hl : Live v) : CalmAt addr v v := ⟨.refl hl, fun _ _ => rfl⟩

theorem CalmAt.trans {v₁ v₂ v₃ : Vm} (h₁ : CalmAt addr v₁ v₂) (h₂ : CalmAt addr v₂ v₃) :
    CalmAt addr v₁ v₃ :=
  ⟨h₁.calm.trans h₂.calm, fun q hq => (h₂.others q hq).trans (h₁.others q hq)⟩

theorem calmAt_missNext (hl : Live s.vm) (haddr : addr < wordMod)
    (hmiss : Missing addr s.vm.mem s.phase) : CalmAt addr s.vm (missNext inJit limit s).vm := by
  obtain ⟨v, b, ph⟩ := s
  cases ph with
  | idle => exact hmiss.elim
  | load a type attempt => exact .refl hl
  | walk a type attempt gen call =>
    obtain ⟨rfl, rfl, hca, hct, _⟩ := hmiss
    have hlt : call.addr < wordMod := by
      rw [hca]
      exact tlbPage_lt haddr
    refine ⟨calm_memPtrStep hl limit call hlt ?_, fun q hq => ?_⟩
    · rw [hct]
      decide
    refine (pageStep_memPtrStep call hlt).others ?_
    rw [hca, page_tlbPage]
    exact hq
  | reload a type attempt gen ptr => exact .refl hl
  | giveUp a type ptr => exact .refl hl
  | tag a type gen ptr =>
    cases ptr with
    | none => exact .refl hl
    | some q => exact .refl hl
  | fill a type gen ptr writable => exact .refl hl

theorem missing_missNext (hmiss : Missing addr s.vm.mem s.phase)
    (htag : ∀ a type gen, s.phase ≠ .tag a type gen none)
    (hfill : ∀ a type gen ptr w, s.phase ≠ .fill a type gen ptr w) :
    Missing addr (missNext inJit limit s).vm.mem (missNext inJit limit s).phase := by
  obtain ⟨v, b, ph⟩ := s
  cases ph with
  | idle => exact hmiss.elim
  | load a type attempt =>
    obtain ⟨rfl, rfl⟩ := hmiss
    exact ⟨rfl, rfl, rfl, rfl, fun ptr h => by cases h⟩
  | walk a type attempt gen call =>
    obtain ⟨rfl, rfl, hca, hct, hdone⟩ := hmiss
    show Missing a (memPtrStep v limit call).1.mem _
    simp only [missNext]
    split
    case h_1 ptr hp =>
      refine ⟨rfl, rfl, ?_⟩
      rintro q rfl
      obtain ⟨hv, hq⟩ := memPtrStep_done hdone hp
      rw [hca, hct] at hq
      rw [hv]
      exact hq
    case h_2 hp =>
      have hcall := memPtrStep_call v limit call
      exact ⟨rfl, rfl, hcall.1.trans hca, hcall.2.trans hct, hp⟩
  | reload a type attempt gen ptr =>
    show Missing addr v.mem _
    simp only [missNext]
    split_ifs
    · exact hmiss
    · exact hmiss
    · exact ⟨hmiss.1, hmiss.2.1⟩
  | giveUp a type ptr => exact hmiss
  | tag a type gen ptr =>
    cases ptr with
    | none => exact absurd rfl (htag a type gen)
    | some q => exact ⟨hmiss.1, hmiss.2.1, hmiss.2.2 q rfl⟩
  | fill a type gen ptr w => exact absurd rfl (hfill a type gen ptr w)

structure Settled (addr : Nat) (s : TlbState) (r : TlbState × Option HostPtr) : Prop where
  idle : r.1.phase = .idle
  calmAt : CalmAt addr s.vm r.1.vm
  ptr : ∀ q, r.2 = some q → memPtrNofault r.1.vm.mem addr .write = some q

theorem settled_settle (inJit : Bool) (limit : Option Nat) (haddr : addr < wordMod) (n : Nat)
    (hl : Live s.vm) (hmiss : Missing addr s.vm.mem s.phase) (hn : s.phase.left ≤ n) :
    Settled addr s (settle inJit limit n s) := by
  induction n generalizing s with
  | zero =>
    exfalso
    have hbusy : s.phase ≠ .idle := by
      intro h
      rw [h] at hmiss
      exact hmiss
    have := left_missNext inJit limit s hbusy
    omega
  | succ n ih =>
    have hcalm : CalmAt addr s.vm (missNext inJit limit s).vm := calmAt_missNext hl haddr hmiss
    unfold settle
    split
    case h_1 a type gen hph =>
      refine ⟨?_, hcalm, fun q hq => by cases hq⟩
      unfold missNext
      rw [hph]
    case h_2 a type gen ptr w hph =>
      rw [hph] at hmiss
      obtain ⟨rfl, rfl, hptr⟩ := hmiss
      have hidle : (missNext inJit limit s).phase = .idle := by
        unfold missNext
        rw [hph]
      have hvm : (missNext inJit limit s).vm = s.vm := by
        unfold missNext
        rw [hph]
      refine ⟨hidle, hcalm, ?_⟩
      rintro q hq
      cases hq
      rw [hvm]
      exact nofault_offset hptr
    case h_3 htag hfill =>
      have hbusy : s.phase ≠ .idle := by
        intro h
        rw [h] at hmiss
        exact hmiss
      have hlt := left_missNext inJit limit s hbusy
      have hrest := ih hcalm.calm.live (missing_missNext hmiss htag hfill) (by omega)
      exact ⟨hrest.idle, hcalm.trans hrest.calmAt, hrest.ptr⟩

theorem tlbWritePtr_miss (haddr : addr < wordMod) (hidle : s.phase = .idle) (hl : Live s.vm)
    (hmiss : tlbHit s addr .write = none) : Settled addr s (tlbWritePtr inJit limit addr s) := by
  have hstep : access addr .write s = { s with phase := .load addr .write 0 } := by
    unfold access
    rw [hidle]
    dsimp only
    rw [hmiss]
  unfold tlbWritePtr
  rw [hmiss]
  dsimp only
  rw [hstep]
  have hend := settled_settle (s := { s with phase := .load addr .write 0 }) inJit limit haddr _ hl
    ⟨rfl, rfl⟩ (Nat.le_refl _)
  exact ⟨hend.idle, hend.calmAt, hend.ptr⟩

structure Hit (ptr : HostPtr) (s : TlbState) (r : TlbState × Option HostPtr) : Prop where
  idle : r.1.phase = .idle
  vm : r.1.vm = s.vm
  hits : ∀ a, tlbHit r.1 a .write = tlbHit s a .write
  ptr : r.2 = some ptr

theorem tlbWritePtr_hit (hidle : s.phase = .idle) {ptr : HostPtr}
    (hhit : tlbHit s addr .write = some ptr) : Hit ptr s (tlbWritePtr inJit limit addr s) := by
  have hstep : access addr .write s =
      { s with tlb := { s.tlb with dirtyPage := some (tlbPage addr) } } := by
    unfold access
    rw [hidle]
    dsimp only
    rw [hhit]
    dsimp only
    rw [if_neg (by decide)]
  unfold tlbWritePtr
  rw [hhit]
  dsimp only
  rw [hstep]
  exact ⟨hidle, rfl, fun _ => rfl, rfl⟩

/-- The entry that is hit, if any, agrees with the page table. -/
def HitBacked (addr : Nat) (s : TlbState) : Prop :=
  ∀ ptr, tlbHit s addr .write = some ptr → memPtrNofault s.vm.mem addr .write = some ptr

structure Translated (addr : Nat) (s : TlbState) (r : TlbState × Option HostPtr) : Prop where
  idle : r.1.phase = .idle
  calmAt : CalmAt addr s.vm r.1.vm
  ptr : ∀ q, r.2 = some q → (memPtrNofault r.1.vm.mem addr .write = some q ↔ HitBacked addr s)

theorem tlbWritePtr_spec (haddr : addr < wordMod) (hidle : s.phase = .idle) (hl : Live s.vm) :
    Translated addr s (tlbWritePtr inJit limit addr s) := by
  cases hh : tlbHit s addr .write with
  | none =>
    have hend : Settled addr s (tlbWritePtr inJit limit addr s) :=
      tlbWritePtr_miss haddr hidle hl hh
    refine ⟨hend.idle, hend.calmAt, fun q hq => ⟨fun _ ptr hptr => ?_, fun _ => hend.ptr q hq⟩⟩
    rw [hh] at hptr
    cases hptr
  | some ptr =>
    have hend : Hit ptr s (tlbWritePtr inJit limit addr s) := tlbWritePtr_hit hidle hh
    refine ⟨hend.idle, ?_, fun q hq => ?_⟩
    · rw [hend.vm]
      exact .refl hl
    cases hend.ptr.symm.trans hq
    rw [hend.vm]
    refine ⟨fun hback p hp => ?_, fun hback => hback ptr hh⟩
    cases hh.symm.trans hp
    exact hback

end Miss

end IosLinuxkit.Kernel
