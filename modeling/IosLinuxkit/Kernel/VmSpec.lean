import IosLinuxkit.Kernel.MemPtr
import Mathlib.Algebra.Order.Group.Int

/-!
# What the `pt_*` operations can do to an address space

Every result about address spaces rests on three facts about each operation, proved here
once and composed by transitivity.

* **`Extends`** — an entry of the new table either was in the old one with the same
  backing and has not lost `P_COW`, or is backed by a `struct data` that did not exist
  before; bytes of existing objects are unchanged. Distinct slots never get overlapping
  fresh backing.
* **`Coherent`** — `mmu.changes` never decreases, and while it stays the same every mapped
  page keeps its backing. This is what the generation check of a cached host pointer
  relies on.
* **`Balanced`** — `anon_page_count` minus the number of charged entries is unchanged.
-/

namespace IosLinuxkit.Kernel

/-! ## Flag algebra -/

namespace Flags

theorem any_or (a b m : Flags) : any (a ||| b) m = (any a m || any b m) := by
  unfold any
  rw [BitVec.and_or_distrib_right, Bool.eq_iff_iff]
  simp only [bne_iff_ne, ne_eq, Bool.or_eq_true, BitVec.or_eq_zero_iff]
  tauto

theorem any_and (a k m : Flags) : any (a &&& k) m = any a (k &&& m) := by
  unfold any
  rw [BitVec.and_assoc]

theorem charged_or_cow (f : Flags) : charged (f ||| cow) = charged f := by
  have h1 : any cow anonymous = false := by decide
  have h2 : any cow rwx = false := by decide
  simp [charged, any_or, h1, h2]

theorem cow_or_cow (f : Flags) : any (f ||| cow) cow = true := by
  have h : any cow cow = true := by decide
  simp [any_or, h]

theorem cow_newFlags {flags old : Flags} (h : any old cow = true) :
    any (newFlags flags old) cow = true := by
  have hmeta : metaFlags &&& cow = cow := by decide
  rw [newFlags, any_or, any_and, hmeta, h, Bool.or_true]

theorem not_cow_copyFlags (type : AccessType) (f : Flags) : any (copyFlags type f) cow = false := by
  have hclear : any (f &&& ~~~cow) cow = false := by
    have hz : any f (~~~cow &&& cow) = false := by
      rw [show ~~~cow &&& cow = (0#32) from by decide]
      simp [any]
    rw [any_and, hz]
  unfold copyFlags
  split
  · rw [any_or, hclear]; decide
  · exact hclear

theorem not_cow_of_writable {f : Flags} (h : writable f = true) : any f cow = false := by
  simp only [writable, Bool.and_eq_true, Bool.not_eq_true'] at h
  exact h.2

end Flags

/-! ## Host bookkeeping touches neither bytes nor identities -/

section HostFrame

variable (h : Host) (d : Nat) (k : Int)

@[simp] theorem attempt_bytes : h.attempt.2.bytes = h.bytes := by
  unfold Host.attempt; split <;> rfl

@[simp] theorem attempt_nextData : h.attempt.2.nextData = h.nextData := by
  unfold Host.attempt; split <;> rfl

@[simp] theorem attempt_anonPageCount : h.attempt.2.anonPageCount = h.anonPageCount := by
  unfold Host.attempt; split <;> rfl

@[simp] theorem dropData_bytes : (h.dropData d).bytes = h.bytes := by
  unfold Host.dropData; split
  · rfl
  · split <;> rfl

@[simp] theorem dropData_nextData : (h.dropData d).nextData = h.nextData := by
  unfold Host.dropData; split
  · rfl
  · split <;> rfl

@[simp] theorem dropData_anonPageCount : (h.dropData d).anonPageCount = h.anonPageCount := by
  unfold Host.dropData; split
  · rfl
  · split <;> rfl

@[simp] theorem retainData_bytes : (h.retainData d).bytes = h.bytes := by
  unfold Host.retainData; split <;> rfl

@[simp] theorem retainData_nextData : (h.retainData d).nextData = h.nextData := by
  unfold Host.retainData; split <;> rfl

@[simp] theorem retainData_anonPageCount : (h.retainData d).anonPageCount = h.anonPageCount := by
  unfold Host.retainData; split <;> rfl

@[simp] theorem addAnon_bytes : (h.addAnon k).bytes = h.bytes := rfl
@[simp] theorem addAnon_nextData : (h.addAnon k).nextData = h.nextData := rfl
@[simp] theorem addAnon_anonPageCount :
    (h.addAnon k).anonPageCount = h.anonPageCount + k := rfl

@[simp] theorem changed_pt (m : Mem) : m.changed.pt = m.pt := rfl
@[simp] theorem changed_changes (m : Mem) : m.changed.changes = m.changes + 1 := rfl
@[simp] theorem raiseHint_pt (m : Mem) (start pages : Nat) :
    (m.raiseHint start pages).pt = m.pt := rfl
@[simp] theorem raiseHint_changes (m : Mem) (start pages : Nat) :
    (m.raiseHint start pages).changes = m.changes := rfl
@[simp] theorem setEntry_pt (m : Mem) (p : Nat) (e : PtEntry) :
    (m.setEntry p e).pt = m.pt.insert (slot p) e := rfl
@[simp] theorem setEntry_changes (m : Mem) (p : Nat) (e : PtEntry) :
    (m.setEntry p e).changes = m.changes := rfl

end HostFrame

theorem anonPagesReserve_some {h h' : Host} {k : Int} (hr : anonPagesReserve h k = some h') :
    h' = h.addAnon k ∧ k ≤ anonMmapLimitPages := by
  unfold anonPagesReserve at hr
  split at hr
  · cases hr
  · rename_i hle
    rw [not_or] at hle
    exact ⟨(Option.some.inj hr).symm, by omega⟩

/-! ## The three relations -/

/-- Two entries whose pages of backing have a byte in common. -/
def Overlap (e e' : PtEntry) : Prop :=
  e.data = e'.data ∧ e.offset < e'.offset + pageSize ∧ e'.offset < e.offset + pageSize

def Kept (e e' : PtEntry) : Prop :=
  e'.data = e.data ∧ e'.offset = e.offset ∧
    (Flags.any e.flags Flags.cow = true → Flags.any e'.flags Flags.cow = true)

theorem Kept.refl (e : PtEntry) : Kept e e := ⟨rfl, rfl, id⟩

theorem Kept.trans {e₁ e₂ e₃ : PtEntry} (h₁ : Kept e₁ e₂) (h₂ : Kept e₂ e₃) : Kept e₁ e₃ :=
  ⟨h₂.1.trans h₁.1, h₂.2.1.trans h₁.2.1, fun h => h₂.2.2 (h₁.2.2 h)⟩

theorem Overlap.of_kept {e f e' f' : PtEntry} (h : Overlap e' f') (he : Kept e e')
    (hf : Kept f f') : Overlap e f := by
  obtain ⟨hd, h1, h2⟩ := h
  rw [he.1, hf.1] at hd
  rw [he.2.1, hf.2.1] at h1 h2
  exact ⟨hd, h1, h2⟩

def Live (v : Vm) : Prop :=
  ∀ s e, v.mem.pt.lookup s = some e → e.data < v.host.nextData

structure Extends (v v' : Vm) : Prop where
  next_le : v.host.nextData ≤ v'.host.nextData
  bytes_old : ∀ d, d < v.host.nextData → v'.host.bytes d = v.host.bytes d
  entry : ∀ s e', v'.mem.pt.lookup s = some e' → (∃ e, v.mem.pt.lookup s = some e ∧ Kept e e') ∨
      (v.host.nextData ≤ e'.data ∧ e'.data < v'.host.nextData)
  fresh_sep : ∀ s t e f, v'.mem.pt.lookup s = some e → v'.mem.pt.lookup t = some f →
    v.host.nextData ≤ e.data → Overlap e f → s = t

variable {v v' v₁ v₂ v₃ : Vm}

theorem Extends.live (h : Extends v v') (hl : Live v) : Live v' := by
  intro s e' he'
  rcases h.entry s e' he' with ⟨e, he, hk⟩ | hfresh
  · have := hl s e he
    have := h.next_le
    rw [hk.1]
    omega
  · exact hfresh.2

/-- Unmapping operations and host bookkeeping: entries only disappear. -/
structure Shrinks (v v' : Vm) : Prop where
  next_eq : v'.host.nextData = v.host.nextData
  bytes_eq : v'.host.bytes = v.host.bytes
  entry : ∀ s e, v'.mem.pt.lookup s = some e → v.mem.pt.lookup s = some e

theorem Shrinks.refl (v : Vm) : Shrinks v v := ⟨rfl, rfl, fun _ _ h => h⟩

theorem Shrinks.trans (h₁ : Shrinks v₁ v₂) (h₂ : Shrinks v₂ v₃) : Shrinks v₁ v₃ :=
  ⟨h₂.next_eq.trans h₁.next_eq, h₂.bytes_eq.trans h₁.bytes_eq,
    fun s e h => h₁.entry s e (h₂.entry s e h)⟩

theorem Shrinks.extends (h : Shrinks v v') (hl : Live v) : Extends v v' where
  next_le := h.next_eq.ge
  bytes_old := fun d _ => by rw [h.bytes_eq]
  entry := fun s e' he' => Or.inl ⟨e', h.entry s e' he', Kept.refl e'⟩
  fresh_sep := by
    intro s t e f he _ hge _
    have := hl s e (h.entry s e he)
    omega

theorem Extends.refl (hl : Live v) : Extends v v := (Shrinks.refl v).extends hl

theorem Extends.trans (h₁ : Extends v₁ v₂) (h₂ : Extends v₂ v₃) : Extends v₁ v₃ where
  next_le := h₁.next_le.trans h₂.next_le
  bytes_old := fun d hd => by
    rw [h₂.bytes_old d (lt_of_lt_of_le hd h₁.next_le), h₁.bytes_old d hd]
  entry := by
    intro s e₃ he₃
    rcases h₂.entry s e₃ he₃ with ⟨e₂, he₂, hk₂⟩ | ⟨hge, hlt⟩
    · rcases h₁.entry s e₂ he₂ with ⟨e₁, he₁, hk₁⟩ | ⟨hge, hlt⟩
      · exact Or.inl ⟨e₁, he₁, hk₁.trans hk₂⟩
      have := h₂.next_le
      rw [← hk₂.1] at hge hlt
      exact Or.inr ⟨hge, by omega⟩
    · have := h₁.next_le
      exact Or.inr ⟨by omega, hlt⟩
  fresh_sep := by
    intro s t e f he hf hge hov
    by_cases hnew : v₂.host.nextData ≤ e.data
    · exact h₂.fresh_sep s t e f he hf hnew hov
    · -- both entries were already there after the first half
      have hdata : e.data = f.data := hov.1
      rcases h₂.entry s e he with ⟨e₂, he₂, hke⟩ | hfresh
      · rcases h₂.entry t f hf with ⟨f₂, hf₂, hkf⟩ | hfresh
        · have hge₂ : v₁.host.nextData ≤ e₂.data := by rw [← hke.1]; exact hge
          exact h₁.fresh_sep s t e₂ f₂ he₂ hf₂ hge₂ (hov.of_kept hke hkf)
        · exact absurd hfresh.1 (by omega)
      · exact absurd hfresh.1 hnew

def Coherent (m m' : Mem) : Prop :=
  m.changes ≤ m'.changes ∧ (m'.changes = m.changes → ∀ s e, m.pt.lookup s = some e →
      ∃ e', m'.pt.lookup s = some e' ∧ e'.data = e.data ∧ e'.offset = e.offset)

theorem Coherent.refl (m : Mem) : Coherent m m :=
  ⟨le_refl _, fun _ _ e h => ⟨e, h, rfl, rfl⟩⟩

theorem Coherent.of_lt {m m' : Mem} (h : m.changes < m'.changes) : Coherent m m' :=
  ⟨h.le, fun heq => absurd heq h.ne'⟩

theorem Coherent.of_pt_eq {m m' : Mem} (hpt : m'.pt = m.pt) (hc : m.changes ≤ m'.changes) :
    Coherent m m' :=
  ⟨hc, fun _ _ e h => ⟨e, by rw [hpt]; exact h, rfl, rfl⟩⟩

theorem Coherent.trans {m₁ m₂ m₃ : Mem} (h₁ : Coherent m₁ m₂) (h₂ : Coherent m₂ m₃) :
    Coherent m₁ m₃ := by
  refine ⟨h₁.1.trans h₂.1, fun heq s e he => ?_⟩
  have hle₁ := h₁.1
  have hle₂ := h₂.1
  obtain ⟨e₂, he₂, hd₂, ho₂⟩ := h₁.2 (by omega) s e he
  obtain ⟨e₃, he₃, hd₃, ho₃⟩ := h₂.2 (by omega) s e₂ he₂
  exact ⟨e₃, he₃, hd₃.trans hd₂, ho₃.trans ho₂⟩

def charge (e : PtEntry) : Int := boolToInt (Flags.charged e.flags)

/-- The number of charged entries of one address space. -/
def chargedPages (m : Mem) : Int := Assoc.sumBy charge m.pt

def balance (v : Vm) : Int := v.host.anonPageCount - chargedPages v.mem

def Balanced (v v' : Vm) : Prop := balance v' = balance v

theorem Balanced.trans (h₁ : Balanced v₁ v₂) (h₂ : Balanced v₂ v₃) :
    Balanced v₁ v₃ := Eq.trans h₂ h₁

theorem Balanced.of_eq (hpt : v'.mem.pt = v.mem.pt)
    (hc : v'.host.anonPageCount = v.host.anonPageCount) : Balanced v v' := by
  simp [Balanced, balance, chargedPages, hpt, hc]

structure Sound (v v' : Vm) : Prop where
  ext : Extends v v'
  coh : Coherent v.mem v'.mem
  bal : Balanced v v'

theorem Sound.refl (hl : Live v) : Sound v v :=
  ⟨Extends.refl hl, Coherent.refl _, rfl⟩

theorem Sound.trans (h₁ : Sound v₁ v₂) (h₂ : Sound v₂ v₃) : Sound v₁ v₃ :=
  ⟨h₁.ext.trans h₂.ext, h₁.coh.trans h₂.coh, h₁.bal.trans h₂.bal⟩

theorem Sound.live (h : Sound v v') (hl : Live v) : Live v' := h.ext.live hl

end IosLinuxkit.Kernel
