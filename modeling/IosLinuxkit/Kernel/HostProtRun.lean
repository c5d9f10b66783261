import IosLinuxkit.Kernel.HostProt
import IosLinuxkit.Kernel.RangeFrame

/-!
# The host allows what the page tables allow

* **`hostProtection_run`** — a run of steps that keep it never loses a right that the page tables give.
-/

namespace IosLinuxkit.HostProt

open Kernel

variable {mc : Machine} {st : HostMem} {v v' : Vm} {m : Mem} {e e' f : PtEntry} {flags : Flags}
  {a d start pages p : Nat} {s : Slot} {prot : HostPage → Prot} {vdso : Nat → Bool}

/-! ## Flags -/

structure Weaker (new old : Flags) : Prop where
  read : Flags.any new Flags.read = true → Flags.any old Flags.read = true
  write : Flags.writable new = true → Flags.writable old = true

theorem Weaker.refl (x : Flags) : Weaker x x := ⟨id, id⟩

theorem Weaker.trans {x y z : Flags} (h₁ : Weaker x y) (h₂ : Weaker y z) : Weaker x z :=
  ⟨fun h => h₂.read (h₁.read h), fun h => h₂.write (h₁.write h)⟩

theorem weaker_sharedFlags (old : Flags) : Weaker (sharedFlags old) old := by
  unfold sharedFlags
  split
  · exact Weaker.refl old
  have hread : Flags.any Flags.cow Flags.read = false := by decide
  refine ⟨fun h => ?_, fun h => ?_⟩
  · rwa [Flags.any_or, hread, Bool.or_false] at h
  have hcow := Flags.not_cow_of_writable h
  rw [Flags.cow_or_cow] at hcow
  cases hcow

theorem Grants.weaker {q : Prot} {new old : Flags} (h : Grants q old) (hw : Weaker new old) :
    Grants q new :=
  ⟨fun hr => h.read (hw.read hr), fun hr => h.write (hw.write hr)⟩

theorem read_newFlags (flags old : Flags) :
    Flags.any (newFlags flags old) Flags.read = Flags.any flags Flags.read := by
  have hmeta : Flags.any old (Flags.metaFlags &&& Flags.read) = false := by
    rw [show Flags.metaFlags &&& Flags.read = (0#32) by decide]
    simp [Flags.any]
  rw [newFlags, Flags.any_or, Flags.any_and, hmeta, Bool.or_false]

theorem write_newFlags (flags old : Flags) :
    Flags.any (newFlags flags old) Flags.write = Flags.any flags Flags.write := by
  have hmeta : Flags.any old (Flags.metaFlags &&& Flags.write) = false := by
    rw [show Flags.metaFlags &&& Flags.write = (0#32) by decide]
    simp [Flags.any]
  rw [newFlags, Flags.any_or, Flags.any_and, hmeta, Bool.or_false]

/-! ## One address space -/

/-- An entry of the new table was there, with no right less, or it is one of the next object. -/
structure Lowers (v v' : Vm) (flags : Flags) : Prop where
  next_le : v.host.nextData ≤ v'.host.nextData
  entry : ∀ s e', v'.mem.pt.lookup s = some e' →
    (∃ e, v.mem.pt.lookup s = some e ∧ e'.data = e.data ∧ e'.offset = e.offset ∧ Weaker e'.flags e.flags) ∨
      (e'.data = v.host.nextData ∧ v.host.nextData < v'.host.nextData ∧ e'.flags = flags)

/-- An entry of the new table was there, or it is one of the next object. -/
structure Adds (v v' : Vm) (flags : Flags) : Prop where
  next_le : v.host.nextData ≤ v'.host.nextData
  entry : ∀ s e', v'.mem.pt.lookup s = some e' → v.mem.pt.lookup s = some e' ∨
    (e'.data = v.host.nextData ∧ v.host.nextData < v'.host.nextData ∧ e'.flags = flags)

theorem Adds.lowers (h : Adds v v' flags) : Lowers v v' flags :=
  ⟨h.next_le, fun s e' he => (h.entry s e' he).imp_left fun hold => ⟨e', hold, rfl, rfl, Weaker.refl _⟩⟩

theorem Adds.of_shrinks (h : Shrinks v v') : Adds v v' flags :=
  ⟨Nat.le_of_eq h.next_eq.symm, fun s e' he => .inl (h.entry s e' he)⟩

theorem Adds.host {w w' : Vm} (h : Adds v v' flags) (hpt : w.mem.pt = v.mem.pt)
    (hnext : w.host.nextData = v.host.nextData) (hpt' : w'.mem.pt = v'.mem.pt)
    (hnext' : w'.host.nextData = v'.host.nextData) : Adds w w' flags := by
  refine ⟨by rw [hnext, hnext']; exact h.next_le, fun s e' he => ?_⟩
  rw [hpt, hnext, hnext']
  exact h.entry s e' (hpt' ▸ he)

theorem next_mapPages (d start offset : Nat) (flags : Flags) (ps : List Nat) (v : Vm) :
    (mapPages d start offset flags ps v).host.nextData = v.host.nextData := by
  induction ps generalizing v with
  | nil => rfl
  | cons p rest ih =>
    have hone : (mapPage d start offset flags v p).host.nextData = v.host.nextData := by
      unfold mapPage
      rw [retainData_nextData]
      exact (shrinks_clearPage v p).next_eq
    exact (ih _).trans hone

theorem entry_mapPages (d start offset : Nat) (flags : Flags) (ps : List Nat) (v : Vm)
    (he : (mapPages d start offset flags ps v).mem.pt.lookup s = some e) :
    v.mem.pt.lookup s = some e ∨ (e.data = d ∧ e.flags = flags) := by
  induction ps generalizing v with
  | nil => exact .inl he
  | cons p rest ih =>
    rcases ih (mapPage d start offset flags v p) he with hone | hnew
    · have hpt : (mapPage d start offset flags v p).mem.pt = (clearPage v p).mem.pt.insert (slot p) _ := rfl
      rw [hpt] at hone
      rcases Assoc.lookup_insert_some hone with ⟨_, rfl⟩ | ⟨_, hold⟩
      · exact .inr ⟨rfl, rfl⟩
      · exact .inl ((shrinks_clearPage v p).entry s e hold)
    · exact .inr hnew

theorem adds_mapPages (h : Host) (m : Mem) (start size offset : Nat) (contents : Nat → UInt8)
    (flags : Flags) (ps : List Nat) :
    Adds ⟨h, m⟩ (mapPages h.nextData start offset flags ps ⟨h.newData size contents, m⟩) flags := by
  have hnext : (mapPages h.nextData start offset flags ps ⟨h.newData size contents, m⟩).host.nextData =
      h.nextData + 1 := next_mapPages _ _ _ _ _ _
  refine ⟨by rw [hnext]; exact Nat.le_succ _, fun s e' he => ?_⟩
  rcases entry_mapPages _ _ _ _ _ _ he with hold | ⟨hd, hf⟩
  · exact .inl hold
  · exact .inr ⟨hd, by rw [hnext]; exact Nat.lt_succ_self _, hf⟩

theorem adds_ptMapAccounted (v : Vm) (start pages : Nat) (memory : Option (Nat → UInt8)) (offset : Nat)
    (flags : Flags) (precharged : Bool) :
    Adds v (ptMapAccounted v start pages memory offset flags precharged).2 flags := by
  unfold ptMapAccounted
  split
  · exact Adds.of_shrinks (Shrinks.refl v)
  case h_2 contents =>
    dsimp only
    split
    case isFalse =>
      exact Adds.of_shrinks (Shrinks.of_sameHost (sameHost_attempt v.host) rfl)
    case isTrue =>
      have hmap := adds_mapPages v.host.attempt.2 v.mem start ((pages * pageSize + offset) % wordMod) offset
        contents flags (pageRange start pages)
      refine hmap.host rfl (attempt_nextData v.host).symm rfl ?_
      dsimp only
      split <;> rfl

theorem adds_mapRegion (v : Vm) (start pages : Nat) (contents : Nat → UInt8) (flags : Flags)
    (precharged : Bool) : Adds v (mapRegion v start pages contents flags precharged).2 flags := by
  unfold mapRegion
  dsimp only
  split
  · exact (adds_ptMapAccounted { v with host := v.host.attempt.2 } start pages (some contents) 0 flags
      precharged).host rfl (attempt_nextData v.host).symm rfl rfl
  · exact Adds.of_shrinks (Shrinks.of_sameHost (sameHost_attempt v.host) rfl)

theorem adds_refundIf {r : Int × Vm} (h : Adds v r.2 flags) (c : Bool) (k : Int) :
    Adds v (refundIf r c k).2 flags := by
  unfold refundIf
  split
  · exact h.host rfl rfl rfl rfl
  · exact h

theorem adds_charged {h : Host} {c : Bool} {k : Int} (hr : reserveIf v.host c k = some h) (start pages : Nat)
    (contents : Nat → UInt8) (flags : Flags) (precharged : Bool) :
    Adds v (refundIf (mapRegion { v with host := h } start pages contents flags precharged) c k).2 flags := by
  have hnext : h.nextData = v.host.nextData := by
    unfold reserveIf at hr
    split at hr
    · rw [(anonPagesReserve_some hr).1, addAnon_nextData]
    · cases hr
      rfl
  have hmap : Adds v (mapRegion { v with host := h } start pages contents flags precharged).2 flags :=
    (adds_mapRegion { v with host := h } start pages contents flags precharged).host rfl hnext.symm rfl rfl
  exact adds_refundIf hmap c k

theorem adds_ptMapNothing (v : Vm) (start pages : Nat) (flags : Flags) :
    Adds v (ptMapNothing v start pages flags).2 (flags ||| Flags.anonymous) := by
  unfold ptMapNothing
  split
  · exact Adds.of_shrinks (Shrinks.refl v)
  dsimp only
  split
  · exact Adds.of_shrinks (Shrinks.refl v)
  case h_2 h hr => exact adds_charged hr start pages zeroFill _ true

theorem adds_breakCow (v : Vm) (p : Nat) (type : AccessType) :
    ∃ flags, Adds v (breakCow v p type).2 flags := by
  unfold breakCow
  split
  · exact ⟨0, Adds.of_shrinks (Shrinks.refl v)⟩
  case h_2 e he =>
    split
    · dsimp only
      split
      · exact ⟨0, Adds.of_shrinks (Shrinks.refl v)⟩
      split
      · exact ⟨0, Adds.of_shrinks (Shrinks.refl v)⟩
      case h_2 h hr => exact ⟨copyFlags type e.flags, adds_charged hr p 1 _ _ _⟩
    · exact ⟨0, Adds.of_shrinks (Shrinks.refl v)⟩

/-! ## Two address spaces -/

structure Copied (c₀ c : CopyState) : Prop where
  next_eq : c.host.nextData = c₀.host.nextData
  src : ∀ s e', c.src.pt.lookup s = some e' →
    ∃ e, c₀.src.pt.lookup s = some e ∧ e'.data = e.data ∧ e'.offset = e.offset ∧ Weaker e'.flags e.flags
  dst : ∀ s e', c.dst.pt.lookup s = some e' → c₀.dst.pt.lookup s = some e' ∨
    ∃ e, c₀.src.pt.lookup s = some e ∧ e'.data = e.data ∧ e'.offset = e.offset ∧ Weaker e'.flags e.flags

theorem copied_copyPage {c₀ c : CopyState} (h : Copied c₀ c) (p : Nat) : Copied c₀ (copyPage c p) := by
  cases he : memPt c.src p with
  | none =>
    unfold copyPage
    rw [he]
    exact h
  | some e =>
    rw [copyPage_eq he]
    have hsh : Shrinks ⟨c.host, c.dst⟩ (ptUnmapAlways ⟨c.host, c.dst⟩ p 1) := shrinks_ptUnmapAlways _ p 1
    obtain ⟨e₀, he₀, hd, ho, hw⟩ := h.src (slot p) e he
    have hfrom : ∃ e₁, c₀.src.pt.lookup (slot p) = some e₁ ∧ e.data = e₁.data ∧ e.offset = e₁.offset ∧
        Weaker (sharedFlags e.flags) e₁.flags := ⟨e₀, he₀, hd, ho, (weaker_sharedFlags e.flags).trans hw⟩
    refine ⟨?_, fun s f hf => ?_, fun s f hf => ?_⟩
    · rw [retainData_nextData]
      exact hsh.next_eq.trans h.next_eq
    · rcases Assoc.lookup_insert_some hf with ⟨rfl, rfl⟩ | ⟨_, hf⟩
      · exact hfrom
      · exact h.src s f hf
    rcases Assoc.lookup_insert_some hf with ⟨rfl, rfl⟩ | ⟨_, hf⟩
    · exact .inr hfrom
    · exact h.dst s f (hsh.entry s f hf)

theorem copied_copyLoop {c₀ : CopyState} (stop fuel p : Nat) {c : CopyState} (h : Copied c₀ c) :
    Copied c₀ (copyLoop stop fuel p c) := by
  induction fuel generalizing p c with
  | zero => exact h
  | succ fuel ih =>
    unfold copyLoop
    split
    · exact ih _ (copied_copyPage h p)
    · exact h

theorem copied_ptCopyOnWrite (h : Host) (src dst : Mem) (start pages : Nat) :
    Copied ⟨h, src, dst, 0⟩ ⟨(ptCopyOnWrite h src dst start pages).1,
      (ptCopyOnWrite h src dst start pages).2.1, (ptCopyOnWrite h src dst start pages).2.2, 0⟩ := by
  have hstart : Copied ⟨h, src, dst, 0⟩ ⟨h, src, dst, 0⟩ :=
    ⟨rfl, fun _ e he => ⟨e, he, rfl, rfl, Weaker.refl _⟩, fun _ _ he => .inl he⟩
  have hloop := copied_copyLoop ((start + pages) % wordMod) ((start + pages) % wordMod - start) start hstart
  unfold ptCopyOnWrite
  dsimp only
  generalize copyLoop ((start + pages) % wordMod) ((start + pages) % wordMod - start) start
    ⟨h, src, dst, 0⟩ = c at hloop ⊢
  have hsame := sameHost_copyReservations c.src.reservations (c.host.addAnon c.anonCopied) c.dst
  obtain ⟨hpt, _⟩ := copyReservations_mem c.src.reservations (c.host.addAnon c.anonCopied) c.dst
  refine ⟨hsame.nextData.trans hloop.next_eq, hloop.src, fun s e he => hloop.dst s e ?_⟩
  rw [← hpt]
  exact he

/-! ## The loop of `pt_set_flags` -/

theorem any_of_not_new {old k l : Flags} (hg : Flags.any (flags &&& ~~~old) (k ||| l) = false)
    (h : Flags.any flags k = true) : Flags.any old k = true := by
  unfold Flags.any at hg h ⊢
  grind

theorem read_of_not_grows {old : Flags} (hg : grows flags old = false)
    (h : Flags.any flags Flags.read = true) : Flags.any old Flags.read = true :=
  any_of_not_new hg h

theorem write_of_not_grows {old : Flags} (hg : grows flags old = false)
    (h : Flags.any flags Flags.write = true) : Flags.any old Flags.write = true := by
  unfold grows at hg
  rw [BitVec.or_comm] at hg
  exact any_of_not_new hg h

theorem grows_newFlags (flags old : Flags) : grows flags (newFlags flags old) = false := by
  unfold grows newFlags Flags.any
  have hz : flags &&& ~~~(flags ||| old &&& Flags.metaFlags) = 0#32 := by grind
  rw [hz]
  rfl

theorem weaker_newFlags {old : Flags} (hg : grows flags old = false) : Weaker (newFlags flags old) old := by
  refine ⟨fun h => ?_, fun h => ?_⟩
  · rw [read_newFlags] at h
    exact read_of_not_grows hg h
  have hcow : Flags.any old Flags.cow = false := by
    cases hc : Flags.any old Flags.cow with
    | false => rfl
    | true =>
      have hnew := Flags.not_cow_of_writable h
      rw [Flags.cow_newFlags hc] at hnew
      cases hnew
  unfold Flags.writable at h ⊢
  rw [write_newFlags] at h
  rw [hcow, write_of_not_grows hg (Bool.and_eq_true_iff.mp h).1]
  rfl

theorem write_of_writable {x : Flags} (h : Flags.writable x = true) : Flags.any x Flags.write = true :=
  (Bool.and_eq_true_iff.mp h).1

/-- Where the loop is: `out` are the entries that it does not meet. A page that it will meet may have lost
the write access that its flags still have. -/
structure Pending (mc : Machine) (vdso : Nat → Bool) (flags : Flags) (out : PtEntry → Prop) (rest : List Nat)
    (m : Mem) (prot : HostPage → Prot) : Prop where
  outside : ∀ f, out f → ∀ i < pageSize, Grants (prot (hostPage mc vdso f i)) f.flags
  read : ∀ s e, m.pt.lookup s = some e → Flags.any e.flags Flags.read = true →
    ∀ i < pageSize, (prot (hostPage mc vdso e i)).read = true
  write : ∀ s e, m.pt.lookup s = some e → Flags.writable e.flags = true →
    (∀ i < pageSize, (prot (hostPage mc vdso e i)).write = true) ∨
      (s ∈ rest.map slot ∧ Flags.any flags Flags.write = false)
  place : ∀ s e, m.pt.lookup s = some e →
    out e ∨ (∃ old, e.flags = newFlags flags old) ∨ s ∈ rest.map slot
  onePage : ∀ p ∈ rest, ∀ e, memPt m p = some e → grows flags e.flags = true →
    ∀ i < pageSize, hostPage mc vdso e i = hostPage mc vdso e 0
  spared : ∀ p ∈ rest, ∀ e, memPt m p = some e → grows flags e.flags = true →
    Flags.any flags Flags.write = false → ∀ f, out f →
      ∀ i < pageSize, hostPage mc vdso f i = hostPage mc vdso e 0 → Flags.writable f.flags = false

variable {out : PtEntry → Prop} {rest : List Nat}

theorem mem_rest {q : Nat} {rest : List Nat} (hs : s ∈ (q :: rest).map slot) (hne : s ≠ slot q) :
    s ∈ rest.map slot :=
  (List.mem_cons.mp hs).resolve_left hne

theorem pending_skip (h : Pending mc vdso flags out (p :: rest) m prot) (he : memPt m p = none) :
    Pending mc vdso flags out rest m prot := by
  have hne : ∀ s e, m.pt.lookup s = some e → s ≠ slot p := by
    intro s e hs hc
    rw [hc, show m.pt.lookup (slot p) = none from he] at hs
    cases hs
  refine ⟨h.outside, h.read, fun s e hs hw => ?_, fun s e hs => ?_,
    fun q hq => h.onePage q (List.mem_cons_of_mem p hq), fun q hq => h.spared q (List.mem_cons_of_mem p hq)⟩
  · exact (h.write s e hs hw).imp_right fun hc => ⟨mem_rest hc.1 (hne s e hs), hc.2⟩
  · exact (h.place s e hs).imp_right fun hc => hc.imp_right fun hc => mem_rest hc (hne s e hs)

theorem pending_entry {prot' : HostPage → Prot} (h : Pending mc vdso flags out (p :: rest) m prot)
    (hout : ∀ f, out f → ∀ i < pageSize, Grants (prot' (hostPage mc vdso f i)) f.flags)
    (hnew : ∀ i < pageSize, Grants (prot' (hostPage mc vdso e i)) (newFlags flags e.flags))
    (hread : ∀ s f, m.pt.lookup s = some f → Flags.any f.flags Flags.read = true →
      ∀ i < pageSize, (prot' (hostPage mc vdso f i)).read = true)
    (hwrite : ∀ s f, m.pt.lookup s = some f → s ≠ slot p → Flags.writable f.flags = true →
      (∀ i < pageSize, (prot' (hostPage mc vdso f i)).write = true) ∨
        (s ∈ rest.map slot ∧ Flags.any flags Flags.write = false)) :
    Pending mc vdso flags out rest (m.setEntry p { e with flags := newFlags flags e.flags }) prot' := by
  have hgood : ∀ q ∈ rest, ∀ f, memPt (m.setEntry p { e with flags := newFlags flags e.flags }) q = some f →
      grows flags f.flags = true → memPt m q = some f := by
    intro q _ f hf hg
    rcases Assoc.lookup_insert_some hf with ⟨_, rfl⟩ | ⟨_, hf⟩
    · rw [grows_newFlags] at hg
      cases hg
    · exact hf
  refine ⟨hout, fun s f hf hr => ?_, fun s f hf hw => ?_, fun s f hf => ?_, fun q hq f hf hg => ?_,
    fun q hq f hf hg => ?_⟩
  · rcases Assoc.lookup_insert_some hf with ⟨_, rfl⟩ | ⟨_, hf⟩
    · exact fun i hi => (hnew i hi).read hr
    · exact hread s f hf hr
  · rcases Assoc.lookup_insert_some hf with ⟨_, rfl⟩ | ⟨hne, hf⟩
    · exact .inl fun i hi => (hnew i hi).write hw
    · exact hwrite s f hf hne hw
  · rcases Assoc.lookup_insert_some hf with ⟨_, rfl⟩ | ⟨hne, hf⟩
    · exact .inr (.inl ⟨e.flags, rfl⟩)
    · exact (h.place s f hf).imp_right fun hc => hc.imp_right fun hc => mem_rest hc hne
  · exact h.onePage q (List.mem_cons_of_mem p hq) f (hgood q hq f hf hg) hg
  · exact h.spared q (List.mem_cons_of_mem p hq) f (hgood q hq f hf hg) hg

theorem pending_keep (h : Pending mc vdso flags out (p :: rest) m prot) (he : memPt m p = some e)
    (hg : grows flags e.flags = false) :
    Pending mc vdso flags out rest (m.setEntry p { e with flags := newFlags flags e.flags }) prot := by
  have hweaker := weaker_newFlags hg
  refine pending_entry h h.outside (fun i hi => ⟨fun hr => ?_, fun hw => ?_⟩) h.read fun s f hf hne hw => ?_
  · exact h.read (slot p) e he (hweaker.read hr) i hi
  · rcases h.write (slot p) e he (hweaker.write hw) with hall | ⟨_, hnone⟩
    · exact hall i hi
    have hflags := write_of_writable hw
    rw [write_newFlags, hnone] at hflags
    cases hflags
  · exact (h.write s f hf hw).imp_right fun hc => ⟨mem_rest hc.1 hne, hc.2⟩

theorem pending_raise (h : Pending mc vdso flags out (p :: rest) m prot) (he : memPt m p = some e)
    (hg : grows flags e.flags = true) :
    Pending mc vdso flags out rest (m.setEntry p { e with flags := newFlags flags e.flags })
      (Function.update prot (hostPage mc vdso e 0) (raisedProt flags)) := by
  have hone := h.onePage p List.mem_cons_self e he hg
  have hspared := h.spared p List.mem_cons_self e he hg
  refine pending_entry h (fun f hf i hi => ?_) (fun i hi => ?_) (fun s f hf hr i hi => ?_)
    fun s f hf hne hw => ?_
  · by_cases hq : hostPage mc vdso f i = hostPage mc vdso e 0
    · rw [hq, Function.update_self]
      refine ⟨fun _ => rfl, fun hw => ?_⟩
      show Flags.any flags Flags.write = true
      cases hflags : Flags.any flags Flags.write with
      | true => rfl
      | false =>
        rw [hspared hflags f hf i hi hq] at hw
        cases hw
    · rw [Function.update_of_ne hq]
      exact h.outside f hf i hi
  · rw [hone i hi, Function.update_self]
    refine ⟨fun _ => rfl, fun hw => ?_⟩
    have hflags := write_of_writable hw
    rwa [write_newFlags] at hflags
  · by_cases hq : hostPage mc vdso f i = hostPage mc vdso e 0
    · rw [hq, Function.update_self]
      rfl
    · rw [Function.update_of_ne hq]
      exact h.read s f hf hr i hi
  rcases h.write s f hf hw with hall | ⟨hs, hnone⟩
  case inr => exact .inr ⟨mem_rest hs hne, hnone⟩
  case inl =>
    -- write access that is lost is lost by a page that the loop will meet
    cases hflags : Flags.any flags Flags.write with
    | true =>
      refine .inl fun i hi => ?_
      by_cases hq : hostPage mc vdso f i = hostPage mc vdso e 0
      · rw [hq, Function.update_self]
        exact hflags
      · rw [Function.update_of_ne hq]
        exact hall i hi
    | false =>
      rcases h.place s f hf with hf' | ⟨old, hold⟩ | hs
      · refine .inl fun i hi => ?_
        have hq : hostPage mc vdso f i ≠ hostPage mc vdso e 0 := by
          intro hq
          rw [hspared hflags f hf' i hi hq] at hw
          cases hw
        rw [Function.update_of_ne hq]
        exact hall i hi
      · have hold' := write_of_writable hw
        rw [hold, write_newFlags, hflags] at hold'
        cases hold'
      · exact .inr ⟨mem_rest hs hne, rfl⟩

theorem pending_mprotectLoop (ps : List Nat) (v : Vm) (prot : HostPage → Prot)
    (h : Pending mc vdso flags out ps v.mem prot) (hok : 0 ≤ (setFlagsLoop flags ps v).1) :
    Pending mc vdso flags out [] (setFlagsLoop flags ps v).2.mem (mprotectLoop mc vdso flags ps v prot) := by
  induction ps generalizing v prot with
  | nil => exact h
  | cons p rest ih =>
    cases he : memPt v.mem p with
    | none =>
      have hskip := pending_skip h he
      rw [setFlagsLoop_cons_none flags rest he] at hok ⊢
      unfold mprotectLoop
      rw [he]
      exact ih v prot hskip hok
    | some e =>
      unfold setFlagsLoop at hok ⊢
      unfold mprotectLoop
      rw [he] at hok ⊢
      dsimp only at hok ⊢
      unfold grows
      cases hg : Flags.any (flags &&& ~~~e.flags) (Flags.read ||| Flags.write) with
      | false =>
        rw [hg] at hok
        exact ih _ prot (pending_keep h he hg) hok
      | true =>
        rw [hg] at hok
        cases ha : v.host.attempt.1 with
        | true =>
          simp only [if_true, ha] at hok ⊢
          exact ih _ _ (pending_raise h he hg) hok
        | false =>
          simp only [if_true, ha] at hok
          exact absurd hok (show ¬ (0 : Int) ≤ eNOMEM by decide)

/-! ## Steps -/

structure ProtInv (mc : Machine) (st : HostMem) : Prop where
  live : ∀ a s e, (st.spaces a).pt.lookup s = some e → e.data < st.host.nextData
  covered : Covered mc st

theorem protInv_start (mc : Machine) (script : List Bool) (prot : HostPage → Prot) :
    ProtInv mc (HostMem.start script prot) :=
  ⟨fun _ _ _ he => (by cases he), fun _ _ _ he => (by cases he)⟩

theorem hostPage_supply (mc : Machine) (memory : Memory) (hd : e.data < st.host.nextData) (i : Nat) :
    hostPage mc (st.supply memory).vdso e i = hostPage mc st.vdso e i ∧
      (st.supply memory).prot (hostPage mc st.vdso e i) = st.prot (hostPage mc st.vdso e i) := by
  have hne : e.data ≠ st.host.nextData := Nat.ne_of_lt hd
  have hvdso : (st.supply memory).vdso e.data = st.vdso e.data := by
    cases memory with
    | mapped prot => exact Function.update_of_ne hne _ _
    | vdso => exact Function.update_of_ne hne _ _
  refine ⟨by unfold hostPage; rw [hvdso], ?_⟩
  cases memory with
  | vdso => rfl
  | mapped prot =>
    refine if_neg ?_
    unfold hostPage
    split
    · exact Option.some_ne_none _ ∘ Eq.symm
    · exact fun hc => hne (Option.some.inj hc)

theorem grants_supply {memory : Memory} (hsup : Supplied st flags memory) (hd : e.data = st.host.nextData)
    (i : Nat) : Grants ((st.supply memory).prot (hostPage mc (st.supply memory).vdso e i)) flags := by
  cases memory with
  | mapped prot =>
    have hpage : hostPage mc (st.supply (.mapped prot)).vdso e i =
        (some st.host.nextData, (e.offset + i) / mc.realPageSize) := by
      have hvdso : (st.supply (.mapped prot)).vdso e.data = false := by
        rw [hd]
        exact Function.update_self _ _ _
      unfold hostPage
      rw [hvdso, hd]
      rfl
    rw [hpage]
    show Grants (if some st.host.nextData = some st.host.nextData then _ else _) flags
    rw [if_pos rfl]
    exact hsup _
  | vdso =>
    have hvdso : (st.supply .vdso).vdso e.data = true := by
      rw [hd]
      exact Function.update_self _ _ _
    unfold hostPage
    rw [hvdso]
    exact hsup _

theorem hostPage_congr (hd : e'.data = e.data) (ho : e'.offset = e.offset) (i : Nat) :
    hostPage mc vdso e' i = hostPage mc vdso e i := by
  unfold hostPage
  rw [hd, ho]

theorem protInv_lowers {memory : Memory} (h : ProtInv mc st) (hlow : Lowers (st.vm a) v flags)
    (hsup : Supplied st flags memory) : ProtInv mc ((st.supply memory).put a v) := by
  have hspaces : (st.supply memory).spaces = st.spaces := by
    cases memory <;> rfl
  have hentry : ∀ b s e', (((st.supply memory).put a v).spaces b).pt.lookup s = some e' →
      (∃ e, (st.spaces b).pt.lookup s = some e ∧ e'.data = e.data ∧ e'.offset = e.offset ∧
        Weaker e'.flags e.flags) ∨
      (e'.data = st.host.nextData ∧ st.host.nextData < v.host.nextData ∧ e'.flags = flags) := by
    intro b s e' he'
    have hput : ((st.supply memory).put a v).spaces = Function.update st.spaces a v.mem := by
      rw [← hspaces]
      rfl
    rw [hput] at he'
    by_cases hb : b = a
    · subst hb
      rw [Function.update_self] at he'
      exact hlow.entry s e' he'
    · rw [Function.update_of_ne hb] at he'
      exact .inl ⟨e', he', rfl, rfl, Weaker.refl _⟩
  refine ⟨fun b s e' he' => ?_, fun b s e' he' i hi => ?_⟩
  · rcases hentry b s e' he' with ⟨e, he, hd, _⟩ | ⟨hd, hlt, _⟩
    · rw [hd]
      exact Nat.lt_of_lt_of_le (h.live b s e he) hlow.next_le
    · rw [hd]
      exact hlt
  show Grants ((st.supply memory).prot (hostPage mc (st.supply memory).vdso e' i)) e'.flags
  rcases hentry b s e' he' with ⟨e, he, hd, ho, hw⟩ | ⟨hd, _, hf⟩
  · obtain ⟨hpage, hprot⟩ := hostPage_supply mc memory (h.live b s e he) i
    rw [hostPage_congr hd ho, hpage, hprot]
    exact (h.covered b s e he i hi).weaker hw
  · rw [hf]
    exact grants_supply hsup hd i

theorem protInv_weaker {st' : HostMem} (h : ProtInv mc st) (hvdso : st'.vdso = st.vdso)
    (hprot : st'.prot = st.prot) (hnext : st'.host.nextData = st.host.nextData)
    (hentry : ∀ b s e', (st'.spaces b).pt.lookup s = some e' → ∃ c e, (st.spaces c).pt.lookup s = some e ∧
      e'.data = e.data ∧ e'.offset = e.offset ∧ Weaker e'.flags e.flags) : ProtInv mc st' := by
  refine ⟨fun b s e' he' => ?_, fun b s e' he' i hi => ?_⟩
  · obtain ⟨c, e, he, hd, _⟩ := hentry b s e' he'
    rw [hd, hnext]
    exact h.live c s e he
  obtain ⟨c, e, he, hd, ho, hw⟩ := hentry b s e' he'
  rw [hvdso, hprot, hostPage_congr hd ho]
  exact (h.covered c s e he i hi).weaker hw

theorem protInv_unmap (h : ProtInv mc st) (a start pages : Nat) :
    ProtInv mc (st.put a (ptUnmapAlways (st.vm a) start pages)) := by
  have hsh := shrinks_ptUnmapAlways (st.vm a) start pages
  refine protInv_weaker h rfl rfl hsh.next_eq fun b s e' he' => ⟨b, e', ?_, rfl, rfl, Weaker.refl _⟩
  have hput : (Function.update st.spaces a (ptUnmapAlways (st.vm a) start pages).mem b).pt.lookup s = some e' :=
    he'
  by_cases hb : b = a
  · subst hb
    rw [Function.update_self] at hput
    exact hsh.entry s e' hput
  · rwa [Function.update_of_ne hb] at hput

theorem protInv_copyOnWrite (h : ProtInv mc st) (src dst start pages : Nat) :
    ProtInv mc (protStep mc st (.copyOnWrite src dst start pages)) := by
  unfold protStep
  dsimp only
  split
  · exact h
  case isFalse hne =>
    have hcopy := copied_ptCopyOnWrite st.host (st.spaces src) (st.spaces dst) start pages
    refine protInv_weaker h rfl rfl hcopy.next_eq fun b s e' he' => ?_
    dsimp only at he'
    by_cases hb : b = dst
    · subst hb
      rw [Function.update_self] at he'
      rcases hcopy.dst s e' he' with hold | ⟨e, he, hsame⟩
      · exact ⟨b, e', hold, rfl, rfl, Weaker.refl _⟩
      · exact ⟨src, e, he, hsame⟩
    rw [Function.update_of_ne hb] at he'
    by_cases hb' : b = src
    · subst hb'
      rw [Function.update_self] at he'
      obtain ⟨e, he, hsame⟩ := hcopy.src s e' he'
      exact ⟨b, e, he, hsame⟩
    · rw [Function.update_of_ne hb'] at he'
      exact ⟨b, e', he', rfl, rfl, Weaker.refl _⟩

theorem ptSetFlags_loop (mc : Machine) (vdso : Nat → Bool) (prot : HostPage → Prot)
    (hok : 0 ≤ (ptSetFlags v start pages flags).1) :
    0 ≤ (setFlagsLoop flags (pageRange start pages) v).1 ∧
      (ptSetFlags v start pages flags).2.mem.pt = (setFlagsLoop flags (pageRange start pages) v).2.mem.pt ∧
      setFlagsProt mc vdso v start pages flags prot =
        mprotectLoop mc vdso flags (pageRange start pages) v prot := by
  unfold ptSetFlags at hok ⊢
  unfold setFlagsProt
  split at hok
  case isFalse => exact absurd hok (show ¬ (0 : Int) ≤ eNOMEM by decide)
  case isTrue hall =>
    rw [if_pos hall, if_pos hall]
    dsimp only at hok ⊢
    split at hok
    case isTrue hneg => exact absurd hok (Int.not_le.mpr hneg)
    case isFalse hrun =>
      obtain ⟨_, hpt, _⟩ := memSetReservationFlags_spec (setFlagsLoop flags (pageRange start pages) v).2 start
        pages flags
      rw [if_neg hrun]
      refine ⟨Int.not_lt.mp hrun, ?_, rfl⟩
      split
      · exact hpt
      · exact hpt

theorem protInv_setFlags (h : ProtInv mc st) (hkeeps : KeepsSetFlags mc st a start pages flags) :
    ProtInv mc (protStep mc st (.setFlags a start pages flags)) := by
  obtain ⟨hrun, hpt, hprot⟩ := ptSetFlags_loop mc st.vdso st.prot hkeeps.succeeds
  have hpending : Pending mc st.vdso flags (Outside st a start pages) (pageRange start pages) (st.spaces a)
      st.prot := by
    refine ⟨fun f hf i hi => ?_, fun s e he hr i hi => (h.covered a s e he i hi).read hr,
      fun s e he hw => .inl fun i hi => (h.covered a s e he i hi).write hw, fun s e he => ?_,
      hkeeps.onePage, hkeeps.spared⟩
    · obtain ⟨b, s, hb, _⟩ := hf
      exact h.covered b s f hb i hi
    by_cases hs : s ∈ (pageRange start pages).map slot
    · exact .inr (.inr hs)
    · exact .inl ⟨a, s, he, fun _ => hs⟩
  have hdone := pending_mprotectLoop (pageRange start pages) (st.vm a) st.prot hpending hrun
  have hext := (sound_ptSetFlags (v := st.vm a) (h.live a) start pages flags).ext
  have hspace : ∀ b s e, ((protStep mc st (.setFlags a start pages flags)).spaces b).pt.lookup s = some e →
      (b = a ∧ (ptSetFlags (st.vm a) start pages flags).2.mem.pt.lookup s = some e) ∨
        (b ≠ a ∧ (st.spaces b).pt.lookup s = some e) := by
    intro b s e he
    have hput : (Function.update st.spaces a (ptSetFlags (st.vm a) start pages flags).2.mem b).pt.lookup s =
        some e := he
    by_cases hb : b = a
    · subst hb
      rw [Function.update_self] at hput
      exact .inl ⟨rfl, hput⟩
    · rw [Function.update_of_ne hb] at hput
      exact .inr ⟨hb, hput⟩
  refine ⟨fun b s e he => ?_, fun b s e he i hi => ?_⟩
  · rcases hspace b s e he with ⟨_, he⟩ | ⟨_, he⟩
    · exact hext.live (h.live a) s e he
    · exact Nat.lt_of_lt_of_le (h.live b s e he) hext.next_le
  show Grants (setFlagsProt mc st.vdso (st.vm a) start pages flags st.prot (hostPage mc st.vdso e i)) e.flags
  rw [hprot]
  rcases hspace b s e he with ⟨_, he⟩ | ⟨hb, he⟩
  · rw [hpt] at he
    refine ⟨fun hr => hdone.read s e he hr i hi, fun hw => ?_⟩
    rcases hdone.write s e he hw with hall | ⟨hnil, _⟩
    · exact hall i hi
    · cases hnil
  · exact hdone.outside e ⟨b, s, he, fun hc => absurd hc hb⟩ i hi

theorem grants_nothingProt (flags : Flags) : Grants (nothingProt flags) (flags ||| Flags.anonymous) := by
  have hread : Flags.any Flags.anonymous Flags.read = false := by decide
  have hwrite : Flags.any Flags.anonymous Flags.write = false := by decide
  have hsome : ∀ k, Flags.any flags k = true → Flags.any k (~~~Flags.rwx) = false →
      nothingProt flags = ⟨true, true⟩ := by
    intro k hk hsub
    refine if_pos ?_
    unfold Flags.any at hk hsub ⊢
    grind
  refine ⟨fun h => ?_, fun h => ?_⟩
  · rw [Flags.any_or, hread, Bool.or_false] at h
    rw [hsome Flags.read h (by decide)]
  have hw := write_of_writable h
  rw [Flags.any_or, hwrite, Bool.or_false] at hw
  rw [hsome Flags.write hw (by decide)]

theorem protInv_step {op : ProtOp} (h : ProtInv mc st) (hok : Keeps mc st op) :
    ProtInv mc (protStep mc st op) := by
  cases op with
  | map a start pages contents memory offset flags =>
    exact protInv_lowers h (adds_ptMapAccounted (st.vm a) start pages contents offset flags false).lowers hok
  | mapNothing a start pages flags =>
    exact protInv_lowers h (adds_ptMapNothing (st.vm a) start pages flags).lowers fun _ =>
      grants_nothingProt flags
  | setFlags a start pages flags => exact protInv_setFlags h hok
  | unmap a start pages => exact protInv_unmap h a start pages
  | copyOnWrite src dst start pages => exact protInv_copyOnWrite h src dst start pages
  | breakCow a page type =>
    obtain ⟨flags, hadds⟩ := adds_breakCow (st.vm a) page type
    exact protInv_lowers h hadds.lowers fun _ => ⟨fun _ => rfl, fun _ => rfl⟩

/-! ## Runs -/

/-- **Host protections.** In every state that such a run reaches, the host lets a guest page be read, or
written, wherever its flags do, whatever the size of a host page. -/
theorem hostProtection_run (mc : Machine) (script : List Bool) (prot : HostPage → Prot) (ops : List ProtOp)
    (hops : AllSteps (protStep mc) (Keeps mc) (HostMem.start script prot) ops) :
    Covered mc (run (protStep mc) (HostMem.start script prot) ops) := by
  have hstep : ∀ st op, ProtInv mc st → Keeps mc st op → ProtInv mc (protStep mc st op) :=
    fun _ _ h hok => protInv_step h hok
  exact (run_invariant hstep (protInv_start mc script prot) hops).covered

theorem onePage_of_aligned (mc : Machine) (hv : mc.vdsoData % pageSize = 0) (ho : e.offset % pageSize = 0)
    {i : Nat} (hi : i < pageSize) : hostPage mc vdso e i = hostPage mc vdso e 0 := by
  obtain ⟨k, hk⟩ := mc.multiple
  have hdiv : ∀ n, n % pageSize = 0 → (n + i) / mc.realPageSize = n / mc.realPageSize := by
    intro n hn
    rw [hk, ← Nat.div_div_eq_div_mul, ← Nat.div_div_eq_div_mul]
    congr 1
    unfold pageSize at hn hi ⊢
    omega
  unfold hostPage
  split
  · rw [Nat.add_zero, hdiv _ (by unfold pageSize at hv ho ⊢; omega)]
  · rw [Nat.add_zero, hdiv _ ho]

def host16k : Machine := ⟨16384, ⟨4, rfl⟩, by decide, 0⟩
def host4k : Machine := ⟨4096, ⟨1, rfl⟩, by decide, 0⟩

def noAccess : HostPage → Prot := fun _ => ⟨false, false⟩

/-- Two pages are copied to a child, which writes to one of them. Then they lose write access and get it
back. -/
def forkOps : List ProtOp :=
  [.mapNothing 0 16 2 3, .copyOnWrite 0 1 16 2, .breakCow 1 16 .write, .setFlags 0 16 2 1, .setFlags 0 16 2 3]

theorem hostProtection_fork :
    ((run (protStep host16k) (HostMem.start [] noAccess) forkOps).spaces 1).pt.lookup (slot 16) =
        some ⟨1, 0, 67⟩ ∧
      Covered host16k (run (protStep host16k) (HostMem.start [] noAccess) forkOps) := by
  refine ⟨by decide, hostProtection_run host16k [] noAccess forkOps
    ⟨trivial, trivial, trivial, ⟨by decide, fun p hp e he hg => ?_, fun p hp e he hg => ?_⟩,
      ⟨by decide, fun p hp e he _ i hi => onePage_of_aligned host16k rfl ?_ hi, fun _ _ _ _ _ hw => ?_⟩, trivial⟩⟩
  · have hsame : ∀ p ∈ pageRange 16 2, ∀ e ∈ memPt ((run (protStep host16k) (HostMem.start [] noAccess)
        (forkOps.take 3)).spaces 0) p, grows 1 e.flags = false := by decide
    rw [hsame p hp e he] at hg
    cases hg
  · have hsame : ∀ p ∈ pageRange 16 2, ∀ e ∈ memPt ((run (protStep host16k) (HostMem.start [] noAccess)
        (forkOps.take 3)).spaces 0) p, grows 1 e.flags = false := by decide
    rw [hsame p hp e he] at hg
    cases hg
  · have haligned : ∀ p ∈ pageRange 16 2, ∀ e ∈ memPt ((run (protStep host16k) (HostMem.start [] noAccess)
        (forkOps.take 4)).spaces 0) p, e.offset % pageSize = 0 := by decide
    exact haligned p hp e he
  · cases hw

/-- One page of a host page gets read access back: the other one keeps its flags, and can no longer be
written. So does a page of another process that shares the memory, or of a mapping at an odd offset. -/
theorem hostProtection_lost : ¬ Covered host16k (run (protStep host16k) (HostMem.start [] noAccess)
      [.mapNothing 0 16 2 3, .setFlags 0 16 1 0, .setFlags 0 16 1 1]) ∧
    ¬ Covered host4k (run (protStep host4k) (HostMem.start [] noAccess)
      [.mapNothing 0 16 1 131, .copyOnWrite 0 1 16 1, .setFlags 1 16 1 0, .setFlags 1 16 1 1]) ∧
    ¬ Covered host4k (run (protStep host4k) (HostMem.start [] noAccess)
      [.map 0 16 1 (some zeroFill) (.mapped fun _ => ⟨true, false⟩) 1 1, .setFlags 0 16 1 3]) := by
  refine ⟨fun h => ?_, fun h => ?_, fun h => ?_⟩
  · exact absurd ((h 0 (slot 17) ⟨0, 4096, 67⟩ (by decide) 0 (by decide)).write (by decide)) (by decide)
  · exact absurd ((h 0 (slot 16) ⟨0, 0, 195⟩ (by decide) 0 (by decide)).write (by decide)) (by decide)
  · exact absurd ((h 0 (slot 16) ⟨0, 1, 3⟩ (by decide) 4095 (by decide)).write (by decide)) (by decide)

end IosLinuxkit.HostProt
