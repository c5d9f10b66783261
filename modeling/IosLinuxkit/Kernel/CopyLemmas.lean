import IosLinuxkit.Kernel.PtLemmas

/-!
# `pt_set_flags`, `pt_copy_on_write` and the lock intervals of `mem_ptr`

The operations that change entries in place or copy them to another address space. The
crux of the fork is `copyOnWrite_dst`: what the destination gained is, slot by slot, what
the source now holds, and each such entry is shared or copy-on-write.
-/

namespace IosLinuxkit.Kernel

/-! ## `pt_set_flags` -/

variable {v : Vm} {p : Nat} {e : PtEntry}

theorem extends_setEntry (hl : Live v) {e' : PtEntry}
    (he : memPt v.mem p = some e) (hk : Kept e e') {h : Host}
    (hn : h.nextData = v.host.nextData) (hb : h.bytes = v.host.bytes) :
    Extends v ⟨h, v.mem.setEntry p e'⟩ := by
  have hentry : ∀ s f, (v.mem.setEntry p e').pt.lookup s = some f →
      ∃ e, v.mem.pt.lookup s = some e ∧ Kept e f := by
    intro s f hf
    rw [setEntry_pt] at hf
    by_cases hs : s = slot p
    · subst hs
      rw [AList.lookup_insert] at hf
      cases hf
      exact ⟨e, he, hk⟩
    · rw [AList.lookup_insert_ne hs] at hf
      exact ⟨f, hf, Kept.refl f⟩
  refine ⟨hn.ge, fun d _ => by rw [hb], fun s f hf => Or.inl (hentry s f hf), ?_⟩
  intro s t f g hf _ hge _
  obtain ⟨e₀, he₀, hk₀⟩ := hentry s f hf
  have := hl s e₀ he₀
  have := hk₀.1
  omega

theorem coherent_setEntry {m : Mem} {e' : PtEntry} (he : memPt m p = some e)
    (hd : e'.data = e.data) (ho : e'.offset = e.offset) : Coherent m (m.setEntry p e') := by
  refine ⟨le_refl _, fun _ s f hf => ?_⟩
  rw [setEntry_pt]
  by_cases hs : s = slot p
  · subst hs
    rw [AList.lookup_insert]
    rw [memPt] at he
    rw [he] at hf
    cases hf
    exact ⟨e', rfl, hd, ho⟩
  · rw [AList.lookup_insert_ne hs]
    exact ⟨f, hf, rfl, rfl⟩

theorem sameHost_protect (h : Host) (grows : Bool) :
    SameHost h (if grows then h.attempt else (true, h)).2 := by
  split
  · exact sameHost_attempt h
  · exact SameHost.refl h

theorem sound_setFlagsLoop (flags : Flags) (ps : List Nat) :
    ∀ v : Vm, Live v → Sound v (setFlagsLoop flags ps v).2 := by
  induction ps with
  | nil => exact fun v hl => Sound.refl hl
  | cons p rest ih =>
    intro v hl
    unfold setFlagsLoop
    split
    · exact ih v hl
    · rename_i e he
      dsimp only
      set a := if Flags.any (flags &&& ~~~e.flags) (Flags.read ||| Flags.write) then
        v.host.attempt else (true, v.host) with ha
      have hsame : SameHost v.host a.2 := sameHost_protect v.host _
      split
      · set new := newFlags flags e.flags with hnew
        set delta := boolToInt (Flags.charged new) - boolToInt (Flags.charged e.flags)
        have hkept : Kept e { e with flags := new } :=
          ⟨rfl, rfl, fun h => Flags.cow_newFlags h⟩
        have hstep : Sound v
            ⟨a.2.addAnon delta, v.mem.setEntry p { e with flags := new }⟩ := by
          refine ⟨extends_setEntry hl he hkept hsame.nextData hsame.bytes,
            coherent_setEntry he rfl rfl, ?_⟩
          unfold Balanced
          rw [balance_setEntry, Assoc.weightAt_of_some he]
          simp only [balance, addAnon_anonPageCount, hsame.anonPageCount, charge, delta]
          omega
        exact hstep.trans (ih _ (hstep.live hl))
      · exact Sound.of_sameHost hl hsame rfl (le_refl _)

theorem sound_ptSetFlags (hl : Live v) (start pages : Nat) (flags : Flags) :
    Sound v (ptSetFlags v start pages flags).2 := by
  unfold ptSetFlags
  split
  · dsimp only
    have h1 := sound_setFlagsLoop flags (pageRange start pages) v hl
    set w := (setFlagsLoop flags (pageRange start pages) v).2
    split
    · exact h1
    obtain ⟨hh, hpt, hc⟩ := memSetReservationFlags_spec w start pages flags
    have h2 := h1.trans (Sound.of_sameHost (h1.live hl) hh hpt hc.ge)
    split
    · exact h2
    · exact h2.trans (sound_changed (h2.live hl))
  · exact Sound.refl hl

/-! ## `pt_copy_on_write` -/

def sharedFlags (f : Flags) : Flags :=
  if Flags.any f Flags.shared then f else f ||| Flags.cow

theorem charged_sharedFlags (f : Flags) : Flags.charged (sharedFlags f) = Flags.charged f := by
  unfold sharedFlags
  split
  · rfl
  · exact Flags.charged_or_cow f

theorem shared_sharedFlags (f : Flags) :
    Flags.any (sharedFlags f) Flags.shared = Flags.any f Flags.shared := by
  unfold sharedFlags
  split
  · rfl
  · have h : Flags.any Flags.cow Flags.shared = false := by decide
    rw [Flags.any_or, h, Bool.or_false]

theorem cow_of_not_shared {f : Flags} (h : Flags.any f Flags.shared = false) :
    Flags.any (sharedFlags f) Flags.cow = true := by
  unfold sharedFlags
  rw [h]
  exact Flags.cow_or_cow f

theorem kept_sharedFlags (e : PtEntry) : Kept e { e with flags := sharedFlags e.flags } := by
  refine ⟨rfl, rfl, fun h => ?_⟩
  show Flags.any (sharedFlags e.flags) Flags.cow = true
  unfold sharedFlags
  split
  · exact h
  · exact Flags.cow_or_cow _

/-- What has been established when the copy loop is at some page, relative to the start
`c₀`: the source kept its entries and their `P_SHARED` bit; the destination holds old
entries and copies. -/
structure CopyInv (c₀ c : CopyState) : Prop where
  next_eq : c.host.nextData = c₀.host.nextData
  bytes_eq : c.host.bytes = c₀.host.bytes
  src_entry : ∀ s e', c.src.pt.lookup s = some e' → ∃ e, c₀.src.pt.lookup s = some e ∧
    Kept e e' ∧ Flags.any e'.flags Flags.shared = Flags.any e.flags Flags.shared
  dst_entry : ∀ s e, c.dst.pt.lookup s = some e → c₀.dst.pt.lookup s = some e ∨
    (c.src.pt.lookup s = some e ∧
      (Flags.any e.flags Flags.shared = false → Flags.any e.flags Flags.cow = true))
  src_changes : c.src.changes = c₀.src.changes
  src_reservations : c.src.reservations = c₀.src.reservations
  dst_changes : c₀.dst.changes ≤ c.dst.changes
  balance_eq : c.host.anonPageCount + c.anonCopied - chargedPages c.src - chargedPages c.dst
    = c₀.host.anonPageCount + c₀.anonCopied - chargedPages c₀.src - chargedPages c₀.dst

theorem CopyInv.refl (c : CopyState) : CopyInv c c :=
  ⟨rfl, rfl, fun _ e h => ⟨e, h, Kept.refl e, rfl⟩, fun _ _ h => Or.inl h, rfl, rfl, le_refl _, rfl⟩

theorem copyPage_eq {c : CopyState} (he : memPt c.src p = some e) :
    copyPage c p =
      { host := (ptUnmapAlways ⟨c.host, c.dst⟩ p 1).host.retainData e.data
        src := c.src.setEntry p { e with flags := sharedFlags e.flags }
        dst := (ptUnmapAlways ⟨c.host, c.dst⟩ p 1).mem.setEntry p
          { e with flags := sharedFlags e.flags }
        anonCopied := c.anonCopied + boolToInt (Flags.charged (sharedFlags e.flags)) } := by
  unfold copyPage
  rw [he]
  rfl

theorem chargedPages_setEntry (m : Mem) (p : Nat) (e : PtEntry) : chargedPages (m.setEntry p e)
      = chargedPages m - Assoc.weightAt charge m.pt (slot p) + charge e :=
  Assoc.sumBy_insert charge (slot p) e m.pt

theorem CopyInv.copyPage {c₀ c : CopyState} (h : CopyInv c₀ c)
    (hp : p + 1 < wordMod) : CopyInv c₀ (copyPage c p) := by
  cases he : memPt c.src p with
  | none => unfold Kernel.copyPage; rw [he]; exact h
  | some e =>
    rw [copyPage_eq he]
    set u := ptUnmapAlways ⟨c.host, c.dst⟩ p 1
    set e' : PtEntry := { e with flags := sharedFlags e.flags } with he'
    have hsh : Shrinks ⟨c.host, c.dst⟩ u := shrinks_ptUnmapAlways _ p 1
    have hlook : c.src.pt.lookup (slot p) = some e := he
    refine ⟨by simpa using hsh.next_eq.trans h.next_eq,
      by simpa using hsh.bytes_eq.trans h.bytes_eq, ?_, ?_, h.src_changes,
      h.src_reservations, ?_, ?_⟩
    · intro s f hf
      dsimp only [setEntry_pt] at hf
      by_cases hs : s = slot p
      · subst hs
        rw [AList.lookup_insert] at hf
        cases hf
        obtain ⟨e₀, he₀, hk, hshare⟩ := h.src_entry _ e hlook
        exact ⟨e₀, he₀, hk.trans (kept_sharedFlags e), (shared_sharedFlags e.flags).trans hshare⟩
      · rw [AList.lookup_insert_ne hs] at hf
        exact h.src_entry s f hf
    · intro s f hf
      dsimp only [setEntry_pt] at hf ⊢
      by_cases hs : s = slot p
      · subst hs
        rw [AList.lookup_insert] at hf ⊢
        cases hf
        refine Or.inr ⟨rfl, fun hns => cow_of_not_shared ?_⟩
        rw [← shared_sharedFlags]
        exact hns
      · rw [AList.lookup_insert_ne hs] at hf ⊢
        exact h.dst_entry s f (hsh.entry s f hf)
    · have hc : u.mem.changes = c.dst.changes + 1 := ptUnmapAlways_changes _ p 1
      have := h.dst_changes
      simp only [setEntry_changes]
      omega
    have hbal : balance u = balance ⟨c.host, c.dst⟩ := balanced_ptUnmapAlways _ p 1
    have hnone : u.mem.pt.lookup (slot p) = none := ptUnmapAlways_one_unmapped _ hp
    have hcharge : charge e' = charge e := by
      simp only [charge, he', charged_sharedFlags]
    rw [← h.balance_eq]
    simp only [chargedPages_setEntry, Assoc.weightAt_of_some hlook,
      Assoc.weightAt_of_none hnone, retainData_anonPageCount, hcharge, charged_sharedFlags]
    simp only [balance] at hbal
    simp only [charge]
    omega

theorem CopyInv.copyLoop {c₀ : CopyState} {stop : Nat} (hstop : stop < wordMod) :
    ∀ (fuel p : Nat) (c : CopyState), CopyInv c₀ c → CopyInv c₀ (copyLoop stop fuel p c)
  | 0, _, _, h => h
  | fuel + 1, p, c, h => by
    unfold Kernel.copyLoop
    split
    · exact CopyInv.copyLoop hstop fuel _ _ (h.copyPage (by omega))
    · exact h

/-- **What `pt_copy_on_write` does.** The source keeps its entries and their `P_SHARED` bit; an entry of
the destination was there before, or is the source's, copy-on-write unless shared; and the two accounts
together stay balanced. -/
structure CopySpec (h : Host) (src dst : Mem) (h' : Host) (src' dst' : Mem) : Prop where
  next_eq : h'.nextData = h.nextData
  bytes_eq : h'.bytes = h.bytes
  src_entry : ∀ s e', src'.pt.lookup s = some e' → ∃ e, src.pt.lookup s = some e ∧
    Kept e e' ∧ Flags.any e'.flags Flags.shared = Flags.any e.flags Flags.shared
  dst_entry : ∀ s e, dst'.pt.lookup s = some e → dst.pt.lookup s = some e ∨
    (src'.pt.lookup s = some e ∧
      (Flags.any e.flags Flags.shared = false → Flags.any e.flags Flags.cow = true))
  src_changes : src.changes < src'.changes
  balance_eq : h'.anonPageCount - chargedPages src' - chargedPages dst'
    = h.anonPageCount - chargedPages src - chargedPages dst

theorem ptCopyOnWrite_spec (h : Host) (src dst : Mem) (start pages : Nat) :
    CopySpec h src dst (ptCopyOnWrite h src dst start pages).1
      (ptCopyOnWrite h src dst start pages).2.1
      (ptCopyOnWrite h src dst start pages).2.2 := by
  have hstop : (start + pages) % wordMod < wordMod := Nat.mod_lt _ (by decide)
  have hinv := CopyInv.copyLoop hstop ((start + pages) % wordMod - start) start _
    (CopyInv.refl ⟨h, src, dst, 0⟩)
  unfold ptCopyOnWrite
  dsimp only
  set c := copyLoop ((start + pages) % wordMod) ((start + pages) % wordMod - start) start
    ⟨h, src, dst, 0⟩
  have hsame := sameHost_copyReservations c.src.reservations (c.host.addAnon c.anonCopied)
    c.dst
  obtain ⟨hpt, -⟩ := copyReservations_mem c.src.reservations
    (c.host.addAnon c.anonCopied) c.dst
  refine ⟨hsame.nextData.trans hinv.next_eq, hsame.bytes.trans hinv.bytes_eq,
    hinv.src_entry, ?_, ?_, ?_⟩
  · intro s e he
    rw [changed_pt, hpt] at he
    exact hinv.dst_entry s e he
  · have hch : c.src.changes = src.changes := hinv.src_changes
    rw [changed_changes, hch]
    exact Nat.lt_succ_self _
  have hb := hinv.balance_eq
  simp only [chargedPages, changed_pt, hpt, hsame.anonPageCount, addAnon_anonPageCount]
    at hb ⊢
  omega

/-! ## The lock intervals of `mem_ptr` -/

theorem page_le (addr : Nat) (h : addr < wordMod) : page addr ≤ pageSpanBound := by
  unfold page
  simp only [wordMod, pageSize, pageSpanBound] at *
  omega

theorem sound_growStack (hl : Live v) (limit : Option Nat)
    (hp : p ≤ pageSpanBound) : Sound v (growStack v limit p) := by
  unfold growStack
  split
  · dsimp only
    have h1 := sound_ptMapNothing hl
      (Flags.read ||| Flags.write ||| Flags.growsdown) hp (show 1 ≤ pageSpanBound by decide)
    split
    · exact h1.trans (sound_changed (h1.live hl))
    · exact h1
  · exact Sound.refl hl

theorem sound_materialisePage (hl : Live v) (hp : p ≤ pageSpanBound) :
    Sound v (materialisePage v p) := by
  unfold materialisePage
  split
  · rename_i res _ _
    split
    · dsimp only
      have h1 := sound_ptMapNothing hl (res.flags &&& ~~~Flags.growsdown) hp
        (show 1 ≤ pageSpanBound by decide)
      split
      · exact h1.trans (sound_changed (h1.live hl))
      · exact h1
    · exact Sound.refl hl
  · exact Sound.refl hl

theorem sound_refund_mapRegion (hl : Live v) (hp : p ≤ pageSpanBound)
    (contents : Nat → UInt8) (flags : Flags) {reserved : Bool}
    (hres : reserved = true → Flags.charged flags = true) {h : Host}
    (hr : reserveIf v.host reserved 1 = some h) :
    Sound v (refundIf (mapRegion ⟨h, v.mem⟩ p 1 contents flags reserved) reserved 1).2 := by
  obtain rfl := reserveIf_some hr
  have h1 := (shrinks_addAnon v (boolToInt reserved * 1)).extends hl
  refine ⟨extends_refundIf (h1.trans (extends_mapRegion (h1.live hl) _ _ _ _ _)) hl _ _, ?_, ?_⟩
  · rw [(refundIf_mem _ _ _).1]
    exact coherent_mapRegion ⟨v.host.addAnon (boolToInt reserved * 1), v.mem⟩ _ _ _ _ _
  have h0 : balance ⟨v.host.addAnon (boolToInt reserved * 1), v.mem⟩
      = balance v + boolToInt reserved * 1 := by
    simp only [balance, addAnon_anonPageCount]
    omega
  unfold Balanced
  rw [balance_refundIf]
  rcases balance_mapRegion ⟨v.host.addAnon (boolToInt reserved * 1), v.mem⟩ hp
    (show 1 ≤ pageSpanBound by decide) contents flags reserved with ⟨hok, hbal⟩ | ⟨hfail, hbal⟩
  · have hnn : ¬ (mapRegion ⟨v.host.addAnon (boolToInt reserved * 1), v.mem⟩ p 1 contents
        flags reserved).1 < 0 := by omega
    rw [if_neg hnn, hbal, h0]
    cases reserved with
    | false => simp [boolToInt]
    | true => simp [boolToInt, hres rfl]
  · rw [if_pos hfail, hbal, h0]
    omega

theorem sound_breakCow (hl : Live v) (hp : p ≤ pageSpanBound)
    (type : AccessType) : Sound v (breakCow v p type).2 := by
  unfold breakCow
  split
  · exact Sound.refl hl
  split
  · dsimp only
    split
    · exact Sound.refl hl
    split
    · exact Sound.refl hl
    · rename_i h hr
      refine sound_refund_mapRegion hl hp _ _ (fun hpre => ?_) hr
      simp only [Bool.and_eq_true] at hpre
      exact hpre.2
  · exact Sound.refl hl

theorem sameHost_acquireWrite (h : Host) (inJit : Bool) : SameHost h (acquireWrite h inJit).2 := by
  unfold acquireWrite
  split
  · exact sameHost_attempt h
  · exact SameHost.refl h

theorem sound_memPtrStep (hl : Live v) (limit : Option Nat) (c : PtrCall)
    (haddr : c.addr < wordMod) : Sound v (memPtrStep v limit c).1 := by
  have hp := page_le c.addr haddr
  have hacq : Sound v ⟨(acquireWrite v.host c.inJit).2, v.mem⟩ :=
    Sound.of_sameHost hl (sameHost_acquireWrite v.host c.inJit) rfl (le_refl _)
  unfold memPtrStep
  dsimp only
  split
  · exact Sound.refl hl
  · split
    · exact hacq.trans (sound_growStack (hacq.live hl) limit hp)
    · exact hacq
  · split
    · exact hacq.trans (sound_materialisePage (hacq.live hl) hp)
    · exact hacq
  · exact Sound.refl hl
  · exact sound_breakCow hl hp c.type
  · exact Sound.refl hl
  · exact Sound.refl hl

/-! ## The intervals of `mem_ptr` -/

theorem memPtrStep_call (v : Vm) (limit : Option Nat) (c : PtrCall) :
    (memPtrStep v limit c).2.addr = c.addr ∧ (memPtrStep v limit c).2.type = c.type := by
  unfold memPtrStep
  dsimp only
  split
  · exact ⟨rfl, rfl⟩
  · split <;> exact ⟨rfl, rfl⟩
  · split <;> exact ⟨rfl, rfl⟩
  · exact ⟨rfl, rfl⟩
  · exact ⟨rfl, rfl⟩
  · exact ⟨rfl, rfl⟩
  · exact ⟨rfl, rfl⟩

theorem memPtrStep_done {limit : Option Nat} {c : PtrCall} {ptr : HostPtr}
    (hc : ∀ q, c.phase ≠ .done q) (h : (memPtrStep v limit c).2.phase = .done (some ptr)) :
    (memPtrStep v limit c).1 = v ∧ memPtrNofault v.mem c.addr c.type = some ptr := by
  unfold memPtrStep at h ⊢
  cases hphase : c.phase with
  | lookup =>
    simp only [hphase, lookupPhase] at h
    split_ifs at h
    all_goals cases h
  | grow =>
    simp only [hphase] at h
    split_ifs at h
    all_goals cases h
  | materialise =>
    simp only [hphase] at h
    split_ifs at h
    all_goals cases h
  | haveEntry =>
    simp only [hphase, haveEntryPhase] at h
    split at h
    · cases h
    · split_ifs at h
      all_goals cases h
  | breakCow =>
    simp only [hphase] at h
    split_ifs at h
    all_goals cases h
  | resolve =>
    simp only [hphase] at h
    exact ⟨rfl, by simpa using h⟩
  | done q => exact absurd hphase (hc q)

end IosLinuxkit.Kernel
