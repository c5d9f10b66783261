import IosLinuxkit.Kernel.Mmap
import IosLinuxkit.Kernel.CopyLemmas

/-!
# The system calls keep the specification

Every call of `Mmap.lean` is `Sound`, except the growing branch of `brk`: it is `Extends`
and `Coherent`.
-/

namespace IosLinuxkit.Kernel

theorem page_mod_le (n : Nat) : page (n % wordMod) ≤ pageSpanBound :=
  page_le _ (Nat.mod_lt _ (by decide))

theorem pageRoundUp_le (n : Nat) : pageRoundUp n ≤ pageSpanBound := page_mod_le _

theorem pageRoundUp32_le (n : Nat) : pageRoundUp32 n ≤ 0x100000 := by
  unfold pageRoundUp32 page pageSize
  omega

variable {v : Vm} {pages p : Nat}

theorem sound_mmapHint (hl : Live v) (hint : Nat) :
    Sound v { v with mem := { v.mem with mmapHint := hint } } :=
  Sound.of_sameHost hl (SameHost.refl _) rfl (le_refl _)

theorem mappedAt_snd (p : Nat) (r : Int × Vm) : (mappedAt p r).2 = r.2 := by
  unfold mappedAt
  split <;> rfl

theorem setFd_host (h : Host) (d fd : Nat) :
    (h.setFd d fd).nextData = h.nextData ∧ (h.setFd d fd).bytes = h.bytes ∧
      (h.setFd d fd).anonPageCount = h.anonPageCount := by
  unfold Host.setFd
  split <;> exact ⟨rfl, rfl, rfl⟩

theorem sound_host (hl : Live v) {h : Host} (hn : h.nextData = v.host.nextData)
    (hb : h.bytes = v.host.bytes) (hc : h.anonPageCount = v.host.anonPageCount) :
    Sound v ⟨h, v.mem⟩ :=
  ⟨(shrinks_host hn hb).extends hl, Coherent.refl _, Balanced.of_eq rfl hc⟩

theorem hintUsed_bounds {m : Mem} {a : MmapArgs}
    (h : hintUsed m a pages = true) : page a.addr ≤ pageSpanBound := by
  simp only [hintUsed, badRange, Bool.and_eq_true, Bool.not_eq_true', Bool.or_eq_false_iff,
    decide_eq_false_iff_not, userAddrMaxPage] at h
  simp only [pageSpanBound]
  omega

theorem sound_mmapAnonymous (hl : Live v) (noreserve hinted : Bool)
    (prot : Flags) (hp : p ≤ pageSpanBound) (hpages : pages ≤ pageSpanBound) :
    Sound v (mmapAnonymous v noreserve hinted p pages prot).2 := by
  unfold mmapAnonymous
  split
  · dsimp only
    split
    · exact Sound.refl hl
    · rw [mappedAt_snd]
      exact sound_ptMapLazy hl _ _ _
  · rw [mappedAt_snd]
    exact sound_ptMapNothing hl _ hp hpages

theorem sound_mmapFile (hl : Live v) (prot : Flags)
    (hp : p ≤ pageSpanBound) (hpages : pages ≤ pageSpanBound) (file : FileArg) :
    Sound v (mmapFile v p pages prot file).2 := by
  cases file with
  | badFd => exact Sound.refl hl
  | noMmap => exact Sound.refl hl
  | file fd contents correction =>
    have hmap := sound_ptMap hl contents correction prot hp hpages
    unfold mmapFile
    dsimp only
    split
    · exact hmap
    split
    · rw [mappedAt_snd]
      exact hmap
    · rename_i e _
      obtain ⟨hn, hb, hc⟩ :=
        setFd_host (ptMap v p pages contents correction prot).2.host e.data fd
      rw [mappedAt_snd]
      exact hmap.trans (sound_host (hmap.live hl) hn hb hc)

theorem sound_mmapAt (hl : Live v) (a : MmapArgs) (hinted : Bool)
    (hp : p ≤ pageSpanBound) (hpages : pages ≤ pageSpanBound) :
    Sound v (mmapAt v a hinted p pages).2 := by
  unfold mmapAt
  dsimp only
  split
  · exact sound_mmapAnonymous hl _ _ _ hp hpages
  · exact sound_mmapFile hl _ hp hpages _

theorem sound_doMmap (hl : Live v) (a : MmapArgs) : Sound v (doMmap v a).2 := by
  have hpages := pageRoundUp_le a.len
  unfold doMmap
  dsimp only
  split_ifs with h1 h2 h3 hhint hbad
  · exact Sound.refl hl
  · exact Sound.refl hl
  · exact Sound.refl hl
  · exact sound_mmapAt hl a true (hintUsed_bounds hhint) hpages
  · exact sound_mmapHint hl _
  have hv := sound_mmapHint hl a.hole.hint
  have hp : a.hole.page ≤ pageSpanBound := by
    simp only [memPages, pageSpanBound] at *
    omega
  exact hv.trans (sound_mmapAt (hv.live hl) a false hp hpages)

theorem sound_sysMmap (hl : Live v) (a : MmapArgs) : Sound v (sysMmap v a).2 := by
  unfold sysMmap
  split
  · exact Sound.refl hl
  split
  · exact Sound.refl hl
  split
  · exact Sound.refl hl
  · exact sound_doMmap hl a

theorem sound_sysMunmap (hl : Live v) (addr len : Nat) : Sound v (sysMunmap v addr len).2 := by
  unfold sysMunmap
  split
  · exact Sound.refl hl
  split
  · exact Sound.refl hl
  · exact sound_ptUnmapAlways hl _ _

theorem sound_sysMprotect (hl : Live v) (addr len : Nat) (prot : Flags) :
    Sound v (sysMprotect v addr len prot).2 := by
  unfold sysMprotect
  split
  · exact Sound.refl hl
  split
  · exact Sound.refl hl
  · exact sound_ptSetFlags hl _ _ _

/-! ## `mremap` -/

theorem Extends.rebytes {w : Vm} (h : Extends v w) {h' : Host} (hn : h'.nextData = w.host.nextData)
    (hb : ∀ d, d < v.host.nextData → h'.bytes d = w.host.bytes d) : Extends v ⟨h', w.mem⟩ where
  next_le := by rw [hn]; exact h.next_le
  bytes_old := fun d hd => by rw [hb d hd, h.bytes_old d hd]
  entry := by
    intro s e he
    rcases h.entry s e he with hk | ⟨h1, h2⟩
    · exact Or.inl hk
    · exact Or.inr ⟨h1, by rw [hn]; exact h2⟩
  fresh_sep := h.fresh_sep

theorem mapPages_data (d start offset : Nat) (flags : Flags) (ps : List Nat) (v : Vm) :
    ∀ q ∈ ps, ∀ e, (mapPages d start offset flags ps v).mem.pt.lookup (slot q) = some e →
      e.data = d := by
  have hkeep : ∀ (ps : List Nat) (v : Vm) (s : Slot),
      (∀ e, v.mem.pt.lookup s = some e → e.data = d) →
      ∀ e, (mapPages d start offset flags ps v).mem.pt.lookup s = some e → e.data = d := by
    intro ps
    induction ps with
    | nil => exact fun _ _ h => h
    | cons p rest ih =>
      intro v s h
      refine ih (mapPage d start offset flags v p) s fun e he => ?_
      simp only [mapPage, setEntry_pt] at he
      by_cases hs : s = slot p
      · subst hs
        rw [AList.lookup_insert] at he
        cases he
        rfl
      · rw [AList.lookup_insert_ne hs] at he
        exact h e ((shrinks_clearPage v p).entry s e he)
  intro q hq
  induction ps generalizing v with
  | nil => cases hq
  | cons p rest ih =>
    rcases List.mem_cons.mp hq with rfl | hq
    · refine hkeep rest (mapPage d start offset flags v q) (slot q) fun e he => ?_
      simp only [mapPage, setEntry_pt] at he
      rw [AList.lookup_insert] at he
      cases he
      rfl
    · exact ih (mapPage d start offset flags v p) hq

theorem ptMapNothing_fresh {start : Nat} {flags : Flags}
    (hok : 0 ≤ (ptMapNothing v start pages flags).1) (hp : pages ≠ 0) {q : Nat}
    (hq : q ∈ pageRange start pages) {e : PtEntry}
    (he : (ptMapNothing v start pages flags).2.mem.pt.lookup (slot q) = some e) :
    v.host.nextData ≤ e.data := by
  have hneg := eNOMEM_neg
  unfold ptMapNothing at hok he
  rw [if_neg hp] at hok he
  dsimp only at hok he
  split at he
  · rename_i hr
    rw [hr] at hok
    exact absurd hok (by dsimp only; omega)
  · rename_i h hr
    rw [hr] at hok
    obtain rfl := reserveIf_some hr
    dsimp only at hok
    rw [(refundIf_mem _ _ _).2] at hok
    rw [(refundIf_mem _ _ _).1] at he
    unfold mapRegion ptMapAccounted at hok he
    dsimp only at hok he
    split at he
    · rename_i hm
      rw [if_pos hm] at hok
      split at he
      · simp only [changed_pt] at he
        have hd := mapPages_data _ _ _ _ _ _ q hq e he
        rw [hd]
        simp
      · rename_i hd
        rw [if_neg hd] at hok
        exact absurd hok (by dsimp only; omega)
    · rename_i hm
      rw [if_neg hm] at hok
      exact absurd hok (by dsimp only; omega)

theorem copyMoved_host (m : Mem) (start newStart n i : Nat)
    (hfresh : ∀ e, memPt m (newStart + i) = some e → n ≤ e.data) (h : Host) :
    (copyMoved m start newStart h i).nextData = h.nextData ∧
      (copyMoved m start newStart h i).anonPageCount = h.anonPageCount ∧
      ∀ d, d < n → (copyMoved m start newStart h i).bytes d = h.bytes d := by
  unfold copyMoved
  split
  · rename_i dst src hdst _
    refine ⟨rfl, rfl, fun d hd => ?_⟩
    have hge := hfresh dst hdst
    funext o
    have hne : ¬ (d = dst.data ∧ dst.offset ≤ o ∧ o < dst.offset + pageSize) := by
      rintro ⟨heq, -⟩
      omega
    simp only [Host.copyPage, if_neg hne]
  · exact ⟨rfl, rfl, fun _ _ => rfl⟩

theorem copyPages_host (m : Mem) (start newStart n : Nat) (is : List Nat)
    (hfresh : ∀ i ∈ is, ∀ e, memPt m (newStart + i) = some e → n ≤ e.data) (h : Host) :
    (copyPages m start newStart is h).nextData = h.nextData ∧
      (copyPages m start newStart is h).anonPageCount = h.anonPageCount ∧
      ∀ d, d < n → (copyPages m start newStart is h).bytes d = h.bytes d := by
  induction is generalizing h with
  | nil => exact ⟨rfl, rfl, fun _ _ => rfl⟩
  | cons i rest ih =>
    obtain ⟨h1, h2, h3⟩ := copyMoved_host m start newStart n i
      (hfresh i List.mem_cons_self) h
    obtain ⟨g1, g2, g3⟩ := ih (fun j hj => hfresh j (List.mem_cons_of_mem i hj))
      (copyMoved m start newStart h i)
    exact ⟨g1.trans h1, g2.trans h2, fun d hd => (g3 d hd).trans (h3 d hd)⟩

theorem sound_mremapMove (hl : Live v) (start oldPages : Nat) {newPages : Nat}
    (flags : Flags) (hole : HoleChoice) (hnew : newPages ≤ pageSpanBound)
    (hlt : oldPages < newPages) : Sound v (mremapMove v start oldPages newPages flags hole).2 := by
  have hv := sound_mmapHint hl hole.hint
  unfold mremapMove
  dsimp only
  set w : Vm := { v with mem := { v.mem with mmapHint := hole.hint } }
  have hlw : Live w := hv.live hl
  split
  · exact hv
  · rename_i hbad
    have hp : hole.page ≤ pageSpanBound := by
      simp only [memPages, pageSpanBound] at *
      omega
    have hmap := sound_ptMapNothing hlw flags hp hnew
    set r := ptMapNothing w hole.page newPages flags with hr
    split
    · exact hv.trans hmap
    · rename_i hok
      rw [mappedAt_snd]
      set h' := if Flags.any flags Flags.rwx = true then
        copyPages r.2.mem start hole.page (List.range oldPages) r.2.host else r.2.host with hh'
      have hcopy : h'.nextData = r.2.host.nextData ∧ h'.anonPageCount = r.2.host.anonPageCount ∧
          ∀ d, d < w.host.nextData → h'.bytes d = r.2.host.bytes d := by
        rw [hh']
        split
        · refine copyPages_host _ _ _ w.host.nextData _ (fun i hi e he => ?_) _
          refine ptMapNothing_fresh (by rw [← hr]; omega) (by omega) ?_ he
          rw [List.mem_range] at hi
          simp only [pageRange, List.mem_range'_1, wordMod, memPages, pageSpanBound] at *
          omega
        · exact ⟨rfl, rfl, fun _ _ => rfl⟩
      have hbytes : Sound w ⟨h', r.2.mem⟩ :=
        ⟨hmap.ext.rebytes hcopy.1 hcopy.2.2, hmap.coh,
          hmap.bal.trans (Balanced.of_eq rfl hcopy.2.1)⟩
      exact (hv.trans hbytes).trans (sound_ptUnmapAlways (hbytes.live hlw) _ _)

theorem sound_sysMremap (hl : Live v) {addr : Nat} (haddr : addr < wordMod)
    (oldLen newLen : Nat) (mayMove badFlags : Bool) (hole : HoleChoice) :
    Sound v (sysMremap v addr oldLen newLen mayMove badFlags hole).2 := by
  have hstart : page addr ≤ 0x10000000000000 := by
    unfold page
    simp only [wordMod, pageSize] at *
    omega
  have hold := pageRoundUp32_le oldLen
  have hnew := pageRoundUp32_le newLen
  unfold sysMremap
  split
  · exact Sound.refl hl
  split
  · exact Sound.refl hl
  split
  · exact Sound.refl hl
  dsimp only
  split
  · exact sound_ptUnmap hl _ _
  · rename_i hlt
    split
    · exact Sound.refl hl
    split
    · exact Sound.refl hl
    split
    · exact Sound.refl hl
    split
    · exact sound_ptMapNothing hl _ (by simp only [pageSpanBound] at *; omega)
        (by simp only [pageSpanBound]; omega)
    split
    · exact Sound.refl hl
    · exact sound_mremapMove hl _ _ _ _ (by simp only [pageSpanBound]; omega) (by omega)

/-! ## `brk` -/

theorem extends_brkGrow (hl : Live v) (brk newBrk : Nat) : Extends v (brkGrow v brk newBrk).2 ∧
      Coherent v.mem (brkGrow v brk newBrk).2.mem := by
  unfold brkGrow
  dsimp only
  split
  · exact ⟨Extends.refl hl, Coherent.refl _⟩
  split
  · exact ⟨Extends.refl hl, Coherent.refl _⟩
  set w : Vm := ⟨v.host.addAnon (toLong (brkSize brk newBrk)), v.mem⟩
  have h0 : Extends v w := (shrinks_addAnon v _).extends hl
  have h1 := h0.trans (extends_ptMapNothing (h0.live hl) (pageRoundUp brk)
    (brkSize brk newBrk) Flags.write)
  have hc : Coherent v.mem (ptMapNothing w (pageRoundUp brk) (brkSize brk newBrk)
      Flags.write).2.mem := coherent_ptMapNothing w _ _ _
  split
  · exact ⟨h1.trans ((shrinks_addAnon _ _).extends (h1.live hl)), hc⟩
  · exact ⟨h1, hc⟩

theorem sound_brkShrink (hl : Live v) (brk newBrk : Nat) : Sound v (brkShrink v brk newBrk) := by
  unfold brkShrink
  split
  · exact sound_ptUnmapAlways hl _ _
  · exact Sound.refl hl

def brkGrows (v : Vm) (brk newBrk : Nat) : Bool :=
  (brkGrow v brk newBrk).1 && brkSize brk newBrk != 0

theorem balanced_brkGrow {brk newBrk : Nat}
    (h : brkGrows v brk newBrk = false) : Balanced v (brkGrow v brk newBrk).2 := by
  unfold brkGrows at h
  unfold brkGrow at h ⊢
  dsimp only at h ⊢
  split
  · rfl
  rename_i hhole
  rw [if_neg hhole] at h
  split
  · rfl
  rename_i hlim
  rw [if_neg hlim] at h
  set w : Vm := ⟨v.host.addAnon (toLong (brkSize brk newBrk)), v.mem⟩ with hw
  have h0 : balance w = balance v + toLong (brkSize brk newBrk) := by
    simp only [hw, balance, addAnon_anonPageCount]
    omega
  split
  · rename_i hfail
    have hb := balanced_ptMapNothing w (pageRoundUp brk) (brkSize brk newBrk)
      Flags.write (Or.inr hfail)
    simp only [Balanced, balance, addAnon_anonPageCount] at hb h0 ⊢
    omega
  · rename_i hok
    rw [if_neg hok] at h
    have hz : brkSize brk newBrk = 0 := by simpa using h
    have hb := balanced_ptMapNothing w (pageRoundUp brk) (brkSize brk newBrk)
      Flags.write
      (Or.inl ⟨pageRoundUp_le brk, by rw [hz]; exact Nat.zero_le _⟩)
    simp only [Balanced] at hb ⊢
    rw [hb, h0, hz]
    simp [toLong]

end IosLinuxkit.Kernel
