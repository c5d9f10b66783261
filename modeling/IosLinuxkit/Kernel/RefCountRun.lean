import Mathlib.Algebra.Ring.Nat
import IosLinuxkit.Kernel.RefCount
import IosLinuxkit.Kernel.SystemLemmas

/-!
# Reference counts over whole runs

The counts of one address space in its surroundings (`Counted`) put together for all of them.

* **`worldCounted_exec`** — every step of the system keeps every count.
* **`refcount_run`** — every run.
-/

namespace IosLinuxkit.Kernel

variable {o : Nat → Nat} {b h : Host} {v : Vm} {w : World} {d p a : Nat} {m : Mem} {mm mm' : Mm}

/-! ## Copying an address space -/

def CopyCounted (o : Nat → Nat) (b : Host) (c : CopyState) : Prop :=
  Counted (fun d => o d + (uses d c.src).toNat) b ⟨c.host, c.dst⟩

theorem uses_setEntry_same {e : PtEntry} (he : memPt m p = some e) (e' : PtEntry)
    (hd : e'.data = e.data) (d : Nat) : uses d (m.setEntry p e') = uses d m := by
  have hlook : m.pt.lookup (slot p) = some e := he
  rw [uses_setEntry, Assoc.weightAt_of_some hlook, use, use, hd]
  omega

theorem Counted.present (hc : Counted o b v) (hpos : 0 < o d) :
    ∃ x, v.host.datas.lookup d = some x := by
  have hcount := hc.count d
  have hnn := uses_nonneg d v.mem
  cases hx : v.host.datas.lookup d with
  | none =>
    rw [refs_of_none hx] at hcount
    omega
  | some x => exact ⟨x, rfl⟩

theorem CopyCounted.copyPage {c : CopyState} (hc : CopyCounted o b c) (hp : p + 1 < wordMod) :
    CopyCounted o b (copyPage c p) := by
  cases he : memPt c.src p with
  | none =>
    unfold Kernel.copyPage
    rw [he]
    exact hc
  | some e =>
    rw [copyPage_eq he]
    set u := ptUnmapAlways ⟨c.host, c.dst⟩ p 1
    have hclear : Counted (fun d => o d + (uses d c.src).toNat) b u :=
      recounts_ptUnmapAlways ⟨c.host, c.dst⟩ p 1 _ b hc
    have hnone : u.mem.pt.lookup (slot p) = none := ptUnmapAlways_one_unmapped _ hp
    -- the entry of the source keeps the object through the unmapping
    have hsrc := uses_pos he
    obtain ⟨x, hx⟩ := hclear.present (d := e.data)
      (show 0 < o e.data + (uses e.data c.src).toNat by omega)
    have hsame : (fun d => o d +
          (uses d (c.src.setEntry p { e with flags := sharedFlags e.flags })).toNat)
        = fun d => o d + (uses d c.src).toNat := by
      funext d
      rw [uses_setEntry_same he { e with flags := sharedFlags e.flags } rfl]
    unfold CopyCounted
    dsimp only
    rw [hsame]
    refine hclear.step (retainData_nextData _ _) (fun d => ?_) fun _ _ => lookup_retainData
    have hcount := hclear.count d
    dsimp only at hcount ⊢
    rw [refs_retainData hx, uses_setEntry, Assoc.weightAt_of_none hnone, hcount, use]
    by_cases hd : d = e.data
    · rw [if_pos hd, if_pos hd.symm]
      omega
    · rw [if_neg hd, if_neg fun h => hd h.symm]
      omega

theorem CopyCounted.copyLoop {stop : Nat} (hstop : stop < wordMod) :
    ∀ (fuel p : Nat) (c : CopyState), CopyCounted o b c → CopyCounted o b (copyLoop stop fuel p c)
  | 0, _, _, hc => hc
  | fuel + 1, p, c, hc => by
    unfold Kernel.copyLoop
    split
    · exact CopyCounted.copyLoop hstop fuel _ _ (hc.copyPage (by omega))
    · exact hc

theorem counted_ptCopyOnWrite (hc : Counted o b ⟨h, m⟩) (start pages : Nat) :
    Counted (fun d => o d + (uses d (ptCopyOnWrite h m memInit start pages).2.1).toNat) b
      ⟨(ptCopyOnWrite h m memInit start pages).1, (ptCopyOnWrite h m memInit start pages).2.2⟩ := by
  have hstop : (start + pages) % wordMod < wordMod := Nat.mod_lt _ (by decide)
  have hinit : CopyCounted o b ⟨h, m, memInit, 0⟩ := by
    refine ⟨fun d => ?_, hc.fresh, hc.next, hc.unused⟩
    have hcount := hc.count d
    have hnn := uses_nonneg d m
    have hzero : uses d memInit = 0 := rfl
    dsimp only at hcount ⊢
    rw [hzero, hcount]
    omega
  have hloop := CopyCounted.copyLoop hstop ((start + pages) % wordMod - start) start _ hinit
  unfold ptCopyOnWrite
  dsimp only
  set c := Kernel.copyLoop ((start + pages) % wordMod) ((start + pages) % wordMod - start) start
    ⟨h, m, memInit, 0⟩
  have hsame := sameHost_copyReservations c.src.reservations (c.host.addAnon c.anonCopied) c.dst
  obtain ⟨hpt, -⟩ := copyReservations_mem c.src.reservations (c.host.addAnon c.anonCopied) c.dst
  exact Counted.congr hloop hsame.datas hsame.nextData hpt

/-! ## All address spaces -/

/-- The page-table entries of an address space that refer to the object. -/
def entryCount (d : Nat) (m : Mem) : Nat := m.pt.entries.countP fun s => s.2.data = d

/-- The page-table entries over all address spaces that refer to the object. -/
def World.references (w : World) (d : Nat) : Nat :=
  (w.spaces.entries.map fun s => entryCount d s.2.mem).sum

theorem uses_eq_entryCount (d : Nat) (m : Mem) : uses d m = entryCount d m := by
  unfold uses Assoc.sumBy entryCount
  induction m.pt.entries with
  | nil => rfl
  | cons s rest ih =>
    rw [List.foldr_cons, ih, List.countP_cons, use]
    by_cases hd : s.2.data = d
    · simp [hd]
      omega
    · simp [hd]

theorem references_eq (w : World) (d : Nat) :
    (w.references d : Int) = Assoc.sumBy (fun mm : Mm => uses d mm.mem) w.spaces := by
  unfold World.references Assoc.sumBy
  induction w.spaces.entries with
  | nil => rfl
  | cons s rest ih =>
    have hone := uses_eq_entryCount d s.2.mem
    rw [List.map_cons, List.sum_cons, List.foldr_cons, ← ih]
    dsimp only
    omega

structure WorldCounted (b : Host) (w : World) : Prop where
  count : ∀ d, refs w.host d = w.references d
  fresh : ∀ d, w.host.nextData ≤ d → w.host.datas.lookup d = none
  next : b.nextData ≤ w.host.nextData
  unused : ∀ d x, w.host.datas.lookup d = some x → x.refcount = 0 → WasUnused b d

def World.elsewhere (w : World) (a d : Nat) : Nat :=
  (Assoc.sumBy (fun mm : Mm => uses d mm.mem) (w.spaces.erase a)).toNat

theorem elsewhere_eq (w : World) (a d : Nat) :
    (w.elsewhere a d : Int) = Assoc.sumBy (fun mm : Mm => uses d mm.mem) (w.spaces.erase a) :=
  Int.toNat_of_nonneg (Assoc.sumBy_nonneg (fun mm : Mm => uses_nonneg d mm.mem) _)

theorem references_of_lookup (hlook : w.spaces.lookup a = some mm) (d : Nat) :
    (w.references d : Int) = w.elsewhere a d + uses d mm.mem := by
  rw [elsewhere_eq, Assoc.sumBy_erase, Assoc.weightAt_of_some hlook, references_eq]
  omega

theorem WorldCounted.counted (hw : WorldCounted b w) (hlook : w.spaces.lookup a = some mm) :
    Counted (w.elsewhere a) b ⟨w.host, mm.mem⟩ :=
  ⟨fun d => by rw [hw.count d, references_of_lookup hlook], hw.fresh, hw.next, hw.unused⟩

theorem Counted.world (hc : Counted o b ⟨w.host, mm.mem⟩) (hlook : w.spaces.lookup a = some mm)
    (ho : ∀ d, o d = w.elsewhere a d) : WorldCounted b w :=
  ⟨fun d => by rw [hc.count d, references_of_lookup hlook, ho d], hc.fresh, hc.next, hc.unused⟩

theorem elsewhere_insert (w : World) (a : Nat) (mm' : Mm) (h : Host) (n : Nat) (ts : List Thread)
    (d : Nat) : World.elsewhere ⟨h, w.spaces.insert a mm', n, ts⟩ a d = w.elsewhere a d := by
  unfold World.elsewhere
  dsimp only
  rw [Assoc.sumBy_erase, Assoc.sumBy_erase, Assoc.sumBy_insert,
    Assoc.weightAt_of_some (AList.lookup_insert _)]
  congr 1
  omega

theorem WorldCounted.replace (hw : WorldCounted b w) (hlook : w.spaces.lookup a = some mm)
    (hr : Recounts ⟨w.host, mm.mem⟩ ⟨h, mm'.mem⟩) (n : Nat) (ts : List Thread) :
    WorldCounted b ⟨h, w.spaces.insert a mm', n, ts⟩ :=
  (hr _ b (hw.counted hlook)).world (AList.lookup_insert _) fun d =>
    (elsewhere_insert w a mm' h n ts d).symm

theorem WorldCounted.congr {w' : World} (hw : WorldCounted b w)
    (hd : w'.host.datas = w.host.datas) (hn : w'.host.nextData = w.host.nextData)
    (hs : w'.spaces = w.spaces) : WorldCounted b w' := by
  refine ⟨fun d => ?_, ?_, by rw [hn]; exact hw.next, by rw [hd]; exact hw.unused⟩
  · rw [refs, hd, World.references, hs]
    exact hw.count d
  · rw [hd, hn]
    exact hw.fresh

theorem WorldCounted.rebase (hw : WorldCounted b w) : WorldCounted w.host w :=
  ⟨hw.count, hw.fresh, Nat.le_refl _, fun _ x hx hz => Or.inr ⟨x, hx, hz⟩⟩

theorem worldCounted_init : WorldCounted World.init.host World.init :=
  ⟨fun _ => rfl, fun _ _ => rfl, Nat.le_refl _, by intro d x hx; cases hx⟩

theorem worldCounted_withSpace (hw : WorldCounted b w) (a : Nat) {f : Vm → Vm}
    (hf : ∀ v, Recounts v (f v)) : WorldCounted b (w.withSpace a f) := by
  unfold World.withSpace
  cases hlook : w.spaces.lookup a with
  | none => exact hw
  | some mm => exact hw.replace hlook (hf ⟨w.host, mm.mem⟩) _ _

theorem worldCounted_sameMem (hw : WorldCounted b w) (hlook : w.spaces.lookup a = some mm)
    (hmem : mm'.mem = mm.mem) : WorldCounted b { w with spaces := w.spaces.insert a mm' } :=
  hw.replace hlook (by rw [hmem]; exact Recounts.refl _) _ _

theorem references_insert_new (hnone : w.spaces.lookup a = none) (h : Host) (mm : Mm) (n : Nat)
    (ts : List Thread) (d : Nat) : (World.references ⟨h, w.spaces.insert a mm, n, ts⟩ d : Int) =
      w.references d + uses d mm.mem := by
  rw [references_eq, references_eq]
  dsimp only
  rw [Assoc.sumBy_insert, Assoc.weightAt_of_none hnone]
  omega

theorem worldCounted_fork (hw : WorldCounted b w) (hfresh : w.spaces.lookup w.nextSpace = none)
    (a : Nat) : WorldCounted b (w.fork a) := by
  unfold World.fork
  cases hlook : w.spaces.lookup a with
  | none => exact hw
  | some mm =>
    have hsame := sameHost_attempt w.host
    have hstart : Counted (w.elsewhere a) b ⟨w.host.attempt.2, mm.mem⟩ :=
      (hw.counted hlook).of_sameHost hsame rfl
    dsimp only
    split
    · have hcopy := counted_ptCopyOnWrite hstart 0 memPages
      set r := ptCopyOnWrite w.host.attempt.2 mm.mem memInit 0 memPages
      refine ⟨fun d => ?_, hcopy.fresh, hcopy.next, hcopy.unused⟩
      have hne : w.nextSpace ≠ a := by
        rintro rfl
        rw [hfresh] at hlook
        cases hlook
      -- the source first, then the new address space beside it
      let w₁ : World := ⟨r.1, w.spaces.insert a { mm with mem := r.2.1 }, w.nextSpace, w.threads⟩
      have hnone : w₁.spaces.lookup w.nextSpace = none := by
        show (w.spaces.insert a _).lookup w.nextSpace = none
        rw [AList.lookup_insert_ne hne, hfresh]
      have hsrc : (w₁.references d : Int) = w.elsewhere a d + uses d r.2.1 := by
        rw [references_of_lookup (AList.lookup_insert _), elsewhere_insert]
      have hboth := references_insert_new hnone r.1 { mm with mem := r.2.2, refcount := 1 }
        (w.nextSpace + 1) w.threads d
      have hcount := hcopy.count d
      have hnn := uses_nonneg d r.2.1
      dsimp only at hcount hboth ⊢
      rw [hboth, hsrc, hcount]
      omega
    · exact hw.congr hsame.datas hsame.nextData rfl

theorem uses_memDestroy (v : Vm) (d : Nat) : uses d (memDestroy v).mem = 0 :=
  Assoc.sumBy_eq_zero fun k e h => by
    rw [memDestroy_unmapped] at h
    cases h

theorem worldCounted_release (hw : WorldCounted b w) (a : Nat) : WorldCounted b (w.release a) := by
  unfold World.release
  cases hlook : w.spaces.lookup a with
  | none => exact hw
  | some mm =>
    dsimp only
    split
    · have hgone : Counted (w.elsewhere a) b (memDestroy ⟨w.host, mm.mem⟩) :=
        Counted.congr (recounts_ptUnmapAlways ⟨w.host, mm.mem⟩ 0 memPages _ b (hw.counted hlook))
          rfl rfl rfl
      refine ⟨fun d => ?_, hgone.fresh, hgone.next, hgone.unused⟩
      have hcount := hgone.count d
      rw [uses_memDestroy, Int.add_zero, elsewhere_eq] at hcount
      rw [references_eq]
      exact hcount
    · exact worldCounted_sameMem hw hlook rfl

theorem worldCounted_advance (hw : WorldCounted b w) (i : Nat) (limit : Option Nat) :
    WorldCounted b (w.advance i limit) := by
  unfold World.advance
  split
  · exact hw
  split
  · exact hw
  split
  · exact hw
  case h_2 mm hlook => exact hw.replace hlook (recounts_threadStep _ _ _) _ _

theorem worldCounted_exec (hw : WorldCounted b w) (hfresh : w.spaces.lookup w.nextSpace = none)
    (op : Op) : WorldCounted b (w.exec op) := by
  cases op with
  | mmNew =>
    refine ⟨fun d => ?_, hw.fresh, hw.next, hw.unused⟩
    have hnew := references_insert_new hfresh w.host Kernel.mmNew (w.nextSpace + 1) w.threads d
    have hzero : uses d Kernel.mmNew.mem = 0 := rfl
    show refs w.host d = _
    rw [hw.count d]
    refine Eq.trans ?_ hnew.symm
    omega
  | mmRetain a =>
    simp only [World.exec]
    split
    · exact hw
    case h_2 mm hlook => exact worldCounted_sameMem hw hlook rfl
  | mmRelease a => exact worldCounted_release hw a
  | fork a => exact worldCounted_fork hw hfresh a
  | mmap a args => exact worldCounted_withSpace hw a fun v => recounts_sysMmap v args
  | munmap a addr len => exact worldCounted_withSpace hw a fun v => recounts_sysMunmap v _ _
  | mprotect a addr len prot =>
    exact worldCounted_withSpace hw a fun v => recounts_sysMprotect v _ _ _
  | mremap a addr oldLen newLen mayMove badFlags hole =>
    exact worldCounted_withSpace hw a fun v => recounts_sysMremap v _ _ _ _ _ _
  | setBrk a addr =>
    simp only [World.exec]
    split
    · exact hw
    case h_2 mm hlook => exact worldCounted_sameMem hw hlook rfl
  | brk a newBrk =>
    show WorldCounted b (w.brk a newBrk.toNat)
    unfold World.brk
    split
    · exact hw
    case h_2 mm hlook => exact hw.replace hlook (recounts_sysBrk _ _ _ _) _ _
  | madvise a addr len advice =>
    show WorldCounted b (w.madvise a addr.toNat len.toNat advice)
    unfold World.madvise
    split
    · exact hw
    split
    · exact hw.congr rfl rfl rfl
    · exact hw
  | ptSetFlags a span flags =>
    exact worldCounted_withSpace hw a fun v => recounts_ptSetFlags v _ _ _
  | ptUnmapAlways a span =>
    exact worldCounted_withSpace hw a fun v => recounts_ptUnmapAlways v _ _
  | ptMapNothing a span flags =>
    exact worldCounted_withSpace hw a fun v => recounts_ptMapNothing v _ _ _
  | ptMap a span memory offset flags =>
    exact worldCounted_withSpace hw a fun v => recounts_ptMap v _ _ _ _ _
  | ptMapLazy a span flags =>
    exact worldCounted_withSpace hw a fun v => recounts_ptMapLazy v _ _ _
  | access a addr type inJit => exact hw.congr rfl rfl rfl
  | advance i limit => exact worldCounted_advance hw i limit
  | store i bytes =>
    show WorldCounted b (w.store i bytes)
    unfold World.store
    split
    · exact hw
    split
    · exact hw.congr rfl rfl rfl
    · exact hw

/-! ## Whole runs -/

theorem worldCounted_step (hw : WorldCounted w.host w) (hok : WorldOk w) (l : Label) :
    WorldCounted w.host (step w l) := by
  have hscript : WorldCounted w.host (w.withScript l.script) := hw.congr rfl rfl rfl
  rw [step_eq]
  exact worldCounted_exec hscript (hok.fresh w.nextSpace le_rfl) l.op

theorem worldCounted_run (ls : List Label) : WorldOk (run step World.init ls) ∧
      WorldCounted (run step World.init ls).host (run step World.init ls) := by
  have hstep : ∀ w l, WorldOk w ∧ WorldCounted w.host w →
      WorldOk (step w l) ∧ WorldCounted (step w l).host (step w l) := by
    rintro w l ⟨hok, hw⟩
    exact ⟨worldOk_step w l hok, (worldCounted_step hw hok l).rebase⟩
  exact run_invariant_all hstep ⟨worldOk_init, worldCounted_init⟩

theorem WorldCounted.lookup (hw : WorldCounted b w) (hpos : 0 < w.references d) :
    ∃ x, w.host.datas.lookup d = some x ∧ x.refcount = w.references d := by
  have hcount := hw.count d
  cases hx : w.host.datas.lookup d with
  | none =>
    rw [refs_of_none hx] at hcount
    omega
  | some x =>
    rw [refs_of_some hx] at hcount
    exact ⟨x, rfl, by omega⟩

/-- **Reference counts.** In every state of every run the count of every object is the number of
entries over all address spaces that refer to it, every entry finds its object, and a step releases
an object exactly when it leaves no entry for it. -/
theorem refcount_run (ls : List Label) :
    (∀ d x, (run step World.init ls).host.datas.lookup d = some x →
      x.refcount = (run step World.init ls).references d) ∧
    (∀ a mm p e, (run step World.init ls).spaces.lookup a = some mm → memPt mm.mem p = some e →
      ∃ x, (run step World.init ls).host.datas.lookup e.data = some x) ∧
    (∀ l d, 0 < (run step World.init ls).references d →
      ((step (run step World.init ls) l).host.datas.lookup d = none ↔
        (step (run step World.init ls) l).references d = 0)) := by
  obtain ⟨hok, hw⟩ := worldCounted_run ls
  set w := run step World.init ls
  refine ⟨fun d x hx => ?_, fun a mm p e hlook he => ?_, fun l d hpos => ⟨fun hnone => ?_, fun hz => ?_⟩⟩
  · have hcount := hw.count d
    rw [refs_of_some hx] at hcount
    omega
  · obtain ⟨x, hx, -⟩ := (hw.counted hlook).live he
    exact ⟨x, hx⟩
  · have hcount := (worldCounted_step hw hok l).count d
    rw [refs_of_none hnone] at hcount
    omega
  have hstep := worldCounted_step hw hok l
  obtain ⟨x, hx, hxc⟩ := hw.lookup hpos
  cases hy : (step w l).host.datas.lookup d with
  | none => rfl
  | some y =>
    -- a count of 0 that is not released would have been 0, or absent, before the step
    exfalso
    have hcount := hstep.count d
    rw [refs_of_some hy] at hcount
    rcases hstep.unused d y hy (by omega) with hnew | ⟨z, hz', hzero⟩
    · rw [hw.fresh d hnew] at hx
      cases hx
    rw [hx] at hz'
    cases hz'
    omega

end IosLinuxkit.Kernel
