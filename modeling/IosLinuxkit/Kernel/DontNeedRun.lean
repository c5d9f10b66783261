import IosLinuxkit.Kernel.DontNeedRange

/-!
# `MADV_DONTNEED` in a run

Which pages of a run are whose is decided by flags and by the file of the object behind a page.

* **`dontneed_run`** — in every state of every run, the call is right if and only if `DontneedFits`.
-/

namespace IosLinuxkit.Kernel

open HostProt Guard

variable {v v' : Vm} {flags : Flags} {a d start pages offset p : Nat} {e : PtEntry} {limit : Option Nat}
  {contents : Nat → UInt8} {precharged : Bool}

/-! ## New objects -/

def Unfiled (v v' : Vm) : Prop :=
  ∀ d < v'.host.nextData, (d < v.host.nextData → fdOf v.host d = none) → fdOf v'.host d = none

theorem Unfiled.of_host (hd : v'.host.datas = v.host.datas) (hn : v'.host.nextData = v.host.nextData) :
    Unfiled v v' := by
  intro d hlt hold
  unfold fdOf at hold ⊢
  rw [hd]
  exact hold (hn ▸ hlt)

theorem Unfiled.of_sameHost (hs : SameHost v.host v'.host) : Unfiled v v' := .of_host hs.datas hs.nextData

theorem Unfiled.host {w w' : Vm} (h : Unfiled w w') (hd : w.host.datas = v.host.datas)
    (hn : w.host.nextData = v.host.nextData) (hd' : v'.host.datas = w'.host.datas)
    (hn' : v'.host.nextData = w'.host.nextData) : Unfiled v v' := by
  intro d hlt hold
  have hfd : fdOf w'.host d = none := by
    refine h d (hn' ▸ hlt) fun hw => ?_
    rw [fdOf, hd]
    exact hold (hn ▸ hw)
  rw [fdOf, hd']
  exact hfd

theorem fdOf_mapPages (ps : List Nat) (v : Vm) (hd : fdOf v.host d = none) :
    fdOf (mapPages a start offset flags ps v).host d = none := by
  induction ps generalizing v with
  | nil => exact hd
  | cons p rest ih => exact ih _ (fdOf_retainData (fdOf_clearPage hd p) a)

theorem fdOf_newData (h : Host) (size : Nat) (contents : Nat → UInt8) (d : Nat) :
    fdOf (h.newData size contents) d = if d = h.nextData then none else fdOf h d := by
  show (AList.lookup d (h.datas.insert h.nextData _)).bind Data.fd = _
  split
  case isTrue heq =>
    rw [heq, AList.lookup_insert]
    rfl
  case isFalse hne =>
    rw [AList.lookup_insert_ne hne]
    rfl

theorem unfiled_ptMapAccounted (v : Vm) (start pages : Nat) (memory : Option (Nat → UInt8)) (offset : Nat)
    (flags : Flags) (precharged : Bool) :
    Unfiled v (ptMapAccounted v start pages memory offset flags precharged).2 := by
  have hsame := sameHost_attempt v.host
  unfold ptMapAccounted
  split
  · exact .of_host rfl rfl
  case h_2 contents =>
    dsimp only
    split
    case isFalse => exact @Unfiled.of_sameHost v ⟨v.host.attempt.2, v.mem⟩ hsame
    case isTrue =>
      set h := v.host.attempt.2
      set w : Vm := ⟨h.newData ((pages * pageSize + offset) % wordMod) contents, v.mem⟩
      have hmap : Unfiled v (mapPages h.nextData start offset flags (pageRange start pages) w) := by
        intro d hlt hold
        rw [next_mapPages] at hlt
        refine fdOf_mapPages _ w ?_
        rw [fdOf_newData]
        split
        case isTrue => rfl
        case isFalse hne =>
          have hlt' : d < h.nextData + 1 := hlt
          rw [fdOf, hsame.datas]
          refine hold ?_
          rw [← hsame.nextData]
          omega
      refine hmap.host rfl rfl ?_ ?_ <;> split <;> rfl

theorem unfiled_charged {h : Host} {c : Bool} {k : Int} (hr : reserveIf v.host c k = some h) :
    Unfiled v (refundIf (mapRegion { v with host := h } start pages contents flags precharged) c k).2 := by
  obtain rfl := reserveIf_some hr
  have hregion : ∀ w : Vm, Unfiled w (mapRegion w start pages contents flags precharged).2 := by
    intro w
    have hsame := sameHost_attempt w.host
    unfold mapRegion
    dsimp only
    split
    · exact (unfiled_ptMapAccounted { w with host := w.host.attempt.2 } start pages (some contents) 0 flags
        precharged).host hsame.datas hsame.nextData rfl rfl
    · exact @Unfiled.of_sameHost w ⟨w.host.attempt.2, w.mem⟩ hsame
  have hall := hregion ⟨v.host.addAnon (boolToInt c * k), v.mem⟩
  unfold refundIf
  split
  · exact hall.host rfl rfl rfl rfl
  · exact hall.host rfl rfl rfl rfl

theorem unfiled_ptMapNothing (v : Vm) (start pages : Nat) (flags : Flags) :
    Unfiled v (ptMapNothing v start pages flags).2 := by
  unfold ptMapNothing
  split
  · exact .of_host rfl rfl
  dsimp only
  split
  · exact .of_host rfl rfl
  case h_2 h hr => exact unfiled_charged hr

theorem unfiled_breakCow (v : Vm) (p : Nat) (type : AccessType) : Unfiled v (breakCow v p type).2 := by
  unfold breakCow
  split
  · exact .of_host rfl rfl
  split
  · dsimp only
    split
    · exact .of_host rfl rfl
    split
    · exact .of_host rfl rfl
    case h_2 h hr => exact unfiled_charged hr
  · exact .of_host rfl rfl

theorem unfiled_memPtrStep (v : Vm) (limit : Option Nat) (c : PtrCall) :
    Unfiled v (memPtrStep v limit c).1 := by
  have hacq := sameHost_acquireWrite v.host c.inJit
  -- what is granted under the write lock
  have hgrant : ∀ {w : Vm} {r : Int × Vm}, w.host = (acquireWrite v.host c.inJit).2 → Unfiled w r.2 →
      Unfiled v (if 0 ≤ r.1 then { r.2 with mem := r.2.mem.changed } else r.2) := by
    intro w r hw hr
    split
    · exact hr.host (by rw [hw]; exact hacq.datas) (by rw [hw]; exact hacq.nextData) rfl rfl
    · exact hr.host (by rw [hw]; exact hacq.datas) (by rw [hw]; exact hacq.nextData) rfl rfl
  unfold memPtrStep
  dsimp only
  cases c.phase with
  | lookup => exact .of_host rfl rfl
  | grow =>
    dsimp only
    split
    · unfold growStack
      split
      · exact hgrant rfl (unfiled_ptMapNothing _ _ _ _)
      · exact .of_host hacq.datas hacq.nextData
    · exact .of_host hacq.datas hacq.nextData
  | materialise =>
    dsimp only
    split
    · unfold materialisePage
      split
      · split
        · exact hgrant rfl (unfiled_ptMapNothing _ _ _ _)
        · exact .of_host hacq.datas hacq.nextData
      · exact .of_host hacq.datas hacq.nextData
    · exact .of_host hacq.datas hacq.nextData
  | haveEntry => exact .of_host rfl rfl
  | breakCow => exact unfiled_breakCow v (page c.addr) c.type
  | resolve => exact .of_host rfl rfl
  | done ptr => exact .of_host rfl rfl

/-! ## One operation -/

structure KeepsAnon (v v' : Vm) : Prop where
  fd : ∀ d < v.host.nextData, fdOf v.host d = none → fdOf v'.host d = none
  entry : ∀ s e, v'.mem.pt.lookup s = some e → Flags.any e.flags Flags.anonymous = true →
    v.mem.pt.lookup s = some e ∨ fdOf v'.host e.data = none
  good : GoodReservations v.mem.reservations → GoodReservations v'.mem.reservations

theorem KeepsAnon.refl (v : Vm) : KeepsAnon v v := ⟨fun _ _ h => h, fun _ _ h _ => .inl h, id⟩

theorem KeepsAnon.of_adds (hadds : Adds v v' flags) (hu : Unfiled v v')
    (hg : GoodReservations v.mem.reservations → GoodReservations v'.mem.reservations) : KeepsAnon v v' := by
  refine ⟨fun d hd hnone => hu d (Nat.lt_of_lt_of_le hd hadds.next_le) fun _ => hnone, fun s e he _ => ?_, hg⟩
  refine (hadds.entry s e he).imp_right fun hnew => ?_
  rw [hnew.1]
  exact hu _ hnew.2.1 fun hlt => absurd hlt (Nat.lt_irrefl _)

theorem KeepsAnon.anonFree (h : KeepsAnon v v') (hl : Live v) (hf : AnonFree v) : AnonFree v' := by
  intro s e he ha
  rcases h.entry s e he ha with hold | hnone
  · exact h.fd e.data (hl s e hold) (hf s e hold ha)
  · exact hnone

theorem first_data (hp : p ≤ pageSpanBound) (hpages : pages ≤ pageSpanBound) (h0 : pages ≠ 0)
    (hok : ¬ (ptMap v p pages (some contents) offset flags).1 < 0)
    (he : memPt (ptMap v p pages (some contents) offset flags).2.mem p = some e) :
    e.data = v.host.nextData := by
  have hfirst : p ∈ pageRange p pages := by
    unfold pageRange
    rw [List.mem_range'_1, Nat.mod_eq_of_lt (by simp only [pageSpanBound, wordMod] at *; omega)]
    omega
  unfold ptMap ptMapAccounted at hok he
  dsimp only at hok he
  split at he
  case isTrue =>
    rw [← attempt_nextData v.host]
    exact mapPages_data _ _ _ _ _ _ p hfirst e he
  case isFalse hfail =>
    rw [if_neg hfail] at hok
    exact absurd eNOMEM_neg hok

theorem keepsAnon_mmapFile (file : FileArg) (hp : p ≤ pageSpanBound) (hpages : pages ≤ pageSpanBound)
    (h0 : pages ≠ 0) (hflags : Flags.any flags Flags.anonymous = false) :
    KeepsAnon v (mmapFile v p pages flags file).2 := by
  cases file with
  | badFd => exact .refl v
  | noMmap => exact .refl v
  | file fd contents correction =>
    have hadds : Adds v (ptMap v p pages contents correction flags).2 flags := adds_ptMapAccounted v _ _ _ _ _ _
    have hu : Unfiled v (ptMap v p pages contents correction flags).2 := unfiled_ptMapAccounted v _ _ _ _ _ _
    have hmap : KeepsAnon v (ptMap v p pages contents correction flags).2 :=
      .of_adds hadds hu fun hg => ptMapAccounted_good hg _ _ _ _ _ _
    unfold mmapFile
    dsimp only
    split
    case isTrue => exact hmap
    case isFalse hok =>
      cases he : memPt (ptMap v p pages contents correction flags).2.mem p with
      | none =>
        rw [mappedAt_snd]
        exact hmap
      | some e =>
        dsimp only
        rw [mappedAt_snd]
        have hnew : e.data = v.host.nextData := by
          cases contents with
          | none => exact absurd eNOMEM_neg hok
          | some contents => exact first_data hp hpages h0 hok he
        -- only the new object has got the file
        have hother : ∀ d ≠ v.host.nextData, fdOf (Host.setFd (ptMap v p pages contents correction flags).2.host
            e.data fd) d = fdOf (ptMap v p pages contents correction flags).2.host d := by
          intro d hd
          unfold Host.setFd
          split
          · rfl
          · unfold fdOf
            rw [AList.lookup_insert_ne (by rw [hnew]; exact hd)]
        refine ⟨fun d hd hnone => ?_, fun s f hf ha => ?_, hmap.good⟩
        · rw [hother d (Nat.ne_of_lt hd)]
          exact hmap.fd d hd hnone
        rcases hadds.entry s f hf with hold | ⟨-, -, hflags'⟩
        · exact .inl hold
        · rw [hflags', hflags] at ha
          cases ha

theorem keepsAnon_mmapAt (args : MmapArgs) (hinted : Bool) (hp : p ≤ pageSpanBound)
    (hpages : pages ≤ pageSpanBound) (h0 : pages ≠ 0) (hprot : Flags.any args.prot (~~~Flags.rwx) = false) :
    KeepsAnon v (mmapAt v args hinted p pages).2 := by
  have hflags : Flags.any (if args.flags.shared then args.prot ||| Flags.shared else args.prot)
      Flags.anonymous = false := by
    have hanon : Flags.any args.prot Flags.anonymous = false := by
      have hzero : args.prot &&& ~~~Flags.rwx = 0#32 := by simpa [Flags.any] using hprot
      unfold Flags.any
      rw [show Flags.anonymous = ~~~Flags.rwx &&& Flags.anonymous by decide, ← BitVec.and_assoc, hzero]
      rfl
    split
    · rw [Flags.any_or, hanon, show Flags.any Flags.shared Flags.anonymous = false by decide]
      rfl
    · exact hanon
  unfold mmapAt
  dsimp only
  split
  case isFalse => exact keepsAnon_mmapFile args.file hp hpages h0 hflags
  case isTrue =>
    unfold mmapAnonymous
    dsimp only
    generalize (if args.flags.shared then args.prot ||| Flags.shared else args.prot) = prot
    split
    case isTrue harena =>
      rw [Bool.and_eq_true, decide_eq_true_eq] at harena
      split
      case isTrue => exact .refl v
      case isFalse hfree =>
        rw [mappedAt_snd]
        have hlazy : mapLazy v (alignArena v.mem hinted p pages) pages prot =
            (ptMapLazy v (alignArena v.mem hinted p pages) pages prot).2 := by
          refine if_neg ?_
          rw [Bool.or_eq_true, not_or] at hfree
          rintro (hc | hc)
          · omega
          · exact hfree.2 hc
        have hshrinks := shrinks_mapLazy v (alignArena v.mem hinted p pages) pages prot
        have hsame := sameHost_attempt v.host
        rw [hlazy] at hshrinks
        have hadds : Adds v (ptMapLazy v (alignArena v.mem hinted p pages) pages prot).2 0 := .of_shrinks hshrinks
        refine .of_adds hadds ?_ fun hg => hlazy ▸ mapLazy_good hg _ _ _
        unfold ptMapLazy
        dsimp only
        split
        · exact .of_host hsame.datas hsame.nextData
        · exact .of_host hsame.datas hsame.nextData
    case isFalse =>
      rw [mappedAt_snd]
      exact .of_adds (adds_ptMapNothing v _ _ _) (unfiled_ptMapNothing v _ _ _) fun hg =>
        ptMapNothing_good hg _ _ _

theorem keepsAnon_sysMmap (v : Vm) (args : MmapArgs) : KeepsAnon v (sysMmap v args).2 := by
  have hpages := pageRoundUp_le args.len
  unfold sysMmap
  split
  · exact .refl v
  split
  · exact .refl v
  case isFalse hprot =>
    have hprot' : Flags.any args.prot (~~~Flags.rwx) = false := Bool.eq_false_iff.mpr hprot
    split
    · exact .refl v
    unfold doMmap
    dsimp only
    split_ifs with h0 h2 h3 hhint hbad
    · exact .refl v
    · exact .refl v
    · exact .refl v
    · exact keepsAnon_mmapAt args true (hintUsed_bounds hhint) hpages h0 hprot'
    · exact ⟨fun _ _ h => h, fun _ _ h _ => .inl h, id⟩
    have hp : args.hole.page ≤ pageSpanBound := by
      simp only [memPages, pageSpanBound] at *
      omega
    have hmap := keepsAnon_mmapAt (v := { v with mem := { v.mem with mmapHint := args.hole.hint } }) args
      false hp hpages h0 hprot'
    exact ⟨hmap.fd, hmap.entry, hmap.good⟩

theorem keepsAnon_memPtrStep (v : Vm) (limit : Option Nat) (c : PtrCall) (haddr : c.addr < wordMod) :
    KeepsAnon v (memPtrStep v limit c).1 := by
  have hpage : PageStep v (memPtrStep v limit c).1 (page c.addr) c.type c.phase := pageStep_memPtrStep c haddr
  have hadds : ∃ flags, Adds v (memPtrStep v limit c).1 flags := by
    have hrep : ∀ {flags contents}, Replaced v (memPtrStep v limit c).1 (page c.addr) flags contents →
        Adds v (memPtrStep v limit c).1 flags := fun hr => by
      refine ⟨by rw [hr.next]; exact Nat.le_succ _, fun s f hf => ?_⟩
      have hs : slot s.val = s := Fin.ext (Nat.mod_eq_of_lt s.isLt)
      have hentry := hr.entry s.val
      rw [memPt, hs, hf] at hentry
      split at hentry
      · cases hentry
        exact .inr ⟨rfl, by rw [hr.next]; exact Nat.lt_succ_self _, rfl⟩
      · rw [memPt, hs] at hentry
        exact .inl hentry.symm
    generalize c.phase = phase at hpage
    cases hpage with
    | same hu => exact ⟨0, Nat.le_of_eq hu.next.symm, fun s f hf => .inl (hu.pt ▸ hf)⟩
    | grown _ _ _ hr | materialised _ _ _ _ hr | copied _ _ _ _ hr => exact ⟨_, hrep hr⟩
  obtain ⟨flags, hadds⟩ := hadds
  exact .of_adds hadds (unfiled_memPtrStep v limit c) (good_interval hpage)

theorem keepsAnon_threadStep (v : Vm) (limit : Option Nat) {t : Thread} (ht : ThreadOk t) :
    KeepsAnon v (threadStep v limit t).1 := by
  cases t with
  | idle => exact .refl v
  | access a c gen => exact keepsAnon_memPtrStep v limit c ht
  | madvise a next stop call any =>
    unfold threadStep madviseStep
    cases call with
    | none =>
      dsimp only
      split
      · split
        · exact .refl v
        split
        · exact .refl v
        · exact .refl v
      split
      · exact ⟨fun _ _ h => h, fun _ _ h _ => .inl h, id⟩
      · exact .refl v
    | some c =>
      have hstep := keepsAnon_memPtrStep v limit c ((ht.2.2 c rfl).1 ▸ ht.1)
      dsimp only
      split
      · exact hstep
      · exact ⟨hstep.fd, hstep.entry, hstep.good⟩
      · exact hstep

/-! ## Every operation -/

/-- What is true of the address spaces: anonymous pages have no file, and reservations share no page. -/
structure AnonSpaces (w : World) : Prop where
  anon : ∀ a mm, w.spaces.lookup a = some mm → AnonFree ⟨w.host, mm.mem⟩
  good : ∀ a mm, w.spaces.lookup a = some mm → GoodReservations mm.mem.reservations

theorem anonSpaces_init : AnonSpaces World.init := by
  refine ⟨fun a mm h => ?_, fun a mm h => ?_⟩
  · cases h
  · cases h

theorem anonSpaces_put {w w' : World} {mm : Mm} (hw : WorldOk w) (h : AnonSpaces w) (hlook : w.spaces.lookup a = some mm)
    (hkeeps : KeepsAnon ⟨w.host, mm.mem⟩ v') (hhost : w'.host = v'.host) {mm' : Mm} (hmem : mm'.mem = v'.mem)
    (hspaces : w'.spaces = w.spaces.insert a mm') : AnonSpaces w' := by
  refine ⟨fun b mb hb => ?_, fun b mb hb => ?_⟩
  · rw [hspaces] at hb
    rcases Assoc.lookup_insert_some hb with ⟨-, rfl⟩ | ⟨-, hb⟩
    · rw [hhost, hmem]
      exact hkeeps.anonFree (hw.live_vm hlook) (h.anon a mm hlook)
    intro s e he ha
    show fdOf w'.host e.data = none
    rw [hhost]
    exact hkeeps.fd e.data (hw.live_vm hb s e he) (h.anon b mb hb s e he ha)
  rw [hspaces] at hb
  rcases Assoc.lookup_insert_some hb with ⟨-, rfl⟩ | ⟨-, hb⟩
  · rw [hmem]
    exact hkeeps.good (h.good a mm hlook)
  · exact h.good b mb hb

theorem anonSpaces_same {w w' : World} (h : AnonSpaces w) (hd : w'.host.datas = w.host.datas)
    (hspaces : ∀ a mm, w'.spaces.lookup a = some mm → mm.mem = memInit ∨
      ∃ mm₀, w.spaces.lookup a = some mm₀ ∧ mm.mem = mm₀.mem) : AnonSpaces w' := by
  refine ⟨fun a mm hlook s e he ha => ?_, fun a mm hlook => ?_⟩
  · show fdOf w'.host e.data = none
    rw [fdOf, hd]
    rcases hspaces a mm hlook with hinit | ⟨mm₀, h₀, hmem⟩
    · dsimp only at he
      rw [hinit] at he
      cases he
    dsimp only at he
    rw [hmem] at he
    exact h.anon a mm₀ h₀ s e he ha
  rcases hspaces a mm hlook with hinit | ⟨mm₀, h₀, hmem⟩
  · rw [hinit]
    exact ⟨fun r hr => absurd hr List.not_mem_nil, List.Pairwise.nil⟩
  · rw [hmem]
    exact h.good a mm₀ h₀

/-! ## Forks -/

structure Apart (h : Host) (c : CopyState) : Prop where
  fd : ∀ d, fdOf h d = none → fdOf c.host d = none
  src : AnonFree ⟨c.host, c.src⟩
  dst : AnonFree ⟨c.host, c.dst⟩

theorem anonymous_sharedFlags (f : Flags) :
    Flags.any (sharedFlags f) Flags.anonymous = Flags.any f Flags.anonymous := by
  unfold sharedFlags
  split
  · rfl
  · rw [Flags.any_or, show Flags.any Flags.cow Flags.anonymous = false by decide, Bool.or_false]

theorem apart_copyPage {h : Host} {c : CopyState} (hc : Apart h c) (p : Nat) : Apart h (copyPage c p) := by
  cases he : memPt c.src p with
  | none =>
    unfold copyPage
    rw [he]
    exact hc
  | some e =>
    rw [copyPage_eq he]
    have hfd : ∀ d, fdOf c.host d = none →
        fdOf ((ptUnmapAlways ⟨c.host, c.dst⟩ p 1).host.retainData e.data) d = none := fun d hd =>
      fdOf_retainData (fdOf_ptUnmapAlways (v := ⟨c.host, c.dst⟩) hd p 1) e.data
    have hnew : Flags.any (sharedFlags e.flags) Flags.anonymous = true → fdOf c.host e.data = none := by
      rw [anonymous_sharedFlags]
      exact hc.src (slot p) e he
    refine ⟨fun d hd => hfd d (hc.fd d hd), fun s f hf ha => ?_, fun s f hf ha => ?_⟩
    · rcases Assoc.lookup_insert_some hf with ⟨-, rfl⟩ | ⟨-, hf⟩
      · exact hfd _ (hnew ha)
      · exact hfd _ (hc.src s f hf ha)
    rcases Assoc.lookup_insert_some hf with ⟨-, rfl⟩ | ⟨-, hf⟩
    · exact hfd _ (hnew ha)
    · exact hfd _ (hc.dst s f ((shrinks_ptUnmapAlways ⟨c.host, c.dst⟩ p 1).entry s f hf) ha)

theorem apart_copyLoop {h : Host} {c : CopyState} (stop fuel p : Nat) (hc : Apart h c) :
    Apart h (copyLoop stop fuel p c) := by
  induction fuel generalizing p c with
  | zero => exact hc
  | succ fuel ih =>
    unfold copyLoop
    split
    · exact ih _ (apart_copyPage hc p)
    · exact hc

theorem apart_ptCopyOnWrite (h : Host) (m : Mem) (start pages : Nat) (hf : AnonFree ⟨h, m⟩) :
    Apart h ⟨(ptCopyOnWrite h m memInit start pages).1, (ptCopyOnWrite h m memInit start pages).2.1,
      (ptCopyOnWrite h m memInit start pages).2.2, 0⟩ := by
  have hstart : Apart h ⟨h, m, memInit, 0⟩ := ⟨fun _ hd => hd, hf, fun s e he => (by cases he)⟩
  have hloop := apart_copyLoop ((start + pages) % wordMod) ((start + pages) % wordMod - start) start hstart
  unfold ptCopyOnWrite
  dsimp only
  generalize copyLoop ((start + pages) % wordMod) ((start + pages) % wordMod - start) start
    ⟨h, m, memInit, 0⟩ = c at hloop ⊢
  have hsame := sameHost_copyReservations c.src.reservations (c.host.addAnon c.anonCopied) c.dst
  obtain ⟨hpt, -⟩ := copyReservations_mem c.src.reservations (c.host.addAnon c.anonCopied) c.dst
  have hfd : ∀ d, fdOf c.host d = none → fdOf (copyReservations c.src.reservations
      (c.host.addAnon c.anonCopied) c.dst).1 d = none := fun d hd => by
    rw [fdOf, hsame.datas]
    exact hd
  refine ⟨fun d hd => hfd d (hloop.fd d hd), fun s e he ha => hfd _ (hloop.src s e he ha),
    fun s e he ha => hfd _ (hloop.dst s e ?_ ha)⟩
  rw [← hpt]
  exact he

theorem anonSpaces_fork {w : World} (h : AnonSpaces w) (a : Nat) : AnonSpaces (w.fork a) := by
  unfold World.fork
  cases hlook : w.spaces.lookup a with
  | none => exact h
  | some mm =>
    have hsame := sameHost_attempt w.host
    have hfree : AnonFree ⟨w.host.attempt.2, mm.mem⟩ := fun s e he ha => by
      show fdOf w.host.attempt.2 e.data = none
      rw [fdOf, hsame.datas]
      exact h.anon a mm hlook s e he ha
    have hapart := apart_ptCopyOnWrite w.host.attempt.2 mm.mem 0 memPages hfree
    have hspec := forkSpec w.host.attempt.2 mm.mem 0 memPages
    dsimp only
    split
    case isFalse => exact anonSpaces_same h hsame.datas fun b mb hb => .inr ⟨mb, hb, rfl⟩
    case isTrue =>
      refine ⟨fun b mb hb => ?_, fun b mb hb => ?_⟩
      · rcases Assoc.lookup_insert_some hb with ⟨-, rfl⟩ | ⟨-, hb⟩
        · exact hapart.dst
        rcases Assoc.lookup_insert_some hb with ⟨-, rfl⟩ | ⟨-, hb⟩
        · exact hapart.src
        intro s e he ha
        refine hapart.fd e.data ?_
        rw [fdOf, hsame.datas]
        exact h.anon b mb hb s e he ha
      rcases Assoc.lookup_insert_some hb with ⟨-, rfl⟩ | ⟨-, hb⟩
      · exact hspec.good (h.good a mm hlook)
      rcases Assoc.lookup_insert_some hb with ⟨-, rfl⟩ | ⟨-, hb⟩
      · show GoodReservations (ptCopyOnWrite _ mm.mem memInit 0 memPages).2.1.reservations
        rw [hspec.reservations]
        exact h.good a mm hlook
      · exact h.good b mb hb

/-! ## Runs -/

/-- `mmap`, `fork`, guest accesses, and `madvise` itself. -/
inductive Workload : Op → Prop
  | mmNew : Workload .mmNew
  | mmRetain (a : Nat) : Workload (.mmRetain a)
  | fork (a : Nat) : Workload (.fork a)
  | mmap (a : Nat) (args : MmapArgs) : Workload (.mmap a args)
  | madvise (a : Nat) (addr : UInt64) (len : UInt32) (advice : Nat) : Workload (.madvise a addr len advice)
  | access (a : Nat) (addr : UInt64) (type : AccessType) (inJit : Bool) : Workload (.access a addr type inJit)
  | advance (i : Nat) (limit : Option Nat) : Workload (.advance i limit)
  | store (i : Nat) (bytes : List UInt8) : Workload (.store i bytes)

theorem anonSpaces_step {w : World} (hw : WorldOk w) (h : AnonSpaces w) {op : Op} (hop : Workload op) :
    AnonSpaces (w.exec op) := by
  cases hop with
  | mmNew =>
    refine anonSpaces_same h rfl fun b mb hb => ?_
    rcases Assoc.lookup_insert_some hb with ⟨-, rfl⟩ | ⟨-, hb⟩
    · exact .inl rfl
    · exact .inr ⟨mb, hb, rfl⟩
  | mmRetain a =>
    simp only [World.exec]
    cases hlook : w.spaces.lookup a with
    | none => exact h
    | some mm =>
      refine anonSpaces_same h rfl fun b mb hb => .inr ?_
      rcases Assoc.lookup_insert_some hb with ⟨rfl, rfl⟩ | ⟨-, hb⟩
      · exact ⟨mm, hlook, rfl⟩
      · exact ⟨mb, hb, rfl⟩
  | fork a => exact anonSpaces_fork h a
  | mmap a args =>
    simp only [World.exec, World.withSpace]
    cases hlook : w.spaces.lookup a with
    | none => exact h
    | some mm => exact anonSpaces_put hw h hlook (keepsAnon_sysMmap _ args) rfl rfl rfl
  | madvise a addr len advice =>
    simp only [World.exec, World.madvise]
    split
    · exact h
    split
    · exact anonSpaces_same h rfl fun b mb hb => .inr ⟨mb, hb, rfl⟩
    · exact h
  | access a addr type inJit => exact anonSpaces_same h rfl fun b mb hb => .inr ⟨mb, hb, rfl⟩
  | advance i limit =>
    simp only [World.exec, World.advance]
    cases ht : w.threads[i]? with
    | none => exact h
    | some t =>
      have hok := hw.threads t (List.mem_of_getElem? ht)
      dsimp only
      cases t.space with
      | none => exact h
      | some a =>
        dsimp only
        cases hlook : w.spaces.lookup a with
        | none => exact h
        | some mm => exact anonSpaces_put hw h hlook (keepsAnon_threadStep _ limit hok) rfl rfl rfl
  | store i bytes =>
    simp only [World.exec, World.store]
    split
    · exact h
    split
    · exact anonSpaces_same h rfl fun b mb hb => .inr ⟨mb, hb, rfl⟩
    · exact h

theorem anonSpaces_run (ops : List Label) (hops : ∀ l ∈ ops, Workload l.op) : AnonSpaces (run step World.init ops) := by
  have hstep : ∀ w l, WorldOk w ∧ AnonSpaces w → Workload l.op → WorldOk (step w l) ∧ AnonSpaces (step w l) := by
    intro w l h hop
    refine ⟨worldOk_step w l h.1, ?_⟩
    rw [step_eq]
    exact anonSpaces_step (worldOk_withScript h.1 l.script)
      (anonSpaces_same h.2 rfl fun b mb hb => .inr ⟨mb, hb, rfl⟩) hop
  have hok : AllSteps step (fun _ l => Workload l.op) World.init ops := allSteps_of_forall hops
  exact (run_invariant hstep ⟨worldOk_init, anonSpaces_init⟩ hok).2

theorem dontneedOk_reached {ops : List Label} (hops : ∀ l ∈ ops, Workload l.op) {mm : Mm}
    (hlook : (run step World.init ops).spaces.lookup a = some mm) (file : Nat → Nat → UInt8)
    (limit : Option Nat) (addr len : UInt64) :
    (DontneedOk file (Vm.withOutcomes ⟨(run step World.init ops).host, mm.mem⟩ []) limit addr.toNat len.toNat ↔
      DontneedFits false file ⟨(run step World.init ops).host, mm.mem⟩ addr.toNat len.toNat) ∧
    ((∀ script, DontneedOk file (Vm.withOutcomes ⟨(run step World.init ops).host, mm.mem⟩ script) limit
        addr.toNat len.toNat) ↔
      DontneedFits true file ⟨(run step World.init ops).host, mm.mem⟩ addr.toNat len.toNat) := by
  have hbacked := anonSpaces_run ops hops
  have hworld : WorldOk (run step World.init ops) := worldOk_run worldOk_init ops
  exact dontneedOk_iff (hworld.spaceOk hlook (hbacked.good a mm hlook)) (hbacked.anon a mm hlook) limit
    addr.toNat_lt

/-- **`MADV_DONTNEED`.** In every address space of every run of `mmap`, `fork`, guest accesses and `madvise`,
for every range: if the host refuses no memory, the call leaves every page as it should if and only if the
range fits the space; and it does so whatever the host refuses if and only if that fits too. -/
theorem dontneed_run (ops : List Label) (hops : ∀ l ∈ ops, Workload l.op) (a : Nat) (mm : Mm)
    (hlook : (run step World.init ops).spaces.lookup a = some mm) (file : Nat → Nat → UInt8)
    (limit : Option Nat) (addr len : UInt64) :
    (DontneedOk file (Vm.withOutcomes ⟨(run step World.init ops).host, mm.mem⟩ []) limit addr.toNat len.toNat ↔
      DontneedFits false file ⟨(run step World.init ops).host, mm.mem⟩ addr.toNat len.toNat) ∧
    ((∀ script, DontneedOk file (Vm.withOutcomes ⟨(run step World.init ops).host, mm.mem⟩ script) limit
        addr.toNat len.toNat) ↔
      DontneedFits true file ⟨(run step World.init ops).host, mm.mem⟩ addr.toNat len.toNat) :=
  dontneedOk_reached hops hlook file limit addr len

/-- One private page at `0x10000`, of a file or of none. -/
def onePageArgs (file : FileArg) (anonymous : Bool) : MmapArgs :=
  ⟨0x10000, 0x1000, Flags.read ||| Flags.write, ⟨false, true, true, anonymous, false⟩, file, ⟨0, 0⟩⟩

def storedOps : List Label :=
  [⟨.mmNew, []⟩, ⟨.mmap 0 (onePageArgs .badFd true), []⟩, ⟨.access 0 0x10000 .write false, []⟩,
    ⟨.advance 0 none, []⟩, ⟨.advance 0 none, []⟩, ⟨.advance 0 none, []⟩, ⟨.store 0 [1], []⟩]

/-- The page of a file of sevens, written to since a fork. -/
def copiedOps : List Label :=
  [⟨.mmNew, []⟩, ⟨.mmap 0 (onePageArgs (.file 3 (some fun _ => 7) 0) false), []⟩, ⟨.fork 0, []⟩,
    ⟨.access 0 0x10000 .write false, []⟩, ⟨.advance 0 none, []⟩, ⟨.advance 0 none, []⟩, ⟨.advance 0 none, []⟩,
    ⟨.advance 0 none, []⟩]

theorem workload_storedOps : ∀ l ∈ storedOps, Workload l.op := by
  simp only [storedOps, List.forall_mem_cons, List.not_mem_nil, false_implies, implies_true, and_true]
  exact ⟨.mmNew, .mmap _ _, .access _ _ _ _, .advance _ _, .advance _ _, .advance _ _, .store _ _⟩

theorem workload_copiedOps : ∀ l ∈ copiedOps, Workload l.op := by
  simp only [copiedOps, List.forall_mem_cons, List.not_mem_nil, false_implies, implies_true, and_true]
  exact ⟨.mmNew, .mmap _ _, .fork _, .access _ _ _ _, .advance _ _, .advance _ _, .advance _ _, .advance _ _⟩

theorem entry_single {m : Mem} (hpt : m.pt.entries = [⟨slot 16, e⟩]) {f : PtEntry} (hp : p < memPages)
    (hf : memPt m p = some f) : p = 16 ∧ f = e := by
  have hlook : m.pt.entries.dlookup (slot p) = some f := hf
  rw [hpt] at hlook
  by_cases hs : slot p = slot 16
  · rw [hs, List.dlookup_cons_eq] at hlook
    exact ⟨page_of_slot hp (by decide) hs, (Option.some.inj hlook).symm⟩
  · rw [List.dlookup_cons_ne _ _ hs] at hlook
    cases hlook

theorem dontneed_stored : ∃ mm, (run step World.init storedOps).spaces.lookup 0 = some mm ∧
    (run step World.init storedOps).host.bytes 0 0 = 1 ∧
    ∀ script, DontneedOk (fun _ _ => 7) (Vm.withOutcomes ⟨(run step World.init storedOps).host, mm.mem⟩ script)
      none 0x10000 0x1000 := by
  have hentries : ((run step World.init storedOps).spaces.lookup 0).map (fun mm => mm.mem.pt.entries) =
      some [⟨slot 16, ⟨0, 0, 67#32⟩⟩] := by decide +kernel
  obtain ⟨mm, hlook, hpt⟩ := Option.map_eq_some_iff.mp hentries
  refine ⟨mm, hlook, by decide +kernel,
    (dontneed_run storedOps workload_storedOps 0 mm hlook (fun _ _ => 7) none 0x10000 0x1000).2.mpr ?_⟩
  refine .inr (.inr (.inr ⟨by decide, fun p hp e he => ?_⟩))
  obtain ⟨rfl, rfl⟩ := entry_single hpt hp he
  have hin : Requested 0x10000 0x1000 16 := ⟨by decide, by decide⟩
  exact ⟨fun _ _ _ => .inr ⟨⟨16, ⟨by decide, by decide⟩, rfl⟩, by decide, fun _ => by decide⟩,
    fun _ _ => .inl ⟨hin, by decide, by decide⟩⟩

/-- The file has sevens on the page, and so has the copy; the call leaves zeroes. -/
theorem dontneed_copied : ∃ mm, (run step World.init copiedOps).spaces.lookup 0 = some mm ∧
    memPt mm.mem 16 = some ⟨1, 0, 3#32⟩ ∧ (run step World.init copiedOps).host.bytes 1 0 = 7 ∧
    ¬ DontneedOk (fun _ _ => 7) (Vm.withOutcomes ⟨(run step World.init copiedOps).host, mm.mem⟩ [])
      none 0x10000 0x1000 := by
  have hentries : ((run step World.init copiedOps).spaces.lookup 0).map (fun mm => mm.mem.pt.entries) =
      some [⟨slot 16, ⟨1, 0, 3#32⟩⟩] := by decide +kernel
  obtain ⟨mm, hlook, hpt⟩ := Option.map_eq_some_iff.mp hentries
  have hentry : memPt mm.mem 16 = some ⟨1, 0, 3#32⟩ := by
    show mm.mem.pt.entries.dlookup (slot 16) = _
    rw [hpt]
    exact List.dlookup_cons_eq _ _ _
  have hbyte : (run step World.init copiedOps).host.bytes 1 0 = 7 := by decide +kernel
  have hclears : clears (run step World.init copiedOps).host ⟨1, 0, 3#32⟩ = true := by decide +kernel
  refine ⟨mm, hlook, hentry, hbyte, fun hok => ?_⟩
  have hfits := (dontneedOk_reached workload_copiedOps hlook (fun _ _ => 7) none 0x10000 0x1000).1.mp hok
  rcases hfits with hc | ⟨p, hp, hnone, -⟩ | hc | ⟨-, hall⟩
  · exact hc (by decide)
  · rw [show pageRange (page (0x10000 : UInt64).toNat) (pageRoundUp32 (dword (0x1000 : UInt64).toNat)) = [16] from
      by decide, List.mem_singleton] at hp
    rw [hp] at hnone
    exact Option.some_ne_none _ (hentry.symm.trans hnone)
  · exact absurd hc (by decide)
  have hspared := (hall 16 (by decide) _ hentry).spared ⟨16, ⟨by decide, by decide⟩, rfl⟩ hclears
  rcases hspared with ⟨-, -, hc⟩ | hzero
  · exact absurd hc (by decide)
  rcases hzero 0 (by decide) with hnil | ⟨-, -, hfile⟩
  · exact absurd (hbyte.symm.trans hnil) (by decide)
  · exact absurd hfile (by decide)

end IosLinuxkit.Kernel
