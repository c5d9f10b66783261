import IosLinuxkit.Kernel.SyscallLemmas
import IosLinuxkit.Kernel.System

/-!
# Reference counts of the backing data

Every `struct data` counts the page-table entries that refer to it. `Counted o b v` says so for one
address space `v` in its surroundings: `o` counts the entries elsewhere, and `b` is the host before
the operation, from which on an object with the count 0 may only be one that was so before or is new.

* **`recounts_ptMapAccounted`**, **`recounts_ptUnmapAlways`** — the operations built on them.
* The system calls and the lock intervals of `mem_ptr` follow one by one, up to
  **`recounts_threadStep`**.
-/

namespace IosLinuxkit.Kernel

variable {o : Nat → Nat} {b h h' : Host} {v v' : Vm} {d d' p : Nat} {x : Data} {m : Mem} {e : PtEntry}

/-! ## Counts -/

def refs (h : Host) (d : Nat) : Int := Assoc.weightAt (fun x : Data => (x.refcount : Int)) h.datas d

def use (d : Nat) (e : PtEntry) : Int := if e.data = d then 1 else 0

def uses (d : Nat) (m : Mem) : Int := Assoc.sumBy (use d) m.pt

theorem use_nonneg (d : Nat) (e : PtEntry) : 0 ≤ use d e := by
  unfold use
  split <;> decide

theorem uses_nonneg (d : Nat) (m : Mem) : 0 ≤ uses d m := Assoc.sumBy_nonneg (use_nonneg d) m.pt

def WasUnused (b : Host) (d : Nat) : Prop :=
  b.nextData ≤ d ∨ ∃ x, b.datas.lookup d = some x ∧ x.refcount = 0

structure Counted (o : Nat → Nat) (b : Host) (v : Vm) : Prop where
  count : ∀ d, refs v.host d = o d + uses d v.mem
  fresh : ∀ d, v.host.nextData ≤ d → v.host.datas.lookup d = none
  next : b.nextData ≤ v.host.nextData
  unused : ∀ d x, v.host.datas.lookup d = some x → x.refcount = 0 → WasUnused b d

theorem refs_of_some (hx : h.datas.lookup d = some x) : refs h d = x.refcount :=
  Assoc.weightAt_of_some hx

theorem refs_of_none (hx : h.datas.lookup d = none) : refs h d = 0 :=
  Assoc.weightAt_of_none hx

theorem uses_pos (he : memPt m p = some e) : 1 ≤ uses e.data m := by
  have hw := Assoc.weightAt_le_sumBy (use_nonneg e.data) m.pt (slot p)
  rw [Assoc.weightAt_of_some (show m.pt.lookup (slot p) = some e from he), use, if_pos rfl] at hw
  exact hw

theorem Counted.live (hc : Counted o b v) (he : memPt v.mem p = some e) :
    ∃ x, v.host.datas.lookup e.data = some x ∧ 0 < x.refcount := by
  have hone := uses_pos he
  have hcount := hc.count e.data
  cases hx : v.host.datas.lookup e.data with
  | none =>
    rw [refs_of_none hx] at hcount
    omega
  | some x =>
    rw [refs_of_some hx] at hcount
    exact ⟨x, rfl, by omega⟩

theorem Counted.congr (hc : Counted o b v) (hd : v'.host.datas = v.host.datas)
    (hn : v'.host.nextData = v.host.nextData) (hpt : v'.mem.pt = v.mem.pt) : Counted o b v' := by
  refine ⟨fun d => ?_, ?_, by rw [hn]; exact hc.next, by rw [hd]; exact hc.unused⟩
  · rw [refs, hd, uses, hpt]
    exact hc.count d
  · rw [hd, hn]
    exact hc.fresh

theorem Counted.of_sameHost (hc : Counted o b v) (hh : SameHost v.host v'.host)
    (hpt : v'.mem.pt = v.mem.pt) : Counted o b v' :=
  hc.congr hh.datas hh.nextData hpt

/-! ## Releasing and taking a reference -/

theorem refs_dropData (hx : h.datas.lookup d = some x) (hpos : 0 < x.refcount) (d' : Nat) :
    refs (h.dropData d) d' = refs h d' - if d' = d then 1 else 0 := by
  have hsame := refs_of_some hx
  unfold Host.dropData
  rw [hx]
  dsimp only
  by_cases hd : d' = d
  · subst hd
    rw [if_pos rfl, hsame]
    split
    case isTrue hz => rw [refs_of_none (AList.lookup_erase _ _)]; omega
    case isFalse =>
      rw [refs_of_some (AList.lookup_insert _)]
      show ((x.refcount - 1 : Nat) : Int) = _
      omega
  rw [if_neg hd, Int.sub_zero]
  split
  · simp only [refs, Assoc.weightAt, AList.lookup_erase_ne hd]
  · simp only [refs, Assoc.weightAt, AList.lookup_insert_ne hd]

theorem lookup_dropData {x' : Data} (hx' : (h.dropData d).datas.lookup d' = some x') :
    ∃ y, h.datas.lookup d' = some y ∧ (x'.refcount = 0 → y.refcount = 0) := by
  unfold Host.dropData at hx'
  cases hx : h.datas.lookup d with
  | none =>
    rw [hx] at hx'
    exact ⟨x', hx', id⟩
  | some x =>
    rw [hx] at hx'
    dsimp only at hx'
    by_cases hd : d' = d
    · subst hd
      refine ⟨x, hx, fun hz => ?_⟩
      split at hx'
      · rw [AList.lookup_erase] at hx'
        cases hx'
      case isFalse hne =>
        rw [AList.lookup_insert] at hx'
        cases hx'
        exact absurd hz hne
    split at hx'
    · rw [AList.lookup_erase_ne hd] at hx'
      exact ⟨x', hx', id⟩
    · rw [AList.lookup_insert_ne hd] at hx'
      exact ⟨x', hx', id⟩

theorem refs_retainData (hx : h.datas.lookup d = some x) (d' : Nat) :
    refs (h.retainData d) d' = refs h d' + if d' = d then 1 else 0 := by
  have hsame := refs_of_some hx
  unfold Host.retainData
  rw [hx]
  dsimp only
  by_cases hd : d' = d
  · subst hd
    rw [if_pos rfl, hsame, refs_of_some (AList.lookup_insert _)]
    rfl
  · rw [if_neg hd, Int.add_zero]
    simp only [refs, Assoc.weightAt, AList.lookup_insert_ne hd]

theorem lookup_retainData {x' : Data} (hx' : (h.retainData d).datas.lookup d' = some x') :
    ∃ y, h.datas.lookup d' = some y ∧ (x'.refcount = 0 → y.refcount = 0) := by
  unfold Host.retainData at hx'
  cases hx : h.datas.lookup d with
  | none =>
    rw [hx] at hx'
    exact ⟨x', hx', id⟩
  | some x =>
    rw [hx] at hx'
    dsimp only at hx'
    by_cases hd : d' = d
    · subst hd
      rw [AList.lookup_insert] at hx'
      cases hx'
      exact ⟨x, hx, fun hz => absurd hz (Nat.succ_ne_zero _)⟩
    · rw [AList.lookup_insert_ne hd] at hx'
      exact ⟨x', hx', id⟩

theorem Counted.step (hc : Counted o b v) (hn : v'.host.nextData = v.host.nextData)
    (hcount : ∀ d, refs v'.host d = o d + uses d v'.mem)
    (hback : ∀ d x, v'.host.datas.lookup d = some x →
      ∃ y, v.host.datas.lookup d = some y ∧ (x.refcount = 0 → y.refcount = 0)) :
    Counted o b v' where
  count := hcount
  fresh d hd := by
    rw [hn] at hd
    cases hx : v'.host.datas.lookup d with
    | none => rfl
    | some x =>
      obtain ⟨y, hy, -⟩ := hback d x hx
      rw [hc.fresh d hd] at hy
      cases hy
  next := by rw [hn]; exact hc.next
  unused d x hx hz := by
    obtain ⟨y, hy, hzero⟩ := hback d x hx
    exact hc.unused d y hy (hzero hz)

theorem uses_setEntry (d p : Nat) (e : PtEntry) (m : Mem) :
    uses d (m.setEntry p e) = uses d m - Assoc.weightAt (use d) m.pt (slot p) + use d e :=
  Assoc.sumBy_insert (use d) (slot p) e m.pt

theorem uses_erase (d : Nat) (s : Slot) (m : Mem) :
    uses d { m with pt := m.pt.erase s } = uses d m - Assoc.weightAt (use d) m.pt s :=
  Assoc.sumBy_erase (use d) s m.pt

/-! ## Unmapping -/

def Recounts (v v' : Vm) : Prop := ∀ o b, Counted o b v → Counted o b v'

theorem Recounts.refl (v : Vm) : Recounts v v := fun _ _ h => h

theorem Recounts.trans {v₁ v₂ v₃ : Vm} (h₁ : Recounts v₁ v₂) (h₂ : Recounts v₂ v₃) :
    Recounts v₁ v₃ :=
  fun o b h => h₂ o b (h₁ o b h)

theorem Recounts.of_sameHost (hh : SameHost v.host v'.host) (hpt : v'.mem.pt = v.mem.pt) :
    Recounts v v' :=
  fun _ _ h => h.of_sameHost hh hpt

theorem Recounts.of_eq (hd : v'.host.datas = v.host.datas)
    (hn : v'.host.nextData = v.host.nextData) (hpt : v'.mem.pt = v.mem.pt) : Recounts v v' :=
  fun _ _ h => h.congr hd hn hpt

theorem recounts_addAnon (v : Vm) (k : Int) : Recounts v ⟨v.host.addAnon k, v.mem⟩ :=
  .of_eq rfl rfl rfl

theorem recounts_changed (v : Vm) : Recounts v { v with mem := v.mem.changed } :=
  .of_eq rfl rfl rfl

theorem recounts_unmapPage (v : Vm) (p : Nat) : Recounts v (unmapPage v p) := by
  intro o b hc
  unfold unmapPage
  cases he : memPt v.mem p with
  | none => exact hc
  | some e =>
    dsimp only
    -- giving back the charge changes no object
    set h := if Flags.charged e.flags then v.host.addAnon (-1) else v.host with hh
    have hd : h.datas = v.host.datas := by rw [hh]; split <;> rfl
    have hn : h.nextData = v.host.nextData := by rw [hh]; split <;> rfl
    obtain ⟨x, hx, hpos⟩ := hc.live he
    refine hc.step (by rw [dropData_nextData, hn]) (fun d => ?_) fun d x' hx' => ?_
    · have hcount := hc.count d
      have hlook : v.mem.pt.lookup (slot p) = some e := he
      rw [refs_dropData (by rw [hd]; exact hx) hpos,
        show refs h d = refs v.host d from by rw [refs, refs, hd], hcount, uses_erase,
        Assoc.weightAt_of_some hlook, use]
      by_cases hed : d = e.data
      · rw [if_pos hed, if_pos hed.symm]
        omega
      · rw [if_neg hed, if_neg fun h => hed h.symm]
        omega
    · rw [← hd]
      exact lookup_dropData hx'

theorem recounts_ptUnmapAlways (v : Vm) (start pages : Nat) :
    Recounts v (ptUnmapAlways v start pages) :=
  ptUnmapAlways_frame v start pages (Recounts.refl v)
    (fun _ _ h hh hpt => h.trans (.of_sameHost hh hpt))
    (fun w p h => h.trans (recounts_unmapPage w p))

theorem recounts_ptUnmap (v : Vm) (start pages : Nat) : Recounts v (ptUnmap v start pages).2 := by
  unfold ptUnmap
  split
  · exact recounts_ptUnmapAlways v start pages
  · exact Recounts.refl v

theorem recounts_clearPage (v : Vm) (p : Nat) : Recounts v (clearPage v p) := by
  unfold clearPage
  split
  · exact recounts_ptUnmap v p 1
  · exact Recounts.refl v

/-! ## Mapping

The loop of `pt_map_accounted` takes the reference of a page after it has released what was mapped
there. The new object survives the release: at the first page no entry refers to it, and at a later
one the entry of the page before does. -/

def Anchored (d : Nat) (s : Slot) (v : Vm) : Prop :=
  (∃ t e, t ≠ s ∧ v.mem.pt.lookup t = some e ∧ e.data = d) ∨
    ((v.host.datas.lookup d).isSome ∧ ∀ t e, v.mem.pt.lookup t = some e → e.data ≠ d)

theorem unmapPage_ne {s : Slot} (hs : s ≠ slot p) (v : Vm) :
    (unmapPage v p).mem.pt.lookup s = v.mem.pt.lookup s := by
  unfold unmapPage
  split
  · rfl
  · exact AList.lookup_erase_ne hs

theorem ptUnmapAlways_one_ne (v : Vm) (hp : p + 1 < wordMod) {s : Slot} (hs : s ≠ slot p) :
    (ptUnmapAlways v p 1).mem.pt.lookup s = v.mem.pt.lookup s := by
  have hstop : (p + 1) % wordMod = p + 1 := Nat.mod_eq_of_lt hp
  have hfuel : p + 1 - p = 1 := by omega
  simp only [ptUnmapAlways, hstop, hfuel, unmapLoop_one (Nat.lt_succ_self p), changed_pt]
  rw [unmapPage_ne hs, (memRemoveReservations_spec _ p 1).2.1, raiseHint_pt]

theorem clearPage_ne (v : Vm) (hp : p + 1 < wordMod) {s : Slot} (hs : s ≠ slot p) :
    (clearPage v p).mem.pt.lookup s = v.mem.pt.lookup s := by
  unfold clearPage ptUnmap
  split
  · split
    · exact ptUnmapAlways_one_ne v hp hs
    · rfl
  · rfl

theorem ptUnmapAlways_unreferenced (v : Vm) (start pages : Nat)
    (h : (v.host.datas.lookup d).isSome ∧ ∀ t e, v.mem.pt.lookup t = some e → e.data ≠ d) :
    ((ptUnmapAlways v start pages).host.datas.lookup d).isSome ∧
      ∀ t e, (ptUnmapAlways v start pages).mem.pt.lookup t = some e → e.data ≠ d := by
  refine ptUnmapAlways_frame (P := fun w => (w.host.datas.lookup d).isSome ∧
    ∀ t e, w.mem.pt.lookup t = some e → e.data ≠ d) v start pages h ?_ ?_
  · intro w w' hw hh hpt
    rw [hh.datas, hpt]
    exact hw
  intro w q hw
  refine ⟨?_, fun t e he => hw.2 t e ((shrinks_unmapPage w q).entry t e he)⟩
  unfold unmapPage
  cases he : memPt w.mem q with
  | none => exact hw.1
  | some e =>
    have hne : d ≠ e.data := (hw.2 _ e he).symm
    have hdrop : ∀ g : Host, (g.dropData e.data).datas.lookup d = g.datas.lookup d := by
      intro g
      unfold Host.dropData
      cases g.datas.lookup e.data with
      | none => rfl
      | some x =>
        dsimp only
        split
        · exact AList.lookup_erase_ne hne
        · exact AList.lookup_insert_ne hne
    dsimp only
    rw [hdrop]
    split
    · exact hw.1
    · exact hw.1

theorem Anchored.clearPage (hc : Counted o b v) (ha : Anchored d (slot p) v)
    (hp : p + 1 < wordMod) : ((clearPage v p).host.datas.lookup d).isSome := by
  rcases ha with ⟨t, e, hts, he, rfl⟩ | hun
  · have he' : (Kernel.clearPage v p).mem.pt.lookup t = some e := by rw [clearPage_ne v hp hts, he]
    have hpt : memPt (Kernel.clearPage v p).mem t.val = some e := by
      rw [memPt, show slot t.val = t from Fin.ext (Nat.mod_eq_of_lt t.isLt), he']
    obtain ⟨x, hx, -⟩ := (recounts_clearPage v p o b hc).live hpt
    rw [hx]
    rfl
  unfold Kernel.clearPage ptUnmap
  split
  · split
    · exact (ptUnmapAlways_unreferenced v p 1 hun).1
    · exact hun.1
  · exact hun.1

theorem slot_succ_ne (p : Nat) : slot p ≠ slot (p + 1) := by
  intro h
  have hval : p % memPages = (p + 1) % memPages := congrArg Fin.val h
  simp only [memPages] at hval
  omega

theorem counted_mapPage (hc : Counted o b v) (ha : Anchored d (slot p) v) (hp : p + 1 < wordMod)
    (start offset : Nat) (flags : Flags) : Counted o b (mapPage d start offset flags v p) ∧
      Anchored d (slot (p + 1)) (mapPage d start offset flags v p) := by
  have hclear := recounts_clearPage v p o b hc
  obtain ⟨x, hx⟩ := Option.isSome_iff_exists.mp (ha.clearPage hc hp)
  have hnone := clearPage_unmapped v hp
  unfold mapPage
  dsimp only
  set w := clearPage v p
  refine ⟨hclear.step (retainData_nextData _ _) (fun d' => ?_) fun _ _ => lookup_retainData, ?_⟩
  · have hcount := hclear.count d'
    dsimp only
    rw [refs_retainData hx, uses_setEntry, Assoc.weightAt_of_none hnone, hcount, use]
    by_cases hd : d' = d
    · rw [if_pos hd, if_pos hd.symm]
      omega
    · rw [if_neg hd, if_neg fun h => hd h.symm]
      omega
  · refine Or.inl ⟨slot p, ⟨d, (p - start) * pageSize + offset, flags⟩, slot_succ_ne p, ?_, rfl⟩
    rw [setEntry_pt, AList.lookup_insert]

theorem counted_mapPages (start offset : Nat) (flags : Flags) :
    ∀ (n p : Nat) (v : Vm), Counted o b v → Anchored d (slot p) v → p + n < wordMod →
      Counted o b (mapPages d start offset flags (List.range' p n) v)
  | 0, _, _, hc, _, _ => hc
  | n + 1, p, v, hc, ha, hlt => by
    have hone := counted_mapPage hc ha (by omega) start offset flags
    rw [List.range'_succ, mapPages, List.foldl_cons]
    exact counted_mapPages start offset flags n (p + 1) _ hone.1 hone.2 (by omega)

theorem Counted.uses_fresh (hc : Counted o b v) (hd : v.host.nextData ≤ d) :
    o d = 0 ∧ uses d v.mem = 0 := by
  have hcount := hc.count d
  have hnn := uses_nonneg d v.mem
  rw [refs_of_none (hc.fresh d hd)] at hcount
  omega

theorem counted_newData (hc : Counted o b v) (size : Nat) (contents : Nat → UInt8) (s : Slot) :
    Counted o b ⟨v.host.newData size contents, v.mem⟩ ∧
      Anchored v.host.nextData s ⟨v.host.newData size contents, v.mem⟩ := by
  obtain ⟨hzero, hnouse⟩ := hc.uses_fresh (Nat.le_refl v.host.nextData)
  refine ⟨⟨fun d => ?_, fun d hd => ?_, ?_, fun d x hx hz => ?_⟩, Or.inr ⟨?_, fun t e he hed => ?_⟩⟩
  · by_cases hd : d = v.host.nextData
    · subst hd
      rw [refs_of_some (AList.lookup_insert _)]
      dsimp only
      rw [hzero, hnouse]
      rfl
    · rw [← hc.count d]
      simp only [Host.newData, refs, Assoc.weightAt, AList.lookup_insert_ne hd]
  · have hlt : v.host.nextData + 1 ≤ d := hd
    show (v.host.datas.insert v.host.nextData _).lookup d = none
    rw [AList.lookup_insert_ne (by omega)]
    exact hc.fresh d (by omega)
  · exact Nat.le_trans hc.next (Nat.le_succ _)
  · by_cases hd : d = v.host.nextData
    · rw [hd]
      exact Or.inl hc.next
    have hx' : (v.host.datas.insert v.host.nextData _).lookup d = some x := hx
    rw [AList.lookup_insert_ne hd] at hx'
    exact hc.unused d x hx' hz
  · show ((v.host.datas.insert v.host.nextData _).lookup _).isSome
    rw [AList.lookup_insert]
    rfl
  · -- an entry of the new object would count
    have hw := Assoc.weightAt_le_sumBy (use_nonneg v.host.nextData) v.mem.pt t
    rw [Assoc.weightAt_of_some he, use, if_pos hed, ← uses, hnouse] at hw
    exact absurd hw (by decide)

theorem recounts_ptMapAccounted (v : Vm) (start pages : Nat) (memory : Option (Nat → UInt8))
    (offset : Nat) (flags : Flags) (precharged : Bool) :
    Recounts v (ptMapAccounted v start pages memory offset flags precharged).2 := by
  intro o b hc
  have hsame : Counted o b ⟨v.host.attempt.2, v.mem⟩ :=
    hc.of_sameHost (sameHost_attempt v.host) rfl
  unfold ptMapAccounted
  cases memory with
  | none => exact hc
  | some contents =>
    dsimp only
    split
    · obtain ⟨hnew, hanchor⟩ := counted_newData hsame ((pages * pageSize + offset) % wordMod)
        contents (slot start)
      have hstop : (start + pages) % wordMod < wordMod := Nat.mod_lt _ (by decide)
      have hmap : Counted o b (mapPages v.host.attempt.2.nextData start offset flags
          (pageRange start pages)
          ⟨v.host.attempt.2.newData ((pages * pageSize + offset) % wordMod) contents, v.mem⟩) := by
        unfold pageRange
        by_cases hempty : (start + pages) % wordMod ≤ start
        · rw [show (start + pages) % wordMod - start = 0 from by omega]
          exact hnew
        · exact counted_mapPages start offset flags _ start _ hnew hanchor (by omega)
      refine hmap.congr ?_ ?_ rfl
      · dsimp only
        split <;> rfl
      · dsimp only
        split <;> rfl
    · exact hsame

theorem recounts_ptMap (v : Vm) (start pages : Nat) (memory : Option (Nat → UInt8))
    (offset : Nat) (flags : Flags) : Recounts v (ptMap v start pages memory offset flags).2 :=
  recounts_ptMapAccounted v start pages memory offset flags false

theorem recounts_attempt (v : Vm) : Recounts v ⟨v.host.attempt.2, v.mem⟩ :=
  .of_sameHost (sameHost_attempt v.host) rfl

theorem recounts_mapRegion (v : Vm) (start pages : Nat) (contents : Nat → UInt8) (flags : Flags)
    (precharged : Bool) : Recounts v (mapRegion v start pages contents flags precharged).2 := by
  unfold mapRegion
  dsimp only
  split
  · exact (recounts_attempt v).trans (recounts_ptMapAccounted _ _ _ _ _ _ _)
  · exact recounts_attempt v

theorem recounts_refundIf {r : Int × Vm} (h : Recounts v r.2) (charged : Bool) (k : Int) :
    Recounts v (refundIf r charged k).2 := by
  unfold refundIf
  split
  · exact h.trans (recounts_addAnon r.2 (-k))
  · exact h

theorem recounts_refund_mapRegion {charged : Bool} {k : Int}
    (hr : reserveIf v.host charged k = some h) (start pages : Nat) (contents : Nat → UInt8)
    (flags : Flags) (precharged : Bool) :
    Recounts v (refundIf (mapRegion ⟨h, v.mem⟩ start pages contents flags precharged)
      charged k).2 := by
  obtain rfl := reserveIf_some hr
  exact recounts_refundIf ((recounts_addAnon v _).trans (recounts_mapRegion _ _ _ _ _ _)) _ _

theorem recounts_ptMapNothing (v : Vm) (start pages : Nat) (flags : Flags) :
    Recounts v (ptMapNothing v start pages flags).2 := by
  unfold ptMapNothing
  split
  · exact Recounts.refl v
  dsimp only
  split
  · exact Recounts.refl v
  case h_2 h hr => exact recounts_refund_mapRegion hr _ _ _ _ _

theorem recounts_ptMapLazy (v : Vm) (start pages : Nat) (flags : Flags) :
    Recounts v (ptMapLazy v start pages flags).2 := by
  unfold ptMapLazy
  dsimp only
  split
  · exact .of_sameHost (sameHost_attempt v.host) rfl
  · exact recounts_attempt v

/-! ## Changing flags -/

theorem recounts_setEntry {e' : PtEntry} (he : memPt v.mem p = some e) (hd : e'.data = e.data)
    (hdatas : h.datas = v.host.datas) (hn : h.nextData = v.host.nextData) :
    Recounts v ⟨h, v.mem.setEntry p e'⟩ := by
  intro o b hc
  refine hc.step hn (fun d => ?_) fun d x hx => ?_
  · have hlook : v.mem.pt.lookup (slot p) = some e := he
    have hcount := hc.count d
    rw [uses_setEntry, Assoc.weightAt_of_some hlook, refs, hdatas, ← refs, hcount, use, use, hd]
    omega
  have hx' : h.datas.lookup d = some x := hx
  rw [hdatas] at hx'
  exact ⟨x, hx', id⟩

theorem recounts_setFlagsLoop (flags : Flags) (ps : List Nat) :
    ∀ v : Vm, Recounts v (setFlagsLoop flags ps v).2 := by
  induction ps with
  | nil => exact fun v => Recounts.refl v
  | cons p rest ih =>
    intro v
    unfold setFlagsLoop
    split
    · exact ih v
    case h_2 e he =>
      dsimp only
      set a := if Flags.any (flags &&& ~~~e.flags) (Flags.read ||| Flags.write) then
        v.host.attempt else (true, v.host) with ha
      have hsame : SameHost v.host a.2 := sameHost_protect v.host _
      split
      · refine Recounts.trans ?_ (ih _)
        exact recounts_setEntry he rfl hsame.datas hsame.nextData
      · exact .of_sameHost hsame rfl

theorem recounts_ptSetFlags (v : Vm) (start pages : Nat) (flags : Flags) :
    Recounts v (ptSetFlags v start pages flags).2 := by
  unfold ptSetFlags
  split
  · dsimp only
    have hloop := recounts_setFlagsLoop flags (pageRange start pages) v
    set w := (setFlagsLoop flags (pageRange start pages) v).2
    split
    · exact hloop
    obtain ⟨hh, hpt, -⟩ := memSetReservationFlags_spec w start pages flags
    have hres := hloop.trans (.of_sameHost hh hpt)
    split
    · exact hres
    · exact hres.trans (recounts_changed _)
  · exact Recounts.refl v

/-! ## The system calls -/

theorem recounts_mmapHint (v : Vm) (hint : Nat) :
    Recounts v { v with mem := { v.mem with mmapHint := hint } } :=
  .of_eq rfl rfl rfl

theorem recounts_setFd (v : Vm) (d fd : Nat) : Recounts v ⟨v.host.setFd d fd, v.mem⟩ := by
  intro o b hc
  unfold Host.setFd
  cases hx : v.host.datas.lookup d with
  | none => exact hc
  | some x =>
    refine hc.step rfl (fun d' => ?_) fun d' x' hx' => ?_
    · rw [← hc.count d']
      by_cases hd : d' = d
      · subst hd
        rw [refs_of_some (AList.lookup_insert _), refs_of_some hx]
      · simp only [refs, Assoc.weightAt, AList.lookup_insert_ne hd]
    dsimp only at hx'
    by_cases hd : d' = d
    · subst hd
      rw [AList.lookup_insert] at hx'
      cases hx'
      exact ⟨x, hx, id⟩
    · rw [AList.lookup_insert_ne hd] at hx'
      exact ⟨x', hx', id⟩

theorem recounts_mmapAnonymous (v : Vm) (noreserve hinted : Bool) (p pages : Nat) (prot : Flags) :
    Recounts v (mmapAnonymous v noreserve hinted p pages prot).2 := by
  unfold mmapAnonymous
  split
  · dsimp only
    split
    · exact Recounts.refl v
    · rw [mappedAt_snd]
      exact recounts_ptMapLazy _ _ _ _
  · rw [mappedAt_snd]
    exact recounts_ptMapNothing _ _ _ _

theorem recounts_mmapFile (v : Vm) (p pages : Nat) (prot : Flags) (file : FileArg) :
    Recounts v (mmapFile v p pages prot file).2 := by
  cases file with
  | badFd => exact Recounts.refl v
  | noMmap => exact Recounts.refl v
  | file fd contents correction =>
    have hmap := recounts_ptMap v p pages contents correction prot
    unfold mmapFile
    dsimp only
    split
    · exact hmap
    split
    · rw [mappedAt_snd]
      exact hmap
    · rw [mappedAt_snd]
      exact hmap.trans (recounts_setFd _ _ _)

theorem recounts_mmapAt (v : Vm) (a : MmapArgs) (hinted : Bool) (p pages : Nat) :
    Recounts v (mmapAt v a hinted p pages).2 := by
  unfold mmapAt
  dsimp only
  split
  · exact recounts_mmapAnonymous _ _ _ _ _ _
  · exact recounts_mmapFile _ _ _ _ _

theorem recounts_sysMmap (v : Vm) (a : MmapArgs) : Recounts v (sysMmap v a).2 := by
  unfold sysMmap doMmap
  dsimp only
  split_ifs
  all_goals try exact Recounts.refl v
  · exact recounts_mmapAt _ _ _ _ _
  · exact recounts_mmapHint _ _
  · exact (recounts_mmapHint v a.hole.hint).trans (recounts_mmapAt _ _ _ _ _)

theorem recounts_sysMunmap (v : Vm) (addr len : Nat) : Recounts v (sysMunmap v addr len).2 := by
  unfold sysMunmap
  split_ifs
  · exact Recounts.refl v
  · exact Recounts.refl v
  · exact recounts_ptUnmapAlways _ _ _

theorem recounts_sysMprotect (v : Vm) (addr len : Nat) (prot : Flags) :
    Recounts v (sysMprotect v addr len prot).2 := by
  unfold sysMprotect
  split_ifs
  · exact Recounts.refl v
  · exact Recounts.refl v
  · exact recounts_ptSetFlags _ _ _ _

theorem copyPages_datas (m : Mem) (start newStart : Nat) (is : List Nat) (h : Host) :
    (copyPages m start newStart is h).datas = h.datas ∧
      (copyPages m start newStart is h).nextData = h.nextData := by
  induction is generalizing h with
  | nil => exact ⟨rfl, rfl⟩
  | cons i rest ih =>
    have hone : (copyMoved m start newStart h i).datas = h.datas ∧
        (copyMoved m start newStart h i).nextData = h.nextData := by
      unfold copyMoved
      split <;> exact ⟨rfl, rfl⟩
    obtain ⟨hd, hn⟩ := ih (copyMoved m start newStart h i)
    exact ⟨hd.trans hone.1, hn.trans hone.2⟩

theorem recounts_mremapMove (v : Vm) (start oldPages newPages : Nat) (flags : Flags)
    (hole : HoleChoice) : Recounts v (mremapMove v start oldPages newPages flags hole).2 := by
  have hhint := recounts_mmapHint v hole.hint
  unfold mremapMove
  dsimp only
  split
  · exact hhint
  have hmap := hhint.trans (recounts_ptMapNothing _ hole.page newPages flags)
  split
  · exact hmap
  rw [mappedAt_snd]
  refine (hmap.trans ?_).trans (recounts_ptUnmapAlways _ _ _)
  split
  · obtain ⟨hd, hn⟩ := copyPages_datas (ptMapNothing
      { v with mem := { v.mem with mmapHint := hole.hint } } hole.page newPages flags).2.mem
      start hole.page (List.range oldPages) (ptMapNothing
      { v with mem := { v.mem with mmapHint := hole.hint } } hole.page newPages flags).2.host
    exact .of_eq hd hn rfl
  · exact Recounts.refl _

theorem recounts_sysMremap (v : Vm) (addr oldLen newLen : Nat) (mayMove badFlags : Bool)
    (hole : HoleChoice) : Recounts v (sysMremap v addr oldLen newLen mayMove badFlags hole).2 := by
  unfold sysMremap
  split
  · exact Recounts.refl v
  split
  · exact Recounts.refl v
  split
  · exact Recounts.refl v
  dsimp only
  split
  · exact recounts_ptUnmap _ _ _
  split
  · exact Recounts.refl v
  split
  · exact Recounts.refl v
  split
  · exact Recounts.refl v
  split
  · exact recounts_ptMapNothing _ _ _ _
  split
  · exact Recounts.refl v
  · exact recounts_mremapMove _ _ _ _ _ _

theorem recounts_sysBrk (v : Vm) (startBrk brk newBrk : Nat) :
    Recounts v (sysBrk v startBrk brk newBrk).2 := by
  unfold sysBrk
  split_ifs
  · exact Recounts.refl v
  · dsimp only
    unfold brkGrow
    dsimp only
    split_ifs
    · exact Recounts.refl v
    · exact Recounts.refl v
    · exact ((recounts_addAnon v _).trans (recounts_ptMapNothing _ _ _ _)).trans
        (recounts_addAnon _ _)
    · exact (recounts_addAnon v _).trans (recounts_ptMapNothing _ _ _ _)
  · dsimp only
    unfold brkShrink
    split
    · exact recounts_ptUnmapAlways _ _ _
    · exact Recounts.refl v
  · exact Recounts.refl v

/-! ## The lock intervals of `mem_ptr` and `madvise` -/

theorem recounts_mapOne (v : Vm) (p : Nat) (flags : Flags) :
    Recounts v (if 0 ≤ (ptMapNothing v p 1 flags).1 then
      { (ptMapNothing v p 1 flags).2 with mem := (ptMapNothing v p 1 flags).2.mem.changed }
      else (ptMapNothing v p 1 flags).2) := by
  have hmap := recounts_ptMapNothing v p 1 flags
  split
  · exact hmap.trans (recounts_changed _)
  · exact hmap

theorem recounts_growStack (v : Vm) (limit : Option Nat) (p : Nat) :
    Recounts v (growStack v limit p) := by
  unfold growStack
  split
  · exact recounts_mapOne v p _
  · exact Recounts.refl v

theorem recounts_materialisePage (v : Vm) (p : Nat) : Recounts v (materialisePage v p) := by
  unfold materialisePage
  split
  · split
    · exact recounts_mapOne v p _
    · exact Recounts.refl v
  · exact Recounts.refl v

theorem recounts_breakCow (v : Vm) (p : Nat) (type : AccessType) :
    Recounts v (breakCow v p type).2 := by
  unfold breakCow
  split
  · exact Recounts.refl v
  split
  · dsimp only
    split
    · exact Recounts.refl v
    split
    · exact Recounts.refl v
    case h_2 h hr => exact recounts_refund_mapRegion hr _ _ _ _ _
  · exact Recounts.refl v

theorem recounts_memPtrStep (v : Vm) (limit : Option Nat) (c : PtrCall) :
    Recounts v (memPtrStep v limit c).1 := by
  have hacq : Recounts v ⟨(acquireWrite v.host c.inJit).2, v.mem⟩ :=
    .of_sameHost (sameHost_acquireWrite v.host c.inJit) rfl
  unfold memPtrStep
  cases c.phase with
  | lookup => exact Recounts.refl v
  | grow =>
    dsimp only
    split
    · exact hacq.trans (recounts_growStack _ _ _)
    · exact hacq
  | materialise =>
    dsimp only
    split
    · exact hacq.trans (recounts_materialisePage _ _)
    · exact hacq
  | haveEntry => exact Recounts.refl v
  | breakCow => exact recounts_breakCow v _ _
  | resolve => exact Recounts.refl v
  | done ptr => exact Recounts.refl v

theorem recounts_madviseStep (v : Vm) (limit : Option Nat) (space next stop : Nat) (any : Bool)
    (call : Option PtrCall) : Recounts v (madviseStep v limit space next stop any call).1 := by
  unfold madviseStep
  cases call with
  | none =>
    dsimp only
    split
    · split
      · exact Recounts.refl v
      · split <;> exact Recounts.refl v
    dsimp only
    split
    · exact recounts_changed v
    · exact Recounts.refl v
  | some c =>
    have hstep := recounts_memPtrStep v limit c
    dsimp only
    split
    · exact hstep
    · -- the bytes written through the pointer belong to no count
      exact hstep.trans (.of_eq rfl rfl rfl)
    · exact hstep

theorem recounts_threadStep (v : Vm) (limit : Option Nat) (t : Thread) :
    Recounts v (threadStep v limit t).1 := by
  cases t with
  | idle => exact Recounts.refl v
  | access space c gen => exact recounts_memPtrStep v limit c
  | madvise space next stop call any => exact recounts_madviseStep v limit space next stop any call

end IosLinuxkit.Kernel
