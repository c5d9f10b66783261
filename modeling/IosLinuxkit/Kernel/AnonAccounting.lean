import IosLinuxkit.Kernel.SystemLemmas

/-!
# The anonymous-page counter

`anon_page_count` is meant to be the number of charged entries over all live address
spaces. Every operation keeps it so, except a `brk` that adds pages to the heap: `sys_brk`
adds the pages to the counter and `pt_map_nothing`, which it then calls, reserves them
again.

* **`accounted_exec`** — one step, under `Op.keepsAccount`.
* **`anonPageCount_run`** — in every run without such a `brk` the counter is exact, and 0
  when no address space is left.
-/

namespace IosLinuxkit.Kernel

def World.totalCharged (w : World) : Int :=
  Assoc.sumBy (fun mm => chargedPages mm.mem) w.spaces

def Accounted (w : World) : Prop := w.host.anonPageCount = w.totalCharged

theorem totalCharged_insert (w : World) {a : Nat} {mm : Mm}
    (h : w.spaces.lookup a = some mm) (mm' : Mm) :
    Assoc.sumBy (fun mm => chargedPages mm.mem) (w.spaces.insert a mm')
      = w.totalCharged - chargedPages mm.mem + chargedPages mm'.mem := by
  rw [Assoc.sumBy_insert, Assoc.weightAt_of_some h]
  rfl

theorem Effect.accounted {ok : Prop} {w w' : World} {x : Option Nat} (h : Effect ok w w' x)
    (hw : WorldOk w) (hok : ok) (hacc : Accounted w) : Accounted w' := by
  have hnone := hw.fresh w.nextSpace le_rfl
  unfold Accounted at hacc ⊢
  cases h with
  | quiet _ spaces _ host =>
    rw [host.anonPageCount, World.totalCharged, Assoc.sumBy_congr spaces]
    exact hacc
  | update a mm mm' look spaces _ _ _ bal =>
    have hb := bal hok
    simp only [Balanced, balance] at hb
    rw [World.totalCharged, spaces, totalCharged_insert w look]
    omega
  | born spaces _ host =>
    have hzero : chargedPages mmNew.mem = 0 := rfl
    rw [World.totalCharged, spaces, Assoc.sumBy_insert, Assoc.weightAt_of_none hnone,
      host.anonPageCount, hacc, hzero]
    simp [World.totalCharged]
  | fork a mm mm' child look spaces _ copy =>
    have hlt := hw.lt_next look
    have hb := copy.balance_eq
    have hzero : chargedPages memInit = 0 := rfl
    have hnone' : (w.spaces.insert a mm').lookup w.nextSpace = none := by
      rw [AList.lookup_insert_ne hlt.ne', hnone]
    rw [World.totalCharged, spaces, Assoc.sumBy_insert, Assoc.weightAt_of_none hnone',
      totalCharged_insert w look]
    omega
  | destroy a mm look spaces _ _ _ count =>
    rw [World.totalCharged, spaces, Assoc.sumBy_erase, Assoc.weightAt_of_some look, count, hacc]
    rfl
  | write _ _ _ _ _ _ _ _ _ _ spaces _ host =>
    rw [host, World.totalCharged, Assoc.sumBy_congr spaces]
    exact hacc

theorem accounted_exec {w : World} (hw : WorldOk w) (op : Op) (hok : op.keepsAccount w)
    (hacc : Accounted w) : Accounted (w.exec op) :=
  (effect_exec hw op).accounted hw hok hacc

/-! ## When `brk` adds pages -/

/-- The growing branch maps at least one page: it asks for one, the range is a hole, the
counter leaves room for the pages twice, and both host calls of `pt_map_nothing` succeed. -/
def heapGrows (h : Host) (mm : Mm) (newBrk : Nat) : Bool :=
  let size := brkSize mm.brk newBrk
  decide (mm.startBrk ≤ newBrk) && decide (mm.brk < newBrk) && size != 0 &&
    ptIsHole mm.mem (pageRoundUp mm.brk) size &&
    decide (h.anonPageCount + toLong size ≤ anonMmapLimitPages) &&
    decide (toLong size ≤ anonMmapLimitPages) &&
    decide (h.anonPageCount + toLong size + toLong size ≤ anonMmapLimitPages) &&
    h.attempt.1 && h.attempt.2.attempt.1

theorem attempt_addAnon (h : Host) (k : Int) :
    (h.addAnon k).attempt = (h.attempt.1, h.attempt.2.addAnon k) := by
  unfold Host.attempt Host.addAnon
  dsimp only
  split <;> rfl

theorem ptMapNothing_write_ok (v : Vm) (start pages : Nat) (hp : pages ≠ 0) :
    0 ≤ (ptMapNothing v start pages Flags.write).1 ↔ toLong pages ≤ anonMmapLimitPages ∧
        v.host.anonPageCount + toLong pages ≤ anonMmapLimitPages ∧
        v.host.attempt.1 = true ∧ v.host.attempt.2.attempt.1 = true := by
  have hneg : ¬ 0 ≤ eNOMEM := by decide
  have hcharged : Flags.charged (Flags.write ||| Flags.anonymous) = true := by decide
  unfold ptMapNothing
  rw [if_neg hp]
  dsimp only
  rw [hcharged]
  unfold reserveIf anonPagesReserve
  rw [if_pos rfl]
  by_cases hlim : toLong pages > anonMmapLimitPages ∨
      v.host.anonPageCount > anonMmapLimitPages - toLong pages
  · rw [if_pos hlim]
    refine iff_of_false hneg ?_
    rintro ⟨h1, h2, -⟩
    omega
  rw [if_neg hlim]
  rw [not_or] at hlim
  obtain ⟨hl1, hl2⟩ := hlim
  dsimp only
  rw [(refundIf_mem _ _ _).2]
  rw [show ({ v.host with anonPageCount := v.host.anonPageCount + toLong pages } : Host)
    = v.host.addAnon (toLong pages) from rfl]
  unfold mapRegion ptMapAccounted
  dsimp only
  simp only [attempt_addAnon]
  by_cases h1 : v.host.attempt.1 = true
  · by_cases h2 : v.host.attempt.2.attempt.1 = true
    · rw [if_pos h1, if_pos h2]
      exact iff_of_true (by simp) ⟨by omega, by omega, h1, h2⟩
    · rw [if_pos h1, if_neg h2]
      exact iff_of_false hneg fun h => h2 h.2.2.2
  · rw [if_neg h1]
    exact iff_of_false hneg fun h => h1 h.2.2.1

theorem brkGrows_eq {h : Host} {mm : Mm} {newBrk : Nat} (hstart : mm.startBrk ≤ newBrk)
    (hlt : mm.brk < newBrk) : brkGrows ⟨h, mm.mem⟩ mm.brk newBrk = heapGrows h mm newBrk := by
  rw [Bool.eq_iff_iff]
  by_cases hz : brkSize mm.brk newBrk = 0
  · simp [brkGrows, heapGrows, hz]
  have hok := ptMapNothing_write_ok
    ⟨h.addAnon (toLong (brkSize mm.brk newBrk)), mm.mem⟩ (pageRoundUp mm.brk) _ hz
  simp only [attempt_addAnon, addAnon_anonPageCount] at hok
  have hcond : heapGrows h mm newBrk = true ↔
      ptIsHole mm.mem (pageRoundUp mm.brk) (brkSize mm.brk newBrk) = true ∧
      h.anonPageCount + toLong (brkSize mm.brk newBrk) ≤ anonMmapLimitPages ∧
      0 ≤ (ptMapNothing ⟨h.addAnon (toLong (brkSize mm.brk newBrk)), mm.mem⟩
        (pageRoundUp mm.brk) (brkSize mm.brk newBrk) Flags.write).1 := by
    rw [hok]
    simp [heapGrows, hstart, hlt, hz, and_assoc]
  rw [hcond]
  unfold brkGrows brkGrow
  dsimp only
  split_ifs with hhole hlim hfail
  · simp only [Bool.not_eq_true'] at hhole
    simp [hhole]
  · exact iff_of_false (by simp) fun hall => absurd hall.2.1 (by omega)
  · exact iff_of_false (by simp) fun hall => absurd hall.2.2 (by omega)
  · simp only [Bool.not_eq_true', Bool.not_eq_false] at hhole
    exact iff_of_true (by simp [hz]) ⟨hhole, by omega, by omega⟩

/-! ## Whole runs -/

/-- The step is not a `brk` that adds pages to the heap. -/
def noHeapGrowth (w : World) (l : Label) : Prop :=
  ∀ a newBrk mm, l.op = .brk a newBrk → w.spaces.lookup a = some mm →
    heapGrows (w.withScript l.script).host mm newBrk.toNat = false

theorem keepsAccount_of_noHeapGrowth {w : World} {l : Label} (h : noHeapGrowth w l) :
    l.op.keepsAccount (w.withScript l.script) := by
  cases hop : l.op with
  | brk a newBrk =>
    intro mm hlook hstart hlt
    rw [brkGrows_eq hstart hlt]
    exact h a newBrk mm hop hlook
  | _ => trivial

/-- **The counter is exact** in every run without heap growth, so it is 0 when the last
address space is gone. -/
theorem anonPageCount_run (ls : List Label) (hrun : AllSteps step noHeapGrowth World.init ls) :
    (run step World.init ls).host.anonPageCount = (run step World.init ls).totalCharged ∧
      ((run step World.init ls).spaces.keys = [] →
        (run step World.init ls).host.anonPageCount = 0) := by
  have hstep : ∀ w l, WorldOk w ∧ Accounted w → noHeapGrowth w l →
      WorldOk (step w l) ∧ Accounted (step w l) := by
    rintro w l ⟨hw, hacc⟩ hok
    have hw' := worldOk_withScript hw l.script
    exact ⟨worldOk_step w l hw, accounted_exec hw' l.op (keepsAccount_of_noHeapGrowth hok) hacc⟩
  have hinv := run_invariant hstep ⟨worldOk_init, rfl⟩ hrun
  refine ⟨hinv.2, fun hkeys => ?_⟩
  have hnil : (run step World.init ls).spaces.entries = [] := List.map_eq_nil_iff.mp hkeys
  rw [hinv.2, World.totalCharged, Assoc.sumBy, hnil]
  rfl

/-- A process maps a page, forks, the child writes to its copy, both exit. -/
def forkAndExit : List Label :=
  [⟨.mmNew, []⟩, ⟨.ptMapNothing 0 ⟨8, 2, by decide, by decide⟩ (Flags.read ||| Flags.write), []⟩,
    ⟨.fork 0, []⟩, ⟨.access 1 0x8000 .write false, []⟩, ⟨.advance 0 none, []⟩,
    ⟨.advance 0 none, []⟩, ⟨.advance 0 none, []⟩, ⟨.brk 0 0, []⟩, ⟨.mmRelease 0, []⟩]

theorem anonPageCount_forkAndExit : (run step World.init forkAndExit).host.anonPageCount = 2 ∧
      (run step World.init forkAndExit).host.anonPageCount
        = (run step World.init forkAndExit).totalCharged := by
  have hrun : AllSteps step noHeapGrowth World.init forkAndExit := by
    refine ⟨?_, ?_, ?_, ?_, ?_, ?_, ?_, ?_, ?_, trivial⟩
    all_goals
      rintro a newBrk mm ⟨⟩
    intro _
    simp [heapGrows]
  exact ⟨by decide +kernel, (anonPageCount_run forkAndExit hrun).1⟩

/-- A process whose heap grows by one page: the counter moves by two, and one is left when
the process is gone. -/
def heapPage : List Label :=
  [⟨.mmNew, []⟩, ⟨.setBrk 0 0x10000, []⟩, ⟨.brk 0 0x11000, []⟩]

theorem anonPageCount_heapPage : (run step World.init heapPage).host.anonPageCount = 2 ∧
      (run step World.init heapPage).totalCharged = 1 ∧
      (run step World.init (heapPage ++ [⟨.mmRelease 0, []⟩])).spaces.keys = [] ∧
      (run step World.init (heapPage ++ [⟨.mmRelease 0, []⟩])).host.anonPageCount = 1 := by
  decide +kernel

end IosLinuxkit.Kernel
