import IosLinuxkit.Kernel.Exec

/-!
# Calls of execve that fail

* **`elfExec_fate`** — what `elf_exec` comes to, by whether its file is sound.
* **`execve_intact_iff`** — a call is intact when the files that it runs are sound, and scripts have arguments.
-/

namespace IosLinuxkit.Exec

open Ledger

/-! ## What is asked of a call -/

/-- How a call may end. -/
inductive Ended (before : Task) : Outcome → Task → Prop
  | failed (e : Errno) : Ended before (.returns (.error e)) before
  | started (t : Task) : before.mm.gen < t.mm.gen → t.mm.finished = true → Ended before (.returns (.ok ())) t
  | exits (t : Task) : Ended before .exits t

def Intact (w : World) (t : Task) : Prop :=
  ∃ out s, sysExecve w ⟨t, []⟩ = some (out, s) ∧ Settled s.trace ∧ Ended t out s.task

/-! ## When it holds -/

/-- The operations that `read_header` calls are there. -/
def ExecFile.Readable (f : ExecFile) : Prop := f.hasLseek = true ∧ (f.seeks 0 = true → f.hasRead = true)

/-- The header and the program headers are read and accepted. -/
def HeadersRead (w : World) (script : Bool) (f : ExecFile) (h : ElfHeader) (phs : List PrgHeader) : Prop :=
  readHeader f = some (.ok h) ∧ (readPrgHeaders w ⟨script, false⟩ f h).1 = .ok phs

/-- The interpreter that a program header names is opened. -/
def Opens (w : World) (script : Bool) (f : ExecFile) (ph : PrgHeader) (g : ExecFile) : Prop :=
  ph.filesize ≠ 0 ∧ ¬ maxPath < ph.filesize ∧ w.mallocInterp script = true ∧ f.seeks ph.offset = true ∧
    ∃ name, f.text ph.offset ph.filesize = .got name ∧ w.open_ ⟨script, true⟩ name = .ok g

def InterpOpened (w : World) (script : Bool) (f : ExecFile) (phs : List PrgHeader) (g : ExecFile) : Prop :=
  ∃ ph, phs.find? (fun ph => ph.type == ptInterp) = some ph ∧ Opens w script f ph g

/-- The program and its interpreter, if it names one, are accepted. -/
def Accepted (w : World) (script : Bool) (f : ExecFile) (h : ElfHeader) (phs : List PrgHeader) (v : Vars) : Prop :=
  HeadersRead w script f h phs ∧ ∃ tr, findInterp w script f phs Vars.unset = some (.ok (), v, tr)

/-- A file that is accepted is not refused as no program. -/
def NotElf (w : World) (script : Bool) (f : ExecFile) : Prop :=
  readHeader f = some (.error eNOEXEC) ∨ ∃ h, readHeader f = some (.ok h) ∧
      ((readPrgHeaders w ⟨script, false⟩ f h).1 = .error eNOEXEC ∨
        ∃ phs, (readPrgHeaders w ⟨script, false⟩ f h).1 = .ok phs ∧
          ∃ v tr, findInterp w script f phs Vars.unset = some (.error eNOEXEC, v, tr))

/-- A segment is mapped, and so is what it has beyond its file part. -/
structure SegmentLoads (late : Late → Bool) (interp hasMmap : Bool) (bias : BitVec 64) (p : PrgHeader × Nat) : Prop where
  mmap : hasMmap = true
  file : late (.mmap interp p.2) = true
  present : late (.present interp p.2) = true
  bss : p.1.filesize < p.1.memsize → bssLeft bias p.1 ≠ 0 → late (.bss interp p.2) = true

def SegmentsLoad (late : Late → Bool) (interp hasMmap : Bool) (bias : BitVec 64) (phs : List PrgHeader) : Prop :=
  ∀ p ∈ phs.zipIdx, p.1.type = ptLoad → SegmentLoads late interp hasMmap bias p

/-- Every step after the old address space is gone succeeds. -/
structure AllLate (w : World) (script : Bool) (f : ExecFile) (h : ElfHeader) (phs : List PrgHeader) (v : Vars)
    (args env : List Str) : Prop where
  mmNew : w.late script .mmNew = true
  program : SegmentsLoad (w.late script) false f.hasMmap (if h.type = elfDynamic then w.hole script false <<< 12 else 0) phs
  interp : ∀ g iphs, v.fd = some g → v.ph = some iphs →
    SegmentsLoad (w.late script) true g.hasMmap (w.hole script true <<< 12) iphs
  maps : ∀ l ∈ [Late.vdsoHole, .vdso, .vvarHole, .vvar, .stack, .stackTop], w.late script l = true
  writes : ∀ l ∈ [Late.file, .envp, .argv, .platform, .random], w.late script l = true
  pointers : pointersWritten (w.late script) args env = true
  aux : w.late script .aux = true

structure Sound (w : World) (script : Bool) (f : ExecFile) (args env : List Str) : Prop where
  readable : f.Readable
  interp : ∀ h phs g, HeadersRead w script f h phs → InterpOpened w script f phs g → g.Readable
  late : ∀ h phs v, Accepted w script f h phs v → AllLate w script f h phs v args env

/-- What a script needs: an argument to replace, and a sound interpreter. -/
def ScriptSound (w : World) (f : ExecFile) (file : Str) (args env : List Str) : Prop :=
  ∀ header b, f.start = some header → parseShebang header = some b →
    args ≠ [] ∧ ∀ g, argsSize (b.interpreter :: (b.argument.toList ++ file :: args.tail)) < argvMax →
      w.open_ ⟨true, false⟩ b.interpreter = .ok g →
        Sound w true g (b.interpreter :: (b.argument.toList ++ file :: args.tail)) env

def AllSound (w : World) : Prop :=
  ∀ file args env f, w.filename = .ok file → w.mallocArgv = true → w.argv = .ok args → w.mallocEnvp = true →
    w.envp = .ok env → w.offload ≠ .exits → w.open_ ⟨false, false⟩ file = .ok f → w.fstat = .ok () →
    f.mode &&& 0x49 ≠ 0 →
    Sound w false f args env ∧ (NotElf w false f → ScriptSound w f file args env)

/-! ## The headers -/

section Headers

variable {w : World} {script : Bool} {f g : ExecFile} {h : ElfHeader} {phs l : List PrgHeader} {ph : PrgHeader}
  {v : Vars} {r : Except Errno Unit} {tr : List (Ev Res)} {e : Errno}

theorem readHeader_none : readHeader f = none ↔ ¬ f.Readable := by
  unfold readHeader ExecFile.Readable
  generalize f.seeks 0 = sought
  split
  case isTrue hl => simp [hl]
  case isFalse hl =>
    rw [Bool.not_eq_false] at hl
    split
    case isTrue hs => simp [hl, hs]
    case isFalse hs =>
      rw [Bool.not_eq_false] at hs
      split
      case isTrue hr => simp [hl, hs, hr]
      case isFalse hr =>
        rw [Bool.not_eq_false] at hr
        cases f.header with
        | fails => simp [hl, hr]
        | short => simp [hl, hr]
        | got h => simp [hl, hr]

theorem readPrgHeaders_ok (w : World) (who : Who) (f : ExecFile) (h : ElfHeader) {phs : List PrgHeader}
    (hok : (readPrgHeaders w who f h).1 = .ok phs) : readPrgHeaders w who f h = (.ok phs, [.take (.ph who)]) := by
  unfold readPrgHeaders at hok ⊢
  split
  case isTrue hm =>
    rw [if_pos hm] at hok
    cases hok
  case isFalse hm =>
    rw [if_neg hm] at hok
    split
    case isTrue hs =>
      rw [if_pos hs] at hok
      cases hok
    case isFalse hs =>
      rw [if_neg hs] at hok
      split at hok
      case h_1 ph hph =>
        cases hok
        rfl
      all_goals cases hok

theorem readPrgHeaders_error {who : Who} (herr : (readPrgHeaders w who f h).1 = .error e) :
    Settles [] (readPrgHeaders w who f h).2 := by
  have hpair := settles_pair (Res.ph who)
  unfold readPrgHeaders at herr ⊢
  split
  · exact settles_nil _
  case isFalse hm =>
    rw [if_neg hm] at herr
    split
    · exact hpair
    case isFalse hs =>
      rw [if_neg hs] at herr
      split
      case h_1 ph hph =>
        rw [hph] at herr
        cases herr
      all_goals exact hpair

/-! ### The interpreter -/

structure Found (script : Bool) (r : Except Errno Unit) (v : Vars) (tr : List (Ev Res)) : Prop where
  taken : ∃ tr', tr = (v.held script).map .take ++ tr' ∧ Settles [] tr'
  ok : r = .ok () → tr = (v.held script).map .take

theorem found_of_eq (h : tr = (v.held script).map .take) : Found script r v tr :=
  ⟨⟨[], by rw [h, List.append_nil], settles_nil _⟩, fun _ => h⟩

theorem readInterp_found (hread : readInterp w script f ph Vars.unset = some (r, v, tr)) :
    Found script r v tr ∧ (r = .ok () → v.name = true) := by
  unfold readInterp at hread
  split at hread
  · cases hread
    exact ⟨found_of_eq rfl, fun h => by cases h⟩
  split at hread
  · cases hread
    exact ⟨found_of_eq rfl, fun h => by cases h⟩
  dsimp only at hread
  split at hread
  · cases hread
    exact ⟨found_of_eq rfl, fun h => by cases h⟩
  split at hread
  · cases hread
    exact ⟨found_of_eq rfl, fun h => by cases h⟩
  · cases hread
    exact ⟨found_of_eq rfl, fun h => by cases h⟩
  split at hread
  · cases hread
    exact ⟨found_of_eq rfl, fun h => by cases h⟩
  split at hread
  · cases hread
  · cases hread
    exact ⟨found_of_eq rfl, fun h => by cases h⟩
  case h_3 hd _ =>
    split at hread
    case h_1 e tr' hp =>
      cases hread
      have hs : Settles [] tr' := by
        have := readPrgHeaders_error (congrArg Prod.fst hp)
        rwa [hp] at this
      exact ⟨⟨⟨tr', rfl, hs⟩, fun h => by cases h⟩, fun h => by cases h⟩
    case h_2 phs tr' hp =>
      cases hread
      have htr := readPrgHeaders_ok _ _ _ _ (congrArg Prod.fst hp)
      rw [hp] at htr
      cases htr
      exact ⟨found_of_eq rfl, fun _ => rfl⟩

theorem findInterp_named (w : World) (script : Bool) (f : ExecFile) (hv : v.name = true) (l : List PrgHeader) :
    ∃ r, findInterp w script f l v = some (r, v, []) ∧ r ≠ .error eNOEXEC := by
  induction l with
  | nil => exact ⟨.ok (), rfl, fun h => by cases h⟩
  | cons ph l ih =>
    unfold findInterp
    split
    · exact ih
    · exact ⟨.error eINVAL, rfl, fun h => by cases h⟩

theorem findInterp_found (hfind : findInterp w script f l Vars.unset = some (r, v, tr)) : Found script r v tr := by
  induction l generalizing r v tr with
  | nil =>
    cases hfind
    exact found_of_eq rfl
  | cons ph l ih =>
    unfold findInterp at hfind
    split at hfind
    · exact ih hfind
    rw [if_neg (by decide)] at hfind
    split at hfind
    · cases hfind
    case h_2 hread =>
      cases hfind
      exact (readInterp_found hread).1
    case h_3 v' tr' hread =>
      obtain ⟨hfound, hname⟩ := readInterp_found hread
      obtain ⟨r', hrest, _⟩ := findInterp_named w script f (hname rfl) l
      rw [hrest] at hfind
      cases hfind
      rw [List.append_nil]
      exact found_of_eq (hfound.ok rfl)

theorem readInterp_none : readInterp w script f ph v = none ↔ ∃ g, Opens w script f ph g ∧ ¬ g.Readable := by
  refine ⟨fun hnone => ?_, fun ⟨g, ⟨hsize, hmax, hm, hs, name, ht, ho⟩, hr⟩ => ?_⟩
  · unfold readInterp at hnone
    split at hnone
    · cases hnone
    case isFalse hsize =>
      rw [not_or] at hsize
      split at hnone
      · cases hnone
      case isFalse hm =>
        dsimp only at hnone
        split at hnone
        · cases hnone
        case isFalse hs =>
          split at hnone
          · cases hnone
          · cases hnone
          case h_3 name ht =>
            split at hnone
            · cases hnone
            case h_2 g ho =>
              refine ⟨g, ⟨hsize.1, hsize.2, Bool.not_eq_false _ ▸ hm, Bool.not_eq_false _ ▸ hs, name, ht, ho⟩, ?_⟩
              rw [← readHeader_none]
              split at hnone
              case h_1 hnone' => exact hnone'
              case h_2 => cases hnone
              case h_3 =>
                split at hnone
                · cases hnone
                · cases hnone
  unfold readInterp
  rw [if_neg (by rw [not_or]; exact ⟨hsize, hmax⟩), if_neg (by rw [hm]; decide)]
  dsimp only
  rw [if_neg (by rw [hs]; decide), ht]
  dsimp only
  rw [ho]
  dsimp only
  rw [readHeader_none.mpr hr]

theorem findInterp_none :
    findInterp w script f l Vars.unset = none ↔ ∃ g, InterpOpened w script f l g ∧ ¬ g.Readable := by
  induction l with
  | nil =>
    constructor
    · intro h
      cases h
    · rintro ⟨g, ⟨ph, hph, _⟩, _⟩
      cases hph
  | cons ph l ih =>
    unfold findInterp InterpOpened
    by_cases htype : ph.type = ptInterp
    · rw [if_neg (not_not.mpr htype), if_neg (by decide),
        List.find?_cons_of_pos (p := fun ph : PrgHeader => ph.type == ptInterp) (beq_iff_eq.mpr htype)]
      have hsome : (∃ g, (∃ ph', some ph = some ph' ∧ Opens w script f ph' g) ∧ ¬ g.Readable) ↔
          ∃ g, Opens w script f ph g ∧ ¬ g.Readable := by
        refine ⟨fun ⟨g, ⟨ph', hph, ho⟩, hr⟩ => ?_, fun ⟨g, ho, hr⟩ => ⟨g, ⟨ph, rfl, ho⟩, hr⟩⟩
        cases hph
        exact ⟨g, ho, hr⟩
      rw [hsome, ← readInterp_none (v := Vars.unset)]
      cases hread : readInterp w script f ph Vars.unset with
      | none => simp
      | some p =>
        obtain ⟨r, v, tr⟩ := p
        cases r with
        | error e => simp
        | ok _ =>
          obtain ⟨r', hrest, _⟩ :=
            findInterp_named w script f ((readInterp_found hread).2 rfl) l
          simp [hrest]
    · rw [if_pos htype, List.find?_cons_of_neg (p := fun ph : PrgHeader => ph.type == ptInterp) (by rw [beq_iff_eq]; exact htype)]
      exact ih

end Headers

/-! ## Loading -/

section Loading

variable {late : Late → Bool} {interp hasMmap : Bool} {bias : BitVec 64} {ph : PrgHeader} {i : Nat}
  {l : List (PrgHeader × Nat)}

theorem loadEntry_loads (h : SegmentLoads late interp hasMmap bias (ph, i)) :
    ∃ tr, loadEntry late interp hasMmap bias i ph = some (true, tr) ∧ Settles [Res.memLock] tr := by
  have hzero : Settles [Res.memLock] (if tailSize bias ph ≠ 0 then [Ev.drop Res.memLock, .take .memLock] else []) := by
    split
    · exact settles_again List.mem_cons_self
    · exact settles_nil _
  unfold loadEntry
  rw [h.mmap, h.file, h.present, if_neg (by decide), if_neg (by decide), if_neg (by decide)]
  split
  case isTrue hlt =>
    refine ⟨_, ?_, hzero⟩
    dsimp only
    split
    case isTrue hbss => rw [h.bss hlt hbss]
    case isFalse => rfl
  case isFalse => exact ⟨[], rfl, settles_nil _⟩

theorem loadEntry_stops (h : ¬ SegmentLoads late interp hasMmap bias (ph, i)) :
    loadEntry late interp hasMmap bias i ph = none ∨ ∃ tr, loadEntry late interp hasMmap bias i ph = some (false, tr) := by
  unfold loadEntry
  split
  · exact .inl rfl
  case isFalse hm =>
    rw [Bool.not_eq_false] at hm
    split
    · exact .inr ⟨[], rfl⟩
    case isFalse hf =>
      rw [Bool.not_eq_false] at hf
      split
      · exact .inl rfl
      case isFalse hp =>
        rw [Bool.not_eq_false] at hp
        by_cases hbss : ph.filesize < ph.memsize ∧ bssLeft bias ph ≠ 0
        · rw [if_pos hbss.1]
          dsimp only
          rw [if_pos hbss.2]
          cases hl : late (.bss interp i) with
          | false => exact .inr ⟨_, rfl⟩
          | true => exact absurd ⟨hm, hf, hp, fun _ _ => hl⟩ h
        · exact absurd ⟨hm, hf, hp, fun h1 h2 => absurd ⟨h1, h2⟩ hbss⟩ h

theorem loadEntries_load (h : ∀ p ∈ l, p.1.type = ptLoad → SegmentLoads late interp hasMmap bias p) :
    ∃ tr, loadEntries late interp hasMmap bias l = some (true, tr) ∧ Settles [Res.memLock] tr := by
  induction l with
  | nil => exact ⟨[], rfl, settles_nil _⟩
  | cons p l ih =>
    obtain ⟨ph, i⟩ := p
    obtain ⟨tr, hl, hs⟩ := ih fun p hp => h p (List.mem_cons_of_mem _ hp)
    unfold loadEntries
    split
    · exact ⟨tr, hl, hs⟩
    case isFalse htype =>
      obtain ⟨tr', he, hs'⟩ := loadEntry_loads (h (ph, i) List.mem_cons_self (not_not.mp htype))
      rw [he]
      dsimp only
      rw [hl]
      exact ⟨tr' ++ tr, rfl, hs'.append hs⟩

theorem loadEntries_stop (h : ¬ ∀ p ∈ l, p.1.type = ptLoad → SegmentLoads late interp hasMmap bias p) :
    loadEntries late interp hasMmap bias l = none ∨ ∃ tr, loadEntries late interp hasMmap bias l = some (false, tr) := by
  induction l with
  | nil => exact absurd (fun p hp => absurd hp List.not_mem_nil) h
  | cons p l ih =>
    obtain ⟨ph, i⟩ := p
    unfold loadEntries
    split
    case isTrue htype =>
      apply ih
      intro hl
      apply h
      intro q hq hq'
      rcases List.mem_cons.mp hq with rfl | hq
      · exact absurd hq' htype
      · exact hl q hq hq'
    case isFalse htype =>
      by_cases hp : SegmentLoads late interp hasMmap bias (ph, i)
      · obtain ⟨tr, he, _⟩ := loadEntry_loads hp
        rw [he]
        dsimp only
        have hl : ¬ ∀ q ∈ l, q.1.type = ptLoad → SegmentLoads late interp hasMmap bias q := by
          intro hl
          apply h
          intro q hq hq'
          rcases List.mem_cons.mp hq with rfl | hq
          · exact hp
          · exact hl q hq hq'
        rcases ih hl with hrest | ⟨tr', hrest⟩
        · rw [hrest]
          exact .inl rfl
        · rw [hrest]
          exact .inr ⟨_, rfl⟩
      rcases loadEntry_stops hp with he | ⟨tr, he⟩
      · rw [he]
        exact .inl rfl
      · rw [he]
        exact .inr ⟨tr, rfl⟩

end Loading

/-! ## Running a program -/

section Run

variable {w : World} {script : Bool} {f : ExecFile} {h : ElfHeader} {phs : List PrgHeader} {file : Str}
  {args env : List Str} {v : Vars} {s : Proc}

inductive Loaded (script : Bool) (v : Vars) (s : Proc) (ok : Prop) : Option (Except Errno Unit × Proc) → Prop
  | crashed : ¬ ok → Loaded script v s ok none
  | lost (r : Except Errno Unit) (s' : Proc) : ¬ ok → r ≠ .error eNOEXEC → s'.task = s.task → Loaded script v s ok (some (r, s'))
  | finished (cpu : Cpu) (tr tr' : List (Ev Res)) : ok → Settles [Res.memLock] tr → Settles [] tr' →
      Loaded script v s ok (some (.ok (),
        ⟨{ s.task with mm := { s.task.mm with finished := true }, cpu := cpu },
          s.trace ++ (tr ++ [.drop .memLock] ++ tr') ++
            ((v.held script).map .drop ++ [.drop (.ph ⟨script, false⟩)])⟩))

@[simp] theorem Proc.emit_task (s : Proc) (l : List (Ev Res)) : (s.emit l).task = s.task := rfl

@[simp] theorem Proc.emit_trace (s : Proc) (l : List (Ev Res)) : (s.emit l).trace = s.trace ++ l := rfl

theorem beyondHope_lost {ok : Prop} {r : Except Errno Unit} {s' : Proc} (hok : ¬ ok) (hr : r ≠ .error eNOEXEC)
    (hs : s'.task = s.task) : Loaded script v s ok (some (beyondHope script v r s')) := .lost _ _ hok hr hs

theorem elfStack_cases (w : World) (script : Bool) (file : Str) (args env : List Str) (entry : BitVec 64) (v : Vars)
    (s : Proc) : ((∀ l ∈ [Late.file, .envp, .argv, .platform, .random], w.late script l = true) ∧
        pointersWritten (w.late script) args env = true ∧ w.late script .aux = true ∧
      ∃ tr, Settles [] tr ∧ elfStack w script file args env entry v s =
        (.ok (), ⟨{ s.task with mm := { s.task.mm with finished := true }, cpu := startCpu (w.sp script) entry },
          s.trace ++ tr ++ ((v.held script).map .drop ++ [.drop (.ph ⟨script, false⟩)])⟩)) ∨
    (¬ ((∀ l ∈ [Late.file, .envp, .argv, .platform, .random], w.late script l = true) ∧
        pointersWritten (w.late script) args env = true ∧ w.late script .aux = true) ∧
      ∃ s', elfStack w script file args env entry v s = (.error eFAULT, s') ∧ s'.task = s.task) := by
  unfold elfStack
  dsimp only
  split
  case isTrue hw =>
    refine .inr ⟨fun hall => ?_, _, rfl, rfl⟩
    simp [hall.1] at hw
  case isFalse hw =>
    split
    case isTrue hp =>
      refine .inr ⟨fun hall => ?_, _, rfl, rfl⟩
      rw [hall.2.1] at hp
      cases hp
    case isFalse hp =>
      rw [Bool.not_eq_false] at hp
      split
      case isTrue ha =>
        refine .inr ⟨fun hall => ?_, _, rfl, rfl⟩
        rw [hall.2.2] at ha
        cases ha
      case isFalse ha =>
        rw [Bool.not_eq_false] at ha
        refine .inl ⟨by simpa using hw, hp, ha, ?_⟩
        split
        · exact ⟨[.take .memLock, .drop .memLock], settles_around (settles_nil _), rfl⟩
        refine ⟨[], settles_nil _, ?_⟩
        rw [List.append_nil]
        rfl

theorem loadInterp_cases (late : Late → Bool) (base : BitVec 64) (v : Vars) :
    ((∀ g iphs, v.fd = some g → v.ph = some iphs → SegmentsLoad late true g.hasMmap base iphs) ∧
      ∃ tr, loadInterp late base v = some (true, tr) ∧ Settles [Res.memLock] tr) ∨
    (¬ (∀ g iphs, v.fd = some g → v.ph = some iphs → SegmentsLoad late true g.hasMmap base iphs) ∧
      (loadInterp late base v = none ∨ ∃ tr, loadInterp late base v = some (false, tr))) := by
  unfold loadInterp
  split
  case h_1 g iphs hg hph =>
    by_cases hall : SegmentsLoad late true g.hasMmap base iphs
    · refine .inl ⟨fun g' iphs' hg' hph' => ?_, ?_⟩
      · rw [hg] at hg'
        rw [hph] at hph'
        cases hg'
        cases hph'
        exact hall
      · exact loadEntries_load fun p hp => hall p (List.mem_reverse.mp hp)
    · refine .inr ⟨fun h => hall (h g iphs hg hph), ?_⟩
      exact loadEntries_stop fun h => hall fun p hp => h p (List.mem_reverse.mpr hp)
  case h_2 hno =>
    exact .inl ⟨fun g iphs hg hph => absurd hph (hno g iphs hg), [], rfl, settles_nil _⟩

theorem elfLoad_loaded (hmm : w.late script .mmNew = true) :
    Loaded script v s (AllLate w script f h phs v args env) (elfLoad w script f h phs file args env v s) := by
  unfold elfLoad
  dsimp only
  by_cases hprog : SegmentsLoad (w.late script) false f.hasMmap
      (if h.type = elfDynamic then w.hole script false <<< 12 else 0) phs
  case neg =>
    have hok : ¬ AllLate w script f h phs v args env := fun hall => hprog hall.program
    rcases loadEntries_stop hprog with he | ⟨tr, he⟩
    · rw [he]
      exact .crashed hok
    · rw [he]
      exact beyondHope_lost hok (fun h => by cases h) rfl
  case pos =>
    obtain ⟨tr, he, hs⟩ := loadEntries_load hprog
    rw [he]
    dsimp only
    rcases loadInterp_cases (w.late script) (w.hole script true <<< 12) v with ⟨hint, tr', hi, hs'⟩ | ⟨hint, hi⟩
    case inr =>
      have hok : ¬ AllLate w script f h phs v args env := fun hall => hint hall.interp
      rcases hi with hi | ⟨tr', hi⟩
      · rw [hi]
        exact .crashed hok
      · rw [hi]
        exact beyondHope_lost hok (fun h => by cases h) rfl
    case inl =>
      rw [hi]
      dsimp only
      -- the mappings of the kernel
      split
      case isTrue hvdso =>
        refine beyondHope_lost (fun hall => ?_) (fun h => by cases h) rfl
        simp [hall.maps] at hvdso
      case isFalse hvdso =>
        split
        case isTrue hhole =>
          refine beyondHope_lost (fun hall => ?_) (fun h => by cases h) rfl
          simp [hall.maps] at hhole
        case isFalse hhole =>
          split
          case isTrue hvvar =>
            refine beyondHope_lost (fun hall => ?_) (fun h => by cases h) rfl
            simp [hall.maps] at hvvar
          case isFalse hvvar =>
            rcases elfStack_cases w script file args env _ v
                (((s.emit tr).emit tr').emit [.drop .memLock]) with ⟨hw, hp, ha, tr₂, hs₂, he⟩ | ⟨hno, s', he, htask⟩
            · have hall : AllLate w script f h phs v args env := by
                refine ⟨hmm, hprog, hint, ?_, hw, hp, ha⟩
                simp at hvdso hhole hvvar
                simp [hvdso, hhole, hvvar]
              rw [he]
              have htrace : s.trace ++ tr ++ tr' ++ [Ev.drop Res.memLock] ++ tr₂ =
                  s.trace ++ ((tr ++ tr') ++ [.drop .memLock] ++ tr₂) := by
                simp only [List.append_assoc]
              simp only [Proc.emit_trace, Proc.emit_task]
              rw [htrace]
              exact .finished _ _ _ hall (hs.append hs') hs₂
            · rw [he]
              exact .lost _ _ (fun hall => hno ⟨hall.writes, hall.pointers, hall.aux⟩) (fun h => by cases h) htask

inductive Fate (w : World) (script : Bool) (f : ExecFile) (args env : List Str) (s : Proc) :
    Option (Except Errno Unit × Proc) → Prop
  | crashed : ¬ Sound w script f args env → Fate w script f args env s none
  | refused (e : Errno) (tr : List (Ev Res)) : Sound w script f args env → (e = eNOEXEC ↔ NotElf w script f) →
      Settles [] tr → Fate w script f args env s (some (.error e, s.emit tr))
  | leaked (tr : List (Ev Res)) : ¬ Sound w script f args env → net (.ph ⟨script, false⟩) tr = 1 →
      Fate w script f args env s (some (.error eNOMEM, s.emit tr))
  | lost (r : Except Errno Unit) (s' : Proc) : ¬ Sound w script f args env → r ≠ .error eNOEXEC →
      s'.task = { s.task with mm := ⟨s.task.mm.gen + 1, false⟩ } → Fate w script f args env s (some (r, s'))
  | started (cpu : Cpu) (tr : List (Ev Res)) : Sound w script f args env → ¬ NotElf w script f → Settles [] tr →
      Fate w script f args env s
        (some (.ok (), ⟨{ s.task with mm := ⟨s.task.mm.gen + 1, true⟩, cpu := cpu }, s.trace ++ tr⟩))

theorem sound_of_refused (hread : f.Readable)
    (hint : ∀ h phs g, HeadersRead w script f h phs → InterpOpened w script f phs g → g.Readable)
    (hno : ∀ h phs v, ¬ Accepted w script f h phs v) : Sound w script f args env :=
  ⟨hread, hint, fun h phs v ha => absurd ha (hno h phs v)⟩

theorem net_held (script : Bool) (v : Vars) :
    net (Res.ph ⟨script, false⟩) ((v.held script).map .take) = 0 := by
  unfold Vars.held
  cases v.name <;> cases v.fd.isSome <;> cases v.ph.isSome <;> simp [net]

theorem readable_of_eq {r : Except Errno ElfHeader} (hh : readHeader f = some r) : f.Readable := by
  by_contra hno
  rw [readHeader_none.mpr hno] at hh
  cases hh

theorem fate_header {e : Errno} (hh : readHeader f = some (.error e)) :
    Fate w script f args env s (elfExec w script f file args env s) := by
  have hno : ∀ h phs, ¬ HeadersRead w script f h phs := by
    intro h phs ⟨hr, _⟩
    rw [hh] at hr
    cases hr
  have hsound : Sound w script f args env :=
    sound_of_refused (readable_of_eq hh) (fun h phs g hr => absurd hr (hno h phs)) fun h phs v ha => hno h phs ha.1
  have hiff : e = eNOEXEC ↔ NotElf w script f := by
    refine ⟨fun he => .inl (by rw [hh, he]), fun hn => ?_⟩
    rcases hn with hn | ⟨h, hn, _⟩
    · rw [hh] at hn
      cases hn
      rfl
    · rw [hh] at hn
      cases hn
  have hfate := Fate.refused (s := s) e [] hsound hiff (settles_nil _)
  unfold Proc.emit at hfate
  rw [List.append_nil] at hfate
  unfold elfExec
  rw [hh]
  exact hfate

theorem fate_prgHeaders {e : Errno} (hh : readHeader f = some (.ok h))
    (hp : (readPrgHeaders w ⟨script, false⟩ f h).1 = .error e) :
    Fate w script f args env s (elfExec w script f file args env s) := by
  have hno : ∀ h' phs, ¬ HeadersRead w script f h' phs := by
    intro h' phs ⟨hr, hr'⟩
    rw [hh] at hr
    cases hr
    rw [hp] at hr'
    cases hr'
  have hsound : Sound w script f args env :=
    sound_of_refused (readable_of_eq hh) (fun h phs g hr => absurd hr (hno h phs)) fun h phs v ha => hno h phs ha.1
  have hiff : e = eNOEXEC ↔ NotElf w script f := by
    refine ⟨fun he => .inr ⟨h, hh, .inl (by rw [hp, he])⟩, fun hn => ?_⟩
    rcases hn with hn | ⟨h', hn, hn'⟩
    · rw [hh] at hn
      cases hn
    rw [hh] at hn
    cases hn
    rcases hn' with hn' | ⟨phs, hn', _⟩
    · rw [hp] at hn'
      cases hn'
      rfl
    · rw [hp] at hn'
      cases hn'
  have hset := readPrgHeaders_error hp
  unfold elfExec
  rw [hh]
  dsimp only
  generalize readPrgHeaders w ⟨script, false⟩ f h = p at hp hset
  obtain ⟨r, tr⟩ := p
  cases hp
  exact .refused e tr hsound hiff hset

theorem fate_loaded {tr : List (Ev Res)} {ok : Prop} {s₁ : Proc} {out : Option (Except Errno Unit × Proc)}
    (htr : tr = (v.held script).map .take) (hok : ok ↔ Sound w script f args env) (hnot : ¬ NotElf w script f)
    (htask : s₁.task = { s.task with mm := ⟨s.task.mm.gen + 1, false⟩ })
    (htrace : s₁.trace = s.trace ++ [.take (.ph ⟨script, false⟩)] ++ tr ++
      [.take .generalLock, .drop .generalLock, .take .memLock])
    (hl : Loaded script v s₁ ok out) : Fate w script f args env s out := by
  cases hl with
  | crashed hno => exact .crashed fun hs => hno (hok.mpr hs)
  | lost r s' hno hr hs' => exact .lost r s' (fun hs => hno (hok.mpr hs)) hr (hs'.trans htask)
  | finished cpu tr₁ tr₂ hall h₁ h₂ =>
    have hlocks : Settles [] ((.take Res.generalLock :: [] ++ [.drop .generalLock]) ++
        ((.take .memLock :: tr₁ ++ [.drop .memLock]) ++ tr₂)) :=
      (settles_around (settles_nil _)).append ((settles_around h₁).append h₂)
    have hset : Settles [] (.take (.ph ⟨script, false⟩) :: ((v.held script).map .take ++
        ((.take Res.generalLock :: [] ++ [.drop .generalLock]) ++ ((.take .memLock :: tr₁ ++ [.drop .memLock]) ++ tr₂)) ++
          (v.held script).map .drop) ++ [.drop (.ph ⟨script, false⟩)]) :=
      settles_around (settles_group _ (hlocks.weaken _))
    have hfate : Fate w script f args env s _ := .started cpu _ (hok.mp hall) hnot hset
    have heq : s₁.trace ++ (tr₁ ++ [.drop .memLock] ++ tr₂) ++
        ((v.held script).map .drop ++ [.drop (.ph ⟨script, false⟩)]) = s.trace ++ (.take (.ph ⟨script, false⟩) ::
          ((v.held script).map .take ++ ((.take Res.generalLock :: [] ++ [.drop .generalLock]) ++
            ((.take .memLock :: tr₁ ++ [.drop .memLock]) ++ tr₂)) ++ (v.held script).map .drop) ++
              [.drop (.ph ⟨script, false⟩)]) := by
      simp [htrace, htr]
    rw [heq, htask]
    exact hfate

theorem fate_read (hr : HeadersRead w script f h phs) :
    Fate w script f args env s (elfExec w script f file args env s) := by
  have hsame : ∀ h' phs', HeadersRead w script f h' phs' → h' = h ∧ phs' = phs := by
    intro h' phs' ⟨hh, hp⟩
    rw [hr.1] at hh
    cases hh
    rw [hr.2] at hp
    cases hp
    exact ⟨rfl, rfl⟩
  have hread := readable_of_eq hr.1
  unfold elfExec
  rw [hr.1]
  dsimp only
  rw [readPrgHeaders_ok _ _ _ _ hr.2]
  dsimp only
  have hnotElf : NotElf w script f ↔ ∃ v tr, findInterp w script f phs Vars.unset = some (.error eNOEXEC, v, tr) := by
    constructor
    · rintro (hn | ⟨h', hh, hn | ⟨phs', hp, hn⟩⟩)
      · rw [hr.1] at hn
        cases hn
      · rw [hr.1] at hh
        cases hh
        rw [hr.2] at hn
        cases hn
      · obtain ⟨_, rfl⟩ := hsame h' phs' ⟨hh, hp⟩
        exact hn
    · intro hn
      exact .inr ⟨h, hr.1, .inr ⟨phs, hr.2, hn⟩⟩
  cases hf : findInterp w script f phs Vars.unset with
  | none =>
    obtain ⟨g, hg, hno⟩ := findInterp_none.mp hf
    exact .crashed fun hs => hno (hs.interp h phs g hr hg)
  | some p =>
    obtain ⟨r, v, tr⟩ := p
    have hint : ∀ h' phs' g, HeadersRead w script f h' phs' → InterpOpened w script f phs' g → g.Readable := by
      intro h' phs' g hr' hg
      obtain ⟨_, rfl⟩ := hsame h' phs' hr'
      by_contra hno
      rw [findInterp_none.mpr ⟨g, hg, hno⟩] at hf
      cases hf
    obtain ⟨⟨tr', htr, hset⟩, hok⟩ := findInterp_found hf
    cases r with
    | error e =>
      have hno : ∀ h' phs' v', ¬ Accepted w script f h' phs' v' := by
        intro h' phs' v' ⟨hr', tr', hf'⟩
        obtain ⟨_, rfl⟩ := hsame h' phs' hr'
        rw [hf] at hf'
        cases hf'
      have hiff : e = eNOEXEC ↔ NotElf w script f := by
        rw [hnotElf, hf]
        constructor
        · intro he
          exact ⟨v, tr, by rw [he]⟩
        rintro ⟨v', tr', heq⟩
        cases heq
        rfl
      have hall : Settles [] (.take (.ph ⟨script, false⟩) :: ((v.held script).map .take ++ tr' ++ (v.held script).map .drop) ++
          [.drop (.ph ⟨script, false⟩)]) :=
        settles_around (settles_group _ (hset.weaken _))
      have hfate : Fate w script f args env s _ := .refused e _ (sound_of_refused hread hint hno) hiff hall
      dsimp only
      have htrace : outFreeInterp script v (.error e) ((s.emit [.take (.ph ⟨script, false⟩)]).emit tr) =
          (.error e, s.emit (.take (.ph ⟨script, false⟩) ::
            ((v.held script).map .take ++ tr' ++ (v.held script).map .drop) ++ [.drop (.ph ⟨script, false⟩)])) := by
        simp [outFreeInterp, Proc.emit, htr]
      rw [htrace]
      exact hfate
    | ok _ =>
      have htr := hok rfl
      have hacc : Accepted w script f h phs v := ⟨hr, tr, hf⟩
      have hsound : AllLate w script f h phs v args env ↔ Sound w script f args env := by
        constructor
        · intro hall
          refine ⟨hread, hint, fun h' phs' v' ⟨hr', tr', hf'⟩ => ?_⟩
          obtain ⟨rfl, rfl⟩ := hsame h' phs' hr'
          rw [hf] at hf'
          cases hf'
          exact hall
        · intro hs
          exact hs.late h phs v hacc
      dsimp only
      split
      case isTrue hmm =>
        have hleak : ¬ Sound w script f args env := by
          intro hs
          have := (hsound.mpr hs).mmNew
          rw [hmm] at this
          cases this
        have hnet : net (Res.ph ⟨script, false⟩) ([.take (.ph ⟨script, false⟩)] ++ tr) = 1 := by
          rw [net_append, htr, net_held]
          simp [net]
        have hfate : Fate w script f args env s _ := .leaked _ hleak hnet
        unfold Proc.emit at hfate ⊢
        rw [← List.append_assoc] at hfate
        exact hfate
      case isFalse hmm =>
        rw [Bool.not_eq_false] at hmm
        have hnot : ¬ NotElf w script f := by
          rw [hnotElf, hf]
          rintro ⟨v', tr', heq⟩
          cases heq
        exact fate_loaded htr hsound hnot rfl rfl (elfLoad_loaded hmm)

theorem elfExec_fate (w : World) (script : Bool) (f : ExecFile) (file : Str) (args env : List Str) (s : Proc) :
    Fate w script f args env s (elfExec w script f file args env s) := by
  cases hh : readHeader f with
  | none =>
    unfold elfExec
    rw [hh]
    exact .crashed fun hs => readHeader_none.mp hh hs.readable
  | some r =>
    cases r with
    | error e => exact fate_header hh
    | ok h =>
      cases hp : (readPrgHeaders w ⟨script, false⟩ f h).1 with
      | error e => exact fate_prgHeaders hh hp
      | ok phs => exact fate_read ⟨hh, hp⟩

end Run

/-! ## The call -/

section Call

variable {w : World} {f : ExecFile} {file : Str} {args env : List Str} {s s' : Proc} {good : Prop}
  {out : Option (Except Errno Unit × Proc)} {r : Except Errno Unit}

/-- What a call must not come to: something is not given back, the address space is not that of before although the
call fails, or the image is not finished although it does not. -/
inductive Broken (s : Proc) (r : Except Errno Unit) (s' : Proc) : Prop
  | leaks (res : Res) (tr : List (Ev Res)) : s'.trace = s.trace ++ tr → net res tr ≠ 0 → Broken s r s'
  | replaced (e : Errno) : r = .error e → s'.task.mm.gen ≠ s.task.mm.gen → Broken s r s'
  | unfinished : r = .ok () → s'.task.mm.finished = false → Broken s r s'

inductive CallFate (good : Prop) (s : Proc) : Option (Except Errno Unit × Proc) → Prop
  | crashed : ¬ good → CallFate good s none
  | broken (r : Except Errno Unit) (s' : Proc) : ¬ good → Broken s r s' → CallFate good s (some (r, s'))
  | failed (e : Errno) (tr : List (Ev Res)) : good → Settles [] tr → CallFate good s (some (.error e, s.emit tr))
  | started (t : Task) (tr : List (Ev Res)) : good → Settles [] tr → s.task.mm.gen < t.mm.gen → t.mm.finished = true →
      CallFate good s (some (.ok (), ⟨t, s.trace ++ tr⟩))

theorem CallFate.congr {good' : Prop} (h : CallFate good s out) (hiff : good ↔ good') : CallFate good' s out :=
  (propext hiff) ▸ h

theorem failed_at_once (hgood : good) (e : Errno) : CallFate good s (some (.error e, s)) := by
  have h : CallFate good s (some (.error e, s.emit [])) := .failed e [] hgood (settles_nil _)
  unfold Proc.emit at h
  rw [List.append_nil] at h
  exact h

theorem CallFate.around {pre post : List (Ev Res)} (h : CallFate good (s.emit pre) out)
    (hset : ∀ tr, Settles [] tr → Settles [] (pre ++ tr ++ post)) :
    CallFate good s (out.map fun r => (r.1, r.2.emit post)) := by
  have hnet : ∀ res, net res pre + net res post = 0 := by
    intro res
    have := net_of_settles (hset [] (settles_nil _)) res
    rwa [List.append_nil, net_append] at this
  cases h with
  | crashed hno => exact .crashed hno
  | broken r s' hno hb =>
    refine .broken r _ hno ?_
    cases hb with
    | leaks res tr htr hn =>
      refine .leaks res (pre ++ tr ++ post) ?_ ?_
      · rw [Proc.emit_trace, htr, Proc.emit_trace]
        simp only [List.append_assoc]
      rw [net_append, net_append]
      have := hnet res
      omega
    | replaced e he hgen => exact .replaced e he hgen
    | unfinished hr hfin => exact .unfinished hr hfin
  | failed e tr hgood htr =>
    have h := CallFate.failed (s := s) e _ hgood (hset tr htr)
    rw [Option.map_some]
    unfold Proc.emit at h ⊢
    simp only [List.append_assoc] at h ⊢
    exact h
  | started t tr hgood htr hgen hfin =>
    have h := CallFate.started (s := s) t _ hgood (hset tr htr) hgen hfin
    rw [Option.map_some]
    unfold Proc.emit
    simp only [List.append_assoc] at h ⊢
    exact h

theorem CallFate.after {pre : List (Ev Res)} (h : CallFate good (s.emit pre) out) (hpre : Settles [] pre) :
    CallFate good s out := by
  have hset : ∀ tr, Settles [] tr → Settles [] (pre ++ tr ++ []) := by
    intro tr htr
    rw [List.append_nil]
    exact hpre.append htr
  have h' := h.around hset
  have hid : out.map (fun r => (r.1, r.2.emit [])) = out := by
    cases out with
    | none => rfl
    | some r =>
      rw [Option.map_some]
      unfold Proc.emit
      rw [List.append_nil]
  rwa [hid] at h'

theorem callFate_elf (hf : Fate w true f args env s out) : CallFate (Sound w true f args env) s out := by
  cases hf with
  | crashed hno => exact .crashed hno
  | refused e tr hs _ htr => exact .failed e tr hs htr
  | leaked tr hno hnet => exact .broken _ _ hno (.leaks _ tr rfl (by rw [hnet]; decide))
  | lost r s' hno _ htask =>
    refine .broken _ _ hno ?_
    cases r with
    | error e => exact .replaced e rfl (by rw [htask]; exact Nat.succ_ne_self _)
    | ok _ => exact .unfinished rfl (by rw [htask])
  | started cpu tr hs _ htr => exact .started _ tr hs htr (Nat.lt_succ_self _) rfl

theorem operations_of_notElf (h : NotElf w false f) : f.hasLseek = true ∧ f.seeks 0 = true ∧ f.hasRead = true := by
  have hsome : ∃ r, readHeader f = some r ∧ r ≠ .error eIO := by
    rcases h with h | ⟨h', h, _⟩
    · exact ⟨_, h, fun he => by cases he⟩
    · exact ⟨_, h, fun he => by cases he⟩
  obtain ⟨r, hr, hne⟩ := hsome
  obtain ⟨hl, hread⟩ := readable_of_eq hr
  have hs : f.seeks 0 = true := by
    rw [← Bool.not_eq_false]
    intro hs
    unfold readHeader at hr
    rw [if_neg (by rw [hl]; decide), if_pos hs] at hr
    cases hr
    exact hne rfl
  exact ⟨hl, hs, hread hs⟩

theorem shebangExec_fate (h : NotElf w false f) :
    CallFate (ScriptSound w f file args env) s (shebangExec w f file args env s) := by
  obtain ⟨hl, hs, hr⟩ := operations_of_notElf h
  unfold shebangExec
  rw [if_neg (by rw [hl]; decide), if_neg (by rw [hs]; decide), if_neg (by rw [hr]; decide)]
  cases hstart : f.start with
  | none =>
    refine failed_at_once (fun header b hh => ?_) _
    rw [hstart] at hh
    cases hh
  | some header =>
    dsimp only
    have hsame : ∀ header', f.start = some header' → header' = header := by
      intro header' hh
      rw [hstart] at hh
      exact (Option.some.inj hh).symm
    cases hparse : parseShebang header with
    | none =>
      refine failed_at_once (fun header' b hh hb => ?_) _
      rw [hsame header' hh, hparse] at hb
      cases hb
    | some b =>
      have hscript : ScriptSound w f file args env ↔
          args ≠ [] ∧ ∀ g, argsSize (b.interpreter :: (b.argument.toList ++ file :: args.tail)) < argvMax →
            w.open_ ⟨true, false⟩ b.interpreter = .ok g →
              Sound w true g (b.interpreter :: (b.argument.toList ++ file :: args.tail)) env := by
        constructor
        · intro h
          exact h header b hstart hparse
        intro h header' b' hh hb
        rw [hsame header' hh, hparse] at hb
        cases hb
        exact h
      cases args with
      | nil => exact .crashed fun h => (hscript.mp h).1 rfl
      | cons a rest =>
        dsimp only
        split
        case isTrue hbig =>
          refine failed_at_once (hscript.mpr ⟨List.cons_ne_nil _ _, fun g hfits => ?_⟩) _
          exact absurd hbig (Nat.not_le_of_gt hfits)
        case isFalse hfits =>
          cases hopen : w.open_ ⟨true, false⟩ b.interpreter with
          | error e =>
            refine failed_at_once (hscript.mpr ⟨List.cons_ne_nil _ _, fun g _ hg => ?_⟩) _
            rw [hopen] at hg
            cases hg
          | ok g =>
            have hfate := (callFate_elf (elfExec_fate w true g b.interpreter
              (b.interpreter :: (b.argument.toList ++ file :: rest)) env (s.emit [.take (.fd ⟨true, false⟩)]))).around
                fun tr htr => settles_around (htr.weaken [Res.fd ⟨true, false⟩])
            refine hfate.congr ?_
            rw [hscript]
            constructor
            · intro hsound
              refine ⟨List.cons_ne_nil _ _, fun g' _ hg => ?_⟩
              rw [hopen] at hg
              cases hg
              exact hsound
            · intro h
              exact h.2 g (Nat.lt_of_not_le hfits) hopen

def FileSound (w : World) (f : ExecFile) (file : Str) (args env : List Str) : Prop :=
  w.fstat = .ok () → f.mode &&& 0x49 ≠ 0 →
    Sound w false f args env ∧ (NotElf w false f → ScriptSound w f file args env)

theorem execFile_fate (w : World) (f : ExecFile) (file : Str) (args env : List Str) (s : Proc) :
    CallFate (FileSound w f file args env) s (execFile w f file args env s) := by
  unfold execFile
  cases hstat : w.fstat with
  | error e =>
    refine failed_at_once (fun h => ?_) e
    rw [hstat] at h
    cases h
  | ok _ =>
    dsimp only
    split
    case isTrue hmode => exact failed_at_once (fun _ h => absurd hmode h) _
    case isFalse hmode =>
      have hgood : FileSound w f file args env ↔
          Sound w false f args env ∧ (NotElf w false f → ScriptSound w f file args env) :=
        ⟨fun h => h hstat hmode, fun h _ _ => h⟩
      have hfate := elfExec_fate w false f file args env s
      unfold formatExec
      generalize elfExec w false f file args env s = out at hfate
      cases hfate with
      | crashed hno => exact .crashed fun h => hno (hgood.mp h).1
      | refused e tr hs hiff htr =>
        dsimp only
        split
        case isTrue he =>
          have hn := hiff.mp he
          exact ((shebangExec_fate hn).after htr).congr
            (hgood.trans ⟨fun h => h.2 hn, fun h => ⟨hs, fun _ => h⟩⟩).symm
        case isFalse he => exact .failed e tr (hgood.mpr ⟨hs, fun hn => absurd (hiff.mpr hn) he⟩) htr
      | leaked tr hno hnet =>
        dsimp only
        rw [if_neg (by decide)]
        exact .broken _ _ (fun h => hno (hgood.mp h).1) (.leaks _ tr rfl (by rw [hnet]; decide))
      | lost r s' hno hr htask =>
        have hno' : ¬ FileSound w f file args env := fun h => hno (hgood.mp h).1
        cases r with
        | error e =>
          dsimp only
          rw [if_neg fun he => hr (by rw [he])]
          exact .broken _ _ hno' (.replaced e rfl (by rw [htask]; exact Nat.succ_ne_self _))
        | ok _ => exact .broken _ _ hno' (.unfinished rfl (by rw [htask]))
      | started cpu tr hs hn htr =>
        exact .started _ tr (hgood.mpr ⟨hs, fun h => absurd h hn⟩) htr (Nat.lt_succ_self _) rfl

theorem startedLocks_settle (t : Task) : Settles [] (startedLocks t) := by
  unfold startedLocks
  refine ((settles_pair Res.generalLock).append (settles_pair Res.sighandLock)).append ?_
  split
  · exact settles_pair Res.pidsLock
  · exact settles_nil _

theorem CallFate.and_then {t : Task} {l : List (Ev Res)} (h : CallFate good s (some (.ok (), s')))
    (ht : t.mm = s'.task.mm) (hl : Settles [] l) : CallFate good s (some (.ok (), ⟨t, s'.trace ++ l⟩)) := by
  cases h with
  | broken r s' hno hb =>
    refine .broken _ _ hno ?_
    cases hb with
    | leaks res tr htr hn =>
      refine .leaks res (tr ++ l) ?_ ?_
      · rw [htr, List.append_assoc]
      · rw [net_append, net_of_settles hl, Int.add_zero]
        exact hn
    | replaced e he _ => cases he
    | unfinished hr hfin => exact .unfinished hr (by rw [ht]; exact hfin)
  | started t' tr hgood htr hgen hfin =>
    have h := CallFate.started (s := s) t _ hgood (htr.append hl) (by rw [ht]; exact hgen) (by rw [ht]; exact hfin)
    rw [← List.append_assoc] at h
    exact h

theorem doExecve_fate (w : World) (file : Str) (args env : List Str) (s : Proc) :
    CallFate (∀ f, w.open_ ⟨false, false⟩ file = .ok f → FileSound w f file args env) s
      (doExecve w file args env s) := by
  unfold doExecve
  cases hopen : w.open_ ⟨false, false⟩ file with
  | error e => exact failed_at_once (fun f h => by cases h) e
  | ok f =>
    dsimp only
    have hgood : (∀ f', (Except.ok f : Except Errno ExecFile) = .ok f' → FileSound w f' file args env) ↔ FileSound w f file args env := by
      constructor
      · intro h
        exact h f rfl
      intro h f' heq
      cases heq
      exact h
    have hfate := execFile_fate w f file args env (s.emit [.take (.fd ⟨false, false⟩)])
    have hset : ∀ tr, Settles [] tr → Settles [] ([.take (Res.fd ⟨false, false⟩)] ++ tr ++ [.drop (.fd ⟨false, false⟩)]) :=
      fun tr htr => settles_around (htr.weaken _)
    have haround := hfate.around hset
    refine CallFate.congr ?_ hgood.symm
    generalize execFile w f file args env (s.emit [.take (.fd ⟨false, false⟩)]) = out at haround
    cases out with
    | none => exact haround
    | some p =>
      obtain ⟨r, s'⟩ := p
      cases r with
      | error e => exact haround
      | ok _ =>
        dsimp only
        exact CallFate.and_then haround rfl (startedLocks_settle _)

/-! ### The buffers -/

theorem probed_settle (l : List Bool) : Settles [] (probed l) := by
  unfold probed
  generalize l.zipIdx = k
  induction k with
  | nil => exact settles_nil _
  | cons p k ih =>
    rw [List.flatMap_cons]
    refine Settles.append ?_ ih
    split
    · exact settles_pair _
    · exact settles_nil _

theorem Ended.error {t t' : Task} {e : Errno} (h : Ended t (.returns (.error e)) t') : t' = t := by
  cases h
  rfl

theorem Ended.ok {t t' : Task} (h : Ended t (.returns (.ok ())) t') : t'.mm.finished = true := by
  cases h with
  | started _ _ hfin => exact hfin

theorem CallFate.intact_iff {t : Task} (h : CallFate good ⟨t, []⟩ out) :
    (∃ o s, (out.map fun r => (Outcome.returns r.1, r.2)) = some (o, s) ∧ Settled s.trace ∧ Ended t o s.task) ↔ good := by
  cases h with
  | crashed hno =>
    constructor
    · rintro ⟨o, s, h, _⟩
      cases h
    · exact fun h => absurd h hno
  | broken r s' hno hb =>
    constructor
    · rintro ⟨o, s, heq, hset, hend⟩
      cases heq
      cases hb with
      | leaks res tr htr hn =>
        rw [htr, List.nil_append] at hset
        exact absurd (net_of_settled hset res) hn
      | replaced e he hgen =>
        subst he
        rw [hend.error] at hgen
        exact absurd rfl hgen
      | unfinished hr hfin =>
        subst hr
        rw [hend.ok] at hfin
        cases hfin
    · exact fun h => absurd h hno
  | failed e tr hgood htr => exact ⟨fun _ => hgood, fun _ => ⟨_, _, rfl, htr.settled, .failed e⟩⟩
  | started t' tr hgood htr hgen hfin =>
    exact ⟨fun _ => hgood, fun _ => ⟨_, _, rfl, htr.settled, .started t' hgen hfin⟩⟩

theorem settles_buffers {tr : List (Ev Res)} (htr : Settles [] tr) :
    Settles [] ([.take Res.argv, .take .envp] ++ tr ++ [.drop .envp, .drop .argv]) := by
  have hinner : Settles [Res.argv] (.take Res.envp :: tr ++ [.drop .envp]) := settles_around (htr.weaken _)
  have h := settles_around hinner
  rw [List.cons_append, List.append_assoc] at h
  rw [List.append_assoc]
  exact h

theorem execveWith_iff (w : World) (t : Task) (file : Str) (args env : List Str) :
    (∃ o s, ((execveWith w file args env (Proc.emit (Proc.emit ⟨t, []⟩ [.take .argv]) [.take .envp])).map fun r =>
        (r.1, r.2.emit [.drop .envp, .drop .argv])) = some (o, s) ∧ Settled s.trace ∧ Ended t o s.task) ↔
      (w.offload ≠ .exits → ∀ f, w.open_ ⟨false, false⟩ file = .ok f → FileSound w f file args env) := by
  have hfate := ((doExecve_fate w file args env
    (Proc.emit (Proc.emit ⟨t, []⟩ [.take .argv, .take .envp]) (probed w.probes))).after (probed_settle _)).around
      fun tr htr => settles_buffers htr
  have hiff := hfate.intact_iff
  rw [Option.map_map] at hiff
  unfold execveWith
  cases hoff : w.offload with
  | exits =>
    constructor
    · intro _ h
      exact absurd rfl h
    · intro _
      exact ⟨.exits, _, rfl, (settles_buffers (probed_settle w.probes)).settled, .exits t⟩
  | none =>
    dsimp only
    rw [Option.map_map]
    exact hiff.trans ⟨fun h _ => h, fun h => h (fun h => by cases h)⟩
  | fails =>
    dsimp only
    rw [Option.map_map]
    exact hiff.trans ⟨fun h _ => h, fun h => h (fun h => by cases h)⟩

/-- **A call is intact exactly when the files that it runs are sound.** -/
theorem execve_intact_iff (w : World) (t : Task) : Intact w t ↔ AllSound w := by
  -- a call that ends before the file is opened
  have hearly : ∀ e tr, sysExecve w ⟨t, []⟩ = some (.returns (.error e), ⟨t, tr⟩) → Settles [] tr → AllSound w →
      (Intact w t ↔ AllSound w) := by
    intro e tr hcall htr hall
    exact ⟨fun _ => hall, fun _ => ⟨_, _, hcall, htr.settled, .failed e⟩⟩
  have hargv := settles_pair Res.argv
  unfold sysExecve at hearly
  cases hfile : w.filename with
  | error e =>
    rw [hfile] at hearly
    refine hearly eFAULT [] rfl (settles_nil _) fun file args env f h => ?_
    rw [hfile] at h
    cases h
  | ok file =>
    rw [hfile] at hearly
    dsimp only at hearly
    cases hmargv : w.mallocArgv with
    | false =>
      rw [hmargv] at hearly
      refine hearly eNOMEM [] rfl (settles_nil _) fun file args env f _ h => ?_
      rw [hmargv] at h
      cases h
    | true =>
      rw [hmargv, if_neg (by decide)] at hearly
      cases hargs : w.argv with
      | error e =>
        rw [hargs] at hearly
        refine hearly e _ rfl hargv fun file args env f _ _ h => ?_
        rw [hargs] at h
        cases h
      | ok args =>
        rw [hargs] at hearly
        dsimp only at hearly
        cases hmenvp : w.mallocEnvp with
        | false =>
          rw [hmenvp] at hearly
          refine hearly eNOMEM _ rfl hargv fun file args env f _ _ _ h => ?_
          rw [hmenvp] at h
          cases h
        | true =>
          rw [hmenvp, if_neg (by decide)] at hearly
          cases henv : w.envp with
          | error e =>
            rw [henv] at hearly
            refine hearly e _ rfl (settles_buffers (settles_nil _)) fun file args env f _ _ _ _ h => ?_
            rw [henv] at h
            cases h
          | ok env =>
            have hsound : AllSound w ↔
                (w.offload ≠ .exits → ∀ f, w.open_ ⟨false, false⟩ file = .ok f → FileSound w f file args env) := by
              constructor
              · intro h hoff f hf hstat hmode
                exact h file args env f hfile hmargv hargs hmenvp henv hoff hf hstat hmode
              intro h file' args' env' f hfile' _ hargs' _ henv' hoff hf hstat hmode
              rw [hfile] at hfile'
              rw [hargs] at hargs'
              rw [henv] at henv'
              cases hfile'
              cases hargs'
              cases henv'
              exact h hoff f hf hstat hmode
            rw [hsound, ← execveWith_iff w t file args env]
            unfold Intact sysExecve
            rw [hfile]
            dsimp only
            rw [hmargv, if_neg (by decide), hargs]
            dsimp only
            rw [hmenvp, if_neg (by decide), henv]

end Call

/-! ## A segment that cannot be mapped -/

def oneSegment : ExecFile where
  mode := 0o100755
  uid := 0
  gid := 0
  hasLseek := true
  hasRead := true
  hasMmap := true
  seeks := fun _ => true
  header := .got ⟨0x464c457f, 2, 1, 1, elfExecutable, 183, 0x400000, 64, 1⟩
  prgHeader := fun _ => .got fun _ => ⟨ptLoad, 5, 0, 0x400000, 100, 100⟩
  text := fun _ _ => .fails
  start := some [0x7f, 0x45, 0x4c, 0x46]

def noMemory : World where
  filename := .ok node
  mallocArgv := true
  argv := .ok [node]
  mallocEnvp := true
  envp := .ok []
  probes := []
  offload := .none
  open_ := fun _ _ => .ok oneSegment
  fstat := .ok ()
  mallocPh := fun _ => true
  errnoSet := fun _ => false
  mallocInterp := fun _ => true
  late := fun _ l => l != .mmap false 0
  hole := fun _ _ => 0
  sp := fun _ => 0

def shell : Task where
  mm := ⟨0, true⟩
  cpu := startCpu 0 0
  files := []
  action := []
  euid := 0
  suid := 0
  egid := 0
  sgid := 0
  comm := []
  altstack := 0
  altstackSize := 0
  rseqAddr := 0
  rseqLen := 0
  rseqSig := 0
  rseqRegistered := false
  didExec := false
  traced := false

/-- The call fails, and the task is left with an empty address space. -/
theorem shell_not_intact : ¬ Intact noMemory shell := by
  obtain ⟨out, hrun, hgen⟩ : ∃ out, sysExecve noMemory ⟨shell, []⟩ = some (.returns (.error eNOMEM), out) ∧
      out.task.mm.gen = 1 := ⟨_, rfl, rfl⟩
  rintro ⟨o, s, heq, _, hend⟩
  rw [hrun] at heq
  cases heq
  rw [hend.error] at hgen
  cases hgen

end IosLinuxkit.Exec
