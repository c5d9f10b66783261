import IosLinuxkit.Lib.Ledger
import Mathlib.Data.List.DropRight

/-!
# Running a program

`kernel/exec.c`: `sys_execve` down to `elf_exec`, as far as control goes. What the host and the file system make of
each step is a parameter (`World`), the rest is computed from the files.

## Modelling

* A call of an operation that a file does not have is a crash, as is a page that is looked up and is not mapped, and
  a script that is run without arguments.
* Locks, descriptors and buffers are events of a ledger; a null pointer that is freed is none. The files that
  `sys_execve` looks for, and the one it probes, are opened and closed on the way.
* The address space of a task is its number, and whether the image in it was finished.
-/

namespace IosLinuxkit.Exec

abbrev Errno := Nat

def eIO : Errno := 5
def e2BIG : Errno := 7
def eNOEXEC : Errno := 8
def eNOMEM : Errno := 12
def eACCES : Errno := 13
def eFAULT : Errno := 14
def eINVAL : Errno := 22
def eNAMETOOLONG : Errno := 36
def eLIBBAD : Errno := 80

def maxPath : BitVec 64 := 4096
def pageSize : BitVec 64 := 4096
def argvMax : Nat := 32 * 4096

abbrev Str := List (BitVec 8)

def slash : BitVec 8 := 47
def space : BitVec 8 := 32
def newline : BitVec 8 := 10
def hash : BitVec 8 := 35
def bang : BitVec 8 := 33

def baseName (file : Str) : Str := file.rtakeWhile (· != slash)

/-- `"node"` -/
def node : Str := [110, 111, 100, 101]

/-! ## Files -/

/-- `struct elf_header64` -/
structure ElfHeader where
  magic : BitVec 32
  bitness : BitVec 8
  endian : BitVec 8
  elfversion1 : BitVec 8
  type : BitVec 16
  machine : BitVec 16
  entryPoint : BitVec 64
  prgheadOff : BitVec 64
  phentCount : BitVec 16

/-- `struct prg_header64` -/
structure PrgHeader where
  type : BitVec 32
  flags : BitVec 32
  offset : BitVec 64
  vaddr : BitVec 64
  filesize : BitVec 64
  memsize : BitVec 64

def ptLoad : BitVec 32 := 1
def ptInterp : BitVec 32 := 3
def elfExecutable : BitVec 16 := 2
def elfDynamic : BitVec 16 := 3

/-- The checks of `read_header`: `ELF_MAGIC`, the kind, `ELF_CLASS`, `ELF_LITTLEENDIAN`, and `ELF_MACHINE`. -/
def ElfHeader.accepted (h : ElfHeader) : Bool :=
  h.magic == 0x464c457f && (h.type == elfExecutable || h.type == elfDynamic) && h.bitness == 2 && h.endian == 1 &&
    h.elfversion1 == 1 && h.machine == 183

/-- What a read gives: an error, less than was asked for, or all of it. -/
inductive Reading (α : Type) where
  | fails
  | short
  | got (a : α)

/-- An open file: the operations it has, and what they give. -/
structure ExecFile where
  mode : BitVec 32
  uid : BitVec 32
  gid : BitVec 32
  hasLseek : Bool
  hasRead : Bool
  hasMmap : Bool
  seeks : BitVec 64 → Bool
  header : Reading ElfHeader
  prgHeader : BitVec 64 → Reading (Nat → PrgHeader)
  text : BitVec 64 → BitVec 64 → Reading Str
  /-- the first bytes, as a script's; none if they cannot be read -/
  start : Option Str

/-- A file that a call opens: the one named or the interpreter of a script, or the interpreter of that. -/
structure Who where
  script : Bool
  interp : Bool
  deriving DecidableEq

inductive Res where
  | argv
  | envp
  | fd (who : Who)
  | probe (i : Nat)
  | ph (who : Who)
  | interpName (script : Bool)
  | generalLock
  | memLock
  | sighandLock
  | pidsLock
  deriving DecidableEq

open Ledger

/-- The steps after the old address space is gone, and the one that makes the new one; those of a segment by its
index, of the program or of its interpreter. -/
inductive Late where
  | mmNew
  | mmap (interp : Bool) (i : Nat)
  | present (interp : Bool) (i : Nat)
  | bss (interp : Bool) (i : Nat)
  | vdsoHole
  | vdso
  | vvarHole
  | vvar
  | stack
  | stackTop
  | file
  | envp
  | argv
  | platform
  | random
  | argc
  | argPtr (i : Nat)
  | envPtr (i : Nat)
  | aux
  deriving DecidableEq

/-- What `native_offload_exec` comes to, if it is called. -/
inductive Offload where
  | none
  | exits
  | fails

/-- What the steps of a call come to. `late` and `hole` are of the `elf_exec` for the file that is named (`false`),
or for the interpreter of a script. -/
structure World where
  filename : Except Errno Str
  mallocArgv : Bool
  argv : Except Errno (List Str)
  mallocEnvp : Bool
  envp : Except Errno (List Str)
  probes : List Bool
  offload : Offload
  open_ : Who → Str → Except Errno ExecFile
  fstat : Except Errno Unit
  mallocPh : Who → Bool
  errnoSet : Who → Bool
  mallocInterp : Bool → Bool
  late : Bool → Late → Bool
  hole : Bool → Bool → BitVec 64
  sp : Bool → BitVec 64

/-! ## Tasks -/

structure Mm where
  gen : Nat
  finished : Bool

structure Cpu where
  sp : BitVec 64
  pc : BitVec 64
  regs : List (BitVec 64)
  nzcv : BitVec 32
  nf : BitVec 64
  zf : BitVec 64
  cf : BitVec 64
  vf : BitVec 64
  fpcr : BitVec 32
  fpsr : BitVec 32

structure FdSlot where
  fd : Nat
  cloexec : Bool

inductive Handler where
  | dfl
  | ign
  | addr (a : BitVec 64)

structure Task where
  mm : Mm
  cpu : Cpu
  files : List FdSlot
  action : List Handler
  euid : BitVec 32
  suid : BitVec 32
  egid : BitVec 32
  sgid : BitVec 32
  comm : Str
  altstack : BitVec 64
  altstackSize : BitVec 64
  rseqAddr : BitVec 64
  rseqLen : BitVec 32
  rseqSig : BitVec 32
  rseqRegistered : Bool
  didExec : Bool
  traced : Bool

structure Proc where
  task : Task
  trace : List (Ev Res)

def Proc.emit (s : Proc) (l : List (Ev Res)) : Proc := { s with trace := s.trace ++ l }

/-! ## The headers -/

def readHeader (f : ExecFile) : Option (Except Errno ElfHeader) :=
  if f.hasLseek = false then none
  else if f.seeks 0 = false then some (.error eIO)
  else if f.hasRead = false then none
  else
    match f.header with
    | .fails => some (.error eIO)
    | .short => some (.error eNOEXEC)
    | .got h => some (if h.accepted then .ok h else .error eNOEXEC)

/-- `read_prg_headers`, with what it does to the buffer. A read that falls short is told from an error by `errno`. -/
def readPrgHeaders (w : World) (who : Who) (f : ExecFile) (h : ElfHeader) :
    Except Errno (List PrgHeader) × List (Ev Res) :=
  if w.mallocPh who = false then (.error eNOMEM, [])
  else if f.seeks h.prgheadOff = false then (.error eIO, [.take (.ph who), .drop (.ph who)])
  else
    match f.prgHeader h.prgheadOff with
    | .got ph => (.ok ((List.range h.phentCount.toNat).map ph), [.take (.ph who)])
    | .fails | .short =>
      (.error (if w.errnoSet who then eIO else eNOEXEC), [.take (.ph who), .drop (.ph who)])

/-- `interp_name`, `interp_fd` with its header, and `interp_ph`, as far as they are set. -/
structure Vars where
  name : Bool
  fd : Option ExecFile
  header : Option ElfHeader
  ph : Option (List PrgHeader)

def Vars.unset : Vars := ⟨false, none, none, none⟩

/-- What the variables hold, in the order in which `out_free_interp` frees it. -/
def Vars.held (script : Bool) (v : Vars) : List Res :=
  (if v.name then [.interpName script] else []) ++ (if v.fd.isSome then [.fd ⟨script, true⟩] else []) ++
    (if v.ph.isSome then [.ph ⟨script, true⟩] else [])

/-- An interpreter that cannot be run is a bad library. -/
def libbad (e : Errno) : Errno := if e = eNOEXEC then eLIBBAD else e

/-- One turn of the loop that looks for an interpreter. -/
def readInterp (w : World) (script : Bool) (f : ExecFile) (ph : PrgHeader) (v : Vars) :
    Option (Except Errno Unit × Vars × List (Ev Res)) :=
  if ph.filesize = 0 ∨ maxPath < ph.filesize then some (.error eNAMETOOLONG, v, [])
  else if w.mallocInterp script = false then some (.error eNOMEM, v, [])
  else
    let v := { v with name := true }
    let tr : List (Ev Res) := [.take (.interpName script)]
    if f.seeks ph.offset = false then some (.error eIO, v, tr)
    else
      match f.text ph.offset ph.filesize with
      | .fails | .short => some (.error eIO, v, tr)
      | .got name =>
        match w.open_ ⟨script, true⟩ name with
        | .error e => some (.error e, v, tr)
        | .ok g =>
          let v := { v with fd := some g }
          let tr := tr ++ [.take (.fd ⟨script, true⟩)]
          match readHeader g with
          | none => none
          | some (.error e) => some (.error (libbad e), v, tr)
          | some (.ok h) =>
            match readPrgHeaders w ⟨script, true⟩ g h with
            | (.error e, tr') => some (.error (libbad e), { v with header := some h }, tr ++ tr')
            | (.ok phs, tr') => some (.ok (), { v with header := some h, ph := some phs }, tr ++ tr')

def findInterp (w : World) (script : Bool) (f : ExecFile) :
    List PrgHeader → Vars → Option (Except Errno Unit × Vars × List (Ev Res))
  | [], v => some (.ok (), v, [])
  | ph :: l, v =>
    if ph.type ≠ ptInterp then findInterp w script f l v
    else if v.name then some (.error eINVAL, v, [])
    else
      match readInterp w script f ph v with
      | none => none
      | some (.error e, v, tr) => some (.error e, v, tr)
      | some (.ok (), v, tr) => (findInterp w script f l v).map fun r => (r.1, r.2.1, tr ++ r.2.2)

/-! ## Loading -/

def pgoffset (a : BitVec 64) : BitVec 64 := a &&& 0xfff

/-- What is left of the page in which the file part ends: `tail_size`. -/
def tailSize (bias : BitVec 64) (ph : PrgHeader) : BitVec 32 :=
  let tail := pageSize - pgoffset (ph.vaddr + bias + ph.filesize)
  if tail = pageSize then 0 else tail.setWidth 32

/-- `bss_size - tail_size`, in 32 bits. -/
def bssLeft (bias : BitVec 64) (ph : PrgHeader) : BitVec 32 :=
  let bssSize : BitVec 32 := (ph.memsize - ph.filesize).setWidth 32
  bssSize - if bssSize < tailSize bias ph then bssSize else tailSize bias ph

/-- `load_entry`: whether it succeeds, and what it does with the memory lock. -/
def loadEntry (late : Late → Bool) (interp : Bool) (hasMmap : Bool) (bias : BitVec 64) (i : Nat) (ph : PrgHeader) :
    Option (Bool × List (Ev Res)) :=
  if hasMmap = false then none
  else if late (.mmap interp i) = false then some (false, [])
  else if late (.present interp i) = false then none
  else if ph.filesize < ph.memsize then
    -- the lock is given back while the end of the page is filled with zeros
    let tr : List (Ev Res) := if tailSize bias ph ≠ 0 then [.drop .memLock, .take .memLock] else []
    if bssLeft bias ph ≠ 0 then some (late (.bss interp i), tr) else some (true, tr)
  else some (true, [])

def loadEntries (late : Late → Bool) (interp : Bool) (hasMmap : Bool) (bias : BitVec 64) :
    List (PrgHeader × Nat) → Option (Bool × List (Ev Res))
  | [] => some (true, [])
  | (ph, i) :: l =>
    if ph.type ≠ ptLoad then loadEntries late interp hasMmap bias l
    else
      match loadEntry late interp hasMmap bias i ph with
      | none => none
      | some (false, tr) => some (false, tr)
      | some (true, tr) => (loadEntries late interp hasMmap bias l).map fun r => (r.1, tr ++ r.2)

/-- The segments of the interpreter, if there is one, from the last to the first. -/
def loadInterp (late : Late → Bool) (interpBase : BitVec 64) (v : Vars) : Option (Bool × List (Ev Res)) :=
  match v.fd, v.ph with
  | some g, some phs => loadEntries late true g.hasMmap interpBase phs.zipIdx.reverse
  | _, _ => some (true, [])

/-- Whether the strings and pointers of the stack can be written. -/
def pointersWritten (late : Late → Bool) (args env : List Str) : Bool :=
  late .argc && (List.range args.length).all (fun i => late (.argPtr i)) &&
    (List.range env.length).all fun i => late (.envPtr i)

def outFreeInterp (script : Bool) (v : Vars) (r : Except Errno Unit) (s : Proc) : Except Errno Unit × Proc :=
  (r, s.emit ((v.held script).map .drop ++ [.drop (.ph ⟨script, false⟩)]))

def beyondHope (script : Bool) (v : Vars) (r : Except Errno Unit) (s : Proc) : Except Errno Unit × Proc :=
  outFreeInterp script v r (s.emit [.drop .memLock])

def startCpu (sp pc : BitVec 64) : Cpu := ⟨sp, pc, List.replicate 31 0, 0, 0, 0, 0, 0, 0, 0⟩

/-- The end of `elf_exec`, with the stack mapped and the memory lock given back. -/
def elfStack (w : World) (script : Bool) (file : Str) (args env : List Str) (entry : BitVec 64) (v : Vars) (s : Proc) :
    Except Errno Unit × Proc :=
  let late := w.late script
  if late .file = false ∨ late .envp = false ∨ late .argv = false ∨ late .platform = false ∨ late .random = false then
    outFreeInterp script v (.error eFAULT) s
  -- the pointers are put with `return _EFAULT`
  else if pointersWritten late args env = false then (.error eFAULT, s)
  else if late .aux = false then beyondHope script v (.error eFAULT) s
  else
    let s := { s with task := { s.task with
      mm := { s.task.mm with finished := true }
      cpu := startCpu (w.sp script) entry } }
    let s := if baseName file = node then s.emit [.take .memLock, .drop .memLock] else s
    outFreeInterp script v (.ok ()) s

/-- The middle of `elf_exec`, from the first segment to the stack. -/
def elfLoad (w : World) (script : Bool) (f : ExecFile) (h : ElfHeader) (phs : List PrgHeader) (file : Str)
    (args env : List Str) (v : Vars) (s : Proc) : Option (Except Errno Unit × Proc) :=
  let late := w.late script
  let bias := if h.type = elfDynamic then w.hole script false <<< 12 else 0
  let interpBase := w.hole script true <<< 12
  match loadEntries late false f.hasMmap bias phs.zipIdx with
  | none => none
  | some (false, tr) => some (beyondHope script v (.error eNOMEM) (s.emit tr))
  | some (true, tr) =>
    let s := s.emit tr
    match loadInterp late interpBase v with
    | none => none
    | some (false, tr) => some (beyondHope script v (.error eNOMEM) (s.emit tr))
    | some (true, tr) =>
      let s := s.emit tr
      let entry :=
        match v.header with
        | some h => interpBase + h.entryPoint
        | none => bias + h.entryPoint
      if late .vdsoHole = false ∨ late .vdso = false then some (beyondHope script v (.error eNOMEM) s)
      -- `err` is 0 since the last mapping
      else if late .vvarHole = false then some (beyondHope script v (.ok ()) s)
      else if late .vvar = false ∨ late .stack = false ∨ late .stackTop = false then
        some (beyondHope script v (.error eNOMEM) s)
      else some (elfStack w script file args env entry v (s.emit [.drop .memLock]))

def elfExec (w : World) (script : Bool) (f : ExecFile) (file : Str) (args env : List Str) (s : Proc) :
    Option (Except Errno Unit × Proc) :=
  match readHeader f with
  | none => none
  | some (.error e) => some (.error e, s)
  | some (.ok h) =>
    match readPrgHeaders w ⟨script, false⟩ f h with
    | (.error e, tr) => some (.error e, s.emit tr)
    | (.ok phs, tr) =>
      let s := s.emit tr
      match findInterp w script f phs Vars.unset with
      | none => none
      | some (.error e, v, tr) => some (outFreeInterp script v (.error e) (s.emit tr))
      | some (.ok (), v, tr) =>
        let s := s.emit tr
        if w.late script .mmNew = false then some (.error eNOMEM, s)
        else
          let s := { s with task := { s.task with mm := ⟨s.task.mm.gen + 1, false⟩ } }
          elfLoad w script f h phs file args env v
            (s.emit [.take .generalLock, .drop .generalLock, .take .memLock])

/-! ## Scripts -/

structure Shebang where
  interpreter : Str
  argument : Option Str

/-- The first line of a script, `#![spaces]interpreter[spaces]argument[spaces]`. -/
def parseShebang (header : Str) : Option Shebang :=
  let text := header.takeWhile (· != 0)
  if newline ∈ text then
    match text.takeWhile (· != newline) with
    | a :: b :: p =>
      if a = hash ∧ b = bang then
        let p := p.dropWhile (· == space)
        if p = [] then none
        else
          let argument := ((p.dropWhile (· != space)).dropWhile (· == space)).rdropWhile (· == space)
          some ⟨p.takeWhile (· != space), if argument = [] then none else some argument⟩
      else none
    | _ => none
  else none

/-- `args_size`, of packed strings -/
def argsSize (l : List Str) : Nat := (l.flatMap fun s => s ++ [0]).length + 1

def formatExec := elfExec

def shebangExec (w : World) (f : ExecFile) (file : Str) (args env : List Str) (s : Proc) :
    Option (Except Errno Unit × Proc) :=
  if f.hasLseek = false then none
  else if f.seeks 0 = false then some (.error eIO, s)
  else if f.hasRead = false then none
  else
    match f.start with
    | none => some (.error eIO, s)
    | some header =>
      match parseShebang header with
      | none => some (.error eNOEXEC, s)
      | some b =>
        match args with
        -- `argv.count - 1` is the largest number
        | [] => none
        | _ :: rest =>
          let new := b.interpreter :: (b.argument.toList ++ file :: rest)
          if argvMax ≤ argsSize new then some (.error e2BIG, s)
          else
            match w.open_ ⟨true, false⟩ b.interpreter with
            | .error e => some (.error e, s)
            | .ok g =>
              (formatExec w true g b.interpreter new env (s.emit [.take (.fd ⟨true, false⟩)])).map fun r =>
                (r.1, r.2.emit [.drop (.fd ⟨true, false⟩)])

/-! ## The call -/

def Task.started (t : Task) (f : ExecFile) (file : Str) : Task :=
  { t with
    suid := if f.mode &&& 0x800 ≠ 0 then t.euid else t.suid
    euid := if f.mode &&& 0x800 ≠ 0 then f.uid else t.euid
    sgid := if f.mode &&& 0x400 ≠ 0 then t.egid else t.sgid
    egid := if f.mode &&& 0x400 ≠ 0 then f.gid else t.egid
    comm := (baseName file).take 16
    files := t.files.filter fun d => !d.cloexec
    action := t.action.map fun a =>
      match a with
      | .ign => .ign
      | _ => .dfl
    altstack := 0
    altstackSize := 0
    rseqAddr := 0
    rseqLen := 0
    rseqSig := 0
    rseqRegistered := false
    didExec := true }

def startedLocks (t : Task) : List (Ev Res) :=
  [.take .generalLock, .drop .generalLock, .take .sighandLock, .drop .sighandLock] ++
    if t.traced then [.take .pidsLock, .drop .pidsLock] else []

/-- `__do_execve`, after the file is open -/
def execFile (w : World) (f : ExecFile) (file : Str) (args env : List Str) (s : Proc) :
    Option (Except Errno Unit × Proc) :=
  match w.fstat with
  | .error e => some (.error e, s)
  | .ok () =>
    if f.mode &&& 0x49 = 0 then some (.error eACCES, s)
    else
      match formatExec w false f file args env s with
      | none => none
      | some (.ok (), s) => some (.ok (), s)
      | some (.error e, s) => if e = eNOEXEC then shebangExec w f file args env s else some (.error e, s)

def doExecve (w : World) (file : Str) (args env : List Str) (s : Proc) : Option (Except Errno Unit × Proc) :=
  match w.open_ ⟨false, false⟩ file with
  | .error e => some (.error e, s)
  | .ok f =>
    match execFile w f file args env (s.emit [.take (.fd ⟨false, false⟩)]) with
    | none => none
    | some (.error e, s) => some (.error e, s.emit [.drop (.fd ⟨false, false⟩)])
    | some (.ok (), s) =>
      let s := s.emit [.drop (.fd ⟨false, false⟩)]
      some (.ok (), { task := s.task.started f file, trace := s.trace ++ startedLocks s.task })

/-- What a call comes to: a value for the guest, or the task is gone. -/
inductive Outcome where
  | returns (r : Except Errno Unit)
  | exits

/-- The files that are looked for: those that are there are opened and closed. -/
def probed (l : List Bool) : List (Ev Res) :=
  l.zipIdx.flatMap fun p => if p.1 then [.take (.probe p.2), .drop (.probe p.2)] else []

/-- `sys_execve`, with both lists read -/
def execveWith (w : World) (file : Str) (args env : List Str) (s : Proc) : Option (Outcome × Proc) :=
  let s := s.emit (probed w.probes)
  match w.offload with
  -- the handlers that are pushed free the buffers
  | .exits => some (.exits, s)
  | .none | .fails => (doExecve w file args env s).map fun r => (.returns r.1, r.2)

def sysExecve (w : World) (s : Proc) : Option (Outcome × Proc) :=
  match w.filename with
  | .error _ => some (.returns (.error eFAULT), s)
  | .ok file =>
    if w.mallocArgv = false then some (.returns (.error eNOMEM), s)
    else
      let s := s.emit [.take .argv]
      match w.argv with
      | .error e => some (.returns (.error e), s.emit [.drop .argv])
      | .ok args =>
        if w.mallocEnvp = false then some (.returns (.error eNOMEM), s.emit [.drop .argv])
        else
          let s := s.emit [.take .envp]
          match w.envp with
          | .error e => some (.returns (.error e), s.emit [.drop .envp, .drop .argv])
          | .ok env =>
            (execveWith w file args env s).map fun r => (r.1, r.2.emit [.drop .envp, .drop .argv])

end IosLinuxkit.Exec
