import IosLinuxkit.Kernel.Signal
import IosLinuxkit.Kernel.UserCopy

/-!
# Signal frames

The half of `receive_signal` that enters a handler, and `sys_rt_sigreturn`, of
`src/kernel/signal.c` for the arm64 guest. The frame is a buffer of bytes on the kernel's
stack; each assignment to one of its fields is a `Store`.
-/

namespace IosLinuxkit.SigFrame

open Layout UserCopy
open Signal (Sig Sigaction SigSet Dword signalAction handlerMask sigmaskSet sigDfl)

/-! ## State -/

/-- `struct cpu_state`, as far as signals read or write it. -/
structure Cpu where
  regs : Fin 31 → Word
  sp : Word
  pc : Word
  nf : BitVec 8
  zf : BitVec 8
  cf : BitVec 8
  vf : BitVec 8
  nzcv : Dword
  fp : Fin 32 → BitVec 128
  fpcr : Dword
  fpsr : Dword
  exclAddr : Word
  segfaultAddr : Word
  exclPairAddr : Word
  exclPairSize : Dword

/-- The fields of `struct task` that a frame has to do with, its actions and its memory. -/
structure Task where
  cpu : Cpu
  blocked : SigSet
  altstack : Word
  altstackSize : Dword
  syscallRestartable : Bool
  syscallRestartPc : Word
  syscallRestartArg0 : Word
  action : Sig → Sigaction
  mem : UserMem
  /-- `sigreturn_trampoline`, 0 without one -/
  trampoline : Word

/-- `struct siginfo_`; `rest` is what follows the number. -/
structure Siginfo where
  sig : Sig
  rest : BitVec 288

/-- `SA_ONSTACK_` -/
def onstack (a : Sigaction) : Bool := a.flags &&& 0x08000000#32 != 0#32

/-- `SA_RESTART_` -/
def restart (a : Sigaction) : Bool := a.flags &&& 0x10000000#32 != 0#32

/-! ## The layout

`struct rt_sigframe_` with its `ucontext_` at 160, the `sigcontext_` in that at 336, and the
`fpsimd_context_` in the reserved bytes of that at 624. -/

/-- `sizeof(struct rt_sigframe_)` -/
def frameSize : Nat := 4736

def pinfoOff : Nat := 16
def pucOff : Nat := 24
def infoOff : Nat := 32
def ucOff : Nat := 160
def stackOff : Nat := 176
def stackFlagsOff : Nat := 184
def stackSizeOff : Nat := 192
def sigmaskOff : Nat := 200
def regsOff : Nat := 344
def spOff : Nat := 592
def pcOff : Nat := 600
def pstateOff : Nat := 608
def magicOff : Nat := 624
def fpsrOff : Nat := 632
def fpcrOff : Nat := 636
def vregsOff : Nat := 640
def retcodeOff : Nat := 4720

def fpsimdMagic : Dword := 0x46508001#32

def setupSigcontext (cpu : Cpu) : List Store :=
  [⟨336, 64, cpu.segfaultAddr⟩] ++ array regsOff 64 31 cpu.regs ++
  [⟨spOff, 64, cpu.sp⟩, ⟨pcOff, 64, cpu.pc⟩, ⟨pstateOff, 64, cpu.nzcv.setWidth 64⟩,
    ⟨magicOff, 32, fpsimdMagic⟩, ⟨628, 32, 528#32⟩, ⟨fpsrOff, 32, cpu.fpsr⟩,
    ⟨fpcrOff, 32, cpu.fpcr⟩] ++ array vregsOff 128 32 cpu.fp ++
  -- the entry that ends the list of extensions
  [⟨1152, 32, 0#32⟩, ⟨1156, 32, 0#32⟩]

def isOnAltstack (sp : Word) (t : Task) : Bool :=
  t.altstack != 0#64 && decide (t.altstack < sp) &&
    decide (sp ≤ t.altstack + t.altstackSize.setWidth 64)

def altstackFlags (t : Task) : Dword :=
  (if t.altstack = 0#64 then 2#32 else 0#32) ||| (if isOnAltstack t.cpu.sp t then 1#32 else 0#32)

def altstackToUser (t : Task) : List Store :=
  [⟨stackOff, 64, t.altstack⟩, ⟨stackSizeOff, 64, t.altstackSize.setWidth 64⟩,
    ⟨stackFlagsOff, 32, altstackFlags t⟩]

/-- `mov x8, #139; svc #0`, when there is no trampoline. -/
def retcode (t : Task) : List Store :=
  if t.trampoline = 0#64 then
    [⟨retcodeOff, 32, 0xd2801168#32⟩, ⟨retcodeOff + 4, 32, 0xd4000001#32⟩]
  else []

def setupRtSigframe (info : Siginfo) (t : Task) : List Store :=
  [⟨0, 64, t.trampoline⟩] ++ retcode t ++
  [⟨8, 32, BitVec.ofNat 32 info.sig.num⟩, ⟨infoOff, 32, BitVec.ofNat 32 info.sig.num⟩,
    ⟨infoOff + 4, 288, info.rest⟩, ⟨ucOff, 64, 0#64⟩, ⟨ucOff + 8, 64, 0#64⟩] ++
  altstackToUser t ++ setupSigcontext t.cpu ++ [⟨sigmaskOff, 64, t.blocked⟩]

/-! ## Entering a handler -/

def rewind (action : Sigaction) (t : Task) : Task :=
  if restart action && t.syscallRestartable && t.cpu.pc == t.syscallRestartPc then
    { t with
      cpu := { t.cpu with
        pc := t.cpu.pc - 4#64
        regs := Function.update t.cpu.regs 0 t.syscallRestartArg0 }
      syscallRestartable := false }
  else t

def stackTop (action : Sigaction) (t : Task) : Word :=
  if onstack action && t.altstack != 0#64 && !isOnAltstack t.cpu.sp t then
    t.altstack + t.altstackSize.setWidth 64
  else t.cpu.sp

def frameAddr (top : Word) : Word := (top - BitVec.ofNat 64 frameSize) &&& ~~~0xf#64

/-- The assignments to a frame, with those that wait until its place is known. -/
def frameStores (info : Siginfo) (t : Task) (sp : Word) : List Store :=
  setupRtSigframe info t ++
    [⟨pinfoOff, 64, sp + BitVec.ofNat 64 infoOff⟩, ⟨pucOff, 64, sp + BitVec.ofNat 64 ucOff⟩]

def frameBuffer (info : Siginfo) (t : Task) (sp : Word) : Buffer :=
  writeAll (frameStores info t sp) fun _ => 0#8

def handlerCpu (info : Siginfo) (action : Sigaction) (t : Task) (sp : Word) : Cpu :=
  let regs := Function.update t.cpu.regs 0 (BitVec.ofNat 64 info.sig.num)
  let regs := Function.update regs 1 (sp + BitVec.ofNat 64 infoOff)
  let regs := Function.update regs 2 (sp + BitVec.ofNat 64 ucOff)
  let regs := Function.update regs 30
    (if t.trampoline ≠ 0#64 then t.trampoline else sp + BitVec.ofNat 64 retcodeOff)
  { t.cpu with
    exclAddr := BitVec.allOnes 64
    exclPairAddr := BitVec.allOnes 64
    exclPairSize := 0#32
    regs
    pc := action.handler
    sp }

/-- None is `do_exit_group`: the frame could not be written. Other outcomes of `signal_action`
push no frame. -/
def receiveSignal (info : Siginfo) (t : Task) : Option Task :=
  match signalAction t.action info.sig with
  | .callHandler =>
    let action := t.action info.sig
    let t := rewind action t
    let sp := frameAddr (stackTop action t)
    match userWrite t.mem sp (frameBuffer info t sp) frameSize with
    | none => none
    | some mem =>
      some { t with
        cpu := handlerCpu info action t sp
        blocked := handlerMask action info.sig t.blocked
        mem
        action := if action.resethand then Function.update t.action info.sig ⟨sigDfl, 0#32, 0#64⟩
          else t.action }
  | _ => some t

/-! ## Leaving it -/

def arm64SetNzcv (nzcv : Dword) (cpu : Cpu) : Cpu :=
  { cpu with
    nzcv
    nf := (nzcv >>> 31 &&& 1#32).setWidth 8
    zf := (nzcv >>> 30 &&& 1#32).setWidth 8
    cf := (nzcv >>> 29 &&& 1#32).setWidth 8
    vf := (nzcv >>> 28 &&& 1#32).setWidth 8 }

def restoreSigcontext (b : Buffer) (cpu : Cpu) : Cpu :=
  let cpu := { cpu with
    regs := fun i => get (regsOff + i.val * 8) 64 b
    sp := get spOff 64 b
    pc := get pcOff 64 b }
  let cpu := arm64SetNzcv ((get pstateOff 64 b).setWidth 32) cpu
  if get magicOff 32 b = fpsimdMagic then
    { cpu with
      fpsr := get fpsrOff 32 b
      fpcr := get fpcrOff 32 b
      fp := fun i => get (vregsOff + i.val * 16) 128 b }
  else cpu

def minsigstksz : Word := 6144#64

/-- `old` is what the kernel's stack holds where the frame is read to. None is `_EFAULT`, with
a `SIGSEGV` to the task. -/
def sysRtSigreturn (old : Buffer) (t : Task) : Option Task :=
  match userRead t.mem t.cpu.sp old frameSize with
  | none => none
  | some b =>
    let size := get stackSizeOff 64 b
    let keep := isOnAltstack t.cpu.sp t || decide (size < minsigstksz)
    some { t with
      cpu := restoreSigcontext b t.cpu
      altstack := if keep then t.altstack else get stackOff 64 b
      altstackSize := if keep then t.altstackSize else size.setWidth 32
      blocked := sigmaskSet (get sigmaskOff 64 b) }

end IosLinuxkit.SigFrame
