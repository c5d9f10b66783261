import IosLinuxkit.Kernel.SigFrame

/-!
# Signal frames: there and back

What `setup_rt_sigframe` puts into a frame is what `restore_sigcontext` takes out, since no two
fields overlap. Between them the frame is in guest memory, where it is only if its bytes do
not run past the top of the address space.

* **`sigframe_roundTrip`** — when entering a handler and leaving it restores the state.
-/

namespace IosLinuxkit.SigFrame

open Layout UserCopy
open Signal (Sig Sigaction SigSet Dword signalAction handlerMask sigmaskSet sigDfl)

/-! ## The fields of a frame -/

def framePlaces (code : Bool) : List (Nat × Nat) :=
  [(0, 64)] ++ (if code then [(4720, 32), (4724, 32)] else []) ++
  [(8, 32), (32, 32), (36, 288), (160, 64), (168, 64), (176, 64), (192, 64), (184, 32), (336, 64)] ++
  (List.range 31).map (fun i => (344 + i * 8, 64)) ++
  [(592, 64), (600, 64), (608, 64), (624, 32), (628, 32), (632, 32), (636, 32)] ++
  (List.range 32).map (fun i => (640 + i * 16, 128)) ++
  [(1152, 32), (1156, 32), (200, 64), (16, 64), (24, 64)]

theorem frameStores_places (info : Siginfo) (t : Task) (sp : Word) :
    (frameStores info t sp).map Store.place = framePlaces (decide (t.trampoline = 0#64)) := by
  unfold frameStores setupRtSigframe retcode
  by_cases h : t.trampoline = 0#64
  · rw [if_pos h, decide_eq_true h]
    rfl
  · rw [if_neg h, decide_eq_false h]
    rfl

theorem framePlaces_apart (code : Bool) : (framePlaces code).Pairwise PlacesApart := by
  cases code with
  | true => decide +kernel
  | false => decide +kernel

theorem frameStores_apart (info : Siginfo) (t : Task) (sp : Word) :
    (frameStores info t sp).Pairwise Store.Apart := by
  refine pairwise_of_places ?_
  rw [frameStores_places]
  exact framePlaces_apart _

section Fields

variable {info : Siginfo} {t : Task} {sp : Word} {b : Buffer}

theorem read_frame (hb : ∀ i, i < frameSize → b i = frameBuffer info t sp i) {off w : Nat}
    {v : BitVec w} (hs : (⟨off, w, v⟩ : Store) ∈ frameStores info t sp) (hw : w % 8 = 0)
    (hend : off + w / 8 ≤ frameSize) : get off w b = v := by
  have hget : get off w (frameBuffer info t sp) = v := by
    unfold frameBuffer
    exact get_writeAll (s := ⟨off, w, v⟩) _ (frameStores_apart info t sp) hs hw
  rw [← hget]
  exact get_congr fun i _ hi => hb i (by omega)

theorem mem_sigcontext {s : Store} (hs : s ∈ setupSigcontext t.cpu) : s ∈ frameStores info t sp :=
  List.mem_append_left _ (List.mem_append_left _ (List.mem_append_right _ hs))

/-- What `restore_sigcontext` finds is what `setup_sigcontext` put there. -/
structure Restored (cpu cpu' : Cpu) : Prop where
  regs : cpu'.regs = cpu.regs
  sp : cpu'.sp = cpu.sp
  pc : cpu'.pc = cpu.pc
  nzcv : cpu'.nzcv = cpu.nzcv
  fp : cpu'.fp = cpu.fp
  fpsr : cpu'.fpsr = cpu.fpsr
  fpcr : cpu'.fpcr = cpu.fpcr

theorem restore_frame (hb : ∀ i, i < frameSize → b i = frameBuffer info t sp i) (cpu : Cpu) :
    Restored t.cpu (restoreSigcontext b cpu) := by
  have hread : ∀ (off w : Nat) (v : BitVec w), (⟨off, w, v⟩ : Store) ∈ setupSigcontext t.cpu →
      w % 8 = 0 → off + w / 8 ≤ frameSize → get off w b = v :=
    fun off w v hs hw hend => read_frame hb (mem_sigcontext hs) hw hend
  have hfixed : ∀ s : Store,
      s ∈ ([⟨spOff, 64, t.cpu.sp⟩, ⟨pcOff, 64, t.cpu.pc⟩, ⟨pstateOff, 64, t.cpu.nzcv.setWidth 64⟩,
        ⟨magicOff, 32, fpsimdMagic⟩, ⟨628, 32, 528#32⟩, ⟨fpsrOff, 32, t.cpu.fpsr⟩,
        ⟨fpcrOff, 32, t.cpu.fpcr⟩] : List Store) → s ∈ setupSigcontext t.cpu :=
    fun s hs => List.mem_append_left _ (List.mem_append_left _ (List.mem_append_right _ hs))
  have hmagic : get magicOff 32 b = fpsimdMagic :=
    hread magicOff 32 fpsimdMagic (hfixed _ (by simp)) rfl (by decide)
  have hpstate : get pstateOff 64 b = t.cpu.nzcv.setWidth 64 :=
    hread pstateOff 64 (t.cpu.nzcv.setWidth 64) (hfixed _ (by simp)) rfl (by decide)
  have hregs : ∀ i : Fin 31, get (regsOff + i.val * 8) 64 b = t.cpu.regs i := by
    intro i
    refine hread _ 64 (t.cpu.regs i) ?_ rfl ?_
    · exact List.mem_append_left _ (List.mem_append_left _ (List.mem_append_left _
        (List.mem_append_right _ (mem_array i))))
    have hi := i.isLt
    show 344 + i.val * 8 + 8 ≤ 4736
    omega
  have hfp : ∀ i : Fin 32, get (vregsOff + i.val * 16) 128 b = t.cpu.fp i := by
    intro i
    refine hread _ 128 (t.cpu.fp i) ?_ rfl ?_
    · exact List.mem_append_left _ (List.mem_append_right _ (mem_array i))
    have hi := i.isLt
    show 640 + i.val * 16 + 16 ≤ 4736
    omega
  unfold restoreSigcontext
  dsimp only
  rw [if_pos hmagic]
  refine ⟨funext hregs, ?_, ?_, ?_, funext hfp, ?_, ?_⟩
  · exact hread spOff 64 t.cpu.sp (hfixed _ (by simp)) rfl (by decide)
  · exact hread pcOff 64 t.cpu.pc (hfixed _ (by simp)) rfl (by decide)
  · show (get pstateOff 64 b).setWidth 32 = _
    rw [hpstate, BitVec.setWidth_setWidth_of_le _ (by decide), BitVec.setWidth_eq]
  · exact hread fpsrOff 32 t.cpu.fpsr (hfixed _ (by simp)) rfl (by decide)
  · exact hread fpcrOff 32 t.cpu.fpcr (hfixed _ (by simp)) rfl (by decide)

theorem sigmask_frame (hb : ∀ i, i < frameSize → b i = frameBuffer info t sp i) :
    get sigmaskOff 64 b = t.blocked := by
  have hs : (⟨sigmaskOff, 64, t.blocked⟩ : Store) ∈ frameStores info t sp :=
    List.mem_append_left _ (List.mem_append_right _ (List.mem_singleton.mpr rfl))
  exact read_frame hb hs rfl (show 200 + 64 / 8 ≤ 4736 from by decide)

end Fields

/-! ## Where a frame fits -/

theorem align_toNat (x : Word) : (x &&& ~~~0xf#64).toNat = 16 * (x.toNat / 16) := by
  have hx := x.isLt
  have h : x &&& ~~~0xf#64 = x >>> 4 <<< 4 := by
    apply BitVec.eq_of_getLsbD_eq
    intro i hi
    rw [BitVec.getLsbD_and, BitVec.getLsbD_shiftLeft, BitVec.getLsbD_ushiftRight]
    have hmask : ∀ j : Fin 64, (~~~0xf#64).getLsbD j.val = !decide (j.val < 4) := by decide
    rw [hmask ⟨i, hi⟩, decide_eq_true hi, Bool.true_and]
    rcases Nat.lt_or_ge i 4 with hlo | hhi
    · rw [decide_eq_true hlo, Bool.not_true, Bool.and_false, Bool.false_and]
    · rw [decide_eq_false (show ¬ i < 4 from by omega), Bool.not_false, Bool.and_true,
        Bool.true_and, show 4 + (i - 4) = i from by omega]
  rw [h, BitVec.toNat_shiftLeft, BitVec.toNat_ushiftRight, Nat.shiftRight_eq_div_pow,
    Nat.shiftLeft_eq]
  omega

theorem top_fits (top : Word) :
    (frameAddr top).toNat + frameSize < 2 ^ 64 ↔ frameSize ≤ top.toNat := by
  have htop := top.isLt
  unfold frameAddr frameSize
  rw [align_toNat, BitVec.toNat_sub, BitVec.toNat_ofNat]
  omega

/-! ## Entering and leaving -/

/-- `u` is the task when the handler returns, `t` as it was entered: the stack pointer is back
and the frame is as it was. -/
structure Unmodified (t u : Task) : Prop where
  sp : u.cpu.sp = t.cpu.sp
  byte : ∀ i, i < frameSize → u.mem.byte (loc t.cpu.sp + BitVec.ofNat 48 i) =
    t.mem.byte (loc t.cpu.sp + BitVec.ofNat 48 i)
  readable : ∀ old, (userRead u.mem t.cpu.sp old frameSize).isSome

/-- Returning from the handler that `t` is about to run restores this state, whatever the
kernel's stack holds. -/
def Returns (t : Task) (cpu : Cpu) (blocked : SigSet) : Prop :=
  ∀ (u : Task) (old : Buffer), Unmodified t u →
    ∃ v, sysRtSigreturn old u = some v ∧ Restored cpu v.cpu ∧ v.blocked = blocked

theorem rewind_blocked (action : Sigaction) (t : Task) : (rewind action t).blocked = t.blocked := by
  unfold rewind
  split
  · rfl
  · rfl

section Trip

variable {t t' u : Task} {info : Siginfo} {old : Buffer}

theorem receiveSignal_frame (hcall : signalAction t.action info.sig = .callHandler)
    (h : receiveSignal info t = some t') :
    let r := rewind (t.action info.sig) t
    t'.cpu.sp = frameAddr (stackTop (t.action info.sig) r) ∧
      userWrite r.mem t'.cpu.sp (frameBuffer info r t'.cpu.sp) frameSize = some t'.mem := by
  unfold receiveSignal at h
  rw [hcall] at h
  dsimp only at h
  split at h
  case h_1 => cases h
  case h_2 mem hw =>
    cases h
    exact ⟨rfl, hw⟩

theorem unmodified_refl {m : UserMem} {buf : Buffer}
    (hw : userWrite m t.cpu.sp buf frameSize = some t.mem) : Unmodified t t :=
  ⟨rfl, fun _ _ => rfl, fun _ => userRead_of_userWrite hw⟩

theorem userRead_frame {m : UserMem} {buf b : Buffer} (hu : Unmodified t u)
    (hfit : t.cpu.sp.toNat + frameSize < 2 ^ 64)
    (hw : userWrite m t.cpu.sp buf frameSize = some t.mem)
    (hr : userRead u.mem t.cpu.sp old frameSize = some b) (i : Nat) (hi : i < frameSize) :
    b i = buf i := by
  have hsize : frameSize ≤ 2 ^ 48 := by decide
  obtain ⟨_, _, hbyte⟩ := userWrite_spec hsize hfit hw
  have hback : (loc t.cpu.sp + BitVec.ofNat 48 i - loc t.cpu.sp).toNat = i := by
    rw [BitVec.add_comm, BitVec.add_sub_cancel, BitVec.toNat_ofNat]
    unfold frameSize at hi
    omega
  rw [userRead_spec hfit hr i, if_pos hi, hu.byte i hi, hbyte, hback, if_pos hi]

theorem sysRtSigreturn_fits (old : Buffer) {r : Task} (hu : Unmodified t u)
    (hfit : t.cpu.sp.toNat + frameSize < 2 ^ 64)
    (hw : userWrite r.mem t.cpu.sp (frameBuffer info r t.cpu.sp) frameSize = some t.mem) :
    ∃ v, sysRtSigreturn old u = some v ∧ Restored r.cpu v.cpu ∧
      v.blocked = sigmaskSet r.blocked := by
  obtain ⟨b, hr⟩ := Option.isSome_iff_exists.mp (hu.readable old)
  have hb := userRead_frame hu hfit hw hr
  unfold sysRtSigreturn
  rw [hu.sp, hr]
  refine ⟨_, rfl, restore_frame hb u.cpu, ?_⟩
  show sigmaskSet (get sigmaskOff 64 b) = _
  rw [sigmask_frame hb]

theorem sysRtSigreturn_wrap (old : Buffer) (hsp : u.cpu.sp = t.cpu.sp)
    (hwrap : 2 ^ 64 ≤ t.cpu.sp.toNat + frameSize) :
    ∃ v, sysRtSigreturn old u = some v ∧ v.cpu.pc = get pcOff 64 old := by
  unfold sysRtSigreturn
  rw [hsp, userRead_wrap (by decide) hwrap]
  refine ⟨_, rfl, ?_⟩
  show (restoreSigcontext old u.cpu).pc = _
  unfold restoreSigcontext
  dsimp only
  split
  · rfl
  · rfl

theorem sigmaskSet_eq_self {blocked : SigSet} :
    sigmaskSet blocked = blocked ↔ blocked &&& Signal.unblockableMask = 0#64 := by
  unfold sigmaskSet
  generalize Signal.unblockableMask = m
  constructor
  · intro h
    rw [← h, BitVec.and_assoc, BitVec.and_comm (~~~m) m, BitVec.and_not_self]
    exact BitVec.and_zero
  intro h
  apply BitVec.eq_of_getLsbD_eq
  intro i hi
  have hbit := congrArg (fun x => x.getLsbD i) h
  simp only [BitVec.getLsbD_and, BitVec.getLsbD_zero, BitVec.getLsbD_not, decide_eq_true hi]
    at hbit ⊢
  cases hm : m.getLsbD i with
  | true =>
    rw [hm, Bool.and_true] at hbit
    rw [hbit, Bool.false_and]
  | false => rw [Bool.not_false, Bool.and_true, Bool.and_true]

/-- Leaving a handler restores the registers and the mask that were there when it was entered,
after the rewind, exactly when the frame fits below the top of the stack and the mask holds no
signal that cannot be blocked. -/
theorem sigframe_roundTrip (hcall : signalAction t.action info.sig = .callHandler)
    (h : receiveSignal info t = some t') : Returns t' (rewind (t.action info.sig) t).cpu t.blocked ↔
      frameSize ≤ (stackTop (t.action info.sig) (rewind (t.action info.sig) t)).toNat ∧
        t.blocked &&& Signal.unblockableMask = 0#64 := by
  obtain ⟨hsp, hw⟩ := receiveSignal_frame hcall h
  have hmask := rewind_blocked (t.action info.sig) t
  generalize rewind (t.action info.sig) t = r at hsp hw hmask ⊢
  rw [← hmask, ← top_fits, ← hsp, ← sigmaskSet_eq_self]
  constructor
  · intro hret
    have hfit : t'.cpu.sp.toNat + frameSize < 2 ^ 64 := by
      -- else what comes back is what the kernel's stack held
      refine Nat.lt_of_not_le fun hwrap => ?_
      have hpc : ∀ old : Buffer, r.cpu.pc = get pcOff 64 old := by
        intro old
        obtain ⟨v, hv, hcpu, -⟩ := hret t' old (unmodified_refl hw)
        obtain ⟨v', hv', hpc⟩ := sysRtSigreturn_wrap old rfl hwrap
        rw [hv] at hv'
        cases hv'
        rw [← hpc, hcpu.pc]
      have hbit : (get pcOff 64 fun _ => 0#8).getLsbD 0 = (get pcOff 64 fun _ => 1#8).getLsbD 0 := by
        rw [← hpc, ← hpc]
      rw [getLsbD_get, getLsbD_get] at hbit
      cases hbit
    refine ⟨hfit, ?_⟩
    obtain ⟨v, hv, -, hb⟩ := hret t' (fun _ => 0#8) (unmodified_refl hw)
    obtain ⟨v', hv', -, hb'⟩ := sysRtSigreturn_fits (fun _ => 0#8) (unmodified_refl hw) hfit hw
    rw [hv] at hv'
    cases hv'
    rw [← hb', hb]
  rintro ⟨hfit, hset⟩ u old hu
  obtain ⟨v, hv, hcpu, hb⟩ := sysRtSigreturn_fits old hu hfit hw
  exact ⟨v, hv, hcpu, hb.trans hset⟩

end Trip

/-! ## At the bottom of the address space -/

/-- All of the memory is mapped, and every signal has a handler. -/
def plainTask (sp : Word) : Task where
  cpu := ⟨fun _ => 7#64, sp, 0x400000#64, 0, 0, 0, 0, 0x60000000#32, fun _ => 9#128, 0, 0, 0, 0, 0, 0⟩
  blocked := 0x10#64
  altstack := 0
  altstackSize := 0
  syscallRestartable := false
  syscallRestartPc := 0
  syscallRestartArg0 := 0
  action := fun _ => ⟨0x1000#64, 0, 0⟩
  mem := ⟨fun _ => 0, fun _ => true, fun _ => true, fun _ _ => rfl⟩
  trampoline := 0

def usr1 : Siginfo := ⟨Signal.sigusr1, 0⟩

theorem plainTask_calls (sp : Word) :
    signalAction (plainTask sp).action usr1.sig = .callHandler := by
  unfold plainTask
  dsimp only
  decide

/-- With the stack pointer at 0x8000 the frame is written and comes back whole. -/
theorem sigframe_high : ∃ t', receiveSignal usr1 (plainTask 0x8000#64) = some t' ∧
    Returns t' (plainTask 0x8000#64).cpu 0x10#64 := by
  obtain ⟨t', ht⟩ := Option.isSome_iff_exists.mp
    (show (receiveSignal usr1 (plainTask 0x8000#64)).isSome = true from by rfl)
  refine ⟨t', ht, (sigframe_roundTrip (plainTask_calls _) ht).mpr ⟨?_, ?_⟩⟩
  · decide
  · decide

/-- With the stack pointer at 0x100 the handler is entered all the same, and no frame has been
written. -/
theorem sigframe_low : ∃ t', receiveSignal usr1 (plainTask 0x100#64) = some t' ∧
    ¬ Returns t' (plainTask 0x100#64).cpu 0x10#64 := by
  obtain ⟨t', ht⟩ := Option.isSome_iff_exists.mp
    (show (receiveSignal usr1 (plainTask 0x100#64)).isSome = true from by rfl)
  refine ⟨t', ht, fun hret => ?_⟩
  obtain ⟨hsp, hw⟩ := receiveSignal_frame (plainTask_calls _) ht
  have hwrap : 2 ^ 64 ≤ t'.cpu.sp.toNat + frameSize := by
    rw [hsp]
    decide
  obtain ⟨v, hv, hcpu, -⟩ := hret t' (fun _ => 0#8) (unmodified_refl hw)
  obtain ⟨v', hv', hpc⟩ := sysRtSigreturn_wrap (fun _ => 0#8) rfl hwrap
  rw [hv] at hv'
  cases hv'
  -- the program counter is that of the kernel's stack, 0 and not 0x400000
  rw [hcpu.pc] at hpc
  have hbit := congrArg (fun x => x.getLsbD 22) hpc
  rw [getLsbD_get] at hbit
  cases hbit

end IosLinuxkit.SigFrame
