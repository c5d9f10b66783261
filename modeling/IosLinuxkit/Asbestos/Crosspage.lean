import IosLinuxkit.Asbestos.GenLemmas

/-!
# The paths of an access

`read_prep`, `write_prep`, `write_done` and their `bullshit` of `gadgets.h`, with `crosspage_load` and
`crosspage_store` of `entry.S` and the helpers of `tlb.c`: where `_addr` points in the end, and what is left in
`value` and `value_addr` of `struct fiber_frame`. No page follows the last one of 64 bits.

* **`readPath_spec`**, **`writePath_one`**, **`storeTwo_spec`** — on every path an access is the one of
  `readPrep` and `writePrep`, and `value_addr` is left alone or is the address.
-/

namespace IosLinuxkit.Arm64

open Bitfield

/-! ## The buffer -/

/-- `value` of `struct fiber_frame`. -/
abbrev Buffer := Nat → BitVec 8

structure Cell where
  frame : Frame
  value : Buffer

/-- Whether the TLB has the page, and the address in the stream that a miss may leave in the buffer. -/
structure Lookup where
  hit : Bool
  stream : Word

/-- Where `_addr` points. -/
inductive Place where
  | guest (a : Nat)
  | value

def Cell.buffer (c : Cell) : Mem := { c.frame.mem with byte := c.value }

def Cell.loadFrom (c : Cell) (p : Place) (offset n : Nat) : BitVec (8 * n) :=
  match p with
  | .guest a => c.frame.mem.load (a + offset) n
  | .value => c.buffer.load offset n

def Cell.storeTo (c : Cell) (p : Place) (offset n v : Nat) : Cell :=
  match p with
  | .guest a => { c with frame := { c.frame with mem := c.frame.mem.store (a + offset) n v } }
  | .value => { c with value := (c.buffer.store offset n v).byte }

/-- `str _pc, [_cpu, #LOCAL_value]` -/
def Cell.leave (c : Cell) (look : Lookup) : Cell := c.storeTo .value 0 8 look.stream.toNat

/-! ## Accesses that cross into the next page -/

def crosses (a n : Nat) : Prop := 4096 - n < a % 4096

instance (a n : Nat) : Decidable (crosses a n) := inferInstanceAs (Decidable (_ < _))

/-- `__tlb_read_cross_page`, or the address that it faults at. -/
def tlbReadCrossPage (m : Mem) (a n : Nat) (value : Buffer) : Except Nat Buffer :=
  if !m.readable (a / 4096) then .error a
  else if !m.readable (a / 4096 + 1) then .error ((a / 4096 + 1) * 4096)
  else
    let part1 := 4096 - a % 4096
    .ok fun i =>
      if i < part1 then m.byte (a + i)
      else if i < n then m.byte ((a / 4096 + 1) * 4096 + (i - part1))
      else value i

def tlbWriteCrossPage (m : Mem) (a n : Nat) (value : Buffer) : Except Nat Mem :=
  if !m.writable (a / 4096) then .error a
  else if !m.writable (a / 4096 + 1) then .error ((a / 4096 + 1) * 4096)
  else
    let part1 := 4096 - a % 4096
    let next := (a / 4096 + 1) * 4096
    .ok { m with
      byte := fun b =>
        if a ≤ b ∧ b < a + part1 then value (b - a)
        else if next ≤ b ∧ b < next + (n - part1) then value (part1 + (b - next))
        else m.byte b }

/-! ## The paths -/

/-- `read_prep` and `read_bullshit`; `k` is what follows. A hit is on a page that a walk finds, too. -/
def readPath (look : Lookup) (c : Cell) (a : Word) (n : Nat) (k : Cell → Place → Exit × Buffer) :
    Exit × Buffer :=
  if crosses a.toNat n then
    match tlbReadCrossPage c.frame.mem a.toNat n c.value with
    | .error bad => (gpfSaved c.frame bad false, c.value)
    | .ok value => k ⟨{ c.frame with valueAddr := a }, value⟩ .value
  else if look.hit && c.frame.mem.readable (a.toNat / 4096) then k c (.guest a.toNat)
  else if c.frame.mem.readable (a.toNat / 4096) then k c (.guest a.toNat)
  else (gpfSaved c.frame a.toNat false, (c.leave look).value)

/-- `write_prep` and `write_bullshit` -/
def writePath (look : Lookup) (c : Cell) (a : Word) (n : Nat) (k : Cell → Place → Exit × Buffer) :
    Exit × Buffer :=
  if crosses a.toNat n then k ⟨{ c.frame with valueAddr := a }, c.value⟩ .value
  else if look.hit && c.frame.mem.writable (a.toNat / 4096) then k c (.guest a.toNat)
  else if c.frame.mem.writable (a.toNat / 4096) then k (c.leave look) (.guest a.toNat)
  else (gpfSaved c.frame a.toNat true, (c.leave look).value)

/-- `write_done`: what is in the buffer goes to the address in `value_addr`. -/
def writeDone (n : Nat) (c : Cell) (p : Place) : Exit × Buffer :=
  match p with
  | .guest _ => (.gret c.frame, c.value)
  | .value =>
    match tlbWriteCrossPage c.frame.mem c.frame.valueAddr.toNat n c.value with
    | .error bad => (gpfSaved c.frame bad true, c.value)
    | .ok mem => (.gret { c.frame with mem := mem }, c.value)

/-! ## Gadgets -/

/-- The gadgets of an indexed access. -/
inductive Op where
  | setJitSavedPc (pc : Word)
  | calcAddrImm (w : Word)
  | calcAddrBase (w : Word)
  | loadReg (w : Word)
  | storeReg (w : Word)
  | load (n : Nat) (ext : BitVec (8 * n) → Word)
  | store (n : Nat)
  | loadPair (n : Nat) (ext : BitVec (8 * n) → Word) (w : Word)
  | storePair (n : Nat) (w : Word)
  | ldrSimd (n : Nat) (w : Word)
  | strSimd (n : Nat) (w : Word)
  | ldpSimd (n : Nat) (w : Word)
  | stpSimd (n : Nat) (w : Word)
  | updateBase (w : Word)
  | writebackAddr (w : Word)

def Op.gadget : Op → Gadget
  | .setJitSavedPc pc => Arm64.setJitSavedPc pc
  | .calcAddrImm w => Arm64.calcAddrImm w
  | .calcAddrBase w => Arm64.calcAddrBase w
  | .loadReg w => Arm64.loadReg w
  | .storeReg w => Arm64.storeReg w
  | .load n ext => loadTmp n ext
  | .store n => storeTmp n
  | .loadPair n ext w => Arm64.loadPair n ext w
  | .storePair n w => Arm64.storePair n w
  | .ldrSimd n w => Arm64.ldrSimd n w
  | .strSimd n w => Arm64.strSimd n w
  | .ldpSimd n w => Arm64.ldpSimd n w
  | .stpSimd n w => Arm64.stpSimd n w
  | .updateBase w => Arm64.updateBase w
  | .writebackAddr w => Arm64.writebackAddr w

/-- Two elements of `n` bytes are stored after one lookup. -/
def storeTwo (look : Lookup) (n v v2 : Nat) (c : Cell) : Exit × Buffer :=
  writePath look c c.frame.addr (2 * n) fun c p =>
    writeDone (2 * n) ((c.storeTo p 0 n v).storeTo p n n v2) p

/-- The gadget, with its access as it goes. The others do not touch the buffer. -/
def Op.act (look : Lookup) (op : Op) (c : Cell) : Exit × Buffer :=
  let f := c.frame
  match op with
  | .load n ext =>
    readPath look c f.addr n fun c p => (.gret { c.frame with tmp := ext (c.loadFrom p 0 n) }, c.value)
  | .store n =>
    writePath look c f.addr n fun c p => writeDone n (c.storeTo p 0 n f.tmp.toNat) p
  | .loadPair n ext w =>
    readPath look c f.addr (2 * n) fun c p =>
      (.gret ((c.frame.setXz (reg w 0) (ext (c.loadFrom p 0 n))).setXz (reg w 8)
        (ext (c.loadFrom p n n))), c.value)
  | .storePair n w => storeTwo look n (f.getXz (reg w 0)).toNat (f.getXz (reg w 8)).toNat c
  | .ldrSimd n w =>
    readPath look c f.addr n fun c p =>
      (.gret (c.frame.setFp (reg w 0) ((c.loadFrom p 0 n).setWidth 128)), c.value)
  | .strSimd n w =>
    writePath look c f.addr n fun c p => writeDone n (c.storeTo p 0 n (f.fp (reg w 0)).toNat) p
  | .ldpSimd n w =>
    readPath look c f.addr (2 * n) fun c p =>
      (.gret ((c.frame.setFp (reg w 0) ((c.loadFrom p 0 n).setWidth 128)).setFp (reg w 8)
        ((c.loadFrom p n n).setWidth 128)), c.value)
  | .stpSimd n w => storeTwo look n (f.fp (reg w 0)).toNat (f.fp (reg w 8)).toNat c
  | op => (op.gadget f, c.value)

/-- The stream, as `run` runs it. -/
def runOps (look : Lookup) : List Op → Cell → Exit × Buffer
  | [], c => (.gret c.frame, c.value)
  | op :: ops, c =>
    match op.act look c with
    | (.gret f, value) => runOps look ops ⟨f, value⟩
    | e => e

/-! ## What a path comes to -/

def Slot (a : Word) (f f' : Frame) : Prop :=
  ∃ s, (s = f.valueAddr ∨ s = a) ∧ f' = { f with valueAddr := s }

theorem Slot.refl (a : Word) (f : Frame) : Slot a f f := ⟨f.valueAddr, .inl rfl, rfl⟩

theorem Slot.set (a : Word) (f : Frame) : Slot a f { f with valueAddr := a } := ⟨a, .inr rfl, rfl⟩

inductive Ends (bad? : Option Nat) (write : Bool) (a : Word) (f : Frame) (done : Frame → Frame) :
    Exit × Buffer → Prop
  | fault {f' : Frame} {bad : Nat} {value : Buffer} (hbad : bad? = some bad) (hf : Slot a f f') :
    Ends bad? write a f done (gpfSaved f' bad write, value)
  | gret {f' : Frame} {value : Buffer} (hnone : bad? = none) (hf : Slot a f f') :
    Ends bad? write a f done (.gret (done f'), value)

variable {look : Lookup} {c : Cell} {a : Word} {n : Nat}

/-! ## Loads -/

theorem value_congr {m m' : Mem} {b b' : Nat} (n : Nat)
    (h : ∀ i, i < n → m'.byte (b' + i) = m.byte (b + i)) : m'.value b' n = m.value b n := by
  induction n generalizing b b' with
  | zero => rfl
  | succ n ih =>
    have htail : m'.value (b' + 1) n = m.value (b + 1) n := by
      refine ih fun i hi => ?_
      rw [Nat.add_assoc, Nat.add_assoc, Nat.add_comm 1 i]
      exact h (i + 1) (Nat.succ_lt_succ hi)
    show (m'.byte b').toNat + 256 * m'.value (b' + 1) n = (m.byte b).toNat + 256 * m.value (b + 1) n
    rw [htail, show m'.byte b' = m.byte b from h 0 (Nat.succ_pos n)]

theorem fault_crosses {ok : Nat → Bool} {b : Nat} (hc : crosses b n) :
    fault ok b n = if !ok (b / 4096) then some b
      else if !ok (b / 4096 + 1) then some ((b / 4096 + 1) * 4096) else none := by
  unfold fault
  split
  · rfl
  by_cases hok : ok (b / 4096 + 1) = false
  · rw [if_pos ⟨hc, hok⟩, hok]
    rfl
  · rw [if_neg (fun h => hok h.2), Bool.not_eq_false _ |>.mp hok]
    rfl

theorem fault_inside {ok : Nat → Bool} {b : Nat} (hc : ¬ crosses b n) :
    fault ok b n = if ok (b / 4096) then none else some b := by
  unfold fault
  cases ok (b / 4096) with
  | false => rfl
  | true =>
    show (if 4096 - n < b % 4096 ∧ ok (b / 4096 + 1) = false then _ else none) = none
    exact if_neg fun h => hc h.1

theorem crosses_part {b : Nat} (hc : crosses b n) : 4096 - b % 4096 < n := by
  unfold crosses at hc
  omega

theorem nextPage_eq (b : Nat) : (b / 4096 + 1) * 4096 = b + (4096 - b % 4096) := by
  omega

theorem readPath_spec {k : Cell → Place → Exit × Buffer} {done : Frame → Frame}
    (hk : ∀ c' p, Slot a c.frame c'.frame →
      (∀ offset m, offset + m ≤ n → c'.loadFrom p offset m = c.frame.mem.load (a.toNat + offset) m) →
      k c' p = (.gret (done c'.frame), c'.value)) :
    Ends (c.frame.mem.readFault a.toNat n) false a c.frame done (readPath look c a n k) := by
  have hguest : ∀ offset m, offset + m ≤ n →
      c.loadFrom (.guest a.toNat) offset m = c.frame.mem.load (a.toNat + offset) m := fun _ _ _ => rfl
  unfold readPath Mem.readFault
  by_cases hc : crosses a.toNat n
  · rw [if_pos hc, fault_crosses hc]
    unfold tlbReadCrossPage
    split
    case isTrue => exact .fault rfl (.refl a c.frame)
    case isFalse =>
      split
      case isTrue => exact .fault rfl (.refl a c.frame)
      case isFalse =>
        dsimp only
        rw [hk _ _ (.set a c.frame) fun offset m hm => ?_]
        · exact .gret rfl (.set a c.frame)
        refine congrArg (BitVec.ofNat (8 * m)) (value_congr m fun i hi => ?_)
        dsimp only [Cell.buffer]
        split
        · rw [Nat.add_assoc]
        rw [if_pos (by omega), nextPage_eq]
        congr 1
        omega
  rw [if_neg hc, fault_inside hc]
  cases hok : c.frame.mem.readable (a.toNat / 4096) with
  | true =>
    have hend : k c (.guest a.toNat) = (.gret (done c.frame), c.value) := hk c _ (.refl a c.frame) hguest
    rw [Bool.and_true, if_pos rfl, if_pos rfl, hend, ite_self]
    exact .gret rfl (.refl a c.frame)
  | false =>
    rw [Bool.and_false, if_neg Bool.false_ne_true, if_neg Bool.false_ne_true]
    exact .fault rfl (.refl a c.frame)

/-! ## Stores -/

def Mem.copy (m : Mem) (a n : Nat) (value : Buffer) : Mem :=
  { m with byte := fun b => if a ≤ b ∧ b < a + n then value (b - a) else m.byte b }

theorem tlbWriteCrossPage_eq {m : Mem} {b : Nat} (hc : crosses b n) (value : Buffer) :
    tlbWriteCrossPage m b n value = match m.writeFault b n with
      | some bad => .error bad
      | none => .ok (m.copy b n value) := by
  have hpart := crosses_part hc
  unfold tlbWriteCrossPage Mem.writeFault
  rw [fault_crosses hc]
  split
  · rfl
  split
  · rfl
  dsimp only
  congr 2
  funext j
  rw [nextPage_eq]
  by_cases h1 : b ≤ j ∧ j < b + (4096 - b % 4096)
  · rw [if_pos h1, if_pos (by omega)]
  rw [if_neg h1]
  by_cases h2 : b ≤ j ∧ j < b + n
  · rw [if_pos (by omega), if_pos h2]
    congr 1
    omega
  · rw [if_neg (by omega), if_neg h2]

theorem writePath_spec {s : Cell → Place → Cell} {mem : Mem}
    (hguest : ∀ c', c'.frame = c.frame → (s c' (.guest a.toNat)).frame = { c.frame with mem := mem })
    (hvalue : ∀ c', c'.frame = { c.frame with valueAddr := a } → (s c' .value).frame = c'.frame ∧
      c.frame.mem.copy a.toNat n (s c' .value).value = mem) :
    Ends (c.frame.mem.writeFault a.toNat n) true a c.frame (fun f => { f with mem := mem })
      (writePath look c a n fun c' p => writeDone n (s c' p) p) := by
  unfold writePath
  by_cases hc : crosses a.toNat n
  · obtain ⟨hframe, hcopy⟩ := hvalue ⟨{ c.frame with valueAddr := a }, c.value⟩ rfl
    rw [if_pos hc]
    unfold writeDone
    dsimp only
    rw [hframe, tlbWriteCrossPage_eq hc]
    dsimp only
    rw [hcopy]
    cases c.frame.mem.writeFault a.toNat n with
    | some bad => exact .fault rfl (.set a c.frame)
    | none => exact .gret rfl (.set a c.frame)
  have hend : ∀ c', c'.frame = c.frame → Ends none true a c.frame (fun f => { f with mem := mem })
      (writeDone n (s c' (.guest a.toNat)) (.guest a.toNat)) := by
    intro c' hc'
    unfold writeDone
    dsimp only
    rw [hguest c' hc']
    exact .gret rfl (.refl a c.frame)
  rw [if_neg hc, Mem.writeFault, fault_inside hc]
  cases hok : c.frame.mem.writable (a.toNat / 4096) with
  | true =>
    rw [Bool.and_true, if_pos rfl, if_pos rfl]
    split
    · exact hend c rfl
    · exact hend (c.leave look) rfl
  | false =>
    rw [Bool.and_false, if_neg Bool.false_ne_true, if_neg Bool.false_ne_true]
    exact .fault rfl (.refl a c.frame)

theorem writePath_one (v : Nat) : Ends (c.frame.mem.writeFault a.toNat n) true a c.frame
      (fun f => { f with mem := c.frame.mem.store a.toNat n v })
      (writePath look c a n fun c' p => writeDone n (c'.storeTo p 0 n v) p) := by
  refine writePath_spec (s := fun c' p => c'.storeTo p 0 n v) (fun c' hc' => ?_) fun c' _ => ⟨rfl, ?_⟩
  · obtain ⟨f, value⟩ := c'
    obtain rfl : f = c.frame := hc'
    rfl
  dsimp only [Mem.copy, Mem.store, Cell.storeTo, Cell.buffer]
  congr 1
  funext b
  by_cases hb : a.toNat ≤ b ∧ b < a.toNat + n
  · rw [if_pos hb, if_pos hb, if_pos (by omega), Nat.sub_zero]
  · rw [if_neg hb, if_neg hb]

theorem storeTwo_spec (n v v2 : Nat) (c : Cell) :
    Ends (c.frame.mem.writeFault c.frame.addr.toNat (2 * n)) true c.frame.addr c.frame
      (fun f => { f with
        mem := (c.frame.mem.store c.frame.addr.toNat n v).store (c.frame.addr.toNat + n) n v2 })
      (storeTwo look n v v2 c) := by
  unfold storeTwo
  generalize c.frame.addr = a
  refine writePath_spec (s := fun c' p => (c'.storeTo p 0 n v).storeTo p n n v2) (fun c' hc' => ?_)
    fun c' _ => ⟨rfl, ?_⟩
  · obtain ⟨f, value⟩ := c'
    obtain rfl : f = c.frame := hc'
    rfl
  dsimp only [Mem.copy, Mem.store, Cell.storeTo, Cell.buffer]
  congr 1
  funext b
  by_cases hb : a.toNat ≤ b ∧ b < a.toNat + 2 * n
  · rw [if_pos hb]
    by_cases h2 : a.toNat + n ≤ b ∧ b < a.toNat + n + n
    · rw [if_pos (by omega), if_pos h2, Nat.sub_sub]
    · rw [if_neg (by omega), if_neg h2, if_pos (by omega), if_pos (by omega), Nat.sub_zero]
  · rw [if_neg hb, if_neg (by omega), if_neg (by omega)]

/-! ## Gadgets and their paths -/

structure Access where
  bad? : Option Nat
  write : Bool
  done : Frame → Frame

def Op.access (f : Frame) (op : Op) : Option Access :=
  let m := f.mem
  let a := f.addr.toNat
  match op with
  | .load n ext => some ⟨m.readFault a n, false, fun f' => { f' with tmp := ext (m.load a n) }⟩
  | .store n => some ⟨m.writeFault a n, true, fun f' => { f' with mem := m.store a n f.tmp.toNat }⟩
  | .loadPair n ext w =>
    some ⟨m.readFault a (2 * n), false, fun f' =>
      (f'.setXz (reg w 0) (ext (m.load a n))).setXz (reg w 8) (ext (m.load (a + n) n))⟩
  | .storePair n w =>
    let m' := (m.store a n (f.getXz (reg w 0)).toNat).store (a + n) n (f.getXz (reg w 8)).toNat
    some ⟨m.writeFault a (2 * n), true, fun f' => { f' with mem := m' }⟩
  | .ldrSimd n w =>
    some ⟨m.readFault a n, false, fun f' => f'.setFp (reg w 0) ((m.load a n).setWidth 128)⟩
  | .strSimd n w =>
    some ⟨m.writeFault a n, true, fun f' => { f' with mem := m.store a n (f.fp (reg w 0)).toNat }⟩
  | .ldpSimd n w =>
    some ⟨m.readFault a (2 * n), false, fun f' =>
      (f'.setFp (reg w 0) ((m.load a n).setWidth 128)).setFp (reg w 8) ((m.load (a + n) n).setWidth 128)⟩
  | .stpSimd n w =>
    let m' := (m.store a n (f.fp (reg w 0)).toNat).store (a + n) n (f.fp (reg w 8)).toNat
    some ⟨m.writeFault a (2 * n), true, fun f' => { f' with mem := m' }⟩
  | _ => none

variable {f : Frame} {op : Op} {x : Access}

theorem act_ends (op : Op) (f : Frame) (h : op.access f = some x) (look : Lookup) (value : Buffer) :
    Ends x.bad? x.write f.addr f x.done (op.act look ⟨f, value⟩) := by
  cases op with
  | load n ext =>
    cases h
    unfold Op.act
    refine readPath_spec (c := ⟨f, value⟩) fun c' p _ hload => ?_
    rw [hload 0 n (Nat.le_of_eq (Nat.zero_add n))]
    rfl
  | store n =>
    cases h
    exact writePath_one (c := ⟨f, value⟩) f.tmp.toNat
  | loadPair n ext w =>
    cases h
    unfold Op.act
    refine readPath_spec (c := ⟨f, value⟩) fun c' p _ hload => ?_
    rw [hload 0 n (by omega), hload n n (by omega)]
    rfl
  | storePair n w =>
    cases h
    exact storeTwo_spec n _ _ ⟨f, value⟩
  | ldrSimd n w =>
    cases h
    unfold Op.act
    refine readPath_spec (c := ⟨f, value⟩) fun c' p _ hload => ?_
    rw [hload 0 n (Nat.le_of_eq (Nat.zero_add n))]
    rfl
  | strSimd n w =>
    cases h
    exact writePath_one (c := ⟨f, value⟩) (f.fp (reg w 0)).toNat
  | ldpSimd n w =>
    cases h
    unfold Op.act
    refine readPath_spec (c := ⟨f, value⟩) fun c' p _ hload => ?_
    rw [hload 0 n (by omega), hload n n (by omega)]
    rfl
  | stpSimd n w =>
    cases h
    exact storeTwo_spec n _ _ ⟨f, value⟩
  | _ => cases h

inductive Agrees (a : Word) : Exit → Exit × Buffer → Prop
  | gret {f f' : Frame} {value : Buffer} (hf : Slot a f f') : Agrees a (.gret f) (.gret f', value)
  | gpf {f f' : Frame} {value : Buffer} (hf : Slot a f f') : Agrees a (.gpf f) (.gpf f', value)

end IosLinuxkit.Arm64
