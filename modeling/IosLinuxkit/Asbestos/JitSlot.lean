import Mathlib.Algebra.Group.Nat.Defs
import Mathlib.Logic.Function.Basic
import IosLinuxkit.Lib.Run

/-!
# The slots of translations

The position-independent part of `src/asbestos/guest-arm64/jit.c`: `jit_translate`, `slot_set`,
`slot_claim`, `reg_install`, `aot_install` and `jit_block_free`. A translation has an index, baked
into its code, and each context one slot per index; the slot names the block that runs the
translation. Threads translate and free blocks side by side.

* `Phase`, `tick` — each thread is at one store, and a step is one store of one thread: a slot's
  `blk`, `base` and `dbase` and the fields of the block are separate words. `ctx_lock` is a lock
  that a thread waits for; what is done under `reg_lock` is one step.
* `translate` — `jit_translate` up to the unlocking of `reg_lock`: which of the three ways the
  block goes. What the host, the images and the emitter make of it is in `Request`.

The direct links of a slot (`alt`, `native_link`) are in `Asbestos.DirectLink`.
-/

namespace IosLinuxkit.Asbestos.JitSlot

/-! ## Translations and blocks -/

/-- Whose translations a context holds. -/
inductive Home where
  | image (m : Nat)
  /-- those this process made of a module -/
  | own (mod : Nat)
  deriving DecidableEq, Repr

/-- A context: one per address space, module, base and owner (`ctx_get`). -/
structure Ctx where
  space : Nat
  mod : Nat
  base : Nat
  owner : Option Nat
  deriving DecidableEq, Repr

def Ctx.home (c : Ctx) : Home :=
  match c.owner with
  | some m => .image m
  | none => .own c.mod

/-- The code of a segment: whose translation it is of, and the index in it. -/
structure Native where
  home : Home
  idx : Nat
  code : Nat
  deriving DecidableEq, Repr

/-- Who has the block. Ghost, with the thread that works on it. -/
inductive Stage where
  /-- in `fiber_block_compile` -/
  | compiling (t : Nat)
  /-- in the hash table, or in jetsam -/
  | cached
  /-- in `fiber_block_free` or `fiber_free_jetsam` -/
  | freeing (t : Nat)
  deriving DecidableEq, Repr

/-- The fields of `struct fiber_block` that are read here; a word of `code` is a native segment or
a gadget. -/
structure Blk where
  jitCtx : Option Ctx
  jitIdx : Nat
  nativeEntry : Option Native
  code : Nat → Option Native
  stage : Stage
  /-- ghost: `base` and `dbase` of the call of `slot_set` for the block -/
  installed : Option (Nat × Nat)

def jitBlockInit (t : Nat) : Blk :=
  { jitCtx := none, jitIdx := 0, nativeEntry := none, code := fun _ => none,
    stage := .compiling t, installed := none }

/-- `n` is in the block's stream, or its entry. -/
def Blk.Has (b : Blk) (n : Native) : Prop := b.nativeEntry = some n ∨ ∃ pos, b.code pos = some n

/-- `struct jit_slot`, with the `dbase` of `struct jit_far`. -/
structure Slot where
  blk : Option Nat
  base : Nat
  dbase : Nat
  deriving DecidableEq, Repr

/-- `struct reg_entry`; the module is the first word of its key. -/
structure RegEntry where
  mod : Nat
  key : List (BitVec 32)
  idx : Nat
  segs : List (Nat × Native)
  deriving DecidableEq

/-! ## Threads -/

abbrev ctxMax : Nat := 2 ^ 19

/-- An installation under way. `fresh` is the key of a translation that is being made, and whether
it gets into the registry. -/
structure Job where
  blk : Nat
  ctx : Ctx
  idx : Nat
  base : Nat
  dbase : Nat
  segs : List (Nat × Native)
  fresh : Option (List (BitVec 32) × Bool)

/-- The store a thread makes next. -/
inductive Phase where
  | idle
  /-- at the top of `jit_translate` -/
  | translate (x : Nat)
  /-- `slot_claim`: wait for `ctx_lock` -/
  | lock (j : Job)
  /-- `slot_claim`: look at the owner -/
  | check (j : Job)
  /-- `slot_claim`: unlock and return false -/
  | refused (j : Job)
  /-- `b->jit_ctx = ctx`: after the claim of a slot, but before the setting of a fresh one -/
  | setCtx (j : Job)
  /-- `slot_set` -/
  | setIdx (j : Job)
  | setDbase (j : Job)
  | setBase (j : Job)
  | setBlk (j : Job)
  /-- `slot_claim`: unlock and return true -/
  | unlock (j : Job)
  | install (j : Job) (rest : List (Nat × Native))
  /-- the new translation goes into the registry -/
  | publish (j : Job)
  /-- `jit_block_free` -/
  | cas (x : Nat)
  /-- `free(block)` -/
  | free (x : Nat)

structure State where
  blocks : Nat → Option Blk
  slot : Ctx → Nat → Slot
  reg : List RegEntry
  /-- `mod_next_idx`, 32 bits wide -/
  nextIdx : Nat → Nat
  ctxLock : Option Nat
  thread : Nat → Phase
  /-- `n_pinned` is not zero -/
  pinned : Bool

def start (pinned : Bool) : State :=
  { blocks := fun _ => none
    slot := fun _ _ => ⟨none, 0, 0⟩
    reg := []
    nextIdx := fun _ => 0
    ctxLock := none
    thread := fun _ => .idle
    pinned }

def State.goto (s : State) (t : Nat) (p : Phase) : State :=
  { s with thread := Function.update s.thread t p }

def State.setBlock (s : State) (x : Nat) (b : Option Blk) : State :=
  { s with blocks := Function.update s.blocks x b }

def State.modify (s : State) (x : Nat) (f : Blk → Blk) : State :=
  s.setBlock x ((s.blocks x).map f)

def State.setSlot (s : State) (c : Ctx) (i : Nat) (w : Slot) : State :=
  { s with slot := Function.update s.slot c (Function.update (s.slot c) i w) }

/-- The call returns, and the block goes into the cache. -/
def State.finish (s : State) (t x : Nat) : State :=
  (s.modify x fun b => { b with stage := .cached }).goto t .idle

/-! ## `jit_translate` -/

/-- What `aot_lookup` found. -/
structure AotHit where
  image : Nat
  idx : Nat
  off : Nat
  dbase : Nat
  segs : List (Nat × Nat)
  /-- `ctx_get` for the image -/
  ctxOk : Bool

/-- What a call finds outside the slots and the registry. -/
structure Request where
  addr : Nat
  space : Nat
  mod : Nat
  base : Nat
  key : List (BitVec 32)
  /-- the block is in one mapping, and to be translated -/
  located : Bool
  aotOnly : Bool
  ctxOk : Bool
  aot : Option AotHit
  regTable : Bool
  tablesFit : Bool
  emitted : List (Nat × Nat)
  publish : Bool

def aotJob (x : Nat) (r : Request) (a : AotHit) : Job :=
  { blk := x
    ctx := ⟨r.space, r.mod, r.base, some a.image⟩
    idx := a.idx
    base := (r.addr + 2 ^ 64 - a.off) % 2 ^ 64
    dbase := a.dbase
    segs := a.segs.map fun g => (g.1, ⟨.image a.image, a.idx, g.2⟩)
    fresh := none }

def regJob (x : Nat) (r : Request) (e : RegEntry) : Job :=
  { blk := x
    ctx := ⟨r.space, r.mod, r.base, none⟩
    idx := e.idx
    base := r.base
    dbase := r.base
    segs := e.segs
    fresh := none }

def freshJob (x : Nat) (r : Request) (idx : Nat) : Job :=
  { blk := x
    ctx := ⟨r.space, r.mod, r.base, none⟩
    idx
    base := r.base
    dbase := r.base
    segs := r.emitted.map fun g => (g.1, ⟨.own r.mod, idx, g.2⟩)
    fresh := some (r.key, r.publish) }

def regFind (reg : List RegEntry) (mod : Nat) (key : List (BitVec 32)) : Option RegEntry :=
  reg.find? fun e => e.mod = mod ∧ e.key = key

/-- `mod_next_idx[mod]++` -/
def State.takeIdx (s : State) (mod : Nat) : State :=
  { s with nextIdx := Function.update s.nextIdx mod ((s.nextIdx mod + 1) % 2 ^ 32) }

/-- `jit_translate` for block `x`, until it unlocks `reg_lock`. -/
def translate (s : State) (t x : Nat) (r : Request) : State :=
  if !r.located then s.finish t x
  else if !r.aotOnly && !r.ctxOk then s.finish t x
  else
    match r.aot with
    | some a => if a.ctxOk then s.goto t (.lock (aotJob x r a)) else s.finish t x
    | none =>
      if r.aotOnly || !r.regTable then s.finish t x
      else
        match regFind s.reg r.mod r.key with
        | some e => s.goto t (.lock (regJob x r e))
        | none =>
          if !r.tablesFit then s.finish t x
          else
            let idx := s.nextIdx r.mod
            let s := s.takeIdx r.mod
            if ctxMax ≤ idx then s.finish t x else s.goto t (.setCtx (freshJob x r idx))

/-! ## Stores -/

/-- One segment: the word at its place, and the entry if that is the first. -/
def Blk.install (b : Blk) (pinned : Bool) (pos : Nat) (n : Native) : Blk :=
  { b with
    code := Function.update b.code pos (some n)
    nativeEntry := if pos = 0 ∧ pinned = true then some n else b.nativeEntry }

def tick (s : State) (t : Nat) : State :=
  match s.thread t with
  | .idle => s
  | .translate _ => s
  | .lock j =>
    match s.ctxLock with
    | some _ => s
    | none => { s.goto t (.check j) with ctxLock := some t }
  | .check j =>
    let owner := (s.slot j.ctx j.idx).blk
    if owner = none ∨ owner = some j.blk then s.goto t (.setIdx j) else s.goto t (.refused j)
  | .refused j => { s.finish t j.blk with ctxLock := none }
  | .setCtx j =>
    let s' := s.modify j.blk fun b => { b with jitCtx := some j.ctx }
    if j.fresh.isSome then s'.goto t (.setIdx j) else s'.goto t (.install j j.segs)
  | .setIdx j =>
    (s.modify j.blk fun b => { b with jitIdx := j.idx, installed := some (j.base, j.dbase) }).goto t
      (.setDbase j)
  | .setDbase j =>
    (s.setSlot j.ctx j.idx { s.slot j.ctx j.idx with dbase := j.dbase }).goto t (.setBase j)
  | .setBase j =>
    (s.setSlot j.ctx j.idx { s.slot j.ctx j.idx with base := j.base }).goto t (.setBlk j)
  | .setBlk j =>
    (s.setSlot j.ctx j.idx { s.slot j.ctx j.idx with blk := some j.blk }).goto t
      (if j.fresh.isSome then .install j j.segs else .unlock j)
  | .unlock j => { s.goto t (.setCtx j) with ctxLock := none }
  | .install j [] => if j.fresh.isSome then s.goto t (.publish j) else s.finish t j.blk
  | .install j (g :: rest) =>
    (s.modify j.blk fun b => b.install s.pinned g.1 g.2).goto t (.install j rest)
  | .publish j =>
    let s' := s.finish t j.blk
    match j.fresh with
    | some (key, true) => { s' with reg := ⟨j.ctx.mod, key, j.idx, j.segs⟩ :: s.reg }
    | _ => s'
  | .cas x =>
    let s' := s.goto t (.free x)
    match s.blocks x with
    | none => s'
    | some b =>
      match b.jitCtx with
      | none => s'
      | some c =>
        let w := s.slot c b.jitIdx
        if w.blk = some x then s'.setSlot c b.jitIdx { w with blk := none } else s'
  | .free x => (s.setBlock x none).goto t .idle

/-! ## Runs -/

inductive Event where
  /-- `gen_start` has a block of `malloc` at `x` -/
  | compile (t x : Nat)
  | translate (t : Nat) (r : Request)
  | tick (t : Nat)
  /-- the block goes to `fiber_block_free`, or `fiber_free_jetsam` has come to it -/
  | free (t x : Nat)

def step (s : State) : Event → State
  | .compile t x =>
    match s.thread t, s.blocks x with
    | .idle, none => (s.setBlock x (some (jitBlockInit t))).goto t (.translate x)
    | _, _ => s
  | .translate t r =>
    match s.thread t with
    | .translate x => JitSlot.translate s t x r
    | _ => s
  | .tick t => JitSlot.tick s t
  | .free t x =>
    match s.thread t, s.blocks x with
    | .idle, some b =>
      if b.stage = .cached then
        (s.setBlock x (some { b with stage := .freeing t })).goto t (.cas x)
      else s
    | _, _ => s

end IosLinuxkit.Asbestos.JitSlot
