import IosLinuxkit.Lib.Ring
import IosLinuxkit.Lib.Run

/-!
# The byte fifo

`fifo.c`: a ring of bytes with a start and a size, written with or without overwriting and read
from its front or, with `FIFO_LAST`, from its end.

* **`fifo_refines`** — in a run whose steps all stay where the index arithmetic is right, every
  reply and the contents are those of a list of bytes bounded by the capacity.

## Modelling

* A `size_t` is a number below `2^64`, and its operations wrap; `none` is a division by zero or a
  copy that leaves the buffer.
* `malloc` and array objects have at most `PTRDIFF_MAX` bytes; a failed `malloc` leaves no fifo.
-/

namespace IosLinuxkit.Util

/-! ## `size_t` -/

def sizeMod : Nat := 18446744073709551616

def sizeAdd (x y : Nat) : Nat := (x + y) % sizeMod

def sizeSub (x y : Nat) : Nat := (x + sizeMod - y) % sizeMod

def sizeRem (x y : Nat) : Option Nat := if y = 0 then none else some (x % y)

/-! ## The code -/

structure Fifo where
  buf : List UInt8
  capacity : Nat
  size : Nat
  start : Nat
  deriving DecidableEq, Repr

abbrev Flags := BitVec 32

def fifoOverwrite : Flags := 1
def fifoPeek : Flags := 1
def fifoLast : Flags := 2

def Flags.has (flags bit : Flags) : Bool := flags &&& bit != 0

def fifoInit (b : Bytes) : Fifo := { buf := b.bytes, capacity := b.bytes.length, size := 0, start := 0 }

def fifoRemaining (fifo : Fifo) : Nat := sizeSub fifo.capacity fifo.size

/-- What an overwriting `fifo_write` drops first. -/
def dropExcess (fifo : Fifo) (excess : Nat) : Option Fifo := do
  let start ← sizeRem (sizeAdd fifo.start excess) fifo.capacity
  some { fifo with start := start, size := sizeSub fifo.size excess }

/-- The copies of `fifo_write`, behind the bytes that are there. -/
def copyTail (fifo : Fifo) (data : List UInt8) : Option Fifo := do
  let tail ← sizeRem (sizeAdd fifo.start fifo.size) fifo.capacity
  let firstCopySize := min (sizeSub fifo.capacity tail) data.length
  let buf ← copyIn fifo.buf tail (data.take firstCopySize)
  let buf ← copyIn buf 0 (data.drop firstCopySize)
  some { fifo with buf := buf, size := sizeAdd fifo.size data.length }

def fifoWrite (fifo : Fifo) (data : List UInt8) (flags : Flags) : Option (Nat × Fifo) :=
  if data.length > fifoRemaining fifo then
    if flags.has fifoOverwrite then do
      let fifo ← dropExcess fifo (sizeSub data.length (fifoRemaining fifo))
      let fifo ← copyTail fifo data
      some (0, fifo)
    else some (1, fifo)
  else do
    let fifo ← copyTail fifo data
    some (0, fifo)

/-- Where `fifo_read` begins. -/
def readStart (fifo : Fifo) (size : Nat) (flags : Flags) : Option Nat :=
  if flags.has fifoLast then sizeRem (sizeAdd fifo.start (sizeSub fifo.size size)) fifo.capacity
  else some fifo.start

def fifoRead (fifo : Fifo) (size : Nat) (flags : Flags) : Option (Nat × List UInt8 × Fifo) :=
  if size > fifo.size then some (1, [], fifo)
  else do
    let start ← readStart fifo size flags
    -- the room behind `fifo->start`, also where the read begins at another place
    let firstCopySize := min (sizeSub fifo.capacity fifo.start) size
    let front ← copyOut fifo.buf start firstCopySize
    let rest ← copyOut fifo.buf 0 (size - firstCopySize)
    if flags.has fifoPeek then some (0, front ++ rest, fifo)
    else do
      let next ← sizeRem (sizeAdd start size) fifo.capacity
      some (0, front ++ rest, { fifo with start := next, size := sizeSub fifo.size size })

def fifoFlush (fifo : Fifo) : Fifo := { fifo with size := 0 }

/-! ## Runs -/

inductive Op
  | write (data : Bytes) (flags : Flags)
  | read (size : Nat) (flags : Flags)
  | flush

/-- What a call returns, and the bytes it delivers. -/
structure Reply where
  code : Nat
  bytes : List UInt8
  deriving DecidableEq, Repr

def call (fifo : Fifo) : Op → Option (Reply × Fifo)
  | .write data flags => (fifoWrite fifo data.bytes flags).map fun r => (⟨r.1, []⟩, r.2)
  | .read size flags => (fifoRead fifo size flags).map fun r => (⟨r.1, r.2.1⟩, r.2.2)
  | .flush => some (⟨0, []⟩, fifoFlush fifo)

/-- A fifo and the replies given so far; `none` once a call has left the buffer. -/
abbrev Session := Option (Fifo × List Reply)

def step (s : Session) (op : Op) : Session := do
  let (fifo, replies) ← s
  let (reply, fifo) ← call fifo op
  some (fifo, replies ++ [reply])

def opened (b : Bytes) : Session := some (fifoInit b, [])

/-! ## The list of bytes -/

namespace Queue

def write (capacity : Nat) (l data : List UInt8) (overwrite : Bool) : Nat × List UInt8 :=
  if l.length + data.length > capacity ∧ ¬overwrite then (1, l)
  else (0, (l ++ data).drop (l.length + data.length - capacity))

def read (l : List UInt8) (n : Nat) (peek last : Bool) : Reply × List UInt8 :=
  if n > l.length then (⟨1, []⟩, l)
  else if last then (⟨0, l.drop (l.length - n)⟩, if peek then l else l.take (l.length - n))
  else (⟨0, l.take n⟩, if peek then l else l.drop n)

def call (capacity : Nat) (l : List UInt8) : Op → Reply × List UInt8
  | .write data flags =>
    let r := write capacity l data.bytes (flags.has fifoOverwrite)
    (⟨r.1, []⟩, r.2)
  | .read n flags => read l n (flags.has fifoPeek) (flags.has fifoLast)
  | .flush => (⟨0, []⟩, [])

def step (capacity : Nat) (s : List UInt8 × List Reply) (op : Op) : List UInt8 × List Reply :=
  let (reply, l) := call capacity s.1 op
  (l, s.2 ++ [reply])

end Queue

def Fifo.contents (fifo : Fifo) : List UInt8 := (fifo.buf.rotate fifo.start).take fifo.size

def view (s : Fifo × List Reply) : List UInt8 × List Reply := (s.1.contents, s.2)

structure Fifo.Wf (fifo : Fifo) : Prop where
  length : fifo.buf.length = fifo.capacity
  capacity : fifo.capacity ≤ ptrdiffMax
  size : fifo.size ≤ fifo.capacity
  start : fifo.start < fifo.capacity ∨ fifo.start = 0

/-! ## Where the code is right -/

/-- An overwriting write of more bytes than the capacity. The new size wraps below zero, and the tail that
is computed from it is still the right one in these cases only. -/
def WrapsRight (fifo : Fifo) (n : Nat) : Prop :=
  n ≤ fifo.capacity + (fifo.start + fifo.size + n) % fifo.capacity ∨
  (fifo.capacity ∣ sizeMod ∧ fifo.capacity ∣ fifo.start + fifo.size + n ∧ n ≤ 2 * fifo.capacity)

/-- A write that the code handles: one that is refused, one of at most the capacity, or one that
wraps right. -/
def WriteFits (fifo : Fifo) (n : Nat) (flags : Flags) : Prop :=
  (fifo.size + n > fifo.capacity ∧ flags.has fifoOverwrite = false) ∨
  (0 < fifo.capacity ∧ (n ≤ fifo.capacity ∨ WrapsRight fifo n))

/-- The last `n` bytes, where neither they nor the first `n` bytes cross the end of the ring. -/
def LastFits (fifo : Fifo) (n : Nat) : Prop :=
  n = fifo.size ∨
  (fifo.start + n ≤ fifo.capacity ∧ (fifo.start + (fifo.size - n)) % fifo.capacity + n ≤ fifo.capacity)

/-- A read that the code handles. One that removes the last bytes moves the start, which is right
when all bytes are removed or the ring is full. -/
def ReadFits (fifo : Fifo) (n : Nat) (flags : Flags) : Prop :=
  n > fifo.size ∨ (flags.has fifoLast = false ∧ (flags.has fifoPeek = true ∨ 0 < fifo.capacity)) ∨
  (flags.has fifoLast = true ∧ 0 < fifo.capacity ∧ LastFits fifo n ∧
    (flags.has fifoPeek = true ∨ n = fifo.size ∨ fifo.size = fifo.capacity))

def Fits (fifo : Fifo) : Op → Prop
  | .write data flags => WriteFits fifo data.bytes.length flags
  | .read n flags => ReadFits fifo n flags
  | .flush => True

/-! ## Arithmetic of `size_t` -/

variable {x y start : Nat}

theorem sizeAdd_eq (hlt : x + y < sizeMod) : sizeAdd x y = x + y := Nat.mod_eq_of_lt hlt

theorem sizeSub_eq (hle : y ≤ x) (hlt : x < sizeMod) : sizeSub x y = x - y := by
  unfold sizeSub
  rw [show x + sizeMod - y = x - y + sizeMod by omega, Nat.add_mod_right, Nat.mod_eq_of_lt (by omega)]

theorem sizeSub_wraps (hlt : x < y) (hle : y ≤ sizeMod) : sizeSub x y = x + sizeMod - y :=
  Nat.mod_eq_of_lt (by omega)

theorem sizeRem_eq (hpos : 0 < y) : sizeRem x y = some (x % y) := if_neg (by omega)

variable {fifo : Fifo} {data : List UInt8} {flags : Flags} {n : Nat}

theorem Fifo.Wf.sizes (hwf : fifo.Wf) : fifo.capacity < sizeMod ∧ 2 * fifo.capacity < sizeMod := by
  have hcap := hwf.capacity
  simp only [ptrdiffMax] at hcap
  simp only [sizeMod]
  omega

theorem Fifo.Wf.start_le (hwf : fifo.Wf) : fifo.start ≤ fifo.capacity := by
  cases hwf.start with
  | inl hlt => exact Nat.le_of_lt hlt
  | inr hzero => exact hzero ▸ Nat.zero_le _

theorem fifoRemaining_eq (hwf : fifo.Wf) : fifoRemaining fifo = fifo.capacity - fifo.size :=
  sizeSub_eq hwf.size hwf.sizes.1

theorem length_contents (hwf : fifo.Wf) : fifo.contents.length = fifo.size := by
  have hsize := hwf.size
  simp only [Fifo.contents, List.length_take, List.length_rotate, hwf.length]
  omega

/-! ## Copies -/

theorem take_cut (data : List UInt8) (k : Nat) : data.take (min k data.length) = data.take k :=
  List.take_eq_take_min.symm

theorem drop_cut (data : List UInt8) (k : Nat) : data.drop (min k data.length) = data.drop k := by
  by_cases hle : k ≤ data.length
  · rw [Nat.min_eq_left hle]
  · rw [Nat.min_eq_right (by omega), List.drop_length, List.drop_eq_nil_of_le (by omega)]

theorem copyTail_eq (hbuf : fifo.buf.length = fifo.capacity) (hcap : fifo.capacity < sizeMod) (hpos : 0 < fifo.capacity) {tail : Nat}
    (htail : sizeAdd fifo.start fifo.size % fifo.capacity = tail)
    (hlen : tail + data.length ≤ 2 * fifo.capacity) : copyTail fifo data
      = some { fifo with buf := ringPut fifo.buf tail data, size := sizeAdd fifo.size data.length } := by
  have hlt : tail < fifo.capacity := htail ▸ Nat.mod_lt _ hpos
  have hfirst : (data.take (fifo.capacity - tail)).length = min (fifo.capacity - tail) data.length :=
    List.length_take
  have hfront : tail + (data.take (fifo.capacity - tail)).length ≤ fifo.buf.length := by omega
  have hput : (put fifo.buf tail (data.take (fifo.capacity - tail))).length = fifo.buf.length :=
    length_put hfront
  have hrest : 0 + (data.drop (fifo.capacity - tail)).length
      ≤ (put fifo.buf tail (data.take (fifo.capacity - tail))).length := by
    rw [hput, List.length_drop]
    omega
  unfold copyTail
  rw [sizeRem_eq hpos, htail, Option.bind_eq_bind, Option.bind_some, sizeSub_eq (Nat.le_of_lt hlt) hcap]
  dsimp only
  rw [take_cut, drop_cut, copyIn_eq hfront, Option.bind_eq_bind, Option.bind_some, copyIn_eq hrest,
    Option.bind_some, ringPut, hbuf]

theorem copies_ringGet {β : Type} {buf : List UInt8} (k : List UInt8 → Option β)
    (hstart : start ≤ buf.length) (hn : n ≤ buf.length) :
    ((copyOut buf start (min (buf.length - start) n)).bind fun front =>
      (copyOut buf 0 (n - min (buf.length - start) n)).bind fun rest => k (front ++ rest))
      = k ((buf.rotate start).take n) := by
  have hfront : (buf.drop start).take (min (buf.length - start) n) = (buf.drop start).take n := by
    rw [← List.length_drop, Nat.min_comm, take_cut]
  have hrest : n - min (buf.length - start) n = n - (buf.length - start) := by omega
  rw [copyOut_eq (by omega), Option.bind_some, copyOut_eq (by omega), Option.bind_some, hrest, hfront,
    ← ringGet_eq hstart hn]
  rfl

/-! ## Writing -/

structure Holds (fifo fifo' : Fifo) (l : List UInt8) : Prop where
  wf : fifo'.Wf
  capacity : fifo'.capacity = fifo.capacity
  contents : fifo'.contents = l

theorem Holds.same (hwf : fifo.Wf) : Holds fifo fifo fifo.contents := ⟨hwf, rfl, rfl⟩

theorem holds_flush (hwf : fifo.Wf) : Holds fifo (fifoFlush fifo) [] :=
  ⟨⟨hwf.length, hwf.capacity, Nat.zero_le _, hwf.start⟩, rfl, List.take_zero⟩

theorem copyTail_appends (hwf : fifo.Wf) (hpos : 0 < fifo.capacity)
    (hfit : fifo.size + data.length ≤ fifo.capacity) :
    ∃ fifo', copyTail fifo data = some fifo' ∧ Holds fifo fifo' (fifo.contents ++ data) := by
  obtain ⟨hlt, htwo⟩ := hwf.sizes
  have hstart := hwf.start_le
  have hmod : sizeAdd fifo.start fifo.size % fifo.capacity = (fifo.start + fifo.size) % fifo.capacity := by
    rw [sizeAdd_eq (by omega)]
  have htail := Nat.mod_lt (fifo.start + fifo.size) hpos
  have hbuf := hwf.length
  refine ⟨_, copyTail_eq hbuf hlt hpos hmod (by omega), ⟨?_, hwf.capacity, ?_, hwf.start⟩, rfl, ?_⟩
  · exact (length_ringPut (by omega) (by omega)).trans hbuf
  · show sizeAdd fifo.size data.length ≤ fifo.capacity
    rw [sizeAdd_eq (by omega)]
    exact hfit
  show ((ringPut _ _ data).rotate fifo.start).take (sizeAdd fifo.size data.length) = fifo.contents ++ data
  have hlen := length_contents hwf
  unfold Fifo.contents at hlen ⊢
  rw [sizeAdd_eq (by omega), ringPut_rotate (by omega) (by rw [hbuf]) (by omega)]
  exact List.take_left' (by rw [List.length_append, hlen])

theorem dropExcess_drops (hwf : fifo.Wf) (hpos : 0 < fifo.capacity) (hn : n ≤ fifo.size) :
    ∃ fifo', dropExcess fifo n = some fifo' ∧ Holds fifo fifo' (fifo.contents.drop n) := by
  obtain ⟨hlt, htwo⟩ := hwf.sizes
  have hsize := hwf.size
  have hstart := hwf.start_le
  unfold dropExcess
  rw [sizeRem_eq hpos, sizeAdd_eq (by omega), sizeSub_eq hn (by omega)]
  refine ⟨_, rfl, ⟨hwf.length, hwf.capacity, Nat.le_trans (Nat.sub_le _ _) hsize, Or.inl (Nat.mod_lt _ hpos)⟩,
    rfl, ?_⟩
  show (fifo.buf.rotate ((fifo.start + n) % fifo.capacity)).take (fifo.size - n) = _
  rw [← hwf.length, List.rotate_mod]
  exact rotate_take_drop hn (hwf.length ▸ hsize)

theorem tail_wrapsRight (hwf : fifo.Wf) (hpos : 0 < fifo.capacity) (hgt : fifo.capacity < n) (hn : n ≤ ptrdiffMax)
    (hwraps : WrapsRight fifo n) {tail : Nat} (hstart : start = (fifo.start + fifo.size + n) % fifo.capacity)
    (htail : tail = sizeAdd start (fifo.capacity + sizeMod - n) % fifo.capacity) :
    tail + n ≤ 2 * fifo.capacity ∧ (tail + n) % fifo.capacity = start := by
  obtain ⟨hlt, -⟩ := hwf.sizes
  have hmax : n < sizeMod := by
    simp only [sizeMod]
    simp only [ptrdiffMax] at hn
    omega
  cases hwraps with
  | inl hle =>
    rw [← hstart] at hle
    have hs : start < fifo.capacity := hstart ▸ Nat.mod_lt _ hpos
    have hback : tail = start + fifo.capacity - n := by
      rw [htail, sizeAdd, show start + (fifo.capacity + sizeMod - n) = start + fifo.capacity - n + sizeMod by omega,
        Nat.add_mod_right, Nat.mod_eq_of_lt (show start + fifo.capacity - n < sizeMod by omega),
        Nat.mod_eq_of_lt (by omega)]
    refine ⟨by omega, ?_⟩
    rw [hback, Nat.sub_add_cancel (by omega), Nat.add_mod_right, Nat.mod_eq_of_lt hs]
  | inr hpow =>
    obtain ⟨hdvd, hzero, hle⟩ := hpow
    have hs : start = 0 := hstart.trans (Nat.mod_eq_zero_of_dvd hzero)
    have hback : tail = 2 * fifo.capacity - n := by
      obtain ⟨m, hm⟩ := hdvd
      have hm0 : 0 < m := Nat.pos_of_ne_zero fun h => by simp [h, sizeMod] at hm
      have hsum : fifo.capacity + sizeMod - n = (2 * fifo.capacity - n) + fifo.capacity * (m - 1) := by
        rw [hm, Nat.mul_sub, Nat.mul_one]
        have := Nat.le_mul_of_pos_right fifo.capacity hm0
        omega
      rw [htail, hs, sizeAdd_eq (by omega), Nat.zero_add, hsum, Nat.add_mul_mod_self_left, Nat.mod_eq_of_lt (by omega)]
    refine ⟨by omega, ?_⟩
    rw [hback, hs, Nat.sub_add_cancel hle]
    exact Nat.mul_mod_left _ _

theorem overwrite_long (hwf : fifo.Wf) (hpos : 0 < fifo.capacity) (hgt : fifo.capacity < data.length)
    (hn : data.length ≤ ptrdiffMax) (hwraps : WrapsRight fifo data.length) :
    ∃ fifo', ((dropExcess fifo (data.length - (fifo.capacity - fifo.size))).bind fun f => copyTail f data) = some fifo' ∧
      Holds fifo fifo' (data.drop (data.length - fifo.capacity)) := by
  obtain ⟨hlt, -⟩ := hwf.sizes
  have hbuf := hwf.length
  have hsize := hwf.size
  have hstart := hwf.start_le
  have hmax : fifo.capacity + data.length < sizeMod := by
    have hcap := hwf.capacity
    simp only [ptrdiffMax] at hn hcap
    simp only [sizeMod]
    omega
  -- the start behind the dropped bytes
  have hadd : sizeAdd fifo.start (data.length - (fifo.capacity - fifo.size)) % fifo.capacity
      = (fifo.start + fifo.size + data.length) % fifo.capacity := by
    rw [sizeAdd_eq (by omega), show fifo.start + fifo.size + data.length
      = fifo.start + (data.length - (fifo.capacity - fifo.size)) + fifo.capacity by omega, Nat.add_mod_right]
  have hsub : sizeSub fifo.size (data.length - (fifo.capacity - fifo.size)) = fifo.capacity + sizeMod - data.length := by
    rw [sizeSub_wraps (by omega) (by omega)]
    omega
  obtain ⟨hfit, hmod⟩ := tail_wrapsRight hwf hpos hgt hn hwraps rfl rfl
  have hcopy := @copyTail_eq { fifo with
    start := (fifo.start + fifo.size + data.length) % fifo.capacity, size := fifo.capacity + sizeMod - data.length }
    data hbuf hlt hpos _ rfl hfit
  have hfull : sizeAdd (fifo.capacity + sizeMod - data.length) data.length = fifo.capacity := by
    rw [sizeAdd, Nat.sub_add_cancel (by omega), Nat.add_mod_right, Nat.mod_eq_of_lt hlt]
  generalize htail : sizeAdd ((fifo.start + fifo.size + data.length) % fifo.capacity)
    (fifo.capacity + sizeMod - data.length) % fifo.capacity = tail at hcopy hfit hmod
  have htailLt : tail < fifo.capacity := htail ▸ Nat.mod_lt _ hpos
  have hput : (ringPut fifo.buf tail data).length = fifo.buf.length := length_ringPut (by omega) (by omega)
  unfold dropExcess
  rw [sizeRem_eq hpos, hadd, hsub, Option.bind_eq_bind, Option.bind_some, Option.bind_some, hcopy, hfull]
  refine ⟨_, rfl, ⟨hput.trans hbuf, hwf.capacity, Nat.le_refl _, Or.inl (Nat.mod_lt _ hpos)⟩, rfl, ?_⟩
  show ((ringPut fifo.buf tail data).rotate ((fifo.start + fifo.size + data.length) % fifo.capacity)).take
    fifo.capacity = _
  rw [← hmod, ← hbuf, ← hput, List.rotate_mod, hput, ringPut_over (by omega) (by omega) (by omega)]
  exact List.take_of_length_le (by simp only [List.length_drop]; omega)

theorem overwrite_keeps (hwf : fifo.Wf) (hpos : 0 < fifo.capacity) (hn : data.length ≤ ptrdiffMax)
    (hover : fifo.capacity < fifo.size + data.length)
    (hfits : data.length ≤ fifo.capacity ∨ WrapsRight fifo data.length) :
    ∃ fifo', ((dropExcess fifo (data.length - (fifo.capacity - fifo.size))).bind fun f => copyTail f data) = some fifo' ∧
      Holds fifo fifo' ((fifo.contents ++ data).drop (fifo.size + data.length - fifo.capacity)) := by
  have hsize := hwf.size
  have hlen := length_contents hwf
  by_cases hle : data.length ≤ fifo.capacity
  · obtain ⟨f₁, hdrop, hwf₁, hcap₁, hcontents₁⟩ :=
      dropExcess_drops (n := data.length - (fifo.capacity - fifo.size)) hwf hpos (by omega)
    have hsize₁ := length_contents hwf₁
    rw [hcontents₁, List.length_drop, hlen] at hsize₁
    have hfit : f₁.size + data.length ≤ f₁.capacity := by omega
    obtain ⟨f₂, hcopy, hwf₂, hcap₂, hcontents₂⟩ := copyTail_appends hwf₁ (by omega) hfit
    refine ⟨f₂, ?_, hwf₂, hcap₂.trans hcap₁, ?_⟩
    · rw [hdrop, Option.bind_some, hcopy]
    · rw [hcontents₂, hcontents₁, List.drop_append_of_le_length (by omega),
        show fifo.size + data.length - fifo.capacity = data.length - (fifo.capacity - fifo.size) by omega]
  obtain ⟨f₁, hrun, hholds⟩ := overwrite_long hwf hpos (by omega) hn (hfits.resolve_left hle)
  refine ⟨f₁, hrun, ?_⟩
  rwa [List.drop_append, List.drop_eq_nil_of_le (by omega), List.nil_append, hlen,
    show fifo.size + data.length - fifo.capacity - fifo.size = data.length - fifo.capacity by omega]

theorem fifoWrite_refines (hwf : fifo.Wf) (hn : data.length ≤ ptrdiffMax)
    (hfits : WriteFits fifo data.length flags) : ∃ fifo', fifoWrite fifo data flags =
        some ((Queue.write fifo.capacity fifo.contents data (flags.has fifoOverwrite)).1, fifo') ∧
      Holds fifo fifo' (Queue.write fifo.capacity fifo.contents data (flags.has fifoOverwrite)).2 := by
  have hsize := hwf.size
  have hlen := length_contents hwf
  unfold fifoWrite Queue.write
  rw [fifoRemaining_eq hwf, hlen]
  by_cases hroom : fifo.size + data.length ≤ fifo.capacity
  · have hpos : 0 < fifo.capacity := by
      cases hfits with
      | inl hrefused => omega
      | inr h => exact h.1
    obtain ⟨f₁, hcopy, hholds⟩ := copyTail_appends hwf hpos hroom
    rw [if_neg (by omega), if_neg (fun h => absurd h.1 (by omega)), hcopy,
      show fifo.size + data.length - fifo.capacity = 0 by omega, List.drop_zero]
    exact ⟨f₁, rfl, hholds⟩
  rw [if_pos (by omega)]
  cases hover : flags.has fifoOverwrite with
  | false =>
    rw [if_neg Bool.false_ne_true, if_pos ⟨by omega, Bool.false_ne_true⟩]
    exact ⟨fifo, rfl, Holds.same hwf⟩
  | true =>
    have hfit := hfits.resolve_left fun h => Bool.false_ne_true (h.2.symm.trans hover)
    obtain ⟨f₁, hrun, hholds⟩ := overwrite_keeps hwf hfit.1 hn (by omega) hfit.2
    obtain ⟨f₀, hdrop, hcopy⟩ := Option.bind_eq_some_iff.mp hrun
    have hmax : data.length < sizeMod := by
      simp only [ptrdiffMax] at hn
      simp only [sizeMod]
      omega
    rw [if_pos rfl, if_neg (fun h => h.2 rfl), sizeSub_eq (by omega) hmax, hdrop]
    refine ⟨f₁, ?_, hholds⟩
    rw [Option.bind_eq_bind, Option.bind_some, hcopy]
    rfl

/-! ## Reading -/

def readFrom (fifo : Fifo) (start size : Nat) (flags : Flags) : Option (Nat × List UInt8 × Fifo) := do
  let firstCopySize := min (sizeSub fifo.capacity fifo.start) size
  let front ← copyOut fifo.buf start firstCopySize
  let rest ← copyOut fifo.buf 0 (size - firstCopySize)
  if flags.has fifoPeek then some (0, front ++ rest, fifo)
  else (dropExcess { fifo with start := start } size).map fun f => (0, front ++ rest, f)

theorem fifoRead_eq (hle : n ≤ fifo.size) :
    fifoRead fifo n flags = (readStart fifo n flags).bind fun start => readFrom fifo start n flags := by
  unfold fifoRead readFrom dropExcess
  rw [if_neg (by omega)]
  refine Option.bind_congr fun start _ => ?_
  refine Option.bind_congr fun front _ => ?_
  refine Option.bind_congr fun rest _ => ?_
  split
  case isTrue hpeek => rfl
  case isFalse hpeek => cases sizeRem (sizeAdd start n) fifo.capacity <;> rfl

theorem readFrom_eq (hwf : fifo.Wf) (hle : n ≤ fifo.size) (hstart : start ≤ fifo.capacity)
    (hcut : start = fifo.start ∨ (fifo.start + n ≤ fifo.capacity ∧ start + n ≤ fifo.capacity)) :
    readFrom fifo start n flags =
      if flags.has fifoPeek then some (0, (fifo.buf.rotate start).take n, fifo)
      else (dropExcess { fifo with start := start } n).map fun f => (0, (fifo.buf.rotate start).take n, f) := by
  have hsize := hwf.size
  have hbuf := hwf.length
  have hmin : min (fifo.capacity - fifo.start) n = min (fifo.buf.length - start) n := by
    rw [hbuf]
    cases hcut with
    | inl heq => rw [heq]
    | inr hfit => omega
  unfold readFrom
  rw [sizeSub_eq hwf.start_le hwf.sizes.1]
  dsimp only
  rw [hmin]
  exact copies_ringGet (fun bytes => if flags.has fifoPeek then some (0, bytes, fifo)
      else (dropExcess { fifo with start := start } n).map fun f => (0, bytes, f)) (by omega) (by omega)

theorem dropExcess_takes (hwf : fifo.Wf) (hpos : 0 < fifo.capacity) (hn : n ≤ fifo.size)
    (hall : n = fifo.size ∨ fifo.size = fifo.capacity)
    (hstart : start = (fifo.start + (fifo.size - n)) % fifo.capacity) :
    ∃ fifo', dropExcess { fifo with start := start } n = some fifo' ∧
      Holds fifo fifo' (fifo.contents.take (fifo.size - n)) := by
  obtain ⟨hlt, htwo⟩ := hwf.sizes
  have hsize := hwf.size
  have hstartLt : start < fifo.capacity := hstart ▸ Nat.mod_lt _ hpos
  unfold dropExcess
  rw [sizeRem_eq hpos, sizeAdd_eq (show start + n < sizeMod by omega), sizeSub_eq hn (by omega)]
  refine ⟨_, rfl, ⟨hwf.length, hwf.capacity, Nat.le_trans (Nat.sub_le _ _) hsize,
    Or.inl (Nat.mod_lt _ hpos)⟩, rfl, ?_⟩
  show (fifo.buf.rotate ((start + n) % fifo.capacity)).take (fifo.size - n) = _
  cases hall with
  | inl heq => rw [heq, Nat.sub_self, List.take_zero, List.take_zero]
  | inr hfull =>
    -- the start has gone round once
    have hround : (start + n) % fifo.capacity = fifo.start % fifo.capacity := by
      rw [hstart, Nat.mod_add_mod, show fifo.start + (fifo.size - n) + n = fifo.start + fifo.capacity by omega,
        Nat.add_mod_right]
    unfold Fifo.contents
    rw [hround, ← hwf.length, List.rotate_mod, List.take_take, Nat.min_eq_left (Nat.sub_le _ _)]

theorem fifoRead_first (hwf : fifo.Wf) (hle : n ≤ fifo.size) (hlast : flags.has fifoLast = false)
    (hpos : flags.has fifoPeek = true ∨ 0 < fifo.capacity) :
    ∃ fifo', fifoRead fifo n flags = some (0, fifo.contents.take n, fifo') ∧
      Holds fifo fifo' (if flags.has fifoPeek then fifo.contents else fifo.contents.drop n) := by
  have hbytes : (fifo.buf.rotate fifo.start).take n = fifo.contents.take n := by
    unfold Fifo.contents
    rw [List.take_take, Nat.min_eq_left hle]
  rw [fifoRead_eq hle, readStart, hlast, if_neg Bool.false_ne_true, Option.bind_some,
    readFrom_eq hwf hle hwf.start_le (Or.inl rfl), hbytes]
  cases hpeek : flags.has fifoPeek with
  | true => exact ⟨fifo, rfl, Holds.same hwf⟩
  | false =>
    obtain ⟨f₁, hdrop, hholds⟩ := dropExcess_drops hwf (hpos.resolve_left (by simp [hpeek])) hle
    refine ⟨f₁, ?_, hholds⟩
    rw [if_neg Bool.false_ne_true, hdrop]
    rfl

theorem fifoRead_last (hwf : fifo.Wf) (hle : n ≤ fifo.size) (hlast : flags.has fifoLast = true)
    (hpos : 0 < fifo.capacity) (hfits : LastFits fifo n)
    (hall : flags.has fifoPeek = true ∨ n = fifo.size ∨ fifo.size = fifo.capacity) :
    ∃ fifo', fifoRead fifo n flags = some (0, fifo.contents.drop (fifo.size - n), fifo') ∧
      Holds fifo fifo' (if flags.has fifoPeek then fifo.contents else fifo.contents.take (fifo.size - n)) := by
  obtain ⟨hlt, htwo⟩ := hwf.sizes
  have hsize := hwf.size
  have hs := hwf.start_le
  have hstartLt := Nat.mod_lt (fifo.start + (fifo.size - n)) hpos
  have hbytes : (fifo.buf.rotate ((fifo.start + (fifo.size - n)) % fifo.capacity)).take n
      = fifo.contents.drop (fifo.size - n) := by
    have hdrop : (fifo.buf.rotate (fifo.start + (fifo.size - n))).take (fifo.size - (fifo.size - n)) = _ :=
      rotate_take_drop (Nat.sub_le fifo.size n) (hwf.length ▸ hsize)
    rw [Nat.sub_sub_self hle] at hdrop
    rw [← hwf.length, List.rotate_mod, hdrop, Fifo.contents]
  have hcut : (fifo.start + (fifo.size - n)) % fifo.capacity = fifo.start ∨ (fifo.start + n ≤ fifo.capacity ∧
      (fifo.start + (fifo.size - n)) % fifo.capacity + n ≤ fifo.capacity) := by
    refine hfits.imp_left fun heq => ?_
    rw [heq, Nat.sub_self, Nat.add_zero]
    exact Nat.mod_eq_of_lt (hwf.start.elim id fun h => h ▸ hpos)
  rw [fifoRead_eq hle, readStart, if_pos hlast, sizeRem_eq hpos, sizeSub_eq hle (by omega), sizeAdd_eq (by omega),
    Option.bind_some, readFrom_eq hwf hle (Nat.le_of_lt hstartLt) hcut, hbytes]
  cases hpeek : flags.has fifoPeek with
  | true => exact ⟨fifo, rfl, Holds.same hwf⟩
  | false =>
    obtain ⟨f₁, hdrop, hholds⟩ :=
      dropExcess_takes hwf hpos hle (hall.resolve_left (by simp [hpeek])) rfl
    refine ⟨f₁, ?_, hholds⟩
    rw [if_neg Bool.false_ne_true, hdrop]
    rfl

theorem fifoRead_refines (hwf : fifo.Wf) (hfits : ReadFits fifo n flags) :
    ∃ fifo', (fifoRead fifo n flags).map (fun r => ((⟨r.1, r.2.1⟩ : Reply), r.2.2)) =
        some ((Queue.read fifo.contents n (flags.has fifoPeek) (flags.has fifoLast)).1, fifo') ∧
      Holds fifo fifo' (Queue.read fifo.contents n (flags.has fifoPeek) (flags.has fifoLast)).2 := by
  unfold Queue.read
  rw [length_contents hwf]
  by_cases hmany : n > fifo.size
  · rw [if_pos hmany, fifoRead, if_pos hmany]
    exact ⟨fifo, rfl, Holds.same hwf⟩
  rw [if_neg hmany]
  cases hfits.resolve_left hmany with
  | inl h =>
    obtain ⟨f₁, hread, hholds⟩ := fifoRead_first hwf (Nat.le_of_not_lt hmany) h.1 h.2
    rw [h.1, if_neg Bool.false_ne_true, hread]
    exact ⟨f₁, rfl, hholds⟩
  | inr h =>
    obtain ⟨hlast, hpos, hfit, hall⟩ := h
    obtain ⟨f₁, hread, hholds⟩ := fifoRead_last hwf (Nat.le_of_not_lt hmany) hlast hpos hfit hall
    rw [if_pos hlast, hread]
    exact ⟨f₁, rfl, hholds⟩

/-! ## Runs -/

theorem call_refines {op : Op} (hwf : fifo.Wf) (hfits : Fits fifo op) :
    ∃ fifo', call fifo op = some ((Queue.call fifo.capacity fifo.contents op).1, fifo') ∧
      Holds fifo fifo' (Queue.call fifo.capacity fifo.contents op).2 := by
  cases op with
  | write data flags =>
    obtain ⟨f₁, hwrite, hholds⟩ := fifoWrite_refines hwf data.le_max hfits
    refine ⟨f₁, ?_, hholds⟩
    simp only [call, hwrite, Option.map_some, Queue.call]
  | read n flags => exact fifoRead_refines hwf hfits
  | flush => exact ⟨fifoFlush fifo, rfl, holds_flush hwf⟩

def Follows (capacity : Nat) (s : Session) (q : List UInt8 × List Reply) : Prop :=
  ∃ fifo, s = some (fifo, q.2) ∧ fifo.Wf ∧ fifo.capacity = capacity ∧ fifo.contents = q.1

def StepFits (s : Session) (op : Op) : Prop := ∀ p, s = some p → Fits p.1 op

instance (fifo : Fifo) (n : Nat) (flags : Flags) : Decidable (WriteFits fifo n flags) := by
  unfold WriteFits WrapsRight
  infer_instance

instance (fifo : Fifo) (n : Nat) (flags : Flags) : Decidable (ReadFits fifo n flags) := by
  unfold ReadFits LastFits
  infer_instance

instance (fifo : Fifo) : (op : Op) → Decidable (Fits fifo op)
  | .write data flags => inferInstanceAs (Decidable (WriteFits fifo data.bytes.length flags))
  | .read n flags => inferInstanceAs (Decidable (ReadFits fifo n flags))
  | .flush => isTrue trivial

instance (s : Session) (op : Op) : Decidable (StepFits s op) :=
  match s with
  | none => isTrue fun p h => absurd h.symm (Option.some_ne_none p)
  | some p => decidable_of_iff (Fits p.1 op) ⟨fun h _ heq => Option.some.inj heq ▸ h, fun h => h p rfl⟩

theorem follows_step {capacity : Nat} {s : Session} {q : List UInt8 × List Reply} {op : Op}
    (h : Follows capacity s q) (hfits : StepFits s op) : Follows capacity (step s op) (Queue.step capacity q op) := by
  obtain ⟨fifo, rfl, hwf, hcap, hcontents⟩ := h
  obtain ⟨f₁, hcall, hwf₁, hcap₁, hcontents₁⟩ := call_refines hwf (hfits _ rfl)
  rw [hcap, hcontents] at hcall hcontents₁
  exact ⟨f₁, by simp only [step, Option.bind_eq_bind, Option.bind_some, hcall, Queue.step],
    hwf₁, hcap₁.trans hcap, hcontents₁⟩

theorem follows_run {capacity : Nat} {s : Session} {q : List UInt8 × List Reply} {ops : List Op}
    (h : Follows capacity s q) (hfits : AllSteps step StepFits s ops) :
    Follows capacity (run step s ops) (run (Queue.step capacity) q ops) := by
  induction ops generalizing s q with
  | nil => exact h
  | cons op ops ih => exact ih (follows_step h hfits.1) hfits.2

theorem follows_opened (b : Bytes) : Follows b.bytes.length (opened b) ([], []) :=
  ⟨fifoInit b, rfl, ⟨rfl, b.le_max, Nat.zero_le _, Or.inr rfl⟩, rfl, List.take_zero⟩

/-- **The fifo is a bounded queue of bytes.** In a run whose calls all meet the condition, every
call returns and delivers what the list does, and the fifo holds the bytes of the list. -/
theorem fifo_refines (b : Bytes) (ops : List Op) (hfits : AllSteps step StepFits (opened b) ops) :
    (run step (opened b) ops).map view = some (run (Queue.step b.bytes.length) ([], []) ops) := by
  obtain ⟨fifo, hrun, -, -, hcontents⟩ := follows_run (follows_opened b) hfits
  rw [hrun, Option.map_some, view, hcontents]

/-! ## A ring that is read across its end -/

/-- Three bytes in a ring of four, of which two are read: what is left begins at the third place. -/
def fourBytes : Bytes := ⟨[0, 0, 0, 0], by decide⟩
def threeBytes : Bytes := ⟨[1, 2, 3], by decide⟩
def twoBytes : Bytes := ⟨[4, 5], by decide⟩

def straddling : List Op := [.write threeBytes 0, .read 2 0, .write twoBytes 0]

/-- The two bytes at the end of the ring and at its front are not read by `FIFO_LAST`: the copy of the first
part is as long as from the start of the ring, and leaves the buffer. -/
theorem fifo_last_straddles :
    run step (opened fourBytes) (straddling ++ [.read 2 (fifoLast ||| fifoPeek)]) = none ∧
    run (Queue.step 4) ([], []) (straddling ++ [.read 2 (fifoLast ||| fifoPeek)]) =
      ([3, 4, 5], [⟨0, []⟩, ⟨0, [1, 2]⟩, ⟨0, []⟩, ⟨0, [4, 5]⟩]) := by
  decide +kernel

/-- The same ring read from its front, read as a whole from its end, and overwritten. -/
theorem fifo_refines_straddling :
    (run step (opened fourBytes) (straddling ++ [.read 2 fifoPeek, .read 3 (fifoLast ||| fifoPeek),
      .write threeBytes fifoOverwrite, .read 4 0])).map view =
    some ([], [⟨0, []⟩, ⟨0, [1, 2]⟩, ⟨0, []⟩, ⟨0, [3, 4]⟩, ⟨0, [3, 4, 5]⟩, ⟨0, []⟩, ⟨0, [5, 1, 2, 3]⟩]) := by
  rw [fifo_refines fourBytes _ (by decide +kernel)]
  decide +kernel

end IosLinuxkit.Util
