import IosLinuxkit.Lib.Run

/-!
# The terminal's input buffer

`fs/tty.c`: `tty_input`, `tty_read` and what they share, for both modes of a terminal. Bytes wait in
`buf`; a parallel array of flags marks the ends of canonical lines. Everything runs under `tty->lock`,
which is let go of while a call waits: an input for room in the buffer, a read for bytes.
-/

namespace IosLinuxkit.Fs

def eAGAIN : Int := -11

/-- The fields of `struct termios_` that the input side looks at. -/
structure Termios where
  icanon : Bool
  isig : Bool
  noflsh : Bool
  inlcr : Bool
  igncr : Bool
  icrnl : Bool
  vintr : UInt8
  vquit : UInt8
  verase : UInt8
  vkill : UInt8
  veof : UInt8
  vmin : UInt8
  veol : UInt8
  vsusp : UInt8

/-- `struct tty`. The flags behind the last byte are whatever was left there. `signedChar` tells about
the host's `char`. In `accepted` are the bytes of the line discipline, without those that were erased
or flushed, and in `taken` those that reads have taken. -/
structure Tty where
  signedChar : Bool
  termios : Termios
  fgGroup : Nat
  packetMode : Bool
  packetFlags : UInt8
  buf : List UInt8
  flag : Nat → Bool
  accepted : List UInt8
  taken : List UInt8

def ttyBufSize : Nat := 4096

/-! ## Input -/

/-- `ch == cc[i]` with `ch` a `char`. -/
def Tty.isCc (tty : Tty) (ch c : UInt8) : Bool := ch == c && !(tty.signedChar && decide (128 ≤ ch))

def Tty.flush (tty : Tty) : Tty := { tty with buf := [], accepted := tty.taken }

/-- `tty_push_char`; without room there is nothing. In raw mode no flag is written. -/
def ttyPushChar (tty : Tty) (ch : UInt8) (flag : Option Bool) : Option Tty :=
  if ttyBufSize ≤ tty.buf.length then none
  else
    some { tty with
      buf := tty.buf ++ [ch]
      flag := match flag with
        | none => tty.flag
        | some f => fun i => if i = tty.buf.length then f else tty.flag i
      accepted := tty.accepted ++ [ch] }

/-- `tty_send_input_signal`: whether the character is a signal, which also flushes. -/
def ttySendInputSignal (tty : Tty) (ch : UInt8) : Bool × Tty :=
  let t := tty.termios
  if !t.isig || ch == 0 then (false, tty)
  else if tty.isCc ch t.vintr || tty.isCc ch t.vquit || tty.isCc ch t.vsusp then
    (true, if tty.fgGroup ≠ 0 ∧ !t.noflsh then tty.flush else tty)
  else (false, tty)

def ttyErase (tty : Tty) : Nat → Tty
  | 0 => tty
  | count + 1 =>
    if tty.flag (tty.buf.length - 1) then tty
    else ttyErase { tty with buf := tty.buf.dropLast, accepted := tty.accepted.dropLast } count

/-- What a call of `tty_input` keeps of the modes at its start. -/
structure InputMode where
  canon : Bool
  inlcr : Bool
  igncr : Bool
  icrnl : Bool
  deriving DecidableEq

/-- One character in canonical mode: a character to store, or nothing. -/
def canonChar (m : InputMode) (tty : Tty) (ch : UInt8) : Tty × Option (UInt8 × Option Bool) :=
  let t := tty.termios
  let ch : UInt8 := if m.inlcr && ch == 10 then 13 else if m.icrnl && ch == 13 then 10 else ch
  if m.igncr && ch == 13 then (tty, none)
  else if ch == 0 then (tty, some (ch, some false))
  else if tty.isCc ch t.verase || tty.isCc ch t.vkill then
    let count := if tty.isCc ch t.verase && decide (0 < tty.buf.length) then 1 else tty.buf.length
    (ttyErase tty count, none)
  else if tty.isCc ch t.veof then (tty, some (0, some true))
  else if ch == 10 || tty.isCc ch t.veol then (tty, some (ch, some true))
  else
    match ttySendInputSignal tty ch with
    | (true, tty) => (tty, none)
    | (false, tty) => (tty, some (ch, some false))

def rawChar (tty : Tty) (ch : UInt8) : Tty × Option (UInt8 × Option Bool) :=
  match ttySendInputSignal tty ch with
  | (true, tty) => (tty, none)
  | (false, tty) => (tty, some (ch, none))

def inputChar (m : InputMode) (tty : Tty) (ch : UInt8) : Tty × Option (UInt8 × Option Bool) :=
  if m.canon then canonChar m tty ch else rawChar tty ch

/-- A call of `tty_input` at a full buffer: what it is about to store, and the rest of its input. -/
structure InputCall where
  mode : InputMode
  ch : UInt8
  flag : Option Bool
  rest : List UInt8
  deriving DecidableEq

/-- The loops of `tty_input`, up to the end or to a full buffer. -/
def ttyInputFrom (m : InputMode) (tty : Tty) : List UInt8 → Tty × Option InputCall
  | [] => (tty, none)
  | ch :: rest =>
    match inputChar m tty ch with
    | (tty, none) => ttyInputFrom m tty rest
    | (tty, some (ch, flag)) =>
      match ttyPushChar tty ch flag with
      | some tty => ttyInputFrom m tty rest
      | none => (tty, some ⟨m, ch, flag, rest⟩)

def ttyInput (tty : Tty) (input : List UInt8) : Tty × Option InputCall :=
  let t := tty.termios
  ttyInputFrom ⟨t.icanon, t.inlcr, t.igncr, t.icrnl⟩ tty input

def ttyInputResult (input : List UInt8) (c : InputCall) (err : Int) : Int :=
  if 0 < input.length - (c.rest.length + 1) then (input.length - (c.rest.length + 1) : Nat) else err

def ttyInputResume (tty : Tty) (c : InputCall) : Tty × Option InputCall :=
  match ttyPushChar tty c.ch c.flag with
  | some tty => ttyInputFrom c.mode tty c.rest
  | none => (tty, some c)

/-! ## Reads -/

/-- `tty_read_into_buf`. The flags behind the bytes that are moved down stay. -/
def ttyReadIntoBuf (tty : Tty) (n : Nat) : List UInt8 × Tty :=
  (tty.buf.take n, { tty with
      buf := tty.buf.drop n
      flag := fun i => if i < tty.buf.length - n then tty.flag (i + n) else tty.flag i })

def ttyCanonSize (tty : Tty) : Option Nat :=
  ((List.range tty.buf.length).find? tty.flag).map (· + 1)

/-- A call of `tty_read` once it is past its checks, with the mode that it found. On the master of a
pseudoterminal in packet mode its result begins with a header. -/
structure ReadCall where
  canon : Bool
  vmin : Nat
  header : List UInt8
  size : Nat
  deriving DecidableEq

/-- How many bytes a read takes, if it need not wait. `expired` tells that its wait timed out. -/
def readReady (tty : Tty) (c : ReadCall) (expired : Bool) : Option Nat :=
  if c.canon then
    match ttyCanonSize tty with
    | none => none
    | some size =>
      -- a NUL at the end of a line is an end of file
      let size := if tty.buf[size - 1]? = some 0 then size - 1 else size
      some (min (min c.size size) tty.buf.length)
  else if tty.buf.length < c.vmin ∧ !expired then none
  else some (min c.size tty.buf.length)

def Tty.atEof (tty : Tty) : Bool := decide (tty.buf.head? = some 0) && tty.flag 0

/-- The rest of `tty_read`: the bytes, and an end of file behind them. The record of a raw read has the
bytes that it returns, that of a canonical one everything that it takes away. -/
def finishRead (tty : Tty) (c : ReadCall) (n : Nat) : List UInt8 × Tty :=
  let (data, tty') := ttyReadIntoBuf tty n
  let tty'' := if tty'.atEof then (ttyReadIntoBuf tty' 1).2 else tty'
  let gone := if c.canon then tty.buf.take (tty.buf.length - tty''.buf.length) else data
  (data, { tty'' with taken := tty''.taken ++ gone })

/-- What a read does: it returns its header and its bytes, it fails, or it waits. -/
inductive ReadOutcome where
  | done (header data : List UInt8)
  | error (err : Int)
  | waits (c : ReadCall)
  deriving DecidableEq

def Tty.readCall (tty : Tty) (size : Nat) : ReadCall :=
  let header := if tty.packetMode then [tty.packetFlags] else []
  ⟨tty.termios.icanon, tty.termios.vmin.toNat, header, size - header.length⟩

/-- `tty_read`; `err` is what the checks at its start have to say. -/
def ttyRead (tty : Tty) (size : Nat) (err : Int) (nonblock : Bool) : ReadOutcome × Tty :=
  if size = 0 then (.done [] [], tty)
  else if err < 0 then (.error err, tty)
  else
    let c := tty.readCall size
    if tty.packetMode ∧ (tty.packetFlags ≠ 0 ∨ size = 1) then (.done c.header [], tty)
    else
      match readReady tty c false with
      | none => (if nonblock then .error eAGAIN else .waits c, tty)
      | some n =>
        let (data, tty') := finishRead tty c n
        (.done c.header data, tty')

def ttyReadResume (tty : Tty) (c : ReadCall) (expired : Bool) : ReadOutcome × Tty :=
  match readReady tty c expired with
  | none => (.waits c, tty)
  | some n =>
    let (data, tty') := finishRead tty c n
    (.done c.header data, tty')

/-! ## Runs -/

/-- The terminal and the calls that wait. -/
structure Session where
  tty : Tty
  inputs : List InputCall
  reads : List ReadCall

inductive TtyOp where
  | input (input : List UInt8) (blocking : Bool)
  | consumed (c : InputCall)
  | dropInput (c : InputCall)
  | read (size : Nat) (err : Int) (nonblock : Bool)
  | produced (c : ReadCall) (expired : Bool)
  | dropRead (c : ReadCall)
  | setTermios (t : Termios) (flush : Bool)
  | flush
  | setFgGroup (group : Nat)
  | setPacket (mode : Bool) (flags : UInt8)

def ttyStep (st : Session) : TtyOp → Session
  | .input input blocking =>
    match ttyInput st.tty input with
    | (tty, none) => { st with tty := tty }
    | (tty, some c) => { st with tty := tty, inputs := if blocking then c :: st.inputs else st.inputs }
  | .consumed c =>
    if c ∈ st.inputs then
      match ttyInputResume st.tty c with
      | (tty, none) => { st with tty := tty, inputs := st.inputs.erase c }
      | (tty, some c') => { st with tty := tty, inputs := c' :: st.inputs.erase c }
    else st
  | .dropInput c => { st with inputs := st.inputs.erase c }
  | .read size err nonblock =>
    match ttyRead st.tty size err nonblock with
    | (.waits c, tty) => { st with tty := tty, reads := c :: st.reads }
    | (_, tty) => { st with tty := tty }
  | .produced c expired =>
    if c ∈ st.reads then
      match ttyReadResume st.tty c expired with
      | (.waits _, tty) => { st with tty := tty }
      | (_, tty) => { st with tty := tty, reads := st.reads.erase c }
    else st
  | .dropRead c => { st with reads := st.reads.erase c }
  | .setTermios t flush =>
    { st with tty := { (if flush then st.tty.flush else st.tty) with termios := t } }
  | .flush => { st with tty := st.tty.flush }
  | .setFgGroup group => { st with tty := { st.tty with fgGroup := group } }
  | .setPacket mode flags =>
    { st with tty := { st.tty with packetMode := mode, packetFlags := flags } }

def Session.init (signedChar : Bool) (t : Termios) : Session :=
  ⟨⟨signedChar, t, 0, false, 0, [], fun _ => false, [], []⟩, [], []⟩

/-- What was accepted is what was taken and then what is in the buffer. -/
def Conserved (st : Session) : Prop := st.tty.accepted = st.tty.taken ++ st.tty.buf

/-- Behind the bytes of a raw read there is no NUL with a flag. -/
def ReadCall.Unmarked (c : ReadCall) (tty : Tty) (expired : Bool) : Prop :=
  c.canon = false → ∀ n, readReady tty c expired = some n → tty.buf[n]? = some 0 → tty.flag n = false

def Unmarked (st : Session) : TtyOp → Prop
  | .read size _ _ => (st.tty.readCall size).Unmarked st.tty false
  | .produced c expired => c.Unmarked st.tty expired
  | _ => True

end IosLinuxkit.Fs
