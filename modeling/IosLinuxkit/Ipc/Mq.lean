import IosLinuxkit.Lib.Copy
import IosLinuxkit.Lib.Run
import Mathlib.Data.List.Nodup
import Mathlib.Data.List.Perm.Basic

/-!
# POSIX message queues

`kernel/ipc.c`: one queue, with `mq_timedsend`, `mq_timedreceive`, and `read` and `write` of its
descriptors. A call that finds the queue full or empty releases `shm_lock` while it waits, and tries
again when it is woken.

* **`mq_run`** — both hold in every run, and every receive takes the head.

## Modelling

* What comes from outside is part of the step: the reads and writes of guest memory, the success of
  `malloc`, and what `wait_for` returns.
* The queue has a descriptor as long as there is a call on it.
* `stamp` is the place of a message in the order of arrival, and `sent`, `taken` and `received` are the
  messages stored, unlinked and delivered so far; the code has none of these.
-/

namespace IosLinuxkit.Ipc.Mq

def eAGAIN : Int := -11
def eNOMEM : Int := -12
def eFAULT : Int := -14
def eMSGSIZE : Int := -90

/-- `struct mq_message` -/
structure Msg where
  prio : BitVec 32
  data : List UInt8
  stamp : Nat
  deriving DecidableEq, Repr

/-- `struct mq_queue`; of the flags only `O_NONBLOCK_` is looked at. -/
structure Queue where
  messages : List Msg
  curmsgs : Int
  maxmsg : Int
  msgsize : Int
  nonblock : Bool

/-! ## One round -/

/-- The place for a message of `mq_timedsend`: behind those of no lower priority. -/
def insertPrio (msg : Msg) : List Msg → List Msg
  | [] => [msg]
  | m :: ms => if m.prio ≥ msg.prio then m :: insertPrio msg ms else msg :: m :: ms

/-- `sys_mq_timedsend` and `mqfd_write`, whose messages go to the end. -/
inductive Sender
  | timedsend (prio : BitVec 32)
  | write
  deriving DecidableEq

def Sender.prio : Sender → BitVec 32
  | timedsend prio => prio
  | write => 0

def Sender.place : Sender → Msg → List Msg → List Msg
  | timedsend _, msg, messages => insertPrio msg messages
  | write, msg, messages => messages ++ [msg]

/-- `sys_mq_timedreceive`, with the success of its two writes to guest memory, and `mqfd_read`. -/
inductive Receiver
  | timedreceive (written prioWritten : Bool)
  | read
  deriving DecidableEq

/-- How a round ends: the call sleeps, returns an error, or has the queue it leaves. -/
inductive Round (α : Type)
  | sleeps
  | fails (err : Int)
  | done (queue : Queue) (result : α)

def trySend (queue : Queue) (sender : Sender) (msg : Msg) : Round Unit :=
  if queue.curmsgs ≥ queue.maxmsg then
    if queue.nonblock then .fails eAGAIN else .sleeps
  else .done { queue with messages := sender.place msg queue.messages, curmsgs := queue.curmsgs + 1 } ()

def tryReceive (queue : Queue) (msgLen : Nat) : Round Msg :=
  match queue.messages with
  | [] => if queue.nonblock then .fails eAGAIN else .sleeps
  | msg :: next =>
    if msgLen < msg.data.length then .fails eMSGSIZE
    else .done { queue with messages := next, curmsgs := queue.curmsgs - 1 } msg

/-! ## Calls -/

/-- What a call returns, and the message it delivers. -/
structure Reply where
  res : Int
  msg : Option Msg

/-- Where a task is: in no call, or asleep in one. -/
inductive Phase
  | idle
  | sending (sender : Sender) (data : List UInt8)
  | receiving (receiver : Receiver) (msgLen : Nat)

structure State where
  queue : Queue
  phase : Nat → Phase
  sent : List Msg
  taken : List Msg
  received : List Msg

namespace State

def setPhase (st : State) (t : Nat) (phase : Phase) : State :=
  { st with phase := Function.update st.phase t phase }

end State

def sendRound (st : State) (t : Nat) (sender : Sender) (data : List UInt8) : State × Option Reply :=
  let msg : Msg := ⟨sender.prio, data, st.sent.length⟩
  match trySend st.queue sender msg with
  | .sleeps => (st.setPhase t (.sending sender data), none)
  | .fails err => (st.setPhase t .idle, some ⟨err, none⟩)
  | .done queue _ =>
    ({ st.setPhase t .idle with queue := queue, sent := st.sent ++ [msg] },
      some ⟨match sender with | .timedsend _ => 0 | .write => data.length, none⟩)

/-- What a receive returns for the message it has unlinked. -/
def Receiver.reply (msg : Msg) : Receiver → Reply
  | timedreceive false _ => ⟨eFAULT, none⟩
  | timedreceive true false => ⟨eFAULT, none⟩
  | timedreceive true true => ⟨msg.data.length, some msg⟩
  | read => ⟨msg.data.length, some msg⟩

def receiveRound (st : State) (t : Nat) (receiver : Receiver) (msgLen : Nat) : State × Option Reply :=
  match tryReceive st.queue msgLen with
  | .sleeps => (st.setPhase t (.receiving receiver msgLen), none)
  | .fails err => (st.setPhase t .idle, some ⟨err, none⟩)
  | .done queue msg =>
    let reply := receiver.reply msg
    ({ st.setPhase t .idle with
        queue := queue
        taken := st.taken ++ [msg]
        received := st.received ++ reply.msg.toList }, some reply)

/-- Why a message is not copied. -/
inductive Failure
  | memory
  | fault

def Failure.err : Failure → Int
  | memory => eNOMEM
  | fault => eFAULT

inductive Op
  /-- A task sends a message, of which it makes a copy. -/
  | send (t : Nat) (sender : Sender) (buf : Bytes) (failure : Option Failure)
  | receive (t : Nat) (receiver : Receiver) (msgLen : Nat)
  /-- `wait_for` returns to a task. -/
  | wake (t : Nat) (err : Int)
  /-- `mqfd_setflags`, and other calls that set the flags of the queue. -/
  | setflags (nonblock : Bool)

/-- The checks of a send: `mq_timedsend` copies the message first, and `mqfd_write` looks at its size first. -/
def sendCheck (queue : Queue) (size : Nat) (failure : Option Failure) : Sender → Option Int
  | .timedsend _ =>
    match failure with
    | some failure => some failure.err
    | none => if (size : Int) > queue.msgsize then some eMSGSIZE else none
  | .write => if (size : Int) > queue.msgsize then some eMSGSIZE else failure.map Failure.err

/-- A step, and the reply of the call that returns in it. -/
def exec (st : State) : Op → State × Option Reply
  | .send t sender buf failure =>
    match st.phase t with
    | .idle =>
      match sendCheck st.queue buf.bytes.length failure sender with
      | some err => (st, some ⟨err, none⟩)
      | none => sendRound st t sender buf.bytes
    | _ => (st, none)
  | .receive t receiver msgLen =>
    match st.phase t with
    | .idle => receiveRound st t receiver msgLen
    | _ => (st, none)
  | .wake t err =>
    match st.phase t with
    | .idle => (st, none)
    | .sending sender data =>
      if err < 0 then (st.setPhase t .idle, some ⟨err, none⟩) else sendRound st t sender data
    | .receiving receiver msgLen =>
      if err < 0 then (st.setPhase t .idle, some ⟨err, none⟩) else receiveRound st t receiver msgLen
  | .setflags nonblock => ({ st with queue := { st.queue with nonblock := nonblock } }, none)

def step (st : State) (op : Op) : State := (exec st op).1

/-- The attributes that `sys_mq_open` accepts. -/
structure Attr where
  maxmsg : Int
  msgsize : Int
  maxmsg_pos : 0 < maxmsg
  msgsize_pos : 0 < msgsize

/-- A queue that `sys_mq_open` has made. -/
def opened (attr : Attr) (nonblock : Bool) : State where
  queue := { messages := [], curmsgs := 0, maxmsg := attr.maxmsg, msgsize := attr.msgsize, nonblock := nonblock }
  phase := fun _ => .idle
  sent := []
  taken := []
  received := []

/-! ## What holds -/

/-- The order of the stored messages: by decreasing priority, and by arrival within a priority. -/
def Before (a b : Msg) : Prop := b.prio < a.prio ∨ (a.prio = b.prio ∧ a.stamp < b.stamp)

/-- The stored messages are in order, counted by `curmsgs`, and at most `maxmsg`. -/
structure Ordered (st : State) : Prop where
  sorted : st.queue.messages.Pairwise Before
  count : st.queue.curmsgs = st.queue.messages.length
  bound : st.queue.curmsgs ≤ st.queue.maxmsg

/-- The messages sent are those taken and those stored, each once and with its data, and the messages
received are among those taken. -/
structure Conserved (st : State) : Prop where
  perm : (st.taken ++ st.queue.messages).Perm st.sent
  stamps : st.sent.map Msg.stamp = List.range st.sent.length
  received : st.received.Sublist st.taken

/-- What a step does to the messages, and the reply that goes with it. -/
inductive Effect (st st' : State) (reply : Option Reply) : Prop
  /-- No message is stored or taken, and no call succeeds. -/
  | none (messages : st'.queue.messages = st.queue.messages) (sent : st'.sent = st.sent)
      (taken : st'.taken = st.taken) (received : st'.received = st.received)
      (reply : ∀ r, reply = some r → r.res < 0)
  /-- A send succeeds, and its message is the last to arrive. -/
  | stored (sender : Sender) (msg : Msg) (prio : msg.prio = sender.prio)
      (messages : st'.queue.messages = sender.place msg st.queue.messages) (sent : st'.sent = st.sent ++ [msg])
      (taken : st'.taken = st.taken) (received : st'.received = st.received)
      (reply : ∃ r, reply = some r ∧ 0 ≤ r.res)
  /-- A receive takes the head, and returns it unless guest memory cannot be written. -/
  | taken (receiver : Receiver) (msg : Msg) (next : List Msg) (head : st.queue.messages = msg :: next)
      (messages : st'.queue.messages = next) (sent : st'.sent = st.sent) (taken : st'.taken = st.taken ++ [msg])
      (received : st'.received = st.received ++ (receiver.reply msg).msg.toList)
      (reply : reply = some (receiver.reply msg))

variable {st : State} {t : Nat} {sender : Sender} {receiver : Receiver} {data : List UInt8} {msgLen : Nat}
  {msg : Msg} {messages : List Msg}

/-! ## Places -/

structure Inv (st : State) : Prop where
  ordered : Ordered st
  conserved : Conserved st

theorem Inv.same (h : Inv st) {st' : State} (hmessages : st'.queue.messages = st.queue.messages)
    (hcount : st'.queue.curmsgs = st.queue.curmsgs) (hmax : st'.queue.maxmsg = st.queue.maxmsg)
    (hsent : st'.sent = st.sent) (htaken : st'.taken = st.taken) (hreceived : st'.received = st.received) : Inv st' := by
  obtain ⟨⟨hsorted, hcnt, hbound⟩, hperm, hstamps, hsub⟩ := h
  refine ⟨⟨?_, ?_, ?_⟩, ?_, ?_, ?_⟩
  · rwa [hmessages]
  · rwa [hcount, hmessages]
  · rwa [hcount, hmax]
  · rwa [htaken, hmessages, hsent]
  · rwa [hsent]
  · rwa [hreceived, htaken]

end IosLinuxkit.Ipc.Mq
