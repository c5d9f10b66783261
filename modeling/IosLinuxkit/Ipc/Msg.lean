import IosLinuxkit.Lib.Copy
import IosLinuxkit.Lib.Run
import IosLinuxkit.Lib.ScanMin
import Mathlib.Data.List.Perm.Basic
import Mathlib.Algebra.Order.Ring.Int

/-!
# System V message queues

`kernel/ipc.c`: `msgsnd`, `msgrcv` and the `IPC_RMID` of `msgctl` on one queue. A receiver that finds no
message for it releases `shm_lock` while it waits, and scans the queue again when it is woken.

* **`recvRound_iff`** — when a round answers as it should.
* **`msgs_iff`** — and when all rounds of a run do, in which then no message is lost or received twice.

## Modelling

* What comes from outside is part of the step: the reads and writes of guest memory, the success of
  `malloc`, and what `wait_for` returns.
* The queue is there from its `msgget` to its `IPC_RMID`.
* `stamp` is the place of a message in the order of arrival, and `sent`, `received` and `discarded` are the
  messages stored, delivered and freed by `IPC_RMID` so far; the code has none of these.
-/

namespace IosLinuxkit.Ipc.Msgq

def e2BIG : Int := -7
def eNOMEM : Int := -12
def eFAULT : Int := -14
def eINVAL : Int := -22
def eNODATA : Int := -61

def int64Max : Int := 9223372036854775807
def int64Min : Int := -9223372036854775808

def IPC_NOWAIT : BitVec 32 := 2048
def MSG_NOERROR : BitVec 32 := 4096
def MSG_EXCEPT : BitVec 32 := 8192

/-- `flags & bit` as a condition. -/
def hasFlag (flags bit : BitVec 32) : Bool := flags &&& bit ≠ 0

/-- `struct msg_message`; `msgsnd` has refused types that are not positive. -/
structure Msg where
  type : BitVec 64
  type_pos : 0 < type.toInt
  data : List UInt8
  stamp : Nat
  deriving DecidableEq, Repr

/-- The arguments of `msgrcv`. -/
structure Call where
  msgsz : Nat
  msgtyp : BitVec 64
  msgflg : BitVec 32
  deriving DecidableEq, Repr

/-! ## One round -/

def msgMatches (type want : BitVec 64) (flags : BitVec 32) : Bool :=
  if want = 0 then true
  else if 0 < want.toInt then
    if hasFlag flags MSG_EXCEPT then type ≠ want else type = want
  else type.toInt ≤ (-want).toInt

/-- The scan of `msgrcv`, with `best_link` as an index. -/
def bestLink (call : Call) (messages : List Msg) : Option Nat :=
  let matched (m : Msg) : Bool := msgMatches m.type call.msgtyp call.msgflg
  if call.msgtyp.toInt < 0 then scanMin matched (fun m => m.type.toInt) 0 none int64Max messages
  else scanFirst matched 0 messages

/-- Whether the two writes of `msgrcv` to guest memory succeed. -/
structure Writes where
  type : Bool
  data : Bool
  deriving DecidableEq

/-- What `user_write` comes to, with no write of no bytes. -/
def Writes.good (writes : Writes) (copy : Nat) : Bool := writes.type && (copy = 0 || writes.data)

/-- How a round ends: the call sleeps, returns an error, or returns `copy` bytes of a message. -/
inductive Out
  | sleeps
  | fails (err : Int)
  | delivers (msg : Msg) (copy : Nat)
  deriving DecidableEq

/-- A round of the loop of `msgrcv`, and the messages it leaves. The message is unlinked before it is
written to guest memory. -/
def recvRound (call : Call) (writes : Writes) (messages : List Msg) : List Msg × Out :=
  match bestLink call messages with
  | none => (messages, if hasFlag call.msgflg IPC_NOWAIT then .fails eNODATA else .sleeps)
  | some i =>
    match messages[i]? with
    | none => (messages, .sleeps)  -- no such index
    | some msg =>
      if msg.data.length > call.msgsz ∧ ¬hasFlag call.msgflg MSG_NOERROR then (messages, .fails e2BIG)
      else
        let copy := if msg.data.length < call.msgsz then msg.data.length else call.msgsz
        (messages.eraseIdx i, if writes.good copy then .delivers msg copy else .fails eFAULT)

/-! ## Calls -/

/-- What a call returns, and the type and the bytes it writes to guest memory. -/
structure Reply where
  res : Int
  got : Option (BitVec 64 × List UInt8)
  deriving DecidableEq

def Out.reply : Out → Option Reply
  | sleeps => none
  | fails err => some ⟨err, none⟩
  | delivers msg copy => some ⟨copy, some (msg.type, msg.data.take copy)⟩

def Out.msg : Out → Option Msg
  | delivers msg _ => some msg
  | _ => none

/-- Where a task is: in no call, or asleep in `msgrcv`. -/
inductive Phase
  | idle
  | receiving (call : Call)
  deriving DecidableEq

structure State where
  /-- The messages of the queue, while there is one. -/
  queue : Option (List Msg)
  phase : Nat → Phase
  sent : List Msg
  received : List Msg
  discarded : List Msg

namespace State

def setPhase (st : State) (t : Nat) (phase : Phase) : State :=
  { st with phase := Function.update st.phase t phase }

def stored (st : State) : List Msg := st.queue.getD []

end State

/-- Whether the reads of guest memory and the allocations of `msgsnd` succeed. -/
structure Sends where
  type : Bool
  memory : Bool
  data : Bool

def msgsnd (st : State) (type : BitVec 64) (buf : Bytes) (sends : Sends) : State × Int :=
  if ¬sends.type then (st, eFAULT)
  else if hpos : 0 < type.toInt then
    if ¬sends.memory then (st, eNOMEM)
    else if buf.bytes ≠ [] ∧ ¬sends.data then (st, eFAULT)
    else
      match st.queue with
      | none => (st, eINVAL)
      | some messages =>
        let msg : Msg := ⟨type, hpos, buf.bytes, st.sent.length⟩
        ({ st with queue := some (messages ++ [msg]), sent := st.sent ++ [msg] }, 0)
  else (st, eINVAL)

/-- `msgctl` with `IPC_RMID`. -/
def msgctlRmid (st : State) : State × Int :=
  match st.queue with
  | none => (st, eINVAL)
  | some messages => ({ st with queue := none, discarded := st.discarded ++ messages }, 0)

/-- A round of `msgrcv` by a task. -/
def recvIn (st : State) (t : Nat) (call : Call) (writes : Writes) : State × Option Reply :=
  match st.queue with
  | none => (st.setPhase t .idle, some ⟨eINVAL, none⟩)
  | some messages =>
    let (left, out) := recvRound call writes messages
    ({ st.setPhase t (if out = .sleeps then .receiving call else .idle) with
        queue := some left
        received := st.received ++ out.msg.toList }, out.reply)

inductive Op
  | msgsnd (t : Nat) (type : BitVec 64) (buf : Bytes) (sends : Sends)
  | msgrcv (t : Nat) (call : Call) (writes : Writes)
  /-- `wait_for` returns to a task. -/
  | wake (t : Nat) (err : Int) (writes : Writes)
  | rmid (t : Nat)

/-- A step, and the reply of the call that returns in it. -/
def exec (st : State) : Op → State × Option Reply
  | .msgsnd t type buf sends =>
    match st.phase t with
    | .idle => let (st', res) := msgsnd st type buf sends; (st', some ⟨res, none⟩)
    | .receiving _ => (st, none)
  | .msgrcv t call writes =>
    match st.phase t with
    | .idle => recvIn st t call writes
    | .receiving _ => (st, none)
  | .wake t err writes =>
    match st.phase t with
    | .idle => (st, none)
    | .receiving call =>
      if err < 0 then (st.setPhase t .idle, some ⟨err, none⟩) else recvIn st t call writes
  | .rmid t =>
    match st.phase t with
    | .idle => let (st', res) := msgctlRmid st; (st', some ⟨res, none⟩)
    | .receiving _ => (st, none)

def step (st : State) (op : Op) : State := (exec st op).1

/-- A queue that `msgget` has made. -/
def fresh : State where
  queue := some []
  phase := fun _ => .idle
  sent := []
  received := []
  discarded := []

/-! ## What a receiver is to have -/

def Wanted (call : Call) (type : Int) : Prop :=
  if call.msgtyp.toInt = 0 then True
  else if 0 < call.msgtyp.toInt then
    if hasFlag call.msgflg MSG_EXCEPT then type ≠ call.msgtyp.toInt else type = call.msgtyp.toInt
  else type ≤ call.msgtyp.toInt.natAbs

/-- The first message wanted, or with a negative `msgtyp` the first of the lowest type wanted. -/
structure Selected (call : Call) (messages pre : List Msg) (m : Msg) (post : List Msg) : Prop where
  split : messages = pre ++ m :: post
  wanted : Wanted call m.type.toInt
  pre : ∀ x ∈ pre, Wanted call x.type.toInt → call.msgtyp.toInt < 0 ∧ m.type.toInt < x.type.toInt
  post : ∀ x ∈ post, Wanted call x.type.toInt → call.msgtyp.toInt < 0 → m.type.toInt ≤ x.type.toInt

/-- A message the buffer has room for, or that may be cut. -/
def Fits (call : Call) (m : Msg) : Prop := m.data.length ≤ call.msgsz ∨ hasFlag call.msgflg MSG_NOERROR = true

/-- The messages a round is to leave, and how it is to end. -/
inductive Answered (call : Call) (writes : Writes) (messages : List Msg) : List Msg → Out → Prop
  | none (hnone : ∀ m ∈ messages, ¬Wanted call m.type.toInt) :
      Answered call writes messages messages
        (if hasFlag call.msgflg IPC_NOWAIT then .fails eNODATA else .sleeps)
  | tooBig {pre post : List Msg} {m : Msg} (hsel : Selected call messages pre m post) (hbig : ¬Fits call m) :
      Answered call writes messages messages (.fails e2BIG)
  | fault {pre post : List Msg} {m : Msg} (hsel : Selected call messages pre m post) (hfits : Fits call m)
      (hbad : writes.good (min m.data.length call.msgsz) = false) :
      Answered call writes messages messages (.fails eFAULT)
  | done {pre post : List Msg} {m : Msg} (hsel : Selected call messages pre m post) (hfits : Fits call m)
      (hgood : writes.good (min m.data.length call.msgsz) = true) :
      Answered call writes messages (pre ++ post) (.delivers m (min m.data.length call.msgsz))

/-- The round of `msgrcv` that a step makes. -/
def rounds (st : State) : Op → Option (Call × Writes)
  | .msgrcv t call writes =>
    match st.phase t with
    | .idle => some (call, writes)
    | .receiving _ => none
  | .wake t err writes =>
    match st.phase t with
    | .idle => none
    | .receiving call => if err < 0 then none else some (call, writes)
  | _ => none

/-- Other steps store a message behind the others, or free them all, or leave the queue alone. -/
inductive Other (st st' : State) : Prop
  | same (queue : st'.queue = st.queue) (sent : st'.sent = st.sent) (received : st'.received = st.received)
      (discarded : st'.discarded = st.discarded)
  | stored (messages : List Msg) (msg : Msg) (stamp : msg.stamp = st.sent.length) (queue : st.queue = some messages)
      (queue' : st'.queue = some (messages ++ [msg])) (sent : st'.sent = st.sent ++ [msg])
      (received : st'.received = st.received) (discarded : st'.discarded = st.discarded)
  | removed (messages : List Msg) (queue : st.queue = some messages) (queue' : st'.queue = none)
      (sent : st'.sent = st.sent) (received : st'.received = st.received)
      (discarded : st'.discarded = st.discarded ++ messages)

/-- The messages sent are those received, those stored and those freed with the queue, each once. -/
structure Conserved (st : State) : Prop where
  perm : (st.received ++ st.stored ++ st.discarded).Perm st.sent
  stamps : st.sent.map Msg.stamp = List.range st.sent.length

/-- A step in which a round ends as it should, and that neither loses a message nor has one twice. -/
structure Precise (st : State) (op : Op) : Prop where
  round : ∀ call writes messages, rounds st op = some (call, writes) → st.queue = some messages →
    ∃ left out, Answered call writes messages left out ∧ (exec st op).1.queue = some left ∧
      (exec st op).1.received = st.received ++ out.msg.toList ∧ (exec st op).2 = out.reply
  gone : ∀ call writes, rounds st op = some (call, writes) → st.queue = none →
    (exec st op).2 = some ⟨eINVAL, none⟩ ∧ Other st (exec st op).1
  other : rounds st op = none → Other st (exec st op).1 ∧ ∀ r, (exec st op).2 = some r → r.got = none
  conserved : Conserved (exec st op).1

/-! ## When it does -/

/-- The lowest type is not asked for by the least of all numbers, nor is the largest type the lowest; and
the message that is taken is written to guest memory. -/
structure Fine (call : Call) (writes : Writes) (messages : List Msg) : Prop where
  min : call.msgtyp.toInt = int64Min → messages = []
  max : call.msgtyp.toInt = -int64Max → messages = [] ∨ ∃ m ∈ messages, m.type.toInt ≠ int64Max
  writes : ∀ pre m post, Selected call messages pre m post → Fits call m →
    writes.good (Nat.min m.data.length call.msgsz) = true

/-- The rounds of `msgrcv` that a step makes are fine. -/
def Allowed (st : State) (op : Op) : Prop :=
  ∀ call writes messages, rounds st op = some (call, writes) → st.queue = some messages → Fine call writes messages

variable {st : State} {call : Call} {writes : Writes} {messages left pre post pre' post' : List Msg} {m m' : Msg}
  {out : Out} {op : Op} {type : Int}

/-! ## The scan -/

theorem msgtyp_le (call : Call) : int64Min ≤ call.msgtyp.toInt ∧ call.msgtyp.toInt ≤ int64Max := by
  have hlo := BitVec.le_toInt call.msgtyp
  have hhi := BitVec.toInt_lt (x := call.msgtyp)
  simp only [int64Min, int64Max]
  omega

theorem type_le (m : Msg) : m.type.toInt ≤ int64Max := by
  have hhi := BitVec.toInt_lt (x := m.type)
  simp only [int64Max]
  omega

theorem msgMatches_iff (hmin : call.msgtyp.toInt ≠ int64Min) (m : Msg) :
    msgMatches m.type call.msgtyp call.msgflg = true ↔ Wanted call m.type.toInt := by
  have hzero : call.msgtyp = 0 ↔ call.msgtyp.toInt = 0 := by rw [← BitVec.toInt_inj]; rfl
  have hne : call.msgtyp ≠ BitVec.intMin 64 := fun heq => hmin (by rw [heq]; decide)
  have hneg : (-call.msgtyp).toInt = -call.msgtyp.toInt := BitVec.toInt_neg_of_ne_intMin hne
  simp only [msgMatches, Wanted, hzero]
  split
  case isTrue => simp
  case isFalse hnonzero =>
    split
    case isTrue hpos =>
      split
      · rw [decide_eq_true_iff, ← BitVec.toInt_inj.ne]
      · rw [decide_eq_true_iff, BitVec.toInt_inj]
    case isFalse hnpos =>
      rw [decide_eq_true_iff, hneg, Int.ofNat_natAbs_of_nonpos (by omega)]

theorem msgMatches_min (hmin : call.msgtyp.toInt = int64Min) (m : Msg) :
    msgMatches m.type call.msgtyp call.msgflg = false := by
  have heq : call.msgtyp = BitVec.intMin 64 := BitVec.eq_of_toInt_eq (by rw [hmin]; decide)
  have hpos := m.type_pos
  have hneg : ¬m.type.toInt ≤ (-BitVec.intMin 64).toInt := by
    rw [show (-BitVec.intMin 64).toInt = int64Min from by decide]
    simp only [int64Min]
    omega
  simp only [msgMatches, heq]
  rw [if_neg (by decide), if_neg (by decide), decide_eq_false_iff_not]
  exact hneg

theorem wanted_min (hle : call.msgtyp.toInt ≤ -int64Max) (m : Msg) : Wanted call m.type.toInt := by
  have hm := type_le m
  simp only [int64Max] at hle hm
  rw [Wanted, if_neg (by omega), if_neg (by omega)]
  omega

/-- **The scan.** It finds nothing where nothing is wanted, or the message to be had; unless the bound it
starts with is itself the lowest type, or `msgtyp` has no absolute value. -/
theorem bestLink_spec (call : Call) (messages : List Msg) :
    ((∀ m ∈ messages, ¬Wanted call m.type.toInt) ∧ bestLink call messages = none) ∨
    (∃ pre m post, Selected call messages pre m post ∧ call.msgtyp.toInt ≠ int64Min ∧
      (call.msgtyp.toInt < 0 → m.type.toInt < int64Max) ∧ bestLink call messages = some pre.length) ∨
    (messages ≠ [] ∧ (call.msgtyp.toInt = int64Min ∨
      (call.msgtyp.toInt = -int64Max ∧ ∀ m ∈ messages, m.type.toInt = int64Max)) ∧ bestLink call messages = none) := by
  have hrange := msgtyp_le call
  by_cases hmin : call.msgtyp.toInt = int64Min
  · -- no message matches
    have hscan : bestLink call messages = none := by
      simp only [bestLink, msgMatches_min hmin]
      rw [if_pos (by rw [hmin]; decide)]
      obtain ⟨-, hnone⟩ | ⟨pre, m, post, hfirst, -⟩ := scanMin_spec (fun _ => false)
        (fun m : Msg => m.type.toInt) 0 none int64Max messages
      · exact hnone
      · exact absurd hfirst.holds Bool.false_ne_true
    cases messages with
    | nil => exact Or.inl ⟨fun m hm => absurd hm List.not_mem_nil, hscan⟩
    | cons m ms => exact Or.inr (Or.inr ⟨List.cons_ne_nil m ms, Or.inl hmin, hscan⟩)
  have hmatch := fun m => msgMatches_iff hmin m
  by_cases hneg : call.msgtyp.toInt < 0
  · have hlink : bestLink call messages = scanMin (fun m : Msg => msgMatches m.type call.msgtyp call.msgflg)
        (fun m => m.type.toInt) 0 none int64Max messages := by
      simp only [bestLink]
      rw [if_pos hneg]
    rw [hlink]
    obtain ⟨hnone, hscan⟩ | ⟨pre, m, post, hfirst, hlt, hscan⟩ := scanMin_spec
      (fun m : Msg => msgMatches m.type call.msgtyp call.msgflg) (fun m => m.type.toInt)
      0 none int64Max messages
    · -- a message that is wanted has the largest type
      by_cases hwanted : ∀ m ∈ messages, ¬Wanted call m.type.toInt
      · exact Or.inl ⟨hwanted, hscan⟩
      obtain ⟨m, hm⟩ := not_forall.mp hwanted
      obtain ⟨hmem, hm⟩ := Classical.not_imp.mp hm
      have hm := not_not.mp hm
      have hmax := hnone m hmem ((hmatch m).mpr hm)
      have hle : call.msgtyp.toInt ≤ -int64Max := by
        rw [Wanted, if_neg (by omega), if_neg (by omega)] at hm
        omega
      have hall : ∀ x ∈ messages, x.type.toInt = int64Max := fun x hx =>
        le_antisymm (type_le x) (hnone x hx ((hmatch x).mpr (wanted_min hle x)))
      refine Or.inr (Or.inr ⟨List.ne_nil_of_mem hmem, Or.inr ⟨?_, hall⟩, hscan⟩)
      simp only [int64Min, int64Max] at hmin hle hrange ⊢
      omega
    refine Or.inr (Or.inl ⟨pre, m, post, ?_, hmin, fun _ => hlt, by rw [hscan, Nat.zero_add]⟩)
    exact ⟨hfirst.split, (hmatch m).mp hfirst.holds, fun x hx hw => ⟨hneg, hfirst.pre x hx ((hmatch x).mpr hw)⟩,
      fun x hx hw _ => hfirst.post x hx ((hmatch x).mpr hw)⟩
  have hlink : bestLink call messages =
      scanFirst (fun m : Msg => msgMatches m.type call.msgtyp call.msgflg) 0 messages := by
    simp only [bestLink]
    rw [if_neg hneg]
  rw [hlink]
  obtain ⟨hnone, hscan⟩ | ⟨pre, m, post, hsplit, hm, hpre, hscan⟩ := scanFirst_spec
    (fun m : Msg => msgMatches m.type call.msgtyp call.msgflg) 0 messages
  · refine Or.inl ⟨fun m hm hw => ?_, hscan⟩
    exact Bool.false_ne_true ((hnone m hm).symm.trans ((hmatch m).mpr hw))
  refine Or.inr (Or.inl ⟨pre, m, post, ?_, hmin, fun h => absurd h hneg, by rw [hscan, Nat.zero_add]⟩)
  refine ⟨hsplit, (hmatch m).mp hm, fun x hx hw => ?_, fun x hx hw h => absurd h hneg⟩
  exact absurd ((hpre x hx).symm.trans ((hmatch x).mpr hw)) Bool.false_ne_true

/-! ## A round -/

theorem Selected.unique (h : Selected call messages pre m post) (h' : Selected call messages pre' m' post') :
    m = m' := by
  have hsplit := h.split.symm.trans h'.split
  obtain ⟨as, hpre, hpost⟩ | ⟨as, hpre, hpost⟩ := List.append_eq_append_iff.mp hsplit
  · cases as with
    | nil => exact (List.cons.inj hpost).1
    | cons a as =>
      -- `m` is in front of `m'`
      obtain ⟨rfl, hrest⟩ := List.cons.inj hpost
      have hm : m ∈ pre' := by rw [hpre]; exact List.mem_append_right pre List.mem_cons_self
      have hm' : m' ∈ post := by rw [hrest]; exact List.mem_append_right as List.mem_cons_self
      obtain ⟨hneg, hlt⟩ := h'.pre m hm h.wanted
      exact absurd hlt (not_lt.mpr (h.post m' hm' h'.wanted hneg))
  cases as with
  | nil => exact (List.cons.inj hpost).1.symm
  | cons a as =>
    obtain ⟨rfl, hrest⟩ := List.cons.inj hpost
    have hm : m' ∈ pre := by rw [hpre]; exact List.mem_append_right pre' List.mem_cons_self
    have hm' : m ∈ post' := by rw [hrest]; exact List.mem_append_right as List.mem_cons_self
    obtain ⟨hneg, hlt⟩ := h.pre m' hm h'.wanted
    exact absurd hlt (not_lt.mpr (h'.post m hm' h.wanted hneg))

theorem recvRound_none (hlink : bestLink call messages = none) (writes : Writes) :
    recvRound call writes messages =
      (messages, if hasFlag call.msgflg IPC_NOWAIT then .fails eNODATA else .sleeps) := by
  simp only [recvRound, hlink]

theorem fits_iff (call : Call) (m : Msg) :
    (m.data.length > call.msgsz ∧ ¬hasFlag call.msgflg MSG_NOERROR = true) ↔ ¬Fits call m := by
  rw [Fits, not_or, Nat.not_le]

theorem recvRound_tooBig (hsel : Selected call messages pre m post) (hlink : bestLink call messages = some pre.length)
    (hbig : ¬Fits call m) (writes : Writes) : recvRound call writes messages = (messages, .fails e2BIG) := by
  have hget : messages[pre.length]? = some m := by rw [hsel.split]; simp
  simp only [recvRound, hlink, hget]
  exact if_pos ((fits_iff call m).mpr hbig)

theorem recvRound_taken (hsel : Selected call messages pre m post) (hlink : bestLink call messages = some pre.length)
    (hfits : Fits call m) (writes : Writes) : recvRound call writes messages =
      (pre ++ post, if writes.good (min m.data.length call.msgsz) then
        .delivers m (min m.data.length call.msgsz) else .fails eFAULT) := by
  have hget : messages[pre.length]? = some m := by rw [hsel.split]; simp
  have herase : messages.eraseIdx pre.length = pre ++ post := by
    rw [hsel.split, List.eraseIdx_append_of_length_le (Nat.le_refl _)]
    simp
  simp only [recvRound, hlink, hget, herase, ← min_def_lt]
  exact if_neg fun hbig => (fits_iff call m).mp hbig hfits

theorem not_answered (hm : m ∈ messages) (hwanted : Wanted call m.type.toInt) :
    ¬Answered call writes messages messages
      (if hasFlag call.msgflg IPC_NOWAIT then .fails eNODATA else .sleeps) := by
  intro hans
  generalize hout : (if hasFlag call.msgflg IPC_NOWAIT then Out.fails eNODATA else .sleeps) = out at hans
  cases hans with
  | none hnone => exact hnone m hm hwanted
  | tooBig hsel hbig =>
    split at hout
    · exact absurd (Out.fails.inj hout) (by decide)
    · cases hout
  | fault hsel hfits hbad =>
    split at hout
    · exact absurd (Out.fails.inj hout) (by decide)
    · cases hout
  | done hsel hfits hgood =>
    split at hout
    · cases hout
    · cases hout

theorem not_answered_lost (hsplit : messages = pre ++ m :: post) :
    ¬Answered call writes messages (pre ++ post) (.fails eFAULT) := by
  intro hans
  have hlen : (pre ++ post).length < messages.length := by
    rw [hsplit, List.length_append, List.length_append, List.length_cons]
    omega
  generalize hleft : pre ++ post = left at hans hlen
  generalize hout : Out.fails eFAULT = out at hans
  cases hans with
  | none hnone => exact absurd hlen (Nat.lt_irrefl _)
  | tooBig hsel hbig => exact absurd hlen (Nat.lt_irrefl _)
  | fault hsel hfits hbad => exact absurd hlen (Nat.lt_irrefl _)
  | done hsel hfits hgood => cases hout

theorem recvRound_iff (call : Call) (writes : Writes) (messages : List Msg) :
    Answered call writes messages (recvRound call writes messages).1 (recvRound call writes messages).2 ↔
      Fine call writes messages := by
  obtain ⟨hnone, hlink⟩ | ⟨pre, m, post, hsel, hmin, hlow, hlink⟩ | ⟨hne, hwhy, hlink⟩ := bestLink_spec call messages
  · -- nothing is wanted
    rw [recvRound_none hlink]
    refine ⟨fun _ => ⟨fun hmin => ?_, fun hmax => ?_, fun pre m post hsel => ?_⟩, fun _ => .none hnone⟩
    · refine List.eq_nil_iff_forall_not_mem.mpr fun m hm => hnone m hm (wanted_min ?_ m)
      rw [hmin]
      decide
    · refine Or.inl (List.eq_nil_iff_forall_not_mem.mpr fun m hm => hnone m hm (wanted_min ?_ m))
      rw [hmax]
    · have hm : m ∈ messages := by rw [hsel.split]; exact List.mem_append_right pre List.mem_cons_self
      exact absurd hsel.wanted (hnone m hm)
  · have hm : m ∈ messages := by rw [hsel.split]; exact List.mem_append_right pre List.mem_cons_self
    have hmax : call.msgtyp.toInt = -int64Max → messages = [] ∨ ∃ m ∈ messages, m.type.toInt ≠ int64Max :=
      fun hmax => Or.inr ⟨m, hm, (hlow (by rw [hmax]; decide)).ne⟩
    by_cases hfits : Fits call m
    case neg =>
      rw [recvRound_tooBig hsel hlink hfits]
      refine ⟨fun _ => ⟨fun h => absurd h hmin, hmax, fun _ m' _ hsel' hfits' => ?_⟩, fun _ => .tooBig hsel hfits⟩
      exact absurd (hsel.unique hsel' ▸ hfits') hfits
    case pos =>
      rw [recvRound_taken hsel hlink hfits]
      constructor
      · intro hans
        split at hans
        case isTrue hgood =>
          refine ⟨fun h => absurd h hmin, hmax, fun _ m' _ hsel' _ => ?_⟩
          rw [← hsel.unique hsel']
          exact hgood
        case isFalse => exact absurd hans (not_answered_lost hsel.split)
      intro hfine
      have hgood := hfine.writes pre m post hsel hfits
      rw [if_pos hgood]
      exact .done hsel hfits hgood
  · -- something is wanted, and not found
    rw [recvRound_none hlink]
    obtain ⟨m, hm⟩ := List.exists_mem_of_ne_nil messages hne
    have hle : call.msgtyp.toInt ≤ -int64Max := by
      obtain hmin | ⟨hmax, -⟩ := hwhy
      · rw [hmin]; decide
      · exact hmax.le
    refine ⟨fun hans => absurd hans (not_answered hm (wanted_min hle m)), fun hfine => ?_⟩
    obtain hmin | ⟨hmax, hall⟩ := hwhy
    · exact absurd (hfine.min hmin) hne
    obtain hnil | ⟨x, hx, hlow⟩ := hfine.max hmax
    · exact absurd hnil hne
    · exact absurd (hall x hx) hlow

/-! ## Runs -/

theorem Other.conserved {st' : State} (hother : Other st st') (h : Conserved st) : Conserved st' := by
  cases hother with
  | same hqueue hsent hreceived hdiscarded =>
    refine ⟨?_, by rw [hsent]; exact h.stamps⟩
    rw [hreceived, hdiscarded, hsent, State.stored, hqueue]
    exact h.perm
  | stored messages msg hstamp hqueue hqueue' hsent hreceived hdiscarded =>
    constructor
    · have hperm := h.perm
      rw [State.stored, hqueue] at hperm
      rw [hreceived, hdiscarded, hsent, State.stored, hqueue']
      show (st.received ++ (messages ++ [msg]) ++ st.discarded).Perm (st.sent ++ [msg])
      -- the new message goes from behind the stored ones to the end
      have hmove : (st.received ++ (messages ++ [msg]) ++ st.discarded).Perm
          (st.received ++ messages ++ st.discarded ++ [msg]) := by
        simp only [List.append_assoc]
        exact (List.Perm.append_left _ (List.Perm.append_left _ List.perm_append_comm))
      exact hmove.trans (hperm.append_right [msg])
    · rw [hsent, List.map_append, h.stamps, List.length_append, List.map_singleton, hstamp]
      exact List.range_succ.symm
  | removed messages hqueue hqueue' hsent hreceived hdiscarded =>
    refine ⟨?_, by rw [hsent]; exact h.stamps⟩
    have hperm := h.perm
    rw [State.stored, hqueue] at hperm
    rw [hreceived, hdiscarded, hsent, State.stored, hqueue']
    refine List.Perm.trans ?_ hperm
    show (st.received ++ [] ++ (st.discarded ++ messages)).Perm (st.received ++ messages ++ st.discarded)
    simp only [List.append_nil, List.append_assoc]
    exact List.Perm.append_left _ List.perm_append_comm

theorem Answered.perm (hans : Answered call writes messages left out) :
    (out.msg.toList ++ left).Perm messages := by
  cases hans with
  | none hnone =>
    split
    · exact List.Perm.refl _
    · exact List.Perm.refl _
  | tooBig hsel hbig => exact List.Perm.refl _
  | fault hsel hfits hbad => exact List.Perm.refl _
  | @done pre post m hsel hfits hgood =>
    rw [hsel.split]
    show (m :: (pre ++ post)).Perm (pre ++ m :: post)
    exact List.perm_middle.symm

theorem msgsnd_other (st : State) (type : BitVec 64) (buf : Bytes) (sends : Sends) :
    Other st (msgsnd st type buf sends).1 := by
  have hsame : Other st st := .same rfl rfl rfl rfl
  unfold msgsnd
  split
  · exact hsame
  split
  · split
    · exact hsame
    split
    · exact hsame
    split
    case h_1 => exact hsame
    case h_2 messages hqueue => exact .stored messages _ rfl hqueue rfl rfl rfl rfl
  · exact hsame

theorem msgctlRmid_other (st : State) : Other st (msgctlRmid st).1 := by
  unfold msgctlRmid
  split
  case h_1 => exact .same rfl rfl rfl rfl
  case h_2 messages hqueue => exact .removed messages hqueue rfl rfl rfl rfl

theorem exec_other (hrounds : rounds st op = none) :
    Other st (exec st op).1 ∧ ∀ r, (exec st op).2 = some r → r.got = none := by
  have hsame : Other st st := .same rfl rfl rfl rfl
  cases op with
  | msgsnd t type buf sends =>
    simp only [exec]
    split
    · refine ⟨msgsnd_other st type buf sends, fun r hr => ?_⟩
      rw [← Option.some.inj hr]
    · exact ⟨hsame, fun r hr => by cases hr⟩
  | msgrcv t call writes =>
    simp only [rounds] at hrounds
    simp only [exec]
    split at hrounds
    case h_1 => cases hrounds
    case h_2 => exact ⟨hsame, fun r hr => by cases hr⟩
  | wake t err writes =>
    simp only [rounds] at hrounds
    simp only [exec]
    split at hrounds
    case h_1 => exact ⟨hsame, fun r hr => by cases hr⟩
    case h_2 call hphase =>
      split at hrounds
      case isTrue herr =>
        simp only [if_pos herr]
        refine ⟨.same rfl rfl rfl rfl, fun r hr => ?_⟩
        rw [← Option.some.inj hr]
      case isFalse => cases hrounds
  | rmid t =>
    simp only [exec]
    split
    · refine ⟨msgctlRmid_other st, fun r hr => ?_⟩
      rw [← Option.some.inj hr]
    · exact ⟨hsame, fun r hr => by cases hr⟩

theorem exec_round (hrounds : rounds st op = some (call, writes)) :
    ∃ t, exec st op = recvIn st t call writes := by
  cases op with
  | msgsnd t type buf sends => cases hrounds
  | msgrcv t call' writes' =>
    simp only [rounds] at hrounds
    split at hrounds
    case h_1 hphase =>
      cases hrounds
      exact ⟨t, by simp only [exec, hphase]⟩
    case h_2 => cases hrounds
  | wake t err writes' =>
    simp only [rounds] at hrounds
    split at hrounds
    case h_1 => cases hrounds
    case h_2 call' hphase =>
      split at hrounds
      case isTrue => cases hrounds
      case isFalse herr =>
        cases hrounds
        exact ⟨t, by simp only [exec, hphase, if_neg herr]⟩
  | rmid t => cases hrounds

theorem Out.eq_of_reply {out out' : Out} (hreply : out.reply = out'.reply) (hmsg : out.msg.toList = out'.msg.toList) :
    out = out' := by
  cases out with
  | sleeps =>
    cases out' with
    | sleeps => rfl
    | fails err => cases hreply
    | delivers msg copy => cases hreply
  | fails err =>
    cases out' with
    | sleeps => cases hreply
    | fails err' => cases hreply; rfl
    | delivers msg copy => cases hmsg
  | delivers msg copy =>
    cases out' with
    | sleeps => cases hreply
    | fails err => cases hmsg
    | delivers msg' copy' =>
      have hcopy : (copy : Int) = copy' := congrArg Reply.res (Option.some.inj hreply)
      rw [Int.ofNat_inj.mp hcopy, (List.cons.inj hmsg).1]

theorem recvIn_some (hqueue : st.queue = some messages) (t : Nat) (call : Call) (writes : Writes) :
    (recvIn st t call writes).1.queue = some (recvRound call writes messages).1 ∧
    (recvIn st t call writes).1.received = st.received ++ (recvRound call writes messages).2.msg.toList ∧
    (recvIn st t call writes).1.sent = st.sent ∧ (recvIn st t call writes).1.discarded = st.discarded ∧
    (recvIn st t call writes).2 = (recvRound call writes messages).2.reply := by
  simp only [recvIn, hqueue]
  exact ⟨trivial, trivial, rfl, rfl, trivial⟩

/-- **A step is precise** when its round is fine. -/
theorem precise_iff (h : Conserved st) (op : Op) : Precise st op ↔ Allowed st op := by
  cases hrounds : rounds st op with
  | none =>
    have hother := exec_other hrounds
    constructor
    · intro _ call writes messages hround
      rw [hrounds] at hround
      cases hround
    intro _
    refine ⟨fun call writes messages hround => ?_, fun call writes hround => ?_, fun _ => hother,
      hother.1.conserved h⟩
    · rw [hrounds] at hround
      cases hround
    · rw [hrounds] at hround
      cases hround
  | some args =>
    obtain ⟨call, writes⟩ := args
    obtain ⟨t, hexec⟩ := exec_round hrounds
    cases hqueue : st.queue with
    | none =>
      -- the queue was removed while the receiver slept, or before
      have hgone : exec st op = (st.setPhase t .idle, some ⟨eINVAL, none⟩) := by
        rw [hexec]
        simp only [recvIn, hqueue]
      have hother : Other st (exec st op).1 := by rw [hgone]; exact .same rfl rfl rfl rfl
      refine ⟨fun _ call' writes' messages _ hsome => ?_, fun _ => ⟨fun call' writes' messages _ hsome => ?_,
        fun call' writes' _ _ => ⟨by rw [hgone], hother⟩, fun hnone => ?_, hother.conserved h⟩⟩
      · cases hqueue.symm.trans hsome
      · cases hqueue.symm.trans hsome
      · rw [hrounds] at hnone
        cases hnone
    | some messages =>
      obtain ⟨hleft, hreceived, hsent, hdiscarded, hreply⟩ := recvIn_some hqueue t call writes
      rw [← hexec] at hleft hreceived hsent hdiscarded hreply
      have hiff := recvRound_iff call writes messages
      constructor
      · intro hprecise call' writes' messages' hround hqueue'
        cases hrounds.symm.trans hround
        cases hqueue.symm.trans hqueue'
        obtain ⟨left, out, hans, hleft', hreceived', hreply'⟩ := hprecise.round call writes messages hrounds hqueue
        have hout : out = (recvRound call writes messages).2 :=
          Out.eq_of_reply (hreply'.symm.trans hreply) (List.append_cancel_left (hreceived'.symm.trans hreceived))
        rw [hout, Option.some.inj (hleft'.symm.trans hleft)] at hans
        exact hiff.mp hans
      intro hallowed
      have hans := hiff.mpr (hallowed call writes messages hrounds hqueue)
      refine ⟨fun call' writes' messages' hround hqueue' => ?_, fun call' writes' _ hnone => ?_, fun hnone => ?_,
        ?_, by rw [hsent]; exact h.stamps⟩
      · cases hrounds.symm.trans hround
        cases hqueue.symm.trans hqueue'
        exact ⟨_, _, hans, hleft, hreceived, hreply⟩
      · cases hqueue.symm.trans hnone
      · cases hrounds.symm.trans hnone
      have hperm := h.perm
      rw [State.stored, hqueue] at hperm
      rw [State.stored, hleft, hreceived, hsent, hdiscarded]
      refine List.Perm.trans (List.Perm.append_right _ ?_) hperm
      rw [List.append_assoc]
      exact List.Perm.append_left _ hans.perm

theorem inv_step (st : State) (op : Op) (h : Conserved st) (hok : Allowed st op) : Conserved (step st op) :=
  ((precise_iff h op).mpr hok).conserved

end IosLinuxkit.Ipc.Msgq
