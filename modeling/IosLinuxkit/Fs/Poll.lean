import IosLinuxkit.Lib.Run

/-!
# Polls

`fs/poll.c`: the registrations of one `struct poll`, in the order of its list. What runs under the lock of
the poll is one step; `poll_wait` lets go of it where it waits for the host, so a scan is a step, and so
are the events that the host returns.

`stored` and `delivered` are no fields of the source: whether an event was stored since the registration
was armed, and the types that were stored and that no edge has cleared since.
-/

namespace IosLinuxkit.Fs.Poll

abbrev Types := BitVec 32

def pollErr : Types := 8#32
def pollHup : Types := 16#32
def pollOneshot : Types := 0x40000000#32
def pollEdgetriggered : Types := 0x80000000#32

/-- `struct poll_fd`; `key` is its address. -/
structure PollFd where
  key : Nat
  fd : Nat
  fdNo : Int
  types : Types
  info : BitVec 64
  triggeredTypes : Types
  oneshotFired : Bool
  stored : Bool
  delivered : Types

namespace PollFd

def isOneshot (r : PollFd) : Bool := r.types &&& pollOneshot != 0#32
def isEdge (r : PollFd) : Bool := r.types &&& pollEdgetriggered != 0#32

/-- What the scan has for the callback, if `ready` is what `fd->ops->poll` returns. -/
def offered (r : PollFd) (ready : Types) : Types :=
  if r.oneshotFired then 0#32
  else
    let types := ready &&& (r.types ||| pollHup ||| pollErr)
    if r.isEdge then types &&& ~~~r.triggeredTypes else types

def mark (r : PollFd) (types : Types) (stored : Bool) : PollFd :=
  { r with
    oneshotFired := r.oneshotFired || r.isOneshot
    triggeredTypes := if r.isEdge then r.triggeredTypes ||| types else r.triggeredTypes
    stored := r.stored || stored
    delivered := if stored then r.delivered ||| types else r.delivered }

/-- `events` have been triggered again. -/
def clear (r : PollFd) (events : Types) : PollFd :=
  if r.isEdge then
    { r with
      triggeredTypes := r.triggeredTypes &&& ~~~events
      delivered := r.delivered &&& ~~~events }
  else r

end PollFd

/-! ## The scan -/

/-- A registration before and after a scan, and the types of the event that the callback stored for it. -/
structure Scanned where
  before : PollFd
  after : PollFd
  stored : Types

section Scan

variable {κ : Type} (callback : κ → Types → BitVec 64 → Int × κ) (ready : Nat → Types)

/-- The loop over `poll_fds` in `poll_wait`. `res` counts the callbacks that returned 1. -/
def scan : κ → List PollFd → Int × κ × List Scanned
  | context, [] => (0, context, [])
  | context, r :: fds =>
    let types := r.offered (ready r.key)
    if types = 0#32 then
      let (res, context, scanned) := scan context fds
      (res, context, ⟨r, r, 0#32⟩ :: scanned)
    else
      let (answer, context) := callback context types r.info
      let stored := decide (answer = 1)
      let (res, context, scanned) := scan context fds
      (res + (if stored then 1 else 0), context,
        ⟨r, r.mark types stored, if stored then types else 0#32⟩ :: scanned)

/-- The callback stores what it gets of the registrations that can be marked. -/
def Stores : κ → List PollFd → Prop
  | _, [] => True
  | context, r :: fds =>
    let types := r.offered (ready r.key)
    if types = 0#32 then Stores context fds
    else
      ((r.isOneshot ∨ r.isEdge) → (callback context types r.info).1 = 1) ∧
        Stores (callback context types r.info).2 fds

end Scan

/-- Every bit of `a` is in `b`. -/
def Within (a b : Types) : Prop := a &&& ~~~b = 0#32

def Exact (scanned : List Scanned) : Prop :=
  ∀ x ∈ scanned, (x.after.oneshotFired = true → x.before.oneshotFired = true ∨ x.stored ≠ 0#32) ∧
    Within (x.after.triggeredTypes &&& ~~~x.before.triggeredTypes) x.stored

/-! ## Steps -/

/-- What is done to a poll. `ok` says whether the host took the registration. -/
inductive PollOp (κ : Type) where
  | addFd (key fd : Nat) (fdNo : Int) (types : Types) (info : BitVec 64) (ok : Bool)
  | modFd (fd : Nat) (fdNo : Int) (types : Types) (info : BitVec 64)
  | delFd (fd : Nat) (fdNo : Int)
  | cleanupFd (fd : Nat)
  | wakeup (fd : Nat) (events : Types)
  | hostEvents (events : List (Nat × Types))
  | scan (callback : κ → Types → BitVec 64 → Int × κ) (context : κ) (ready : Nat → Types)

/-- `poll_add_fd`, in memory that no registration has. -/
def pollAddFd (fds : List PollFd) (key fd : Nat) (fdNo : Int) (types : Types) (info : BitVec 64)
    (ok : Bool) : List PollFd :=
  if ok ∧ key ∉ fds.map PollFd.key then ⟨key, fd, fdNo, types, info, 0#32, false, false, 0#32⟩ :: fds
  else fds

/-- `poll_find_fd`, and what is done to the registration that it finds. -/
def modifyFound (f : PollFd → PollFd) (fd : Nat) (fdNo : Int) : List PollFd → List PollFd
  | [] => []
  | r :: fds => if r.fd = fd ∧ r.fdNo = fdNo then f r :: fds else r :: modifyFound f fd fdNo fds

def pollModFd (fds : List PollFd) (fd : Nat) (fdNo : Int) (types : Types) (info : BitVec 64) : List PollFd :=
  modifyFound (fun r => { r with
    types := types
    info := info
    triggeredTypes := r.triggeredTypes &&& types
    oneshotFired := false
    stored := false }) fd fdNo fds

def pollDelFd (fds : List PollFd) (fd : Nat) (fdNo : Int) : List PollFd :=
  fds.eraseP fun r => decide (r.fd = fd ∧ r.fdNo = fdNo)

def pollWakeup (fds : List PollFd) (fd : Nat) (events : Types) : List PollFd :=
  fds.map fun r => if r.fd = fd ∧ r.oneshotFired = false then r.clear events else r

/-- What `poll_wait` does with the events of the host. -/
def hostEvents (fds : List PollFd) : List (Nat × Types) → List PollFd
  | [] => fds
  | (key, events) :: rest =>
    hostEvents (fds.map fun r => if r.key = key then r.clear events else r) rest

def pollStep {κ : Type} (fds : List PollFd) : PollOp κ → List PollFd
  | .addFd key fd fdNo types info ok => pollAddFd fds key fd fdNo types info ok
  | .modFd fd fdNo types info => pollModFd fds fd fdNo types info
  | .delFd fd fdNo => pollDelFd fds fd fdNo
  | .cleanupFd fd => fds.filter fun r => decide (r.fd ≠ fd)
  | .wakeup fd events => pollWakeup fds fd events
  | .hostEvents events => hostEvents fds events
  | .scan callback context ready => (scan callback ready context fds).2.2.map Scanned.after

/-- No event of an armed registration is lost: the next scan has for the callback whatever is ready and was
not stored. -/
def NothingLost (fds : List PollFd) : Prop :=
  ∀ r ∈ fds, ∀ ready, (r.isOneshot = true → r.stored = false) →
    Within (ready &&& (r.types ||| pollHup ||| pollErr) &&& ~~~r.delivered) (r.offered ready)

def HasRoom {κ : Type} (fds : List PollFd) : PollOp κ → Prop
  | .scan callback context ready => Stores callback ready context fds
  | _ => True

/-! ## `epoll_wait` -/

structure EpollContext where
  events : List (Types × BitVec 64)
  maxEvents : Nat

def epollCallback (c : EpollContext) (types : Types) (info : BitVec 64) : Int × EpollContext :=
  if c.maxEvents ≤ c.events.length then (0, c)
  else (1, { c with events := c.events ++ [(types, info)] })

end IosLinuxkit.Fs.Poll
