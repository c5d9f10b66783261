import Mathlib.Data.List.Count
import IosLinuxkit.Lib.Run

/-!
# Passing descriptors over a connected pair

`fs/sock.c`: `sendmsg`, `recvmsg` and `close` on the two ends of a connected `AF_LOCAL` socket. The
descriptors of a message do not go through the host: they wait in a `struct scm` in the queue of the
receiving end, and the message that the host carries has one dummy descriptor in their place. A call
is cut where it lets go of its locks: `sendmsg` queues its set and then sends; `recvmsg` receives and
then takes a set from the queue; `close` cuts the link and then empties the queue.
-/

namespace IosLinuxkit.Sock

/-- `struct scm`: the references that `fd_retain` took for the descriptors of one `sendmsg`. -/
structure Scm where
  id : Nat
  refs : List Nat
  deriving DecidableEq, Repr

/-- A message in the host socket, with or without the dummy descriptor. -/
structure HostMsg where
  id : Nat
  dummy : Bool
  deriving DecidableEq, Repr

/-- `sock_close` in two stages. -/
inductive Phase where
  | opened
  | closing
  | closed
  deriving DecidableEq, Repr

/-- One end: whether `unix_peer` is set, its `unix_scm`, the messages that the host has for it, the
sets of the `sendmsg` calls on it that have queued and not sent yet, and the messages of the `recvmsg`
calls on it that have received a dummy and not taken a set yet. -/
structure EndState where
  phase : Phase
  peer : Bool
  scm : List Scm
  host : List HostMsg
  sending : List Scm
  receiving : List Nat
  deriving DecidableEq, Repr

/-- Both ends. `given` lists which message a set was taken for, with the set's own; `failed` the
`sendmsg` calls that failed; `installed` and `released` the references disposed of. -/
structure SocketPair where
  ends : Bool → EndState
  nextId : Nat
  nextRef : Nat
  given : List (Nat × Nat)
  failed : List Nat
  installed : List Nat
  released : List Nat

def EndState.init : EndState := ⟨.opened, true, [], [], [], []⟩

/-- `socketpair`, or `connect` and `accept`. -/
def SocketPair.init : SocketPair := ⟨fun _ => .init, 0, 0, [], [], [], []⟩

namespace SocketPair

def set (st : SocketPair) (e : Bool) (x y : EndState) : SocketPair :=
  { st with ends := fun b => if b = e then x else y }

/-- `scm_free` by a `sendmsg` that fails. -/
def fail (st : SocketPair) (s : Scm) : SocketPair :=
  { st with failed := s.id :: st.failed, released := s.refs ++ st.released }

/-- What the host keeps of a message that was received: all of it after a peek, the rest of the data
after a short read. -/
def remains (m : HostMsg) (peek whole : Bool) : List HostMsg :=
  if peek then [m] else if whole then [] else [{ m with dummy := false }]

/-- `sock_close` frees the queue, and the host socket goes. -/
def closeQueue (st : SocketPair) (e : Bool) : SocketPair :=
  let x := st.ends e
  if x.phase = .closing then
    { st with released := x.scm.flatMap Scm.refs ++ st.released }.set e
      { x with phase := .closed, scm := [], host := [] } (st.ends !e)
  else st

end SocketPair

/-! ## Runs -/

def dummies (l : List HostMsg) : List Nat := (l.filter HostMsg.dummy).map HostMsg.id

def SocketPair.queued (st : SocketPair) : List Scm := (st.ends true).scm ++ (st.ends false).scm

/-- A set is taken for its own message, and never if its `sendmsg` failed; a set that waits has its
message still under way; and of every reference that was taken there is one left: it waits, or was
installed, or was released. -/
structure Passed (st : SocketPair) : Prop where
  own : ∀ g ∈ st.given, g.1 = g.2
  sent : ∀ g ∈ st.given, g.2 ∉ st.failed
  waits : ∀ e, ∀ s ∈ (st.ends e).scm, s ∈ (st.ends !e).sending ∨ s.id ∈ dummies (st.ends e).host ∨
    s.id ∈ (st.ends e).receiving
  once : ∀ r, (st.queued.flatMap Scm.refs).count r + st.installed.count r + st.released.count r =
    if r < st.nextRef then 1 else 0

end IosLinuxkit.Sock
