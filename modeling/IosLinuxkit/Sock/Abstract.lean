import Mathlib.Data.List.AList
import IosLinuxkit.Lib.Run

/-!
# Abstract socket names

`fs/sock.c`: the table behind the abstract namespace of `AF_LOCAL` sockets. A name is a byte string
after a leading NUL; the table keeps a hash of it, and an id that names a path of the host. `bind`
makes an entry and binds the host socket to that path; `connect` and the addressed sends look the
entry up and use the path.
-/

namespace IosLinuxkit.Sock

def eBADF : Int := -9
def eINVAL : Int := -22
def eEXIST : Int := -17
def eNOENT : Int := -2
def eNOMEM : Int := -12
def eACCES : Int := -13

/-! ## The table -/

abbrev AbstractName := List UInt8

abbrev sockaddrDataMax : Nat := 108

/-- A `char` as an operand of `^`: it is signed. -/
def charBits (c : UInt8) : UInt32 := if c < 0x80 then c.toUInt32 else c.toUInt32 ||| 0xffffff00

/-- `str_hash`: the loop ends at the first NUL. -/
def strHash (name : AbstractName) : UInt32 :=
  (name.takeWhile (· ≠ 0)).foldl (fun hash c => 33 * hash ^^^ charBits c) 5381

/-- `struct unix_abstract`, with the address of the object. -/
structure UnixAbstract where
  addr : Nat
  refcount : UInt32
  hash : UInt32
  socketId : UInt32
  deriving Repr, DecidableEq

/-- A socket: its `unix_name_abstract`, and the path the host socket is bound to. -/
structure Socket where
  nameAbstract : Option Nat
  hostName : Option UInt32
  deriving Repr, DecidableEq

/-- The buckets of `abstract_hash` are one list: the hash of an entry decides its bucket. `hostPaths`
says which socket of the host was bound to a path last; `sockets` are the open ones. -/
structure Names where
  abstractHash : List UnixAbstract
  nextId : UInt32
  nextAddr : Nat
  sockets : AList (fun _ : Nat => Socket)
  nextSocket : Nat
  hostPaths : AList (fun _ : UInt32 => Nat)

def Names.init : Names := ⟨[], 0, 0, ∅, 0, ∅⟩

/-- The entry that `unix_abstract_get` finds. -/
def Names.find (st : Names) (name : AbstractName) : Option UnixAbstract :=
  st.abstractHash.find? fun e => e.hash = strHash name

/-- `sock->refcount++`. -/
def Names.retain (st : Names) (addr : Nat) : Names :=
  { st with abstractHash := st.abstractHash.map fun e =>
      if e.addr = addr then { e with refcount := e.refcount + 1 } else e }

def Names.newEntry (st : Names) (name : AbstractName) : UnixAbstract :=
  ⟨st.nextAddr, 1, strHash name, st.nextId + 1⟩

/-- `unix_abstract_get`; `bind` says that `bind_fd` is not null, `memory` is the outcome of `malloc`.
The caller sets `unix_name_abstract`. -/
def unixAbstractGet (st : Names) (name : AbstractName) (bind memory : Bool) :
    Except Int UnixAbstract × Names :=
  match st.find name with
  | some sock => if bind then (.error eEXIST, st) else (.ok sock, st.retain sock.addr)
  | none =>
    if bind then
      if memory then
        (.ok (st.newEntry name), { st with
            abstractHash := st.newEntry name :: st.abstractHash
            nextId := st.nextId + 1
            nextAddr := st.nextAddr + 1 })
      else (.error eNOMEM, st)
    else (.error eNOENT, st)

def unixAbstractRelease (st : Names) (addr : Nat) : Names :=
  { st with abstractHash := st.abstractHash.filterMap fun e =>
      if e.addr = addr then
        if e.refcount - 1 = 0 then none else some { e with refcount := e.refcount - 1 }
      else some e }

/-! ## The calls -/

/-- `sockaddr_read_bind` accepts the length. -/
def fitsAddress (name : AbstractName) : Bool := decide (name.length + 1 ≤ sockaddrDataMax)

/-- `bind` of the host: a socket is bound once. -/
def hostBind (st : Names) (s : Nat) (sock : Socket) (entry : UnixAbstract) (host : Bool) :
    Int × Names :=
  -- the path is unlinked first
  let paths := st.hostPaths.erase entry.socketId
  let bound := { sock with nameAbstract := some entry.addr }
  if sock.hostName.isSome ∨ !host then
    (if sock.hostName.isSome then eINVAL else eACCES, unixAbstractRelease
        { st with hostPaths := paths, sockets := st.sockets.insert s { bound with nameAbstract := none } }
        entry.addr)
  else
    (0, { st with
      hostPaths := paths.insert entry.socketId s
      sockets := st.sockets.insert s { bound with hostName := some entry.socketId } })

/-- `sys_bind` with an abstract name; `host` says that nothing else fails on the host. -/
def sysBind (st : Names) (s : Nat) (name : AbstractName) (memory host : Bool) : Int × Names :=
  match st.sockets.lookup s with
  | none => (eBADF, st)
  | some sock =>
    if fitsAddress name then
      match unixAbstractGet st name true memory with
      | (.error e, st) => (e, st)
      | (.ok entry, st) => hostBind st s sock entry host
    else (eINVAL, st)

/-- `sys_connect`, `sys_sendto` and `sys_sendmsg` with an abstract name: the socket that the host
finds behind the path, or a failure. A socket that was closed refuses. -/
def sysAddress (st : Names) (s : Nat) (name : AbstractName) : Option Nat × Names :=
  match st.sockets.lookup s with
  | none => (none, st)
  | some _ =>
    if fitsAddress name then
      match unixAbstractGet st name false true with
      | (.error _, st) => (none, st)
      | (.ok entry, st) =>
        ((st.hostPaths.lookup entry.socketId).filter fun t => (st.sockets.lookup t).isSome, st)
    else (none, st)

/-- `sock_close`, the name of it. -/
def sockClose (st : Names) (s : Nat) : Names :=
  match st.sockets.lookup s with
  | none => st
  | some sock =>
    let st := match sock.nameAbstract with
      | some addr => unixAbstractRelease st addr
      | none => st
    { st with sockets := st.sockets.erase s }

def sysSocket (st : Names) : Names :=
  { st with
    sockets := st.sockets.insert st.nextSocket ⟨none, none⟩
    nextSocket := st.nextSocket + 1 }

/-! ## Runs -/

/-- The calls; `fileId` is a socket in the file system that takes an id. -/
inductive NameOp where
  | socket
  | bind (s : Nat) (name : AbstractName) (memory host : Bool)
  | address (s : Nat) (name : AbstractName)
  | fileId
  | close (s : Nat)

/-- The table together with the names that sockets are bound to, as the results of the calls have
it: `bind` returned 0, and the socket was not closed since. -/
structure History where
  names : Names
  bound : List (Nat × AbstractName)

def History.init : History := ⟨Names.init, []⟩

def nameStep (h : History) : NameOp → History
  | .socket => { h with names := sysSocket h.names }
  | .bind s name memory host =>
    let r := sysBind h.names s name memory host
    ⟨r.2, if r.1 = 0 then (s, name) :: h.bound else h.bound⟩
  | .address s name => { h with names := (sysAddress h.names s name).2 }
  | .fileId => { h with names := { h.names with nextId := h.names.nextId + 1 } }
  | .close s => ⟨sockClose h.names s, h.bound.filter fun b => b.1 ≠ s⟩

/-- What a call ought to do: `bind` finds the name in use when some open socket is bound to it, an
address reaches the socket bound to it, and a name is free once its socket is closed. -/
def Behaves (h : History) : NameOp → Prop
  | .bind s name memory host => (h.names.sockets.lookup s).isSome → fitsAddress name →
    ((sysBind h.names s name memory host).1 = eEXIST ↔ ∃ t, (t, name) ∈ h.bound)
  | .address s name => (h.names.sockets.lookup s).isSome → fitsAddress name →
    ∀ t, (sysAddress h.names s name).1 = some t ↔ (t, name) ∈ h.bound
  | .close s => ∀ name, (s, name) ∈ h.bound → ∀ t memory host,
    (sysBind (sockClose h.names s) t name memory host).1 ≠ eEXIST
  | _ => True

/-- No other name that a socket is bound to has the same hash. -/
def NoClash (h : History) (name : AbstractName) : Prop :=
  ∀ b ∈ h.bound, strHash b.2 = strHash name → b.2 = name

/-- When it does: the names do not clash, a socket with a name is not given another, ids are left, and
a socket is closed only if nobody has looked up its name. -/
def Fits (h : History) : NameOp → Prop
  | .bind s name _ _ => NoClash h name ∧ h.names.nextId < 0xffffffff ∧ ((∃ t, (t, name) ∈ h.bound) ∨
      ∀ sock, h.names.sockets.lookup s = some sock → sock.hostName = none)
  | .address _ name => NoClash h name
  | .fileId => h.names.nextId < 0xffffffff
  | .close s => ∀ sock, h.names.sockets.lookup s = some sock →
    ∀ e ∈ h.names.abstractHash, sock.nameAbstract = some e.addr → e.refcount = 1
  | .socket => True

end IosLinuxkit.Sock
