import IosLinuxkit.Fs.FakeDb
import IosLinuxkit.Lib.Run

/-!
# Inodes and metadata rows shared by tasks

`fs/inode.c` and the calls of `fs/fake.c` that use it, cut at the points where another task can come
in between: a database transaction is a step, and so is a stretch under `inodes_lock` (the
transaction that such a stretch ends with touches nothing that other transactions do before it, so it
belongs to the same step). An `open` looks its path up in one step and pins the inode in another;
`unlink` and `rename` change the paths in one step and look for an orphan in another.
-/

namespace IosLinuxkit.Fs

/-- `struct inode_data`, with its address. -/
structure InodeData where
  addr : Nat
  mount : Nat
  number : Nat
  refcount : Nat
  orphanPending : Bool
  deriving DecidableEq, Repr

/-- The file an `open` found: `fake_inode` of a mount. `birth` says when the row was made. -/
structure Found where
  mount : Nat
  inode : Nat
  birth : Nat
  deriving DecidableEq, Repr

/-- A `struct fd`; `data` is its `inode`. -/
structure OpenFile where
  file : Found
  data : Nat
  deriving DecidableEq, Repr

/-- The databases, the list of `inode_data`, the opens that are not finished, the open files, and the
orphan checks that are still to come. `birth` and `clock` are a history: when each row was made. -/
structure LifeState where
  dbs : Nat → FakeDb
  inodes : List InodeData
  nextAddr : Nat
  opening : List Found
  files : List OpenFile
  checks : List (Nat × Nat)
  birth : Nat → Nat → Nat
  clock : Nat

namespace LifeState

/-! ## The list of `inode_data` -/

def inodeGetData (st : LifeState) (m ino : Nat) : Option InodeData :=
  st.inodes.find? fun d => d.mount = m ∧ d.number = ino

/-- `inode_get`: the address of the object; `memory` is the outcome of `malloc`. -/
def inodeGet (st : LifeState) (m ino : Nat) (memory : Bool) : Option Nat × LifeState :=
  match st.inodeGetData m ino with
  | some d =>
    (some d.addr, { st with inodes := st.inodes.map fun e =>
      if e.addr = d.addr then { e with refcount := e.refcount + 1 } else e })
  | none =>
    if memory then
      (some st.nextAddr,
        { st with inodes := ⟨st.nextAddr, m, ino, 1, false⟩ :: st.inodes, nextAddr := st.nextAddr + 1 })
    else (none, st)

/-- `fakefs_inode_orphaned`. -/
def inodeOrphaned (st : LifeState) (m ino : Nat) : LifeState :=
  { st with dbs := Function.update st.dbs m (tryCleanupInode (st.dbs m) ino) }

def inodeCheckOrphaned (st : LifeState) (m ino : Nat) : LifeState :=
  match st.inodeGetData m ino with
  | none => st.inodeOrphaned m ino
  | some d => { st with inodes := st.inodes.map fun e =>
      if e.addr = d.addr then { e with orphanPending := true } else e }

def inodeRelease (st : LifeState) (addr : Nat) : LifeState :=
  match st.inodes.find? fun d => d.addr = addr with
  | none => st
  | some d =>
    if d.refcount - 1 = 0 then
      let st := { st with inodes := st.inodes.filter fun e => e.addr ≠ addr }
      if d.orphanPending then st.inodeOrphaned d.mount d.number else st
    else
      { st with inodes := st.inodes.map fun e =>
          if e.addr = addr then { e with refcount := e.refcount - 1 } else e }

/-! ## The transactions -/

/-- `path_create`: the new row is made now. -/
def createRow (st : LifeState) (m : Nat) (path : Blob) (stat : IshStat) : LifeState :=
  { st with
    dbs := Function.update st.dbs m (pathCreate (st.dbs m) path stat)
    birth := Function.update st.birth m
      (Function.update (st.birth m) (newRow (st.dbs m)) st.clock)
    clock := st.clock + 1 }

def withDb (st : LifeState) (m : Nat) (db : FakeDb) : LifeState :=
  { st with dbs := Function.update st.dbs m db }

/-- The `open` goes on with this inode. -/
def found (st : LifeState) (m ino : Nat) : LifeState :=
  { st with opening := ⟨m, ino, st.birth m ino⟩ :: st.opening }

/-- The transaction of `fakefs_open`; `creat` is the new row of `O_CREAT`. Without a row the call
fails, or goes on with `bind_mount_ensure_inode`. -/
def lookup (st : LifeState) (m : Nat) (path : Blob) (creat : Option IshStat) : LifeState :=
  if pathGetInode (st.dbs m) path ≠ 0 then st.found m (pathGetInode (st.dbs m) path)
  else
    match creat with
    | none => st
    | some stat =>
      let st := st.createRow m path stat
      st.found m (pathGetInode (st.dbs m) path)

/-- The last transaction of `bind_mount_ensure_inode`. -/
def ensure (st : LifeState) (m : Nat) (path : Blob) (stat : IshStat) : LifeState :=
  (st.createRow m path stat).found m (newRow (st.dbs m))

/-- The end of `fakefs_open`: out of memory it gives up. -/
def pin (st : LifeState) (o : Found) (memory : Bool) : LifeState :=
  if o ∈ st.opening then
    let r := { st with opening := st.opening.erase o }.inodeGet o.mount o.inode memory
    match r.1 with
    | some addr => { r.2 with files := ⟨o, addr⟩ :: r.2.files }
    | none => r.2
  else st

/-- `fd_close`, the last reference. -/
def close (st : LifeState) (f : OpenFile) : LifeState :=
  if f ∈ st.files then { st with files := st.files.erase f }.inodeRelease f.data else st

/-- The transaction of `fakefs_unlink` and `fakefs_rmdir`. -/
def unlink (st : LifeState) (m : Nat) (path : Blob) : LifeState :=
  let r := pathUnlink (st.dbs m) path
  { st.withDb m r.2 with checks := (m, r.1) :: st.checks }

/-- The transaction of `fakefs_rename`. -/
def rename (st : LifeState) (m : Nat) (src dst : Blob) : LifeState :=
  let replaced := pathGetInode (st.dbs m) dst
  { st.withDb m (pathRename (st.dbs m) src dst) with
    checks := if replaced ≠ 0 then (m, replaced) :: st.checks else st.checks }

/-- The orphan check that `unlink`, `rmdir` or `rename` ends with. -/
def check (st : LifeState) (c : Nat × Nat) : LifeState :=
  if c ∈ st.checks then { st with checks := st.checks.erase c }.inodeCheckOrphaned c.1 c.2 else st

/-- The transaction of `fakefs_link`. -/
def link (st : LifeState) (m : Nat) (src dst : Blob) : LifeState :=
  match pathLink (st.dbs m) src dst with
  | none => st
  | some db => st.withDb m db

end LifeState

/-! ## Runs -/

/-- The steps of any tasks; `create` is the transaction of `mkdir`, `symlink` and `mknod`, `setattr`
the update of `chmod`, `fchmod` and their like. A call that the host refuses has no step. -/
inductive LifeOp where
  | lookup (m : Nat) (path : Blob) (creat : Option IshStat)
  | ensure (m : Nat) (path : Blob) (stat : IshStat)
  | pin (o : Found) (memory : Bool)
  | close (f : OpenFile)
  | unlink (m : Nat) (path : Blob)
  | rename (m : Nat) (src dst : Blob)
  | check (c : Nat × Nat)
  | create (m : Nat) (path : Blob) (stat : IshStat)
  | link (m : Nat) (src dst : Blob)
  | setattr (m ino : Nat) (stat : IshStat)

def lifeStep (st : LifeState) : LifeOp → LifeState
  | .lookup m path creat => st.lookup m path creat
  | .ensure m path stat => st.ensure m path stat
  | .pin o memory => st.pin o memory
  | .close f => st.close f
  | .unlink m path => st.unlink m path
  | .rename m src dst => st.rename m src dst
  | .check c => st.check c
  | .create m path stat => st.createRow m path stat
  | .link m src dst => st.link m src dst
  | .setattr m ino stat => st.withDb m (inodeWriteStat (st.dbs m) ino stat)

/-- The file is open, or its `open` is in progress. -/
def InUse (st : LifeState) (o : Found) : Prop := o ∈ st.opening ∨ ∃ f ∈ st.files, f.file = o

/-- One `inode_data` for an inode, with as many references as open files; and every file in use has
its own row, which is what `fstat` and `fchmod` read. -/
structure Lifetime (st : LifeState) : Prop where
  unique : st.inodes.Pairwise fun d e => ¬ (d.mount = e.mount ∧ d.number = e.number)
  counted : ∀ d ∈ st.inodes, d.refcount =
    st.files.countP fun f => f.file.mount = d.mount ∧ f.file.inode = d.number
  held : ∀ f ∈ st.files, ∃ d ∈ st.inodes,
    d.addr = f.data ∧ d.mount = f.file.mount ∧ d.number = f.file.inode
  row : ∀ o, InUse st o → (∃ stat, (st.dbs o.mount).stats.lookup o.inode = some stat) ∧
    st.birth o.mount o.inode = o.birth

/-- A row is deleted only when no path and no file in use refers to it (any more, when the step is a
`close`). -/
def DeletesUnused (st : LifeState) (op : LifeOp) : Prop :=
  ∀ m i, i ∈ (st.dbs m).stats → i ∉ ((lifeStep st op).dbs m).stats →
    (∀ path, ((lifeStep st op).dbs m).paths.lookup path ≠ some i) ∧
      ∀ o, InUse (lifeStep st op) o → ¬ (o.mount = m ∧ o.inode = i)

/-- Some path has the inode, or no `open` in progress does. -/
def Settled (st : LifeState) (m ino : Nat) : Prop :=
  (∃ path, (st.dbs m).paths.lookup path = some ino) ∨
    ∀ o ∈ st.opening, ¬ (o.mount = m ∧ o.inode = ino)

/-- The clean-up of an inode does not overtake an `open` of it: neither the one of an orphan check
that finds no `inode_data`, nor the one of the last release of an orphan. -/
def Unraced (st : LifeState) : LifeOp → Prop
  | .check c => c ∈ st.checks → st.inodeGetData c.1 c.2 = none → Settled st c.1 c.2
  | .close f => f ∈ st.files → ∀ d ∈ st.inodes, d.addr = f.data → d.refcount = 1 →
    d.orphanPending → Settled st d.mount d.number
  | _ => True

/-- Nothing is open yet, and every path has its row. -/
structure Mounted (st : LifeState) : Prop where
  inodes : st.inodes = []
  opening : st.opening = []
  files : st.files = []
  paths : ∀ m path i, (st.dbs m).paths.lookup path = some i → i ∈ (st.dbs m).stats

end IosLinuxkit.Fs
