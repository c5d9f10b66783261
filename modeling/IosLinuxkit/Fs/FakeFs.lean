import IosLinuxkit.Fs.FakeDb
import IosLinuxkit.Fs.HostTree
import IosLinuxkit.Lib.Run

/-!
# fakefs over the database and the host's tree

`src/fs/fake.c`, for paths outside bind mounts. Each operation makes its calls to the host and runs
its statements by hand, in an order of its own; the model of an operation is what it does to the
database once the host has answered. `Posix` says what the host may answer.
-/

namespace IosLinuxkit.Fs

def eNOENT : Int := -2
def eNOMEM : Int := -12
def ePERM : Int := -1

/-! ## Modes and attributes -/

def sIFMT : BitVec 32 := 0xf000
def sIFREG : BitVec 32 := 0x8000
def sIFDIR : BitVec 32 := 0x4000
def sIFLNK : BitVec 32 := 0xa000
def sIFBLK : BitVec 32 := 0x6000
def sIFCHR : BitVec 32 := 0x2000
def sIFSOCK : BitVec 32 := 0xc000
def sIFIFO : BitVec 32 := 0x1000

/-- `S_ISBLK` and the like -/
def isType (mode type : BitVec 32) : Bool := mode &&& sIFMT == type

inductive Attr where
  | uid (v : BitVec 32)
  | gid (v : BitVec 32)
  | mode (v : BitVec 32)
  | size (n : Nat)

/-- `fake_stat_setattr`; a size goes to the host. -/
def fakeStatSetattr (stat : IshStat) : Attr → IshStat
  | .uid v => { stat with uid := v }
  | .gid v => { stat with gid := v }
  | .mode v => { stat with mode := (stat.mode &&& sIFMT) ||| (v &&& ~~~sIFMT) }
  | .size _ => stat

/-- The effective user and group of the caller. -/
structure Cred where
  euid : BitVec 32
  egid : BitVec 32

def newStat (cred : Cred) (mode rdev : BitVec 32) : IshStat := ⟨mode, cred.euid, cred.egid, rdev⟩

/-! ## Operations -/

/-- `fakefs_open` with `O_CREAT`; `inodeOk` is whether `inode_get` has the memory for its record. -/
def fakefsOpen (db : FakeDb) (path : Blob) (cred : Cred) (mode : BitVec 32) (r : Int)
    (inodeOk : Bool) : Int × FakeDb :=
  if r < 0 then (r, db)
  else
    let db := if pathGetInode db path = 0 then pathCreate db path (newStat cred (mode ||| sIFREG) 0)
      else db
    if pathGetInode db path = 0 then (eNOENT, db)
    else if inodeOk then (0, db)
    else (eNOMEM, db)

def fakefsLink (db : FakeDb) (src dst : Blob) (r : Int) : Option (Int × FakeDb) :=
  if r < 0 then some (r, db)
  else (pathLink db src dst).map fun db => (0, db)

/-- `inode_check_orphaned`: while the inode is open its row is left for later. -/
def inodeCheckOrphaned (db : FakeDb) (inode : Nat) (held : Bool) : FakeDb :=
  if held then db else tryCleanupInode db inode

/-- What `fakefs_unlink` and `fakefs_rmdir` do after the host's answer. -/
def fakefsRemove (db : FakeDb) (path : Blob) (r : Int) (held : Bool) : Int × FakeDb :=
  if r < 0 then (r, db)
  else
    let (inode, db) := pathUnlink db path
    (0, inodeCheckOrphaned db inode held)

def fakefsUnlink (db : FakeDb) (path : Blob) (r : Int) (held : Bool) : Int × FakeDb :=
  fakefsRemove db path r held

def fakefsRmdir (db : FakeDb) (path : Blob) (r : Int) (held : Bool) : Int × FakeDb :=
  fakefsRemove db path r held

def fakefsRename (db : FakeDb) (src dst : Blob) (r : Int) (held : Bool) : Int × FakeDb :=
  let replaced := pathGetInode db dst
  let renamed := pathRename db src dst
  -- a rollback
  if r < 0 then (r, db)
  else (0, if replaced ≠ 0 then inodeCheckOrphaned renamed replaced held else renamed)

/-- `fakefs_symlink`: the file of the link is made, and its target written to it. -/
def fakefsSymlink (db : FakeDb) (link : Blob) (cred : Cred) (r written : Int) : Int × FakeDb :=
  if r < 0 then (r, db)
  else if written < 0 then (written, db)
  else (0, pathCreate db link (newStat cred (sIFLNK ||| 0o777) 0))

/-- What a node is on the host: devices and sockets are files. -/
def realMode (mode : BitVec 32) : BitVec 32 :=
  if isType mode sIFBLK || isType mode sIFCHR || isType mode sIFSOCK then 0o666 ||| sIFREG
  else 0o666 ||| (mode &&& sIFMT)

def fakefsMknod (db : FakeDb) (path : Blob) (cred : Cred) (mode dev : BitVec 32) (r : Int) :
    Int × FakeDb :=
  if r < 0 ∧ r ≠ eEXIST then (r, db)
  else
    let stat := newStat cred mode (if isType mode sIFBLK || isType mode sIFCHR then dev else 0)
    let inode := pathGetInode db path
    (0, if inode = 0 then pathCreate db path stat else inodeWriteStat db inode stat)

def fakefsMkdir (db : FakeDb) (path : Blob) (cred : Cred) (mode : BitVec 32) (r : Int) :
    Int × FakeDb :=
  if r < 0 then (r, db)
  else (0, pathCreate db path (newStat cred (mode ||| sIFDIR) 0))

def fakefsSetattr (db : FakeDb) (path : Blob) (attr : Attr) (r : Int) : Int × FakeDb :=
  match attr with
  | .size _ => (r, db)
  | _ =>
    match pathReadStat db path with
    | none => (eNOENT, db)
    | some (inode, stat) => (0, inodeWriteStat db inode (fakeStatSetattr stat attr))

def fakefsFsetattr (db : FakeDb) (inode : Nat) (attr : Attr) (r : Int) : Option (Int × FakeDb) :=
  match attr with
  | .size _ => some (r, db)
  | _ =>
    match db.stats.lookup inode with
    | none => none
    | some stat => some (0, inodeWriteStat db inode (fakeStatSetattr stat attr))

/-! ## Runs -/

structure FsState where
  tree : Tree
  db : FakeDb

/-- An operation, what the host answers and the tree it leaves. -/
inductive FsEvent where
  | open (path : Path) (excl : Bool) (cred : Cred) (mode : BitVec 32) (r : Int) (tree : Tree)
      (inodeOk : Bool)
  | link (src dst : Path) (r : Int) (tree : Tree)
  | unlink (path : Path) (r : Int) (tree : Tree) (held : Bool)
  | rmdir (path : Path) (r : Int) (tree : Tree) (held : Bool)
  | rename (src dst : Path) (r : Int) (tree : Tree) (held : Bool)
  /-- `made` is the tree after the file of the link was made -/
  | symlink (path : Path) (cred : Cred) (r : Int) (made : Tree) (written : Int) (tree : Tree)
  | mknod (path : Path) (cred : Cred) (mode dev : BitVec 32) (r : Int) (tree : Tree)
  | mkdir (path : Path) (cred : Cred) (mode : BitVec 32) (r : Int) (tree : Tree)
  | setattr (path : Path) (attr : Attr) (r : Int)
  | fsetattr (inode : Nat) (attr : Attr) (r : Int)
  /-- the last descriptor of a removed file is closed -/
  | orphaned (inode : Nat)

/-- What the operation returns, and the database after it. -/
def FsEvent.call (s : FsState) : FsEvent → Option (Int × FakeDb)
  | .open path _ cred mode r _ inodeOk => some (fakefsOpen s.db (render path) cred mode r inodeOk)
  | .link src dst r _ => fakefsLink s.db (render src) (render dst) r
  | .unlink path r _ held => some (fakefsUnlink s.db (render path) r held)
  | .rmdir path r _ held => some (fakefsRmdir s.db (render path) r held)
  | .rename src dst r _ held => some (fakefsRename s.db (render src) (render dst) r held)
  | .symlink path cred r _ written _ => some (fakefsSymlink s.db (render path) cred r written)
  | .mknod path cred mode dev r _ => some (fakefsMknod s.db (render path) cred mode dev r)
  | .mkdir path cred mode r _ => some (fakefsMkdir s.db (render path) cred mode r)
  | .setattr path attr r => some (fakefsSetattr s.db (render path) attr r)
  | .fsetattr inode attr r => fakefsFsetattr s.db inode attr r
  | .orphaned inode => some (0, tryCleanupInode s.db inode)

def FsEvent.after (s : FsState) : FsEvent → Tree
  | .open _ _ _ _ _ tree _ => tree
  | .link _ _ _ tree => tree
  | .unlink _ _ tree _ => tree
  | .rmdir _ _ tree _ => tree
  | .rename _ _ _ tree _ => tree
  | .symlink _ _ _ _ _ tree => tree
  | .mknod _ _ _ _ _ tree => tree
  | .mkdir _ _ _ _ tree => tree
  | .setattr _ _ _ => s.tree
  | .fsetattr _ _ _ => s.tree
  | .orphaned _ => s.tree

def fsStep (s : FsState) (e : FsEvent) : FsState :=
  { tree := e.after s, db := ((e.call s).map Prod.snd).getD s.db }

def fsRet (s : FsState) (e : FsEvent) : Option Int := (e.call s).map Prod.fst

/-! ## The host -/

/-- `realfs_mknod`. A file is made by `openat` and closed, and the close may fail. -/
inductive RealfsMknod (t : Tree) (p : Path) (mode : BitVec 32) : Int → Tree → Prop
  | fifo {r : Int} {t' : Tree} (hm : isType mode sIFIFO = true) (h : HostCreate t p false r t') :
    RealfsMknod t p mode r t'
  | reg {r : Int} {t' : Tree} (hm : isType mode sIFREG = true) (h : HostCreate t p false r t') :
    RealfsMknod t p mode r t'
  | close {r : Int} {t' : Tree} (hm : isType mode sIFREG = true) (h : HostCreate t p false 0 t')
    (hr : r < 0) (hne : r ≠ eEXIST) : RealfsMknod t p mode r t'
  | other (hf : isType mode sIFIFO = false) (hr : isType mode sIFREG = false) :
    RealfsMknod t p mode ePERM t

def Posix (s : FsState) : FsEvent → Prop
  | .open path excl _ _ r tree _ => HostOpen s.tree path excl r tree
  | .link src dst r tree => HostLink s.tree src dst r tree
  | .unlink path r tree _ => HostRemove s.tree path false r tree
  | .rmdir path r tree _ => HostRemove s.tree path true r tree
  | .rename src dst r tree _ => HostRename s.tree src dst r tree
  | .symlink path _ r made written tree =>
    HostCreate s.tree path false r made ∧ (if r < 0 ∨ 0 ≤ written then tree = made
      else ∃ r', HostRemove made path false r' tree)
  | .mknod path _ mode _ r tree => RealfsMknod s.tree path (realMode mode) r tree
  | .mkdir path _ _ r tree => HostCreate s.tree path true r tree
  | _ => True

end IosLinuxkit.Fs
