import IosLinuxkit.Fs.BindHost
import IosLinuxkit.Fs.FakeFs

/-!
# fakefs with bind mounts

The operations of `src/fs/fake.c` with their checks of the table of bind mounts. On paths under a
mount they add rows to the database as they meet files that have none. What an operation does to
the database otherwise is in `FakeFs`.
-/

namespace IosLinuxkit.Fs

def eROFS : Int := -30
def eBADF : Int := -9

structure OpenFlags where
  wronly : Bool
  rdwr : Bool
  creat : Bool
  trunc : Bool
  append : Bool

/-- `flags & (O_WRONLY_ | O_RDWR_ | O_CREAT_ | O_TRUNC_ | O_APPEND_)` -/
def OpenFlags.writes (f : OpenFlags) : Bool := f.wronly || f.rdwr || f.creat || f.trunc || f.append

/-! ## Rows for what is on the host -/

/-- The metadata of a file that has none, from its host mode. -/
def autoStat (mode : BitVec 32) : IshStat :=
  { mode :=
      if isType mode sIFDIR then sIFDIR ||| 0o755
      else if isType mode sIFLNK then sIFLNK ||| 0o777
      else sIFREG ||| 0o644
    uid := 0
    gid := 0
    rdev := 0 }

/-- `bind_mount_ensure_inode`; `probe` is the mode that the host's `stat` answers. -/
def bindMountEnsureInode (db : FakeDb) (path : Blob) (probe : Option (BitVec 32)) : Nat × FakeDb :=
  if pathGetInode db path ≠ 0 then (pathGetInode db path, db)
  else
    match probe with
    | none => (0, db)
    | some mode => (newRow db, pathCreate db path (autoStat mode))

/-- The database that `fakefs_unlink` and others go on with. -/
def ensured (t : List BindMount) (db : FakeDb) (path : Blob) (probe : Option (BitVec 32)) : FakeDb :=
  if isUnderBindMount t path then (bindMountEnsureInode db path probe).2 else db

/-- The inode that `fakefs_open` finds or makes. -/
def openInode (t : List BindMount) (db : FakeDb) (path : Blob) (creat : Bool) (stat : IshStat)
    (probe : Option (BitVec 32)) : Nat × FakeDb :=
  let db := if creat = true ∧ pathGetInode db path = 0 then pathCreate db path stat else db
  if pathGetInode db path = 0 ∧ isUnderBindMount t path = true then
    bindMountEnsureInode db path probe
  else (pathGetInode db path, db)

/-- The part of `fakefs_setattr` after its checks. -/
def setattrRow (t : List BindMount) (db : FakeDb) (path : Blob) (attr : Attr)
    (probe : Option (BitVec 32)) : Int × FakeDb :=
  match pathReadStat db path with
  | some (inode, stat) => (0, inodeWriteStat db inode (fakeStatSetattr stat attr))
  | none =>
    match pathReadStat (ensured t db path probe) path with
    | some (inode, stat) =>
      (0, inodeWriteStat (ensured t db path probe) inode (fakeStatSetattr stat attr))
    | none => (eNOENT, ensured t db path probe)

/-! ## Operations -/

/-- An open descriptor; `path` is where it was opened. -/
structure BindFd where
  obj : HostId
  inode : Nat
  writable : Bool
  path : Path

structure BindState where
  host : HostFs
  db : FakeDb
  fds : AList (fun _ : Nat => BindFd)

/-- `inode_get_data` finds the inode: a descriptor holds it, or something else does. -/
def BindState.held (s : BindState) (inode : Nat) (other : Bool) : Bool :=
  other || s.fds.entries.any fun e => decide (e.2.inode = inode)

/-- An operation, what the host answers and what it leaves. -/
inductive BindEvent where
  | open (path : Path) (flags : OpenFlags) (cred : Cred) (mode : BitVec 32) (fd : Nat) (r : Int)
      (obj : HostId) (host : HostFs) (probe : Option (BitVec 32)) (inodeOk : Bool)
  | write (fd : Nat) (r : Int) (host : HostFs)
  | link (src dst : Path) (r : Int) (host : HostFs)
  | unlink (path : Path) (r : Int) (host : HostFs) (probe : Option (BitVec 32)) (held : Bool)
  | rmdir (path : Path) (r : Int) (host : HostFs) (probe : Option (BitVec 32)) (held : Bool)
  | rename (src dst : Path) (r : Int) (host : HostFs) (held : Bool)
  | symlink (path : Path) (cred : Cred) (r written : Int) (host : HostFs)
  | mknod (path : Path) (cred : Cred) (mode dev : BitVec 32) (r : Int) (host : HostFs)
  | mkdir (path : Path) (cred : Cred) (mode : BitVec 32) (r : Int) (host : HostFs)
  | setattr (path : Path) (attr : Attr) (r : Int) (host : HostFs) (probe : Option (BitVec 32))
  | fsetattr (fd : Nat) (attr : Attr) (r : Int) (host : HostFs)
  | utime (path : Path) (r : Int) (host : HostFs)
  | stat (path : Path) (probe : Option (BitVec 32))
  | readdir (entry : Path) (probe : Option (BitVec 32))
  | close (fd : Nat) (orphan : Bool)

/-- `if (is_under_readonly_bind_mount(path)) return _EROFS` -/
def guarded (t : List BindMount) (s : BindState) (path : Path)
    (c : Option (Int × BindState)) : Option (Int × BindState) :=
  if isUnderReadonlyBindMount t (render path) then some (eROFS, s) else c

/-- The operation's own database, after the host's call. -/
def BindState.done (s : BindState) (host : HostFs) (c : Int × FakeDb) : Option (Int × BindState) :=
  some (c.1, { s with host, db := c.2 })

def BindEvent.call (t : List BindMount) (s : BindState) : BindEvent → Option (Int × BindState)
  | .open path flags cred mode fd r obj host probe inodeOk =>
    if flags.writes && isUnderReadonlyBindMount t (render path) then some (eROFS, s)
    else if r < 0 then some (r, { s with host })
    else
      let c := openInode t s.db (render path) flags.creat (newStat cred (mode ||| sIFREG) 0) probe
      let f : BindFd := ⟨obj, c.1, flags.wronly || flags.rdwr, path⟩
      if c.1 = 0 then some (eNOENT, { s with host, db := c.2 })
      else if inodeOk then some (fd, { host, db := c.2, fds := s.fds.insert fd f })
      else some (eNOMEM, { s with host, db := c.2 })
  | .write fd r host =>
    match s.fds.lookup fd with
    | none => some (eBADF, s)
    | some _ => some (r, { s with host })
  | .link src dst r host =>
    -- only the new name is looked at
    guarded t s dst ((fakefsLink s.db (render src) (render dst) r).bind (s.done host))
  | .unlink path r host probe held =>
    let db := ensured t s.db (render path) probe
    guarded t s path (s.done host (fakefsUnlink db (render path) r
      (s.held (pathGetInode db (render path)) held)))
  | .rmdir path r host probe held =>
    let db := ensured t s.db (render path) probe
    guarded t s path (s.done host (fakefsRmdir db (render path) r
      (s.held (pathGetInode db (render path)) held)))
  | .rename src dst r host held =>
    guarded t s src (guarded t s dst (s.done host (fakefsRename s.db (render src) (render dst) r
      (s.held (pathGetInode s.db (render dst)) held))))
  | .symlink path cred r written host =>
    guarded t s path (s.done host (fakefsSymlink s.db (render path) cred r written))
  | .mknod path cred mode dev r host =>
    guarded t s path (s.done host (fakefsMknod s.db (render path) cred mode dev r))
  | .mkdir path cred mode r host =>
    guarded t s path (s.done host (fakefsMkdir s.db (render path) cred mode r))
  | .setattr path attr r host probe =>
    guarded t s path (match attr with
      | .size _ => some (r, { s with host })
      | attr => s.done s.host (setattrRow t s.db (render path) attr probe))
  | .fsetattr fd attr r host =>
    match s.fds.lookup fd with
    | none => some (eBADF, s)
    | some f =>
      match attr with
      | .size _ => some (r, { s with host })
      | attr => (fakefsFsetattr s.db f.inode attr r).bind (s.done s.host)
  | .utime _ r host => some (r, { s with host })
  | .stat path probe =>
    match pathReadStat s.db (render path) with
    | some _ => some (0, s)
    | none =>
      let db := ensured t s.db (render path) probe
      s.done s.host (if pathGetInode db (render path) = 0 then eNOENT else 0, db)
  | .readdir entry probe => s.done s.host (0, ensured t s.db (render entry) probe)
  | .close fd orphan =>
    match s.fds.lookup fd with
    | none => some (eBADF, s)
    | some f =>
      let s' := { s with fds := s.fds.erase fd }
      some (0, if orphan = true ∧ s'.held f.inode false = false then
        { s' with db := tryCleanupInode s.db f.inode } else s')

def bindStep (t : List BindMount) (s : BindState) (e : BindEvent) : BindState :=
  ((e.call t s).map Prod.snd).getD s

/-! ## The host -/

def openAt (t : List BindMount) (root : HostId) (path : Path) : HostId × Path :=
  match bindMountTranslatePath t path with
  | some (b, rest) => (b.host, rest)
  | none => (root, path)

/-- The host's answers to a descriptor: what is opened for reading is not written. -/
def FdOk (s : BindState) (fd : Nat) (r : Int) (host : HostFs) : Prop :=
  ∀ f, s.fds.lookup fd = some f → HostWrite s.host f.obj r host ∧ (0 ≤ r → f.writable = true)

def HostOk (t : List BindMount) (root : HostId) (s : BindState) : BindEvent → Prop
  | .open path flags _ _ _ r obj host _ _ =>
    HostOpenAt s.host (openAt t root path).1 (openAt t root path).2 flags.creat flags.trunc r obj host
  | .write fd r host => FdOk s fd r host
  | .link src dst r host => HostLinkAt s.host root src dst r host
  | .unlink path r host _ _ => HostUnlink s.host root path false r host
  | .rmdir path r host _ _ => HostUnlink s.host root path true r host
  | .rename src dst r host _ => HostRenameAt s.host root src dst r host
  | .symlink path _ r written host =>
    ∃ obj made, HostMake s.host root path .file r obj made ∧ (if r < 0 then host = made
      else ∃ filled, HostWrite made obj written filled ∧ (if 0 ≤ written then host = filled
        else ∃ r', HostUnlink filled root path false r' host))
  | .mknod path _ _ _ r host =>
    -- a node that was made may still be an error, from `close`
    ∃ obj made, HostMake s.host root path .file made obj host ∧ (made < 0 → r = made)
  | .mkdir path _ _ r host => ∃ obj, HostMake s.host root path .dir r obj host
  | .setattr path (.size _) r host _ => HostWriteAt s.host root path r host
  | .fsetattr fd (.size _) r host => FdOk s fd r host
  | .utime path r host => HostWriteAt s.host root path r host
  | _ => True

end IosLinuxkit.Fs
