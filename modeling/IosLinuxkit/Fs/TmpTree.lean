import IosLinuxkit.Fs.GuestPath
import IosLinuxkit.Lib.Assoc
import IosLinuxkit.Lib.Run

/-!
# The tree of the memory file system

`fs/tmp.c`: the entries of a tree, their inodes and the counts of both, as `tmpfs_open`, `tmpfs_mkdir`,
`tmpfs_close`, `tmpfs_readdir` and `tmpfs_seekdir` change them. An access to an object that was freed, or
through a pointer that is none, has no result.

Each descriptor has the path that it was opened at, which is no field of the source.
-/

namespace IosLinuxkit.Fs.TmpTree

def eNOENT : Int := -2
def eNOMEM : Int := -12
def eEXIST : Int := -17
def eNOTDIR : Int := -20
def eNAMETOOLONG : Int := -36

def maxPath : Nat := 4096
def maxName : Nat := 256

def sIfreg : BitVec 32 := 0x8000
def sIfdir : BitVec 32 := 0x4000

structure TmpInode where
  mode : BitVec 32
  deriving DecidableEq

structure TmpDirent where
  name : Blob
  inode : Nat
  index : Nat
  parent : Option Nat
  children : List Nat
  nextIndex : Nat
  deriving DecidableEq

/-- What a descriptor has of the file system. -/
structure Fd where
  path : Blob
  dirent : Nat
  dirPos : Option Nat
  deriving DecidableEq

/-- What is allocated, by address, and the counts. Addresses from `next` on are free. -/
structure State where
  inodes : AList fun _ : Nat => TmpInode
  dirents : AList fun _ : Nat => TmpDirent
  fds : AList fun _ : Nat => Fd
  inodeRefs : Nat → Int
  direntRefs : Nat → Int
  next : Nat

/-- The entry that `mount->data` points to. -/
def root : Nat := 0

/-- `tmpfs_mount` -/
def start : State where
  inodes := (∅ : AList fun _ : Nat => TmpInode).insert root ⟨sIfdir ||| 0o777⟩
  dirents := (∅ : AList fun _ : Nat => TmpDirent).insert root ⟨[], root, 0, none, [], 0⟩
  fds := ∅
  inodeRefs i := if i = root then 1 else 0
  direntRefs d := if d = root then 1 else 0
  next := 1

namespace State

/-! ## References -/

/-- `tmp_dirent_retain` -/
def direntRetain (st : State) (d : Nat) : State :=
  { st with direntRefs := Function.update st.direntRefs d (st.direntRefs d + 1) }

/-- `tmp_inode_retain` -/
def inodeRetain (st : State) (i : Nat) : State :=
  { st with inodeRefs := Function.update st.inodeRefs i (st.inodeRefs i + 1) }

/-- `tmp_inode_release`, with `tmp_inode_cleanup` -/
def inodeRelease (st : State) (i : Nat) : Option State :=
  if (st.inodes.lookup i).isNone then none
  else if st.inodeRefs i = 1 then
    some { st with inodes := st.inodes.erase i, inodeRefs := Function.update st.inodeRefs i 0 }
  else some { st with inodeRefs := Function.update st.inodeRefs i (st.inodeRefs i - 1) }

/-- `tmp_dirent_cleanup`. The link of the root was never initialised. -/
def direntCleanup (st : State) (d : Nat) (e : TmpDirent) : Option State :=
  match e.parent with
  | none => none
  | some p =>
    match st.dirents.lookup p with
    | none => none
    | some f =>
      inodeRelease { st with
        dirents := (st.dirents.insert p { f with children := f.children.erase d }).erase d
        direntRefs := Function.update st.direntRefs d 0 } e.inode

/-- `tmp_dirent_release` -/
def direntRelease (st : State) (d : Nat) : Option State :=
  match st.dirents.lookup d with
  | none => none
  | some e =>
    if st.direntRefs d = 1 then st.direntCleanup d e
    else some { st with direntRefs := Function.update st.direntRefs d (st.direntRefs d - 1) }

/-! ## Lookups -/

/-- `S_ISDIR`. An entry holds a reference to its inode. -/
def isDir (st : State) (e : TmpDirent) : Bool :=
  (st.inodes.lookup e.inode).any fun inode => inode.mode &&& 0xf000 == sIfdir

/-- The search of `tmpfs_dir_lookup`. -/
def childOf (st : State) (dir : Nat) (name : Blob) : Option (Except Int Nat) :=
  (st.dirents.lookup dir).map fun e =>
    if st.isDir e then
      match e.children.find? fun c => (st.dirents.lookup c).any fun f => f.name == name with
      | none => .error eNOENT
      | some c => .ok c
    else .error eNOTDIR

/-- `tmpfs_dir_lookup` -/
def dirLookup (st : State) (dir : Nat) (name : Blob) : Option (Except Int Nat × State) :=
  match st.childOf dir name with
  | none => none
  | some (.error err) => some (.error err, st)
  | some (.ok c) => some (.ok c, st.direntRetain c)

/-- The loop of `__tmpfs_lookup` over the components, with a reference to `d`. After a name that is too
long, it is not given back. -/
def walk (st : State) (parent : Bool) (d : Nat) : List Blob → Option (Except Int Nat × State)
  | [] => some (.ok d, st)
  | name :: names =>
    if maxName ≤ name.length then some (.error eNAMETOOLONG, st)
    else if parent && names.isEmpty then some (.ok d, st)
    else
      match st.dirLookup d name with
      | none => none
      | some (child, st) =>
        match st.direntRelease d with
        | none => none
        | some st =>
          match child with
          | .error err => some (.error err, st)
          | .ok c => walk st parent c names

end State

/-- What `path_next_component` makes of a path. It asserts that there is a slash in front. -/
def components : Blob → Option (List Blob)
  | [] => some []
  | c :: path => if c = slash then some (path.splitOn slash) else none

/-- The last component: what `filename_out` points to. -/
def filename (path : Blob) : Blob := (((components path).getD []).getLast?).getD []

namespace State

/-- `__tmpfs_lookup` -/
def lookup (st : State) (path : Blob) (parent : Bool) : Option (Except Int Nat × State) :=
  match components path with
  | none => none
  | some names => (st.direntRetain root).walk parent root names

/-- `tmpfs_lookup_parent`. The callers lock what it returns, which is nothing for the path `/`. -/
def lookupParent (st : State) (path : Blob) : Option (Except Int Nat × State) :=
  if path = [slash] then none else st.lookup path true

/-! ## New entries -/

/-- `tmp_inode_new` -/
def inodeNew (st : State) (mode : BitVec 32) : Nat × State :=
  (st.next, { st with
    inodes := st.inodes.insert st.next ⟨mode⟩
    inodeRefs := Function.update st.inodeRefs st.next 1
    next := st.next + 1 })

/-- The new entry of `tmpfs_dir_link`, below `dir`. -/
def linked (st : State) (dir : Nat) (e : TmpDirent) (name : Blob) (child : Nat) : State :=
  { (st.inodeRetain child).direntRetain dir with
    dirents := (st.dirents.insert dir { e with children := e.children ++ [st.next], nextIndex := e.nextIndex + 1 }).insert
      st.next ⟨name, child, e.nextIndex, some dir, [], 0⟩
    direntRefs := Function.update ((st.inodeRetain child).direntRetain dir).direntRefs st.next 1
    next := st.next + 1 }

/-- `tmpfs_dir_link`; `out` is whether the caller wants the entry. -/
def dirLink (st : State) (dir : Nat) (name : Blob) (child : Nat) (out mem : Bool) :
    Option (Except Int Nat × State) :=
  match st.dirents.lookup dir with
  | none => none
  | some e =>
    if !st.isDir e then (st.inodeRelease child).map fun st => (.error eNOTDIR, st)
    else if !mem then (st.inodeRelease child).map fun st => (.error eNOMEM, st)
    else
      let new := st.linked dir e name child
      some (.ok st.next, if out then new.direntRetain st.next else new)

/-! ## Calls -/

end State

structure OpenArgs where
  path : Blob
  creat : Bool
  excl : Bool
  mode : BitVec 32
  inodeMem : Bool
  direntMem : Bool
  fdMem : Bool

structure MkdirArgs where
  path : Blob
  mode : BitVec 32
  inodeMem : Bool
  direntMem : Bool

namespace State

/-- What `tmpfs_open` does with `O_CREAT` while the parent is locked. An error leads to the release of
`dirent`, which is the error of the lookup when nothing was found. -/
def createIn (st : State) (parent : Nat) (a : OpenArgs) : Option (Except Int Nat × State) :=
  match st.dirLookup parent (filename a.path) with
  | none => none
  | some (.ok c, st) =>
    if a.excl then (st.direntRelease c).map fun st => (.error eEXIST, st) else some (.ok c, st)
  | some (.error err, st) =>
    if err ≠ eNOENT then some (.error err, st)
    else if !a.inodeMem then none
    else
      let (inode, st) := st.inodeNew (sIfreg ||| a.mode)
      match st.dirLink parent (filename a.path) inode true a.direntMem with
      | none => none
      | some (r, st) =>
        match st.inodeRelease inode, r with
        | some st, .ok d => some (.ok d, st)
        | _, _ => none

/-- The part of `tmpfs_open` for `O_CREAT`. -/
def openCreat (st : State) (a : OpenArgs) : Option (Except Int Nat × State) :=
  match st.lookupParent a.path with
  | none => none
  | some (.error err, st) => some (.error err, st)
  | some (.ok parent, st) =>
    match st.createIn parent a with
    | none => none
    | some (r, st) => (st.direntRelease parent).map fun st => (r, st)

/-- The table of descriptors with `f` at `i`. -/
def withFd (st : State) (i : Nat) (f : Fd) (next : Nat) : State :=
  { st with fds := st.fds.insert i f, next := next }

def withoutFd (st : State) (i : Nat) : State := { st with fds := st.fds.erase i }

/-- The end of `tmpfs_open`, with a reference to the entry. -/
def openFd (st : State) (a : OpenArgs) (d : Nat) : Option State :=
  if !a.fdMem then st.direntRelease d
  else
    match st.dirents.lookup d with
    | none => none
    | some e =>
      let pos := e.children.head?
      some ((pos.elim st st.direntRetain).withFd st.next ⟨a.path, d, pos⟩ (st.next + 1))

def tmpfsOpen (st : State) (a : OpenArgs) : Option State :=
  match if a.creat then st.openCreat a else st.lookup a.path false with
  | none => none
  | some (.error _, st) => some st
  | some (.ok d, st) => st.openFd a d

/-- What `tmpfs_mkdir` does while the parent is locked. -/
def mkdirIn (st : State) (parent : Nat) (a : MkdirArgs) : Option State :=
  match st.dirLookup parent (filename a.path) with
  | none => none
  | some (.ok c, st) => st.direntRelease c
  | some (.error err, st) =>
    if err ≠ eNOENT then some st
    else if !a.inodeMem then some st
    else
      let (inode, st) := st.inodeNew (sIfdir ||| a.mode)
      (st.dirLink parent (filename a.path) inode false a.direntMem).map Prod.snd

def tmpfsMkdir (st : State) (a : MkdirArgs) : Option State :=
  match st.lookupParent a.path with
  | none => none
  | some (.error _, st) => some st
  | some (.ok parent, st) =>
    match st.mkdirIn parent a with
    | none => none
    | some st => st.direntRelease parent

/-- `tmpfs_close`, of a descriptor that nobody else has. -/
def tmpfsClose (st : State) (i : Nat) : Option State :=
  match st.fds.lookup i with
  | none => some st
  | some f => (st.withoutFd i).direntRelease f.dirent

/-- `tmpfs_fd_seekdir` -/
def fdSeekdir (st : State) (i : Nat) (f : Fd) (pos : Option Nat) : Option State :=
  let st := (pos.elim st st.direntRetain).withFd i { f with dirPos := pos } st.next
  match f.dirPos with
  | none => some st
  | some d => st.direntRelease d

/-- `tmpfs_readdir`, without what it stores. -/
def tmpfsReaddir (st : State) (i : Nat) : Option State :=
  match st.fds.lookup i with
  | none => some st
  | some f =>
    match st.dirents.lookup f.dirent, f.dirPos with
    | none, _ => none
    | some _, none => some st
    | some e, some d =>
      if st.isDir e then st.fdSeekdir i f (e.children.dropWhile (· != d)).tail.head? else some st

def tmpfsSeekdir (st : State) (i ptr : Nat) : Option State :=
  match st.fds.lookup i with
  | none => some st
  | some f =>
    match st.dirents.lookup f.dirent with
    | none => none
    | some e =>
      if !st.isDir e then none
      else st.fdSeekdir i f (e.children.find? fun c => (st.dirents.lookup c).any fun child => ptr ≤ child.index)

end State

inductive Op
  | openPath (a : OpenArgs)
  | mkdir (a : MkdirArgs)
  | close (i : Nat)
  | readdir (i : Nat)
  | seekdir (i ptr : Nat)

def call (st : State) : Op → Option State
  | .openPath a => st.tmpfsOpen a
  | .mkdir a => st.tmpfsMkdir a
  | .close i => st.tmpfsClose i
  | .readdir i => st.tmpfsReaddir i
  | .seekdir i ptr => st.tmpfsSeekdir i ptr

def step (st : Option State) (op : Op) : Option State := st.bind fun st => call st op

namespace State

/-! ## Paths of descriptors -/

/-- The loop of `tmpfs_getpath`, with room for so many bytes. It never goes to the parent. -/
def getpathLoop (st : State) (d : Nat) (room : Nat) (p : Blob) : Except Int Blob :=
  if d = root then .ok p
  else
    let name := ((st.dirents.lookup d).map TmpDirent.name).getD []
    if room < name.length + 1 then .error eNAMETOOLONG
    else st.getpathLoop d (room - (name.length + 1)) (slash :: name ++ p)
  termination_by room

/-- `tmpfs_getpath` -/
def getpath (st : State) (f : Fd) : Except Int Blob := st.getpathLoop f.dirent (maxPath - 1) []

/-! ## References that there are -/

/-- The references that an entry has to the entry `d`. -/
def direntHolds (d : Nat) (e : TmpDirent) : Int :=
  (e.children.count d : Int) + if e.parent = some d then 1 else 0

def fdHolds (d : Nat) (f : Fd) : Int :=
  (if f.dirent = d then 1 else 0) + if f.dirPos = some d then 1 else 0

/-- The references to an entry; the mount has the root. -/
def held (st : State) (d : Nat) : Int :=
  (if d = root then 1 else 0) + Assoc.sumBy (direntHolds d) st.dirents + Assoc.sumBy (fdHolds d) st.fds

def inodeHolds (i : Nat) (e : TmpDirent) : Int := if e.inode = i then 1 else 0

def heldInode (st : State) (i : Nat) : Int := Assoc.sumBy (inodeHolds i) st.dirents

end State

structure Exact (st : State) : Prop where
  dirent : ∀ d, st.direntRefs d = st.held d
  inode : ∀ i, st.inodeRefs i = st.heldInode i

/-- A path from `path_normalize`. -/
def Normalized (path : Blob) : Prop := ∃ p : Path, path = render p

/-- A descriptor has the path that it was opened at, if there is room for it. -/
def PathsRight (st : State) : Prop :=
  ∀ i f, st.fds.lookup i = some f → Normalized f.path →
    st.getpath f = if f.path.length < maxPath then .ok f.path else .error eNAMETOOLONG

/-- What a call ought to do: the counts and the paths are right, and no entry is freed. -/
structure Keeps (st : State) (op : Op) (st' : State) : Prop where
  result : call st op = some st'
  exact : Exact st'
  paths : PathsRight st'
  entries : ∀ d, (st.dirents.lookup d).isSome → (st'.dirents.lookup d).isSome

/-! ## Where a path leads -/

inductive Found
  | entry (d : Nat)
  | fails (err : Int)
  /-- a name is too long, below `d` -/
  | tooLong (d : Nat)

def State.descend (st : State) (parent : Bool) (d : Nat) : List Blob → Found
  | [] => .entry d
  | name :: names =>
    if maxName ≤ name.length then .tooLong d
    else if parent && names.isEmpty then .entry d
    else
      match st.childOf d name with
      | none => .fails eNOENT
      | some (.error err) => .fails err
      | some (.ok c) => st.descend parent c names

/-- The path is one that `tmpfs_getpath` has room for. -/
def Fits (path : Blob) : Prop := Normalized path ∧ path.length < maxPath

/-- An entry below `parent` can be created, and no descriptor of it is opened at a path that fits. -/
def CreateFine (st : State) (parent : Nat) (a : OpenArgs) : Prop :=
  match st.childOf parent (filename a.path) with
  | none => False
  | some (.ok _) => a.excl ∨ (a.fdMem → ¬Fits a.path)
  | some (.error err) => err = eNOENT → a.inodeMem ∧ a.direntMem ∧ (a.fdMem → ¬Fits a.path)

/-- The lookup fails, or what is done with the entry that it finds is fine. -/
def Found.Fine (entry : Nat → Prop) : Found → Prop
  | .fails _ => True
  | .tooLong _ => False
  | .entry d => entry d

def OpenFine (st : State) (a : OpenArgs) : Prop :=
  ∃ names, components a.path = some names ∧ (a.creat → a.path ≠ [slash]) ∧
    (st.descend a.creat root names).Fine fun d =>
      if a.creat then CreateFine st d a else a.path = [] ∨ (a.fdMem → ¬Fits a.path)

def MkdirFine (st : State) (a : MkdirArgs) : Prop :=
  ∃ names, components a.path = some names ∧ a.path ≠ [slash] ∧
    (st.descend true root names).Fine fun d =>
      st.childOf d (filename a.path) = some (.error eNOENT) → ¬(a.inodeMem ∧ a.direntMem)

def Fine (st : State) : Op → Prop
  | .openPath a => OpenFine st a
  | .mkdir a => MkdirFine st a
  | .close i => ∀ f, st.fds.lookup i = some f → f.dirPos = none
  | .readdir _ => True
  | .seekdir i _ => ∀ f e, st.fds.lookup i = some f → st.dirents.lookup f.dirent = some e → st.isDir e

end IosLinuxkit.Fs.TmpTree
