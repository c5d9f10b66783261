import Mathlib.Data.List.Pairwise
import Mathlib.Tactic.SplitIfs
import IosLinuxkit.Lib.Run
import IosLinuxkit.Fs.GuestPath

/-!
# The mount table

`fs/mount.c`: the list of mounts, the lookup of a path in it, and the mount that each thread remembers
from its last lookup. The table is changed and searched under `mounts_lock`. What a thread remembers is
checked without the lock, so a lookup that is answered from it is two steps: the check, and the
reference that is taken afterwards.
-/

namespace IosLinuxkit.Fs

def eBUSY : Int := -16

/-- `struct mount` without its reference count: what stays as it is. -/
structure Mount where
  id : Nat
  point : Path
  deriving DecidableEq

/-- `strlen(mount->point)` -/
def Mount.len (m : Mount) : Nat := (render m.point).length

/-- `strncmp(path, point, n) == 0 && (path[n] == '/' || path[n] == '\0')` -/
def Mount.covers (m : Mount) (path : Blob) : Bool :=
  (render m.point).isPrefixOf path && decide (Boundary (path.drop m.len))

/-- The table, the reference counts, and of every thread `last_mount_cache` with
`mount_cache_version`, and the mount of a lookup that has passed the check. -/
structure MountState where
  mounts : List Mount
  refcount : Nat → Int
  version : Nat
  nextId : Nat
  cache : Nat → Option (Mount × Nat)
  taking : Nat → Option Mount

def MountState.init : MountState := ⟨[], fun _ => 0, 0, 0, fun _ => none, fun _ => none⟩

/-! ## mount_find -/

def mountCacheCheck (st : MountState) (t : Nat) (path : Path) : Option Mount :=
  match st.cache t with
  | none => none
  | some (cached, version) =>
    if version ≠ st.version then none
    -- the root mount is never answered from here
    else if cached.len = 0 then none
    else if cached.covers (render path) then some cached
    else none

def mountSearch (st : MountState) (path : Path) : Option Mount :=
  st.mounts.find? fun m => m.covers (render path)

def MountState.retain (st : MountState) (id : Nat) : MountState :=
  { st with refcount := fun i => if i = id then st.refcount i + 1 else st.refcount i }

/-- The slow path of `mount_find`; the answer is remembered. -/
def mountFindSlow (st : MountState) (t : Nat) (path : Path) : Option Mount × MountState :=
  match mountSearch st path with
  | none => (none, st)
  | some m =>
    (some m, { st.retain m.id with
      cache := fun u => if u = t then some (m, st.version) else st.cache u })

/-- The first half of `mount_find`: the fast path up to the lock, or the slow path. -/
def mountFind (st : MountState) (t : Nat) (path : Path) : Option Mount × MountState :=
  match mountCacheCheck st t path with
  | some m => (some m, { st with taking := fun u => if u = t then some m else st.taking u })
  | none => mountFindSlow st t path

def mountTake (st : MountState) (t : Nat) : MountState :=
  match st.taking t with
  | some m => { st.retain m.id with taking := fun u => if u = t then none else st.taking u }
  | none => st

/-! ## Changes -/

/-- `global_mount_version++` -/
def nextVersion (version : Nat) : Nat := (version + 1) % 18446744073709551616

def insertMount (new : Mount) : List Mount → List Mount
  | [] => [new]
  | m :: mounts => if m.len ≤ new.len then new :: m :: mounts else m :: insertMount new mounts

/-- `do_mount`; `err` is what the memory and the file system have to say. -/
def doMount (st : MountState) (point : Path) (err : Int) : Int × MountState :=
  if err < 0 then (err, st)
  else
    (0, { st with
      mounts := insertMount ⟨st.nextId, point⟩ st.mounts
      refcount := fun i => if i = st.nextId then 0 else st.refcount i
      nextId := st.nextId + 1
      version := nextVersion st.version })

def mountRemove (st : MountState) (m : Mount) : Int × MountState :=
  if st.refcount m.id ≠ 0 then (eBUSY, st)
  else (0, { st with mounts := st.mounts.erase m, version := nextVersion st.version })

def mountAt (st : MountState) (point : Path) : Option Mount :=
  st.mounts.find? fun m => decide (render point = render m.point)

def doUmount (st : MountState) (point : Path) : Int × MountState :=
  match mountAt st point with
  | none => (-22, st)
  | some m => mountRemove st m

/-! ## Runs -/

inductive MountOp where
  | mount (point : Path) (err : Int)
  | umount (point : Path)
  | find (t : Nat) (path : Path)
  | take (t : Nat)
  | retain (id : Nat)
  | release (id : Nat)

def mountStep (st : MountState) : MountOp → MountState
  | .mount point err => (doMount st point err).2
  | .umount point => (doUmount st point).2
  | .find t path => (mountFind st t path).2
  | .take t => mountTake st t
  | .retain id => st.retain id
  | .release id => { st with
      refcount := fun i => if i = id then st.refcount i - 1 else st.refcount i }

/-- The mount is in the table, it is at a prefix of the path, no longer prefix is a mount point, and
of the mounts at this point it is the newest. -/
structure IsLongest (mounts : List Mount) (path : Path) (m : Mount) : Prop where
  mounted : m ∈ mounts
  isPrefix : m.point <+: path
  longest : ∀ m' ∈ mounts, m'.point <+: path → m'.point.length ≤ m.point.length
  newest : ∀ m' ∈ mounts, m'.point = m.point → m'.id ≤ m.id

/-- A lookup finds the mount at the longest prefix, if there is one, and the mount that a thread takes
a reference to is still there. -/
def Answers (st : MountState) : MountOp → Prop
  | .find t path => (∃ m ∈ st.mounts, m.point <+: path) →
    ∃ m, (mountFind st t path).1 = some m ∧ IsLongest st.mounts path m
  | .take t => ∀ m, st.taking t = some m → m ∈ st.mounts
  | _ => True

/-- A lookup that passes the check has no mount point deeper in its path; a mount is not removed while
a thread is about to take a reference to it; and the version does not wrap. -/
def InTable (st : MountState) : MountOp → Prop
  | .find t path => ∀ m, mountCacheCheck st t path = some m →
    ∀ m' ∈ st.mounts, m'.point <+: path → m'.point.length ≤ m.point.length
  | .mount _ err => 0 ≤ err → st.version + 1 < 18446744073709551616
  | .umount point => ∀ m, mountAt st point = some m → st.refcount m.id = 0 →
    st.version + 1 < 18446744073709551616 ∧ ∀ t, st.taking t ≠ some m
  | _ => True

end IosLinuxkit.Fs
