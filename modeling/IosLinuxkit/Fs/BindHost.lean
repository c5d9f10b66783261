import IosLinuxkit.Fs.BindMount
import IosLinuxkit.Fs.HostTree
import IosLinuxkit.Lib.NameGraph

/-!
# The host under bind mounts

The host's file system as objects: directories with entries, files, and the symbolic links that
stand in the data directory, or in the directory of another mount, where something is mounted. A
guest's path leads to an object from the data directory, the links followed, or from the host path
of a mount.

* `HostMake`, `HostOpenAt`, `HostWrite`, `HostLinkAt`, `HostUnlink`, `HostRenameAt` — what POSIX
  lets the host's calls do. A call that fails does nothing; the times of the directories and files
  that a call works on may change.
-/

namespace IosLinuxkit.Fs

inductive HostKind where
  | dir
  | file
  | link (target : HostId)
  deriving DecidableEq, Repr

/-- Contents and times; the host's owners and modes go with them. -/
structure HostData where
  content : List UInt8
  times : List Int
  deriving DecidableEq, Repr

structure HostFs where
  kind : HostId → Option HostKind
  entry : HostId → Name → Option HostId
  data : HostId → HostData
  inDir : ∀ d n x, entry d n = some x → kind d = some .dir
  leads : ∀ d n x, entry d n = some x → (kind x).isSome
  /-- a link leads to a directory or a file in the end -/
  target : ∀ x t, kind x = some (.link t) → kind t = some .dir ∨ kind t = some .file

variable {h h' : HostFs} {x y d : HostId} {n : Name} {p : Path}

def HostFs.follow (h : HostFs) (x : HostId) : HostId :=
  match h.kind x with
  | some (.link t) => t
  | _ => x

/-- Where a path leads from `x`, the links on the way followed. -/
def HostFs.walk (h : HostFs) (x : HostId) : Path → Option HostId
  | [] => some x
  | n :: p =>
    match h.entry (h.follow x) n with
    | none => none
    | some y => h.walk y p

theorem walk_concat (hw : h.walk x p = some y) (n : Name) :
    h.walk x (p ++ [n]) = h.entry (h.follow y) n := by
  induction p generalizing x with
  | nil =>
    cases hw
    rw [List.nil_append, HostFs.walk]
    split
    case h_1 hn => exact hn.symm
    case h_2 hn => exact hn.symm
  | cons m p ih =>
    rw [HostFs.walk] at hw
    rw [List.cons_append, HostFs.walk]
    split at hw
    case h_1 => cases hw
    case h_2 => exact ih hw

/-- The entry of a path: the directory it is in, and its name. -/
def Place (h : HostFs) (x : HostId) (p : Path) (d : HostId) (n : Name) : Prop :=
  ∃ q y, p = q ++ [n] ∧ h.walk x q = some y ∧ h.follow y = d

def setEntry (e : HostId → Name → Option HostId) (d : HostId) (n : Name) (v : Option HostId) :
    HostId → Name → Option HostId :=
  Function.update e d (Function.update (e d) n v)

/-- Nothing but the contents and times of some objects changes. -/
structure SameTree (h h' : HostFs) : Prop where
  kind : h'.kind = h.kind
  entry : h'.entry = h.entry

/-! ## Calls -/

/-- `mkdirat`, `mkfifo` and `openat` with `O_CREAT`, of a name that is free. -/
inductive HostMake (h : HostFs) (root : HostId) (p : Path) (k : HostKind) :
    Int → HostId → HostFs → Prop
  | fail {r : Int} {x : HostId} (hr : r < 0) : HostMake h root p k r x h
  | ok {d x : HostId} {n : Name} {h' : HostFs} (hplace : Place h root p d n)
    (hdir : h.kind d = some .dir) (hfree : h.entry d n = none) (hnew : h.kind x = none)
    (hkind : h'.kind = Function.update h.kind x (some k))
    (hentry : h'.entry = setEntry h.entry d n (some x))
    (hdata : ∀ y, y ≠ d → y ≠ x → h'.data y = h.data y) : HostMake h root p k 0 x h'

/-- `open` and `openat`: the object they open. -/
inductive HostOpenAt (h : HostFs) (root : HostId) (p : Path) (creat trunc : Bool) :
    Int → HostId → HostFs → Prop
  | fail {r : Int} {x : HostId} (hr : r < 0) : HostOpenAt h root p creat trunc r x h
  | exist {y : HostId} {h' : HostFs} (hwalk : h.walk root p = some y) (hsame : SameTree h h')
    (hdata : ∀ z, z ≠ h.follow y → h'.data z = h.data z) (htrunc : trunc = false → h' = h) :
    HostOpenAt h root p creat trunc 0 (h.follow y) h'
  | create {x : HostId} {h' : HostFs} (hcreat : creat = true)
    (hmake : HostMake h root p .file 0 x h') : HostOpenAt h root p creat trunc 0 x h'

/-- `write`, `ftruncate` and `utimensat`: they change the object's contents or times. -/
inductive HostWrite (h : HostFs) (x : HostId) : Int → HostFs → Prop
  | fail {r : Int} (hr : r < 0) : HostWrite h x r h
  | ok {r : Int} {h' : HostFs} (hr : 0 ≤ r) (hsame : SameTree h h')
    (hdata : ∀ z, z ≠ x → h'.data z = h.data z) : HostWrite h x r h'

/-- The same of the object of a path. -/
inductive HostWriteAt (h : HostFs) (root : HostId) (p : Path) : Int → HostFs → Prop
  | fail {r : Int} (hr : r < 0) : HostWriteAt h root p r h
  | ok {r : Int} {y : HostId} {h' : HostFs} (hwalk : h.walk root p = some y)
    (hwrite : HostWrite h (h.follow y) r h') : HostWriteAt h root p r h'

/-- `linkat`, which does not follow a link at the end of `src` -/
inductive HostLinkAt (h : HostFs) (root : HostId) (src dst : Path) : Int → HostFs → Prop
  | fail {r : Int} (hr : r < 0) : HostLinkAt h root src dst r h
  | ok {d x : HostId} {n : Name} {h' : HostFs} (hsrc : h.walk root src = some x)
    (hfile : h.kind x ≠ some .dir) (hplace : Place h root dst d n)
    (hdir : h.kind d = some .dir) (hfree : h.entry d n = none) (hkind : h'.kind = h.kind)
    (hentry : h'.entry = setEntry h.entry d n (some x))
    (hdata : ∀ y, y ≠ d → y ≠ x → h'.data y = h.data y) : HostLinkAt h root src dst 0 h'

/-- `unlinkat`, of an empty directory with `AT_REMOVEDIR` and of a file or a link without. -/
inductive HostUnlink (h : HostFs) (root : HostId) (p : Path) (dir : Bool) : Int → HostFs → Prop
  | fail {r : Int} (hr : r < 0) : HostUnlink h root p dir r h
  | ok {d x : HostId} {n : Name} {h' : HostFs} (hplace : Place h root p d n)
    (hx : h.entry d n = some x) (hdir : h.kind x = some .dir ↔ dir = true)
    (hempty : ∀ m, h.entry x m = none) (hkind : h'.kind = h.kind)
    (hentry : h'.entry = setEntry h.entry d n none)
    (hdata : ∀ y, y ≠ d → y ≠ x → h'.data y = h.data y) : HostUnlink h root p dir 0 h'

/-- `renameat`. Two names of one file are left as they are. -/
inductive HostRenameAt (h : HostFs) (root : HostId) (src dst : Path) : Int → HostFs → Prop
  | fail {r : Int} (hr : r < 0) : HostRenameAt h root src dst r h
  | same {x : HostId} (hsrc : h.walk root src = some x) (hdst : h.walk root dst = some x) :
    HostRenameAt h root src dst 0 h
  | ok {d e x : HostId} {n m : Name} {h' : HostFs} (hsrc : Place h root src d n)
    (hx : h.entry d n = some x) (hdst : Place h root dst e m) (hdir : h.kind e = some .dir)
    (hempty : ∀ y, h.entry e m = some y → ∀ k, h.entry y k = none) (hkind : h'.kind = h.kind)
    (hentry : h'.entry = setEntry (setEntry h.entry d n none) e m (some x))
    (hdata : ∀ y, y ≠ d → y ≠ e → y ≠ x → h.entry e m ≠ some y → h'.data y = h.data y) :
    HostRenameAt h root src dst 0 h'

/-! ## Names of objects -/

def HostFs.graph (h : HostFs) : Names.Graph HostId Name := { entry := h.entry, follow := h.follow }

/-- Where the walks of a guest path begin. -/
inductive Start (t : List BindMount) (root : HostId) : Path → HostId → Prop
  | data : Start t root [] root
  | mount {b : BindMount} (hb : b ∈ t) (hactive : b.active = true) : Start t root b.path b.host

def Reached (t : List BindMount) (root : HostId) (h : HostFs) (p : Path) (x : HostId) : Prop :=
  Names.Reach (Start t root) h.graph p x

section

variable {t : List BindMount} {root : HostId} {q : Path}

theorem Reached.walk (hp : Reached t root h p x) (hw : h.walk x q = some y) :
    Reached t root h (p ++ q) y := by
  induction q generalizing p x with
  | nil =>
    rw [List.append_nil]
    cases hw
    exact hp
  | cons n q ih =>
    rw [HostFs.walk] at hw
    split at hw
    case h_1 => cases hw
    case h_2 z hz =>
      rw [List.append_cons]
      exact ih (Names.Reach.step hp hz) hw

theorem reached_root : Reached t root h [] root := .base .data

theorem Place.reached (hx : Reached t root h q x) (hp : Place h x p d n) :
    ∃ r y, q ++ p = r ++ [n] ∧ Reached t root h r y ∧ h.follow y = d := by
  obtain ⟨r, y, rfl, hw, hd⟩ := hp
  exact ⟨q ++ r, y, (List.append_assoc q r [n]).symm, hx.walk hw, hd⟩

end

end IosLinuxkit.Fs
