import Mathlib.Logic.Function.Basic
import IosLinuxkit.Fs.GuestPath

/-!
# The host's directory tree

The names under the data directory and what POSIX lets the host's calls do to them. A call may fail
for any reason and then does nothing; otherwise it does what is asked of it, on a tree that allows
it. A guest's symbolic link is a file here, so there are no host links to follow.
-/

namespace IosLinuxkit.Fs

/-- What a name stands for: names with one `ino` are hard links of one file. -/
structure HostNode where
  ino : Nat
  dir : Bool
  deriving DecidableEq, Repr

abbrev Tree := Path → Option HostNode

def IsDir (t : Tree) (p : Path) : Prop := ∃ x, t p = some x ∧ x.dir = true

def FreshIno (t : Tree) (ino : Nat) : Prop := ∀ p x, t p = some x → x.ino ≠ ino

def eEXIST : Int := -17

/-- `mkdirat`, `mkfifo` and `openat` with `O_CREAT | O_EXCL`; the name must not be taken. -/
inductive HostCreate (t : Tree) (p : Path) (dir : Bool) : Int → Tree → Prop
  | fail {r : Int} (hr : r < 0) (hexist : r = eEXIST → (t p).isSome) : HostCreate t p dir r t
  | ok {ino : Nat} (hfree : t p = none) (hparent : IsDir t p.dropLast) (hino : FreshIno t ino) :
    HostCreate t p dir 0 (Function.update t p (some ⟨ino, dir⟩))

/-- `openat` with `O_CREAT` -/
inductive HostOpen (t : Tree) (p : Path) (excl : Bool) : Int → Tree → Prop
  | fail {r : Int} (hr : r < 0) : HostOpen t p excl r t
  | exist {x : HostNode} (hx : t p = some x) (hfile : x.dir = false) (hexcl : excl = false) :
    HostOpen t p excl 0 t
  | create {t' : Tree} (h : HostCreate t p false 0 t') : HostOpen t p excl 0 t'

inductive HostLink (t : Tree) (src dst : Path) : Int → Tree → Prop
  | fail {r : Int} (hr : r < 0) : HostLink t src dst r t
  | ok {x : HostNode} (hsrc : t src = some x) (hfile : x.dir = false) (hdst : t dst = none)
    (hparent : IsDir t dst.dropLast) : HostLink t src dst 0 (Function.update t dst (some x))

/-- `unlinkat`, of a directory with `AT_REMOVEDIR`: it must be empty. -/
inductive HostRemove (t : Tree) (p : Path) (dir : Bool) : Int → Tree → Prop
  | fail {r : Int} (hr : r < 0) : HostRemove t p dir r t
  | ok {x : HostNode} (hx : t p = some x) (hdir : x.dir = dir)
    (hempty : ∀ q, q ≠ [] → t (p ++ q) = none) :
    HostRemove t p dir 0 (Function.update t p none)

/-- The tree with `src`, and what is under it, at `dst`. -/
def Tree.moved (t : Tree) (src dst : Path) : Tree := fun p =>
  if dst <+: p then t (src ++ p.drop dst.length)
  else if src <+: p then none
  else t p

/-- `renameat`. If both names are the same file it does nothing; nothing is moved under itself, and
a directory in the way must be empty. -/
inductive HostRename (t : Tree) (src dst : Path) : Int → Tree → Prop
  | fail {r : Int} (hr : r < 0) : HostRename t src dst r t
  | same {x y : HostNode} (hx : t src = some x) (hy : t dst = some y) (hino : x.ino = y.ino) :
    HostRename t src dst 0 t
  | move {x : HostNode} (hx : t src = some x)
    (hother : ∀ y, t dst = some y → y.ino ≠ x.ino ∧ y.dir = x.dir)
    (hparent : IsDir t dst.dropLast) (hunder : ¬ src <+: dst)
    (hempty : ∀ q, q ≠ [] → t (dst ++ q) = none) :
    HostRename t src dst 0 (t.moved src dst)

/-! ## Moving a subtree -/

theorem rename_apart {t : Tree} {src dst : Path} {x : HostNode} (hx : t src = some x)
    (hunder : ¬ src <+: dst) (hempty : ∀ q, q ≠ [] → t (dst ++ q) = none) (q r : Path) :
    dst ++ q ≠ src ++ r := by
  intro h
  rcases List.append_eq_append_iff.mp h with ⟨a, ha, _⟩ | ⟨a, ha, _⟩
  · -- `src` is at or under `dst`
    cases a with
    | nil =>
      rw [List.append_nil] at ha
      exact hunder (ha ▸ List.prefix_rfl)
    | cons n a =>
      have hnone := hempty (n :: a) (List.cons_ne_nil _ _)
      rw [← ha, hx] at hnone
      cases hnone
  · exact hunder ⟨a, ha.symm⟩

end IosLinuxkit.Fs
