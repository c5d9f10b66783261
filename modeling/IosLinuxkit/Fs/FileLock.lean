import Mathlib.Data.List.Basic
import IosLinuxkit.Lib.Run

/-!
# POSIX byte-range locks of an inode

`fs/lock.c`: the list `posix_locks` of an inode, `file_lock_acquire` and
`file_lock_remove_owned_by`. Each call runs under the inode's lock, so a history of an inode is a
list of calls.
-/

namespace IosLinuxkit.Fs

/-- `F_RDLCK_`, `F_WRLCK_`, `F_UNLCK_`. -/
inductive LockType where
  | rdlck
  | wrlck
  | unlck
deriving DecidableEq, Repr

/-- `struct file_lock` without its list links. A request has the same type; `unlck` is only found
in requests. The source's `end` is `stop`. -/
structure FileLock (Owner : Type) where
  start : Int
  stop : Int
  type : LockType
  owner : Owner
  pid : Int
deriving DecidableEq, Repr

/-- The least `off_t_`, a signed 64-bit integer. -/
def offTMin : Int := -9223372036854775808

def offTMax : Int := 9223372036854775807

/-- The value a 64-bit signed computation with result `x` leaves. -/
def wrapOff (x : Int) : Int := (x + 9223372036854775808) % 18446744073709551616 - 9223372036854775808

variable {Owner : Type} [DecidableEq Owner]

namespace FileLock

/-- The offset `x` lies in the range of the lock; both ends are inclusive. -/
def Covers (l : FileLock Owner) (x : Int) : Prop := l.start ≤ x ∧ x ≤ l.stop

instance (l : FileLock Owner) (x : Int) : Decidable (l.Covers x) :=
  inferInstanceAs (Decidable (_ ∧ _))

/-- A range of offsets: not empty, and both ends are values of an `off_t_`. -/
structure Valid (l : FileLock Owner) : Prop where
  lo : offTMin ≤ l.start
  le : l.start ≤ l.stop
  hi : l.stop ≤ offTMax

instance (l : FileLock Owner) : Decidable l.Valid :=
  decidable_of_iff (offTMin ≤ l.start ∧ l.start ≤ l.stop ∧ l.stop ≤ offTMax)
    ⟨fun h => ⟨h.1, h.2.1, h.2.2⟩, fun h => ⟨h.lo, h.le, h.hi⟩⟩

end FileLock

abbrev LockRequest (Owner : Type) := { l : FileLock Owner // l.Valid }

/-! ## The tests -/

def fileLocksOverlap (a b : FileLock Owner) : Bool :=
  decide (b.start ≤ a.stop) && decide (a.start ≤ b.stop)

def fileLocksConflict (a b : FileLock Owner) : Bool :=
  if a.owner = b.owner then false
  else if !fileLocksOverlap a b then false
  else decide (a.type = .wrlck) || decide (b.type = .wrlck)

/-- `file_locks_adjacent`. The differences are computed in an `off_t_`. -/
def fileLocksAdjacent (a b : FileLock Owner) : Bool :=
  decide (a.stop = wrapOff (b.start - 1)) || decide (b.stop = wrapOff (a.start - 1))

/-! ## `file_lock_acquire` -/

/-- What `request` leaves of a lock of another type that it overlaps. -/
def remains (request lock : FileLock Owner) : List (FileLock Owner) :=
  if lock.start < request.start ∧ request.stop < lock.stop then
    -- the lock sticks out on both ends
    [{ lock with stop := request.start - 1 }, { lock with start := request.stop + 1 }]
  else if request.start ≤ lock.start ∧ lock.stop ≤ request.stop then
    []
  else if lock.start < request.start then
    [{ lock with stop := request.start - 1 }]
  else if request.stop < lock.stop then
    [{ lock with start := request.stop + 1 }]
  else [lock]

/-- `request` after it was extended until it covers `lock`. -/
def extend (request lock : FileLock Owner) : FileLock Owner :=
  { request with
    start := if lock.start < request.start then lock.start else request.start
    stop := if request.stop < lock.stop then lock.stop else request.stop }

/-- What one pass of the loop's body leaves: the request, what stands in the list for the lock, and
whether waiters were notified. -/
structure Visit (Owner : Type) where
  request : FileLock Owner
  left : List (FileLock Owner)
  notified : Bool

/-- The body of the loop at a lock of the request's owner. -/
def visit (request lock : FileLock Owner) : Visit Owner :=
  if request.type = lock.type then
    if !fileLocksOverlap lock request && !fileLocksAdjacent request lock then
      ⟨request, [lock], false⟩
    else ⟨extend request lock, [], false⟩
  else if !fileLocksOverlap lock request then ⟨request, [lock], false⟩
  else ⟨request, remains request lock, true⟩

/-- What is put in the list for the request after the loop. -/
def placed (request : FileLock Owner) : List (FileLock Owner) :=
  if request.type = .unlck then [] else [request]

/-- The loop and the insertion after it. `found` is `found_our_locks`. The new lock goes before the
lock at which the loop breaks, or to the end of the list. -/
def walk (request : FileLock Owner) (found : Bool) :
    List (FileLock Owner) → List (FileLock Owner) × Bool
  | [] => (placed request, false)
  | lock :: rest =>
    if lock.owner ≠ request.owner then
      if found then (placed request ++ lock :: rest, false)
      else
        let w := walk request false rest
        (lock :: w.1, w.2)
    else
      let v := visit request lock
      let w := walk v.request true rest
      (v.left ++ w.1, v.notified || w.2)

/-- `file_lock_acquire`: none for `EAGAIN`, else the new list and whether waiters were notified. -/
def fileLockAcquire (locks : List (FileLock Owner)) (request : FileLock Owner) :
    Option (List (FileLock Owner) × Bool) :=
  if request.type ≠ .unlck ∧ locks.any (fileLocksConflict · request) then none
  else some (walk request false locks)

def fileLockRemoveOwnedBy (locks : List (FileLock Owner)) (owner : Owner) : List (FileLock Owner) :=
  locks.filter fun l => l.owner ≠ owner

/-! ## Histories of an inode -/

inductive LockCall (Owner : Type) where
  | acquire (request : LockRequest Owner)
  | removeOwnedBy (owner : Owner)

/-- The list after a call. A refused request leaves it as it is. -/
def lockStep (locks : List (FileLock Owner)) : LockCall Owner → List (FileLock Owner)
  | .acquire request => ((fileLockAcquire locks request.1).map Prod.fst).getD locks
  | .removeOwnedBy owner => fileLockRemoveOwnedBy locks owner

/-- The call returns `EAGAIN`. -/
def refused (locks : List (FileLock Owner)) : LockCall Owner → Prop
  | .acquire request => fileLockAcquire locks request.1 = none
  | .removeOwnedBy _ => False

/-- The type of lock that `owner` holds at an offset, `unlck` for none. -/
def heldType (locks : List (FileLock Owner)) (owner : Owner) (x : Int) : LockType :=
  match locks.find? fun l => l.owner = owner ∧ l.Covers x with
  | some l => l.type
  | none => .unlck

/-! ## The map the list stands for

`LockMap` is the specification: a call changes the caller's owner on the offsets of its range. -/

abbrev LockMap (Owner : Type) := Owner → Int → LockType

namespace LockMap

def Conflicting : LockType → LockType → Prop
  | .unlck, _ => False
  | _, .unlck => False
  | a, b => a = .wrlck ∨ b = .wrlck

/-- Another owner holds a conflicting type on some offset of the range. -/
def Blocked (m : LockMap Owner) (r : FileLock Owner) : Prop :=
  ∃ o x, o ≠ r.owner ∧ r.Covers x ∧ Conflicting (m o x) r.type

/-- The owner of `r` gets its type on the offsets of its range. -/
def put (m : LockMap Owner) (r : FileLock Owner) : LockMap Owner :=
  fun o x => if o = r.owner ∧ r.Covers x then r.type else m o x

def clear (m : LockMap Owner) (owner : Owner) : LockMap Owner :=
  fun o x => if o = owner then .unlck else m o x

def Refuses (m : LockMap Owner) : LockCall Owner → Prop
  | .acquire r => m.Blocked r.1
  | .removeOwnedBy _ => False

open Classical in
/-- The specification of a call: it changes exactly the caller's owner on exactly its range, or
nothing when it is refused. -/
noncomputable def step (m : LockMap Owner) : LockCall Owner → LockMap Owner
  | .acquire r => if m.Blocked r.1 then m else m.put r.1
  | .removeOwnedBy owner => m.clear owner

def empty : LockMap Owner := fun _ _ => .unlck

/-- No offset carries a write lock of one owner together with a lock of another. -/
def Exclusive (m : LockMap Owner) : Prop :=
  ∀ o o' x, o ≠ o' → m o x = .wrlck → m o' x = .unlck

end LockMap

/-- The condition on a call that asks for a lock: if its owner then holds the requested type at both
the least and the greatest offset, it holds it at every offset. -/
def NoWrap (locks : List (FileLock Owner)) : LockCall Owner → Prop
  | .acquire r => r.1.type ≠ .unlck →
      (r.1.Covers offTMin ∨ heldType locks r.1.owner offTMin = r.1.type) →
      (r.1.Covers offTMax ∨ heldType locks r.1.owner offTMax = r.1.type) →
      ∀ x, offTMin ≤ x → x ≤ offTMax → r.1.Covers x ∨ heldType locks r.1.owner x = r.1.type
  | .removeOwnedBy _ => True

end IosLinuxkit.Fs
