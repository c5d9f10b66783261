import IosLinuxkit.Lib.Run

/-!
# Credentials

`kernel/getset.c`: the three user ids and the three group ids of a task, its supplementary groups, and the
calls that set them.
-/

namespace IosLinuxkit.Creds

def ePERM : Int := -1
def eFAULT : Int := -14
def eINVAL : Int := -22

def maxGroups : Nat := 32

/-- `uid_t_` -/
abbrev Id := BitVec 32

/-- The argument that keeps an id: `(uid_t) -1`. -/
def keepId : Id := BitVec.allOnes 32

/-- Real, effective and saved id. -/
structure Ids where
  real : Id
  effective : Id
  saved : Id
  deriving DecidableEq

/-- The fields of `struct task`. The bytes of `groups` are the array of `MAX_GROUPS` words. -/
structure Creds where
  uids : Ids
  gids : Ids
  ngroups : Nat
  groups : List UInt8

/-- `superuser()` -/
def Creds.superuser (c : Creds) : Bool := c.uids.effective == 0

/-- Entry `i` of the array, in little-endian order. -/
def groupAt (groups : List UInt8) (i : Nat) : Id :=
  let byte := fun j => (groups.getD (4 * i + j) 0).toBitVec
  byte 3 ++ byte 2 ++ byte 1 ++ byte 0

def Creds.supplementary (c : Creds) : List Id := (List.range c.ngroups).map (groupAt c.groups)

/-! ## Ids -/

/-- `sys_setuid` and `sys_setgid` -/
def setId (superuser : Bool) (ids : Ids) (id : Id) : Int × Ids :=
  if superuser then (0, ⟨id, id, id⟩)
  else if id ≠ ids.real ∧ id ≠ ids.saved then (ePERM, ids)
  else (0, { ids with effective := id })

/-- An argument that `sys_setresuid` refuses. -/
def refused (ids : Ids) (id : Id) : Bool :=
  id ≠ keepId ∧ id ≠ ids.real ∧ id ≠ ids.effective ∧ id ≠ ids.saved

/-- `sys_setresuid` and `sys_setresgid` -/
def setresId (superuser : Bool) (ids : Ids) (real effective saved : Id) : Int × Ids :=
  if !superuser && (refused ids real || refused ids effective || refused ids saved) then (ePERM, ids)
  else
    (0, { real := if real ≠ keepId then real else ids.real
          effective := if effective ≠ keepId then effective else ids.effective
          saved := if saved ≠ keepId then saved else ids.saved })

namespace Creds

def withUids (c : Creds) (r : Int × Ids) : Int × Creds := (r.1, { c with uids := r.2 })
def withGids (c : Creds) (r : Int × Ids) : Int × Creds := (r.1, { c with gids := r.2 })

def sysSetuid (c : Creds) (uid : Id) : Int × Creds := c.withUids (setId c.superuser c.uids uid)

def sysSetresuid (c : Creds) (ruid euid suid : Id) : Int × Creds :=
  c.withUids (setresId c.superuser c.uids ruid euid suid)

def sysSetreuid (c : Creds) (ruid euid : Id) : Int × Creds := c.sysSetresuid ruid euid keepId

def sysSetgid (c : Creds) (gid : Id) : Int × Creds := c.withGids (setId c.superuser c.gids gid)

def sysSetresgid (c : Creds) (rgid egid sgid : Id) : Int × Creds :=
  c.withGids (setresId c.superuser c.gids rgid egid sgid)

def sysSetregid (c : Creds) (rgid egid : Id) : Int × Creds := c.sysSetresgid rgid egid keepId

/-! ## Groups -/

/-- What `user_read` does with the list of groups: the bytes that it has copied when it returns, and whether
it meets a page that it cannot read. -/
structure UserRead where
  copied : List UInt8
  fault : Bool

/-- The array, with the bytes that were copied into it. -/
def overlay (groups : List UInt8) (size : Nat) (r : UserRead) : List UInt8 :=
  r.copied.take (size * 4) ++ groups.drop (r.copied.take (size * 4)).length

/-- `sys_setgroups`. The list is read into the array of the task. -/
def sysSetgroups (c : Creds) (size : Nat) (r : UserRead) : Int × Creds :=
  if maxGroups < size then (eINVAL, c)
  else if r.fault then (eFAULT, { c with groups := overlay c.groups size r })
  else (0, { c with groups := overlay c.groups size r, ngroups := size })

end Creds

/-! ## The calls of a task -/

inductive CredOp where
  | setuid (uid : Id)
  | setreuid (ruid euid : Id)
  | setresuid (ruid euid suid : Id)
  | setgid (gid : Id)
  | setregid (rgid egid : Id)
  | setresgid (rgid egid sgid : Id)
  | setgroups (size : Nat) (r : Creds.UserRead)

def credCall (c : Creds) : CredOp → Int × Creds
  | .setuid uid => c.sysSetuid uid
  | .setreuid ruid euid => c.sysSetreuid ruid euid
  | .setresuid ruid euid suid => c.sysSetresuid ruid euid suid
  | .setgid gid => c.sysSetgid gid
  | .setregid rgid egid => c.sysSetregid rgid egid
  | .setresgid rgid egid sgid => c.sysSetresgid rgid egid sgid
  | .setgroups size r => c.sysSetgroups size r

def credStep (c : Creds) (op : CredOp) : Creds := (credCall c op).2

/-! ## What ought to hold -/

def Ids.Mem (id : Id) (ids : Ids) : Prop := id = ids.real ∨ id = ids.effective ∨ id = ids.saved

instance (id : Id) (ids : Ids) : Decidable (ids.Mem id) := inferInstanceAs (Decidable (_ ∨ _ ∨ _))

/-- All ids are among those of before. -/
structure Ids.Within (ids old : Ids) : Prop where
  real : old.Mem ids.real
  effective : old.Mem ids.effective
  saved : old.Mem ids.saved

/-- No identity is new. -/
structure Within (c₀ c : Creds) : Prop where
  uids : c.uids.Within c₀.uids
  gids : c.gids.Within c₀.gids
  groups : ∀ g ∈ c.supplementary, g ∈ c₀.supplementary

/-- What can be seen of the credentials. -/
structure Same (c c' : Creds) : Prop where
  uids : c'.uids = c.uids
  gids : c'.gids = c.gids
  groups : c'.supplementary = c.supplementary

def Unprivileged (c : Creds) : Prop := ¬ c.uids.Mem 0

instance (c : Creds) : Decidable (Unprivileged c) := inferInstanceAs (Decidable (¬ _))

/-- After the call no identity is new, for a task that started with `c₀`; and a call that fails has changed
nothing. -/
def Lawful (c₀ c : Creds) (op : CredOp) : Prop :=
  Within c₀ (credCall c op).2 ∧ ((credCall c op).1 < 0 → Same c (credCall c op).2)

/-- A list for `setgroups` has groups of the task only; a list that cannot be read to its end has not been
copied over a group of the task that is different. -/
def OwnGroups (c₀ c : Creds) : CredOp → Prop
  | .setgroups size r => size ≤ maxGroups →
    if r.fault then ∀ i < c.ngroups, groupAt (Creds.overlay c.groups size r) i = groupAt c.groups i
    else ∀ i < size, groupAt (Creds.overlay c.groups size r) i ∈ c₀.supplementary
  | _ => True

end IosLinuxkit.Creds
