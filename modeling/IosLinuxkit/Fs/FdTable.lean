import IosLinuxkit.Lib.Assoc
import IosLinuxkit.Lib.Run

/-!
# Descriptor tables

`fs/fd.c`: the table of open files of a process, and the calls that change it. Indices are the guest's
signed integers; the size is unsigned. A call works on one table and the counts of the open files; an
access outside of the array sets `corrupt`.
-/

namespace IosLinuxkit.Fs

def eMFILE : Int := -24

/-- The conversions to `int` and to `unsigned`. -/
def toInt32 (x : Int) : Int := (x + 2147483648) % 4294967296 - 2147483648
def toUInt32 (x : Int) : Nat := (x % 4294967296).toNat

/-- `struct fdtable`. A bit of `cloexec` belongs to any index that `bit_set` is called with. -/
structure FdTable where
  files : List (Option Nat)
  cloexec : Int → Bool
  users : Nat

def FdTable.slot (t : FdTable) (f : Nat) : Option Nat := (t.files[f]?).join

/-- A table with the counts of all open files. -/
structure FdView where
  table : FdTable
  refcount : Nat → Int
  corrupt : Bool

def bump (d : Nat) (k : Int) (count : Nat → Int) : Nat → Int := fun i => if i = d then count i + k else count i

namespace FdView

/-- `fd_retain`, `fd_close` -/
def retain (v : FdView) (d : Nat) : FdView := { v with refcount := bump d 1 v.refcount }
def fdClose (v : FdView) (d : Nat) : FdView := { v with refcount := bump d (-1) v.refcount }

/-- `table->files[f] = fd` -/
def store (v : FdView) (f : Int) (x : Option Nat) : FdView :=
  if 0 ≤ f ∧ f < v.table.files.length then
    { v with table := { v.table with files := v.table.files.set f.toNat x } }
  else { v with corrupt := true }

/-- `bit_set`, `bit_clear` -/
def setBit (v : FdView) (f : Int) (b : Bool) : FdView :=
  { v with table := { v.table with cloexec := fun i => if i = f then b else v.table.cloexec i } }

/-- `fdtable_get` -/
def get (v : FdView) (f : Int) : Option Nat :=
  if f < 0 ∨ (v.table.files.length : Int) ≤ f then none else v.table.slot f.toNat

/-! ## What the calls are made of -/

/-- `fdtable_expand`, with `fdtable_resize`. The bits are copied in whole bytes. -/
def fdtableExpand (v : FdView) (max : Int) (limit : Nat) (memory : Bool) : Int × FdView :=
  let size := toUInt32 (max + 1)
  if limit < size then (eMFILE, v)
  else if size ≤ v.table.files.length then (0, v)
  else if !memory then (-12, v)
  else
    let old := v.table.files.length
    (0, { v with table := { v.table with
      files := v.table.files ++ List.replicate (size - old) none
      cloexec := fun i => decide (0 ≤ i ∧ i < ((old - 1) / 8 + 1) * 8) && v.table.cloexec i } })

/-- The index at which the search of `f_install_start` ends. -/
def firstFree (files : List (Option Nat)) (start size : Nat) : Nat :=
  start + ((files.take size).drop start).findIdx Option.isNone

/-- The size that the search goes up to: `rlimit` in an `unsigned`, or the size of the table. -/
def searchSize (v : FdView) (limit : Nat) : Nat := min (toUInt32 limit) v.table.files.length

/-- `f_install_start` from the end of its search on. It consumes the reference. -/
def installAt (v : FdView) (d size : Nat) (f : Int) (limit : Nat) (memory : Bool) : Int × FdView :=
  let (f, v) :=
    if size ≤ toUInt32 f then
      let (err, v) := v.fdtableExpand f limit memory
      (if err < 0 then err else f, v)
    else (f, v)
  if 0 ≤ f then (f, (v.store f (some d)).setBit f false) else (f, v.fdClose d)

/-- `f_install_start` for a start that passes its assertion. The search counts in an `int`. -/
def fInstallStart (v : FdView) (d start limit : Nat) (memory : Bool) : Int × FdView :=
  v.installAt d (v.searchSize limit) (toInt32 (firstFree v.table.files start (v.searchSize limit)))
    limit memory

def fInstall (v : FdView) (d limit : Nat) (cloexec memory : Bool) : Int × FdView :=
  let (f, v) := v.fInstallStart d 0 limit memory
  (f, if 0 ≤ f ∧ cloexec then v.setBit f true else v)

def fdtableClose (v : FdView) (f : Int) : Int × FdView :=
  match v.get f with
  | none => (-9, v)
  | some d => (0, ((v.fdClose d).store f none).setBit f false)

/-! ## The calls -/

def sysDup (v : FdView) (f : Int) (limit : Nat) (memory : Bool) : Int × FdView :=
  match v.get f with
  | none => (-9, v)
  | some d => (v.retain d).fInstall d limit false memory

def sysDup3 (v : FdView) (f newF : Int) (limit : Nat) (cloexec memory : Bool) : Int × FdView :=
  match v.get f with
  | none => (-9, v)
  | some d =>
    let (err, v) := v.fdtableExpand newF limit memory
    if err < 0 then (err, v)
    else
      let v := v.retain d
      let v := (v.fdtableClose newF).2
      let v := v.store newF (some d)
      (newF, if cloexec then v.setBit newF true else v)

/-- `F_DUPFD` and `F_DUPFD_CLOEXEC` of `sys_fcntl`. The argument becomes an `int`; nothing comes back
when it is negative, for the whole program ends at the assertion in `f_install_start`. -/
def sysFcntlDupfd (v : FdView) (f arg : Int) (limit : Nat) (cloexec memory : Bool) :
    Option (Int × FdView) :=
  match v.get f with
  | none => some (-9, v)
  | some d =>
    if toInt32 arg < 0 then none
    else
      let (newF, v) := (v.retain d).fInstallStart d (toInt32 arg).toNat limit memory
      some (newF, if cloexec then v.setBit newF true else v)

/-- `F_SETFD` -/
def sysFcntlSetfd (v : FdView) (f : Int) (on : Bool) : Int × FdView :=
  match v.get f with
  | none => (-9, v)
  | some _ => (0, v.setBit f on)

def closeAll (v : FdView) : List Nat → FdView
  | [] => v
  | f :: fs => closeAll (v.fdtableClose f).2 fs

def cloexecAll (v : FdView) : List Nat → FdView
  | [] => v
  | f :: fs => cloexecAll (if (v.table.slot f).isSome then v.setBit f true else v) fs

/-- `sys_close_range` on `unsigned` arguments, with the flags that it accepts. -/
def sysCloseRange (v : FdView) (first last : Nat) (cloexec : Bool) : Int × FdView :=
  if last < first then (-22, v)
  else if v.table.files.length = 0 then (0, v)
  else
    let last := if v.table.files.length ≤ last then v.table.files.length - 1 else last
    if v.table.files.length ≤ first ∨ last < first then (0, v)
    else
      let range := List.range' first (last + 1 - first)
      (0, if cloexec then v.cloexecAll range else v.closeAll range)

/-- `fdtable_do_cloexec` -/
def doCloexecFrom (v : FdView) : List Nat → FdView
  | [] => v
  | f :: fs => doCloexecFrom (if v.table.cloexec f then (v.fdtableClose f).2 else v) fs

def fdtableDoCloexec (v : FdView) : FdView := v.doCloexecFrom (List.range v.table.files.length)

end FdView

/-! ## All tables -/

/-- All tables and open files; a file that is not open has the count 0. `held` has the references
that are in flight. -/
structure Fds where
  tables : AList (fun _ : Nat => FdTable)
  nextTable : Nat
  refcount : Nat → Int
  held : List Nat
  corrupt : Bool

/-- `fdtable_new(3)` for the first task. -/
def Fds.init : Fds :=
  ⟨(∅ : AList (fun _ : Nat => FdTable)).insert 0 ⟨[none, none, none], fun _ => false, 1⟩, 1, fun _ => 0,
    [], false⟩

namespace Fds

def view (st : Fds) (t : FdTable) : FdView := ⟨t, st.refcount, st.corrupt⟩

/-- The state with table `a` and the counts of the view. -/
def put (st : Fds) (a : Nat) (v : FdView) : Fds :=
  { st with tables := st.tables.insert a v.table, refcount := v.refcount, corrupt := v.corrupt }

/-- A call on table `a`. -/
def call (st : Fds) (a : Nat) (f : FdView → Int × FdView) : Int × Fds :=
  match st.tables.lookup a with
  | none => (-9, st)
  | some t =>
    let (err, v) := f (st.view t)
    (err, st.put a v)

/-- `fd_create` in free memory: the reference is in flight until the file is installed. -/
def create (st : Fds) (d : Nat) : Fds :=
  if st.refcount d = 0 then
    { st with
      refcount := fun i => if i = d then 1 else st.refcount i
      held := d :: st.held }
  else st

/-- Somebody takes a reference to an open file, and gives it back. -/
def hold (st : Fds) (d : Nat) : Fds :=
  if 0 < st.refcount d then { st with refcount := bump d 1 st.refcount, held := d :: st.held } else st

def release (st : Fds) (d : Nat) : Fds :=
  if d ∈ st.held then { st with refcount := bump d (-1) st.refcount, held := st.held.erase d } else st

/-- `f_install` of a reference that is in flight. -/
def install (st : Fds) (a d limit : Nat) (cloexec memory : Bool) : Int × Fds :=
  match st.tables.lookup a with
  | none => (-9, st)
  | some t =>
    if d ∈ st.held then
      let (f, v) := (st.view t).fInstall d limit cloexec memory
      (f, { st with held := st.held.erase d }.put a v)
    else (-9, st)

/-- `refcount++` on every file of the table. -/
def retainAll (count : Nat → Int) : List (Option Nat) → Nat → Int
  | [] => count
  | none :: files => retainAll count files
  | some d :: files => retainAll (bump d 1 count) files

/-- `fdtable_copy`. The size goes through an `int`. -/
def fdtableCopy (st : Fds) (a : Nat) (memory : Bool) : Int × Fds :=
  match st.tables.lookup a with
  | none => (-9, st)
  | some t =>
    if !memory then (-12, st)
    else if 2147483648 ≤ t.files.length then (0, { st with corrupt := true })
    else
      let new : FdTable :=
        ⟨t.files, fun i => decide (0 ≤ i ∧ i < ((t.files.length - 1) / 8 + 1) * 8) && t.cloexec i, 1⟩
      (st.nextTable, { st with
        tables := st.tables.insert st.nextTable new
        nextTable := st.nextTable + 1
        refcount := retainAll st.refcount t.files })

/-- `CLONE_FILES` -/
def share (st : Fds) (a : Nat) : Fds :=
  match st.tables.lookup a with
  | none => st
  | some t => { st with tables := st.tables.insert a { t with users := t.users + 1 } }

def fdtableRelease (st : Fds) (a : Nat) : Fds :=
  match st.tables.lookup a with
  | none => st
  | some t =>
    if t.users - 1 = 0 then
      let v := (st.view t).closeAll (List.range t.files.length)
      { st with tables := st.tables.erase a, refcount := v.refcount, corrupt := v.corrupt }
    else { st with tables := st.tables.insert a { t with users := t.users - 1 } }

end Fds

/-! ## Runs -/

/-- The calls on table `a`. `limit` is the value of `RLIMIT_NOFILE` at the call, any 64-bit number; the
descriptors become `int`s. -/
inductive FdOp where
  | create (d : Nat)
  | hold (d : Nat)
  | release (d : Nat)
  | install (a d limit : Nat) (cloexec memory : Bool)
  | dup (a : Nat) (f : Int) (limit : Nat) (memory : Bool)
  | dup3 (a : Nat) (f newF : Int) (limit : Nat) (cloexec memory : Bool)
  | dupfd (a : Nat) (f arg : Int) (limit : Nat) (cloexec memory : Bool)
  | setfd (a : Nat) (f : Int) (on : Bool)
  | close (a : Nat) (f : Int)
  | closeRange (a first last : Nat) (cloexec : Bool)
  | doCloexec (a : Nat)
  | copy (a : Nat) (memory : Bool)
  | share (a : Nat)
  | drop (a : Nat)

def fdCall (st : Fds) : FdOp → Int × Fds
  | .create d => (0, st.create d)
  | .hold d => (0, st.hold d)
  | .release d => (0, st.release d)
  | .install a d limit cloexec memory => st.install a d limit cloexec memory
  | .dup a f limit memory => st.call a (fun v => v.sysDup (toInt32 f) limit memory)
  | .dup3 a f newF limit cloexec memory =>
    st.call a (fun v => v.sysDup3 (toInt32 f) (toInt32 newF) limit cloexec memory)
  | .dupfd a f arg limit cloexec memory =>
    -- after the assertion there is no program, and the state does not matter
    st.call a (fun v => (v.sysFcntlDupfd (toInt32 f) arg limit cloexec memory).getD (-1, v))
  | .setfd a f on => st.call a (fun v => v.sysFcntlSetfd (toInt32 f) on)
  | .close a f => st.call a (fun v => v.fdtableClose (toInt32 f))
  | .closeRange a first last cloexec => st.call a (fun v => v.sysCloseRange first last cloexec)
  | .doCloexec a => st.call a (fun v => (0, v.fdtableDoCloexec))
  | .copy a memory => st.fdtableCopy a memory
  | .share a => (0, st.share a)
  | .drop a => (0, st.fdtableRelease a)

def fdStep (st : Fds) (op : FdOp) : Fds := (fdCall st op).2

/-! ## What ought to hold -/

def FdTable.slots (d : Nat) (t : FdTable) : Int := (t.files.count (some d) : Nat)

/-- No access was outside of an array, every count is that of the slots and the references in flight,
and the bits are set on open slots only. -/
structure FdSafe (st : Fds) : Prop where
  intact : st.corrupt = false
  counted : ∀ d, st.refcount d = Assoc.sumBy (FdTable.slots d) st.tables + (st.held.count d : Nat)
  cloexec : ∀ a t, st.tables.lookup a = some t →
    ∀ i, t.cloexec i = true → 0 ≤ i ∧ (t.slot i.toNat).isSome

/-- The table of a call that returns a new descriptor, and the start of its search. -/
def startOf : FdOp → Option (Nat × Nat)
  | .install a _ _ _ _ => some (a, 0)
  | .dup a _ _ _ => some (a, 0)
  | .dupfd a _ arg _ _ _ => some (a, (toInt32 arg).toNat)
  | _ => none

/-- The target of `dup3`. -/
def targetOf : FdOp → Option (Nat × Nat)
  | .dup3 a _ newF _ _ _ => some (a, (toInt32 newF).toNat)
  | _ => none

/-- A new descriptor is the lowest free one from the start on. -/
def Lowest (st : Fds) (op : FdOp) : Prop :=
  ∀ a start t, startOf op = some (a, start) → st.tables.lookup a = some t → ∀ f : Nat,
    (fdCall st op).1 = f → start ≤ f ∧ t.slot f = none ∧ ∀ i, start ≤ i → i < f → (t.slot i).isSome

/-- An open slot stays as it is or is closed, the target of `dup3` apart. -/
def Spared (st : Fds) (op : FdOp) : Prop :=
  ∀ a t t' i, st.tables.lookup a = some t → (fdStep st op).tables.lookup a = some t' →
    (t.slot i).isSome → t'.slot i = t.slot i ∨ t'.slot i = none ∨ targetOf op = some (a, i)

/-! ## When it does -/

/-- The limit does not lose the bits that matter in an `unsigned`, and the search ends at an `int`. -/
def FdTable.Searchable (t : FdTable) (start limit : Nat) : Prop :=
  (limit < 4294967296 ∨ t.files.length ≤ toUInt32 limit) ∧
    FdView.firstFree t.files start (min (toUInt32 limit) t.files.length) < 2147483648

def FdTable.HasRoom (t : FdTable) (start limit : Nat) (memory : Bool) : Prop :=
  let size := min (toUInt32 limit) t.files.length
  let f := FdView.firstFree t.files start size
  f < size ∨ (f < limit ∧ (f < t.files.length ∨ memory))

/-- Searches as above; a target of `dup3` that is not negative, if the table can be expanded for it;
room for a descriptor that is to be closed on exec; and fewer than `2 ^ 31` slots in a table that is
copied. -/
def Bounded (st : Fds) : FdOp → Prop
  | .install a d limit _ _ => ∀ t, st.tables.lookup a = some t → d ∈ st.held → t.Searchable 0 limit
  | .dup a f limit _ => ∀ t, st.tables.lookup a = some t → ((st.view t).get (toInt32 f)).isSome →
    t.Searchable 0 limit
  | .dup3 a f newF limit _ memory => ∀ t, st.tables.lookup a = some t →
    ((st.view t).get (toInt32 f)).isSome →
    0 ≤ ((st.view t).fdtableExpand (toInt32 newF) limit memory).1 → 0 ≤ toInt32 newF
  | .dupfd a f arg limit cloexec memory => ∀ t, st.tables.lookup a = some t →
    ((st.view t).get (toInt32 f)).isSome → 0 ≤ toInt32 arg →
    t.Searchable (toInt32 arg).toNat limit ∧ (cloexec → t.HasRoom (toInt32 arg).toNat limit memory)
  | .copy a _ => ∀ t, st.tables.lookup a = some t → t.files.length < 2147483648
  | _ => True

end IosLinuxkit.Fs
