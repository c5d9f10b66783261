import IosLinuxkit.Fs.FileLockMap
import Mathlib.Data.BitVec

/-!
# Lock requests of the guest

`struct flock_` and what `fs/lock.c` does with it before and after the list of locks is looked at:
`file_lock_from_flock`, `flock_from_file_lock`, `fcntl_getlk` and the checks of `fcntl_setlk`. The sums
are those of an `off_t_`, which wrap.

* **`flock_iff`** — when the conversion is right, and that it undoes the other one.
-/

namespace IosLinuxkit.Fs.Lock

/-! ## The structures -/

def fRDLCK : BitVec 16 := 0
def fWRLCK : BitVec 16 := 1
def fUNLCK : BitVec 16 := 2
def lseekSet : BitVec 16 := 0
def lseekCur : BitVec 16 := 1
def lseekEnd : BitVec 16 := 2
def eINVAL : Int := -22
def eBADF : Int := -9
def eAGAIN : Int := -11
def eINTR : Int := -4
def eFAULT : Int := -14

structure Flock where
  type : BitVec 16
  whence : BitVec 16
  start : BitVec 64
  len : BitVec 64
  pid : BitVec 32
deriving DecidableEq

/-- `struct flock32_`; the fields are unsigned. -/
structure Flock32 where
  type : BitVec 16
  whence : BitVec 16
  start : BitVec 32
  len : BitVec 32
  pid : BitVec 32
deriving DecidableEq

/-- The assignments of `sys_fcntl`. -/
def Flock32.toFlock (f : Flock32) : Flock :=
  ⟨f.type, f.whence, f.start.setWidth 64, f.len.setWidth 64, f.pid⟩

def flockType (type : BitVec 16) : Option LockType :=
  if type = fRDLCK then some .rdlck
  else if type = fWRLCK then some .wrlck
  else if type = fUNLCK then some .unlck
  else none

def typeCode : LockType → BitVec 16
  | .rdlck => fRDLCK
  | .wrlck => fWRLCK
  | .unlck => fUNLCK

/-- An open file as the calls see it, and who calls. `lseek` is the result of the operation, if the file
has it, for no movement from the current position; `size` is `stat.size`, or the error of `fstat`. -/
structure LockFd (Owner : Type) where
  mode : BitVec 2
  lseek : Option (Except Int (BitVec 64))
  size : Except Int (BitVec 64)
  /-- `current->files` -/
  owner : Owner
  pid : Int

variable {Owner : Type} [DecidableEq Owner]

/-! ## The conversions -/

/-- What `start` is relative to. -/
def baseOffset (fd : LockFd Owner) (whence : BitVec 16) : Except Int Int :=
  if whence = lseekSet then .ok 0
  else if whence = lseekCur then
    match fd.lseek with
    | none => .ok 0
    | some r => r.map BitVec.toInt
  else if whence = lseekEnd then fd.size.map BitVec.toInt
  else .error eINVAL

/-- `file_lock_from_flock`; `type` is `flock->type`, which its callers check. -/
def fileLockFromFlock (fd : LockFd Owner) (type : LockType) (flock : Flock) :
    Except Int (FileLock Owner) :=
  match baseOffset fd flock.whence with
  | .error e => .error e
  | .ok offset =>
    let start := wrapOff (flock.start.toInt + offset)
    let len := flock.len.toInt
    if 0 < len then .ok ⟨start, wrapOff (wrapOff (start + len) - 1), type, fd.owner, fd.pid⟩
    else if len < 0 then
      let stop := wrapOff (start - 1)
      .ok ⟨wrapOff (wrapOff (stop + len) + 1), stop, type, fd.owner, fd.pid⟩
    else .ok ⟨start, offTMax, type, fd.owner, fd.pid⟩

def flockFromFileLock (lock : FileLock Owner) : Flock where
  type := typeCode lock.type
  whence := lseekSet
  start := BitVec.ofInt 64 lock.start
  len := if lock.stop ≠ offTMax then BitVec.ofInt 64 (wrapOff (lock.stop - lock.start + 1)) else 0
  pid := BitVec.ofInt 32 lock.pid

def fileLockTest (locks : List (FileLock Owner)) (request : FileLock Owner) : Option (FileLock Owner) :=
  locks.find? (fileLocksConflict · request)

def fcntlGetlk (locks : List (FileLock Owner)) (fd : LockFd Owner) (flock : Flock) : Except Int Flock :=
  match flockType flock.type with
  | none => .error eINVAL
  | some .unlck => .error eINVAL
  | some type =>
    match fileLockFromFlock fd type flock with
    | .error e => .error e
    | .ok request =>
      match fileLockTest locks request with
      | some lock => .ok (flockFromFileLock lock)
      | none => .ok { flock with type := fUNLCK }

/-- `fcntl_setlk` up to the loop: the request it goes into the loop with. -/
def setlkRequest (fd : LockFd Owner) (flock : Flock) : Except Int (FileLock Owner) :=
  match flockType flock.type with
  | none => .error eINVAL
  | some type =>
    -- `O_WRONLY_` is 1 and `O_RDONLY_` is 0
    if type = .rdlck ∧ fd.mode = 1 then .error eBADF
    else if type = .wrlck ∧ fd.mode = 0 then .error eBADF
    else fileLockFromFlock fd type flock

/-! ## What POSIX gives -/

def posixStart (base : Int) (flock : Flock) : Int :=
  base + flock.start.toInt + min flock.len.toInt 0

/-- The last byte; a length of 0 reaches the last offset there is. -/
def posixEnd (base : Int) (flock : Flock) : Int :=
  if flock.len.toInt = 0 then offTMax else base + flock.start.toInt + max flock.len.toInt 0 - 1

/-- The conversion fails, or gives a range of offsets that has the bytes of POSIX. -/
def Converts (fd : LockFd Owner) (type : LockType) (flock : Flock) : Prop :=
  ∀ l, fileLockFromFlock fd type flock = .ok l →
    0 ≤ l.start ∧ l.start ≤ l.stop ∧ l.stop ≤ offTMax ∧ l.type = type ∧
      ∃ base, baseOffset fd flock.whence = .ok base ∧
        ∀ x, l.Covers x ↔ posixStart base flock ≤ x ∧ x ≤ posixEnd base flock

def InBounds (fd : LockFd Owner) (flock : Flock) : Prop :=
  ∀ base, baseOffset fd flock.whence = .ok base →
    0 ≤ posixStart base flock ∧ posixStart base flock ≤ offTMax ∧ posixEnd base flock ≤ offTMax

/-! ## Sums -/

section Sums

variable {fd : LockFd Owner} {type : LockType} {flock : Flock} {l : FileLock Owner} {base x : Int}

theorem wrapOff_of_bounds (h : offTMin ≤ x) (h' : x ≤ offTMax) : wrapOff x = x := by
  unfold wrapOff
  unfold offTMin at h
  unfold offTMax at h'
  omega

theorem toInt_bounds (v : BitVec 64) : offTMin ≤ v.toInt ∧ v.toInt ≤ offTMax := by
  have h := BitVec.le_toInt v
  have h' := BitVec.toInt_lt (x := v)
  unfold offTMin offTMax
  omega

theorem toInt_ofInt_bounds (h : offTMin ≤ x) (h' : x ≤ offTMax) : (BitVec.ofInt 64 x).toInt = x := by
  rw [BitVec.toInt_ofInt]
  unfold offTMin at h
  unfold offTMax at h'
  exact Int.bmod_eq_of_le (by omega) (by omega)

theorem fileLockFromFlock_eq (hbase : baseOffset fd flock.whence = .ok base)
    (h0 : 0 ≤ posixStart base flock) (h1 : posixStart base flock ≤ offTMax)
    (h2 : posixEnd base flock ≤ offTMax) : fileLockFromFlock fd type flock =
      .ok ⟨posixStart base flock, posixEnd base flock, type, fd.owner, fd.pid⟩ := by
  have hlen := toInt_bounds flock.len
  unfold posixStart posixEnd at *
  unfold fileLockFromFlock
  rw [hbase]
  dsimp only
  generalize flock.start.toInt = s at *
  generalize flock.len.toInt = n at *
  unfold offTMin offTMax at *
  unfold wrapOff
  rcases Int.lt_trichotomy n 0 with hneg | rfl | hpos
  · rw [if_neg (by omega)] at h2 ⊢
    rw [if_pos hneg, if_neg (by omega)]
    congr 2 <;> omega
  · rw [if_neg (by omega), if_neg (by omega)]
    congr 2
    omega
  rw [if_neg (by omega)] at h2
  rw [if_pos hpos, if_neg (by omega)]
  congr 2 <;> omega

theorem inBounds_of_covers (hs : 0 ≤ l.start) (hle : l.start ≤ l.stop) (hstop : l.stop ≤ offTMax)
    (h : ∀ x, l.Covers x ↔ posixStart base flock ≤ x ∧ x ≤ posixEnd base flock) :
    0 ≤ posixStart base flock ∧ posixStart base flock ≤ offTMax ∧ posixEnd base flock ≤ offTMax := by
  obtain ⟨hlo, hhi⟩ := (h l.start).mp ⟨Int.le_refl _, hle⟩
  have hfirst := ((h (posixStart base flock)).mpr ⟨Int.le_refl _, by omega⟩).1
  have hlast := ((h (posixEnd base flock)).mpr ⟨by omega, Int.le_refl _⟩).2
  omega

theorem converts_of_inBounds (h : InBounds fd flock) : Converts fd type flock := by
  intro l hl
  cases hbase : baseOffset fd flock.whence with
  | error e =>
    unfold fileLockFromFlock at hl
    rw [hbase] at hl
    cases hl
  | ok base =>
    obtain ⟨h0, h1, h2⟩ := h base hbase
    rw [fileLockFromFlock_eq hbase h0 h1 h2] at hl
    cases hl
    refine ⟨h0, ?_, h2, rfl, base, rfl, fun x => Iff.rfl⟩
    -- no range of POSIX is empty
    show posixStart base flock ≤ posixEnd base flock
    unfold posixStart posixEnd at *
    split
    case isTrue => omega
    case isFalse => omega

theorem inBounds_of_converts (h : Converts fd type flock) : InBounds fd flock := by
  intro base hbase
  obtain ⟨l, hl⟩ : ∃ l, fileLockFromFlock fd type flock = .ok l := by
    unfold fileLockFromFlock
    rw [hbase]
    dsimp only
    split
    · exact ⟨_, rfl⟩
    split
    · exact ⟨_, rfl⟩
    · exact ⟨_, rfl⟩
  obtain ⟨hs, hle, hstop, _, base', hbase', hcovers⟩ := h l hl
  rw [hbase] at hbase'
  obtain rfl := Except.ok.inj hbase'
  exact inBounds_of_covers hs hle hstop hcovers

theorem fileLockFromFlock_flock (fd : LockFd Owner) (h0 : 0 ≤ l.start) (hle : l.start ≤ l.stop)
    (h1 : l.stop ≤ offTMax) : fileLockFromFlock fd l.type (flockFromFileLock l) =
      .ok ⟨l.start, l.stop, l.type, fd.owner, fd.pid⟩ := by
  have hmin : offTMin ≤ 0 := by decide
  have hbase : baseOffset fd (flockFromFileLock l).whence = .ok 0 := if_pos rfl
  have hstart : (flockFromFileLock l).start.toInt = l.start :=
    toInt_ofInt_bounds (by omega) (by omega)
  -- the length is 0 exactly when the range reaches the last offset
  have hlen : (l.stop = offTMax ∧ (flockFromFileLock l).len.toInt = 0) ∨
      (l.stop ≠ offTMax ∧ (flockFromFileLock l).len.toInt = l.stop - l.start + 1) := by
    unfold flockFromFileLock
    dsimp only
    by_cases hend : l.stop = offTMax
    · exact .inl ⟨hend, by rw [if_neg (not_not_intro hend)]; rfl⟩
    refine .inr ⟨hend, ?_⟩
    rw [if_pos hend, wrapOff_of_bounds (by omega) (by omega),
      toInt_ofInt_bounds (by omega) (by omega)]
  have hposix : posixStart 0 (flockFromFileLock l) = l.start ∧
      posixEnd 0 (flockFromFileLock l) = l.stop := by
    unfold posixStart posixEnd
    rw [hstart]
    rcases hlen with ⟨hend, hlen⟩ | ⟨hend, hlen⟩
    · rw [hlen, if_pos rfl]
      omega
    · rw [hlen, if_neg (by omega)]
      omega
  obtain ⟨hfirst, hlast⟩ := hposix
  rw [fileLockFromFlock_eq hbase (by omega) (by omega) (by omega), hfirst, hlast]

end Sums

theorem fcntlGetlk_eq (locks : List (FileLock Owner)) {fd : LockFd Owner} {flock : Flock} {type : LockType}
    {request : FileLock Owner} (htype : flockType flock.type = some type) (hne : type ≠ .unlck)
    (hr : fileLockFromFlock fd type flock = .ok request) : fcntlGetlk locks fd flock =
      .ok ((fileLockTest locks request).elim { flock with type := fUNLCK } flockFromFileLock) := by
  unfold fcntlGetlk
  rw [htype]
  cases type with
  | unlck => exact absurd rfl hne
  | rdlck | wrlck =>
    dsimp only
    rw [hr]
    dsimp only
    cases fileLockTest locks request with
    | none => rfl
    | some lock => rfl

/-- **The conversion of `struct flock_`** is right exactly when the range that is asked for begins and
ends at an offset; nothing is checked. A range of offsets survives the way to the guest and back. -/
theorem flock_iff (fd : LockFd Owner) (type : LockType) (flock : Flock) :
    (Converts fd type flock ↔ InBounds fd flock) ∧
    ∀ l : FileLock Owner, 0 ≤ l.start → l.start ≤ l.stop → l.stop ≤ offTMax →
      ∃ l', fileLockFromFlock fd l.type (flockFromFileLock l) = .ok l' ∧
        l'.start = l.start ∧ l'.stop = l.stop ∧ l'.type = l.type :=
  ⟨⟨inBounds_of_converts, converts_of_inBounds⟩,
    fun _ h0 hle h1 => ⟨_, fileLockFromFlock_flock fd h0 hle h1, rfl, rfl, rfl⟩⟩

def lockFd : LockFd Nat where
  mode := 2
  lseek := some (.ok 0)
  size := .ok 0
  owner := 0
  pid := 1

/-- Two bytes from the last offset on: the range ends before it begins. -/
theorem flock_overflow :
    fileLockFromFlock lockFd .wrlck ⟨fWRLCK, lseekSet, 0x7fffffffffffffff, 2, 0⟩ =
      .ok ⟨offTMax, offTMin, .wrlck, 0, 1⟩ ∧
    ¬ Converts lockFd .wrlck ⟨fWRLCK, lseekSet, 0x7fffffffffffffff, 2, 0⟩ := by
  have h : fileLockFromFlock lockFd .wrlck ⟨fWRLCK, lseekSet, 0x7fffffffffffffff, 2, 0⟩ =
      .ok ⟨offTMax, offTMin, .wrlck, 0, 1⟩ := by decide
  exact ⟨h, fun hc => absurd (hc _ h).2.1 (by decide)⟩

/-- **`F_GETLK`** says after every history whether the lock would be granted. If not, it reports a lock of
another owner that conflicts, which its owner has at each of its offsets. -/
theorem getlk_run {calls : List (LockCall Owner)} (hw : AllSteps lockStep NoWrap [] calls) {fd : LockFd Owner}
    {flock : Flock} {request : FileLock Owner} (htype : flockType flock.type = some request.type)
    (hne : request.type ≠ .unlck) (hr : fileLockFromFlock fd request.type flock = .ok request) (hv : request.Valid) :
    let locks := run lockStep [] calls
    let held := run LockMap.step LockMap.empty calls
    (¬held.Blocked request ∧ fcntlGetlk locks fd flock = .ok { flock with type := fUNLCK }) ∨
    (held.Blocked request ∧ ∃ lock, lock.owner ≠ request.owner ∧ fileLocksOverlap lock request = true ∧
      (lock.type = .wrlck ∨ request.type = .wrlck) ∧ (∀ x, lock.Covers x → held lock.owner x = lock.type) ∧
      fcntlGetlk locks fd flock = .ok (flockFromFileLock lock)) := by
  intro locks held
  have h : Refines locks held := refines_run ⟨goodLocks_nil, rfl, fun _ _ _ _ hc => by cases hc⟩ hw
  have hblocked := acquire_none_iff h.good hv
  rw [h.map] at hblocked
  rw [fcntlGetlk_eq locks htype hne hr]
  cases htest : fileLockTest locks request with
  | none =>
    refine .inl ⟨fun hb => ?_, rfl⟩
    have hnone := hblocked.mpr hb
    unfold fileLockAcquire at hnone
    split at hnone
    case isTrue hc =>
      obtain ⟨lock, hl, hconflict⟩ := List.any_eq_true.mp hc.2
      exact List.find?_eq_none.mp htest lock hl hconflict
    case isFalse => cases hnone
  | some lock =>
    have hl := List.mem_of_find?_eq_some htest
    have hconflict := List.find?_some (p := (fileLocksConflict · request)) htest
    refine .inr ⟨hblocked.mp (if_pos ⟨hne, List.any_eq_true.mpr ⟨lock, hl, hconflict⟩⟩), lock, ?_⟩
    unfold fileLocksConflict at hconflict
    split_ifs at hconflict with howner hover
    exact ⟨howner, by simpa using hover, by simpa using hconflict, fun x hx => h.map ▸ h.good.type_eq hl hx, rfl⟩

theorem getlk_run_held : ∃ lock : FileLock Nat, fcntlGetlk (run lockStep []
    [.acquire ⟨⟨10, 19, .wrlck, 7, 1⟩, by decide⟩]) lockFd ⟨fWRLCK, lseekSet, 15, 1, 0⟩ = .ok (flockFromFileLock lock) := by
  have h := @getlk_run Nat _ [.acquire ⟨⟨10, 19, .wrlck, 7, 1⟩, by decide⟩] ⟨fun _ h => absurd h (by decide), trivial⟩
    lockFd ⟨fWRLCK, lseekSet, 15, 1, 0⟩ ⟨15, 15, .wrlck, 0, 1⟩ (by decide) (by decide) (by decide) (by decide)
  exact h.elim (fun h => absurd h.2 (by decide)) fun ⟨_, lock, _, _, _, _, h⟩ => ⟨lock, h⟩

end IosLinuxkit.Fs.Lock
