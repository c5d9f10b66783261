import IosLinuxkit.Lib.Copy
import IosLinuxkit.Lib.Run

/-!
# Files of the memory file system

`fs/tmp.c`: a regular file is a block of memory and a size, which `tmpfs_read`, `tmpfs_write` and
`tmpfs_lseek` use through any number of descriptors, each with an offset of its own.

* **`tmpfs_iff`** — when a run agrees with the array of bytes.

## Modelling

* Offsets and sizes are 64-bit words; `none` is a copy that leaves the memory of the file.
* The outcome of `realloc` is part of the call: no memory, or what the new memory happens to hold.
* A write of no bytes behind the end grows the file up to its offset, as any other write does.
-/

namespace IosLinuxkit.Fs.Tmpfs

abbrev Word := BitVec 64

def eNOMEM : Int := -12
def eINVAL : Int := -22

/-! ## The code -/

structure TmpInode where
  fileData : List UInt8
  size : Word

/-- The outcome of a `realloc` that grows. -/
abbrev Realloc := Option (Nat → UInt8)

/-- The memory after a `realloc`. -/
def reallocated (data : List UInt8) (size : Nat) (heap : Nat → UInt8) : List UInt8 :=
  data.take size ++ (List.range (size - data.length)).map heap

def tmpfsFileResize (file : TmpInode) (size : Word) : Realloc → Option (Int × TmpInode)
  | none => some (eNOMEM, file)
  | some heap => do
    let data ← copyIn (reallocated file.fileData size.toNat heap) file.size.toNat
      (List.replicate (size - file.size).toNat 0)
    some (0, { fileData := data, size := size })

/-- The number of bytes `tmpfs_read` copies. -/
def readSize (inode : TmpInode) (offset bufsize : Word) : Word :=
  if bufsize > inode.size - offset then
    if offset ≥ inode.size then 0 else inode.size - offset
  else bufsize

def tmpfsRead (inode : TmpInode) (offset bufsize : Word) : Option (List UInt8 × Word) := do
  let bufsize := readSize inode offset bufsize
  let buf ← copyOut inode.fileData offset.toNat bufsize.toNat
  some (buf, offset + bufsize)

def growTo (inode : TmpInode) (size : Word) (realloc : Realloc) : Option (Int × TmpInode) :=
  if inode.size < size then tmpfsFileResize inode size realloc else some (0, inode)

def tmpfsWrite (inode : TmpInode) (offset : Word) (buf : Bytes) (realloc : Realloc) :
    Option (Int × TmpInode × Word) := do
  let bufsize : Word := BitVec.ofNat 64 buf.bytes.length
  let (res, inode) ← growTo inode (offset + bufsize) realloc
  if res < 0 then some (res, inode, offset)
  else do
    let data ← copyIn inode.fileData offset.toNat buf.bytes
    some (buf.bytes.length, { inode with fileData := data }, offset + bufsize)

/-- `generic_seek`: the result, and the offset behind it. -/
def genericSeek (offset off : Word) (whence : Int) (size : Word) : Int × Word :=
  if whence = 0 then (0, off)
  else if whence = 1 then
    if BitVec.saddOverflow offset off || (offset + off).msb then (eINVAL, offset) else (0, offset + off)
  else if whence = 2 then
    if (size + off).msb then (eINVAL, offset) else (0, size + off)
  else (eINVAL, offset)

def tmpfsLseek (size offset off : Word) (whence : Int) : Int × Word :=
  let (err, offset) := genericSeek offset off whence (if whence = 2 then size else 0)
  if err < 0 then (err, offset) else (offset.toInt, offset)

/-! ## Runs -/

inductive Op
  | read (fd : Nat) (bufsize : Word)
  | write (fd : Nat) (buf : Bytes) (realloc : Realloc)
  | lseek (fd : Nat) (off : Word) (whence : Int)

/-- What a call returns, and the bytes it delivers. -/
structure Reply where
  res : Int
  bytes : List UInt8
  deriving DecidableEq, Repr

/-- A file, and the offsets of the descriptors it is open through. -/
structure File where
  inode : TmpInode
  offset : Nat → Word

def call (f : File) : Op → Option (Reply × File)
  | .read fd bufsize => do
    let (buf, offset) ← tmpfsRead f.inode (f.offset fd) bufsize
    some (⟨buf.length, buf⟩, { f with offset := Function.update f.offset fd offset })
  | .write fd buf realloc => do
    let (res, inode, offset) ← tmpfsWrite f.inode (f.offset fd) buf realloc
    some (⟨res, []⟩, { inode := inode, offset := Function.update f.offset fd offset })
  | .lseek fd off whence =>
    let (res, offset) := tmpfsLseek f.inode.size (f.offset fd) off whence
    some (⟨res, []⟩, { f with offset := Function.update f.offset fd offset })

/-- A file and the replies given so far; `none` once a call has left the memory. -/
abbrev Session := Option (File × List Reply)

def step (s : Session) (op : Op) : Session := do
  let (f, replies) ← s
  let (reply, f) ← call f op
  some (f, replies ++ [reply])

/-! ## The array of bytes -/

/-- The bytes in `[offset, min (offset + n) size)`. -/
def slice (bytes : List UInt8) (offset n : Nat) : List UInt8 := (bytes.drop offset).take n

/-- The array with a block at `offset`, and zeros where it had no bytes in front of the block. -/
def spliced (bytes : List UInt8) (offset : Nat) (data : List UInt8) : List UInt8 :=
  put (bytes ++ List.replicate (offset + data.length - bytes.length) 0) offset data

/-- An array of bytes, and offsets into it or behind it. -/
structure Model where
  bytes : List UInt8
  offset : Nat → Word

namespace Model

def call (m : Model) : Op → Reply × Model
  | .read fd bufsize =>
    let buf := slice m.bytes (m.offset fd).toNat bufsize.toNat
    (⟨buf.length, buf⟩, { m with offset := Function.update m.offset fd (m.offset fd + BitVec.ofNat 64 buf.length) })
  | .write fd buf realloc =>
    -- a file that cannot grow is left as it is
    if realloc.isNone ∧ m.bytes.length < (m.offset fd).toNat + buf.bytes.length then (⟨eNOMEM, []⟩, m)
    else
      (⟨buf.bytes.length, []⟩,
        { bytes := spliced m.bytes (m.offset fd).toNat buf.bytes,
          offset := Function.update m.offset fd (m.offset fd + BitVec.ofNat 64 buf.bytes.length) })
  | .lseek fd off whence =>
    let (res, offset) := tmpfsLseek (BitVec.ofNat 64 m.bytes.length) (m.offset fd) off whence
    (⟨res, []⟩, { m with offset := Function.update m.offset fd offset })

def step (s : Model × List Reply) (op : Op) : Model × List Reply :=
  let (reply, m) := call s.1 op
  (m, s.2 ++ [reply])

end Model

def view (s : File × List Reply) : Model × List Reply :=
  ({ bytes := s.1.inode.fileData.take s.1.inode.size.toNat, offset := s.1.offset }, s.2)

/-! ## Where the code is right -/

def span : Nat := 18446744073709551616

/-- Behind the end, the difference of size and offset wraps, and only a request for more than it is cut. -/
def ReadFits (f : File) (fd : Nat) (bufsize : Word) : Prop :=
  bufsize.toNat = 0 ∨ (f.offset fd).toNat ≤ f.inode.size.toNat ∨
    f.inode.size.toNat + span < (f.offset fd).toNat + bufsize.toNat

/-- The end of the block is a word, or the file does not grow to what the sum has wrapped to. -/
def WriteFits (f : File) (fd n : Nat) (realloc : Realloc) : Prop :=
  (f.offset fd).toNat + n < span ∨
    (realloc.isNone ∧ f.inode.size.toNat < ((f.offset fd).toNat + n) % span)

def Fits (f : File) : Op → Prop
  | .read fd bufsize => ReadFits f fd bufsize
  | .write fd buf realloc => WriteFits f fd buf.bytes.length realloc
  | .lseek _ _ _ => True

def StepFits (s : Session) (op : Op) : Prop := ∀ p, s = some p → Fits p.1 op

structure Holds (f : File) (m : Model) : Prop where
  data : f.inode.fileData = m.bytes
  size : f.inode.size.toNat = m.bytes.length
  offset : f.offset = m.offset

variable {f : File} {m : Model} {fd n : Nat} {bufsize offset : Word} {buf : Bytes} {realloc : Realloc}
  {inode : TmpInode} {bytes : List UInt8}

theorem Holds.size_eq (h : Holds f m) : f.inode.size = BitVec.ofNat 64 m.bytes.length := by
  rw [← h.size, BitVec.ofNat_toNat, BitVec.setWidth_eq]

/-! ## Reading -/

theorem readSize_inside (hle : offset.toNat ≤ inode.size.toNat) :
    (readSize inode offset bufsize).toNat = min bufsize.toNat (inode.size.toNat - offset.toNat) := by
  have hsub : (inode.size - offset).toNat = inode.size.toNat - offset.toNat := BitVec.toNat_sub_of_le hle
  unfold readSize
  split
  case isTrue hgt =>
    have hgt : (inode.size - offset).toNat < bufsize.toNat := hgt
    split
    case isTrue hend =>
      have hend : inode.size.toNat ≤ offset.toNat := hend
      show 0 = _
      omega
    case isFalse => omega
  case isFalse hgt =>
    have hgt : ¬ (inode.size - offset).toNat < bufsize.toNat := hgt
    omega

theorem readSize_behind (hlt : inode.size.toNat < offset.toNat) :
    (readSize inode offset bufsize).toNat =
      if inode.size.toNat + span < offset.toNat + bufsize.toNat then 0 else bufsize.toNat := by
  have hsub : (inode.size - offset).toNat = span - offset.toNat + inode.size.toNat := by
    rw [BitVec.toNat_sub, Nat.mod_eq_of_lt (by omega)]
    rfl
  unfold readSize
  split
  case isTrue hgt =>
    have hgt : (inode.size - offset).toNat < bufsize.toNat := hgt
    rw [if_pos (show offset ≥ inode.size from Nat.le_of_lt hlt), if_pos (by simp only [span] at *; omega)]
    rfl
  case isFalse hgt =>
    have hgt : ¬ (inode.size - offset).toNat < bufsize.toNat := hgt
    rw [if_neg (by simp only [span] at *; omega)]

theorem tmpfsRead_eq (hdata : inode.fileData = bytes) (hsize : inode.size.toNat = bytes.length)
    (hfits : bufsize.toNat = 0 ∨ offset.toNat ≤ inode.size.toNat ∨ inode.size.toNat + span < offset.toNat + bufsize.toNat) :
    tmpfsRead inode offset bufsize = some (slice bytes offset.toNat bufsize.toNat,
      offset + BitVec.ofNat 64 (slice bytes offset.toNat bufsize.toNat).length) := by
  -- the cut is at the end of the file, and in front of it when the offset is behind
  have hread : (readSize inode offset bufsize).toNat = min bufsize.toNat (bytes.drop offset.toNat).length := by
    rw [List.length_drop]
    by_cases hle : offset.toNat ≤ inode.size.toNat
    · rw [readSize_inside hle, hsize]
    · rw [readSize_behind (Nat.lt_of_not_le hle)]
      split <;> omega
  have hinside : offset.toNat + (readSize inode offset bufsize).toNat ≤ bytes.length ∨
      (readSize inode offset bufsize).toNat = 0 := by
    rw [hread, List.length_drop]
    omega
  have hcopy : copyOut inode.fileData offset.toNat (readSize inode offset bufsize).toNat
      = some (slice bytes offset.toNat bufsize.toNat) := by
    rw [slice, hdata, copyOut, if_pos hinside, hread, ← List.take_eq_take_min]
  unfold tmpfsRead
  dsimp only
  rw [hcopy, slice, List.length_take, ← hread, BitVec.ofNat_toNat, BitVec.setWidth_eq]
  rfl

theorem tmpfsRead_out (hdata : inode.fileData = bytes) (hsize : inode.size.toNat = bytes.length)
    (hfits : ¬ (bufsize.toNat = 0 ∨ offset.toNat ≤ inode.size.toNat ∨
      inode.size.toNat + span < offset.toNat + bufsize.toNat)) : tmpfsRead inode offset bufsize = none := by
  rw [not_or, not_or, Nat.not_le] at hfits
  obtain ⟨hpos, hlt, hcut⟩ := hfits
  have hread : (readSize inode offset bufsize).toNat = bufsize.toNat := by
    rw [readSize_behind hlt, if_neg hcut]
  unfold tmpfsRead
  dsimp only
  rw [copyOut_out (by rw [hread, hdata]; omega) (by omega)]
  rfl

/-! ## Writing -/

theorem length_reallocated {size : Nat} {heap : Nat → UInt8} (hle : bytes.length ≤ size) :
    (reallocated bytes size heap).length = size := by
  simp only [reallocated, List.length_append, List.length_take, List.length_map, List.length_range]
  omega

theorem tmpfsFileResize_grows {size : Word} {heap : Nat → UInt8} (hdata : inode.fileData = bytes)
    (hsize : inode.size.toNat = bytes.length) (hlt : inode.size.toNat < size.toNat) :
    tmpfsFileResize inode size (some heap) =
      some (0, { fileData := bytes ++ List.replicate (size.toNat - bytes.length) 0, size := size }) := by
  have hsub : (size - inode.size).toNat = size.toNat - bytes.length := by
    rw [BitVec.toNat_sub_of_le (Nat.le_of_lt hlt), hsize]
  have hlen : (reallocated bytes size.toNat heap).length = size.toNat := length_reallocated (by omega)
  have htake : (reallocated bytes size.toNat heap).take bytes.length = bytes := by
    unfold reallocated
    rw [show bytes.take size.toNat = bytes from List.take_of_length_le (by omega), List.take_left]
  unfold tmpfsFileResize
  dsimp only
  rw [hdata, hsize, hsub, copyIn_eq (by rw [List.length_replicate, hlen]; omega),
    put_end (by omega) (by rw [List.length_replicate, hlen]), htake]
  rfl

theorem length_spliced (bytes data : List UInt8) (offset : Nat) :
    (spliced bytes offset data).length = max bytes.length (offset + data.length) := by
  unfold spliced
  rw [length_put (by simp only [List.length_append, List.length_replicate]; omega)]
  simp only [List.length_append, List.length_replicate]
  omega

theorem end_toNat {offset : Word} (hlt : offset.toNat + n < span) : (offset + BitVec.ofNat 64 n).toNat = offset.toNat + n := by
  rw [BitVec.toNat_add, BitVec.toNat_ofNat, Nat.add_mod_mod]
  exact Nat.mod_eq_of_lt hlt

theorem tmpfsWrite_refused (hlt : inode.size < offset + BitVec.ofNat 64 buf.bytes.length) :
    tmpfsWrite inode offset buf none = some (eNOMEM, inode, offset) := by
  unfold tmpfsWrite growTo
  dsimp only
  rw [if_pos hlt]
  rfl

theorem tmpfsWrite_ok (hdata : inode.fileData = bytes) (hsize : inode.size.toNat = bytes.length)
    (hfits : offset.toNat + buf.bytes.length < span)
    (hgrows : bytes.length < offset.toNat + buf.bytes.length → realloc ≠ none) :
    ∃ inode' : TmpInode, tmpfsWrite inode offset buf realloc
        = some ((buf.bytes.length : Int), inode', offset + BitVec.ofNat 64 buf.bytes.length) ∧
      inode'.fileData = spliced bytes offset.toNat buf.bytes ∧
      inode'.size.toNat = max bytes.length (offset.toNat + buf.bytes.length) := by
  have hend := end_toNat hfits
  unfold tmpfsWrite growTo
  dsimp only
  by_cases hlt : bytes.length < offset.toNat + buf.bytes.length
  · rw [if_pos (show inode.size < _ from by rw [BitVec.lt_def, hend, hsize]; exact hlt)]
    obtain ⟨heap, rfl⟩ := Option.ne_none_iff_exists'.mp (hgrows hlt)
    rw [tmpfsFileResize_grows hdata hsize (by omega), hend]
    have hcopy : copyIn (bytes ++ List.replicate (offset.toNat + buf.bytes.length - bytes.length) 0) offset.toNat buf.bytes
        = some (spliced bytes offset.toNat buf.bytes) :=
      copyIn_eq (by simp only [List.length_append, List.length_replicate]; omega)
    refine ⟨{ fileData := spliced bytes offset.toNat buf.bytes, size := offset + BitVec.ofNat 64 buf.bytes.length },
      ?_, rfl, ?_⟩
    · simp only [Option.bind_eq_bind, Option.bind_some, hcopy]
      rfl
    · rw [hend]
      omega
  rw [if_neg (show ¬ inode.size < _ from by rw [BitVec.lt_def, hend, hsize]; exact hlt)]
  have hcopy : copyIn inode.fileData offset.toNat buf.bytes = some (spliced bytes offset.toNat buf.bytes) := by
    rw [hdata, copyIn_eq (by omega), spliced, Nat.sub_eq_zero_of_le (by omega), List.replicate_zero, List.append_nil]
  refine ⟨{ inode with fileData := spliced bytes offset.toNat buf.bytes }, ?_, rfl, ?_⟩
  · simp only [Option.bind_eq_bind, Option.bind_some, hcopy]
    rfl
  · dsimp only
    omega

theorem tmpfsWrite_out (hdata : inode.fileData = bytes) (hsize : inode.size.toNat = bytes.length)
    (hover : span ≤ offset.toNat + buf.bytes.length)
    (hgrows : inode.size.toNat < (offset.toNat + buf.bytes.length) % span → realloc ≠ none) :
    tmpfsWrite inode offset buf realloc = none := by
  have hend : (offset + BitVec.ofNat 64 buf.bytes.length).toNat = (offset.toNat + buf.bytes.length) % span := by
    rw [BitVec.toNat_add, BitVec.toNat_ofNat, Nat.add_mod_mod]
    rfl
  have hlt : (offset.toNat + buf.bytes.length) % span < span := Nat.mod_lt _ (by simp only [span]; omega)
  have hoffset : offset.toNat < span := offset.isLt
  have hinode : inode.size.toNat < span := inode.size.isLt
  unfold tmpfsWrite growTo
  dsimp only
  by_cases hgrow : inode.size.toNat < (offset.toNat + buf.bytes.length) % span
  · rw [if_pos (show inode.size < _ from by rw [BitVec.lt_def, hend]; exact hgrow)]
    obtain ⟨heap, rfl⟩ := Option.ne_none_iff_exists'.mp (hgrows hgrow)
    rw [tmpfsFileResize_grows hdata hsize (by omega), hend]
    have hcopy : copyIn (bytes ++ List.replicate ((offset.toNat + buf.bytes.length) % span - bytes.length) 0)
        offset.toNat buf.bytes = none :=
      copyIn_out (by simp only [List.length_append, List.length_replicate]; omega) (by omega)
    simp only [Option.bind_eq_bind, Option.bind_some, hcopy]
    rfl
  rw [if_neg (show ¬ inode.size < _ from by rw [BitVec.lt_def, hend]; exact hgrow)]
  have hcopy : copyIn inode.fileData offset.toNat buf.bytes = none := copyIn_out (by rw [hdata]; omega) (by omega)
  simp only [Option.bind_eq_bind, Option.bind_some, hcopy]
  rfl

/-! ## Runs -/

theorem call_read (h : Holds f m) (hfits : ReadFits f fd bufsize) :
    ∃ f', call f (.read fd bufsize) = some ((Model.call m (.read fd bufsize)).1, f') ∧
      Holds f' (Model.call m (.read fd bufsize)).2 := by
  have hread := tmpfsRead_eq h.data h.size hfits
  rw [h.offset] at hread
  refine ⟨{ f with offset := (Model.call m (.read fd bufsize)).2.offset }, ?_, h.data, h.size, rfl⟩
  simp only [call, h.offset, hread, Option.bind_eq_bind, Option.bind_some, Model.call]

theorem call_write (h : Holds f m) (hfits : WriteFits f fd buf.bytes.length realloc) :
    ∃ f', call f (.write fd buf realloc) = some ((Model.call m (.write fd buf realloc)).1, f') ∧
      Holds f' (Model.call m (.write fd buf realloc)).2 := by
  unfold WriteFits at hfits
  rw [h.offset] at hfits
  have hsize := h.size
  simp only [call, h.offset, Model.call]
  by_cases hstops : realloc.isNone ∧ m.bytes.length < (m.offset fd).toNat + buf.bytes.length
  · -- the file cannot grow
    have hlt : f.inode.size < m.offset fd + BitVec.ofNat 64 buf.bytes.length := by
      rw [BitVec.lt_def, BitVec.toNat_add, BitVec.toNat_ofNat, Nat.add_mod_mod, hsize]
      show _ < _ % span
      cases hfits with
      | inl hfit => rw [Nat.mod_eq_of_lt hfit]; exact hstops.2
      | inr hwrap => exact hsize ▸ hwrap.2
    rw [Option.isNone_iff_eq_none.mp hstops.1, tmpfsWrite_refused hlt, if_pos ⟨rfl, hstops.2⟩]
    refine ⟨_, rfl, h.data, hsize, ?_⟩
    exact Function.update_eq_self _ _
  have hlen : m.bytes.length < span := hsize ▸ f.inode.size.isLt
  have hfit : (m.offset fd).toNat + buf.bytes.length < span := by
    refine hfits.elim id fun hwrap => ?_
    rw [not_and, Nat.not_lt] at hstops
    have := hstops hwrap.1
    omega
  obtain ⟨inode, hwrite, hdata', hsize'⟩ := tmpfsWrite_ok h.data hsize hfit
    fun hlt hnone => hstops ⟨Option.isNone_iff_eq_none.mpr hnone, hlt⟩
  rw [hwrite, if_neg hstops]
  exact ⟨_, rfl, hdata', hsize'.trans (length_spliced _ _ _).symm, rfl⟩

theorem call_lseek (h : Holds f m) (off : Word) (whence : Int) :
    ∃ f', call f (.lseek fd off whence) = some ((Model.call m (.lseek fd off whence)).1, f') ∧
      Holds f' (Model.call m (.lseek fd off whence)).2 := by
  refine ⟨{ f with offset := (Model.call m (.lseek fd off whence)).2.offset }, ?_, h.data, h.size, rfl⟩
  simp only [call, h.offset, h.size_eq, Model.call]

variable {op : Op} {s : Session} {q : Model × List Reply}

theorem call_holds (h : Holds f m) (hfits : Fits f op) :
    ∃ f', call f op = some ((Model.call m op).1, f') ∧ Holds f' (Model.call m op).2 := by
  cases op with
  | read fd bufsize => exact call_read h hfits
  | write fd buf realloc => exact call_write h hfits
  | lseek fd off whence => exact call_lseek h off whence

theorem call_out (h : Holds f m) (hfits : ¬ Fits f op) : call f op = none := by
  cases op with
  | read fd bufsize =>
    simp only [call, tmpfsRead_out h.data h.size hfits, Option.bind_eq_bind, Option.bind_none]
  | write fd buf realloc =>
    obtain ⟨hover, hgrows⟩ := not_or.mp hfits
    rw [not_and] at hgrows
    have hout := tmpfsWrite_out h.data h.size (Nat.le_of_not_lt hover)
      fun hlt hnone => hgrows (Option.isNone_iff_eq_none.mpr hnone) hlt
    simp only [call, hout, Option.bind_eq_bind, Option.bind_none]
  | lseek fd off whence => exact absurd trivial hfits

def Follows (s : Session) (q : Model × List Reply) : Prop := ∃ f, s = some (f, q.2) ∧ Holds f q.1

theorem follows_step (h : Follows s q) (hfits : StepFits s op) :
    Follows (step s op) (Model.step q op) := by
  obtain ⟨f, rfl, hholds⟩ := h
  obtain ⟨f₁, hcall, hholds₁⟩ := call_holds hholds (hfits _ rfl)
  exact ⟨f₁, by simp only [step, Option.bind_eq_bind, Option.bind_some, hcall, Model.step], hholds₁⟩

theorem run_none (ops : List Op) : run step (none : Session) ops = none := by
  induction ops with
  | nil => rfl
  | cons op ops ih => exact ih

theorem view_of_follows (h : Follows s q) : s.map view = some q := by
  obtain ⟨f, rfl, hholds⟩ := h
  rw [Option.map_some, view, hholds.data, hholds.size, hholds.offset, List.take_length]

theorem follows_run (h : Follows s q) (ops : List Op) :
    (run step s ops).map view = some (run Model.step q ops) ↔ AllSteps step StepFits s ops := by
  induction ops generalizing s q with
  | nil => exact iff_of_true (view_of_follows h) trivial
  | cons op ops ih =>
    by_cases hfits : StepFits s op
    · rw [run_cons, run_cons, ih (follows_step h hfits)]
      exact ⟨fun hrest => ⟨hfits, hrest⟩, fun hall => hall.2⟩
    · -- the step has left the memory, and the session is over
      refine iff_of_false ?_ fun hall => hfits hall.1
      obtain ⟨f, rfl, hholds⟩ := h
      have hout : call f op = none := call_out hholds fun hfit => hfits fun p hp => Option.some.inj hp ▸ hfit
      rw [run_cons, show step (some (f, q.2)) op = none by
        simp only [step, Option.bind_eq_bind, Option.bind_some, hout, Option.bind_none], run_none]
      exact Option.some_ne_none _ ∘ Eq.symm

/-- A new file, open through descriptors at any offsets. -/
def created (offset : Nat → Word) : Session := some ({ inode := { fileData := [], size := 0 }, offset := offset }, [])

/-- **A file is an array of bytes.** Every call of a run returns and delivers what the array does, and the
file is the array behind it, if and only if each call meets its condition. -/
theorem tmpfs_iff (offset : Nat → Word) (ops : List Op) :
    (run step (created offset) ops).map view = some (run Model.step ({ bytes := [], offset := offset }, []) ops) ↔
      AllSteps step StepFits (created offset) ops := by
  have hstart : Follows (created offset) ({ bytes := [], offset := offset }, []) := ⟨_, rfl, rfl, rfl, rfl⟩
  exact follows_run hstart ops

def oneByte : Bytes := ⟨[7], by decide⟩

/-- A file of one byte, and a descriptor that is behind its end. -/
def seekPastEnd : List Op := [.write 0 oneByte (some fun _ => 0), .lseek 1 16 0, .read 1 1]

/-- A read behind the end of the file is not cut and leaves the memory; the array has nothing there. -/
theorem tmpfs_read_past_end : run step (created fun _ => 0) seekPastEnd = none ∧
    (run Model.step ({ bytes := [], offset := fun _ => 0 }, []) seekPastEnd).2 = [⟨1, []⟩, ⟨16, []⟩, ⟨0, []⟩] := by
  decide +kernel

end IosLinuxkit.Fs.Tmpfs
