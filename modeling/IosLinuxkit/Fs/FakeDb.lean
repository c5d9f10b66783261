import IosLinuxkit.Fs.GuestPath
import IosLinuxkit.Lib.Assoc
import IosLinuxkit.Lib.LexRange

/-!
# The metadata database of a fakefs

`src/fs/fake-db.c`: the tables `paths` (a path, as a blob, and its inode) and `stats` (an inode and
its `struct ish_stat`), and the statements that the file system runs. A transaction that is rolled
back is the database it began with.

* **`inRange_render`** — on paths the range of `pathRename` is the path itself and what is under it.
-/

namespace IosLinuxkit.Fs

/-! ## Statements -/

structure IshStat where
  mode : BitVec 32
  uid : BitVec 32
  gid : BitVec 32
  rdev : BitVec 32
  deriving DecidableEq, Repr

structure FakeDb where
  paths : AList (fun _ : Blob => Nat)
  stats : AList (fun _ : Nat => IshStat)

/-- `path_get_inode`; 0 is no row -/
def pathGetInode (db : FakeDb) (path : Blob) : Nat := (db.paths.lookup path).getD 0

/-- `path_read_stat`, a natural join -/
def pathReadStat (db : FakeDb) (path : Blob) : Option (Nat × IshStat) := do
  let inode ← db.paths.lookup path
  let stat ← db.stats.lookup inode
  return (inode, stat)

/-- The row id of an insert: one more than the largest there is. -/
def newRow (db : FakeDb) : Nat := db.stats.keys.foldr max 0 + 1

def pathCreate (db : FakeDb) (path : Blob) (stat : IshStat) : FakeDb :=
  { paths := db.paths.insert path (newRow db), stats := db.stats.insert (newRow db) stat }

/-- `inode_write_stat`, an update -/
def inodeWriteStat (db : FakeDb) (inode : Nat) (stat : IshStat) : FakeDb :=
  if inode ∈ db.stats then { db with stats := db.stats.insert inode stat } else db

/-- `path_link`; without a row for `src` it dies. -/
def pathLink (db : FakeDb) (src dst : Blob) : Option FakeDb :=
  if pathGetInode db src = 0 then none
  else some { db with paths := db.paths.insert dst (pathGetInode db src) }

def pathUnlink (db : FakeDb) (path : Blob) : Nat × FakeDb :=
  if pathGetInode db path = 0 then (0, db)
  else (pathGetInode db path, { db with paths := db.paths.erase path })

def changePrefix (start : Nat) (replacement path : Blob) : Blob := replacement ++ path.drop start

/-- `(path >= ? and path < ?) or path = ?` for `src/`, `src0` and `src` -/
def inRange (src path : Blob) : Bool :=
  decide ((¬ path < src ++ [slash] ∧ path < src ++ [0x30]) ∨ path = src)

def pathRename (db : FakeDb) (src dst : Blob) : FakeDb :=
  { db with
    paths := Assoc.moveKeys (changePrefix src.length dst) (db.paths.keys.filter (inRange src))
      db.paths }

def tryCleanupInode (db : FakeDb) (inode : Nat) : FakeDb :=
  if db.paths.entries.any (fun e => e.2 = inode) then db
  else { db with stats := db.stats.erase inode }

/-! ## Rows -/

theorem pathGetInode_of_lookup {db : FakeDb} {path : Blob} {inode : Nat}
    (h : db.paths.lookup path = some inode) : pathGetInode db path = inode := by
  rw [pathGetInode, h]
  rfl

theorem pathGetInode_of_none {db : FakeDb} {path : Blob} (h : db.paths.lookup path = none) :
    pathGetInode db path = 0 := by
  rw [pathGetInode, h]
  rfl

theorem le_foldr_max {l : List Nat} {n : Nat} (h : n ∈ l) : n ≤ l.foldr max 0 := by
  induction l with
  | nil => cases h
  | cons m l ih =>
    rw [List.foldr_cons]
    rcases List.mem_cons.mp h with rfl | h
    · exact Nat.le_max_left _ _
    · exact Nat.le_trans (ih h) (Nat.le_max_right _ _)

theorem newRow_fresh (db : FakeDb) : newRow db ∉ db.stats := by
  intro h
  have hle := le_foldr_max (AList.mem_keys.mp h)
  rw [newRow] at hle
  omega

theorem newRow_ne_zero (db : FakeDb) : newRow db ≠ 0 := Nat.succ_ne_zero _

theorem lookup_tryCleanupInode {db : FakeDb} {path : Blob} {i : Nat} (inode : Nat)
    (h : db.paths.lookup path = some i) :
    (tryCleanupInode db inode).stats.lookup i = db.stats.lookup i := by
  unfold tryCleanupInode
  split
  case isTrue => rfl
  case isFalse hany =>
    refine AList.lookup_erase_ne fun hi => hany ?_
    rw [List.any_eq_true]
    exact ⟨⟨path, i⟩, AList.mem_lookup_iff.mp h, by rw [hi]; exact decide_eq_true rfl⟩

theorem tryCleanupInode_paths (db : FakeDb) (inode : Nat) :
    (tryCleanupInode db inode).paths = db.paths := by
  unfold tryCleanupInode
  split <;> rfl

/-! ## The range of a rename -/

theorem nextAfter_slash : NextAfter slash 0x30 := by
  intro x
  rw [UInt8.lt_iff_toNat_lt, UInt8.lt_iff_toNat_lt, ← UInt8.toNat_inj]
  show (¬ x.toNat < 47 ∧ x.toNat < 48) ↔ x.toNat = 47
  omega

theorem inRange_boundary {src path : Blob} :
    inRange src path = true ↔ ∃ tail, path = src ++ tail ∧ Boundary tail := by
  have hirr : ∀ x : UInt8, ¬ x < x := fun x => UInt8.lt_irrefl x
  rw [inRange, decide_eq_true_eq, lexRange_iff_prefix hirr nextAfter_slash]
  constructor
  · rintro (⟨rest, rfl⟩ | rfl)
    · exact ⟨_, rfl, rfl⟩
    · exact ⟨[], (List.append_nil _).symm, trivial⟩
  rintro ⟨tail, rfl, hb⟩
  cases tail with
  | nil => exact Or.inr (List.append_nil _)
  | cons c rest =>
    obtain rfl : c = slash := hb
    exact Or.inl ⟨rest, rfl⟩

theorem inRange_render {src p : Path} :
    inRange (render src) (render p) = true ↔ ∃ q, p = src ++ q := by
  rw [inRange_boundary]
  constructor
  · rintro ⟨tail, h, hb⟩
    obtain ⟨q, hq, _⟩ := render_append_iff.mp ⟨h, hb⟩
    exact ⟨q, hq⟩
  · rintro ⟨q, rfl⟩
    exact ⟨render q, render_append src q, boundary_render q⟩

theorem changePrefix_render (src dst q : Path) :
    changePrefix (render src).length (render dst) (render (src ++ q)) = render (dst ++ q) := by
  rw [changePrefix, render_append, render_append, List.drop_left]

/-! ## The rows after a rename -/

section

variable {db : FakeDb} {src dst : Path}

def AllPaths (db : FakeDb) : Prop := ∀ b ∈ db.paths, ∃ p, b = render p

theorem mem_rows (hall : AllPaths db) {b : Blob} :
    b ∈ db.paths.keys.filter (inRange (render src)) ↔
      ∃ q, b = render (src ++ q) ∧ b ∈ db.paths := by
  rw [List.mem_filter]
  constructor
  · rintro ⟨hb, hr⟩
    obtain ⟨p, rfl⟩ := hall b (AList.mem_keys.mpr hb)
    obtain ⟨q, rfl⟩ := inRange_render.mp hr
    exact ⟨q, rfl, AList.mem_keys.mpr hb⟩
  · rintro ⟨q, rfl, hb⟩
    exact ⟨AList.mem_keys.mp hb, inRange_render.mpr ⟨q, rfl⟩⟩

theorem rows_disjoint (hall : AllPaths db) (hne : ∀ q r, dst ++ q ≠ src ++ r) :
    ∀ b ∈ db.paths.keys.filter (inRange (render src)),
      changePrefix (render src).length (render dst) b ∉
        db.paths.keys.filter (inRange (render src)) := by
  intro b hb hb'
  obtain ⟨q, rfl, _⟩ := (mem_rows hall).mp hb
  rw [changePrefix_render] at hb'
  obtain ⟨r, hr, _⟩ := (mem_rows hall).mp hb'
  exact hne q r (render_injective hr)

theorem lookup_pathRename_moved (hall : AllPaths db) (hne : ∀ q r, dst ++ q ≠ src ++ r) (q : Path)
    (hrow : (db.paths.lookup (render (src ++ q))).isSome) :
    (pathRename db (render src) (render dst)).paths.lookup (render (dst ++ q))
      = db.paths.lookup (render (src ++ q)) := by
  have hmem : render (src ++ q) ∈ db.paths.keys.filter (inRange (render src)) :=
    (mem_rows hall).mpr ⟨q, rfl, AList.lookup_isSome.mp hrow⟩
  rw [← changePrefix_render src dst q]
  refine Assoc.lookup_moveKeys_apply (rows_disjoint hall hne) ?_
    (List.Nodup.filter _ db.paths.nodupKeys) hmem hrow
  intro a ha b hb hab
  obtain ⟨qa, rfl, _⟩ := (mem_rows hall).mp ha
  obtain ⟨qb, rfl, _⟩ := (mem_rows hall).mp hb
  rw [changePrefix_render, changePrefix_render] at hab
  rw [List.append_cancel_left (render_injective hab)]

theorem lookup_pathRename_source (hall : AllPaths db) (hne : ∀ q r, dst ++ q ≠ src ++ r) (q : Path) :
    (pathRename db (render src) (render dst)).paths.lookup (render (src ++ q)) = none := by
  by_cases hrow : render (src ++ q) ∈ db.paths
  · exact Assoc.lookup_moveKeys_of_mem (rows_disjoint hall hne)
      ((mem_rows hall).mpr ⟨q, rfl, hrow⟩)
  rw [pathRename, Assoc.lookup_moveKeys_of_notMem]
  · exact AList.lookup_eq_none.mpr hrow
  · intro hmem
    obtain ⟨_, _, h⟩ := (mem_rows hall).mp hmem
    exact hrow h
  intro b hb h
  obtain ⟨r, rfl, _⟩ := (mem_rows hall).mp hb
  rw [changePrefix_render] at h
  exact hne r q (render_injective h)

theorem lookup_pathRename_other (hall : AllPaths db) {p : Path} (hsrc : ∀ q, p ≠ src ++ q)
    (hdst : ∀ q, p = dst ++ q → db.paths.lookup (render (src ++ q)) = none) :
    (pathRename db (render src) (render dst)).paths.lookup (render p)
      = db.paths.lookup (render p) := by
  refine Assoc.lookup_moveKeys_of_notMem (fun hmem => ?_) (fun b hb h => ?_)
  · obtain ⟨q, hq, _⟩ := (mem_rows hall).mp hmem
    exact hsrc q (render_injective hq)
  obtain ⟨q, rfl, hrow⟩ := (mem_rows hall).mp hb
  rw [changePrefix_render] at h
  have hnone := hdst q (render_injective h).symm
  exact AList.lookup_eq_none.mp hnone hrow

theorem allPaths_pathRename (src dst : Path) (hall : AllPaths db) :
    AllPaths (pathRename db (render src) (render dst)) := by
  intro b hb
  by_cases himg : ∃ a ∈ db.paths.keys.filter (inRange (render src)),
      changePrefix (render src).length (render dst) a = b
  · obtain ⟨a, ha, rfl⟩ := himg
    obtain ⟨q, rfl, _⟩ := (mem_rows hall).mp ha
    exact ⟨dst ++ q, changePrefix_render src dst q⟩
  by_cases hmem : b ∈ db.paths.keys.filter (inRange (render src))
  · exact hall b (AList.mem_keys.mpr (List.mem_of_mem_filter hmem))
  refine hall b (AList.lookup_isSome.mp ?_)
  rw [← Assoc.lookup_moveKeys_of_notMem (s := db.paths) hmem
    fun a ha h => himg ⟨a, ha, h⟩]
  exact AList.lookup_isSome.mpr hb

theorem lookup_pathRename_self (hall : AllPaths db) (b : Blob) :
    (pathRename db (render src) (render src)).paths.lookup b = db.paths.lookup b := by
  refine Assoc.lookup_moveKeys_of_fixed (fun a ha => ?_) b
  obtain ⟨q, rfl, _⟩ := (mem_rows hall).mp ha
  exact changePrefix_render src src q

end

end IosLinuxkit.Fs
