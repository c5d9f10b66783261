import IosLinuxkit.Fs.FakeDb
import Mathlib.Data.List.Induction

/-!
# Rebuilding the database of a fakefs

`fs/fake-rebuild.c`: after a copy of the host tree the rows get the inode numbers of the copied files, and paths with
one fake inode are linked again. The number of a path is read before the path is linked.

* **`rebuild_preserves_iff`** — when the rebuild preserves the view of the guest.
-/

namespace IosLinuxkit.Fs.Rebuild

/-- A row of `paths`. -/
abbrev Row := Sigma fun _ : Blob => Nat

/-- Whether `unlinkat` and `linkat` of a path succeed. -/
structure Links where
  unlinks : Blob → Bool
  links : Blob → Bool

/-- The host tree, the table of inodes, the new database, and whether a link operation has failed. -/
structure Progress where
  host : Blob → Option Nat
  seen : List (Nat × Blob)
  db : FakeDb
  failed : Bool

/-- `unlinkat` and `linkat`; a path that is still there is not linked. -/
def relink (env : Links) (st : Progress) (first path : Blob) : Progress :=
  if !env.unlinks path then { st with failed := true }
  else if !env.links path then { st with host := Function.update st.host path none, failed := true }
  else { st with host := Function.update st.host path (st.host first) }

/-- The second path of an inode is linked to the first; the first is entered into the table. -/
def restoreLink (env : Links) (st : Progress) (path : Blob) (inode : Nat) : Progress :=
  match st.seen.find? fun e => e.1 = inode with
  | some e => relink env st e.2 path
  | none => { st with seen := (inode, path) :: st.seen }

def rebuildRow (env : Links) (old : FakeDb) (st : Progress) (row : Row) : Progress :=
  match st.host row.1 with
  | none => st
  | some realInode =>
    let st := restoreLink env st row.1 row.2
    match old.stats.lookup row.2 with
    | none => st
    | some stat =>
      { st with db := ⟨st.db.paths.insert row.1 realInode, st.db.stats.insert realInode stat⟩ }

def rebuildRows (env : Links) (old : FakeDb) (host : Blob → Option Nat) (rows : List Row) : Progress :=
  rows.foldl (rebuildRow env old) ⟨host, [], ⟨∅, ∅⟩, false⟩

/-- `fakefs_rebuild` of a database that answers. It returns 0. -/
def fakefsRebuild (env : Links) (db : FakeDb) (host : Blob → Option Nat) : Int × Progress :=
  (0, rebuildRows env db host db.paths.entries)

/-- `delete from stats where not exists (select 1 from paths where inode = stats.inode)` -/
def dropOrphans (db : FakeDb) : FakeDb := db.stats.keys.foldl tryCleanupInode db

/-! ## What ought to hold -/

def statOf (db : FakeDb) (path : Blob) : Option IshStat := (pathReadStat db path).map Prod.snd

def Shares (db : FakeDb) (p q : Blob) : Prop := ∃ i s t, pathReadStat db p = some (i, s) ∧ pathReadStat db q = some (i, t)

/-- Every path, on the host or not, has the metadata that it had; the paths on the host share inodes as they did; and a
link operation that fails is reported. -/
structure Preserved (db : FakeDb) (host : Blob → Option Nat) (r : Int × Progress) : Prop where
  metadata : ∀ p, statOf (dropOrphans r.2.db) p = statOf db p
  shared : ∀ p q, host p ≠ none → host q ≠ none → (Shares (dropOrphans r.2.db) p q ↔ Shares db p q)
  reported : r.2.failed = true → r.1 < 0

/-! ## When it does -/

/-- The second of two rows on the host with one inode can be linked to the first. -/
def Linkable (env : Links) (host : Blob → Option Nat) (a b : Row) : Prop :=
  host a.1 ≠ none → host b.1 ≠ none → a.2 = b.2 → env.unlinks b.1 = true ∧ env.links b.1 = true

structure Faithful (env : Links) (db : FakeDb) (host : Blob → Option Nat) : Prop where
  onHost : ∀ p, pathReadStat db p ≠ none → host p ≠ none
  inodes : ∀ p q i j s t, pathReadStat db p = some (i, s) → pathReadStat db q = some (j, t) →
    (i = j ↔ host p = host q)
  links : db.paths.entries.Pairwise (Linkable env host)

/-! ## The loop -/

section Loop

variable {env : Links} {old : FakeDb} {host : Blob → Option Nat} {L : List Row} {st : Progress}

/-- After some rows. The host is as it was for the paths to come, whatever has been linked. -/
structure Done (env : Links) (old : FakeDb) (host : Blob → Option Nat) (L : List Row) (st : Progress) : Prop where
  tree : ∀ p, (∀ i, ⟨p, i⟩ ∉ L) → st.host p = host p
  seen : ∀ i, (∃ e ∈ st.seen, e.1 = i) ↔ ∃ p, ⟨p, i⟩ ∈ L ∧ host p ≠ none
  paths : ∀ p r, st.db.paths.lookup p = some r ↔
    ∃ i, ⟨p, i⟩ ∈ L ∧ host p = some r ∧ old.stats.lookup i ≠ none
  stats : ∀ r s, st.db.stats.lookup r = some s → ∃ q j, ⟨q, j⟩ ∈ L ∧ host q = some r ∧ old.stats.lookup j = some s
  kept : ∀ p r, st.db.paths.lookup p = some r → st.db.stats.lookup r ≠ none
  failed : st.failed = false ↔ L.Pairwise (Linkable env host)

theorem done_nil : Done env old host [] ⟨host, [], ⟨∅, ∅⟩, false⟩ := by
  constructor <;> simp

theorem relink_spec (first path : Blob) :
    (relink env st first path).seen = st.seen ∧ (relink env st first path).db = st.db ∧
      (∀ p, p ≠ path → (relink env st first path).host p = st.host p) ∧
      ((relink env st first path).failed = false ↔
        st.failed = false ∧ env.unlinks path = true ∧ env.links path = true) := by
  unfold relink
  cases env.unlinks path <;> cases env.links path <;> simp +contextual [Function.update_of_ne]

theorem mem_snoc {p path : Blob} {i inode : Nat} :
    (⟨p, i⟩ : Row) ∈ L ++ [⟨path, inode⟩] ↔ ⟨p, i⟩ ∈ L ∨ p = path ∧ i = inode := by
  simp

theorem restoreLink_spec (h : Done env old host L st) {path : Blob} {inode real : Nat} (hreal : host path = some real) :
    Done env old host L { restoreLink env st path inode with host := st.host, seen := st.seen, failed := st.failed } ∧
      (∀ p, p ≠ path → (restoreLink env st path inode).host p = st.host p) ∧
      (∀ i, (∃ e ∈ (restoreLink env st path inode).seen, e.1 = i) ↔ i = inode ∨ ∃ e ∈ st.seen, e.1 = i) ∧
      ((restoreLink env st path inode).failed = false ↔
        (L ++ [(⟨path, inode⟩ : Row)]).Pairwise (Linkable env host)) := by
  have hpair : (L ++ [(⟨path, inode⟩ : Row)]).Pairwise (Linkable env host) ↔ st.failed = false ∧
      ((∃ e ∈ st.seen, e.1 = inode) → env.unlinks path = true ∧ env.links path = true) := by
    rw [List.pairwise_append, h.failed, h.seen]
    simp only [List.pairwise_singleton, true_and, List.mem_singleton, forall_eq]
    refine and_congr_right fun _ => ⟨?_, ?_⟩
    · rintro hall ⟨p, hp, hon⟩
      exact hall _ hp hon (by simp [hreal]) rfl
    · rintro hok ⟨p, i⟩ hp hon - rfl
      exact hok ⟨p, hp, hon⟩
  unfold restoreLink
  cases hfind : st.seen.find? fun e => e.1 = inode with
  | some e =>
    have hmem := List.mem_of_find?_eq_some hfind
    have hino : e.1 = inode := by simpa using List.find?_some hfind
    obtain ⟨hseen, hdb, hhost, hfailed⟩ := @relink_spec env st e.2 path
    refine ⟨?_, hhost, fun i => ?_, ?_⟩
    · show Done env old host L ⟨st.host, st.seen, (relink env st e.2 path).db, st.failed⟩
      rw [hdb]
      exact h
    · rw [hseen]
      exact ⟨.inr, fun hi => hi.elim (fun hi => ⟨e, hmem, hi ▸ hino⟩) id⟩
    · rw [hfailed, hpair]
      exact and_congr_right fun _ => ⟨fun hok _ => hok, fun hok => hok ⟨e, hmem, hino⟩⟩
  | none =>
    refine ⟨h, fun _ _ => rfl, fun i => by simp [eq_comm], ?_⟩
    rw [hpair]
    have hno : ¬ ∃ e ∈ st.seen, e.1 = inode := by
      rintro ⟨e, he, hi⟩
      simpa [hi] using List.find?_eq_none.mp hfind e he
    exact ⟨fun hf => ⟨hf, fun hyes => absurd hyes hno⟩, And.left⟩

theorem Done.row (h : Done env old host L st) {row : Row} (hnew : ∀ i, ⟨row.1, i⟩ ∉ L) :
    Done env old host (L ++ [row]) (rebuildRow env old st row) := by
  obtain ⟨path, inode⟩ := row
  have hhost := h.tree path hnew
  unfold rebuildRow
  dsimp only
  rw [hhost]
  cases hreal : host path with
  | none =>
    obtain ⟨tree, seen, paths, stats, kept, failed⟩ := h
    constructor
    case seen =>
      intro i
      rw [seen]
      constructor
      · rintro ⟨p, hp, hon⟩
        exact ⟨p, mem_snoc.mpr (.inl hp), hon⟩
      rintro ⟨p, hp, hon⟩
      rcases mem_snoc.mp hp with hp | ⟨rfl, -⟩
      · exact ⟨p, hp, hon⟩
      · exact absurd hreal hon
    case failed => simp [failed, List.pairwise_append, Linkable, hreal]
    case kept => exact kept
    all_goals
      simp only [mem_snoc]
      grind
  | some real =>
    obtain ⟨hdone, htree, hseen, hfailed⟩ := @restoreLink_spec _ _ _ _ _ h _ inode _ hreal
    dsimp only at hdone htree hseen hfailed ⊢
    generalize restoreLink env st path inode = st' at hdone htree hseen hfailed ⊢
    obtain ⟨tree, -, paths, stats, kept, -⟩ := hdone
    dsimp only at tree paths stats kept
    have hseen : ∀ i, (∃ e ∈ st'.seen, e.1 = i) ↔
        ∃ p, (⟨p, i⟩ : Row) ∈ L ++ [⟨path, inode⟩] ∧ host p ≠ none := by
      intro i
      rw [hseen, h.seen]
      constructor
      · rintro (rfl | ⟨p, hp, hon⟩)
        · exact ⟨path, mem_snoc.mpr (.inr ⟨rfl, rfl⟩), by simp [hreal]⟩
        · exact ⟨p, mem_snoc.mpr (.inl hp), hon⟩
      rintro ⟨p, hp, hon⟩
      rcases mem_snoc.mp hp with hp | ⟨-, rfl⟩
      · exact .inr ⟨p, hp, hon⟩
      · exact .inl rfl
    split
    case h_1 hstat =>
      constructor
      case failed => exact hfailed
      case seen => exact hseen
      case kept => exact kept
      all_goals
        simp only [mem_snoc]
        grind
    case h_2 s hstat =>
      constructor
      case failed => exact hfailed
      case seen => exact hseen
      case kept => grind [AList.lookup_insert, AList.lookup_insert_ne]
      all_goals
        simp only [mem_snoc]
        grind [AList.lookup_insert, AList.lookup_insert_ne]

theorem rebuildRows_done (hnew : L.Pairwise fun a b => a.1 ≠ b.1) :
    Done env old host L (rebuildRows env old host L) := by
  induction L using List.reverseRecOn with
  | nil => exact done_nil
  | append_singleton L row ih =>
    obtain ⟨hL, -, hlast⟩ := List.pairwise_append.mp hnew
    rw [rebuildRows, List.foldl_append]
    exact (ih hL).row fun i hi => hlast _ hi row (List.mem_singleton_self row) rfl

end Loop

/-! ## The view -/

section View

variable {env : Links} {db : FakeDb} {host : Blob → Option Nat} {p : Blob} {i r : Nat} {s : IshStat}

theorem pathReadStat_some : pathReadStat db p = some (i, s) ↔ db.paths.lookup p = some i ∧ db.stats.lookup i = some s := by
  unfold pathReadStat
  cases hp : db.paths.lookup p with
  | none => simp
  | some j =>
    cases hs : db.stats.lookup j with
    | none => grind
    | some t => grind

theorem pathReadStat_dropOrphans (p : Blob) : pathReadStat (dropOrphans db) p = pathReadStat db p := by
  have hone : ∀ (d : FakeDb) (k : Nat), pathReadStat (tryCleanupInode d k) p = pathReadStat d p := by
    intro d k
    unfold pathReadStat
    rw [tryCleanupInode_paths]
    cases hp : d.paths.lookup p with
    | none => rfl
    | some j =>
      show (tryCleanupInode d k).stats.lookup j >>= _ = d.stats.lookup j >>= _
      rw [lookup_tryCleanupInode k hp]
  unfold dropOrphans
  generalize db.stats.keys = ks
  induction ks generalizing db with
  | nil => rfl
  | cons k ks ih => rw [List.foldl_cons, ih, hone]

theorem rebuilt_view :
    (∀ r t, pathReadStat (dropOrphans (fakefsRebuild env db host).2.db) p = some (r, t) →
      host p = some r ∧ (∃ i s, pathReadStat db p = some (i, s)) ∧
        ∃ q j, pathReadStat db q = some (j, t) ∧ host q = some r) ∧
    (∀ i s r, pathReadStat db p = some (i, s) → host p = some r →
      ∃ t, pathReadStat (dropOrphans (fakefsRebuild env db host).2.db) p = some (r, t)) := by
  have h : Done env db host db.paths.entries (fakefsRebuild env db host).2 :=
    rebuildRows_done (List.nodupKeys_iff_pairwise.mp db.paths.nodupKeys)
  have hrow : ∀ q j, (⟨q, j⟩ : Row) ∈ db.paths.entries ↔ db.paths.lookup q = some j :=
    fun q j => AList.mem_lookup_iff.symm
  rw [pathReadStat_dropOrphans]
  constructor
  · intro r t hv
    obtain ⟨hp, ht⟩ := pathReadStat_some.mp hv
    obtain ⟨i, hi, hreal, hstat⟩ := (h.paths p r).mp hp
    obtain ⟨s, hs⟩ := Option.ne_none_iff_exists'.mp hstat
    obtain ⟨q, j, hq, hqr, hqt⟩ := h.stats r t ht
    exact ⟨hreal, ⟨i, s, pathReadStat_some.mpr ⟨(hrow p i).mp hi, hs⟩⟩,
      q, j, pathReadStat_some.mpr ⟨(hrow q j).mp hq, hqt⟩, hqr⟩
  intro i s r hv hreal
  obtain ⟨hp, hs⟩ := pathReadStat_some.mp hv
  have hnew := (h.paths p r).mpr ⟨i, (hrow p i).mpr hp, hreal, by simp [hs]⟩
  obtain ⟨t, ht⟩ := Option.ne_none_iff_exists'.mp (h.kept p r hnew)
  exact ⟨t, pathReadStat_some.mpr ⟨hnew, ht⟩⟩

theorem statOf_some : statOf db p = some s ↔ ∃ i, pathReadStat db p = some (i, s) := by
  unfold statOf
  cases pathReadStat db p <;> simp [Prod.ext_iff]

/-- **The rebuild** preserves the guest's view if and only if the copy has the links that the rows have, every path is on
the host, and no link operation fails. -/
theorem rebuild_preserves_iff (env : Links) (db : FakeDb) (host : Blob → Option Nat) :
    Preserved db host (fakefsRebuild env db host) ↔ Faithful env db host := by
  have hfailed : (fakefsRebuild env db host).2.failed = false ↔ db.paths.entries.Pairwise (Linkable env host) :=
    (rebuildRows_done (List.nodupKeys_iff_pairwise.mp db.paths.nodupKeys)).failed
  have hview := fun p => @rebuilt_view env db host p
  generalize hd : dropOrphans (fakefsRebuild env db host).2.db = d at hview
  constructor
  · intro h
    have hon : ∀ p, pathReadStat db p ≠ none → host p ≠ none := by
      intro p hp hno
      obtain ⟨⟨i, s⟩, hv⟩ := Option.ne_none_iff_exists'.mp hp
      have hmeta := h.metadata p
      rw [hd, statOf_some.mpr ⟨i, hv⟩, statOf_some] at hmeta
      obtain ⟨r, hr⟩ := hmeta
      rw [((hview p).1 r s hr).1] at hno
      cases hno
    refine ⟨hon, fun p q i j s t hp hq => ?_, hfailed.mp ?_⟩
    · have hpon := hon p (by simp [hp])
      have hqon := hon q (by simp [hq])
      obtain ⟨a, ha⟩ := Option.ne_none_iff_exists'.mp hpon
      obtain ⟨b, hb⟩ := Option.ne_none_iff_exists'.mp hqon
      obtain ⟨t₁, h₁⟩ := (hview p).2 i s a hp ha
      obtain ⟨t₂, h₂⟩ := (hview q).2 j t b hq hb
      have hshare := h.shared p q hpon hqon
      rw [hd] at hshare
      unfold Shares at hshare
      grind
    · by_contra hf
      exact absurd (h.reported (by simpa using hf)) (Int.lt_irrefl 0)
  intro h
  have hmeta : ∀ p, statOf d p = statOf db p := by
    intro p
    ext s
    rw [statOf_some, statOf_some]
    constructor
    · rintro ⟨r, hr⟩
      obtain ⟨hreal, ⟨i, s', hp⟩, q, j, hq, hqr⟩ := (hview p).1 r s hr
      obtain rfl := (h.inodes p q i j s' s hp hq).mpr (hreal.trans hqr.symm)
      exact ⟨i, pathReadStat_some.mpr ⟨(pathReadStat_some.mp hp).1, (pathReadStat_some.mp hq).2⟩⟩
    rintro ⟨i, hp⟩
    obtain ⟨r, hreal⟩ := Option.ne_none_iff_exists'.mp (h.onHost p (by simp [hp]))
    obtain ⟨t, ht⟩ := (hview p).2 i s r hp hreal
    obtain ⟨-, -, q, j, hq, hqr⟩ := (hview p).1 r t ht
    obtain rfl := (h.inodes p q i j s t hp hq).mpr (hreal.trans hqr.symm)
    have hst := (pathReadStat_some.mp hp).2.symm.trans (pathReadStat_some.mp hq).2
    cases hst
    exact ⟨r, ht⟩
  refine ⟨hd ▸ hmeta, fun p q hp hq => ?_, fun hf => ?_⟩
  · obtain ⟨a, ha⟩ := Option.ne_none_iff_exists'.mp hp
    obtain ⟨b, hb⟩ := Option.ne_none_iff_exists'.mp hq
    have hinodes := h.inodes p q
    rw [hd]
    unfold Shares
    grind
  · rw [hfailed.mpr h.links] at hf
    cases hf

end View

/-- Two paths with inode 5, whose hard link the copy has split into the files 101 and 102. -/
def split : FakeDb := ⟨((∅ : AList fun _ : Blob => Nat).insert [0x2f, 0x62] 5).insert [0x2f, 0x61] 5,
  (∅ : AList fun _ : Nat => IshStat).insert 5 ⟨0o100644, 0, 0, 0⟩⟩

def copied (p : Blob) : Option Nat := if p = [0x2f, 0x61] then some 101 else if p = [0x2f, 0x62] then some 102 else none

/-- The rows keep two inodes, though the files are linked again. -/
theorem rebuild_splits : ¬ ∀ env db host, Preserved db host (fakefsRebuild env db host) := by
  intro h
  have hshare := ((h ⟨fun _ => true, fun _ => true⟩ split copied).shared [0x2f, 0x61] [0x2f, 0x62] (by decide)
    (by decide)).mpr ⟨5, ⟨0o100644, 0, 0, 0⟩, ⟨0o100644, 0, 0, 0⟩, by decide, by decide⟩
  obtain ⟨i, s, t, ha, hb⟩ := hshare
  rw [pathReadStat_dropOrphans] at ha hb
  have ha' : (fakefsRebuild ⟨fun _ => true, fun _ => true⟩ split copied).2.db.paths.lookup [0x2f, 0x61] = some 101 := by decide
  have hb' : (fakefsRebuild ⟨fun _ => true, fun _ => true⟩ split copied).2.db.paths.lookup [0x2f, 0x62] = some 102 := by decide
  have h1 := (pathReadStat_some.mp ha).1.symm.trans ha'
  have h2 := (pathReadStat_some.mp hb).1.symm.trans hb'
  rw [Option.some.inj h1] at h2
  cases h2

end IosLinuxkit.Fs.Rebuild
