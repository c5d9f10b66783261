import IosLinuxkit.Fs.InodeLife
import Mathlib.Data.List.Count

/-!
# The lifetime of inodes over a run

* **`inodeLifetime_run`** — every run in which no clean-up overtakes an `open`.
-/

namespace IosLinuxkit.Fs

open LifeState

variable {st : LifeState} {m ino : Nat}

/-- Entries differ in address and in inode, each counts the files that point to it, and what is in
use has its row. -/
structure Alive (st : LifeState) : Prop where
  addr_inj : st.inodes.Pairwise fun d e => d.addr ≠ e.addr
  addr_lt : ∀ d ∈ st.inodes, d.addr < st.nextAddr
  unique : st.inodes.Pairwise fun d e => ¬ (d.mount = e.mount ∧ d.number = e.number)
  counted : ∀ d ∈ st.inodes, d.refcount = st.files.countP fun f => f.data = d.addr
  held : ∀ f ∈ st.files, ∃ d ∈ st.inodes,
    d.addr = f.data ∧ d.mount = f.file.mount ∧ d.number = f.file.inode
  row : ∀ o, InUse st o → o.inode ∈ (st.dbs o.mount).stats ∧ st.birth o.mount o.inode = o.birth
  paths : ∀ m path i, (st.dbs m).paths.lookup path = some i → i ∈ (st.dbs m).stats

theorem pairwise_eq {α : Type} {R : α → α → Prop} {l : List α} {a b : α} (hl : l.Pairwise R)
    (hsymm : ∀ x y, R x y → R y x) (ha : a ∈ l) (hb : b ∈ l) (hR : ¬ R a b) : a = b := by
  have : Std.Symm R := ⟨hsymm⟩
  by_contra hne
  exact hR (hl.forall ha hb hne)

variable {d : InodeData} {f : OpenFile} {db : FakeDb}

theorem Alive.eq_of_addr (h : Alive st) {e : InodeData} (hd : d ∈ st.inodes) (he : e ∈ st.inodes)
    (heq : d.addr = e.addr) : d = e :=
  pairwise_eq h.addr_inj (fun _ _ => Ne.symm) hd he (fun hne => hne heq)

theorem Alive.eq_of_key (h : Alive st) {e : InodeData} (hd : d ∈ st.inodes) (he : e ∈ st.inodes)
    (heq : d.mount = e.mount ∧ d.number = e.number) : d = e :=
  pairwise_eq h.unique (fun _ _ hne heq => hne ⟨heq.1.symm, heq.2.symm⟩) hd he (fun hne => hne heq)

theorem Alive.data_iff (h : Alive st) (hd : d ∈ st.inodes)
    (hf : f ∈ st.files) : f.data = d.addr ↔ f.file.mount = d.mount ∧ f.file.inode = d.number := by
  obtain ⟨e, he, haddr, hm, hn⟩ := h.held f hf
  constructor
  · intro heq
    rw [← hm, ← hn, h.eq_of_addr he hd (haddr.trans heq)]
    exact ⟨rfl, rfl⟩
  · intro hkey
    rw [← haddr, h.eq_of_key he hd ⟨hm.trans hkey.1, hn.trans hkey.2⟩]

theorem Alive.lifetime (h : Alive st) : Lifetime st where
  unique := h.unique
  counted d hd := by
    rw [h.counted d hd]
    refine List.countP_congr fun f hf => ?_
    rw [decide_eq_true_eq, decide_eq_true_eq]
    exact h.data_iff hd hf
  held := h.held
  row o ho := by
    obtain ⟨hmem, hbirth⟩ := h.row o ho
    exact ⟨Option.isSome_iff_exists.mp (AList.lookup_isSome.mpr hmem), hbirth⟩

theorem Mounted.alive (h : Mounted st) : Alive st where
  addr_inj := by rw [h.inodes]; exact .nil
  addr_lt d hd := by rw [h.inodes] at hd; cases hd
  unique := by rw [h.inodes]; exact .nil
  counted d hd := by rw [h.inodes] at hd; cases hd
  held f hf := by rw [h.files] at hf; cases hf
  row o ho := by
    rw [InUse, h.opening, h.files] at ho
    rcases ho with ho | ⟨f, hf, -⟩
    · cases ho
    · cases hf
  paths := h.paths

/-! ## Transactions -/

structure Transaction (st st' : LifeState) : Prop where
  inodes : st'.inodes = st.inodes
  nextAddr : st'.nextAddr = st.nextAddr
  files : st'.files = st.files
  stats : ∀ m i, i ∈ (st.dbs m).stats → i ∈ (st'.dbs m).stats
  birth : ∀ m i, i ∈ (st.dbs m).stats → st'.birth m i = st.birth m i
  opening : ∀ o ∈ st'.opening, o ∈ st.opening ∨
    (o.inode ∈ (st'.dbs o.mount).stats ∧ st'.birth o.mount o.inode = o.birth)
  paths : ∀ m path i, (st'.dbs m).paths.lookup path = some i →
    (∃ b, (st.dbs m).paths.lookup b = some i) ∨ i ∈ (st'.dbs m).stats

theorem Alive.transaction {st' : LifeState} (h : Alive st) (ht : Transaction st st') :
    Alive st' where
  addr_inj := by rw [ht.inodes]; exact h.addr_inj
  addr_lt := by rw [ht.inodes, ht.nextAddr]; exact h.addr_lt
  unique := by rw [ht.inodes]; exact h.unique
  counted := by rw [ht.inodes, ht.files]; exact h.counted
  held := by rw [ht.inodes, ht.files]; exact h.held
  row o ho := by
    have hold : InUse st o → o.inode ∈ (st'.dbs o.mount).stats ∧
        st'.birth o.mount o.inode = o.birth := fun hu =>
      ⟨ht.stats _ _ (h.row o hu).1, (ht.birth _ _ (h.row o hu).1).trans (h.row o hu).2⟩
    rcases ho with ho | hf
    · exact (ht.opening o ho).elim (fun hu => hold (.inl hu)) id
    · rw [ht.files] at hf
      exact hold (.inr hf)
  paths m path i hi := by
    rcases ht.paths m path i hi with ⟨b, hb⟩ | hmem
    · exact ht.stats m i (h.paths m b i hb)
    · exact hmem

structure Grows (db db' : FakeDb) : Prop where
  stats : ∀ i, i ∈ db.stats → i ∈ db'.stats
  paths : ∀ path i, db'.paths.lookup path = some i →
    (∃ b, db.paths.lookup b = some i) ∨ i ∈ db'.stats

theorem transaction_withDb (hg : Grows (st.dbs m) db) (checks : List (Nat × Nat)) :
    Transaction st { st.withDb m db with checks := checks } := by
  refine ⟨rfl, rfl, rfl, fun k i hi => ?_, fun _ _ _ => rfl, fun o ho => .inl ho, fun k path i hi => ?_⟩
  · show i ∈ (Function.update st.dbs m db k).stats
    by_cases hk : k = m
    · subst hk
      rw [Function.update_self]
      exact hg.stats i hi
    · rw [Function.update_of_ne hk]
      exact hi
  have hi' : (Function.update st.dbs m db k).paths.lookup path = some i := hi
  show _ ∨ i ∈ (Function.update st.dbs m db k).stats
  by_cases hk : k = m
  · subst hk
    rw [Function.update_self] at hi' ⊢
    exact hg.paths path i hi'
  · rw [Function.update_of_ne hk] at hi'
    exact .inl ⟨path, hi'⟩

theorem grows_of_paths {db' : FakeDb} (hstats : db'.stats = db.stats)
    (hpaths : ∀ path i, db'.paths.lookup path = some i → ∃ b, db.paths.lookup b = some i) :
    Grows db db' :=
  ⟨fun i hi => by rw [hstats]; exact hi, fun path i hi => .inl (hpaths path i hi)⟩

theorem grows_pathUnlink (db : FakeDb) (path : Blob) : Grows db (pathUnlink db path).2 := by
  unfold pathUnlink
  split
  · exact grows_of_paths rfl fun p i hi => ⟨p, hi⟩
  refine grows_of_paths rfl fun p i hi => ?_
  by_cases hp : p = path
  · rw [hp, AList.lookup_erase] at hi
    cases hi
  · rw [AList.lookup_erase_ne hp] at hi
    exact ⟨p, hi⟩

theorem grows_pathRename (db : FakeDb) (src dst : Blob) : Grows db (pathRename db src dst) :=
  grows_of_paths rfl fun p _ hi => by
    rcases Assoc.lookup_moveKeys_some hi with hi | ⟨b, -, hb⟩
    · exact ⟨p, hi⟩
    · exact ⟨b, hb⟩

theorem grows_pathLink {db' : FakeDb} {src dst : Blob} (hl : pathLink db src dst = some db') :
    Grows db db' := by
  unfold pathLink at hl
  split at hl
  · cases hl
  · rename_i hne
    obtain rfl := Option.some.inj hl
    refine grows_of_paths rfl fun p i hi => ?_
    by_cases hp : p = dst
    · rw [hp, AList.lookup_insert, Option.some.injEq] at hi
      cases hsrc : db.paths.lookup src with
      | none => exact absurd (pathGetInode_of_none hsrc) hne
      | some k => exact ⟨src, by rw [hsrc, ← hi, pathGetInode_of_lookup hsrc]⟩
    · rw [AList.lookup_insert_ne hp] at hi
      exact ⟨p, hi⟩

theorem grows_inodeWriteStat (db : FakeDb) (i : Nat) (stat : IshStat) :
    Grows db (inodeWriteStat db i stat) := by
  unfold inodeWriteStat
  split
  · exact ⟨fun j hj => (AList.mem_insert _).mpr (.inr hj), fun p j hj => .inl ⟨p, hj⟩⟩
  · exact ⟨fun j hj => hj, fun p j hj => .inl ⟨p, hj⟩⟩

theorem createRow_stats (st : LifeState) (m : Nat) (path : Blob) (stat : IshStat) :
    newRow (st.dbs m) ∈ ((st.createRow m path stat).dbs m).stats := by
  show _ ∈ (Function.update st.dbs m _ m).stats
  rw [Function.update_self]
  exact (AList.mem_insert _).mpr (.inl rfl)

theorem transaction_createRow (st : LifeState) (m : Nat) (path : Blob) (stat : IshStat) :
    Transaction st (st.createRow m path stat) := by
  refine ⟨rfl, rfl, rfl, fun k i hi => ?_, fun k i hi => ?_, fun o ho => .inl ho,
    fun k p i hi => ?_⟩
  · show i ∈ (Function.update st.dbs m _ k).stats
    by_cases hk : k = m
    · subst hk
      rw [Function.update_self]
      exact (AList.mem_insert _).mpr (.inr hi)
    · rw [Function.update_of_ne hk]
      exact hi
  · show Function.update st.birth m _ k i = _
    by_cases hk : k = m
    · subst hk
      have hne : i ≠ newRow (st.dbs k) := by
        rintro rfl
        exact newRow_fresh (st.dbs k) hi
      rw [Function.update_self, Function.update_of_ne hne]
    · rw [Function.update_of_ne hk]
  by_cases hk : k = m
  · subst hk
    have hi' : (Function.update st.dbs k (pathCreate (st.dbs k) path stat) k).paths.lookup p =
      some i := hi
    rw [Function.update_self] at hi'
    by_cases hp : p = path
    · have hrow : ((st.dbs k).paths.insert path (newRow (st.dbs k))).lookup p = some i := hi'
      rw [hp, AList.lookup_insert, Option.some.injEq] at hrow
      rw [← hrow]
      exact .inr (createRow_stats st k path stat)
    · exact .inl ⟨p, (AList.lookup_insert_ne hp).symm.trans hi'⟩
  have hi' : (Function.update st.dbs m (pathCreate (st.dbs m) path stat) k).paths.lookup p =
    some i := hi
  rw [Function.update_of_ne hk] at hi'
  exact .inl ⟨p, hi'⟩

theorem transaction_found (h : ino ∈ (st.dbs m).stats) : Transaction st (st.found m ino) := by
  refine ⟨rfl, rfl, rfl, fun _ _ hi => hi, fun _ _ _ => rfl, fun o ho => ?_,
    fun _ p i hi => .inl ⟨p, hi⟩⟩
  rcases List.mem_cons.mp ho with rfl | ho
  · exact .inr ⟨h, rfl⟩
  · exact .inl ho

theorem Alive.lookup (h : Alive st) (m : Nat) (path : Blob) (creat : Option IshStat) :
    Alive (st.lookup m path creat) := by
  unfold LifeState.lookup
  split
  case isTrue hne =>
    refine h.transaction (transaction_found ?_)
    cases hrow : (st.dbs m).paths.lookup path with
    | none => exact absurd (pathGetInode_of_none hrow) hne
    | some i =>
      rw [pathGetInode_of_lookup hrow]
      exact h.paths m path i hrow
  case isFalse =>
    cases creat with
    | none => exact h
    | some stat =>
      refine (h.transaction (transaction_createRow st m path stat)).transaction
        (transaction_found ?_)
      have hget : pathGetInode ((st.createRow m path stat).dbs m) path = newRow (st.dbs m) := by
        show pathGetInode (Function.update st.dbs m _ m) path = _
        rw [Function.update_self]
        exact pathGetInode_of_lookup (AList.lookup_insert _)
      rw [hget]
      exact createRow_stats st m path stat

theorem Alive.ensure (h : Alive st) (m : Nat) (path : Blob) (stat : IshStat) :
    Alive (st.ensure m path stat) :=
  (h.transaction (transaction_createRow st m path stat)).transaction
    (transaction_found (createRow_stats st m path stat))

/-! ## The list of `inode_data` -/

theorem inodeGetData_some (hd : st.inodeGetData m ino = some d) :
    d ∈ st.inodes ∧ d.mount = m ∧ d.number = ino := by
  refine ⟨List.mem_of_find?_eq_some hd, ?_⟩
  simpa only [decide_eq_true_eq] using List.find?_some hd

theorem inodeGetData_none (hd : st.inodeGetData m ino = none) :
    ∀ d ∈ st.inodes, ¬ (d.mount = m ∧ d.number = ino) :=
  fun d hmem hkey => List.find?_eq_none.mp hd d hmem (decide_eq_true hkey)

theorem Alive.mapInodes (h : Alive st) (g : InodeData → InodeData) (files : List OpenFile)
    (opening : List Found) (hg : ∀ d, (g d).addr = d.addr ∧ (g d).mount = d.mount ∧
      (g d).number = d.number)
    (hcount : ∀ d ∈ st.inodes, (g d).refcount = files.countP fun f => f.data = d.addr)
    (hfiles : ∀ f ∈ files, ∃ d ∈ st.inodes,
      d.addr = f.data ∧ d.mount = f.file.mount ∧ d.number = f.file.inode)
    (huse : ∀ o, InUse { st with files := files, opening := opening } o → InUse st o) :
    Alive { st with inodes := st.inodes.map g, files := files, opening := opening } where
  addr_inj := by
    refine List.pairwise_map.mpr (h.addr_inj.imp fun hne => ?_)
    rw [(hg _).1, (hg _).1]
    exact hne
  addr_lt e he := by
    obtain ⟨d, hd, rfl⟩ := List.mem_map.mp he
    rw [(hg d).1]
    exact h.addr_lt d hd
  unique := by
    refine List.pairwise_map.mpr (h.unique.imp fun hne => ?_)
    rw [(hg _).2.1, (hg _).2.1, (hg _).2.2, (hg _).2.2]
    exact hne
  counted e he := by
    obtain ⟨d, hd, rfl⟩ := List.mem_map.mp he
    rw [(hg d).1]
    exact hcount d hd
  held f hf := by
    obtain ⟨d, hd, hkey⟩ := hfiles f hf
    refine ⟨g d, List.mem_map.mpr ⟨d, hd, rfl⟩, ?_⟩
    rw [(hg d).1, (hg d).2.1, (hg d).2.2]
    exact hkey
  row o ho := h.row o (huse o ho)
  paths := h.paths

def retained (addr : Nat) (e : InodeData) : InodeData :=
  if e.addr = addr then { e with refcount := e.refcount + 1 } else e

def flagged (addr : Nat) (e : InodeData) : InodeData :=
  if e.addr = addr then { e with orphanPending := true } else e

def released (addr : Nat) (e : InodeData) : InodeData :=
  if e.addr = addr then { e with refcount := e.refcount - 1 } else e

theorem retained_key (addr : Nat) (e : InodeData) : (retained addr e).addr = e.addr ∧
    (retained addr e).mount = e.mount ∧ (retained addr e).number = e.number := by
  unfold retained
  split <;> exact ⟨rfl, rfl, rfl⟩

theorem flagged_key (addr : Nat) (e : InodeData) : (flagged addr e).addr = e.addr ∧
    (flagged addr e).mount = e.mount ∧ (flagged addr e).number = e.number := by
  unfold flagged
  split <;> exact ⟨rfl, rfl, rfl⟩

theorem released_key (addr : Nat) (e : InodeData) : (released addr e).addr = e.addr ∧
    (released addr e).mount = e.mount ∧ (released addr e).number = e.number := by
  unfold released
  split <;> exact ⟨rfl, rfl, rfl⟩

theorem Alive.newData (h : Alive st) {o : Found} (ho : o ∈ st.opening)
    (hnone : st.inodeGetData o.mount o.inode = none) : Alive { st with
      opening := st.opening.erase o
      inodes := ⟨st.nextAddr, o.mount, o.inode, 1, false⟩ :: st.inodes
      nextAddr := st.nextAddr + 1
      files := ⟨o, st.nextAddr⟩ :: st.files } := by
  have hlt : ∀ f ∈ st.files, f.data ≠ st.nextAddr := by
    intro f hf heq
    obtain ⟨d, hd, haddr, -⟩ := h.held f hf
    have := h.addr_lt d hd
    omega
  refine ⟨List.pairwise_cons.mpr ⟨fun d hd => ?_, h.addr_inj⟩, fun d hd => ?_,
    List.pairwise_cons.mpr ⟨fun d hd hkey => ?_, h.unique⟩, fun d hd => ?_, fun f hf => ?_,
    fun x hx => ?_, h.paths⟩
  · exact (Nat.ne_of_lt (h.addr_lt d hd)).symm
  · rcases List.mem_cons.mp hd with rfl | hd
    · exact Nat.lt_succ_self _
    · exact Nat.lt_succ_of_lt (h.addr_lt d hd)
  · exact inodeGetData_none hnone d hd ⟨hkey.1.symm, hkey.2.symm⟩
  · rw [List.countP_cons]
    rcases List.mem_cons.mp hd with rfl | hd
    · have hzero : st.files.countP (fun f => f.data = st.nextAddr) = 0 := by
        rw [List.countP_eq_zero]
        intro f hf
        rw [decide_eq_true_eq]
        exact hlt f hf
      show 1 = st.files.countP (fun f => f.data = st.nextAddr) + _
      rw [hzero, if_pos (by simp)]
    have hne : st.nextAddr ≠ d.addr := (Nat.ne_of_lt (h.addr_lt d hd)).symm
    rw [if_neg (by simpa using hne), Nat.add_zero]
    exact h.counted d hd
  · rcases List.mem_cons.mp hf with rfl | hf
    · exact ⟨_, List.mem_cons_self, rfl, rfl, rfl⟩
    · obtain ⟨d, hd, hkey⟩ := h.held f hf
      exact ⟨d, List.mem_cons_of_mem _ hd, hkey⟩
  refine h.row x ?_
  rcases hx with hx | ⟨f, hf, hfx⟩
  · exact .inl (List.mem_of_mem_erase hx)
  rcases List.mem_cons.mp hf with rfl | hf
  · rw [← hfx]
    exact .inl ho
  · exact .inr ⟨f, hf, hfx⟩

theorem Alive.pin (h : Alive st) (o : Found) (memory : Bool) : Alive (st.pin o memory) := by
  unfold LifeState.pin
  split
  swap
  · exact h
  case isTrue ho =>
  dsimp only
  unfold inodeGet
  cases hdata : st.inodeGetData o.mount o.inode with
  | some d =>
    rw [show ({ st with opening := st.opening.erase o } : LifeState).inodeGetData o.mount o.inode =
      some d from hdata]
    obtain ⟨hd, hm, hn⟩ := inodeGetData_some hdata
    refine h.mapInodes (retained d.addr) (⟨o, d.addr⟩ :: st.files) _ (retained_key d.addr)
      (fun e he => ?_) (fun f hf => ?_) (fun x hx => ?_)
    · rw [List.countP_cons, ← h.counted e he]
      by_cases heq : e.addr = d.addr
      · rw [retained, if_pos heq, if_pos (by simp [heq])]
      · rw [retained, if_neg heq, if_neg (by simpa using Ne.symm heq), Nat.add_zero]
    · rcases List.mem_cons.mp hf with rfl | hf
      · exact ⟨d, hd, rfl, hm, hn⟩
      · exact h.held f hf
    rcases hx with hx | ⟨f, hf, hfx⟩
    · exact .inl (List.mem_of_mem_erase hx)
    rcases List.mem_cons.mp hf with rfl | hf
    · rw [← hfx]
      exact .inl ho
    · exact .inr ⟨f, hf, hfx⟩
  | none =>
    rw [show ({ st with opening := st.opening.erase o } : LifeState).inodeGetData o.mount o.inode =
      none from hdata]
    cases memory with
    | true => exact h.newData ho hdata
    | false =>
      exact h.transaction ⟨rfl, rfl, rfl, fun _ _ hi => hi, fun _ _ _ => rfl,
        fun x hx => .inl (List.mem_of_mem_erase hx), fun _ p i hi => .inl ⟨p, hi⟩⟩

/-! ## Cleaning up -/

theorem mem_tryCleanup {i : Nat} : i ∈ (tryCleanupInode db ino).stats ↔
    i ∈ db.stats ∧ (i = ino → ∃ path, db.paths.lookup path = some ino) := by
  unfold tryCleanupInode
  split
  case isTrue hany =>
    obtain ⟨⟨path, j⟩, hmem, hj⟩ := List.any_eq_true.mp hany
    obtain rfl : j = ino := of_decide_eq_true hj
    exact ⟨fun hi => ⟨hi, fun _ => ⟨path, AList.mem_lookup_iff.mpr hmem⟩⟩, And.left⟩
  case isFalse hany =>
    rw [AList.mem_erase]
    refine ⟨fun ⟨hne, hi⟩ => ⟨hi, fun heq => absurd heq hne⟩, fun ⟨hi, hpath⟩ => ⟨fun heq => ?_, hi⟩⟩
    obtain ⟨path, hp⟩ := hpath heq
    exact hany (List.any_eq_true.mpr ⟨⟨path, ino⟩, AList.mem_lookup_iff.mp hp, by simp⟩)

theorem Alive.orphaned (h : Alive st) (hfree : (∀ path, (st.dbs m).paths.lookup path ≠ some ino) →
      ∀ o, InUse st o → ¬ (o.mount = m ∧ o.inode = ino)) : Alive (st.inodeOrphaned m ino) := by
  have hkeep : ∀ k i, i ∈ (st.dbs k).stats →
      ((k = m ∧ i = ino) → ∃ path, (st.dbs m).paths.lookup path = some ino) →
      i ∈ ((st.inodeOrphaned m ino).dbs k).stats := by
    intro k i hi hpath
    show i ∈ (Function.update st.dbs m _ k).stats
    by_cases hk : k = m
    · subst hk
      rw [Function.update_self, mem_tryCleanup]
      exact ⟨hi, fun heq => hpath ⟨rfl, heq⟩⟩
    · rw [Function.update_of_ne hk]
      exact hi
  have hpaths : ∀ k, ((st.inodeOrphaned m ino).dbs k).paths = (st.dbs k).paths := by
    intro k
    show (Function.update st.dbs m _ k).paths = _
    by_cases hk : k = m
    · subst hk
      rw [Function.update_self, tryCleanupInode_paths]
    · rw [Function.update_of_ne hk]
  refine ⟨h.addr_inj, h.addr_lt, h.unique, h.counted, h.held, fun o ho => ⟨?_, (h.row o ho).2⟩,
    fun k path i hi => ?_⟩
  · refine hkeep o.mount o.inode (h.row o ho).1 fun hkey => ?_
    by_contra hno
    exact hfree (fun path hp => hno ⟨path, hp⟩) o ho hkey
  rw [hpaths k] at hi
  refine hkeep k i (h.paths k path i hi) fun hkey => ⟨path, ?_⟩
  rw [← hkey.1, ← hkey.2]
  exact hi

theorem Alive.check (h : Alive st) {c : Nat × Nat} (hun : Unraced st (.check c)) :
    Alive (st.check c) := by
  unfold LifeState.check
  split
  swap
  · exact h
  case isTrue hc =>
  have h' : Alive { st with checks := st.checks.erase c } :=
    ⟨h.addr_inj, h.addr_lt, h.unique, h.counted, h.held, h.row, h.paths⟩
  unfold LifeState.inodeCheckOrphaned
  cases hdata : st.inodeGetData c.1 c.2 with
  | none =>
    rw [show ({ st with checks := st.checks.erase c } : LifeState).inodeGetData c.1 c.2 = none from
      hdata]
    refine h'.orphaned fun hno o ho hkey => ?_
    rcases ho with ho | ⟨f, hf, rfl⟩
    · rcases hun hc hdata with ⟨path, hp⟩ | hnone
      · exact hno path hp
      · exact hnone o ho hkey
    · obtain ⟨d, hd, -, hm, hn⟩ := h.held f hf
      exact inodeGetData_none hdata d hd ⟨hm.trans hkey.1, hn.trans hkey.2⟩
  | some d =>
    rw [show ({ st with checks := st.checks.erase c } : LifeState).inodeGetData c.1 c.2 = some d from
      hdata]
    refine h'.mapInodes (flagged d.addr) st.files st.opening (flagged_key d.addr) (fun e he => ?_)
      h.held (fun o ho => ho)
    rw [← h.counted e he]
    unfold flagged
    split <;> rfl

theorem Alive.dropData (h : Alive st) (hdata : f.data = d.addr)
    (hlast : ∀ g ∈ st.files.erase f, g.data ≠ d.addr) : Alive { st with
      files := st.files.erase f
      inodes := st.inodes.filter fun e => e.addr ≠ d.addr } := by
  have hmem : ∀ e, e ∈ st.inodes.filter (fun e => e.addr ≠ d.addr) ↔
      e ∈ st.inodes ∧ e.addr ≠ d.addr := fun e => by rw [List.mem_filter, decide_eq_true_eq]
  refine ⟨h.addr_inj.filter _, fun e he => h.addr_lt e ((hmem e).mp he).1, h.unique.filter _,
    fun e he => ?_, fun g hg => ?_, fun o ho => ?_, h.paths⟩
  · obtain ⟨he, hne⟩ := (hmem e).mp he
    rw [List.countP_erase, ← h.counted e he]
    split
    case isFalse => rfl
    case isTrue hf =>
      -- the closed file pointed to `d`, not to `e`
      exact absurd (hdata.symm.trans (of_decide_eq_true hf.2)).symm hne
  · obtain ⟨e, he, haddr, hkey⟩ := h.held g (List.mem_of_mem_erase hg)
    exact ⟨e, (hmem e).mpr ⟨he, fun hc => hlast g hg (haddr.symm.trans hc)⟩, haddr, hkey⟩
  refine h.row o ?_
  rcases ho with ho | ⟨g, hg, hgo⟩
  · exact .inl ho
  · exact .inr ⟨g, List.mem_of_mem_erase hg, hgo⟩

theorem Alive.close (h : Alive st) (hun : Unraced st (.close f)) : Alive (st.close f) := by
  unfold LifeState.close
  split
  swap
  · exact h
  case isTrue hf =>
  obtain ⟨d, hd, haddr, -⟩ := h.held f hf
  have hfind : st.inodes.find? (fun e => e.addr = f.data) = some d := by
    cases hfind : st.inodes.find? fun e => e.addr = f.data with
    | none =>
      have hno := List.find?_eq_none.mp hfind d hd
      exact absurd (decide_eq_true haddr) hno
    | some e =>
      have he := List.find?_some hfind
      simp only [decide_eq_true_eq] at he
      rw [h.eq_of_addr (List.mem_of_find?_eq_some hfind) hd (he.trans haddr.symm)]
  have hcount := h.counted d hd
  have herase : (st.files.erase f).countP (fun g => g.data = d.addr) = d.refcount - 1 := by
    rw [List.countP_erase, ← hcount, if_pos ⟨hf, by simp [haddr]⟩]
  have huse : ∀ o, InUse { st with files := st.files.erase f } o → InUse st o := by
    rintro o (ho | ⟨g, hg, hgo⟩)
    · exact .inl ho
    · exact .inr ⟨g, List.mem_of_mem_erase hg, hgo⟩
  unfold inodeRelease
  dsimp only
  rw [hfind]
  dsimp only
  split
  case isTrue hlast =>
    have hpos : 0 < st.files.countP fun g => g.data = d.addr :=
      List.countP_pos_iff.mpr ⟨f, hf, by simp [haddr]⟩
    have hnone : ∀ g ∈ st.files.erase f, g.data ≠ d.addr := by
      rw [hlast] at herase
      intro g hg heq
      exact List.countP_eq_zero.mp herase g hg (decide_eq_true heq)
    have hdrop := h.dropData haddr.symm hnone
    rw [← haddr]
    split
    case isFalse => exact hdrop
    case isTrue horphan =>
      refine hdrop.orphaned fun hno o ho hkey' => ?_
      rcases ho with ho | ⟨g, hg, rfl⟩
      · rcases hun hf d hd haddr (by omega) horphan with ⟨path, hp⟩ | hopen
        · exact hno path hp
        · exact hopen o ho hkey'
      · -- another file with this inode would point to `d` too
        exact hnone g hg ((h.data_iff hd (List.mem_of_mem_erase hg)).mpr hkey')
  case isFalse hmore =>
    rw [← haddr]
    refine h.mapInodes (released d.addr) (st.files.erase f) st.opening (released_key d.addr)
      (fun e he => ?_) (fun g hg => h.held g (List.mem_of_mem_erase hg)) huse
    by_cases heq : e.addr = d.addr
    · rw [released, if_pos heq, h.eq_of_addr he hd heq, herase]
    rw [released, if_neg heq, List.countP_erase, ← h.counted e he, if_neg, Nat.sub_zero]
    rintro ⟨-, hc⟩
    exact heq ((haddr.trans (of_decide_eq_true hc)).symm)

/-! ## Every run -/

theorem alive_step (st : LifeState) (op : LifeOp) (h : Alive st) (hun : Unraced st op) :
    Alive (lifeStep st op) := by
  cases op with
  | lookup m path creat => exact h.lookup m path creat
  | ensure m path stat => exact h.ensure m path stat
  | pin o memory => exact h.pin o memory
  | close f => exact h.close hun
  | unlink m path => exact h.transaction (transaction_withDb (grows_pathUnlink _ _) _)
  | rename m src dst => exact h.transaction (transaction_withDb (grows_pathRename _ _ _) _)
  | check c => exact h.check hun
  | create m path stat => exact h.transaction (transaction_createRow st m path stat)
  | link m src dst =>
    show Alive (st.link m src dst)
    unfold LifeState.link
    cases hl : pathLink (st.dbs m) src dst with
    | none => exact h
    | some db => exact h.transaction (transaction_withDb (grows_pathLink hl) st.checks)
  | setattr m ino stat =>
    exact h.transaction (transaction_withDb (grows_inodeWriteStat _ _ _) st.checks)

theorem Alive.deletesUnused {op : LifeOp} (h : Alive st) (hun : Unraced st op) :
    DeletesUnused st op := by
  have h' := alive_step st op h hun
  intro m i _ hgone
  refine ⟨fun path hp => hgone (h'.paths m path i hp), fun o ho hkey => hgone ?_⟩
  rw [← hkey.1, ← hkey.2]
  exact (h'.row o ho).1

/-- **Inodes and their rows.** In every interleaving in which no clean-up overtakes an `open` that has
looked up the inode and not pinned it, every state has one `inode_data` for an inode, counted right,
and every file in use has its own row; and rows are deleted only when nothing refers to them. -/
theorem inodeLifetime_run (st : LifeState) (hst : Mounted st) (ops : List LifeOp)
    (hops : AllSteps lifeStep Unraced st ops) : Lifetime (run lifeStep st ops) ∧
      ∀ op, Unraced (run lifeStep st ops) op → DeletesUnused (run lifeStep st ops) op := by
  have h := run_invariant alive_step hst.alive hops
  exact ⟨h.lifetime, fun op hun => h.deletesUnused hun⟩

/-- One file, `/a`, with the row 1. -/
def oneFile : LifeState where
  dbs _ := ⟨AList.insert [0x2f, 0x61] 1 ∅, AList.insert 1 ⟨0x81a4, 0, 0, 0⟩ ∅⟩
  inodes := []
  nextAddr := 0
  opening := []
  files := []
  checks := []
  birth _ _ := 0
  clock := 1

theorem oneFile_mounted : Mounted oneFile := by
  refine ⟨rfl, rfl, rfl, fun m path i hi => ?_⟩
  have hi' : (AList.insert [0x2f, 0x61] 1 (∅ : AList fun _ : Blob => Nat)).lookup path = some i := hi
  by_cases hp : path = [0x2f, 0x61]
  · rw [hp, AList.lookup_insert] at hi'
    obtain rfl := Option.some.inj hi'
    show 1 ∈ AList.insert 1 _ ∅
    exact (AList.mem_insert _).mpr (.inl rfl)
  · rw [AList.lookup_insert_ne hp] at hi'
    cases hi'

/-- The file is opened and then unlinked; its row stays. -/
theorem inodeLifetime_unlinked : ∃ stat, ((run lifeStep oneFile [.lookup 0 [0x2f, 0x61] none,
    .pin ⟨0, 1, 0⟩ true, .unlink 0 [0x2f, 0x61], .check (0, 1)]).dbs 0).stats.lookup 1 =
      some stat := by
  have hrun := inodeLifetime_run oneFile oneFile_mounted [.lookup 0 [0x2f, 0x61] none,
    .pin ⟨0, 1, 0⟩ true, .unlink 0 [0x2f, 0x61], .check (0, 1)]
    ⟨trivial, trivial, trivial, fun _ hnone => absurd hnone (by decide), trivial⟩
  exact (hrun.1.row ⟨0, 1, 0⟩ (.inr ⟨⟨⟨0, 1, 0⟩, 0⟩, by decide, rfl⟩)).1

/-- The file is unlinked, and cleaned up, between the two halves of its `open`. -/
def racedOpen : List LifeOp :=
  [.lookup 0 [0x2f, 0x61] none, .unlink 0 [0x2f, 0x61], .check (0, 1), .pin ⟨0, 1, 0⟩ true]

/-- The descriptor is left without a row, and the next file takes the row over. -/
theorem inodeLifetime_raced : ¬ Lifetime (run lifeStep oneFile racedOpen) ∧
    ¬ Lifetime (run lifeStep oneFile (racedOpen ++ [.create 0 [0x2f, 0x62] ⟨0x8180, 0, 0, 0⟩])) ∧
    ((run lifeStep oneFile (racedOpen ++ [.create 0 [0x2f, 0x62] ⟨0x8180, 0, 0, 0⟩])).dbs 0).stats.lookup
      1 = some ⟨0x8180, 0, 0, 0⟩ := by
  refine ⟨fun hl => ?_, fun hl => ?_, by decide⟩
  · obtain ⟨stat, hstat⟩ := (hl.row ⟨0, 1, 0⟩ (.inr ⟨⟨⟨0, 1, 0⟩, 0⟩, by decide, rfl⟩)).1
    have hnone : ((run lifeStep oneFile racedOpen).dbs 0).stats.lookup 1 = none := by decide
    cases hnone.symm.trans hstat
  · have hbirth := (hl.row ⟨0, 1, 0⟩ (.inr ⟨⟨⟨0, 1, 0⟩, 0⟩, by decide, rfl⟩)).2
    exact absurd hbirth (by decide)

end IosLinuxkit.Fs
