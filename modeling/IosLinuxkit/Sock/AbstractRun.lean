import IosLinuxkit.Sock.Abstract

/-!
# Abstract names over a run

While the calls fit, the entries of the table are the names that open sockets are bound to.

* **`abstractNames_run`** — in a run whose calls all fit, they all behave.
-/

namespace IosLinuxkit.Sock

/-! ## The table of bound names -/

variable {h : History} {st : Names} {s t : Nat} {name : AbstractName} {e : UnixAbstract}

structure Holds (st : Names) (s : Nat) (name : AbstractName) (e : UnixAbstract) : Prop where
  mem : e ∈ st.abstractHash
  socket : st.sockets.lookup s = some ⟨some e.addr, some e.socketId⟩
  hash : e.hash = strHash name
  path : st.hostPaths.lookup e.socketId = some s

/-- Entries and bound names correspond; entries differ in address and hash; addresses and ids that
were not used yet are above those in the table. -/
structure Table (h : History) : Prop where
  entry : ∀ b ∈ h.bound, ∃ e, Holds h.names b.1 b.2 e
  owner : ∀ e ∈ h.names.abstractHash, ∃ b ∈ h.bound, Holds h.names b.1 b.2 e
  named : ∀ s sock addr, h.names.sockets.lookup s = some sock → sock.nameAbstract = some addr →
    ∃ name, (s, name) ∈ h.bound
  addr_inj : ∀ e ∈ h.names.abstractHash, ∀ f ∈ h.names.abstractHash, e.addr = f.addr → e = f
  hash_inj : ∀ e ∈ h.names.abstractHash, ∀ f ∈ h.names.abstractHash, e.hash = f.hash → e = f
  addr_lt : ∀ e ∈ h.names.abstractHash, e.addr < h.names.nextAddr
  id_le : ∀ e ∈ h.names.abstractHash, e.socketId ≤ h.names.nextId
  socket_lt : ∀ s sock, h.names.sockets.lookup s = some sock → s < h.names.nextSocket

theorem table_init : Table History.init where
  entry b hb := by cases hb
  owner e he := by cases he
  named s sock addr hs := by cases hs
  addr_inj e he := by cases he
  hash_inj e he := by cases he
  addr_lt e he := by cases he
  id_le e he := by cases he
  socket_lt s sock hs := by cases hs

theorem find_eq_some (hfind : st.find name = some e) :
    e ∈ st.abstractHash ∧ e.hash = strHash name := by
  refine ⟨List.mem_of_find?_eq_some hfind, ?_⟩
  simpa only [decide_eq_true_eq] using List.find?_some hfind

theorem find_eq_none (hfind : st.find name = none) : ∀ e ∈ st.abstractHash, e.hash ≠ strHash name :=
  fun e he hh => List.find?_eq_none.mp hfind e he (decide_eq_true hh)

theorem Table.find_iff (ht : Table h) (hclash : NoClash h name) :
    (∀ e, h.names.find name = some e → ∃ s, (s, name) ∈ h.bound ∧ Holds h.names s name e) ∧
      (h.names.find name = none → ∀ s, (s, name) ∉ h.bound) := by
  constructor
  · intro e hfind
    obtain ⟨hmem, hhash⟩ := find_eq_some hfind
    obtain ⟨⟨s, n⟩, hb, hh⟩ := ht.owner e hmem
    obtain rfl : n = name := hclash _ hb (hh.hash.symm.trans hhash)
    exact ⟨s, hb, hh⟩
  intro hfind s hb
  obtain ⟨e, hh⟩ := ht.entry _ hb
  exact find_eq_none hfind e hh.mem hh.hash

/-! ## What the calls return -/

theorem sysBind_eEXIST {memory host : Bool} : (sysBind st s name memory host).1 = eEXIST ↔
    (st.sockets.lookup s).isSome ∧ fitsAddress name ∧ (st.find name).isSome := by
  unfold sysBind
  cases hs : st.sockets.lookup s with
  | none => simp [eBADF, eEXIST]
  | some sock =>
    dsimp only
    by_cases hfit : fitsAddress name = true
    swap
    · simp [hfit, eINVAL, eEXIST]
    rw [if_pos hfit]
    unfold unixAbstractGet
    cases hfind : st.find name with
    | some e => simp [hfit]
    | none =>
      cases memory with
      | false => simp [eNOMEM, eEXIST]
      | true =>
        simp only [if_true, hostBind]
        split
        · split <;> simp [eINVAL, eACCES, eEXIST]
        · simp [eEXIST]

theorem bind_behaves (ht : Table h) (hclash : NoClash h name) (memory host : Bool) :
    Behaves h (.bind s name memory host) := by
  intro hs hfit
  obtain ⟨hsome, hnone⟩ := ht.find_iff hclash
  rw [sysBind_eEXIST]
  constructor
  · rintro ⟨-, -, hfind⟩
    obtain ⟨e, he⟩ := Option.isSome_iff_exists.mp hfind
    obtain ⟨t, hb, -⟩ := hsome e he
    exact ⟨t, hb⟩
  rintro ⟨t, hb⟩
  refine ⟨hs, hfit, ?_⟩
  rw [Option.isSome_iff_ne_none]
  exact fun hc => hnone hc t hb

variable {sock : Socket}

theorem sysAddress_of_some (hs : st.sockets.lookup s = some sock)
    (hfit : fitsAddress name = true) (hfind : st.find name = some e) : sysAddress st s name =
      ((st.hostPaths.lookup e.socketId).filter fun t => (st.sockets.lookup t).isSome,
        st.retain e.addr) := by
  unfold sysAddress unixAbstractGet
  rw [hs, hfind]
  dsimp only
  rw [if_pos hfit]
  rfl

theorem sysAddress_of_none (hfind : st.find name = none) : sysAddress st s name = (none, st) := by
  unfold sysAddress unixAbstractGet
  rw [hfind]
  cases st.sockets.lookup s with
  | none => rfl
  | some sock =>
    dsimp only
    split <;> rfl

theorem address_behaves (ht : Table h) (hclash : NoClash h name) : Behaves h (.address s name) := by
  intro hs hfit t
  obtain ⟨hsome, hnone⟩ := ht.find_iff hclash
  obtain ⟨sock, hsock⟩ := Option.isSome_iff_exists.mp hs
  cases hfind : h.names.find name with
  | none =>
    rw [sysAddress_of_none hfind]
    exact iff_of_false (fun hc => by cases hc) (hnone hfind t)
  | some e =>
    obtain ⟨u, hb, hh⟩ := hsome e hfind
    rw [sysAddress_of_some hsock hfit hfind, hh.path, Option.filter_some, hh.socket]
    constructor
    · intro hc
      obtain rfl := Option.some.inj hc
      exact hb
    intro hb'
    -- the path of the entry leads to one socket
    obtain ⟨f, hf⟩ := ht.entry _ hb'
    have hef := ht.hash_inj f hf.mem e hh.mem (hf.hash.trans hh.hash.symm)
    have hpath := hf.path
    rw [hef, hh.path] at hpath
    exact hpath

/-! ## What the calls do to the table -/

def bump (addr : Nat) (e : UnixAbstract) : UnixAbstract :=
  if e.addr = addr then { e with refcount := e.refcount + 1 } else e

@[simp] theorem bump_addr (a : Nat) (e : UnixAbstract) : (bump a e).addr = e.addr := by
  unfold bump
  split <;> rfl

@[simp] theorem bump_hash (a : Nat) (e : UnixAbstract) : (bump a e).hash = e.hash := by
  unfold bump
  split <;> rfl

@[simp] theorem bump_socketId (a : Nat) (e : UnixAbstract) : (bump a e).socketId = e.socketId := by
  unfold bump
  split <;> rfl

theorem mem_retain {f : UnixAbstract} {a : Nat} :
    f ∈ (st.retain a).abstractHash ↔ ∃ e ∈ st.abstractHash, bump a e = f :=
  List.mem_map

theorem Holds.retain (hh : Holds st s name e) (a : Nat) : Holds (st.retain a) s name (bump a e) :=
  ⟨mem_retain.mpr ⟨e, hh.mem, rfl⟩, by rw [bump_addr, bump_socketId]; exact hh.socket,
    by rw [bump_hash, hh.hash], by rw [bump_socketId]; exact hh.path⟩

theorem table_retain (ht : Table h) (a : Nat) : Table { h with names := h.names.retain a } where
  entry b hb := by
    obtain ⟨e, hh⟩ := ht.entry b hb
    exact ⟨_, hh.retain a⟩
  owner f hf := by
    obtain ⟨e, he, rfl⟩ := mem_retain.mp hf
    obtain ⟨b, hb, hh⟩ := ht.owner e he
    exact ⟨b, hb, hh.retain a⟩
  named := ht.named
  addr_inj f hf g hg heq := by
    obtain ⟨e, he, rfl⟩ := mem_retain.mp hf
    obtain ⟨e', he', rfl⟩ := mem_retain.mp hg
    rw [bump_addr, bump_addr] at heq
    rw [ht.addr_inj e he e' he' heq]
  hash_inj f hf g hg heq := by
    obtain ⟨e, he, rfl⟩ := mem_retain.mp hf
    obtain ⟨e', he', rfl⟩ := mem_retain.mp hg
    rw [bump_hash, bump_hash] at heq
    rw [ht.hash_inj e he e' he' heq]
  addr_lt f hf := by
    obtain ⟨e, he, rfl⟩ := mem_retain.mp hf
    rw [bump_addr]
    exact ht.addr_lt e he
  id_le f hf := by
    obtain ⟨e, he, rfl⟩ := mem_retain.mp hf
    rw [bump_socketId]
    exact ht.id_le e he
  socket_lt := ht.socket_lt

theorem table_address (ht : Table h) (s : Nat) (name : AbstractName) :
    Table (nameStep h (.address s name)) := by
  show Table { h with names := (sysAddress h.names s name).2 }
  cases hfind : h.names.find name with
  | none =>
    rw [sysAddress_of_none hfind]
    exact ht
  | some e =>
    cases hs : h.names.sockets.lookup s with
    | none =>
      unfold sysAddress
      rw [hs]
      exact ht
    | some sock =>
      by_cases hfit : fitsAddress name = true
      · rw [sysAddress_of_some hs hfit hfind]
        exact table_retain ht e.addr
      unfold sysAddress
      rw [hs]
      dsimp only
      rw [if_neg hfit]
      exact ht

theorem table_socket (ht : Table h) : Table (nameStep h .socket) := by
  have hold : ∀ s, s < h.names.nextSocket →
      (sysSocket h.names).sockets.lookup s = h.names.sockets.lookup s := fun s hs =>
    AList.lookup_insert_ne (Nat.ne_of_lt hs)
  have hkeep : ∀ {s name e}, Holds h.names s name e → Holds (sysSocket h.names) s name e :=
    fun hh => ⟨hh.mem, (hold _ (ht.socket_lt _ _ hh.socket)).trans hh.socket, hh.hash, hh.path⟩
  refine ⟨fun b hb => ?_, fun e he => ?_, fun s sock addr hs haddr => ?_, ht.addr_inj, ht.hash_inj,
    ht.addr_lt, ht.id_le, fun s sock hs => ?_⟩
  · obtain ⟨e, hh⟩ := ht.entry b hb
    exact ⟨e, hkeep hh⟩
  · obtain ⟨b, hb, hh⟩ := ht.owner e he
    exact ⟨b, hb, hkeep hh⟩
  · by_cases hnew : s = h.names.nextSocket
    · -- a new socket has no name
      have hs' : (h.names.sockets.insert h.names.nextSocket ⟨none, none⟩).lookup s = some sock := hs
      rw [hnew, AList.lookup_insert] at hs'
      obtain rfl := Option.some.inj hs'
      cases haddr
    · exact ht.named s sock addr ((AList.lookup_insert_ne hnew).symm.trans hs) haddr
  show s < h.names.nextSocket + 1
  by_cases hnew : s = h.names.nextSocket
  · omega
  · have := ht.socket_lt s sock ((AList.lookup_insert_ne hnew).symm.trans hs)
    omega

theorem Table.congr (ht : Table h) (st : Names)
    (hmem : ∀ f, f ∈ st.abstractHash ↔ f ∈ h.names.abstractHash)
    (hsock : ∀ t, st.sockets.lookup t = h.names.sockets.lookup t)
    (hpath : ∀ id, id ≤ h.names.nextId → st.hostPaths.lookup id = h.names.hostPaths.lookup id)
    (haddr : h.names.nextAddr ≤ st.nextAddr) (hid : h.names.nextId ≤ st.nextId)
    (hnext : st.nextSocket = h.names.nextSocket) : Table ⟨st, h.bound⟩ := by
  have hkeep : ∀ {s name e}, Holds h.names s name e → Holds st s name e := fun hh =>
    ⟨(hmem _).mpr hh.mem, (hsock _).trans hh.socket, hh.hash,
      (hpath _ (ht.id_le _ hh.mem)).trans hh.path⟩
  refine ⟨fun b hb => ?_, fun e he => ?_, fun t sock addr hs => ht.named t sock addr (hsock t ▸ hs),
    fun e he f hf => ht.addr_inj e ((hmem e).mp he) f ((hmem f).mp hf),
    fun e he f hf => ht.hash_inj e ((hmem e).mp he) f ((hmem f).mp hf),
    fun e he => Nat.lt_of_lt_of_le (ht.addr_lt e ((hmem e).mp he)) haddr,
    fun e he => UInt32.le_trans (ht.id_le e ((hmem e).mp he)) hid, fun t sock hs => ?_⟩
  · obtain ⟨e, hh⟩ := ht.entry b hb
    exact ⟨e, hkeep hh⟩
  · obtain ⟨b, hb, hh⟩ := ht.owner e ((hmem e).mp he)
    exact ⟨b, hb, hkeep hh⟩
  show t < st.nextSocket
  rw [hnext]
  exact ht.socket_lt t sock (hsock t ▸ hs)

theorem lt_nextId {id : UInt32} (hid : id < 0xffffffff) : id < id + 1 := by
  rw [UInt32.lt_iff_toNat_lt] at *
  rw [UInt32.toNat_add]
  simp only [UInt32.reduceToNat] at *
  omega

theorem table_fileId (ht : Table h) (hid : h.names.nextId < 0xffffffff) :
    Table (nameStep h .fileId) :=
  ht.congr _ (fun _ => Iff.rfl) (fun _ => rfl) (fun _ _ => rfl) (Nat.le_refl _)
    (UInt32.le_of_lt (lt_nextId hid)) rfl

theorem mem_release {a : Nat} (hone : ∀ e ∈ st.abstractHash, e.addr = a → e.refcount = 1)
    {f : UnixAbstract} : f ∈ (unixAbstractRelease st a).abstractHash ↔
      f ∈ st.abstractHash ∧ f.addr ≠ a := by
  unfold unixAbstractRelease
  rw [List.mem_filterMap]
  constructor
  · rintro ⟨e, he, hf⟩
    by_cases ha : e.addr = a
    · rw [if_pos ha, if_pos (by rw [hone e he ha]; rfl)] at hf
      cases hf
    rw [if_neg ha] at hf
    obtain rfl := Option.some.inj hf
    exact ⟨he, ha⟩
  · rintro ⟨hf, ha⟩
    exact ⟨f, hf, if_neg ha⟩

structure Closed (h : History) (s : Nat) (st : Names) : Prop where
  mem : ∀ f, f ∈ st.abstractHash ↔ f ∈ h.names.abstractHash ∧
    ∀ sock, h.names.sockets.lookup s = some sock → sock.nameAbstract ≠ some f.addr
  socket : ∀ t, t ≠ s → st.sockets.lookup t = h.names.sockets.lookup t
  gone : st.sockets.lookup s = none
  rest : st.hostPaths = h.names.hostPaths ∧ st.nextId = h.names.nextId ∧
    st.nextAddr = h.names.nextAddr ∧ st.nextSocket = h.names.nextSocket

theorem closed_sockClose (hfit : Fits h (.close s)) : Closed h s (sockClose h.names s) := by
  unfold sockClose
  cases hs : h.names.sockets.lookup s with
  | none =>
    refine ⟨fun f => ⟨fun hf => ⟨hf, fun sock hc => ?_⟩, And.left⟩, fun t _ => rfl, hs,
      rfl, rfl, rfl, rfl⟩
    rw [hs] at hc
    cases hc
  | some sock =>
    dsimp only
    have hother : ∀ t, t ≠ s → (h.names.sockets.erase s).lookup t = h.names.sockets.lookup t :=
      fun t ht => AList.lookup_erase_ne ht
    have hgone : (h.names.sockets.erase s).lookup s = none := AList.lookup_erase s _
    cases haddr : sock.nameAbstract with
    | none =>
      refine ⟨fun f => ⟨fun hf => ⟨hf, fun sock' hc => ?_⟩, And.left⟩, hother, hgone,
        rfl, rfl, rfl, rfl⟩
      rw [hs, Option.some.injEq] at hc
      rw [← hc, haddr]
      exact fun heq => by cases heq
    | some addr =>
      have hone : ∀ e ∈ h.names.abstractHash, e.addr = addr → e.refcount = 1 :=
        fun e he ha => hfit sock hs e he (by rw [haddr, ha])
      refine ⟨fun f => ?_, hother, hgone, rfl, rfl, rfl, rfl⟩
      rw [show f ∈ _ ↔ _ from mem_release hone, hs]
      refine and_congr_right fun _ => ⟨fun hne sock' hc => ?_, fun hne ha => ?_⟩
      · rw [← Option.some.inj hc, haddr]
        exact fun heq => hne (Option.some.inj heq).symm
      · exact hne sock rfl (by rw [haddr, ha])

theorem Closed.kept {b : Nat × AbstractName} (hc : Closed h s st)
    (hh : Holds h.names b.1 b.2 e) (ht : Table h) (hne : b.1 ≠ s) : Holds st b.1 b.2 e := by
  refine ⟨(hc.mem e).mpr ⟨hh.mem, fun sock hs haddr => ?_⟩, ?_, hh.hash, ?_⟩
  · -- two sockets with the same entry are bound to the same path
    obtain ⟨name, hbs⟩ := ht.named s sock e.addr hs haddr
    obtain ⟨f, hf⟩ := ht.entry _ hbs
    have hsock := Option.some.inj (hf.socket.symm.trans hs)
    rw [← hsock, Option.some.injEq] at haddr
    rw [ht.addr_inj f hf.mem e hh.mem haddr] at hf
    exact hne (Option.some.inj (hh.path.symm.trans hf.path))
  · rw [hc.socket b.1 hne]
    exact hh.socket
  · rw [hc.rest.1]
    exact hh.path

theorem table_close (ht : Table h) (hfit : Fits h (.close s)) : Table (nameStep h (.close s)) := by
  have hc := closed_sockClose hfit
  have hsub : ∀ f ∈ (sockClose h.names s).abstractHash, f ∈ h.names.abstractHash :=
    fun f hf => ((hc.mem f).mp hf).1
  have hopen : ∀ t sock, (sockClose h.names s).sockets.lookup t = some sock →
      t ≠ s ∧ h.names.sockets.lookup t = some sock := by
    intro t sock hs
    by_cases hts : t = s
    · rw [hts, hc.gone] at hs
      cases hs
    · rw [hc.socket t hts] at hs
      exact ⟨hts, hs⟩
  have hmem : ∀ b, b ∈ h.bound.filter (fun b => b.1 ≠ s) ↔ b ∈ h.bound ∧ b.1 ≠ s := fun b => by
    rw [List.mem_filter, decide_eq_true_eq]
  refine ⟨fun b hb => ?_, fun e he => ?_, fun t sock addr hs haddr => ?_,
    fun e he f hf => ht.addr_inj e (hsub e he) f (hsub f hf),
    fun e he f hf => ht.hash_inj e (hsub e he) f (hsub f hf), fun e he => ?_, fun e he => ?_,
    fun t sock hs => ?_⟩
  · obtain ⟨hb, hne⟩ := (hmem b).mp hb
    obtain ⟨e, hh⟩ := ht.entry b hb
    exact ⟨e, hc.kept hh ht hne⟩
  · obtain ⟨he, hno⟩ := (hc.mem e).mp he
    obtain ⟨b, hb, hh⟩ := ht.owner e he
    have hne : b.1 ≠ s := by
      rintro rfl
      exact hno _ hh.socket rfl
    exact ⟨b, (hmem b).mpr ⟨hb, hne⟩, hc.kept hh ht hne⟩
  · obtain ⟨hne, hs⟩ := hopen t sock hs
    obtain ⟨name, hb⟩ := ht.named t sock addr hs haddr
    exact ⟨name, (hmem _).mpr ⟨hb, hne⟩⟩
  · show e.addr < (sockClose h.names s).nextAddr
    rw [hc.rest.2.2.1]
    exact ht.addr_lt e (hsub e he)
  · show e.socketId ≤ (sockClose h.names s).nextId
    rw [hc.rest.2.1]
    exact ht.id_le e (hsub e he)
  show t < (sockClose h.names s).nextSocket
  rw [hc.rest.2.2.2]
  exact ht.socket_lt t sock (hopen t sock hs).2

theorem close_behaves (ht : Table h) (hfit : Fits h (.close s)) : Behaves h (.close s) := by
  intro name hb t memory host hex
  have hc := closed_sockClose hfit
  obtain ⟨-, -, hfind⟩ := sysBind_eEXIST.mp hex
  obtain ⟨f, hf⟩ := Option.isSome_iff_exists.mp hfind
  obtain ⟨hmem, hhash⟩ := find_eq_some hf
  obtain ⟨hmem, hno⟩ := (hc.mem f).mp hmem
  -- the only entry with this hash was the one of the closed socket
  obtain ⟨e, hh⟩ := ht.entry _ hb
  have hef := ht.hash_inj e hh.mem f hmem (hh.hash.trans hhash.symm)
  rw [← hef] at hno
  exact hno _ hh.socket rfl

def Names.withEntry (st : Names) (name : AbstractName) : Names :=
  { st with
    abstractHash := st.newEntry name :: st.abstractHash
    nextId := st.nextId + 1
    nextAddr := st.nextAddr + 1 }

theorem sysBind_cases (st : Names) (s : Nat) (name : AbstractName) (memory host : Bool) :
    ((sysBind st s name memory host).1 ≠ 0 ∧ (sysBind st s name memory host).2 = st) ∨
    ∃ sock, st.sockets.lookup s = some sock ∧ st.find name = none ∧ sysBind st s name memory host =
        hostBind (st.withEntry name) s sock (st.newEntry name) host := by
  unfold sysBind
  cases hs : st.sockets.lookup s with
  | none => exact .inl ⟨show eBADF ≠ 0 by decide, rfl⟩
  | some sock =>
    dsimp only
    by_cases hfit : fitsAddress name = true
    swap
    · rw [if_neg hfit]
      exact .inl ⟨show eINVAL ≠ 0 by decide, rfl⟩
    rw [if_pos hfit]
    unfold unixAbstractGet
    cases hfind : st.find name with
    | some e => exact .inl ⟨show eEXIST ≠ 0 by decide, rfl⟩
    | none =>
      cases memory with
      | false => exact .inl ⟨show eNOMEM ≠ 0 by decide, rfl⟩
      | true => exact .inr ⟨sock, rfl, rfl, rfl⟩

theorem hostBind_refused (hhost : sock.hostName = none) :
    hostBind st s sock e false = (eACCES, unixAbstractRelease
      { st with
        hostPaths := st.hostPaths.erase e.socketId
        sockets := st.sockets.insert s { sock with nameAbstract := none } } e.addr) := by
  unfold hostBind
  rw [hhost]
  rfl

theorem hostBind_bound (hhost : sock.hostName = none) : hostBind st s sock e true = (0, { st with
        hostPaths := (st.hostPaths.erase e.socketId).insert e.socketId s
        sockets := st.sockets.insert s ⟨some e.addr, some e.socketId⟩ }) := by
  unfold hostBind
  rw [hhost]
  rfl

theorem Table.unnamed (ht : Table h) (hs : h.names.sockets.lookup s = some sock)
    (hhost : sock.hostName = none) : sock.nameAbstract = none ∧ ∀ name, (s, name) ∉ h.bound := by
  have hno : ∀ name, (s, name) ∉ h.bound := by
    intro name hb
    obtain ⟨e, hh⟩ := ht.entry _ hb
    rw [← Option.some.inj (hh.socket.symm.trans hs)] at hhost
    cases hhost
  refine ⟨?_, hno⟩
  cases haddr : sock.nameAbstract with
  | none => rfl
  | some addr =>
    obtain ⟨name, hb⟩ := ht.named s sock addr hs haddr
    exact absurd hb (hno name)

theorem table_refused (ht : Table h) (hid : h.names.nextId < 0xffffffff)
    (hs : h.names.sockets.lookup s = some sock) (hhost : sock.hostName = none)
    (name : AbstractName) : Table ⟨unixAbstractRelease { h.names.withEntry name with
        hostPaths := h.names.hostPaths.erase (h.names.nextId + 1)
        sockets := h.names.sockets.insert s { sock with nameAbstract := none } } h.names.nextAddr,
      h.bound⟩ := by
  have hlt := lt_nextId hid
  refine ht.congr _ (fun f => ?_) (fun t => ?_) (fun id hle => ?_) (Nat.le_succ _)
    (UInt32.le_of_lt hlt) rfl
  · rw [mem_release]
    · show f ∈ _ :: _ ∧ _ ↔ _
      rw [List.mem_cons]
      constructor
      · rintro ⟨rfl | hf, hne⟩
        · exact absurd rfl hne
        · exact hf
      · intro hf
        exact ⟨.inr hf, Nat.ne_of_lt (ht.addr_lt f hf)⟩
    intro e he heq
    rcases List.mem_cons.mp he with rfl | he
    · rfl
    · exact absurd heq (Nat.ne_of_lt (ht.addr_lt e he))
  · show (h.names.sockets.insert s _).lookup t = _
    by_cases hts : t = s
    · rw [hts, AList.lookup_insert, hs, ← (ht.unnamed hs hhost).1]
    · rw [AList.lookup_insert_ne hts]
  refine AList.lookup_erase_ne ?_
  rintro rfl
  exact absurd hlt (UInt32.not_lt.mpr hle)

theorem table_bound (ht : Table h) (hid : h.names.nextId < 0xffffffff)
    (hs : h.names.sockets.lookup s = some sock) (hhost : sock.hostName = none)
    (hfind : h.names.find name = none) : Table ⟨{ h.names.withEntry name with
        hostPaths := (h.names.hostPaths.erase (h.names.nextId + 1)).insert (h.names.nextId + 1) s
        sockets := h.names.sockets.insert s ⟨some h.names.nextAddr, some (h.names.nextId + 1)⟩ },
      (s, name) :: h.bound⟩ := by
  have hlt := lt_nextId hid
  obtain ⟨-, hno⟩ := ht.unnamed hs hhost
  set st : Names := { h.names.withEntry name with
    hostPaths := (h.names.hostPaths.erase (h.names.nextId + 1)).insert (h.names.nextId + 1) s
    sockets := h.names.sockets.insert s ⟨some h.names.nextAddr, some (h.names.nextId + 1)⟩ }
  have hnew : Holds st s name (h.names.newEntry name) :=
    ⟨List.mem_cons_self, AList.lookup_insert _, rfl, AList.lookup_insert _⟩
  have hkeep : ∀ b ∈ h.bound, ∀ e, Holds h.names b.1 b.2 e → Holds st b.1 b.2 e := by
    intro b hb e hh
    have hne : b.1 ≠ s := by
      rintro rfl
      exact hno b.2 hb
    have hid' : e.socketId ≠ h.names.nextId + 1 := by
      intro heq
      have hle := ht.id_le e hh.mem
      rw [heq] at hle
      exact absurd hlt (UInt32.not_lt.mpr hle)
    refine ⟨List.mem_cons_of_mem _ hh.mem, ?_, hh.hash, ?_⟩
    · exact (AList.lookup_insert_ne hne).trans hh.socket
    · exact (AList.lookup_insert_ne hid').trans ((AList.lookup_erase_ne hid').trans hh.path)
  -- the new entry differs from the old ones in address and hash
  have hfresh : ∀ e ∈ h.names.abstractHash, e.addr ≠ (h.names.newEntry name).addr ∧
      e.hash ≠ (h.names.newEntry name).hash :=
    fun e he => ⟨Nat.ne_of_lt (ht.addr_lt e he), find_eq_none hfind e he⟩
  refine ⟨fun b hb => ?_, fun e he => ?_, fun t sock' addr ht' haddr => ?_, fun e he f hf heq => ?_,
    fun e he f hf heq => ?_, fun e he => ?_, fun e he => ?_, fun t sock' ht' => ?_⟩
  · rcases List.mem_cons.mp hb with rfl | hb
    · exact ⟨_, hnew⟩
    · obtain ⟨e, hh⟩ := ht.entry b hb
      exact ⟨e, hkeep b hb e hh⟩
  · rcases List.mem_cons.mp he with rfl | he
    · exact ⟨_, List.mem_cons_self, hnew⟩
    · obtain ⟨b, hb, hh⟩ := ht.owner e he
      exact ⟨b, List.mem_cons_of_mem _ hb, hkeep b hb e hh⟩
  · by_cases hts : t = s
    · exact ⟨name, hts ▸ List.mem_cons_self⟩
    · obtain ⟨n, hb⟩ := ht.named t sock' addr ((AList.lookup_insert_ne hts).symm.trans ht') haddr
      exact ⟨n, List.mem_cons_of_mem _ hb⟩
  · rcases List.mem_cons.mp he with rfl | he <;> rcases List.mem_cons.mp hf with rfl | hf
    · rfl
    · exact absurd heq.symm (hfresh f hf).1
    · exact absurd heq (hfresh e he).1
    · exact ht.addr_inj e he f hf heq
  · rcases List.mem_cons.mp he with rfl | he <;> rcases List.mem_cons.mp hf with rfl | hf
    · rfl
    · exact absurd heq.symm (hfresh f hf).2
    · exact absurd heq (hfresh e he).2
    · exact ht.hash_inj e he f hf heq
  · rcases List.mem_cons.mp he with rfl | he
    · exact Nat.lt_succ_self _
    · exact Nat.lt_succ_of_lt (ht.addr_lt e he)
  · rcases List.mem_cons.mp he with rfl | he
    · exact UInt32.le_refl _
    · exact UInt32.le_trans (ht.id_le e he) (UInt32.le_of_lt hlt)
  by_cases hts : t = s
  · rw [hts]
    exact ht.socket_lt s sock hs
  · exact ht.socket_lt t sock' ((AList.lookup_insert_ne hts).symm.trans ht')

theorem table_bind {memory host : Bool} (ht : Table h) (hfit : Fits h (.bind s name memory host)) :
    Table (nameStep h (.bind s name memory host)) := by
  obtain ⟨-, hid, hfree⟩ := hfit
  show Table ⟨(sysBind h.names s name memory host).2,
    if (sysBind h.names s name memory host).1 = 0 then (s, name) :: h.bound else h.bound⟩
  rcases sysBind_cases h.names s name memory host with ⟨hne, hsame⟩ | ⟨sock, hs, hfind, hbind⟩
  · rw [if_neg hne, hsame]
    exact ht
  have hhost : sock.hostName = none := by
    rcases hfree with ⟨t, hb⟩ | hfree
    · obtain ⟨e, hh⟩ := ht.entry _ hb
      exact absurd hh.hash (find_eq_none hfind e hh.mem)
    · exact hfree sock hs
  rw [hbind]
  cases host with
  | false =>
    rw [hostBind_refused hhost, if_neg (show eACCES ≠ 0 by decide)]
    exact table_refused ht hid hs hhost name
  | true =>
    rw [hostBind_bound hhost, if_pos rfl]
    exact table_bound ht hid hs hhost hfind

/-! ## Every run -/

theorem table_step (h : History) (op : NameOp) (ht : Table h) (hfit : Fits h op) :
    Table (nameStep h op) := by
  cases op with
  | socket => exact table_socket ht
  | bind s name memory host => exact table_bind ht hfit
  | address s name => exact table_address ht s name
  | fileId => exact table_fileId ht hfit
  | close s => exact table_close ht hfit

theorem behaves_of_table {op : NameOp} (ht : Table h) (hfit : Fits h op) : Behaves h op := by
  cases op with
  | socket => trivial
  | bind s name memory host => exact bind_behaves ht hfit.1 memory host
  | address s name => exact address_behaves ht hfit
  | fileId => trivial
  | close s => exact close_behaves ht hfit

/-- **Abstract names.** In every state that a run of fitting calls reaches, every call that fits does
what an exact map from names to open sockets would have it do. -/
theorem abstractNames_run (ops : List NameOp) (hops : AllSteps nameStep Fits History.init ops)
    (op : NameOp) (hfit : Fits (run nameStep History.init ops) op) :
    Behaves (run nameStep History.init ops) op :=
  behaves_of_table (run_invariant table_step table_init hops) hfit

/-- Two sockets, the first bound to the name `a`. -/
def serverOps : List NameOp := [.socket, .socket, .bind 0 [97] true true]

theorem serverOps_fit : AllSteps nameStep Fits History.init serverOps := by
  refine ⟨trivial, trivial, ⟨(fun b hb => by cases hb), by decide, .inr fun sock hs => ?_⟩, trivial⟩
  rw [← Option.some.inj ((show _ = some (⟨none, none⟩ : Socket) by decide).symm.trans hs)]

theorem serverOps_bound : (run nameStep History.init serverOps).bound = [(0, [97])] := by decide

/-- The second socket reaches the first by its name. -/
theorem abstractNames_server :
    (sysAddress (run nameStep History.init serverOps).names 1 [97]).1 = some 0 := by
  have hclash : NoClash (run nameStep History.init serverOps) [97] := by
    intro b hb _
    rw [serverOps_bound] at hb
    rw [List.mem_singleton.mp hb]
  exact (abstractNames_run serverOps serverOps_fit (.address 1 [97]) hclash (by decide) (by decide)
    0).mpr (by decide)

/-- The name that goes on behind a NUL is taken for `a` by `connect` and `bind`; and a name that was
looked up stays in use when its socket is closed. -/
theorem abstractNames_confused :
    ¬ Behaves (run nameStep History.init serverOps) (.address 1 [97, 0, 98]) ∧
    ¬ Behaves (run nameStep History.init serverOps) (.bind 1 [97, 0, 98] true true) ∧
    ¬ Behaves (run nameStep History.init (serverOps ++ [.address 1 [97]])) (.close 0) := by
  refine ⟨fun hb => ?_, fun hb => ?_, fun hb => ?_⟩
  · have hbound := (hb (by decide) (by decide) 0).mp (by decide)
    exact absurd hbound (by decide)
  · obtain ⟨t, hbound⟩ := (hb (by decide) (by decide)).mp (by decide)
    rw [serverOps_bound] at hbound
    exact absurd (List.mem_singleton.mp hbound) (by simp)
  · exact hb [97] (by decide) 1 true true (by decide)

end IosLinuxkit.Sock
