import IosLinuxkit.Fs.FdTableCalls

/-!
# The host sockets of `socket`, `accept` and `socketpair`

`fs/sock.c`: a host socket belongs to the call until `sock_fd_create` has put it into an object, and to that object from
then on. `f_install` drops the object when there is no descriptor for it, and `sock_close` closes the host socket.

* **`closedOnce_iff`** — when a call leaves every host socket with one owner.
-/

namespace IosLinuxkit.SocketFd

open Fs

/-- A descriptor table, the host descriptors of the objects, and what the call has opened and closed. -/
structure State where
  view : FdView
  hosts : Nat → List Nat
  opened : List Nat
  closed : List Nat

/-- What the host and the memory allocator answer. -/
structure Env where
  /-- `ISH_NETLINK_STUB` -/
  stub : Bool
  host : Except Int Nat
  pair : Except Int (Nat × Nat)
  /-- the memory for an object -/
  object : Nat → Option Nat
  /-- the memory for a larger table -/
  memory : Nat → Bool
  /-- `RLIMIT_NOFILE` -/
  limit : Nat

/-! ## Objects -/

def State.close (st : State) (h : Nat) : State := { st with closed := st.closed ++ [h] }

/-- `socket`, `accept` or `socketpair` of the host succeeds. -/
def State.open (st : State) (hs : List Nat) : State := { st with opened := st.opened ++ hs }

/-- `adhoc_fd_create` -/
def State.create (st : State) (d : Nat) (hs : List Nat) : State :=
  { st with
    view := { st.view with refcount := fun i => if i = d then 1 else st.view.refcount i }
    hosts := fun i => if i = d then hs else st.hosts i }

/-- The end of `fd_close`, after which the table is that of `v`: `sock_close` for the last reference. -/
def State.dropped (st : State) (d : Nat) (v : FdView) : State :=
  { st with view := v, closed := if v.refcount d = 0 then st.closed ++ st.hosts d else st.closed }

def State.sysClose (st : State) (f : Int) : State :=
  match st.view.get f with
  | none => st
  | some d => st.dropped d (st.view.fdtableClose f).2

/-- `sock_fd_create`, for the `k`-th object of a call. An object that cannot be installed is closed, and `sock_close`
takes `peer_lock`: a caller that holds it never gets it. -/
def sockFdCreate (env : Env) (k : Nat) (hs : List Nat) (cloexec locked : Bool) (st : State) : Option (Int × State) :=
  match env.object k with
  | none => some (-12, st)
  | some d =>
    let st := st.create d hs
    let (f, v) := st.view.fInstall d env.limit cloexec (env.memory k)
    if 0 ≤ f then some (f, { st with view := v })
    else if locked then none
    else some (f, st.dropped d v)

/-! ## The calls -/

/-- `PF_LOCAL_`, `PF_INET_`, `PF_INET6_` -/
def sockFamilyToReal (domain : Nat) : Bool := domain = 1 ∨ domain = 2 ∨ domain = 10

/-- The protocols that go with `SOCK_STREAM_`, `SOCK_DGRAM_`, `SOCK_RAW_` and `SOCK_SEQPACKET_`. -/
def sockTypeToReal (type protocol : Nat) : Bool :=
  match type % 256 with
  | 1 => protocol = 0 ∨ protocol = 6
  | 2 => protocol = 0 ∨ protocol = 17 ∨ protocol = 1 ∨ protocol = 58
  | 3 => protocol = 255 ∨ protocol = 17 ∨ protocol = 1 ∨ protocol = 58
  | 5 => protocol = 0
  | _ => false

/-- `SOCK_CLOEXEC_` -/
def cloexecBit (type : Nat) : Bool := type.testBit 19

/-- `netlink_stub_socket`. The object has both ends, and `sock_close` closes the other end first. -/
def netlinkStubSocket (env : Env) (type protocol : Nat) (st : State) : Option (Int × State) :=
  if protocol ≠ 0 then some (-93, st)
  else if type % 16 ≠ 3 ∧ type % 16 ≠ 2 then some (-94, st)
  else if type - type % 16 ≠ 0 ∧ type - type % 16 ≠ 0x800 ∧ type - type % 16 ≠ 0x80000 ∧
      type - type % 16 ≠ 0x80800 then some (-22, st)
  else
    match env.pair with
    | .error e => some (e, st)
    | .ok (h, h') =>
      let st := st.open [h, h']
      if env.object 0 = none then some (-12, (st.close h).close h')
      else sockFdCreate env 0 [h', h] (cloexecBit type) false st

def sysSocket (env : Env) (domain type protocol : Nat) (st : State) : Option (Int × State) :=
  if domain = 16 ∧ env.stub then netlinkStubSocket env type protocol st
  else if !sockFamilyToReal domain then some (-97, st)
  else if !sockTypeToReal type protocol then some (-22, st)
  else
    match env.host with
    | .error e => some (e, st)
    | .ok h =>
      (sockFdCreate env 0 [h] (cloexecBit type) false (st.open [h])).map fun r =>
        (r.1, if r.1 < 0 then r.2.close h else r.2)

/-- What `sys_accept` finds: a socket, an address and its length that are asked for, the family of the peer, and memory
that can be read and written. -/
structure Accept where
  socket : Bool
  addr : Bool
  lenAddr : Bool
  lenRead : Bool
  known : Bool
  addrWrite : Bool
  lenWrite : Bool

def sockaddrWrite (a : Accept) : Int := if !a.known then -22 else if !a.addrWrite then -14 else 0

/-- `sys_accept` once the host has given a client. -/
def accepted (env : Env) (a : Accept) (client : Nat) (st : State) : Option (Int × State) :=
  if a.addr ∧ sockaddrWrite a < 0 then some (sockaddrWrite a, st.close client)
  else if a.addr ∧ !a.lenWrite then some (-14, st.close client)
  else
    (sockFdCreate env 0 [client] false false st).map fun r =>
      (r.1, if r.1 < 0 then r.2.close client else r.2)

/-- `sys_accept`. The host's answer is the one that ends the loop. -/
def sysAccept (env : Env) (a : Accept) (st : State) : Option (Int × State) :=
  if !a.socket then some (-9, st)
  else if a.addr ∧ (!a.lenAddr ∨ !a.lenRead) then some (-14, st)
  else
    match env.host with
    | .error e => some (e, st)
    | .ok client => accepted env a client (st.open [client])

def sysAccept4 (env : Env) (a : Accept) (flags : Nat) (st : State) : Option (Int × State) :=
  if flags ≠ 0 ∧ flags ≠ 0x800 ∧ flags ≠ 0x80000 ∧ flags ≠ 0x80800 then some (-22, st)
  else
    (sysAccept env a st).map fun r =>
      (r.1, if 0 ≤ r.1 ∧ cloexecBit flags then { r.2 with view := r.2.view.setBit r.1 true } else r.2)

/-- `sys_socketpair` once the first object is there. -/
def secondHalf (env : Env) (h h' : Nat) (cloexec put : Bool) (f : Int) (st : State) : Option (Int × State) := do
  let (f', st) ← sockFdCreate env 1 [h'] cloexec true st
  if f' < 0 then return (f', ((st.sysClose f).close h).close h')
  if !put then return (-14, (((st.sysClose f').sysClose f).close h).close h')
  return (0, st)

/-- `sys_socketpair`, with its cleanup. `peer_lock` is held while the objects are made. -/
def sysSocketpair (env : Env) (domain type protocol : Nat) (put : Bool) (st : State) : Option (Int × State) :=
  if !sockFamilyToReal domain then some (-97, st)
  else if !sockTypeToReal type protocol then some (-22, st)
  else
    match env.pair with
    | .error e => some (e, st)
    | .ok (h, h') => do
      let (f, st) ← sockFdCreate env 0 [h] (cloexecBit type) true (st.open [h, h'])
      if f < 0 then return (f, (st.close h).close h')
      secondHalf env h h' (cloexecBit type) put f st

inductive Call where
  | socket (domain type protocol : Nat)
  | accept (a : Accept)
  | accept4 (a : Accept) (flags : Nat)
  | socketpair (domain type protocol : Nat) (put : Bool)

def run (env : Env) (st : State) : Call → Option (Int × State)
  | .socket domain type protocol => sysSocket env domain type protocol st
  | .accept a => sysAccept env a st
  | .accept4 a flags => sysAccept4 env a flags st
  | .socketpair domain type protocol put => sysSocketpair env domain type protocol put st

def start (view : FdView) (hosts : Nat → List Nat) : State := ⟨view, hosts, [], []⟩

/-! ## What ought to hold -/

/-- The call returns. After an error, what it opened has been closed, each once, and the table is as it was; after a
success nothing has been closed. -/
def ClosedOnce (v : FdView) (r : Option (Int × State)) : Prop :=
  ∃ f st, r = some (f, st) ∧
    (f < 0 → st.closed.Perm st.opened ∧ ∀ i, st.view.table.slot i = v.table.slot i) ∧ (0 ≤ f → st.closed = [])

/-! ## When it does -/

def Room (t : FdTable) (limit : Nat) (memory : Bool) : Prop :=
  let size := min (toUInt32 limit) t.files.length
  let f := toInt32 (FdView.firstFree t.files 0 size)
  0 ≤ f ∧ (toUInt32 f < size ∨ (f < limit ∧ (f < t.files.length ∨ memory)))

/-- If there is memory for the object, there is a descriptor. -/
def Placeable (env : Env) (t : FdTable) : Prop := env.object 0 ≠ none → Room t env.limit (env.memory 0)

def Owned (env : Env) (st : State) : Call → Prop
  | .socket domain type protocol =>
    ¬ (domain = 16 ∧ env.stub) → sockFamilyToReal domain → sockTypeToReal type protocol →
      ∀ h, env.host = .ok h → Placeable env st.view.table
  | .accept a => Taken a
  | .accept4 a flags => (flags = 0 ∨ flags = 0x800 ∨ flags = 0x80000 ∨ flags = 0x80800) → Taken a
  | .socketpair domain type protocol put =>
    sockFamilyToReal domain → sockTypeToReal type protocol → ∀ h h', env.pair = .ok (h, h') →
      Placeable env st.view.table ∧
        ∀ f st', sockFdCreate env 0 [h] (cloexecBit type) true (st.open [h, h']) = some (f, st') → 0 ≤ f →
          env.object 1 ≠ none ∧ Room st'.view.table env.limit (env.memory 1) ∧ put
where
  Taken (a : Accept) : Prop :=
    a.socket → (a.addr → a.lenAddr ∧ a.lenRead ∧ a.known ∧ a.addrWrite ∧ a.lenWrite) →
      ∀ h, env.host = .ok h → Placeable env st.view.table

/-! ## Descriptors -/

section Install

variable (v : FdView) (d limit : Nat) (cloexec memory : Bool)

theorem expand_refcount (f : Int) : (v.fdtableExpand f limit memory).2.refcount = v.refcount := by
  unfold FdView.fdtableExpand
  dsimp only
  split_ifs <;> rfl

theorem toUInt32_toInt32 {x : Int} (h : 0 ≤ toInt32 x) : (toUInt32 (toInt32 x) : Int) = toInt32 x := by
  unfold toInt32 toUInt32 at *
  omega

theorem toInt32_lt (x : Int) : toInt32 x < 2147483648 := by
  unfold toInt32
  omega

theorem expand_iff {f : Int} (h0 : 0 ≤ f) (h1 : f < 2147483648) :
    0 ≤ (v.fdtableExpand f limit memory).1 ↔ f < limit ∧ (f < v.table.files.length ∨ memory) := by
  unfold FdView.fdtableExpand
  dsimp only
  rw [FdView.toUInt32_of_int h0 h1]
  split_ifs with hlim hlen hmem
  · exact iff_of_false (show ¬ (0 : Int) ≤ eMFILE by decide) (by omega)
  · exact iff_of_true (Int.le_refl 0) ⟨by omega, .inl (by omega)⟩
  · refine iff_of_false (show ¬ (0 : Int) ≤ -12 by decide) fun h => ?_
    have hno : memory = false := by simpa using hmem
    rcases h.2 with hlt | hmem'
    · omega
    · exact absurd hmem' (by simp [hno])
  · exact iff_of_true (Int.le_refl 0) ⟨by omega, .inr (by simpa using hmem)⟩

/-- `f_install`: there is room and the object is in the table, or it is dropped and the slots are as they were. -/
inductive Installed (room : Prop) : Int × FdView → Prop
  | placed (f : Int) (v' : FdView) : room → 0 ≤ f → v'.get f = some d → v'.refcount = v.refcount → Installed room (f, v')
  | dropped (f : Int) (v' : FdView) : ¬ room → f < 0 → v'.refcount = bump d (-1) v.refcount →
      (∀ i, v'.table.slot i = v.table.slot i) → Installed room (f, v')

theorem get_stored {v : FdView} {f : Int} (h0 : 0 ≤ f) (h1 : f < v.table.files.length) :
    ((v.store f (some d)).setBit f false).get f = some d := by
  have hslot := FdView.slot_store (x := some d) h0 h1 f.toNat
  rw [if_pos rfl] at hslot
  rw [FdView.store_of_lt h0 h1] at hslot ⊢
  show (if f < 0 ∨ ((v.table.files.set f.toNat (some d)).length : Int) ≤ f then none else _) = some d
  rw [List.length_set, if_neg (by omega)]
  exact hslot

theorem installAt_installed {size : Nat} {f : Int} (hsize : size ≤ v.table.files.length) (hlt : f < 2147483648)
    (hwide : 0 ≤ f → (toUInt32 f : Int) = f) :
    Installed v d (0 ≤ f ∧ (toUInt32 f < size ∨ (f < limit ∧ (f < v.table.files.length ∨ memory))))
      (v.installAt d size f limit memory) := by
  unfold FdView.installAt
  by_cases h0 : 0 ≤ f
  case neg =>
    -- the search has counted past the `int`s
    have hdrop : ∀ w : FdView, w.refcount = v.refcount → (∀ i, w.table.slot i = v.table.slot i) → ∀ g : Int, g < 0 →
        Installed v d (0 ≤ f ∧ (toUInt32 f < size ∨ (f < limit ∧ (f < v.table.files.length ∨ memory))))
          (if 0 ≤ g then (g, (w.store g (some d)).setBit g false) else (g, w.fdClose d)) := by
      intro w hcount hslot g hg
      rw [if_neg (by omega)]
      exact .dropped g _ (fun h => h0 h.1) hg (by rw [← hcount]; rfl) hslot
    by_cases hout : size ≤ toUInt32 f
    · rw [if_pos hout]
      refine hdrop _ (expand_refcount v limit memory f) (FdView.slot_expand v f limit memory) _ ?_
      split <;> omega
    · rw [if_neg hout]
      exact hdrop v rfl (fun _ => rfl) f (by omega)
  case pos =>
    have hw := hwide h0
    by_cases hout : size ≤ toUInt32 f
    case neg =>
      rw [if_neg hout]
      dsimp only
      rw [if_pos h0]
      have hf : f < v.table.files.length := by omega
      refine .placed f _ ⟨h0, .inl (by omega)⟩ h0 (get_stored d h0 hf) ?_
      rw [FdView.store_of_lt h0 hf]
      rfl
    case pos =>
      rw [if_pos hout]
      have hiff := expand_iff v limit memory h0 hlt
      have hlen := (FdView.length_expand (v := v) h0 hlt limit memory).2.2
      have hcount := expand_refcount v limit memory f
      have hslot := FdView.slot_expand v f limit memory
      dsimp only
      generalize v.fdtableExpand f limit memory = r at hiff hlen hcount hslot ⊢
      by_cases hr : 0 ≤ r.1
      · have hf : f < r.2.table.files.length := hlen hr
        have hneg : ¬ r.1 < 0 := by omega
        rw [if_neg hneg, if_pos h0]
        refine .placed f _ ⟨h0, .inr (hiff.mp hr)⟩ h0 (get_stored d h0 hf) ?_
        rw [FdView.store_of_lt h0 hf]
        exact hcount
      have hneg : r.1 < 0 := by omega
      rw [if_pos hneg, if_neg hr]
      refine .dropped r.1 _ (fun h => ?_) hneg (by rw [← hcount]; rfl) hslot
      exact hr (hiff.mpr (h.2.resolve_left (Nat.not_lt.mpr hout)))

theorem fInstall_installed :
    Installed v d (Room v.table limit memory) (v.fInstall d limit cloexec memory) := by
  have hsize : v.searchSize limit ≤ v.table.files.length := Nat.min_le_right _ _
  have h := installAt_installed v d limit memory hsize
    (toInt32_lt (FdView.firstFree v.table.files 0 (v.searchSize limit))) toUInt32_toInt32
  change Installed v d (Room v.table limit memory) _ at h
  unfold FdView.fInstall FdView.fInstallStart
  dsimp only
  generalize v.installAt d (v.searchSize limit) _ limit memory = r at h ⊢
  cases h with
  | placed f v' hroom h0 hget hcount =>
    refine .placed f _ hroom h0 ?_ ?_
    · split <;> exact hget
    · split <;> exact hcount
  | dropped f v' hroom h0 hcount hslot =>
    rw [if_neg fun h => absurd h.1 (by omega)]
    exact .dropped f v' hroom h0 hcount hslot

end Install

/-! ## Objects of the calls -/

section Create

variable {env : Env} {k : Nat} {hs : List Nat} {cloexec locked : Bool} {st : State}

inductive Created (env : Env) (k : Nat) (hs : List Nat) (locked : Bool) (st : State) : Option (Int × State) → Prop
  | noMemory : env.object k = none → Created env k hs locked st (some (-12, st))
  | placed (f : Int) (d : Nat) (v : FdView) : env.object k ≠ none → Room st.view.table env.limit (env.memory k) → 0 ≤ f →
      v.get f = some d → v.refcount d = 1 → Created env k hs locked st (some (f, { st.create d hs with view := v }))
  | dropped (f : Int) (d : Nat) (v : FdView) : env.object k ≠ none → ¬ Room st.view.table env.limit (env.memory k) →
      f < 0 → locked = false → v.refcount d = 0 → (∀ i, v.table.slot i = st.view.table.slot i) →
      Created env k hs locked st (some (f, (st.create d hs).dropped d v))
  | stuck : env.object k ≠ none → ¬ Room st.view.table env.limit (env.memory k) → locked = true →
      Created env k hs locked st none

variable (env k hs cloexec locked st) in
theorem sockFdCreate_created : Created env k hs locked st (sockFdCreate env k hs cloexec locked st) := by
  unfold sockFdCreate
  cases hobj : env.object k with
  | none => exact .noMemory hobj
  | some d =>
    have hsome : env.object k ≠ none := by rw [hobj]; exact Option.some_ne_none d
    have hone : (st.create d hs).view.refcount d = 1 := if_pos rfl
    have hin := fInstall_installed (st.create d hs).view d env.limit cloexec (env.memory k)
    dsimp only
    generalize (st.create d hs).view.fInstall d env.limit cloexec (env.memory k) = r at hin ⊢
    cases hin with
    | placed f v hroom h0 hget hcount =>
      rw [if_pos h0]
      exact .placed f d v hsome hroom h0 hget (by rw [hcount, hone])
    | dropped f v hroom h0 hcount hslot =>
      rw [if_neg (by omega)]
      have hzero : v.refcount d = 0 := by
        rw [hcount, bump, if_pos rfl, hone]
        rfl
      cases hl : locked with
      | true => exact .stuck hsome hroom rfl
      | false => exact .dropped f d v hsome hroom h0 rfl hzero hslot

theorem closed_sysClose (f : Int) : ∃ l, (st.sysClose f).closed = st.closed ++ l := by
  unfold State.sysClose State.dropped
  split
  · exact ⟨[], (List.append_nil _).symm⟩
  dsimp only
  split
  · exact ⟨_, rfl⟩
  · exact ⟨[], (List.append_nil _).symm⟩

theorem opened_sysClose (f : Int) : (st.sysClose f).opened = st.opened := by
  unfold State.sysClose
  split <;> rfl

theorem closed_sysClose_last {f : Int} {d : Nat} (hget : st.view.get f = some d) (hone : st.view.refcount d = 1) :
    (st.sysClose f).closed = st.closed ++ st.hosts d := by
  have hzero : (st.view.fdtableClose f).2.refcount d = 0 := by
    rw [FdView.fdtableClose_of_get hget]
    show bump d (-1) st.view.refcount d = 0
    rw [bump, if_pos rfl, hone]
    rfl
  unfold State.sysClose
  rw [hget]
  show (if (st.view.fdtableClose f).2.refcount d = 0 then _ else _) = _
  rw [if_pos hzero]

end Create

/-! ## The calls -/

section Calls

variable {env : Env} {view : FdView} {hosts : Nat → List Nat}

theorem closedOnce_error {st : State} {f : Int} (hc : st.closed.Perm st.opened)
    (hs : ∀ i, st.view.table.slot i = view.table.slot i) (hf : f < 0) : ClosedOnce view (some (f, st)) :=
  ⟨f, st, rfl, fun _ => ⟨hc, hs⟩, fun h => absurd h (by omega)⟩

theorem closedOnce_start (f : Int) : ClosedOnce view (some (f, start view hosts)) :=
  ⟨f, _, rfl, fun _ => ⟨.refl _, fun _ => rfl⟩, fun _ => rfl⟩

theorem not_closedOnce (st : State) {f : Int} (hf : f < 0) (hlt : st.opened.length < st.closed.length) :
    ¬ ClosedOnce view (some (f, st)) := by
  rintro ⟨f', st', heq, herr, -⟩
  cases heq
  have hlen := (herr hf).1.length_eq
  omega

theorem socket_once (h : Nat) (cloexec : Bool) :
    ClosedOnce view ((sockFdCreate env 0 [h] cloexec false ((start view hosts).open [h])).map fun r =>
      (r.1, if r.1 < 0 then r.2.close h else r.2)) ↔ Placeable env view.table := by
  have hc := sockFdCreate_created env 0 [h] cloexec false ((start view hosts).open [h])
  generalize sockFdCreate env 0 [h] cloexec false ((start view hosts).open [h]) = r at hc ⊢
  cases hc with
  | noMemory hobj =>
    refine iff_of_true (closedOnce_error (.refl _) (fun _ => rfl) (show (-12 : Int) < 0 by decide)) fun hno => absurd hobj hno
  | placed f d v hobj hroom h0 hget hone =>
    refine iff_of_true ⟨f, _, rfl, fun h => absurd h0 (by omega), fun _ => ?_⟩ fun _ => hroom
    show (if f < 0 then _ else _ : State).closed = []
    rw [if_neg (by omega)]
    rfl
  | dropped f d v hobj hroom h0 hl hzero hslot =>
    refine iff_of_false (not_closedOnce _ h0 ?_) fun hp => hroom (hp hobj)
    show _ < (if f < 0 then _ else _ : State).closed.length
    rw [if_pos h0, State.close, State.dropped]
    dsimp only
    rw [if_pos hzero]
    simp [State.create, State.open, start]
  | stuck hobj hroom hl => cases hl

theorem netlink_once (type protocol : Nat) :
    ClosedOnce view (netlinkStubSocket env type protocol (start view hosts)) := by
  unfold netlinkStubSocket
  split
  · exact closedOnce_start _
  split
  · exact closedOnce_start _
  split
  · exact closedOnce_start _
  split
  case h_1 => exact closedOnce_start _
  case h_2 h h' hpair =>
    dsimp only
    split
    · exact closedOnce_error (.refl _) (fun _ => rfl) (show (-12 : Int) < 0 by decide)
    have hc := sockFdCreate_created env 0 [h', h] (cloexecBit type) false ((start view hosts).open [h, h'])
    generalize sockFdCreate env 0 [h', h] (cloexecBit type) false ((start view hosts).open [h, h']) = r at hc ⊢
    cases hc with
    | noMemory hobj => contradiction
    | placed f d v hobj hroom h0 hget hone => exact ⟨f, _, rfl, fun h => absurd h0 (by omega), fun _ => rfl⟩
    | dropped f d v hobj hroom h0 hl hzero hslot =>
      refine closedOnce_error ?_ hslot h0
      rw [State.dropped, if_pos hzero]
      simpa [State.create, State.open, start] using List.Perm.swap h h' []
    | stuck hobj hroom hl => cases hl

theorem sysSocket_once (domain type protocol : Nat) :
    ClosedOnce view (sysSocket env domain type protocol (start view hosts)) ↔
      Owned env (start view hosts) (.socket domain type protocol) := by
  unfold sysSocket
  split
  case isTrue hstub => exact iff_of_true (netlink_once type protocol) fun hno => absurd hstub hno
  case isFalse hstub =>
  split
  case isTrue hd => exact iff_of_true (closedOnce_start _) fun _ hd' => by simp [hd'] at hd
  case isFalse hd =>
  split
  case isTrue ht => exact iff_of_true (closedOnce_start _) fun _ _ ht' => by simp [ht'] at ht
  case isFalse ht =>
  split
  case h_1 e he => exact iff_of_true (closedOnce_start _) fun _ _ _ h hh => by rw [he] at hh; cases hh
  case h_2 h hh =>
    rw [socket_once h (cloexecBit type)]
    exact ⟨fun hp _ _ _ _ _ => hp, fun ho => ho hstub (by simpa using hd) (by simpa using ht) h hh⟩

theorem sysAccept_once (a : Accept) :
    ClosedOnce view (sysAccept env a (start view hosts)) ↔ Owned env (start view hosts) (.accept a) := by
  unfold sysAccept
  split
  case isTrue hs => exact iff_of_true (closedOnce_start _) fun hs' => by simp [hs'] at hs
  case isFalse hs =>
  split
  case isTrue hl =>
    refine iff_of_true (closedOnce_start _) fun _ ha => ?_
    obtain ⟨h1, h2, -⟩ := ha hl.1
    simp [h1, h2] at hl
  case isFalse hl =>
  split
  case h_1 e he => exact iff_of_true (closedOnce_start _) fun _ _ h hh => by rw [he] at hh; cases hh
  case h_2 client hh =>
    unfold accepted
    split
    case isTrue hw =>
      refine iff_of_true (closedOnce_error (.refl _) (fun _ => rfl) hw.2) fun _ ha => ?_
      obtain ⟨-, -, h1, h2, -⟩ := ha hw.1
      simp [sockaddrWrite, h1, h2] at hw
    case isFalse hw =>
    split
    case isTrue hp =>
      refine iff_of_true (closedOnce_error (.refl _) (fun _ => rfl) (show (-14 : Int) < 0 by decide)) fun _ ha => ?_
      obtain ⟨-, -, -, -, h1⟩ := ha hp.1
      simp [h1] at hp
    case isFalse hp =>
      rw [socket_once client false]
      refine ⟨fun hpl _ _ _ _ => hpl, fun ho => ho (by simpa using hs) (fun ha => ?_) client hh⟩
      have hl' : a.lenAddr ∧ a.lenRead := by simpa [ha] using hl
      have hp' : a.lenWrite := by simpa [ha] using hp
      have hk : a.known ∧ a.addrWrite := by
        by_contra hno
        refine hw ⟨ha, ?_⟩
        unfold sockaddrWrite
        cases hkn : a.known <;> cases hwr : a.addrWrite <;> simp [hkn, hwr] at hno ⊢
      exact ⟨hl'.1, hl'.2, hk.1, hk.2, hp'⟩

theorem sysAccept4_once (a : Accept) (flags : Nat) :
    ClosedOnce view (sysAccept4 env a flags (start view hosts)) ↔ Owned env (start view hosts) (.accept4 a flags) := by
  have hiff := @sysAccept_once env view hosts a
  unfold sysAccept4
  split
  case isTrue hf => exact iff_of_true (closedOnce_start _) fun hno => by omega
  case isFalse hf =>
    have hmap : ClosedOnce view ((sysAccept env a (start view hosts)).map fun r =>
        (r.1, if 0 ≤ r.1 ∧ cloexecBit flags then { r.2 with view := r.2.view.setBit r.1 true } else r.2)) ↔
        ClosedOnce view (sysAccept env a (start view hosts)) := by
      generalize sysAccept env a (start view hosts) = r
      cases r with
      | none => exact iff_of_false (fun ⟨_, _, h, _⟩ => by cases h) fun ⟨_, _, h, _⟩ => by cases h
      | some r =>
        obtain ⟨f, st⟩ := r
        by_cases hc : 0 ≤ f ∧ cloexecBit flags
        · simp only [Option.map_some, if_pos hc]
          constructor <;>
          · rintro ⟨_, _, heq, -, hok⟩
            cases heq
            exact ⟨f, _, rfl, fun h => absurd hc.1 (by omega), hok⟩
        · simp only [Option.map_some, if_neg hc]
    rw [hmap, hiff]
    exact ⟨fun h _ => h, fun h => h (by omega)⟩

theorem secondHalf_once {st : State} {f : Int} {d h h' : Nat} {cloexec put : Bool} (ho : st.opened = [h, h'])
    (hc : st.closed = []) (hget : st.view.get f = some d) (hone : st.view.refcount d = 1) (hd : st.hosts d = [h]) :
    ClosedOnce view (secondHalf env h h' cloexec put f st) ↔
      env.object 1 ≠ none ∧ Room st.view.table env.limit (env.memory 1) ∧ put := by
  have hcr := sockFdCreate_created env 1 [h'] cloexec true st
  unfold secondHalf
  generalize sockFdCreate env 1 [h'] cloexec true st = r at hcr ⊢
  cases hcr with
  | noMemory hobj =>
    refine iff_of_false (not_closedOnce (((st.sysClose f).close h).close h') (f := -12) (by decide) ?_)
      fun hok => hok.1 hobj
    simp [State.close, closed_sysClose_last hget hone, opened_sysClose, hc, hd, ho]
  | placed f' d' v hobj hroom h0 hget' hone' =>
    simp only [Option.bind_eq_bind, Option.bind_some]
    rw [if_neg (by omega)]
    cases put with
    | true => exact iff_of_true ⟨0, _, rfl, fun h => absurd h (by decide), fun _ => hc⟩ ⟨hobj, hroom, rfl⟩
    | false =>
      refine iff_of_false ?_ fun hok => by cases hok.2.2
      set st' : State := { st.create d' [h'] with view := v } with hst'
      refine not_closedOnce ((((st'.sysClose f').sysClose f).close h).close h') (f := -14) (by decide) ?_
      have hlast := @closed_sysClose_last st' _ _ hget' hone'
      obtain ⟨l, hl⟩ := @closed_sysClose (st'.sysClose f') f
      have hhost : st'.hosts d' = [h'] := if_pos rfl
      simp only [State.close, opened_sysClose, hl, hlast, hhost]
      simp [hst', State.create, ho, hc]
  | dropped f' d' v hobj hroom h0 hl hzero hslot => cases hl
  | stuck hobj hroom hl => exact iff_of_false (fun ⟨_, _, heq, _⟩ => by cases heq) fun hok => hroom hok.2.1

theorem sysSocketpair_once (domain type protocol : Nat) (put : Bool) :
    ClosedOnce view (sysSocketpair env domain type protocol put (start view hosts)) ↔
      Owned env (start view hosts) (.socketpair domain type protocol put) := by
  unfold sysSocketpair
  split
  case isTrue hd => exact iff_of_true (closedOnce_start _) fun hd' => by simp [hd'] at hd
  case isFalse hd =>
  split
  case isTrue ht => exact iff_of_true (closedOnce_start _) fun _ ht' => by simp [ht'] at ht
  case isFalse ht =>
  split
  case h_1 e he => exact iff_of_true (closedOnce_start _) fun _ _ h h' hh => by rw [he] at hh; cases hh
  case h_2 h h' hh =>
    -- what is asked of the host's two sockets
    suffices ClosedOnce view _ ↔ Placeable env view.table ∧
        ∀ f st', sockFdCreate env 0 [h] (cloexecBit type) true ((start view hosts).open [h, h']) = some (f, st') → 0 ≤ f →
          env.object 1 ≠ none ∧ Room st'.view.table env.limit (env.memory 1) ∧ put by
      rw [this]
      refine ⟨fun ho _ _ g g' hg => ?_, fun ho => ho (by simpa using hd) (by simpa using ht) h h' hh⟩
      rw [hh] at hg
      cases hg
      exact ho
    have hc := sockFdCreate_created env 0 [h] (cloexecBit type) true ((start view hosts).open [h, h'])
    generalize sockFdCreate env 0 [h] (cloexecBit type) true ((start view hosts).open [h, h']) = r at hc ⊢
    cases hc with
    | noMemory hobj =>
      refine iff_of_true (closedOnce_error (.refl _) (fun _ => rfl) (show (-12 : Int) < 0 by decide)) ?_
      refine ⟨fun hno => absurd hobj hno, fun f st' heq h0 => ?_⟩
      cases heq
      exact absurd h0 (by decide)
    | dropped f d v hobj hroom h0 hl hzero hslot => cases hl
    | stuck hobj hroom hl => exact iff_of_false (fun ⟨_, _, heq, _⟩ => by cases heq) fun ho => hroom (ho.1 hobj)
    | placed f d v hobj hroom h0 hget hone =>
      have hsecond := @secondHalf_once env view { ((start view hosts).open [h, h']).create d [h] with view := v } _ _ _ _
        (cloexecBit type) put rfl rfl hget hone (if_pos rfl)
      simp only [Option.bind_eq_bind, Option.bind_some]
      rw [if_neg (by omega)]
      refine Iff.trans hsecond ⟨fun hok => ⟨fun _ => hroom, fun g st' heq _ => ?_⟩, fun hok => hok.2 _ _ rfl h0⟩
      cases heq
      exact hok

/-- **Every call** closes what it has opened exactly once on failure, and nothing on success, if and only if nothing
fails once an object has the host socket. -/
theorem closedOnce_iff (call : Call) :
    ClosedOnce view (run env (start view hosts) call) ↔ Owned env (start view hosts) call := by
  cases call with
  | socket domain type protocol => exact sysSocket_once domain type protocol
  | accept a => exact sysAccept_once a
  | accept4 a flags => exact sysAccept4_once a flags
  | socketpair domain type protocol put => exact sysSocketpair_once domain type protocol put

end Calls

def full : Env := ⟨false, .ok 7, .ok (7, 8), fun k => some (10 + k), fun _ => true, 3⟩

def threeOpen : State := start ⟨⟨[some 0, some 1, some 2], fun _ => false, 1⟩, fun _ => 1, false⟩ fun _ => []

/-- A TCP socket that gets no descriptor is closed twice. -/
theorem socket_closed_twice : ¬ ∀ env view hosts call, ClosedOnce view (run env (start view hosts) call) := by
  intro h
  obtain ⟨f, st, heq, herr, -⟩ := h full threeOpen.view threeOpen.hosts (.socket 2 1 6)
  have hres : (run full threeOpen (.socket 2 1 6)).map (fun r => (r.1, r.2.opened, r.2.closed)) =
      some (-24, [7], [7, 7]) := by decide
  rw [show run full threeOpen (.socket 2 1 6) = some (f, st) from heq, Option.map_some] at hres
  simp only [Option.some.injEq, Prod.mk.injEq] at hres
  obtain ⟨hf, hopen, hclosed⟩ := hres
  have hperm := (herr (by omega)).1.length_eq
  rw [hopen, hclosed] at hperm
  cases hperm

end IosLinuxkit.SocketFd
