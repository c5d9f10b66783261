import IosLinuxkit.Fs.PollRun
import IosLinuxkit.Fs.PollWait
import Mathlib.Data.List.Nodup
import Mathlib.Data.List.Perm.Subperm

/-!
# `poll`

`kernel/poll.c`: `sys_poll` maps the entries of its array onto one internal poll, with one registration for each
open file, and writes `revents` in the callback of `poll_wait`.

* **`sysPoll_iff`** — when `sys_poll` reports exactly.

What the accesses to guest memory and the host come to is a parameter, as is the readiness of the files in each
round. A file is known by the address of its `struct fd`.
-/

namespace IosLinuxkit.Kernel.Poll

open IosLinuxkit.Fs.Poll

def eFAULT : Int := -14

def pollRead : Types := 1#32
def pollPri : Types := 2#32
def pollWrite : Types := 4#32
def pollNval : Types := 32#32

def pollAlwaysListening : Types := pollErr ||| pollHup ||| pollNval

structure Pollfd where
  fd : Int
  events : BitVec 16
  revents : BitVec 16
  deriving DecidableEq, Repr

/-- `polls[i]` and `files[i]`. -/
structure Entry where
  poll : Pollfd
  file : Option (BitVec 64)
  deriving DecidableEq

namespace Entry

def events (e : Entry) : Types := e.poll.events.setWidth 32

def setRevents (e : Entry) (revents : BitVec 16) : Entry := { e with poll := { e.poll with revents := revents } }

def wants (e : Entry) : Types := e.events ||| pollAlwaysListening

end Entry

def fGet (table : List (Option (BitVec 64))) (f : Int) : Option (BitVec 64) :=
  if f < 0 then none else table[f.toNat]?.join

/-! ## Registration -/

/-- The inner loop over the entries: those of the same file are marked, and their events merged. -/
def merge (file : BitVec 64) : Types → List Entry → Types × List Entry
  | events, [] => (events, [])
  | events, e :: entries =>
    if e.poll.revents = 0 ∧ e.file = some file then
      let (events, entries) := merge file (events ||| e.events) entries
      (events, e.setRevents 1 :: entries)
    else
      let (events, entries) := merge file events entries
      (events, e :: entries)

/-- The body of the outer loop. Whether `poll_add_fd` succeeds is not looked at. -/
def register (adds : BitVec 64 → Bool) (st : List Entry × List PollFd) (i : Nat) : List Entry × List PollFd :=
  match st.1[i]? with
  | none => st
  | some e =>
    if e.poll.fd < 0 ∨ e.poll.revents ≠ 0 then st
    else
      let entries := st.1.set i (e.setRevents 1)
      match e.file with
      | none => (entries, st.2)
      | some file =>
        let (events, entries) := merge file e.events entries
        (entries, pollAddFd st.2 file.toNat file.toNat e.poll.fd (events ||| pollAlwaysListening) file (adds file))

def registerAll (adds : BitVec 64 → Bool) (entries : List Entry) : List Entry × List PollFd :=
  (List.range entries.length).foldl (register adds) (entries, [])

/-! ## The call -/

def pollEventCallback (entries : List Entry) (types : Types) (info : BitVec 64) : Int × List Entry :=
  (if entries.any fun e => e.file = some info then 1 else 0,
    entries.map fun e => if e.file = some info then e.setRevents ((types &&& e.wants).setWidth 16) else e)

/-- The files of the entries, with `revents` cleared. -/
def lookUp (table : List (Option (BitVec 64))) (polls : List Pollfd) : List Entry :=
  polls.map fun p => ⟨{ p with revents := 0 }, fGet table p.fd⟩

/-- `revents` before the wait. -/
def markInvalid (entries : List Entry) : List Entry :=
  entries.map fun e => e.setRevents (if 0 ≤ e.poll.fd ∧ e.file = none then pollNval.setWidth 16 else 0)

/-- What comes from outside: whether guest memory can be read and written, what `poll_create` and the `pipe` of
`poll_wait` fail with, and for which `info` `poll_add_fd` succeeds. -/
structure Env where
  readable : Bool
  created : Option Int
  pipe : Option Int
  adds : BitVec 64 → Bool
  written : Bool

/-- How a call ends: in the round after the first `n`, with its result and its output. -/
inductive Outcome (α : Type)
  | waiting
  | fails (err : Int)
  | returns (n : Nat) (res : Int) (out : α)

/-- How a call ends after its wait: it writes its output to guest memory. -/
def conclude {κ α : Type} (written : Bool) (output : κ → α) : Waited κ → Outcome α
  | .waiting => .waiting
  | .fails err => .fails err
  | .left n res context => if ¬written then .fails eFAULT else .returns n res (output context)

def sysPoll (table : List (Option (BitVec 64))) (polls : List Pollfd) (env : Env) (rounds : List Round) :
    Outcome (List Pollfd) :=
  if ¬env.readable then .fails eFAULT
  else
    match env.created with
    | some err => .fails err
    | none =>
      let (entries, fds) := registerAll env.adds (lookUp table polls)
      conclude env.written (fun entries => entries.map Entry.poll)
        (pollWait pollEventCallback env.pipe (markInvalid entries) fds rounds)

/-! ## What a call ought to do -/

def Env.Refuses (env : Env) : Prop :=
  env.readable = false ∨ env.created ≠ none ∨ env.pipe ≠ none ∨ env.written = false

def Invalid (table : List (Option (BitVec 64))) (p : Pollfd) : Prop := 0 ≤ p.fd ∧ fGet table p.fd = none

/-- What `revents` may be of an entry. -/
structure Reported (table : List (Option (BitVec 64))) (p q : Pollfd) : Prop where
  fd : q.fd = p.fd
  events : q.events = p.events
  within : Within (q.revents.setWidth 32) (p.events.setWidth 32 ||| (pollErr ||| pollHup ||| pollNval))
  invalid : Invalid table p → q.revents.setWidth 32 = pollNval

/-- The call returns the number of entries with `revents`, none of which has other bits than it may have, and
it does not wait if there is a descriptor that is not open. -/
structure Exactly (table : List (Option (BitVec 64))) (polls : List Pollfd) (env : Env)
    (outcome : Outcome (List Pollfd)) : Prop where
  count : ∀ n res out, outcome = .returns n res out → res = out.countP fun q => q.revents ≠ 0
  reported : ∀ n res out, outcome = .returns n res out → List.Forall₂ (Reported table) polls out
  atOnce : (∃ p ∈ polls, Invalid table p) → ¬env.Refuses → ∃ res out, outcome = .returns 0 res out

/-! ## When it does -/

/-- The file of an entry is registered, and ready for what the entry wants. -/
def Ready (adds : BitVec 64 → Bool) (ready : Nat → Types) (e : Entry) : Prop :=
  ∃ file, e.file = some file ∧ adds file = true ∧ ready file.toNat &&& e.wants ≠ 0#32

def Once (adds : BitVec 64 → Bool) (entries : List Entry) (ready : Nat → Types) : Prop :=
  entries.Pairwise fun a b => a.file = b.file → ¬(Ready adds ready a ∧ Ready adds ready b)

/-- In the first round in which something is ready, no file is ready for two entries. -/
def FirstOnce (adds : BitVec 64 → Bool) (entries : List Entry) : List Round → Prop
  | [] => True
  | round :: rounds =>
    ((∃ e ∈ entries, Ready adds round.ready e) → Once adds entries round.ready) ∧
      ((¬∃ e ∈ entries, Ready adds round.ready e) → round.next = .again → FirstOnce adds entries rounds)

/-- All descriptors are open or negative, and no file is ready twice. -/
def Fine (table : List (Option (BitVec 64))) (polls : List Pollfd) (env : Env) (rounds : List Round) : Prop :=
  env.Refuses ∨ (¬(∃ p ∈ polls, Invalid table p) ∧ FirstOnce env.adds (lookUp table polls) rounds)

/-! ## Bits -/

variable {adds : BitVec 64 → Bool} {ready : Nat → Types} {entries entries₀ : List Entry} {e e' : Entry} {fds : List PollFd}
  {r : PollFd} {file : BitVec 64} {events : Types} {i : Nat} {table : List (Option (BitVec 64))} {polls : List Pollfd}

theorem wants_lt {b : Nat} (hb : e.wants.getLsbD b = true) : b < 16 := by
  rw [Entry.wants, BitVec.getLsbD_or, Bool.or_eq_true] at hb
  obtain hb | hb := hb
  · rw [Entry.events, BitVec.getLsbD_setWidth, Bool.and_eq_true] at hb
    exact BitVec.lt_of_getLsbD hb.2
  · by_contra hge
    have hzero : pollAlwaysListening >>> 16 = 0#32 := by decide
    have hbit : (pollAlwaysListening >>> 16).getLsbD (b - 16) = true := by
      rw [BitVec.getLsbD_ushiftRight, show 16 + (b - 16) = b from by omega]
      exact hb
    rw [hzero, BitVec.getLsbD_zero] at hbit
    cases hbit

theorem ne_zero_iff {w : Nat} {x : BitVec w} : x ≠ 0#w ↔ ∃ b, x.getLsbD b = true := by
  constructor
  · intro hne
    by_contra hall
    refine hne (BitVec.eq_of_getLsbD_eq fun b _ => ?_)
    rw [BitVec.getLsbD_zero]
    exact Bool.eq_false_iff.mpr fun hb => hall ⟨b, hb⟩
  rintro ⟨b, hb⟩ rfl
  rw [BitVec.getLsbD_zero] at hb
  cases hb

theorem setWidth_wants (types : Types) (e : Entry) :
    ((types &&& e.wants).setWidth 16).setWidth 32 = types &&& e.wants := by
  refine BitVec.eq_of_getLsbD_eq fun b hb => ?_
  rw [BitVec.getLsbD_setWidth, BitVec.getLsbD_setWidth]
  cases hbit : (types &&& e.wants).getLsbD b with
  | false => simp
  | true =>
    rw [BitVec.getLsbD_and, Bool.and_eq_true] at hbit
    have hlt := wants_lt hbit.2
    simp [hb, hlt]

/-! ## The registrations -/

@[simp] theorem setRevents_file (e : Entry) (v : BitVec 16) : (e.setRevents v).file = e.file := rfl

@[simp] theorem setRevents_wants (e : Entry) (v : BitVec 16) : (e.setRevents v).wants = e.wants := rfl

@[simp] theorem setRevents_fd (e : Entry) (v : BitVec 16) : (e.setRevents v).poll.fd = e.poll.fd := rfl

@[simp] theorem setRevents_revents (e : Entry) (v : BitVec 16) : (e.setRevents v).poll.revents = v := rfl

@[simp] theorem setRevents_setRevents (e : Entry) (v w : BitVec 16) :
    (e.setRevents v).setRevents w = e.setRevents w := rfl

theorem marked_ne (e : Entry) : (e.setRevents 1).poll.revents ≠ 0 := by
  rw [setRevents_revents]
  decide

theorem merge_entries (file : BitVec 64) (events : Types) (entries : List Entry) :
    (merge file events entries).2 = entries.map fun e =>
      if e.poll.revents = 0 ∧ e.file = some file then e.setRevents 1 else e := by
  induction entries generalizing events with
  | nil => rfl
  | cons e entries ih =>
    rw [merge, List.map_cons]
    dsimp only
    split
    · rw [ih]
    · rw [ih]

theorem merge_bits (file : BitVec 64) (events : Types) (entries : List Entry) (b : Nat) :
    (merge file events entries).1.getLsbD b = true ↔ events.getLsbD b = true ∨
        ∃ e ∈ entries, e.poll.revents = 0 ∧ e.file = some file ∧ e.events.getLsbD b = true := by
  induction entries generalizing events with
  | nil => simp [merge]
  | cons e entries ih =>
    rw [merge]
    dsimp only
    split
    case isTrue h =>
      rw [ih, BitVec.getLsbD_or, Bool.or_eq_true]
      simp only [List.mem_cons, exists_eq_or_imp, h.1, h.2, true_and, or_assoc]
    case isFalse h =>
      rw [ih]
      simp only [List.mem_cons, exists_eq_or_imp]
      have hno : ¬(e.poll.revents = 0 ∧ e.file = some file ∧ e.events.getLsbD b = true) := fun hc => h ⟨hc.1, hc.2.1⟩
      simp only [hno, false_or]

def Cleared (entries : List Entry) : Prop :=
  ∀ e ∈ entries, e.poll.revents = 0 ∧ ∀ file, e.file = some file → 0 ≤ e.poll.fd

def seen (entries : List Entry) (i : Nat) : List (BitVec 64) := (entries.take i).filterMap Entry.file

structure Registration (entries : List Entry) (r : PollFd) : Prop where
  key : r.key = r.info.toNat
  fired : r.oneshotFired = false
  triggered : r.triggeredTypes = 0#32
  types : ∀ b, r.types.getLsbD b = true ↔ ∃ e ∈ entries, e.file = some r.info ∧ e.wants.getLsbD b = true
  entry : ∃ e ∈ entries, e.file = some r.info

/-- The registrations for the files of the first `i` entries. -/
structure Registered (adds : BitVec 64 → Bool) (entries : List Entry) (i : Nat) (fds : List PollFd) : Prop where
  registration : ∀ r ∈ fds, Registration entries r
  nodup : (fds.map PollFd.info).Nodup
  files : ∀ file, file ∈ fds.map PollFd.info ↔ file ∈ seen entries i ∧ adds file = true

structure Registering (adds : BitVec 64 → Bool) (entries₀ : List Entry) (i : Nat) (st : List Entry × List PollFd) :
    Prop where
  same : st.1.map (fun e => e.setRevents 0) = entries₀
  marked : ∀ j e, st.1[j]? = some e → 0 ≤ e.poll.fd →
    (e.poll.revents ≠ 0 ↔ j < i ∨ ∃ file, e.file = some file ∧ file ∈ seen entries₀ i)
  registered : Registered adds entries₀ i st.2

theorem seen_succ (hget : entries[i]? = some e) : seen entries (i + 1) = seen entries i ++ e.file.toList := by
  rw [seen, List.take_add_one, hget, List.filterMap_append]
  refine congrArg (seen entries i ++ ·) ?_
  rw [Option.toList_some]
  cases hfile : e.file with
  | none => simp [hfile]
  | some file => simp [hfile]

theorem Registered.same (h : Registered adds entries i fds) (hget : entries[i]? = some e)
    (hold : ∀ file, e.file = some file → file ∈ seen entries i) : Registered adds entries (i + 1) fds := by
  refine ⟨h.registration, h.nodup, fun file => ?_⟩
  rw [h.files, seen_succ hget, List.mem_append]
  constructor
  · rintro ⟨hseen, hadds⟩
    exact ⟨Or.inl hseen, hadds⟩
  rintro ⟨hseen | hnew, hadds⟩
  · exact ⟨hseen, hadds⟩
  · exact ⟨hold file (Option.mem_toList.mp hnew), hadds⟩

theorem Registered.add (h : Registered adds entries i fds) (hget : entries[i]? = some e) (hfile : e.file = some file)
    (hnew : file ∉ seen entries i) (fdNo : Int) {types : Types}
    (htypes : ∀ b, types.getLsbD b = true ↔ ∃ x ∈ entries, x.file = some file ∧ x.wants.getLsbD b = true) :
    Registered adds entries (i + 1) (pollAddFd fds file.toNat file.toNat fdNo types file (adds file)) := by
  have hfree : file ∉ fds.map PollFd.info := fun hmem => hnew ((h.files file).mp hmem).1
  have hkey : file.toNat ∉ fds.map PollFd.key := by
    intro hmem
    obtain ⟨r, hr, hkey⟩ := List.mem_map.mp hmem
    rw [(h.registration r hr).key] at hkey
    exact hfree (BitVec.eq_of_toNat_eq hkey ▸ List.mem_map_of_mem hr)
  have hseen := seen_succ hget
  rw [hfile] at hseen
  unfold pollAddFd
  cases hadds : adds file with
  | false =>
    rw [if_neg (by simp)]
    refine ⟨h.registration, h.nodup, fun x => ?_⟩
    rw [h.files, hseen, List.mem_append]
    refine and_congr_left fun hx => ⟨Or.inl, fun hmem => hmem.resolve_right fun hnew => ?_⟩
    rw [← Option.some.inj (Option.mem_toList.mp hnew), hadds] at hx
    cases hx
  | true =>
    rw [if_pos ⟨rfl, hkey⟩]
    have hentry : ∃ x ∈ entries, x.file = some file := ⟨e, List.mem_of_getElem? hget, hfile⟩
    refine ⟨List.forall_mem_cons.mpr ⟨⟨rfl, rfl, rfl, htypes, hentry⟩, h.registration⟩, ?_, fun x => ?_⟩
    · exact List.nodup_cons.mpr ⟨hfree, h.nodup⟩
    rw [List.map_cons, List.mem_cons, h.files, hseen, List.mem_append, Option.mem_toList]
    constructor
    · rintro (rfl | ⟨hold, hx⟩)
      · exact ⟨Or.inr rfl, hadds⟩
      · exact ⟨Or.inl hold, hx⟩
    rintro ⟨hold | hnew, hx⟩
    · exact Or.inr ⟨hold, hx⟩
    · exact Or.inl (Option.some.inj hnew).symm

theorem mem_cleared {entries : List Entry} (hsame : entries.map (fun e => e.setRevents 0) = entries₀) (he : e ∈ entries) :
    e.setRevents 0 ∈ entries₀ := by
  rw [← hsame]
  exact List.mem_map_of_mem he

theorem Registering.new {st : List Entry × List PollFd} (h : Registering adds entries₀ i st) (hget : st.1[i]? = some e)
    (hfd : 0 ≤ e.poll.fd) (hrevents : e.poll.revents = 0) : ∀ file, e.file = some file → file ∉ seen entries₀ i :=
  fun file hfile hseen => absurd hrevents ((h.marked i e hget hfd).mpr (Or.inr ⟨file, hfile, hseen⟩))

theorem Registering.merged {st : List Entry × List PollFd} (hclear : Cleared entries₀)
    (h : Registering adds entries₀ i st) (hget : st.1[i]? = some e) (hfd : 0 ≤ e.poll.fd) (hrevents : e.poll.revents = 0)
    (hfile : e.file = some file) (b : Nat) :
    ((merge file e.events (st.1.set i (e.setRevents 1))).1 ||| pollAlwaysListening).getLsbD b = true ↔
      ∃ x ∈ entries₀, x.file = some file ∧ x.wants.getLsbD b = true := by
  have hnew := h.new hget hfd hrevents file hfile
  have hmem : e.setRevents 0 ∈ entries₀ := mem_cleared h.same (List.mem_of_getElem? hget)
  rw [BitVec.getLsbD_or, Bool.or_eq_true, merge_bits]
  simp only [Entry.wants, BitVec.getLsbD_or, Bool.or_eq_true]
  constructor
  · rintro ((hbit | ⟨x, hx, -, hxfile, hbit⟩) | hbit)
    · exact ⟨e.setRevents 0, hmem, hfile, Or.inl hbit⟩
    · obtain hx | rfl := List.mem_or_eq_of_mem_set hx
      · exact ⟨x.setRevents 0, mem_cleared h.same hx, hxfile, Or.inl hbit⟩
      · exact ⟨e.setRevents 0, hmem, hfile, Or.inl hbit⟩
    · exact ⟨e.setRevents 0, hmem, hfile, Or.inr hbit⟩
  rintro ⟨x, hx, hxfile, hbit | hbit⟩
  · left
    -- the entry is the one at `i`, or one behind that is not marked
    rw [← h.same] at hx
    obtain ⟨y, hy, rfl⟩ := List.mem_map.mp hx
    obtain ⟨j, hj⟩ := List.mem_iff_getElem?.mp hy
    by_cases hij : j = i
    · subst hij
      cases hget.symm.trans hj
      exact Or.inl hbit
    have hclear := hclear _ (mem_cleared h.same hy)
    have hmarked := h.marked j y hj (hclear.2 file hxfile)
    have hunmarked : y.poll.revents = 0 := by
      by_contra hne
      obtain hlt | ⟨f, hf, hseen⟩ := hmarked.mp hne
      · refine hnew (List.mem_filterMap.mpr ⟨y.setRevents 0, ?_, hxfile⟩)
        refine List.mem_iff_getElem?.mpr ⟨j, ?_⟩
        rw [List.getElem?_take_of_lt hlt, ← h.same, List.getElem?_map, hj]
        rfl
      · rw [← Option.some.inj (hf.symm.trans hxfile)] at hnew
        exact hnew hseen
    refine Or.inr ⟨y, ?_, hunmarked, hxfile, hbit⟩
    rw [List.mem_iff_getElem?]
    exact ⟨j, by rw [List.getElem?_set_ne (Ne.symm hij)]; exact hj⟩
  · exact Or.inr hbit

/-- **A step of the outer loop.** -/
theorem registering_step {st : List Entry × List PollFd} (hclear : Cleared entries₀)
    (h : Registering adds entries₀ i st) (hi : i < entries₀.length) :
    Registering adds entries₀ (i + 1) (register adds st i) := by
  have hlen : st.1.length = entries₀.length := by rw [← h.same, List.length_map]
  obtain ⟨e, hget⟩ : ∃ e, st.1[i]? = some e := ⟨st.1[i], List.getElem?_eq_getElem (by omega)⟩
  have hget₀ : entries₀[i]? = some (e.setRevents 0) := by
    rw [← h.same, List.getElem?_map, hget]
    rfl
  have hseen := seen_succ hget₀
  simp only [register, hget]
  by_cases hskip : e.poll.fd < 0 ∨ e.poll.revents ≠ 0
  case pos =>
    rw [if_pos hskip]
    have hold : ∀ file, e.file = some file → file ∈ seen entries₀ i := by
      intro file hfile
      have hfd := (hclear _ (mem_cleared h.same (List.mem_of_getElem? hget))).2 file hfile
      have hrevents := hskip.resolve_left (by rw [setRevents_fd] at hfd; omega)
      obtain hlt | ⟨f, hf, hmem⟩ := (h.marked i e hget hfd).mp hrevents
      · exact absurd hlt (Nat.lt_irrefl i)
      · rwa [← Option.some.inj (hf.symm.trans hfile)]
    refine ⟨h.same, fun j x hj hfd => ?_, h.registered.same hget₀ hold⟩
    rw [h.marked j x hj hfd, hseen]
    constructor
    · rintro (hlt | ⟨file, hfile, hmem⟩)
      · exact Or.inl (by omega)
      · exact Or.inr ⟨file, hfile, List.mem_append_left _ hmem⟩
    rintro (hlt | ⟨file, hfile, hmem⟩)
    · by_cases hij : j = i
      · subst hij
        cases hget.symm.trans hj
        exact (h.marked j e hget hfd).mp (hskip.resolve_left (by omega))
      · exact Or.inl (by omega)
    obtain hmem | hmem := List.mem_append.mp hmem
    · exact Or.inr ⟨file, hfile, hmem⟩
    · exact Or.inr ⟨file, hfile, hold file (Option.mem_toList.mp hmem)⟩
  case neg =>
    rw [if_neg hskip]
    have hfd : 0 ≤ e.poll.fd := by omega
    have hrevents : e.poll.revents = 0 := Classical.not_not.mp fun hne => hskip (Or.inr hne)
    have hset : (st.1.set i (e.setRevents 1)).map (fun e => e.setRevents 0) = entries₀ := by
      rw [List.map_set, h.same, setRevents_setRevents, ← (List.getElem?_eq_some_iff.mp hget₀).2, List.set_getElem_self]
    have hfound : (st.1.set i (e.setRevents 1))[i]? = some (e.setRevents 1) := List.getElem?_set_self (by omega)
    cases hfile : e.file with
    | none =>
      dsimp only
      rw [show (e.setRevents 0).file = none from hfile, Option.toList_none, List.append_nil] at hseen
      refine ⟨hset, fun j x hj hxfd => ?_, h.registered.same hget₀ fun file hf => ?_⟩
      · by_cases hij : j = i
        · subst hij
          cases hfound.symm.trans hj
          exact ⟨fun _ => Or.inl (Nat.lt_succ_self j), fun _ => marked_ne e⟩
        · rw [List.getElem?_set_ne (Ne.symm hij)] at hj
          rw [h.marked j x hj hxfd, hseen, show j < i + 1 ↔ j < i from by omega]
      · rw [show (e.setRevents 0).file = none from hfile] at hf
        cases hf
    | some file =>
      dsimp only
      rw [show (e.setRevents 0).file = some file from hfile] at hseen
      have hregistered := h.registered.add hget₀ hfile (h.new hget hfd hrevents file hfile) e.poll.fd
        (h.merged hclear hget hfd hrevents hfile)
      refine ⟨?_, fun j x hj hxfd => ?_, hregistered⟩
      · rw [merge_entries, List.map_map, ← hset]
        refine List.map_congr_left fun x _ => ?_
        show (if x.poll.revents = 0 ∧ x.file = some file then x.setRevents 1 else x).setRevents 0 = x.setRevents 0
        split
        · rfl
        · rfl
      rw [merge_entries, List.getElem?_map, Option.map_eq_some_iff] at hj
      obtain ⟨y, hy, rfl⟩ := hj
      by_cases hij : j = i
      · subst hij
        cases hfound.symm.trans hy
        rw [if_neg (by simp)]
        exact ⟨fun _ => Or.inl (Nat.lt_succ_self j), fun _ => marked_ne e⟩
      rw [List.getElem?_set_ne (Ne.symm hij)] at hy
      have hyfd : 0 ≤ y.poll.fd := by
        split at hxfd
        · exact hxfd
        · exact hxfd
      have hmarked := h.marked j y hy hyfd
      rw [hseen, show j < i + 1 ↔ j < i from by omega]
      by_cases hsame : y.file = some file
      · -- marked now, if it was not before
        refine ⟨fun _ => Or.inr ⟨file, ?_, List.mem_append_right _ (Option.mem_toList.mpr rfl)⟩, fun _ => ?_⟩
        · split
          · exact hsame
          · exact hsame
        split
        case isTrue => exact marked_ne y
        case isFalse hno => exact fun hzero => hno ⟨hzero, hsame⟩
      rw [if_neg (fun hc => hsame hc.2), hmarked]
      refine or_congr_right (exists_congr fun f => and_congr_right fun hf => ?_)
      rw [List.mem_append]
      refine ⟨Or.inl, fun hmem => hmem.resolve_right fun heq => hsame ?_⟩
      rw [hf, Option.mem_toList.mp heq]

theorem registerAll_spec (adds : BitVec 64 → Bool) (hclear : Cleared entries₀) :
    (registerAll adds entries₀).1.map (fun e => e.setRevents 0) = entries₀ ∧
      Registered adds entries₀ entries₀.length (registerAll adds entries₀).2 := by
  have hrun : ∀ i, i ≤ entries₀.length →
      Registering adds entries₀ i ((List.range i).foldl (register adds) (entries₀, [])) := by
    intro i hi
    induction i with
    | zero =>
      refine ⟨?_, fun j e hj _ => ?_, fun r hr => absurd hr List.not_mem_nil, List.nodup_nil, fun file => ?_⟩
      · refine (List.map_congr_left fun e he => ?_).trans (List.map_id entries₀)
        show e.setRevents 0 = e
        rw [← (hclear e he).1]
        rfl
      · refine ⟨fun hne => absurd (hclear e (List.mem_of_getElem? hj)).1 hne, ?_⟩
        rintro (hlt | ⟨file, -, hmem⟩)
        · exact absurd hlt (Nat.not_lt_zero j)
        · exact absurd hmem List.not_mem_nil
      · exact ⟨fun hmem => absurd hmem List.not_mem_nil, fun hmem => absurd hmem.1 List.not_mem_nil⟩
    | succ i ih =>
      rw [List.range_succ, List.foldl_append]
      exact registering_step hclear (ih (by omega)) (by omega)
  have hend := hrun entries₀.length (Nat.le_refl _)
  exact ⟨hend.same, hend.registered⟩

/-! ## A scan -/

theorem always_wants (e : Entry) {b : Nat} (hb : pollAlwaysListening.getLsbD b = true) : e.wants.getLsbD b = true := by
  rw [Entry.wants, BitVec.getLsbD_or, hb, Bool.or_true]

theorem offered_bits (h : Registration entries r) (types : Types) (b : Nat) :
    (r.offered types).getLsbD b = true ↔
      types.getLsbD b = true ∧ ∃ e ∈ entries, e.file = some r.info ∧ e.wants.getLsbD b = true := by
  have hoffered : r.offered types = types &&& (r.types ||| pollHup ||| pollErr) := by
    rw [PollFd.offered, h.fired, h.triggered, if_neg Bool.false_ne_true]
    dsimp only
    split
    · rw [BitVec.not_zero, BitVec.and_allOnes]
    · rfl
  rw [hoffered, BitVec.getLsbD_and, Bool.and_eq_true, BitVec.getLsbD_or, BitVec.getLsbD_or, Bool.or_eq_true,
    Bool.or_eq_true, h.types]
  refine and_congr_right fun _ => ⟨?_, fun hwants => Or.inl (Or.inl hwants)⟩
  obtain ⟨e, he, hfile⟩ := h.entry
  rintro ((hwants | hhup) | herr)
  · exact hwants
  · refine ⟨e, he, hfile, always_wants e ?_⟩
    rw [pollAlwaysListening, BitVec.getLsbD_or, BitVec.getLsbD_or, hhup, Bool.or_true, Bool.true_or]
  · refine ⟨e, he, hfile, always_wants e ?_⟩
    rw [pollAlwaysListening, BitVec.getLsbD_or, BitVec.getLsbD_or, herr, Bool.true_or, Bool.true_or]

theorem offered_iff (h : Registration entries r) (hadds : adds r.info = true) :
    r.offered (ready r.key) ≠ 0#32 ↔ ∃ e ∈ entries, e.file = some r.info ∧ Ready adds ready e := by
  rw [ne_zero_iff]
  simp only [offered_bits h, h.key]
  constructor
  · rintro ⟨b, hready, e, he, hfile, hwants⟩
    refine ⟨e, he, hfile, r.info, hfile, hadds, ne_zero_iff.mpr ⟨b, ?_⟩⟩
    rw [BitVec.getLsbD_and, hready, hwants, Bool.and_true]
  rintro ⟨e, he, hfile, file, hfile', -, hne⟩
  obtain ⟨b, hb⟩ := ne_zero_iff.mp hne
  rw [BitVec.getLsbD_and, Bool.and_eq_true, Option.some.inj (hfile'.symm.trans hfile)] at hb
  exact ⟨b, hb.1, e, he, hfile, hb.2⟩

theorem offered_wants (h : Registration entries r) (he : e ∈ entries) (hfile : e.file = some r.info) (types : Types) :
    r.offered types &&& e.wants = types &&& e.wants := by
  refine BitVec.eq_of_getLsbD_eq fun b _ => Bool.eq_iff_iff.mpr ?_
  rw [BitVec.getLsbD_and, BitVec.getLsbD_and, Bool.and_eq_true, Bool.and_eq_true, offered_bits h]
  exact ⟨fun hb => ⟨hb.1.1, hb.2⟩, fun hb => ⟨⟨hb.1, e, he, hfile, hb.2⟩, hb.2⟩⟩

def revents (adds : BitVec 64 → Bool) (ready : Nat → Types) (e : Entry) : BitVec 16 :=
  match e.file with
  | none => if 0 ≤ e.poll.fd then pollNval.setWidth 16 else 0
  | some file => if adds file then (ready file.toNat &&& e.wants).setWidth 16 else 0

def told (ready : Nat → Types) (e : Entry) (r : PollFd) : Entry :=
  if r.offered (ready r.key) ≠ 0#32 ∧ e.file = some r.info then
    e.setRevents ((r.offered (ready r.key) &&& e.wants).setWidth 16)
  else e

@[simp] theorem told_file (ready : Nat → Types) (e : Entry) (r : PollFd) : (told ready e r).file = e.file := by
  unfold told
  split
  · rfl
  · rfl

theorem visit_eq (ready : Nat → Types) (entries : List Entry) (r : PollFd) :
    visit pollEventCallback ready entries r = entries.map fun e => told ready e r := by
  unfold visit told pollEventCallback
  split
  case isTrue hzero => simp [hzero]
  case isFalse hsome => simp [hsome]

theorem foldl_visit (ready : Nat → Types) (entries : List Entry) (fds : List PollFd) :
    fds.foldl (visit pollEventCallback ready) entries = entries.map fun e => fds.foldl (told ready) e := by
  induction fds generalizing entries with
  | nil => exact (List.map_id entries).symm
  | cons r fds ih =>
    rw [List.foldl_cons, visit_eq, ih, List.map_map]
    rfl

theorem foldl_told_none (hnone : ∀ r ∈ fds, e.file ≠ some r.info) : fds.foldl (told ready) e = e := by
  induction fds with
  | nil => rfl
  | cons r fds ih =>
    obtain ⟨hhead, htail⟩ := List.forall_mem_cons.mp hnone
    rw [List.foldl_cons, told, if_neg fun hc => hhead hc.2]
    exact ih htail

theorem foldl_told_one (hnodup : (fds.map PollFd.info).Nodup) (hr : r ∈ fds) (hfile : e.file = some r.info) :
    fds.foldl (told ready) e = told ready e r := by
  induction fds with
  | nil => cases hr
  | cons x fds ih =>
    obtain ⟨hfresh, hnodup⟩ := List.nodup_cons.mp hnodup
    rw [List.foldl_cons]
    obtain rfl | hr := List.mem_cons.mp hr
    · refine foldl_told_none fun y hy hc => ?_
      rw [told_file, hfile] at hc
      exact hfresh (Option.some.inj hc ▸ List.mem_map_of_mem hy)
    have hother : told ready e x = e := by
      refine if_neg fun hc => ?_
      rw [hfile] at hc
      exact hfresh (Option.some.inj hc.2 ▸ List.mem_map_of_mem hr)
    rw [hother]
    exact ih hnodup hr

theorem foldl_markInvalid (h : Registered adds entries entries.length fds) :
    fds.foldl (visit pollEventCallback ready) (markInvalid entries) =
      entries.map fun e => e.setRevents (revents adds ready e) := by
  rw [foldl_visit, markInvalid, List.map_map]
  refine List.map_congr_left fun e he => ?_
  show fds.foldl (told ready) (e.setRevents _) = _
  cases hfile : e.file with
  | none =>
    have hnone : ∀ (r : PollFd) (v : BitVec 16), (e.setRevents v).file ≠ some r.info := fun r v hc =>
      Option.some_ne_none _ (hc.symm.trans hfile)
    rw [foldl_told_none fun r _ => hnone r _, revents, hfile]
    simp
  | some file =>
    rw [if_neg (by simp)]
    have hseen : file ∈ seen entries entries.length := by
      rw [seen, List.take_length]
      exact List.mem_filterMap.mpr ⟨e, he, hfile⟩
    rw [revents, hfile]
    dsimp only
    cases hadds : adds file with
    | false =>
      rw [if_neg Bool.false_ne_true]
      refine foldl_told_none fun r hr hc => ?_
      rw [setRevents_file, hfile] at hc
      have hmem := ((h.files r.info).mp (List.mem_map_of_mem hr)).2
      rw [← Option.some.inj hc, hadds] at hmem
      cases hmem
    | true =>
      obtain ⟨r, hr, rfl⟩ := List.mem_map.mp ((h.files file).mpr ⟨hseen, hadds⟩)
      have hregistration := h.registration r hr
      have hwants := offered_wants hregistration he hfile (ready r.info.toNat)
      rw [if_pos rfl, foldl_told_one h.nodup hr (by rw [setRevents_file, hfile]), told, hregistration.key,
        setRevents_wants, setRevents_file, setRevents_setRevents, hwants]
      split
      case isTrue => rfl
      case isFalse hzero =>
        -- nothing is ready
        have hzero : r.offered (ready r.info.toNat) = 0#32 := Classical.not_not.mp fun hne => hzero ⟨hne, hfile⟩
        rw [← hwants, hzero, BitVec.zero_and]
        rfl

/-! ## Counts -/

theorem ready_iff : Ready adds ready e ↔ e.file ≠ none ∧ revents adds ready e ≠ 0 := by
  unfold Ready revents
  cases hfile : e.file with
  | none => simp
  | some file =>
    dsimp only
    have hwidth := setWidth_wants (ready file.toNat) e
    cases hadds : adds file with
    | false => simp [hadds]
    | true =>
      simp only [Option.some.injEq, exists_eq_left', hadds, true_and, ne_eq, reduceCtorEq, not_false_eq_true, if_pos]
      refine not_congr ⟨fun hzero => ?_, fun hzero => ?_⟩
      · rw [hzero]
        decide
      · rw [hzero] at hwidth
        exact hwidth.symm.trans (by decide)

instance : Decidable (Ready adds ready e) := decidable_of_iff _ ready_iff.symm

theorem length_eq_iff_nodup {α : Type} {l l' : List α} (hnodup : l'.Nodup) (hmem : ∀ a, a ∈ l ↔ a ∈ l') :
    l'.length ≤ l.length ∧ (l.length = l'.length ↔ l.Nodup) := by
  have hsub : l'.Subperm l := hnodup.subperm fun a ha => (hmem a).mpr ha
  refine ⟨hsub.length_le, fun heq => ?_, fun hl => ?_⟩
  · exact (hsub.perm_of_length_le (Nat.le_of_eq heq)).nodup hnodup
  · exact ((List.perm_ext_iff_of_nodup hl hnodup).mpr hmem).length_eq

theorem countP_revents (adds : BitVec 64 → Bool) (ready : Nat → Types) (entries : List Entry) :
    (entries.map fun e => (e.setRevents (revents adds ready e)).poll).countP (fun q => q.revents ≠ 0) =
      entries.countP (fun e => 0 ≤ e.poll.fd ∧ e.file = none) + (entries.filter fun e => Ready adds ready e).length := by
  induction entries with
  | nil => rfl
  | cons e entries ih =>
    rw [List.map_cons, List.countP_cons, ih, List.countP_cons, List.filter_cons]
    cases hfile : e.file with
    | none =>
      have hnot : ¬Ready adds ready e := fun h => (ready_iff.mp h).1 hfile
      have hrevents : revents adds ready e ≠ 0 ↔ 0 ≤ e.poll.fd := by
        rw [revents, hfile]
        dsimp only
        split
        case isTrue h => exact ⟨fun _ => h, fun _ => by decide⟩
        case isFalse h => exact ⟨fun hc => absurd rfl hc, fun hc => absurd hc h⟩
      simp only [setRevents_revents, hrevents, hnot, decide_false, Bool.false_eq_true, if_false, and_true]
      omega
    | some file =>
      have hready : revents adds ready e ≠ 0 ↔ Ready adds ready e :=
        ⟨fun h => ready_iff.mpr ⟨by rw [hfile]; exact Option.some_ne_none file, h⟩, fun h => (ready_iff.mp h).2⟩
      simp only [setRevents_revents, hready, reduceCtorEq, and_false, decide_false, Bool.false_eq_true, if_false]
      split
      · rw [List.length_cons]
        omega
      · omega

theorem mem_offered (h : Registered adds entries entries.length fds) (ready : Nat → Types) (file : Option (BitVec 64)) :
    file ∈ (entries.filter fun e => Ready adds ready e).map Entry.file ↔
      file ∈ (fds.filter fun r => r.offered (ready r.key) ≠ 0#32).map fun r => some r.info := by
  simp only [List.mem_map, List.mem_filter, decide_eq_true_eq]
  constructor
  · rintro ⟨e, ⟨he, hready⟩, rfl⟩
    obtain ⟨file, hfile, hadds, -⟩ := id hready
    have hseen : file ∈ seen entries entries.length := by
      rw [seen, List.take_length]
      exact List.mem_filterMap.mpr ⟨e, he, hfile⟩
    obtain ⟨r, hr, rfl⟩ := List.mem_map.mp ((h.files file).mpr ⟨hseen, hadds⟩)
    exact ⟨r, ⟨hr, (offered_iff (h.registration r hr) hadds).mpr ⟨e, he, hfile, hready⟩⟩, hfile.symm⟩
  rintro ⟨r, ⟨hr, hsome⟩, rfl⟩
  have hadds := ((h.files r.info).mp (List.mem_map_of_mem hr)).2
  obtain ⟨e, he, hfile, hready⟩ := (offered_iff (h.registration r hr) hadds).mp hsome
  exact ⟨e, ⟨he, hready⟩, hfile⟩

theorem found_iff (h : Registered adds entries entries.length fds) :
    Found fds ready ↔ ∃ e ∈ entries, Ready adds ready e := by
  constructor
  · rintro ⟨r, hr, hsome⟩
    have hadds := ((h.files r.info).mp (List.mem_map_of_mem hr)).2
    obtain ⟨e, he, -, hready⟩ := (offered_iff (h.registration r hr) hadds).mp hsome
    exact ⟨e, he, hready⟩
  rintro ⟨e, he, hready⟩
  have hmem : e.file ∈ (entries.filter fun e => Ready adds ready e).map Entry.file :=
    List.mem_map_of_mem (List.mem_filter.mpr ⟨he, decide_eq_true hready⟩)
  obtain ⟨r, hr, -⟩ := List.mem_map.mp ((mem_offered h ready e.file).mp hmem)
  obtain ⟨hr, hsome⟩ := List.mem_filter.mp hr
  exact ⟨r, hr, of_decide_eq_true hsome⟩

/-- **The count of a scan** is that of the entries if all descriptors are open and no file is ready twice. -/
theorem count_iff (h : Registered adds entries entries.length fds) (ready : Nat → Types) :
    ((fds.countP (fun r => r.offered (ready r.key) ≠ 0#32) : Nat) : Int) =
        (entries.map fun e => (e.setRevents (revents adds ready e)).poll).countP (fun q => q.revents ≠ 0) ↔
      (∀ e ∈ entries, ¬(0 ≤ e.poll.fd ∧ e.file = none)) ∧ Once adds entries ready := by
  have hnodup : ((fds.filter fun r => r.offered (ready r.key) ≠ 0#32).map fun r => some r.info).Nodup := by
    have hsub := (List.filter_sublist (p := fun r => decide (r.offered (ready r.key) ≠ 0#32)) (l := fds)).map PollFd.info
    have hinfos := (hsub.nodup h.nodup).map fun _ _ heq => Option.some.inj heq
    rwa [List.map_map] at hinfos
  obtain ⟨hle, hiff⟩ := length_eq_iff_nodup hnodup (mem_offered h ready)
  rw [List.length_map, List.length_map] at hle hiff
  have honce : Once adds entries ready ↔ ((entries.filter fun e => Ready adds ready e).map Entry.file).Nodup := by
    rw [List.Nodup, List.pairwise_map, List.pairwise_filter]
    refine ⟨fun hpairwise => hpairwise.imp fun hnot ha hb heq => ?_, fun hpairwise => hpairwise.imp fun hne heq hc => ?_⟩
    · exact hnot heq ⟨of_decide_eq_true ha, of_decide_eq_true hb⟩
    · exact hne (decide_eq_true hc.1) (decide_eq_true hc.2) heq
  rw [honce, ← hiff, countP_revents, List.countP_eq_length_filter, Int.ofNat_inj]
  have hzero : (∀ e ∈ entries, ¬(0 ≤ e.poll.fd ∧ e.file = none)) ↔
      entries.countP (fun e => 0 ≤ e.poll.fd ∧ e.file = none) = 0 := by
    rw [List.countP_eq_zero]
    simp
  rw [hzero]
  omega

/-! ## The call -/

section Conclude

variable {κ α : Type} {output : κ → α} {w : Waited κ} {n : Nat} {res : Int} {out : α}

theorem conclude_unwritten : conclude false output w ≠ .returns n res out := by
  intro hc
  cases w with
  | waiting => cases hc
  | fails err => cases hc
  | left k r context => cases hc

theorem conclude_written :
    conclude true output w = .returns n res out ↔ ∃ context, w = .left n res context ∧ out = output context := by
  constructor
  · intro hc
    cases w with
    | waiting => cases hc
    | fails err => cases hc
    | left k r context =>
      cases hc
      exact ⟨context, rfl, rfl⟩
  · rintro ⟨context, rfl, rfl⟩
    rfl

end Conclude

theorem lookUp_cleared (table : List (Option (BitVec 64))) (polls : List Pollfd) : Cleared (lookUp table polls) := by
  refine List.forall_mem_map.mpr fun p _ => ⟨rfl, fun file hfile => ?_⟩
  have hfile : fGet table p.fd = some file := hfile
  unfold fGet at hfile
  split at hfile
  case isTrue => cases hfile
  case isFalse hneg => exact Int.not_lt.mp hneg

theorem invalid_lookUp (table : List (Option (BitVec 64))) (polls : List Pollfd) :
    (∃ p ∈ polls, Invalid table p) ↔ ∃ e ∈ lookUp table polls, 0 ≤ e.poll.fd ∧ e.file = none := by
  constructor
  · rintro ⟨p, hp, hinvalid⟩
    exact ⟨_, List.mem_map_of_mem hp, hinvalid⟩
  rintro ⟨e, he, hinvalid⟩
  obtain ⟨p, hp, rfl⟩ := List.mem_map.mp he
  exact ⟨p, hp, hinvalid⟩

theorem markInvalid_marked (hsame : entries.map (fun e => e.setRevents 0) = entries₀) :
    markInvalid entries = markInvalid entries₀ := by
  rw [← hsame, markInvalid, markInvalid, List.map_map]
  rfl

theorem answers (h : Registered adds entries₀ entries₀.length fds) :
    Answers pollEventCallback (fun entries => entries.map Entry.file = entries₀.map Entry.file) fds := by
  intro entries hfiles r hr types _
  have hmem := ((h.files r.info).mp (List.mem_map_of_mem hr)).1
  rw [seen, List.take_length, List.mem_filterMap] at hmem
  obtain ⟨e, he, hfile⟩ := hmem
  constructor
  · -- the file of the registration is that of an entry
    have hmem : some r.info ∈ entries.map Entry.file := by
      rw [hfiles, ← hfile]
      exact List.mem_map_of_mem he
    obtain ⟨x, hx, hxfile⟩ := List.mem_map.mp hmem
    refine if_pos (List.any_eq_true.mpr ⟨x, hx, ?_⟩)
    rw [hxfile]
    exact decide_eq_true rfl
  show (entries.map _).map Entry.file = _
  rw [List.map_map, ← hfiles]
  refine List.map_congr_left fun e _ => ?_
  show Entry.file (if e.file = some r.info then _ else e) = e.file
  split
  · rfl
  · rfl

theorem markInvalid_files (entries : List Entry) : (markInvalid entries).map Entry.file = entries.map Entry.file := by
  rw [markInvalid, List.map_map]
  rfl

theorem countP_markInvalid (entries : List Entry) :
    ((0 : Int) = ((markInvalid entries).map Entry.poll).countP fun q => q.revents ≠ 0) ↔
      ∀ e ∈ entries, ¬(0 ≤ e.poll.fd ∧ e.file = none) := by
  have hcast (n : Nat) : (0 : Int) = n ↔ n = 0 := by omega
  rw [hcast, List.countP_eq_zero, markInvalid, List.map_map, List.forall_mem_map]
  refine forall₂_congr fun e _ => not_congr ?_
  rw [decide_eq_true_iff]
  show (if 0 ≤ e.poll.fd ∧ e.file = none then pollNval.setWidth 16 else (0 : BitVec 16)) ≠ 0 ↔ _
  split
  case isTrue h => exact ⟨fun _ => h, fun _ => by decide⟩
  case isFalse h => exact ⟨fun hc => absurd rfl hc, fun hc => absurd hc h⟩

theorem reported_map {v : Entry → BitVec 16}
    (hwithin : ∀ e ∈ lookUp table polls, Within ((v e).setWidth 32) e.wants)
    (hinvalid : ∀ e ∈ lookUp table polls, 0 ≤ e.poll.fd ∧ e.file = none → (v e).setWidth 32 = pollNval) :
    List.Forall₂ (Reported table) polls (((lookUp table polls).map fun e => e.setRevents (v e)).map Entry.poll) := by
  rw [lookUp, List.map_map, List.map_map, List.forall₂_map_right_iff, List.forall₂_same]
  intro p hp
  have hmem : (⟨{ p with revents := 0 }, fGet table p.fd⟩ : Entry) ∈ lookUp table polls := List.mem_map_of_mem hp
  exact ⟨rfl, rfl, hwithin _ hmem, hinvalid _ hmem⟩

theorem nval_within (e : Entry) : Within ((pollNval.setWidth 16).setWidth 32) e.wants := by
  refine within_iff.mpr fun b _ hb => always_wants e ?_
  rw [pollAlwaysListening, BitVec.getLsbD_or, show pollNval = (pollNval.setWidth 16).setWidth 32 from by decide, hb,
    Bool.or_true]

theorem zero_within_wants (e : Entry) : Within ((0 : BitVec 16).setWidth 32) e.wants := by
  rw [show (0 : BitVec 16).setWidth 32 = 0#32 from by decide]
  exact zero_within _

theorem reported_left {k : Nat} {res : Int} {out : List Entry} {rounds : List Round}
    (h : Registered adds (lookUp table polls) (lookUp table polls).length fds)
    (hleft : waitLoop pollEventCallback (markInvalid (lookUp table polls)) fds 0 rounds = .left k res out) :
    List.Forall₂ (Reported table) polls (out.map Entry.poll) := by
  obtain ⟨ready, -, -, rfl⟩ | ⟨-, rfl⟩ := waitLoop_left (answers h) (markInvalid_files _) hleft
  · rw [(scan_res (answers h) (markInvalid_files _)).2, foldl_markInvalid h]
    refine reported_map (fun e _ => ?_) fun e _ hinvalid => ?_
    · unfold revents
      split
      · split
        · exact nval_within e
        · exact zero_within_wants e
      split
      · rw [setWidth_wants]
        exact within_iff.mpr fun b _ hb => ((Bool.and_eq_true _ _).mp (BitVec.getLsbD_and ▸ hb)).2
      · exact zero_within_wants e
    rw [revents, hinvalid.2]
    dsimp only
    rw [if_pos hinvalid.1]
    decide
  refine reported_map (fun e _ => ?_) fun e _ hinvalid => ?_
  · split
    · exact nval_within e
    · exact zero_within_wants e
  · rw [if_pos hinvalid]
    decide

theorem firstFound_iff (h : Registered adds entries entries.length fds)
    (hvalid : ∀ e ∈ entries, ¬(0 ≤ e.poll.fd ∧ e.file = none)) (rounds : List Round) :
    FirstFound fds (fun ready => (∀ e ∈ entries, ¬(0 ≤ e.poll.fd ∧ e.file = none)) ∧ Once adds entries ready) rounds ↔
      FirstOnce adds entries rounds := by
  induction rounds with
  | nil => exact Iff.rfl
  | cons round rounds ih =>
    rw [FirstFound, FirstOnce, found_iff h, ih]
    exact and_congr_left fun _ => imp_congr_right fun _ => ⟨fun hc => hc.2, fun hc => ⟨hvalid, hc⟩⟩

theorem rounds_iff (h : Registered adds (lookUp table polls) (lookUp table polls).length fds) (round : Round)
    (rounds : List Round) :
    ((∀ n res out, waitLoop pollEventCallback (markInvalid (lookUp table polls)) fds 0 (round :: rounds) = .left n res out →
        res = (out.map Entry.poll).countP fun q => q.revents ≠ 0) ∧
      ((∃ p ∈ polls, Invalid table p) → ∃ res out,
        waitLoop pollEventCallback (markInvalid (lookUp table polls)) fds 0 (round :: rounds) = .left 0 res out)) ↔
      ¬(∃ p ∈ polls, Invalid table p) ∧ FirstOnce adds (lookUp table polls) (round :: rounds) := by
  have hanswers := answers h
  have hfiles := markInvalid_files (lookUp table polls)
  have hfound (ready : Nat → Types) (_ : Found fds ready) :
      ((scan pollEventCallback ready (markInvalid (lookUp table polls)) fds).1 =
        (((scan pollEventCallback ready (markInvalid (lookUp table polls)) fds).2.1.map Entry.poll).countP
          fun q => q.revents ≠ 0 : Nat)) ↔
      (∀ e ∈ lookUp table polls, ¬(0 ≤ e.poll.fd ∧ e.file = none)) ∧ Once adds (lookUp table polls) ready := by
    rw [(scan_res hanswers hfiles).1, (scan_res hanswers hfiles).2, foldl_markInvalid h, List.map_map]
    exact count_iff h ready
  have hinvalid : (∃ p ∈ polls, Invalid table p) ↔ ¬∀ e ∈ lookUp table polls, ¬(0 ≤ e.poll.fd ∧ e.file = none) := by
    rw [invalid_lookUp]
    simp only [not_forall, Classical.not_not, exists_prop]
  rw [hinvalid, Classical.not_not]
  constructor
  · rintro ⟨hcount, hatOnce⟩
    have hvalid : ∀ e ∈ lookUp table polls, ¬(0 ≤ e.poll.fd ∧ e.file = none) := by
      by_contra hnot
      -- the descriptor that is not open has been counted, and it never is
      obtain ⟨res, out, hleft⟩ := hatOnce hnot
      have hres := hcount 0 res out hleft
      obtain ⟨ready, hready, rfl, rfl⟩ | ⟨rfl, rfl⟩ := waitLoop_left hanswers hfiles hleft
      · exact hnot ((hfound ready hready).mp hres).1
      · exact hnot ((countP_markInvalid _).mp hres)
    have hidle := (countP_markInvalid _).mpr hvalid
    exact ⟨hvalid, (firstFound_iff h hvalid _).mp ((waitLoop_iff hanswers hfiles hidle hfound).mp hcount)⟩
  rintro ⟨hvalid, honce⟩
  have hidle := (countP_markInvalid _).mpr hvalid
  refine ⟨(waitLoop_iff hanswers hfiles hidle hfound).mpr ((firstFound_iff h hvalid _).mpr honce), fun hnot => ?_⟩
  exact absurd hvalid hnot

theorem sysPoll_iff (table : List (Option (BitVec 64))) (polls : List Pollfd) (env : Env) (round : Round)
    (rounds : List Round) :
    Exactly table polls env (sysPoll table polls env (round :: rounds)) ↔ Fine table polls env (round :: rounds) := by
  obtain ⟨hsame, hregistered⟩ := registerAll_spec env.adds (lookUp_cleared table polls)
  have hfiles := markInvalid_files (lookUp table polls)
  have hmark := markInvalid_marked hsame
  have hrefused (herr : env.Refuses) (hfails : ∀ n res out, sysPoll table polls env (round :: rounds) ≠ .returns n res out) :
      Exactly table polls env (sysPoll table polls env (round :: rounds)) ↔ Fine table polls env (round :: rounds) :=
    ⟨fun _ => Or.inl herr, fun _ => ⟨fun n res out hc => absurd hc (hfails n res out),
      fun n res out hc => absurd hc (hfails n res out), fun _ hnot => absurd herr hnot⟩⟩
  cases hreadable : env.readable with
  | false =>
    refine hrefused (Or.inl hreadable) fun n res out hc => ?_
    simp only [sysPoll, hreadable] at hc
    cases hc
  | true =>
    cases hcreated : env.created with
    | some err =>
      refine hrefused (Or.inr (Or.inl (by rw [hcreated]; exact Option.some_ne_none err))) fun n res out hc => ?_
      simp only [sysPoll, hreadable, hcreated] at hc
      cases hc
    | none =>
      cases hpipe : env.pipe with
      | some err =>
        refine hrefused (Or.inr (Or.inr (Or.inl (by rw [hpipe]; exact Option.some_ne_none err)))) fun n res out hc => ?_
        simp only [sysPoll, hreadable, hcreated, pollWait, hpipe] at hc
        cases hc
      | none =>
        have hcall : sysPoll table polls env (round :: rounds) =
            conclude env.written (fun entries => entries.map Entry.poll)
              (waitLoop pollEventCallback (markInvalid (lookUp table polls))
                (registerAll env.adds (lookUp table polls)).2 0 (round :: rounds)) := by
          simp only [sysPoll, hreadable, hcreated, pollWait, hpipe, hmark]
          rfl
        cases hwritten : env.written with
        | false =>
          refine hrefused (Or.inr (Or.inr (Or.inr hwritten))) fun n res out hc => ?_
          rw [hcall, hwritten] at hc
          exact conclude_unwritten hc
        | true =>
          have hnot : ¬env.Refuses := by
            simp [Env.Refuses, hreadable, hcreated, hpipe, hwritten]
          have hreturns (n : Nat) (res : Int) (out : List Pollfd) :
              sysPoll table polls env (round :: rounds) = .returns n res out ↔
                ∃ entries, waitLoop pollEventCallback (markInvalid (lookUp table polls))
                  (registerAll env.adds (lookUp table polls)).2 0 (round :: rounds) = .left n res entries ∧
                  out = entries.map Entry.poll := by
            rw [hcall, hwritten]
            exact conclude_written
          rw [Fine, or_iff_right hnot, ← rounds_iff hregistered]
          constructor
          · intro hexactly
            refine ⟨fun n res out hleft => hexactly.count n res _ ((hreturns n res _).mpr ⟨out, hleft, rfl⟩), fun hinvalid => ?_⟩
            obtain ⟨res, out, hc⟩ := hexactly.atOnce hinvalid hnot
            obtain ⟨entries, hleft, -⟩ := (hreturns 0 res out).mp hc
            exact ⟨res, entries, hleft⟩
          rintro ⟨hcount, hatOnce⟩
          refine ⟨fun n res out hc => ?_, fun n res out hc => ?_, fun hinvalid _ => ?_⟩
          · obtain ⟨entries, hleft, rfl⟩ := (hreturns n res out).mp hc
            exact hcount n res entries hleft
          · obtain ⟨entries, hleft, rfl⟩ := (hreturns n res out).mp hc
            exact reported_left hregistered hleft
          · obtain ⟨res, out, hleft⟩ := hatOnce hinvalid
            exact ⟨res, _, (hreturns 0 res _).mpr ⟨out, hleft, rfl⟩⟩

end IosLinuxkit.Kernel.Poll
