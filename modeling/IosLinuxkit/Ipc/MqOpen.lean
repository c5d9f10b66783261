import IosLinuxkit.Lib.Run
import Mathlib.Data.List.Nodup

/-!
# Names of POSIX message queues

`kernel/ipc.c`: `mq_open`, `mq_unlink` and the close of a descriptor. `sys_mq_open` looks for the name under
`shm_lock`, and releases the lock while it reads the attributes of a queue it is about to make.

* **`names_iff`** — when every name stands for one queue.

## Modelling

* What comes from outside is part of the step: the attributes read, and the success of `calloc` and of
  the calls that make the descriptor.
* `last` is the queue that the last open of a name has found or made since the name was unlinked; the
  code has no such field.
-/

namespace IosLinuxkit.Ipc.MqOpen

def eNOENT : Int := -2
def eNOMEM : Int := -12
def eFAULT : Int := -14
def eEXIST : Int := -17
def eINVAL : Int := -22

abbrev Name := List UInt8

/-- `struct mq_queue`, without its messages. -/
structure Queue where
  id : Nat
  name : Name
  unlinked : Bool
  openCount : Int
  nonblock : Bool
  maxmsg : Int
  msgsize : Int
  deriving DecidableEq

/-- The part of `struct mq_attr_` that is looked at. -/
structure Attr where
  maxmsg : Int
  msgsize : Int
  deriving DecidableEq

def Attr.default : Attr := ⟨10, 8192⟩

def Attr.Valid (attr : Attr) : Prop := 0 < attr.maxmsg ∧ 0 < attr.msgsize

instance (attr : Attr) : Decidable attr.Valid := inferInstanceAs (Decidable (_ ∧ _))

/-- Where a task is: in no call, reading the attributes, or making a descriptor of a queue. -/
inductive Phase
  | idle
  | reading (name : Name) (nonblock : Bool)
  | installing (id : Nat)
  deriving DecidableEq

structure State where
  queues : List Queue
  fresh : Nat
  phase : Nat → Phase
  last : Name → Option Nat

/-! ## The list of queues -/

def Queue.has (name : Name) (queue : Queue) : Bool := !queue.unlinked && queue.name == name

def mqFindName (queues : List Queue) (name : Name) : Option Queue := queues.find? (Queue.has name)

def withQueue (id : Nat) (f : Queue → Queue) (queues : List Queue) : List Queue :=
  queues.map fun queue => if queue.id = id then f queue else queue

/-- `mq_maybe_free_unlocked` -/
def mqMaybeFree (id : Nat) (queues : List Queue) : List Queue :=
  queues.filter fun queue => !(queue.id == id && queue.unlinked && decide (queue.openCount ≤ 0))

/-- Unlinks the queue that `mqFindName` finds. -/
def unlinkFirst (name : Name) : List Queue → List Queue
  | [] => []
  | queue :: queues =>
    if queue.has name then { queue with unlinked := true } :: queues else queue :: unlinkFirst name queues

/-- `queue->open_count++; queue->flags = oflag & O_NONBLOCK_` -/
def Queue.addOpen (nonblock : Bool) (queue : Queue) : Queue :=
  { queue with openCount := queue.openCount + 1, nonblock := nonblock }

/-- `queue->open_count--` -/
def Queue.dropOpen (queue : Queue) : Queue := { queue with openCount := queue.openCount - 1 }

/-- `mqfd_close`, and the way back of a failed open. -/
def closeQueue (id : Nat) (queues : List Queue) : List Queue :=
  mqMaybeFree id (withQueue id Queue.dropOpen queues)

/-! ## The calls -/

/-- What a section of a call comes to: nothing yet, an error, or a queue for a name. -/
inductive Event
  | none
  | fails (err : Int)
  | opens (name : Name) (id : Nat)

namespace State

def setPhase (st : State) (t : Nat) (phase : Phase) : State :=
  { st with phase := Function.update st.phase t phase }

/-- A task has found or made a queue, and goes on to its descriptor. -/
def found (st : State) (t : Nat) (name : Name) (id : Nat) (queues : List Queue) : State :=
  { st.setPhase t (.installing id) with queues := queues, last := Function.update st.last name (some id) }

end State

def openInsert (st : State) (t : Nat) (name : Name) (nonblock : Bool) (attr : Attr) (memory : Bool) : State × Event :=
  if ¬ attr.Valid then (st.setPhase t .idle, .fails eINVAL)
  else if ¬ memory then (st.setPhase t .idle, .fails eNOMEM)
  else
    let queue : Queue := ⟨st.fresh, name, false, 1, nonblock, attr.maxmsg, attr.msgsize⟩
    ({ st.found t name st.fresh (queue :: st.queues) with fresh := st.fresh + 1 }, .opens name st.fresh)

/-- The arguments of `mq_open` that are not read from memory; `attr` says that the address is not null. -/
structure OpenArgs where
  creat : Bool
  excl : Bool
  nonblock : Bool
  attr : Bool

def openLookup (st : State) (t : Nat) (name : Name) (a : OpenArgs) (memory : Bool) : State × Event :=
  match mqFindName st.queues name with
  | some queue =>
    if a.creat ∧ a.excl then (st, .fails eEXIST)
    else (st.found t name queue.id (withQueue queue.id (Queue.addOpen a.nonblock) st.queues), .opens name queue.id)
  | none =>
    if ¬ a.creat then (st, .fails eNOENT)
    else if a.attr then (st.setPhase t (.reading name a.nonblock), .none)
    else openInsert st t name a.nonblock Attr.default memory

def mqUnlink (st : State) (name : Name) : State × Event :=
  match mqFindName st.queues name with
  | none => ({ st with last := Function.update st.last name Option.none }, .fails eNOENT)
  | some queue =>
    ({ st with
        queues := mqMaybeFree queue.id (unlinkFirst name st.queues)
        last := Function.update st.last name Option.none }, .none)

inductive Op
  /-- `mq_open` up to the read of the attributes, which it may not need. -/
  | lookup (t : Nat) (name : Name) (a : OpenArgs) (memory : Bool)
  /-- The rest, with the attributes read. -/
  | insert (t : Nat) (attr : Option Attr) (memory : Bool)
  /-- `adhoc_fd_create` and `f_install` -/
  | install (t : Nat) (success : Bool)
  | unlink (name : Name)
  | close (id : Nat)

def exec (st : State) : Op → State × Event
  | .lookup t name a memory =>
    match st.phase t with
    | .idle => if name = [] then (st, .fails eINVAL) else openLookup st t name a memory
    | _ => (st, .none)
  | .insert t attr memory =>
    match st.phase t, attr with
    | .reading _ _, none => (st.setPhase t .idle, .fails eFAULT)
    -- the name is not looked up again
    | .reading name nonblock, some attr => openInsert st t name nonblock attr memory
    | _, _ => (st, .none)
  | .install t success =>
    match st.phase t with
    | .installing id =>
      if success then (st.setPhase t .idle, .none)
      else ({ st.setPhase t .idle with queues := closeQueue id st.queues }, .fails eNOMEM)
    | _ => (st, .none)
  | .unlink name => mqUnlink st name
  | .close id => ({ st with queues := closeQueue id st.queues }, .none)

def step (st : State) (op : Op) : State := (exec st op).1

def start : State := { queues := [], fresh := 0, phase := fun _ => .idle, last := fun _ => none }

/-! ## What ought to hold -/

def names (queues : List Queue) : List Name := (queues.filter fun queue => !queue.unlinked).map Queue.name

def Unique (st : State) : Prop := (names st.queues).Nodup

/-- The names stay unique, and an open of a name has the queue of the opens before it, since the name was unlinked. -/
def Lawful (st : State) (op : Op) : Prop :=
  Unique (step st op) ∧ ∀ name id, (exec st op).2 = .opens name id → ∀ id', st.last name = some id' → id' = id

/-! ## When it does -/

/-- Where a queue is made after its attributes were read, no linked queue has its name. -/
def Allowed (st : State) : Op → Prop
  | .insert t (some attr) true =>
    ∀ name nonblock, st.phase t = .reading name nonblock → attr.Valid → mqFindName st.queues name = none
  | _ => True

variable {st : State} {t : Nat} {name : Name} {queues : List Queue} {id : Nat}

/-! ## Lookups -/

theorem names_cons (queue : Queue) (queues : List Queue) :
    names (queue :: queues) = if queue.unlinked then names queues else queue.name :: names queues := by
  unfold names
  cases h : queue.unlinked <;> simp [h]

theorem mqFindName_none : mqFindName queues name = none ↔ name ∉ names queues := by
  unfold mqFindName names
  rw [List.find?_eq_none]
  simp [Queue.has]

def Queue.key (queue : Queue) : Nat × Name × Bool := (queue.id, queue.name, queue.unlinked)

def standsFor (queues : List Queue) (name : Name) : Option Nat := (mqFindName queues name).map Queue.id

theorem standsFor_cons (queue : Queue) (queues : List Queue) (name : Name) :
    standsFor (queue :: queues) name = if queue.has name then some queue.id else standsFor queues name := by
  unfold standsFor mqFindName
  rw [List.find?_cons]
  cases queue.has name <;> rfl

theorem same_keys {queues' : List Queue} (hkeys : queues'.map Queue.key = queues.map Queue.key) :
    names queues' = names queues ∧ ∀ name, standsFor queues' name = standsFor queues name := by
  induction queues generalizing queues' with
  | nil =>
    cases queues' with
    | nil => exact ⟨rfl, fun _ => rfl⟩
    | cons => cases hkeys
  | cons queue queues ih =>
    cases queues' with
    | nil => cases hkeys
    | cons queue' queues' =>
      obtain ⟨hkey, hrest⟩ := List.cons.inj hkeys
      obtain ⟨hnames, hstands⟩ := ih hrest
      have hid : queue'.id = queue.id := congrArg (·.1) hkey
      have hname : queue'.name = queue.name := congrArg (·.2.1) hkey
      have hun : queue'.unlinked = queue.unlinked := congrArg (·.2.2) hkey
      refine ⟨?_, fun name => ?_⟩
      · rw [names_cons, names_cons, hnames, hname, hun]
      have hhas : queue'.has name = queue.has name := by
        unfold Queue.has
        rw [hun, hname]
      rw [standsFor_cons, standsFor_cons, hstands, hid, hhas]

theorem withQueue_keys (id : Nat) (f : Queue → Queue) (hf : ∀ queue, (f queue).key = queue.key) (queues : List Queue) :
    (withQueue id f queues).map Queue.key = queues.map Queue.key := by
  unfold withQueue
  rw [List.map_map]
  refine List.map_congr_left fun queue _ => ?_
  show Queue.key (if queue.id = id then f queue else queue) = _
  split
  · exact hf queue
  · rfl

theorem mqMaybeFree_same (id : Nat) (queues : List Queue) :
    names (mqMaybeFree id queues) = names queues ∧ ∀ name, standsFor (mqMaybeFree id queues) name = standsFor queues name := by
  induction queues with
  | nil => exact ⟨rfl, fun _ => rfl⟩
  | cons queue queues ih =>
    unfold mqMaybeFree at ih ⊢
    rw [List.filter_cons]
    split
    case isTrue =>
      refine ⟨?_, fun name => ?_⟩
      · rw [names_cons, names_cons, ih.1]
      · rw [standsFor_cons, standsFor_cons, ih.2]
    case isFalse hgone =>
      have hun : queue.unlinked = true := by
        cases hqueue : queue.unlinked with
        | true => rfl
        | false => simp [hqueue] at hgone
      refine ⟨?_, fun name => ?_⟩
      · rw [names_cons, if_pos hun, ih.1]
      · rw [standsFor_cons, if_neg (by simp [Queue.has, hun]), ih.2]

theorem closeQueue_same (id : Nat) (queues : List Queue) :
    names (closeQueue id queues) = names queues ∧ ∀ name, standsFor (closeQueue id queues) name = standsFor queues name := by
  obtain ⟨hnames, hstands⟩ := mqMaybeFree_same id
    (withQueue id Queue.dropOpen queues)
  have hkeys : (withQueue id Queue.dropOpen queues).map Queue.key
      = queues.map Queue.key := withQueue_keys id Queue.dropOpen (fun _ => rfl) queues
  obtain ⟨hnames', hstands'⟩ := same_keys hkeys
  exact ⟨hnames.trans hnames', fun name => (hstands name).trans (hstands' name)⟩

theorem standsFor_none : standsFor queues name = none ↔ name ∉ names queues := by
  unfold standsFor
  rw [Option.map_eq_none_iff, mqFindName_none]

theorem has_iff (queue : Queue) (name : Name) : queue.has name = true ↔ queue.unlinked = false ∧ queue.name = name := by
  simp [Queue.has]

theorem names_unlinkFirst (name : Name) (queues : List Queue) : names (unlinkFirst name queues) = (names queues).erase name := by
  induction queues with
  | nil => rfl
  | cons queue queues ih =>
    unfold unlinkFirst
    split
    case isTrue hhas =>
      obtain ⟨hun, rfl⟩ := (has_iff queue name).mp hhas
      rw [names_cons, if_pos rfl, names_cons, if_neg (by simp [hun]), List.erase_cons_head]
    case isFalse hhas =>
      rw [names_cons, names_cons, ih]
      split
      case isTrue => rfl
      case isFalse hun =>
        have hname : queue.name ≠ name := fun heq =>
          hhas ((has_iff queue name).mpr ⟨Bool.eq_false_iff.mpr hun, heq⟩)
        rw [List.erase_cons_tail (by simpa using hname)]

theorem standsFor_unlinkFirst {name' : Name} (hne : name' ≠ name) (queues : List Queue) :
    standsFor (unlinkFirst name queues) name' = standsFor queues name' := by
  induction queues with
  | nil => rfl
  | cons queue queues ih =>
    unfold unlinkFirst
    split
    case isTrue hhas =>
      obtain ⟨-, rfl⟩ := (has_iff queue name).mp hhas
      rw [standsFor_cons, standsFor_cons, if_neg (by simp [Queue.has]),
        if_neg fun h => hne ((has_iff queue name').mp h).2.symm]
    case isFalse => rw [standsFor_cons, standsFor_cons, ih]

/-! ## Steps -/

structure Inv (st : State) : Prop where
  unique : Unique st
  last : ∀ name, st.last name = standsFor st.queues name

theorem inv_start : Inv start := ⟨List.nodup_nil, fun _ => rfl⟩

theorem inv_same {st' : State} (h : Inv st) (hnames : names st'.queues = names st.queues)
    (hstands : ∀ name, standsFor st'.queues name = standsFor st.queues name) (hlast : st'.last = st.last) : Inv st' := by
  refine ⟨?_, fun name => ?_⟩
  · unfold Unique
    rw [hnames]
    exact h.unique
  · rw [hlast, hstands]
    exact h.last name

def Keeps (st : State) (r : State × Event) : Prop :=
  Inv r.1 ∧ ∀ name id, r.2 = .opens name id → ∀ id', st.last name = some id' → id' = id

theorem keeps_same {r : State × Event} (h : Inv st) (hnames : names r.1.queues = names st.queues)
    (hstands : ∀ name, standsFor r.1.queues name = standsFor st.queues name) (hlast : r.1.last = st.last)
    (hevent : ∀ name id, r.2 ≠ .opens name id) : Keeps st r :=
  ⟨inv_same h hnames hstands hlast, fun name id heq => absurd heq (hevent name id)⟩

theorem keeps_idle {r : State × Event} (h : Inv st) (hqueues : r.1.queues = st.queues) (hlast : r.1.last = st.last)
    (hevent : ∀ name id, r.2 ≠ .opens name id) : Keeps st r :=
  keeps_same h (by rw [hqueues]) (fun name => by rw [hqueues]) hlast hevent

theorem openInsert_keeps (h : Inv st) (t : Nat) (nonblock : Bool) {attr : Attr} {memory : Bool}
    (hnew : attr.Valid → memory = true → mqFindName st.queues name = none) :
    Keeps st (openInsert st t name nonblock attr memory) := by
  unfold openInsert
  split
  case isTrue => exact keeps_idle h rfl rfl fun _ _ heq => by cases heq
  case isFalse hvalid =>
    split
    case isTrue => exact keeps_idle h rfl rfl fun _ _ heq => by cases heq
    case isFalse hmemory =>
      have hfree := hnew (Decidable.not_not.mp hvalid) (by simpa using hmemory)
      have hnone : standsFor st.queues name = none := by
        unfold standsFor
        rw [hfree]
        rfl
      refine ⟨⟨?_, fun name' => ?_⟩, fun name' id heq id' hlast => ?_⟩
      · show (names (_ :: st.queues)).Nodup
        rw [names_cons]
        exact List.nodup_cons.mpr ⟨mqFindName_none.mp hfree, h.unique⟩
      · show Function.update st.last name (some st.fresh) name' = standsFor (_ :: st.queues) name'
        rw [standsFor_cons]
        by_cases heq : name' = name
        · subst heq
          rw [Function.update_self, if_pos (by simp [Queue.has])]
        · rw [Function.update_of_ne heq, if_neg fun hhas => heq ((has_iff _ name').mp hhas).2.symm]
          exact h.last name'
      cases heq
      rw [h.last, hnone] at hlast
      cases hlast

theorem openLookup_keeps (h : Inv st) (t : Nat) (name : Name) (a : OpenArgs) (memory : Bool) :
    Keeps st (openLookup st t name a memory) := by
  unfold openLookup
  split
  case h_1 queue hfind =>
    have hstands : standsFor st.queues name = some queue.id := by
      unfold standsFor
      rw [hfind]
      rfl
    split
    case isTrue => exact keeps_idle h rfl rfl fun _ _ heq => by cases heq
    case isFalse =>
      have hkeys : (withQueue queue.id (Queue.addOpen a.nonblock) st.queues).map Queue.key = st.queues.map Queue.key :=
        withQueue_keys queue.id (Queue.addOpen a.nonblock) (fun _ => rfl) st.queues
      obtain ⟨hnames, hsame⟩ := same_keys hkeys
      refine ⟨inv_same h hnames hsame ?_, fun name' id heq id' hlast => ?_⟩
      · show Function.update st.last name (some queue.id) = st.last
        rw [← hstands, ← h.last, Function.update_eq_self]
      cases heq
      rw [h.last, hstands] at hlast
      exact (Option.some.inj hlast).symm
  case h_2 hfind =>
    split
    case isTrue => exact keeps_idle h rfl rfl fun _ _ heq => by cases heq
    case isFalse =>
      split
      case isTrue => exact keeps_idle h rfl rfl fun _ _ heq => by cases heq
      case isFalse => exact openInsert_keeps h t a.nonblock fun _ _ => hfind

theorem mqUnlink_keeps (h : Inv st) (name : Name) : Keeps st (mqUnlink st name) := by
  unfold mqUnlink
  split
  case h_1 hfind =>
    have hnone : standsFor st.queues name = none := by
      unfold standsFor
      rw [hfind]
      rfl
    refine keeps_idle h rfl ?_ fun _ _ heq => by cases heq
    show Function.update st.last name none = st.last
    rw [← hnone, ← h.last, Function.update_eq_self]
  case h_2 queue hfind =>
    obtain ⟨hnames, hstands⟩ := mqMaybeFree_same queue.id (unlinkFirst name st.queues)
    rw [names_unlinkFirst] at hnames
    refine ⟨⟨?_, fun name' => ?_⟩, fun _ _ heq => by cases heq⟩
    · show (names (mqMaybeFree queue.id (unlinkFirst name st.queues))).Nodup
      rw [hnames]
      exact h.unique.erase name
    show Function.update st.last name none name' = standsFor (mqMaybeFree queue.id (unlinkFirst name st.queues)) name'
    by_cases heq : name' = name
    · subst heq
      rw [Function.update_self]
      refine (standsFor_none.mpr ?_).symm
      rw [hnames]
      exact h.unique.not_mem_erase
    · rw [Function.update_of_ne heq, hstands, standsFor_unlinkFirst heq]
      exact h.last name'

theorem exec_keeps (h : Inv st) (op : Op) (hallowed : Allowed st op) : Keeps st (exec st op) := by
  have hidle : Keeps st (st, .none) := keeps_idle h rfl rfl fun _ _ heq => by cases heq
  cases op with
  | lookup t name a memory =>
    simp only [exec]
    split
    · split
      · exact keeps_idle h rfl rfl fun _ _ heq => by cases heq
      · exact openLookup_keeps h t name a memory
    · exact hidle
  | insert t attr memory =>
    simp only [exec]
    split
    · exact keeps_idle h rfl rfl fun _ _ heq => by cases heq
    case h_2 name nonblock attr hphase =>
      refine openInsert_keeps h t nonblock fun hvalid hmemory => ?_
      subst hmemory
      exact hallowed name nonblock hphase hvalid
    · exact hidle
  | install t success =>
    simp only [exec]
    split
    case h_1 id _ =>
      split
      · exact keeps_idle h rfl rfl fun _ _ heq => by cases heq
      · obtain ⟨hnames, hstands⟩ := closeQueue_same id st.queues
        exact keeps_same h hnames hstands rfl fun _ _ heq => by cases heq
    · exact hidle
  | unlink name => exact mqUnlink_keeps h name
  | close id =>
    obtain ⟨hnames, hstands⟩ := closeQueue_same id st.queues
    exact keeps_same h hnames hstands rfl fun _ _ heq => by cases heq

theorem not_unique_insert {nonblock : Bool} {attr : Attr} (hphase : st.phase t = .reading name nonblock)
    (hvalid : attr.Valid) (hfound : mqFindName st.queues name ≠ none) : ¬ Unique (step st (.insert t (some attr) true)) := by
  intro hunique
  have hqueues : (step st (.insert t (some attr) true)).queues
      = ⟨st.fresh, name, false, 1, nonblock, attr.maxmsg, attr.msgsize⟩ :: st.queues := by
    simp only [step, exec, hphase, openInsert, not_true_eq_false, if_neg (not_not.mpr hvalid), if_false]
    rfl
  unfold Unique at hunique
  rw [hqueues, names_cons] at hunique
  exact (List.nodup_cons.mp hunique).1 (not_not.mp fun hnmem => hfound (mqFindName_none.mpr hnmem))

theorem lawful_iff (h : Inv st) (op : Op) : Lawful st op ↔ Allowed st op := by
  constructor
  · intro hlawful
    cases op with
    | insert t attr memory =>
      cases attr with
      | none => trivial
      | some attr =>
        cases memory with
        | false => trivial
        | true =>
          intro name nonblock hphase hvalid
          exact not_not.mp fun hfound => not_unique_insert hphase hvalid hfound hlawful.1
    | lookup | install | unlink | close => trivial
  intro hallowed
  obtain ⟨hinv, hopens⟩ := exec_keeps h op hallowed
  exact ⟨hinv.unique, hopens⟩

/-! ## Runs -/

end IosLinuxkit.Ipc.MqOpen
