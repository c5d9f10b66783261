import IosLinuxkit.Lib.Run
import Mathlib.Algebra.Group.Nat.Defs
import Mathlib.Data.List.Basic

/-!
# Reading a directory

`sys_getdents_common` of `src/fs/dir.c` over the three operations of a directory. It reads an entry, and goes back to
where it stood when the record does not fit.

* **`getdents_exact`** — one call hands out the next entries, or leaves the directory where it is, exactly when the
  next record fits and no record that is written faults.
* **`getdents_run`** — over a run of such calls the entries handed out and those still to come are the directory.
-/

namespace IosLinuxkit.Getdents

def efault : Int := -14

/-- `struct dir_entry`, whose name is at most `NAME_MAX` bytes long. -/
structure Entry where
  inode : Nat
  name : List (BitVec 8)
  type : Nat
  short : name.length ≤ 255
deriving DecidableEq

/-- The operations of an open directory with state `σ`. -/
structure Dir (σ : Type) where
  /-- none is the end, an error its number -/
  readdir : σ → Except Int (Option Entry) × σ
  telldir : σ → Nat
  seekdir : σ → Nat → σ

/-- `fill_dirent_32` and `fill_dirent_64`. -/
inductive Format
  | dirent32
  | dirent64
deriving DecidableEq

/-- `reclen`, a `word_t`. -/
def reclen (f : Format) (e : Entry) : Nat :=
  match f with
  | .dirent32 => (10 + e.name.length + 2) % 2 ^ 16
  | .dirent64 => (19 + e.name.length + 1) % 2 ^ 16

/-- A record: the entry, and the position behind it. -/
structure Record where
  entry : Entry
  offset : Nat
deriving DecidableEq

theorem reclen_pos (f : Format) (e : Entry) : 0 < reclen f e := by
  have := e.short
  unfold reclen
  cases f
  · show 0 < (10 + e.name.length + 2) % 2 ^ 16
    omega
  · show 0 < (19 + e.name.length + 1) % 2 ^ 16
    omega

/-- A call: its format and buffer size, and whether `user_write` of so many bytes at so many bytes into the buffer
succeeds. -/
structure Call where
  format : Format
  count : Nat
  put : Nat → Nat → Bool

section Loop

variable {σ : Type}

/-- The loop, with `off` bytes written and `count` left. -/
def getdentsLoop (d : Dir σ) (f : Format) (put : Nat → Nat → Bool) (off count : Nat) (s : σ) (out : List Record) :
    Except Int (List Record) × σ :=
  let ptr := d.telldir s
  match d.readdir s with
  | (.error e, s') => (.error e, s')
  | (.ok none, s') => (.ok out, d.seekdir s' ptr)
  | (.ok (some e), s') =>
    if count < reclen f e then (.ok out, d.seekdir s' ptr)
    else if put off (reclen f e) then
      getdentsLoop d f put (off + reclen f e) (count - reclen f e) s' (out ++ [⟨e, d.telldir s'⟩])
    else (.error efault, s')
termination_by count
decreasing_by
  have := reclen_pos f e
  omega

/-- `sys_getdents_common` of a directory; the result is what the records of a successful call are, whose total length is
its value. -/
def getdents (d : Dir σ) (c : Call) (s : σ) : Except Int (List Record) × σ :=
  getdentsLoop d c.format c.put 0 c.count s []

end Loop

/-! ## Directories that do not change -/

/-- A directory whose operations move over a fixed list: `rest` is what is still to come. -/
structure Positions (σ : Type) extends Dir σ where
  rest : σ → List Entry
  readdir_end : ∀ s, rest s = [] → ∃ s', readdir s = (.ok none, s') ∧ rest s' = []
  readdir_next : ∀ s e es, rest s = e :: es → ∃ s', readdir s = (.ok (some e), s') ∧ rest s' = es
  seek_tell : ∀ s s', rest (seekdir s' (telldir s)) = rest s

/-- `tmpfs_readdir`, `tmpfs_telldir` and `tmpfs_seekdir`: the children with their indices, which `tmpfs_dir_link` counts
up, and `dir_pos`. -/
def tmpfsDir (children : List (Nat × Entry)) : Dir (Option (Fin children.length)) where
  readdir
    | none => (.ok none, none)
    | some i => (.ok (some children[i].2), if h : i + 1 < children.length then some ⟨i + 1, h⟩ else none)
  telldir
    | none => 2 ^ 64 - 1
    | some i => children[i].1
  seekdir _ ptr := children.findFinIdx? fun c => decide (ptr ≤ c.1)

def tmpfsRest (children : List (Nat × Entry)) : Option (Fin children.length) → List Entry
  | none => []
  | some i => (children.drop i).map Prod.snd

theorem drop_cons {children : List (Nat × Entry)} (i : Fin children.length) :
    children.drop i = children[i] :: children.drop (i + 1) := List.drop_eq_getElem_cons i.isLt

def tmpfsPositions (children : List (Nat × Entry)) (hinc : children.Pairwise fun a b => a.1 < b.1)
    (hmax : ∀ c ∈ children, c.1 < 2 ^ 64 - 1) : Positions (Option (Fin children.length)) where
  toDir := tmpfsDir children
  rest := tmpfsRest children
  readdir_end s hs := by
    cases s with
    | none => exact ⟨none, rfl, rfl⟩
    | some i =>
      rw [tmpfsRest, drop_cons, List.map_cons] at hs
      cases hs
  readdir_next s e es hs := by
    cases s with
    | none => cases hs
    | some i =>
      rw [tmpfsRest, drop_cons, List.map_cons] at hs
      obtain ⟨rfl, rfl⟩ := List.cons.inj hs
      refine ⟨_, rfl, ?_⟩
      split
      case isTrue => rfl
      case isFalse h => simp [tmpfsRest, List.drop_eq_nil_of_le (Nat.le_of_not_lt h)]
  seek_tell s s' := by
    have hfind : (tmpfsDir children).seekdir s' ((tmpfsDir children).telldir s) = s := by
      cases s with
      | none =>
        rw [tmpfsDir, List.findFinIdx?_eq_none_iff]
        intro c hc
        have := hmax c hc
        simp
        omega
      | some i =>
        rw [tmpfsDir, List.findFinIdx?_eq_some_iff]
        refine ⟨by simp, fun j hj => ?_⟩
        have := List.pairwise_iff_getElem.mp hinc j i j.isLt i.isLt hj
        simpa using this
    rw [hfind]

/-! ## The root of procfs -/

def maxPid : Nat := 2 ^ 15

/-- The search of `proc_root_readdir` for a task behind `pid`, with `n` ids left. -/
def nextPid (alive : Nat → Bool) : Nat → Nat → Option Nat
  | 0, _ => none
  | n + 1, pid => if alive (pid + 1) then some (pid + 1) else nextPid alive n (pid + 1)

/-- `proc_root_readdir` behind `proc_readdir`, with `fd->offset` for all three; `entries` is `proc_root_entries`, and
`pidEntry` the entry of a process. -/
def procDir (entries : List Entry) (pidEntry : Nat → Entry) (alive : Nat → Bool) : Dir Nat where
  readdir index :=
    if h : index < entries.length then (.ok (some entries[index]), index + 1)
    else
      match nextPid alive (maxPid - (index - entries.length)) (index - entries.length) with
      | none => (.ok none, index)
      | some pid => (.ok (some (pidEntry pid)), pid + entries.length)
  telldir index := index
  seekdir _ ptr := ptr

def pidsFrom (pidEntry : Nat → Entry) (alive : Nat → Bool) (n pid : Nat) : List Entry :=
  ((List.range' (pid + 1) n).filter alive).map pidEntry

theorem pidsFrom_next (pidEntry : Nat → Entry) (alive : Nat → Bool) (n pid : Nat) :
    (nextPid alive n pid = none → pidsFrom pidEntry alive n pid = []) ∧
      ∀ p, nextPid alive n pid = some p → pid < p ∧ p ≤ pid + n ∧
        pidsFrom pidEntry alive n pid = pidEntry p :: pidsFrom pidEntry alive (pid + n - p) p := by
  induction n generalizing pid with
  | zero => exact ⟨fun _ => rfl, fun p hp => (by cases hp)⟩
  | succ n ih =>
    rw [nextPid]
    split
    case isTrue h =>
      refine ⟨fun hnone => (by cases hnone), fun p hp => ?_⟩
      obtain rfl := Option.some.inj hp
      refine ⟨by omega, by omega, ?_⟩
      rw [show pid + (n + 1) - (pid + 1) = n from by omega]
      simp [pidsFrom, List.range'_succ, h]
    case isFalse h =>
      have hskip : pidsFrom pidEntry alive (n + 1) pid = pidsFrom pidEntry alive n (pid + 1) := by
        simp [pidsFrom, List.range'_succ, h]
      rw [hskip]
      refine ⟨(ih (pid + 1)).1, fun p hp => ?_⟩
      obtain ⟨hlt, hle, heq⟩ := (ih (pid + 1)).2 p hp
      rw [show pid + (n + 1) = pid + 1 + n from by omega]
      exact ⟨by omega, hle, heq⟩

def procPositions (entries : List Entry) (pidEntry : Nat → Entry) (alive : Nat → Bool) : Positions Nat where
  toDir := procDir entries pidEntry alive
  rest index := entries.drop index ++
    pidsFrom pidEntry alive (maxPid - (index - entries.length)) (index - entries.length)
  readdir_end index hs := by
    obtain ⟨hdrop, hpids⟩ := List.append_eq_nil_iff.mp hs
    have hlen := List.drop_eq_nil_iff.mp hdrop
    have hnext := pidsFrom_next pidEntry alive (maxPid - (index - entries.length)) (index - entries.length)
    refine ⟨index, ?_, hs⟩
    simp only [procDir, dif_neg (Nat.not_lt.mpr hlen)]
    cases hp : nextPid alive (maxPid - (index - entries.length)) (index - entries.length) with
    | none => rfl
    | some p =>
      have := (hnext.2 p hp).2.2
      rw [hpids] at this
      cases this
  readdir_next index e es hs := by
    simp only [procDir]
    split
    case isTrue h =>
      rw [List.drop_eq_getElem_cons h, List.cons_append] at hs
      obtain ⟨rfl, rfl⟩ := List.cons.inj hs
      refine ⟨index + 1, rfl, ?_⟩
      rw [show index + 1 - entries.length = index - entries.length from by omega]
    case isFalse h =>
      rw [List.drop_eq_nil_of_le (Nat.le_of_not_lt h), List.nil_append] at hs
      have hnext := pidsFrom_next pidEntry alive (maxPid - (index - entries.length)) (index - entries.length)
      cases hp : nextPid alive (maxPid - (index - entries.length)) (index - entries.length) with
      | none =>
        rw [hnext.1 hp] at hs
        cases hs
      | some p =>
        obtain ⟨hlt, hle, heq⟩ := hnext.2 p hp
        rw [heq] at hs
        obtain ⟨rfl, rfl⟩ := List.cons.inj hs
        refine ⟨p + entries.length, rfl, ?_⟩
        rw [List.drop_eq_nil_of_le (Nat.le_add_left _ _), List.nil_append, Nat.add_sub_cancel,
          show index - entries.length + (maxPid - (index - entries.length)) - p = maxPid - p from by omega]
  seek_tell _ _ := rfl

/-! ## One call -/

section Exact

variable {σ : Type} (d : Positions σ)

/-- What a call is for: it hands out the next entries, none of them only at the end; or it fails, and the directory
stays where it was. -/
def Exact (c : Call) (s : σ) : Prop :=
  (∀ out s', getdents d.toDir c s = (.ok out, s') →
    out.map Record.entry ++ d.rest s' = d.rest s ∧ (out = [] → d.rest s = [])) ∧
  ∀ e s', getdents d.toDir c s = (.error e, s') → d.rest s' = d.rest s

/-- No record faults, up to the first that does not fit. -/
def Roomy (f : Format) (put : Nat → Nat → Bool) : Nat → Nat → List Entry → Prop
  | _, _, [] => True
  | off, count, e :: es =>
    count < reclen f e ∨ put off (reclen f e) = true ∧ Roomy f put (off + reclen f e) (count - reclen f e) es

/-- The buffer has room for the next entry, and no record that is written faults. -/
def Fine (c : Call) (s : σ) : Prop :=
  (∀ e ∈ (d.rest s).head?, reclen c.format e ≤ c.count) ∧ Roomy c.format c.put 0 c.count (d.rest s)

theorem getdentsLoop_roomy (f : Format) (put : Nat → Nat → Bool) (off count : Nat) (s : σ) (out : List Record)
    (h : Roomy f put off count (d.rest s)) :
    ∃ l s', getdentsLoop d.toDir f put off count s out = (.ok (out ++ l), s') ∧
      l.map Record.entry ++ d.rest s' = d.rest s ∧ ((∀ e ∈ (d.rest s).head?, reclen f e ≤ count) → l = [] → d.rest s = []) := by
  induction count using Nat.strongRecOn generalizing off s out with
  | _ count ih =>
  cases hrest : d.rest s with
  | nil =>
    obtain ⟨s', hread, -⟩ := d.readdir_end s hrest
    refine ⟨[], d.seekdir s' (d.telldir s), ?_, by simp [d.seek_tell, hrest], fun _ _ => rfl⟩
    rw [getdentsLoop, hread, List.append_nil]
  | cons e es =>
    obtain ⟨s', hread, hes⟩ := d.readdir_next s e es hrest
    rw [getdentsLoop, hread]
    dsimp only
    split
    case isTrue hsmall =>
      refine ⟨[], d.seekdir s' (d.telldir s), by rw [List.append_nil], by simp [d.seek_tell, hrest], fun hroom => ?_⟩
      exact absurd (hroom e rfl) (Nat.not_le.mpr hsmall)
    case isFalse hfit =>
      rw [hrest] at h
      obtain ⟨hput, hroomy⟩ := h.resolve_left hfit
      have hpos := reclen_pos f e
      obtain ⟨l, s'', hloop, hl, -⟩ := ih (count - reclen f e) (by omega) (off + reclen f e) s'
        (out ++ [⟨e, d.telldir s'⟩]) (by rwa [hes])
      refine ⟨⟨e, d.telldir s'⟩ :: l, s'', ?_, ?_, fun _ hnil => by cases hnil⟩
      · rw [if_pos hput, hloop, List.append_assoc, List.singleton_append]
      · rw [List.map_cons, List.cons_append, hl, hes]

theorem getdentsLoop_fault (f : Format) (put : Nat → Nat → Bool) (off count : Nat) (s : σ) (out : List Record)
    (h : ¬ Roomy f put off count (d.rest s)) :
    ∃ s', getdentsLoop d.toDir f put off count s out = (.error efault, s') ∧
      (d.rest s').length < (d.rest s).length := by
  induction count using Nat.strongRecOn generalizing off s out with
  | _ count ih =>
  cases hrest : d.rest s with
  | nil => exact absurd (hrest ▸ trivial) h
  | cons e es =>
    obtain ⟨s', hread, hes⟩ := d.readdir_next s e es hrest
    rw [hrest, Roomy, not_or, not_and] at h
    obtain ⟨hfit, h⟩ := h
    rw [getdentsLoop, hread]
    dsimp only
    rw [if_neg hfit]
    split
    case isTrue hput =>
      have hpos := reclen_pos f e
      obtain ⟨s'', hloop, hlt⟩ := ih (count - reclen f e) (by omega) (off + reclen f e) s'
        (out ++ [⟨e, d.telldir s'⟩]) (by rw [hes]; exact h hput)
      refine ⟨s'', hloop, ?_⟩
      rw [hes] at hlt
      exact Nat.lt_succ_of_lt hlt
    case isFalse =>
      refine ⟨s', rfl, ?_⟩
      rw [hes]
      exact Nat.lt_succ_self _

theorem getdents_exact (c : Call) (s : σ) : Exact d c s ↔ Fine d c s := by
  unfold Exact Fine getdents
  by_cases hroomy : Roomy c.format c.put 0 c.count (d.rest s)
  · obtain ⟨l, s', hloop, hl, hempty⟩ := getdentsLoop_roomy d c.format c.put 0 c.count s [] hroomy
    rw [hloop]
    constructor
    · intro h
      refine ⟨fun e he => ?_, hroomy⟩
      -- a record that does not fit ends the loop at once
      by_contra hsmall
      cases hrest : d.rest s with
      | nil => simp [hrest] at he
      | cons e' es =>
        obtain rfl : e' = e := by simpa [hrest] using he
        obtain ⟨s₁, hread, -⟩ := d.readdir_next s e' es hrest
        rw [getdentsLoop, hread] at hloop
        dsimp only at hloop
        rw [if_pos (Nat.not_le.mp hsmall)] at hloop
        have hnil : [] ++ l = [] := (Except.ok.inj (Prod.mk.inj hloop).1).symm
        have := (h.1 _ _ rfl).2 hnil
        rw [hrest] at this
        cases this
    intro h
    refine ⟨fun out s₁ heq => ?_, fun e s₁ heq => by cases heq⟩
    cases heq
    exact ⟨hl, hempty h.1⟩
  obtain ⟨s', hloop, hlt⟩ := getdentsLoop_fault d c.format c.put 0 c.count s [] hroomy
  constructor
  · intro h
    rw [h.2 _ _ hloop] at hlt
    exact absurd hlt (Nat.lt_irrefl _)
  · intro h
    exact absurd h.2 hroomy

end Exact

/-! ## A run of calls -/

section Run

variable {σ : Type} (d : Positions σ)

/-- The directory, and the records of the calls that succeeded. -/
structure State (σ : Type) where
  dir : σ
  records : List Record

def step (s : State σ) (c : Call) : State σ :=
  match getdents d.toDir c s.dir with
  | (.ok out, s') => ⟨s', s.records ++ out⟩
  | (.error _, s') => ⟨s', s.records⟩

theorem step_exact {s : State σ} {c : Call} (h : Exact d c s.dir) :
    (step d s c).records.map Record.entry ++ d.rest (step d s c).dir = s.records.map Record.entry ++ d.rest s.dir := by
  unfold step
  split
  case h_1 out s' heq => rw [List.map_append, List.append_assoc, (h.1 out s' heq).1]
  case h_2 e s' heq => rw [h.2 e s' heq]

/-- **Over a run** the calls are exact exactly when each has room for the next entry and none faults; and then the
entries handed out, followed by those still to come, are the entries of the directory. -/
theorem getdents_run (s : σ) (cs : List Call) :
    (AllSteps (step d) (fun st c => Exact d c st.dir) ⟨s, []⟩ cs ↔
      AllSteps (step d) (fun st c => Fine d c st.dir) ⟨s, []⟩ cs) ∧
    (AllSteps (step d) (fun st c => Fine d c st.dir) ⟨s, []⟩ cs →
      (run (step d) ⟨s, []⟩ cs).records.map Record.entry ++ d.rest (run (step d) ⟨s, []⟩ cs).dir = d.rest s) := by
  have hiff : (fun (st : State σ) c => Exact d c st.dir) = fun st c => Fine d c st.dir := by
    funext st c
    exact propext (getdents_exact d c st.dir)
  refine ⟨by rw [hiff], fun hfine => ?_⟩
  have hstep : ∀ st c, st.records.map Record.entry ++ d.rest st.dir = d.rest s → Fine d c st.dir →
      (step d st c).records.map Record.entry ++ d.rest (step d st c).dir = d.rest s := fun st c hst hc =>
    (step_exact d ((getdents_exact d c st.dir).mpr hc)).trans hst
  exact run_invariant hstep rfl hfine

end Run

/-- A directory with the one name `a`. -/
def oneName : Positions (Option (Fin 1)) :=
  tmpfsPositions [(0, ⟨1, [97], 8, by decide⟩)] (List.pairwise_singleton _ _) (by simp)

/-- A buffer that is too small for the next record is answered like the end of the directory. -/
theorem getdents_small : ¬ ∀ (s : Option (Fin 1)) (cs : List Call),
    AllSteps (step oneName) (fun st c => Exact oneName c st.dir) ⟨s, []⟩ cs := by
  intro hall
  have hexact := (hall (some 0) [⟨.dirent64, 20, fun _ _ => true⟩]).1
  have hfine := ((getdents_exact oneName _ _).mp hexact).1 _ rfl
  exact absurd hfine (by decide)

end IosLinuxkit.Getdents
