import IosLinuxkit.Fs.Getdents
import IosLinuxkit.Kernel.PidTable
import Mathlib.Data.List.Induction

/-!
# The root of procfs

`proc_root_lookup` and `proc_root_readdir` of `fs/proc/root.c`, with what `proc_lookup` takes from them. A name is a list
of characters, without its NUL.

* **`lookup_enumerated`** — the lookup finds exactly what the enumeration prints.
-/

namespace IosLinuxkit.ProcRoot

open PidTable (Table maxPid pidGetTask)

/-- `pid_get_task(pid) != NULL` -/
def live (tb : Table) (pid : Nat) : Bool := ((pidGetTask tb (BitVec.ofNat 32 pid)).bind id).isSome

/-- `&proc_root_entries[i]` or `&proc_pid`. -/
inductive Meta
  | root (i : Nat)
  | pid
  deriving DecidableEq

structure ProcEntry where
  entry : Meta
  index : Nat
  pid : Nat
  deriving DecidableEq

def rootEntries : List (List Char) :=
  ["cpuinfo".toList, "ish".toList, "meminfo".toList, "mounts".toList, "net".toList, "self".toList, "stat".toList,
    "uptime".toList, "version".toList]

def rootLen : Nat := 9

def digitOf (c : Char) : Nat := c.toNat - '0'.toNat

/-- The loop over the digits. -/
def parsePid : Nat → List Char → Option Nat
  | pid, [] => some pid
  | pid, c :: p =>
    if c < '0' ∨ '9' < c ∨ (maxPid - digitOf c) / 10 < pid then none else parsePid (pid * 10 + digitOf c) p

/-- The test of `name[0]`, which is NUL in an empty name. -/
def leads (name : List Char) : Bool := name.head?.any fun c => !(c < '1') && !('9' < c)

def rootLookup (tb : Table) (name : List Char) : Option ProcEntry :=
  match rootEntries.findIdx? (· == name) with
  | some i => some ⟨.root i, i, 0⟩
  | none =>
    if leads name then
      (parsePid 0 name).bind fun pid => if live tb pid then some ⟨.pid, pid + rootLen - 1, pid⟩ else none
    else none

/-- `proc_root_readdir`: an entry, and the index behind it. -/
def rootReaddir (tb : Table) (index : Nat) : Option (ProcEntry × Nat) :=
  if index < rootLen then some (⟨.root index, index, 0⟩, index + 1)
  else (Getdents.nextPid (live tb) (maxPid - (index - rootLen)) (index - rootLen)).map fun pid =>
    (⟨.pid, 0, pid⟩, pid + rootLen)

/-- `proc_entry_getname`, with the `%d` of `proc_pid_getname`. -/
def getname (e : ProcEntry) : List Char :=
  match e.entry with
  | .root i => rootEntries.getD i []
  | .pid => Nat.toDigits 10 e.pid

/-- All entries from an index on, if `fuel` calls come to the end. -/
def enumerate (tb : Table) : Nat → Nat → Option (List (ProcEntry × Nat))
  | 0, _ => none
  | fuel + 1, index =>
    match rootReaddir tb index with
    | none => some []
    | some x => (enumerate tb fuel x.2).map (x :: ·)

/-- Kind, pid and the index that the inode number is made of, as `proc_lookup` sets it for a name in the root. -/
def looked (tb : Table) (name : List Char) : Option (Meta × Nat × Nat) :=
  (rootLookup tb name).map fun e => (e.entry, e.pid, e.index + 1)

/-- The same of an entry that was enumerated. -/
def seen (x : ProcEntry × Nat) : Meta × Nat × Nat := (x.1.entry, x.1.pid, x.2)

/-- A task that is alive; no task has the pid 0. -/
def Alive (tb : Table) (pid : Nat) : Prop := 1 ≤ pid ∧ pid ≤ maxPid ∧ live tb pid = true

instance (tb : Table) (pid : Nat) : Decidable (Alive tb pid) := inferInstanceAs (Decidable (_ ∧ _))

/-! ## Decimal names -/

variable {tb : Table} {name l : List Char} {c : Char} {n pid q : Nat}

theorem digitOf_digitChar : ∀ d < 10, '0' ≤ Nat.digitChar d ∧ Nat.digitChar d ≤ '9' ∧ digitOf (Nat.digitChar d) = d ∧
    (1 ≤ d → '1' ≤ Nat.digitChar d) := by
  decide

theorem digitChar_digitOf (h0 : '0' ≤ c) (h9 : c ≤ '9') : digitOf c < 10 ∧ Nat.digitChar (digitOf c) = c := by
  have hlo : 48 ≤ c.toNat := h0
  have hhi : c.toNat ≤ 57 := h9
  have hlt : digitOf c < 10 := by
    show c.toNat - 48 < 10
    omega
  refine ⟨hlt, Char.toNat_inj.mp ?_⟩
  have hsame : ∀ d < 10, (Nat.digitChar d).toNat = 48 + d := by decide
  rw [hsame _ hlt]
  show 48 + (c.toNat - 48) = c.toNat
  omega

theorem parsePid_digit : parsePid q [c] = some n ↔ ∃ d < 10, c = Nat.digitChar d ∧ n = q * 10 + d ∧ n ≤ maxPid := by
  unfold parsePid maxPid
  constructor
  · intro h
    split at h
    case isTrue => cases h
    case isFalse hc =>
      simp only [not_or, Char.not_lt, Nat.not_lt] at hc
      obtain ⟨h0, h9, hq⟩ := hc
      obtain ⟨hlt, hchar⟩ := digitChar_digitOf h0 h9
      have hn : q * 10 + digitOf c = n := Option.some.inj h
      exact ⟨digitOf c, hlt, hchar.symm, hn.symm, by omega⟩
  rintro ⟨d, hd, rfl, rfl, hle⟩
  obtain ⟨h0, h9, hdig, -⟩ := digitOf_digitChar d hd
  rw [hdig, if_neg, parsePid]
  simp only [not_or, Char.not_lt, Nat.not_lt]
  exact ⟨h0, h9, by omega⟩

theorem parsePid_append (q : Nat) (l m : List Char) :
    parsePid q (l ++ m) = (parsePid q l).bind fun q => parsePid q m := by
  induction l generalizing q with
  | nil => rfl
  | cons c l ih =>
    rw [List.cons_append, parsePid, parsePid]
    split
    case isTrue => rfl
    case isFalse => exact ih _

theorem parsePid_toDigits (h : n ≤ maxPid) : parsePid 0 (Nat.toDigits 10 n) = some n := by
  induction n using Nat.strongRecOn with
  | ind n ih =>
    rw [Nat.toDigits_eq_if (by decide)]
    split
    case isTrue hlt => exact parsePid_digit.mpr ⟨n, hlt, rfl, by omega, h⟩
    case isFalse hge =>
      rw [parsePid_append, ih (n / 10) (by omega) (by omega)]
      exact parsePid_digit.mpr ⟨n % 10, by omega, rfl, by omega, h⟩

theorem leads_toDigits (h : 1 ≤ n) : leads (Nat.toDigits 10 n) = true := by
  induction n using Nat.strongRecOn with
  | ind n ih =>
    rw [Nat.toDigits_eq_if (by decide)]
    split
    case isTrue hlt =>
      obtain ⟨-, h9, -, h1⟩ := digitOf_digitChar n hlt
      simp [leads, h1 h, h9]
    case isFalse hge =>
      have hhead := ih (n / 10) (by omega) (by omega)
      unfold leads at hhead ⊢
      rw [List.head?_append]
      cases hd : (Nat.toDigits 10 (n / 10)).head? with
      | none => simp [hd] at hhead
      | some c => rwa [hd] at hhead

theorem toDigits_of_parsePid (hlead : leads name = true) (h : parsePid 0 name = some n) :
    name = Nat.toDigits 10 n ∧ 1 ≤ n ∧ n ≤ maxPid := by
  induction name using List.reverseRecOn generalizing n with
  | nil => cases hlead
  | append_singleton l c ih =>
    rw [parsePid_append] at h
    obtain ⟨q, hq, hc⟩ := Option.bind_eq_some_iff.mp h
    obtain ⟨d, hd, rfl, rfl, hle⟩ := parsePid_digit.mp hc
    rw [Nat.toDigits_eq_if (by decide)]
    cases l with
    | nil =>
      obtain rfl : 0 = q := Option.some.inj hq
      have hpos : d ≠ 0 := by
        rintro rfl
        cases hlead
      rw [Nat.zero_mul, Nat.zero_add, if_pos hd] at *
      exact ⟨rfl, by omega, hle⟩
    | cons c l =>
      obtain ⟨hl, hq1, -⟩ := ih hlead hq
      rw [if_neg (by omega), show (q * 10 + d) / 10 = q from by omega, show (q * 10 + d) % 10 = d from by omega, ← hl]
      exact ⟨rfl, by omega, hle⟩

/-! ## Both ways to an entry -/

theorem rootLookup_iff {e : ProcEntry} : rootLookup tb name = some e ↔
    (∃ i < rootLen, rootEntries.getD i [] = name ∧ e = ⟨.root i, i, 0⟩) ∨
      ∃ pid, Alive tb pid ∧ Nat.toDigits 10 pid = name ∧ e = ⟨.pid, pid + rootLen - 1, pid⟩ := by
  have hstatic : ∀ i < rootLen, rootEntries.findIdx? (· == rootEntries.getD i []) = some i ∧
      leads (rootEntries.getD i []) = false := by decide
  unfold rootLookup
  cases hfind : rootEntries.findIdx? (· == name) with
  | some i =>
    obtain ⟨hi, hname, -⟩ := List.findIdx?_eq_some_iff_getElem.mp hfind
    have hget : rootEntries.getD i [] = name := by
      simpa [List.getD, hi] using eq_of_beq hname
    constructor
    · intro h
      exact .inl ⟨i, hi, hget, (Option.some.inj h).symm⟩
    rintro (⟨j, hj, hjn, rfl⟩ | ⟨pid, hlive, hpid, -⟩)
    · have hij := (hstatic j hj).1
      rw [hjn, hfind] at hij
      rw [Option.some.inj hij]
    · have hno := (hstatic i hi).2
      rw [hget, ← hpid, leads_toDigits hlive.1] at hno
      cases hno
  | none =>
    dsimp only
    constructor
    · intro h
      split at h
      case isFalse => cases h
      case isTrue hlead =>
        obtain ⟨pid, hpid, h⟩ := Option.bind_eq_some_iff.mp h
        split at h
        case isFalse => cases h
        case isTrue hlive =>
          obtain ⟨hname, h1, hle⟩ := toDigits_of_parsePid hlead hpid
          exact .inr ⟨pid, ⟨h1, hle, hlive⟩, hname.symm, (Option.some.inj h).symm⟩
    rintro (⟨j, hj, rfl, -⟩ | ⟨pid, ⟨h1, hle, hlive⟩, rfl, rfl⟩)
    · rw [(hstatic j hj).1] at hfind
      cases hfind
    · rw [if_pos (leads_toDigits h1), parsePid_toDigits hle, Option.bind_some, if_pos hlive]

/-- The pids in use from one on, as `readdir` returns them. -/
def pidItems (tb : Table) (pid n : Nat) : List (ProcEntry × Nat) :=
  ((List.range' pid n).filter (live tb)).map fun pid => (⟨.pid, 0, pid⟩, pid + rootLen)

theorem enumerate_pids {fuel : Nat} (h : maxPid - pid < fuel) :
    enumerate tb fuel (pid + rootLen) = some (pidItems tb (pid + 1) (maxPid - pid)) := by
  induction fuel generalizing pid with
  | zero => omega
  | succ fuel ih =>
    have hnext := Getdents.pidsFrom_next (fun p => ⟨p, [], 0, by decide⟩) (live tb) (maxPid - pid) pid
    -- the entries stand for their pids
    have hback : ∀ n p, (Getdents.pidsFrom (fun p => ⟨p, [], 0, by decide⟩) (live tb) n p).map
        (fun e => ((⟨.pid, 0, e.inode⟩, e.inode + rootLen) : ProcEntry × Nat)) = pidItems tb (p + 1) n := by
      intro n p
      simp [Getdents.pidsFrom, pidItems]
    rw [enumerate, rootReaddir, if_neg (by omega), Nat.add_sub_cancel, ← hback]
    cases hp : Getdents.nextPid (live tb) (maxPid - pid) pid with
    | none =>
      rw [hnext.1 hp]
      rfl
    | some p =>
      obtain ⟨hlt, hle, heq⟩ := hnext.2 p hp
      rw [heq, List.map_cons, hback, show pid + (maxPid - pid) - p = maxPid - p from by omega]
      show (enumerate tb fuel (p + rootLen)).map _ = _
      rw [ih (by omega)]
      rfl

/-- What `readdir` returns from index 0 on. -/
def listing (tb : Table) : List (ProcEntry × Nat) :=
  (List.range rootLen).map (fun i => (⟨.root i, i, 0⟩, i + 1)) ++ pidItems tb 1 maxPid

theorem enumerate_listing : enumerate tb (rootLen + (maxPid + 1)) 0 = some (listing tb) := by
  have hpids : enumerate tb (maxPid + 1) rootLen = _ := @enumerate_pids tb 0 _ (by omega)
  have hroot : ∀ fuel, enumerate tb (fuel + 9) 0 =
      (enumerate tb fuel rootLen).map ((List.range rootLen).map (fun i => (⟨.root i, i, 0⟩, i + 1)) ++ ·) := by
    intro fuel
    cases h : enumerate tb fuel rootLen <;> simp [enumerate, rootReaddir, rootLen, List.range_succ] at h ⊢ <;> simp [h]
  rw [Nat.add_comm]
  show enumerate tb (maxPid + 1 + 9) 0 = _
  rw [hroot, hpids]
  rfl

theorem mem_pidItems {x : ProcEntry × Nat} :
    x ∈ pidItems tb 1 maxPid ↔ ∃ pid, Alive tb pid ∧ x = (⟨.pid, 0, pid⟩, pid + rootLen) := by
  simp only [pidItems, List.mem_map, List.mem_filter, List.mem_range'_1, Alive]
  constructor
  · rintro ⟨pid, ⟨⟨h1, hlt⟩, hlive⟩, rfl⟩
    exact ⟨pid, ⟨h1, by omega, hlive⟩, rfl⟩
  · rintro ⟨pid, ⟨h1, hle, hlive⟩, rfl⟩
    exact ⟨pid, ⟨⟨h1, by omega⟩, hlive⟩, rfl⟩

/-- **Lookup is enumeration.** The enumeration ends; a name is found exactly if an entry that it returns is printed so,
and what is found is that entry; and each task that is alive comes once. -/
theorem lookup_enumerated (tb : Table) : ∃ fuel es, enumerate tb fuel 0 = some es ∧
    (∀ name r, looked tb name = some r ↔ ∃ x ∈ es, getname x.1 = name ∧ seen x = r) ∧
    ∀ pid, es.countP (fun x => x.1.entry = .pid ∧ x.1.pid = pid) = if Alive tb pid then 1 else 0 := by
  refine ⟨_, _, enumerate_listing, ?_, ?_⟩
  · intro name r
    simp only [looked, Option.map_eq_some_iff, rootLookup_iff, listing, List.mem_append, List.mem_map, List.mem_range,
      mem_pidItems]
    constructor
    · rintro ⟨e, ⟨i, hi, hname, rfl⟩ | ⟨pid, hpid, hname, rfl⟩, rfl⟩
      · exact ⟨_, .inl ⟨i, hi, rfl⟩, hname, rfl⟩
      · refine ⟨_, .inr ⟨pid, hpid, rfl⟩, hname, ?_⟩
        show (Meta.pid, pid, pid + 9) = (Meta.pid, pid, pid + 9 - 1 + 1)
        rfl
    · rintro ⟨x, ⟨i, hi, rfl⟩ | ⟨pid, hpid, rfl⟩, hname, rfl⟩
      · exact ⟨_, .inl ⟨i, hi, hname, rfl⟩, rfl⟩
      · exact ⟨_, .inr ⟨pid, hpid, hname, rfl⟩, rfl⟩
  intro pid
  have hroot : ((List.range rootLen).map fun i => ((⟨.root i, i, 0⟩, i + 1) : ProcEntry × Nat)).countP
      (fun x => x.1.entry = .pid ∧ x.1.pid = pid) = 0 := by
    rw [List.countP_eq_zero]
    simp
  have hpids : (pidItems tb 1 maxPid).countP (fun x => x.1.entry = .pid ∧ x.1.pid = pid) =
      ((List.range' 1 maxPid).filter (live tb)).count pid := by
    rw [pidItems, List.countP_map, List.count]
    congr 1
    funext p
    simp
    rfl
  rw [listing, List.countP_append, hroot, hpids, Nat.zero_add]
  have hnodup : ((List.range' 1 maxPid).filter (live tb)).Nodup := (List.nodup_range' 1).filter _
  rw [hnodup.count]
  have halive : pid ∈ (List.range' 1 maxPid).filter (live tb) ↔ Alive tb pid := by
    rw [List.mem_filter, List.mem_range'_1, Nat.add_comm, Nat.lt_succ_iff]
    exact and_assoc
  exact if_congr halive rfl rfl

end IosLinuxkit.ProcRoot
