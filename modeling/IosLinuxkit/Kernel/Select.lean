import IosLinuxkit.Kernel.Poll
import Mathlib.Algebra.Ring.Nat

/-!
# `select`

`kernel/poll.c`: `select_common` registers each descriptor that is in one of its sets, and sets the bits of the
output in the callback of `poll_wait`.

* **`poll_select_iff`** — when `poll` and `select` report exactly.

A set is the list of its bits. That `nfds` is not negative is not checked by the source, and taken for granted;
a descriptor that is closed during the call is one that is never ready.
-/

namespace IosLinuxkit.Kernel.Poll

open IosLinuxkit.Fs.Poll

def eBADF : Int := -9

def selectRead : Types := pollRead ||| pollHup ||| pollErr
def selectWrite : Types := pollWrite ||| pollErr
def selectEx : Types := pollPri

/-- `struct select_context` -/
structure FdSets where
  readfds : List Bool
  writefds : List Bool
  exceptfds : List Bool
  deriving DecidableEq

/-- The arguments of `select`, with the bits of the sets whose addresses are not 0. -/
structure Request where
  nfds : Nat
  nfds_lt : nfds < 2147483648
  readfds : Option (List Bool)
  writefds : Option (List Bool)
  exceptfds : Option (List Bool)

def bitTest (set : List Bool) (i : Nat) : Bool := set.getD i false

def bitSet (set : List Bool) (i : Nat) : List Bool := set.set i true

/-- The bits of `BITS_SIZE(nfds)` bytes. -/
def zeros (nfds : Nat) : List Bool := List.replicate (8 * ((nfds - 1) / 8 + 1)) false

/-- `user_read_or_zero` -/
def readOrZero (nfds : Nat) (set : Option (List Bool)) : List Bool := set.getD (zeros nfds)

def selectEventCallback (c : FdSets) (types : Types) (info : BitVec 64) : Int × FdSets :=
  let c := if types &&& selectRead ≠ 0#32 then { c with readfds := bitSet c.readfds info.toNat } else c
  let c := if types &&& selectWrite ≠ 0#32 then { c with writefds := bitSet c.writefds info.toNat } else c
  let c := if types &&& selectEx ≠ 0#32 then { c with exceptfds := bitSet c.exceptfds info.toNat } else c
  (if types &&& (selectRead ||| selectWrite ||| selectEx) = 0#32 then 0 else 1, c)

def Request.sets (req : Request) : FdSets :=
  ⟨readOrZero req.nfds req.readfds, readOrZero req.nfds req.writefds, readOrZero req.nfds req.exceptfds⟩

/-- `events` of a descriptor. -/
def FdSets.events (sets : FdSets) (i : Nat) : Types :=
  (if bitTest sets.readfds i then selectRead else 0#32) |||
    (if bitTest sets.writefds i then selectWrite else 0#32) |||
    (if bitTest sets.exceptfds i then selectEx else 0#32)

/-- The loop over the descriptors, which ends at the first that is not open. -/
def selectAdd (table : List (Option (BitVec 64))) (sets : FdSets) (adds : BitVec 64 → Bool) :
    List PollFd → List Nat → Option (List PollFd)
  | fds, [] => some fds
  | fds, i :: is =>
    let events := sets.events i
    if events ≠ 0#32 then
      match fGet table i with
      | none => none
      | some file =>
        let info := BitVec.ofNat 64 i
        selectAdd table sets adds (pollAddFd fds i file.toNat i events info (adds info)) is
    else selectAdd table sets adds fds is

/-- The sets that are written in the end. -/
structure Written where
  readfds : Option (List Bool)
  writefds : Option (List Bool)
  exceptfds : Option (List Bool)
  deriving DecidableEq

def Request.written (req : Request) (c : FdSets) : Written :=
  ⟨req.readfds.map fun _ => c.readfds, req.writefds.map fun _ => c.writefds, req.exceptfds.map fun _ => c.exceptfds⟩

def selectCommon (table : List (Option (BitVec 64))) (req : Request) (env : Env) (rounds : List Round) :
    Outcome Written :=
  if ¬env.readable then .fails eFAULT
  else
    match env.created with
    | some err => .fails err
    | none =>
      match selectAdd table req.sets env.adds [] (List.range req.nfds) with
      | none => .fails eBADF
      | some fds =>
        let cleared : FdSets := ⟨zeros req.nfds, zeros req.nfds, zeros req.nfds⟩
        conclude env.written req.written (pollWait selectEventCallback env.pipe cleared fds rounds)

/-! ## What a call ought to do -/

def bits (set : Option (List Bool)) : Nat := (set.getD []).countP id

def Written.bits (out : Written) : Nat :=
  Poll.bits out.readfds + Poll.bits out.writefds + Poll.bits out.exceptfds

/-- Each bit of a set that is written was set in the set that was read. -/
def Subset (set out : Option (List Bool)) : Prop :=
  ∀ i, bitTest (out.getD []) i = true → bitTest (set.getD []) i = true

def BadFd (table : List (Option (BitVec 64))) (req : Request) : Prop :=
  ∃ i < req.nfds, req.sets.events i ≠ 0#32 ∧ fGet table i = none

/-- The call returns the number of bits that it sets, all of which were set before, and does not wait if there is
a descriptor that is not open. -/
structure SelectExactly (table : List (Option (BitVec 64))) (req : Request) (env : Env) (outcome : Outcome Written) :
    Prop where
  count : ∀ n res out, outcome = .returns n res out → res = out.bits
  subset : ∀ n res out, outcome = .returns n res out →
    Subset req.readfds out.readfds ∧ Subset req.writefds out.writefds ∧ Subset req.exceptfds out.exceptfds
  atOnce : BadFd table req → env.readable = true → env.created = none → outcome = .fails eBADF

/-! ## When it does -/

def watched (req : Request) (adds : BitVec 64 → Bool) : List Nat :=
  (List.range req.nfds).filter fun i => req.sets.events i ≠ 0#32 ∧ adds (BitVec.ofNat 64 i)

/-- What is ready of a descriptor, of what its registration asks for. -/
def has (req : Request) (ready : Nat → Types) (i : Nat) : Types :=
  ready i &&& (req.sets.events i ||| pollHup ||| pollErr)

/-- Something is ready that sets a bit, in a set that is given. -/
def hit (set : Option (List Bool)) (mask types : Types) : Bool := set.isSome && types &&& mask ≠ 0#32

def hits (req : Request) (ready : Nat → Types) (i : Nat) : Nat :=
  (hit req.readfds selectRead (has req ready i)).toNat + (hit req.writefds selectWrite (has req ready i)).toNat +
    (hit req.exceptfds selectEx (has req ready i)).toNat

/-- No descriptor has an error or hangs up that is not in the set for it, and the descriptors that are ready in
more than one set are, counted without the first, as many as those that are ready in none. -/
structure Plain (req : Request) (adds : BitVec 64 → Bool) (ready : Nat → Types) : Prop where
  read : req.readfds ≠ none → ∀ i ∈ watched req adds, bitTest req.sets.readfds i = false →
    ready i &&& (pollHup ||| pollErr) = 0#32
  write : req.writefds ≠ none → ∀ i ∈ watched req adds, bitTest req.sets.writefds i = false →
    ready i &&& pollErr = 0#32
  balance : ((watched req adds).map fun i => hits req ready i - 1).sum =
    (watched req adds).countP fun i => has req ready i ≠ 0#32 ∧ hits req ready i = 0

/-- In the first round in which something is ready, the descriptors are plain. -/
def FirstPlain (req : Request) (adds : BitVec 64 → Bool) : List Round → Prop
  | [] => True
  | round :: rounds =>
    ((∃ i ∈ watched req adds, has req round.ready i ≠ 0#32) → Plain req adds round.ready) ∧
      ((¬∃ i ∈ watched req adds, has req round.ready i ≠ 0#32) → round.next = .again → FirstPlain req adds rounds)

def SelectFine (table : List (Option (BitVec 64))) (req : Request) (env : Env) (rounds : List Round) : Prop :=
  env.Refuses ∨ BadFd table req ∨ FirstPlain req env.adds rounds

variable {req : Request} {adds : BitVec 64 → Bool} {ready : Nat → Types} {fds fds' : List PollFd} {r : PollFd}
  {table : List (Option (BitVec 64))} {set out : Option (List Bool)} {s : List Bool} {mask types : Types} {i : Nat}
  {is : List Nat}

/-! ## Registration -/

structure Watch (req : Request) (r : PollFd) : Prop where
  info : r.info = BitVec.ofNat 64 r.key
  offered : ∀ types, r.offered types = types &&& (req.sets.events r.key ||| pollHup ||| pollErr)

structure Watching (req : Request) (adds : BitVec 64 → Bool) (fds : List PollFd) : Prop where
  watch : ∀ r ∈ fds, Watch req r
  keys : fds.map PollFd.key = (watched req adds).reverse

theorem offered_new (key fd : Nat) (fdNo : Int) (types : Types) (info : BitVec 64) (ready : Types) :
    (⟨key, fd, fdNo, types, info, 0#32, false, false, 0#32⟩ : PollFd).offered ready =
      ready &&& (types ||| pollHup ||| pollErr) := by
  rw [PollFd.offered, if_neg Bool.false_ne_true]
  dsimp only
  split
  · rw [BitVec.not_zero, BitVec.and_allOnes]
  · rfl

theorem selectAdd_none (h : selectAdd table req.sets adds fds is = none) :
    ∃ i ∈ is, req.sets.events i ≠ 0#32 ∧ fGet table i = none := by
  induction is generalizing fds with
  | nil => cases h
  | cons i is ih =>
    have hrest (hex : ∃ i ∈ is, req.sets.events i ≠ 0#32 ∧ fGet table i = none) :
        ∃ j ∈ i :: is, req.sets.events j ≠ 0#32 ∧ fGet table j = none := by
      obtain ⟨j, hj, hbad⟩ := hex
      exact ⟨j, List.mem_cons_of_mem i hj, hbad⟩
    rw [selectAdd] at h
    dsimp only at h
    split at h
    case isTrue hevents =>
      split at h
      case h_1 hfd => exact ⟨i, List.mem_cons_self, hevents, hfd⟩
      case h_2 => exact hrest (ih h)
    case isFalse => exact hrest (ih h)

theorem watch_add (hwatch : ∀ r ∈ fds, Watch req r) (hnew : i ∉ fds.map PollFd.key) (fd : Nat) (ok : Bool) :
    (∀ r ∈ pollAddFd fds i fd i (req.sets.events i) (BitVec.ofNat 64 i) ok, Watch req r) ∧
      (pollAddFd fds i fd i (req.sets.events i) (BitVec.ofNat 64 i) ok).map PollFd.key =
        (if ok then [i] else []) ++ fds.map PollFd.key := by
  unfold pollAddFd
  cases ok with
  | false =>
    rw [if_neg (by simp)]
    exact ⟨hwatch, rfl⟩
  | true =>
    rw [if_pos ⟨rfl, hnew⟩]
    exact ⟨List.forall_mem_cons.mpr ⟨⟨rfl, offered_new i fd i _ _⟩, hwatch⟩, rfl⟩

theorem selectAdd_some (h : selectAdd table req.sets adds fds is = some fds') (hnodup : is.Nodup)
    (hfresh : ∀ i ∈ is, i ∉ fds.map PollFd.key) (hwatch : ∀ r ∈ fds, Watch req r) :
    (∀ i ∈ is, req.sets.events i ≠ 0#32 → fGet table i ≠ none) ∧ (∀ r ∈ fds', Watch req r) ∧
      fds'.map PollFd.key =
        (is.filter fun i => req.sets.events i ≠ 0#32 ∧ adds (BitVec.ofNat 64 i)).reverse ++ fds.map PollFd.key := by
  induction is generalizing fds with
  | nil =>
    cases h
    exact ⟨fun i hi => absurd hi List.not_mem_nil, hwatch, rfl⟩
  | cons i is ih =>
    obtain ⟨hi, hnodup⟩ := List.nodup_cons.mp hnodup
    obtain ⟨hnew, hfresh⟩ := List.forall_mem_cons.mp hfresh
    rw [selectAdd] at h
    dsimp only at h
    rw [List.filter_cons]
    split at h
    case isTrue hevents =>
      split at h
      case h_1 => cases h
      case h_2 file hfd =>
        obtain ⟨hwatch', hkeys⟩ := watch_add hwatch hnew file.toNat (adds (BitVec.ofNat 64 i))
        have hfresh' : ∀ j ∈ is, j ∉ (pollAddFd fds i file.toNat i (req.sets.events i) (BitVec.ofNat 64 i)
            (adds (BitVec.ofNat 64 i))).map PollFd.key := by
          intro j hj hmem
          rw [hkeys] at hmem
          obtain hmem | hmem := List.mem_append.mp hmem
          · split at hmem
            · exact hi (List.mem_singleton.mp hmem ▸ hj)
            · exact absurd hmem List.not_mem_nil
          · exact hfresh j hj hmem
        obtain ⟨hopen, hall, hmap⟩ := ih h hnodup hfresh' hwatch'
        refine ⟨List.forall_mem_cons.mpr ⟨fun _ => by rw [hfd]; exact Option.some_ne_none file, hopen⟩, hall, ?_⟩
        rw [hmap, hkeys]
        cases hadds : adds (BitVec.ofNat 64 i) with
        | false => simp
        | true => simp [hevents]
    case isFalse hevents =>
      obtain ⟨hopen, hall, hmap⟩ := ih h hnodup hfresh hwatch
      refine ⟨List.forall_mem_cons.mpr ⟨fun hne => absurd hne hevents, hopen⟩, hall, ?_⟩
      rw [hmap, if_neg (by simp [Classical.not_not.mp hevents])]

theorem selectAdd_spec (h : selectAdd table req.sets adds [] (List.range req.nfds) = some fds) :
    ¬BadFd table req ∧ Watching req adds fds := by
  obtain ⟨hopen, hwatch, hkeys⟩ := selectAdd_some h List.nodup_range (fun i _ => List.not_mem_nil)
    fun r hr => absurd hr List.not_mem_nil
  refine ⟨?_, hwatch, by rw [hkeys, List.map_nil, List.append_nil]; rfl⟩
  rintro ⟨i, hi, hevents, hfd⟩
  exact hopen i (List.mem_range.mpr hi) hevents hfd

/-! ## Bits of the sets -/

def mark (mask : Types) (ready : Nat → Types) (s : List Bool) (r : PollFd) : List Bool :=
  if r.offered (ready r.key) &&& mask ≠ 0#32 then bitSet s r.info.toNat else s

theorem visit_select (ready : Nat → Types) (c : FdSets) (r : PollFd) :
    visit selectEventCallback ready c r =
      ⟨mark selectRead ready c.readfds r, mark selectWrite ready c.writefds r, mark selectEx ready c.exceptfds r⟩ := by
  unfold visit mark selectEventCallback
  split
  case isTrue hzero => simp [hzero]
  case isFalse =>
    -- one case for each of the bits
    dsimp only
    split <;> split <;> split <;> rfl

theorem foldl_select (ready : Nat → Types) (c : FdSets) (fds : List PollFd) :
    fds.foldl (visit selectEventCallback ready) c =
      ⟨fds.foldl (mark selectRead ready) c.readfds, fds.foldl (mark selectWrite ready) c.writefds,
        fds.foldl (mark selectEx ready) c.exceptfds⟩ := by
  induction fds generalizing c with
  | nil => rfl
  | cons r fds ih => rw [List.foldl_cons, visit_select, ih, List.foldl_cons, List.foldl_cons, List.foldl_cons]

theorem bitTest_bitSet {j : Nat} (hlt : i < s.length) : bitTest (bitSet s i) j = (decide (i = j) || bitTest s j) := by
  rw [bitTest, bitSet, bitTest, List.getD_eq_getElem?_getD, List.getElem?_set, List.getD_eq_getElem?_getD]
  by_cases heq : i = j
  · rw [if_pos heq, if_pos hlt]
    simp [heq]
  · rw [if_neg heq]
    simp [heq]

theorem bitTest_foldl (hin : ∀ r ∈ fds, r.info.toNat < s.length) (i : Nat) :
    bitTest (fds.foldl (mark mask ready) s) i = true ↔
      bitTest s i = true ∨ ∃ r ∈ fds, r.info.toNat = i ∧ r.offered (ready r.key) &&& mask ≠ 0#32 := by
  induction fds generalizing s with
  | nil => simp
  | cons r fds ih =>
    obtain ⟨hlt, hin⟩ := List.forall_mem_cons.mp hin
    rw [List.foldl_cons]
    simp only [List.mem_cons, exists_eq_or_imp]
    rw [mark]
    split
    case isTrue hset =>
      rw [ih (by simpa [bitSet] using hin), bitTest_bitSet hlt, Bool.or_eq_true, decide_eq_true_iff, and_iff_left hset,
        or_comm (b := bitTest s i = true), or_assoc]
    case isFalse hno =>
      rw [ih hin]
      simp only [hno, and_false, false_or]

theorem countP_foldl (hnodup : (fds.map fun r => r.info.toNat).Nodup) (hin : ∀ r ∈ fds, r.info.toNat < s.length)
    (hclear : ∀ r ∈ fds, bitTest s r.info.toNat = false) :
    (fds.foldl (mark mask ready) s).countP id =
      s.countP id + fds.countP fun r => r.offered (ready r.key) &&& mask ≠ 0#32 := by
  induction fds generalizing s with
  | nil => rfl
  | cons r fds ih =>
    obtain ⟨hlt, hin⟩ := List.forall_mem_cons.mp hin
    obtain ⟨hzero, hclear⟩ := List.forall_mem_cons.mp hclear
    obtain ⟨hfresh, hnodup⟩ := List.nodup_cons.mp hnodup
    rw [List.foldl_cons, List.countP_cons, mark]
    split
    case isTrue hset =>
      have hrest : ∀ x ∈ fds, bitTest (bitSet s r.info.toNat) x.info.toNat = false := by
        intro x hx
        rw [bitTest_bitSet hlt, hclear x hx, Bool.or_false, decide_eq_false_iff_not]
        intro heq
        exact hfresh (List.mem_map.mpr ⟨x, hx, heq.symm⟩)
      have hone : (bitSet s r.info.toNat).countP id = s.countP id + 1 := by
        have hget : s[r.info.toNat] = false := by
          rw [bitTest, List.getD_eq_getElem?_getD, List.getElem?_eq_getElem hlt] at hzero
          exact hzero
        rw [bitSet, List.countP_set hlt, hget]
        rfl
      rw [ih hnodup (by simpa [bitSet] using hin) hrest, hone, if_pos (decide_eq_true hset)]
      omega
    case isFalse hno =>
      rw [ih hnodup hin hclear, if_neg (by simpa using hno)]
      rfl

/-! ## A scan -/

theorem Watching.key (h : Watching req adds fds) (hr : r ∈ fds) : r.key ∈ watched req adds := by
  have hmem : r.key ∈ fds.map PollFd.key := List.mem_map_of_mem hr
  rwa [h.keys, List.mem_reverse] at hmem

theorem watched_lt (hi : i ∈ watched req adds) : i < req.nfds := List.mem_range.mp (List.mem_filter.mp hi).1

theorem Watching.info (h : Watching req adds fds) (hr : r ∈ fds) : r.info.toNat = r.key := by
  have hlt := watched_lt (h.key hr)
  have hnfds := req.nfds_lt
  rw [(h.watch r hr).info, BitVec.toNat_ofNat, Nat.mod_eq_of_lt (by omega)]

theorem Watching.offered (h : Watching req adds fds) (hr : r ∈ fds) : r.offered (ready r.key) = has req ready r.key :=
  (h.watch r hr).offered _

theorem length_zeros {n : Nat} (hlt : i < n) : i < (zeros n).length := by
  rw [zeros, List.length_replicate]
  omega

theorem bitTest_zeros (n i : Nat) : bitTest (zeros n) i = false := by
  rw [bitTest, zeros, List.getD_eq_getElem?_getD, List.getElem?_replicate]
  split
  · rfl
  · rfl

theorem Watching.countP (h : Watching req adds fds) {p : PollFd → Bool} {q : Nat → Bool}
    (hpq : ∀ r ∈ fds, p r = q r.key) : fds.countP p = (watched req adds).countP q := by
  rw [List.countP_congr (fun r hr => by rw [hpq r hr]; exact Iff.rfl : ∀ r ∈ fds, p r = true ↔ (q ∘ PollFd.key) r = true),
    ← List.countP_map, h.keys, List.countP_reverse]

theorem Watching.bitTest (h : Watching req adds fds) (ready : Nat → Types) (mask : Types) (i : Nat) :
    bitTest (fds.foldl (mark mask ready) (zeros req.nfds)) i = true ↔
      i ∈ watched req adds ∧ has req ready i &&& mask ≠ 0#32 := by
  rw [bitTest_foldl fun r hr => by rw [h.info hr]; exact length_zeros (watched_lt (h.key hr)), bitTest_zeros]
  constructor
  · rintro (hc | ⟨r, hr, rfl, hset⟩)
    · cases hc
    rw [h.offered hr] at hset
    rw [h.info hr]
    exact ⟨h.key hr, hset⟩
  rintro ⟨hi, hset⟩
  rw [← List.mem_reverse, ← h.keys] at hi
  obtain ⟨r, hr, rfl⟩ := List.mem_map.mp hi
  exact Or.inr ⟨r, hr, h.info hr, by rw [h.offered hr]; exact hset⟩

theorem Watching.count (h : Watching req adds fds) (mask : Types) :
    (fds.foldl (mark mask ready) (zeros req.nfds)).countP id =
      (watched req adds).countP fun i => has req ready i &&& mask ≠ 0#32 := by
  have hnodup : (fds.map fun r => r.info.toNat).Nodup := by
    rw [List.map_congr_left fun r hr => h.info hr]
    show (fds.map PollFd.key).Nodup
    rw [h.keys, List.nodup_reverse]
    exact List.nodup_range.filter _
  rw [countP_foldl hnodup (fun r hr => by rw [h.info hr]; exact length_zeros (watched_lt (h.key hr)))
    fun r _ => bitTest_zeros _ _]
  have hzero : (zeros req.nfds).countP id = 0 := by
    rw [zeros, List.countP_replicate]
    rfl
  rw [hzero, Nat.zero_add]
  exact h.countP fun r hr => by rw [h.offered hr]

theorem has_read (hclear : bitTest req.sets.readfds i = false) :
    has req ready i &&& selectRead = ready i &&& (pollHup ||| pollErr) := by
  rw [has, BitVec.and_assoc]
  congr 1
  rw [FdSets.events, hclear]
  generalize bitTest req.sets.writefds i = a
  generalize bitTest req.sets.exceptfds i = b
  revert a b
  decide

theorem has_write (hclear : bitTest req.sets.writefds i = false) :
    has req ready i &&& selectWrite = ready i &&& pollErr := by
  rw [has, BitVec.and_assoc]
  congr 1
  rw [FdSets.events, hclear]
  generalize bitTest req.sets.readfds i = a
  generalize bitTest req.sets.exceptfds i = b
  revert a b
  decide

theorem has_ex (hclear : bitTest req.sets.exceptfds i = false) : has req ready i &&& selectEx = 0#32 := by
  rw [has, BitVec.and_assoc, show (req.sets.events i ||| pollHup ||| pollErr) &&& selectEx = 0#32 from ?_, BitVec.and_zero]
  rw [FdSets.events, hclear]
  generalize bitTest req.sets.readfds i = a
  generalize bitTest req.sets.writefds i = b
  revert a b
  decide

theorem has_any (req : Request) (ready : Nat → Types) (i : Nat) :
    has req ready i &&& (selectRead ||| selectWrite ||| selectEx) = has req ready i := by
  rw [has, BitVec.and_assoc]
  congr 1
  rw [FdSets.events]
  generalize bitTest req.sets.readfds i = a
  generalize bitTest req.sets.writefds i = b
  generalize bitTest req.sets.exceptfds i = c
  revert a b c
  decide

/-! ## Counts -/

def output (fds : List PollFd) (mask : Types) (ready : Nat → Types) (nfds : Nat) (set : Option (List Bool)) :
    Option (List Bool) :=
  set.map fun _ => fds.foldl (mark mask ready) (zeros nfds)

theorem Watching.bits_output (h : Watching req adds fds) (mask : Types) (set : Option (List Bool)) :
    bits (output fds mask ready req.nfds set) = (watched req adds).countP fun i => hit set mask (has req ready i) := by
  cases set with
  | none =>
    have hzero : ((watched req adds).countP fun i => hit none mask (has req ready i)) = 0 :=
      List.countP_eq_zero.mpr fun i _ => Bool.false_ne_true
    rw [hzero]
    rfl
  | some bits => exact h.count mask

theorem Watching.subset_output (h : Watching req adds fds) (ready : Nat → Types) (mask : Types) (set : Option (List Bool)) :
    Subset set (output fds mask ready req.nfds set) ↔
      (set ≠ none → ∀ i ∈ watched req adds, Poll.bitTest (readOrZero req.nfds set) i = false →
        has req ready i &&& mask = 0#32) := by
  cases set with
  | none => exact ⟨fun _ hc => absurd rfl hc, fun _ i hc => by cases hc⟩
  | some bits =>
    have htest (i : Nat) := h.bitTest ready mask i
    constructor
    · intro hsub _ i hi hclear
      by_contra hset
      have hbit : Poll.bitTest bits i = true := hsub i ((htest i).mpr ⟨hi, hset⟩)
      rw [show Poll.bitTest bits i = false from hclear] at hbit
      cases hbit
    intro hplain i hout
    obtain ⟨hi, hset⟩ := (htest i).mp hout
    by_contra hclear
    exact hset (hplain (Option.some_ne_none bits) i hi (Bool.eq_false_iff.mpr hclear))

theorem hits_sum (req : Request) (ready : Nat → Types) (is : List Nat) :
    is.countP (fun i => hit req.readfds selectRead (has req ready i)) +
        is.countP (fun i => hit req.writefds selectWrite (has req ready i)) +
        is.countP (fun i => hit req.exceptfds selectEx (has req ready i)) +
        is.countP (fun i => has req ready i ≠ 0#32 ∧ hits req ready i = 0) =
      is.countP (fun i => has req ready i ≠ 0#32) + (is.map fun i => hits req ready i - 1).sum := by
  induction is with
  | nil => rfl
  | cons i is ih =>
    rw [List.countP_cons, List.countP_cons, List.countP_cons, List.countP_cons, List.countP_cons, List.map_cons,
      List.sum_cons]
    have hone : (if hit req.readfds selectRead (has req ready i) = true then 1 else 0) +
          (if hit req.writefds selectWrite (has req ready i) = true then 1 else 0) +
          (if hit req.exceptfds selectEx (has req ready i) = true then 1 else 0) +
          (if decide (has req ready i ≠ 0#32 ∧ hits req ready i = 0) = true then 1 else 0) =
        (if decide (has req ready i ≠ 0#32) = true then 1 else 0) + (hits req ready i - 1) := by
      by_cases hzero : has req ready i = 0#32
      · simp [hits, hit, hzero]
      unfold hits
      simp only [ne_eq, hzero, not_false_eq_true, true_and, decide_true]
      generalize hit req.readfds selectRead (has req ready i) = a
      generalize hit req.writefds selectWrite (has req ready i) = b
      generalize hit req.exceptfds selectEx (has req ready i) = c
      revert a b c
      decide
    omega

def Counted (req : Request) (res : Int) (c : FdSets) : Prop :=
  res = (req.written c).bits ∧ Subset req.readfds (req.written c).readfds ∧
    Subset req.writefds (req.written c).writefds ∧ Subset req.exceptfds (req.written c).exceptfds

theorem counted_iff (h : Watching req adds fds) (ready : Nat → Types) :
    Counted req (fds.countP fun r => r.offered (ready r.key) ≠ 0#32 : Nat)
      (fds.foldl (visit selectEventCallback ready) ⟨zeros req.nfds, zeros req.nfds, zeros req.nfds⟩) ↔
      Plain req adds ready := by
  have hres : (fds.countP fun r => r.offered (ready r.key) ≠ 0#32) =
      (watched req adds).countP fun i => has req ready i ≠ 0#32 := h.countP fun r hr => by rw [h.offered hr]
  have hbits : (req.written (fds.foldl (visit selectEventCallback ready)
      ⟨zeros req.nfds, zeros req.nfds, zeros req.nfds⟩)).bits =
        (watched req adds).countP (fun i => hit req.readfds selectRead (has req ready i)) +
          (watched req adds).countP (fun i => hit req.writefds selectWrite (has req ready i)) +
          (watched req adds).countP (fun i => hit req.exceptfds selectEx (has req ready i)) := by
    rw [foldl_select, ← h.bits_output, ← h.bits_output, ← h.bits_output]
    rfl
  have hread := h.subset_output ready selectRead req.readfds
  have hwrite := h.subset_output ready selectWrite req.writefds
  have hex := (h.subset_output ready selectEx req.exceptfds).mpr fun _ i _ hclear => has_ex hclear
  have hsum := hits_sum req ready (watched req adds)
  rw [Counted, hbits, hres, foldl_select]
  constructor
  · rintro ⟨hcount, hsubRead, hsubWrite, -⟩
    refine ⟨fun hgiven i hi hclear => ?_, fun hgiven i hi hclear => ?_, by omega⟩
    · rw [← has_read hclear]
      exact hread.mp hsubRead hgiven i hi hclear
    · rw [← has_write hclear]
      exact hwrite.mp hsubWrite hgiven i hi hclear
  intro hplain
  have hbalance := hplain.balance
  refine ⟨by omega, hread.mpr fun hgiven i hi hclear => ?_, hwrite.mpr fun hgiven i hi hclear => ?_, hex⟩
  · rw [has_read hclear]
    exact hplain.read hgiven i hi hclear
  · rw [has_write hclear]
    exact hplain.write hgiven i hi hclear

/-! ## The call -/

theorem select_answers (h : Watching req adds fds) : Answers selectEventCallback (fun _ => True) fds := by
  intro c _ r hr types hsome
  refine ⟨?_, trivial⟩
  have hany := has_any req (fun _ => types) r.key
  rw [show has req (fun _ => types) r.key = r.offered types from ((h.watch r hr).offered types).symm] at hany
  unfold selectEventCallback
  dsimp only
  rw [hany, if_neg hsome]

theorem select_found (h : Watching req adds fds) :
    Found fds ready ↔ ∃ i ∈ watched req adds, has req ready i ≠ 0#32 := by
  constructor
  · rintro ⟨r, hr, hsome⟩
    exact ⟨r.key, h.key hr, by rw [← h.offered hr]; exact hsome⟩
  rintro ⟨i, hi, hsome⟩
  rw [← List.mem_reverse, ← h.keys] at hi
  obtain ⟨r, hr, rfl⟩ := List.mem_map.mp hi
  exact ⟨r, hr, by rw [h.offered hr]; exact hsome⟩

theorem firstFound_plain (h : Watching req adds fds) (rounds : List Round) :
    FirstFound fds (Plain req adds) rounds ↔ FirstPlain req adds rounds := by
  induction rounds with
  | nil => exact Iff.rfl
  | cons round rounds ih => rw [FirstFound, FirstPlain, select_found h, ih]

theorem counted_cleared (req : Request) : Counted req 0 ⟨zeros req.nfds, zeros req.nfds, zeros req.nfds⟩ := by
  have hbits (set : Option (List Bool)) : bits (set.map fun _ => zeros req.nfds) = 0 := by
    cases set with
    | none => rfl
    | some s => exact (List.countP_replicate ..).trans rfl
  have hsub (set : Option (List Bool)) : Subset set (set.map fun _ => zeros req.nfds) := by
    cases set with
    | none => exact fun i hc => by cases hc
    | some s => exact fun i hc => absurd ((bitTest_zeros req.nfds i).symm.trans hc) Bool.false_ne_true
  refine ⟨?_, hsub _, hsub _, hsub _⟩
  rw [Written.bits, Request.written]
  dsimp only
  rw [hbits, hbits, hbits]
  rfl

theorem select_rounds_iff (h : Watching req adds fds) (rounds : List Round) :
    (∀ n res c, waitLoop selectEventCallback ⟨zeros req.nfds, zeros req.nfds, zeros req.nfds⟩ fds 0 rounds = .left n res c →
      Counted req res c) ↔ FirstPlain req adds rounds := by
  rw [← firstFound_plain h]
  refine waitLoop_iff (select_answers h) trivial (counted_cleared req) fun ready _ => ?_
  rw [(scan_res (select_answers h) trivial).1, (scan_res (select_answers h) trivial).2]
  exact counted_iff h ready

/-- **When `select` reports exactly.** -/
theorem selectCommon_iff (table : List (Option (BitVec 64))) (req : Request) (env : Env) (rounds : List Round) :
    SelectExactly table req env (selectCommon table req env rounds) ↔ SelectFine table req env rounds := by
  have hrefused (herr : env.Refuses) (hreturns : ∀ n res out, selectCommon table req env rounds ≠ .returns n res out)
      (hbad : BadFd table req → env.readable = true → env.created = none →
        selectCommon table req env rounds = .fails eBADF) :
      SelectExactly table req env (selectCommon table req env rounds) ↔ SelectFine table req env rounds :=
    ⟨fun _ => Or.inl herr, fun _ => ⟨fun n res out hc => absurd hc (hreturns n res out),
      fun n res out hc => absurd hc (hreturns n res out), hbad⟩⟩
  cases hreadable : env.readable with
  | false =>
    refine hrefused (Or.inl hreadable) (fun n res out hc => ?_) fun _ hc => by rw [hreadable] at hc; cases hc
    simp only [selectCommon, hreadable] at hc
    cases hc
  | true =>
    cases hcreated : env.created with
    | some err =>
      refine hrefused (Or.inr (Or.inl (by rw [hcreated]; exact Option.some_ne_none err))) (fun n res out hc => ?_)
        fun _ _ hc => by rw [hcreated] at hc; cases hc
      simp only [selectCommon, hreadable, hcreated] at hc
      cases hc
    | none =>
      cases hadd : selectAdd table req.sets env.adds [] (List.range req.nfds) with
      | none =>
        -- a descriptor is not open
        have hcall : selectCommon table req env rounds = .fails eBADF := by
          simp only [selectCommon, hreadable, hcreated, hadd]
          rfl
        have hbad : BadFd table req := by
          obtain ⟨i, hi, hevents, hfd⟩ := selectAdd_none hadd
          exact ⟨i, List.mem_range.mp hi, hevents, hfd⟩
        refine ⟨fun _ => Or.inr (Or.inl hbad), fun _ => ⟨fun n res out hc => ?_, fun n res out hc => ?_, fun _ _ _ => hcall⟩⟩
        · cases hcall.symm.trans hc
        · cases hcall.symm.trans hc
      | some fds =>
        obtain ⟨hopen, hwatching⟩ := selectAdd_spec hadd
        cases hpipe : env.pipe with
        | some err =>
          refine hrefused (Or.inr (Or.inr (Or.inl (by rw [hpipe]; exact Option.some_ne_none err)))) (fun n res out hc => ?_)
            fun hbad => absurd hbad hopen
          simp only [selectCommon, hreadable, hcreated, hadd, pollWait, hpipe] at hc
          cases hc
        | none =>
          have hcall : selectCommon table req env rounds = conclude env.written req.written
                (waitLoop selectEventCallback ⟨zeros req.nfds, zeros req.nfds, zeros req.nfds⟩ fds 0 rounds) := by
            simp only [selectCommon, hreadable, hcreated, hadd, pollWait, hpipe]
            rfl
          cases hwritten : env.written with
          | false =>
            refine hrefused (Or.inr (Or.inr (Or.inr hwritten))) (fun n res out hc => ?_) fun hbad => absurd hbad hopen
            rw [hcall, hwritten] at hc
            exact conclude_unwritten hc
          | true =>
            have hnot : ¬env.Refuses := by
              simp [Env.Refuses, hreadable, hcreated, hpipe, hwritten]
            have hreturns (n : Nat) (res : Int) (out : Written) :
                selectCommon table req env rounds = .returns n res out ↔
                  ∃ c, waitLoop selectEventCallback ⟨zeros req.nfds, zeros req.nfds, zeros req.nfds⟩ fds 0 rounds =
                    .left n res c ∧ out = req.written c := by
              rw [hcall, hwritten]
              exact conclude_written
            rw [SelectFine, or_iff_right hnot, or_iff_right hopen, ← select_rounds_iff hwatching]
            constructor
            · intro hexactly n res c hleft
              have hc := (hreturns n res _).mpr ⟨c, hleft, rfl⟩
              exact ⟨hexactly.count n res _ hc, hexactly.subset n res _ hc⟩
            intro hcounted
            refine ⟨fun n res out hc => ?_, fun n res out hc => ?_, fun hbad => absurd hbad hopen⟩
            · obtain ⟨c, hleft, rfl⟩ := (hreturns n res out).mp hc
              exact (hcounted n res c hleft).1
            · obtain ⟨c, hleft, rfl⟩ := (hreturns n res out).mp hc
              exact (hcounted n res c hleft).2

/-- **When `poll` and `select` report exactly.** -/
theorem poll_select_iff (table : List (Option (BitVec 64))) (env : Env) (round : Round) (rounds : List Round) :
    (∀ polls : List Pollfd,
      Exactly table polls env (sysPoll table polls env (round :: rounds)) ↔ Fine table polls env (round :: rounds)) ∧
    (∀ req : Request, SelectExactly table req env (selectCommon table req env (round :: rounds)) ↔
        SelectFine table req env (round :: rounds)) :=
  ⟨fun polls => sysPoll_iff table polls env round rounds, fun req => selectCommon_iff table req env (round :: rounds)⟩

/-! ## A descriptor that is not open -/

def willing : Env := ⟨true, none, none, fun _ => true, true⟩

/-- One descriptor that is not open is asked for: the call times out and returns 0, with `POLL_NVAL` in its array. -/
theorem poll_closed_fd :
    ¬Exactly [] [⟨5, 1, 0⟩] willing (sysPoll [] [⟨5, 1, 0⟩] willing [⟨fun _ => 0, .again⟩, ⟨fun _ => 0, .timedOut⟩]) := by
  intro hexactly
  have hcall : sysPoll [] [⟨5, 1, 0⟩] willing [⟨fun _ => 0, .again⟩, ⟨fun _ => 0, .timedOut⟩] =
      .returns 1 0 [⟨5, 1, 32⟩] := rfl
  have hcount := hexactly.count 1 0 _ hcall
  exact absurd hcount (by decide)

end IosLinuxkit.Kernel.Poll
