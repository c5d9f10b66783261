import IosLinuxkit.Fs.Poll

/-!
# The rounds of `poll_wait`

`poll_wait` of `fs/poll.c` scans the registrations, and where nothing is ready it waits for the host and scans
again.

* **`waitLoop_iff`** — what holds of how the rounds end, by the first one in which something is ready.

How a round ends in which nothing is ready is part of the round: by signals, by the timeout, by what the host
returns, and by the exit of the process.
-/

namespace IosLinuxkit.Fs.Poll

/-- What follows a scan that finds nothing. -/
inductive Next
  | again
  | timedOut
  | fails (err : Int)
  deriving DecidableEq

structure Round where
  /-- What `fd->ops->poll` returns for each registration. -/
  ready : Nat → Types
  next : Next

/-- How `poll_wait` ends: in the round after the first `n`, with a result and a context. -/
inductive Waited (κ : Type)
  | waiting
  | fails (err : Int)
  | left (n : Nat) (res : Int) (context : κ)

section Wait

variable {κ : Type} (callback : κ → Types → BitVec 64 → Int × κ)

def waitLoop : κ → List PollFd → Nat → List Round → Waited κ
  | _, _, _, [] => .waiting
  | context, fds, n, round :: rounds =>
    let (res, context, scanned) := scan callback round.ready context fds
    if res > 0 then .left n res context
    else
      match round.next with
      | .again => waitLoop context (scanned.map Scanned.after) (n + 1) rounds
      | .timedOut => .left n res context
      | .fails err => .fails err

/-- `poll_wait`, which first makes a pipe. -/
def pollWait (pipe : Option Int) (context : κ) (fds : List PollFd) (rounds : List Round) : Waited κ :=
  match pipe with
  | some err => .fails err
  | none => waitLoop callback context fds 0 rounds

end Wait

variable {κ : Type} {callback : κ → Types → BitVec 64 → Int × κ} {ready : Nat → Types} {context : κ}
  {fds : List PollFd} {n : Nat} {rounds : List Round}

/-! ## Scans -/

def Answers (callback : κ → Types → BitVec 64 → Int × κ) (Fits : κ → Prop) (fds : List PollFd) : Prop :=
  ∀ context, Fits context → ∀ r ∈ fds, ∀ types, r.offered types ≠ 0#32 →
    (callback context (r.offered types) r.info).1 = 1 ∧ Fits (callback context (r.offered types) r.info).2

variable {Fits : κ → Prop}

def Found (fds : List PollFd) (ready : Nat → Types) : Prop := ∃ r ∈ fds, r.offered (ready r.key) ≠ 0#32

def visit (callback : κ → Types → BitVec 64 → Int × κ) (ready : Nat → Types) (context : κ) (r : PollFd) : κ :=
  if r.offered (ready r.key) = 0#32 then context else (callback context (r.offered (ready r.key)) r.info).2

theorem scan_res (hanswers : Answers callback Fits fds) (hfits : Fits context) :
    (scan callback ready context fds).1 = fds.countP (fun r => r.offered (ready r.key) ≠ 0#32) ∧
    (scan callback ready context fds).2.1 = fds.foldl (visit callback ready) context := by
  induction fds generalizing context with
  | nil => exact ⟨rfl, rfl⟩
  | cons r fds ih =>
    have hrest : Answers callback Fits fds := fun c hc x hx => hanswers c hc x (List.mem_cons_of_mem r hx)
    rw [scan, List.countP_cons, List.foldl_cons, visit]
    dsimp only
    split
    case isTrue hzero =>
      obtain ⟨hres, hcontext⟩ := ih hrest hfits
      rw [if_neg (by simp [hzero])]
      exact ⟨hres, hcontext⟩
    case isFalse hsome =>
      obtain ⟨hone, hfits'⟩ := hanswers context hfits r List.mem_cons_self (ready r.key) hsome
      obtain ⟨hres, hcontext⟩ := ih hrest hfits'
      rw [if_pos (decide_eq_true hone), if_pos (decide_eq_true hsome), hres]
      exact ⟨rfl, hcontext⟩

theorem scan_quiet (callback : κ → Types → BitVec 64 → Int × κ) (context : κ) (hquiet : ¬Found fds ready) :
    (scan callback ready context fds).1 = 0 ∧ (scan callback ready context fds).2.1 = context ∧
      (scan callback ready context fds).2.2.map Scanned.after = fds := by
  induction fds with
  | nil => exact ⟨rfl, rfl, rfl⟩
  | cons r fds ih =>
    have hrest : ¬Found fds ready := fun ⟨x, hx, hsome⟩ => hquiet ⟨x, List.mem_cons_of_mem r hx, hsome⟩
    have hzero : r.offered (ready r.key) = 0#32 :=
      Classical.not_not.mp fun hsome => hquiet ⟨r, List.mem_cons_self, hsome⟩
    obtain ⟨hres, hcontext, hafter⟩ := ih hrest
    rw [scan]
    dsimp only
    rw [if_pos hzero]
    exact ⟨hres, hcontext, congrArg (r :: ·) hafter⟩

theorem scan_found (hanswers : Answers callback Fits fds) (hfits : Fits context) (hfound : Found fds ready) :
    0 < (scan callback ready context fds).1 := by
  obtain ⟨r, hr, hsome⟩ := hfound
  rw [(scan_res hanswers hfits).1]
  have hpos : 0 < fds.countP (fun r => r.offered (ready r.key) ≠ 0#32) :=
    List.countP_pos_iff.mpr ⟨r, hr, decide_eq_true hsome⟩
  omega

/-! ## Rounds -/

def FirstFound (fds : List PollFd) (P : (Nat → Types) → Prop) : List Round → Prop
  | [] => True
  | round :: rounds =>
    (Found fds round.ready → P round.ready) ∧
      (¬Found fds round.ready → round.next = .again → FirstFound fds P rounds)

theorem waitLoop_left (hanswers : Answers callback Fits fds) (hfits : Fits context) {k : Nat} {res : Int} {out : κ}
    (hleft : waitLoop callback context fds n rounds = .left k res out) :
    (∃ ready, Found fds ready ∧ res = (scan callback ready context fds).1 ∧
      out = (scan callback ready context fds).2.1) ∨ (res = 0 ∧ out = context) := by
  induction rounds generalizing n with
  | nil => cases hleft
  | cons round rounds ih =>
    rw [waitLoop] at hleft
    dsimp only at hleft
    by_cases hfound : Found fds round.ready
    · rw [if_pos (scan_found hanswers hfits hfound)] at hleft
      cases hleft
      exact Or.inl ⟨round.ready, hfound, rfl, rfl⟩
    obtain ⟨hres, hcontext, hafter⟩ := scan_quiet callback context hfound
    rw [hres, hcontext, hafter, if_neg (by omega)] at hleft
    cases hnext : round.next with
    | again =>
      rw [hnext] at hleft
      exact ih hleft
    | timedOut =>
      rw [hnext] at hleft
      cases hleft
      exact Or.inr ⟨rfl, rfl⟩
    | fails err =>
      rw [hnext] at hleft
      cases hleft

theorem waitLoop_iff (hanswers : Answers callback Fits fds) (hfits : Fits context) {Good : Int → κ → Prop}
    {P : (Nat → Types) → Prop} (hidle : Good 0 context) (hfound : ∀ ready, Found fds ready →
      (Good (scan callback ready context fds).1 (scan callback ready context fds).2.1 ↔ P ready)) :
    (∀ k res out, waitLoop callback context fds n rounds = .left k res out → Good res out) ↔
      FirstFound fds P rounds := by
  induction rounds generalizing n with
  | nil => exact ⟨fun _ => trivial, fun _ k res out hleft => by cases hleft⟩
  | cons round rounds ih =>
    rw [waitLoop, FirstFound]
    dsimp only
    by_cases hf : Found fds round.ready
    · rw [if_pos (scan_found hanswers hfits hf)]
      constructor
      · intro h
        exact ⟨fun _ => (hfound round.ready hf).mp (h _ _ _ rfl), fun hnot => absurd hf hnot⟩
      intro h k res out hleft
      cases hleft
      exact (hfound round.ready hf).mpr (h.1 hf)
    obtain ⟨hres, hcontext, hafter⟩ := scan_quiet callback context hf
    rw [hres, hcontext, hafter, if_neg (by omega)]
    cases hnext : round.next with
    | again =>
      dsimp only
      rw [ih]
      exact ⟨fun h => ⟨fun h' => absurd h' hf, fun _ _ => h⟩, fun h => h.2 hf rfl⟩
    | timedOut =>
      refine ⟨fun _ => ⟨fun h' => absurd h' hf, fun _ hagain => by cases hagain⟩, fun _ k res out hleft => ?_⟩
      cases hleft
      exact hidle
    | fails err =>
      refine ⟨fun _ => ⟨fun h' => absurd h' hf, fun _ hagain => by cases hagain⟩, fun _ k res out hleft => ?_⟩
      cases hleft

end IosLinuxkit.Fs.Poll
