import IosLinuxkit.Fs.TtyRun

/-!
# Writers that wait for room

The condition `consumed` of a terminal. A call of `tty_input` that finds the buffer full waits for it; so
does a writer, whose driver makes that call on the other side. Reads and the flushing ioctls notify it.

* **`ttyWake_run`** — in a run of such steps no writer waits while there is room.
-/

namespace IosLinuxkit.Fs

/-! ## The sleepers -/

/-- The terminal, and the calls that sleep with no notification to come. -/
structure Sleepers where
  session : Session
  asleep : List InputCall

/-- The step notifies `tty->consumed`: a read does in `tty_read_into_buf`, for any number of bytes. -/
def notifiesConsumed (st : Session) : TtyOp → Bool
  | .read size err _ =>
    decide (size ≠ 0 ∧ ¬ err < 0 ∧ ¬ (st.tty.packetMode ∧ (st.tty.packetFlags ≠ 0 ∨ size = 1))) &&
      (readReady st.tty (st.tty.readCall size) false).isSome
  | .produced c expired => decide (c ∈ st.reads) && (readReady st.tty c expired).isSome
  | .setTermios _ flush => flush
  | .flush => true
  | _ => false

def newSleeper (st : Session) : TtyOp → Option InputCall
  | .input input blocking => if blocking then (ttyInput st.tty input).2 else none
  | .consumed c => if c ∈ st.inputs then (ttyInputResume st.tty c).2 else none
  | _ => none

/-- The call that wakes, for a notification or none, is not among the sleepers any more. -/
def stillAsleep (asleep : List InputCall) : TtyOp → List InputCall
  | .consumed c => asleep.erase c
  | .dropInput c => asleep.erase c
  | _ => asleep

def sleepStep (w : Sleepers) (op : TtyOp) : Sleepers where
  session := ttyStep w.session op
  asleep := (newSleeper w.session op).toList ++
    if notifiesConsumed w.session op then [] else stillAsleep w.asleep op

def NoneWaits (w : Sleepers) : Prop := ∀ c ∈ w.asleep, ttyBufSize ≤ w.session.tty.buf.length

/-! ## Characters that make room -/

/-- The characters `INLCR` and `ICRNL` exchange. -/
def mapNewline (m : InputMode) (ch : UInt8) : UInt8 :=
  if m.inlcr && ch == 10 then 13 else if m.icrnl && ch == 13 then 10 else ch

/-- A character that sends a signal and flushes the input. -/
def SignalFlushes (tty : Tty) (ch : UInt8) : Prop :=
  tty.termios.isig = true ∧ ch ≠ 0 ∧
    (tty.isCc ch tty.termios.vintr || tty.isCc ch tty.termios.vquit || tty.isCc ch tty.termios.vsusp) = true ∧
    tty.fgGroup ≠ 0 ∧ tty.termios.noflsh = false

/-- A character that makes the buffer smaller: an erase or kill character with something to erase, or one
that flushes the input with something in it. -/
def Discards (m : InputMode) (tty : Tty) (ch : UInt8) : Prop :=
  tty.buf ≠ [] ∧ if m.canon then
      ¬ (m.igncr = true ∧ mapNewline m ch = 13) ∧ mapNewline m ch ≠ 0 ∧
        if (tty.isCc (mapNewline m ch) tty.termios.verase || tty.isCc (mapNewline m ch) tty.termios.vkill) = true
        then tty.flag (tty.buf.length - 1) = false
        else tty.isCc (mapNewline m ch) tty.termios.veof = false ∧
          (mapNewline m ch == 10 || tty.isCc (mapNewline m ch) tty.termios.veol) = false ∧
          SignalFlushes tty (mapNewline m ch)
    else SignalFlushes tty ch

/-- Some character of an input satisfies `P` where it is looked at. -/
def SomeChar (P : Tty → UInt8 → Prop) (m : InputMode) : Tty → List UInt8 → Prop
  | _, [] => False
  | tty, ch :: rest =>
    P tty ch ∨ match inputChar m tty ch with
      | (tty, none) => SomeChar P m tty rest
      | (tty, some (ch, flag)) =>
        match ttyPushChar tty ch flag with
        | some tty => SomeChar P m tty rest
        | none => False

def StepChar (P : InputMode → Tty → UInt8 → Prop) (st : Session) : TtyOp → Prop
  | .input input _ =>
    let t := st.tty.termios
    let m : InputMode := ⟨t.icanon, t.inlcr, t.igncr, t.icrnl⟩
    SomeChar (P m) m st.tty input
  | .consumed c => c ∈ st.inputs ∧ ∃ tty, ttyPushChar st.tty c.ch c.flag = some tty ∧
      SomeChar (P c.mode) c.mode tty c.rest
  | _ => False

def Shrinks (m : InputMode) (tty : Tty) (ch : UInt8) : Prop :=
  (inputChar m tty ch).1.buf.length < tty.buf.length

/-- The step makes the buffer smaller, or a character of its input does. -/
def StepShrinks (st : Session) (op : TtyOp) : Prop :=
  StepChar Shrinks st op ∨ (ttyStep st op).tty.buf.length < st.tty.buf.length

def StepNotifies (w : Sleepers) (op : TtyOp) : Prop :=
  StepShrinks w.session op → notifiesConsumed w.session op = true

def StepKeeps (w : Sleepers) (op : TtyOp) : Prop := ¬ StepChar Discards w.session op

/-! ## One character -/

section Chars

variable {tty : Tty} {m : InputMode} {ch : UInt8}

theorem signal_buf (tty : Tty) (ch : UInt8) :
    (SignalFlushes tty ch ∧ (ttySendInputSignal tty ch).2.buf = []) ∨
      (¬ SignalFlushes tty ch ∧ (ttySendInputSignal tty ch).2.buf = tty.buf) := by
  unfold ttySendInputSignal SignalFlushes
  dsimp only
  cases hi : tty.termios.isig with
  | false => exact .inr ⟨fun h => (by cases h.1), rfl⟩
  | true =>
    by_cases h0 : ch = 0
    · exact .inr ⟨fun h => h.2.1 h0, by rw [h0]; rfl⟩
    rw [if_neg (by simpa using h0)]
    split
    case isTrue hcc =>
      split
      case isTrue hf => exact .inl ⟨⟨rfl, h0, hcc, hf.1, by simpa using hf.2⟩, rfl⟩
      case isFalse hf => exact .inr ⟨fun h => hf ⟨h.2.2.2.1, by simpa using h.2.2.2.2⟩, rfl⟩
    case isFalse hcc => exact .inr ⟨fun h => hcc h.2.2.1, rfl⟩

theorem erase_buf {count : Nat} (hcount : count ≤ tty.buf.length)
    (hpos : tty.buf ≠ [] → 0 < count) : (tty.buf ≠ [] ∧ tty.flag (tty.buf.length - 1) = false ∧
        (ttyErase tty count).buf.length < tty.buf.length) ∨
      (¬ (tty.buf ≠ [] ∧ tty.flag (tty.buf.length - 1) = false) ∧ (ttyErase tty count).buf = tty.buf) := by
  have hle : ∀ (count : Nat) (t : Tty), (ttyErase t count).buf.length ≤ t.buf.length := by
    intro count
    induction count with
    | zero => exact fun t => Nat.le_refl _
    | succ count ih =>
      intro t
      rw [ttyErase]
      split
      · exact Nat.le_refl _
      refine Nat.le_trans (ih _) ?_
      show t.buf.dropLast.length ≤ t.buf.length
      rw [List.length_dropLast]
      omega
  cases hbuf : tty.buf with
  | nil =>
    have hzero : count = 0 := by
      rw [hbuf, List.length_nil] at hcount
      omega
    exact .inr ⟨fun h => h.1 rfl, by rw [hzero, ttyErase, hbuf]⟩
  | cons c rest =>
    rw [← hbuf]
    have hne : tty.buf ≠ [] := by
      rw [hbuf]
      exact List.cons_ne_nil _ _
    obtain ⟨n, rfl⟩ : ∃ n, count = n + 1 := ⟨count - 1, by have := hpos hne; omega⟩
    rw [ttyErase]
    cases hflag : tty.flag (tty.buf.length - 1) with
    | true => exact .inr ⟨fun h => (by cases h.2), by rw [if_pos rfl]⟩
    | false =>
      refine .inl ⟨hne, rfl, ?_⟩
      rw [if_neg Bool.false_ne_true]
      refine Nat.lt_of_le_of_lt (hle n _) ?_
      show tty.buf.dropLast.length < tty.buf.length
      rw [List.length_dropLast]
      have := List.length_pos_iff.mpr hne
      omega

/-- **One character** makes room exactly when it discards. -/
theorem inputChar_buf (m : InputMode) (tty : Tty) (ch : UInt8) :
    (Discards m tty ch ∧ Shrinks m tty ch) ∨
      (¬ Discards m tty ch ∧ (inputChar m tty ch).1.buf = tty.buf) := by
  -- a character that may be a signal, where nothing else is in question
  have hsignal : ∀ ch, (tty.buf ≠ [] ∧ SignalFlushes tty ch ∧
        (ttySendInputSignal tty ch).2.buf.length < tty.buf.length) ∨
      (¬ (tty.buf ≠ [] ∧ SignalFlushes tty ch) ∧ (ttySendInputSignal tty ch).2.buf = tty.buf) := fun ch => by
    by_cases hbuf : tty.buf = []
    · refine .inr ⟨fun h => h.1 hbuf, ?_⟩
      rcases signal_buf tty ch with ⟨_, h⟩ | ⟨_, h⟩
      · rw [h, hbuf]
      · exact h
    rcases signal_buf tty ch with ⟨hf, h⟩ | ⟨hf, h⟩
    · refine .inl ⟨hbuf, hf, ?_⟩
      rw [h]
      exact List.length_pos_iff.mpr hbuf
    · exact .inr ⟨fun hc => hf hc.2, h⟩
  unfold Shrinks Discards inputChar
  cases hcanon : m.canon with
  | false =>
    rw [if_neg Bool.false_ne_true, if_neg Bool.false_ne_true]
    have hraw : (rawChar tty ch).1 = (ttySendInputSignal tty ch).2 := by
      unfold rawChar
      split
      case h_1 t heq => rw [heq]
      case h_2 t heq => rw [heq]
    rw [hraw]
    rcases hsignal ch with ⟨hbuf, hf, h⟩ | h
    · exact .inl ⟨⟨hbuf, hf⟩, h⟩
    · exact .inr h
  | true =>
    rw [if_pos rfl, if_pos rfl]
    unfold canonChar
    dsimp only
    rw [show (if m.inlcr && ch == 10 then (13 : UInt8) else if m.icrnl && ch == 13 then 10 else ch) =
      mapNewline m ch from rfl]
    generalize mapNewline m ch = ch
    by_cases hcr : (m.igncr && ch == 13) = true
    · rw [if_pos hcr]
      exact .inr ⟨fun h => h.2.1 (by simpa using hcr), rfl⟩
    rw [if_neg hcr]
    have hcr' : ¬ (m.igncr = true ∧ ch = 13) := by simpa using hcr
    by_cases h0 : (ch == 0) = true
    · rw [if_pos h0]
      exact .inr ⟨fun h => h.2.2.1 (by simpa using h0), rfl⟩
    rw [if_neg h0]
    have h0' : ch ≠ 0 := by simpa using h0
    by_cases herase : (tty.isCc ch tty.termios.verase || tty.isCc ch tty.termios.vkill) = true
    · rw [if_pos herase, if_pos herase]
      have hcount : (if (tty.isCc ch tty.termios.verase && decide (0 < tty.buf.length)) = true then 1
          else tty.buf.length) ≤ tty.buf.length := by
        split
        case isTrue hc => exact Nat.succ_le_of_lt (of_decide_eq_true (Bool.and_eq_true_iff.mp hc).2)
        case isFalse => exact Nat.le_refl _
      have hpos : tty.buf ≠ [] → 0 < (if (tty.isCc ch tty.termios.verase &&
          decide (0 < tty.buf.length)) = true then 1 else tty.buf.length) := fun hne => by
        split
        · exact Nat.one_pos
        · exact List.length_pos_iff.mpr hne
      rcases erase_buf hcount hpos with ⟨hne, hflag, hlt⟩ | ⟨hno, hbuf⟩
      · exact .inl ⟨⟨hne, hcr', h0', hflag⟩, hlt⟩
      · exact .inr ⟨fun h => hno ⟨h.1, h.2.2.2⟩, hbuf⟩
    rw [if_neg herase, if_neg herase]
    by_cases heof : tty.isCc ch tty.termios.veof = true
    · rw [if_pos heof]
      exact .inr ⟨fun h => (by rw [heof] at h; cases h.2.2.2.1), rfl⟩
    rw [if_neg heof]
    by_cases heol : (ch == 10 || tty.isCc ch tty.termios.veol) = true
    · rw [if_pos heol]
      exact .inr ⟨fun h => (by rw [heol] at h; cases h.2.2.2.2.1), rfl⟩
    rw [if_neg heol]
    have hsig := hsignal ch
    generalize ttySendInputSignal tty ch = r at hsig ⊢
    obtain ⟨b, t⟩ := r
    rcases hsig with ⟨hbuf, hf, h⟩ | ⟨hno, h⟩
    · exact .inl ⟨⟨hbuf, hcr', h0', Bool.eq_false_iff.mpr heof, Bool.eq_false_iff.mpr heol, hf⟩,
        by cases b <;> exact h⟩
    · exact .inr ⟨fun hc => hno ⟨hc.1, hc.2.2.2.2.2⟩, by cases b <;> exact h⟩

theorem discards_iff (m : InputMode) (tty : Tty) (ch : UInt8) : Shrinks m tty ch ↔ Discards m tty ch := by
  rcases inputChar_buf m tty ch with ⟨hd, hs⟩ | ⟨hd, hbuf⟩
  · exact iff_of_true hs hd
  refine iff_of_false (fun hs => ?_) hd
  unfold Shrinks at hs
  rw [hbuf] at hs
  exact Nat.lt_irrefl _ hs

end Chars

/-! ## The input -/

section Inputs

variable {tty tty' : Tty} {m : InputMode} {input : List UInt8} {c : InputCall}

theorem someChar_congr {P Q : Tty → UInt8 → Prop} (h : ∀ tty ch, P tty ch ↔ Q tty ch) :
    SomeChar P m tty input ↔ SomeChar Q m tty input := by
  induction input generalizing tty with
  | nil => exact Iff.rfl
  | cons ch rest ih =>
    rw [SomeChar, SomeChar]
    refine or_congr (h tty ch) ?_
    split
    · exact ih
    split
    · exact ih
    · exact Iff.rfl

theorem stepChar_shrinks (st : Session) (op : TtyOp) : StepChar Shrinks st op ↔ StepChar Discards st op := by
  cases op with
  | input input blocking => exact someChar_congr fun tty ch => discards_iff _ tty ch
  | consumed c =>
    refine and_congr_right fun _ => exists_congr fun tty => and_congr_right fun _ => ?_
    exact someChar_congr fun tty ch => discards_iff _ tty ch
  | _ => exact Iff.rfl

theorem push_length {ch : UInt8} {flag : Option Bool} (h : ttyPushChar tty ch flag = some tty') :
    tty'.buf.length = tty.buf.length + 1 := by
  unfold ttyPushChar at h
  split at h
  · cases h
  · rw [← Option.some.inj h]
    exact List.length_append

theorem push_full {ch : UInt8} {flag : Option Bool} (h : ttyPushChar tty ch flag = none) :
    ttyBufSize ≤ tty.buf.length := by
  unfold ttyPushChar at h
  split at h
  case isTrue hfull => exact hfull
  case isFalse => cases h

theorem inputFrom_length (h : ¬ SomeChar (Discards m) m tty input) :
    tty.buf.length ≤ (ttyInputFrom m tty input).1.buf.length := by
  induction input generalizing tty with
  | nil => exact Nat.le_refl _
  | cons ch rest ih =>
    rw [SomeChar] at h
    obtain ⟨hch, hrest⟩ := not_or.mp h
    have hbuf := ((inputChar_buf m tty ch).resolve_left fun hc => hch hc.1).2
    rw [ttyInputFrom]
    split
    case h_1 tty₁ heq =>
      rw [heq] at hbuf hrest
      have hbuf : tty₁.buf = tty.buf := hbuf
      rw [← hbuf]
      exact ih hrest
    case h_2 tty₁ ch' flag heq =>
      rw [heq] at hbuf hrest
      have hbuf : tty₁.buf = tty.buf := hbuf
      rw [← hbuf]
      split
      case h_1 tty₂ hpush =>
        dsimp only at hrest
        rw [hpush] at hrest
        have hlen := push_length hpush
        have hle := ih hrest
        omega
      case h_2 => exact Nat.le_refl _

theorem inputFrom_full (h : (ttyInputFrom m tty input).2 = some c) :
    ttyBufSize ≤ (ttyInputFrom m tty input).1.buf.length := by
  induction input generalizing tty with
  | nil => cases h
  | cons ch rest ih =>
    rw [ttyInputFrom] at h ⊢
    split at h
    case h_1 tty₁ heq =>
      exact ih h
    case h_2 tty₁ ch' flag heq =>
      split at h
      case h_1 tty₂ hpush => exact ih h
      case h_2 hpush => exact push_full hpush

end Inputs

/-! ## The steps -/

section Wakes

variable {w : Sleepers} {st : Session} {op : TtyOp}

theorem read_quiet {size : Nat} {err : Int} {nonblock : Bool}
    (h : notifiesConsumed st (.read size err nonblock) = false) :
    (ttyRead st.tty size err nonblock).2 = st.tty := by
  have h : (decide (size ≠ 0 ∧ ¬ err < 0 ∧
      ¬ (st.tty.packetMode ∧ (st.tty.packetFlags ≠ 0 ∨ size = 1))) &&
      (readReady st.tty (st.tty.readCall size) false).isSome) = false := h
  unfold ttyRead
  split
  · rfl
  case isFalse hsize =>
    split
    · rfl
    case isFalse herr =>
      dsimp only
      split
      · rfl
      case isFalse hpacket =>
        split
        · rfl
        case h_2 n hready =>
          rw [hready, decide_eq_true ⟨hsize, herr, hpacket⟩] at h
          cases h

theorem step_length (hn : notifiesConsumed st op = false) (hkeep : ¬ StepChar Discards st op) :
    st.tty.buf.length ≤ (ttyStep st op).tty.buf.length := by
  cases op with
  | input input blocking =>
    have hlen := inputFrom_length hkeep
    unfold ttyStep
    dsimp only
    have hin : ttyInput st.tty input = ttyInputFrom _ st.tty input := rfl
    split
    case h_1 tty heq =>
      rw [hin] at heq
      rw [heq] at hlen
      exact hlen
    case h_2 tty c heq =>
      rw [hin] at heq
      rw [heq] at hlen
      exact hlen
  | consumed c =>
    unfold ttyStep
    dsimp only
    split
    case isTrue hc =>
      have hlen : st.tty.buf.length ≤ (ttyInputResume st.tty c).1.buf.length := by
        unfold ttyInputResume
        split
        case h_1 tty hpush =>
          have hrest : ¬ SomeChar (Discards c.mode) c.mode tty c.rest := fun hs => hkeep ⟨hc, tty, hpush, hs⟩
          have hpushed := push_length hpush
          have hle := inputFrom_length hrest
          omega
        case h_2 => exact Nat.le_refl _
      split
      case h_1 tty heq =>
        rw [heq] at hlen
        exact hlen
      case h_2 tty c' heq =>
        rw [heq] at hlen
        exact hlen
    case isFalse => exact Nat.le_refl _
  | dropInput c => exact Nat.le_refl _
  | read size err nonblock =>
    have hsame := read_quiet hn
    unfold ttyStep
    dsimp only
    split
    case h_1 c tty heq =>
      rw [heq] at hsame
      exact Nat.le_of_eq (congrArg (fun t : Tty => t.buf.length) hsame.symm)
    case h_2 r tty _ heq =>
      rw [heq] at hsame
      exact Nat.le_of_eq (congrArg (fun t : Tty => t.buf.length) hsame.symm)
  | produced c expired =>
    unfold ttyStep
    dsimp only
    split
    case isTrue hc =>
      have hnone : readReady st.tty c expired = none := by
        have hn : (decide (c ∈ st.reads) && (readReady st.tty c expired).isSome) = false := hn
        rw [decide_eq_true hc, Bool.true_and] at hn
        exact Option.isSome_eq_false_iff.mp hn |> Option.isNone_iff_eq_none.mp
      have hwait : ttyReadResume st.tty c expired = (.waits c, st.tty) := by
        unfold ttyReadResume
        rw [hnone]
      simp only [hwait, Nat.le_refl]
    case isFalse => exact Nat.le_refl _
  | dropRead c => exact Nat.le_refl _
  | setTermios t flush =>
    have hn : flush = false := hn
    rw [hn]
    exact Nat.le_refl _
  | flush => cases hn
  | setFgGroup group => exact Nat.le_refl _
  | setPacket mode flags => exact Nat.le_refl _

theorem stepNotifies_iff (w : Sleepers) (op : TtyOp) : StepNotifies w op ↔ StepKeeps w op := by
  constructor
  · intro h hdiscards
    have hn := h (.inl ((stepChar_shrinks _ _).mpr hdiscards))
    -- no input notifies
    cases op with
    | input input blocking => cases hn
    | consumed c => cases hn
    | _ => cases hdiscards
  intro h hshrinks
  refine Decidable.byContradiction fun hn => ?_
  rcases hshrinks with hs | hlt
  · exact h ((stepChar_shrinks _ _).mp hs)
  · exact absurd (step_length (Bool.eq_false_iff.mpr hn) h) (Nat.not_le.mpr hlt)

theorem newSleeper_full {c : InputCall} (h : newSleeper st op = some c) :
    ttyBufSize ≤ (ttyStep st op).tty.buf.length := by
  cases op with
  | input input blocking =>
    unfold newSleeper at h
    dsimp only at h
    split at h
    case isTrue hb =>
      have hfull := inputFrom_full h
      unfold ttyStep
      dsimp only
      have hin : ttyInput st.tty input = ttyInputFrom _ st.tty input := rfl
      split
      case h_1 tty heq =>
        rw [hin] at heq
        rw [heq] at hfull
        exact hfull
      case h_2 tty c heq =>
        rw [hin] at heq
        rw [heq] at hfull
        exact hfull
    case isFalse => cases h
  | consumed c' =>
    unfold newSleeper at h
    dsimp only at h
    split at h
    case isTrue hc =>
      have hfull : ttyBufSize ≤ (ttyInputResume st.tty c').1.buf.length := by
        unfold ttyInputResume at h ⊢
        split
        case h_1 tty hpush =>
          rw [hpush] at h
          exact inputFrom_full h
        case h_2 hpush => exact push_full hpush
      unfold ttyStep
      dsimp only
      rw [if_pos hc]
      split
      case h_1 tty heq =>
        rw [heq] at hfull
        exact hfull
      case h_2 tty c'' heq =>
        rw [heq] at hfull
        exact hfull
    case isFalse => cases h
  | _ => cases h

theorem noneWaits_step (h : NoneWaits w) (hkeep : StepKeeps w op) : NoneWaits (sleepStep w op) := by
  intro c hc
  rcases List.mem_append.mp hc with hnew | hold
  · exact newSleeper_full (Option.mem_toList.mp hnew)
  split at hold
  · cases hold
  case isFalse hn =>
    have hmem : c ∈ w.asleep := by
      unfold stillAsleep at hold
      split at hold
      · exact List.mem_of_mem_erase hold
      · exact List.mem_of_mem_erase hold
      · exact hold
    exact Nat.le_trans (h c hmem) (step_length (Bool.eq_false_iff.mpr hn) hkeep)

end Wakes

/-- **Writers that wait.** In every run the steps notify whenever they make room exactly when no character
of the input erases or flushes something; and then no writer waits while there is room. -/
theorem ttyWake_run (w : Sleepers) (h : NoneWaits w) (ops : List TtyOp) :
    (AllSteps sleepStep StepNotifies w ops ↔ AllSteps sleepStep StepKeeps w ops) ∧
    (AllSteps sleepStep StepKeeps w ops → NoneWaits (run sleepStep w ops)) := by
  have hstep : ∀ w op, NoneWaits w → StepKeeps w op → NoneWaits (sleepStep w op) :=
    fun w op hinv hkeep => noneWaits_step hinv hkeep
  exact ⟨allSteps_congr (fun w op _ => stepNotifies_iff w op) hstep h,
    fun hok => run_invariant hstep h hok⟩

/-! ## Examples -/

/-- A terminal of those modes whose buffer is full of one letter. -/
def fullTty : Tty where
  signedChar := true
  termios := cooked
  fgGroup := 0
  packetMode := false
  packetFlags := 0
  buf := List.replicate ttyBufSize 97
  flag := fun _ => false
  accepted := List.replicate ttyBufSize 97
  taken := []

def cookedMode : InputMode := ⟨true, false, false, true⟩

def waitingCall : InputCall := ⟨cookedMode, 98, some false, []⟩

def fullSleepers : Sleepers := ⟨⟨fullTty, [waitingCall], []⟩, [waitingCall]⟩

theorem length_fullTty : fullTty.buf.length = ttyBufSize := List.length_replicate

theorem noneWaits_full : NoneWaits fullSleepers := fun _ _ => Nat.le_of_eq length_fullTty.symm

theorem someChar_single {P : Tty → UInt8 → Prop} {m : InputMode} {tty : Tty} {ch : UInt8} :
    SomeChar P m tty [ch] ↔ P tty ch := by
  rw [SomeChar]
  refine ⟨fun h => h.resolve_right fun hrest => ?_, .inl⟩
  split at hrest
  · exact hrest
  split at hrest
  · exact hrest
  · exact hrest

theorem not_discards_letter {tty : Tty} (ht : tty.termios = cooked) :
    ¬ Discards cookedMode tty 99 := fun hd => by
  have hcc := hd.2
  simp [cookedMode, mapNewline, Tty.isCc, ht, cooked, SignalFlushes] at hcc

/-- A letter at the full terminal finds no room, and its writer is the next to sleep. -/
theorem ttyWake_letter : NoneWaits (run sleepStep fullSleepers [.input [99] true]) := by
  have hletter : ¬ SomeChar (Discards cookedMode) cookedMode fullTty [99] := fun hd =>
    not_discards_letter rfl (someChar_single.mp hd)
  have hkeeps : StepKeeps fullSleepers (.input [99] true) := hletter
  exact (ttyWake_run fullSleepers noneWaits_full _).2 ⟨hkeeps, trivial⟩

/-- The erase character makes room for one byte, and the writer sleeps on. -/
theorem ttyWake_erase : StepShrinks fullSleepers.session (.input [127] false) ∧
    notifiesConsumed fullSleepers.session (.input [127] false) = false ∧
    ¬ NoneWaits (sleepStep fullSleepers (.input [127] false)) := by
  have hne : fullTty.buf ≠ [] := fun hnil => by
    have hlen := length_fullTty
    rw [hnil] at hlen
    cases hlen
  have herase : Discards cookedMode fullTty 127 := by
    refine ⟨hne, ?_⟩
    simp [cookedMode, mapNewline, Tty.isCc, fullTty, cooked]
  have hshrinks : Shrinks cookedMode fullTty 127 := (discards_iff _ _ _).mpr herase
  have hnone : (inputChar cookedMode fullTty 127).2 = none := by
    simp [inputChar, canonChar, cookedMode, Tty.isCc, fullTty, cooked]
  have hchar : SomeChar (Shrinks cookedMode) cookedMode fullTty [127] := someChar_single.mpr hshrinks
  refine ⟨.inl hchar, rfl, fun h => ?_⟩
  -- the buffer after the step
  have hinput : ttyInputFrom cookedMode fullTty [127] = ((inputChar cookedMode fullTty 127).1, none) := by
    rw [ttyInputFrom]
    generalize inputChar cookedMode fullTty 127 = r at hnone
    obtain ⟨t, o⟩ := r
    obtain rfl : o = none := hnone
    rfl
  have hstep : (sleepStep fullSleepers (.input [127] false)).session.tty =
      (inputChar cookedMode fullTty 127).1 := by
    show (ttyStep ⟨fullTty, [waitingCall], []⟩ (.input [127] false)).tty = _
    unfold ttyStep
    dsimp only
    rw [show ttyInput fullTty [127] = ttyInputFrom cookedMode fullTty [127] from rfl, hinput]
  have hfull := h waitingCall (List.mem_append_right _ (List.mem_singleton.mpr rfl))
  rw [hstep] at hfull
  unfold Shrinks at hshrinks
  rw [length_fullTty] at hshrinks
  omega

end IosLinuxkit.Fs
