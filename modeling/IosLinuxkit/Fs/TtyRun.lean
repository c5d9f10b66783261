import IosLinuxkit.Fs.Tty

/-!
# The terminal over a run

* **`rawRead_run`** — every run of such reads.
-/

namespace IosLinuxkit.Fs

variable {tty tty' : Tty} {st : Session} {m : InputMode} {c : ReadCall} {ch : UInt8} {n : Nat}

def Tty.Kept (tty : Tty) : Prop := tty.accepted = tty.taken ++ tty.buf

/-! ## Input -/

theorem kept_flush (tty : Tty) : tty.flush.Kept := (List.append_nil _).symm

theorem kept_push {flag : Option Bool} (h : tty.Kept) (hpush : ttyPushChar tty ch flag = some tty') :
    tty'.Kept := by
  unfold ttyPushChar at hpush
  split at hpush
  · cases hpush
  rw [← Option.some.inj hpush]
  show tty.accepted ++ [ch] = tty.taken ++ (tty.buf ++ [ch])
  rw [h, List.append_assoc]

theorem kept_erase {count : Nat} (h : tty.Kept) (hcount : count ≤ tty.buf.length) :
    (ttyErase tty count).Kept := by
  induction count generalizing tty with
  | zero => exact h
  | succ count ih =>
    rw [ttyErase]
    split
    · exact h
    refine ih ?_ ?_
    · show tty.accepted.dropLast = tty.taken ++ tty.buf.dropLast
      rw [h, List.dropLast_append_of_ne_nil]
      intro hnil
      rw [hnil] at hcount
      exact absurd hcount (Nat.not_succ_le_zero count)
    show count ≤ tty.buf.dropLast.length
    rw [List.length_dropLast]
    omega

theorem kept_signal (h : tty.Kept) (ch : UInt8) : (ttySendInputSignal tty ch).2.Kept := by
  unfold ttySendInputSignal
  dsimp only
  split
  · exact h
  split
  · dsimp only
    split
    · exact kept_flush tty
    · exact h
  · exact h

theorem kept_canonChar (h : tty.Kept) (m : InputMode) (ch : UInt8) :
    (canonChar m tty ch).1.Kept := by
  unfold canonChar
  dsimp only
  generalize (if m.inlcr && ch == 10 then (13 : UInt8) else
    if m.icrnl && ch == 13 then 10 else ch) = ch
  split
  · exact h
  split
  · exact h
  split
  · refine kept_erase h ?_
    split
    case isTrue hc =>
      rw [Bool.and_eq_true, decide_eq_true_eq] at hc
      exact hc.2
    case isFalse => exact Nat.le_refl _
  split
  · exact h
  split
  · exact h
  have hsig := kept_signal h ch
  split
  case h_1 tty' heq =>
    rw [heq] at hsig
    exact hsig
  case h_2 tty' heq =>
    rw [heq] at hsig
    exact hsig

theorem kept_rawChar (h : tty.Kept) (ch : UInt8) : (rawChar tty ch).1.Kept := by
  have hsig := kept_signal h ch
  unfold rawChar
  split
  case h_1 tty' heq =>
    rw [heq] at hsig
    exact hsig
  case h_2 tty' heq =>
    rw [heq] at hsig
    exact hsig

theorem kept_inputChar (h : tty.Kept) (m : InputMode) (ch : UInt8) :
    (inputChar m tty ch).1.Kept := by
  unfold inputChar
  split
  · exact kept_canonChar h m ch
  · exact kept_rawChar h ch

theorem kept_inputFrom (h : tty.Kept) (m : InputMode) (input : List UInt8) :
    (ttyInputFrom m tty input).1.Kept := by
  induction input generalizing tty with
  | nil => exact h
  | cons ch rest ih =>
    have hchar := kept_inputChar h m ch
    rw [ttyInputFrom]
    split
    case h_1 tty' heq =>
      rw [heq] at hchar
      exact ih hchar
    case h_2 tty' ch' flag heq =>
      rw [heq] at hchar
      split
      case h_1 tty'' hpush => exact ih (kept_push hchar hpush)
      case h_2 => exact hchar

theorem kept_inputResume (h : tty.Kept) (c : InputCall) : (ttyInputResume tty c).1.Kept := by
  unfold ttyInputResume
  split
  case h_1 tty' hpush => exact kept_inputFrom (kept_push h hpush) c.mode c.rest
  case h_2 => exact h

/-! ## Reads -/

theorem take_length_drop {α : Type} (l : List α) (n : Nat) :
    l.take (l.length - (l.drop n).length) ++ l.drop n = l := by
  rw [List.length_drop]
  by_cases hn : n ≤ l.length
  · rw [Nat.sub_sub_self hn, List.take_append_drop]
  · rw [List.drop_eq_nil_of_le (by omega), List.append_nil, show l.length - n = 0 by omega, Nat.sub_zero,
      List.take_length]

theorem finishRead_buf (tty : Tty) (c : ReadCall) (n : Nat) : (finishRead tty c n).2.buf =
      if (ttyReadIntoBuf tty n).2.atEof then tty.buf.drop (n + 1) else tty.buf.drop n := by
  unfold finishRead
  dsimp only
  split
  · show (tty.buf.drop n).drop 1 = _
    rw [List.drop_drop]
  · rfl

theorem atEof_iff : (ttyReadIntoBuf tty n).2.atEof = true ↔ tty.buf[n]? = some 0 ∧ tty.flag n := by
  unfold Tty.atEof ttyReadIntoBuf
  dsimp only
  rw [Bool.and_eq_true, decide_eq_true_eq, List.head?_drop]
  refine and_congr_right fun hn => ?_
  have hlt := (List.getElem?_eq_some_iff.mp hn).1
  rw [if_pos (by omega), Nat.zero_add]

theorem kept_finishRead (h : tty.Kept)
    (hmark : c.canon = false → tty.buf[n]? = some 0 → tty.flag n = false) :
    (finishRead tty c n).2.Kept := by
  have hbuf := finishRead_buf tty c n
  have hacc : (finishRead tty c n).2.accepted = tty.taken ++ tty.buf := by
    rw [← h]
    unfold finishRead
    dsimp only
    split <;> rfl
  have htaken : (finishRead tty c n).2.taken = tty.taken ++ if c.canon then
      tty.buf.take (tty.buf.length - (finishRead tty c n).2.buf.length) else tty.buf.take n := by
    unfold finishRead
    dsimp only
    split <;> rfl
  show (finishRead tty c n).2.accepted = (finishRead tty c n).2.taken ++ (finishRead tty c n).2.buf
  rw [hacc, htaken, hbuf, List.append_assoc]
  congr 1
  cases hcanon : c.canon with
  | true =>
    rw [if_pos rfl]
    split
    · exact (take_length_drop tty.buf (n + 1)).symm
    · exact (take_length_drop tty.buf n).symm
  | false =>
    rw [if_neg (by simp), if_neg, List.take_append_drop]
    intro heof
    obtain ⟨hnul, hflag⟩ := atEof_iff.mp heof
    rw [hmark hcanon hnul] at hflag
    cases hflag

theorem kept_read (h : tty.Kept) {size : Nat} (err : Int) (nonblock : Bool)
    (hmark : (tty.readCall size).Unmarked tty false) : (ttyRead tty size err nonblock).2.Kept := by
  unfold ttyRead
  split
  · exact h
  split
  · exact h
  dsimp only
  split
  · exact h
  split
  · exact h
  case h_2 n hready => exact kept_finishRead h fun hcanon => hmark hcanon n hready

theorem kept_readResume (h : tty.Kept) {expired : Bool} (hmark : c.Unmarked tty expired) :
    (ttyReadResume tty c expired).2.Kept := by
  unfold ttyReadResume
  split
  · exact h
  case h_2 n hready => exact kept_finishRead h fun hcanon => hmark hcanon n hready

/-! ## Runs -/

theorem conserved_step (st : Session) (op : TtyOp) (h : Conserved st) (hmark : Unmarked st op) :
    Conserved (ttyStep st op) := by
  have h' : st.tty.Kept := h
  cases op with
  | input input blocking =>
    have hin := kept_inputFrom h' ⟨st.tty.termios.icanon, st.tty.termios.inlcr, st.tty.termios.igncr,
      st.tty.termios.icrnl⟩ input
    unfold ttyStep ttyInput
    dsimp only
    split
    case h_1 tty heq =>
      rw [heq] at hin
      exact hin
    case h_2 tty c heq =>
      rw [heq] at hin
      exact hin
  | consumed c =>
    have hin := kept_inputResume h' c
    unfold ttyStep
    dsimp only
    split
    case isFalse => exact h
    case isTrue =>
      split
      case h_1 tty heq =>
        rw [heq] at hin
        exact hin
      case h_2 tty c heq =>
        rw [heq] at hin
        exact hin
  | dropInput c => exact h
  | read size err nonblock =>
    have hread := kept_read h' err nonblock hmark
    unfold ttyStep
    dsimp only
    split
    case h_1 c tty heq =>
      rw [heq] at hread
      exact hread
    case h_2 out tty _ heq =>
      rw [heq] at hread
      exact hread
  | produced c expired =>
    have hread := kept_readResume h' hmark
    unfold ttyStep
    dsimp only
    split
    case isFalse => exact h
    case isTrue =>
      split
      case h_1 c' tty heq =>
        rw [heq] at hread
        exact hread
      case h_2 out tty _ heq =>
        rw [heq] at hread
        exact hread
  | dropRead c => exact h
  | setTermios t flush =>
    cases flush with
    | true => exact kept_flush st.tty
    | false => exact h
  | flush => exact kept_flush st.tty
  | setFgGroup group => exact h
  | setPacket mode flags => exact h

theorem conserved_init (signedChar : Bool) (t : Termios) : Conserved (Session.init signedChar t) := rfl

theorem finishRead_prefix (h : tty.Kept) (c : ReadCall) (n : Nat) :
    (finishRead tty c n).1 <+: tty.accepted.drop tty.taken.length := by
  rw [h, List.drop_left]
  exact List.take_prefix n tty.buf

/-- **Raw reads.** In every run whose raw reads have no NUL with a flag behind their bytes, on any host
and from any modes, what was accepted is what reads have taken and then what is in the buffer, and a
read returns what comes next. -/
theorem rawRead_run (signedChar : Bool) (t : Termios) (ops : List TtyOp)
    (hops : AllSteps ttyStep Unmarked (Session.init signedChar t) ops) (c : ReadCall) (n : Nat) :
    Conserved (run ttyStep (Session.init signedChar t) ops) ∧
      (finishRead (run ttyStep (Session.init signedChar t) ops).tty c n).1 <+:
        (run ttyStep (Session.init signedChar t) ops).tty.accepted.drop
          (run ttyStep (Session.init signedChar t) ops).tty.taken.length := by
  have h := run_invariant conserved_step (conserved_init signedChar t) hops
  exact ⟨h, finishRead_prefix h c n⟩

def cooked : Termios := ⟨true, true, false, false, false, true, 3, 28, 127, 21, 4, 1, 0, 26⟩
def raw : Termios := { cooked with icanon := false, isig := false }

/-- In raw mode `x`, NUL and `y` come in, and `x` is read. -/
def rawOps : List TtyOp := [.setTermios raw true, .input [120, 0, 121] false, .read 1 0 true]

theorem rawRead_nul : (run ttyStep (Session.init true cooked) rawOps).tty.taken = [120] ∧
      Conserved (run ttyStep (Session.init true cooked) rawOps) := by
  refine ⟨by decide, (rawRead_run true cooked rawOps ⟨trivial, trivial, fun _ n hn _ => ?_, trivial⟩
    ⟨false, 1, [], 1⟩ 1).1⟩
  rw [← Option.some.inj ((show _ = some 1 by decide).symm.trans hn)]
  decide

/-- Before, a line `a` was typed and read in canonical mode: its flag is still there, and the NUL is
taken for an end of file. -/
def staleOps : List TtyOp := [.input [97, 10] false, .read 8 0 true] ++ rawOps

theorem rawRead_drops : ¬ Conserved (run ttyStep (Session.init true cooked) staleOps) := by
  unfold Conserved
  decide

end IosLinuxkit.Fs
