import IosLinuxkit.Fs.TtyLines

/-!
# Canonical reads over a run

* **`canonRead_run`** — without such reads, lines and ends of file are read as they were typed.
-/

namespace IosLinuxkit.Fs

/-! ## What the user sees -/

/-- The characters of a call of `tty_input`, up to a full buffer. -/
def dialogueFrom (m : InputMode) (tty : Tty) (d : Dialogue) : List UInt8 → Dialogue
  | [] => d
  | ch :: rest =>
    match inputChar m tty ch with
    | (tty', none) => dialogueFrom m tty' (d.edit (canonEdit m tty ch)) rest
    | (tty', some (ch', flag)) =>
      match ttyPushChar tty' ch' flag with
      | some tty'' => dialogueFrom m tty'' (d.edit (canonEdit m tty ch)) rest
      | none => d

/-- One more read, if it returns bytes or an end of file. -/
def Dialogue.serve (d : Dialogue) : ReadOutcome → Dialogue
  | .done _ data => { d with served := d.served ++ [data] }
  | _ => d

def Dialogue.step (st : Session) (d : Dialogue) : TtyOp → Dialogue
  | .input input _ =>
    let t := st.tty.termios
    dialogueFrom ⟨t.icanon, t.inlcr, t.igncr, t.icrnl⟩ st.tty d input
  | .consumed c =>
    if c ∈ st.inputs then
      match ttyPushChar st.tty c.ch c.flag with
      | some tty => dialogueFrom c.mode tty (d.edit (.store c.ch (c.flag == some true))) c.rest
      | none => d
    else d
  | .read size err nonblock =>
    -- a read of no bytes says nothing
    if size = 0 then d else d.serve (ttyRead st.tty size err nonblock).1
  | .produced c expired => if c ∈ st.reads then d.serve (ttyReadResume st.tty c expired).1 else d
  | .setTermios _ flush => if flush then d.edit .flush else d
  | .flush => d.edit .flush
  | _ => d

/-- A terminal and its user. -/
structure Talk where
  session : Session
  dialogue : Dialogue

def talkStep (w : Talk) (op : TtyOp) : Talk :=
  ⟨ttyStep w.session op, w.dialogue.step w.session op⟩

/-- The steps that keep the terminal in canonical mode. Packet mode is for the master of a
pseudoterminal, whose own modes stay raw: its ioctls act on the slave. -/
def InCanonical : TtyOp → Prop
  | .setTermios t _ => t.icanon = true
  | .setPacket mode _ => mode = false
  | _ => True

def Follows (tty : Tty) (d : Dialogue) : Prop :=
  ∃ rest, Serves d.typed d.served rest ∧ tty.Holds (rest.flatMap Line.cells ++ unflagged d.line)

/-- Each read took bytes of one line, and the buffer holds what is left. All together the reads are the lines
without the ends of file; the reads of nothing are the ends of file at the start of a line. -/
def ReadsLines (w : Talk) : Prop :=
  ∃ rest, Serves w.dialogue.typed w.dialogue.served rest ∧
    w.session.tty.Holds (rest.flatMap Line.cells ++ unflagged w.dialogue.line) ∧
    w.dialogue.served.flatten ++ rest.flatMap Line.bytes = w.dialogue.typed.flatMap Line.bytes ∧
    w.dialogue.served.count [] + rest.countP (fun l => l.bytes = []) =
      w.dialogue.typed.countP (fun l => l.bytes = [])

/-- The first line in the buffer ends in a line end, the read takes all of it, and an end of file stands
right behind. -/
def Swallows (tty : Tty) (c : ReadCall) : Prop :=
  ∃ size, ttyCanonSize tty = some size ∧ tty.buf[size - 1]? ≠ some 0 ∧ size ≤ c.size ∧
    tty.buf[size]? = some 0 ∧ tty.flag size = true

def KeepsEof (st : Session) : TtyOp → Prop
  | .read size err _ => size ≠ 0 → ¬ err < 0 → ¬ Swallows st.tty (st.tty.readCall size)
  | .produced c _ => c ∈ st.reads → ¬ Swallows st.tty c
  | _ => True

/-! ## Input -/

structure Tty.SameModes (tty tty' : Tty) : Prop where
  termios : tty'.termios = tty.termios
  packetMode : tty'.packetMode = tty.packetMode

section Input

variable {tty tty' : Tty} {d : Dialogue} {m : InputMode} {ch : UInt8} {f : Bool}

theorem follows_flush (tty : Tty) (d : Dialogue) : Follows tty.flush (d.edit .flush) :=
  ⟨[], .none [], holds_flush tty⟩

theorem follows_push (h : Follows tty d) (hpush : ttyPushChar tty ch (some f) = some tty') :
    Follows tty' (d.edit (.store ch f)) := by
  obtain ⟨rest, hs, hh⟩ := h
  have hh' := holds_push hh hpush
  cases f with
  | false =>
    refine ⟨rest, hs, ?_⟩
    show tty'.Holds (rest.flatMap Line.cells ++ unflagged (d.line ++ [ch]))
    rw [show unflagged (d.line ++ [ch]) = unflagged d.line ++ [(ch, false)] from List.map_append,
      ← List.append_assoc]
    exact hh'
  | true =>
    let l : Line := ⟨d.line, ch⟩
    refine ⟨rest ++ [l], hs.type l, ?_⟩
    show tty'.Holds ((rest ++ [l]).flatMap Line.cells ++ [])
    rw [List.append_nil, List.flatMap_append, List.flatMap_singleton]
    show tty'.Holds (rest.flatMap Line.cells ++ (unflagged d.line ++ [(ch, true)]))
    rw [← List.append_assoc]
    exact hh'

theorem sameModes_push {flag : Option Bool} (hpush : ttyPushChar tty ch flag = some tty') :
    tty.SameModes tty' := by
  unfold ttyPushChar at hpush
  split at hpush
  · cases hpush
  · rw [← Option.some.inj hpush]
    exact ⟨rfl, rfl⟩

theorem sameModes_erase (tty : Tty) (count : Nat) : tty.SameModes (ttyErase tty count) := by
  induction count generalizing tty with
  | zero => exact ⟨rfl, rfl⟩
  | succ count ih =>
    rw [ttyErase]
    split
    · exact ⟨rfl, rfl⟩
    · exact ⟨(ih _).termios, (ih _).packetMode⟩

theorem cells_getLast {rest : List Line} {c : UInt8 × Bool}
    (hc : (rest.flatMap Line.cells).getLast? = some c) : c.2 = true := by
  rcases List.eq_nil_or_concat rest with rfl | ⟨rest', l, rfl⟩
  · cases hc
  rw [List.concat_eq_append, List.flatMap_append, List.flatMap_singleton] at hc
  unfold Line.cells at hc
  rw [← List.append_assoc, List.getLast?_concat] at hc
  rw [← Option.some.inj hc]

theorem follows_erase {count : Nat} (h : Follows tty d) (hcount : count ≤ tty.buf.length) :
    Follows (ttyErase tty count) { d with line := d.line.take (d.line.length - count) } := by
  obtain ⟨rest, hs, hh⟩ := h
  rw [hh.length] at hcount
  exact ⟨rest, hs, holds_erase hh (fun c hc => cells_getLast hc) hcount⟩

theorem follows_eraseKill (h : Follows tty d) (ch : UInt8) :
    Follows (ttyErase tty (if tty.isCc ch tty.termios.verase && decide (0 < tty.buf.length) then 1
      else tty.buf.length))
      (d.edit (if tty.isCc ch tty.termios.verase then .erase else .kill)) := by
  have hall : d.line.length ≤ tty.buf.length := by
    obtain ⟨rest, _, hh⟩ := h
    rw [hh.length, List.length_append, length_unflagged]
    exact Nat.le_add_left _ _
  cases hcc : tty.isCc ch tty.termios.verase with
  | false =>
    have hkill := follows_erase h (Nat.le_refl tty.buf.length)
    rw [Nat.sub_eq_zero_of_le hall, List.take_zero] at hkill
    exact hkill
  | true =>
    rw [Bool.true_and]
    by_cases hpos : 0 < tty.buf.length
    · rw [decide_eq_true hpos, if_pos rfl, if_pos rfl]
      have herase := follows_erase h hpos
      rw [← List.dropLast_eq_take] at herase
      exact herase
    · -- there is nothing to erase
      have hline : d.line = [] := List.length_eq_zero_iff.mp (by omega)
      rw [show tty.buf.length = 0 by omega, if_pos rfl]
      show Follows tty { d with line := d.line.dropLast }
      rw [hline, List.dropLast_nil, ← hline]
      exact h

theorem follows_inputChar (h : Follows tty d) (hm : m.canon = true) (ch : UInt8) :
    (∃ tty', inputChar m tty ch = (tty', none) ∧ tty.SameModes tty' ∧
      Follows tty' (d.edit (canonEdit m tty ch))) ∨
    ∃ ch' f, inputChar m tty ch = (tty, some (ch', some f)) ∧ canonEdit m tty ch = .store ch' f := by
  unfold inputChar
  rw [if_pos hm]
  unfold canonChar canonEdit
  dsimp only
  rw [show (if m.inlcr && ch == 10 then (13 : UInt8) else if m.icrnl && ch == 13 then 10 else ch) =
    mapNewline m ch from rfl]
  generalize mapNewline m ch = ch
  split
  · exact .inl ⟨tty, rfl, ⟨rfl, rfl⟩, h⟩
  split
  · exact .inr ⟨ch, false, rfl, rfl⟩
  case isFalse hnul =>
  have herase := follows_eraseKill h ch
  cases hcc : tty.isCc ch tty.termios.verase with
  | true =>
    rw [hcc] at herase
    exact .inl ⟨_, rfl, sameModes_erase tty _, herase⟩
  | false =>
  rw [hcc] at herase
  simp only [Bool.false_or, Bool.false_and, Bool.false_eq_true, if_false] at herase ⊢
  cases hkill : tty.isCc ch tty.termios.vkill with
  | true => exact .inl ⟨_, rfl, sameModes_erase tty _, herase⟩
  | false =>
  cases heof : tty.isCc ch tty.termios.veof with
  | true => exact .inr ⟨0, true, rfl, rfl⟩
  | false =>
  simp only [Bool.false_eq_true, if_false]
  cases heol : ch == 10 || tty.isCc ch tty.termios.veol with
  | true => exact .inr ⟨ch, true, rfl, rfl⟩
  | false =>
  simp only [Bool.false_eq_true, if_false]
  -- a signal, or a character like others
  unfold ttySendInputSignal
  dsimp only
  rw [Bool.eq_false_iff.mpr hnul, Bool.or_false]
  cases hsig : tty.termios.isig with
  | false => exact .inr ⟨ch, false, rfl, rfl⟩
  | true =>
  rw [Bool.true_and, Bool.not_true, if_neg Bool.false_ne_true]
  cases hcc : tty.isCc ch tty.termios.vintr || tty.isCc ch tty.termios.vquit ||
    tty.isCc ch tty.termios.vsusp with
  | false => exact .inr ⟨ch, false, rfl, rfl⟩
  | true =>
    refine .inl ⟨_, rfl, ?_⟩
    rw [if_pos rfl]
    split
    case isTrue => exact ⟨⟨rfl, rfl⟩, follows_flush tty d⟩
    case isFalse => exact ⟨⟨rfl, rfl⟩, h⟩

def InputCall.Canonical (c : InputCall) : Prop := c.mode.canon = true ∧ ∃ f, c.flag = some f

theorem follows_inputFrom (h : Follows tty d) (hm : m.canon = true) (input : List UInt8) :
    Follows (ttyInputFrom m tty input).1 (dialogueFrom m tty d input) ∧
      tty.SameModes (ttyInputFrom m tty input).1 ∧
      ∀ c, (ttyInputFrom m tty input).2 = some c → c.Canonical := by
  induction input generalizing tty d with
  | nil => exact ⟨h, ⟨rfl, rfl⟩, fun c hc => (by cases hc)⟩
  | cons ch rest ih =>
    rw [ttyInputFrom, dialogueFrom]
    rcases follows_inputChar h hm ch with ⟨tty₁, heq, hmodes, hnext⟩ | ⟨ch', f, heq, hedit⟩
    · rw [heq]
      obtain ⟨hfollows, hmodes', hcall⟩ := ih hnext
      exact ⟨hfollows, ⟨hmodes'.termios.trans hmodes.termios,
        hmodes'.packetMode.trans hmodes.packetMode⟩, hcall⟩
    rw [heq, hedit]
    dsimp only
    cases hpush : ttyPushChar tty ch' (some f) with
    | some tty₁ =>
      obtain ⟨hfollows, hmodes', hcall⟩ := ih (follows_push h hpush)
      have hmodes := sameModes_push hpush
      exact ⟨hfollows, ⟨hmodes'.termios.trans hmodes.termios,
        hmodes'.packetMode.trans hmodes.packetMode⟩, hcall⟩
    | none =>
      -- the buffer is full
      refine ⟨h, ⟨rfl, rfl⟩, fun c hc => ?_⟩
      rw [← Option.some.inj hc]
      exact ⟨hm, f, rfl⟩

end Input

/-! ## Reads -/

section Reads

variable {tty : Tty} {d : Dialogue} {c : ReadCall} {n : Nat} {expired : Bool}

theorem readReady_line {l : Line} {cs : List (UInt8 × Bool)} (h : tty.Holds (l.cells ++ cs))
    (hc : c.canon = true) : readReady tty c expired = some (min c.size l.bytes.length) := by
  have hlen := h.length
  have hstop : tty.buf[l.text.length]? = some l.stop := by
    refine (h.getElem (c := (l.stop, true)) ?_).1
    unfold Line.cells
    rw [List.append_assoc, List.getElem?_append_right (Nat.le_of_eq (length_unflagged _)),
      length_unflagged, Nat.sub_self]
    rfl
  unfold Line.cells at hlen
  rw [List.append_assoc, List.length_append, List.length_append, length_unflagged,
    List.length_singleton] at hlen
  unfold readReady
  rw [if_pos hc, canonSize_line h]
  dsimp only
  rw [Nat.add_sub_cancel, hstop]
  unfold Line.bytes
  by_cases hzero : l.stop = 0
  · rw [hzero, if_pos rfl, if_pos rfl, Nat.min_eq_left (a := min _ _) (by omega)]
  · rw [if_neg (fun hc => hzero (Option.some.inj hc)), if_neg hzero, List.length_append,
      List.length_singleton, Nat.min_eq_left (a := min _ _) (by omega)]

theorem map_fst_unflagged (text : List UInt8) : (unflagged text).map Prod.fst = text := by
  unfold unflagged
  rw [List.map_map]
  exact List.map_id text

theorem holds_finishRead {pre cs : List (UInt8 × Bool)} (h : tty.Holds (pre ++ cs)) (c : ReadCall) :
    (finishRead tty c pre.length).1 = pre.map Prod.fst ∧
      (finishRead tty c pre.length).2.Holds (if cs.head? = some (0, true) then cs.tail else cs) := by
  obtain ⟨hh, hdata⟩ := holds_readIntoBuf h pre.length
  rw [List.drop_left] at hh
  rw [List.take_left] at hdata
  have heof : (ttyReadIntoBuf tty pre.length).2.atEof = true ↔ cs.head? = some (0, true) := by
    cases cs with
    | nil =>
      have hnil : (ttyReadIntoBuf tty pre.length).2.buf = [] := hh.bytes
      unfold Tty.atEof
      rw [hnil]
      exact iff_of_false Bool.false_ne_true (fun hc => (by cases hc))
    | cons cell cs =>
      obtain ⟨ch, f⟩ := cell
      have hbuf : (ttyReadIntoBuf tty pre.length).2.buf = ch :: cs.map Prod.fst := hh.bytes
      have hflag : (ttyReadIntoBuf tty pre.length).2.flag 0 = f := hh.flags 0 (ch, f) rfl
      unfold Tty.atEof
      rw [hbuf, hflag, List.head?_cons, List.head?_cons, Bool.and_eq_true, decide_eq_true_eq,
        Option.some.injEq, Option.some.injEq, Prod.mk.injEq]
  refine ⟨hdata, ?_⟩
  unfold finishRead
  dsimp only
  by_cases hhead : cs.head? = some (0, true)
  · rw [if_pos (heof.mpr hhead), if_pos hhead]
    have htail := (holds_readIntoBuf hh 1).1
    rw [List.drop_one] at htail
    exact ⟨htail.bytes, htail.flags⟩
  · rw [if_neg (fun hc => hhead (heof.mp hc)), if_neg hhead]
    exact ⟨hh.bytes, hh.flags⟩

theorem finishRead_whole {l : Line} {cs : List (UInt8 × Bool)} (h : tty.Holds (l.cells ++ cs))
    (hsize : l.bytes.length ≤ c.size) (hkeep : ¬ Swallows tty c) :
    (finishRead tty c l.bytes.length).1 = l.bytes ∧ (finishRead tty c l.bytes.length).2.Holds cs := by
  have hcanon := canonSize_line h
  unfold Line.bytes at hsize ⊢
  split
  case isTrue hstop =>
    -- the end of file goes with the line
    rw [show l.cells ++ cs = unflagged l.text ++ ((0, true) :: cs) by
      unfold Line.cells
      rw [hstop, List.append_assoc]
      rfl] at h
    obtain ⟨hdata, hh⟩ := holds_finishRead h c
    rw [length_unflagged, map_fst_unflagged] at hdata
    rw [length_unflagged, List.head?_cons, if_pos rfl] at hh
    exact ⟨hdata, hh⟩
  case isFalse hstop =>
    rw [if_neg hstop] at hsize
    have hlen : l.cells.length = (l.text ++ [l.stop]).length := by
      unfold Line.cells
      rw [List.length_append, List.length_append, length_unflagged]
      rfl
    obtain ⟨hdata, hh⟩ := holds_finishRead h c
    rw [hlen] at hdata hh
    refine ⟨?_, ?_⟩
    · rw [hdata]
      unfold Line.cells
      rw [List.map_append, map_fst_unflagged]
      rfl
    rw [if_neg] at hh
    · exact hh
    intro hhead
    obtain ⟨cell, hcell⟩ : ∃ cell, cs = cell :: cs.tail := by
      cases cs with
      | nil => cases hhead
      | cons cell cs => exact ⟨cell, rfl⟩
    rw [hcell, List.head?_cons] at hhead
    obtain rfl := Option.some.inj hhead
    -- the cell behind the line, and the last of the line
    have hnext := h.getElem (i := l.text.length + 1) (c := (0, true)) (by
      rw [List.getElem?_append_right (by rw [hlen, List.length_append]; exact Nat.le_refl _), hlen,
        List.length_append, List.length_singleton, Nat.sub_self, hcell]
      rfl)
    have hlast := h.getElem (i := l.text.length) (c := (l.stop, true)) (by
      unfold Line.cells
      rw [List.append_assoc, List.getElem?_append_right (Nat.le_of_eq (length_unflagged _)),
        length_unflagged, Nat.sub_self]
      rfl)
    refine hkeep ⟨_, hcanon, ?_, ?_, hnext.1, hnext.2⟩
    · rw [Nat.add_sub_cancel, hlast.1]
      exact fun hc => hstop (Option.some.inj hc)
    · rw [List.length_append, List.length_singleton] at hsize
      exact hsize

theorem finishRead_part {text : List UInt8} {stop : UInt8} {cs : List (UInt8 × Bool)}
    (h : tty.Holds (Line.cells ⟨text, stop⟩ ++ cs)) (hn : n < (Line.bytes ⟨text, stop⟩).length) :
    (finishRead tty c n).1 = text.take n ∧
      (finishRead tty c n).2.Holds (Line.cells ⟨text.drop n, stop⟩ ++ cs) := by
  have hle : n ≤ text.length := by
    unfold Line.bytes at hn
    dsimp only at hn
    split at hn
    · omega
    · rw [List.length_append, List.length_singleton] at hn
      omega
  rw [show Line.cells ⟨text, stop⟩ ++ cs =
      unflagged (text.take n) ++ (Line.cells ⟨text.drop n, stop⟩ ++ cs) by
    unfold Line.cells unflagged
    dsimp only
    rw [← List.append_assoc, ← List.append_assoc, ← List.map_append, List.take_append_drop]] at h
  obtain ⟨hdata, hh⟩ := holds_finishRead h c
  rw [length_unflagged, List.length_take, Nat.min_eq_left hle] at hdata hh
  rw [map_fst_unflagged] at hdata
  refine ⟨hdata, ?_⟩
  rw [if_neg] at hh
  · exact hh
  -- what is left of the line is not an end of file alone
  unfold Line.cells
  cases hdrop : text.drop n with
  | cons x rest => exact fun hc => (by cases hc)
  | nil =>
    have hall : text.length ≤ n := List.drop_eq_nil_iff.mp hdrop
    intro hc
    have hstop : stop = 0 := congrArg Prod.fst (Option.some.inj hc)
    unfold Line.bytes at hn
    rw [if_pos hstop] at hn
    exact absurd hn (Nat.not_lt.mpr hall)

theorem follows_read (h : Follows tty d) (hc : c.canon = true) (hsize : 0 < c.size)
    (hready : readReady tty c expired = some n) (hkeep : ¬ Swallows tty c) :
    Follows (finishRead tty c n).2 { d with served := d.served ++ [(finishRead tty c n).1] } := by
  obtain ⟨rest, hs, hh⟩ := h
  cases rest with
  | nil =>
    -- no line is complete, the read waits
    have hnone : readReady tty c expired = none := by
      unfold readReady
      rw [if_pos hc, canonSize_none hh]
    rw [hnone] at hready
    cases hready
  | cons l rest =>
    rw [List.flatMap_cons, List.append_assoc] at hh
    rw [readReady_line hh hc] at hready
    obtain rfl := Option.some.inj hready
    by_cases hwhole : l.bytes.length ≤ c.size
    · rw [Nat.min_eq_right hwhole]
      obtain ⟨hdata, hnext⟩ := finishRead_whole hh hwhole hkeep
      rw [hdata]
      exact ⟨rest, hs.read_whole, hnext⟩
    rw [Nat.min_eq_left (by omega)]
    have hlt : c.size < l.bytes.length := Nat.lt_of_not_le hwhole
    obtain ⟨text, stop⟩ := l
    obtain ⟨hdata, hnext⟩ := finishRead_part (c := c) hh hlt
    rw [hdata]
    have hsplit : text = text.take c.size ++ text.drop c.size := (List.take_append_drop _ _).symm
    refine ⟨⟨text.drop c.size, stop⟩ :: rest, ?_, ?_⟩
    · have hbytes : Line.bytes ⟨text, stop⟩ =
          text.take c.size ++ Line.bytes ⟨text.drop c.size, stop⟩ := by
        rw [← bytes_append, ← hsplit]
      rw [hsplit] at hs
      refine hs.read_part (fun hnil => ?_) (fun hnil => ?_)
      · have htext : text = [] := (List.take_eq_nil_iff.mp hnil).resolve_left (by omega)
        rw [hbytes, hnil, List.nil_append, htext, List.drop_nil] at hlt
        unfold Line.bytes at hlt
        split at hlt
        · exact absurd hlt (Nat.not_lt_zero _)
        · exact absurd hlt (by rw [List.nil_append, List.length_singleton]; omega)
      · rw [hbytes, hnil, List.append_nil, List.length_take] at hlt
        omega
    · rw [List.flatMap_cons, List.append_assoc]
      exact hnext

end Reads

/-! ## Runs -/

structure Talks (w : Talk) : Prop where
  icanon : w.session.tty.termios.icanon = true
  packet : w.session.tty.packetMode = false
  inputs : ∀ c ∈ w.session.inputs, c.Canonical
  reads : ∀ c ∈ w.session.reads, c.canon = true ∧ 0 < c.size
  follows : Follows w.session.tty w.dialogue

section Steps

variable {w : Talk} {c : ReadCall} {n : Nat}

theorem sameModes_finishRead (tty : Tty) (c : ReadCall) (n : Nat) :
    tty.SameModes (finishRead tty c n).2 := by
  unfold finishRead
  dsimp only
  split
  · exact ⟨rfl, rfl⟩
  · exact ⟨rfl, rfl⟩

theorem Talks.input (h : Talks w) (input : List UInt8) (blocking : Bool) :
    Talks (talkStep w (.input input blocking)) := by
  obtain ⟨hfollows, hmodes, hcall⟩ := follows_inputFrom h.follows
    (m := ⟨w.session.tty.termios.icanon, w.session.tty.termios.inlcr, w.session.tty.termios.igncr,
      w.session.tty.termios.icrnl⟩) h.icanon input
  have hin : ttyInput w.session.tty input = ttyInputFrom _ w.session.tty input := rfl
  unfold talkStep ttyStep Dialogue.step
  dsimp only
  rw [hin]
  generalize ttyInputFrom _ w.session.tty input = r at hfollows hmodes hcall
  obtain ⟨tty, o⟩ := r
  cases o with
  | none =>
    exact ⟨(congrArg Termios.icanon hmodes.termios).trans h.icanon, hmodes.packetMode.trans h.packet,
      h.inputs, h.reads, hfollows⟩
  | some c =>
    refine ⟨(congrArg Termios.icanon hmodes.termios).trans h.icanon, hmodes.packetMode.trans h.packet,
      fun c' hc' => ?_, h.reads, hfollows⟩
    cases blocking with
    | false => exact h.inputs c' hc'
    | true =>
      rcases List.mem_cons.mp hc' with rfl | hold
      · exact hcall c' rfl
      · exact h.inputs c' hold

theorem Talks.consumed (h : Talks w) (c : InputCall) : Talks (talkStep w (.consumed c)) := by
  by_cases hc : c ∈ w.session.inputs
  · obtain ⟨hcanon, f, hflag⟩ := h.inputs c hc
    unfold talkStep ttyStep Dialogue.step
    dsimp only
    rw [if_pos hc, if_pos hc]
    unfold ttyInputResume
    rw [hflag]
    cases hpush : ttyPushChar w.session.tty c.ch (some f) with
    | none =>
      -- still no room
      refine ⟨h.icanon, h.packet, fun c' hc' => ?_, h.reads, h.follows⟩
      rcases List.mem_cons.mp hc' with rfl | hold
      · exact h.inputs c' hc
      · exact h.inputs c' (List.mem_of_mem_erase hold)
    | some tty =>
      have hstored := follows_push h.follows hpush
      have hmodes := sameModes_push hpush
      rw [show ((some f == some true : Bool)) = f by cases f <;> rfl]
      obtain ⟨hfollows, hmodes', hcall⟩ := follows_inputFrom hstored hcanon c.rest
      dsimp only
      generalize ttyInputFrom c.mode tty c.rest = r at hfollows hmodes' hcall
      obtain ⟨tty', o⟩ := r
      have htermios := hmodes'.termios.trans hmodes.termios
      have hpacket := hmodes'.packetMode.trans hmodes.packetMode
      cases o with
      | none =>
        exact ⟨(congrArg Termios.icanon htermios).trans h.icanon, hpacket.trans h.packet,
          fun c' hc' => h.inputs c' (List.mem_of_mem_erase hc'), h.reads, hfollows⟩
      | some c₁ =>
        refine ⟨(congrArg Termios.icanon htermios).trans h.icanon, hpacket.trans h.packet,
          fun c' hc' => ?_, h.reads, hfollows⟩
        rcases List.mem_cons.mp hc' with rfl | hold
        · exact hcall c' rfl
        · exact h.inputs c' (List.mem_of_mem_erase hold)
  unfold talkStep ttyStep Dialogue.step
  dsimp only
  rw [if_neg hc, if_neg hc]
  exact h

theorem Talks.read (h : Talks w) (size : Nat) (err : Int) (nonblock : Bool)
    (hkeep : KeepsEof w.session (.read size err nonblock)) :
    Talks (talkStep w (.read size err nonblock)) := by
  unfold talkStep ttyStep Dialogue.step
  dsimp only
  unfold ttyRead
  by_cases hsize : size = 0
  · rw [if_pos hsize, if_pos hsize]
    exact h
  rw [if_neg hsize, if_neg hsize]
  by_cases herr : err < 0
  · rw [if_pos herr]
    exact h
  rw [if_neg herr]
  dsimp only
  rw [if_neg (fun hc => (by rw [h.packet] at hc; cases hc.1))]
  have hcall : (w.session.tty.readCall size).canon = true ∧ 0 < (w.session.tty.readCall size).size := by
    refine ⟨h.icanon, ?_⟩
    unfold Tty.readCall
    rw [h.packet]
    exact Nat.pos_of_ne_zero hsize
  cases hready : readReady w.session.tty (w.session.tty.readCall size) false with
  | none =>
    cases nonblock with
    | true => exact h
    | false =>
      refine ⟨h.icanon, h.packet, h.inputs, fun c' hc' => ?_, h.follows⟩
      rcases List.mem_cons.mp hc' with rfl | hold
      · exact hcall
      · exact h.reads c' hold
  | some n =>
    have hmodes := sameModes_finishRead w.session.tty (w.session.tty.readCall size) n
    exact ⟨(congrArg Termios.icanon hmodes.termios).trans h.icanon, hmodes.packetMode.trans h.packet,
      h.inputs, h.reads, follows_read h.follows hcall.1 hcall.2 hready (hkeep hsize herr)⟩

theorem Talks.produced (h : Talks w) (c : ReadCall) (expired : Bool)
    (hkeep : KeepsEof w.session (.produced c expired)) : Talks (talkStep w (.produced c expired)) := by
  by_cases hc : c ∈ w.session.reads
  · unfold talkStep ttyStep Dialogue.step
    dsimp only
    rw [if_pos hc, if_pos hc]
    unfold ttyReadResume
    cases hready : readReady w.session.tty c expired with
    | none => exact h
    | some n =>
      have hcall := h.reads c hc
      have hmodes := sameModes_finishRead w.session.tty c n
      exact ⟨(congrArg Termios.icanon hmodes.termios).trans h.icanon, hmodes.packetMode.trans h.packet,
        h.inputs, fun c' hc' => h.reads c' (List.mem_of_mem_erase hc'),
        follows_read h.follows hcall.1 hcall.2 hready (hkeep hc)⟩
  unfold talkStep ttyStep Dialogue.step
  dsimp only
  rw [if_neg hc, if_neg hc]
  exact h

theorem talks_step (w : Talk) (op : TtyOp) (h : Talks w)
    (hop : InCanonical op ∧ KeepsEof w.session op) : Talks (talkStep w op) := by
  cases op with
  | input input blocking => exact h.input input blocking
  | consumed c => exact h.consumed c
  | dropInput c =>
    exact ⟨h.icanon, h.packet, fun c' hc' => h.inputs c' (List.mem_of_mem_erase hc'), h.reads, h.follows⟩
  | read size err nonblock => exact h.read size err nonblock hop.2
  | produced c expired => exact h.produced c expired hop.2
  | dropRead c =>
    exact ⟨h.icanon, h.packet, h.inputs, fun c' hc' => h.reads c' (List.mem_of_mem_erase hc'), h.follows⟩
  | setTermios t flush =>
    refine ⟨hop.1, ?_, h.inputs, h.reads, ?_⟩
    · cases flush with
      | true => exact h.packet
      | false => exact h.packet
    cases flush with
    | true =>
      obtain ⟨rest, hs, hh⟩ := follows_flush w.session.tty w.dialogue
      exact ⟨rest, hs, hh.bytes, hh.flags⟩
    | false =>
      obtain ⟨rest, hs, hh⟩ := h.follows
      exact ⟨rest, hs, hh.bytes, hh.flags⟩
  | flush => exact ⟨h.icanon, h.packet, h.inputs, h.reads, follows_flush w.session.tty w.dialogue⟩
  | setFgGroup group =>
    obtain ⟨rest, hs, hh⟩ := h.follows
    exact ⟨h.icanon, h.packet, h.inputs, h.reads, rest, hs, hh.bytes, hh.flags⟩
  | setPacket mode flags =>
    obtain ⟨rest, hs, hh⟩ := h.follows
    exact ⟨h.icanon, hop.1, h.inputs, h.reads, rest, hs, hh.bytes, hh.flags⟩

end Steps

def Talk.init (signedChar : Bool) (t : Termios) : Talk :=
  ⟨Session.init signedChar { t with icanon := true }, ⟨[], [], []⟩⟩

theorem talks_init (signedChar : Bool) (t : Termios) : Talks (Talk.init signedChar t) where
  icanon := rfl
  packet := rfl
  inputs := fun c hc => (by cases hc)
  reads := fun c hc => (by cases hc)
  follows := ⟨[], .none [], rfl, fun i c hc => (by cases hc)⟩

/-- **Canonical reads.** In every run in canonical mode in which no read takes the end of file behind the
line that it returns, lines are read as they were typed. -/
theorem canonRead_run (signedChar : Bool) (t : Termios) (ops : List TtyOp)
    (hcanon : ∀ op ∈ ops, InCanonical op)
    (hkeep : AllSteps talkStep (fun w op => KeepsEof w.session op) (Talk.init signedChar t) ops) :
    ReadsLines (run talkStep (Talk.init signedChar t) ops) := by
  have hops := allSteps_mem hcanon hkeep
  obtain ⟨rest, hs, hh⟩ := (run_invariant talks_step (talks_init signedChar t) hops).follows
  exact ⟨rest, hs, hh, serves_flatten hs, serves_empty hs⟩

/-- The line `a` and an end of file are typed, and then read. -/
def lineOps : List TtyOp := [.input [97, 10] false, .read 10 0 true, .input [4] false, .read 10 0 true]

theorem canonRead_line : ReadsLines (run talkStep (Talk.init true cooked) lineOps) := by
  refine canonRead_run true cooked lineOps (fun op hop => ?_) ⟨trivial, fun _ _ hs => ?_, trivial,
    fun _ _ hs => ?_, trivial⟩
  · simp only [lineOps, List.mem_cons, List.not_mem_nil, or_false] at hop
    rcases hop with rfl | rfl | rfl | rfl <;> trivial
  · -- nothing is behind the line
    obtain ⟨size, hsize, _, _, hnext, _⟩ := hs
    rw [show ttyCanonSize _ = some 2 by decide] at hsize
    rw [← Option.some.inj hsize] at hnext
    exact absurd hnext (by decide)
  obtain ⟨size, hsize, _, _, hnext, _⟩ := hs
  rw [show ttyCanonSize _ = some 1 by decide] at hsize
  rw [← Option.some.inj hsize] at hnext
  exact absurd hnext (by decide)

/-- The end of file is typed before the line is read: the read takes both, and the next one finds
nothing. -/
def eofOps : List TtyOp := [.input [97, 10] false, .input [4] false, .read 10 0 true]

theorem canonRead_swallows : (∀ op ∈ eofOps, InCanonical op) ∧
      ¬ ReadsLines (run talkStep (Talk.init true cooked) eofOps) ∧
      (ttyRead (run talkStep (Talk.init true cooked) eofOps).session.tty 10 0 true).1 = .error eAGAIN := by
  refine ⟨fun op hop => ?_, fun ⟨rest, hs, hh, _, hcount⟩ => ?_, by decide⟩
  · simp only [eofOps, List.mem_cons, List.not_mem_nil, or_false] at hop
    rcases hop with rfl | rfl | rfl <;> trivial
  have hlen := hh.length
  rw [show (run talkStep (Talk.init true cooked) eofOps).session.tty.buf.length = 0 by decide] at hlen
  cases rest with
  | cons l rest =>
    rw [List.flatMap_cons, List.length_append, List.length_append] at hlen
    unfold Line.cells at hlen
    rw [List.length_append, List.length_singleton] at hlen
    omega
  | nil => exact absurd hcount (by decide)

end IosLinuxkit.Fs
