import IosLinuxkit.Fs.TtyWake
import Mathlib.Data.List.Basic

/-!
# Lines of a terminal

Canonical mode, as a user sees it: characters edit a line, a line end or an end of file completes it, and
reads take the lines one after another. `Dialogue` is that view; it looks at the characters and the modes,
not at the buffer.
-/

namespace IosLinuxkit.Fs

/-! ## Lines and reads -/

/-- A line that is complete, and the character that ended it; an end of file is NUL. -/
structure Line where
  text : List UInt8
  stop : UInt8

def Line.bytes (l : Line) : List UInt8 := if l.stop = 0 then l.text else l.text ++ [l.stop]

/-- Reads take the lines in order: each takes a part of one line, or the last of it. A line that is only an
end of file takes one read, of nothing. -/
inductive Serves : List Line → List (List UInt8) → List Line → Prop where
  | none (lines : List Line) : Serves lines [] lines
  | part {a text : List UInt8} {stop : UInt8} {lines rest : List Line} {reads : List (List UInt8)}
    (ha : a ≠ []) (hrest : Line.bytes ⟨text, stop⟩ ≠ []) (h : Serves (⟨text, stop⟩ :: lines) reads rest) :
    Serves (⟨a ++ text, stop⟩ :: lines) (a :: reads) rest
  | whole {l : Line} {lines rest : List Line} {reads : List (List UInt8)} (h : Serves lines reads rest) :
    Serves (l :: lines) (l.bytes :: reads) rest

/-- The lines since the input was last flushed, the line that is being typed, and what was read since. -/
structure Dialogue where
  typed : List Line
  line : List UInt8
  served : List (List UInt8)

inductive Edit where
  | nothing
  | erase
  | kill
  | flush
  | store (ch : UInt8) (stop : Bool)

def canonEdit (m : InputMode) (tty : Tty) (ch : UInt8) : Edit :=
  let t := tty.termios
  let ch := mapNewline m ch
  if m.igncr && ch == 13 then .nothing
  else if ch == 0 then .store ch false
  else if tty.isCc ch t.verase then .erase
  else if tty.isCc ch t.vkill then .kill
  else if tty.isCc ch t.veof then .store 0 true
  else if ch == 10 || tty.isCc ch t.veol then .store ch true
  else if t.isig && (tty.isCc ch t.vintr || tty.isCc ch t.vquit || tty.isCc ch t.vsusp) then
    if tty.fgGroup ≠ 0 ∧ !t.noflsh then .flush else .nothing
  else .store ch false

def Dialogue.edit (d : Dialogue) : Edit → Dialogue
  | .nothing => d
  | .erase => { d with line := d.line.dropLast }
  | .kill => { d with line := [] }
  | .flush => ⟨[], [], []⟩
  | .store ch true => { d with typed := d.typed ++ [⟨d.line, ch⟩], line := [] }
  | .store ch false => { d with line := d.line ++ [ch] }

/-! ## What `Serves` says -/

section ServesLemmas

variable {lines rest : List Line} {reads : List (List UInt8)} {l : Line}

theorem bytes_append (a text : List UInt8) (stop : UInt8) :
    Line.bytes ⟨a ++ text, stop⟩ = a ++ Line.bytes ⟨text, stop⟩ := by
  unfold Line.bytes
  dsimp only
  split
  · rfl
  · exact List.append_assoc a text [stop]

theorem serves_flatten (h : Serves lines reads rest) :
    reads.flatten ++ rest.flatMap Line.bytes = lines.flatMap Line.bytes := by
  induction h with
  | none lines => rfl
  | part ha hrest h ih =>
    rw [List.flatMap_cons] at ih
    rw [List.flatten_cons, List.append_assoc, ih, List.flatMap_cons, bytes_append, List.append_assoc]
  | whole h ih => rw [List.flatten_cons, List.append_assoc, ih, List.flatMap_cons]

theorem serves_empty (h : Serves lines reads rest) :
    reads.count [] + rest.countP (fun l => l.bytes = []) = lines.countP (fun l => l.bytes = []) := by
  induction h with
  | none lines => rw [List.count_nil, Nat.zero_add]
  | @part a text stop lines rest reads ha hrest h ih =>
    rw [List.countP_cons_of_neg (by simpa using hrest)] at ih
    rw [List.count_cons_of_ne ha, ih, List.countP_cons_of_neg]
    rw [bytes_append]
    simpa using fun hc => absurd hc ha
  | @whole l lines rest reads h ih =>
    by_cases hl : l.bytes = []
    · rw [hl, List.count_cons_self, List.countP_cons_of_pos (by simpa using hl)]
      omega
    · rw [List.count_cons_of_ne hl, List.countP_cons_of_neg (by simpa using hl), ih]

theorem Serves.type (h : Serves lines reads rest) (l : Line) : Serves (lines ++ [l]) reads (rest ++ [l]) := by
  induction h with
  | none lines => exact .none _
  | part ha hrest h ih => exact .part ha hrest ih
  | whole h ih => exact .whole ih

theorem Serves.read_whole (h : Serves lines reads (l :: rest)) : Serves lines (reads ++ [l.bytes]) rest := by
  generalize hr : l :: rest = r at h
  induction h with
  | none lines =>
    rw [← hr]
    exact .whole (.none rest)
  | part ha hrest h ih => exact .part ha hrest (ih hr)
  | whole h ih => exact .whole (ih hr)

theorem Serves.read_part {a text : List UInt8} {stop : UInt8}
    (h : Serves lines reads (⟨a ++ text, stop⟩ :: rest)) (ha : a ≠ [])
    (hrest : Line.bytes ⟨text, stop⟩ ≠ []) : Serves lines (reads ++ [a]) (⟨text, stop⟩ :: rest) := by
  generalize hr : (⟨a ++ text, stop⟩ : Line) :: rest = r at h
  induction h with
  | none lines =>
    rw [← hr]
    exact .part ha hrest (.none _)
  | part ha' hrest' h ih => exact .part ha' hrest' (ih hr)
  | whole h ih => exact .whole (ih hr)

end ServesLemmas

/-! ## The buffer and its flags -/

structure Tty.Holds (tty : Tty) (cs : List (UInt8 × Bool)) : Prop where
  bytes : tty.buf = cs.map Prod.fst
  flags : ∀ i c, cs[i]? = some c → tty.flag i = c.2

def unflagged (text : List UInt8) : List (UInt8 × Bool) := text.map fun ch => (ch, false)

def Line.cells (l : Line) : List (UInt8 × Bool) := unflagged l.text ++ [(l.stop, true)]

section Cells

variable {tty tty' : Tty} {cs : List (UInt8 × Bool)} {ch : UInt8} {f : Bool} {n : Nat}

theorem Tty.Holds.length (h : tty.Holds cs) : tty.buf.length = cs.length := by
  rw [h.bytes, List.length_map]

theorem length_unflagged (text : List UInt8) : (unflagged text).length = text.length := List.length_map _

theorem Tty.Holds.getElem (h : tty.Holds cs) {i : Nat} {c : UInt8 × Bool} (hc : cs[i]? = some c) :
    tty.buf[i]? = some c.1 ∧ tty.flag i = c.2 := by
  refine ⟨?_, h.flags i c hc⟩
  rw [h.bytes, List.getElem?_map, hc]
  rfl

theorem holds_flush (tty : Tty) : tty.flush.Holds [] := ⟨rfl, fun i c hc => (by cases hc)⟩

theorem holds_push (h : tty.Holds cs) (hpush : ttyPushChar tty ch (some f) = some tty') :
    tty'.Holds (cs ++ [(ch, f)]) := by
  have hlen := h.length
  unfold ttyPushChar at hpush
  split at hpush
  · cases hpush
  obtain rfl := Option.some.inj hpush
  refine ⟨by rw [h.bytes, List.map_append]; rfl, fun i c hc => ?_⟩
  dsimp only
  by_cases hi : i < cs.length
  · rw [List.getElem?_append_left hi] at hc
    rw [if_neg (by omega)]
    exact h.flags i c hc
  rw [List.getElem?_append_right (by omega)] at hc
  have hzero : i - cs.length = 0 := by
    have hlt := (List.getElem?_eq_some_iff.mp hc).1
    rw [List.length_singleton] at hlt
    omega
  rw [hzero] at hc
  rw [if_pos (by omega), ← Option.some.inj hc]

theorem holds_erase {pre : List (UInt8 × Bool)} {line : List UInt8} {count : Nat}
    (h : tty.Holds (pre ++ unflagged line)) (hpre : ∀ c, pre.getLast? = some c → c.2 = true)
    (hcount : count ≤ (pre ++ unflagged line).length) :
    (ttyErase tty count).Holds (pre ++ unflagged (line.take (line.length - count))) := by
  induction count generalizing tty line with
  | zero =>
    rw [Nat.sub_zero, List.take_length]
    exact h
  | succ count ih =>
    have hlen := h.length
    rw [ttyErase]
    rcases List.eq_nil_or_concat line with rfl | ⟨line', x, rfl⟩
    · -- the end of a line is in front
      have hnil : unflagged [] = [] := rfl
      rw [hnil, List.append_nil] at h hcount hlen
      rw [List.take_nil, hnil, List.append_nil]
      rcases List.eq_nil_or_concat pre with rfl | ⟨pre', c, rfl⟩
      · exact absurd hcount (Nat.not_succ_le_zero count)
      rw [List.concat_eq_append] at h hlen hpre ⊢
      have hlast : tty.flag (tty.buf.length - 1) = true := by
        rw [hlen, List.length_append, List.length_singleton, Nat.add_sub_cancel]
        rw [h.flags pre'.length c (by rw [List.getElem?_append_right (Nat.le_refl _), Nat.sub_self]; rfl)]
        exact hpre c List.getLast?_concat
      rw [if_pos hlast]
      exact h
    rw [List.concat_eq_append] at h hlen hcount ⊢
    have hsplit : pre ++ unflagged (line' ++ [x]) = (pre ++ unflagged line') ++ [(x, false)] := by
      unfold unflagged
      rw [List.map_append, List.append_assoc]
      rfl
    rw [hsplit] at h hlen hcount
    rw [List.length_append, List.length_singleton] at hlen hcount
    have hflag : tty.flag (tty.buf.length - 1) = false := by
      rw [hlen, Nat.add_sub_cancel]
      exact h.flags _ _ (by rw [List.getElem?_append_right (Nat.le_refl _), Nat.sub_self]; rfl)
    rw [if_neg (by rw [hflag]; exact Bool.false_ne_true)]
    have hnext : Tty.Holds { tty with buf := tty.buf.dropLast, accepted := tty.accepted.dropLast }
        (pre ++ unflagged line') := by
      refine ⟨?_, fun i c hc => ?_⟩
      · show tty.buf.dropLast = _
        rw [h.bytes, List.map_append, List.map_singleton, List.dropLast_concat]
      refine h.flags i c ?_
      rw [List.getElem?_append_left (List.getElem?_eq_some_iff.mp hc).1]
      exact hc
    have hdone := ih hnext (by omega)
    rw [show (line' ++ [x]).take ((line' ++ [x]).length - (count + 1)) =
      line'.take (line'.length - count) by
        rw [List.length_append, List.length_singleton, Nat.add_sub_add_right,
          List.take_append_of_le_length (by omega)]]
    exact hdone

theorem holds_readIntoBuf (h : tty.Holds cs) (n : Nat) :
    (ttyReadIntoBuf tty n).2.Holds (cs.drop n) ∧
      (ttyReadIntoBuf tty n).1 = (cs.take n).map Prod.fst := by
  have hlen := h.length
  refine ⟨⟨?_, fun i c hc => ?_⟩, ?_⟩
  · show tty.buf.drop n = _
    rw [h.bytes, List.map_drop]
  · rw [List.getElem?_drop] at hc
    have hlt := (List.getElem?_eq_some_iff.mp hc).1
    show (if i < tty.buf.length - n then tty.flag (i + n) else tty.flag i) = c.2
    rw [if_pos (by omega), Nat.add_comm]
    exact h.flags _ _ hc
  · show tty.buf.take n = _
    rw [h.bytes, List.map_take]

theorem unflagged_getElem {text : List UInt8} {i : Nat} {c : UInt8 × Bool}
    (hc : (unflagged text)[i]? = some c) : c.2 = false := by
  unfold unflagged at hc
  rw [List.getElem?_map] at hc
  obtain ⟨x, _, rfl⟩ := Option.map_eq_some_iff.mp hc
  rfl

theorem canonSize_line {l : Line} (h : tty.Holds (l.cells ++ cs)) :
    ttyCanonSize tty = some (l.text.length + 1) := by
  have hlen := h.length
  unfold Line.cells at h hlen
  rw [List.append_assoc] at h hlen
  rw [List.length_append, List.length_append, length_unflagged, List.length_singleton] at hlen
  have hfind : (List.range tty.buf.length).find? tty.flag = some l.text.length := by
    rw [List.find?_range_eq_some]
    refine ⟨?_, List.mem_range.mpr (by omega), fun j hj => ?_⟩
    · refine h.flags _ (l.stop, true) ?_
      rw [List.getElem?_append_right (Nat.le_of_eq (length_unflagged _)), length_unflagged, Nat.sub_self]
      rfl
    obtain ⟨c, hc⟩ : ∃ c, (unflagged l.text)[j]? = some c :=
      ⟨_, List.getElem?_eq_getElem (by rw [length_unflagged]; exact hj)⟩
    rw [h.flags j c (by rw [List.getElem?_append_left (by rw [length_unflagged]; exact hj)]; exact hc),
      unflagged_getElem hc]
    rfl
  unfold ttyCanonSize
  rw [hfind]
  rfl

theorem canonSize_none {line : List UInt8} (h : tty.Holds (unflagged line)) :
    ttyCanonSize tty = none := by
  have hfind : (List.range tty.buf.length).find? tty.flag = none := by
    rw [List.find?_eq_none]
    intro j hj
    rw [List.mem_range, h.length] at hj
    obtain ⟨c, hc⟩ : ∃ c, (unflagged line)[j]? = some c := ⟨_, List.getElem?_eq_getElem hj⟩
    rw [h.flags j c hc, unflagged_getElem hc]
    exact Bool.false_ne_true
  unfold ttyCanonSize
  rw [hfind]
  rfl

end Cells

end IosLinuxkit.Fs
