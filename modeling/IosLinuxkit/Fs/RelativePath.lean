import IosLinuxkit.Fs.PathStack

/-!
# The target of a relative symbolic link

`compute_relative_path` (fs/fake.c) compares two paths a byte at a time, moves the end of what they
share back to a component, and climbs once for each component of the directory that is left.

* **`relative_resolves_iff`** — resolved from the directory, the text leads to the target unless one
  path is an ancestor of the other, other than the root: there its last component is counted as one
  to climb all the same.
-/

namespace IosLinuxkit.RelativePath

open Fs Fs.Resolve

/-! ## The function -/

/-- Where the loop stops, with what is left of both paths there. -/
structure Scan where
  common : Nat
  lastSlash : Nat
  link : Blob
  target : Blob

def scan (common lastSlash : Nat) : Blob → Blob → Scan
  | c :: link, d :: target =>
    if c = d then scan (common + 1) (if c = slash then common + 1 else lastSlash) link target
    else ⟨common, lastSlash, c :: link, d :: target⟩
  | link, target => ⟨common, lastSlash, link, target⟩

def Scan.boundary (s : Scan) : Nat :=
  if s.link = [] ∧ s.target.head? = some slash then s.common
  else if s.target = [] ∧ s.link.head? = some slash then s.common
  else s.lastSlash

def commonLen (link target : Blob) : Nat := (scan 0 0 link target).boundary

/-- The slashes that remain, and the last component. -/
def upCount (link : Blob) (common : Nat) : Nat :=
  (link.drop common).count slash + if link ≠ [] ∧ link.getLast? ≠ some slash then 1 else 0

def suffix (target : Blob) (common : Nat) : Blob :=
  if (target.drop common).head? = some slash then (target.drop common).tail else target.drop common

def strlcpy (size : Nat) (src : Blob) : Blob := src.take (size - 1)

def strlcat (size : Nat) (dst src : Blob) : Blob := dst ++ src.take (size - 1 - dst.length)

def dotDot : Blob := [dot, dot]

def climb (size : Nat) : Nat → Blob
  | 0 => []
  | n + 1 => if n = 0 then strlcpy size dotDot else strlcat size (climb size n) (slash :: dotDot)

def computeRelativePath (size : Nat) (link target : Blob) : Blob :=
  let common := commonLen link target
  let ups := upCount link common
  let rest := suffix target common
  let out := if rest = [] then climb size ups
    else strlcat size (if 0 < ups then strlcat size (climb size ups) [slash] else climb size ups) rest
  if out = [] then strlcpy size [dot] else out

/-! ## The text when nothing is cut -/

def body (ups : Nat) (rest : Blob) : Blob :=
  (text (List.replicate ups dotDot) ++ if rest = [] then [] else slash :: rest).tail

/-- What the function writes into a buffer with room for it. -/
def fullText (link target : Blob) : Blob :=
  let common := commonLen link target
  let b := body (upCount link common) (suffix target common)
  if b = [] then [dot] else b

section Buffer

variable {size n : Nat} {a b link target : Blob}

theorem strlcat_strlcpy : strlcat size (strlcpy size a) b = strlcpy size (a ++ b) := by
  unfold strlcat strlcpy
  rw [List.take_append, List.length_take]
  congr 2
  omega

theorem text_replicate (n : Nat) :
    text (List.replicate (n + 1) dotDot) = text (List.replicate n dotDot) ++ slash :: dotDot := by
  rw [List.replicate_succ', text, List.flatMap_append, List.flatMap_singleton]
  rfl

theorem climb_eq (size n : Nat) : climb size n = strlcpy size (text (List.replicate n dotDot)).tail := by
  induction n with
  | zero => exact List.take_nil.symm
  | succ n ih =>
    rw [climb]
    split
    case isTrue h =>
      subst h
      rfl
    case isFalse h =>
      obtain ⟨n, rfl⟩ := Nat.exists_eq_succ_of_ne_zero h
      rw [ih, strlcat_strlcpy, text_replicate (n + 1), List.tail_append_of_ne_nil]
      rw [text_replicate]
      exact List.append_ne_nil_of_right_ne_nil _ (List.cons_ne_nil _ _)

theorem computeRelativePath_eq (size : Nat) (link target : Blob) :
    computeRelativePath size link target = strlcpy size (fullText link target) := by
  unfold computeRelativePath fullText
  extract_lets common ups rest out b
  have hout : out = strlcpy size b := by
    show (if rest = [] then _ else _) = strlcpy size (body ups rest)
    unfold body
    rw [climb_eq]
    split
    case isTrue h => rw [List.append_nil]
    case isFalse h =>
      cases hups : ups with
      | zero =>
        rw [if_neg (Nat.lt_irrefl 0)]
        exact strlcat_strlcpy
      | succ n =>
        rw [if_pos (Nat.succ_pos n), strlcat_strlcpy, strlcat_strlcpy, List.append_assoc,
          List.tail_append_of_ne_nil]
        · rfl
        rw [text_replicate]
        exact List.append_ne_nil_of_right_ne_nil _ (List.cons_ne_nil _ _)
  rw [hout]
  by_cases hb : b = []
  · rw [hb, if_pos rfl, if_pos (show strlcpy size [] = [] from List.take_nil)]
  rw [if_neg hb]
  split
  case isTrue h =>
    -- the buffer holds the terminator alone
    have hsize : size - 1 = 0 := (List.take_eq_nil_iff.mp h).resolve_right hb
    rw [h, strlcpy, hsize, List.take_zero]
  case isFalse h => rfl

end Buffer

/-! ## Where the common part ends -/

section Common

variable {k l : Nat} {a b s t w : Blob}

theorem scan_append (k l : Nat) (w s t : Blob) :
    ∃ l', scan k l (w ++ s) (w ++ t) = scan (k + w.length) l' s t := by
  induction w generalizing k l with
  | nil => exact ⟨l, rfl⟩
  | cons c w ih =>
    obtain ⟨l', h⟩ := ih (k + 1) (if c = slash then k + 1 else l)
    refine ⟨l', ?_⟩
    rw [List.cons_append, List.cons_append, scan, if_pos rfl, h, List.length_cons,
      show k + 1 + w.length = k + (w.length + 1) from by omega]

/-- Names that differ end the common part before them, and so does a last name. -/
theorem boundary_names (ha : slash ∉ a) (hb : slash ∉ b) (hs : Boundary s) (ht : Boundary t)
    (h : a ≠ b ∨ s = [] ∧ t = []) : (scan k l (a ++ s) (b ++ t)).boundary = l := by
  induction a generalizing b k with
  | nil =>
    cases b with
    | nil =>
      obtain ⟨rfl, rfl⟩ := h.resolve_left fun hne => hne rfl
      rfl
    | cons y b =>
      have hy : y ≠ slash := fun h => hb (h ▸ List.mem_cons_self)
      cases s with
      | nil => simp [scan, Scan.boundary, hy]
      | cons c s =>
        obtain rfl : c = slash := hs
        simp [scan, Scan.boundary, Ne.symm hy]
  | cons x a ih =>
    have hx : x ≠ slash := fun h => ha (h ▸ List.mem_cons_self)
    cases b with
    | nil =>
      cases t with
      | nil => simp [scan, Scan.boundary, hx]
      | cons c t =>
        obtain rfl : c = slash := ht
        simp [scan, Scan.boundary, hx]
    | cons y b =>
      rw [List.cons_append, List.cons_append, scan]
      split
      case isTrue hxy =>
        subst hxy
        exact ih (fun h => ha (List.mem_cons_of_mem _ h)) (fun h => hb (List.mem_cons_of_mem _ h))
          (h.imp_left fun hne hab => hne (by rw [hab]))
      case isFalse => simp [Scan.boundary]

theorem commonLen_names {q p : Path} (ha : slash ∉ a) (hb : slash ∉ b) (h : a ≠ b ∨ q = [] ∧ p = []) (w : Blob) :
    commonLen (w ++ slash :: (a ++ render q)) (w ++ slash :: (b ++ render p)) = w.length + 1 := by
  obtain ⟨l, hl⟩ := scan_append 0 0 w (slash :: (a ++ render q)) (slash :: (b ++ render p))
  rw [commonLen, hl, scan, if_pos rfl, if_pos rfl, Nat.zero_add]
  refine boundary_names ha hb (boundary_render q) (boundary_render p) (h.imp_right ?_)
  rintro ⟨rfl, rfl⟩
  exact ⟨rfl, rfl⟩

theorem commonLen_above {w : Blob} (h : t.head? = some slash) : commonLen w (w ++ t) = w.length := by
  obtain ⟨l, hl⟩ := scan_append 0 0 w [] t
  rw [List.append_nil] at hl
  rw [commonLen, hl, Nat.zero_add]
  cases t with
  | nil => cases h
  | cons c t => exact if_pos ⟨rfl, h⟩

theorem commonLen_below {w : Blob} (h : s.head? = some slash) : commonLen (w ++ s) w = w.length := by
  obtain ⟨l, hl⟩ := scan_append 0 0 w s []
  rw [List.append_nil] at hl
  rw [commonLen, hl, Nat.zero_add]
  cases s with
  | nil => cases h
  | cons c s => exact (if_neg fun hc => List.cons_ne_nil _ _ hc.1).trans (if_pos ⟨rfl, h⟩)

theorem count_render (q : Path) : (render q).count slash = q.length := by
  induction q with
  | nil => rfl
  | cons m q ih =>
    rw [render, List.count_cons_self, List.count_append, ih, List.count_eq_zero_of_not_mem m.noSlash,
      Nat.zero_add, List.length_cons]

theorem upCount_render {q : Path} (hq : q ≠ []) (common : Nat) :
    upCount (render q) common = ((render q).drop common).count slash + 1 := by
  unfold upCount
  rw [if_pos]
  obtain ⟨q, m, rfl⟩ := (List.eq_nil_or_concat q).resolve_left hq
  obtain ⟨w, c, hw⟩ := (List.eq_nil_or_concat m.bytes).resolve_left m.nonempty
  rw [List.concat_eq_append, render_concat, hw, List.concat_eq_append]
  refine ⟨List.append_ne_nil_of_right_ne_nil _ (List.cons_ne_nil _ _), fun h => m.noSlash ?_⟩
  rw [← List.cons_append, ← List.append_assoc, List.getLast?_concat] at h
  rw [hw, ← Option.some.inj h, List.concat_eq_append]
  exact List.mem_append_right _ List.mem_cons_self

end Common

/-! ## The five shapes of a pair of paths -/

/-- The function climbs so often, and then goes down a path. -/
def Leads (q p : Path) (ups : Nat) (down : Path) : Prop :=
  upCount (getpath q) (commonLen (getpath q) (getpath p)) = ups ∧
    suffix (getpath p) (commonLen (getpath q) (getpath p)) = (render down).tail

section Shapes

variable {q p : Path} {x y : Name}

theorem suffix_drop (w t : Blob) (ht : t.head? ≠ some slash) : suffix (w ++ slash :: t) (w.length + 1) = t := by
  unfold suffix
  rw [show w ++ slash :: t = (w ++ [slash]) ++ t from by rw [List.append_assoc]; rfl,
    List.drop_left' (by rw [List.length_append, List.length_singleton]), if_neg ht]

theorem drop_slash (w s : Blob) : (w ++ slash :: s).drop (w.length + 1) = s := by
  rw [show w ++ slash :: s = (w ++ [slash]) ++ s from by rw [List.append_assoc]; rfl,
    List.drop_left' (by rw [List.length_append, List.length_singleton])]

theorem leads_fork (c : Path) {q' p' : Path} (h : x ≠ y ∨ q' = [] ∧ p' = []) :
    Leads (c ++ x :: q') (c ++ y :: p') (q'.length + 1) (y :: p') := by
  have hq : c ++ x :: q' ≠ [] := List.append_ne_nil_of_right_ne_nil _ (List.cons_ne_nil _ _)
  have hbytes : x.bytes ≠ y.bytes ∨ q' = [] ∧ p' = [] := h.imp_left fun hne hb => hne (by
    cases x; cases y; cases hb; rfl)
  unfold Leads
  rw [getpath_of_ne hq, getpath_of_ne (List.append_ne_nil_of_right_ne_nil _ (List.cons_ne_nil _ _)),
    upCount_render hq, render_append, render_append, render, render,
    commonLen_names x.noSlash y.noSlash hbytes, drop_slash, List.count_append,
    List.count_eq_zero_of_not_mem x.noSlash, count_render, Nat.zero_add]
  exact ⟨rfl, suffix_drop _ _ (head_name y _)⟩

theorem leads_from_root (p : Path) : Leads [] p 0 p := by
  cases p with
  | nil => exact ⟨by decide, by decide⟩
  | cons y p =>
    have hlen : commonLen [slash] (slash :: (y.bytes ++ render p)) = 1 :=
      commonLen_names (a := []) (q := []) List.not_mem_nil y.noSlash (.inl y.nonempty.symm) []
    unfold Leads
    rw [getpath_of_ne (List.cons_ne_nil _ _), show getpath [] = [slash] from rfl, render, hlen]
    exact ⟨by decide, suffix_drop [] _ (head_name y _)⟩

theorem leads_to_root (x : Name) (q : Path) : Leads (x :: q) [] (q.length + 1) [] := by
  have hlen : commonLen (slash :: (x.bytes ++ render q)) [slash] = 1 :=
    commonLen_names (b := []) (p := []) x.noSlash List.not_mem_nil (.inl x.nonempty) []
  unfold Leads
  rw [getpath_of_ne (List.cons_ne_nil _ _), show getpath [] = [slash] from rfl,
    upCount_render (List.cons_ne_nil _ _), show commonLen (render (x :: q)) [slash] = 1 from hlen]
  refine ⟨?_, rfl⟩
  show (x.bytes ++ render q).count slash + 1 = _
  rw [List.count_append, List.count_eq_zero_of_not_mem x.noSlash, count_render, Nat.zero_add]

theorem head_render {r : Path} (hr : r ≠ []) : (render r).head? = some slash := by
  cases r with
  | nil => exact absurd rfl hr
  | cons m r => rfl

theorem leads_above {r : Path} (hq : q ≠ []) (hr : r ≠ []) : Leads q (q ++ r) 1 r := by
  unfold Leads
  rw [getpath_of_ne hq, getpath_of_ne (List.append_ne_nil_of_left_ne_nil hq _), render_append,
    commonLen_above (head_render hr), upCount_render hq, List.drop_length]
  refine ⟨rfl, ?_⟩
  rw [suffix, List.drop_left, if_pos (head_render hr)]

theorem leads_below {r : Path} (hp : p ≠ []) (hr : r ≠ []) : Leads (p ++ r) p (r.length + 1) [] := by
  unfold Leads
  rw [getpath_of_ne hp, getpath_of_ne (List.append_ne_nil_of_left_ne_nil hp _),
    upCount_render (List.append_ne_nil_of_left_ne_nil hp _), render_append,
    commonLen_below (head_render hr), List.drop_left, count_render]
  refine ⟨rfl, ?_⟩
  rw [suffix, List.drop_length]
  rfl

end Shapes

/-! ## Resolving the text -/

section Resolving

variable {q p down : Path} {size ups : Nat} {s : Stack}

theorem following_text (parts : List Blob) (h : ∀ c ∈ parts, slash ∉ c) : following (text parts) = parts := by
  induction parts with
  | nil => rfl
  | cons c parts ih =>
    have hb : Boundary (text parts) := by
      cases parts with
      | nil => trivial
      | cons d parts => exact rfl
    show (c ++ text parts).splitOn slash = _
    rw [splitOn_part (h c List.mem_cons_self) hb, ih fun d hd => h d (List.mem_cons_of_mem _ hd)]

theorem foldl_climb (n : Nat) (s : Stack) :
    (List.replicate n dotDot).foldl (pushPart 0) s = s.take (s.length - n) := by
  induction n generalizing s with
  | zero => rw [Nat.sub_zero, List.take_length]; rfl
  | succ n ih =>
    have hpop : pushPart 0 s dotDot = s.dropLast := by
      unfold pushPart
      rw [if_neg (by decide)]
      cases s with
      | nil => rfl
      | cons c s => exact if_pos ⟨rfl, Nat.succ_pos _⟩
    rw [List.replicate_succ, List.foldl_cons, hpop, ih, List.dropLast_eq_take, List.take_take,
      List.length_take]
    congr 1
    omega

theorem foldl_names (hp : Plain p) (s : Stack) : (stack p).foldl (pushPart 0) s = s ++ stack p := by
  induction p generalizing s with
  | nil => exact (List.append_nil s).symm
  | cons m p ih =>
    obtain ⟨hdot, hdd⟩ := hp m List.mem_cons_self
    show (stack p).foldl (pushPart 0) (pushPart 0 s m.bytes) = _
    rw [pushPart_name ⟨m.nonempty, hdot, hdd⟩, ih fun n hn => hp n (List.mem_cons_of_mem _ hn),
      List.append_assoc]
    rfl

theorem tail_render_eq_nil : (render down).tail = [] ↔ down = [] := by
  cases down with
  | nil => exact ⟨fun _ => rfl, fun _ => rfl⟩
  | cons m p =>
    refine ⟨fun h => absurd (List.append_eq_nil_iff.mp h).1 m.nonempty, fun h => by cases h⟩

theorem body_eq (ups : Nat) (down : Path) :
    body ups (render down).tail = (text (List.replicate ups dotDot ++ stack down)).tail := by
  have htext : (if (render down).tail = [] then [] else slash :: (render down).tail) = text (stack down) := by
    rw [text_stack]
    cases down with
    | nil => rfl
    | cons m p => exact if_neg fun h => List.cons_ne_nil _ _ (tail_render_eq_nil.mp h)
  rw [body, htext]
  exact congrArg List.tail List.flatMap_append.symm

theorem stackOf_leads (hdown : Plain down) (h : Leads q p ups down) (s : Stack) :
    stackOf 0 s (fullText (getpath q) (getpath p)) = s.take (s.length - ups) ++ stack down := by
  have hparts : ∀ c ∈ List.replicate ups dotDot ++ stack down, slash ∉ c := fun c hc => by
    rcases List.mem_append.mp hc with hc | hc
    · rw [List.eq_of_mem_replicate hc]
      decide
    obtain ⟨m, -, rfl⟩ := List.mem_map.mp hc
    exact m.noSlash
  have hfold : (List.replicate ups dotDot ++ stack down).foldl (pushPart 0) s =
      s.take (s.length - ups) ++ stack down := by
    rw [List.foldl_append, foldl_climb, foldl_names hdown]
  unfold fullText
  dsimp only
  rw [h.1, h.2, body_eq]
  cases hall : List.replicate ups dotDot ++ stack down with
  | nil =>
    -- nowhere to go: the text is a dot
    rw [← hfold, hall]
    rfl
  | cons c parts =>
    have hsplit := following_text (c :: parts) (hall ▸ hparts)
    rw [following, if_neg (show text (c :: parts) ≠ [] from List.cons_ne_nil _ _)] at hsplit
    rw [← hfold, hall]
    split
    case isTrue hnil =>
      rw [hnil] at hsplit
      -- a text that is empty holds one empty component
      rw [← hsplit]
      rfl
    case isFalse => rw [stackOf, hsplit]

/-- Above another path, and not the root. -/
def Ancestor (q p : Path) : Prop := q ≠ [] ∧ ∃ r, r ≠ [] ∧ p = q ++ r

theorem fork_or_ancestor (q p : Path) :
    (∃ c x y q' p', (x ≠ y ∨ q' = [] ∧ p' = []) ∧ q = c ++ x :: q' ∧ p = c ++ y :: p') ∨
      q = [] ∧ p = [] ∨ (∃ r, r ≠ [] ∧ p = q ++ r) ∨ ∃ r, r ≠ [] ∧ q = p ++ r := by
  induction q generalizing p with
  | nil =>
    cases p with
    | nil => exact .inr (.inl ⟨rfl, rfl⟩)
    | cons y p => exact .inr (.inr (.inl ⟨y :: p, List.cons_ne_nil _ _, rfl⟩))
  | cons x q ih =>
    cases p with
    | nil => exact .inr (.inr (.inr ⟨x :: q, List.cons_ne_nil _ _, rfl⟩))
    | cons y p =>
      by_cases hxy : x = y
      · subst hxy
        rcases ih p with ⟨c, a, b, q', p', hne, rfl, rfl⟩ | ⟨rfl, rfl⟩ | ⟨r, hr, rfl⟩ | ⟨r, hr, rfl⟩
        · exact .inl ⟨x :: c, a, b, q', p', hne, rfl, rfl⟩
        · exact .inl ⟨[], x, x, [], [], .inr ⟨rfl, rfl⟩, rfl, rfl⟩
        · exact .inr (.inr (.inl ⟨r, hr, rfl⟩))
        · exact .inr (.inr (.inr ⟨r, hr, rfl⟩))
      · exact .inl ⟨[], x, y, q, p, .inl hxy, rfl, rfl⟩

theorem relative_resolves_iff (hp : Plain p) (hfit : (fullText (getpath q) (getpath p)).length < size) :
    stackOf 0 (stack q) (computeRelativePath size (getpath q) (getpath p)) = stack p ↔
      ¬ Ancestor q p ∧ ¬ Ancestor p q := by
  have hfull : computeRelativePath size (getpath q) (getpath p) = fullText (getpath q) (getpath p) := by
    rw [computeRelativePath_eq]
    exact List.take_of_length_le (by omega)
  have hlen : (stack q).length = q.length := List.length_map _
  have hcount : ∀ ups down, Plain down → Leads q p ups down →
      stackOf 0 (stack q) (fullText (getpath q) (getpath p)) = stack p →
        min (q.length - ups) q.length + down.length = p.length := fun ups down hdown hleads h => by
    have h := congrArg List.length h
    rwa [stackOf_leads hdown hleads, List.length_append, List.length_take, hlen, stack, stack,
      List.length_map, List.length_map] at h
  rw [hfull]
  rcases fork_or_ancestor q p with ⟨c, x, y, q', p', hne, rfl, rfl⟩ | ⟨rfl, rfl⟩ | ⟨r, hr, rfl⟩ | ⟨r, hr, rfl⟩
  · refine iff_of_true ?_ ⟨?_, ?_⟩
    · rw [stackOf_leads (fun n hn => hp n (List.mem_append_right _ hn)) (leads_fork c hne), hlen,
        List.length_append, List.length_cons, show c.length + (q'.length + 1) - (q'.length + 1) = c.length from by
          omega, stack, stack, stack, List.map_append, List.map_append, List.take_left' (List.length_map _)]
    · rintro ⟨_, r, hr, h⟩
      rw [List.append_assoc] at h
      have h := List.cons.inj (List.append_cancel_left h)
      rcases hne with hne | ⟨rfl, rfl⟩
      · exact hne h.1.symm
      · exact hr h.2.symm
    rintro ⟨_, r, hr, h⟩
    rw [List.append_assoc] at h
    have h := List.cons.inj (List.append_cancel_left h)
    rcases hne with hne | ⟨rfl, rfl⟩
    · exact hne h.1
    · exact hr h.2.symm
  · exact iff_of_true (stackOf_leads hp (leads_from_root []) _) ⟨fun h => h.1 rfl, fun h => h.1 rfl⟩
  · by_cases hq : q = []
    · subst hq
      refine iff_of_true (stackOf_leads hp (leads_from_root r) _) ⟨fun h => h.1 rfl, fun ⟨_, s, hs, h⟩ => ?_⟩
      exact hs (List.append_eq_nil_iff.mp h.symm).2
    refine iff_of_false (fun h => ?_) fun h => h.1 ⟨hq, r, hr, rfl⟩
    -- the text climbs out of the ancestor
    have h := hcount 1 r (fun n hn => hp n (List.mem_append_right _ hn)) (leads_above hq hr) h
    have hpos := List.length_pos_iff.mpr hq
    rw [List.length_append] at h
    omega
  by_cases hp0 : p = []
  · subst hp0
    cases r with
    | nil => exact absurd rfl hr
    | cons x r =>
      refine iff_of_true ?_ ⟨fun ⟨_, s, hs, h⟩ => hs (List.append_eq_nil_iff.mp h.symm).2, fun h => h.1 rfl⟩
      rw [List.nil_append, stackOf_leads hp (leads_to_root x r), stack, List.length_map,
        List.length_cons, Nat.sub_self]
      rfl
  refine iff_of_false (fun h => ?_) fun h => h.2 ⟨hp0, r, hr, rfl⟩
  have h := hcount (r.length + 1) [] (fun n hn => absurd hn List.not_mem_nil) (leads_below hp0 hr) h
  have hpos := List.length_pos_iff.mpr hp0
  rw [List.length_append, List.length_nil] at h
  omega

end Resolving

def usr : Name := ⟨[0x75, 0x73, 0x72], by decide, by decide⟩

def bin : Name := ⟨[0x62, 0x69, 0x6e], by decide, by decide⟩

theorem plain_bin : Plain [bin] := by
  intro n hn
  rw [List.mem_singleton.mp hn]
  decide

theorem relative_resolves_sibling : stackOf 0 (stack [usr]) (computeRelativePath 4096 (getpath [usr])
    (getpath [bin])) = stack [bin] ↔ ¬ Ancestor [usr] [bin] ∧ ¬ Ancestor [bin] [usr] :=
  relative_resolves_iff plain_bin (by decide +kernel)

/-- `/usr/bin`, from `/usr`, becomes `../bin`. -/
theorem relative_below : stackOf 0 (stack [usr]) (computeRelativePath 4096 (getpath [usr])
    (getpath [usr, bin])) ≠ stack [usr, bin] := by
  decide +kernel

end IosLinuxkit.RelativePath
