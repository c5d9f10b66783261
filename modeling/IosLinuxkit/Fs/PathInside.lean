import IosLinuxkit.Fs.PathNormalize

/-!
# Path resolution inside the root

* **`pathNormalize_inside`** — the one that does not, where no iteration leaves the root.
-/

namespace IosLinuxkit.Fs.Resolve

variable {fs : Lookups} {root o out path name rest tail a b p : Blob} {follow : Bool} {st st' : WalkState}
  {q r : Path} {m : Name} {n : Int} {at' : At}

/-! ## Texts -/

theorem skipSlashes_head (p : Blob) : (skipSlashes p).head? ≠ some slash := by
  intro h
  have hnot := List.head?_dropWhile_not (fun c => c == slash) p
  unfold skipSlashes at h
  rw [h] at hnot
  exact absurd hnot (by decide)

theorem skipSlashes_of_head (h : p.head? ≠ some slash) : skipSlashes p = p := by
  cases p with
  | nil => rfl
  | cons c p =>
    refine List.dropWhile_cons_of_neg fun hc => h ?_
    rw [List.head?_cons, eq_of_beq hc]

theorem skipSlashes_slash (h : p.head? ≠ some slash) : skipSlashes (slash :: p) = p := by
  unfold skipSlashes
  rw [List.dropWhile_cons_of_pos (by decide)]
  exact skipSlashes_of_head h

theorem head_name (m : Name) (b : Blob) : (m.bytes ++ b).head? ≠ some slash := by
  cases hm : m.bytes with
  | nil => exact absurd hm m.nonempty
  | cons c l =>
    intro hc
    refine m.noSlash ?_
    rw [hm, ← Option.some.inj hc]
    exact List.mem_cons_self

theorem boundary_append (ha : Boundary a) (hb : Boundary b) : Boundary (a ++ b) := by
  cases a with
  | nil => exact hb
  | cons c a => exact ha

theorem boundary_of_head (h : p.head? = some slash) : Boundary p := by
  cases p with
  | nil => trivial
  | cons c p => exact Option.some.inj h

theorem atDot_iff : atDot p = true ↔ ∃ rest, p = dot :: rest ∧ Boundary rest := by
  constructor
  · intro h
    match p with
    | [] => cases h
    | [c] =>
      have hc : c = dot := by simpa [atDot] using h
      exact ⟨[], by rw [hc], trivial⟩
    | c :: d :: rest =>
      have hcd : c = dot ∧ d = slash := by simpa [atDot] using h
      exact ⟨d :: rest, by rw [hcd.1], hcd.2⟩
  rintro ⟨rest, rfl, hrest⟩
  cases rest with
  | nil => rfl
  | cons d rest =>
    have hd : d = slash := hrest
    simp [atDot, hd]

theorem atDotDot_iff : atDotDot p = true ↔ ∃ rest, p = dot :: dot :: rest ∧ Boundary rest := by
  constructor
  · intro h
    match p with
    | [] => cases h
    | [c] => simp [atDotDot] at h
    | [c, d] =>
      have hcd : c = dot ∧ d = dot := by simpa [atDotDot] using h
      exact ⟨[], by rw [hcd.1, hcd.2], trivial⟩
    | c :: d :: e :: rest =>
      have hcde : (c = dot ∧ d = dot) ∧ e = slash := by simpa [atDotDot] using h
      exact ⟨e :: rest, by rw [hcde.1.1, hcde.1.2], hcde.2⟩
  rintro ⟨rest, rfl, hrest⟩
  cases rest with
  | nil => rfl
  | cons e rest =>
    have he : e = slash := hrest
    simp [atDotDot, he]

theorem render_concat (q : Path) (m : Name) : render (q ++ [m]) = render q ++ slash :: m.bytes := by
  rw [render_append, render, render, List.append_nil]

theorem popName_concat (q : Path) (m : Name) : popName (render (q ++ [m])) = some (render q) := by
  have hdrop : (m.bytes.reverse ++ slash :: (render q).reverse).dropWhile (· != slash) =
      slash :: (render q).reverse := by
    rw [List.dropWhile_append_of_pos]
    · exact List.dropWhile_cons_of_neg (by decide)
    intro c hc
    rw [bne_iff_ne]
    exact fun hs => m.noSlash (hs ▸ List.mem_reverse.mp hc)
  unfold popName
  rw [render_concat, List.reverse_append, List.reverse_cons, List.append_assoc, List.singleton_append, hdrop]
  exact congrArg some (List.reverse_reverse _)

theorem length_render_concat (q : Path) (m : Name) :
    (render (q ++ [m])).length = (render q).length + 1 + m.bytes.length := by
  rw [render_concat, List.length_append, List.length_cons]
  omega

/-! ## The name that is copied -/

theorem copyName_cons {c : UInt8} (hc : c ≠ slash) (hroom : 0 < n - 1) (p : Blob) :
    copyName n (c :: p) =
      (c :: (copyName (n - 1) p).1, (copyName (n - 1) p).2.1, (copyName (n - 1) p).2.2) := by
  rw [copyName, if_neg hc, if_pos hroom]

theorem copyName_spec (hn : 0 < n) : 0 ≤ (copyName n p).2.2 ∧
    ((copyName n p).1.length : Int) + (copyName n p).2.2 ≤ n ∧
    (0 < (copyName n p).2.2 → p = (copyName n p).1 ++ (copyName n p).2.1 ∧ slash ∉ (copyName n p).1 ∧
      Boundary (copyName n p).2.1 ∧ (copyName n p).2.2 = n - (copyName n p).1.length) := by
  induction p generalizing n with
  | nil =>
    have hnil : copyName n [] = ([], [], n) := rfl
    rw [hnil]
    exact ⟨Int.le_of_lt hn, by simp, fun _ => ⟨rfl, List.not_mem_nil, trivial, by simp⟩⟩
  | cons c p ih =>
    by_cases hc : c = slash
    case pos =>
      have hstop : copyName n (c :: p) = ([], c :: p, n) := by rw [copyName, if_pos hc]
      rw [hstop]
      exact ⟨Int.le_of_lt hn, by simp, fun _ => ⟨rfl, List.not_mem_nil, hc, by simp⟩⟩
    case neg =>
      by_cases hroom : 0 < n - 1
      case pos =>
        obtain ⟨h0, hle, hspec⟩ := ih hroom
        rw [copyName_cons hc hroom]
        dsimp only
        rw [List.length_cons]
        refine ⟨h0, by omega, fun hpos => ?_⟩
        obtain ⟨hp, hslash, hbound, hcount⟩ := hspec hpos
        refine ⟨congrArg (c :: ·) hp, fun hmem => ?_, hbound, by omega⟩
        rcases List.mem_cons.mp hmem with hcs | hmem
        · exact hc hcs.symm
        · exact hslash hmem
      case neg =>
        -- the room is used up
        have hstop : copyName n (c :: p) = ([], c :: p, n - 1) := by rw [copyName, if_neg hc, if_neg hroom]
        rw [hstop]
        refine ⟨by dsimp only; omega, ?_, fun hpos => absurd hpos hroom⟩
        dsimp only
        rw [List.length_nil]
        omega

/-! ## The output -/

structure WalkInv (st : WalkState) : Prop where
  output : Normalized st.o
  count : st.n + st.o.length = (maxPath : Int) - 1
  room : 0 ≤ st.n
  head : st.p.head? ≠ some slash

theorem Plain.concat (hq : Plain q) (hdot : m.bytes ≠ [dot]) (hdd : m.bytes ≠ [dot, dot]) :
    Plain (q ++ [m]) := by
  intro k hk
  rcases List.mem_append.mp hk with hk | hk
  · exact hq k hk
  · rw [List.mem_singleton.mp hk]
    exact ⟨hdot, hdd⟩

theorem Plain.left {q' : Path} (hq : Plain (q ++ q')) : Plain q :=
  fun k hk => hq k (List.mem_append_left _ hk)

theorem walkInv_start {left : Nat} (ho : Normalized o) (hlen : o.length < maxPath) (path : Blob) :
    WalkInv (.start left o path) := by
  refine ⟨ho, ?_, ?_, skipSlashes_head path⟩
  · show (maxPath : Int) - 1 - o.length + o.length = maxPath - 1
    omega
  · show 0 ≤ (maxPath : Int) - 1 - o.length
    omega

structure Named (st : WalkState) (m : Name) : Prop where
  rest : st.p = m.bytes ++ (nextName st).2.1
  boundary : Boundary (nextName st).2.1
  output : (nextName st).1 = st.o ++ slash :: m.bytes
  count : (nextName st).2.2 = st.n - 1 - m.bytes.length
  notDot : m.bytes ≠ [dot]
  notDotDot : m.bytes ≠ [dot, dot]

theorem named_of_room (h : st.p.head? ≠ some slash) (hp : st.p ≠ []) (hdot : atDot st.p = false)
    (hdd : atDotDot st.p = false) (hroom : 1 < st.n) (hn : 0 < (nextName st).2.2) : ∃ m, Named st m := by
  have hspec := (copyName_spec (p := st.p) (show 0 < st.n - 1 by omega)).2.2 hn
  obtain ⟨hrest, hslash, hbound, hcount⟩ := hspec
  have hne : (copyName (st.n - 1) st.p).1 ≠ [] := by
    intro hnil
    rw [hnil, List.nil_append] at hrest
    rw [← hrest] at hbound
    cases hp' : st.p with
    | nil => exact hp hp'
    | cons c p =>
      rw [hp'] at hbound h
      exact h (congrArg some hbound)
  refine ⟨⟨(copyName (st.n - 1) st.p).1, hne, hslash⟩, hrest, hbound, rfl, hcount, fun hc => ?_, fun hc => ?_⟩
  · have hp' : st.p = [dot] ++ (copyName (st.n - 1) st.p).2.1 := hrest.trans (congrArg (· ++ _) hc)
    have hat : atDot st.p = true := atDot_iff.mpr ⟨_, hp', hbound⟩
    rw [hdot] at hat
    cases hat
  have hp' : st.p = [dot, dot] ++ (copyName (st.n - 1) st.p).2.1 := hrest.trans (congrArg (· ++ _) hc)
  have hat : atDotDot st.p = true := atDotDot_iff.mpr ⟨_, hp', hbound⟩
  rw [hdd] at hat
  cases hat

theorem Named.render (h : Named st m) (ho : st.o = render q) :
    (nextName st).1 = Fs.render (q ++ [m]) := by
  rw [h.output, ho, render_concat]

theorem exists_concat_of_length (h : 0 < (render q).length) : ∃ q' m, q = q' ++ [m] := by
  rcases List.eq_nil_or_concat q with hnil | ⟨q', m, hq⟩
  · rw [hnil] at h
    exact absurd h (Nat.lt_irrefl 0)
  · exact ⟨q', m, by rw [hq, List.concat_eq_append]⟩

theorem walkInv_next (h : WalkInv st) (hadv : Advances fs root follow st st') : WalkInv st' := by
  obtain ⟨q, hplain, ho⟩ := h.output
  cases hadv with
  | dot => exact ⟨h.output, h.count, h.room, skipSlashes_head _⟩
  | floor => exact ⟨h.output, h.count, h.room, skipSlashes_head _⟩
  | pop o' hp hdd habove hpop =>
    obtain ⟨q', m, rfl⟩ := exists_concat_of_length (q := q) (by rw [← ho]; omega)
    rw [ho, popName_concat] at hpop
    obtain rfl : render q' = o' := Option.some.inj hpop
    have hcount := h.count
    have hroom := h.room
    have hlen : st.o.length = (render q').length + 1 + m.bytes.length := by
      rw [ho, length_render_concat]
    refine ⟨⟨q', hplain.left, rfl⟩, ?_, ?_, skipSlashes_head _⟩
    · dsimp only
      omega
    · dsimp only
      omega
  | name hp hdot hdd hroom hn =>
    obtain ⟨m, hm⟩ := named_of_room h.head hp hdot hdd hroom hn
    have hcount := h.count
    refine ⟨⟨q ++ [m], hplain.concat hm.notDot hm.notDotDot, hm.render ho⟩, ?_, Int.le_of_lt hn,
      skipSlashes_head _⟩
    dsimp only
    rw [hm.count, hm.output, List.length_append, List.length_cons]
    omega
  | link text st' hp hdot hdd hroom hn hwhen hlink hfollow =>
    obtain ⟨left, _, _, rfl⟩ := followLink_next hfollow
    exact walkInv_start ⟨[], fun k hk => (by cases hk), rfl⟩ (by decide) _

def Inside (r : Path) (st : WalkState) : Prop :=
  (∃ q, st.o = render (r ++ q)) ∨
    ∃ r₁ r₂ tail, r = r₁ ++ r₂ ∧ r₂ ≠ [] ∧ st.o = render r₁ ∧ slash :: st.p = render r₂ ++ tail ∧ Boundary tail

theorem inside_start {left : Nat} (htail : Boundary tail) : Inside r (.start left [] (render r ++ tail)) := by
  cases r with
  | nil => exact .inl ⟨[], rfl⟩
  | cons m r =>
    refine .inr ⟨[], m :: r, tail, rfl, List.cons_ne_nil m r, rfl, ?_, htail⟩
    show slash :: skipSlashes (slash :: (m.bytes ++ render r) ++ tail) = _
    rw [List.cons_append, List.append_assoc, skipSlashes_slash (head_name m _), render, List.cons_append,
      List.append_assoc]

def Guarded (fs : Lookups) (root : Blob) (follow : Bool) (r : Path) (st : WalkState) : Prop :=
  root = render r ∨ (root = [] ∧ ¬ Leaves fs follow r st)

theorem takenLink_eq (hp : st.p ≠ []) (hdot : atDot st.p = false) (hdd : atDotDot st.p = false)
    (hroom : 1 < st.n) (hn : 0 < (nextName st).2.2) (hwhen : follow ∨ skipSlashes (nextName st).2.1 ≠ [])
    {text : Blob} (hlink : fs.readlink (nextName st).1 = some text) :
    takenLink fs follow st = some (cstr (text.take (maxPath - (st.o.length + 1)))) := by
  unfold takenLink
  rw [if_neg, if_pos hwhen, hlink]
  · rfl
  rintro (hc | hc | hc | hc | hc)
  · exact hp hc
  · rw [hdot] at hc
    cases hc
  · rw [hdd] at hc
    cases hc
  · omega
  · omega

theorem expandLink_inside (hguard : root = render r ∨ (root = [] ∧ (a.head? = some slash →
      ∃ tail, a = render r ++ tail ∧ Boundary tail))) (rest : Blob) :
    ∃ tail, expandLink root (render (r ++ q)) a rest = render r ++ tail ∧ Boundary tail := by
  have hrest : Boundary (if rest = [] then [] else slash :: rest) := by
    split
    · trivial
    · exact rfl
  unfold expandLink
  split
  case isTrue habs =>
    rcases hguard with rfl | ⟨rfl, htext⟩
    · exact ⟨a ++ _, List.append_assoc _ _ _, boundary_append (boundary_of_head habs) hrest⟩
    obtain ⟨tail, htext, htail⟩ := htext habs
    refine ⟨tail ++ if rest = [] then [] else slash :: rest, ?_, boundary_append htail hrest⟩
    rw [htext, List.nil_append, List.append_assoc]
  case isFalse =>
    refine ⟨render q ++ (slash :: a ++ if rest = [] then [] else slash :: rest), ?_,
      boundary_append (boundary_render q) rfl⟩
    rw [render_append, List.append_assoc, List.append_assoc]

theorem name_of_root (hm : m.bytes ≠ [dot] ∧ m.bytes ≠ [dot, dot]) (hb : Boundary b)
    (hp : st.p = m.bytes ++ b) : st.p ≠ [] ∧ atDot st.p = false ∧ atDotDot st.p = false ∧
      ∀ m', Named st m' → m' = m ∧ (nextName st).2.1 = b := by
  have hdots : ∀ {l rest : Blob}, slash ∉ l → st.p = l ++ rest → Boundary rest → m.bytes = l :=
    fun hl hpl hrest => (name_unique m.noSlash hl hb hrest (hp ▸ hpl)).1
  refine ⟨fun hc => ?_, ?_, ?_, fun m' hm' => ?_⟩
  · rw [hc] at hp
    exact m.nonempty (List.append_eq_nil_iff.mp hp.symm).1
  · rw [← Bool.not_eq_true, atDot_iff]
    rintro ⟨rest, hrest, hbound⟩
    exact hm.1 (hdots (l := [dot]) (by decide) hrest hbound)
  · rw [← Bool.not_eq_true, atDotDot_iff]
    rintro ⟨rest, hrest, hbound⟩
    exact hm.2 (hdots (l := [dot, dot]) (by decide) hrest hbound)
  obtain ⟨hbytes, hrest⟩ := name_unique m'.noSlash m.noSlash hm'.boundary hb (hm'.rest ▸ hp)
  refine ⟨?_, hrest⟩
  cases m
  cases m'
  cases hbytes
  rfl

theorem inside_of_under (hinv : WalkInv st) (hq : st.o = render (r ++ q)) (hg : Guarded fs root follow r st)
    (hadv : Advances fs root follow st st') : Inside r st' := by
  cases hadv with
  | dot => exact .inl ⟨q, hq⟩
  | floor => exact .inl ⟨q, hq⟩
  | pop o' hp hdd habove hpop =>
    rcases List.eq_nil_or_concat q with rfl | ⟨q', m, hconcat⟩
    · -- at the root itself
      rw [List.append_nil] at hq
      rcases hg with rfl | ⟨rfl, hstay⟩
      · rw [hq] at habove
        exact absurd habove (Nat.lt_irrefl _)
      refine absurd (.inl ⟨fun hr => ?_, hdd, hq⟩) hstay
      rw [hq, hr] at habove
      exact absurd habove (Nat.lt_irrefl 0)
    · rw [hq, hconcat, List.concat_eq_append, ← List.append_assoc, popName_concat] at hpop
      exact .inl ⟨q', (Option.some.inj hpop).symm⟩
  | name hp hdot hdd hroom hn =>
    obtain ⟨m, hm⟩ := named_of_room hinv.head hp hdot hdd hroom hn
    refine .inl ⟨q ++ [m], ?_⟩
    rw [← List.append_assoc]
    exact hm.render hq
  | link text st' hp hdot hdd hroom hn hwhen hlink hfollow =>
    obtain ⟨left, _, _, rfl⟩ := followLink_next hfollow
    have htaken := takenLink_eq hp hdot hdd hroom hn hwhen hlink
    generalize cstr (text.take (maxPath - (st.o.length + 1))) = c at htaken ⊢
    have hguard : root = render r ∨ (root = [] ∧ (c.head? = some slash →
        ∃ tail, c = render r ++ tail ∧ Boundary tail)) := by
      refine hg.imp_right fun ⟨hroot, hstay⟩ => ⟨hroot, fun habs => ?_⟩
      exact Classical.byContradiction fun hno => hstay (.inr ⟨c, htaken, habs, hno⟩)
    obtain ⟨tail, htail, hbound⟩ := expandLink_inside (q := q) hguard (skipSlashes (nextName st).2.1)
    rw [hq, htail]
    exact inside_start hbound

theorem inside_of_part {r₁ r₂ : Path} (hr : Plain (r₁ ++ m :: r₂)) (hno : NoLinks fs (r₁ ++ m :: r₂))
    (hinv : WalkInv st) (ho : st.o = render r₁) (hp : st.p = m.bytes ++ (render r₂ ++ tail))
    (htail : Boundary tail) (hadv : Advances fs root follow st st') : Inside (r₁ ++ m :: r₂) st' := by
  have hm := hr m (List.mem_append_right _ List.mem_cons_self)
  obtain ⟨_, hdot, hdd, hnamed⟩ := name_of_root hm (boundary_append (boundary_render r₂) htail) hp
  cases hadv with
  | dot _ h =>
    rw [hdot] at h
    cases h
  | floor _ h =>
    rw [hdd] at h
    cases h
  | pop _ _ h =>
    rw [hdd] at h
    cases h
  | name hne _ _ hroom hn =>
    obtain ⟨m', hm'⟩ := named_of_room hinv.head hne hdot hdd hroom hn
    obtain ⟨rfl, hrest⟩ := hnamed m' hm'
    cases r₂ with
    | nil => exact .inl ⟨[], by rw [List.append_nil]; exact hm'.render ho⟩
    | cons k r₂ =>
      refine .inr ⟨r₁ ++ [m'], k :: r₂, tail, ?_, List.cons_ne_nil k r₂, hm'.render ho, ?_, htail⟩
      · rw [List.append_assoc, List.singleton_append]
      · dsimp only
        rw [hrest, render, List.cons_append, List.append_assoc, skipSlashes_slash (head_name k _)]
  | link text st' hne _ _ hroom hn _ hlink =>
    obtain ⟨m', hm'⟩ := named_of_room hinv.head hne hdot hdd hroom hn
    obtain ⟨rfl, _⟩ := hnamed m' hm'
    rw [hm'.render ho, hno (r₁ ++ [m']) r₂ (by rw [List.append_assoc, List.singleton_append])] at hlink
    cases hlink

theorem rest_of_part {r₂ : Path} (h : slash :: p = render (m :: r₂) ++ tail) :
    p = m.bytes ++ (render r₂ ++ tail) := by
  rw [render, List.cons_append, List.append_assoc] at h
  exact (List.cons.inj h).2

theorem inside_next (hr : Plain r) (hno : NoLinks fs r) (hinv : WalkInv st) (hin : Inside r st)
    (hg : Guarded fs root follow r st) (hadv : Advances fs root follow st st') : Inside r st' := by
  rcases hin with ⟨q, hq⟩ | ⟨r₁, r₂, tail, rfl, hne, ho, hp, htail⟩
  · exact inside_of_under hinv hq hg hadv
  cases r₂ with
  | nil => exact absurd rfl hne
  | cons m r₂ => exact inside_of_part hr hno hinv ho (rest_of_part hp) htail hadv

theorem under_of_returns (hin : Inside r st) (hret : Returns root st (.ok out)) : Under r out := by
  rcases hret with ⟨heq, hp, _⟩ | ⟨e, heq⟩ | ⟨heq, _⟩
  · cases heq
    rcases hin with ⟨q, hq⟩ | ⟨r₁, r₂, tail, rfl, hne, _, hpart, _⟩
    · exact ⟨q, hq⟩
    · -- the path is not at its end inside of the root
      cases r₂ with
      | nil => exact absurd rfl hne
      | cons m r₂ =>
        have hrest := rest_of_part hpart
        rw [hp] at hrest
        exact absurd (List.append_eq_nil_iff.mp hrest.symm).1 m.nonempty
  · cases heq
  · cases heq

theorem under_result (hr : Plain r) (hno : NoLinks fs r) (hinv : WalkInv st) (hin : Inside r st)
    (hg : ∀ t, (pathWalk fs root follow).Visits st t → Guarded fs root follow r t) :
    ∀ out, (pathWalk fs root follow).result st = .ok out → Under r out := by
  refine Loop.result_of_invariant (Guarded fs root follow r) (fun t => WalkInv t ∧ Inside r t)
    (fun res => ∀ out, res = .ok out → Under r out) ?_ ?_ hg ⟨hinv, hin⟩
  · intro t t' ⟨hinv, hin⟩ hguard hnext
    have hadv := advances_of_next hnext
    exact ⟨walkInv_next hinv hadv, inside_next hr hno hinv hin hguard hadv⟩
  intro t res ⟨_, hin⟩ _ hret out hout
  subst hout
  exact under_of_returns hin (returns_of_return hret)

/-! ## The functions -/

theorem getpath_eq_slash : getpath q = [slash] ↔ q = [] := by
  unfold getpath
  split
  case isTrue h => exact ⟨fun _ => h, fun _ => rfl⟩
  case isFalse h =>
    refine ⟨fun hc => ?_, fun hc => absurd hc h⟩
    cases q with
    | nil => rfl
    | cons m q =>
      have hnil := (List.cons.inj hc).2
      exact absurd (List.append_eq_nil_iff.mp hnil).1 m.nonempty

theorem getpath_of_ne (h : q ≠ []) : getpath q = render q := if_neg h

theorem pathNormalizeAt_getpath (fs : Lookups) (root : Blob) (follow : Bool) (path : Blob) (q : Path) :
    (∃ e, pathNormalizeAt fs root follow (some (getpath q)) path = .err e) ∨
      (render q).length < maxPath ∧ pathNormalizeAt fs root follow (some (getpath q)) path =
        (pathWalk fs root follow).result (.start 5 (render q) path) := by
  unfold pathNormalizeAt
  split
  · exact .inl ⟨_, rfl⟩
  dsimp only
  split
  case isTrue hslash =>
    rw [getpath_eq_slash.mp hslash]
    exact .inr ⟨by decide, rfl⟩
  case isFalse hslash =>
    have hne : q ≠ [] := fun hc => hslash (getpath_eq_slash.mpr hc)
    rw [getpath_of_ne hne]
    split
    · exact .inl ⟨_, rfl⟩
    case isFalse hlong => exact .inr ⟨Nat.lt_of_not_le hlong, rfl⟩

theorem under_pathNormalizeAt (hr : Plain r) (hno : NoLinks fs r) (hq : Plain (r ++ q))
    (hg : ∀ t, (pathWalk fs root follow).Visits (.start 5 (render (r ++ q)) path) t →
      Guarded fs root follow r t) :
    ∀ out, pathNormalizeAt fs root follow (some (getpath (r ++ q))) path = .ok out → Under r out := by
  intro out hout
  rcases pathNormalizeAt_getpath fs root follow path (r ++ q) with
    ⟨e, heq⟩ | ⟨hlen, heq⟩
  · rw [heq] at hout
    cases hout
  · rw [heq] at hout
    exact under_result hr hno (walkInv_start ⟨r ++ q, hq, rfl⟩ hlen path) (.inl ⟨q, rfl⟩) hg out hout

theorem normal_start (hr : Plain r) (hat : at'.Normal) (path : Blob) :
    (if path.head? = some slash then At.dir (.ok (getpath r)) else at').Normal := by
  split
  · exact ⟨r, hr, rfl⟩
  · exact hat

theorem under_of_test (htest : (getpath q).take (render r).length = render r ∧
    Boundary ((getpath q).drop (render r).length)) : ∃ q', q = r ++ q' := by
  by_cases hq : q = []
  case pos =>
    subst hq
    cases r with
    | nil => exact ⟨[], rfl⟩
    | cons m r =>
      -- a slash alone has no room for a name
      have hlen := congrArg List.length htest.1
      rw [List.length_take] at hlen
      have hroot : (getpath []).length = 1 := rfl
      have hm := List.length_pos_iff.mpr m.nonempty
      rw [render, List.length_cons, List.length_append] at hlen
      omega
  case neg =>
    rw [getpath_of_ne hq] at htest
    have hsplit := List.take_append_drop (render r).length (render q)
    rw [htest.1] at hsplit
    obtain ⟨q', hq', _⟩ := render_append_iff.mp ⟨hsplit.symm, htest.2⟩
    exact ⟨q', hq'⟩

theorem rootPath_getpath (r : Path) : (if getpath r = [slash] then [] else getpath r) = render r := by
  split
  case isTrue h =>
    rw [getpath_eq_slash.mp h]
    rfl
  case isFalse h => exact getpath_of_ne fun hc => h (getpath_eq_slash.mpr hc)

/-- The path of **`path_normalize_in_fs`** is under the root, whatever the path and the links are. -/
theorem pathNormalizeInFs_under (hr : Plain r) (hno : NoLinks fs r) (hat : at'.Normal) (path : Blob)
    (follow : Bool) : ∀ out, pathNormalizeInFs fs (.ok (getpath r)) at' path follow = .ok out → Under r out := by
  intro out hout
  have hstart := normal_start hr hat path
  unfold pathNormalizeInFs at hout
  split at hout
  · cases hout
  generalize (if path.head? = some slash then At.dir (.ok (getpath r)) else at') = start at hstart hout
  match start, hstart with
  | .null, _ => cases hout
  | .failed e, _ => cases hout
  | .dir (.error e), _ => cases hout
  | .dir (.ok _), ⟨q, hq, rfl⟩ =>
    dsimp only at hout
    rw [rootPath_getpath] at hout
    split at hout
    case isTrue htest =>
      obtain ⟨q', rfl⟩ := under_of_test htest
      exact under_pathNormalizeAt hr hno hq (fun t _ => .inl rfl) out hout
    case isFalse => cases hout

/-- The root `/jail`. -/
def jail : Name := ⟨[0x6a, 0x61, 0x69, 0x6c], by decide, by decide⟩

/-- `/jail/l` is a link to `/etc`; nothing else is a link. -/
def linkFs : Lookups :=
  ⟨fun p => if p = [0x2f, 0x6a, 0x61, 0x69, 0x6c, 0x2f, 0x6c] then some [0x2f, 0x65, 0x74, 0x63] else none,
    fun _ => 0⟩

theorem plain_jail : Plain [jail] := by
  intro k hk
  rw [List.mem_singleton.mp hk]
  decide

theorem noLinks_jail : NoLinks linkFs [jail] := by
  intro p q hpq
  have hne : render p ≠ [0x2f, 0x6a, 0x61, 0x69, 0x6c, 0x2f, 0x6c] := by
    match p, hpq with
    | [], _ => decide
    | [k], hpq =>
      obtain rfl : jail = k := (List.cons.inj hpq).1
      decide
    | _ :: _ :: _, hpq => cases hpq
  exact if_neg hne

def jailDir : At := .dir (.ok (getpath [jail]))

theorem pathNormalizeInFs_under_jail : Under [jail] [0x2f, 0x6a, 0x61, 0x69, 0x6c, 0x2f, 0x61] := by
  have hnormal : jailDir.Normal := ⟨[jail], plain_jail, rfl⟩
  have hnext : (pathWalk linkFs (render [jail]) true).step (.start 5 (render [jail]) [0x61]) =
      .inl ⟨5, render [jail] ++ [0x2f, 0x61], 4088, []⟩ := rfl
  exact pathNormalizeInFs_under plain_jail noLinks_jail hnormal [0x61] true _
    ((Loop.result_of_next hnext).trans (Loop.result_of_return rfl))

end IosLinuxkit.Fs.Resolve
