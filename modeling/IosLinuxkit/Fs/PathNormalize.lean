import IosLinuxkit.Lib.Loop
import IosLinuxkit.Fs.GuestPath

/-!
# Path resolution

`fs/path.c`. An iteration of the loop of `__path_normalize` works on the output so far, the counter `n`
of the room in it, and the rest of the path. The call of itself on an expanded link is an iteration too,
with one level less. A write outside of a buffer, a read before it and a failed assertion are a `fault`.
-/

namespace IosLinuxkit.Fs.Resolve

def maxPath : Nat := 4096
def eNOENT : Int := -2
def eLOOP : Int := -40
def eNAMETOOLONG : Int := -36
def dot : UInt8 := 0x2e

/-- What the lookups of the mounted file systems return for a path: the text of a link, or nothing where
`readlink` fails; and the outcome of `stat` with the check of a directory, negative where it ends the
resolution. -/
structure Lookups where
  readlink : Blob → Option Blob
  search : Blob → Int

inductive Resolved where
  | ok (out : Blob)
  | err (e : Int)
  | fault

/-! ## Pieces -/

def skipSlashes (p : Blob) : Blob := p.dropWhile (· == slash)

def cstr (l : Blob) : Blob := l.takeWhile (· != 0)

/-- `path_is_normalized`, inside of a name -/
def namesNormalized : Blob → Bool
  | [] => true
  | c :: path =>
    if c = slash then path.head? != some slash && namesNormalized path else namesNormalized path

def pathIsNormalized : Blob → Bool
  | [] => true
  | c :: path => c == slash && path.head? != some slash && namesNormalized path

/-- `do { o--; } while (*o != '/');`, or nothing if it comes to the beginning. -/
def popName (o : Blob) : Option Blob :=
  match o.reverse.dropWhile (· != slash) with
  | [] => none
  | _ :: before => some before.reverse

/-- `while (*p != '/' && *p != '\0' && --n > 0) *o++ = *p++;`: what is copied, the rest, and `n`. -/
def copyName (n : Int) : Blob → Blob × Blob × Int
  | [] => ([], [], n)
  | c :: p =>
    if c = slash then ([], c :: p, n)
    else if 0 < n - 1 then
      let (name, rest, n) := copyName (n - 1) p
      (c :: name, rest, n)
    else ([], c :: p, n - 1)

def atDot (p : Blob) : Bool := p.head? == some dot && (p.length == 1 || p[1]? == some slash)
def atDotDot (p : Blob) : Bool :=
  p.head? == some dot && p[1]? == some dot && (p.length == 2 || p[2]? == some slash)

/-! ## The loop -/

/-- `left` is `5 - levels`. -/
structure WalkState where
  left : Nat
  o : Blob
  n : Int
  p : Blob

/-- What `__path_normalize` starts with, when `at_path` is copied to the output. -/
def WalkState.start (left : Nat) (o path : Blob) : WalkState :=
  ⟨left, o, (maxPath : Int) - 1 - o.length, skipSlashes path⟩

/-- The name that an iteration appends, with the output after it, the rest, and `n`. -/
def nextName (st : WalkState) : Blob × Blob × Int :=
  let (name, rest, n) := copyName (st.n - 1) st.p
  (st.o ++ slash :: name, rest, n)

/-- The path that a link with the text `c` expands to, from the root if the text is absolute. -/
def expandLink (root o c rest : Blob) : Blob :=
  (if c.head? = some slash then root ++ c else o ++ slash :: c) ++
    if rest = [] then [] else slash :: rest

/-- A link at the output `o`, which `c` points behind the slash of. The root is empty when there is none. -/
def followLink (root o link rest : Blob) : Nat → WalkState ⊕ Resolved
  | 0 => .inr (.err eLOOP)
  | left + 1 =>
    -- `readlink` fills what is left of the buffer, and the tests below leave room for the terminators
    let room := maxPath - (o.length + 1)
    let link := link.take room
    if room ≤ link.length then .inr (.err eNAMETOOLONG)
    else
      let c := cstr link
      if c.head? = some slash ∧ root ≠ [] ∧ maxPath ≤ root.length + c.length then
        .inr (.err eNAMETOOLONG)
      else
        let expanded := expandLink root o c rest
        if maxPath ≤ expanded.length then .inr (.err eNAMETOOLONG)
        else .inl (.start left [] expanded)

/-- An iteration of `__path_normalize`. -/
def walkStep (fs : Lookups) (root : Blob) (follow : Bool) (st : WalkState) : WalkState ⊕ Resolved :=
  if st.p = [] then
    .inr (if maxPath ≤ st.o.length ∨ ¬ pathIsNormalized st.o then .fault else .ok st.o)
  else if atDot st.p then .inl { st with p := skipSlashes (st.p.drop 1) }
  else if atDotDot st.p then
    if root.length < st.o.length then
      match popName st.o with
      | none => .inr .fault
      | some o => .inl { st with
          o := o
          n := st.n + (st.o.length - o.length)
          p := skipSlashes (st.p.drop 2) }
    else .inl { st with p := skipSlashes (st.p.drop 2) }
  else if st.n ≤ 1 then .inr (.err eNAMETOOLONG)
  else
    let (o, rest, n) := nextName st
    let p := skipSlashes rest
    if maxPath < o.length then .inr .fault
    else if n ≤ 0 then .inr (.err eNAMETOOLONG)
    else if follow ∨ p ≠ [] then
      -- the terminator, and the assertion on the path that the mount is looked up with
      if maxPath ≤ o.length ∨ ¬ pathIsNormalized o then .inr .fault
      else
        match fs.readlink o with
        | some link => followLink root st.o link p st.left
        | none =>
          if rest.head? = some slash ∧ fs.search o < 0 then .inr (.err (fs.search o))
          else .inl { st with o := o, n := n, p := p }
    else .inl { st with o := o, n := n, p := p }

/-! ## It ends -/

theorem length_skipSlashes (p : Blob) : (skipSlashes p).length ≤ p.length :=
  (List.dropWhile_sublist (l := p) (· == slash)).length_le

theorem length_copyName (n : Int) (p : Blob) : (copyName n p).2.1.length ≤ p.length := by
  induction p generalizing n with
  | nil => exact Nat.le_refl 0
  | cons c p ih =>
    rw [copyName]
    split
    · exact Nat.le_refl _
    split
    · exact Nat.le_succ_of_le (ih (n - 1))
    · exact Nat.le_refl _

theorem length_skipSlashes_copyName {n : Int} {p : Blob} (hp : p ≠ []) (hn : 0 < (copyName n p).2.2) :
    (skipSlashes (copyName n p).2.1).length < p.length := by
  cases p with
  | nil => exact absurd rfl hp
  | cons c p =>
    rw [copyName] at hn ⊢
    split at hn
    case isTrue hc =>
      -- no name, and at least one slash
      rw [if_pos hc, hc]
      show (skipSlashes (slash :: p)).length < p.length + 1
      have hskip : skipSlashes (slash :: p) = skipSlashes p := by
        unfold skipSlashes
        rw [List.dropWhile_cons_of_pos (by decide)]
      rw [hskip]
      exact Nat.lt_succ_of_le (length_skipSlashes p)
    case isFalse hc =>
      rw [if_neg hc]
      split at hn
      case isTrue hroom =>
        rw [if_pos hroom]
        have hrest := length_copyName (n - 1) p
        exact Nat.lt_succ_of_le (Nat.le_trans (length_skipSlashes _) hrest)
      case isFalse hroom =>
        have hn' : 0 < n - 1 := hn
        omega

/-- The bytes that are left, with the length of a buffer for each level. -/
def WalkState.size (st : WalkState) : Nat := st.left * maxPath + st.p.length

variable {root o rest : Blob} {left : Nat} {st : WalkState}

theorem followLink_next {link : Blob}
    (h : followLink root o link rest left = .inl st) : ∃ left', left = left' + 1 ∧
      (expandLink root o (cstr (link.take (maxPath - (o.length + 1)))) rest).length < maxPath ∧
      st = .start left' [] (expandLink root o (cstr (link.take (maxPath - (o.length + 1)))) rest) := by
  cases left with
  | zero => cases h
  | succ left =>
    unfold followLink at h
    dsimp only at h
    split at h
    · cases h
    split at h
    · cases h
    split at h
    · cases h
    case isFalse hlong =>
      cases h
      exact ⟨left, rfl, Nat.lt_of_not_le hlong, rfl⟩

theorem size_followLink {link : Blob}
    (h : followLink root o link rest left = .inl st) : st.size < left * maxPath := by
  obtain ⟨left', rfl, hlong, rfl⟩ := followLink_next h
  rw [WalkState.size, WalkState.start, Nat.succ_mul]
  exact Nat.add_lt_add_left (Nat.lt_of_le_of_lt (length_skipSlashes _) hlong) _

inductive Advances (fs : Lookups) (root : Blob) (follow : Bool) (st : WalkState) : WalkState → Prop where
  | dot (hp : st.p ≠ []) (h : atDot st.p = true) :
    Advances fs root follow st { st with p := skipSlashes (st.p.drop 1) }
  | floor (hp : st.p ≠ []) (h : atDotDot st.p = true) (hfloor : st.o.length ≤ root.length) :
    Advances fs root follow st { st with p := skipSlashes (st.p.drop 2) }
  | pop (o : Blob) (hp : st.p ≠ []) (h : atDotDot st.p = true) (habove : root.length < st.o.length)
    (hpop : popName st.o = some o) :
    Advances fs root follow st { st with
      o := o
      n := st.n + (st.o.length - o.length)
      p := skipSlashes (st.p.drop 2) }
  | name (hp : st.p ≠ []) (hdot : atDot st.p = false) (hdd : atDotDot st.p = false) (hroom : 1 < st.n)
    (hn : 0 < (nextName st).2.2) :
    Advances fs root follow st { st with
      o := (nextName st).1
      n := (nextName st).2.2
      p := skipSlashes (nextName st).2.1 }
  | link (text : Blob) (st' : WalkState) (hp : st.p ≠ []) (hdot : atDot st.p = false)
    (hdd : atDotDot st.p = false) (hroom : 1 < st.n) (hn : 0 < (nextName st).2.2)
    (hwhen : follow ∨ skipSlashes (nextName st).2.1 ≠ []) (hlink : fs.readlink (nextName st).1 = some text)
    (hfollow : followLink root st.o text (skipSlashes (nextName st).2.1) st.left = .inl st') :
    Advances fs root follow st st'

def Faults (root : Blob) (st : WalkState) : Prop :=
  (st.p = [] ∧ (maxPath ≤ st.o.length ∨ pathIsNormalized st.o = false)) ∨
    (st.p ≠ [] ∧ root.length < st.o.length ∧ popName st.o = none) ∨
      (st.p ≠ [] ∧ atDot st.p = false ∧ atDotDot st.p = false ∧ 1 < st.n ∧
        (maxPath < (nextName st).1.length ∨ (0 < (nextName st).2.2 ∧
          (maxPath ≤ (nextName st).1.length ∨ pathIsNormalized (nextName st).1 = false))))

def Returns (root : Blob) (st : WalkState) (r : Resolved) : Prop :=
  (r = .ok st.o ∧ st.p = [] ∧ st.o.length < maxPath) ∨ (∃ e, r = .err e) ∨ (r = .fault ∧ Faults root st)

theorem followLink_return {text : Blob} {r : Resolved}
    (h : followLink root o text rest left = .inr r) : ∃ e, r = .err e := by
  cases left with
  | zero =>
    cases h
    exact ⟨_, rfl⟩
  | succ left =>
    unfold followLink at h
    dsimp only at h
    split at h
    · cases h
      exact ⟨_, rfl⟩
    split at h
    · cases h
      exact ⟨_, rfl⟩
    split at h
    · cases h
      exact ⟨_, rfl⟩
    · cases h

/-- **An iteration.** It goes on or returns in one of these ways. -/
theorem walkStep_spec (fs : Lookups) (root : Blob) (follow : Bool) (st : WalkState) :
    Sum.elim (Advances fs root follow st) (Returns root st) (walkStep fs root follow st) := by
  unfold walkStep
  split
  case isTrue hp =>
    by_cases hf : maxPath ≤ st.o.length ∨ ¬ pathIsNormalized st.o = true
    · rw [if_pos hf]
      rw [Bool.not_eq_true] at hf
      exact .inr (.inr ⟨rfl, .inl ⟨hp, hf⟩⟩)
    · rw [if_neg hf]
      exact .inl ⟨rfl, hp, Nat.lt_of_not_le fun hc => hf (.inl hc)⟩
  case isFalse hp =>
    split
    case isTrue hdot => exact .dot hp hdot
    case isFalse hdot =>
      have hdot' : atDot st.p = false := Bool.not_eq_true _ ▸ hdot
      split
      case isTrue hdd =>
        split
        case isTrue habove =>
          split
          case h_1 hpop => exact .inr (.inr ⟨rfl, .inr (.inl ⟨hp, habove, hpop⟩)⟩)
          case h_2 o hpop => exact .pop o hp hdd habove hpop
        case isFalse habove => exact .floor hp hdd (Nat.le_of_not_lt habove)
      case isFalse hdd =>
        have hdd' : atDotDot st.p = false := Bool.not_eq_true _ ▸ hdd
        split
        · exact .inr (.inl ⟨_, rfl⟩)
        case isFalse hroom =>
          have hroom' : 1 < st.n := Int.not_le.mp hroom
          dsimp only
          split
          case isTrue hlong => exact .inr (.inr ⟨rfl, .inr (.inr ⟨hp, hdot', hdd', hroom', .inl hlong⟩)⟩)
          split
          · exact .inr (.inl ⟨_, rfl⟩)
          case isFalse hn =>
            have hn' : 0 < (nextName st).2.2 := Int.not_le.mp hn
            split
            case isTrue hwhen =>
              split
              case isTrue hf =>
                rw [Bool.not_eq_true] at hf
                exact .inr (.inr ⟨rfl, .inr (.inr ⟨hp, hdot', hdd', hroom', .inr ⟨hn', hf⟩⟩)⟩)
              split
              case h_1 text hlink =>
                cases hfollow : followLink root st.o text (skipSlashes (nextName st).2.1) st.left with
                | inl st' => exact .link text st' hp hdot' hdd' hroom' hn' hwhen hlink hfollow
                | inr r => exact .inr (.inl (followLink_return hfollow))
              case h_2 =>
                split
                · exact .inr (.inl ⟨_, rfl⟩)
                · exact .name hp hdot' hdd' hroom' hn'
            case isFalse => exact .name hp hdot' hdd' hroom' hn'

theorem advances_of_next {fs : Lookups} {follow : Bool} {st' : WalkState}
    (h : walkStep fs root follow st = .inl st') : Advances fs root follow st st' := by
  have hspec := walkStep_spec fs root follow st
  rw [h] at hspec
  exact hspec

theorem returns_of_return {fs : Lookups} {follow : Bool} {r : Resolved}
    (h : walkStep fs root follow st = .inr r) : Returns root st r := by
  have hspec := walkStep_spec fs root follow st
  rw [h] at hspec
  exact hspec

theorem walkStep_decreases (fs : Lookups) (root : Blob) (follow : Bool) (st st' : WalkState)
    (h : walkStep fs root follow st = .inl st') : st'.size < st.size := by
  -- without a link the rest gets shorter
  have hshort : ∀ {p : Blob} {o : Blob} {n : Int}, p.length < st.p.length →
      WalkState.size { st with o := o, n := n, p := p } < st.size :=
    fun hp => Nat.add_lt_add_left hp _
  have hdrop : ∀ k, 0 < k → st.p ≠ [] → (skipSlashes (st.p.drop k)).length < st.p.length := by
    intro k hk hp
    have hpos : 0 < st.p.length := List.length_pos_iff.mpr hp
    refine Nat.lt_of_le_of_lt (length_skipSlashes _) ?_
    rw [List.length_drop]
    omega
  cases advances_of_next h with
  | dot hp => exact hshort (hdrop 1 (by decide) hp)
  | floor hp => exact hshort (hdrop 2 (by decide) hp)
  | pop o hp => exact hshort (hdrop 2 (by decide) hp)
  | name hp _ _ _ hn => exact hshort (length_skipSlashes_copyName hp hn)
  | link text st' _ _ _ _ _ _ _ hfollow =>
    exact Nat.lt_of_lt_of_le (size_followLink hfollow) (Nat.le_add_right _ _)

/-- The loop of `__path_normalize`. -/
def pathWalk (fs : Lookups) (root : Blob) (follow : Bool) : Loop WalkState Resolved :=
  ⟨walkStep fs root follow, WalkState.size, walkStep_decreases fs root follow⟩

/-! ## The functions -/

/-- `__path_normalize` from level 0 on. -/
def pathNormalizeAt (fs : Lookups) (root : Blob) (follow : Bool) (atPath : Option Blob) (path : Blob) :
    Resolved :=
  if path = [] then .err eNOENT
  else
    match atPath with
    | none => (pathWalk fs root follow).result (.start 5 [] path)
    | some atPath =>
      if atPath = [slash] then (pathWalk fs root follow).result (.start 5 [] path)
      else if maxPath ≤ atPath.length then .err eNAMETOOLONG
      else (pathWalk fs root follow).result (.start 5 atPath path)

def eBADF : Int := -9
def eXDEV : Int := -18

/-- `at`, after `AT_PWD` has become the directory: `NULL`, an error pointer, or an open directory with the
outcome of `generic_getpath`. -/
inductive At where
  | null
  | failed (e : Int)
  | dir (path : Except Int Blob)

def pathNormalizeInFs (fs : Lookups) (root : Except Int Blob) (at' : At) (path : Blob) (follow : Bool) :
    Resolved :=
  if path = [] then .err eNOENT
  else
    match if path.head? = some slash then .dir root else at', root with
    | .null, _ => .err eBADF
    | .failed _, _ => .err eBADF
    | .dir _, .error e => .err e
    | .dir (.error e), .ok _ => .err e
    | .dir (.ok atPath), .ok rootPath =>
      let rootPath := if rootPath = [slash] then [] else rootPath
      if atPath.take rootPath.length = rootPath ∧ Boundary (atPath.drop rootPath.length) then
        pathNormalizeAt fs rootPath follow (some atPath) path
      else .err eXDEV

/-! ## What ought to hold -/

def Plain (p : Path) : Prop := ∀ n ∈ p, n.bytes ≠ [dot] ∧ n.bytes ≠ [dot, dot]

/-- What `generic_getpath` returns for a directory. -/
def getpath (p : Path) : Blob := if p = [] then [slash] else render p

def Normalized (out : Blob) : Prop := ∃ p : Path, Plain p ∧ out = render p

def At.Normal : At → Prop
  | .dir (.ok path) => ∃ p : Path, Plain p ∧ path = getpath p
  | _ => True

def Sound (r : Resolved) : Prop :=
  r ≠ .fault ∧ ∀ out, r = .ok out → Normalized out ∧ out.length < maxPath

def Under (root : Path) (out : Blob) : Prop := ∃ q : Path, out = render (root ++ q)

def NoLinks (fs : Lookups) (root : Path) : Prop :=
  ∀ p q, root = p ++ q → fs.readlink (render p) = none

/-! ## When it does -/

def takenLink (fs : Lookups) (follow : Bool) (st : WalkState) : Option Blob :=
  if st.p = [] ∨ atDot st.p ∨ atDotDot st.p ∨ st.n ≤ 1 ∨ (nextName st).2.2 ≤ 0 then none
  else if follow ∨ skipSlashes (nextName st).2.1 ≠ [] then
    (fs.readlink (nextName st).1).map fun link => cstr (link.take (maxPath - (st.o.length + 1)))
  else none

/-- Two dots at the root of the process, or an absolute link whose text does not begin with the root. -/
def Leaves (fs : Lookups) (follow : Bool) (root : Path) (st : WalkState) : Prop :=
  (root ≠ [] ∧ atDotDot st.p = true ∧ st.o = render root) ∨
    ∃ text, takenLink fs follow st = some text ∧ text.head? = some slash ∧
      ¬ ∃ tail, text = render root ++ tail ∧ Boundary tail

end IosLinuxkit.Fs.Resolve
