import IosLinuxkit.Fs.TmpTree

/-!
# The tree of the memory file system in every run

Which calls keep the counts and the paths. The references that a call holds are in two lists beside the
state, so that each function is a change of the lists.

* **`walk_spec`** — a lookup ends where the path leads, with one reference.
* **`getpath_spec`** — the path of an entry that is not the root is never found.
* **`tmpfs_tree_iff`** — the counts and paths in every run.
-/

namespace IosLinuxkit.Fs.TmpTree

variable {st st' : State} {d c i p x : Nat} {e f : TmpDirent} {ds is names : List Nat}

/-! ## The tree -/

structure Tree (st : State) : Prop where
  top : ∃ e, st.dirents.lookup root = some e ∧ e.parent = none
  parent : ∀ d e, st.dirents.lookup d = some e → d ≠ root →
    ∃ p f, e.parent = some p ∧ st.dirents.lookup p = some f ∧ d ∈ f.children
  child : ∀ d e c, st.dirents.lookup d = some e → c ∈ e.children → c ≠ root ∧ (st.dirents.lookup c).isSome
  inode : ∀ d e, st.dirents.lookup d = some e → (st.inodes.lookup e.inode).isSome
  fd : ∀ i f, st.fds.lookup i = some f → (st.dirents.lookup f.dirent).isSome
  pos : ∀ i f c, st.fds.lookup i = some f → f.dirPos = some c → (st.dirents.lookup c).isSome
  fresh : ∀ a, st.next ≤ a → st.inodes.lookup a = none ∧ st.dirents.lookup a = none ∧ st.fds.lookup a = none

/-- The counts are those of the references that there are and of the ones in the lists. -/
structure Owes (st : State) (ds is : List Nat) : Prop where
  dirent : ∀ d, st.direntRefs d = st.held d + ds.count d
  inode : ∀ i, st.inodeRefs i = st.heldInode i + is.count i

theorem exact_iff_owes : Exact st ↔ Owes st [] [] := by
  constructor
  · exact fun h => ⟨fun d => by simp [h.dirent d], fun i => by simp [h.inode i]⟩
  · exact fun h => ⟨fun d => by simpa using h.dirent d, fun i => by simpa using h.inode i⟩

theorem Owes.not_exact (h : Owes st ds is) (hne : ds ≠ [] ∨ is ≠ []) : ¬Exact st := by
  intro hexact
  cases hne with
  | inl hds =>
    obtain ⟨d, hd⟩ := List.exists_mem_of_ne_nil ds hds
    have hcount := List.count_pos_iff.mpr hd
    have heq := h.dirent d
    rw [hexact.dirent d] at heq
    omega
  | inr his =>
    obtain ⟨i, hi⟩ := List.exists_mem_of_ne_nil is his
    have hcount := List.count_pos_iff.mpr hi
    have heq := h.inode i
    rw [hexact.inode i] at heq
    omega

theorem Owes.perm {ds' : List Nat} (h : Owes st ds is) (hperm : ds.Perm ds') : Owes st ds' is :=
  ⟨fun d => by rw [h.dirent d, hperm.count_eq], h.inode⟩

theorem direntHolds_nonneg (d : Nat) (e : TmpDirent) : 0 ≤ State.direntHolds d e := by
  unfold State.direntHolds
  split <;> omega

theorem fdHolds_nonneg (d : Nat) (f : Fd) : 0 ≤ State.fdHolds d f := by
  unfold State.fdHolds
  split <;> split <;> omega

theorem Tree.held_pos (h : Tree st) (hd : (st.dirents.lookup d).isSome) : 1 ≤ st.held d := by
  obtain ⟨e, he⟩ := Option.isSome_iff_exists.mp hd
  have hfds := Assoc.sumBy_nonneg (fdHolds_nonneg d) st.fds
  have hdirents := Assoc.sumBy_nonneg (direntHolds_nonneg d) st.dirents
  unfold State.held
  by_cases hroot : d = root
  · rw [if_pos hroot]
    omega
  obtain ⟨p, f, -, hf, hmem⟩ := h.parent d e he hroot
  have hle := Assoc.weightAt_le_sumBy (direntHolds_nonneg d) st.dirents p
  have hcount := List.count_pos_iff.mpr hmem
  rw [Assoc.weightAt_of_some hf] at hle
  unfold State.direntHolds at hle ⊢
  split at hle <;> omega

theorem Tree.held_none (h : Tree st) (hd : st.dirents.lookup d = none) : st.held d = 0 := by
  have hroot : d ≠ root := by
    rintro rfl
    obtain ⟨e, he, -⟩ := h.top
    rw [he] at hd
    cases hd
  have habsent (h' : (st.dirents.lookup d).isSome) : False := by
    rw [hd] at h'
    cases h'
  have hdirents : Assoc.sumBy (State.direntHolds d) st.dirents = 0 := by
    apply Assoc.sumBy_eq_zero
    intro a e he
    have hcount : e.children.count d = 0 :=
      List.count_eq_zero.mpr fun hmem => habsent (h.child a e d he hmem).2
    have hparent : e.parent ≠ some d := by
      intro hparent
      by_cases ha : a = root
      · obtain ⟨e', he', hnone⟩ := h.top
        rw [ha, he'] at he
        cases he
        rw [hnone] at hparent
        cases hparent
      obtain ⟨p, f, hp, hf, -⟩ := h.parent a e he ha
      cases hp.symm.trans hparent
      rw [hd] at hf
      cases hf
    simp [State.direntHolds, hcount, hparent]
  have hfds : Assoc.sumBy (State.fdHolds d) st.fds = 0 := by
    apply Assoc.sumBy_eq_zero
    intro a f hf
    have hdirent : f.dirent ≠ d := fun heq => habsent (heq ▸ h.fd a f hf)
    have hpos : f.dirPos ≠ some d := fun heq => habsent (h.pos a f d hf heq)
    simp [State.fdHolds, hdirent, hpos]
  rw [State.held, if_neg hroot, hdirents, hfds]
  omega

theorem Tree.heldInode_none (h : Tree st) (hi : st.inodes.lookup i = none) : st.heldInode i = 0 := by
  apply Assoc.sumBy_eq_zero
  intro a e he
  have hne : e.inode ≠ i := by
    rintro rfl
    have := h.inode a e he
    rw [hi] at this
    cases this
  exact if_neg hne

/-! ## References -/

def State.unref (st : State) (d : Nat) : State :=
  { st with direntRefs := Function.update st.direntRefs d (st.direntRefs d - 1) }

theorem unref_retain (st : State) (d : Nat) : (st.direntRetain d).unref d = st := by
  unfold State.unref State.direntRetain
  simp [Function.update_idem]

theorem retain_comm (st : State) (c d : Nat) :
    (st.direntRetain c).direntRetain d = (st.direntRetain d).direntRetain c := by
  by_cases hcd : c = d
  · rw [hcd]
  · simp [State.direntRetain, Function.update_of_ne hcd, Function.update_of_ne (Ne.symm hcd),
      Function.update_comm hcd]

theorem release_eq (st : State) (hd : (st.dirents.lookup d).isSome) (hrefs : st.direntRefs d ≠ 1) :
    st.direntRelease d = some (st.unref d) := by
  obtain ⟨e, he⟩ := Option.isSome_iff_exists.mp hd
  simp only [State.direntRelease, he, hrefs, if_false]
  rfl

theorem release_retain (st : State) (hd : (st.dirents.lookup d).isSome) (hrefs : 1 ≤ st.direntRefs d) :
    (st.direntRetain d).direntRelease d = some st := by
  rw [release_eq (st.direntRetain d) hd, unref_retain]
  simp only [State.direntRetain, Function.update_self]
  omega

theorem Owes.retain (h : Owes st ds is) (d : Nat) : Owes (st.direntRetain d) (d :: ds) is := by
  refine ⟨fun x => ?_, h.inode⟩
  have hx : st.direntRefs x = (st.direntRetain d).held x + ds.count x := h.dirent x
  simp only [State.direntRetain, List.count_cons] at hx ⊢
  by_cases hxd : x = d
  · subst hxd
    simp only [Function.update_self, beq_self_eq_true, if_true]
    omega
  · simp only [Function.update_of_ne hxd, beq_iff_eq, Ne.symm hxd, if_false]
    omega

theorem Owes.unref (h : Owes st (d :: ds) is) : Owes (st.unref d) ds is := by
  refine ⟨fun x => ?_, h.inode⟩
  have hx : st.direntRefs x = (st.unref d).held x + (d :: ds).count x := h.dirent x
  simp only [State.unref, List.count_cons] at hx ⊢
  by_cases hxd : x = d
  · subst hxd
    simp only [Function.update_self, beq_self_eq_true, if_true] at hx ⊢
    omega
  · simp only [Function.update_of_ne hxd, beq_iff_eq, Ne.symm hxd, if_false] at hx ⊢
    omega

theorem Owes.release (h : Owes st (d :: ds) is) (htree : Tree st) (hd : (st.dirents.lookup d).isSome) :
    st.direntRelease d = some (st.unref d) ∧ Owes (st.unref d) ds is := by
  refine ⟨release_eq st hd ?_, h.unref⟩
  have hpos := htree.held_pos hd
  have hrefs := h.dirent d
  rw [List.count_cons_self] at hrefs
  omega

/-! ## Lookups -/

theorem childOf_present (hd : (st.dirents.lookup d).isSome) (name : Blob) : ∃ r, st.childOf d name = some r := by
  obtain ⟨e, he⟩ := Option.isSome_iff_exists.mp hd
  exact ⟨_, by rw [State.childOf, he]; rfl⟩

theorem childOf_ok {name : Blob} (htree : Tree st) (h : st.childOf d name = some (.ok c)) :
    c ≠ root ∧ (st.dirents.lookup c).isSome := by
  obtain ⟨e, he, hfind⟩ := Option.map_eq_some_iff.mp h
  split at hfind
  case isFalse => cases hfind
  case isTrue =>
    split at hfind
    case h_1 => cases hfind
    case h_2 c' hc' =>
      cases hfind
      exact htree.child d e c he (List.mem_of_find?_eq_some hc')

def Found.result (st : State) : Found → Except Int Nat × State
  | .entry d => (.ok d, st.direntRetain d)
  | .fails err => (.error err, st)
  | .tooLong d => (.error eNAMETOOLONG, st.direntRetain d)

theorem walk_spec (htree : Tree st) (hrefs : ∀ d, (st.dirents.lookup d).isSome → 1 ≤ st.direntRefs d)
    (parent : Bool) (names : List Blob) (hd : (st.dirents.lookup d).isSome) :
    (st.direntRetain d).walk parent d names = some ((st.descend parent d names).result st) := by
  induction names generalizing d with
  | nil => rfl
  | cons name names ih =>
    unfold State.walk State.descend
    split
    case isTrue => rfl
    case isFalse =>
      split
      case isTrue => rfl
      case isFalse =>
        -- the search does not depend on the counts
        have hsearch : (st.direntRetain d).childOf d name = st.childOf d name := rfl
        obtain ⟨r, hr⟩ := childOf_present hd name
        simp only [State.dirLookup, hsearch, hr]
        cases r with
        | error err => simp only [release_retain st hd (hrefs d hd), Found.result]
        | ok c =>
          obtain ⟨hc, hpresent⟩ := childOf_ok htree hr
          have hle : 1 ≤ (st.direntRetain c).direntRefs d := by
            have := hrefs d hd
            by_cases hdc : d = c
            · subst hdc
              simp only [State.direntRetain, Function.update_self]
              omega
            · simpa only [State.direntRetain, Function.update_of_ne hdc] using this
          simp only [retain_comm st d c, release_retain (st.direntRetain c) hd hle]
          exact ih hpresent

variable {names : List Blob} {path : Blob} {f : Fd} {fine : Prop}

theorem descend_present {parent : Bool} (htree : Tree st) (hd : (st.dirents.lookup d).isSome)
    (h : st.descend parent d names = .entry c) : (st.dirents.lookup c).isSome := by
  induction names generalizing d with
  | nil =>
    cases h
    exact hd
  | cons name names ih =>
    unfold State.descend at h
    split at h
    case isTrue => cases h
    case isFalse =>
      split at h
      case isTrue =>
        cases h
        exact hd
      case isFalse =>
        split at h
        case h_1 => cases h
        case h_2 => cases h
        case h_3 c' hc' => exact ih (childOf_ok htree hc').2 h

theorem descend_ne_root {parent : Bool} (htree : Tree st) (hd : d ≠ root)
    (h : st.descend parent d names = .entry c) : c ≠ root := by
  induction names generalizing d with
  | nil =>
    cases h
    exact hd
  | cons name names ih =>
    unfold State.descend at h
    split at h
    case isTrue => cases h
    case isFalse =>
      split at h
      case isTrue =>
        cases h
        exact hd
      case isFalse =>
        split at h
        case h_1 => cases h
        case h_2 => cases h
        case h_3 c' hc' => exact ih (childOf_ok htree hc').1 h

theorem path_of_root (htree : Tree st) (hnames : components path = some names)
    (h : st.descend false root names = .entry root) : path = [] := by
  cases path with
  | nil => rfl
  | cons b path =>
    exfalso
    simp only [components] at hnames
    split at hnames
    case isFalse => cases hnames
    case isTrue =>
      cases hnames
      cases hsplit : path.splitOn slash with
      | nil => exact absurd hsplit (List.splitOn_ne_nil slash path)
      | cons name rest =>
        rw [hsplit] at h
        unfold State.descend at h
        split at h
        case isTrue => cases h
        case isFalse =>
          simp only [Bool.false_and, Bool.false_eq_true, if_false] at h
          split at h
          case h_1 => cases h
          case h_2 => cases h
          case h_3 c' hc' => exact descend_ne_root htree (childOf_ok htree hc').1 h rfl

/-! ## Paths -/

theorem getpath_spec (st : State) (f : Fd) :
    st.getpath f = if f.dirent = root then .ok [] else .error eNAMETOOLONG := by
  unfold State.getpath
  by_cases hroot : f.dirent = root
  · rw [if_pos hroot, State.getpathLoop, if_pos hroot]
  rw [if_neg hroot]
  generalize maxPath - 1 = room, ([] : Blob) = path
  induction room using Nat.strong_induction_on generalizing path with
  | _ room ih =>
    rw [State.getpathLoop, if_neg hroot]
    dsimp only
    split
    case isTrue => rfl
    case isFalse hroom => exact ih _ (by omega) _

def RightAt (path : Blob) (d : Nat) : Prop :=
  Normalized path → (if d = root then .ok [] else .error eNAMETOOLONG : Except Int Blob) =
    if path.length < maxPath then .ok path else .error eNAMETOOLONG

theorem rightAt_root : RightAt [] root := by
  intro _
  rfl

theorem rightAt_iff (hd : d ≠ root) : RightAt path d ↔ ¬Fits path := by
  unfold RightAt Fits
  simp only [if_neg hd, not_and, Nat.not_lt]
  refine forall_congr' fun _ => ?_
  split
  case isTrue hlt => simp [Nat.not_le.mpr hlt]
  case isFalse hge => simp [Nat.not_lt.mp hge]

theorem pathsRight_iff : PathsRight st ↔ ∀ i f, st.fds.lookup i = some f → RightAt f.path f.dirent := by
  unfold PathsRight RightAt
  simp only [getpath_spec]

theorem PathsRight.congr (h : PathsRight st) (hfds : st'.fds = st.fds) : PathsRight st' := by
  rw [pathsRight_iff] at h ⊢
  rwa [hfds]

theorem pathsRight_insert (st' : State) (h : PathsRight st)
    (hfds : st'.fds = st.fds.insert i f) : PathsRight st' ↔ RightAt f.path f.dirent := by
  rw [pathsRight_iff] at h ⊢
  rw [hfds]
  constructor
  · exact fun hall => hall i f (AList.lookup_insert _)
  intro hf j g hg
  obtain ⟨-, rfl⟩ | ⟨-, hold⟩ := Assoc.lookup_insert_some hg
  · exact hf
  · exact h j g hold


/-! ## What a call is worth -/

def Entries (st st' : State) : Prop := ∀ d, (st.dirents.lookup d).isSome → (st'.dirents.lookup d).isSome

structure Good (st : State) : Prop where
  tree : Tree st
  exact : Exact st
  paths : PathsRight st

inductive Verdict (st : State) (fine : Prop) : Option State → Prop
  | good {st' : State} (hfine : fine) (hgood : Good st') (hentries : Entries st st') : Verdict st fine (some st')
  | crash (hnot : ¬fine) : Verdict st fine none
  | wrong {st' : State} (hnot : ¬fine) (hwrong : ¬(Exact st' ∧ PathsRight st')) : Verdict st fine (some st')

theorem Verdict.congr {fine' : Prop} {r : Option State} (h : Verdict st fine r) (hiff : fine ↔ fine') :
    Verdict st fine' r := by
  cases h with
  | good hfine hgood hentries => exact .good (hiff.mp hfine) hgood hentries
  | crash hnot => exact .crash fun h => hnot (hiff.mpr h)
  | wrong hnot hwrong => exact .wrong (fun h => hnot (hiff.mpr h)) hwrong

theorem Owes.refs_pos (h : Owes st ds is) (htree : Tree st) (hd : (st.dirents.lookup d).isSome) :
    1 ≤ st.direntRefs d := by
  have hheld := htree.held_pos hd
  rw [h.dirent d]
  omega

theorem Good.owes (h : Good st) : Owes st [] [] := exact_iff_owes.mp h.exact

theorem Tree.root_present (h : Tree st) : (st.dirents.lookup root).isSome := by
  obtain ⟨e, he, -⟩ := h.top
  simp [he]

theorem Tree.lt_next (h : Tree st) (hd : (st.dirents.lookup d).isSome) : d < st.next := by
  by_contra hge
  rw [(h.fresh d (Nat.not_lt.mp hge)).2.1] at hd
  cases hd

theorem Tree.retain (h : Tree st) (d : Nat) : Tree (st.direntRetain d) :=
  ⟨h.top, h.parent, h.child, h.inode, h.fd, h.pos, h.fresh⟩

theorem Tree.unref (h : Tree st) (d : Nat) : Tree (st.unref d) :=
  ⟨h.top, h.parent, h.child, h.inode, h.fd, h.pos, h.fresh⟩

theorem lookup_spec (h : Good st) (parent : Bool) (hnames : components path = some names) :
    st.lookup path parent = some ((st.descend parent root names).result st) := by
  simp only [State.lookup, hnames]
  exact walk_spec h.tree (fun d hd => h.owes.refs_pos h.tree hd) parent names h.tree.root_present

/-! ## Descriptors -/

theorem Tree.withFd {g : Fd} (h : Tree st) (next : Nat) (hlt : i < next) (hle : st.next ≤ next)
    (hdirent : (st.dirents.lookup g.dirent).isSome) (hpos : ∀ c, g.dirPos = some c → (st.dirents.lookup c).isSome) :
    Tree (st.withFd i g next) := by
  refine ⟨h.top, h.parent, h.child, h.inode, fun j f hf => ?_, fun j f c hf hc => ?_, fun a ha => ?_⟩
  · obtain ⟨-, rfl⟩ | ⟨-, hold⟩ := Assoc.lookup_insert_some hf
    · exact hdirent
    · exact h.fd j f hold
  · obtain ⟨-, rfl⟩ | ⟨-, hold⟩ := Assoc.lookup_insert_some hf
    · exact hpos c hc
    · exact h.pos j f c hold hc
  have hne : a ≠ i := by
    rintro rfl
    exact absurd hlt (Nat.not_lt.mpr ha)
  obtain ⟨hinode, hdirent, hfd⟩ := h.fresh a (Nat.le_trans hle ha)
  exact ⟨hinode, hdirent, (AList.lookup_insert_ne hne).trans hfd⟩

def Fd.refs (f : Fd) : List Nat := f.dirent :: f.dirPos.toList

theorem count_refs (f : Fd) (x : Nat) : (f.refs.count x : Int) = State.fdHolds x f := by
  unfold Fd.refs State.fdHolds
  cases f.dirPos with
  | none =>
    simp only [Option.toList_none, List.count_cons, List.count_nil, beq_iff_eq]
    split <;> rfl
  | some c =>
    simp only [Option.toList_some, List.count_cons, List.count_nil, beq_iff_eq, Option.some.injEq]
    split <;> split <;> rfl

theorem Owes.newFd (h : Owes st f.refs is) (hfresh : st.fds.lookup i = none) (next : Nat) :
    Owes (st.withFd i f next) [] is := by
  refine ⟨fun x => ?_, h.inode⟩
  have hx := h.dirent x
  rw [count_refs] at hx
  simp only [State.held, State.withFd, Assoc.sumBy_insert, Assoc.weightAt_of_none hfresh, List.count_nil] at hx ⊢
  omega

theorem Owes.eraseFd (h : Owes st [] is) (hf : st.fds.lookup i = some f) :
    Owes (st.withoutFd i) f.refs is := by
  refine ⟨fun x => ?_, h.inode⟩
  have hx := h.dirent x
  rw [count_refs]
  simp only [State.held, State.withoutFd, Assoc.sumBy_erase, Assoc.weightAt_of_some hf, List.count_nil] at hx ⊢
  omega

theorem retain_pos (htree : Tree st) (howes : Owes st ds is) (pos : Option Nat) :
    Tree (pos.elim st st.direntRetain) ∧ Owes (pos.elim st st.direntRetain) (pos.toList ++ ds) is := by
  cases pos with
  | none => exact ⟨htree, howes⟩
  | some c => exact ⟨htree.retain c, howes.retain c⟩

theorem pos_elim_same (st : State) (pos : Option Nat) :
    (pos.elim st st.direntRetain).dirents = st.dirents ∧ (pos.elim st st.direntRetain).fds = st.fds ∧
      (pos.elim st st.direntRetain).next = st.next := by
  cases pos with
  | none => exact ⟨rfl, rfl, rfl⟩
  | some c => exact ⟨rfl, rfl, rfl⟩

theorem count_pos (pos : Option Nat) (x : Nat) : (pos.toList.count x : Int) = if pos = some x then 1 else 0 := by
  cases pos with
  | none => rfl
  | some c =>
    simp only [Option.toList_some, List.count_cons, List.count_nil, beq_iff_eq, Option.some.injEq]
    split <;> rfl

theorem Owes.moveFd {pos : Option Nat} (h : Owes st pos.toList is) (hf : st.fds.lookup i = some f)
    (next : Nat) : Owes (st.withFd i { f with dirPos := pos } next) f.dirPos.toList is := by
  refine ⟨fun x => ?_, h.inode⟩
  have hx := h.dirent x
  rw [count_pos] at hx ⊢
  simp only [State.held, State.withFd, Assoc.sumBy_insert, Assoc.weightAt_of_some hf, State.fdHolds] at hx ⊢
  omega

theorem openFd_verdict {st₀ : State} (hentries : Entries st₀ st) (htree : Tree st) (howes : Owes st [d] [])
    (hpaths : PathsRight st) (hd : (st.dirents.lookup d).isSome) (a : OpenArgs) :
    Verdict st₀ (a.fdMem → RightAt a.path d) (st.openFd a d) := by
  unfold State.openFd
  cases hmem : a.fdMem with
  | false =>
    obtain ⟨hrelease, howes'⟩ := howes.release htree hd
    simp only [Bool.not_false, if_true, hrelease]
    exact .good (fun h => by cases h) ⟨htree.unref d, exact_iff_owes.mpr howes', hpaths.congr rfl⟩ hentries
  | true =>
    obtain ⟨e, he⟩ := Option.isSome_iff_exists.mp hd
    have hfree := (htree.fresh st.next (Nat.le_refl _)).2.2
    simp only [Bool.not_true, Bool.false_eq_true, if_false, he, true_implies]
    -- the descriptor takes over the reference to the first child too, if there is one
    obtain ⟨htree', howes'⟩ := retain_pos htree howes e.children.head?
    obtain ⟨hdirents, hfds, hnext⟩ := pos_elim_same st e.children.head?
    have hpos (c : Nat) (hc : e.children.head? = some c) : (st.dirents.lookup c).isSome :=
      (htree.child d e c he (List.mem_of_mem_head? hc)).2
    have howed := (howes'.perm (List.perm_append_singleton d _)).newFd (i := st.next)
      (f := ⟨a.path, d, e.children.head?⟩) (hfds ▸ hfree) (st.next + 1)
    have htree'' := htree'.withFd (i := st.next) (g := ⟨a.path, d, e.children.head?⟩) (st.next + 1) (Nat.lt_succ_self _)
      (by rw [hnext]; exact Nat.le_succ _) (hdirents ▸ hd) fun c hc => hdirents ▸ hpos c hc
    have hiff := pathsRight_insert ((e.children.head?.elim st st.direntRetain).withFd st.next
      ⟨a.path, d, e.children.head?⟩ (st.next + 1)) (hpaths.congr hfds) rfl
    have hentries' : Entries st₀ ((e.children.head?.elim st st.direntRetain).withFd st.next
        ⟨a.path, d, e.children.head?⟩ (st.next + 1)) := fun x hx => by
      rw [show (State.withFd _ _ _ _).dirents = st.dirents from hdirents]
      exact hentries x hx
    by_cases hright : RightAt a.path d
    · exact .good hright ⟨htree'', exact_iff_owes.mpr howed, hiff.mpr hright⟩ hentries'
    · exact .wrong hright fun h => hright (hiff.mp h.2)

/-! ## New entries -/

theorem Owes.inodeNew (h : Owes st ds []) (htree : Tree st) (mode : BitVec 32) :
    Tree (st.inodeNew mode).2 ∧ Owes (st.inodeNew mode).2 ds [st.next] := by
  have hfree := htree.fresh st.next (Nat.le_refl _)
  refine ⟨⟨htree.top, htree.parent, htree.child, fun d e he => ?_, htree.fd, htree.pos, fun a ha => ?_⟩,
    h.dirent, fun i => ?_⟩
  · simp only [State.inodeNew]
    by_cases hi : e.inode = st.next
    · rw [hi, AList.lookup_insert]
      rfl
    · rw [AList.lookup_insert_ne hi]
      exact htree.inode d e he
  · have hlt : st.next < a := ha
    have hfresh := htree.fresh a (Nat.le_of_lt hlt)
    exact ⟨(AList.lookup_insert_ne (Nat.ne_of_gt hlt)).trans hfresh.1, hfresh.2⟩
  have hi := h.inode i
  simp only [State.inodeNew, State.heldInode, List.count_nil, List.count_cons, beq_iff_eq] at hi ⊢
  by_cases heq : i = st.next
  · subst heq
    have hnone := htree.heldInode_none hfree.1
    unfold State.heldInode at hnone
    simp [hnone]
  · simp only [Function.update_of_ne heq, Ne.symm heq, if_false]
    omega

theorem lookup_linked (st : State) (p : Nat) (e : TmpDirent) (name : Blob) (i x : Nat) :
    (st.linked p e name i).dirents.lookup x =
      if x = st.next then some ⟨name, i, e.nextIndex, some p, [], 0⟩
      else if x = p then some { e with children := e.children ++ [st.next], nextIndex := e.nextIndex + 1 }
      else st.dirents.lookup x := by
  unfold State.linked
  dsimp only
  by_cases hx : x = st.next
  · rw [hx, AList.lookup_insert, if_pos rfl]
  rw [AList.lookup_insert_ne hx, if_neg hx]
  by_cases hxp : x = p
  · rw [hxp, AList.lookup_insert, if_pos rfl]
  · rw [AList.lookup_insert_ne hxp, if_neg hxp]

theorem Tree.linked (h : Tree st) (hp : st.dirents.lookup p = some e) (hi : (st.inodes.lookup i).isSome)
    (name : Blob) : Tree (st.linked p e name i) := by
  have hlook := lookup_linked st p e name i
  have hplt : p < st.next := h.lt_next (by simp [hp])
  -- an entry that was there still is, with the same parent and at least its children
  have hold (d : Nat) (f : TmpDirent) (hf : st.dirents.lookup d = some f) :
      ∃ f', (st.linked p e name i).dirents.lookup d = some f' ∧ f'.parent = f.parent ∧ f'.inode = f.inode ∧
        ∀ c ∈ f.children, c ∈ f'.children := by
    have hd : d ≠ st.next := Nat.ne_of_lt (h.lt_next (by simp [hf]))
    rw [hlook, if_neg hd]
    by_cases hdp : d = p
    · subst hdp
      cases hp.symm.trans hf
      exact ⟨_, if_pos rfl, rfl, rfl, fun c hc => List.mem_append_left _ hc⟩
    · exact ⟨f, (if_neg hdp).trans hf, rfl, rfl, fun c hc => hc⟩
  have hpresent (d : Nat) (hd : (st.dirents.lookup d).isSome) :
      ((st.linked p e name i).dirents.lookup d).isSome := by
    obtain ⟨f, hf⟩ := Option.isSome_iff_exists.mp hd
    obtain ⟨f', hf', -⟩ := hold d f hf
    simp [hf']
  have hnew : (st.linked p e name i).dirents.lookup st.next =
      some ⟨name, i, e.nextIndex, some p, [], 0⟩ := by rw [hlook, if_pos rfl]
  refine ⟨?_, fun d f hf hd => ?_, fun d f c hf hc => ?_, fun d f hf => ?_, fun j f hf => hpresent _ (h.fd j f hf),
    fun j f c hf hc => hpresent c (h.pos j f c hf hc), fun a ha => ?_⟩
  · obtain ⟨r, hr, hnone⟩ := h.top
    obtain ⟨r', hr', hparent, -⟩ := hold _ r hr
    exact ⟨r', hr', hparent.trans hnone⟩
  · rw [hlook] at hf
    split at hf
    case isTrue hnext =>
      cases hf
      refine ⟨p, _, rfl, (hlook p).trans ((if_neg (Nat.ne_of_lt hplt)).trans (if_pos rfl)), ?_⟩
      rw [hnext]
      exact List.mem_append_right _ List.mem_cons_self
    case isFalse hnext =>
      have hf' : ∃ f', st.dirents.lookup d = some f' ∧ f'.parent = f.parent := by
        split at hf
        case isTrue hdp =>
          cases hf
          exact ⟨e, hdp ▸ hp, rfl⟩
        case isFalse => exact ⟨f, hf, rfl⟩
      obtain ⟨f', hf', hparent⟩ := hf'
      obtain ⟨q, g, hq, hg, hmem⟩ := h.parent d f' hf' hd
      obtain ⟨g', hg', -, -, hsub⟩ := hold q g hg
      exact ⟨q, g', hparent ▸ hq, hg', hsub d hmem⟩
  · rw [hlook] at hf
    split at hf
    case isTrue =>
      cases hf
      cases hc
    case isFalse =>
      split at hf
      case isTrue =>
        cases hf
        obtain hc | hc := List.mem_append.mp hc
        · obtain ⟨hne, hin⟩ := h.child p e c hp hc
          exact ⟨hne, hpresent c hin⟩
        rw [List.mem_singleton.mp hc]
        refine ⟨fun heq => ?_, by simp [hnew]⟩
        exact absurd (h.lt_next h.root_present) (by rw [heq]; exact Nat.lt_irrefl _)
      case isFalse =>
        obtain ⟨hne, hin⟩ := h.child d f c hf hc
        exact ⟨hne, hpresent c hin⟩
  · rw [hlook] at hf
    split at hf
    case isTrue =>
      cases hf
      exact hi
    case isFalse =>
      split at hf
      case isTrue =>
        cases hf
        exact h.inode p e hp
      case isFalse => exact h.inode d f hf
  have hlt : st.next < a := ha
  obtain ⟨hinode, hdirent, hfd⟩ := h.fresh a (Nat.le_of_lt hlt)
  refine ⟨hinode, ?_, hfd⟩
  rw [hlook, if_neg (Nat.ne_of_gt hlt), if_neg (fun heq => ?_), hdirent]
  exact absurd hplt (Nat.not_lt.mpr (heq ▸ Nat.le_of_lt hlt))

theorem Owes.linked (h : Owes st ds is) (htree : Tree st) (hp : st.dirents.lookup p = some e)
    (hds : ∀ d ∈ ds, (st.dirents.lookup d).isSome) (name : Blob) : Owes (st.linked p e name i) ds is := by
  have hfree := htree.fresh st.next (Nat.le_refl _)
  have hne : st.next ≠ p := Nat.ne_of_gt (htree.lt_next (by simp [hp]))
  have hfree' (e' : TmpDirent) : (st.dirents.insert p e').lookup st.next = none :=
    (AList.lookup_insert_ne hne).trans hfree.2.1
  constructor
  · intro x
    have hx := h.dirent x
    have hnone := htree.held_none hfree.2.1
    have hcount : ds.count st.next = 0 := List.count_eq_zero.mpr fun hmem => by
      have := hds _ hmem
      rw [hfree.2.1] at this
      cases this
    simp only [State.held, State.linked, State.direntRetain, State.inodeRetain, Assoc.sumBy_insert,
      Assoc.weightAt_of_none (hfree' _), Assoc.weightAt_of_some hp, State.direntHolds, List.count_append,
      List.count_cons, List.count_nil, beq_iff_eq, Option.some.injEq] at hx hnone ⊢
    by_cases hxn : x = st.next
    · subst hxn
      simp only [Function.update_self, hcount, if_true, if_neg (Ne.symm hne)] at hnone ⊢
      omega
    simp only [Function.update_of_ne hxn, if_neg (Ne.symm hxn)]
    by_cases hxp : x = p
    · subst hxp
      simp only [Function.update_self, if_true]
      omega
    · simp only [Function.update_of_ne hxp, if_neg (Ne.symm hxp)]
      omega
  intro j
  have hj := h.inode j
  simp only [State.heldInode, State.linked, State.direntRetain, State.inodeRetain, Assoc.sumBy_insert,
    Assoc.weightAt_of_none (hfree' _), Assoc.weightAt_of_some hp, State.inodeHolds] at hj ⊢
  by_cases hji : j = i
  · subst hji
    simp only [Function.update_self, if_true]
    omega
  · simp only [Function.update_of_ne hji, if_neg (Ne.symm hji)]
    omega

theorem Owes.inodeRelease (h : Owes st ds (i :: is)) (hi : (st.inodes.lookup i).isSome) (hheld : 1 ≤ st.heldInode i) :
    ∃ refs, st.inodeRelease i = some { st with inodeRefs := refs } ∧ Owes { st with inodeRefs := refs } ds is := by
  have hrefs := h.inode i
  rw [List.count_cons_self] at hrefs
  refine ⟨Function.update st.inodeRefs i (st.inodeRefs i - 1), ?_, h.dirent, fun j => ?_⟩
  · unfold State.inodeRelease
    rw [if_neg (by simpa [Option.isSome_iff_ne_none] using hi), if_neg (by omega)]
  have hj : st.inodeRefs j = st.heldInode j + (i :: is).count j := h.inode j
  show Function.update st.inodeRefs i (st.inodeRefs i - 1) j = st.heldInode j + is.count j
  rw [List.count_cons] at hj
  by_cases hji : j = i
  · subst hji
    simp only [Function.update_self, beq_self_eq_true, if_true] at hj ⊢
    omega
  · simp only [Function.update_of_ne hji, beq_iff_eq, Ne.symm hji, if_false] at hj ⊢
    omega

theorem Owes.inodeFree (h : Owes st ds [i]) (htree : Tree st) (hi : (st.inodes.lookup i).isSome)
    (hunused : ∀ d e, st.dirents.lookup d = some e → e.inode ≠ i) :
    ∃ st', st.inodeRelease i = some st' ∧ Tree st' ∧ Owes st' ds [] ∧ st'.dirents = st.dirents ∧ st'.fds = st.fds ∧
      st'.inodes.lookup i = none := by
  have hheld : st.heldInode i = 0 := Assoc.sumBy_eq_zero fun d e he => if_neg (hunused d e he)
  have hrefs := h.inode i
  rw [List.count_cons_self, List.count_nil, hheld] at hrefs
  refine ⟨{ st with inodes := st.inodes.erase i, inodeRefs := Function.update st.inodeRefs i 0 }, ?_,
    ⟨htree.top, htree.parent, htree.child, fun d e he => ?_, htree.fd, htree.pos, fun a ha => ?_⟩,
    ⟨h.dirent, fun j => ?_⟩, rfl, rfl, AList.lookup_erase i _⟩
  · unfold State.inodeRelease
    rw [if_neg (by simpa [Option.isSome_iff_ne_none] using hi), if_pos (by omega)]
  · exact (AList.lookup_erase_ne (hunused d e he)).symm ▸ htree.inode d e he
  · obtain ⟨hinode, hrest⟩ := htree.fresh a ha
    refine ⟨?_, hrest⟩
    by_cases hai : a = i
    · rw [hai]
      exact AList.lookup_erase i _
    · rw [← hinode]
      exact AList.lookup_erase_ne hai
  have hj : st.inodeRefs j = st.heldInode j + [i].count j := h.inode j
  show Function.update st.inodeRefs i 0 j = st.heldInode j + 0
  by_cases hji : j = i
  · rw [hji, Function.update_self, hheld]
    rfl
  · rw [Function.update_of_ne hji, hj, List.count_cons, if_neg (by simpa using Ne.symm hji)]
    rfl

theorem childOf_noent {name : Blob} (h : st.childOf d name = some (.error eNOENT)) :
    ∃ e, st.dirents.lookup d = some e ∧ st.isDir e = true := by
  obtain ⟨e, he, hfind⟩ := Option.map_eq_some_iff.mp h
  refine ⟨e, he, ?_⟩
  split at hfind
  case isTrue hdir => exact hdir
  case isFalse => exact absurd hfind (by decide)

theorem isDir_inodeNew (htree : Tree st) (he : st.dirents.lookup d = some e) (mode : BitVec 32) :
    (st.inodeNew mode).2.isDir e = st.isDir e := by
  have hne : e.inode ≠ st.next := by
    intro heq
    have := htree.inode d e he
    rw [heq, (htree.fresh st.next (Nat.le_refl _)).1] at this
    cases this
  simp only [State.isDir, State.inodeNew, AList.lookup_insert_ne hne]

theorem dirLink_spec (htree : Tree st) (howes : Owes st ds []) (hp : st.dirents.lookup p = some e)
    (hdir : st.isDir e = true) (hds : ∀ d ∈ ds, (st.dirents.lookup d).isSome) (name : Blob) (mode : BitVec 32) :
    ∃ st₁ c, Tree st₁ ∧ Owes st₁ ds [st.next] ∧ c ≠ root ∧ (st₁.dirents.lookup c).isSome ∧ Entries st st₁ ∧
      st₁.fds = st.fds ∧ (st₁.inodes.lookup st.next).isSome ∧ 1 ≤ st₁.heldInode st.next ∧
      ∀ out, (st.inodeNew mode).2.dirLink p name st.next out true =
        some (.ok c, if out then st₁.direntRetain c else st₁) := by
  obtain ⟨htree₁, howes₁⟩ := howes.inodeNew htree mode
  have hdir₁ : (st.inodeNew mode).2.isDir e = true := (isDir_inodeNew htree hp mode).trans hdir
  have hp₁ : (st.inodeNew mode).2.dirents.lookup p = some e := hp
  have hi : ((st.inodeNew mode).2.inodes.lookup st.next).isSome := by
    simp only [State.inodeNew, AList.lookup_insert, Option.isSome_some]
  have hnew := (lookup_linked (st.inodeNew mode).2 p e name st.next (st.next + 1)).trans (if_pos rfl)
  refine ⟨(st.inodeNew mode).2.linked p e name st.next, st.next + 1, htree₁.linked hp₁ hi name,
    howes₁.linked htree₁ hp₁ hds name, Nat.ne_of_gt ?_, by rw [hnew]; rfl, fun d hd => ?_, rfl, hi, ?_, fun out => ?_⟩
  · exact Nat.lt_trans (htree.lt_next htree.root_present) (Nat.lt_succ_self _)
  · rw [lookup_linked]
    split
    case isTrue => rfl
    case isFalse =>
      split
      case isTrue => rfl
      case isFalse => exact hd
  · -- the new entry is one that has the inode
    have hnonneg (e : TmpDirent) : 0 ≤ State.inodeHolds st.next e := by
      unfold State.inodeHolds
      split <;> omega
    have hle := Assoc.weightAt_le_sumBy hnonneg ((st.inodeNew mode).2.linked p e name st.next).dirents (st.next + 1)
    rw [Assoc.weightAt_of_some hnew] at hle
    unfold State.inodeHolds at hle
    rw [if_pos rfl] at hle
    exact hle
  · simp only [State.dirLink, hp₁, hdir₁, Bool.not_true, Bool.false_eq_true, if_false]
    rfl

theorem dirLink_fails (htree : Tree st) (howes : Owes st ds []) (hp : st.dirents.lookup p = some e)
    (hdir : st.isDir e = true) (name : Blob) (mode : BitVec 32) (out : Bool) :
    ∃ st', (st.inodeNew mode).2.dirLink p name st.next out false = some (.error eNOMEM, st') ∧ Tree st' ∧
      Owes st' ds [] ∧ st'.dirents = st.dirents ∧ st'.fds = st.fds ∧ st'.inodes.lookup st.next = none := by
  obtain ⟨htree₁, howes₁⟩ := howes.inodeNew htree mode
  have hdir₁ : (st.inodeNew mode).2.isDir e = true := (isDir_inodeNew htree hp mode).trans hdir
  have hp₁ : (st.inodeNew mode).2.dirents.lookup p = some e := hp
  have hi : ((st.inodeNew mode).2.inodes.lookup st.next).isSome := by
    simp only [State.inodeNew, AList.lookup_insert, Option.isSome_some]
  have hunused (d : Nat) (f : TmpDirent) (hf : st.dirents.lookup d = some f) : f.inode ≠ st.next := by
    intro heq
    have := htree.inode d f hf
    rw [heq, (htree.fresh st.next (Nat.le_refl _)).1] at this
    cases this
  obtain ⟨st', hrelease, htree', howes', hdirents, hfds, hnone⟩ := howes₁.inodeFree htree₁ hi hunused
  refine ⟨st', ?_, htree', howes', hdirents, hfds, hnone⟩
  simp only [State.dirLink, hp₁, hdir₁, Bool.not_true, Bool.not_false, Bool.false_eq_true, if_false, if_true, hrelease,
    Option.map_some]

/-! ## The calls -/

variable {a : OpenArgs} {m : MkdirArgs}

theorem Good.same (h : Good st) (hfine : fine) : Verdict st fine (some st) :=
  .good hfine h fun _ hd => hd

theorem Verdict.leak {st₀ : State} (howes : Owes st ds is) (hne : ds ≠ [] ∨ is ≠ []) (hnot : ¬fine) :
    Verdict st₀ fine (some st) :=
  .wrong hnot fun h => howes.not_exact hne h.1

theorem creat_verdict (h : Good st) (hcreat : a.creat = true)
    (hlook : st.lookupParent a.path = some (.ok p, st.direntRetain p)) (hp : (st.dirents.lookup p).isSome) :
    Verdict st (CreateFine st p a) (st.tmpfsOpen a) := by
  have hreleased : (st.direntRetain p).direntRelease p = some st := release_retain st hp (h.owes.refs_pos h.tree hp)
  have hsearch : (st.direntRetain p).childOf p (filename a.path) = st.childOf p (filename a.path) := rfl
  obtain ⟨r, hr⟩ := childOf_present hp (filename a.path)
  simp only [State.tmpfsOpen, hcreat, if_true, State.openCreat, hlook, State.createIn, State.dirLookup, hsearch, hr,
    CreateFine]
  cases r with
  | ok c =>
    obtain ⟨hc, hpresent⟩ := childOf_ok h.tree hr
    have hback : ((st.direntRetain p).direntRetain c).direntRelease c = some (st.direntRetain p) := by
      refine release_retain (st.direntRetain p) hpresent ?_
      exact (h.owes.retain p).refs_pos (h.tree.retain p) hpresent
    have hforth : ((st.direntRetain p).direntRetain c).direntRelease p = some (st.direntRetain c) := by
      rw [retain_comm]
      refine release_retain (st.direntRetain c) hp ?_
      exact (h.owes.retain c).refs_pos (h.tree.retain c) hp
    cases hexcl : a.excl with
    | true =>
      simp only [if_true, hback, Option.map_some, hreleased, true_or]
      exact h.same trivial
    | false =>
      simp only [Bool.false_eq_true, if_false, hforth, Option.map_some, false_or]
      have hentries : Entries st (st.direntRetain c) := fun _ hd => hd
      refine (openFd_verdict hentries (h.tree.retain c) (h.owes.retain c) (h.paths.congr rfl) hpresent a).congr ?_
      rw [rightAt_iff hc]
  | error err =>
    simp only
    by_cases herr : err = eNOENT
    · subst herr
      obtain ⟨e, he, hdir⟩ := childOf_noent hr
      simp only [ne_eq, not_true, if_false, true_implies]
      cases hinode : a.inodeMem with
      | false =>
        -- the error of the search is released
        simp only [Bool.not_false, if_true]
        exact .crash fun h => by cases h.1
      | true =>
        simp only [Bool.not_true, Bool.false_eq_true, if_false]
        have hds (d : Nat) (hd : d ∈ [p]) : ((st.direntRetain p).dirents.lookup d).isSome := by
          rw [List.mem_singleton.mp hd]
          exact hp
        cases hdirent : a.direntMem with
        | false =>
          -- the inode is released twice
          obtain ⟨st', hlink, -, -, -, -, hnone⟩ :=
            dirLink_fails (h.tree.retain p) (h.owes.retain p) he hdir (filename a.path) (sIfreg ||| a.mode) true
          have hgone : st'.inodeRelease (st.direntRetain p).next = none := by
            simp only [State.inodeRelease, hnone, Option.isNone_none, if_true]
          rw [show ((st.direntRetain p).inodeNew (sIfreg ||| a.mode)).1 = (st.direntRetain p).next from rfl, hlink]
          simp only [hgone]
          exact .crash fun h => by cases h.2.1
        | true =>
          obtain ⟨st₁, c, htree₁, howes₁, hc, hpresent, hentries, hfds, hi, hheld, hlink⟩ :=
            dirLink_spec (h.tree.retain p) (h.owes.retain p) he hdir hds (filename a.path) (sIfreg ||| a.mode)
          -- the reference that `tmp_inode_new` gave is returned
          obtain ⟨refs, hrelease, howes₂⟩ := (howes₁.retain c).inodeRelease hi hheld
          have htree₂ : Tree { st₁.direntRetain c with inodeRefs := refs } :=
            ⟨htree₁.top, htree₁.parent, htree₁.child, htree₁.inode, htree₁.fd, htree₁.pos, htree₁.fresh⟩
          obtain ⟨hparent, howes₃⟩ := (howes₂.perm (.swap p c [])).release htree₂ (hentries p hp)
          rw [show ((st.direntRetain p).inodeNew (sIfreg ||| a.mode)).1 = (st.direntRetain p).next from rfl, hlink true]
          simp only [if_true, hrelease, hparent, Option.map_some, true_and]
          have hentries' : Entries st (State.unref { st₁.direntRetain c with inodeRefs := refs } p) := hentries
          refine (openFd_verdict hentries' (htree₂.unref p) howes₃ (h.paths.congr hfds) hpresent a).congr ?_
          rw [rightAt_iff hc]
    · simp only [ne_eq, herr, not_false_eq_true, if_true, false_implies, hreleased, Option.map_some]
      exact h.same trivial

theorem components_nil : components [] = some [] := rfl

theorem verdict_open (h : Good st) (a : OpenArgs) : Verdict st (OpenFine st a) (st.tmpfsOpen a) := by
  cases hnames : components a.path with
  | none =>
    have hlook (parent : Bool) : st.lookup a.path parent = none := by simp only [State.lookup, hnames]
    have hcrash : st.tmpfsOpen a = none := by
      cases hcreat : a.creat with
      | false => simp only [State.tmpfsOpen, hcreat, Bool.false_eq_true, if_false, hlook]
      | true =>
        simp only [State.tmpfsOpen, hcreat, State.openCreat, State.lookupParent, hlook, ite_self]
    rw [hcrash]
    refine .crash fun hfine => ?_
    obtain ⟨names, hsome, -⟩ := hfine
    rw [hnames] at hsome
    cases hsome
  | some names =>
    simp only [OpenFine, hnames, Option.some.injEq, exists_eq_left']
    cases hcreat : a.creat with
    | false =>
      have hlook := lookup_spec h false hnames
      simp only [State.tmpfsOpen, hcreat, Bool.false_eq_true, if_false, hlook, false_implies, true_and]
      cases hdesc : st.descend false root names with
      | fails err => exact h.same trivial
      | tooLong d => exact .leak (h.owes.retain d) (.inl (List.cons_ne_nil _ _)) id
      | entry d =>
        have hpresent := descend_present h.tree h.tree.root_present hdesc
        have hentries : Entries st (st.direntRetain d) := fun _ hd => hd
        refine (openFd_verdict hentries (h.tree.retain d) (h.owes.retain d) (h.paths.congr rfl) hpresent a).congr ?_
        by_cases hd : d = root
        · subst hd
          have hempty := path_of_root h.tree hnames hdesc
          simp only [Found.Fine, hempty, rightAt_root, implies_true, true_or]
        have hne : a.path ≠ [] := by
          intro heq
          rw [heq, components_nil] at hnames
          cases hnames
          cases hdesc
          exact hd rfl
        rw [rightAt_iff hd]
        simp only [Found.Fine, hne, false_or]
    | true =>
      by_cases hpath : a.path = [slash]
      · have hcrash : st.tmpfsOpen a = none := by
          simp only [State.tmpfsOpen, hcreat, if_true, State.openCreat, State.lookupParent, hpath]
        rw [hcrash]
        exact .crash fun hfine => hfine.1 rfl hpath
      have hlook : st.lookupParent a.path = some ((st.descend true root names).result st) := by
        rw [State.lookupParent, if_neg hpath, lookup_spec h true hnames]
      simp only [hpath, ne_eq, not_false_eq_true, implies_true, true_and, if_true]
      cases hdesc : st.descend true root names with
      | fails err =>
        rw [hdesc] at hlook
        simp only [State.tmpfsOpen, hcreat, if_true, State.openCreat, hlook, Found.result]
        exact h.same trivial
      | tooLong d =>
        rw [hdesc] at hlook
        simp only [State.tmpfsOpen, hcreat, if_true, State.openCreat, hlook, Found.result]
        exact .leak (h.owes.retain d) (.inl (List.cons_ne_nil _ _)) id
      | entry d =>
        rw [hdesc] at hlook
        exact creat_verdict h hcreat hlook (descend_present h.tree h.tree.root_present hdesc)

theorem mkdirIn_verdict (h : Good st)
    (hlook : st.lookupParent m.path = some (.ok p, st.direntRetain p)) (hp : (st.dirents.lookup p).isSome) :
    Verdict st (st.childOf p (filename m.path) = some (.error eNOENT) → ¬(m.inodeMem ∧ m.direntMem))
      (st.tmpfsMkdir m) := by
  have hreleased : (st.direntRetain p).direntRelease p = some st := release_retain st hp (h.owes.refs_pos h.tree hp)
  have hsearch : (st.direntRetain p).childOf p (filename m.path) = st.childOf p (filename m.path) := rfl
  obtain ⟨r, hr⟩ := childOf_present hp (filename m.path)
  simp only [State.tmpfsMkdir, hlook, State.mkdirIn, State.dirLookup, hsearch, hr, Option.some.injEq]
  cases r with
  | ok c =>
    obtain ⟨-, hpresent⟩ := childOf_ok h.tree hr
    have hback : ((st.direntRetain p).direntRetain c).direntRelease c = some (st.direntRetain p) := by
      refine release_retain (st.direntRetain p) hpresent ?_
      exact (h.owes.retain p).refs_pos (h.tree.retain p) hpresent
    simp only [hback, hreleased]
    exact h.same fun heq => by cases heq
  | error err =>
    by_cases herr : err = eNOENT
    · subst herr
      obtain ⟨e, he, hdir⟩ := childOf_noent hr
      simp only [ne_eq, not_true, if_false, true_implies]
      cases hinode : m.inodeMem with
      | false =>
        simp only [Bool.not_false, if_true, hreleased]
        exact h.same fun h => by cases h.1
      | true =>
        simp only [Bool.not_true, Bool.false_eq_true, if_false, true_and]
        have hds (d : Nat) (hd : d ∈ [p]) : ((st.direntRetain p).dirents.lookup d).isSome := by
          rw [List.mem_singleton.mp hd]
          exact hp
        cases hdirent : m.direntMem with
        | false =>
          obtain ⟨st', hlink, htree', howes', hdirents, hfds, -⟩ :=
            dirLink_fails (h.tree.retain p) (h.owes.retain p) he hdir (filename m.path) (sIfdir ||| m.mode) false
          have hp' : (st'.dirents.lookup p).isSome := by
            rw [hdirents]
            exact hp
          obtain ⟨hparent, howes⟩ := howes'.release htree' hp'
          rw [show ((st.direntRetain p).inodeNew (sIfdir ||| m.mode)).1 = (st.direntRetain p).next from rfl, hlink]
          simp only [Option.map_some, hparent]
          refine .good Bool.false_ne_true ⟨htree'.unref p, exact_iff_owes.mpr howes, h.paths.congr hfds⟩ fun d hd => ?_
          rw [show (st'.unref p).dirents = (st.direntRetain p).dirents from hdirents]
          exact hd
        | true =>
          obtain ⟨st₁, c, htree₁, howes₁, -, -, hentries, -, -, -, hlink⟩ :=
            dirLink_spec (h.tree.retain p) (h.owes.retain p) he hdir hds (filename m.path) (sIfdir ||| m.mode)
          obtain ⟨hparent, howes⟩ := howes₁.release htree₁ (hentries p hp)
          rw [show ((st.direntRetain p).inodeNew (sIfdir ||| m.mode)).1 = (st.direntRetain p).next from rfl, hlink false]
          simp only [Bool.false_eq_true, if_false, Option.map_some, hparent]
          exact .leak howes (.inr (List.cons_ne_nil _ _)) fun h => h trivial
    have hne : (Except.error err : Except Int Nat) ≠ .error eNOENT := fun heq => herr (Except.error.inj heq)
    simp only [ne_eq, herr, not_false_eq_true, if_true, hreleased]
    exact h.same fun heq => absurd heq hne

theorem verdict_mkdir (h : Good st) (m : MkdirArgs) : Verdict st (MkdirFine st m) (st.tmpfsMkdir m) := by
  cases hnames : components m.path with
  | none =>
    have hcrash : st.tmpfsMkdir m = none := by
      simp only [State.tmpfsMkdir, State.lookupParent, State.lookup, hnames, ite_self]
    rw [hcrash]
    refine .crash fun hfine => ?_
    obtain ⟨names, hsome, -⟩ := hfine
    rw [hnames] at hsome
    cases hsome
  | some names =>
    simp only [MkdirFine, hnames, Option.some.injEq, exists_eq_left']
    by_cases hpath : m.path = [slash]
    · have hcrash : st.tmpfsMkdir m = none := by
        simp only [State.tmpfsMkdir, State.lookupParent, hpath, if_true]
      rw [hcrash]
      exact .crash fun hfine => hfine.1 hpath
    have hlook : st.lookupParent m.path = some ((st.descend true root names).result st) := by
      rw [State.lookupParent, if_neg hpath, lookup_spec h true hnames]
    simp only [hpath, ne_eq, not_false_eq_true, true_and]
    cases hdesc : st.descend true root names with
    | fails err =>
      rw [hdesc] at hlook
      simp only [State.tmpfsMkdir, hlook, Found.result]
      exact h.same trivial
    | tooLong d =>
      rw [hdesc] at hlook
      simp only [State.tmpfsMkdir, hlook, Found.result]
      exact .leak (h.owes.retain d) (.inl (List.cons_ne_nil _ _)) id
    | entry d =>
      rw [hdesc] at hlook
      exact mkdirIn_verdict h hlook (descend_present h.tree h.tree.root_present hdesc)

theorem verdict_close (h : Good st) (i : Nat) : Verdict st (Fine st (.close i)) (st.tmpfsClose i) := by
  unfold State.tmpfsClose
  split
  case h_1 hnone => exact h.same fun f hf => by rw [hnone] at hf; cases hf
  case h_2 f hf =>
    have htree : Tree (st.withoutFd i) := by
      refine ⟨h.tree.top, h.tree.parent, h.tree.child, h.tree.inode, fun j g hg => ?_, fun j g c hg => ?_, fun a ha => ?_⟩
      · exact h.tree.fd j g (Assoc.lookup_erase_some hg).2
      · exact h.tree.pos j g c (Assoc.lookup_erase_some hg).2
      obtain ⟨hinode, hdirent, hfd⟩ := h.tree.fresh a ha
      refine ⟨hinode, hdirent, ?_⟩
      by_cases hai : a = i
      · rw [hai]
        exact AList.lookup_erase i _
      · rw [← hfd]
        exact AList.lookup_erase_ne hai
    obtain ⟨hrelease, howes⟩ := (h.owes.eraseFd hf).release htree (h.tree.fd i f hf)
    rw [hrelease]
    cases hpos : f.dirPos with
    | none =>
      rw [hpos] at howes
      refine .good (fun g hg => ?_) ⟨htree.unref _, exact_iff_owes.mpr howes, ?_⟩ fun _ hd => hd
      · rw [hf] at hg
        cases hg
        exact hpos
      · exact pathsRight_iff.mpr fun j g hg => pathsRight_iff.mp h.paths j g (Assoc.lookup_erase_some hg).2
    | some c =>
      rw [hpos] at howes
      refine .leak howes (.inl (List.cons_ne_nil _ _)) fun hfine => ?_
      rw [hfine f hf] at hpos
      cases hpos

theorem fdSeekdir_good (h : Good st) (hf : st.fds.lookup i = some f) (pos : Option Nat)
    (hpos : ∀ c, pos = some c → (st.dirents.lookup c).isSome) (fine : Prop) (hfine : fine) :
    Verdict st fine (st.fdSeekdir i f pos) := by
  obtain ⟨htree₁, howes₁⟩ := retain_pos h.tree h.owes pos
  obtain ⟨hdirents, hfds, hnext⟩ := pos_elim_same st pos
  have hlt : i < st.next := by
    by_contra hge
    rw [(h.tree.fresh i (Nat.not_lt.mp hge)).2.2] at hf
    cases hf
  have htree := htree₁.withFd (i := i) (g := { f with dirPos := pos }) st.next hlt (Nat.le_of_eq hnext)
    (hdirents ▸ h.tree.fd i f hf) fun c hc => hdirents ▸ hpos c hc
  rw [List.append_nil] at howes₁
  have howes := howes₁.moveFd (hfds ▸ hf) st.next
  have hpaths : PathsRight ((pos.elim st st.direntRetain).withFd i { f with dirPos := pos } st.next) :=
    (pathsRight_insert _ (f := { f with dirPos := pos }) (h.paths.congr hfds) rfl).mpr (pathsRight_iff.mp h.paths i f hf)
  have hentries : Entries st ((pos.elim st st.direntRetain).withFd i { f with dirPos := pos } st.next) :=
    fun d hd => by
      rw [show (State.withFd _ _ _ _).dirents = st.dirents from hdirents]
      exact hd
  unfold State.fdSeekdir
  dsimp only
  cases hold : f.dirPos with
  | none =>
    rw [hold] at howes
    exact .good hfine ⟨htree, exact_iff_owes.mpr howes, hpaths⟩ hentries
  | some d =>
    rw [hold] at howes
    obtain ⟨hrelease, howes'⟩ := howes.release htree (hentries d (h.tree.pos i f d hf hold))
    dsimp only
    rw [hrelease]
    exact .good hfine ⟨htree.unref d, exact_iff_owes.mpr howes', hpaths.congr rfl⟩ hentries

theorem verdict_readdir (h : Good st) (i : Nat) : Verdict st True (st.tmpfsReaddir i) := by
  unfold State.tmpfsReaddir
  split
  case h_1 => exact h.same trivial
  case h_2 f hf =>
    obtain ⟨e, he⟩ := Option.isSome_iff_exists.mp (h.tree.fd i f hf)
    rw [he]
    cases hpos : f.dirPos with
    | none => exact h.same trivial
    | some d =>
      dsimp only
      split
      case isFalse => exact h.same trivial
      case isTrue =>
        refine fdSeekdir_good h hf _ (fun c hc => ?_) True trivial
        have hmem := List.mem_of_mem_tail (List.mem_of_mem_head? hc)
        exact (h.tree.child f.dirent e c he ((List.dropWhile_sublist _).mem hmem)).2

theorem verdict_seekdir (h : Good st) (i ptr : Nat) : Verdict st (Fine st (.seekdir i ptr)) (st.tmpfsSeekdir i ptr) := by
  unfold State.tmpfsSeekdir
  split
  case h_1 hnone => exact h.same fun f e hf => by rw [hnone] at hf; cases hf
  case h_2 f hf =>
    obtain ⟨e, he⟩ := Option.isSome_iff_exists.mp (h.tree.fd i f hf)
    rw [he]
    dsimp only
    cases hdir : st.isDir e with
    | false =>
      -- the assertion on the mode
      simp only [Bool.not_false, if_true]
      refine .crash fun hfine => ?_
      rw [hfine f e hf he] at hdir
      cases hdir
    | true =>
      simp only [Bool.not_true, Bool.false_eq_true, if_false]
      refine fdSeekdir_good h hf _ (fun c hc => ?_) _ fun g e' hg he' => ?_
      · exact (h.tree.child f.dirent e c he (List.mem_of_find?_eq_some hc)).2
      cases hf.symm.trans hg
      cases he.symm.trans he'
      exact hdir

theorem call_verdict (h : Good st) (op : Op) : Verdict st (Fine st op) (call st op) := by
  cases op with
  | openPath a => exact verdict_open h a
  | mkdir m => exact verdict_mkdir h m
  | close i => exact verdict_close h i
  | readdir i => exact verdict_readdir h i
  | seekdir i ptr => exact verdict_seekdir h i ptr

/-! ## Runs -/

def KeepsAll (st : Option State) (op : Op) : Prop := ∀ s, st = some s → ∃ s', Keeps s op s'

def AllFine (st : Option State) (op : Op) : Prop := ∀ s, st = some s → Fine s op

def GoodRun (st : Option State) : Prop := ∃ s, st = some s ∧ Good s

theorem keeps_iff (h : Good st) (op : Op) : (∃ st', Keeps st op st') ↔ Fine st op := by
  have hverdict := call_verdict h op
  constructor
  · rintro ⟨st', hkeeps⟩
    rw [hkeeps.result] at hverdict
    cases hverdict with
    | good hfine => exact hfine
    | wrong hnot hwrong => exact absurd ⟨hkeeps.exact, hkeeps.paths⟩ hwrong
  intro hfine
  generalize hr : call st op = r at hverdict
  cases hverdict with
  | good _ hgood hentries => exact ⟨_, hr, hgood.exact, hgood.paths, hentries⟩
  | crash hnot => exact absurd hfine hnot
  | wrong hnot => exact absurd hfine hnot

theorem goodRun_step (s : Option State) (op : Op) (h : GoodRun s) (hfine : AllFine s op) : GoodRun (step s op) := by
  obtain ⟨st, rfl, hgood⟩ := h
  have hverdict := call_verdict hgood op
  show GoodRun (call st op)
  generalize call st op = r at hverdict ⊢
  cases hverdict with
  | good _ hgood' => exact ⟨_, rfl, hgood'⟩
  | crash hnot => exact absurd (hfine st rfl) hnot
  | wrong hnot => exact absurd (hfine st rfl) hnot

theorem good_start : Good start := by
  have hdirents {d : Nat} {e : TmpDirent} (he : start.dirents.lookup d = some e) :
      d = root ∧ e = ⟨[], root, 0, none, [], 0⟩ := by
    obtain hsome | ⟨-, hnone⟩ := Assoc.lookup_insert_some he
    · exact hsome
    · cases hnone
  refine ⟨⟨⟨_, AList.lookup_insert _, rfl⟩, fun d e he hd => absurd (hdirents he).1 hd, fun d e c he hc => ?_,
    fun d e he => ?_, fun i f hf => (by cases hf), fun i f c hf => (by cases hf), fun a ha => ?_⟩,
    ⟨fun d => ?_, fun i => ?_⟩, fun i f hf => (by cases hf)⟩
  · rw [(hdirents he).2] at hc
    cases hc
  · rw [(hdirents he).2]
    rfl
  · have hne : a ≠ root := Nat.ne_of_gt ha
    exact ⟨AList.lookup_insert_ne hne, AList.lookup_insert_ne hne, rfl⟩
  · show (if d = root then 1 else 0) = (if d = root then 1 else 0) + (0 + 0 + 0) + 0
    simp only [Int.add_zero]
  · show (if i = root then 1 else 0) = (if root = i then 1 else 0) + 0
    simp only [eq_comm, Int.add_zero]

/-- **The tree in every run.** The counts are right after each call, no call frees an entry, and each descriptor
has its path, if and only if the calls are fine. -/
theorem tmpfs_tree_iff (ops : List Op) :
    AllSteps step KeepsAll (some start) ops ↔ AllSteps step AllFine (some start) ops := by
  have hiff (s : Option State) (op : Op) (h : GoodRun s) : KeepsAll s op ↔ AllFine s op := by
    obtain ⟨st, rfl, hgood⟩ := h
    unfold KeepsAll AllFine
    simp only [Option.some.injEq, forall_eq', keeps_iff hgood op]
  exact allSteps_congr hiff goodRun_step ⟨start, rfl, good_start⟩

/-! ## A file and a directory -/

/-- `open("/a", O_CREAT)` -/
def openA : Op := .openPath ⟨[slash, 0x61], true, false, 0o644, true, true, true⟩

/-- `mkdir("/a")` -/
def mkdirA : Op := .mkdir ⟨[slash, 0x61], 0o755, true, true⟩

theorem fits_a : Fits [slash, 0x61] := by
  refine ⟨⟨[⟨[0x61], by decide, by decide⟩], rfl⟩, by decide⟩

/-- The path of a file just created is not found, and a directory just created has a reference that nobody holds. -/
theorem tree_wrong : ¬AllSteps step KeepsAll (some start) [openA] ∧ ¬AllSteps step KeepsAll (some start) [mkdirA] := by
  constructor
  · intro hsteps
    have hfine : OpenFine start _ := (keeps_iff good_start openA).mp (hsteps.1 start rfl)
    obtain ⟨names, hnames, -, hfound⟩ := hfine
    cases hnames
    exact (hfound rfl).2.2 rfl fits_a
  intro hsteps
  have hfine : MkdirFine start _ := (keeps_iff good_start mkdirA).mp (hsteps.1 start rfl)
  obtain ⟨names, hnames, -, hfound⟩ := hfine
  cases hnames
  exact hfound rfl ⟨rfl, rfl⟩

end IosLinuxkit.Fs.TmpTree
