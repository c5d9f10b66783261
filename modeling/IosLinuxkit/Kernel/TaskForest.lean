import Mathlib.Data.List.Nodup

/-!
# The forest of tasks

Tasks with their parents and children, and thread groups with their leaders and threads: how births, exits and
reapings change them. Nothing is known of a task here but where it stands.

* **`wf_born`**, **`wf_left`**, **`wf_reap`** — the changes keep it.

A task is known by its pid, which may be used again; its `id` and the number of a group are not.
-/

namespace IosLinuxkit

structure Node where
  id : Nat
  group : Nat
  parent : Option Nat
  children : List Nat
  zombie : Bool

structure Kin where
  leader : Nat
  threads : List Nat

@[ext]
structure Forest where
  node : Nat → Option Node
  kin : Nat → Option Kin
  next : Nat
  reaped : List Nat

namespace Forest

variable {f : Forest} {t c p pid heir : Nat} {N C : Node} {K : Kin}

/-- A task `pid` is born to `t`, in its group or in one of its own. -/
def born (f : Forest) (t pid : Nat) (N : Node) (K : Kin) (thread : Bool) : Forest where
  node := Function.update (Function.update f.node t (some { N with children := pid :: N.children })) pid
    (some ⟨f.next, if thread then N.group else f.next, some t, [], N.zombie⟩)
  kin := Function.update f.kin (if thread then N.group else f.next)
    (some (if thread then { K with threads := pid :: K.threads } else ⟨pid, [pid]⟩))
  next := f.next + 1
  reaped := f.reaped

/-- A task `t` leaves its group, and its children go to `heir`. The leader stays, a zombie when it has no threads
left; others are gone. -/
def left (f : Forest) (t heir : Nat) (N : Node) (K : Kin) : Forest where
  node := fun p =>
    if p = t ∧ t ≠ K.leader then none
    else (f.node p).map fun P =>
      { P with
        parent := if p ∈ N.children then some heir else P.parent
        children := ((if p = heir then N.children.reverse else []) ++ (if p = t then [] else P.children)).filter
          fun c => decide (t = K.leader) || decide (c ≠ t)
        zombie := P.zombie || (decide (p = K.leader) && (K.threads.filter (· ≠ t)).isEmpty) }
  kin := Function.update f.kin N.group (some { K with threads := K.threads.filter (· ≠ t) })
  next := f.next
  reaped := f.reaped

def reap (f : Forest) (c : Nat) (C : Node) : Forest where
  node := fun p => if p = c then none else (f.node p).map fun P => { P with children := P.children.filter (· ≠ c) }
  kin := Function.update f.kin C.group none
  next := f.next
  reaped := C.id :: f.reaped

/-! ## The invariant -/

/-- Children have their parents; threads are in their groups, and leaders too; a task that has left its threads
has no children, and a zombie no threads; init is alive; and identities are not used again. -/
structure Wf (f : Forest) : Prop where
  child : ∀ p P, f.node p = some P → ∀ c, c ∈ P.children ↔ ∃ C, f.node c = some C ∧ C.parent = some p
  parent : ∀ c C p, f.node c = some C → C.parent = some p → ∃ P, f.node p = some P
  threads : ∀ g K, f.kin g = some K → ∀ c ∈ K.threads, ∃ C, f.node c = some C ∧ C.group = g
  leader : ∀ g K, f.kin g = some K → ∃ L, f.node K.leader = some L ∧ L.group = g
  childless : ∀ p P K, f.node p = some P → f.kin P.group = some K → p ∉ K.threads → p ≠ 1 → P.children = []
  dead : ∀ p P K, f.node p = some P → P.zombie = true → f.kin P.group = some K → K.threads = []
  init : ∃ I, f.node 1 = some I ∧ I.zombie = false ∧ ∀ K, f.kin I.group = some K → K.leader = 1
  slots : ∀ p P, f.node p = some P → p ≤ 32768
  fresh : ∀ p P, f.node p = some P → P.id < f.next ∧ P.group < f.next
  freshKin : ∀ g K, f.kin g = some K → g < f.next
  ids : ∀ p P q Q, f.node p = some P → f.node q = some Q → P.id = Q.id → p = q
  nodup : f.reaped.Nodup
  old : ∀ i ∈ f.reaped, i < f.next ∧ ∀ p P, f.node p = some P → P.id ≠ i

/-! ## Births -/

variable {q g : Nat} {Q : Node} {G : Kin}

theorem born_node (f : Forest) (N : Node) (K : Kin) (thread : Bool) (ht : f.node t = some N) (hpid : f.node pid = none)
    : (f.born t pid N K thread).node q = some Q ↔
      (q = pid ∧ Q = ⟨f.next, if thread then N.group else f.next, some t, [], N.zombie⟩) ∨
        ∃ P, f.node q = some P ∧ Q = { P with children := if q = t then pid :: P.children else P.children } := by
  have hne : pid ≠ t := by
    rintro rfl
    rw [ht] at hpid
    cases hpid
  unfold born
  dsimp only
  by_cases hq : q = pid
  · subst hq
    rw [Function.update_self, hpid]
    simp [eq_comm]
  rw [Function.update_of_ne hq]
  by_cases hqt : q = t
  · subst hqt
    rw [Function.update_self, ht]
    simp [hq, eq_comm]
  · rw [Function.update_of_ne hqt]
    simp [hq, hqt]

theorem born_kin (f : Forest) (N : Node) (K : Kin) (thread : Bool) :
    (f.born t pid N K thread).kin g = some G ↔
      (g = (if thread then N.group else f.next) ∧ G = if thread then { K with threads := pid :: K.threads } else ⟨pid, [pid]⟩) ∨
        (g ≠ (if thread then N.group else f.next) ∧ f.kin g = some G) := by
  unfold born
  dsimp only
  by_cases hg : g = if thread then N.group else f.next
  · rw [hg, Function.update_self]
    simp [eq_comm]
  · rw [Function.update_of_ne hg]
    simp [hg]

theorem wf_born (h : f.Wf) (ht : f.node t = some N) (hkin : f.kin N.group = some K) (hmem : t ∈ K.threads)
    (hpid : f.node pid = none) (hle : pid ≤ 32768) (thread : Bool) : (f.born t pid N K thread).Wf := by
  have hnode {q : Nat} {Q : Node} : (f.born t pid N K thread).node q = some Q ↔ _ := born_node f N K thread ht hpid
  have hkin' {g : Nat} {G : Kin} : (f.born t pid N K thread).kin g = some G ↔ _ := born_kin f N K thread
  have hlive : N.zombie = false := by
    cases hz : N.zombie with
    | false => rfl
    | true =>
      have hnil := h.dead t N K ht hz hkin
      rw [hnil] at hmem
      cases hmem
  have hold {q : Nat} {Q : Node} (hq : f.node q = some Q) : q ≠ pid := by
    rintro rfl
    rw [hpid] at hq
    cases hq
  -- a task that was there is there, in its place
  have hstays {q : Nat} {Q : Node} (hq : f.node q = some Q) : ∃ Q', (f.born t pid N K thread).node q = some Q' ∧
      Q'.id = Q.id ∧ Q'.group = Q.group ∧ Q'.parent = Q.parent ∧ Q'.zombie = Q.zombie :=
    ⟨_, hnode.mpr (Or.inr ⟨Q, hq, rfl⟩), rfl, rfl, rfl, rfl⟩
  constructor
  case child =>
    intro p P hp' c
    obtain ⟨rfl, rfl⟩ | ⟨P, hp, rfl⟩ := hnode.mp hp'
    · -- nobody has had the new task for a parent
      refine ⟨fun hc => absurd hc List.not_mem_nil, fun ⟨C, hc', hparent⟩ => ?_⟩
      obtain ⟨-, rfl⟩ | ⟨C, hc, rfl⟩ := hnode.mp hc'
      · exact absurd (Option.some.inj hparent).symm (hold ht).symm
      · obtain ⟨Q, hQ⟩ := h.parent c C p hc hparent
        exact absurd rfl (hold hQ)
    have hchild := h.child p P hp c
    dsimp only
    constructor
    · intro hc
      split at hc
      case isTrue heq =>
        subst heq
        obtain rfl | hc := List.mem_cons.mp hc
        · exact ⟨_, hnode.mpr (Or.inl ⟨rfl, rfl⟩), rfl⟩
        · obtain ⟨C, hC, hparent⟩ := hchild.mp hc
          exact ⟨_, hnode.mpr (Or.inr ⟨C, hC, rfl⟩), hparent⟩
      case isFalse =>
        obtain ⟨C, hC, hparent⟩ := hchild.mp hc
        exact ⟨_, hnode.mpr (Or.inr ⟨C, hC, rfl⟩), hparent⟩
    rintro ⟨C, hC', hparent⟩
    obtain ⟨rfl, rfl⟩ | ⟨C, hC, rfl⟩ := hnode.mp hC'
    · rw [if_pos (Option.some.inj hparent).symm]
      exact List.mem_cons_self
    have hc := hchild.mpr ⟨C, hC, hparent⟩
    split
    · exact List.mem_cons_of_mem pid hc
    · exact hc
  case parent =>
    intro c C p hc' hparent
    obtain ⟨rfl, rfl⟩ | ⟨C, hc, rfl⟩ := hnode.mp hc'
    · obtain ⟨Q, hQ, -⟩ := hstays ht
      exact ⟨Q, Option.some.inj hparent ▸ hQ⟩
    obtain ⟨P, hp⟩ := h.parent c C p hc hparent
    obtain ⟨Q, hQ, -⟩ := hstays hp
    exact ⟨Q, hQ⟩
  case threads =>
    intro g G hg c hc
    obtain ⟨rfl, rfl⟩ | ⟨-, hg⟩ := hkin'.mp hg
    · cases thread with
      | true =>
        obtain rfl | hc := List.mem_cons.mp hc
        · exact ⟨_, hnode.mpr (Or.inl ⟨rfl, rfl⟩), rfl⟩
        obtain ⟨C, hC, hgroup⟩ := h.threads N.group K hkin c hc
        obtain ⟨Q, hQ, -, hQgroup, -⟩ := hstays hC
        exact ⟨Q, hQ, hQgroup.trans hgroup⟩
      | false =>
        have hc : c ∈ [pid] := hc
        rw [List.mem_singleton.mp hc]
        exact ⟨_, hnode.mpr (Or.inl ⟨rfl, rfl⟩), rfl⟩
    obtain ⟨C, hC, hgroup⟩ := h.threads g G hg c hc
    obtain ⟨Q, hQ, -, hQgroup, -⟩ := hstays hC
    exact ⟨Q, hQ, hQgroup.trans hgroup⟩
  case leader =>
    intro g G hg
    obtain ⟨rfl, rfl⟩ | ⟨-, hg⟩ := hkin'.mp hg
    · cases thread with
      | true =>
        obtain ⟨L, hL, hgroup⟩ := h.leader N.group K hkin
        obtain ⟨Q, hQ, -, hQgroup, -⟩ := hstays hL
        exact ⟨Q, hQ, hQgroup.trans hgroup⟩
      | false => exact ⟨_, hnode.mpr (Or.inl ⟨rfl, rfl⟩), rfl⟩
    obtain ⟨L, hL, hgroup⟩ := h.leader g G hg
    obtain ⟨Q, hQ, -, hQgroup, -⟩ := hstays hL
    exact ⟨Q, hQ, hQgroup.trans hgroup⟩
  case childless =>
    intro p P G hp' hG hout hinit
    obtain ⟨rfl, rfl⟩ | ⟨P, hp, rfl⟩ := hnode.mp hp'
    · rfl
    have hpt : P.group ≠ f.next := by
      have := (h.fresh p P hp).2
      omega
    dsimp only at hG ⊢
    obtain ⟨hgroup, rfl⟩ | ⟨hne, hg⟩ := hkin'.mp hG
    · cases thread with
      | true =>
        have hout : p ∉ K.threads := fun hc => hout (List.mem_cons_of_mem pid hc)
        rw [if_neg fun heq => hout (by rw [heq]; exact hmem)]
        exact h.childless p P K hp (by rw [hgroup]; exact hkin) hout hinit
      | false => exact absurd hgroup hpt
    have hpt : p ≠ t := by
      rintro rfl
      cases hp.symm.trans ht
      cases hg.symm.trans hkin
      exact hout hmem
    rw [if_neg hpt]
    exact h.childless p P G hp hg hout hinit
  case dead =>
    intro p P G hp' hz hg
    obtain ⟨rfl, rfl⟩ | ⟨P, hp, rfl⟩ := hnode.mp hp'
    · exact absurd (hlive.symm.trans hz) Bool.false_ne_true
    obtain ⟨hgroup, rfl⟩ | ⟨-, hg⟩ := hkin'.mp hg
    · cases thread with
      | true =>
        have hnil := h.dead p P K hp hz (by rw [show P.group = N.group from hgroup]; exact hkin)
        rw [hnil] at hmem
        cases hmem
      | false =>
        have hlt := (h.fresh p P hp).2
        have hgroup : P.group = f.next := hgroup
        omega
    · exact h.dead p P G hp hz hg
  case init =>
    obtain ⟨I, hI, hz, hleader⟩ := h.init
    obtain ⟨Q, hQ, -, hQgroup, -, hQz⟩ := hstays hI
    refine ⟨Q, hQ, hQz.trans hz, fun G hg => ?_⟩
    rw [hQgroup] at hg
    obtain ⟨hgroup, rfl⟩ | ⟨-, hg⟩ := hkin'.mp hg
    · cases thread with
      | true => exact hleader K (by rw [hgroup]; exact hkin)
      | false =>
        have hlt := (h.fresh 1 I hI).2
        have hgroup : I.group = f.next := hgroup
        omega
    · exact hleader G hg
  case slots =>
    intro p P hp'
    obtain ⟨rfl, -⟩ | ⟨P, hp, -⟩ := hnode.mp hp'
    · exact hle
    · exact h.slots p P hp
  case fresh =>
    intro p P hp'
    have hN := (h.fresh t N ht).2
    obtain ⟨-, rfl⟩ | ⟨P, hp, rfl⟩ := hnode.mp hp'
    · refine ⟨Nat.lt_succ_self _, ?_⟩
      show (if thread then N.group else f.next) < f.next + 1
      split
      · omega
      · omega
    · have hP := h.fresh p P hp
      exact ⟨Nat.lt_succ_of_lt hP.1, Nat.lt_succ_of_lt hP.2⟩
  case freshKin =>
    intro g G hg
    have hN := (h.fresh t N ht).2
    show g < f.next + 1
    obtain ⟨rfl, -⟩ | ⟨-, hg⟩ := hkin'.mp hg
    · split
      · omega
      · omega
    · have := h.freshKin g G hg
      omega
  case ids =>
    intro p P q Q hp' hq' heq
    obtain ⟨rfl, rfl⟩ | ⟨P, hp, rfl⟩ := hnode.mp hp'
    · obtain ⟨rfl, rfl⟩ | ⟨Q, hq, rfl⟩ := hnode.mp hq'
      · rfl
      have hlt := (h.fresh q Q hq).1
      have heq : f.next = Q.id := heq
      omega
    obtain ⟨rfl, rfl⟩ | ⟨Q, hq, rfl⟩ := hnode.mp hq'
    · have hlt := (h.fresh p P hp).1
      have heq : P.id = f.next := heq
      omega
    · exact h.ids p P q Q hp hq heq
  case nodup => exact h.nodup
  case old =>
    intro i hi
    obtain ⟨hlt, hold⟩ := h.old i hi
    refine ⟨Nat.lt_succ_of_lt hlt, fun p P hp' => ?_⟩
    obtain ⟨-, rfl⟩ | ⟨P, hp, rfl⟩ := hnode.mp hp'
    · exact Nat.ne_of_gt hlt
    · exact hold p P hp

/-! ## Exits -/

theorem left_node (f : Forest) (heir : Nat) (N : Node) (K : Kin) :
    (f.left t heir N K).node q = some Q ↔
      ¬(q = t ∧ t ≠ K.leader) ∧ ∃ P, f.node q = some P ∧ Q = { P with
        parent := if q ∈ N.children then some heir else P.parent
        children := ((if q = heir then N.children.reverse else []) ++ (if q = t then [] else P.children)).filter
          fun c => decide (t = K.leader) || decide (c ≠ t)
        zombie := P.zombie || (decide (q = K.leader) && (K.threads.filter (· ≠ t)).isEmpty) } := by
  unfold left
  dsimp only
  split
  case isTrue h => simp [h]
  case isFalse h =>
    rw [Option.map_eq_some_iff]
    exact ⟨fun ⟨P, hp, heq⟩ => ⟨h, P, hp, heq.symm⟩, fun ⟨_, P, hp, heq⟩ => ⟨P, hp, heq.symm⟩⟩

theorem left_kin (f : Forest) (heir : Nat) (N : Node) (K : Kin) :
    (f.left t heir N K).kin g = some G ↔
      (g = N.group ∧ G = { K with threads := K.threads.filter (· ≠ t) }) ∨ (g ≠ N.group ∧ f.kin g = some G) := by
  unfold left
  dsimp only
  by_cases hg : g = N.group
  · rw [hg, Function.update_self]
    simp [eq_comm]
  · rw [Function.update_of_ne hg]
    simp [hg]

theorem wf_left (h : f.Wf) (ht : f.node t = some N) (hkin : f.kin N.group = some K) (hmem : t ∈ K.threads)
    (hheir : (heir ∈ K.threads ∧ heir ≠ t) ∨ heir = 1) (hlast : ¬(K.leader = 1 ∧ K.threads.filter (· ≠ t) = [])) :
    (f.left t heir N K).Wf := by
  have hnode {q : Nat} {Q : Node} : (f.left t heir N K).node q = some Q ↔ _ := left_node f heir N K
  have hkin' {g : Nat} {G : Kin} : (f.left t heir N K).kin g = some G ↔ _ := left_kin f heir N K
  have hkids (c : Nat) : c ∈ N.children ↔ ∃ C, f.node c = some C ∧ C.parent = some t := h.child t N ht c
  -- who is not `t`, and who leads, is still there
  have hstays {q : Nat} {Q : Node} (hq : f.node q = some Q) (hne : ¬(q = t ∧ t ≠ K.leader)) :
      ∃ Q', (f.left t heir N K).node q = some Q' ∧ Q'.group = Q.group :=
    ⟨_, hnode.mpr ⟨hne, Q, hq, rfl⟩, rfl⟩
  have hinit : ¬(1 = t ∧ t ≠ K.leader) := by
    rintro ⟨rfl, hne⟩
    obtain ⟨I, hI, -, hleader⟩ := h.init
    cases ht.symm.trans hI
    exact hne (hleader K hkin).symm
  have hheirs : ∃ Q, (f.left t heir N K).node heir = some Q := by
    obtain ⟨hheir, hne⟩ | rfl := hheir
    · obtain ⟨H, hH, -⟩ := h.threads N.group K hkin heir hheir
      obtain ⟨Q, hQ, -⟩ := hstays hH fun hc => hne hc.1
      exact ⟨Q, hQ⟩
    obtain ⟨I, hI, -⟩ := h.init
    obtain ⟨Q, hQ, -⟩ := hstays hI hinit
    exact ⟨Q, hQ⟩
  constructor
  case child =>
    intro p P hp' c
    obtain ⟨-, P, hp, rfl⟩ := hnode.mp hp'
    have hchild := h.child p P hp c
    dsimp only
    rw [List.mem_filter, List.mem_append, show (decide (t = K.leader) || decide (c ≠ t)) = true ↔
      ¬(c = t ∧ t ≠ K.leader) from by simp; tauto]
    constructor
    · rintro ⟨hc, hstay⟩
      obtain hc | hc := hc
      · -- a child of `t`, that the heir has now
        split at hc
        case isFalse => exact absurd hc List.not_mem_nil
        case isTrue heq =>
          have hc := List.mem_reverse.mp hc
          obtain ⟨C, hC, -⟩ := (hkids c).mp hc
          refine ⟨_, hnode.mpr ⟨hstay, C, hC, rfl⟩, ?_⟩
          dsimp only
          rw [if_pos hc, heq]
      split at hc
      case isTrue => exact absurd hc List.not_mem_nil
      case isFalse hne =>
        obtain ⟨C, hC, hparent⟩ := hchild.mp hc
        refine ⟨_, hnode.mpr ⟨hstay, C, hC, rfl⟩, ?_⟩
        dsimp only
        rw [if_neg, hparent]
        intro hkid
        obtain ⟨C', hC', hparent'⟩ := (hkids c).mp hkid
        cases hC.symm.trans hC'
        exact hne (Option.some.inj (hparent.symm.trans hparent'))
    rintro ⟨C, hC', hparent⟩
    obtain ⟨hstay, C, hC, rfl⟩ := hnode.mp hC'
    refine ⟨?_, hstay⟩
    dsimp only at hparent
    split at hparent
    case isTrue hkid =>
      rw [if_pos (Option.some.inj hparent).symm]
      exact Or.inl (List.mem_reverse.mpr hkid)
    case isFalse hkid =>
      rw [if_neg (c := p = t) fun heq => hkid ((hkids c).mpr ⟨C, hC, heq ▸ hparent⟩)]
      exact Or.inr (hchild.mpr ⟨C, hC, hparent⟩)
  case parent =>
    intro c C p hc' hparent
    obtain ⟨-, C, hc, rfl⟩ := hnode.mp hc'
    dsimp only at hparent
    split at hparent
    case isTrue => exact Option.some.inj hparent ▸ hheirs
    case isFalse hkid =>
      obtain ⟨P, hp⟩ := h.parent c C p hc hparent
      have hne : p ≠ t := fun heq => hkid ((hkids c).mpr ⟨C, hc, heq ▸ hparent⟩)
      obtain ⟨Q, hQ, -⟩ := hstays hp fun hc => hne hc.1
      exact ⟨Q, hQ⟩
  case threads =>
    intro g G hg c hc
    obtain ⟨rfl, rfl⟩ | ⟨hne, hg⟩ := hkin'.mp hg
    · obtain ⟨hc, hct⟩ := List.mem_filter.mp hc
      obtain ⟨C, hC, hgroup⟩ := h.threads N.group K hkin c hc
      obtain ⟨Q, hQ, hQgroup⟩ := hstays hC fun heq => of_decide_eq_true hct heq.1
      exact ⟨Q, hQ, hQgroup.trans hgroup⟩
    obtain ⟨C, hC, hgroup⟩ := h.threads g G hg c hc
    obtain ⟨Q, hQ, hQgroup⟩ := hstays hC fun heq => by
      rw [heq.1] at hC
      cases ht.symm.trans hC
      exact hne hgroup.symm
    exact ⟨Q, hQ, hQgroup.trans hgroup⟩
  case leader =>
    intro g G hg
    obtain ⟨rfl, rfl⟩ | ⟨hne, hg⟩ := hkin'.mp hg
    · obtain ⟨L, hL, hgroup⟩ := h.leader N.group K hkin
      obtain ⟨Q, hQ, hQgroup⟩ := hstays hL fun heq => heq.2 heq.1.symm
      exact ⟨Q, hQ, hQgroup.trans hgroup⟩
    obtain ⟨L, hL, hgroup⟩ := h.leader g G hg
    obtain ⟨Q, hQ, hQgroup⟩ := hstays hL fun heq => by
      rw [heq.1] at hL
      cases ht.symm.trans hL
      exact hne hgroup.symm
    exact ⟨Q, hQ, hQgroup.trans hgroup⟩
  case childless =>
    intro p P G hp' hG hout hp1
    obtain ⟨-, P, hp, rfl⟩ := hnode.mp hp'
    dsimp only at hG ⊢
    rw [List.filter_eq_nil_iff]
    intro c hc
    exfalso
    obtain rfl | hpt := eq_or_ne p t
    · rw [if_neg, if_pos rfl] at hc
      · exact absurd hc List.not_mem_nil
      · rintro rfl
        exact hheir.elim (fun hc => hc.2 rfl) hp1
    rw [if_neg hpt] at hc
    obtain ⟨hgroup, rfl⟩ | ⟨hne, hg⟩ := hkin'.mp hG
    · have hout : p ∉ K.threads := fun hc => hout (List.mem_filter.mpr ⟨hc, decide_eq_true hpt⟩)
      rw [if_neg, h.childless p P K hp (by rw [hgroup]; exact hkin) hout hp1] at hc
      · exact absurd hc List.not_mem_nil
      · rintro rfl
        exact hheir.elim (fun hc => hout hc.1) hp1
    rw [if_neg, h.childless p P G hp hg hout hp1] at hc
    · exact absurd hc List.not_mem_nil
    rintro rfl
    obtain ⟨hheir, -⟩ | hheir := hheir
    · obtain ⟨H, hH, hgroup⟩ := h.threads N.group K hkin p hheir
      cases hp.symm.trans hH
      exact hne hgroup
    · exact hp1 hheir
  case dead =>
    intro p P G hp' hz hG
    obtain ⟨-, P, hp, rfl⟩ := hnode.mp hp'
    dsimp only at hz hG
    obtain hz | hz := Bool.or_eq_true_iff.mp hz
    · obtain ⟨hgroup, rfl⟩ | ⟨-, hg⟩ := hkin'.mp hG
      · have hnil := h.dead p P K hp hz (by rw [hgroup]; exact hkin)
        rw [hnil] at hmem
        cases hmem
      · exact h.dead p P G hp hz hg
    obtain ⟨hlead, hempty⟩ := Bool.and_eq_true_iff.mp hz
    obtain ⟨L, hL, hgroup⟩ := h.leader N.group K hkin
    rw [of_decide_eq_true hlead] at hp
    cases hL.symm.trans hp
    obtain ⟨-, rfl⟩ | ⟨hne, -⟩ := hkin'.mp hG
    · exact List.isEmpty_iff.mp hempty
    · exact absurd hgroup hne
  case init =>
    obtain ⟨I, hI, hz, hleader⟩ := h.init
    refine ⟨_, hnode.mpr ⟨hinit, I, hI, rfl⟩, ?_, fun G hg => ?_⟩
    · dsimp only
      rw [hz, Bool.false_or, Bool.and_eq_false_iff]
      by_cases hlead : 1 = K.leader
      · refine Or.inr (Bool.eq_false_iff.mpr fun hempty => ?_)
        exact hlast ⟨hlead.symm, List.isEmpty_iff.mp hempty⟩
      · exact Or.inl (decide_eq_false hlead)
    obtain ⟨hgroup, rfl⟩ | ⟨-, hg⟩ := hkin'.mp hg
    · exact hleader K (by rw [show I.group = N.group from hgroup]; exact hkin)
    · exact hleader G hg
  case slots =>
    intro p P hp'
    obtain ⟨-, P, hp, -⟩ := hnode.mp hp'
    exact h.slots p P hp
  case fresh =>
    intro p P hp'
    obtain ⟨-, P, hp, rfl⟩ := hnode.mp hp'
    exact h.fresh p P hp
  case freshKin =>
    intro g G hg
    obtain ⟨rfl, -⟩ | ⟨-, hg⟩ := hkin'.mp hg
    · exact (h.fresh t N ht).2
    · exact h.freshKin g G hg
  case ids =>
    intro p P q Q hp' hq' heq
    obtain ⟨-, P, hp, rfl⟩ := hnode.mp hp'
    obtain ⟨-, Q, hq, rfl⟩ := hnode.mp hq'
    exact h.ids p P q Q hp hq heq
  case nodup => exact h.nodup
  case old =>
    intro i hi
    obtain ⟨hlt, hold⟩ := h.old i hi
    refine ⟨hlt, fun p P hp' => ?_⟩
    obtain ⟨-, P, hp, rfl⟩ := hnode.mp hp'
    exact hold p P hp

/-! ## Reaping -/

theorem reap_node (f : Forest) (C : Node) : (f.reap c C).node q = some Q ↔
      q ≠ c ∧ ∃ P, f.node q = some P ∧ Q = { P with children := P.children.filter (· ≠ c) } := by
  unfold reap
  dsimp only
  split
  case isTrue h => simp [h]
  case isFalse h =>
    rw [Option.map_eq_some_iff]
    exact ⟨fun ⟨P, hp, heq⟩ => ⟨h, P, hp, heq.symm⟩, fun ⟨_, P, hp, heq⟩ => ⟨P, hp, heq.symm⟩⟩

theorem reap_kin (f : Forest) (C : Node) :
    (f.reap c C).kin g = some G ↔ g ≠ C.group ∧ f.kin g = some G := by
  unfold reap
  dsimp only
  by_cases hg : g = C.group
  · rw [hg, Function.update_self]
    simp
  · rw [Function.update_of_ne hg]
    simp [hg]

theorem wf_reap (h : f.Wf) (hc : f.node c = some C) (hz : C.zombie = true) (hkin : f.kin C.group = some K) :
    (f.reap c C).Wf := by
  have hnode {q : Nat} {Q : Node} : (f.reap c C).node q = some Q ↔ _ := reap_node f C
  have hkin' {g : Nat} {G : Kin} : (f.reap c C).kin g = some G ↔ _ := reap_kin f C
  have hne1 : 1 ≠ c := by
    rintro rfl
    obtain ⟨I, hI, hlive, -⟩ := h.init
    cases hc.symm.trans hI
    exact Bool.false_ne_true (hlive.symm.trans hz)
  have hnil : C.children = [] := by
    refine h.childless c C K hc hkin ?_ hne1.symm
    rw [h.dead c C K hc hz hkin]
    exact List.not_mem_nil
  have hstays {q : Nat} {Q : Node} (hq : f.node q = some Q) (hne : q ≠ c) :
      ∃ Q', (f.reap c C).node q = some Q' ∧ Q'.group = Q.group :=
    ⟨_, hnode.mpr ⟨hne, Q, hq, rfl⟩, rfl⟩
  have hothers {g q : Nat} {Q : Node} (hg : g ≠ C.group) (hq : f.node q = some Q) (hgroup : Q.group = g) :
      q ≠ c := by
    rintro rfl
    cases hc.symm.trans hq
    exact hg hgroup.symm
  constructor
  case child =>
    intro p P hp' x
    obtain ⟨-, P, hp, rfl⟩ := hnode.mp hp'
    dsimp only
    rw [List.mem_filter, h.child p P hp x, decide_eq_true_iff]
    constructor
    · rintro ⟨⟨X, hX, hparent⟩, hne⟩
      exact ⟨_, hnode.mpr ⟨hne, X, hX, rfl⟩, hparent⟩
    rintro ⟨X, hX', hparent⟩
    obtain ⟨hne, X, hX, rfl⟩ := hnode.mp hX'
    exact ⟨⟨X, hX, hparent⟩, hne⟩
  case parent =>
    intro x X p hx' hparent
    obtain ⟨-, X, hx, rfl⟩ := hnode.mp hx'
    obtain ⟨P, hp⟩ := h.parent x X p hx hparent
    have hne : p ≠ c := by
      rintro rfl
      have hx := (h.child p C hc x).mpr ⟨X, hx, hparent⟩
      rw [hnil] at hx
      cases hx
    obtain ⟨Q, hQ, -⟩ := hstays hp hne
    exact ⟨Q, hQ⟩
  case threads =>
    intro g G hg x hx
    obtain ⟨hne, hg⟩ := hkin'.mp hg
    obtain ⟨X, hX, hgroup⟩ := h.threads g G hg x hx
    obtain ⟨Q, hQ, hQgroup⟩ := hstays hX (hothers hne hX hgroup)
    exact ⟨Q, hQ, hQgroup.trans hgroup⟩
  case leader =>
    intro g G hg
    obtain ⟨hne, hg⟩ := hkin'.mp hg
    obtain ⟨L, hL, hgroup⟩ := h.leader g G hg
    obtain ⟨Q, hQ, hQgroup⟩ := hstays hL (hothers hne hL hgroup)
    exact ⟨Q, hQ, hQgroup.trans hgroup⟩
  case childless =>
    intro p P G hp' hG hout hp1
    obtain ⟨-, P, hp, rfl⟩ := hnode.mp hp'
    dsimp only
    rw [h.childless p P G hp (hkin'.mp hG).2 hout hp1]
    rfl
  case dead =>
    intro p P G hp' hzombie hG
    obtain ⟨-, P, hp, rfl⟩ := hnode.mp hp'
    exact h.dead p P G hp hzombie (hkin'.mp hG).2
  case init =>
    obtain ⟨I, hI, hlive, hleader⟩ := h.init
    exact ⟨_, hnode.mpr ⟨hne1, I, hI, rfl⟩, hlive, fun G hg => hleader G (hkin'.mp hg).2⟩
  case slots =>
    intro p P hp'
    obtain ⟨-, P, hp, -⟩ := hnode.mp hp'
    exact h.slots p P hp
  case fresh =>
    intro p P hp'
    obtain ⟨-, P, hp, rfl⟩ := hnode.mp hp'
    exact h.fresh p P hp
  case freshKin => exact fun g G hg => h.freshKin g G (hkin'.mp hg).2
  case ids =>
    intro p P q Q hp' hq' heq
    obtain ⟨-, P, hp, rfl⟩ := hnode.mp hp'
    obtain ⟨-, Q, hq, rfl⟩ := hnode.mp hq'
    exact h.ids p P q Q hp hq heq
  case nodup =>
    refine List.nodup_cons.mpr ⟨fun hmem => ?_, h.nodup⟩
    exact (h.old C.id hmem).2 c C hc rfl
  case old =>
    intro i hi
    obtain rfl | hi := List.mem_cons.mp hi
    · refine ⟨(h.fresh c C hc).1, fun p P hp' => ?_⟩
      obtain ⟨hne, P, hp, rfl⟩ := hnode.mp hp'
      exact fun heq => hne (h.ids p P c C hp hc heq)
    obtain ⟨hlt, hold⟩ := h.old i hi
    refine ⟨hlt, fun p P hp' => ?_⟩
    obtain ⟨-, P, hp, rfl⟩ := hnode.mp hp'
    exact hold p P hp

end Forest

end IosLinuxkit
