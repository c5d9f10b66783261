import IosLinuxkit.Fs.Mount

/-!
# Lookups over a run

* **`mountFind_run`** — every lookup in every run.
-/

namespace IosLinuxkit.Fs

variable {st : MountState} {m m' new : Mount} {mounts : List Mount} {path point : Path} {t : Nat}

/-! ## Texts -/

theorem mount_covers_iff : m.covers (render path) = true ↔ m.point <+: path := by
  unfold Mount.covers Mount.len
  rw [Bool.and_eq_true, List.isPrefixOf_iff_prefix, decide_eq_true_eq]
  constructor
  · intro ⟨⟨tail, htail⟩, hbound⟩
    rw [← htail, List.drop_left] at hbound
    obtain ⟨q, hq, _⟩ := render_append_iff.mp ⟨htail.symm, hbound⟩
    exact ⟨q, hq.symm⟩
  intro ⟨q, hq⟩
  obtain ⟨hrender, hbound⟩ := render_append_iff.mpr ⟨q, hq.symm, rfl⟩
  rw [hrender, List.drop_left]
  exact ⟨List.prefix_append _ _, hbound⟩

theorem length_le_of_render {p q : Path} (hp : p <+: path) (hq : q <+: path)
    (hlen : (render p).length ≤ (render q).length) : p.length ≤ q.length := by
  by_contra hlt
  obtain ⟨r, hr⟩ := List.prefix_of_prefix_length_le hq hp (by omega)
  subst hr
  cases r with
  | nil => simp at hlt
  | cons n r =>
    rw [render_append, List.length_append, render] at hlen
    simp only [List.length_cons] at hlen
    omega

/-! ## The list -/

theorem rel_of_find? {α : Type} {R : α → α → Prop} {p : α → Bool} {l : List α} {a b : α}
    (hl : l.Pairwise R) (ha : l.find? p = some a) (hb : b ∈ l) (hpb : p b) : b = a ∨ R a b := by
  induction hl with
  | nil => cases hb
  | @cons x l hx _ ih =>
    by_cases hpx : p x
    case pos =>
      rw [List.find?_cons_of_pos hpx] at ha
      obtain rfl := Option.some.inj ha
      rcases List.mem_cons.mp hb with rfl | hb
      · exact .inl rfl
      · exact .inr (hx b hb)
    case neg =>
      rw [List.find?_cons_of_neg hpx] at ha
      rcases List.mem_cons.mp hb with rfl | hb
      · exact absurd hpb hpx
      · exact ih ha hb

theorem mem_insertMount : m ∈ insertMount new mounts ↔ m = new ∨ m ∈ mounts := by
  induction mounts with
  | nil => rw [insertMount, List.mem_singleton, List.mem_nil_iff, or_false]
  | cons a mounts ih =>
    rw [insertMount]
    split
    · rw [List.mem_cons]
    · rw [List.mem_cons, ih, List.mem_cons, or_left_comm]

theorem pairwise_insertMount {R : Mount → Mount → Prop} (h : mounts.Pairwise R)
    (hbefore : ∀ m ∈ mounts, new.len < m.len → R m new)
    (hafter : ∀ m ∈ mounts, m.len ≤ new.len → R new m)
    (hsorted : mounts.Pairwise fun a b => b.len ≤ a.len) : (insertMount new mounts).Pairwise R := by
  induction mounts with
  | nil => exact List.pairwise_singleton R new
  | cons a mounts ih =>
    obtain ⟨ha, htail⟩ := List.pairwise_cons.mp h
    obtain ⟨hsa, hstail⟩ := List.pairwise_cons.mp hsorted
    rw [insertMount]
    split
    case isTrue hle =>
      refine List.pairwise_cons.mpr ⟨fun m hm => hafter m hm ?_, h⟩
      rcases List.mem_cons.mp hm with rfl | hm
      · exact hle
      · exact Nat.le_trans (hsa m hm) hle
    case isFalse hlt =>
      refine List.pairwise_cons.mpr ⟨fun m hm => ?_, ih htail ?_ ?_ hstail⟩
      · rcases mem_insertMount.mp hm with rfl | hm
        · exact hbefore a List.mem_cons_self (Nat.lt_of_not_le hlt)
        · exact ha m hm
      · exact fun m hm => hbefore m (List.mem_cons_of_mem _ hm)
      · exact fun m hm => hafter m (List.mem_cons_of_mem _ hm)

/-! ## The invariant -/

def Newest (mounts : List Mount) (m : Mount) : Prop := ∀ m' ∈ mounts, m'.point = m.point → m'.id ≤ m.id

structure MountTable (st : MountState) : Prop where
  sorted : st.mounts.Pairwise fun a b => b.len ≤ a.len
  newer : st.mounts.Pairwise fun a b => a.point = b.point → b.id < a.id
  fresh : ∀ m ∈ st.mounts, m.id < st.nextId
  cached : ∀ t m v, st.cache t = some (m, v) →
    v ≤ st.version ∧ (v = st.version → m ∈ st.mounts ∧ Newest st.mounts m)
  taking : ∀ t m, st.taking t = some m → m ∈ st.mounts

theorem newest_of_find? {p : Mount → Bool} (h : MountTable st) (hm : st.mounts.find? p = some m)
    (hp : ∀ m', m'.point = m.point → p m') : Newest st.mounts m := by
  intro m' hm' hpoint
  rcases rel_of_find? h.newer hm hm' (hp m' hpoint) with rfl | hrel
  · exact Nat.le_refl _
  · exact Nat.le_of_lt (hrel hpoint.symm)

theorem isLongest_search (h : MountTable st) (hm : mountSearch st path = some m) :
    IsLongest st.mounts path m := by
  have hcov := mount_covers_iff.mp (List.find?_some (p := fun m : Mount => m.covers (render path)) hm)
  refine ⟨List.mem_of_find?_eq_some hm, hcov, fun m' hm' hpre => ?_, newest_of_find? h hm ?_⟩
  · rcases rel_of_find? h.sorted hm hm' (mount_covers_iff.mpr hpre) with rfl | hrel
    · exact Nat.le_refl _
    · exact length_le_of_render hpre hcov hrel
  intro m' hpoint
  rw [mount_covers_iff, hpoint]
  exact hcov

theorem mem_of_mountCacheCheck (h : MountTable st) (hm : mountCacheCheck st t path = some m) :
    m ∈ st.mounts ∧ m.point <+: path ∧ Newest st.mounts m := by
  unfold mountCacheCheck at hm
  cases hc : st.cache t with
  | none =>
    rw [hc] at hm
    cases hm
  | some e =>
    obtain ⟨cached, v⟩ := e
    rw [hc] at hm
    dsimp only at hm
    split at hm
    · cases hm
    case isFalse hv =>
      split at hm
      · cases hm
      split at hm
      case isTrue hcov =>
        obtain rfl := Option.some.inj hm
        obtain ⟨hmem, hnew⟩ := (h.cached t _ v hc).2 (not_not.mp hv)
        exact ⟨hmem, mount_covers_iff.mp hcov, hnew⟩
      case isFalse => cases hm

/-! ## The steps -/

theorem mountTable_retain (h : MountTable st) (id : Nat) : MountTable (st.retain id) :=
  ⟨h.sorted, h.newer, h.fresh, h.cached, h.taking⟩

theorem mountTable_find (h : MountTable st) (t : Nat) (path : Path) :
    MountTable (mountFind st t path).2 := by
  unfold mountFind
  split
  case h_1 m hcheck =>
    refine ⟨h.sorted, h.newer, h.fresh, h.cached, fun u m' hm' => ?_⟩
    dsimp only at hm'
    split at hm'
    · obtain rfl := Option.some.inj hm'
      exact (mem_of_mountCacheCheck h hcheck).1
    · exact h.taking u m' hm'
  case h_2 =>
    unfold mountFindSlow
    split
    · exact h
    case h_2 m hsearch =>
      refine ⟨h.sorted, h.newer, h.fresh, fun u m' v hm' => ?_, h.taking⟩
      dsimp only at hm'
      split at hm'
      · obtain ⟨rfl, rfl⟩ := Prod.mk.inj (Option.some.inj hm')
        have hlong := isLongest_search h hsearch
        exact ⟨Nat.le_refl _, fun _ => ⟨hlong.mounted, hlong.newest⟩⟩
      · exact h.cached u m' v hm'

theorem mountTable_take (h : MountTable st) (t : Nat) : MountTable (mountTake st t) := by
  unfold mountTake
  split
  · refine ⟨h.sorted, h.newer, h.fresh, h.cached, fun u m' hm' => ?_⟩
    dsimp only at hm'
    split at hm'
    · cases hm'
    · exact h.taking u m' hm'
  · exact h

theorem nextVersion_eq (hv : st.version + 1 < 18446744073709551616) :
    nextVersion st.version = st.version + 1 :=
  Nat.mod_eq_of_lt hv

theorem mountTable_mount (h : MountTable st) {err : Int} (hin : InTable st (.mount point err)) :
    MountTable (doMount st point err).2 := by
  unfold doMount
  split
  · exact h
  case isFalse herr =>
    have hv := nextVersion_eq (hin (Int.not_lt.mp herr))
    refine ⟨?_, ?_, fun m hm => ?_, fun u m v hm => ?_, fun u m hm => ?_⟩
    · refine pairwise_insertMount h.sorted ?_ ?_ h.sorted
      · exact fun m _ hlt => Nat.le_of_lt hlt
      · exact fun m _ hle => hle
    · refine pairwise_insertMount h.newer ?_ ?_ h.sorted
      · intro m _ hlt hpoint
        unfold Mount.len at hlt
        rw [hpoint] at hlt
        exact absurd hlt (Nat.lt_irrefl _)
      · exact fun m hm _ _ => h.fresh m hm
    · rcases mem_insertMount.mp hm with rfl | hm
      · exact Nat.lt_succ_self _
      · exact Nat.lt_succ_of_lt (h.fresh m hm)
    · -- no thread remembers the new version
      have hle := (h.cached u m v hm).1
      show v ≤ nextVersion st.version ∧ (v = nextVersion st.version → _)
      rw [hv]
      exact ⟨by omega, fun heq => by omega⟩
    · exact mem_insertMount.mpr (.inr (h.taking u m hm))

theorem mountTable_umount (h : MountTable st) (hin : InTable st (.umount point)) :
    MountTable (doUmount st point).2 := by
  unfold doUmount
  split
  · exact h
  case h_2 m hat =>
    unfold mountRemove
    split
    · exact h
    case isFalse href =>
      obtain ⟨hbound, hidle⟩ := hin m hat (not_not.mp href)
      have hv := nextVersion_eq hbound
      have hsub : (st.mounts.erase m).Sublist st.mounts := List.erase_sublist
      refine ⟨h.sorted.sublist hsub, h.newer.sublist hsub, fun m' hm' => h.fresh m' (hsub.subset hm'),
        fun u m' v hm' => ?_, fun u m' hm' => ?_⟩
      · have hle := (h.cached u m' v hm').1
        show v ≤ nextVersion st.version ∧ (v = nextVersion st.version → _)
        rw [hv]
        exact ⟨by omega, fun heq => by omega⟩
      · refine (List.mem_erase_of_ne fun heq => ?_).mpr (h.taking u m' hm')
        exact hidle u (heq ▸ hm')

theorem mountTable_step (st : MountState) (op : MountOp) (h : MountTable st) (hin : InTable st op) :
    MountTable (mountStep st op) := by
  cases op with
  | mount point err => exact mountTable_mount h hin
  | umount point => exact mountTable_umount h hin
  | find t path => exact mountTable_find h t path
  | take t => exact mountTable_take h t
  | retain id => exact mountTable_retain h id
  | release id => exact ⟨h.sorted, h.newer, h.fresh, h.cached, h.taking⟩

theorem mountTable_init : MountTable MountState.init :=
  ⟨List.Pairwise.nil, List.Pairwise.nil, fun m hm => (by cases hm), fun t m v hm => (by cases hm),
    fun t m hm => (by cases hm)⟩

/-! ## Lookups -/

theorem answers_find (h : MountTable st) (hin : InTable st (.find t path)) :
    Answers st (.find t path) := by
  intro ⟨m₀, hm₀, hpre₀⟩
  unfold mountFind
  cases hcheck : mountCacheCheck st t path with
  | some m =>
    obtain ⟨hmem, hpre, hnew⟩ := mem_of_mountCacheCheck h hcheck
    exact ⟨m, rfl, hmem, hpre, hin m hcheck, hnew⟩
  | none =>
    unfold mountFindSlow
    dsimp only
    cases hsearch : mountSearch st path with
    | none => exact absurd (mount_covers_iff.mpr hpre₀) (List.find?_eq_none.mp hsearch m₀ hm₀)
    | some m => exact ⟨m, rfl, isLongest_search h hsearch⟩

/-- **Mount resolution.** In every state that a run of fitting steps reaches, a lookup that fits finds
the mount at the longest prefix of its path. -/
theorem mountFind_run (ops : List MountOp) (hops : AllSteps mountStep InTable MountState.init ops)
    (op : MountOp) (hin : InTable (run mountStep MountState.init ops) op) :
    Answers (run mountStep MountState.init ops) op := by
  have h := run_invariant mountTable_step mountTable_init hops
  cases op with
  | find t path => exact answers_find h hin
  | take t => exact h.taking t
  | _ => trivial

def nameDev : Name := ⟨[0x64], List.cons_ne_nil _ _, by decide⟩
def namePts : Name := ⟨[0x70], List.cons_ne_nil _ _, by decide⟩

/-- The root, `/d` and `/d/p` are mounted, and thread 0 has looked up `/d`. -/
def nestedOps : List MountOp :=
  [.mount [] 0, .mount [nameDev] 0, .mount [nameDev, namePts] 0, .find 0 [nameDev]]

theorem nestedOps_inTable : AllSteps mountStep InTable MountState.init nestedOps := by
  refine ⟨fun _ => by decide, fun _ => by decide, fun _ => by decide, fun m hm => ?_, trivial⟩
  have hnone : mountCacheCheck (run mountStep MountState.init (nestedOps.take 3)) 0 [nameDev] = none := by
    decide
  exact absurd (hnone.symm.trans hm) (fun h => by cases h)

/-- Another thread finds `/d/p`. -/
theorem mountFind_nested :
    ∃ m, (mountFind (run mountStep MountState.init nestedOps) 1 [nameDev, namePts]).1 = some m ∧
      m.id = 2 := by
  have hin : InTable (run mountStep MountState.init nestedOps) (.find 1 [nameDev, namePts]) := by
    intro m hm
    have hnone : mountCacheCheck (run mountStep MountState.init nestedOps) 1 [nameDev, namePts] =
      none := by decide
    exact absurd (hnone.symm.trans hm) (fun h => by cases h)
  obtain ⟨m, hm, hlong⟩ := mountFind_run nestedOps nestedOps_inTable (.find 1 [nameDev, namePts]) hin
    ⟨⟨0, []⟩, by decide, List.nil_prefix⟩
  have hlen := hlong.longest ⟨2, [nameDev, namePts]⟩ (by decide) List.prefix_rfl
  have hmem : m ∈ [⟨2, [nameDev, namePts]⟩, ⟨1, [nameDev]⟩, (⟨0, []⟩ : Mount)] := hlong.mounted
  simp only [List.mem_cons, List.not_mem_nil, or_false] at hmem
  obtain rfl | rfl | rfl := hmem
  · exact ⟨_, hm, rfl⟩
  · exact absurd hlen (by decide)
  · exact absurd hlen (by decide)

/-- Thread 0 itself is answered with `/d`. And a mount that it remembers is removed between its check
and its reference. -/
theorem mountFind_shallow :
    ¬ Answers (run mountStep MountState.init nestedOps) (.find 0 [nameDev, namePts]) ∧
    ¬ Answers (run mountStep MountState.init
      (nestedOps ++ [.release 1, .find 0 [nameDev], .umount [nameDev]])) (.take 0) := by
  refine ⟨fun h => ?_, fun h => ?_⟩
  · obtain ⟨m, hm, hlong⟩ := h ⟨⟨0, []⟩, by decide, List.nil_prefix⟩
    have hone : (mountFind (run mountStep MountState.init nestedOps) 0 [nameDev, namePts]).1 =
      some ⟨1, [nameDev]⟩ := by decide
    obtain rfl := Option.some.inj (hone.symm.trans hm)
    exact absurd (hlong.longest ⟨2, [nameDev, namePts]⟩ (by decide) List.prefix_rfl) (by decide)
  · exact absurd (h ⟨1, [nameDev]⟩ (by decide)) (by decide)

end IosLinuxkit.Fs
