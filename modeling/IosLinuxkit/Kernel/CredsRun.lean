import IosLinuxkit.Kernel.Creds

/-!
# Unprivileged tasks keep their identities

* **`credentials_run`** — the calls of a run are lawful exactly when its lists of groups are the task's own.
-/

namespace IosLinuxkit.Creds

variable {c₀ c c' : Creds} {ids old : Ids} {op : CredOp}

/-! ## Ids -/

theorem Ids.Within.refl (ids : Ids) : ids.Within ids :=
  ⟨.inl rfl, .inr (.inl rfl), .inr (.inr rfl)⟩

theorem Ids.Within.mem (h : ids.Within old) {id : Id} (hid : ids.Mem id) : old.Mem id := by
  rcases hid with rfl | rfl | rfl
  · exact h.real
  · exact h.effective
  · exact h.saved

theorem within_setId (h : ids.Within old) (id : Id) : (setId false ids id).2.Within old := by
  unfold setId
  rw [if_neg Bool.false_ne_true]
  split
  · exact h
  case isFalse hid =>
    refine ⟨h.real, h.mem ?_, h.saved⟩
    by_cases hreal : id = ids.real
    · exact .inl hreal
    · exact .inr (.inr (Classical.byContradiction fun hsaved => hid ⟨hreal, hsaved⟩))

theorem mem_of_not_refused {id : Id} (h : refused ids id = false) (hid : id ≠ keepId) : ids.Mem id := by
  unfold refused at h
  unfold Ids.Mem
  grind

theorem within_setresId (h : ids.Within old) (real effective saved : Id) :
    (setresId false ids real effective saved).2.Within old := by
  unfold setresId
  split
  · exact h
  case isFalse hok =>
    simp only [Bool.not_false, Bool.true_and, Bool.or_eq_true, not_or, Bool.not_eq_true] at hok
    obtain ⟨⟨hreal, heffective⟩, hsaved⟩ := hok
    have harg : ∀ id keep, refused ids id = false → ids.Mem keep →
        old.Mem (if id ≠ keepId then id else keep) := by
      intro id keep hid hkeep
      split
      case isTrue hne => exact h.mem (mem_of_not_refused hid hne)
      case isFalse => exact h.mem hkeep
    exact ⟨harg real _ hreal (.inl rfl), harg effective _ heffective (.inr (.inl rfl)),
      harg saved _ hsaved (.inr (.inr rfl))⟩

theorem setId_error {superuser : Bool} {id : Id} (h : (setId superuser ids id).1 < 0) :
    (setId superuser ids id).2 = ids := by
  unfold setId at h ⊢
  split at h
  · cases h
  split at h
  case isTrue hs hid => rw [if_neg hs, if_pos hid]
  case isFalse => cases h

theorem setresId_error {superuser : Bool} {real effective saved : Id}
    (h : (setresId superuser ids real effective saved).1 < 0) :
    (setresId superuser ids real effective saved).2 = ids := by
  unfold setresId at h ⊢
  split at h
  case isTrue hno => rw [if_pos hno]
  case isFalse => cases h

/-! ## One call -/

theorem Same.refl (c : Creds) : Same c c := ⟨rfl, rfl, rfl⟩

theorem not_superuser (hun : Unprivileged c₀) (h : Within c₀ c) : c.superuser = false := by
  unfold Creds.superuser
  rw [beq_eq_false_iff_ne]
  intro hc
  exact hun (hc ▸ h.uids.effective)

theorem lawful_uids (h : Within c₀ c) {r : Int × Ids} (hcall : credCall c op = c.withUids r)
    (hwithin : r.2.Within c₀.uids) (herror : r.1 < 0 → r.2 = c.uids) : Lawful c₀ c op := by
  unfold Lawful
  rw [hcall]
  exact ⟨⟨hwithin, h.gids, h.groups⟩, fun hneg => ⟨herror hneg, rfl, rfl⟩⟩

theorem lawful_gids (h : Within c₀ c) {r : Int × Ids} (hcall : credCall c op = c.withGids r)
    (hwithin : r.2.Within c₀.gids) (herror : r.1 < 0 → r.2 = c.gids) : Lawful c₀ c op := by
  unfold Lawful
  rw [hcall]
  exact ⟨⟨h.uids, hwithin, h.groups⟩, fun hneg => ⟨rfl, herror hneg, rfl⟩⟩

theorem mem_supplementary {g : Id} : g ∈ c.supplementary ↔ ∃ i < c.ngroups, groupAt c.groups i = g := by
  unfold Creds.supplementary
  simp only [List.mem_map, List.mem_range]

theorem lawful_setgroups (h : Within c₀ c) (size : Nat) (r : Creds.UserRead) :
    Lawful c₀ c (.setgroups size r) ↔ OwnGroups c₀ c (.setgroups size r) := by
  have hcall : credCall c (.setgroups size r) = c.sysSetgroups size r := rfl
  unfold Lawful OwnGroups
  rw [hcall]
  dsimp only
  unfold Creds.sysSetgroups
  split
  case isTrue hbig =>
    exact ⟨fun _ hle => absurd hbig (Nat.not_lt.mpr hle), fun _ => ⟨h, fun _ => Same.refl c⟩⟩
  case isFalse hsize =>
    have hle := Nat.not_lt.mp hsize
    by_cases hfault : r.fault = true
    case pos =>
      rw [if_pos hfault, if_pos hfault]
      dsimp only
      refine ⟨fun hlaw _ i hi => ?_, fun hown => ?_⟩
      · have hsame := (hlaw.2 (show (eFAULT : Int) < 0 by decide)).groups
        exact List.map_inj_left.mp hsame i (List.mem_range.mpr hi)
      have hsame : Same c { c with groups := Creds.overlay c.groups size r } :=
        ⟨rfl, rfl, List.map_inj_left.mpr fun i hi => hown hle i (List.mem_range.mp hi)⟩
      exact ⟨⟨h.uids, h.gids, fun g hg => h.groups g (hsame.groups ▸ hg)⟩, fun _ => hsame⟩
    case neg =>
      rw [if_neg hfault, if_neg hfault]
      dsimp only
      refine ⟨fun hlaw _ i hi => ?_, fun hown => ⟨⟨h.uids, h.gids, fun g hg => ?_⟩, fun hc => ?_⟩⟩
      · exact hlaw.1.groups _ (mem_supplementary.mpr ⟨i, hi, rfl⟩)
      · obtain ⟨i, hi, rfl⟩ := mem_supplementary.mp hg
        exact hown hle i hi
      · cases hc

theorem lawful_iff (hun : Unprivileged c₀) (h : Within c₀ c) (op : CredOp) :
    Lawful c₀ c op ↔ OwnGroups c₀ c op := by
  have hsuper := not_superuser hun h
  have huid : ∀ id, (setId c.superuser c.uids id).2.Within c₀.uids := by
    intro id
    rw [hsuper]
    exact within_setId h.uids id
  have hresuid : ∀ x y z, (setresId c.superuser c.uids x y z).2.Within c₀.uids := by
    intro x y z
    rw [hsuper]
    exact within_setresId h.uids x y z
  have hgid : ∀ id, (setId c.superuser c.gids id).2.Within c₀.gids := by
    intro id
    rw [hsuper]
    exact within_setId h.gids id
  have hresgid : ∀ x y z, (setresId c.superuser c.gids x y z).2.Within c₀.gids := by
    intro x y z
    rw [hsuper]
    exact within_setresId h.gids x y z
  cases op with
  | setuid uid => exact iff_of_true (lawful_uids h rfl (huid uid) setId_error) trivial
  | setreuid ruid euid =>
    exact iff_of_true (lawful_uids h rfl (hresuid ruid euid keepId) setresId_error) trivial
  | setresuid ruid euid suid =>
    exact iff_of_true (lawful_uids h rfl (hresuid ruid euid suid) setresId_error) trivial
  | setgid gid => exact iff_of_true (lawful_gids h rfl (hgid gid) setId_error) trivial
  | setregid rgid egid =>
    exact iff_of_true (lawful_gids h rfl (hresgid rgid egid keepId) setresId_error) trivial
  | setresgid rgid egid sgid =>
    exact iff_of_true (lawful_gids h rfl (hresgid rgid egid sgid) setresId_error) trivial
  | setgroups size r => exact lawful_setgroups h size r

/-! ## Runs -/

theorem lawful_run (hun : Unprivileged c₀) (h : Within c₀ c) (ops : List CredOp) :
    AllSteps credStep (Lawful c₀) c ops ↔ AllSteps credStep (OwnGroups c₀) c ops := by
  induction ops generalizing c with
  | nil => exact Iff.rfl
  | cons op ops ih =>
    refine ⟨fun hall => ?_, fun hall => ?_⟩
    · exact ⟨(lawful_iff hun h op).mp hall.1, (ih hall.1.1).mp hall.2⟩
    · have hlaw := (lawful_iff hun h op).mpr hall.1
      exact ⟨hlaw, (ih hlaw.1).mpr hall.2⟩

/-- **Credentials.** In every run of an unprivileged task, no call brings a new identity or changes anything
when it fails, exactly when each list of groups is a list of its own groups. -/
theorem credentials_run (c : Creds) (hun : Unprivileged c) (ops : List CredOp) :
    AllSteps credStep (Lawful c) c ops ↔ AllSteps credStep (OwnGroups c) c ops :=
  lawful_run hun ⟨Ids.Within.refl c.uids, Ids.Within.refl c.gids, fun _ hg => hg⟩ ops

def user : Creds := ⟨⟨1000, 1000, 1000⟩, ⟨100, 100, 100⟩, 2, [20, 0, 0, 0, 27, 0, 0, 0]⟩

/-- The user gives up a group, and the superuser's ids are refused. -/
def userOps : List CredOp :=
  [.setgroups 1 ⟨[27, 0, 0, 0], false⟩, .setuid 0, .setresgid 0 keepId 100, .setgroups 2 ⟨[], true⟩]

theorem credentials_user : AllSteps credStep (Lawful user) user userOps ∧
    (run credStep user userOps).supplementary = [27] := by
  refine ⟨(credentials_run user (by decide) userOps).mpr ⟨fun _ i hi => ?_, trivial, trivial, fun _ i hi => ?_,
    trivial⟩, by decide⟩
  · have hlist : ∀ i < 1, groupAt (Creds.overlay user.groups 1 ⟨[27, 0, 0, 0], false⟩) i ∈ user.supplementary := by
      decide
    exact hlist i hi
  · rfl

/-- Any user gets any group; and a list that ends in front of a page that cannot be read changes the groups
of a call that fails. -/
theorem credentials_gained : ¬ Lawful user user (.setgroups 1 ⟨[0, 0, 0, 0], false⟩) ∧
      ¬ Lawful user user (.setgroups 2 ⟨[27, 0, 0, 0], true⟩) := by
  refine ⟨fun h => ?_, fun h => ?_⟩
  · exact absurd (h.1.groups 0 (by decide)) (by decide)
  · exact absurd (h.2 (by decide)).groups (by decide)

end IosLinuxkit.Creds
