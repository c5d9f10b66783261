/-!
# Guest paths

A path comes to a file system from `path_normalize`: no `.`, `..`, double or trailing slash, the
root as the empty string. So it is the rendering of a list of names.

* **`render_append_iff`** — what follows a directory's path in a path that continues with a slash,
  or ends there, is a path under that directory.
-/

namespace IosLinuxkit.Fs

abbrev Blob := List UInt8

def slash : UInt8 := 0x2f

/-- A name in a directory. -/
structure Name where
  bytes : Blob
  nonempty : bytes ≠ []
  noSlash : slash ∉ bytes
  deriving DecidableEq

abbrev Path := List Name

def render : Path → Blob
  | [] => []
  | n :: p => slash :: (n.bytes ++ render p)

/-- A string goes on after a name: it is at its end, or at a slash. -/
def Boundary : Blob → Prop
  | [] => True
  | c :: _ => c = slash

instance : DecidablePred Boundary
  | [] => .isTrue trivial
  | c :: _ => inferInstanceAs (Decidable (c = slash))

theorem boundary_render (p : Path) : Boundary (render p) := by
  cases p with
  | nil => trivial
  | cons n p => exact rfl

theorem render_append (p q : Path) : render (p ++ q) = render p ++ render q := by
  induction p with
  | nil => rfl
  | cons n p ih => simp only [List.cons_append, render, ih, List.append_assoc]

theorem name_unique {a b u v : Blob} (ha : slash ∉ a) (hb : slash ∉ b) (hu : Boundary u)
    (hv : Boundary v) (h : a ++ u = b ++ v) : a = b ∧ u = v := by
  induction a generalizing b with
  | nil =>
    cases b with
    | nil => exact ⟨rfl, h⟩
    | cons y b =>
      -- `u` begins with a character of a name
      rw [List.nil_append, List.cons_append] at h
      subst h
      exact absurd (hu ▸ List.mem_cons_self) hb
  | cons x a ih =>
    cases b with
    | nil =>
      rw [List.nil_append, List.cons_append] at h
      subst h
      exact absurd (hv ▸ List.mem_cons_self) ha
    | cons y b =>
      rw [List.cons_append, List.cons_append, List.cons.injEq] at h
      obtain ⟨rfl, h⟩ := h
      obtain ⟨rfl, rfl⟩ := ih (fun hx => ha (List.mem_cons_of_mem _ hx))
        (fun hx => hb (List.mem_cons_of_mem _ hx)) h
      exact ⟨rfl, rfl⟩

theorem render_append_iff {p d : Path} {tail : Blob} :
    (render p = render d ++ tail ∧ Boundary tail) ↔ ∃ q, p = d ++ q ∧ tail = render q := by
  constructor
  · rintro ⟨h, htail⟩
    induction d generalizing p with
    | nil => exact ⟨p, rfl, h.symm⟩
    | cons n d ih =>
      cases p with
      | nil => cases h
      | cons m p =>
        simp only [render, List.cons_append, List.append_assoc, List.cons.injEq, true_and] at h
        have hbound : Boundary (render d ++ tail) := by
          cases d with
          | nil => exact htail
          | cons k d => exact rfl
        obtain ⟨hname, hrest⟩ := name_unique m.noSlash n.noSlash (boundary_render p) hbound h
        obtain ⟨q, rfl, hq⟩ := ih hrest
        refine ⟨q, ?_, hq⟩
        rw [List.cons_append, show m = n from by cases m; cases n; cases hname; rfl]
  · rintro ⟨q, rfl, rfl⟩
    exact ⟨render_append d q, boundary_render q⟩

theorem render_injective {p q : Path} (h : render p = render q) : p = q := by
  obtain ⟨r, hr, hnil⟩ := render_append_iff.mp
    (show render p = render q ++ [] ∧ Boundary [] from ⟨by rw [h, List.append_nil], trivial⟩)
  cases r with
  | nil => rw [hr, List.append_nil]
  | cons n r => cases hnil

end IosLinuxkit.Fs
