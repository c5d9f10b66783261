import Mathlib.Data.List.Pairwise
import IosLinuxkit.Fs.FileLock

/-!
# The caller's own locks

What the loop of `file_lock_acquire` does to the locks of the request's owner, which keep apart from
each other (`Gapped`): no two share an offset, and two of one type have a gap between them.

* **`visits_spec`** — after all of the owner's locks the request has grown over locks of its own type
  only, locks of the other type have lost exactly the offsets of the request, and all keep apart.
-/

namespace IosLinuxkit.Fs

variable {Owner : Type} {a b k g l req F : FileLock Owner}
  {G K : List (FileLock Owner)} {x : Int} {ty ty' : LockType}

def Held (locks : List (FileLock Owner)) (ty : LockType) (x : Int) : Prop :=
  ∃ l ∈ locks, l.type = ty ∧ l.Covers x

/-- No common offset, and a gap between two locks of one type. -/
def Gapped (a b : FileLock Owner) : Prop :=
  (a.stop < b.start ∨ b.stop < a.start) ∧
    (a.type = b.type → a.stop + 1 < b.start ∨ b.stop + 1 < a.start)

structure Part (k g : FileLock Owner) : Prop where
  type : k.type = g.type
  owner : k.owner = g.owner
  start : g.start ≤ k.start
  le : k.start ≤ k.stop
  stop : k.stop ≤ g.stop

/-! ## Keeping apart -/

theorem Gapped.symm (h : Gapped a b) : Gapped b a :=
  ⟨h.1.symm, fun ht => (h.2 ht.symm).symm⟩

instance : Std.Symm (@Gapped Owner) := ⟨fun _ _ h => h.symm⟩

theorem Gapped.not_covers (h : Gapped a b) (ha : a.Covers x) : ¬ b.Covers x := by
  intro hb
  have hsep := h.1
  simp only [FileLock.Covers] at ha hb
  omega

theorem Part.refl (h : g.Valid) : Part g g :=
  ⟨rfl, rfl, Int.le_refl _, h.le, Int.le_refl _⟩

theorem Part.valid (h : Part k g) (hg : g.Valid) : k.Valid :=
  ⟨Int.le_trans hg.lo h.start, h.le, Int.le_trans h.stop hg.hi⟩

theorem Part.covers (h : Part k g) (hx : k.Covers x) : g.Covers x :=
  ⟨Int.le_trans h.start hx.1, Int.le_trans hx.2 h.stop⟩

theorem Part.gapped_right (h : Part k g) (ha : Gapped a g) : Gapped a k := by
  have hs := h.start
  have he := h.stop
  refine ⟨?_, fun ht => ?_⟩
  · have hsep := ha.1
    omega
  · have hgap := ha.2 (ht.trans h.type)
    omega

theorem gapped_of_within (hl : l.Valid) (hF : F.Valid) (hty : F.type = req.type) (hreq : Gapped l req)
    (hG : ∀ g ∈ G, Gapped l g)
    (hw : ∀ x, F.Covers x → req.Covers x ∨ Held G req.type x) : Gapped l F := by
  have hle := hF.le
  have hlle := hl.le
  -- the offset of `F` nearest to the lock, in the range the lock must keep clear
  have hpoint : ∀ d : Int, 0 ≤ d → (d = 0 ∨ d = 1 ∧ l.type = req.type) →
      ¬ (l.start - d ≤ F.stop ∧ F.start ≤ l.stop + d ∧ l.start ≤ l.stop) := by
    intro d hd hd' hcon
    have hx : F.Covers (if F.start ≤ l.start - d then l.start - d else F.start) := by
      split
      case isTrue h => exact ⟨h, hcon.1⟩
      case isFalse h => exact ⟨Int.le_refl _, hle⟩
    have hnear : ∀ c : FileLock Owner, Gapped l c → c.type = req.type →
        ¬ c.Covers (if F.start ≤ l.start - d then l.start - d else F.start) := by
      intro c hc hct hcov
      have hsep := hc.1
      have hgap : d = 1 → l.stop + 1 < c.start ∨ c.stop + 1 < l.start := by
        intro hd1
        rcases hd' with h0 | h1
        · omega
        · exact hc.2 (h1.2.trans hct.symm)
      simp only [FileLock.Covers] at hcov
      split at hcov <;> omega
    rcases hw _ hx with hr | ⟨c, hc, hct, hcov⟩
    · exact hnear req hreq rfl hr
    · exact hnear c (hG c hc) hct hcov
  refine ⟨?_, fun ht => ?_⟩
  · have h0 := hpoint 0 (by omega) (Or.inl rfl)
    omega
  · have h1 := hpoint 1 (by omega) (Or.inr ⟨rfl, ht.trans hty⟩)
    omega

theorem held_cons : Held (l :: G) ty x ↔ (l.type = ty ∧ l.Covers x) ∨ Held G ty x := by
  simp [Held]

theorem held_append : Held (K ++ G) ty x ↔ Held K ty x ∨ Held G ty x := by
  simp [Held, or_and_right, exists_or]

theorem held_unique (hG : G.Pairwise Gapped) (h : Held G ty x) (h' : Held G ty' x) : ty = ty' := by
  obtain ⟨a, ha, hat, hax⟩ := h
  obtain ⟨b, hb, hbt, hbx⟩ := h'
  by_cases hab : a = b
  · rw [← hat, ← hbt, hab]
  · exact absurd hbx ((hG.forall ha hb hab).not_covers hax)

/-! ## One lock -/

def Touching (req lock : FileLock Owner) : Prop :=
  lock.start ≤ req.stop + 1 ∧ req.start ≤ lock.stop + 1

def Wrapped (req lock : FileLock Owner) : Prop :=
  (req.start = offTMin ∧ lock.stop = offTMax) ∨ (lock.start = offTMin ∧ req.stop = offTMax)

theorem wrapOff_pred (h : offTMin ≤ x) (h' : x ≤ offTMax) :
    wrapOff (x - 1) = if x = offTMin then offTMax else x - 1 := by
  simp only [wrapOff, offTMin, offTMax] at *
  split_ifs <;> omega

theorem fileLocksOverlap_iff :
    fileLocksOverlap a b = true ↔ b.start ≤ a.stop ∧ a.start ≤ b.stop := by
  simp [fileLocksOverlap]

theorem fileLocksAdjacent_iff (ha : a.Valid) (hb : b.Valid) : fileLocksAdjacent a b = true ↔
      a.stop + 1 = b.start ∨ b.stop + 1 = a.start ∨ Wrapped a b := by
  obtain ⟨ha1, ha2, ha3⟩ := ha
  obtain ⟨hb1, hb2, hb3⟩ := hb
  simp only [fileLocksAdjacent, Bool.or_eq_true, decide_eq_true_eq, Wrapped]
  rw [wrapOff_pred hb1 (by omega), wrapOff_pred ha1 (by omega)]
  split <;> split <;> omega

theorem visit_cases (hr : req.Valid) (hl : l.Valid) :
    (visit req l = ⟨req, [l], false⟩ ∧ Gapped l req) ∨
    (visit req l = ⟨extend req l, [], false⟩ ∧ l.type = req.type ∧
      (Touching req l ∨ Wrapped req l)) ∨
    (visit req l = ⟨req, remains req l, true⟩ ∧ l.type ≠ req.type ∧
      req.start ≤ l.stop ∧ l.start ≤ req.stop) := by
  have hover := fileLocksOverlap_iff (a := l) (b := req)
  have hadj := fileLocksAdjacent_iff hr hl
  by_cases ht : req.type = l.type
  · by_cases ho : fileLocksOverlap l req = true
    · refine .inr (.inl ⟨by simp [visit, ht, ho], ht.symm, .inl ?_⟩)
      have := hover.mp ho
      simp only [Touching]
      omega
    by_cases ha : fileLocksAdjacent req l = true
    · refine .inr (.inl ⟨by simp [visit, ht, ha], ht.symm, ?_⟩)
      have hr2 := hr.le
      have hl2 := hl.le
      rcases hadj.mp ha with h | h | h
      · exact .inl ⟨by omega, by omega⟩
      · exact .inl ⟨by omega, by omega⟩
      · exact .inr h
    refine .inl ⟨by simp [visit, ht, ho, ha], ?_, fun _ => ?_⟩ <;>
    · rw [hover] at ho
      rw [hadj] at ha
      omega
  by_cases ho : fileLocksOverlap l req = true
  · exact .inr (.inr ⟨by simp [visit, ht, ho], fun h => ht h.symm, hover.mp ho⟩)
  refine .inl ⟨by simp [visit, ht, ho], ?_, fun h => absurd h.symm ht⟩
  rw [hover] at ho
  omega

theorem extend_start_le (req l : FileLock Owner) :
    (extend req l).start ≤ req.start ∧ (extend req l).start ≤ l.start ∧
    ((extend req l).start = req.start ∨ (extend req l).start = l.start) := by
  simp only [extend]
  split <;> omega

theorem le_extend_stop (req l : FileLock Owner) :
    req.stop ≤ (extend req l).stop ∧ l.stop ≤ (extend req l).stop ∧
    ((extend req l).stop = req.stop ∨ (extend req l).stop = l.stop) := by
  simp only [extend]
  split <;> omega

theorem extend_valid (hr : req.Valid) (hl : l.Valid) : (extend req l).Valid := by
  have hs := extend_start_le req l
  have he := le_extend_stop req l
  obtain ⟨hr1, -, hr3⟩ := hr
  obtain ⟨hl1, hl2, hl3⟩ := hl
  exact ⟨by omega, by omega, by omega⟩

theorem covers_extend (h : req.Covers x ∨ l.Covers x) : (extend req l).Covers x := by
  have hs := extend_start_le req l
  have he := le_extend_stop req l
  simp only [FileLock.Covers] at *
  omega

theorem covers_of_extend (ht : Touching req l) (h : (extend req l).Covers x) :
    req.Covers x ∨ l.Covers x := by
  have hs := extend_start_le req l
  have he := le_extend_stop req l
  simp only [FileLock.Covers, Touching] at *
  omega

/-! ## What is left of a lock that is cut -/

theorem mem_remains (hl : l.Valid) (hover : req.start ≤ l.stop ∧ l.start ≤ req.stop)
    (hk : k ∈ remains req l) : Part k l ∧ (k.stop < req.start ∨ req.stop < k.start) := by
  unfold remains at hk
  split at hk
  case isTrue h =>
    rcases List.mem_cons.mp hk with rfl | hk
    · exact ⟨⟨rfl, rfl, by simp, by dsimp only; omega, by dsimp only; omega⟩, by dsimp only; omega⟩
    · rw [List.mem_singleton.mp hk]
      exact ⟨⟨rfl, rfl, by dsimp only; omega, by dsimp only; omega, by simp⟩, by dsimp only; omega⟩
  case isFalse h =>
    split at hk
    case isTrue h2 => exact absurd hk (by simp)
    case isFalse h2 =>
      split at hk
      case isTrue h3 =>
        rw [List.mem_singleton.mp hk]
        exact ⟨⟨rfl, rfl, by simp, by dsimp only; omega, by dsimp only; omega⟩, by dsimp only; omega⟩
      case isFalse h3 =>
        split at hk
        case isTrue h4 =>
          rw [List.mem_singleton.mp hk]
          exact ⟨⟨rfl, rfl, by dsimp only; omega, by dsimp only; omega, by simp⟩, by dsimp only; omega⟩
        case isFalse h4 => omega

theorem covers_remains (hx : l.Covers x) (hn : ¬ req.Covers x) :
    ∃ k ∈ remains req l, k.type = l.type ∧ k.Covers x := by
  obtain ⟨hx1, hx2⟩ := hx
  simp only [FileLock.Covers] at hn
  unfold remains
  split
  case isTrue h =>
    by_cases hlow : x < req.start
    · exact ⟨_, .head _, rfl, hx1, by dsimp only; omega⟩
    · exact ⟨_, .tail _ (.head _), rfl, by dsimp only; omega, hx2⟩
  case isFalse h =>
    split
    case isTrue h2 => omega
    case isFalse h2 =>
      split
      case isTrue h3 => exact ⟨_, .head _, rfl, hx1, by simp; omega⟩
      case isFalse h3 =>
        split
        case isTrue h4 => exact ⟨_, .head _, rfl, by simp; omega, hx2⟩
        case isFalse h4 => exact ⟨l, .head _, rfl, hx1, hx2⟩

theorem held_remains (hl : l.Valid) (hover : req.start ≤ l.stop ∧ l.start ≤ req.stop) :
    Held (remains req l) ty x ↔ (l.type = ty ∧ l.Covers x) ∧ ¬ req.Covers x := by
  constructor
  · rintro ⟨k, hk, hkt, hkx⟩
    obtain ⟨hpart, hout⟩ := mem_remains hl hover hk
    refine ⟨⟨hpart.type.symm.trans hkt, hpart.covers hkx⟩, fun hreq => ?_⟩
    simp only [FileLock.Covers] at hkx hreq
    omega
  rintro ⟨⟨hlt, hlx⟩, hn⟩
  obtain ⟨k, hk, hkt, hkx⟩ := covers_remains hlx hn
  exact ⟨k, hk, hkt.trans hlt, hkx⟩

theorem pairwise_remains (hr : req.Valid) : (remains req l).Pairwise Gapped := by
  have hle := hr.le
  unfold remains
  split
  · refine List.pairwise_pair.mpr ⟨Or.inl ?_, fun _ => Or.inl ?_⟩
    · simp
      omega
    · simp
      omega
  · split <;> [exact .nil; split <;> [simp; split <;> simp]]

/-! ## All of the owner's locks -/

def visits (req : FileLock Owner) : List (FileLock Owner) → FileLock Owner × List (FileLock Owner)
  | [] => (req, [])
  | l :: rest =>
    let w := visits (visit req l).request rest
    (w.1, (visit req l).left ++ w.2)

def FullOrEnd (req : FileLock Owner) (G : List (FileLock Owner)) : Prop :=
  (req.Covers offTMin ∨ Held G req.type offTMin) → (req.Covers offTMax ∨ Held G req.type offTMax) →
  ∀ x, offTMin ≤ x → x ≤ offTMax → req.Covers x ∨ Held G req.type x

structure Visited (req : FileLock Owner) (G : List (FileLock Owner)) (F : FileLock Owner)
    (K : List (FileLock Owner)) : Prop where
  type : F.type = req.type
  owner : F.owner = req.owner
  valid : F.Valid
  grown : ∀ x, req.Covers x → F.Covers x
  within : ∀ x, F.Covers x → req.Covers x ∨ Held G req.type x
  same : ∀ x, Held G req.type x → F.Covers x ∨ Held K req.type x
  other : ∀ ty x, ty ≠ req.type → (Held K ty x ↔ Held G ty x ∧ ¬ req.Covers x)
  parts : ∀ k ∈ K, ∃ g ∈ G, Part k g
  clear : ∀ k ∈ K, Gapped k F
  apart : K.Pairwise Gapped

theorem fullOrEnd_cons_ne (hty : l.type ≠ req.type) (h : FullOrEnd req (l :: G)) :
    FullOrEnd req G := by
  have hiff : ∀ x, Held (l :: G) req.type x ↔ Held G req.type x := fun x => by
    rw [held_cons]
    exact or_iff_right fun hl => hty hl.1
  simpa only [FullOrEnd, hiff] using h

theorem not_full (hl : l.Valid) (hr : req.Valid) (hty : l.type = req.type) (hreq : Gapped l req)
    (hG : ∀ g ∈ G, Gapped l g)
    (hfull : ∀ x, offTMin ≤ x → x ≤ offTMax → req.Covers x ∨ Held (l :: G) req.type x) : False := by
  have hbeside : ∀ x, (x = l.start - 1 ∨ x = l.stop + 1) →
      ¬ (req.Covers x ∨ Held (l :: G) req.type x) := by
    intro x hx hcov
    have hle := hl.le
    have hnear : ∀ c : FileLock Owner, Gapped l c → c.type = req.type → ¬ c.Covers x := by
      intro c hc hct hcx
      have hgap := hc.2 (hty.trans hct.symm)
      simp only [FileLock.Covers] at hcx
      omega
    rcases hcov with hcov | hcov
    · exact hnear req hreq rfl hcov
    rcases held_cons.mp hcov with ⟨-, hlx⟩ | ⟨g, hg, hgt, hgx⟩
    · simp only [FileLock.Covers] at hlx
      omega
    · exact hnear g (hG g hg) hgt hgx
  obtain ⟨hl1, hl2, hl3⟩ := hl
  obtain ⟨hr1, hr2, hr3⟩ := hr
  have hsep := hreq.1
  by_cases hlow : offTMin < l.start
  · exact hbeside (l.start - 1) (.inl rfl) (hfull _ (by omega) (by omega))
  · exact hbeside (l.stop + 1) (.inr rfl) (hfull _ (by omega) (by omega))

theorem Visited.keep (hl : l.Valid) (hreq : Gapped l req) (hG : ∀ g ∈ G, Gapped l g)
    (h : Visited req G F K) : Visited req (l :: G) F (l :: K) where
  type := h.type
  owner := h.owner
  valid := h.valid
  grown := h.grown
  within x hx := (h.within x hx).imp id fun hg => held_cons.mpr (.inr hg)
  same x hx := by
    rcases held_cons.mp hx with hx | hx
    · exact .inr (held_cons.mpr (.inl hx))
    · exact (h.same x hx).imp id fun hk => held_cons.mpr (.inr hk)
  other ty x hty := by
    rw [held_cons, held_cons, h.other ty x hty, or_and_right]
    refine or_congr_left ⟨fun hlx => ⟨hlx, hreq.not_covers hlx.2⟩, And.left⟩
  parts k hk := by
    rcases List.mem_cons.mp hk with rfl | hk
    · exact ⟨k, .head _, .refl hl⟩
    · obtain ⟨g, hg, hpart⟩ := h.parts k hk
      exact ⟨g, .tail _ hg, hpart⟩
  clear k hk := by
    rcases List.mem_cons.mp hk with rfl | hk
    · exact gapped_of_within hl h.valid h.type hreq hG h.within
    · exact h.clear k hk
  apart := by
    refine List.pairwise_cons.mpr ⟨fun k hk => ?_, h.apart⟩
    obtain ⟨g, hg, hpart⟩ := h.parts k hk
    exact hpart.gapped_right (hG g hg)

theorem Visited.cut (hr : req.Valid) (hl : l.Valid) (hty : l.type ≠ req.type)
    (hover : req.start ≤ l.stop ∧ l.start ≤ req.stop) (hG : ∀ g ∈ G, Gapped l g)
    (h : Visited req G F K) : Visited req (l :: G) F (remains req l ++ K) where
  type := h.type
  owner := h.owner
  valid := h.valid
  grown := h.grown
  within x hx := (h.within x hx).imp id fun hg => held_cons.mpr (.inr hg)
  same x hx := by
    rcases held_cons.mp hx with hx | hx
    · exact absurd hx.1 hty
    · exact (h.same x hx).imp id fun hk => held_append.mpr (.inr hk)
  other ty x hty' := by
    rw [held_append, held_remains hl hover, h.other ty x hty', held_cons, or_and_right]
  parts k hk := by
    rcases List.mem_append.mp hk with hk | hk
    · exact ⟨l, .head _, (mem_remains hl hover hk).1⟩
    · obtain ⟨g, hg, hpart⟩ := h.parts k hk
      exact ⟨g, .tail _ hg, hpart⟩
  clear k hk := by
    rcases List.mem_append.mp hk with hk | hk
    · obtain ⟨hpart, hout⟩ := mem_remains hl hover hk
      have hkreq : Gapped k req :=
        ⟨hout, fun ht => absurd (hpart.type.symm.trans ht) hty⟩
      exact gapped_of_within (hpart.valid hl) h.valid h.type hkreq
        (fun g hg => (hpart.gapped_right (hG g hg).symm).symm) h.within
    · exact h.clear k hk
  apart := by
    refine List.pairwise_append.mpr ⟨pairwise_remains hr, h.apart, fun k hk k' hk' => ?_⟩
    obtain ⟨g, hg, hpart⟩ := h.parts k' hk'
    have hlk' := hpart.gapped_right (hG g hg)
    exact ((mem_remains hl hover hk).1.gapped_right hlk'.symm).symm

theorem Visited.merge (hty : l.type = req.type) (hG : (l :: G).Pairwise Gapped)
    (hw : ∀ x, (extend req l).Covers x → req.Covers x ∨ Held (l :: G) req.type x)
    (h : Visited (extend req l) G F K) : Visited req (l :: G) F K where
  type := h.type
  owner := h.owner
  valid := h.valid
  grown x hx := h.grown x (covers_extend (.inl hx))
  within x hx := by
    rcases h.within x hx with hx | hx
    · exact hw x hx
    · exact .inr (held_cons.mpr (.inr hx))
  same x hx := by
    rcases held_cons.mp hx with hx | hx
    · exact .inl (h.grown x (covers_extend (.inr hx.2)))
    · exact h.same x hx
  other ty x hty' := by
    have hl : Held (l :: G) ty x ↔ Held G ty x := by
      rw [held_cons]
      exact or_iff_right fun hx => hty' (hx.1.symm.trans hty)
    rw [h.other ty x hty', hl]
    refine and_congr_right fun hx => not_congr ⟨fun hext => ?_, fun hr => covers_extend (.inl hr)⟩
    -- a lock of the other type is there, so none of the request's type is
    exact (hw x hext).resolve_right fun hs => hty' (held_unique hG (hl.mpr hx) hs)
  parts k hk := by
    obtain ⟨g, hg, hpart⟩ := h.parts k hk
    exact ⟨g, .tail _ hg, hpart⟩
  clear := h.clear
  apart := h.apart

theorem covers_extend_within (hr : req.Valid) (hl : l.Valid) (hty : l.type = req.type)
    (ht : Touching req l ∨ Wrapped req l) (hfull : FullOrEnd req (l :: G)) (x : Int)
    (hx : (extend req l).Covers x) : req.Covers x ∨ Held (l :: G) req.type x := by
  rcases ht with ht | hwrap
  · rcases covers_of_extend ht hx with hx | hx
    · exact .inl hx
    · exact .inr (held_cons.mpr (.inl ⟨hty, hx⟩))
  · -- both ends are covered, so everything is
    have hv := extend_valid hr hl
    have hheld : ∀ x, l.Covers x → Held (l :: G) req.type x := fun x hx =>
      held_cons.mpr (.inl ⟨hty, hx⟩)
    have hreq1 : req.Covers req.start := ⟨Int.le_refl _, hr.le⟩
    have hreq2 : req.Covers req.stop := ⟨hr.le, Int.le_refl _⟩
    have hl1 : l.Covers l.start := ⟨Int.le_refl _, hl.le⟩
    have hl2 : l.Covers l.stop := ⟨hl.le, Int.le_refl _⟩
    have hrange : offTMin ≤ x ∧ x ≤ offTMax := ⟨Int.le_trans hv.lo hx.1, Int.le_trans hx.2 hv.hi⟩
    rcases hwrap with ⟨h1, h2⟩ | ⟨h1, h2⟩
    · exact hfull (.inl (h1 ▸ hreq1)) (.inr (hheld _ (h2 ▸ hl2))) x hrange.1 hrange.2
    · exact hfull (.inr (hheld _ (h1 ▸ hl1))) (.inl (h2 ▸ hreq2)) x hrange.1 hrange.2

theorem fullOrEnd_extend (hr : req.Valid) (hl : l.Valid) (hty : l.type = req.type)
    (ht : Touching req l ∨ Wrapped req l) (hfull : FullOrEnd req (l :: G)) :
    FullOrEnd (extend req l) G := by
  have hiff : ∀ x, (extend req l).Covers x ∨ Held G req.type x ↔
      req.Covers x ∨ Held (l :: G) req.type x := by
    intro x
    constructor
    · rintro (hx | hx)
      · exact covers_extend_within hr hl hty ht hfull x hx
      · exact .inr (held_cons.mpr (.inr hx))
    rintro (hx | hx)
    · exact .inl (covers_extend (.inl hx))
    · exact (held_cons.mp hx).imp (fun hlx => covers_extend (.inr hlx.2)) id
  intro h1 h2 x hx1 hx2
  exact (hiff x).mpr (hfull ((hiff _).mp h1) ((hiff _).mp h2) x hx1 hx2)

theorem visits_spec (hr : req.Valid) (hG : ∀ g ∈ G, g.Valid) (hapart : G.Pairwise Gapped)
    (hfull : FullOrEnd req G) : Visited req G (visits req G).1 (visits req G).2 := by
  induction G generalizing req with
  | nil =>
    exact ⟨rfl, rfl, hr, fun _ h => h, fun _ h => .inl h, by simp [Held, visits],
      by simp [Held, visits], by simp [visits], by simp [visits], .nil⟩
  | cons l G ih =>
    have hl : l.Valid := hG l (.head _)
    have hG' : ∀ g ∈ G, g.Valid := fun g hg => hG g (.tail _ hg)
    obtain ⟨hlG, hpair⟩ := List.pairwise_cons.mp hapart
    rcases visit_cases hr hl with ⟨hv, hgap⟩ | ⟨hv, hty, ht⟩ | ⟨hv, hty, hover⟩
    · have hfull' : FullOrEnd req G := by
        by_cases hty : l.type = req.type
        · intro h1 h2
          have hmono : ∀ x, req.Covers x ∨ Held G req.type x →
              req.Covers x ∨ Held (l :: G) req.type x := fun x hx =>
            hx.imp id fun hg => held_cons.mpr (.inr hg)
          exact absurd (hfull (hmono _ h1) (hmono _ h2)) (not_full hl hr hty hgap hlG)
        · exact fullOrEnd_cons_ne hty hfull
      simp only [visits, hv]
      exact (ih hr hG' hpair hfull').keep hl hgap hlG
    · simp only [visits, hv]
      exact (ih (extend_valid hr hl) hG' hpair (fullOrEnd_extend hr hl hty ht hfull)).merge hty
        hapart (covers_extend_within hr hl hty ht hfull)
    · simp only [visits, hv]
      exact (ih hr hG' hpair (fullOrEnd_cons_ne hty hfull)).cut hr hl hty hover hlG

end IosLinuxkit.Fs
