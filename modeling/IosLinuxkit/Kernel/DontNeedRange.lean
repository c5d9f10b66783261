import IosLinuxkit.Kernel.DontNeed
import IosLinuxkit.Kernel.GuardRun

/-!
# When `MADV_DONTNEED` keeps file-backed data

* **`dontneedOk_iff`** — the call is right if and only if `DontneedFits`.
-/

namespace IosLinuxkit.Kernel

variable {v v' : Vm} {addr len n p q d start : Nat} {e e' : PtEntry} {limit : Option Nat} {refusals : Bool}
  {file : Nat → Nat → UInt8} {flags : Flags}

/-! ## What the call should leave -/

/-- What a byte `b` of a page with these flags may be after the call. -/
structure Allowed (filed : UInt8) (requested : Prop) (flags : Flags) (b b' : UInt8) : Prop where
  kept : ¬ requested ∨ Flags.any flags Flags.shared = true → b' = b
  zeroed : requested → Flags.any flags Flags.shared = false → Flags.any flags Flags.anonymous = true → b' = 0
  filed : requested → Flags.any flags Flags.shared = false → Flags.any flags Flags.anonymous = false →
    b' = b ∨ b' = filed

/-- A page after the call: it is as accessible as it was, and its bytes are allowed. -/
structure PageAfter (file : Nat → Nat → UInt8) (requested : Prop) (v v' : Vm) (p : Nat) : Prop where
  unmapped : memPt v.mem p = none → memPt v'.mem p = none ∧ reservedFlags v'.mem p = reservedFlags v.mem p
  mapped : ∀ e, memPt v.mem p = some e → ∃ e', memPt v'.mem p = some e' ∧
    e'.flags &&& Flags.rwx = e.flags &&& Flags.rwx ∧ ∀ i < pageSize, Allowed (file p i) requested e.flags
      (v.host.bytes e.data (e.offset + i)) (v'.host.bytes e'.data (e'.offset + i))

/-- `madvise(addr, len, MADV_DONTNEED)` returns, and fails with nothing changed or leaves every page as it
should be. `file` is what the files behind the pages hold. -/
def DontneedOk (file : Nat → Nat → UInt8) (v : Vm) (limit : Option Nat) (addr len : Nat) : Prop :=
  ∃ fuel r, sysMadvise v limit addr len 4 fuel = some r ∧ ((r.1 < 0 ∧ r.2 = v) ∨
    (0 ≤ r.1 ∧ ∀ p < memPages, PageAfter file (Requested addr len p) v r.2 p))

/-! ## When it does -/

def Visited (addr len p : Nat) : Prop := ∃ q, Requested addr (dword len) q ∧ slot q = slot p

/-- A page that ought to be cleared is, or is clear; a page that is cleared may be. -/
structure PageFits (refusals : Bool) (file : Nat → Nat → UInt8) (v : Vm) (addr len p : Nat) (e : PtEntry) :
    Prop where
  cleared : Requested addr len p → Flags.any e.flags Flags.shared = false →
    Flags.any e.flags Flags.anonymous = true → AllZero v p ∨ (Visited addr len p ∧
      Flags.any e.flags Flags.write = true ∧ (refusals = true → Flags.any e.flags Flags.cow = false))
  spared : Visited addr len p → clears v.host e = true →
    (Requested addr len p ∧ Flags.any e.flags Flags.shared = false ∧ Flags.any e.flags Flags.anonymous = true) ∨
      ∀ i < pageSize, v.host.bytes e.data (e.offset + i) = 0 ∨ (Requested addr len p ∧
        Flags.any e.flags Flags.shared = false ∧ file p i = 0)

/-- The call is refused; or its end overflows, and it does nothing; or the last page it comes to is not the
last of all addresses, and its pages fit. `refusals` is whether the host may refuse memory. -/
def DontneedFits (refusals : Bool) (file : Nat → Nat → UInt8) (v : Vm) (addr len : Nat) : Prop :=
  pgOffset addr ≠ 0 ∨
    (∃ p, p ∈ pageRange (page addr) (pageRoundUp32 (dword len)) ∧ memPt v.mem p = none ∧
      memFindReservation v.mem p = none) ∨ wordMod ≤ addr + dword len ∨
    ((page addr + pagesFor (dword len)) * pageSize < wordMod ∧
      ∀ p < memPages, ∀ e, memPt v.mem p = some e → PageFits refusals file v addr len p e)

/-! ## A page after the walk -/

theorem allZero_iff (he : memPt v.mem p = some e) :
    AllZero v p ↔ ∀ i < pageSize, v.host.bytes e.data (e.offset + i) = 0 := by
  have hread : ∀ i, readByte v p i = some (v.host.bytes e.data (e.offset + i)) := fun i => by
    unfold readByte
    rw [he]
    rfl
  constructor
  · intro h i hi
    exact h i hi _ (hread i)
  intro h i hi b hb
  rw [hread] at hb
  exact Option.some.inj hb ▸ h i hi

theorem clears_anonymous {h : Host} (ha : Flags.any e.flags Flags.anonymous = true) :
    clears h e = Flags.any e.flags Flags.write := by
  unfold clears
  rw [skipsPage_eq, ha]
  rfl

structure Walk (o : Outlook) (v v' : Vm) (addr len p : Nat) (e : PtEntry) (z : Bool) : Prop where
  visited : z = true → Visited addr len p
  clearing : Visited addr len p → Clearing o v.host e z
  entry : ∃ e', memPt v'.mem p = some e' ∧ e'.flags &&& Flags.rwx = e.flags &&& Flags.rwx ∧
    ∀ i < pageSize, v'.host.bytes e'.data (e'.offset + i) =
      if z then 0 else v.host.bytes e.data (e.offset + i)

variable {o : Outlook} {z : Bool}

theorem swept_walk (h : Swept o n v v' (page addr) (pagesFor (dword len)))
    (he : memPt v.mem p = some e) : ∃ z, Walk o v v' addr len p e z := by
  by_cases hin : Visited addr len p
  · obtain ⟨q, ⟨hlo, hhi⟩, hs⟩ := hin
    have hq : page addr + (q - page addr) = q := by omega
    obtain ⟨e', z, he', hrwx, hz, hbytes⟩ := h.page (q - page addr) (by omega) e
      (by rw [hq, memPt_slot hs]; exact he)
    rw [hq, memPt_slot hs] at he'
    exact ⟨z, fun _ => ⟨q, ⟨hlo, hhi⟩, hs⟩, fun _ => hz, e', he', hrwx, hbytes⟩
  · -- no page of the walk has the slot
    have hout : Unswept (page addr) (pagesFor (dword len)) p := fun j hj hs =>
      hin ⟨page addr + j, ⟨by omega, by omega⟩, hs.symm⟩
    refine ⟨false, fun hc => (by cases hc), fun hc => absurd hc hin, e, ?_, rfl, (h.others p e hout he).2⟩
    rw [h.entry p hout, he]

theorem swept_unmapped (h : Swept o n v v' start q) (hnone : memPt v.mem p = none) :
    memPt v'.mem p = none ∧ reservedFlags v'.mem p = reservedFlags v.mem p := by
  have hentry : ∀ j < q, slot (start + j) = slot p → memPt v'.mem p = none := by
    intro j hj hs
    rw [← memPt_slot hs]
    exact (h.unmapped j hj (by rw [memPt_slot hs]; exact hnone)).1
  refine ⟨?_, ?_⟩
  · by_cases hout : Unswept start q p
    · rw [h.entry p hout]
      exact hnone
    unfold Unswept at hout
    push Not at hout
    obtain ⟨j, hj, hs⟩ := hout
    exact hentry j hj hs.symm
  by_cases hin : start ≤ p ∧ p < start + q
  · have hp : start + (p - start) = p := by omega
    have hsame := (h.unmapped (p - start) (by omega) (by rw [hp]; exact hnone)).2
    rw [hp] at hsame
    exact hsame
  · exact h.reserved p hin

theorem Walk.after_iff {requested : Prop} (h : Walk o v v' addr len p e z)
    (he : memPt v.mem p = some e) : PageAfter file requested v v' p ↔
      ∀ i < pageSize, Allowed (file p i) requested e.flags (v.host.bytes e.data (e.offset + i))
        (if z then 0 else v.host.bytes e.data (e.offset + i)) := by
  obtain ⟨e', he', hrwx, hbytes⟩ := h.entry
  constructor
  · intro hpage i hi
    obtain ⟨f, hf, -, hall⟩ := hpage.mapped e he
    rw [he'] at hf
    obtain rfl := Option.some.inj hf
    rw [← hbytes i hi]
    exact hall i hi
  intro hall
  refine ⟨fun hnone => ?_, fun f hf => ?_⟩
  · rw [he] at hnone
    cases hnone
  rw [he] at hf
  obtain rfl := Option.some.inj hf
  refine ⟨e', he', hrwx, fun i hi => ?_⟩
  rw [hbytes i hi]
  exact hall i hi

theorem Walk.granted (h : Walk .granted v v' addr len p e z) :
    z = true ↔ Visited addr len p ∧ clears v.host e = true :=
  ⟨fun hz => ⟨h.visited hz, (h.clearing (h.visited hz)).only hz⟩,
    fun hin => (h.clearing hin.1).granted rfl hin.2⟩

theorem Walk.fits_granted (h : Walk .granted v v' addr len p e z) (he : memPt v.mem p = some e)
    (hafter : PageAfter file (Requested addr len p) v v' p) : PageFits false file v addr len p e := by
  have hall := (h.after_iff he).mp hafter
  refine ⟨fun hreq hshared hanon => ?_, fun hin hclears => ?_⟩
  · cases hz : z with
    | true =>
      obtain ⟨hin, hclears⟩ := h.granted.mp hz
      rw [clears_anonymous hanon] at hclears
      exact .inr ⟨hin, hclears, fun hc => (by cases hc)⟩
    | false =>
      refine .inl ((allZero_iff he).mpr fun i hi => ?_)
      have hbyte := (hall i hi).zeroed hreq hshared hanon
      rw [hz] at hbyte
      exact hbyte
  have hz := h.granted.mpr ⟨hin, hclears⟩
  rw [hz] at hall
  by_cases hreq : Requested addr len p ∧ Flags.any e.flags Flags.shared = false
  · cases hanon : Flags.any e.flags Flags.anonymous with
    | true => exact .inl ⟨hreq.1, hreq.2, rfl⟩
    | false =>
      refine .inr fun i hi => ?_
      rcases (hall i hi).filed hreq.1 hreq.2 hanon with hsame | hfile
      · exact .inl hsame.symm
      · exact .inr ⟨hreq.1, hreq.2, hfile.symm⟩
  refine .inr fun i hi => .inl ((hall i hi).kept ?_).symm
  rw [not_and, Bool.not_eq_false] at hreq
  exact or_iff_not_imp_left.mpr fun hc => hreq (not_not.mp hc)

theorem Walk.zero_refused (h : Walk .refused v v' addr len p e z) (he : memPt v.mem p = some e)
    (hafter : PageAfter file (Requested addr len p) v v' p) (hreq : Requested addr len p)
    (hshared : Flags.any e.flags Flags.shared = false) (hanon : Flags.any e.flags Flags.anonymous = true)
    (hcow : Flags.any e.flags Flags.cow = true) : AllZero v p := by
  have hz : z = false := by
    cases hz : z with
    | false => rfl
    | true => exact hz.symm.trans ((h.clearing (h.visited hz)).refused rfl hcow)
  refine (allZero_iff he).mpr fun i hi => ?_
  have hbyte := ((h.after_iff he).mp hafter i hi).zeroed hreq hshared hanon
  rw [hz] at hbyte
  exact hbyte

theorem Walk.after (h : Walk o v v' addr len p e z) (he : memPt v.mem p = some e)
    (ho : o = .granted ∨ refusals = true) (hfits : PageFits refusals file v addr len p e) :
    PageAfter file (Requested addr len p) v v' p := by
  rw [h.after_iff he]
  intro i hi
  have hspared := fun hz : z = true => hfits.spared (h.visited hz) ((h.clearing (h.visited hz)).only hz)
  refine ⟨fun hkept => ?_, fun hreq hshared hanon => ?_, fun hreq hshared hanon => ?_⟩
  · cases hz : z with
    | false => rfl
    | true =>
      have hout : ¬ (Requested addr len p ∧ Flags.any e.flags Flags.shared = false) := by
        rintro ⟨hreq, hshared⟩
        rcases hkept with hno | hyes
        · exact hno hreq
        · rw [hshared] at hyes
          cases hyes
      rcases hspared hz with ⟨hreq, hshared, -⟩ | hzero
      · exact absurd ⟨hreq, hshared⟩ hout
      rcases hzero i hi with hbyte | ⟨hreq, hshared, -⟩
      · exact hbyte.symm
      · exact absurd ⟨hreq, hshared⟩ hout
  · cases hz : z with
    | true => rfl
    | false =>
      rcases hfits.cleared hreq hshared hanon with hzero | ⟨hin, hwrite, hcow⟩
      · exact (allZero_iff he).mp hzero i hi
      · -- nothing keeps the page from being cleared
        have hclears : clears v.host e = true := by rw [clears_anonymous hanon, hwrite]
        have hdone : z = true := by
          rcases ho with rfl | hr
          · exact (h.clearing hin).granted rfl hclears
          · exact (h.clearing hin).plain hclears (hcow hr)
        rw [hz] at hdone
        cases hdone
  cases hz : z with
  | false => exact .inl rfl
  | true =>
    rcases hspared hz with ⟨-, -, hc⟩ | hzero
    · rw [hanon] at hc
      cases hc
    · exact (hzero i hi).imp Eq.symm fun hfile => hfile.2.2.symm

/-! ## The call -/

theorem pagesFor_dword_le (len : Nat) : pagesFor (dword len) ≤ memPages := by
  unfold pagesFor dword
  simp only [pageSize, memPages]
  omega

def checked (v : Vm) (addr len : Nat) : Bool :=
  (pageRange (page addr) (pageRoundUp32 (dword len))).all fun p =>
    (memPt v.mem p).isSome || (memFindReservation v.mem p).isSome

theorem sysMadvise_checked (halign : pgOffset addr = 0) (hcheck : checked v addr len = true) (fuel : Nat) :
    sysMadvise v limit addr len 4 fuel = (madviseWalk limit fuel v
      (.madvise 0 addr ((addr + dword len) % wordMod) none false)).map fun v => (0, v) := by
  unfold checked at hcheck
  unfold sysMadvise
  rw [if_neg (fun hc => hc halign), if_pos hcheck, if_pos rfl]

theorem sysMadvise_swept (hok : SpaceOk v) (hf : AnonFree v)
    (hs : o.Script (pagesFor (dword len)) v.host.script) (limit : Option Nat) (halign : pgOffset addr = 0)
    (hcheck : checked v addr len = true) (htop : (page addr + pagesFor (dword len)) * pageSize < wordMod) :
    ∃ v' fuel, sysMadvise v limit addr len 4 fuel = some (0, v') ∧
      Swept o 0 v v' (page addr) (pagesFor (dword len)) := by
  have haddr : page addr * pageSize = addr := by
    unfold page pgOffset at *
    exact Nat.div_mul_cancel (Nat.dvd_of_mod_eq_zero halign)
  have hend : (addr + dword len) % wordMod = addr + dword len := by
    refine Nat.mod_eq_of_lt (Nat.lt_of_le_of_lt ?_ htop)
    unfold pagesFor
    rw [Nat.add_mul, haddr]
    simp only [pageSize]
    omega
  have hstop : ∀ k, (page addr + k) * pageSize < addr + dword len ↔ k < pagesFor (dword len) := by
    intro k
    unfold pagesFor
    rw [Nat.add_mul, haddr]
    simp only [pageSize]
    omega
  obtain ⟨v', fuel, hswept, hwalk⟩ := sweep_rest o limit (pagesFor_dword_le len) htop hstop false
    (swept_zero hok hf hs _)
  rw [haddr] at hwalk
  refine ⟨v', fuel, ?_, hswept⟩
  rw [sysMadvise_checked halign hcheck, hend, hwalk]
  rfl

theorem dontneedOk_overflow (halign : pgOffset addr = 0) (haddr : addr < wordMod)
    (hcheck : checked v addr len = true) (hend : wordMod ≤ addr + dword len) :
    DontneedOk file v limit addr len := by
  have hlow : dword len < 0x100000000 := Nat.mod_lt _ (by decide)
  have hwrap : ¬ addr < (addr + dword len) % wordMod := by
    simp only [wordMod] at *
    omega
  have hwalk : madviseWalk limit 2 v (.madvise 0 addr ((addr + dword len) % wordMod) none false) = some v := by
    show madviseWalk limit 1 (madviseStep v limit 0 addr _ false none).1
      (madviseStep v limit 0 addr _ false none).2 = _
    simp only [madviseStep, if_neg hwrap]
    rfl
  refine ⟨2, (0, v), by rw [sysMadvise_checked halign hcheck, hwalk]; rfl, .inr ⟨le_refl _, fun p hp => ?_⟩⟩
  have hout : ¬ Requested addr len p := by
    rintro ⟨hlo, -⟩
    unfold page at hlo
    simp only [pageSize, memPages, wordMod] at *
    omega
  exact ⟨fun hnone => ⟨hnone, rfl⟩, fun e he => ⟨e, he, rfl, fun i _ =>
    ⟨fun _ => rfl, fun hc => absurd hc hout, fun hc => absurd hc hout⟩⟩⟩

theorem not_dontneedOk_diverges (halign : pgOffset addr = 0) (haddr : addr < wordMod)
    (hcheck : checked v addr len = true) (hend : addr + dword len < wordMod)
    (htop : wordMod ≤ (page addr + pagesFor (dword len)) * pageSize) : ¬ DontneedOk file v limit addr len := by
  have hstop : wordMod - pageSize < addr + dword len := by
    unfold page pgOffset pagesFor at *
    simp only [pageSize, wordMod] at *
    omega
  rintro ⟨fuel, r, hr, -⟩
  rw [sysMadvise_checked halign hcheck, Nat.mod_eq_of_lt hend,
    walk_diverges limit hstop fuel v addr none false halign haddr] at hr
  cases hr

theorem dontneedOk_swept (halign : pgOffset addr = 0) (hcheck : checked v addr len = true)
    {fuel : Nat} (hcall : sysMadvise v limit addr len 4 fuel = some (0, v')) :
    DontneedOk file v limit addr len ↔
      ∀ p < memPages, PageAfter file (Requested addr len p) v v' p := by
  constructor
  · rintro ⟨fuel', r, hr, hdone⟩
    obtain rfl := sysMadvise_unique halign hcheck hr hcall
    rcases hdone with ⟨hneg, -⟩ | ⟨-, hall⟩
    · exact absurd hneg (Int.lt_irrefl 0)
    · exact hall
  · exact fun hall => ⟨fuel, _, hcall, .inr ⟨le_refl _, hall⟩⟩

theorem AnonFree.withOutcomes (hf : AnonFree v) (script : List Bool) : AnonFree (v.withOutcomes script) :=
  fun s e he => hf s e he

theorem PageFits.withOutcomes {script : List Bool} (h : PageFits refusals file (v.withOutcomes script) addr len p e) :
    PageFits refusals file v addr len p e :=
  ⟨h.cleared, h.spared⟩

theorem PageFits.under (h : PageFits refusals file v addr len p e) (script : List Bool) :
    PageFits refusals file (v.withOutcomes script) addr len p e :=
  ⟨h.cleared, h.spared⟩

theorem dontneedOk_iff (hok : SpaceOk v) (hf : AnonFree v) (limit : Option Nat) (haddr : addr < wordMod) :
    (DontneedOk file (v.withOutcomes []) limit addr len ↔ DontneedFits false file v addr len) ∧
      ((∀ script, DontneedOk file (v.withOutcomes script) limit addr len) ↔
        DontneedFits true file v addr len) := by
  by_cases halign : pgOffset addr = 0
  case neg =>
    -- refused before anything is looked at
    have hcall : ∀ script, DontneedOk file (v.withOutcomes script) limit addr len := fun script =>
      ⟨0, _, if_pos halign, .inl ⟨(by decide : eINVAL < 0), rfl⟩⟩
    exact ⟨iff_of_true (hcall []) (.inl halign), iff_of_true hcall (.inl halign)⟩
  case pos =>
  cases hcheck : checked v addr len with
  | false =>
    have hcall : ∀ script, DontneedOk file (v.withOutcomes script) limit addr len := fun script => by
      refine ⟨0, (eNOMEM, v.withOutcomes script), ?_, .inl ⟨(by decide : eNOMEM < 0), rfl⟩⟩
      unfold sysMadvise
      rw [if_neg (fun hc => hc halign)]
      exact if_neg (show ¬ checked v addr len = true by rw [hcheck]; exact Bool.false_ne_true)
    have hmissing : ∃ p, p ∈ pageRange (page addr) (pageRoundUp32 (dword len)) ∧ memPt v.mem p = none ∧
        memFindReservation v.mem p = none := by
      unfold checked at hcheck
      rw [List.all_eq_false] at hcheck
      obtain ⟨p, hp, hnone⟩ := hcheck
      rw [Bool.or_eq_true, not_or, Option.not_isSome_iff_eq_none, Option.not_isSome_iff_eq_none] at hnone
      exact ⟨p, hp, hnone⟩
    exact ⟨iff_of_true (hcall []) (.inr (.inl hmissing)), iff_of_true hcall (.inr (.inl hmissing))⟩
  | true =>
    have hfits : ∀ r, DontneedFits r file v addr len ↔ wordMod ≤ addr + dword len ∨
        ((page addr + pagesFor (dword len)) * pageSize < wordMod ∧
          ∀ p < memPages, ∀ e, memPt v.mem p = some e → PageFits r file v addr len p e) := fun r => by
      refine ⟨?_, fun h => .inr (.inr h)⟩
      rintro (hc | ⟨p, hp, hmem, hres⟩ | h)
      · exact absurd halign hc
      · have hfound := List.all_eq_true.mp hcheck p hp
        rw [hmem, hres] at hfound
        cases hfound
      · exact h
    rw [hfits, hfits]
    by_cases hend : wordMod ≤ addr + dword len
    · have hall : ∀ script, DontneedOk file (v.withOutcomes script) limit addr len := fun script =>
        dontneedOk_overflow halign haddr hcheck hend
      exact ⟨iff_of_true (hall []) (.inl hend), iff_of_true hall (.inl hend)⟩
    by_cases htop : (page addr + pagesFor (dword len)) * pageSize < wordMod
    case neg =>
      have hno : ∀ script, ¬ DontneedOk file (v.withOutcomes script) limit addr len := fun script =>
        not_dontneedOk_diverges halign haddr hcheck (Nat.lt_of_not_le hend) (Nat.le_of_not_lt htop)
      have hnot : ∀ r, ¬ (wordMod ≤ addr + dword len ∨
          ((page addr + pagesFor (dword len)) * pageSize < wordMod ∧
            ∀ p < memPages, ∀ e, memPt v.mem p = some e → PageFits r file v addr len p e)) := fun r hc =>
        hc.elim hend fun hc => htop hc.1
      exact ⟨iff_of_false (hno []) (hnot false), iff_of_false (fun h => hno [] (h [])) (hnot true)⟩
    case pos =>
    rw [or_iff_right hend, or_iff_right hend, and_iff_right htop, and_iff_right htop]
    -- what the call comes to, for each outlook
    have hcall : ∀ (o : Outlook) script, o.Script (pagesFor (dword len)) script → ∃ v',
        (DontneedOk file (v.withOutcomes script) limit addr len ↔
          ∀ p < memPages, PageAfter file (Requested addr len p) (v.withOutcomes script) v' p) ∧
        Swept o 0 (v.withOutcomes script) v' (page addr) (pagesFor (dword len)) := by
      intro o script hs
      obtain ⟨v', fuel, hr, hswept⟩ := sysMadvise_swept (hok.withOutcomes script) (hf.withOutcomes script) hs
        limit halign hcheck htop
      exact ⟨v', dontneedOk_swept halign hcheck hr, hswept⟩
    have hgranted : DontneedOk file (v.withOutcomes []) limit addr len ↔
        ∀ p < memPages, ∀ e, memPt v.mem p = some e → PageFits false file v addr len p e := by
      obtain ⟨v', hiff, hswept⟩ := hcall .granted [] rfl
      rw [hiff]
      constructor
      · intro hall p hp e he
        obtain ⟨z, hwalk⟩ := swept_walk hswept he
        exact (hwalk.fits_granted he (hall p hp)).withOutcomes
      intro hall p hp
      cases he : memPt v.mem p with
      | none =>
        exact ⟨fun _ => swept_unmapped hswept he, fun f hf' => absurd (he.symm.trans hf') (by simp)⟩
      | some e =>
        obtain ⟨z, hwalk⟩ := swept_walk hswept he
        exact hwalk.after he (.inl rfl) ((hall p hp e he).under [])
    refine ⟨hgranted, fun hall p hp e he => ?_, fun hall script => ?_⟩
    · have hfit := hgranted.mp (hall []) p hp e he
      refine ⟨fun hreq hshared hanon => ?_, hfit.spared⟩
      rcases hfit.cleared hreq hshared hanon with hzero | ⟨hin, hwrite, -⟩
      · exact .inl hzero
      cases hcow : Flags.any e.flags Flags.cow with
      | false => exact .inr ⟨hin, hwrite, fun _ => rfl⟩
      | true =>
        -- a host that refuses the copy
        obtain ⟨v', hiff, hswept⟩ := hcall .refused (List.replicate (pagesFor (dword len)) false)
          ⟨_, le_refl _, rfl⟩
        obtain ⟨z, hwalk⟩ := swept_walk hswept he
        exact .inl (hwalk.zero_refused he (hiff.mp (hall _) p hp) hreq hshared hanon hcow)
    obtain ⟨v', hiff, hswept⟩ := hcall .any script trivial
    rw [hiff]
    intro p hp
    cases he : memPt v.mem p with
    | none =>
      exact ⟨fun _ => swept_unmapped hswept he, fun f hf' => absurd (he.symm.trans hf') (by simp)⟩
    | some e =>
      obtain ⟨z, hwalk⟩ := swept_walk hswept he
      exact hwalk.after he (.inr rfl) ((hall p hp e he).under script)

end IosLinuxkit.Kernel
