import IosLinuxkit.Kernel.Guard
import IosLinuxkit.Kernel.HostProtRun
import IosLinuxkit.Kernel.OnePage

/-!
# Pages without read permission stay so

* **`guarded_run`** — a run of steps that keep it never lets such a page be read.
-/

namespace IosLinuxkit.Guard

open Kernel HostProt

variable {mc : Machine} {m m' : HostMem} {v v' : Vm} {e e' : PtEntry} {flags f : Flags}
  {a start pages p q : Nat} {s : Slot}

/-! ## Flags -/

theorem readable_or {g : Flags} (hg : Flags.any g Flags.read = false) :
    readable (f ||| g) = readable f := by
  unfold readable
  rw [Flags.any_or, hg, Bool.or_false]

theorem readable_and {g : Flags} (hg : g &&& Flags.read = Flags.read) :
    readable (f &&& g) = readable f := by
  unfold readable
  rw [Flags.any_and, hg]

theorem readable_copyFlags (type : AccessType) (f : Flags) :
    readable (copyFlags type f) = readable f := by
  unfold copyFlags
  dsimp only
  split
  · rw [readable_or (by decide), readable_and (by decide)]
  · exact readable_and (by decide)

theorem readable_sharedFlags (f : Flags) : readable (sharedFlags f) = readable f := by
  unfold sharedFlags
  split
  · rfl
  · exact readable_or (by decide)

structure SameRead (e e' : PtEntry) : Prop where
  data : e'.data = e.data
  offset : e'.offset = e.offset
  read : readable e'.flags = readable e.flags

theorem SameRead.refl (e : PtEntry) : SameRead e e := ⟨rfl, rfl, rfl⟩

theorem SameRead.trans {e₁ e₂ e₃ : PtEntry} (h₁ : SameRead e₁ e₂) (h₂ : SameRead e₂ e₃) :
    SameRead e₁ e₃ :=
  ⟨h₂.data.trans h₁.data, h₂.offset.trans h₁.offset, h₂.read.trans h₁.read⟩

/-! ## Inaccessible pages -/

theorem guestFlags_entry {m : Mem} (he : memPt m p = some e) : guestFlags m p = some e.flags := by
  unfold guestFlags
  rw [he]

theorem guestFlags_none {m : Mem} (he : memPt m p = none) : guestFlags m p = reservedFlags m p := by
  unfold guestFlags
  rw [he]

theorem Inaccessible.congr {m m' : Mem} (h : Inaccessible m p) (hentry : memPt m' p = memPt m p)
    (hres : reservedFlags m' p = reservedFlags m p) : Inaccessible m' p := by
  obtain ⟨hp, f, hf, hr⟩ := h
  refine ⟨hp, f, ?_, hr⟩
  unfold guestFlags at hf ⊢
  rw [hentry, hres]
  exact hf

theorem Inaccessible.not_readable {m : Mem} (h : Inaccessible m p) (hf : guestFlags m p = some f) :
    readable f = false := by
  obtain ⟨_, g, hg, hr⟩ := h
  cases hf.symm.trans hg
  exact hr

theorem reservedFlags_congr {m m' : Mem} (h : m'.reservations = m.reservations) (p : Nat) :
    reservedFlags m' p = reservedFlags m p := by
  rw [reservedFlags_eq, reservedFlags_eq, h]

theorem page_of_slot (hp : p < memPages) (hq : q < memPages) (h : slot p = slot q) : p = q := by
  by_cases hne : p = q
  · exact hne
  · exact absurd h (slot_ne_of_ne hq hp hne)

/-! ## The invariant of memory -/

def Denies (mc : Machine) (m : HostMem) (e : PtEntry) : Prop :=
  readable e.flags = false → ∀ i, i < pageSize → (m.prot (hostPage mc m.vdso e i)).read = false

structure MemInv (mc : Machine) (m : HostMem) : Prop where
  live : ∀ a, Live (m.vm a)
  good : ∀ a, GoodReservations (m.spaces a).reservations
  denied : ∀ a s e, (m.spaces a).pt.lookup s = some e → Denies mc m e

theorem MemInv.guarded (h : MemInv mc m) : Guarded mc m := by
  rintro a addr hin ⟨hsome, hread⟩
  obtain ⟨ptr, hptr⟩ := Option.isSome_iff_exists.mp hsome
  unfold memPtrNofault at hptr
  split at hptr
  case h_1 => cases hptr
  case h_2 e he =>
    have hr : readable e.flags = false := hin.not_readable (guestFlags_entry he)
    have hdeny := h.denied a (slot (page addr)) e he hr (pgOffset addr) (Nat.mod_lt _ (by decide))
    rw [hread e he] at hdeny
    cases hdeny

theorem spaces_put (m : HostMem) (a : Nat) (v : Vm) (b : Nat) :
    (m.put a v).spaces b = if b = a then v.mem else m.spaces b :=
  Function.update_apply _ _ _ _

theorem ptMapAccounted_good (hg : GoodReservations v.mem.reservations) (start pages : Nat)
    (memory : Option (Nat → UInt8)) (offset : Nat) (flags : Flags) (precharged : Bool) :
    GoodReservations (ptMapAccounted v start pages memory offset flags precharged).2.mem.reservations := by
  unfold ptMapAccounted
  split
  · exact hg
  case h_2 contents =>
    dsimp only
    split
    · exact mapPages_good (m := ⟨_, v.mem⟩) _ start offset flags _ hg
    · exact hg

theorem ptMapNothing_good (hg : GoodReservations v.mem.reservations) (start pages : Nat) (flags : Flags) :
    GoodReservations (ptMapNothing v start pages flags).2.mem.reservations := by
  unfold ptMapNothing
  split
  · exact hg
  dsimp only
  split
  · exact hg
  case h_2 h hr =>
    rw [(refundIf_mem _ _ _).1]
    unfold mapRegion
    dsimp only
    split
    · exact ptMapAccounted_good (v := ⟨h.attempt.2, v.mem⟩) hg _ _ _ _ _ _
    · exact hg

theorem mapLazy_good (hg : GoodReservations v.mem.reservations) (start pages : Nat) (flags : Flags) :
    GoodReservations (mapLazy v start pages flags).mem.reservations :=
  flatStep_good hg (.reserve start pages flags)

theorem shrinks_mapLazy (v : Vm) (start pages : Nat) (flags : Flags) :
    Shrinks v (mapLazy v start pages flags) := by
  have hhost := sameHost_attempt v.host
  unfold mapLazy ptMapLazy
  split
  · exact .refl v
  · dsimp only
    split <;> exact ⟨hhost.nextData, hhost.bytes, fun _ _ he => he⟩

theorem goodReservations_reverse {rs : List Reservation} (h : GoodReservations rs) :
    GoodReservations rs.reverse :=
  ⟨fun r hr => h.nonempty r (List.mem_reverse.mp hr),
    List.pairwise_reverse.mpr (h.disjoint.imp fun hab => hab.symm)⟩

theorem GoodReservations.sublist {rs rs' : List Reservation} (h : GoodReservations rs)
    (hsub : rs'.Sublist rs) : GoodReservations rs' :=
  ⟨fun r hr => h.nonempty r (hsub.subset hr), h.disjoint.sublist hsub⟩

theorem copyReservations_sublist (rs : List Reservation) (h : Host) (dst : Mem) :
    (copyReservations rs h dst).2.reservations.Sublist (rs.reverse ++ dst.reservations) := by
  induction rs generalizing h dst with
  | nil => exact List.Sublist.refl _
  | cons r rest ih =>
    rw [copyReservations, List.reverse_cons, List.append_assoc]
    refine (ih h.attempt.2 _).trans (List.Sublist.append (List.Sublist.refl _) ?_)
    split
    · exact List.Sublist.refl _
    · exact List.sublist_cons_self r dst.reservations

/-! ## Intervals -/

theorem good_interval {type : AccessType} {phase : PtrPhase} (h : PageStep v v' p type phase)
    (hg : GoodReservations v.mem.reservations) : GoodReservations v'.mem.reservations := by
  cases h with
  | same hu =>
    rw [hu.reservations]
    exact hg
  | grown _ _ _ hr | materialised _ _ _ _ hr | copied _ _ _ _ hr => exact hr.good hg

theorem spares_replaced {contents : Nat → UInt8} (hr : Replaced v v' p flags contents)
    (hnone : memPt v.mem p = none) (hne : slot q ≠ slot p) :
    memPt v'.mem q = memPt v.mem q ∧ reservedFlags v'.mem q = reservedFlags v.mem q := by
  refine ⟨?_, reservedFlags_congr (hr.reservations hnone) q⟩
  rw [hr.entry, if_neg hne]

theorem spares_interval {type : AccessType} {phase : PtrPhase} (h : PageStep v v' p type phase)
    (hg : GoodReservations v.mem.reservations)
    (hfirst : phase = .materialise ∨ phase = .breakCow → ∀ f, guestFlags v.mem p = some f → ReadFirst f)
    (hin : Inaccessible v.mem q) : Inaccessible v'.mem q ∧ (phase ≠ .breakCow →
      memPt v'.mem q = memPt v.mem q ∧ reservedFlags v'.mem q = reservedFlags v.mem q) := by
  -- it is enough that entry and reservation stay
  have hstay : (memPt v'.mem q = memPt v.mem q ∧ reservedFlags v'.mem q = reservedFlags v.mem q) →
      Inaccessible v'.mem q ∧ (phase ≠ .breakCow →
        memPt v'.mem q = memPt v.mem q ∧ reservedFlags v'.mem q = reservedFlags v.mem q) :=
    fun hkept => ⟨hin.congr hkept.1 hkept.2, fun _ => hkept⟩
  cases h with
  | same hu => exact hstay ⟨hu.entry q, reservedFlags_congr hu.reservations q⟩
  | grown hnone hgrows hres hr =>
    refine hstay (spares_replaced hr hnone fun hs => ?_)
    -- below the stack there is a page that nobody has reserved
    have hlt : p < memPages := by
      simp only [growsDownTo, Bool.and_eq_true, decide_eq_true_eq] at hgrows
      exact Nat.lt_trans (lt_memNextPage v.mem p) hgrows.1
    obtain rfl := page_of_slot hin.1 hlt hs
    obtain ⟨_, f, hf, _⟩ := hin
    rw [guestFlags_none hnone, reservedFlags, hres] at hf
    cases hf
  | materialised res hnone hres hrwx hr =>
    refine hstay (spares_replaced hr hnone fun hs => ?_)
    have hflags : reservedFlags v.mem p = some res.flags := by
      rw [reservedFlags, hres]
      rfl
    have hlt : p < memPages := by
      refine flagsAt_lt hg ?_
      rw [← reservedFlags_eq, hflags]
      exact Option.some_ne_none _
    obtain rfl := page_of_slot hin.1 hlt hs
    have hguest : guestFlags v.mem q = some res.flags := (guestFlags_none hnone).trans hflags
    have hread := hfirst (.inl rfl) res.flags hguest hrwx
    rw [hin.not_readable hguest] at hread
    cases hread
  | copied e he _ _ hr =>
    refine ⟨?_, fun hph => absurd rfl hph⟩
    by_cases hs : slot q = slot p
    · have he' : memPt v.mem q = some e := by
        rw [memPt, hs]
        exact he
      refine ⟨hin.1, copyFlags type e.flags, ?_, ?_⟩
      · refine guestFlags_entry (e := ⟨v.host.nextData, 0, copyFlags type e.flags⟩) ?_
        rw [hr.entry, if_pos hs]
      · rw [readable_copyFlags]
        exact hin.not_readable (guestFlags_entry he')
    · refine hin.congr ?_ (hr.reserved hg q fun hq => hs (by rw [hq]))
      rw [hr.entry, if_neg hs]

structure Forked (m : Mem) (c : CopyState) : Prop where
  src : ∀ s, (m.pt.lookup s = none ∧ c.src.pt.lookup s = none) ∨
    ∃ e e', m.pt.lookup s = some e ∧ c.src.pt.lookup s = some e' ∧ SameRead e e'
  reservations : c.src.reservations = m.reservations
  dst : ∀ s e', c.dst.pt.lookup s = some e' → ∃ e, m.pt.lookup s = some e ∧ SameRead e e'
  none : c.dst.reservations = []

theorem ptUnmapAlways_nil (hnil : v.mem.reservations = []) (start pages : Nat) :
    (ptUnmapAlways v start pages).mem.reservations = [] := by
  rw [ptUnmapAlways_reservations]
  unfold memRemoveReservations
  split
  · exact hnil
  · rw [hnil]
    rfl

theorem forked_copyPage {m : Mem} {c : CopyState} (h : Forked m c) (p : Nat) :
    Forked m (copyPage c p) := by
  cases he : memPt c.src p with
  | none =>
    unfold copyPage
    rw [he]
    exact h
  | some e =>
    rw [copyPage_eq he]
    have hshared : SameRead e { e with flags := sharedFlags e.flags } :=
      ⟨rfl, rfl, readable_sharedFlags e.flags⟩
    have hfrom : ∃ e₀, m.pt.lookup (slot p) = some e₀ ∧
        SameRead e₀ { e with flags := sharedFlags e.flags } := by
      rcases h.src (slot p) with ⟨_, hnone⟩ | ⟨e₀, e₁, he₀, he₁, hsame⟩
      · cases hnone.symm.trans he
      · cases he₁.symm.trans he
        exact ⟨e₀, he₀, hsame.trans hshared⟩
    refine ⟨fun s => ?_, h.reservations, fun s f hf => ?_, ptUnmapAlways_nil h.none p 1⟩
    · by_cases hs : s = slot p
      · subst hs
        obtain ⟨e₀, he₀, hsame⟩ := hfrom
        exact .inr ⟨e₀, _, he₀, AList.lookup_insert _, hsame⟩
      have hother : (c.src.setEntry p { e with flags := sharedFlags e.flags }).pt.lookup s =
          c.src.pt.lookup s := AList.lookup_insert_ne hs
      rw [hother]
      exact h.src s
    rcases Assoc.lookup_insert_some hf with ⟨rfl, rfl⟩ | ⟨_, hf⟩
    · exact hfrom
    · exact h.dst s f ((shrinks_ptUnmapAlways ⟨c.host, c.dst⟩ p 1).entry s f hf)

theorem forked_copyLoop {m : Mem} {c : CopyState} (stop fuel p : Nat) (h : Forked m c) :
    Forked m (copyLoop stop fuel p c) := by
  induction fuel generalizing p c with
  | zero => exact h
  | succ fuel ih =>
    unfold copyLoop
    split
    · exact ih _ (forked_copyPage h p)
    · exact h

structure ForkSpec (m parent child : Mem) : Prop where
  src : ∀ s, (m.pt.lookup s = none ∧ parent.pt.lookup s = none) ∨
    ∃ e e', m.pt.lookup s = some e ∧ parent.pt.lookup s = some e' ∧ SameRead e e'
  reservations : parent.reservations = m.reservations
  dst : ∀ s e', child.pt.lookup s = some e' → ∃ e, m.pt.lookup s = some e ∧ SameRead e e'
  good : GoodReservations m.reservations → GoodReservations child.reservations

theorem forkSpec (h : Host) (m : Mem) (start pages : Nat) :
    ForkSpec m (ptCopyOnWrite h m memInit start pages).2.1 (ptCopyOnWrite h m memInit start pages).2.2 := by
  have hstart : Forked m ⟨h, m, memInit, 0⟩ := by
    refine ⟨fun s => ?_, rfl, fun s e' he' => (by cases he'), rfl⟩
    cases hs : m.pt.lookup s with
    | none => exact .inl ⟨rfl, rfl⟩
    | some e => exact .inr ⟨e, e, rfl, rfl, .refl e⟩
  have hloop := forked_copyLoop ((start + pages) % wordMod) ((start + pages) % wordMod - start) start hstart
  unfold ptCopyOnWrite
  dsimp only
  generalize copyLoop ((start + pages) % wordMod) ((start + pages) % wordMod - start) start
    ⟨h, m, memInit, 0⟩ = c at hloop ⊢
  obtain ⟨hpt, _⟩ := copyReservations_mem c.src.reservations (c.host.addAnon c.anonCopied) c.dst
  have hsub := copyReservations_sublist c.src.reservations (c.host.addAnon c.anonCopied) c.dst
  refine ⟨hloop.src, hloop.reservations, fun s e he => hloop.dst s e ?_, fun hg => ?_⟩
  · rw [← hpt]
    exact he
  · rw [hloop.none, List.append_nil] at hsub
    exact GoodReservations.sublist (goodReservations_reverse hg) (hloop.reservations ▸ hsub)

theorem ForkSpec.inaccessible {m parent child : Mem} (h : ForkSpec m parent child)
    (hin : Inaccessible m p) : Inaccessible parent p := by
  rcases h.src (slot p) with ⟨hnone, hnone'⟩ | ⟨e, e', he, he', hsame⟩
  · exact hin.congr (hnone'.trans hnone.symm) (reservedFlags_congr h.reservations p)
  refine ⟨hin.1, e'.flags, guestFlags_entry he', ?_⟩
  rw [hsame.read]
  exact hin.not_readable (guestFlags_entry he)

theorem fork_inaccessible {src dst b : Nat} (hb : b ≠ dst) (hin : Inaccessible (m.spaces b) p) :
    Inaccessible ((fork m src dst).spaces b) p := by
  unfold fork
  split
  · exact hin
  dsimp only
  rw [Function.update_of_ne hb]
  by_cases hsrc : b = src
  · subst hsrc
    rw [Function.update_self]
    exact (forkSpec m.host (m.spaces b) 0 memPages).inaccessible hin
  · rw [Function.update_of_ne hsrc]
    exact hin

/-! ## The page of zeros -/

theorem spares_demandMap (hp : p + 1 < wordMod)
    (hfree : ∀ q, slot q = slot p → memPt (m.spaces a) q = none → ¬ Inaccessible (m.spaces a) q)
    (b : Nat) (hin : Inaccessible (m.spaces b) q) :
    memPt ((demandMap m a p).spaces b) q = memPt (m.spaces b) q ∧
      reservedFlags ((demandMap m a p).spaces b) q = reservedFlags (m.spaces b) q := by
  unfold demandMap
  split
  case isFalse => exact ⟨rfl, rfl⟩
  case isTrue hnone =>
    rw [Option.isNone_iff_eq_none] at hnone
    rw [spaces_put]
    split
    case isFalse => exact ⟨rfl, rfl⟩
    case isTrue hb =>
      subst hb
      rcases ptMapNothing_one (m.vm b) Flags.read hp with ⟨_, hu⟩ | ⟨_, hr⟩
      · exact ⟨hu.entry q, reservedFlags_congr hu.reservations q⟩
      refine spares_replaced hr hnone fun hs => hfree q hs ?_ hin
      rw [memPt, hs]
      exact hnone

/-! ## Threads -/

def CallOk : Phase → Prop
  | .idle => True
  | .ptr _ call _ => call.addr < wordMod ∧ (call.type = .read → call.phase ≠ .breakCow)
  | .scan _ p | .demandMap _ p => p + 1 < wordMod

structure GuardInv (mc : Machine) (st : State) : Prop where
  mem : MemInv mc st.mem
  calls : ∀ t, CallOk (st.thread t)

variable {st : State} {t : Nat}

theorem spares_step {op : GuardOp} (h : GuardInv mc st) (hok : Keeps mc st op) : Spares mc st op := by
  cases op with
  | map | mapNothing | mapLazy | mprotect | munmap => trivial
  | fork src dst => exact fun b hb p hin => fork_inaccessible hb hin
  | access t a addr type inJit =>
    simp only [Spares, guardStep]
    split <;> rfl
  | advance t limit =>
    intro b p hin
    have hcall := h.calls t
    have hok : KeepsAdvance st t := hok
    unfold KeepsAdvance at hok
    show Inaccessible ((advance st t limit).mem.spaces b) p ∧ (_ →
      memPt ((advance st t limit).mem.spaces b) p = _ ∧ reservedFlags ((advance st t limit).mem.spaces b) p = _)
    unfold advance
    cases hth : st.thread t with
    | idle => exact ⟨hin, fun _ => ⟨rfl, rfl⟩⟩
    | scan a p => exact ⟨hin, fun _ => ⟨rfl, rfl⟩⟩
    | demandMap a q =>
      rw [hth] at hcall hok
      have hkept := spares_demandMap hcall hok b hin
      exact ⟨hin.congr hkept.1 hkept.2, fun _ => hkept⟩
    | ptr a call handler =>
      rw [hth] at hcall hok
      dsimp only
      rw [spaces_put]
      split
      case isFalse => exact ⟨hin, fun _ => ⟨rfl, rfl⟩⟩
      case isTrue hb =>
        subst hb
        have hpage : PageStep (st.mem.vm b) (memPtrStep (st.mem.vm b) limit call).1 (page call.addr) call.type
            call.phase := pageStep_memPtrStep call hcall.1
        obtain ⟨hstays, hsame⟩ := spares_interval hpage (h.mem.good b) hok hin
        exact ⟨hstays, fun hreads => hsame (hcall.2 hreads)⟩

/-! ## Runs -/

end IosLinuxkit.Guard
