import IosLinuxkit.Kernel.SystemLemmas

/-!
# Private pages stay private after a fork

After `fork`, parent and child share the backing of every page, but what one of them
writes to a page that was not mapped `P_SHARED` never reaches the other.

* **`Guarded w a b S`** is the invariant: at the slots `S`, an entry of `a` that shares
  backing with `b`'s entry is `P_COW`, and no thread of `a` still holds a pointer into
  backing that `b` has there.
* **`guarded_fork`** — the fork establishes it in both directions, for the slots that were
  not mapped shared: the copy marks both entries and advances the parent's generation.
* **`guarded_exec`** — every step of any thread in any address space keeps it.
* **`fork_isolation`** — hence, over whole runs.
-/

namespace IosLinuxkit.Kernel

/-- The byte space `a` reads at offset `k` of page `p`. -/
def World.readByte (w : World) (a p k : Nat) : Option UInt8 :=
  (w.entry a (slot p)).map fun e => w.host.bytes e.data (e.offset + k)

/-- Page `p` of `a` is not mapped `P_SHARED`. -/
def World.privateAt (w : World) (a p : Nat) : Bool :=
  (w.entry a (slot p)).all fun e => !Flags.any e.flags Flags.shared

structure Guarded (w : World) (a b : Nat) (S : Set Slot) : Prop where
  cow : ∀ s ∈ S, ∀ e f, w.entry a s = some e → w.entry b s = some f → Overlap e f →
    Flags.any e.flags Flags.cow = true
  grant : ∀ s ∈ S, ∀ t ∈ w.threads, Grants w t a s → ∀ e f, w.entry a s = some e →
    w.entry b s = some f → ¬ Overlap e f

variable {w : World} {a b : Nat} {S : Set Slot} {s : Slot}

theorem Guarded.separate (h : Guarded w a b S)
    (hs : s ∈ S) (hauth : Authorised w a s) {e f : PtEntry}
    (he : w.entry a s = some e) (hf : w.entry b s = some f) : ¬ Overlap e f := by
  rcases hauth with ⟨e₁, he₁, hwr⟩ | ⟨t, ht, hgrant⟩
  · rw [he] at he₁
    cases he₁
    intro hov
    have hcow := h.cow s hs e f he hf hov
    rw [Flags.not_cow_of_writable hwr] at hcow
    cases hcow
  · exact h.grant s hs t ht hgrant e f he hf

theorem Effect.grants_back {ok : Prop} {w' : World} {x : Option Nat}
    (h : Effect ok w w' x) {t : Thread} (hg : GrantOk w t)
    (hgr : Grants w' t a s) : Grants w t a s := by
  obtain ⟨c, gen, mm', ptr, rfl, htype, hphase, hlook', hgen, hslot⟩ := hgr
  obtain ⟨hlt, hgrant⟩ := hg ptr hphase htype
  obtain ⟨mm, hlook, hcoh⟩ := h.lookup_back hlt hlook'
  have hle := (hgrant mm hlook).1
  have hle' := hcoh.1
  exact ⟨c, gen, mm, ptr, rfl, htype, hphase, hlook, by omega, hslot⟩

theorem Effect.overlap_back {ok : Prop} {w' : World} {x : Option Nat}
    (h : Effect ok w w' x) (hw : WorldOk w) (hab : a ≠ b)
    (ha : a < w.nextSpace) (hb : b < w.nextSpace) {e' f' : PtEntry}
    (he' : w'.entry a s = some e') (hf' : w'.entry b s = some f') (hov : Overlap e' f') :
    ∃ e f, w.entry a s = some e ∧ w.entry b s = some f ∧ Overlap e f ∧ Kept e e' := by
  have hdata : e'.data = f'.data := hov.1
  rcases h.entry_back he' with ⟨a₀, e, he, hke, ha₀⟩ | ⟨rfl, hge, -⟩
  · obtain rfl := ha₀ ha
    rcases h.entry_back hf' with ⟨b₀, f, hf, hkf, hb₀⟩ | ⟨-, hge, -⟩
    · obtain rfl := hb₀ hb
      exact ⟨e, f, he, hf, hov.of_kept hke hkf, hke⟩
    have := hw.live _ s e he
    rw [hke.1] at hdata
    omega
  · -- a fresh object of the actor is not yet known to the other space
    rw [h.entry_frame hab.symm hb] at hf'
    have := hw.live b s f' hf'
    omega

theorem guarded_exec (hw : WorldOk w) (hab : a ≠ b)
    (ha : a < w.nextSpace) (hb : b < w.nextSpace) (hg : Guarded w a b S) (op : Op) :
    Guarded (w.exec op) a b S := by
  have heff := effect_exec hw op
  have hcow : ∀ s ∈ S, ∀ e f, (w.exec op).entry a s = some e →
      (w.exec op).entry b s = some f → Overlap e f → Flags.any e.flags Flags.cow = true := by
    intro s hs e' f' he' hf' hov
    obtain ⟨e, f, he, hf, hov₀, hk⟩ := heff.overlap_back hw hab ha hb he' hf' hov
    exact hk.2.2 (hg.cow s hs e f he hf hov₀)
  refine ⟨hcow, fun s hs t ht hgr e' f' he' hf' hov => ?_⟩
  rcases threadsFrom_exec hw op t ht with hold | ⟨-, hnew⟩
  · obtain ⟨e, f, he, hf, hov₀, -⟩ := heff.overlap_back hw hab ha hb he' hf' hov
    exact hg.grant s hs t hold (heff.grants_back (hw.grants t hold) hgr) e f he hf hov₀
  · -- the pointer was granted in this step, so the entry is writable
    obtain ⟨c, gen, mm, ptr, rfl, htype, hphase, -, -, rfl⟩ := hgr
    obtain ⟨mm₁, e₁, hlook₁, -, he₁, hwr, -⟩ := hnew a c gen ptr rfl hphase htype
    have heq : e₁ = e' := by
      rw [entry_of_lookup hlook₁] at he'
      exact Option.some.inj (he₁.symm.trans he')
    have hc := hcow _ hs e' f' he' hf' hov
    rw [← heq, Flags.not_cow_of_writable hwr] at hc
    cases hc

structure ForkInv (a b : Nat) (S : Set Slot) (w : World) : Prop where
  ok : WorldOk w
  ne : a ≠ b
  parent_lt : a < w.nextSpace
  child_lt : b < w.nextSpace
  parent : Guarded w a b S
  child : Guarded w b a S

theorem Guarded.withScript (h : Guarded w a b S)
    (script : List Bool) : Guarded (w.withScript script) a b S :=
  ⟨h.cow, h.grant⟩

theorem forkInv_step (w : World) (l : Label) (h : ForkInv a b S w) : ForkInv a b S (step w l) := by
  have hw := worldOk_withScript h.ok l.script
  have hnext := (effect_exec hw l.op).next_le.1
  exact ⟨worldOk_exec hw l.op, h.ne, lt_of_lt_of_le h.parent_lt hnext,
    lt_of_lt_of_le h.child_lt hnext,
    guarded_exec hw h.ne h.parent_lt h.child_lt (h.parent.withScript _) l.op,
    guarded_exec hw h.ne.symm h.child_lt h.parent_lt (h.child.withScript _) l.op⟩

theorem fork_threads (w : World) (a : Nat) : (w.fork a).threads = w.threads := by
  unfold World.fork
  split
  · rfl
  · dsimp only
    split <;> rfl

def privateSlots (w : World) (a : Nat) : Set Slot :=
  { s | ∀ e, w.entry a s = some e → Flags.any e.flags Flags.shared = false }

theorem guarded_fork (hw : WorldOk w) {child : Mm}
    (hchild : (w.fork a).spaces.lookup w.nextSpace = some child) :
    Guarded (w.fork a) a w.nextSpace (privateSlots w a) ∧
      Guarded (w.fork a) w.nextSpace a (privateSlots w a) ∧ a < w.nextSpace ∧
      w.nextSpace < (w.fork a).nextSpace := by
  have hnone := hw.fresh w.nextSpace le_rfl
  have heff := @effect_fork True w a
  cases heff with
  | quiet _ spaces _ _ =>
    rw [spaces, hnone] at hchild
    cases hchild
  | update _ mm _ look spaces _ _ _ _ =>
    rw [spaces, AList.lookup_insert_ne (hw.lt_next look).ne', hnone] at hchild
    cases hchild
  | destroy _ mm look spaces _ _ _ _ =>
    rw [spaces, AList.lookup_erase_ne (hw.lt_next look).ne', hnone] at hchild
    cases hchild
  | write _ _ _ _ _ _ _ _ _ _ spaces _ _ =>
    rw [spaces, hnone] at hchild
    cases hchild
  | fork _ mm mm' child' look spaces next copy =>
    have hlt : a < w.nextSpace := hw.lt_next look
    have hpar : (w.fork a).spaces.lookup a = some mm' := by
      rw [spaces, AList.lookup_insert_ne hlt.ne, AList.lookup_insert]
    have hch : (w.fork a).spaces.lookup w.nextSpace = some child' := by
      rw [spaces, AList.lookup_insert]
    -- both entries of a private slot are the copy, marked copy-on-write
    have hcow : ∀ s ∈ privateSlots w a, ∀ e f, (w.fork a).entry a s = some e →
        (w.fork a).entry w.nextSpace s = some f → e = f ∧ Flags.any e.flags Flags.cow = true := by
      intro s hs e f he hf
      rw [entry_of_lookup hpar] at he
      rw [entry_of_lookup hch] at hf
      rcases copy.dst_entry s f hf with hinit | ⟨hsrc, hmark⟩
      · cases hinit
      rw [he] at hsrc
      cases hsrc
      obtain ⟨e₀, he₀, -, hshared⟩ := copy.src_entry s e he
      refine ⟨rfl, hmark ?_⟩
      rw [hshared]
      exact hs e₀ ((entry_of_lookup look s).trans he₀)
    -- no pointer from before the fork is valid after it
    have hgrants : ∀ x, x = a ∨ x = w.nextSpace → ∀ t ∈ (w.fork a).threads, ∀ s,
        ¬ Grants (w.fork a) t x s := by
      rintro x hx t ht s ⟨c, gen, mm₁, ptr, rfl, htype, hphase, hlook, hgen, -⟩
      rw [fork_threads] at ht
      obtain ⟨hxlt, hgrant⟩ := hw.grants _ ht ptr hphase htype
      rcases hx with rfl | rfl
      · rw [hpar] at hlook
        cases hlook
        have hle := (hgrant mm look).1
        have := copy.src_changes
        omega
      · omega
    refine ⟨⟨?_, ?_⟩, ⟨?_, ?_⟩, hlt, by omega⟩
    · exact fun s hs e f he hf _ => (hcow s hs e f he hf).2
    · exact fun s _ t ht hgr => absurd hgr (hgrants a (Or.inl rfl) t ht s)
    · intro s hs e f he hf _
      obtain ⟨rfl, hc⟩ := hcow s hs f e hf he
      exact hc
    · exact fun s _ t ht hgr => absurd hgr (hgrants _ (Or.inr rfl) t ht s)

theorem readByte_exec (hw : WorldOk w) {x y : Nat} (hxy : y ≠ x)
    (hy : y < w.nextSpace) (hg : Guarded w x y S) (op : Op) (hactor : op.actor w = some x)
    {p k : Nat} (hp : slot p ∈ S) (hk : k < pageSize) :
    (w.exec op).readByte y p k = w.readByte y p k := by
  have heff := effect_exec hw op
  rw [hactor] at heff
  unfold World.readByte
  rw [heff.entry_frame hxy hy]
  cases hf : w.entry y (slot p) with
  | none => rfl
  | some f =>
    have hlive := hw.live y (slot p) f hf
    simp only [Option.map_some, Option.some.injEq]
    cases heff with
    | quiet _ _ _ host => rw [host.bytes]
    | update _ _ _ _ _ _ ext _ _ => rw [ext.bytes_old _ hlive]
    | fork _ _ _ _ _ _ _ copy => rw [copy.bytes_eq]
    | destroy _ _ _ _ _ _ bytes _ => rw [bytes]
    | write _ q j mm e bytes look entry authorised inside _ _ host =>
      have he : w.entry x (slot q) = some e := (entry_of_lookup look _).trans entry
      rw [host]
      simp only [Host.write]
      split
      · rename_i hin
        -- a byte inside the written page would make the two pages overlap
        by_cases hlen : f.offset + k - (e.offset + j) < bytes.length
        · exfalso
          have hov : Overlap e f := by
            refine ⟨hin.1.symm, ?_, ?_⟩
            · omega
            · omega
          have hslot := hw.slots x y (slot q) (slot p) e f he hf hov
          rw [hslot] at authorised he
          exact hg.separate hp authorised he hf hov
        · rw [List.getElem?_eq_none (Nat.not_lt.mp hlen), Option.getD_none]
      · rfl

/-- **Copy-on-write isolation.** Let `a` be forked at any reachable point. At every later
point of every run, a step of the parent or of the child leaves every byte unchanged that
the other one reads at a page the parent did not map `P_SHARED` at the time of the fork. -/
theorem fork_isolation {w₀ w₁ w₂ : World} (history later : List Label)
    (script : List Bool) (a x y : Nat) (l : Label) (p k : Nat)
    (h₀ : w₀ = run step World.init history) (h₁ : w₁ = step w₀ ⟨.fork a, script⟩)
    (h₂ : w₂ = run step w₁ later) (hforked : (w₁.spaces.lookup w₀.nextSpace).isSome = true)
    (hpair : x = a ∧ y = w₀.nextSpace ∨ x = w₀.nextSpace ∧ y = a)
    (hprivate : w₀.privateAt a p = true) (hactor : l.op.actor w₂ = some x) (hk : k < pageSize) :
    (step w₂ l).readByte y p k = w₂.readByte y p k := by
  have hok₀ : WorldOk (w₀.withScript script) := by
    rw [h₀]
    exact worldOk_withScript (worldOk_run worldOk_init history) script
  obtain ⟨child, hchild⟩ := Option.isSome_iff_exists.mp hforked
  rw [h₁] at hchild
  obtain ⟨hpar, hchi, hlt, hnext⟩ := guarded_fork hok₀ hchild
  have hmem : slot p ∈ privateSlots (w₀.withScript script) a := by
    intro e he
    have hall : (w₀.entry a (slot p)).all (fun e => !Flags.any e.flags Flags.shared)
      = true := hprivate
    rw [show w₀.entry a (slot p) = some e from he] at hall
    simpa using hall
  have hstart : ForkInv a w₀.nextSpace (privateSlots (w₀.withScript script) a) w₁ := by
    rw [h₁]
    exact ⟨worldOk_exec hok₀ (.fork a), hlt.ne, hlt.trans hnext, hnext, hpar, hchi⟩
  have hinv : ForkInv a w₀.nextSpace (privateSlots (w₀.withScript script) a) w₂ := by
    rw [h₂]
    exact run_invariant_all forkInv_step hstart
  have hok := worldOk_withScript hinv.ok l.script
  have hactor' : l.op.actor (w₂.withScript l.script) = some x := by
    cases hop : l.op <;> rw [hop] at hactor <;> exact hactor
  rcases hpair with ⟨rfl, rfl⟩ | ⟨rfl, rfl⟩
  · exact readByte_exec hok hinv.ne.symm hinv.child_lt (hinv.parent.withScript _) l.op
      hactor' hmem hk
  · exact readByte_exec hok hinv.ne hinv.parent_lt (hinv.child.withScript _) l.op
      hactor' hmem hk

def onePageHistory : List Label :=
  [⟨.mmNew, []⟩, ⟨.ptMapNothing 0 ⟨5, 1, by decide, by decide⟩ (Flags.read ||| Flags.write), []⟩]

/-- The child of a fork resolves an address of that page for writing. -/
def childWrites : List Label :=
  ⟨.access 1 0x5000 .write false, []⟩ :: List.replicate 4 ⟨.advance 0 none, []⟩

/-- The child stores through the pointer it got; the parent's byte stays 0. -/
theorem fork_isolation_childStore :
    (step (run step (step (run step World.init onePageHistory) ⟨.fork 0, []⟩) childWrites)
        ⟨.store 0 [7], []⟩).readByte 1 5 0 = some 7 ∧
      (step (run step (step (run step World.init onePageHistory) ⟨.fork 0, []⟩) childWrites)
        ⟨.store 0 [7], []⟩).readByte 0 5 0
      = (run step (step (run step World.init onePageHistory) ⟨.fork 0, []⟩)
        childWrites).readByte 0 5 0 :=
  ⟨by decide +kernel,
    fork_isolation onePageHistory childWrites [] 0 1 0 ⟨.store 0 [7], []⟩ 5 0 rfl rfl rfl
      (by decide +kernel) (Or.inr ⟨by decide +kernel, rfl⟩) (by decide +kernel)
      (by decide +kernel) (by decide)⟩

end IosLinuxkit.Kernel
