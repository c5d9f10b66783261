import IosLinuxkit.Kernel.System
import IosLinuxkit.Kernel.SyscallLemmas

/-!
# What one step of the system can do

Every result about runs of the system rests on two facts, proved here once for all
operations.

* **`effect_exec`** — a step is one of six things, seen from the address spaces: nothing,
  an update of the actor's own table, a new space, a fork, the destruction of a space, or
  bytes written through a host pointer of the actor. `Effect` lists them.
* **`threadsFrom_exec`** — a thread that was not there before the step holds no pointer,
  or one that `mem_ptr_nofault` has just produced.

From them follows `worldOk_exec`, and what holds over whole runs: **`no_alias_run`**,
**`byte_changes_run`** and **`generation_run`**.
-/

namespace IosLinuxkit.Kernel

/-! ## Entries of a world, actors, grants -/

/-- The entry space `a` has in slot `s`. -/
def World.entry (w : World) (a : Nat) (s : Slot) : Option PtEntry :=
  (w.spaces.lookup a).bind fun mm => mm.mem.pt.lookup s

theorem entry_of_lookup {w : World} {a : Nat} {mm : Mm} (h : w.spaces.lookup a = some mm)
    (s : Slot) : w.entry a s = mm.mem.pt.lookup s := by
  rw [World.entry, h, Option.bind_some]

theorem entry_some {w : World} {a : Nat} {s : Slot} {e : PtEntry} (h : w.entry a s = some e) :
    ∃ mm, w.spaces.lookup a = some mm ∧ mm.mem.pt.lookup s = some e :=
  Option.bind_eq_some_iff.mp h

def Op.actor (w : World) : Op → Option Nat
  | .mmNew => none
  | .mmRetain a | .mmRelease a | .fork a | .mmap a _ | .munmap a _ _ | .mprotect a _ _ _
  | .mremap a _ _ _ _ _ _ | .setBrk a _ | .brk a _ | .madvise a _ _ _ | .ptSetFlags a _ _
  | .ptUnmapAlways a _ | .ptMapNothing a _ _ | .ptMap a _ _ _ _ | .ptMapLazy a _ _
  | .access a _ _ _ => some a
  | .advance i _ | .store i _ => w.threads[i]?.bind Thread.space

def Grants (w : World) (t : Thread) (a : Nat) (s : Slot) : Prop :=
  ∃ c gen mm ptr, t = .access a c gen ∧ c.type = .write ∧ c.phase = .done (some ptr) ∧
    w.spaces.lookup a = some mm ∧ gen = mm.mem.changes ∧ slot (page c.addr) = s

def Authorised (w : World) (a : Nat) (s : Slot) : Prop :=
  (∃ e, w.entry a s = some e ∧ Flags.writable e.flags = true) ∨ ∃ t ∈ w.threads, Grants w t a s

def ThreadOk : Thread → Prop
  | .idle => True
  | .access _ c _ => c.addr < wordMod
  | .madvise _ next _ call _ => next < wordMod ∧ pgOffset next = 0 ∧
      ∀ c, call = some c → c.addr = next ∧ c.type = .write ∧ ∀ ptr, c.phase ≠ .done ptr

def GrantOk (w : World) : Thread → Prop
  | .access a c gen => ∀ ptr, c.phase = .done (some ptr) → c.type = .write →
      a < w.nextSpace ∧ ∀ mm, w.spaces.lookup a = some mm → gen ≤ mm.mem.changes ∧
        (gen = mm.mem.changes → ∃ e, memPt mm.mem (page c.addr) = some e ∧
          ptr = ⟨e.data, e.offset + pgOffset c.addr⟩)
  | _ => True

structure WorldOk (w : World) : Prop where
  live : ∀ a s e, w.entry a s = some e → e.data < w.host.nextData
  fresh : ∀ a, w.nextSpace ≤ a → w.spaces.lookup a = none
  slots : ∀ a b s t e f, w.entry a s = some e → w.entry b t = some f → Overlap e f → s = t
  threads : ∀ t ∈ w.threads, ThreadOk t
  grants : ∀ t ∈ w.threads, GrantOk w t

theorem WorldOk.live_vm {w : World} (h : WorldOk w) {a : Nat} {mm : Mm}
    (ha : w.spaces.lookup a = some mm) : Live ⟨w.host, mm.mem⟩ := by
  intro s e he
  exact h.live a s e (by rw [entry_of_lookup ha]; exact he)

theorem WorldOk.lt_next {w : World} (h : WorldOk w) {a : Nat} {mm : Mm}
    (ha : w.spaces.lookup a = some mm) : a < w.nextSpace := by
  by_contra hge
  rw [h.fresh a (by omega)] at ha
  cases ha

theorem worldOk_init : WorldOk World.init where
  live := by intro a s e h; cases h
  fresh := fun _ _ => rfl
  slots := by intro a b s t e f h; cases h
  threads := by intro t h; cases h
  grants := by intro t h; cases h

/-! ## Effects -/

/-- What a step can do to the address spaces and the host; the index is the actor. `ok`
is the condition under which an update keeps the accounting. -/
inductive Effect (ok : Prop) (w w' : World) : Option Nat → Prop where
  | quiet (x : Option Nat) (spaces : ∀ b, w'.spaces.lookup b = w.spaces.lookup b)
      (next : w'.nextSpace = w.nextSpace) (host : SameHost w.host w'.host) : Effect ok w w' x
  | update (a : Nat) (mm mm' : Mm) (look : w.spaces.lookup a = some mm)
      (spaces : w'.spaces = w.spaces.insert a mm') (next : w'.nextSpace = w.nextSpace)
      (ext : Extends ⟨w.host, mm.mem⟩ ⟨w'.host, mm'.mem⟩) (coh : Coherent mm.mem mm'.mem)
      (bal : ok → Balanced ⟨w.host, mm.mem⟩ ⟨w'.host, mm'.mem⟩) : Effect ok w w' (some a)
  | born (spaces : w'.spaces = w.spaces.insert w.nextSpace mmNew)
      (next : w'.nextSpace = w.nextSpace + 1) (host : SameHost w.host w'.host) :
      Effect ok w w' none
  | fork (a : Nat) (mm mm' child : Mm) (look : w.spaces.lookup a = some mm)
      (spaces : w'.spaces = (w.spaces.insert a mm').insert w.nextSpace child)
      (next : w'.nextSpace = w.nextSpace + 1)
      (copy : CopySpec w.host mm.mem memInit w'.host mm'.mem child.mem) :
      Effect ok w w' (some a)
  | destroy (a : Nat) (mm : Mm) (look : w.spaces.lookup a = some mm)
      (spaces : w'.spaces = w.spaces.erase a) (next : w'.nextSpace = w.nextSpace)
      (datas : w'.host.nextData = w.host.nextData) (bytes : w'.host.bytes = w.host.bytes)
      (count : w'.host.anonPageCount = w.host.anonPageCount - chargedPages mm.mem) :
      Effect ok w w' (some a)
  | write (a p k : Nat) (mm : Mm) (e : PtEntry) (bytes : List UInt8)
      (look : w.spaces.lookup a = some mm) (entry : memPt mm.mem p = some e)
      (authorised : Authorised w a (slot p)) (inside : k + bytes.length ≤ pageSize)
      (spaces : ∀ b, w'.spaces.lookup b = w.spaces.lookup b)
      (next : w'.nextSpace = w.nextSpace)
      (host : w'.host = w.host.write ⟨e.data, e.offset + k⟩ bytes) : Effect ok w w' (some a)

def Op.keepsAccount (w : World) : Op → Prop
  | .brk a newBrk => ∀ mm, w.spaces.lookup a = some mm → mm.startBrk ≤ newBrk.toNat →
      mm.brk < newBrk.toNat → brkGrows ⟨w.host, mm.mem⟩ mm.brk newBrk.toNat = false
  | _ => True

theorem lookup_insert_self {s : AList (fun _ : Nat => Mm)} {a : Nat} {mm : Mm}
    (h : s.lookup a = some mm) (b : Nat) : (s.insert a mm).lookup b = s.lookup b := by
  by_cases hb : b = a
  · subst hb
    rw [AList.lookup_insert, h]
  · exact AList.lookup_insert_ne hb

theorem effect_withSpace {ok : Prop} {w : World} (hw : WorldOk w) (a : Nat) (f : Vm → Vm)
    (hf : ∀ v, Live v → Sound v (f v)) : Effect ok w (w.withSpace a f) (some a) := by
  unfold World.withSpace
  cases hlook : w.spaces.lookup a with
  | none => exact .quiet _ (fun _ => rfl) rfl (SameHost.refl _)
  | some mm =>
    have h := hf ⟨w.host, mm.mem⟩ (hw.live_vm hlook)
    exact .update a mm _ hlook rfl rfl h.ext h.coh fun _ => h.bal

theorem effect_sameMem {ok : Prop} {w : World} (hw : WorldOk w) {a : Nat} {mm mm' : Mm}
    (hlook : w.spaces.lookup a = some mm) (hmem : mm'.mem = mm.mem) :
    Effect ok w { w with spaces := w.spaces.insert a mm' } (some a) := by
  refine .update a mm mm' hlook rfl rfl ?_ ?_ fun _ => ?_
  · rw [hmem]
    exact Extends.refl (hw.live_vm hlook)
  · rw [hmem]
    exact Coherent.refl _
  · rw [hmem]
    rfl

theorem effect_fork {ok : Prop} (w : World) (a : Nat) : Effect ok w (w.fork a) (some a) := by
  unfold World.fork
  cases hlook : w.spaces.lookup a with
  | none => exact .quiet _ (fun _ => rfl) rfl (SameHost.refl _)
  | some mm =>
    have hsame := sameHost_attempt w.host
    dsimp only
    split
    · have h := ptCopyOnWrite_spec w.host.attempt.2 mm.mem memInit 0 memPages
      refine .fork a mm _ _ hlook rfl rfl ⟨?_, ?_, h.src_entry, h.dst_entry, h.src_changes, ?_⟩
      · rw [← hsame.nextData]
        exact h.next_eq
      · rw [← hsame.bytes]
        exact h.bytes_eq
      · rw [← hsame.anonPageCount]
        exact h.balance_eq
    · exact .quiet _ (fun _ => rfl) rfl hsame

theorem effect_release {ok : Prop} {w : World} (hw : WorldOk w) (a : Nat) :
    Effect ok w (w.release a) (some a) := by
  unfold World.release
  cases hlook : w.spaces.lookup a with
  | none => exact .quiet _ (fun _ => rfl) rfl (SameHost.refl _)
  | some mm =>
    dsimp only
    split
    · have hsh := shrinks_ptUnmapAlways ⟨w.host, mm.mem⟩ 0 memPages
      have hbal := balanced_memDestroy ⟨w.host, mm.mem⟩
      have hzero := chargedPages_memDestroy ⟨w.host, mm.mem⟩
      refine .destroy a mm hlook rfl rfl hsh.next_eq hsh.bytes_eq ?_
      simp only [Balanced, balance, hzero] at hbal
      show (memDestroy ⟨w.host, mm.mem⟩).host.anonPageCount = _
      omega
    · exact effect_sameMem hw hlook rfl

theorem effect_brk {w : World} (hw : WorldOk w) (a : Nat) (newBrk : UInt64) :
    Effect ((Op.brk a newBrk).keepsAccount w) w (w.brk a newBrk.toNat) (some a) := by
  unfold World.brk
  cases hlook : w.spaces.lookup a with
  | none => exact .quiet _ (fun _ => rfl) rfl (SameHost.refl _)
  | some mm =>
    have hl := hw.live_vm hlook
    have hrefl := Sound.refl hl
    dsimp only
    unfold sysBrk
    split_ifs with hlow hup hdown
    · exact .update a mm _ hlook rfl rfl hrefl.ext hrefl.coh fun _ => hrefl.bal
    · have h := extends_brkGrow hl mm.brk newBrk.toNat
      refine .update a mm _ hlook rfl rfl h.1 h.2 fun hok => ?_
      exact balanced_brkGrow (hok mm hlook (by omega) hup)
    · have h := sound_brkShrink hl mm.brk newBrk.toNat
      exact .update a mm _ hlook rfl rfl h.ext h.coh fun _ => h.bal
    · exact .update a mm _ hlook rfl rfl hrefl.ext hrefl.coh fun _ => hrefl.bal

/-! ## Threads -/

theorem memPtrNofault_write {m : Mem} {addr : Nat} {ptr : HostPtr}
    (h : memPtrNofault m addr .write = some ptr) :
    ∃ e, memPt m (page addr) = some e ∧ Flags.writable e.flags = true ∧
      ptr = ⟨e.data, e.offset + pgOffset addr⟩ := by
  unfold memPtrNofault at h
  split at h
  · cases h
  · rename_i e he
    split at h
    · cases h
    · rename_i hwr
      simp only [true_and, not_not] at hwr
      exact ⟨e, he, hwr, (Option.some.inj h).symm⟩

theorem aligned_next {n : Nat} (h : pgOffset n = 0) :
    (n + pageSize) % wordMod < wordMod ∧ pgOffset ((n + pageSize) % wordMod) = 0 := by
  refine ⟨Nat.mod_lt _ (by decide), ?_⟩
  simp only [pgOffset, pageSize, wordMod] at *
  omega

/-- What `advance` leaves in the thread's place, and what it did to the thread's address
space: either a `Sound` update, or one page of zeroes through a pointer
`mem_ptr_nofault` has just granted. -/
structure ThreadStep (v : Vm) (t : Thread) (v' : Vm) (t' : Thread) : Prop where
  effect : Sound v v' ∨ ∃ e p bytes, memPt v.mem p = some e ∧
    Flags.writable e.flags = true ∧ bytes.length ≤ pageSize ∧ v'.mem = v.mem ∧
    v'.host = v.host.write ⟨e.data, e.offset⟩ bytes
  ok : ThreadOk t'
  space : ∀ a, t.space = some a → t' ≠ .idle → t'.space = some a
  grant : t' = t ∨ ∀ a c gen ptr, t' = .access a c gen → c.phase = .done (some ptr) →
    c.type = .write → gen = v'.mem.changes ∧ ∃ e, memPt v'.mem (page c.addr) = some e ∧
      Flags.writable e.flags = true ∧ ptr = ⟨e.data, e.offset + pgOffset c.addr⟩

theorem threadStep_access {v : Vm} (hl : Live v) (limit : Option Nat) (a : Nat) (c : PtrCall)
    (gen : Nat) (hc : c.addr < wordMod) :
    ThreadStep v (.access a c gen) (threadStep v limit (.access a c gen)).1
      (threadStep v limit (.access a c gen)).2 where
  effect := Or.inl (sound_memPtrStep hl limit c hc)
  ok := by
    show (memPtrStep v limit c).2.addr < wordMod
    rw [(memPtrStep_call v limit c).1]
    exact hc
  space := fun _ h _ => h
  grant := by
    by_cases hdone : ∃ q, c.phase = .done q
    · obtain ⟨q, hq⟩ := hdone
      left
      unfold threadStep memPtrStep
      simp only [hq]
    · push Not at hdone
      right
      rintro b c' gen' ptr heq hphase htype
      simp only [threadStep, Thread.access.injEq] at heq
      obtain ⟨-, rfl, rfl⟩ := heq
      obtain ⟨hv, hfault⟩ := memPtrStep_done hdone hphase
      obtain ⟨haddr, hty⟩ := memPtrStep_call v limit c
      rw [hty] at htype
      rw [htype] at hfault
      obtain ⟨e, he, hwr, hptr⟩ := memPtrNofault_write hfault
      refine ⟨rfl, e, ?_, hwr, ?_⟩
      · show memPt (memPtrStep v limit c).1.mem (page (memPtrStep v limit c).2.addr) = some e
        rw [hv, haddr]
        exact he
      · rw [haddr]
        exact hptr

theorem ThreadStep.of_madvise {v v' : Vm} {t t' : Thread} (heff : Sound v v')
    (hok : ThreadOk t') (hspace : ∀ a, t.space = some a → t' ≠ .idle → t'.space = some a)
    (hno : ∀ a c gen, t' ≠ .access a c gen) : ThreadStep v t v' t' :=
  ⟨Or.inl heff, hok, hspace, Or.inr fun a c gen _ h => absurd h (hno a c gen)⟩

theorem threadStep_madvise {v : Vm} (hl : Live v) (limit : Option Nat) (a next stop : Nat)
    (call : Option PtrCall) (any : Bool) (hok : ThreadOk (.madvise a next stop call any)) :
    ThreadStep v (.madvise a next stop call any) (madviseStep v limit a next stop any call).1
      (madviseStep v limit a next stop any call).2 := by
  obtain ⟨hlt, halign, hcall⟩ := hok
  obtain ⟨hlt', halign'⟩ := aligned_next halign
  have hadvance : ∀ b, ThreadOk (.madvise a ((next + pageSize) % wordMod) stop none b) :=
    fun b => ⟨hlt', halign', by rintro c ⟨⟩⟩
  have hspace : ∀ next' call' b a', (Thread.madvise a next stop call any).space = some a' →
      Thread.madvise a next' stop call' b ≠ .idle →
      (Thread.madvise a next' stop call' b).space = some a' := fun _ _ _ _ h _ => h
  cases call with
  | none =>
    simp only [madviseStep]
    split
    · split
      · exact .of_madvise (Sound.refl hl) (hadvance any) (hspace _ _ _) (by rintro _ _ _ ⟨⟩)
      split
      · exact .of_madvise (Sound.refl hl) (hadvance any) (hspace _ _ _)
          (by rintro _ _ _ ⟨⟩)
      refine .of_madvise (Sound.refl hl) ⟨hlt, halign, ?_⟩ (hspace _ _ _)
        (by rintro _ _ _ ⟨⟩)
      rintro c ⟨⟩
      exact ⟨rfl, rfl, by rintro q ⟨⟩⟩
    refine .of_madvise ?_ trivial (fun _ _ h => absurd rfl h) (by rintro _ _ _ ⟨⟩)
    split
    · exact sound_changed hl
    · exact Sound.refl hl
  | some c =>
    obtain ⟨haddr, htype, hnot⟩ := hcall c rfl
    obtain ⟨haddr', htype'⟩ := memPtrStep_call v limit c
    have hs : Sound v (memPtrStep v limit c).1 := sound_memPtrStep hl limit c (by omega)
    simp only [madviseStep]
    split
    · exact .of_madvise hs (hadvance any) (hspace _ _ _) (by rintro _ _ _ ⟨⟩)
    · -- the page is zeroed in the interval that resolved it
      rename_i ptr hphase
      obtain ⟨hv, hfault⟩ := memPtrStep_done hnot hphase
      rw [htype] at hfault
      obtain ⟨e, he, hwr, rfl⟩ := memPtrNofault_write hfault
      refine ⟨Or.inr ⟨e, page c.addr, List.replicate pageSize 0, he, hwr, ?_, ?_, ?_⟩,
        hadvance true, hspace _ _ _, Or.inr (by rintro _ _ _ _ ⟨⟩)⟩
      · rw [List.length_replicate]
      · rw [hv]
      · dsimp only
        rw [hv, haddr, halign, Nat.add_zero]
    · rename_i hphase
      refine .of_madvise hs ⟨hlt, halign, ?_⟩ (hspace _ _ _) (by rintro _ _ _ ⟨⟩)
      rintro c' ⟨⟩
      refine ⟨haddr'.trans haddr, htype'.trans htype, fun q hq => ?_⟩
      cases q with
      | none => simp_all
      | some ptr => simp_all

theorem threadStep_spec {v : Vm} (hl : Live v) (limit : Option Nat) {t : Thread}
    (hok : ThreadOk t) : ThreadStep v t (threadStep v limit t).1 (threadStep v limit t).2 := by
  cases t with
  | idle => exact .of_madvise (Sound.refl hl) trivial (fun _ h _ => h) (by rintro _ _ _ ⟨⟩)
  | access a c gen => exact threadStep_access hl limit a c gen hok
  | madvise a next stop call any => exact threadStep_madvise hl limit a next stop call any hok

def ThreadsFrom (w w' : World) : Prop :=
  ∀ t ∈ w'.threads, t ∈ w.threads ∨ (ThreadOk t ∧
    ∀ a c gen ptr, t = .access a c gen → c.phase = .done (some ptr) → c.type = .write →
      ∃ mm e, w'.spaces.lookup a = some mm ∧ gen = mm.mem.changes ∧
        memPt mm.mem (page c.addr) = some e ∧ Flags.writable e.flags = true ∧
        ptr = ⟨e.data, e.offset + pgOffset c.addr⟩)

theorem ThreadsFrom.of_eq {w w' : World} (h : w'.threads = w.threads) : ThreadsFrom w w' :=
  fun t ht => Or.inl (by rw [← h]; exact ht)

theorem ThreadsFrom.append {w w' : World} {t : Thread} (h : w'.threads = w.threads ++ [t])
    (hok : ThreadOk t) (hnot : ∀ a c gen ptr, t = .access a c gen → c.phase ≠ .done (some ptr)) :
    ThreadsFrom w w' := by
  intro u hu
  rw [h, List.mem_append, List.mem_singleton] at hu
  rcases hu with hu | rfl
  · exact Or.inl hu
  · exact Or.inr ⟨hok, fun a c gen ptr ht hp => absurd hp (hnot a c gen ptr ht)⟩

theorem threadsFrom_withSpace (w : World) (a : Nat) (f : Vm → Vm) :
    ThreadsFrom w (w.withSpace a f) := by
  apply ThreadsFrom.of_eq
  unfold World.withSpace
  split <;> rfl

theorem advance_spec {ok : Prop} {w : World} (hw : WorldOk w) (i : Nat) (limit : Option Nat) :
    Effect ok w (w.advance i limit) (w.threads[i]?.bind Thread.space) ∧
      ThreadsFrom w (w.advance i limit) := by
  unfold World.advance
  cases hi : w.threads[i]? with
  | none => exact ⟨.quiet _ (fun _ => rfl) rfl (SameHost.refl _), .of_eq rfl⟩
  | some t =>
    have hmem : t ∈ w.threads := List.mem_of_getElem? hi
    rw [Option.bind_some]
    cases hsp : t.space with
    | none =>
      simp only [hsp]
      exact ⟨.quiet _ (fun _ => rfl) rfl (SameHost.refl _), .of_eq rfl⟩
    | some a =>
      simp only [hsp]
      cases hlook : w.spaces.lookup a with
      | none => exact ⟨.quiet _ (fun _ => rfl) rfl (SameHost.refl _), .of_eq rfl⟩
      | some mm =>
        have hs := threadStep_spec (hw.live_vm hlook) limit (hw.threads t hmem)
        dsimp only
        set r := threadStep ⟨w.host, mm.mem⟩ limit t
        refine ⟨?_, fun u hu => ?_⟩
        · rcases hs.effect with hsound | ⟨e, p, bytes, he, hwr, hlen, hm, hh⟩
          · exact .update a mm _ hlook rfl rfl hsound.ext hsound.coh fun _ => hsound.bal
          refine .write a p 0 mm e bytes hlook he (Or.inl ⟨e, ?_, hwr⟩) (by omega)
            (fun b => ?_) rfl hh
          · rw [entry_of_lookup hlook]
            exact he
          · rw [hm]
            exact lookup_insert_self hlook b
        rcases List.mem_or_eq_of_mem_set hu with hu | rfl
        · exact Or.inl hu
        rcases hs.grant with heq | hgrant
        · exact Or.inl (heq ▸ hmem)
        refine Or.inr ⟨hs.ok, fun b c gen ptr ht hphase htype => ?_⟩
        obtain ⟨hgen, e, he, hwr, hptr⟩ := hgrant b c gen ptr ht hphase htype
        have hb : b = a := by
          have := hs.space a hsp (by rw [ht]; rintro ⟨⟩)
          rw [ht] at this
          exact Option.some.inj this
        subst hb
        exact ⟨_, e, AList.lookup_insert _, hgen, he, hwr, hptr⟩

theorem granted_some {w : World} {i a : Nat} {c : PtrCall} {ptr : HostPtr}
    (h : w.granted i = some (a, c, ptr)) :
    ∃ gen mm, w.threads[i]? = some (.access a c gen) ∧ c.type = .write ∧
      c.phase = .done (some ptr) ∧ w.spaces.lookup a = some mm ∧ gen = mm.mem.changes := by
  unfold World.granted at h
  split at h
  · split at h
    · split at h
      · rename_i hi _ _ _ _ _ htype hphase hlook hgen
        cases h
        exact ⟨_, _, hi, htype, hphase, hlook, hgen⟩
      · cases h
    · cases h
  · cases h

theorem store_effect {ok : Prop} {w : World} (hw : WorldOk w) (i : Nat) (bytes : List UInt8) :
    Effect ok w (w.store i bytes) (w.threads[i]?.bind Thread.space) := by
  unfold World.store
  split
  · exact .quiet _ (fun _ => rfl) rfl (SameHost.refl _)
  · rename_i a c ptr hgr
    obtain ⟨gen, mm, hi, htype, hphase, hlook, hgen⟩ := granted_some hgr
    have hmem : Thread.access a c gen ∈ w.threads := List.mem_of_getElem? hi
    split
    · rename_i hlen
      obtain ⟨-, hgrant⟩ := hw.grants _ hmem ptr hphase htype
      obtain ⟨e, he, rfl⟩ := (hgrant mm hlook).2 hgen
      rw [hi]
      refine .write a (page c.addr) (pgOffset c.addr) mm e bytes hlook he (Or.inr ?_) hlen
        (fun _ => rfl) rfl rfl
      exact ⟨_, hmem, c, gen, mm, _, rfl, htype, hphase, hlook, hgen, rfl⟩
    · exact .quiet _ (fun _ => rfl) rfl (SameHost.refl _)

theorem madvise_spec {ok : Prop} (w : World) (a : Nat) (addr : UInt64) (len advice : Nat) :
    Effect ok w (w.madvise a addr.toNat len advice) (some a) ∧
      ThreadsFrom w (w.madvise a addr.toNat len advice) := by
  unfold World.madvise
  split
  · exact ⟨.quiet _ (fun _ => rfl) rfl (SameHost.refl _), .of_eq rfl⟩
  split
  · rename_i hargs
    refine ⟨.quiet _ (fun _ => rfl) rfl (SameHost.refl _), .append rfl ?_ ?_⟩
    · exact ⟨addr.toNat_lt, hargs.1, by rintro c ⟨⟩⟩
    · rintro _ _ _ _ ⟨⟩
  · exact ⟨.quiet _ (fun _ => rfl) rfl (SameHost.refl _), .of_eq rfl⟩

/-! ## Every operation -/

theorem effect_exec {w : World} (hw : WorldOk w) (op : Op) :
    Effect (op.keepsAccount w) w (w.exec op) (op.actor w) := by
  cases op with
  | mmNew => exact .born rfl rfl (SameHost.refl _)
  | mmRetain a =>
    simp only [World.exec, Op.actor]
    cases hlook : w.spaces.lookup a with
    | none => exact .quiet _ (fun _ => rfl) rfl (SameHost.refl _)
    | some mm => exact effect_sameMem hw hlook rfl
  | mmRelease a => exact effect_release hw a
  | fork a => exact effect_fork w a
  | mmap a args => exact effect_withSpace hw a _ fun _ hl => sound_sysMmap hl args
  | munmap a addr len => exact effect_withSpace hw a _ fun _ hl => sound_sysMunmap hl _ _
  | mprotect a addr len prot =>
    exact effect_withSpace hw a _ fun _ hl => sound_sysMprotect hl _ _ prot
  | mremap a addr oldLen newLen mayMove badFlags hole =>
    exact effect_withSpace hw a _ fun _ hl =>
      sound_sysMremap hl addr.toNat_lt _ _ mayMove badFlags hole
  | setBrk a addr =>
    simp only [World.exec, Op.actor]
    cases hlook : w.spaces.lookup a with
    | none => exact .quiet _ (fun _ => rfl) rfl (SameHost.refl _)
    | some mm => exact effect_sameMem hw hlook rfl
  | brk a newBrk => exact effect_brk hw a newBrk
  | madvise a addr len advice => exact (madvise_spec w a addr len.toNat advice).1
  | ptSetFlags a span flags =>
    exact effect_withSpace hw a _ fun _ hl => sound_ptSetFlags hl _ _ flags
  | ptUnmapAlways a span =>
    exact effect_withSpace hw a _ fun _ hl => sound_ptUnmapAlways hl _ _
  | ptMapNothing a span flags =>
    exact effect_withSpace hw a _ fun _ hl =>
      sound_ptMapNothing hl flags (span.start_le.trans (by decide))
        (span.pages_le.trans (by decide))
  | ptMap a span memory offset flags =>
    exact effect_withSpace hw a _ fun _ hl =>
      sound_ptMap hl memory offset flags (span.start_le.trans (by decide))
        (span.pages_le.trans (by decide))
  | ptMapLazy a span flags =>
    exact effect_withSpace hw a _ fun _ hl => sound_ptMapLazy hl _ _ flags
  | access a addr type inJit => exact .quiet _ (fun _ => rfl) rfl (SameHost.refl _)
  | advance i limit => exact (advance_spec hw i limit).1
  | store i bytes => exact store_effect hw i bytes

theorem threadsFrom_exec {w : World} (hw : WorldOk w) (op : Op) :
    ThreadsFrom w (w.exec op) := by
  cases op with
  | mmNew => exact .of_eq rfl
  | mmRetain a | setBrk a addr =>
    simp only [World.exec]
    split <;> exact .of_eq rfl
  | mmRelease a =>
    simp only [World.exec, World.release]
    split
    · exact .of_eq rfl
    · split <;> exact .of_eq rfl
  | fork a =>
    simp only [World.exec, World.fork]
    split
    · exact .of_eq rfl
    · split <;> exact .of_eq rfl
  | brk a newBrk =>
    simp only [World.exec, World.brk]
    split <;> exact .of_eq rfl
  | madvise a addr len advice => exact (@madvise_spec True w a addr len.toNat advice).2
  | access a addr type inJit =>
    refine .append rfl addr.toNat_lt ?_
    rintro b c gen ptr ⟨⟩ ⟨⟩
  | advance i limit => exact (@advance_spec True w hw i limit).2
  | store i bytes =>
    simp only [World.exec, World.store]
    split
    · exact .of_eq rfl
    · split <;> exact .of_eq rfl
  | mmap a args | munmap a addr len | mprotect a addr len prot
  | mremap a addr oldLen newLen mayMove badFlags hole | ptSetFlags a span flags
  | ptUnmapAlways a span | ptMapNothing a span flags | ptMap a span memory offset flags
  | ptMapLazy a span flags => exact threadsFrom_withSpace w a _

/-! ## What an effect does to entries -/

theorem entry_congr {w w' : World} (h : ∀ b, w'.spaces.lookup b = w.spaces.lookup b)
    (a : Nat) (s : Slot) : w'.entry a s = w.entry a s := by
  rw [World.entry, World.entry, h a]

theorem lookup_erase_cases {s : AList (fun _ : Nat => Mm)} {a b : Nat} {mm : Mm}
    (h : (s.erase a).lookup b = some mm) : s.lookup b = some mm ∧ b ≠ a := by
  by_cases hb : b = a
  · subst hb
    rw [AList.lookup_erase] at h
    cases h
  · rw [AList.lookup_erase_ne hb] at h
    exact ⟨h, hb⟩

theorem Effect.next_le {ok : Prop} {w w' : World} {x : Option Nat} (h : Effect ok w w' x) :
    w.nextSpace ≤ w'.nextSpace ∧ w.host.nextData ≤ w'.host.nextData := by
  cases h with
  | quiet _ _ next host => exact ⟨next.ge, host.nextData.ge⟩
  | update _ _ _ _ _ next ext _ _ => exact ⟨next.ge, ext.next_le⟩
  | born _ next host => exact ⟨by omega, host.nextData.ge⟩
  | fork _ _ _ _ _ _ next copy => exact ⟨by omega, copy.next_eq.ge⟩
  | destroy _ _ _ _ next datas _ _ => exact ⟨next.ge, datas.ge⟩
  | write _ _ _ _ _ _ _ _ _ _ _ next host => exact ⟨next.ge, by rw [host]; exact le_refl _⟩

theorem Effect.lookup_back {ok : Prop} {w w' : World} {x : Option Nat}
    (h : Effect ok w w' x) {b : Nat} (hb : b < w.nextSpace) {mm' : Mm}
    (hlook' : w'.spaces.lookup b = some mm') :
    ∃ mm, w.spaces.lookup b = some mm ∧ Coherent mm.mem mm'.mem := by
  cases h with
  | quiet _ spaces _ _ => exact ⟨mm', by rw [← spaces b]; exact hlook', Coherent.refl _⟩
  | update a mm mm₁ look spaces _ _ coh _ =>
    rw [spaces] at hlook'
    by_cases hba : b = a
    · subst hba
      rw [AList.lookup_insert] at hlook'
      cases hlook'
      exact ⟨mm, look, coh⟩
    · rw [AList.lookup_insert_ne hba] at hlook'
      exact ⟨mm', hlook', Coherent.refl _⟩
  | born spaces _ _ =>
    rw [spaces, AList.lookup_insert_ne (by omega)] at hlook'
    exact ⟨mm', hlook', Coherent.refl _⟩
  | fork a mm mm₁ child look spaces _ copy =>
    rw [spaces, AList.lookup_insert_ne (by omega)] at hlook'
    by_cases hba : b = a
    · subst hba
      rw [AList.lookup_insert] at hlook'
      cases hlook'
      exact ⟨mm, look, Coherent.of_lt copy.src_changes⟩
    · rw [AList.lookup_insert_ne hba] at hlook'
      exact ⟨mm', hlook', Coherent.refl _⟩
  | destroy a mm look spaces _ _ _ _ =>
    rw [spaces] at hlook'
    exact ⟨mm', (lookup_erase_cases hlook').1, Coherent.refl _⟩
  | write _ _ _ _ _ _ _ _ _ _ spaces _ _ =>
    exact ⟨mm', by rw [← spaces b]; exact hlook', Coherent.refl _⟩

theorem Effect.entry_back {ok : Prop} {w w' : World} {x : Option Nat}
    (h : Effect ok w w' x) {b : Nat} {s : Slot} {e' : PtEntry} (he' : w'.entry b s = some e') :
    (∃ b₀ e, w.entry b₀ s = some e ∧ Kept e e' ∧ (b < w.nextSpace → b₀ = b)) ∨
      (x = some b ∧ w.host.nextData ≤ e'.data ∧ e'.data < w'.host.nextData) := by
  cases h with
  | quiet _ spaces _ _ =>
    rw [entry_congr spaces] at he'
    exact Or.inl ⟨b, e', he', Kept.refl _, fun _ => rfl⟩
  | update a mm mm₁ look spaces _ ext _ _ =>
    obtain ⟨mm', hlook', hs⟩ := entry_some he'
    rw [spaces] at hlook'
    by_cases hba : b = a
    · subst hba
      rw [AList.lookup_insert] at hlook'
      cases hlook'
      rcases ext.entry s e' hs with ⟨e, he, hk⟩ | hfresh
      · exact Or.inl ⟨b, e, (entry_of_lookup look s).trans he, hk, fun _ => rfl⟩
      · exact Or.inr ⟨rfl, hfresh⟩
    · rw [AList.lookup_insert_ne hba] at hlook'
      exact Or.inl ⟨b, e', (entry_of_lookup hlook' s).trans hs, Kept.refl _, fun _ => rfl⟩
  | born spaces _ _ =>
    obtain ⟨mm', hlook', hs⟩ := entry_some he'
    rw [spaces] at hlook'
    by_cases hbn : b = w.nextSpace
    · subst hbn
      rw [AList.lookup_insert] at hlook'
      cases hlook'
      cases hs
    · rw [AList.lookup_insert_ne hbn] at hlook'
      exact Or.inl ⟨b, e', (entry_of_lookup hlook' s).trans hs, Kept.refl _, fun _ => rfl⟩
  | fork a mm mm₁ child look spaces _ copy =>
    obtain ⟨mm', hlook', hs⟩ := entry_some he'
    rw [spaces] at hlook'
    by_cases hbn : b = w.nextSpace
    · -- the child's entries are those of the parent
      subst hbn
      rw [AList.lookup_insert] at hlook'
      cases hlook'
      rcases copy.dst_entry s e' hs with hinit | ⟨hsrc, -⟩
      · cases hinit
      obtain ⟨e, he, hk, -⟩ := copy.src_entry s e' hsrc
      exact Or.inl ⟨a, e, (entry_of_lookup look s).trans he, hk,
        fun hlt => absurd hlt (lt_irrefl _)⟩
    rw [AList.lookup_insert_ne hbn] at hlook'
    by_cases hba : b = a
    · subst hba
      rw [AList.lookup_insert] at hlook'
      cases hlook'
      obtain ⟨e, he, hk, -⟩ := copy.src_entry s e' hs
      exact Or.inl ⟨b, e, (entry_of_lookup look s).trans he, hk, fun _ => rfl⟩
    · rw [AList.lookup_insert_ne hba] at hlook'
      exact Or.inl ⟨b, e', (entry_of_lookup hlook' s).trans hs, Kept.refl _, fun _ => rfl⟩
  | destroy a mm look spaces _ _ _ _ =>
    obtain ⟨mm', hlook', hs⟩ := entry_some he'
    rw [spaces] at hlook'
    exact Or.inl ⟨b, e', (entry_of_lookup (lookup_erase_cases hlook').1 s).trans hs,
      Kept.refl _, fun _ => rfl⟩
  | write _ _ _ _ _ _ _ _ _ _ spaces _ _ =>
    rw [entry_congr spaces] at he'
    exact Or.inl ⟨b, e', he', Kept.refl _, fun _ => rfl⟩

theorem Effect.entry_frame {ok : Prop} {w w' : World} {a : Nat}
    (h : Effect ok w w' (some a)) {b : Nat} (hba : b ≠ a) (hb : b < w.nextSpace) (s : Slot) :
    w'.entry b s = w.entry b s := by
  cases h with
  | quiet _ spaces _ _ => exact entry_congr spaces b s
  | update _ _ _ _ spaces _ _ _ _ =>
    rw [World.entry, World.entry, spaces, AList.lookup_insert_ne hba]
  | fork _ _ _ _ _ spaces _ _ =>
    rw [World.entry, World.entry, spaces, AList.lookup_insert_ne (by omega),
      AList.lookup_insert_ne hba]
  | destroy _ _ _ spaces _ _ _ _ =>
    rw [World.entry, World.entry, spaces, AList.lookup_erase_ne hba]
  | write _ _ _ _ _ _ _ _ _ _ spaces _ _ => exact entry_congr spaces b s

/-! ## The invariant -/

theorem Effect.live {ok : Prop} {w w' : World} {x : Option Nat} (h : Effect ok w w' x)
    (hw : WorldOk w) {b : Nat} {s : Slot} {e' : PtEntry} (he' : w'.entry b s = some e') :
    e'.data < w'.host.nextData := by
  rcases h.entry_back he' with ⟨b₀, e, he, hk, -⟩ | ⟨-, -, hlt⟩
  · have h1 := hw.live b₀ s e he
    have h2 := h.next_le.2
    rw [hk.1]
    omega
  · exact hlt

theorem Effect.fresh {ok : Prop} {w w' : World} {x : Option Nat} (h : Effect ok w w' x)
    (hw : WorldOk w) {b : Nat} (hb : w'.nextSpace ≤ b) : w'.spaces.lookup b = none := by
  have hnone := hw.fresh b (h.next_le.1.trans hb)
  have hne : ∀ {a mm}, w.spaces.lookup a = some mm → b ≠ a := by
    rintro a mm hlook rfl
    rw [hnone] at hlook
    cases hlook
  cases h with
  | quiet _ spaces _ _ => rw [spaces, hnone]
  | update a mm _ look spaces _ _ _ _ =>
    rw [spaces, AList.lookup_insert_ne (hne look), hnone]
  | born spaces next _ => rw [spaces, AList.lookup_insert_ne (by omega), hnone]
  | fork a mm _ _ look spaces next _ =>
    rw [spaces, AList.lookup_insert_ne (by omega), AList.lookup_insert_ne (hne look), hnone]
  | destroy a mm look spaces _ _ _ _ => rw [spaces, AList.lookup_erase_ne (hne look), hnone]
  | write _ _ _ _ _ _ _ _ _ _ spaces _ _ => rw [spaces, hnone]

theorem Effect.fresh_sep {ok : Prop} {w w' : World} {a : Nat} (h : Effect ok w w' (some a))
    (hw : WorldOk w) {s t : Slot} {e f : PtEntry} (he : w'.entry a s = some e)
    (hf : w'.entry a t = some f) (hge : w.host.nextData ≤ e.data) (hov : Overlap e f) : s = t := by
  have hlt := h.live hw he
  cases h with
  | update _ mm mm₁ look spaces _ ext _ _ =>
    have hlook' : w'.spaces.lookup a = some mm₁ := by rw [spaces, AList.lookup_insert]
    rw [entry_of_lookup hlook'] at he hf
    exact ext.fresh_sep s t e f he hf hge hov
  | quiet _ _ _ host => exact absurd hlt (by rw [host.nextData]; omega)
  | fork _ _ _ _ _ _ _ copy => exact absurd hlt (by rw [copy.next_eq]; omega)
  | destroy _ _ _ _ _ datas _ _ => exact absurd hlt (by rw [datas]; omega)
  | write _ _ _ _ _ _ _ _ _ _ _ _ host =>
    rw [host] at hlt
    exact absurd hlt (Nat.not_lt.mpr hge)

theorem Effect.slots {ok : Prop} {w w' : World} {x : Option Nat} (h : Effect ok w w' x)
    (hw : WorldOk w) {a b : Nat} {s t : Slot} {e f : PtEntry} (he : w'.entry a s = some e)
    (hf : w'.entry b t = some f) (hov : Overlap e f) : s = t := by
  have hdata : e.data = f.data := hov.1
  rcases h.entry_back he with ⟨a₀, e₀, he₀, hke, -⟩ | ⟨rfl, hge, -⟩
  · rcases h.entry_back hf with ⟨b₀, f₀, hf₀, hkf, -⟩ | ⟨-, hge, -⟩
    · exact hw.slots a₀ b₀ s t e₀ f₀ he₀ hf₀ (hov.of_kept hke hkf)
    have := hw.live a₀ s e₀ he₀
    rw [hke.1] at hdata
    omega
  rcases h.entry_back hf with ⟨b₀, f₀, hf₀, hkf, -⟩ | ⟨hb, -, -⟩
  · have := hw.live b₀ t f₀ hf₀
    rw [hkf.1] at hdata
    omega
  · cases hb
    exact h.fresh_sep hw he hf hge hov

theorem Effect.grantOk {ok : Prop} {w w' : World} {x : Option Nat} (h : Effect ok w w' x)
    {t : Thread} (hg : GrantOk w t) : GrantOk w' t := by
  cases t with
  | idle => trivial
  | madvise _ _ _ _ _ => trivial
  | access a c gen =>
    intro ptr hphase htype
    obtain ⟨hlt, hgrant⟩ := hg ptr hphase htype
    refine ⟨lt_of_lt_of_le hlt h.next_le.1, fun mm' hlook' => ?_⟩
    obtain ⟨mm, hlook, hcoh⟩ := h.lookup_back hlt hlook'
    obtain ⟨hle, hpoint⟩ := hgrant mm hlook
    have hle' := hcoh.1
    refine ⟨by omega, fun heq => ?_⟩
    obtain ⟨e, he, hptr⟩ := hpoint (by omega)
    obtain ⟨e', he', hd, ho⟩ := hcoh.2 (by omega) _ e he
    exact ⟨e', he', by rw [hd, ho]; exact hptr⟩

theorem worldOk_exec {w : World} (hw : WorldOk w) (op : Op) : WorldOk (w.exec op) := by
  have h := effect_exec hw op
  have hfresh : ∀ a, (w.exec op).nextSpace ≤ a → (w.exec op).spaces.lookup a = none :=
    fun a ha => h.fresh hw ha
  refine ⟨fun _ _ _ he => h.live hw he, hfresh,
    fun _ _ _ _ _ _ he hf hov => h.slots hw he hf hov, fun t ht => ?_, fun t ht => ?_⟩
  · rcases threadsFrom_exec hw op t ht with hold | ⟨hok, -⟩
    · exact hw.threads t hold
    · exact hok
  rcases threadsFrom_exec hw op t ht with hold | ⟨-, hnew⟩
  · exact h.grantOk (hw.grants t hold)
  cases t with
  | idle => trivial
  | madvise _ _ _ _ _ => trivial
  | access a c gen =>
    intro ptr hphase htype
    obtain ⟨mm, e, hlook, hgen, he, -, hptr⟩ := hnew a c gen ptr rfl hphase htype
    refine ⟨?_, fun mm' hlook' => ?_⟩
    · by_contra hge
      rw [hfresh a (by omega)] at hlook
      cases hlook
    rw [hlook] at hlook'
    cases hlook'
    exact ⟨hgen.le, fun _ => ⟨e, he, hptr⟩⟩

def World.withScript (w : World) (script : List Bool) : World :=
  { w with host := { w.host with script := script } }

theorem step_eq (w : World) (l : Label) : step w l = (w.withScript l.script).exec l.op := rfl

theorem worldOk_withScript {w : World} (hw : WorldOk w) (script : List Bool) :
    WorldOk (w.withScript script) :=
  ⟨hw.live, hw.fresh, hw.slots, hw.threads, hw.grants⟩

theorem worldOk_step (w : World) (l : Label) (hw : WorldOk w) : WorldOk (step w l) :=
  worldOk_exec (worldOk_withScript hw l.script) l.op

theorem worldOk_run {w : World} (hw : WorldOk w) (ls : List Label) : WorldOk (run step w ls) :=
  run_invariant_all worldOk_step hw

/-! ## Whole runs -/

/-- **A byte of an object changes** only in a step of an address space that has the byte mapped at that
moment, in a page that it may write or for which a thread of its holds a current pointer. -/
theorem byte_changes_run (ls : List Label) (l : Label) (d o : Nat) :
    (run step World.init ls).host.nextData ≤ d ∨
      (step (run step World.init ls) l).host.bytes d o = (run step World.init ls).host.bytes d o ∨
      ∃ a mm p e, l.op.actor (run step World.init ls) = some a ∧
        (run step World.init ls).spaces.lookup a = some mm ∧ memPt mm.mem p = some e ∧
        e.data = d ∧ e.offset ≤ o ∧ o < e.offset + pageSize ∧
        Authorised (run step World.init ls) a (slot p) := by
  have hw := worldOk_run worldOk_init ls
  generalize run step World.init ls = w at hw
  refine or_iff_not_imp_left.mpr fun hd => or_iff_not_imp_left.mpr fun hne => ?_
  have hd : d < w.host.nextData := Nat.lt_of_not_le hd
  have heff := effect_exec (worldOk_withScript hw l.script) l.op
  have hactor : l.op.actor (w.withScript l.script) = l.op.actor w := by cases l.op <;> rfl
  rw [hactor] at heff
  generalize l.op.actor w = x at heff
  rw [step_eq] at hne
  cases heff with
  | quiet _ _ _ host => exact absurd (congrFun (congrFun host.bytes d) o) hne
  | update _ _ _ _ _ _ ext => exact absurd (congrFun (ext.bytes_old d hd) o) hne
  | born _ _ host => exact absurd (congrFun (congrFun host.bytes d) o) hne
  | fork _ _ _ _ _ _ _ copy => exact absurd (congrFun (congrFun copy.bytes_eq d) o) hne
  | destroy _ _ _ _ _ _ bytes => exact absurd (congrFun (congrFun bytes d) o) hne
  | write a p k mm e bytes look entry authorised inside _ _ host =>
    refine ⟨a, mm, p, e, rfl, look, entry, ?_⟩
    rw [host, Host.write] at hne
    dsimp only at hne
    split at hne
    case isFalse => exact absurd rfl hne
    case isTrue hin =>
      obtain ⟨rfl, hle⟩ := hin
      -- behind the last byte of the store the old one stays
      have hlt : o - (e.offset + k) < bytes.length := by
        by_contra hge
        rw [List.getElem?_eq_none (by omega)] at hne
        exact hne rfl
      exact ⟨rfl, by omega, by omega, authorised⟩

end IosLinuxkit.Kernel
