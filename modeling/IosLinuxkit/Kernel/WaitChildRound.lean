import IosLinuxkit.Kernel.WaitChild

/-!
# A round of a wait

* **`reapIfNeeded_iff`** — when a process is reaped, or its stop or trap reported.
* **`scanChildren_spec`**, `scanThreads_eq` — the search, by what it finds.
* **`round_search`**, **`round_pid`** — when a round does what it ought to.
-/

namespace IosLinuxkit.Wait

variable {st st' : State} {c g t p : Nat} {C T P : Task} {G F : Tgroup} {call : Call} {gotSignal : Bool} {o : Options}
  {op : Op} {sel : Sel} {cs threads : List Nat} {status : Nat} {id : Int}

/-! ## Reaping -/

theorem notifyIfStopped_isSome (st : State) (g : Nat) (G : Tgroup) :
    (st.notifyIfStopped g G).isSome = true ↔ G.stopped = true ∧ G.groupExitCode ≠ 0 := by
  unfold State.notifyIfStopped
  split
  case isTrue h =>
    cases h with
    | inl hrunning => simp [hrunning]
    | inr hzero => simp [hzero]
  case isFalse h => simpa using h

theorem reapIfZombie_isSome (st : State) (c : Nat) (T : Task) (G : Tgroup) (nowait : Bool) :
    (st.reapIfZombie c T G nowait).isSome = true ↔ T.zombie = true := by
  unfold State.reapIfZombie
  split
  case isTrue h => simp [h]
  case isFalse h =>
    rw [Bool.not_eq_false] at h
    dsimp only
    split
    · simp [h]
    · simp [h]

theorem notifyIfTraced_isSome (st : State) (c : Nat) (T : Task) :
    (st.notifyIfTraced c T).isSome = true ↔ T.ptraceStopped = true ∧ T.ptraceSignal ≠ 0 := by
  unfold State.notifyIfTraced
  split
  case isTrue h => simp [h]
  case isFalse h => simpa using h

theorem Process.reapable_iff (h : Process st c T G) (o : Options) : Reapable st o c ↔
      (o.untraced = true ∧ G.stopped = true ∧ G.groupExitCode ≠ 0) ∨ (o.exited = true ∧ T.zombie = true) ∨
        (T.ptraceStopped = true ∧ T.ptraceSignal ≠ 0) := by
  constructor
  · rintro ⟨T', G', ⟨htask, hgroup, -⟩, hwhy⟩
    cases h.1.symm.trans htask
    cases h.2.1.symm.trans hgroup
    exact hwhy
  · exact fun hwhy => ⟨T, G, h, hwhy⟩

theorem reapIfNeeded_iff (h : Process st c T G) (o : Options) :
    (st.reapIfNeeded c o).isSome = true ↔ Reapable st o c := by
  rw [h.reapable_iff]
  simp only [State.reapIfNeeded, h.1, h.2.1]
  have hstopped : (if o.untraced then st.notifyIfStopped T.group G else none).isSome = true ↔
      o.untraced = true ∧ G.stopped = true ∧ G.groupExitCode ≠ 0 := by
    rw [← notifyIfStopped_isSome st T.group G]
    cases o.untraced with
    | false => simp
    | true => simp
  have hzombie : (if o.exited then st.reapIfZombie c T G o.nowait else none).isSome = true ↔
      o.exited = true ∧ T.zombie = true := by
    rw [← reapIfZombie_isSome st c T G o.nowait]
    cases o.exited with
    | false => simp
    | true => simp
  rw [← hstopped, ← hzombie, ← notifyIfTraced_isSome st c T]
  -- the first of the three that succeeds
  cases (if o.untraced then st.notifyIfStopped T.group G else none) with
  | some r => simp
  | none =>
    cases (if o.exited then st.reapIfZombie c T G o.nowait else none) with
    | some r => simp
    | none => simp

/-! ## The search -/

theorem scanChildren_spec (st : State) (call : Call) (cs : List Nat) :
    ((st.scanChildren call cs).1 = true ↔ ∃ c ∈ cs, st.considers call.sel c = true) ∧
      match (st.scanChildren call cs).2 with
      | none => ∀ c ∈ cs, st.considers call.sel c = true → st.reapIfNeeded c call.options = none
      | some (c, r) => c ∈ cs ∧ st.considers call.sel c = true ∧ st.reapIfNeeded c call.options = some r := by
  induction cs with
  | nil => exact ⟨⟨fun h => (Bool.false_ne_true h).elim, fun ⟨c, hc, _⟩ => absurd hc List.not_mem_nil⟩,
      fun c hc => absurd hc List.not_mem_nil⟩
  | cons c cs ih =>
    rw [State.scanChildren]
    split
    case isTrue hconsidered =>
      have hex : ∃ x ∈ c :: cs, st.considers call.sel x = true := ⟨c, List.mem_cons_self, hconsidered⟩
      split
      case h_1 r hreap => exact ⟨⟨fun _ => hex, fun _ => rfl⟩, List.mem_cons_self, hconsidered, hreap⟩
      case h_2 hnone =>
        refine ⟨⟨fun _ => hex, fun _ => rfl⟩, ?_⟩
        dsimp only
        revert ih
        cases (st.scanChildren call cs).2 with
        | none => exact fun ih => List.forall_mem_cons.mpr ⟨fun _ => hnone, ih.2⟩
        | some r => exact fun ih => ⟨List.mem_cons_of_mem c ih.2.1, ih.2.2⟩
    case isFalse hskip =>
      refine ⟨ih.1.trans ?_, ?_⟩
      · simp [hskip]
      · revert ih
        cases (st.scanChildren call cs).2 with
        | none => exact fun ih => List.forall_mem_cons.mpr ⟨fun hc => absurd hc hskip, ih.2⟩
        | some r => exact fun ih => ⟨List.mem_cons_of_mem c ih.2.1, ih.2.2⟩

theorem scanThreads_eq (st : State) (call : Call) (cs : List Nat) (hne : threads ≠ []) :
    (st.scanThreads call cs threads).2 = (st.scanChildren call cs).2 ∧
      ((st.scanThreads call cs threads).2 = none →
        (st.scanThreads call cs threads).1 = (st.scanChildren call cs).1) := by
  induction threads with
  | nil => exact absurd rfl hne
  | cons p threads ih =>
    rw [State.scanThreads]
    split
    case h_1 found r hscan => rw [hscan]; exact ⟨rfl, fun hc => by cases hc⟩
    case h_2 found hscan =>
      dsimp only
      rw [hscan]
      cases threads with
      | nil => exact ⟨rfl, fun _ => Bool.or_false found⟩
      | cons q threads =>
        obtain ⟨hsnd, hfst⟩ := ih (List.cons_ne_nil q threads)
        rw [hscan] at hsnd hfst
        refine ⟨hsnd, fun hnone => ?_⟩
        rw [hfst hnone, Bool.or_self]

/-! ## A round -/

theorem own_iff (hc : st.task c = some C) : Own st g c ↔ st.parentGroup C = some g := by
  unfold Own State.parentGroup
  constructor
  · rintro ⟨C', p, P, hc', hparent, hp, hgroup⟩
    cases hc.symm.trans hc'
    rw [hparent, Option.bind_some, hp, Option.map_some, hgroup]
  intro hparent
  obtain ⟨P, hp, hgroup⟩ := Option.map_eq_some_iff.mp hparent
  obtain ⟨p, hparent, hp⟩ := Option.bind_eq_some_iff.mp hp
  exact ⟨C, p, P, hc, hparent, hp, hgroup⟩

theorem considers_iff (hsel : ∀ id, sel ≠ .pid id) :
    st.considers sel c = true ↔ ∃ T G, Process st c T G ∧ sel.Holds c G := by
  unfold State.considers Process
  cases hc : st.task c with
  | none => simp
  | some C =>
    dsimp only
    cases hgroup : st.group C.group with
    | none => simp [hgroup]
    | some F =>
      cases sel with
      | pid id => exact absurd rfl (hsel id)
      | all => simp [hgroup, Sel.Holds]
      | pgid id => simp [hgroup, Sel.Holds]

theorem mine_iff (ht : st.task t = some T) (hsel : ∀ id, sel ≠ .pid id)
    (hchildren : ∀ c, c ∈ T.children ↔ ∃ C, st.task c = some C ∧ C.parent = some t) :
    (c ∈ T.children ∧ st.considers sel c = true) ↔ Matches st T.group sel c ∧ Mine st t c := by
  rw [hchildren, considers_iff hsel]
  constructor
  · rintro ⟨⟨C, hc, hparent⟩, hprocess⟩
    exact ⟨⟨⟨C, t, T, hc, hparent, ht, rfl⟩, hprocess⟩, C, hc, hparent⟩
  · rintro ⟨⟨-, hprocess⟩, hmine⟩
    exact ⟨hmine, hprocess⟩

theorem Matches.process (h : Matches st g sel c) : ∃ T G, Process st c T G := by
  obtain ⟨-, T, G, hprocess, -⟩ := h
  exact ⟨T, G, hprocess⟩

theorem Matches.reapable_iff (h : Matches st g sel c) (o : Options) :
    Reapable st o c ↔ ∃ status st', st.reapIfNeeded c o = some (status, st') := by
  obtain ⟨T, G, hprocess⟩ := h.process
  rw [← reapIfNeeded_iff hprocess, Option.isSome_iff_exists]
  exact ⟨fun ⟨r, hr⟩ => ⟨r.1, r.2, hr⟩, fun ⟨status, st', hr⟩ => ⟨_, hr⟩⟩

theorem idle_ne (call : Call) (gotSignal : Bool) :
    State.idle call gotSignal ≠ .fails eCHILD ∧ ∀ p uid status, State.idle call gotSignal ≠ .found p uid status := by
  unfold State.idle
  split
  · exact ⟨by decide, fun p uid status hc => by cases hc⟩
  split
  · exact ⟨by decide, fun p uid status hc => by cases hc⟩
  · exact ⟨by decide, fun p uid status hc => by cases hc⟩

inductive Searched (st : State) (call : Call) (gotSignal : Bool) (children : List Nat) : Out × State → Prop
  | found {c : Nat} {C : Task} {status : Nat} {st' : State} (hc : c ∈ children)
      (hconsidered : st.considers call.sel c = true) (htask : st.task c = some C)
      (hreap : st.reapIfNeeded c call.options = some (status, st')) :
      Searched st call gotSignal children (.found c C.uid status, st')
  | none (hnone : ∀ c ∈ children, st.considers call.sel c = false) :
      Searched st call gotSignal children (.fails eCHILD, st)
  | idle (hsome : ∃ c ∈ children, st.considers call.sel c = true)
      (hnot : ∀ c ∈ children, st.considers call.sel c = true → st.reapIfNeeded c call.options = none) :
      Searched st call gotSignal children (State.idle call gotSignal, st)

theorem task_of_reap {r : Nat × State} (h : st.reapIfNeeded c o = some r) : ∃ C, st.task c = some C := by
  cases hc : st.task c with
  | none =>
    rw [State.reapIfNeeded, hc] at h
    cases h
  | some C => exact ⟨C, rfl⟩

theorem waitRound_searched (hsel : ∀ id, call.sel ≠ .pid id) (hthreads : G.threads ≠ []) (gotSignal : Bool) :
    Searched st call gotSignal T.children (st.waitRound T G call gotSignal) := by
  obtain ⟨hsnd, hfst⟩ := scanThreads_eq st call T.children hthreads
  obtain ⟨hsome, hspec⟩ := scanChildren_spec st call T.children
  rw [← hsnd] at hspec
  unfold State.waitRound
  split
  case h_1 id heq => exact absurd heq (hsel id)
  case h_2 =>
    split
    case h_1 found c status st' hscan =>
      rw [hscan] at hspec
      obtain ⟨hc, hconsidered, hreap⟩ := hspec
      obtain ⟨C, htask⟩ := task_of_reap hreap
      rw [show st.uidOf c = C.uid from by rw [State.uidOf, htask]; rfl]
      exact .found hc hconsidered htask hreap
    case h_2 hscan =>
      rw [hscan] at hfst
      have hnone := hfst rfl
      refine .none fun c hc => Bool.eq_false_iff.mpr fun hconsidered => ?_
      rw [← hnone] at hsome
      exact absurd (hsome.mpr ⟨c, hc, hconsidered⟩) Bool.false_ne_true
    case h_3 hscan =>
      rw [hscan] at hfst hspec
      exact .idle (hsome.mp (hfst rfl).symm) hspec

theorem round_search (ht : st.task t = some T) (hsel : ∀ id, call.sel ≠ .pid id) (hthreads : G.threads ≠ [])
    (hchildren : ∀ c, c ∈ T.children ↔ ∃ C, st.task c = some C ∧ C.parent = some t) :
    RoundOk st T.group call gotSignal (st.waitRound T G call gotSignal) ↔
      ((∃ c, Matches st T.group call.sel c) → ∃ c, Matches st T.group call.sel c ∧ Mine st t c) ∧
        ((∃ c, Matches st T.group call.sel c ∧ Reapable st call.options c) →
          ∃ c, Matches st T.group call.sel c ∧ Mine st t c ∧ Reapable st call.options c) := by
  have hmine (c : Nat) : (c ∈ T.children ∧ st.considers call.sel c = true) ↔
      Matches st T.group call.sel c ∧ Mine st t c := mine_iff ht hsel hchildren
  obtain ⟨hidle, hidle'⟩ := idle_ne call gotSignal
  have hsearched : Searched st call gotSignal T.children (st.waitRound T G call gotSignal) :=
    waitRound_searched hsel hthreads gotSignal
  generalize st.waitRound T G call gotSignal = r at hsearched ⊢
  cases hsearched with
  | @found c C status st' hc hconsidered htask hreap =>
    obtain ⟨hmatch, hown⟩ := (hmine c).mp ⟨hc, hconsidered⟩
    have hreapable := (hmatch.reapable_iff call.options).mpr ⟨status, st', hreap⟩
    refine ⟨fun _ => ⟨fun _ => ⟨c, hmatch, hown⟩, fun _ => ⟨c, hmatch, hown, hreapable⟩⟩, fun _ => ⟨?_, ?_, ?_⟩⟩
    · exact fun hnone => absurd hmatch (hnone c)
    · exact fun _ => ⟨c, C, status, st', hmatch, htask, hreap, rfl⟩
    · exact fun _ hnot => absurd hreapable (hnot c hmatch)
  | none hnone =>
    have hno (c : Nat) (hmatch : Matches st T.group call.sel c) : ¬Mine st t c := by
      intro hown
      obtain ⟨hc, hconsidered⟩ := (hmine c).mpr ⟨hmatch, hown⟩
      rw [hnone c hc] at hconsidered
      cases hconsidered
    constructor
    · intro hok
      have hnomatch : ¬∃ c, Matches st T.group call.sel c := by
        intro hsome
        by_cases hready : ∃ c, Matches st T.group call.sel c ∧ Reapable st call.options c
        · obtain ⟨c, C, status, st', -, -, -, heq⟩ := hok.ready hready
          cases heq
        · have heq := hok.idle hsome fun c hmatch hreapable => hready ⟨c, hmatch, hreapable⟩
          exact hidle (congrArg Prod.fst heq).symm
      exact ⟨fun hsome => absurd hsome hnomatch, fun ⟨c, hmatch, _⟩ => absurd ⟨c, hmatch⟩ hnomatch⟩
    rintro ⟨hfirst, -⟩
    have hnomatch (c : Nat) : ¬Matches st T.group call.sel c := by
      intro hmatch
      obtain ⟨d, hmatch', hown⟩ := hfirst ⟨c, hmatch⟩
      exact hno d hmatch' hown
    exact ⟨fun _ => rfl, fun ⟨c, hmatch, _⟩ => absurd hmatch (hnomatch c), fun ⟨c, hmatch⟩ => absurd hmatch (hnomatch c)⟩
  | idle hsome hnot =>
    obtain ⟨c, hc, hconsidered⟩ := hsome
    obtain ⟨hmatch, hown⟩ := (hmine c).mp ⟨hc, hconsidered⟩
    constructor
    · intro hok
      refine ⟨fun _ => ⟨c, hmatch, hown⟩, fun hready => ?_⟩
      obtain ⟨d, C, status, st', -, -, -, heq⟩ := hok.ready hready
      exact absurd (congrArg Prod.fst heq) (hidle' _ _ _)
    rintro ⟨-, hsecond⟩
    refine ⟨fun hnone => absurd hmatch (hnone c), fun hready => ?_, fun _ _ => rfl⟩
    obtain ⟨d, hmatch', hown', hreapable⟩ := hsecond hready
    obtain ⟨hd, hconsidered'⟩ := (hmine d).mpr ⟨hmatch', hown'⟩
    obtain ⟨status, st', hreap⟩ := (hmatch'.reapable_iff call.options).mp hreapable
    rw [hnot d hd hconsidered'] at hreap
    cases hreap

theorem pidGet_cases (hslots : ∀ p P, st.task p = some P → p ≤ maxPid) (id : Int) :
    (st.pidGetTaskZombie id = .outside ∧ id = maxPid + 1) ∨
    (st.pidGetTaskZombie id = .none ∧ id ≠ maxPid + 1 ∧ ∀ c : Nat, (c : Int) = id → st.task c = none) ∨
    ∃ (c : Nat) (C : Task), st.pidGetTaskZombie id = .task c ∧ id ≠ maxPid + 1 ∧ (c : Int) = id ∧ st.task c = some C := by
  unfold State.pidGetTaskZombie
  split
  case isTrue hout =>
    refine Or.inr (Or.inl ⟨rfl, by omega, fun c hc => ?_⟩)
    cases htask : st.task c with
    | none => rfl
    | some C =>
      have := hslots c C htask
      omega
  case isFalse hin =>
    split
    case isTrue heq => exact Or.inl ⟨rfl, heq⟩
    case isFalse hne =>
      have hcast : ((id.toNat : Nat) : Int) = id := by omega
      split
      case isTrue hsome =>
        obtain ⟨C, hC⟩ := Option.isSome_iff_exists.mp hsome
        exact Or.inr (Or.inr ⟨id.toNat, C, rfl, hne, hcast, hC⟩)
      case isFalse hnone =>
        refine Or.inr (Or.inl ⟨rfl, hne, fun c hc => ?_⟩)
        rw [show c = id.toNat from by omega]
        exact Option.not_isSome_iff_eq_none.mp hnone

theorem round_pid (hsel : call.sel = .pid id) (hslots : ∀ p P, st.task p = some P → p ≤ maxPid) :
    RoundOk st T.group call gotSignal (st.waitRound T G call gotSignal) ↔
      id ≠ maxPid + 1 ∧ ∀ (c : Nat) C F, (c : Int) = id → Own st T.group c → st.task c = some C →
        st.group C.group = some F → F.leader = c := by
  obtain ⟨hidle, -⟩ := idle_ne call gotSignal
  -- a match is the task in the slot
  have hmatch {c : Nat} (hc : Matches st T.group call.sel c) : (c : Int) = id := by
    obtain ⟨-, C, F, -, hholds⟩ := hc
    rw [hsel] at hholds
    exact hholds
  have hnomatch (hnone : ∀ c, ¬Matches st T.group call.sel c) :
      RoundOk st T.group call gotSignal (.fails eCHILD, st) :=
    ⟨fun _ => rfl, fun ⟨c, hc, _⟩ => absurd hc (hnone c), fun ⟨c, hc⟩ => absurd hc (hnone c)⟩
  unfold State.waitRound
  rw [hsel]
  dsimp only
  obtain ⟨hget, hid⟩ | ⟨hget, hid, htask⟩ | ⟨c, C, hget, hid, hc, htask⟩ := pidGet_cases hslots id
  · rw [hget]
    refine ⟨fun hok => ?_, fun hfine => absurd hid hfine.1⟩
    have heq := hok.none fun c hm => by
      have heq := hmatch hm
      obtain ⟨⟨C, -, -, hC, -⟩, -⟩ := hm
      have hle := hslots c C hC
      omega
    cases heq
  · rw [hget]
    refine ⟨fun _ => ⟨hid, fun c C F hc _ hC => ?_⟩, fun _ => hnomatch fun c hm => ?_⟩
    · rw [htask c hc] at hC
      cases hC
    have heq := hmatch hm
    obtain ⟨⟨C, -, -, hC, -⟩, -⟩ := hm
    rw [htask c heq] at hC
    cases hC
  rw [hget]
  dsimp only
  rw [htask]
  dsimp only
  have hthe {d : Nat} (hd : (d : Int) = id) : d = c := by omega
  by_cases hown : st.parentGroup C = some T.group
  case neg =>
    rw [if_pos hown]
    have hno : ¬Own st T.group c := fun h => hown ((own_iff htask).mp h)
    refine ⟨fun _ => ⟨hid, fun d C' F hd hown' => ?_⟩, fun _ => hnomatch fun d hm => ?_⟩
    · exact absurd (hthe hd ▸ hown') hno
    · exact absurd (hthe (hmatch hm) ▸ hm.1) hno
  case pos =>
    rw [if_neg (not_not.mpr hown)]
    have hown := (own_iff htask).mpr hown
    cases hgroup : st.group C.group with
    | none =>
      refine ⟨fun _ => ⟨hid, fun d C' F hd _ hC' hF => ?_⟩, fun _ => hnomatch fun d hm => ?_⟩
      · rw [hthe hd] at hC'
        cases htask.symm.trans hC'
        rw [hgroup] at hF
        cases hF
      have hd := hthe (hmatch hm)
      obtain ⟨C', F, hprocess⟩ := hm.process
      rw [hd] at hprocess
      cases htask.symm.trans hprocess.1
      cases hgroup.symm.trans hprocess.2.1
    | some F =>
      dsimp only
      by_cases hleader : F.leader = c
      case neg =>
        -- the task is a thread, and its leader is looked at in its place
        have hno (d : Nat) : ¬Matches st T.group call.sel d := by
          intro hm
          have hd := hthe (hmatch hm)
          obtain ⟨C', F', hprocess⟩ := hm.process
          rw [hd] at hprocess
          cases htask.symm.trans hprocess.1
          cases hgroup.symm.trans hprocess.2.1
          exact hleader hprocess.2.2
        constructor
        · intro hok
          have heq := hok.none hno
          cases hreap : st.reapIfNeeded F.leader call.options with
          | none =>
            rw [hreap] at heq
            exact absurd (congrArg Prod.fst heq) hidle
          | some r =>
            rw [hreap] at heq
            cases congrArg Prod.fst heq
        · exact fun hfine => absurd (hfine.2 c C F hc hown htask hgroup) hleader
      case pos =>
        have hprocess : Process st c C F := ⟨htask, hgroup, hleader⟩
        have hm : Matches st T.group call.sel c := ⟨hown, C, F, hprocess, by rw [hsel]; exact hc⟩
        rw [hleader]
        refine ⟨fun _ => ⟨hid, fun d C' F' hd _ hC' hF' => ?_⟩, fun _ => ?_⟩
        · rw [hthe hd] at hC' ⊢
          cases htask.symm.trans hC'
          cases hgroup.symm.trans hF'
          exact hleader
        cases hreap : st.reapIfNeeded c call.options with
        | none =>
          refine ⟨fun hnone => absurd hm (hnone c), fun ⟨d, hm', hreapable⟩ => ?_, fun _ _ => rfl⟩
          rw [hthe (hmatch hm')] at hreapable
          obtain ⟨status, st', hsome⟩ := (hm.reapable_iff _).mp hreapable
          rw [hreap] at hsome
          cases hsome
        | some r =>
          obtain ⟨status, st'⟩ := r
          have hreapable := (hm.reapable_iff _).mpr ⟨status, st', hreap⟩
          have huid : st.uidOf c = C.uid := by
            rw [State.uidOf, htask]
            rfl
          refine ⟨fun hnone => absurd hm (hnone c), fun _ => ⟨c, C, status, st', hm, htask, hreap, ?_⟩,
            fun _ hnot => absurd hreapable (hnot c hm)⟩
          rw [huid]

end IosLinuxkit.Wait
