import Mathlib.Data.List.Basic

/-!
# Forwarding the output of a native command

`pipe_forward_thread` of `kernel/native_offload.c`: what it reads from the pipe goes to the guest descriptor or to a host
descriptor, and a `\r` that has no `\n` behind it in the buffer becomes a `\n`.

* **`translated_iff`** — when that is the translation of the whole stream.
-/

namespace IosLinuxkit.PipeForward

def cr : UInt8 := 13
def lf : UInt8 := 10

def replace : List UInt8 → List UInt8
  | [] => []
  | b :: buf => (if b = cr ∧ buf.head? ≠ some lf then lf else b) :: replace buf

/-- What a write returns: a count, or `EINTR`. A sink that fails for good is left out. -/
inductive Write
  | accepted (k : Nat)
  | interrupted
  deriving DecidableEq

/-- The loops that write, which differ in what they do about `EINTR`. `none` is no run of the loop: there are too few
results or too many, or one is above the length. -/
def writeBuf (retry : Bool) : List UInt8 → List Write → Option (List UInt8)
  | buf, [] => if buf = [] then some [] else none
  | buf, .interrupted :: ws =>
    if buf = [] then none
    else if retry then writeBuf retry buf ws
    else if ws = [] then some [] else none
  | buf, .accepted k :: ws =>
    if buf = [] ∨ buf.length < k then none
    else if k = 0 then (if ws = [] then some [] else none)
    else (writeBuf retry (buf.drop k) ws).map (buf.take k ++ ·)

def writeGuest : List UInt8 → List Write → Option (List UInt8) := writeBuf false

def writeHost : List UInt8 → List Write → Option (List UInt8) := writeBuf true

/-- A read from the pipe, and the results of the writes that follow it. -/
structure Read where
  bytes : List UInt8
  writes : List Write
  pos : bytes ≠ []
  le : bytes.length ≤ 4096

def pipeForward (host : Bool) : List Read → Option (List UInt8)
  | [] => some []
  | r :: reads => do
    let out ← (if host then writeHost else writeGuest) (replace r.bytes) r.writes
    let rest ← pipeForward host reads
    some (out ++ rest)

/-! ## What ought to hold -/

def stream (reads : List Read) : List UInt8 := reads.flatMap Read.bytes

structure Translated (s out : List UInt8) : Prop where
  length : out.length = s.length
  bytes : ∀ i, out[i]? = s[i]?.map fun b => if b = cr ∧ s[i + 1]? ≠ some lf then lf else b

/-! ## When it does -/

def Unsplit : List Read → Prop
  | [] => True
  | r :: reads => ¬ (r.bytes.getLast? = some cr ∧ (stream reads).head? = some lf) ∧ Unsplit reads

def Accepts (host : Bool) : Write → Prop
  | .accepted k => 0 < k
  | .interrupted => host = true

/-! ## The translation -/

section Translation

variable {s out a b : List UInt8}

@[simp] theorem length_replace (s : List UInt8) : (replace s).length = s.length := by
  induction s with
  | nil => rfl
  | cons b s ih => simp [replace, ih]

theorem translated_replace (s : List UInt8) : Translated s (replace s) := by
  refine ⟨length_replace s, ?_⟩
  induction s with
  | nil => simp [replace]
  | cons b s ih =>
    intro i
    cases i with
    | zero => simp [replace, List.head?_eq_getElem?]
    | succ i => simpa [replace] using ih i

theorem translated_eq : Translated s out ↔ out = replace s := by
  constructor
  · intro h
    apply List.ext_getElem?
    intro i
    rw [h.bytes, (translated_replace s).bytes]
  · rintro rfl
    exact translated_replace s

/-- In front of more bytes only the last byte of a buffer can come out otherwise. -/
theorem replace_append (a b : List UInt8) : ∃ p, replace (a ++ b) = p ++ replace b ∧ p.length = a.length ∧
    (p = replace a ↔ ¬ (a.getLast? = some cr ∧ b.head? = some lf)) := by
  induction a with
  | nil => exact ⟨[], by simp [replace]⟩
  | cons x a ih =>
    obtain ⟨p, hp, hlen, hiff⟩ := ih
    refine ⟨(if x = cr ∧ (a ++ b).head? ≠ some lf then lf else x) :: p, by simp [replace, hp], by simp [hlen], ?_⟩
    cases a with
    | nil =>
      obtain rfl := List.length_eq_zero_iff.mp hlen
      have hne : lf ≠ cr := by decide
      by_cases hx : x = cr
      · by_cases hb : b.head? = some lf <;> simp [replace, hx, hb, hne.symm]
      · simp [replace, hx]
    | cons y a => simpa [replace] using hiff

end Translation

/-! ## The writes -/

theorem writeBuf_spec {retry : Bool} {buf out : List UInt8} {ws : List Write} (h : writeBuf retry buf ws = some out) :
    out.length ≤ buf.length ∧ ((∀ w ∈ ws, Accepts retry w) → out = buf) ∧
      (¬ (∀ w ∈ ws, Accepts retry w) → out.length < buf.length) := by
  induction ws generalizing buf out with
  | nil =>
    unfold writeBuf at h
    split at h
    · cases h
      simp_all
    · cases h
  | cons w ws ih =>
    simp only [List.forall_mem_cons]
    cases w with
    | interrupted =>
      unfold writeBuf at h
      split at h
      · cases h
      case isFalse hne =>
      split at h
      case isTrue hretry => simpa [Accepts, hretry] using ih h
      case isFalse hretry =>
        split at h
        · cases h
          simp [Accepts, hretry, List.length_pos_iff, hne]
        · cases h
    | accepted k =>
      unfold writeBuf at h
      split at h
      · cases h
      case isFalse hne =>
      obtain ⟨hne, -⟩ := not_or.mp hne
      split at h
      case isTrue hk =>
        split at h
        · cases h
          simp [Accepts, hk, List.length_pos_iff, hne]
        · cases h
      case isFalse hk =>
        obtain ⟨rest, hrest, rfl⟩ := Option.map_eq_some_iff.mp h
        obtain ⟨hlen, hall, hsome⟩ := ih hrest
        rw [List.length_drop] at hlen hsome
        rw [List.length_append, List.length_take]
        refine ⟨by omega, fun hok => ?_, fun hno => ?_⟩
        · rw [hall hok.2, List.take_append_drop]
        · have := hsome fun hok => hno ⟨Nat.pos_of_ne_zero hk, hok⟩
          omega

/-! ## The thread -/

theorem pipeForward_cons {host : Bool} {r : Read} {reads : List Read} {out : List UInt8}
    (h : pipeForward host (r :: reads) = some out) : ∃ o rest, writeBuf host (replace r.bytes) r.writes = some o ∧
      pipeForward host reads = some rest ∧ out = o ++ rest := by
  have hloop : (if host then writeHost else writeGuest) = writeBuf host := by cases host <;> rfl
  rw [pipeForward, hloop] at h
  obtain ⟨o, ho, h⟩ := Option.bind_eq_some_iff.mp h
  obtain ⟨rest, hrest, h⟩ := Option.bind_eq_some_iff.mp h
  exact ⟨o, rest, ho, hrest, (Option.some.inj h).symm⟩

theorem length_pipeForward {host : Bool} {reads : List Read} {out : List UInt8} (h : pipeForward host reads = some out) :
    out.length ≤ (stream reads).length := by
  induction reads generalizing out with
  | nil =>
    cases h
    exact Nat.le_refl _
  | cons r reads ih =>
    obtain ⟨o, rest, ho, hrest, rfl⟩ := pipeForward_cons h
    have hlen := (writeBuf_spec ho).1
    have := ih hrest
    rw [length_replace] at hlen
    rw [stream, List.flatMap_cons, List.length_append, List.length_append]
    exact Nat.add_le_add hlen this

/-- **The forwarded bytes** are the translated stream if and only if no read splits a `\r\n` and no write is refused or,
at the guest descriptor, interrupted. -/
theorem translated_iff (host : Bool) (reads : List Read) (out : List UInt8) (h : pipeForward host reads = some out) :
    Translated (stream reads) out ↔ Unsplit reads ∧ ∀ r ∈ reads, ∀ w ∈ r.writes, Accepts host w := by
  rw [translated_eq]
  induction reads generalizing out with
  | nil =>
    cases h
    simp [stream, replace, Unsplit]
  | cons r reads ih =>
    obtain ⟨o, rest, ho, hrest, rfl⟩ := pipeForward_cons h
    obtain ⟨hlen, hall, hsome⟩ := writeBuf_spec ho
    obtain ⟨p, hp, hplen, hiff⟩ := replace_append r.bytes (stream reads)
    have hlast := length_pipeForward hrest
    rw [length_replace] at hlen hsome
    rw [show stream (r :: reads) = r.bytes ++ stream reads from List.flatMap_cons, hp]
    simp only [Unsplit, List.forall_mem_cons]
    constructor
    · intro heq
      have hsum := congrArg List.length heq
      simp only [List.length_append, length_replace, hplen] at hsum
      have hok : ∀ w ∈ r.writes, Accepts host w := by
        by_contra hno
        have := hsome hno
        omega
      obtain ⟨hhead, htail⟩ := List.append_inj heq (by omega)
      obtain ⟨hunsplit, haccept⟩ := (ih rest hrest).mp htail
      exact ⟨⟨hiff.mp (hhead.symm.trans (hall hok)), hunsplit⟩, hok, haccept⟩
    · rintro ⟨⟨hhere, hunsplit⟩, hok, haccept⟩
      rw [hall hok, ← hiff.mpr hhere, (ih rest hrest).mpr ⟨hunsplit, haccept⟩]

/-- `a\r\n` in one read, written in two. -/
theorem translated_whole : Translated [97, 13, 10] [97, 13, 10] :=
  (translated_iff true [⟨[97, 13, 10], [.accepted 1, .interrupted, .accepted 2], by decide, by decide⟩] [97, 13, 10]
    (by decide)).mpr ⟨⟨by decide, trivial⟩, by simp [Accepts]⟩

/-- The same bytes with a read between the last two: a second line feed instead of the `\r`. -/
theorem split_differs : ¬ ∀ host reads out, pipeForward host reads = some out → Translated (stream reads) out := by
  intro h
  have hbytes := (h true [⟨[97, 13], [.accepted 2], by decide, by decide⟩, ⟨[10], [.accepted 1], by decide, by decide⟩]
    [97, 10, 10] (by decide)).bytes 1
  exact absurd hbytes (by decide)

end IosLinuxkit.PipeForward
