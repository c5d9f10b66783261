import IosLinuxkit.Lib.Copy
import Mathlib.Data.List.Rotate

/-!
# Rings

A ring is a list read from an index on and continued at its front, so the ring from `start` on is
the list rotated by `start`. A block that is copied in or out is split where the end of the list
is reached.

* **`ringGet_eq`** — a split read is a stretch of the rotated list.
* **`ringPut_rotate`** — a split write of a block that fits replaces a stretch of the rotated list.
* **`ringPut_over`** — a split write of a longer block leaves its last part, from where it stopped.
-/

namespace IosLinuxkit

variable {α : Type} {buf data : List α} {start tail k n : Nat}

def ringPut (buf : List α) (tail : Nat) (data : List α) : List α :=
  put (put buf tail (data.take (buf.length - tail))) 0 (data.drop (buf.length - tail))

def ringGet (buf : List α) (start n : Nat) : List α :=
  (buf.drop start).take n ++ buf.take (n - (buf.length - start))

/-! ## Reading -/

theorem ringGet_eq (hstart : start ≤ buf.length) (hn : n ≤ buf.length) :
    ringGet buf start n = (buf.rotate start).take n := by
  rw [ringGet, List.rotate_eq_drop_append_take hstart, List.take_append, List.length_drop, List.take_take,
    Nat.min_eq_left (by omega)]

theorem rotate_take_drop (hk : k ≤ n) (hn : n ≤ buf.length) :
    (buf.rotate (start + k)).take (n - k) = ((buf.rotate start).take n).drop k := by
  have hrot : (buf.rotate start).length = buf.length := List.length_rotate buf start
  rw [← List.rotate_rotate, List.rotate_eq_drop_append_take (by omega), List.drop_take,
    List.take_append_of_le_length (by simp only [List.length_drop]; omega)]

/-! ## Writing -/

theorem ringPut_fits (hle : data.length ≤ buf.length - tail) :
    ringPut buf tail data = buf.take tail ++ data ++ buf.drop (tail + data.length) := by
  rw [ringPut, List.take_of_length_le hle, List.drop_eq_nil_of_le hle, put_zero, List.nil_append,
    List.length_nil, List.drop_zero, put]

theorem ringPut_wraps (htail : tail ≤ buf.length) (hlt : buf.length - tail ≤ data.length) :
    ringPut buf tail data = data.drop (buf.length - tail)
      ++ (buf.take tail ++ data.take (buf.length - tail)).drop (data.length - (buf.length - tail)) := by
  rw [ringPut, put_zero, put_end htail (by simp only [List.length_take]; omega), List.length_drop]

theorem length_ringPut (htail : tail ≤ buf.length) (hlen : data.length + tail ≤ 2 * buf.length) :
    (ringPut buf tail data).length = buf.length := by
  by_cases hle : data.length ≤ buf.length - tail
  · rw [ringPut_fits hle]
    simp only [List.length_append, List.length_take, List.length_drop]
    omega
  rw [ringPut_wraps htail (by omega)]
  simp only [List.length_append, List.length_take, List.length_drop]
  omega

theorem rotate_parts {a b : List α} (hk : k = a.length) : (a ++ b).rotate k = b ++ a := by
  rw [hk, List.rotate_append_length_eq]

theorem ringPut_front (htail : tail ≤ buf.length) (hlen : data.length ≤ buf.length) :
    (ringPut buf tail data).rotate tail = data ++ (buf.rotate tail).drop data.length := by
  have htake : tail = (buf.take tail).length := by simp only [List.length_take]; omega
  have hdrop : (buf.drop tail).length = buf.length - tail := List.length_drop
  rw [List.rotate_eq_drop_append_take htail (l := buf)]
  by_cases hle : data.length ≤ buf.length - tail
  · rw [ringPut_fits hle, List.append_assoc, rotate_parts htake, List.drop_append_of_le_length (by omega),
      List.drop_drop, List.append_assoc]
  · -- the second part of the block ends in front of `tail`
    have hsplit : data.length - (buf.length - tail) ≤ (buf.take tail).length := by omega
    rw [ringPut_wraps htail (by omega), List.drop_append_of_le_length hsplit, ← List.append_assoc,
      rotate_parts (by simp only [List.length_append, List.length_drop, List.length_take]; omega),
      List.drop_append, hdrop, List.drop_eq_nil_of_le (show (buf.drop tail).length ≤ data.length by omega),
      List.nil_append, ← List.append_assoc, List.take_append_drop]

theorem ringPut_rotate (hpos : 0 < buf.length) (htail : tail = (start + k) % buf.length)
    (hfit : k + data.length ≤ buf.length) : (ringPut buf tail data).rotate start
      = (buf.rotate start).take k ++ data ++ (buf.rotate start).drop (k + data.length) := by
  have hlt : tail < buf.length := htail ▸ Nat.mod_lt _ hpos
  have hlen : (ringPut buf tail data).length = buf.length := length_ringPut (Nat.le_of_lt hlt) (by omega)
  have hrot : (buf.rotate start).length = buf.length := List.length_rotate buf start
  have htake : k = ((buf.rotate start).take k).length := by simp only [List.length_take]; omega
  apply List.rotate_injective k
  show ((ringPut buf tail data).rotate start).rotate k = _
  calc ((ringPut buf tail data).rotate start).rotate k
      = (ringPut buf tail data).rotate tail := by
        rw [List.rotate_rotate, ← List.rotate_mod, hlen, ← htail]
    _ = data ++ (buf.rotate tail).drop data.length := ringPut_front (Nat.le_of_lt hlt) (by omega)
    _ = data ++ ((buf.rotate start).rotate k).drop data.length := by
        rw [htail, List.rotate_mod, List.rotate_rotate]
    _ = data ++ ((buf.rotate start).drop (k + data.length) ++ (buf.rotate start).take k) := by
        rw [List.rotate_eq_drop_append_take (by omega), List.drop_append_of_le_length (by
          simp only [List.length_drop]; omega), List.drop_drop]
    _ = ((buf.rotate start).take k ++ data ++ (buf.rotate start).drop (k + data.length)).rotate k := by
        rw [List.append_assoc, rotate_parts htake, List.append_assoc]

theorem ringPut_over (htail : tail ≤ buf.length) (hge : buf.length ≤ data.length)
    (hlen : data.length + tail ≤ 2 * buf.length) :
    (ringPut buf tail data).rotate (tail + data.length) = data.drop (data.length - buf.length) := by
  have htake : (buf.take tail).length = tail := by simp only [List.length_take]; omega
  have hput := length_ringPut htail hlen
  calc (ringPut buf tail data).rotate (tail + data.length)
      = (ringPut buf tail data).rotate (data.length - (buf.length - tail)) := by
        rw [← List.rotate_mod, hput, show tail + data.length = data.length - (buf.length - tail) + buf.length by omega,
          Nat.add_mod_right, ← hput, List.rotate_mod]
    _ = (buf.take tail ++ data.take (buf.length - tail)).drop (data.length - (buf.length - tail))
          ++ data.drop (buf.length - tail) := by
        rw [ringPut_wraps htail (by omega), rotate_parts (by simp only [List.length_drop])]
    _ = (data.take (buf.length - tail)).drop (data.length - buf.length) ++ data.drop (buf.length - tail) := by
        rw [List.drop_append, List.drop_eq_nil_of_le (by omega), List.nil_append, htake,
          show data.length - (buf.length - tail) - tail = data.length - buf.length by omega]
    _ = (data.take (buf.length - tail) ++ data.drop (buf.length - tail)).drop (data.length - buf.length) :=
        (List.drop_append_of_le_length (by simp only [List.length_take]; omega)).symm
    _ = data.drop (data.length - buf.length) := by rw [List.take_append_drop]

end IosLinuxkit
