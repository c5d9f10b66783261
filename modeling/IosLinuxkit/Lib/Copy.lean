import Mathlib.Data.List.Basic

/-!
# Blocks of bytes

`memcpy` and `memset` on a buffer, which fail where they would leave it.
-/

namespace IosLinuxkit

variable {α : Type} {buf data : List α} {tail k n : Nat}

/-- A list with a block copied over the elements from `i` on. -/
def put (buf : List α) (i : Nat) (data : List α) : List α :=
  buf.take i ++ data ++ buf.drop (i + data.length)

theorem length_put (hle : k + data.length ≤ buf.length) : (put buf k data).length = buf.length := by
  simp only [put, List.length_append, List.length_take, List.length_drop]
  omega

theorem put_zero (buf data : List α) : put buf 0 data = data ++ buf.drop data.length := by
  simp [put]

theorem put_end (hle : tail ≤ buf.length) (hlen : data.length = buf.length - tail) :
    put buf tail data = buf.take tail ++ data := by
  rw [put, List.drop_eq_nil_of_le (by omega), List.append_nil]

/-! ## `memcpy` -/

def ptrdiffMax : Nat := 9223372036854775807

/-- The bytes of an object in memory. -/
structure Bytes where
  bytes : List UInt8
  le_max : bytes.length ≤ ptrdiffMax

/-- `memcpy(&buf[i], data, size)`. A copy of no bytes touches nothing. -/
def copyIn (buf : List α) (i : Nat) (data : List α) : Option (List α) :=
  if i + data.length ≤ buf.length ∨ data.length = 0 then some (put buf i data) else none

/-- `memcpy(data, &buf[i], n)`. -/
def copyOut (buf : List α) (i n : Nat) : Option (List α) :=
  if i + n ≤ buf.length ∨ n = 0 then some ((buf.drop i).take n) else none

theorem copyIn_eq (hle : k + data.length ≤ buf.length) : copyIn buf k data = some (put buf k data) :=
  if_pos (Or.inl hle)

theorem copyOut_eq (hle : k + n ≤ buf.length) : copyOut buf k n = some ((buf.drop k).take n) :=
  if_pos (Or.inl hle)

theorem copyIn_out (hlt : buf.length < k + data.length) (hpos : 0 < data.length) : copyIn buf k data = none :=
  if_neg (by omega)

theorem copyOut_out (hlt : buf.length < k + n) (hpos : 0 < n) : copyOut buf k n = none := if_neg (by omega)

end IosLinuxkit
