import Mathlib.Data.Nat.Digits.Defs

/-!
# `Lib.Bytes` — little-endian bytes

`bytes w n` are the `w` low bytes of `n`, least significant first, and `ofBytes` reads them back (`ofBytes_bytes`).
`slice l i w` are the `w` bytes of `l` from offset `i` on, and `write l i d` is `l` with `d` copied over it there. A record
of adjacent fields is read field by field (`slice_append_left`, `slice_append_right`), and a copy behind a prefix leaves the
prefix alone (`write_append_right`).
-/

namespace Outback.Lib

abbrev Byte := BitVec 8

/-- The `w` low bytes of `n`. -/
def bytes : Nat → Nat → List Byte
  | 0, _ => []
  | w + 1, n => BitVec.ofNat 8 n :: bytes w (n / 256)

/-- The number that the bytes stand for. -/
def ofBytes (l : List Byte) : Nat := Nat.ofDigits 256 (l.map BitVec.toNat)

@[simp] theorem length_bytes (w n : Nat) : (bytes w n).length = w := by
  induction w generalizing n with
  | zero => rfl
  | succ w ih => rw [bytes, List.length_cons, ih]

theorem ofBytes_bytes (w n : Nat) : ofBytes (bytes w n) = n % 256 ^ w := by
  induction w generalizing n with
  | zero => simp [bytes, ofBytes, Nat.mod_one]
  | succ w ih =>
      have htail : Nat.ofDigits 256 ((bytes w (n / 256)).map BitVec.toNat) = n / 256 % 256 ^ w := ih (n / 256)
      have hhead : (BitVec.ofNat 8 n).toNat = n % 256 := BitVec.toNat_ofNat n 8
      rw [bytes, ofBytes, List.map_cons, Nat.ofDigits_cons, htail, hhead, pow_succ', Nat.mod_mul]

section Slices

variable {α : Type*} {l l' d : List α} {i w : Nat}

/-- `w` elements from offset `i` on. -/
def slice (l : List α) (i w : Nat) : List α := (l.drop i).take w

/-- `d` copied over `l` at offset `i`. -/
def write (l : List α) (i : Nat) (d : List α) : List α := l.take i ++ d ++ l.drop (i + d.length)

theorem slice_append_left (h : w = l.length) : slice (l ++ l') 0 w = l := by
  subst h
  unfold slice
  rw [List.drop_zero, List.take_left]

theorem slice_append_right (h : i = l.length) (k : Nat) : slice (l ++ l') (i + k) w = slice l' k w := by
  subst h
  unfold slice
  rw [List.drop_append, List.drop_eq_nil_of_le (by omega), List.nil_append]
  congr 2
  omega

theorem slice_append_at (h : i = l.length) : slice (l ++ l') i w = slice l' 0 w := slice_append_right h 0

/-- A copy that starts at the end of a prefix goes behind the prefix. -/
theorem write_append_right (h : i = l.length) (k : Nat) : write (l ++ l') (i + k) d = l ++ write l' k d := by
  subst h
  unfold write
  rw [List.take_append, List.drop_append, List.take_of_length_le (by omega),
    List.drop_eq_nil_of_le (by omega), List.nil_append, Nat.add_sub_cancel_left,
    show l.length + k + d.length - l.length = k + d.length by omega, List.append_assoc, List.append_assoc,
    List.append_assoc]

theorem write_zero : write l 0 d = d ++ l.drop d.length := by
  unfold write
  rw [List.take_zero, List.nil_append, Nat.zero_add]

/-- A copy over the whole of a prefix replaces it. -/
theorem write_append_left (h : d.length = l.length) : write (l ++ l') 0 d = d ++ l' := by
  rw [write_zero, h, List.drop_left]

end Slices

end Outback.Lib
