import SegmentWire.Bytes
import Mathlib.Data.List.Induction

/-!
# Big-endian numbers are exact within their width

`bigEndian width` and `ofBigEndian` are inverse to each other between the numbers below
`256 ^ width` and the runs of `width` bytes:

* **`ofBigEndian_bigEndian`** — a number that fits its width is read back.
* **`bigEndian_ofBigEndian`** — every run of bytes is the one way to write its number.
-/

namespace SegmentWire

-- powers are those of the core library, whatever else is imported
attribute [local instance (2000)] instPowNat

/-- A number takes exactly the bytes it is given. -/
@[simp] theorem length_bigEndian (width n : Nat) : (bigEndian width n).length = width := by
  induction width generalizing n with
  | zero => rfl
  | succ width ih =>
      show (bigEndian width (n / 256) ++ [UInt8.ofNat n]).length = width + 1
      rw [List.length_append, ih]
      rfl

/-- The last byte of a run has the least weight. -/
theorem ofBigEndian_concat (bytes : Bytes) (b : UInt8) :
    ofBigEndian (bytes ++ [b]) = ofBigEndian bytes * 256 + b.toNat := by
  rw [ofBigEndian, List.foldl_append]
  rfl

/-- A run of bytes states a number within its width. -/
theorem ofBigEndian_lt (bytes : Bytes) : ofBigEndian bytes < 256 ^ bytes.length := by
  induction bytes using List.reverseRecOn with
  | nil => decide
  | append_singleton bytes b ih =>
      have hb : b.toNat < 256 := b.toNat_lt
      rw [ofBigEndian_concat, List.length_append, List.length_singleton, Nat.pow_succ]
      omega

/-- A number that fits its width is read back. -/
theorem ofBigEndian_bigEndian {width n : Nat} (h : n < 256 ^ width) :
    ofBigEndian (bigEndian width n) = n := by
  induction width generalizing n with
  | zero =>
      rw [Nat.pow_zero] at h
      exact (Nat.lt_one_iff.mp h).symm
  | succ width ih =>
      have hdiv : n / 256 < 256 ^ width := by
        rw [Nat.pow_succ] at h
        exact Nat.div_lt_of_lt_mul (by rwa [Nat.mul_comm])
      have hlast : (UInt8.ofNat n).toNat = n % 256 := UInt8.toNat_ofNat'
      show ofBigEndian (bigEndian width (n / 256) ++ [UInt8.ofNat n]) = n
      rw [ofBigEndian_concat, ih hdiv, hlast]
      omega

/-- Every run of bytes is the one way to write its number. -/
theorem bigEndian_ofBigEndian (bytes : Bytes) :
    bigEndian bytes.length (ofBigEndian bytes) = bytes := by
  induction bytes using List.reverseRecOn with
  | nil => rfl
  | append_singleton bytes b ih =>
      have hb : b.toNat < 256 := b.toNat_lt
      have hdiv : (ofBigEndian bytes * 256 + b.toNat) / 256 = ofBigEndian bytes := by omega
      have hlast : UInt8.ofNat (ofBigEndian bytes * 256 + b.toNat) = b := by
        apply UInt8.toNat_inj.mp
        rw [UInt8.toNat_ofNat']
        omega
      rw [ofBigEndian_concat, List.length_append]
      show bigEndian bytes.length ((ofBigEndian bytes * 256 + b.toNat) / 256) ++ [UInt8.ofNat _]
        = bytes ++ [b]
      rw [hdiv, hlast, ih]

theorem bigEndian_eq_of {bytes : Bytes} {width n : Nat} (hwidth : bytes.length = width)
    (h : ofBigEndian bytes = n) : bigEndian width n = bytes := by
  rw [← hwidth, ← h, bigEndian_ofBigEndian]

end SegmentWire
