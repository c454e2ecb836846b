import SegmentWire.Json.Typed
import SegmentWire.Proofs.Rounding

/-!
# Typed values survive JSON

The object of a typed value names the kind of the value, so that its content is read as what it was
written from: a whole number in the range of its kind, a double that stands for the very value of
the number, or a text.

* **`ValueOf.Finite`** — the values that JSON has numbers for.
* **`Json.int?_ofInt`**, **`Json.word?_natural`** — whole numbers.
* **`TypedValue.ofContent?_content`** — the content of every kind is read back, and
  **`TypedValue.ofJson?_toJson`** says the same for whole objects.
-/

namespace SegmentWire

open Ieee (Binary32 Binary64)

/-- A floating-point number in it is neither infinite nor NaN. -/
def ValueOf.Finite {Blob : Type} : ValueOf Blob → Prop
  | .float32 x => x.isFinite = true
  | .float64 x => x.isFinite = true
  | _ => True

/-- Every kind is found by its name. -/
theorem Kind.ofName?_name (kind : Kind) : Kind.ofName? kind.name = some kind := by
  cases kind <;> decide

namespace Json

/-- A whole number is one whichever form JSON has for it. -/
theorem Number.toInt?_ofInt {n : Int} (hlow : -9223372036854775808 ≤ n)
    (hhigh : n ≤ 18446744073709551615) : (Number.ofInt n).toInt? = some n := by
  rw [Number.ofInt]
  split
  · next hpos =>
    have hle : n.toNat ≤ 18446744073709551615 := by omega
    have hnat : (UInt64.ofNat n.toNat).toNat = n.toNat :=
      UInt64.toNat_ofNat_of_lt' (Nat.lt_succ_of_le hle)
    show some ((UInt64.ofNat n.toNat).toNat : Int) = some n
    rw [hnat, Int.toNat_of_nonneg hpos]
  · next hneg =>
    have hlt : n < 9223372036854775808 := Int.lt_trans (Int.not_le.mp hneg) (by decide)
    exact congrArg some (Int64.toInt_ofInt_of_le hlow hlt)

/-- A number within the bounds of its kind is read as such. -/
theorem int?_eq_some {number : Number} {n low high : Int} (h : number.toInt? = some n)
    (hlow : low ≤ n) (hhigh : n ≤ high) : (Json.number number).int? low high = some n := by
  rw [int?, h]
  exact if_pos ⟨hlow, hhigh⟩

theorem int?_ofInt {n low high : Int} (hlow : low ≤ n) (hhigh : n ≤ high)
    (hmin : -9223372036854775808 ≤ low) (hmax : high ≤ 18446744073709551615) :
    (Json.number (.ofInt n)).int? low high = some n :=
  int?_eq_some (Number.toInt?_ofInt (Int.le_trans hmin hlow) (Int.le_trans hhigh hmax)) hlow hhigh

theorem int?_natural {n : UInt64} {m : Nat} {high : Int} (h : n.toNat = m)
    (hhigh : (m : Int) ≤ high) : (Json.number (.natural n)).int? 0 high = some (m : Int) := by
  subst h
  exact int?_eq_some rfl (Int.natCast_nonneg _) hhigh

theorem word?_natural (n : UInt64) : (Json.number (.natural n)).word? = some n := by
  have hword : (n.toNat : Int) ≤ maxWord := Int.ofNat_le.mpr (Nat.le_of_lt_succ n.toNat_lt)
  rw [word?, int?_natural rfl hword, Option.map_some, Int.toNat_natCast, UInt64.ofNat_toNat]

end Json

namespace TypedValue

/-- **The content of every kind is read back.** -/
theorem ofContent?_content {v : TypedValue} (h : v.Finite) :
    ofContent? v.content v.kind = some v := by
  cases v with
  | documentStart version =>
      have hhigh : (version.toNat : Int) ≤ 255 :=
        Int.ofNat_le.mpr (Nat.le_of_lt_succ version.toNat_lt)
      have hread := Json.int?_natural version.toNat_toUInt64 hhigh
      rw [content, ValueOf.kind, ofContent?, hread, Option.map_some, Int.toNat_natCast,
        UInt8.ofNat_toNat]
  | documentEnd count => exact congrArg (Option.map ValueOf.documentEnd) (Json.word?_natural count)
  | int8 n =>
      have hlow : -128 ≤ n.toInt := n.le_toInt
      have hhigh : n.toInt ≤ 127 := Int.le_of_lt_add_one n.toInt_lt
      have hread := Json.int?_ofInt hlow hhigh (by decide) (by decide)
      rw [content, ValueOf.kind, ofContent?, hread, Option.map_some, Int8.ofInt_toInt]
  | uint8 n =>
      have hhigh : (n.toNat : Int) ≤ 255 := Int.ofNat_le.mpr (Nat.le_of_lt_succ n.toNat_lt)
      have hread := Json.int?_natural n.toNat_toUInt64 hhigh
      rw [content, ValueOf.kind, ofContent?, hread, Option.map_some, Int.toNat_natCast,
        UInt8.ofNat_toNat]
  | int16 n =>
      have hlow : -32768 ≤ n.toInt := n.le_toInt
      have hhigh : n.toInt ≤ 32767 := Int.le_of_lt_add_one n.toInt_lt
      have hread := Json.int?_ofInt hlow hhigh (by decide) (by decide)
      rw [content, ValueOf.kind, ofContent?, hread, Option.map_some, Int16.ofInt_toInt]
  | uint16 n =>
      have hhigh : (n.toNat : Int) ≤ 65535 := Int.ofNat_le.mpr (Nat.le_of_lt_succ n.toNat_lt)
      have hread := Json.int?_natural n.toNat_toUInt64 hhigh
      rw [content, ValueOf.kind, ofContent?, hread, Option.map_some, Int.toNat_natCast,
        UInt16.ofNat_toNat]
  | int32 n =>
      have hlow : -2147483648 ≤ n.toInt := n.le_toInt
      have hhigh : n.toInt ≤ 2147483647 := Int.le_of_lt_add_one n.toInt_lt
      have hread := Json.int?_ofInt hlow hhigh (by decide) (by decide)
      rw [content, ValueOf.kind, ofContent?, hread, Option.map_some, Int32.ofInt_toInt]
  | uint32 n =>
      have hhigh : (n.toNat : Int) ≤ 4294967295 := Int.ofNat_le.mpr (Nat.le_of_lt_succ n.toNat_lt)
      have hread := Json.int?_natural n.toNat_toUInt64 hhigh
      rw [content, ValueOf.kind, ofContent?, hread, Option.map_some, Int.toNat_natCast,
        UInt32.ofNat_toNat]
  | int64 n =>
      have hlow : -9223372036854775808 ≤ n.toInt := n.le_toInt
      have hhigh : n.toInt ≤ 9223372036854775807 := Int.le_of_lt_add_one n.toInt_lt
      have hread := Json.int?_ofInt hlow hhigh (by decide) (by decide)
      rw [content, ValueOf.kind, ofContent?, hread, Option.map_some, Int64.ofInt_toInt]
  | uint64 n => exact congrArg (Option.map ValueOf.uint64) (Json.word?_natural n)
  | bool b => rfl
  | float32 x =>
      have hread : (x.convert : Binary64).convert = x := (Ieee.Binary.convert_convert h).2
      exact congrArg (fun y => some (ValueOf.float32 y)) hread
  | float64 x =>
      have hread : x.convert = x := Ieee.Binary.convert_self h
      exact congrArg (fun y => some (ValueOf.float64 y)) hread
  | text t => rfl
  | binary blob => rfl
  | listIndex count => exact congrArg (Option.map ValueOf.listIndex) (Json.word?_natural count)
  | mapIndex count => exact congrArg (Option.map ValueOf.mapIndex) (Json.word?_natural count)

/-- **The object of a typed value is read as this value**, if it is one that JSON has numbers
    for. -/
theorem ofJson?_toJson {v : TypedValue} (h : v.Finite) : ofJson? v.toJson = some v := by
  have hkind : Json.kind? (.text v.kind.name) = some v.kind := Kind.ofName?_name v.kind
  show ((Json.kind? (.text v.kind.name)).bind fun kind => ofContent? v.content kind) = some v
  rw [hkind]
  exact ofContent?_content h

end TypedValue

end SegmentWire
