import SegmentWire.Proofs.IndexCodec

/-!
# The value of a segment

A segment is read as one kind, that of its tag, and holds one value of this kind. Most values are
held by a single segment, the one that is made for them. Only texts, bytes and the counts of indices
are held in either size class, and a true boolean in any octet but zero.

* **`Packing`** — how a number is kept in so many bytes.
* **`Segment.Holds`** — which values a segment holds; **`Segment.get_eq_ok_iff`** says that these
  are the ones that are read from it, and **`Segment.value_eq_ok_iff`** that they are of the kind of
  its tag.
* **`Segment.holds_ofValue`** — the segment that is made for a value holds it.
* **`Segment.Fits.holds_or`** — a segment whose payload fits holds a value, unless it is text that
  is not UTF-8.
-/

namespace SegmentWire

-- powers are those of the core library, whatever else is imported
attribute [local instance (2000)] instPowNat

open Ieee (Binary32 Binary64)

-- ── Numbers ──────────────────────────────────────────────────────────────────────

/-- The values of a type are the numbers of so many bytes, one for one. -/
structure Packing (α : Type) (width : Nat) where
  pack : α → Nat
  unpack : Nat → α
  pack_lt : ∀ a, pack a < 256 ^ width
  unpack_pack : ∀ a, unpack (pack a) = a
  pack_unpack : ∀ n, n < 256 ^ width → pack (unpack n) = n

namespace Packing

/-- Octets. -/
def uint8 : Packing UInt8 1 where
  pack := UInt8.toNat
  unpack := .ofNat
  pack_lt := UInt8.toNat_lt
  unpack_pack _ := UInt8.ofNat_toNat
  pack_unpack _ := UInt8.toNat_ofNat_of_lt'

/-- Whole numbers of two bytes. -/
def uint16 : Packing UInt16 2 where
  pack := UInt16.toNat
  unpack := .ofNat
  pack_lt := UInt16.toNat_lt
  unpack_pack _ := UInt16.ofNat_toNat
  pack_unpack _ := UInt16.toNat_ofNat_of_lt'

/-- Whole numbers of four bytes. -/
def uint32 : Packing UInt32 4 where
  pack := UInt32.toNat
  unpack := .ofNat
  pack_lt := UInt32.toNat_lt
  unpack_pack _ := UInt32.ofNat_toNat
  pack_unpack _ := UInt32.toNat_ofNat_of_lt'

/-- Whole numbers of eight bytes. -/
def uint64 : Packing UInt64 8 where
  pack := UInt64.toNat
  unpack := .ofNat
  pack_lt := UInt64.toNat_lt
  unpack_pack _ := UInt64.ofNat_toNat
  pack_unpack _ := UInt64.toNat_ofNat_of_lt'

/-- The same numbers, taken for another type by a change of view. -/
def view {α β : Type} {width : Nat} (p : Packing α width) (toView : α → β) (ofView : β → α)
    (h : ∀ a, ofView (toView a) = a) (h' : ∀ b, toView (ofView b) = b) : Packing β width where
  pack b := p.pack (ofView b)
  unpack n := toView (p.unpack n)
  pack_lt b := p.pack_lt (ofView b)
  unpack_pack b := by rw [p.unpack_pack, h']
  pack_unpack n hn := by rw [h, p.pack_unpack n hn]

/-- Whole numbers of one byte with a sign. -/
def int8 : Packing Int8 1 :=
  uint8.view UInt8.toInt8 Int8.toUInt8 UInt8.toUInt8_toInt8 Int8.toInt8_toUInt8

/-- Whole numbers of two bytes with a sign. -/
def int16 : Packing Int16 2 :=
  uint16.view UInt16.toInt16 Int16.toUInt16 UInt16.toUInt16_toInt16 Int16.toInt16_toUInt16

/-- Whole numbers of four bytes with a sign. -/
def int32 : Packing Int32 4 :=
  uint32.view UInt32.toInt32 Int32.toUInt32 UInt32.toUInt32_toInt32 Int32.toInt32_toUInt32

/-- Whole numbers of eight bytes with a sign. -/
def int64 : Packing Int64 8 :=
  uint64.view UInt64.toInt64 Int64.toUInt64 UInt64.toUInt64_toInt64 Int64.toInt64_toUInt64

/-- Floating-point patterns of four bytes. -/
def float32 : Packing Binary32 4 where
  pack x := x.bits.toNat
  unpack n := ⟨BitVec.ofNat _ n⟩
  pack_lt x := x.bits.isLt
  unpack_pack x := by rw [BitVec.ofNat_toNat, BitVec.setWidth_eq]
  pack_unpack _ hn := Nat.mod_eq_of_lt hn

/-- Floating-point patterns of eight bytes. -/
def float64 : Packing Binary64 8 where
  pack x := x.bits.toNat
  unpack n := ⟨BitVec.ofNat _ n⟩
  pack_lt x := x.bits.isLt
  unpack_pack x := by rw [BitVec.ofNat_toNat, BitVec.setWidth_eq]
  pack_unpack _ hn := Nat.mod_eq_of_lt hn

variable {α : Type} {width : Nat} {s : Segment}

/-- What is read as a number is the number that the segment was made for. -/
theorem of_read (p : Packing α width) {tag : Tag} {make : α → Value} {v : Value}
    (h : (s.number tag width >>= fun n => pure (make (p.unpack n))) = Except.ok v) :
    ∃ a, v = make a ∧ s = ⟨tag, bigEndian width (p.pack a)⟩ := by
  obtain ⟨n, hn, ⟨⟩⟩ := bind_eq_ok_iff.mp h
  obtain ⟨hlt, hs⟩ := Segment.number_eq_ok_iff.mp hn
  exact ⟨p.unpack n, rfl, by rw [p.pack_unpack n hlt, hs]⟩

theorem read (p : Packing α width) {tag : Tag} {make : α → Value} {a : α}
    (h : s = ⟨tag, bigEndian width (p.pack a)⟩) :
    (s.number tag width >>= fun n => pure (make (p.unpack n))) = Except.ok (make a) := by
  have hnumber := Segment.number_eq_ok_iff.mpr ⟨p.pack_lt a, h⟩
  refine bind_eq_ok_iff.mpr ⟨p.pack a, hnumber, ?_⟩
  rw [p.unpack_pack]
  rfl

/-- A payload of the right length is a number. -/
theorem exists_of_length (p : Packing α width) {payload : Bytes} (h : payload.length = width) :
    ∃ a, payload = bigEndian width (p.pack a) := by
  subst h
  exact ⟨p.unpack (ofBigEndian payload), by
    rw [p.pack_unpack _ (ofBigEndian_lt payload), bigEndian_ofBigEndian]⟩

end Packing

-- ── What a segment holds ─────────────────────────────────────────────────────────

namespace Segment

variable {s : Segment} {v : Value}

/-- The segment is one that stands for the value. -/
def Holds (s : Segment) : Value → Prop
  | .bool b => ∃ octet : UInt8, s = ⟨.bool, [octet]⟩ ∧ (octet != 0) = b
  | .text t => s.tag.isString = true ∧ s.payload = Utf8.encode t
  | .binary bytes => s.tag.isBinary = true ∧ s.payload = bytes
  | .listIndex count => StatesCount .list .largeList count.toNat s
  | .mapIndex count => StatesCount .map .largeMap count.toNat s
  | v => s = ofValue v

/-- Bytes are read from exactly the binaries, of either size class, that hold them. -/
theorem binary_eq_ok_iff {bytes : Bytes} :
    s.binary = .ok bytes ↔ s.tag.isBinary = true ∧ s.payload = bytes := by
  rw [binary]
  split
  · next hbinary =>
    rw [Except.ok.injEq]
    exact (and_iff_right hbinary).symm
  · next hother => exact iff_of_false nofun fun h => hother h.1

theorem octet_bne_zero {n : Nat} (h : n < 256) : (UInt8.ofNat n != 0) = (n != 0) := by
  revert n
  decide +kernel

/-- Only values that the segment holds are read from it, each as its own kind. -/
theorem holds_of_get {kind : Kind} (h : s.get kind = .ok v) : v.kind = kind ∧ s.Holds v := by
  cases kind with
  | documentStart =>
      obtain ⟨version, hversion, ⟨⟩⟩ := bind_eq_ok_iff.mp h
      exact ⟨rfl, version_eq_ok_iff.mp hversion⟩
  | documentEnd =>
      obtain ⟨count, hcount, ⟨⟩⟩ := bind_eq_ok_iff.mp h
      exact ⟨rfl, endCount_eq_ok_iff.mp hcount⟩
  | int8 =>
      obtain ⟨n, rfl, hs⟩ := Packing.int8.of_read h
      exact ⟨rfl, hs⟩
  | uint8 =>
      obtain ⟨n, rfl, hs⟩ := Packing.uint8.of_read h
      exact ⟨rfl, hs⟩
  | int16 =>
      obtain ⟨n, rfl, hs⟩ := Packing.int16.of_read h
      exact ⟨rfl, hs⟩
  | uint16 =>
      obtain ⟨n, rfl, hs⟩ := Packing.uint16.of_read h
      exact ⟨rfl, hs⟩
  | int32 =>
      obtain ⟨n, rfl, hs⟩ := Packing.int32.of_read h
      exact ⟨rfl, hs⟩
  | uint32 =>
      obtain ⟨n, rfl, hs⟩ := Packing.uint32.of_read h
      exact ⟨rfl, hs⟩
  | int64 =>
      obtain ⟨n, rfl, hs⟩ := Packing.int64.of_read h
      exact ⟨rfl, hs⟩
  | uint64 =>
      obtain ⟨n, rfl, hs⟩ := Packing.uint64.of_read h
      exact ⟨rfl, hs⟩
  | bool =>
      obtain ⟨n, hn, ⟨⟩⟩ := bind_eq_ok_iff.mp h
      obtain ⟨hlt, hs⟩ := number_eq_ok_iff.mp hn
      exact ⟨rfl, .ofNat n, hs, octet_bne_zero hlt⟩
  | float32 =>
      obtain ⟨x, rfl, hs⟩ := Packing.float32.of_read h
      exact ⟨rfl, hs⟩
  | float64 =>
      obtain ⟨x, rfl, hs⟩ := Packing.float64.of_read h
      exact ⟨rfl, hs⟩
  | text =>
      obtain ⟨t, ht, ⟨⟩⟩ := bind_eq_ok_iff.mp h
      exact ⟨rfl, text_eq_ok_iff.mp ht⟩
  | binary =>
      obtain ⟨bytes, hbytes, ⟨⟩⟩ := bind_eq_ok_iff.mp h
      exact ⟨rfl, binary_eq_ok_iff.mp hbytes⟩
  | listIndex =>
      obtain ⟨count, hcount, ⟨⟩⟩ := bind_eq_ok_iff.mp h
      exact ⟨rfl, listCount_eq_ok_iff.mp hcount⟩
  | mapIndex =>
      obtain ⟨count, hcount, ⟨⟩⟩ := bind_eq_ok_iff.mp h
      exact ⟨rfl, mapCount_eq_ok_iff.mp hcount⟩

/-- Every value that the segment holds is read from it. -/
theorem Holds.get_eq (h : s.Holds v) : s.get v.kind = .ok v := by
  cases v with
  | documentStart version => exact bind_eq_ok_iff.mpr ⟨version, version_eq_ok_iff.mpr h, rfl⟩
  | documentEnd count => exact bind_eq_ok_iff.mpr ⟨count, endCount_eq_ok_iff.mpr h, rfl⟩
  | int8 n => exact Packing.int8.read h
  | uint8 n => exact Packing.uint8.read h
  | int16 n => exact Packing.int16.read h
  | uint16 n => exact Packing.uint16.read h
  | int32 n => exact Packing.int32.read h
  | uint32 n => exact Packing.uint32.read h
  | int64 n => exact Packing.int64.read h
  | uint64 n => exact Packing.uint64.read h
  | bool b =>
      obtain ⟨octet, rfl, rfl⟩ := h
      have hlt : octet.toNat < 256 := octet.toNat_lt
      have hpayload : [octet] = bigEndian 1 octet.toNat := congrArg ([·]) UInt8.ofNat_toNat.symm
      refine bind_eq_ok_iff.mpr ⟨octet.toNat, number_eq_ok_iff.mpr ⟨hlt, by rw [hpayload]⟩, ?_⟩
      rw [← octet_bne_zero hlt, UInt8.ofNat_toNat]
      rfl
  | float32 x => exact Packing.float32.read h
  | float64 x => exact Packing.float64.read h
  | text t => exact bind_eq_ok_iff.mpr ⟨t, text_eq_ok_iff.mpr h, rfl⟩
  | binary bytes => exact bind_eq_ok_iff.mpr ⟨bytes, binary_eq_ok_iff.mpr h, rfl⟩
  | listIndex count => exact bind_eq_ok_iff.mpr ⟨count, listCount_eq_ok_iff.mpr h, rfl⟩
  | mapIndex count => exact bind_eq_ok_iff.mpr ⟨count, mapCount_eq_ok_iff.mpr h, rfl⟩

/-- **A segment is read as the values that it holds**, each as its own kind. -/
theorem get_eq_ok_iff {kind : Kind} : s.get kind = .ok v ↔ v.kind = kind ∧ s.Holds v := by
  constructor
  · exact holds_of_get
  · rintro ⟨rfl, h⟩
    exact h.get_eq

/-- The kind of a value is that of the tag. -/
theorem Holds.kind_eq (h : s.Holds v) : s.tag.kind = v.kind := by
  obtain ⟨tag, payload⟩ := s
  cases v with
  | bool b =>
      obtain ⟨octet, ⟨⟩, -⟩ := h
      rfl
  | text t => cases tag <;> cases h.1 <;> rfl
  | binary bytes => cases tag <;> cases h.1 <;> rfl
  | listIndex count => rcases h with ⟨-, ⟨⟩⟩ | ⟨-, ⟨⟩⟩ <;> rfl
  | mapIndex count => rcases h with ⟨-, ⟨⟩⟩ | ⟨-, ⟨⟩⟩ <;> rfl
  | _ =>
      cases h
      rfl

/-- **The value of a segment is the one that it holds.** -/
theorem value_eq_ok_iff : s.value = .ok v ↔ s.Holds v := by
  constructor
  · exact fun h => (holds_of_get h).2
  · intro h
    rw [value, h.kind_eq]
    exact h.get_eq

/-- **The segment that is made for a value holds it.** -/
theorem holds_ofValue (v : Value) : (ofValue v).Holds v := by
  have hstates : ∀ (regular large : Tag) (count : UInt64),
      StatesCount regular large count.toNat (indexOf regular large count) := by
    intro regular large count
    have hword : count.toNat ≤ maxWord := Nat.le_of_lt_succ count.toNat_lt
    have hstates : StatesCount regular large count.toNat
        (indexOf regular large (UInt64.ofNat count.toNat)) := indexOf_statesCount hword
    rwa [UInt64.ofNat_toNat] at hstates
  cases v with
  | bool b => exact ⟨if b then 1 else 0, rfl, by cases b <;> rfl⟩
  | text t =>
      refine ⟨?_, rfl⟩
      rw [ofValue, ofText]
      dsimp only
      split <;> rfl
  | binary bytes =>
      refine ⟨?_, rfl⟩
      rw [ofValue, ofBinary]
      dsimp only
      split <;> rfl
  | listIndex count => exact hstates .list .largeList count
  | mapIndex count => exact hstates .map .largeMap count
  | _ => rfl

/-- **A segment whose payload fits its tag holds a value**, unless it is text that is not UTF-8. -/
theorem Fits.holds_or (h : s.Fits) :
    (∃ v, s.Holds v) ∨ s.tag.isString = true ∧ Utf8.decode? s.payload = none := by
  have htext : s.tag.isString = true →
      (∃ v, s.Holds v) ∨ s.tag.isString = true ∧ Utf8.decode? s.payload = none := by
    intro hstring
    cases hdecode : Utf8.decode? s.payload with
    | none => exact Or.inr ⟨hstring, rfl⟩
    | some t => exact Or.inl ⟨.text t, hstring, Utf8.decode?_eq_some_iff.mp hdecode⟩
  obtain ⟨tag, payload⟩ := s
  cases tag with
  | documentStart =>
      obtain ⟨version, rfl⟩ := List.length_eq_one_iff.mp (h.length_eq rfl)
      exact Or.inl ⟨.documentStart version, rfl⟩
  | documentEnd =>
      obtain ⟨count, rfl⟩ := Packing.uint64.exists_of_length (h.length_eq rfl)
      exact Or.inl ⟨.documentEnd count, rfl⟩
  | int8 =>
      obtain ⟨n, rfl⟩ := Packing.int8.exists_of_length (h.length_eq rfl)
      exact Or.inl ⟨.int8 n, rfl⟩
  | uint8 =>
      obtain ⟨n, rfl⟩ := Packing.uint8.exists_of_length (h.length_eq rfl)
      exact Or.inl ⟨.uint8 n, rfl⟩
  | int16 =>
      obtain ⟨n, rfl⟩ := Packing.int16.exists_of_length (h.length_eq rfl)
      exact Or.inl ⟨.int16 n, rfl⟩
  | uint16 =>
      obtain ⟨n, rfl⟩ := Packing.uint16.exists_of_length (h.length_eq rfl)
      exact Or.inl ⟨.uint16 n, rfl⟩
  | int32 =>
      obtain ⟨n, rfl⟩ := Packing.int32.exists_of_length (h.length_eq rfl)
      exact Or.inl ⟨.int32 n, rfl⟩
  | uint32 =>
      obtain ⟨n, rfl⟩ := Packing.uint32.exists_of_length (h.length_eq rfl)
      exact Or.inl ⟨.uint32 n, rfl⟩
  | int64 =>
      obtain ⟨n, rfl⟩ := Packing.int64.exists_of_length (h.length_eq rfl)
      exact Or.inl ⟨.int64 n, rfl⟩
  | uint64 =>
      obtain ⟨n, rfl⟩ := Packing.uint64.exists_of_length (h.length_eq rfl)
      exact Or.inl ⟨.uint64 n, rfl⟩
  | bool =>
      obtain ⟨octet, rfl⟩ := List.length_eq_one_iff.mp (h.length_eq rfl)
      exact Or.inl ⟨.bool (octet != 0), octet, rfl, rfl⟩
  | float32 =>
      obtain ⟨x, rfl⟩ := Packing.float32.exists_of_length (h.length_eq rfl)
      exact Or.inl ⟨.float32 x, rfl⟩
  | float64 =>
      obtain ⟨x, rfl⟩ := Packing.float64.exists_of_length (h.length_eq rfl)
      exact Or.inl ⟨.float64 x, rfl⟩
  | string => exact htext rfl
  | hugeString => exact htext rfl
  | binary => exact Or.inl ⟨.binary payload, rfl, rfl⟩
  | hugeBinary => exact Or.inl ⟨.binary payload, rfl, rfl⟩
  | list =>
      obtain ⟨count, rfl⟩ := Packing.uint16.exists_of_length (h.length_eq rfl)
      exact Or.inl ⟨.listIndex count.toUInt64, Or.inl ⟨Nat.le_of_lt_succ count.toNat_lt, rfl⟩⟩
  | largeList =>
      obtain ⟨count, rfl⟩ := Packing.uint64.exists_of_length (h.length_eq rfl)
      exact Or.inl ⟨.listIndex count, Or.inr ⟨Nat.le_of_lt_succ count.toNat_lt, rfl⟩⟩
  | map =>
      obtain ⟨count, rfl⟩ := Packing.uint16.exists_of_length (h.length_eq rfl)
      exact Or.inl ⟨.mapIndex count.toUInt64, Or.inl ⟨Nat.le_of_lt_succ count.toNat_lt, rfl⟩⟩
  | largeMap =>
      obtain ⟨count, rfl⟩ := Packing.uint64.exists_of_length (h.length_eq rfl)
      exact Or.inl ⟨.mapIndex count, Or.inr ⟨Nat.le_of_lt_succ count.toNat_lt, rfl⟩⟩

end Segment

end SegmentWire
