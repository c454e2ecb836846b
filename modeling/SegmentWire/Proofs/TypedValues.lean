import SegmentWire.Json.Typed
import SegmentWire.Proofs.Base64Codec
import SegmentWire.Proofs.Values

/-!
# Typed values and their segments

A typed value is a value with its bytes in base64. Every value is one, and a typed value is one of a value
unless its bytes are in no such text; then no segment is built of it.

* **`ValueOf.map`** — a value with its bytes represented in another way.
* **`TypedValue.Makes`** — the segment of a typed value, told from the value that both stand for;
  **`TypedValue.makes_iff`** says that it is the one that is built.
* **`TypedValue.ofTyped_eq_error_iff`** — what nothing is built of.
-/

namespace SegmentWire

/-- The value with its bytes represented in another way. -/
def ValueOf.map {Blob Blob' : Type} (change : Blob → Blob') : ValueOf Blob → ValueOf Blob'
  | documentStart version => .documentStart version
  | documentEnd count => .documentEnd count
  | int8 n => .int8 n
  | uint8 n => .uint8 n
  | int16 n => .int16 n
  | uint16 n => .uint16 n
  | int32 n => .int32 n
  | uint32 n => .uint32 n
  | int64 n => .int64 n
  | uint64 n => .uint64 n
  | bool b => .bool b
  | float32 x => .float32 x
  | float64 x => .float64 x
  | text t => .text t
  | binary blob => .binary (change blob)
  | listIndex count => .listIndex count
  | mapIndex count => .mapIndex count

@[simp]
theorem ValueOf.kind_map {Blob Blob' : Type} (change : Blob → Blob') (v : ValueOf Blob) :
    (v.map change).kind = v.kind := by
  cases v <;> rfl

/-- **The segment of a value with its bytes in base64** is that of the value. -/
theorem Segment.ofTyped_map (v : Value) : ofTyped (v.map Base64.encode) = .ok (ofValue v) := by
  cases v with
  | binary bytes =>
      rw [ValueOf.map, ofTyped, Base64.decode?_encode]
  | _ => rfl

namespace TypedValue

/-- The typed value and the segment stand for one value, the former with its bytes in base64. -/
def Makes (v : TypedValue) (s : Segment) : Prop :=
  ∃ value : Value, v = value.map Base64.encode ∧ s = Segment.ofValue value

/-- The bytes are not in base64. -/
def NotBase64 (v : TypedValue) : Prop := ∃ blob, v = .binary blob ∧ Base64.decode? blob = none

variable {v : TypedValue} {s : Segment}

/-- **A typed value is built to the segment that it makes.** -/
theorem makes_iff : Segment.ofTyped v = .ok s ↔ v.Makes s := by
  constructor
  · intro h
    cases v with
    | binary blob =>
        rw [Segment.ofTyped] at h
        cases hdecode : Base64.decode? blob with
        | none =>
            rw [hdecode] at h
            cases h
        | some bytes =>
            rw [hdecode] at h
            cases h
            exact ⟨.binary bytes, congrArg _ (Base64.decode?_eq_some_iff.mp hdecode), rfl⟩
    | _ =>
        cases h
        refine ⟨_, ?_, rfl⟩
        rfl
  · rintro ⟨value, rfl, rfl⟩
    exact Segment.ofTyped_map value

/-- It is not built exactly if its bytes are not in base64. -/
theorem ofTyped_eq_error_iff {e : WireError} :
    Segment.ofTyped v = .error e ↔ v.NotBase64 ∧ e = .json .badBase64 := by
  constructor
  · intro h
    cases v with
    | binary blob =>
        rw [Segment.ofTyped] at h
        cases hdecode : Base64.decode? blob with
        | none =>
            rw [hdecode] at h
            cases h
            exact ⟨⟨blob, rfl, hdecode⟩, rfl⟩
        | some bytes =>
            rw [hdecode] at h
            cases h
    | _ => cases h
  · rintro ⟨⟨blob, rfl, hdecode⟩, rfl⟩
    rw [Segment.ofTyped, hdecode]

theorem Makes.not_notBase64 (h : v.Makes s) : ¬ v.NotBase64 := by
  intro hbad
  rw [← makes_iff, ofTyped_eq_error_iff.mpr ⟨hbad, rfl⟩] at h
  cases h

/-- A typed value makes one segment only. -/
theorem Makes.eq {s' : Segment} (h : v.Makes s) (h' : v.Makes s') :
    s = s' := by
  rw [← makes_iff] at h h'
  exact Except.ok.inj (h.symm.trans h')

/-- The tag is one of the kind of the value. -/
theorem Makes.kind_eq (h : v.Makes s) : s.tag.kind = v.kind := by
  obtain ⟨value, rfl, rfl⟩ := h
  rw [ValueOf.kind_map]
  exact (Segment.holds_ofValue value).kind_eq

/-- A typed value makes a segment, unless its bytes are not in base64. -/
theorem makes_or_notBase64 (v : TypedValue) : (∃ s, v.Makes s) ∨ v.NotBase64 := by
  cases h : Segment.ofTyped v with
  | ok s => exact Or.inl ⟨s, makes_iff.mp h⟩
  | error e => exact Or.inr (ofTyped_eq_error_iff.mp h).1

end TypedValue

end SegmentWire
