import SegmentWire.Error

/-!
# Scans — counting segments without reading them

A scan walks over a buffer from header to header and skips the payloads. It knows nothing of
containers: a map of `n` pairs counts as `1 + 2 n` segments. A segment without a payload is
refused, although the reader accepts it.

* **`skipSegment`** — one step: the bytes after the first segment.
* **`countSegments`** — the number of segments in a buffer.
-/

namespace SegmentWire

/-- The declared payload length at the start of `buffer`, and the bytes after the size field. -/
def declaredLength (tag : Tag) (buffer : Bytes) : Except WireError (Nat × Bytes) :=
  match tag.layout with
  | .fixed width => .ok (width, buffer)
  | .sized field =>
    let digits := buffer.take field
    if digits.length < field then .error .truncatedSize
    else .ok (ofBigEndian digits, buffer.drop field)

/-- The bytes after a segment whose tag's byte is `code` and that goes on with `buffer`. -/
def skipSegment (code : UInt8) (buffer : Bytes) : Except WireError Bytes := do
  let tag ← Tag.ofCode code
  let (length, body) ← declaredLength tag buffer
  if length = 0 then throw (.emptySegment tag)
  let payload := body.take length
  if payload.length < length then throw (.shortRead length payload.length)
  return body.drop length

/-- A segment's tag is followed by no fewer bytes than its payload. -/
theorem declaredLength_le {tag : Tag} {buffer body : Bytes} {length : Nat}
    (h : declaredLength tag buffer = .ok (length, body)) : body.length ≤ buffer.length := by
  unfold declaredLength at h
  split at h
  · cases h
    exact Nat.le_refl _
  · simp only at h
    split at h
    · cases h
    · cases h
      rw [List.length_drop]
      omega

/-- A step leaves no more than was there after the tag. -/
theorem skipSegment_le {code : UInt8} {buffer rest : Bytes}
    (h : skipSegment code buffer = .ok rest) : rest.length ≤ buffer.length := by
  unfold skipSegment at h
  cases htag : Tag.ofCode code with
  | error e => rw [htag] at h; cases h
  | ok tag =>
    rw [htag] at h
    cases hlength : declaredLength tag buffer with
    | error e => simp only [hlength, bind, Except.bind] at h; cases h
    | ok found =>
      obtain ⟨length, body⟩ := found
      have hbody := declaredLength_le hlength
      simp only [hlength, bind, Except.bind, pure, Except.pure] at h
      split at h
      · cases h
      · split at h
        · cases h
        · cases h
          rw [List.length_drop]
          omega

/-- The number of segments in a buffer, added to those counted before. -/
def countFrom (counted : Nat) : Bytes → Except WireError Nat
  | [] => .ok counted
  | code :: buffer =>
    match _h : skipSegment code buffer with
    | .error e => .error e
    | .ok rest => countFrom (counted + 1) rest
termination_by bytes => bytes.length
decreasing_by exact Nat.lt_succ_of_le (skipSegment_le _h)

/-- A failed step ends the count. -/
theorem countFrom_of_error {code : UInt8} {buffer : Bytes} {e : WireError}
    (h : skipSegment code buffer = .error e) (counted : Nat) :
    countFrom counted (code :: buffer) = .error e := by
  rw [countFrom]
  split
  · next hstep => cases hstep.symm.trans h; rfl
  · next hstep => cases hstep.symm.trans h

/-- After a step the count goes on with what the step leaves. -/
theorem countFrom_of_ok {code : UInt8} {buffer rest : Bytes}
    (h : skipSegment code buffer = .ok rest) (counted : Nat) :
    countFrom counted (code :: buffer) = countFrom (counted + 1) rest := by
  rw [countFrom]
  split
  · next hstep => cases hstep.symm.trans h
  · next hstep => cases hstep.symm.trans h; rfl

/-- The number of segments in a buffer, which has to end with the last of them. -/
def countSegments (buffer : Bytes) : Except WireError Nat := countFrom 0 buffer

end SegmentWire
