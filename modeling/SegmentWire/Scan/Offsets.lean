import SegmentWire.Scan

/-!
# Scans by offset — the same walk on machine words

The buffer is never cut up: a scan keeps an offset into it and moves that forward. All numbers are
words of 64 bits, as declared lengths are, which reach far behind any buffer. So each addition could
overflow and each access could leave the buffer; where one would, there is no outcome at all.

* **`Checked`** — outcomes on machine words, which may not exist.
* **`stepAt`** — one step: the offset behind the segment that begins at an offset.
* **`scanWords`** — the number of segments in a buffer.
-/

namespace SegmentWire

/-- An outcome on machine words. There is none where an operation would overflow, or where bytes
    outside the buffer would be taken. -/
abbrev Checked := ExceptT WireError Option

namespace Word

/-- The sum, unless it overflows. -/
def add? (a b : UInt64) : Option UInt64 :=
  if a.toNat + b.toNat ≤ maxWord then some (a + b) else none

/-- The difference, unless it is negative. -/
def sub? (a b : UInt64) : Option UInt64 := if b ≤ a then some (a - b) else none

/-- The big-endian number of some bytes, each shifted in from the right. What is shifted out on the
    left is lost. -/
def ofBytes (bytes : Bytes) : UInt64 :=
  bytes.foldl (fun n b => n <<< 8 ||| b.toUInt64) 0

end Word

theorem Word.toNat_of_add? {a b sum : UInt64} (h : add? a b = some sum) :
    sum.toNat = a.toNat + b.toNat := by
  rw [add?] at h
  split at h
  · next hle =>
    cases h
    rw [UInt64.toNat_add]
    exact Nat.mod_eq_of_lt (Nat.lt_succ_of_le hle)
  · cases h

theorem Checked.bind_eq_ok {α β : Type} {first : Checked α} {next : α → Checked β} {b : β}
    (h : (first >>= next) = some (.ok b)) :
    ∃ a, first = some (.ok a) ∧ next a = some (.ok b) := by
  cases first with
  | none => cases h
  | some outcome =>
    cases outcome with
    | error e => cases h
    | ok a => exact ⟨a, rfl, h⟩

theorem Checked.lift_eq_ok {α : Type} {outcome : Option α} {a : α}
    (h : (liftM outcome : Checked α) = some (.ok a)) : outcome = some a := by
  cases outcome with
  | none => cases h
  | some value =>
    cases h
    rfl

/-- The bytes between two offsets, if they are in order and within the buffer. -/
def slice? (buffer : Array UInt8) (start stop : UInt64) : Option Bytes :=
  if start ≤ stop ∧ stop.toNat ≤ buffer.size then
    some (buffer.extract start.toNat stop.toNat).toList
  else none

/-- The big-endian number of `width` bytes at an offset, and the offset behind it. -/
def numberAt (buffer : Array UInt8) (offset width : UInt64) : Checked (UInt64 × UInt64) :=
  match (Word.add? offset width).filter (· ≤ .ofNat buffer.size) with
  | none => throw .truncatedSize
  | some stop => do
    let digits ← (slice? buffer offset stop : Option Bytes)
    return (Word.ofBytes digits, stop)

/-- The declared payload length behind a tag, and the offset of the payload. -/
def lengthAt (buffer : Array UInt8) (tag : Tag) (offset : UInt64) : Checked (UInt64 × UInt64) :=
  match tag.layout with
  | .fixed width => return (.ofNat width, offset)
  | .sized field => numberAt buffer offset (.ofNat field)

/-- The offset behind the segment that begins at an offset. -/
def stepAt (buffer : Array UInt8) (offset : UInt64) : Checked UInt64 := do
  let code ← (buffer[offset.toNat]? : Option UInt8)
  let tag ← (Tag.ofCode code : Except WireError Tag)
  let offset ← (Word.add? offset 1 : Option UInt64)
  let (length, offset) ← lengthAt buffer tag offset
  if length = 0 then throw (.emptySegment tag)
  let remaining ← (Word.sub? (.ofNat buffer.size) offset : Option UInt64)
  if remaining < length then throw (.shortRead length.toNat remaining.toNat)
  (Word.add? offset length : Option UInt64)

-- ── Progress ─────────────────────────────────────────────────────────────────────

/-- A declared length is not found in front of where it was looked for. -/
theorem lengthAt_le {buffer : Array UInt8} {tag : Tag} {offset length body : UInt64}
    (h : lengthAt buffer tag offset = some (.ok (length, body))) :
    offset.toNat ≤ body.toNat := by
  unfold lengthAt at h
  cases hlayout : tag.layout with
  | fixed width =>
    rw [hlayout] at h
    cases h
    exact Nat.le_refl _
  | sized field =>
    rw [hlayout] at h
    unfold numberAt at h
    cases hstop : (Word.add? offset (.ofNat field)).filter (· ≤ .ofNat buffer.size) with
    | none =>
      simp only [hstop] at h
      cases h
    | some stop =>
      simp only [hstop] at h
      obtain ⟨digits, -, h⟩ := Checked.bind_eq_ok h
      cases h
      rw [Word.toNat_of_add? (Option.filter_eq_some_iff.mp hstop).1]
      omega

/-- A step goes forward. -/
theorem stepAt_lt {buffer : Array UInt8} {offset next : UInt64}
    (h : stepAt buffer offset = some (.ok next)) : offset.toNat < next.toNat := by
  obtain ⟨code, -, h⟩ := Checked.bind_eq_ok h
  obtain ⟨tag, -, h⟩ := Checked.bind_eq_ok h
  obtain ⟨behind, hbehind, h⟩ := Checked.bind_eq_ok h
  obtain ⟨⟨length, body⟩, hlength, h⟩ := Checked.bind_eq_ok h
  simp only at h
  split at h
  · cases h
  · obtain ⟨remaining, -, h⟩ := Checked.bind_eq_ok h
    split at h
    · cases h
    · have hfirst := Word.toNat_of_add? (Checked.lift_eq_ok hbehind)
      have hlast := Word.toNat_of_add? (Checked.lift_eq_ok h)
      have hle := lengthAt_le hlength
      have hone : (1 : UInt64).toNat = 1 := rfl
      omega

-- ── Counting ─────────────────────────────────────────────────────────────────────

/-- The number of segments from an offset on, added to those counted before. -/
def countAt (buffer : Array UInt8) (counted offset : UInt64) : Checked UInt64 :=
  if _hlt : offset.toNat < buffer.size then
    match _h : stepAt buffer offset with
    | none => none
    | some (.error e) => throw e
    | some (.ok next) => do countAt buffer (← (Word.add? counted 1 : Option UInt64)) next
  else return counted
termination_by buffer.size - offset.toNat
decreasing_by
  have := stepAt_lt _h
  omega

theorem countAt_of_error {buffer : Array UInt8} {counted offset : UInt64} {e : WireError}
    (hlt : offset.toNat < buffer.size) (h : stepAt buffer offset = some (.error e)) :
    countAt buffer counted offset = throw e := by
  rw [countAt, dif_pos hlt]
  split
  · next hstep => cases hstep.symm.trans h
  · next hstep => cases hstep.symm.trans h; rfl
  · next hstep => cases hstep.symm.trans h

theorem countAt_of_ok {buffer : Array UInt8} {counted offset next : UInt64}
    (hlt : offset.toNat < buffer.size) (h : stepAt buffer offset = some (.ok next)) :
    countAt buffer counted offset =
      (liftM (Word.add? counted 1) >>= fun counted => countAt buffer counted next) := by
  rw [countAt, dif_pos hlt]
  split
  · next hstep => cases hstep.symm.trans h
  · next hstep => cases hstep.symm.trans h
  · next hstep => cases hstep.symm.trans h; rfl

/-- The number of segments in a buffer, which has to end with the last of them. -/
def scanWords (buffer : Array UInt8) : Checked UInt64 := countAt buffer 0 0

end SegmentWire
