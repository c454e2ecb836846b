import SegmentWire.FieldMap
import SegmentWire.Proofs.Payload
import SegmentWire.Proofs.SegmentCodec

/-!
# Indices of containers

A container begins with an index that states the number of its members. Two size classes of index
can state a small number; which one stands on the wire is up to the writer.

* **`Segment.StatesCount`** — the segments that are an index of a given number of members.
* **`Segment.countAs_eq_ok_iff`** — a reader takes both size classes.
* **`Segment.indexOf_statesCount`** — a writer chooses one of them, by the number alone.
* **`checkContainer_decodes`** — the limit on the number.
-/

namespace SegmentWire

namespace Segment

variable {s : Segment}

/-- The segment is an index that states this number of members: of the regular size class, which
    reaches to 65535, or of the large one. -/
def StatesCount (regular large : Tag) (count : Nat) (s : Segment) : Prop :=
  (count ≤ maxRegular ∧ s = ⟨regular, bigEndian 2 count⟩) ∨
    (count ≤ maxWord ∧ s = ⟨large, bigEndian 8 count⟩)

theorem StatesCount.le_maxWord {regular large : Tag} {count : Nat}
    (h : StatesCount regular large count s) : count ≤ maxWord := by
  rcases h with ⟨hle, -⟩ | ⟨hle, -⟩
  · exact Nat.le_trans hle (by decide)
  · exact hle

/-- Every reader accepts an index: its payload has a fixed width. -/
theorem StatesCount.admitted {regular large : Tag} (hregular : regular.layout = .fixed 2)
    (hlarge : large.layout = .fixed 8) {count : Nat} (h : StatesCount regular large count s)
    (limits : Limits) : s.Admitted limits := by
  rcases h with ⟨-, rfl⟩ | ⟨-, rfl⟩
  · exact admitted_of_fixed (s := ⟨regular, bigEndian 2 count⟩) hregular (length_bigEndian 2 count)
      limits
  · exact admitted_of_fixed (s := ⟨large, bigEndian 8 count⟩) hlarge (length_bigEndian 8 count)
      limits

theorem StatesCount.wellFormed {regular large : Tag} (hregular : regular.layout = .fixed 2)
    (hlarge : large.layout = .fixed 8) {count : Nat} (h : StatesCount regular large count s) :
    s.WellFormed :=
  (h.admitted hregular hlarge .unbounded).wellFormed

-- ── Reading a count ──────────────────────────────────────────────────────────────

/-- The member count in an index of either size class of one kind of container. -/
def countAs (regular large : Tag) (s : Segment) : Except WireError UInt64 :=
  if s.tag = regular then s.number regular 2 >>= fun n => pure (.ofNat n)
  else if s.tag = large then s.number large 8 >>= fun n => pure (.ofNat n)
  else .error (.typeMismatch regular s.tag)

theorem mapCount_eq_countAs (s : Segment) : s.mapCount = s.countAs .map .largeMap := by
  obtain ⟨tag, payload⟩ := s
  cases tag <;> rfl

theorem listCount_eq_countAs (s : Segment) : s.listCount = s.countAs .list .largeList := by
  obtain ⟨tag, payload⟩ := s
  cases tag <;> rfl

/-- A count is read from exactly the indices that state it. -/
theorem countAs_eq_ok_iff {regular large : Tag} (hne : large ≠ regular) {count : UInt64} :
    s.countAs regular large = .ok count ↔ StatesCount regular large count.toNat s := by
  rw [countAs]
  constructor
  · intro h
    split at h
    · obtain ⟨hlt, hs⟩ := (word_eq_ok_iff (by decide)).mp h
      exact Or.inl ⟨Nat.le_of_lt_succ hlt, hs⟩
    · split at h
      · obtain ⟨hlt, hs⟩ := (word_eq_ok_iff (by decide)).mp h
        exact Or.inr ⟨Nat.le_of_lt_succ hlt, hs⟩
      · cases h
  · rintro (⟨hle, hs⟩ | ⟨hle, hs⟩)
    · rw [if_pos (congrArg tag hs)]
      exact (word_eq_ok_iff (by decide)).mpr ⟨Nat.lt_succ_of_le hle, hs⟩
    · have htag : s.tag = large := congrArg tag hs
      rw [if_neg (htag ▸ hne), if_pos htag]
      exact (word_eq_ok_iff (by decide)).mpr ⟨Nat.lt_succ_of_le hle, hs⟩

/-- A pair count is read from exactly the map indices that state it. -/
theorem mapCount_eq_ok_iff {count : UInt64} :
    s.mapCount = .ok count ↔ StatesCount .map .largeMap count.toNat s := by
  rw [mapCount_eq_countAs, countAs_eq_ok_iff (by decide)]

/-- An item count is read from exactly the list indices that state it. -/
theorem listCount_eq_ok_iff {count : UInt64} :
    s.listCount = .ok count ↔ StatesCount .list .largeList count.toNat s := by
  rw [listCount_eq_countAs, countAs_eq_ok_iff (by decide)]

/-- So an index states what is read from it. -/
theorem StatesCount.mapCount_eq {count : Nat} (h : StatesCount .map .largeMap count s) :
    s.mapCount = .ok (.ofNat count) :=
  mapCount_eq_ok_iff.mpr ((toNat_ofNat_of_le h.le_maxWord).symm ▸ h)

theorem StatesCount.listCount_eq {count : Nat} (h : StatesCount .list .largeList count s) :
    s.listCount = .ok (.ofNat count) :=
  listCount_eq_ok_iff.mpr ((toNat_ofNat_of_le h.le_maxWord).symm ▸ h)

-- ── Writing a count ──────────────────────────────────────────────────────────────

/-- The index that a writer chooses for a number of members: the smallest that can state it. -/
def indexOf (regular large : Tag) (count : UInt64) : Segment :=
  if count.toNat ≤ maxRegular then ⟨regular, bigEndian 2 count.toNat⟩
  else ⟨large, bigEndian 8 count.toNat⟩

/-- The number of members decides the tag of the index. -/
theorem tag_indexOf {regular large : Tag} {count : Nat} (h : count ≤ maxWord) :
    (indexOf regular large (.ofNat count)).tag =
      if count ≤ maxRegular then regular else large := by
  rw [indexOf, toNat_ofNat_of_le h]
  split <;> rfl

/-- The index that a writer chooses states the number of members. -/
theorem indexOf_statesCount {regular large : Tag} {count : Nat} (h : count ≤ maxWord) :
    StatesCount regular large count (indexOf regular large (.ofNat count)) := by
  rw [indexOf, toNat_ofNat_of_le h]
  split
  · next hle => exact Or.inl ⟨hle, rfl⟩
  · exact Or.inr ⟨h, rfl⟩

theorem mapIndex_statesCount {count : Nat} (h : count ≤ maxWord) :
    StatesCount .map .largeMap count (mapIndex (.ofNat count)) := indexOf_statesCount h

theorem listIndex_statesCount {count : Nat} (h : count ≤ maxWord) :
    StatesCount .list .largeList count (listIndex (.ofNat count)) := indexOf_statesCount h

/-- An index that states the number of members is the one that a writer chooses, or it is a large
    one in a place where a regular one would do. -/
theorem StatesCount.eq_indexOf_or {regular large : Tag} {count : Nat}
    (h : StatesCount regular large count s) :
    s = indexOf regular large (.ofNat count) ∨ count ≤ maxRegular ∧
      s = ⟨large, bigEndian 8 count⟩ ∧
      indexOf regular large (.ofNat count) = ⟨regular, bigEndian 2 count⟩ := by
  have hword := toNat_ofNat_of_le h.le_maxWord
  rw [indexOf, hword]
  rcases h with ⟨hle, rfl⟩ | ⟨-, rfl⟩
  · rw [if_pos hle]
    exact Or.inl rfl
  · by_cases hle : count ≤ maxRegular
    · rw [if_pos hle]
      exact Or.inr ⟨hle, rfl, rfl⟩
    · rw [if_neg hle]
      exact Or.inl rfl

theorem indexOf_wellFormed {regular large : Tag} (hregular : regular.layout = .fixed 2)
    (hlarge : large.layout = .fixed 8) (count : UInt64) :
    (indexOf regular large count).WellFormed := by
  rw [← UInt64.ofNat_toNat (x := count)]
  exact (indexOf_statesCount (Nat.le_of_lt_succ count.toNat_lt)).wellFormed hregular hlarge

theorem mapIndex_wellFormed (count : UInt64) : (mapIndex count).WellFormed :=
  indexOf_wellFormed rfl rfl count

theorem listIndex_wellFormed (count : UInt64) : (listIndex count).WellFormed :=
  indexOf_wellFormed rfl rfl count

end Segment

/-- A check of a member count needs no bytes. -/
theorem checkContainer_decodes (limits : Limits) (count : Nat) :
    (checkContainer count).Decodes limits (fun _ e => count ≤ limits.container ∧ e = []) := by
  refine (Reader.decodes_limits.bind fun bounds => Reader.Decodes.unless fun _ =>
    Reader.decodes_pure ()).congr fun _ e => ?_
  constructor
  · rintro ⟨bounds, e₁, e₂, ⟨rfl, rfl⟩, ⟨hle, -, rfl⟩, rfl⟩
    exact ⟨Nat.not_lt.mp hle, rfl⟩
  · rintro ⟨hle, rfl⟩
    exact ⟨limits, [], [], ⟨rfl, rfl⟩, ⟨Nat.not_lt.mpr hle, rfl, rfl⟩, rfl⟩

end SegmentWire
