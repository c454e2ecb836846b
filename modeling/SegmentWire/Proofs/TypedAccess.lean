import SegmentWire.Proofs.CanonicalForm

/-!
# Setters and accessors

A segment keeps no memory of what was stored in it before: a setter leaves the segment that is made
for the value, buffer and tag, whichever way that is made. An accessor looks at the tag before it
looks at the payload, so that a segment answers to one kind only, that of its tag, even where
another kind has the same width. With a payload that fits, nothing but text that is not UTF-8 can
then go wrong.

* **`Kind.tags`** — the family of a kind: the tags of the segments that are read as it, the regular one
  first.
* **`Segment.foldl_set`** — a run of setters leaves the segment of the last value.
* **`Segment.isLarge_ofValue_iff`** — the size class follows from the length or the count.
* **`Segment.get_of_other_family`**, **`Segment.Fits.get_of_family`** — what an accessor answers to
  tags of other families and of its own.
* **`Segment.typed_access_exact`** — setters and accessors together.
-/

namespace SegmentWire

-- ── Families of tags ─────────────────────────────────────────────────────────────

/-- The tag that a refusal names as the expected one. -/
def Kind.regularTag : Kind → Tag
  | documentStart => .documentStart
  | documentEnd => .documentEnd
  | int8 => .int8
  | uint8 => .uint8
  | int16 => .int16
  | uint16 => .uint16
  | int32 => .int32
  | uint32 => .uint32
  | int64 => .int64
  | uint64 => .uint64
  | bool => .bool
  | float32 => .float32
  | float64 => .float64
  | text => .string
  | binary => .binary
  | listIndex => .list
  | mapIndex => .map

/-- The tags of the segments that are read as a kind: two for what comes in two size classes. -/
def Kind.tags : Kind → List Tag
  | text => [.string, .hugeString]
  | binary => [.binary, .hugeBinary]
  | listIndex => [.list, .largeList]
  | mapIndex => [.map, .largeMap]
  | kind => [kind.regularTag]

/-- The tags of the size class that the regular one is promoted to. -/
def Tag.isLarge : Tag → Bool
  | hugeString | hugeBinary | largeList | largeMap => true
  | _ => false

/-- What a value has to fit the regular size class with: its length in bytes, or the count that it
    is. -/
def ValueOf.extent : Value → Nat
  | .text t => t.utf8ByteSize
  | .binary bytes => bytes.length
  | .listIndex count => count.toNat
  | .mapIndex count => count.toNat
  | _ => 0

/-- Every tag is in the family of its kind, and in no other. -/
theorem Kind.mem_tags_iff {kind : Kind} {tag : Tag} : tag ∈ kind.tags ↔ tag.kind = kind := by
  constructor
  · intro h
    cases kind <;> simp [Kind.tags, Kind.regularTag] at h <;> rcases h with rfl | rfl <;> rfl
  · rintro rfl
    cases tag <;> simp [Tag.kind, Kind.tags, Kind.regularTag]

/-- The two size classes of text are one family. -/
theorem Tag.isString_eq_true_iff {tag : Tag} : tag.isString = true ↔ tag ∈ Kind.text.tags := by
  cases tag <;> decide

/-- The two size classes of opaque bytes are one family. -/
theorem Tag.isBinary_eq_true_iff {tag : Tag} : tag.isBinary = true ↔ tag ∈ Kind.binary.tags := by
  cases tag <;> decide

namespace Segment

variable {s : Segment}

-- ── Setters ──────────────────────────────────────────────────────────────────────

/-- **A run of setters leaves the segment of the last value**, whatever the segment was before. The
    induction is on the run, for every segment that it begins with. -/
theorem foldl_set (s : Segment) (earlier : List Value) (v : Value) :
    (earlier.foldl set s).set v = ofValue v := by
  induction earlier generalizing s with
  | nil => exact set_eq s v
  | cons first earlier ih => exact ih (s.set first)

/-- One of two tags is chosen, by a bound that a size keeps or exceeds. -/
theorem isLarge_ite {size : Nat} {regular large : Tag} (hregular : regular.isLarge = false)
    (hlarge : large.isLarge = true) :
    (if size ≤ maxRegular then regular else large).isLarge = true ↔ maxRegular < size := by
  by_cases h : size ≤ maxRegular
  · rw [if_pos h, hregular]
    exact iff_of_false Bool.false_ne_true (Nat.not_lt.mpr h)
  · rw [if_neg h, hlarge]
    exact iff_of_true rfl (Nat.not_le.mp h)

/-- **A value is promoted to the large size class exactly if it exceeds the regular one.** -/
theorem isLarge_ofValue_iff (v : Value) :
    (ofValue v).tag.isLarge = true ↔ maxRegular < v.extent := by
  have hindex : ∀ (regular large : Tag) (count : UInt64),
      (indexOf regular large count).tag = if count.toNat ≤ maxRegular then regular else large := by
    intro regular large count
    rw [indexOf]
    split <;> rfl
  cases v with
  | text t => exact isLarge_ite rfl rfl
  | binary bytes => exact isLarge_ite rfl rfl
  | listIndex count =>
      show (indexOf .list .largeList count).tag.isLarge = true ↔ _
      rw [hindex]
      exact isLarge_ite rfl rfl
  | mapIndex count =>
      show (indexOf .map .largeMap count).tag.isLarge = true ↔ _
      rw [hindex]
      exact isLarge_ite rfl rfl
  | _ => exact iff_of_false Bool.false_ne_true (Nat.not_lt_zero _)

-- ── Accessors ────────────────────────────────────────────────────────────────────

/-- A number is asked for its tag before anything is made of it. -/
theorem number_bind_of_tag_ne {α : Type} {tag : Tag} (h : s.tag ≠ tag) (width : Nat)
    (next : Nat → Except WireError α) :
    (s.number tag width >>= next) = .error (.typeMismatch tag s.tag) := by
  rw [number, if_pos h]
  rfl

/-- An index is asked for its tag before it is asked for a count. -/
theorem countAs_of_tag_ne {regular large : Tag} (hregular : s.tag ≠ regular)
    (hlarge : s.tag ≠ large) :
    s.countAs regular large = .error (.typeMismatch regular s.tag) := by
  rw [countAs, if_neg hregular, if_neg hlarge]

/-- **An accessor refuses every tag of another family**, whatever the payload is. -/
theorem get_of_other_family {kind : Kind} (h : s.tag ∉ kind.tags) :
    s.get kind = .error (.typeMismatch kind.regularTag s.tag) := by
  cases kind with
  | text =>
      show (s.text >>= fun t => pure (ValueOf.text t)) = _
      rw [text, if_neg (mt Tag.isString_eq_true_iff.mp h)]
      rfl
  | binary =>
      show (s.binary >>= fun bytes => pure (ValueOf.binary bytes)) = _
      rw [binary, if_neg (mt Tag.isBinary_eq_true_iff.mp h)]
      rfl
  | listIndex =>
      simp only [Kind.tags, List.mem_cons, List.not_mem_nil, or_false, not_or] at h
      show (s.listCount >>= fun count => pure (ValueOf.listIndex count)) = _
      rw [listCount_eq_countAs, countAs_of_tag_ne h.1 h.2]
      rfl
  | mapIndex =>
      simp only [Kind.tags, List.mem_cons, List.not_mem_nil, or_false, not_or] at h
      show (s.mapCount >>= fun count => pure (ValueOf.mapIndex count)) = _
      rw [mapCount_eq_countAs, countAs_of_tag_ne h.1 h.2]
      rfl
  | documentStart =>
      have htag : s.tag ≠ .documentStart := List.ne_of_not_mem_cons h
      rw [get, version, number_bind_of_tag_ne htag]
      rfl
  | documentEnd =>
      have htag : s.tag ≠ .documentEnd := List.ne_of_not_mem_cons h
      rw [get, endCount, number_bind_of_tag_ne htag]
      rfl
  | _ => exact number_bind_of_tag_ne (List.ne_of_not_mem_cons h) _ _

/-- **An accessor answers to the tags of its own family**, except for text that is not UTF-8. -/
theorem Fits.get_of_family (hfits : s.Fits) {kind : Kind} (h : s.tag ∈ kind.tags) :
    (∃ v, s.get kind = .ok v ∧ s.Holds v) ∨
      kind = .text ∧ Utf8.decode? s.payload = none ∧ s.get kind = .error (.notUtf8 s.tag) := by
  obtain rfl := Kind.mem_tags_iff.mp h
  rcases hfits.holds_or with ⟨v, hholds⟩ | ⟨hstring, hdecode⟩
  · refine Or.inl ⟨v, ?_, hholds⟩
    rw [hholds.kind_eq]
    exact hholds.get_eq
  · have hkind : s.tag.kind = .text := Kind.mem_tags_iff.mp (Tag.isString_eq_true_iff.mp hstring)
    refine Or.inr ⟨hkind, hdecode, ?_⟩
    rw [hkind]
    show (s.text >>= fun t => pure (ValueOf.text t)) = _
    rw [text, if_pos hstring, hdecode]
    rfl

/-- What is read as text is UTF-8. -/
theorem decode?_ne_none_of_get_text {v : Value} (h : s.get .text = .ok v) :
    Utf8.decode? s.payload ≠ none := by
  obtain ⟨t, htext, -⟩ := bind_eq_ok_iff.mp h
  rw [Utf8.decode?_eq_some_iff.mpr (text_eq_ok_iff.mp htext).2]
  exact Option.some_ne_none t

/-- **Setters and accessors.** Whatever a segment was and whatever was stored in it since, a setter
    leaves the segment that is made for the value, be it converted to one or stored in a new one. This
    is read as the value again, its tag is of the family of the value's kind, and among the two tags
    of a family it is the large one exactly if the length or the count exceeds 65535. A reachable
    segment is read as the kind whose family its tag is of, and as no other, where it is refused by
    its tag alone; only text that is not UTF-8 is refused by its own kind. -/
theorem typed_access_exact :
    (∀ (s : Segment) (earlier : List Value) (v : Value),
      let stored := (earlier.foldl set s).set v
      stored = ofValue v ∧ stored = blank.set v ∧ stored.get v.kind = .ok v ∧
      stored.tag ∈ v.kind.tags ∧ (stored.tag.isLarge = true ↔ maxRegular < v.extent)) ∧
    ∀ s : Segment, (Item.segment s).Reachable → ∀ kind : Kind,
      ((∃ v, s.get kind = .ok v) ↔
        s.tag ∈ kind.tags ∧ (kind = .text → Utf8.decode? s.payload ≠ none)) ∧
      (s.tag ∈ kind.tags → kind = .text → Utf8.decode? s.payload = none →
        s.get kind = .error (.notUtf8 s.tag)) ∧
      (s.tag ∉ kind.tags → s.get kind = .error (.typeMismatch kind.regularTag s.tag)) := by
  constructor
  · intro s earlier v stored
    have hstored : stored = ofValue v := foldl_set s earlier v
    have hholds : stored.Holds v := hstored ▸ holds_ofValue v
    refine ⟨hstored, hstored.trans (set_eq blank v).symm, hholds.get_eq, ?_, ?_⟩
    · exact Kind.mem_tags_iff.mpr hholds.kind_eq
    · rw [hstored]
      exact isLarge_ofValue_iff v
  · intro s hreachable kind
    have hfits : s.Fits := hreachable.sound
    refine ⟨⟨?_, ?_⟩, ?_, get_of_other_family⟩
    · rintro ⟨v, hget⟩
      by_cases hfamily : s.tag ∈ kind.tags
      · refine ⟨hfamily, ?_⟩
        rintro rfl
        exact decode?_ne_none_of_get_text hget
      · rw [get_of_other_family hfamily] at hget
        cases hget
    · rintro ⟨hfamily, hutf8⟩
      rcases hfits.get_of_family hfamily with ⟨v, hget, -⟩ | ⟨htext, hdecode, -⟩
      · exact ⟨v, hget⟩
      · exact absurd hdecode (hutf8 htext)
    · rintro hfamily rfl hdecode
      rcases hfits.get_of_family hfamily with ⟨v, hget, -⟩ | ⟨-, -, hrefused⟩
      · exact absurd hdecode (decode?_ne_none_of_get_text hget)
      · exact hrefused

/-- A word of four bytes is no floating-point number of four bytes. A byte that begins no character, in
    a string of the large class, is neither text nor opaque bytes. A text that is stored over it in the
    same length is, in the regular class. -/
theorem typed_access_exact_same_width :
    let word : Segment := ofValue (.uint32 0)
    let broken : Segment := ⟨.hugeString, [255]⟩
    word.get .float32 = .error (.typeMismatch .float32 .uint32) ∧
    (∃ v, word.get .uint32 = .ok v) ∧
    broken.get .text = .error (.notUtf8 .hugeString) ∧
    broken.get .binary = .error (.typeMismatch .binary .hugeString) ∧
    (broken.set (.text "a")).get .text = .ok (.text "a") ∧
    (broken.set (.text "a")).tag.isLarge = false := by
  intro word broken
  have hword : (Item.segment word).Reachable := .ofValue _
  have hbroken : (Item.segment broken).Reachable :=
    .ofParts (show ofParts .hugeString [255] = .ok broken from rfl)
  obtain ⟨hset, haccess⟩ := typed_access_exact
  obtain ⟨-, -, hget, -, hclass⟩ := hset broken [] (.text "a")
  refine ⟨(haccess word hword .float32).2.2 (by decide),
    (haccess word hword .uint32).1.mpr ⟨by decide, nofun⟩,
    (haccess broken hbroken .text).2.1 (by decide) rfl (by decide +kernel),
    (haccess broken hbroken .binary).2.2 (by decide), hget, ?_⟩
  exact Bool.eq_false_iff.mpr (mt hclass.mp (by decide))

end Segment

end SegmentWire
