import SegmentWire.Proofs.JsonTrip
import SegmentWire.Proofs.TypedBuilding

/-!
# JSON values in the written form

The reading of JSON accepts more than is ever written: arrays in the place of objects, keys that mean
nothing, kinds in a second form. Nothing is lost of the objects that have the written form, whatever size
class their segments are stored in. Floating-point numbers are left out, since they are rounded when they
are read.

* **`Json.Number.Normal`** — whole numbers have one form each, as all have that are read from text
  (**`Json.NumberLiteral.normal_of_resolve?`**).
* **`Json.WrittenSegment`**, **`Json.WrittenDocument`**, **`Json.WrittenMessage`** — the objects with the
  keys that are written, and no others.
* **`TypedValue.toJson_of_written`** — one object; **`TypedValue.Makes.typed_eq`** is its segment.
* **`json_written_trip`** — what is accepted of these objects is written as it was.
-/

namespace SegmentWire

-- ── The written form ─────────────────────────────────────────────────────────────

namespace Json

/-- Of the whole numbers only those below zero have the negative form. -/
def Number.Normal : Number → Prop
  | natural _ => True
  | negative n => n.toInt < 0
  | real _ => True

/-- The object of a segment, of any type but the floating-point ones. -/
inductive WrittenSegment : Json → Prop
  | mk {name : String} {content : Json} (hsingle : name ≠ Kind.float32.name)
      (hdouble : name ≠ Kind.float64.name) (hnormal : ∀ n, content = .number n → n.Normal) :
      WrittenSegment (.object [("type", .text name), ("value", content)])

/-- The object of a document. -/
inductive WrittenDocument : Json → Prop
  | mk {items : List Json} (h : ∀ item ∈ items, WrittenSegment item) :
      WrittenDocument (.object [("segments", .array items)])

/-- The object of an attachment. -/
inductive WrittenAttachment : Json → Prop
  | mk {name field : Json} (h : WrittenSegment field) :
      WrittenAttachment (.object [("field", field), ("name", name)])

/-- The object of a message. -/
inductive WrittenMessage : Json → Prop
  | mk {items : List Json} {command : Json} (h : ∀ item ∈ items, WrittenAttachment item) :
      WrittenMessage (.object [("attachments", .array items), ("command", command)])

-- ── Whole numbers ────────────────────────────────────────────────────────────────

variable {content : Json} {low high i : Int}

/-- A whole number in its one form is told by its value. -/
theorem Number.Normal.ofInt_eq {n : Number} (h : n.Normal) (hi : n.toInt? = some i) :
    Number.ofInt i = n := by
  cases n with
  | natural w =>
      cases hi
      rw [ofInt, if_pos (Int.natCast_nonneg _), Int.toNat_natCast, UInt64.ofNat_toNat]
  | negative n =>
      cases hi
      rw [ofInt, if_neg (Int.not_le.mpr h), Int64.ofInt_toInt]
  | real x => cases hi

/-- The numbers of JSON text are in their one form. -/
theorem NumberLiteral.normal_of_resolve? {literal : NumberLiteral} {n : Number}
    (h : literal.resolve? = some n) : n.Normal := by
  unfold resolve? at h
  split at h
  · cases h
    trivial
  · next size _ _ =>
    split at h
    · next hsize =>
      obtain ⟨hpos, hle⟩ := hsize
      cases h
      show (Int64.ofInt (-(size : Int))).toInt < 0
      rw [Int64.toInt_ofInt_of_le (by omega) (by omega)]
      omega
    · obtain ⟨x, -, rfl⟩ := Option.map_eq_some_iff.mp h
      trivial
  · obtain ⟨x, -, rfl⟩ := Option.map_eq_some_iff.mp h
    trivial

/-- What is read as a whole number is that number, within the bounds. -/
theorem eq_of_int? (h : content.int? low high = some i)
    (hnormal : ∀ n, content = .number n → n.Normal) :
    content = .number (.ofInt i) ∧ low ≤ i ∧ i ≤ high := by
  cases content with
  | number n =>
      obtain ⟨j, hj, hbounds⟩ := Option.bind_eq_some_iff.mp h
      split at hbounds
      · next hin =>
        cases hbounds
        exact ⟨congrArg _ ((hnormal n rfl).ofInt_eq hj).symm, hin⟩
      · cases hbounds
  | _ => cases h

/-- What is read as a whole number without a sign is a natural number. -/
theorem eq_of_int?_zero (h : content.int? 0 high = some i)
    (hnormal : ∀ n, content = .number n → n.Normal) :
    content = .number (.natural (.ofNat i.toNat)) ∧ (i.toNat : Int) ≤ high := by
  obtain ⟨rfl, hlow, hhigh⟩ := eq_of_int? h hnormal
  refine ⟨congrArg _ (if_pos hlow), ?_⟩
  rwa [Int.toNat_of_nonneg hlow]

theorem eq_of_word? {w : UInt64} (h : content.word? = some w)
    (hnormal : ∀ n, content = .number n → n.Normal) : content = .number (.natural w) := by
  obtain ⟨i, hi, rfl⟩ := Option.map_eq_some_iff.mp h
  exact (eq_of_int?_zero hi hnormal).1

end Json

-- ── Typed values ─────────────────────────────────────────────────────────────────

/-- A kind is found by no name but its own. -/
theorem Kind.name_of_ofName? {name : String} {kind : Kind} (h : ofName? name = some kind) :
    kind.name = name := by
  have hfound := List.find?_some h
  exact eq_of_beq hfound

namespace TypedValue

variable {content : Json} {kind : Kind} {v : TypedValue}

/-- A content is read as a value of the kind that is asked for. -/
theorem kind_of_ofContent? (h : ofContent? content kind = some v) : v.kind = kind := by
  cases kind <;> obtain ⟨_, -, rfl⟩ := Option.map_eq_some_iff.mp h <;> rfl

/-- **What is read of a content is written as that content**, unless it is a floating-point number. -/
theorem content_of_ofContent? (h : ofContent? content kind = some v) (hsingle : kind ≠ .float32)
    (hdouble : kind ≠ .float64) (hnormal : ∀ n, content = .number n → n.Normal) :
    v.content = content := by
  cases kind with
  | float32 => exact absurd rfl hsingle
  | float64 => exact absurd rfl hdouble
  | bool =>
      obtain ⟨b, hb, rfl⟩ := Option.map_eq_some_iff.mp h
      cases content <;> cases hb
      rfl
  | text =>
      obtain ⟨t, ht, rfl⟩ := Option.map_eq_some_iff.mp h
      cases content <;> cases ht
      rfl
  | binary =>
      obtain ⟨blob, hblob, rfl⟩ := Option.map_eq_some_iff.mp h
      cases content <;> cases hblob
      rfl
  | int8 =>
      obtain ⟨i, hi, rfl⟩ := Option.map_eq_some_iff.mp h
      obtain ⟨rfl, hlow, hhigh⟩ := Json.eq_of_int? hi hnormal
      have hread := Int8.toInt_ofInt_of_le hlow (Int.lt_add_one_of_le hhigh)
      exact congrArg (fun n => Json.number (.ofInt n)) hread
  | int16 =>
      obtain ⟨i, hi, rfl⟩ := Option.map_eq_some_iff.mp h
      obtain ⟨rfl, hlow, hhigh⟩ := Json.eq_of_int? hi hnormal
      have hread := Int16.toInt_ofInt_of_le hlow (Int.lt_add_one_of_le hhigh)
      exact congrArg (fun n => Json.number (.ofInt n)) hread
  | int32 =>
      obtain ⟨i, hi, rfl⟩ := Option.map_eq_some_iff.mp h
      obtain ⟨rfl, hlow, hhigh⟩ := Json.eq_of_int? hi hnormal
      have hread := Int32.toInt_ofInt_of_le hlow (Int.lt_add_one_of_le hhigh)
      exact congrArg (fun n => Json.number (.ofInt n)) hread
  | int64 =>
      obtain ⟨i, hi, rfl⟩ := Option.map_eq_some_iff.mp h
      obtain ⟨rfl, hlow, hhigh⟩ := Json.eq_of_int? hi hnormal
      have hread := Int64.toInt_ofInt_of_le hlow (Int.lt_add_one_of_le hhigh)
      exact congrArg (fun n => Json.number (.ofInt n)) hread
  | documentStart =>
      obtain ⟨i, hi, rfl⟩ := Option.map_eq_some_iff.mp h
      obtain ⟨rfl, hhigh⟩ := Json.eq_of_int?_zero hi hnormal
      have hread := UInt8.toUInt64_ofNat' (Nat.lt_succ_of_le (Int.ofNat_le.mp hhigh))
      exact congrArg (fun n => Json.number (.natural n)) hread
  | uint8 =>
      obtain ⟨i, hi, rfl⟩ := Option.map_eq_some_iff.mp h
      obtain ⟨rfl, hhigh⟩ := Json.eq_of_int?_zero hi hnormal
      have hread := UInt8.toUInt64_ofNat' (Nat.lt_succ_of_le (Int.ofNat_le.mp hhigh))
      exact congrArg (fun n => Json.number (.natural n)) hread
  | uint16 =>
      obtain ⟨i, hi, rfl⟩ := Option.map_eq_some_iff.mp h
      obtain ⟨rfl, hhigh⟩ := Json.eq_of_int?_zero hi hnormal
      have hread := UInt16.toUInt64_ofNat' (Nat.lt_succ_of_le (Int.ofNat_le.mp hhigh))
      exact congrArg (fun n => Json.number (.natural n)) hread
  | uint32 =>
      obtain ⟨i, hi, rfl⟩ := Option.map_eq_some_iff.mp h
      obtain ⟨rfl, hhigh⟩ := Json.eq_of_int?_zero hi hnormal
      have hread := UInt32.toUInt64_ofNat' (Nat.lt_succ_of_le (Int.ofNat_le.mp hhigh))
      exact congrArg (fun n => Json.number (.natural n)) hread
  | documentEnd =>
      obtain ⟨count, hcount, rfl⟩ := Option.map_eq_some_iff.mp h
      exact (Json.eq_of_word? hcount hnormal).symm
  | uint64 =>
      obtain ⟨n, hn, rfl⟩ := Option.map_eq_some_iff.mp h
      exact (Json.eq_of_word? hn hnormal).symm
  | listIndex =>
      obtain ⟨count, hcount, rfl⟩ := Option.map_eq_some_iff.mp h
      exact (Json.eq_of_word? hcount hnormal).symm
  | mapIndex =>
      obtain ⟨count, hcount, rfl⟩ := Option.map_eq_some_iff.mp h
      exact (Json.eq_of_word? hcount hnormal).symm

/-- Only floating-point numbers may fail to be finite. -/
theorem finite_of_kind (hsingle : v.kind ≠ .float32) (hdouble : v.kind ≠ .float64) : v.Finite := by
  cases v with
  | float32 x => exact absurd rfl hsingle
  | float64 x => exact absurd rfl hdouble
  | _ => trivial

/-- **The value that is read of a segment's object has that object.** -/
theorem toJson_of_written {value : Json} (hform : value.WrittenSegment) (h : ofJson? value = some v) :
    v.toJson = value ∧ v.Finite := by
  obtain ⟨hsingle, hdouble, hnormal⟩ := hform
  obtain ⟨kind, hkind, hcontent⟩ := Option.bind_eq_some_iff.mp h
  have hname := Kind.name_of_ofName? hkind
  obtain rfl := kind_of_ofContent? hcontent
  rw [← hname] at hsingle hdouble
  have hsingle := ne_of_apply_ne Kind.name hsingle
  have hdouble := ne_of_apply_ne Kind.name hdouble
  refine ⟨?_, finite_of_kind hsingle hdouble⟩
  rw [toJson, hname, content_of_ofContent? hcontent hsingle hdouble hnormal]

/-- The segment that a value makes has this value again. -/
theorem Makes.typed_eq {s : Segment} (h : v.Makes s) (hfinite : v.Finite) : s.typed = .ok v := by
  obtain ⟨value, rfl, rfl⟩ := h
  have hvalue := Segment.value_eq_ok_iff.mpr (Segment.holds_ofValue value)
  refine Segment.typed_eq hvalue ?_
  cases value <;> exact hfinite

end TypedValue

-- ── Segments, documents and messages ─────────────────────────────────────────────

/-- What is accepted of a segment's object is written as it was. -/
theorem Segment.toJson_of_written {value : Json} {s : Segment} (hform : value.WrittenSegment)
    (h : ofJson value = .ok s) : s.toJson = .ok value := by
  rw [ofJson] at h
  split at h
  · next v hread =>
    obtain ⟨rfl, hfinite⟩ := TypedValue.toJson_of_written hform hread
    rw [toJson, (TypedValue.makes_iff.mp h).typed_eq hfinite]
    rfl
  · cases h

/-- The values that make the members of a document are those that it is written with. -/
theorem Document.typed_of_makesMember {d : Document} {values : List TypedValue}
    (hfinite : ∀ v ∈ values, v.Finite) (h : List.Forall₂ MakesMember values d.members.toList) :
    d.typed = .ok values := by
  have hboth := (List.forall₂_and_left _ _).mpr ⟨hfinite, h⟩
  refine mapM_eq_ok_iff.mpr (hboth.imp fun v s hmakes => ?_).flip
  exact hmakes.2.1.typed_eq hmakes.1

/-- What is accepted of a document's object is written as it was. -/
theorem Document.toJson_of_written {value : Json} {d : Document} (hform : value.WrittenDocument)
    (h : ofJson value = .ok d) : d.toJson = .ok value := by
  obtain ⟨hitems⟩ := hform
  rw [ofJson] at h
  split at h
  · next values hread =>
    obtain ⟨hmap, hfinite⟩ := map_eq_of_mapM hread fun item hmem v hv =>
      TypedValue.toJson_of_written (hitems item hmem) hv
    rw [toJson, typed_of_makesMember hfinite (members_of_ofTyped h), ← hmap]
    rfl
  · cases h

/-- The attachment that is read of an object has that object. -/
theorem TypedMessage.attachmentToJson_of_written {value : Json} {attachment : String × TypedValue}
    (hform : value.WrittenAttachment) (h : attachmentOfJson? value = some attachment) :
    attachmentToJson attachment = value ∧ attachment.2.Finite := by
  obtain @⟨name, field, hfield⟩ := hform
  have h : (name.text? >>= fun text => TypedValue.ofJson? field >>= fun v => some (text, v)) =
      some attachment := h
  obtain ⟨text, htext, h⟩ := Option.bind_eq_some_iff.mp h
  obtain ⟨v, hv, ⟨⟩⟩ := Option.bind_eq_some_iff.mp h
  cases name <;> cases htext
  obtain ⟨rfl, hfinite⟩ := TypedValue.toJson_of_written hfield hv
  exact ⟨rfl, hfinite⟩

/-- The attachments that make the pairs of a message are those that it is written with. -/
theorem Message.typed_of_makesPair {m : Message} {t : TypedMessage}
    (hcommand : m.command = t.command) (hfinite : ∀ attachment ∈ t.attachments, attachment.2.Finite)
    (h : List.Forall₂ TypedMessage.MakesPair t.attachments m.attachments.entries.toList) :
    m.typed = .ok t := by
  have hboth := (List.forall₂_and_left _ _).mpr ⟨hfinite, h⟩
  refine bind_eq_ok_iff.mpr ⟨t.attachments, ?_, by rw [hcommand]; rfl⟩
  refine mapM_eq_ok_iff.mpr (hboth.imp fun attachment pair hpair => ?_).flip
  obtain ⟨hfinite, hname, hmakes⟩ := hpair
  show (pair.2.segment.typed >>= fun v => pure (pair.1, v)) = _
  rw [hmakes.typed_eq hfinite, hname]
  rfl

/-- What is accepted of a message's object is written as it was. -/
theorem Message.toJson_of_written {value : Json} {m : Message} (hform : value.WrittenMessage)
    (h : ofJson value = .ok m) : m.toJson = .ok value := by
  obtain @⟨items, command, hitems⟩ := hform
  rw [ofJson] at h
  split at h
  · next t hread =>
    have hread : (command.text? >>= fun text => TypedMessage.attachmentsOfJson? (.array items) >>=
        fun attachments => some ⟨text, attachments⟩) = some t := hread
    obtain ⟨text, htext, hread⟩ := Option.bind_eq_some_iff.mp hread
    obtain ⟨attachments, hattachments, ⟨⟩⟩ := Option.bind_eq_some_iff.mp hread
    cases command <;> cases htext
    obtain ⟨hmap, hfinite⟩ := map_eq_of_mapM hattachments fun item hmem attachment hread =>
      TypedMessage.attachmentToJson_of_written (hitems item hmem) hread
    obtain ⟨hcommand, -, hpairs⟩ := attachments_of_ofTyped h
    rw [toJson, typed_of_makesPair hcommand hfinite hpairs]
    show Except.ok (TypedMessage.toJson _) = _
    rw [TypedMessage.toJson, hmap]
  · cases h

/-- **JSON to segments and back.** What is accepted of an object in the written form, of a segment, a
    document or a message, and without floating-point numbers, is written as that very object
    again. -/
theorem json_written_trip :
    (∀ (value : Json) (s : Segment), value.WrittenSegment → Segment.ofJson value = .ok s →
      s.toJson = .ok value) ∧
    (∀ (value : Json) (d : Document), value.WrittenDocument → Document.ofJson value = .ok d →
      d.toJson = .ok value) ∧
    ∀ (value : Json) (m : Message), value.WrittenMessage → Message.ofJson value = .ok m →
      m.toJson = .ok value :=
  ⟨fun _ _ => Segment.toJson_of_written, fun _ _ => Document.toJson_of_written,
    fun _ _ => Message.toJson_of_written⟩

/-- The index of a list that is too long for the regular size class is stored in the large one, and is
    written with the same count. With it goes a document, and with a number below zero a message. -/
theorem json_written_trip_large_index :
    let index : Json := .object [("type", .text "list_index"), ("value", .number (.natural 70000))]
    let number : Json := .object [("type", .text "i8"), ("value", .number (.negative (-5)))]
    let document : Json := .object [("segments", .array [number, index])]
    let attachment : Json := .object [("field", number), ("name", .text "a")]
    let message : Json := .object [("attachments", .array [attachment]), ("command", .text "c")]
    (∃ s, Segment.ofJson index = .ok s ∧ s.tag = .largeList ∧ s.toJson = .ok index) ∧
    (∃ d, Document.ofJson document = .ok d ∧ d.length = 2 ∧ d.toJson = .ok document) ∧
    ∃ m, Message.ofJson message = .ok m ∧ m.command = "c" ∧ m.toJson = .ok message := by
  intro index number document attachment message
  have hindex : index.WrittenSegment := by
    refine ⟨by decide, by decide, ?_⟩
    rintro n ⟨⟩
    trivial
  have hnumber : number.WrittenSegment := by
    refine ⟨by decide, by decide, ?_⟩
    rintro n ⟨⟩
    show Int64.toInt (-5) < 0
    decide
  have hdocument : document.WrittenDocument := by
    refine ⟨?_⟩
    rintro item (_ | ⟨_, _ | ⟨_, ⟨⟩⟩⟩)
    · exact hnumber
    · exact hindex
  have hmessage : message.WrittenMessage := by
    refine ⟨?_⟩
    rintro item (_ | ⟨_, ⟨⟩⟩)
    exact ⟨hnumber⟩
  obtain ⟨hsegment, hdocuments, hmessages⟩ := json_written_trip
  have hs : Segment.ofJson index = .ok (Segment.listIndex 70000) := rfl
  have hd : Document.ofJson document =
      .ok ⟨#[Segment.ofValue (.int8 (-5)), Segment.listIndex 70000]⟩ := rfl
  have hbuildable : TypedMessage.Buildable [("a", .int8 (-5))] := by
    refine ⟨List.nodup_singleton _, ?_, ?_⟩
    · rintro _ (_ | ⟨_, ⟨⟩⟩) ⟨blob, ⟨⟩, -⟩
    · rintro _ (_ | ⟨_, ⟨⟩⟩)
      exact ⟨nofun, nofun⟩
  obtain ⟨m, hbuilt⟩ := Message.exists_ofTyped_iff (t := ⟨"c", _⟩).mpr hbuildable
  have hm : Message.ofJson message = .ok m := hbuilt
  exact ⟨⟨_, hs, by decide, hsegment index _ hindex hs⟩,
    ⟨_, hd, rfl, hdocuments document _ hdocument hd⟩,
    ⟨m, hm, (Message.attachments_of_ofTyped hbuilt).1, hmessages message m hmessage hm⟩⟩

end SegmentWire
