import SegmentWire.Proofs.CanonicalEnvelopes
import SegmentWire.Proofs.Formless
import SegmentWire.Proofs.JsonText
import SegmentWire.Proofs.WrittenForm

/-!
# Messages and documents to JSON and back

What is true of a segment is true of all attachments of a message and all members of a document at once.
The first of them without a JSON form decides the outcome. If there is none, the way back cannot fail: no
name stands there twice, no attachment is a container index and no member an end marker, since none was
before and canonical forms are of the same kinds.

* **`Segment.Fits.makes_canonical`** — the typed value of a segment makes its canonical form.
* **`TypedMessage.ofJson?_toJson`**, **`Document.typedOfJson?_toJson`** — objects are read as they were
  written; **`ValueOf.PrintsBack`** is what text needs besides.
* **`Message.trip_of_typed`**, **`Message.text_trip_of_typed`**, **`Document.trip_of_typed`** — the way
  there and back, once the parts have typed values.
* **`envelope_json_trip`** — the outcome for all messages and documents.
-/

namespace SegmentWire

-- ── The objects are read as they were written ────────────────────────────────────

namespace TypedMessage

theorem attachmentOfJson?_toJson {attachment : String × TypedValue} (h : attachment.2.Finite) :
    attachmentOfJson? (attachmentToJson attachment) = some attachment := by
  show ((TypedValue.ofJson? attachment.2.toJson).bind fun v => some (attachment.1, v)) = _
  rw [TypedValue.ofJson?_toJson h]
  rfl

/-- **The object of a message is read as this message**, if its numbers are finite. -/
theorem ofJson?_toJson {t : TypedMessage} (h : ∀ attachment ∈ t.attachments, attachment.2.Finite) :
    ofJson? t.toJson = some t := by
  have hattachments := mapM_map_eq_some fun attachment hmem =>
    attachmentOfJson?_toJson (h attachment hmem)
  show ((t.attachments.map attachmentToJson).mapM attachmentOfJson?).bind
    (fun attachments => some (TypedMessage.mk t.command attachments)) = some t
  rw [hattachments]
  rfl

end TypedMessage

/-- The object of a document is read as its members, if their numbers are finite. -/
theorem Document.typedOfJson?_toJson {values : List TypedValue} (h : ∀ v ∈ values, v.Finite) :
    typedOfJson? (.object [("segments", .array (values.map TypedValue.toJson))]) = some values :=
  mapM_map_eq_some fun v hmem => TypedValue.ofJson?_toJson (h v hmem)

-- ── What text needs ──────────────────────────────────────────────────────────────

/-- A floating-point number in it is read from JSON text as the number that it is. -/
def ValueOf.PrintsBack {Blob : Type} : ValueOf Blob → Prop
  | .float32 x => (Json.Number.real x.convert).ReadsBack
  | .float64 x => (Json.Number.real x).ReadsBack
  | _ => True

theorem ValueOf.PrintsBack.map {Blob Blob' : Type} {v : ValueOf Blob} (h : v.PrintsBack)
    (change : Blob → Blob') : (v.map change).PrintsBack := by
  cases v <;> exact h

/-- The same for the value of a segment. -/
def Segment.PrintsBack (s : Segment) : Prop := ∀ v, s.value = .ok v → v.PrintsBack

namespace TypedValue

open Json.Number (readsBack_natural readsBack_ofInt)

variable {v : TypedValue}

/-- The content of a typed value can be read from text. -/
theorem readable_content (h : v.PrintsBack) (depth : Nat) : v.content.Readable depth := by
  cases v with
  | bool b => exact .bool depth b
  | text t => exact .text depth t
  | binary blob => exact .text depth blob
  | float32 x => exact .number depth h
  | float64 x => exact .number depth h
  | int8 n => exact .number depth (readsBack_ofInt (Int.le_trans (by decide) n.le_toInt))
  | int16 n => exact .number depth (readsBack_ofInt (Int.le_trans (by decide) n.le_toInt))
  | int32 n => exact .number depth (readsBack_ofInt (Int.le_trans (by decide) n.le_toInt))
  | int64 n => exact .number depth (readsBack_ofInt n.le_toInt)
  | _ => exact .number depth (readsBack_natural _)

/-- The object of a typed value can be read from text. -/
theorem readable_toJson (h : v.PrintsBack) (depth : Nat) : v.toJson.Readable (depth + 1) :=
  .pair (by decide) (.text depth v.kind.name) (readable_content h depth)

end TypedValue

/-- **The object of a message can be read from text**: it is no more than four arrays and objects deep. -/
theorem TypedMessage.readable_toJson {t : TypedMessage}
    (h : ∀ attachment ∈ t.attachments, attachment.2.PrintsBack) (depth : Nat) :
    t.toJson.Readable (depth + 4) := by
  refine .pair (by decide) (.array fun item hitem => ?_) (.text _ t.command)
  obtain ⟨attachment, hmem, rfl⟩ := List.mem_map.mp hitem
  exact .pair (by decide) (TypedValue.readable_toJson (h attachment hmem) depth)
    (.text _ attachment.1)

-- ── There and back ───────────────────────────────────────────────────────────────

/-- The typed value of a segment makes its canonical form. -/
theorem Segment.Fits.makes_canonical {s : Segment} {v : TypedValue} (h : s.Fits)
    (htyped : s.typed = .ok v) :
    v.Makes s.canonical ∧ v.Finite ∧ (s.PrintsBack → v.PrintsBack) := by
  obtain ⟨value, hvalue, hfinite, hv, hcanonical⟩ :=
    h.exists_typed (h.exists_typed_iff.mp ⟨v, htyped⟩)
  cases htyped.symm.trans hv
  exact ⟨⟨value, rfl, hcanonical⟩, hfinite.map _, fun hprints => (hprints value hvalue).map _⟩

namespace Message

variable {m : Message} {t : TypedMessage}

/-- What holds of the typed values of all attachments. -/
theorem forall_of_typed {P : TypedValue → Prop} (htyped : m.typed = .ok t)
    (hP : ∀ pair ∈ m.attachments.entries.toList, ∀ v, pair.2.segment.typed = .ok v → P v) :
    ∀ attachment ∈ t.attachments, P attachment.2 :=
  forall_of_forall₂ (typed_eq_ok_iff.mp htyped).2 fun pair hmem attachment hpair =>
    hP pair hmem attachment.2 (typedPair_eq_ok_iff.mp hpair).2

/-- The attachments that a message is written with make those of its canonical form. -/
theorem makesPair_of_typed (h : m.attachments.Sound) (htyped : m.typed = .ok t) :
    List.Forall₂ TypedMessage.MakesPair t.attachments m.canonical.attachments.entries.toList := by
  have hboth := (List.forall₂_and_left _ _).mpr ⟨h.values_fit, (typed_eq_ok_iff.mp htyped).2⟩
  rw [canonical, FieldMap.entries_canonical, List.forall₂_map_right_iff]
  refine (hboth.imp fun pair attachment hpair => ?_).flip
  obtain ⟨hname, hv⟩ := typedPair_eq_ok_iff.mp hpair.2
  exact ⟨hname.symm, (hpair.1.makes_canonical hv).1⟩

/-- **From the typed form of a message its canonical form is built.** -/
theorem ofTyped_of_typed (h : m.attachments.Sound) (htyped : m.typed = .ok t) :
    ofTyped t = .ok m.canonical := by
  have hmakes := makesPair_of_typed h htyped
  have hindexed := h.indexed.canonical
  obtain ⟨m', hm'⟩ :=
    exists_ofTyped_iff.mpr (TypedMessage.buildable_of_makesPair hmakes hindexed.keys_nodup)
  obtain ⟨hcommand, hindexed', hmakes'⟩ := attachments_of_ofTyped hm'
  have hentries := List.right_unique_forall₂' TypedMessage.makesPair_rightUnique hmakes' hmakes
  have hattachments := hindexed'.eq_of_entries_eq hindexed (Array.toList_inj.mp hentries)
  rw [hm']
  obtain ⟨command, attachments⟩ := m'
  obtain rfl : attachments = m.canonical.attachments := hattachments
  rw [(typed_eq_ok_iff.mp htyped).1] at hcommand
  exact congrArg (fun command => Except.ok (Message.mk command m.canonical.attachments)) hcommand

/-- **There and back**, and there again. -/
theorem trip_of_typed (h : m.attachments.Sound) (htyped : m.typed = .ok t) :
    m.toJson = .ok t.toJson ∧ ofJson t.toJson = .ok m.canonical ∧
      m.canonical.toJson = .ok t.toJson := by
  have hfinite : ∀ attachment ∈ t.attachments, attachment.2.Finite :=
    forall_of_typed htyped fun pair hmem v hv => ((h.values_fit pair hmem).makes_canonical hv).2.1
  have hcanonical : m.canonical.typed = .ok t :=
    typed_of_makesPair (typed_eq_ok_iff.mp htyped).1.symm hfinite (makesPair_of_typed h htyped)
  refine ⟨?_, ?_, ?_⟩
  · rw [toJson, htyped]
    rfl
  · rw [ofJson, TypedMessage.ofJson?_toJson hfinite]
    exact ofTyped_of_typed h htyped
  · rw [toJson, hcanonical]
    rfl

/-- **The same by way of text**, as far as its numbers are printed and read back. -/
theorem text_trip_of_typed (h : m.attachments.Sound) (htyped : m.typed = .ok t)
    (hprints : ∀ pair ∈ m.attachments.entries.toList, pair.2.segment.PrintsBack) :
    ofJsonText (t.toJson.render .pretty) = .ok m.canonical := by
  have hattachments : ∀ attachment ∈ t.attachments, attachment.2.PrintsBack :=
    forall_of_typed htyped fun pair hmem v hv =>
      ((h.values_fit pair hmem).makes_canonical hv).2.2 (hprints pair hmem)
  have hparse : Json.parse (t.toJson.render .pretty) = .ok t.toJson :=
    Json.parse_render (TypedMessage.readable_toJson hattachments 123) .pretty
  rw [ofJsonText, hparse]
  exact (trip_of_typed h htyped).2.1

end Message

namespace Document

variable {d : Document} {values : List TypedValue}

/-- The values that a document is written with make the members of its canonical form. -/
theorem makesMember_of_typed (h : d.Sound) (htyped : d.typed = .ok values) :
    List.Forall₂ MakesMember values d.canonical.members.toList := by
  have hfits : ∀ s ∈ d.members.toList, s.Fits ∧ s.tag ≠ .documentEnd := fun s hmem =>
    ⟨h.members_fit s hmem, h.closed s (Array.mem_toList_iff.mp hmem)⟩
  have hboth := (List.forall₂_and_left _ _).mpr ⟨hfits, mapM_eq_ok_iff.mp htyped⟩
  rw [members_canonical, List.forall₂_map_right_iff]
  refine (hboth.imp fun s v hs => ?_).flip
  obtain ⟨⟨hfits, htag⟩, hv⟩ := hs
  obtain ⟨hmakes, -⟩ := hfits.makes_canonical hv
  refine ⟨hmakes, fun hkind => htag ?_⟩
  rwa [← hmakes.kind_eq, Segment.kind_canonical, ← Tag.eq_documentEnd_iff] at hkind

/-- **There and back**, and there again. -/
theorem trip_of_typed (h : d.Sound) (htyped : d.typed = .ok values) :
    ∃ json, d.toJson = .ok json ∧ ofJson json = .ok d.canonical ∧ d.canonical.toJson = .ok json := by
  have hfinite : ∀ v ∈ values, v.Finite :=
    forall_of_forall₂ (mapM_eq_ok_iff.mp htyped) fun s hmem v hv =>
      ((h.members_fit s hmem).makes_canonical hv).2.1
  have hmakes := makesMember_of_typed h htyped
  have hcanonical : d.canonical.typed = .ok values := typed_of_makesMember hfinite hmakes
  refine ⟨.object [("segments", .array (values.map TypedValue.toJson))], ?_, ?_, ?_⟩
  · rw [toJson, htyped]
    rfl
  · rw [ofJson, typedOfJson?_toJson hfinite]
    obtain ⟨d', hd'⟩ := exists_ofTyped_iff.mpr (buildable_of_makesMember hmakes)
    have hmembers :=
      List.right_unique_forall₂' makesMember_rightUnique (members_of_ofTyped hd') hmakes
    have heq : d' = d.canonical := congrArg Document.mk (Array.toList_inj.mp hmembers)
    exact heq ▸ hd'
  · rw [toJson, hcanonical]
    rfl

end Document

/-- **Messages and documents to JSON and back.** A message has no JSON form exactly if one of its
    attachments has none, and the first of these is what it is refused for. From the form of any other
    message comes its canonical form back: the same command and the same names in the same order, with
    every field in its canonical form. The form of that is the same again, and the message is in it
    already exactly if all its fields are. The text of the form leads to the same message, as far as
    its floating-point numbers are read as they are printed. All but the text holds of documents too. -/
theorem envelope_json_trip :
    (∀ (s : Segment) (e : WireError), s.Formless e →
      s.NotFinite ∧ e.kind = .json ∨ s.NotUtf8 ∧ e.kind = .utf8) ∧
    (∀ m : Message, (Item.message m).Reachable →
      (∀ e, m.toJson = .error e ↔ ∃ front pair back,
        m.attachments.entries.toList = front ++ pair :: back ∧
        (∀ earlier ∈ front, earlier.2.segment.HasForm) ∧ pair.2.segment.Formless e) ∧
      (∀ e, m.toJsonText = .error e ↔ m.toJson = .error e) ∧
      ((∀ pair ∈ m.attachments.entries.toList, pair.2.segment.HasForm) → ∃ json,
        m.toJson = .ok json ∧ Message.ofJson json = .ok m.canonical ∧
        m.canonical.toJson = .ok json ∧ m.toJsonText = .ok (json.render .pretty) ∧
        ((∀ pair ∈ m.attachments.entries.toList, pair.2.segment.PrintsBack) →
          Message.ofJsonText (json.render .pretty) = .ok m.canonical)) ∧
      (m.canonical = m ↔ ∀ pair ∈ m.attachments.entries.toList, pair.2.segment.Canonical)) ∧
    ∀ d : Document, (Item.document d).Reachable →
      (∀ e, d.toJson = .error e ↔ ∃ front s back, d.members.toList = front ++ s :: back ∧
        (∀ earlier ∈ front, earlier.HasForm) ∧ s.Formless e) ∧
      ((∀ s ∈ d.members.toList, s.HasForm) → ∃ json, d.toJson = .ok json ∧
        Document.ofJson json = .ok d.canonical ∧ d.canonical.toJson = .ok json) ∧
      (d.canonical = d ↔ ∀ s ∈ d.members.toList, s.Canonical) := by
  refine ⟨fun s e h => h.kind_eq, fun m h => ?_, fun d h => ?_⟩
  · have hsound : m.attachments.Sound := h.sound
    refine ⟨fun e => ?_, fun e => bind_pure_eq_error_iff, fun hform => ?_,
      Message.canonical_eq_iff hsound⟩
    · rw [← Message.typed_eq_error_iff hsound]
      exact bind_pure_eq_error_iff
    · cases htyped : m.typed with
      | error e =>
          obtain ⟨front, pair, back, hsplit, -, hformless⟩ :=
            (Message.typed_eq_error_iff hsound).mp htyped
          have hmem : pair ∈ front ++ pair :: back :=
            List.mem_append_right front List.mem_cons_self
          exact absurd (hform pair (hsplit ▸ hmem)) hformless.not_hasForm
      | ok t =>
          obtain ⟨hto, hof, hagain⟩ := Message.trip_of_typed hsound htyped
          refine ⟨t.toJson, hto, hof, hagain, ?_, Message.text_trip_of_typed hsound htyped⟩
          rw [Message.toJsonText, hto]
          rfl
  · have hsound : d.Sound := h.sound
    refine ⟨fun e => ?_, fun hform => ?_, Document.canonical_eq_iff hsound⟩
    · rw [← Document.typed_eq_error_iff hsound]
      exact bind_pure_eq_error_iff
    · cases htyped : d.typed with
      | error e =>
          obtain ⟨front, s, back, hsplit, -, hformless⟩ :=
            (Document.typed_eq_error_iff hsound).mp htyped
          have hmem : s ∈ front ++ s :: back := List.mem_append_right front List.mem_cons_self
          exact absurd (hform s (hsplit ▸ hmem)) hformless.not_hasForm
      | ok values => exact Document.trip_of_typed hsound htyped

/-- A short text in the large size class comes back in the regular one. One half comes back as it was,
    by way of text, while a NaN has no form. The index of a short list, in the large class too, is a
    member of a document like all others. -/
theorem envelope_json_trip_large_class :
    let message (f : Field) : Message := (Message.exchange { command := "c" } "k" f).2
    let huge : Field := ⟨⟨.hugeString, [97, 98]⟩, rfl⟩
    let x : Ieee.Binary64 := .ofRatio false 1 2
    let y : Ieee.Binary32 := ⟨0x7fc00000⟩
    let half : Field := ⟨.ofValue (.float64 x), rfl⟩
    let nan : Field := ⟨.ofValue (.float32 y), rfl⟩
    let document : Document := ⟨#[⟨.largeList, [0, 0, 0, 0, 0, 0, 0, 3]⟩]⟩
    ((∃ json, (message huge).toJson = .ok json ∧
      Message.ofJson json = .ok (message huge).canonical) ∧
      (message huge).canonical ≠ message huge) ∧
    (∃ text, (message half).toJsonText = .ok text ∧
      Message.ofJsonText text = .ok (message half)) ∧
    (∃ e, (message nan).toJson = .error e ∧ e.kind = .json) ∧
    ∃ json, document.toJson = .ok json ∧ Document.ofJson json = .ok ⟨#[⟨.list, [0, 3]⟩]⟩ := by
  intro message huge x y half nan document
  have hentries : ∀ f, (message f).attachments.entries.toList = [("k", f)] :=
    FieldMap.entries_ofList_singleton "k"
  have hpair : ∀ {P : String × Field → Prop} f, P ("k", f) →
      ∀ pair ∈ (message f).attachments.entries.toList, P pair := by
    intro P f hf
    rw [hentries]
    exact List.forall_mem_singleton.mpr hf
  have hreachable : ∀ f, (Item.field f).Reachable → (Item.message (message f)).Reachable :=
    fun f hf => .attach "k" (.command "c") hf
  have hform : ∀ {s : Segment} {v : Value}, s.Fits → s.Holds v → v.Finite → s.HasForm :=
    fun hfits hholds hv =>
      hfits.exists_typed_iff.mp ⟨_, Segment.typed_eq (Segment.value_eq_ok_iff.mpr hholds) hv⟩
  have hparts : Segment.ofParts .hugeString [97, 98] = .ok huge.segment := rfl
  have hindex : Segment.ofParts .largeList [0, 0, 0, 0, 0, 0, 0, 3] =
      .ok ⟨.largeList, [0, 0, 0, 0, 0, 0, 0, 3]⟩ := rfl
  have hhuge : (Item.field huge).Reachable := .fieldOfSegment (.ofParts hparts) rfl
  have hhalf : (Item.field half).Reachable := .fieldOfValue _ rfl
  have hnan : (Item.field nan).Reachable := .fieldOfValue _ rfl
  have hdocument : (Item.document document).Reachable :=
    .documentPush .emptyDocument (.ofParts hindex) rfl
  obtain ⟨-, hmessages, hdocuments⟩ := envelope_json_trip
  obtain ⟨-, -, htrip, hcanonical⟩ := hmessages _ (hreachable huge hhuge)
  obtain ⟨-, -, htext, hsame⟩ := hmessages _ (hreachable half hhalf)
  obtain ⟨hfails, -⟩ := hmessages _ (hreachable nan hnan)
  obtain ⟨-, hback, -⟩ := hdocuments _ hdocument
  refine ⟨⟨?_, fun heq => ?_⟩, ?_, ?_, ?_⟩
  · have htext : huge.segment.Holds (.text "ab") := ⟨rfl, by decide⟩
    obtain ⟨json, hto, hof, -⟩ := htrip (hpair huge (hform hhuge.sound htext trivial))
    exact ⟨json, hto, hof⟩
  · have hclass := (hcanonical.mp heq ("k", huge) (hentries huge ▸ List.mem_singleton_self _)).huge
    exact absurd (hclass (Or.inl rfl)) (by decide)
  · have hfinite : x.isFinite = true := by decide +kernel
    have hholds := Segment.holds_ofValue (.float64 x)
    have hcanonical : half.segment.Canonical := Segment.canonical_ofValue (.float64 x)
    obtain ⟨json, -, -, -, hto, hof⟩ := htext (hpair half (hform hhalf.sound hholds hfinite))
    refine ⟨_, hto, ?_⟩
    rw [hof, hsame.mpr (hpair half hcanonical)]
    refine hpair half fun v hv => ?_
    cases (Segment.value_eq_ok_iff.mpr hholds).symm.trans hv
    show (Json.Number.real x).ReadsBack
    rw [Json.Number.ReadsBack]
    decide +kernel
  · have hget : nan.segment.get .float32 = .ok (.float32 y) :=
      Segment.get_eq_ok_iff.mpr ⟨rfl, Segment.holds_ofValue (.float32 y)⟩
    have hformless := Segment.Formless.single hget (Or.inl (by decide))
    exact ⟨_, (hfails _).mpr ⟨[], ("k", nan), [], hentries nan, List.forall_mem_nil _, hformless⟩,
      rfl⟩
  · have hlist : Segment.Holds ⟨.largeList, [0, 0, 0, 0, 0, 0, 0, 3]⟩ (.listIndex 3) :=
      Segment.value_eq_ok_iff.mp rfl
    have hfits := hdocument.sound.members_fit _ (List.mem_singleton_self _)
    have hresult : document.canonical = ⟨#[⟨.list, [0, 3]⟩]⟩ :=
      congrArg Document.mk (Array.toList_inj.mp (Array.toList_map.trans (by decide)))
    obtain ⟨json, hto, hof, -⟩ := hback (List.forall_mem_singleton.mpr (hform hfits hlist trivial))
    exact ⟨json, hto, hresult ▸ hof⟩

end SegmentWire
