import SegmentWire.Proofs.Reachable

/-!
# Building from typed values

Messages and documents are built from typed values one after the other. Three things may be wrong with
an attachment, and they are looked for in this order: its name may stand in front already, its bytes
may not be in base64, and it may be a container index. A member of a document may have the second fault,
or be an end marker. The first fault is the outcome, and without any nothing is lost.

* **`TypedMessage.Offends`**, **`TypedMessage.Buildable`** — the faults of attachments, and lists of them
  without any; **`Message.foldlM_attachTyped`** follows a run of attachments.
* **`Document.Offends`**, **`Document.Buildable`** — the same for the members of a document.
* **`building_reports_first_offence`** — which JSON values give a message or a document, which one, and
  what the others fail with.
-/

namespace SegmentWire

-- ── Messages ─────────────────────────────────────────────────────────────────────

namespace TypedMessage

/-- What is wrong with an attachment behind others with given names. -/
inductive Offends (earlier : List String) : String × TypedValue → WireError → Prop
  /-- The name stands in front already. -/
  | repeated {name : String} (v : TypedValue) (h : name ∈ earlier) :
      Offends earlier (name, v) (.duplicateKey name)
  /-- The name is new, but the bytes are not in base64. -/
  | notBase64 {name : String} {v : TypedValue} (hnew : name ∉ earlier) (h : v.NotBase64) :
      Offends earlier (name, v) (.json .badBase64)
  /-- The name is new, but the value makes the index of a list or a map. -/
  | nested {name : String} {v : TypedValue} {s : Segment} (hnew : name ∉ earlier)
      (h : v.kind = .listIndex ∨ v.kind = .mapIndex) (hmakes : v.Makes s) :
      Offends earlier (name, v) (.nestedContainer s.tag)

/-- Nothing is wrong with any of the attachments. -/
structure Buildable (attachments : List (String × TypedValue)) : Prop where
  distinct : (attachments.map Prod.fst).Nodup
  base64 : ∀ attachment ∈ attachments, ¬ attachment.2.NotBase64
  flat : ∀ attachment ∈ attachments,
    attachment.2.kind ≠ .listIndex ∧ attachment.2.kind ≠ .mapIndex

/-- The pair of a message that an attachment makes. -/
def MakesPair (attachment : String × TypedValue) (pair : String × Field) : Prop :=
  pair.1 = attachment.1 ∧ attachment.2.Makes pair.2.segment

/-- Attachments are not buildable if one of them has a fault behind the names in front of it. -/
theorem Offends.not_buildable {front back : List (String × TypedValue)}
    {attachment : String × TypedValue} {e : WireError}
    (h : Offends (front.map Prod.fst) attachment e) : ¬ Buildable (front ++ attachment :: back) := by
  intro hbuildable
  have hmem : attachment ∈ front ++ attachment :: back :=
    List.mem_append_right front List.mem_cons_self
  cases h with
  | repeated v hname =>
      have hdistinct := hbuildable.distinct
      rw [List.map_append, List.map_cons] at hdistinct
      exact (List.nodup_append.mp hdistinct).2.2 _ hname _ List.mem_cons_self rfl
  | notBase64 _ hbad => exact hbuildable.base64 _ hmem hbad
  | nested _ hkind _ => exact not_or.mpr (hbuildable.flat _ hmem) hkind

end TypedMessage

/-- The two kinds of index are the kinds that fields cannot be of. -/
theorem Tag.isContainer_eq_true_iff {tag : Tag} :
    tag.isContainer = true ↔ tag.kind = .listIndex ∨ tag.kind = .mapIndex := by
  cases tag <;> decide

/-- One kind of value has the end marker. -/
theorem Tag.eq_documentEnd_iff {tag : Tag} : tag = .documentEnd ↔ tag.kind = .documentEnd := by
  cases tag <;> decide

namespace Message

open TypedMessage

variable {m : Message} {attachment : String × TypedValue}

/-- **One more attachment is taken** if its name is new and its value makes a field. -/
theorem attachTyped_eq_ok_iff {m' : Message} :
    m.attachTyped attachment = .ok m' ↔ m.attachments.contains attachment.1 = false ∧
      ∃ f : Field, attachment.2.Makes f.segment ∧ m' = m.attach attachment.1 f := by
  rw [← Bool.not_eq_true]
  refine unless_eq_ok_iff.trans (and_congr_right fun _ => ?_)
  constructor
  · intro h
    obtain ⟨s, hs, h⟩ := bind_eq_ok_iff.mp h
    obtain ⟨f, hf, ⟨⟩⟩ := bind_eq_ok_iff.mp h
    obtain ⟨rfl, -⟩ := Field.ofSegment_eq_ok_iff.mp hf
    exact ⟨f, TypedValue.makes_iff.mp hs, rfl⟩
  · rintro ⟨f, hmakes, rfl⟩
    have hfield : Field.ofSegment f.segment = .ok f :=
      Field.ofSegment_eq_ok_iff.mpr ⟨rfl, f.plain⟩
    exact bind_eq_ok_iff.mpr ⟨f.segment, TypedValue.makes_iff.mpr hmakes,
      bind_eq_ok_iff.mpr ⟨f, hfield, rfl⟩⟩

/-- **It is refused for the first fault that it has.** -/
theorem attachTyped_eq_error_iff (h : m.attachments.Indexed) {e : WireError} :
    m.attachTyped attachment = .error e ↔ Offends m.attachments.keys attachment e := by
  obtain ⟨name, v⟩ := attachment
  by_cases hname : m.attachments.contains name = true
  · have hkey : name ∈ m.attachments.keys := h.contains_iff.mp hname
    have hrefused : m.attachTyped (name, v) = .error (.duplicateKey name) := if_pos hname
    rw [hrefused]
    constructor
    · rintro ⟨⟩
      exact .repeated v hkey
    · intro hoffends
      cases hoffends with
      | repeated => rfl
      | notBase64 hnew => exact absurd hkey hnew
      | nested hnew => exact absurd hkey hnew
  · have hnew : name ∉ m.attachments.keys := mt h.contains_iff.mpr hname
    have htaken : m.attachTyped (name, v) =
        (Segment.ofTyped v >>= fun s => m.attachSegment name s) := if_neg hname
    rw [htaken, bind_eq_error_iff]
    constructor
    · rintro (hfails | ⟨s, hs, hattach⟩)
      · obtain ⟨hbad, rfl⟩ := TypedValue.ofTyped_eq_error_iff.mp hfails
        exact .notBase64 hnew hbad
      · have hmakes := TypedValue.makes_iff.mp hs
        rcases bind_eq_error_iff.mp hattach with hfield | ⟨f, -, ⟨⟩⟩
        obtain ⟨hcontainer, rfl⟩ := Field.ofSegment_eq_error_iff.mp hfield
        rw [Tag.isContainer_eq_true_iff, hmakes.kind_eq] at hcontainer
        exact .nested hnew hcontainer hmakes
    · intro hoffends
      cases hoffends with
      | repeated _ hkey => exact absurd hkey hnew
      | notBase64 _ hbad => exact Or.inl (TypedValue.ofTyped_eq_error_iff.mpr ⟨hbad, rfl⟩)
      | nested _ hkind hmakes =>
          rw [← hmakes.kind_eq, ← Tag.isContainer_eq_true_iff] at hkind
          refine Or.inr ⟨_, TypedValue.makes_iff.mpr hmakes, bind_eq_error_iff.mpr (Or.inl ?_)⟩
          exact Field.ofSegment_eq_error_iff.mpr ⟨hkind, rfl⟩

/-- **A run of attachments appends the pairs that they make.** The induction is on the run, for every
    message that it begins with. -/
theorem foldlM_attachTyped {attachments : List (String × TypedValue)} {m' : Message}
    (h : m.attachments.Indexed) (hrun : attachments.foldlM attachTyped m = .ok m') :
    m'.command = m.command ∧ m'.attachments.Indexed ∧ ∃ pairs,
      m'.attachments.entries.toList = m.attachments.entries.toList ++ pairs ∧
      List.Forall₂ MakesPair attachments pairs := by
  induction attachments generalizing m with
  | nil =>
      cases hrun
      exact ⟨rfl, h, [], (List.append_nil _).symm, .nil⟩
  | cons attachment attachments ih =>
      rw [List.foldlM_cons] at hrun
      obtain ⟨next, hfirst, hrest⟩ := bind_eq_ok_iff.mp hrun
      obtain ⟨hnew, f, hmakes, rfl⟩ := attachTyped_eq_ok_iff.mp hfirst
      have hentries : (m.attach attachment.1 f).attachments.entries.toList =
          m.attachments.entries.toList ++ [(attachment.1, f)] := by
        show (m.attachments.insert attachment.1 f).entries.toList = _
        rw [FieldMap.entries_insert_of_absent hnew, Array.toList_push]
      obtain ⟨hcommand, hindexed, pairs, hpairs, hmade⟩ :=
        ih (h.insert_of_absent hnew f) hrest
      refine ⟨hcommand, hindexed, (attachment.1, f) :: pairs, ?_, .cons ⟨rfl, hmakes⟩ hmade⟩
      rw [hpairs, hentries, List.append_assoc]
      rfl

/-- What a run of attachments makes of a new message. -/
theorem attachments_of_ofTyped {t : TypedMessage} {m : Message} (h : ofTyped t = .ok m) :
    m.command = t.command ∧ m.attachments.Indexed ∧
      List.Forall₂ MakesPair t.attachments m.attachments.entries.toList := by
  obtain ⟨hcommand, hindexed, pairs, hentries, hmade⟩ :=
    foldlM_attachTyped FieldMap.indexed_empty h
  obtain rfl : m.attachments.entries.toList = pairs := hentries
  exact ⟨hcommand, hindexed, hmade⟩

end Message

namespace TypedMessage

variable {attachments : List (String × TypedValue)} {pairs : List (String × Field)}

/-- The pairs have the names of the attachments that make them. -/
theorem names_of_makesPair (h : List.Forall₂ MakesPair attachments pairs) :
    pairs.map Prod.fst = attachments.map Prod.fst := by
  induction h with
  | nil => rfl
  | cons hmakes _ ih => rw [List.map_cons, List.map_cons, hmakes.1, ih]

theorem makesPair_rightUnique : Relator.RightUnique MakesPair := by
  rintro attachment ⟨name, segment, plain⟩ ⟨name', segment', plain'⟩ ⟨hname, h⟩ ⟨hname', h'⟩
  obtain rfl : name = name' := hname.trans hname'.symm
  obtain rfl : segment = segment' := h.eq h'
  rfl

/-- Attachments that make the pairs of a map have no fault. -/
theorem buildable_of_makesPair (h : List.Forall₂ MakesPair attachments pairs)
    (hkeys : (pairs.map Prod.fst).Nodup) : Buildable attachments := by
  have hfield : ∀ attachment ∈ attachments, ∃ f : Field, attachment.2.Makes f.segment := by
    clear hkeys
    induction h with
    | nil => exact List.forall_mem_nil _
    | cons hmakes _ ih => exact List.forall_mem_cons.mpr ⟨⟨_, hmakes.2⟩, ih⟩
  refine ⟨names_of_makesPair h ▸ hkeys, ?_, ?_⟩
  · intro attachment hmem
    obtain ⟨f, hmakes⟩ := hfield attachment hmem
    exact hmakes.not_notBase64
  · intro attachment hmem
    obtain ⟨f, hmakes⟩ := hfield attachment hmem
    rw [← hmakes.kind_eq, ← not_or, ← Tag.isContainer_eq_true_iff, f.plain]
    exact Bool.false_ne_true

end TypedMessage

namespace Message

open TypedMessage

variable {t : TypedMessage}

theorem buildable_of_ofTyped {m : Message} (h : ofTyped t = .ok m) : Buildable t.attachments := by
  obtain ⟨-, hindexed, hmade⟩ := attachments_of_ofTyped h
  exact buildable_of_makesPair hmade hindexed.keys_nodup

/-- A message is refused for a fault that an attachment has behind those in front of it. -/
theorem exists_of_ofTyped_eq_error {e : WireError} (h : ofTyped t = .error e) :
    ∃ front attachment back, t.attachments = front ++ attachment :: back ∧ Buildable front ∧
      Offends (front.map Prod.fst) attachment e := by
  obtain ⟨front, attachment, back, middle, hsplit, hfront, hfails⟩ := foldlM_eq_error_iff.mp h
  have hmiddle : ofTyped ⟨t.command, front⟩ = .ok middle := hfront
  obtain ⟨-, hindexed, hmade⟩ := attachments_of_ofTyped hmiddle
  have hnames : middle.attachments.keys = front.map Prod.fst := names_of_makesPair hmade
  have hoffends := (attachTyped_eq_error_iff hindexed).mp hfails
  exact ⟨front, attachment, back, hsplit, buildable_of_ofTyped hmiddle, hnames ▸ hoffends⟩

/-- **Attachments without a fault are those that a message is built of.** -/
theorem exists_ofTyped_iff : (∃ m, ofTyped t = .ok m) ↔ Buildable t.attachments := by
  constructor
  · rintro ⟨m, h⟩
    exact buildable_of_ofTyped h
  · intro hbuildable
    cases h : ofTyped t with
    | ok m => exact ⟨m, rfl⟩
    | error e =>
        obtain ⟨front, attachment, back, hsplit, -, hoffends⟩ := exists_of_ofTyped_eq_error h
        rw [hsplit] at hbuildable
        exact absurd hbuildable hoffends.not_buildable

/-- **The first attachment with a fault is what a message is refused for.** -/
theorem ofTyped_eq_error_iff {e : WireError} :
    ofTyped t = .error e ↔ ∃ front attachment back,
      t.attachments = front ++ attachment :: back ∧ Buildable front ∧
      Offends (front.map Prod.fst) attachment e := by
  refine ⟨exists_of_ofTyped_eq_error, ?_⟩
  rintro ⟨front, attachment, back, hsplit, hfront, hoffends⟩
  obtain ⟨middle, hmiddle⟩ := exists_ofTyped_iff (t := ⟨t.command, front⟩).mpr hfront
  obtain ⟨-, hindexed, hmade⟩ := attachments_of_ofTyped hmiddle
  have hnames : middle.attachments.keys = front.map Prod.fst := names_of_makesPair hmade
  have hfails := (attachTyped_eq_error_iff hindexed).mpr (hnames ▸ hoffends)
  exact foldlM_eq_error_iff.mpr ⟨front, attachment, back, middle, hsplit, hmiddle, hfails⟩

end Message

-- ── Documents ────────────────────────────────────────────────────────────────────

namespace Document

/-- What is wrong with a member, wherever it stands. -/
inductive Offends : TypedValue → WireError → Prop
  /-- The bytes are not in base64. -/
  | notBase64 {v : TypedValue} (h : v.NotBase64) : Offends v (.json .badBase64)
  /-- The value makes an end marker. -/
  | endMarker {v : TypedValue} (h : v.kind = .documentEnd) : Offends v .endMarkerMember

/-- Nothing is wrong with any of the members. -/
structure Buildable (values : List TypedValue) : Prop where
  base64 : ∀ v ∈ values, ¬ v.NotBase64
  closed : ∀ v ∈ values, v.kind ≠ .documentEnd

/-- The member that a typed value makes. -/
def MakesMember (v : TypedValue) (s : Segment) : Prop := v.Makes s ∧ v.kind ≠ .documentEnd

variable {d : Document} {v : TypedValue} {values : List TypedValue}

theorem Offends.not_buildable {e : WireError} (h : Offends v e) (hmem : v ∈ values) :
    ¬ Buildable values := by
  intro hbuildable
  cases h with
  | notBase64 hbad => exact hbuildable.base64 v hmem hbad
  | endMarker hkind => exact hbuildable.closed v hmem hkind

/-- The document with one more typed member. -/
def pushTyped (d : Document) (v : TypedValue) : Except WireError Document := do
  d.push (← Segment.ofTyped v)

/-- An end marker is told by the kind of the value. -/
theorem tag_eq_documentEnd_iff {s : Segment} (h : v.Makes s) :
    s.tag = .documentEnd ↔ v.kind = .documentEnd := by
  rw [Tag.eq_documentEnd_iff, h.kind_eq]

/-- **One more member is taken** if its value makes a segment that is no end marker. -/
theorem pushTyped_eq_ok_iff {d' : Document} :
    d.pushTyped v = .ok d' ↔ ∃ s, MakesMember v s ∧ d' = ⟨d.members.push s⟩ := by
  refine bind_eq_ok_iff.trans (exists_congr fun s => ?_)
  rw [TypedValue.makes_iff, push_eq_ok_iff]
  constructor
  · rintro ⟨hmakes, htag, rfl⟩
    exact ⟨⟨hmakes, mt (tag_eq_documentEnd_iff hmakes).mpr htag⟩, rfl⟩
  · rintro ⟨⟨hmakes, hkind⟩, rfl⟩
    exact ⟨hmakes, mt (tag_eq_documentEnd_iff hmakes).mp hkind, rfl⟩

/-- **It is refused for the fault that it has.** -/
theorem pushTyped_eq_error_iff {e : WireError} : d.pushTyped v = .error e ↔ Offends v e := by
  refine bind_eq_error_iff.trans ?_
  constructor
  · rintro (hfails | ⟨s, hs, hpush⟩)
    · obtain ⟨hbad, rfl⟩ := TypedValue.ofTyped_eq_error_iff.mp hfails
      exact .notBase64 hbad
    · rw [push] at hpush
      split at hpush
      · next htag =>
        cases hpush
        exact .endMarker ((tag_eq_documentEnd_iff (TypedValue.makes_iff.mp hs)).mp htag)
      · cases hpush
  · intro hoffends
    cases hoffends with
    | notBase64 hbad => exact Or.inl (TypedValue.ofTyped_eq_error_iff.mpr ⟨hbad, rfl⟩)
    | endMarker hkind =>
        rcases v.makes_or_notBase64 with ⟨s, hmakes⟩ | ⟨blob, rfl, -⟩
        · refine Or.inr ⟨s, TypedValue.makes_iff.mpr hmakes, ?_⟩
          exact if_pos ((tag_eq_documentEnd_iff hmakes).mpr hkind)
        · cases hkind

/-- **A run of members appends the segments that they make.** -/
theorem foldlM_pushTyped {d' : Document} (hrun : values.foldlM pushTyped d = .ok d') :
    ∃ ss, d'.members.toList = d.members.toList ++ ss ∧ List.Forall₂ MakesMember values ss := by
  induction values generalizing d with
  | nil =>
      cases hrun
      exact ⟨[], (List.append_nil _).symm, .nil⟩
  | cons v values ih =>
      rw [List.foldlM_cons] at hrun
      obtain ⟨next, hfirst, hrest⟩ := bind_eq_ok_iff.mp hrun
      obtain ⟨s, hmakes, rfl⟩ := pushTyped_eq_ok_iff.mp hfirst
      obtain ⟨ss, hmembers, hmade⟩ := ih hrest
      refine ⟨s :: ss, ?_, .cons hmakes hmade⟩
      rw [hmembers, Array.toList_push, List.append_assoc]
      rfl

/-- What a run of members makes of a new document. -/
theorem members_of_ofTyped (h : ofTyped values = .ok d) :
    List.Forall₂ MakesMember values d.members.toList := by
  obtain ⟨ss, hmembers, hmade⟩ := foldlM_pushTyped (d := {}) h
  obtain rfl : d.members.toList = ss := hmembers
  exact hmade

theorem makesMember_rightUnique : Relator.RightUnique MakesMember :=
  fun _ _ _ h h' => h.1.eq h'.1

/-- Values that make members have no fault. -/
theorem buildable_of_makesMember {ss : List Segment} (h : List.Forall₂ MakesMember values ss) :
    Buildable values := by
  induction h with
  | nil => exact ⟨List.forall_mem_nil _, List.forall_mem_nil _⟩
  | cons hmakes _ ih =>
      exact ⟨List.forall_mem_cons.mpr ⟨hmakes.1.not_notBase64, ih.base64⟩,
        List.forall_mem_cons.mpr ⟨hmakes.2, ih.closed⟩⟩

/-- A document is refused for a fault that a member has behind those in front of it. -/
theorem exists_of_ofTyped_eq_error {e : WireError} (h : ofTyped values = .error e) :
    ∃ front v back, values = front ++ v :: back ∧ Buildable front ∧ Offends v e := by
  obtain ⟨front, v, back, middle, hsplit, hfront, hfails⟩ := foldlM_eq_error_iff.mp h
  have hmade := members_of_ofTyped (d := middle) hfront
  exact ⟨front, v, back, hsplit, buildable_of_makesMember hmade, pushTyped_eq_error_iff.mp hfails⟩

/-- **Values without a fault are those that a document is built of.** -/
theorem exists_ofTyped_iff : (∃ d, ofTyped values = .ok d) ↔ Buildable values := by
  constructor
  · rintro ⟨d, h⟩
    exact buildable_of_makesMember (members_of_ofTyped h)
  · intro hbuildable
    cases h : ofTyped values with
    | ok d => exact ⟨d, rfl⟩
    | error e =>
        obtain ⟨front, v, back, rfl, -, hoffends⟩ := exists_of_ofTyped_eq_error h
        have hmem : v ∈ front ++ v :: back := List.mem_append_right front List.mem_cons_self
        exact absurd hbuildable (hoffends.not_buildable hmem)

/-- **The first member with a fault is what a document is refused for.** -/
theorem ofTyped_eq_error_iff {e : WireError} :
    ofTyped values = .error e ↔ ∃ front v back,
      values = front ++ v :: back ∧ Buildable front ∧ Offends v e := by
  refine ⟨exists_of_ofTyped_eq_error, ?_⟩
  rintro ⟨front, v, back, hsplit, hfront, hoffends⟩
  obtain ⟨middle, hmiddle⟩ := exists_ofTyped_iff.mpr hfront
  exact foldlM_eq_error_iff.mpr ⟨front, v, back, middle, hsplit, hmiddle,
    pushTyped_eq_error_iff.mpr hoffends⟩

end Document

-- ── From JSON values ─────────────────────────────────────────────────────────────

/-- **Building reports the first fault and otherwise loses nothing.** From a JSON value with the form of a
    message comes a message exactly if the names of its attachments are distinct, all bytes are in
    base64 and no field is a container index. It has the command and, in order, the names and the
    fields of the attachments. If not, the outcome is the fault of the first attachment that has
    one, where a name that stands in front already counts before bytes that are not in base64, and these
    before an index. From the form of a document comes a document exactly if all bytes are in base64 and no
    member is an end marker, with the members in order, and otherwise the fault of the first. -/
theorem building_reports_first_offence :
    (∀ (value : Json) (t : TypedMessage), TypedMessage.ofJson? value = some t →
      ((∃ m, Message.ofJson value = .ok m) ↔ TypedMessage.Buildable t.attachments) ∧
      (∀ m, Message.ofJson value = .ok m → m.command = t.command ∧ m.attachments.Indexed ∧
        List.Forall₂ TypedMessage.MakesPair t.attachments m.attachments.entries.toList) ∧
      ∀ e, Message.ofJson value = .error e ↔ ∃ front attachment back,
        t.attachments = front ++ attachment :: back ∧ TypedMessage.Buildable front ∧
        TypedMessage.Offends (front.map Prod.fst) attachment e) ∧
    ∀ (value : Json) (values : List TypedValue), Document.typedOfJson? value = some values →
      ((∃ d, Document.ofJson value = .ok d) ↔ Document.Buildable values) ∧
      (∀ d, Document.ofJson value = .ok d →
        List.Forall₂ Document.MakesMember values d.members.toList) ∧
      ∀ e, Document.ofJson value = .error e ↔ ∃ front v back,
        values = front ++ v :: back ∧ Document.Buildable front ∧ Document.Offends v e := by
  constructor
  · intro value t htyped
    have hof : Message.ofJson value = Message.ofTyped t := by rw [Message.ofJson, htyped]
    rw [hof]
    exact ⟨Message.exists_ofTyped_iff, fun m => Message.attachments_of_ofTyped,
      fun e => Message.ofTyped_eq_error_iff⟩
  · intro value values htyped
    have hof : Document.ofJson value = Document.ofTyped values := by rw [Document.ofJson, htyped]
    rw [hof]
    exact ⟨Document.exists_ofTyped_iff, fun d => Document.members_of_ofTyped,
      fun e => Document.ofTyped_eq_error_iff⟩

/-- An attachment that repeats a name in front of it, and is not in base64 either, is refused for the
    name, whatever stands behind it. Without it the index that stands there is refused, and the
    attachment in front by itself makes a message. Bytes that are not in base64, in front of an end
    marker, are what a document is refused for. -/
theorem building_reports_first_offence_repeated :
    let first : String × TypedValue := ("a", .uint8 1)
    let second : String × TypedValue := ("a", .binary "A")
    let third : String × TypedValue := ("b", .listIndex 3)
    let members : List TypedValue := [.uint8 1, .binary "A", .documentEnd 0]
    Message.ofJson (TypedMessage.toJson ⟨"c", [first, second, third]⟩) =
      .error (.duplicateKey "a") ∧
    Message.ofJson (TypedMessage.toJson ⟨"c", [first, third]⟩) =
      .error (.nestedContainer .list) ∧
    (∃ m, Message.ofJson (TypedMessage.toJson ⟨"c", [first]⟩) = .ok m ∧ m.command = "c") ∧
    Document.ofJson (.object [("segments", .array (members.map TypedValue.toJson))]) =
      .error (.json .badBase64) := by
  intro first second third members
  have hfirst : TypedMessage.Buildable [first] := by
    refine ⟨List.nodup_singleton _, ?_, ?_⟩
    · rintro _ (_ | ⟨_, ⟨⟩⟩) ⟨blob, ⟨⟩, -⟩
    · rintro _ (_ | ⟨_, ⟨⟩⟩)
      exact ⟨nofun, nofun⟩
  have hmember : Document.Buildable [.uint8 1] := by
    refine ⟨?_, ?_⟩
    · rintro _ (_ | ⟨_, ⟨⟩⟩) ⟨blob, ⟨⟩, -⟩
    · rintro _ (_ | ⟨_, ⟨⟩⟩)
      exact nofun
  have hindex : TypedMessage.Offends ["a"] third (.nestedContainer (Segment.listIndex 3).tag) :=
    .nested (by decide) (Or.inl rfl) ⟨.listIndex 3, rfl, rfl⟩
  have hbad : Document.Offends (.binary "A") (.json .badBase64) :=
    .notBase64 ⟨"A", rfl, by decide +kernel⟩
  obtain ⟨hmessage, hdocument⟩ := building_reports_first_offence
  obtain ⟨-, -, hrepeated⟩ := hmessage (TypedMessage.toJson ⟨"c", [first, second, third]⟩) _ rfl
  obtain ⟨-, -, hnested⟩ := hmessage (TypedMessage.toJson ⟨"c", [first, third]⟩) _ rfl
  obtain ⟨hbuilt, hcommand, -⟩ := hmessage (TypedMessage.toJson ⟨"c", [first]⟩) _ rfl
  obtain ⟨-, -, hrefused⟩ :=
    hdocument (.object [("segments", .array (members.map TypedValue.toJson))]) members rfl
  refine ⟨(hrepeated _).mpr ⟨[first], second, [third], rfl, hfirst, ?_⟩,
    (hnested _).mpr ⟨[first], third, [], rfl, hfirst, hindex⟩, ?_,
    (hrefused _).mpr ⟨[.uint8 1], .binary "A", [.documentEnd 0], rfl, hmember, hbad⟩⟩
  · exact .repeated _ (List.mem_singleton_self _)
  · obtain ⟨m, hm⟩ := hbuilt.mpr hfirst
    exact ⟨m, hm, (hcommand m hm).1⟩

end SegmentWire
