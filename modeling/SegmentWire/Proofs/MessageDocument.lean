import SegmentWire.Proofs.IntegrityCount

/-!
# Messages read as documents

Messages and documents share their markers, and a document takes any segments between them. So a
reader of documents takes a message for the run of segments that it is written as: the command, the
index, and the names and values. The counts agree as well, for a message counts the same segments.

An attachment may itself be an end marker, and a reader of documents cannot know that it is meant as a
value.

* **`Message.asDocument`** — the document that a message is written as.
* **`readDocument_envelope`** — what a reader of documents makes of a body up to the first end marker.
* **`message_is_document`** — what it makes of a message.
-/

namespace SegmentWire

namespace Message

/-- The segments of an attachment, each as its text or its value makes one. -/
def attachmentSegments (pair : String × Field) : List Segment := [.ofText pair.1, pair.2.segment]

/-- The segments between the markers of a message: its command, the number of its attachments, and
    these in order. -/
def members (m : Message) : List Segment :=
  .ofText m.command :: .mapIndex (.ofNat m.attachments.length) ::
    m.attachments.entries.toList.flatMap attachmentSegments

/-- The document of these segments. -/
def asDocument (m : Message) : Document := ⟨m.members.toArray⟩

end Message

-- ── Bodies up to the first end marker ────────────────────────────────────────────

/-- **A reader of documents takes all up to the first end marker for members**, and compares their
    number with the count there. -/
theorem readDocument_envelope {body : List Segment}
    (hbody : ∀ s ∈ body, s.WellFormed ∧ s.tag ≠ .documentEnd) (hlength : body.length ≤ maxWord)
    {count : Nat} (hcount : count ≤ maxWord) {source : Source} {left : Bytes}
    (hpending : source.pending = (envelope body count).flatMap Segment.encoding ++ left) :
    (count = body.length → readDocument.Finds .unbounded source ⟨body.toArray⟩ left) ∧
      (count ≠ body.length →
        readDocument.Fails .unbounded source (.sizeMismatch count body.length)) := by
  constructor
  · intro heq
    subst heq
    have hencodable : (Document.mk body.toArray).Encodable := by
      refine ⟨?_, fun s hs => (hbody s hs).1, hlength⟩
      intro s hs
      exact (hbody s (Array.mem_toList_iff.mpr hs)).2
    exact (readDocument_decodes .unbounded).finds
      ⟨Document.admitted_unbounded_iff.mpr hencodable, rfl⟩ hpending
  · intro hne
    exact (readDocument_refuses_sizeMismatch count body.length source).mpr
      ⟨_, left, ⟨body, hbody, rfl, hlength, hcount, hne, rfl⟩, hpending⟩

namespace Message

variable {m : Message}

-- ── The segments of a message ────────────────────────────────────────────────────

theorem length_flatMap_attachmentSegments (pairs : List (String × Field)) :
    (pairs.flatMap attachmentSegments).length = 2 * pairs.length :=
  FieldMap.length_flatMap_pairs (fun _ => rfl) pairs

theorem length_members (m : Message) : m.members.length = m.integrityCount := by
  rw [members, List.length_cons, List.length_cons, length_flatMap_attachmentSegments,
    Array.length_toList, integrityCount, FieldMap.length]
  omega

/-- A name that fits makes a regular string, as any other text does. -/
theorem Encodable.members_eq_body (h : m.Encodable) :
    m.members = m.body (.ofText m.command) (.mapIndex (.ofNat m.attachments.length)) := by
  have hpairs : m.attachments.members = m.attachments.entries.toList.flatMap attachmentSegments := by
    refine List.flatMap_congr fun pair hpair => ?_
    rw [FieldMap.pairSegments, attachmentSegments, Segment.ofText,
      if_pos (h.attachments.keys_fit pair hpair)]
    rfl
  rw [members, body, hpairs]

theorem Encodable.members_wellFormed (h : m.Encodable) : ∀ s ∈ m.members, s.WellFormed := by
  rw [h.members_eq_body]
  exact body_wellFormed h.attachments (Segment.statesText_ofText h.command_le).wellFormed
    (Segment.mapIndex_wellFormed _)

/-- An encodable message is written as an envelope around its segments. -/
theorem Encodable.flatten_eq_envelope (h : m.Encodable) :
    m.flatten = .ok ((envelope m.members m.integrityCount).flatMap Segment.encoding) := by
  rw [h.flatten_eq_bytesStating, h.bytesStating_eq (Segment.mapIndex_wellFormed _),
    h.members_eq_body]

/-- No text ends a document. -/
theorem ofText_tag_ne (text : String) : (Segment.ofText text).tag ≠ .documentEnd := by
  intro htag
  rw [Segment.ofText] at htag
  split at htag <;> cases htag

/-- The command and the names are text and the index is an index, so that only a value can end a
    document. -/
theorem front_tag_ne (command : String) (count : UInt64) {pairs : List (String × Field)}
    (h : ∀ pair ∈ pairs, pair.2.segment.tag ≠ .documentEnd) :
    ∀ s ∈ .ofText command :: .mapIndex count :: pairs.flatMap attachmentSegments,
      s.tag ≠ .documentEnd := by
  have hindex : (Segment.mapIndex count).tag ≠ .documentEnd := by
    rw [Segment.mapIndex]
    split <;> nofun
  rw [List.forall_mem_cons, List.forall_mem_cons, List.forall_mem_flatMap]
  refine ⟨ofText_tag_ne command, hindex, fun pair hpair => ?_⟩
  rw [attachmentSegments, List.forall_mem_cons, List.forall_mem_singleton]
  exact ⟨ofText_tag_ne pair.1, h pair hpair⟩

-- ── Without an end marker among the values ───────────────────────────────────────

theorem Encodable.asDocument_encodable (h : m.Encodable)
    (hvalues : ∀ pair ∈ m.attachments.entries.toList, pair.2.segment.tag ≠ .documentEnd) :
    m.asDocument.Encodable := by
  refine ⟨?_, h.members_wellFormed, ?_⟩
  · intro s hs
    exact front_tag_ne _ _ hvalues s (Array.mem_toList_iff.mpr hs)
  · show m.members.length ≤ maxWord
    rw [m.length_members]
    exact h.count_le

/-- **The document of a message is written as the message.** -/
theorem Encodable.asDocument_flatten (h : m.Encodable)
    (hvalues : ∀ pair ∈ m.attachments.entries.toList, pair.2.segment.tag ≠ .documentEnd) :
    m.asDocument.flatten = m.flatten := by
  rw [(h.asDocument_encodable hvalues).flatten_eq, h.flatten_eq_envelope, ← m.length_members]
  rfl

-- ── With an end marker among the values ──────────────────────────────────────────

/-- The segments of a message in front of the value of an attachment. -/
def frontOf (m : Message) (before : List (String × Field)) (name : String) : List Segment :=
  (.ofText m.command :: .mapIndex (.ofNat m.attachments.length) ::
    before.flatMap attachmentSegments) ++ [.ofText name]

theorem length_frontOf (m : Message) (before : List (String × Field)) (name : String) :
    (m.frontOf before name).length = 2 * (before.length + 1) + 1 := by
  rw [frontOf, List.length_append, List.length_cons, List.length_cons,
    length_flatMap_attachmentSegments, List.length_singleton]
  omega

theorem members_of_split {before after : List (String × Field)} {name : String} {value : Field}
    (hsplit : m.attachments.entries.toList = before ++ (name, value) :: after) :
    m.members = m.frontOf before name ++ value.segment :: after.flatMap attachmentSegments := by
  rw [members, hsplit, List.flatMap_append, List.flatMap_cons, frontOf]
  simp [attachmentSegments]

theorem take_members {before after : List (String × Field)} {name : String} {value : Field}
    (hsplit : m.attachments.entries.toList = before ++ (name, value) :: after) :
    m.members.take (2 * (before.length + 1) + 1) = m.frontOf before name := by
  rw [members_of_split hsplit, ← m.length_frontOf before name, List.take_left]

theorem drop_members {before after : List (String × Field)} {name : String} {value : Field}
    (hsplit : m.attachments.entries.toList = before ++ (name, value) :: after) :
    m.members.drop (2 * (before.length + 1) + 2) = after.flatMap attachmentSegments := by
  have hlength := m.length_frontOf before name
  have hnext : 2 * (before.length + 1) + 2 = (m.frontOf before name).length + 1 := by omega
  rw [members_of_split hsplit, hnext, List.drop_length_add_append]
  rfl

/-- What stands behind the value is well formed, the end marker included. -/
theorem Encodable.rest_wellFormed (h : m.Encodable) {before after : List (String × Field)}
    {name : String} {value : Field}
    (hsplit : m.attachments.entries.toList = before ++ (name, value) :: after) :
    ∀ s ∈ after.flatMap attachmentSegments ++ [endMarker m.integrityCount], s.WellFormed := by
  intro s hs
  rcases List.mem_append.mp hs with hs | hs
  · refine h.members_wellFormed s ?_
    rw [members_of_split hsplit]
    exact List.mem_append_right _ (List.mem_cons_of_mem _ hs)
  · rw [List.mem_singleton.mp hs]
    exact (endMarker_admitted _ .unbounded).wellFormed

/-- An end marker states some count. -/
theorem exists_endCount {s : Segment} (h : s.WellFormed) (htag : s.tag = .documentEnd) :
    ∃ count, s.endCount = .ok count := by
  have hwidth : s.payload.length = 8 := by
    rw [Segment.WellFormed, htag] at h
    exact h
  refine ⟨.ofNat (ofBigEndian s.payload), ?_⟩
  rw [Segment.endCount, Segment.number, if_neg (not_not_intro htag),
    if_neg (not_not_intro hwidth)]
  rfl

/-- **With an end marker among the values, a reader of documents stops there** and leaves the rest
    of the message. -/
theorem Encodable.readDocument_stops (h : m.Encodable) {before after : List (String × Field)}
    {name : String} {value : Field} {count : UInt64}
    (hsplit : m.attachments.entries.toList = before ++ (name, value) :: after)
    (hbefore : ∀ pair ∈ before, pair.2.segment.tag ≠ .documentEnd)
    (hvalue : value.segment.endCount = .ok count) (source : Source) (left : Bytes)
    (hpending : source.pending =
      (envelope m.members m.integrityCount).flatMap Segment.encoding ++ left) :
    (count.toNat = (m.frontOf before name).length →
      readDocument.Finds .unbounded source ⟨(m.frontOf before name).toArray⟩
        ((after.flatMap attachmentSegments ++ [endMarker m.integrityCount]).flatMap
          Segment.encoding ++ left)) ∧
      (count.toNat ≠ (m.frontOf before name).length → readDocument.Fails .unbounded source
        (.sizeMismatch count.toNat (m.frontOf before name).length)) := by
  have hmembers := members_of_split hsplit
  have hfront : ∀ s ∈ m.frontOf before name, s.WellFormed ∧ s.tag ≠ .documentEnd := by
    intro s hs
    refine ⟨h.members_wellFormed s (hmembers ▸ List.mem_append_left _ hs), ?_⟩
    rcases List.mem_append.mp hs with hs | hs
    · exact front_tag_ne _ _ hbefore s hs
    · rw [List.mem_singleton.mp hs]
      exact ofText_tag_ne name
  have hlength : (m.frontOf before name).length ≤ maxWord := by
    have hle := h.count_le
    rw [← m.length_members, hmembers, List.length_append] at hle
    omega
  refine readDocument_envelope hfront hlength (Nat.le_of_lt_succ count.toNat_lt) ?_
  have hmarker : value.segment = endMarker count.toNat := Segment.endCount_eq_ok_iff.mp hvalue
  rw [hpending, hmembers, hmarker]
  simp [envelope]

end Message

/-- **Every message is also a document.** The bytes of an encodable message without an end marker among
    its values are read as the document of its command, the index that states the number of its
    attachments, and their names and values in order. The document has the count of the message, and is
    written as the same bytes, so that it has the same fingerprint. If an attachment, the `i`-th, is the
    first whose value is an end marker, the document ends there: it has the first `2 i + 1` of those
    members, and the rest is left, if the value states just this count; otherwise it is refused for its
    size. -/
theorem message_is_document (m : Message) (h : m.Encodable) :
    ∃ e, m.flatten = .ok e ∧
      ((∀ pair ∈ m.attachments.entries.toList, pair.2.segment.tag ≠ .documentEnd) →
        m.asDocument.integrityCount = m.integrityCount ∧
        m.asDocument.flatten = .ok e ∧ m.asDocument.fingerprint = m.fingerprint ∧
        Document.unflatten e = .ok m.asDocument ∧
        ∀ (source : Source) (left : Bytes), source.pending = e ++ left →
          readDocument.Finds .unbounded source m.asDocument left) ∧
      ∀ (before after : List (String × Field)) (name : String) (value : Field) (i : Nat),
        m.attachments.entries.toList = before ++ (name, value) :: after → before.length + 1 = i →
        (∀ pair ∈ before, pair.2.segment.tag ≠ .documentEnd) →
        value.segment.tag = .documentEnd →
        ∃ count unread, value.segment.endCount = .ok count ∧
          ((m.members.drop (2 * i + 2) ++ [endMarker m.integrityCount]).forM
            Segment.write).bytes = .ok unread ∧
          (count.toNat = 2 * i + 1 →
            Document.unflatten e = .ok ⟨(m.members.take (2 * i + 1)).toArray⟩) ∧
          (count.toNat ≠ 2 * i + 1 →
            Document.unflatten e = .error (.sizeMismatch count.toNat (2 * i + 1))) ∧
          ∀ (source : Source) (left : Bytes), source.pending = e ++ left →
            (count.toNat = 2 * i + 1 → readDocument.Finds .unbounded source
              ⟨(m.members.take (2 * i + 1)).toArray⟩ (unread ++ left)) ∧
            (count.toNat ≠ 2 * i + 1 → readDocument.Fails .unbounded source
              (.sizeMismatch count.toNat (2 * i + 1))) := by
  refine ⟨_, h.flatten_eq_envelope, ?_, ?_⟩
  · intro hvalues
    have hflatten := h.asDocument_flatten hvalues
    have hread := readDocument_decodes_flatten
    have hform := And.intro (h.asDocument_encodable hvalues) (hflatten.trans h.flatten_eq_envelope)
    refine ⟨m.length_members, hform.2, congrArg (Except.map fingerprint) hflatten, ?_, ?_⟩
    · exact (hread.ofBytes_eq_ok_iff _ _).mpr ⟨_, [], hform, (List.append_nil _).symm⟩
    · intro source left hpending
      exact hread.finds hform hpending
  · intro before after name value i hsplit hi hbefore htag
    subst hi
    have hlength := m.length_frontOf before name
    have hvalue : value.segment.WellFormed := by
      refine h.attachments.values_wellFormed (name, value) ?_
      rw [hsplit]
      exact List.mem_append_right _ List.mem_cons_self
    obtain ⟨count, hcount⟩ := Message.exists_endCount hvalue htag
    have hstops := h.readDocument_stops hsplit hbefore hcount
    obtain ⟨hfinds, hfails⟩ := hstops { pending := _ } [] (List.append_nil _).symm
    rw [Message.drop_members hsplit, Message.take_members hsplit, ← hlength]
    refine ⟨count, (after.flatMap Message.attachmentSegments ++
      [endMarker m.integrityCount]).flatMap Segment.encoding, hcount, ?_, ?_, ?_, hstops⟩
    · rw [Segment.forM_write_eq_put (h.rest_wellFormed hsplit), Writer.bytes_put]
    · exact fun heq => (hfinds heq).ofBytes_eq_ok
    · exact fun hne => Reader.ofBytes_eq_error_iff.mpr (hfails hne)

/-- A message with an octet attached is the document of its four segments. With an end marker of three
    attached, it is the document of the three segments before that marker. -/
theorem message_is_document_octet_and_marker :
    ∃ plain marked : Message, plain.Encodable ∧ marked.Encodable ∧
      plain.flatten = .ok [1, 1, 14, 0, 1, 97, 18, 0, 1, 14, 0, 1, 107, 4, 7,
        2, 0, 0, 0, 0, 0, 0, 0, 4] ∧
      Document.unflatten [1, 1, 14, 0, 1, 97, 18, 0, 1, 14, 0, 1, 107, 4, 7,
        2, 0, 0, 0, 0, 0, 0, 0, 4] =
          .ok ⟨#[⟨.string, [97]⟩, ⟨.map, [0, 1]⟩, ⟨.string, [107]⟩, ⟨.uint8, [7]⟩]⟩ ∧
      marked.flatten = .ok [1, 1, 14, 0, 1, 97, 18, 0, 1, 14, 0, 1, 107,
        2, 0, 0, 0, 0, 0, 0, 0, 3, 2, 0, 0, 0, 0, 0, 0, 0, 4] ∧
      Document.unflatten [1, 1, 14, 0, 1, 97, 18, 0, 1, 14, 0, 1, 107,
        2, 0, 0, 0, 0, 0, 0, 0, 3, 2, 0, 0, 0, 0, 0, 0, 0, 4] =
          .ok ⟨#[⟨.string, [97]⟩, ⟨.map, [0, 1]⟩, ⟨.string, [107]⟩]⟩ := by
  have hwith : ∀ value : Field, value.segment.WellFormed → ∃ m : Message, m.Encodable ∧
      m.attachments.entries.toList = [("k", value)] ∧
      m.members = [⟨.string, [97]⟩, ⟨.map, [0, 1]⟩, ⟨.string, [107]⟩, value.segment] ∧
      m.flatten = envelopeBytes m.members 4 := by
    intro value hvalue
    have hpairs : ∀ pair ∈ [("k", value)],
        pair.1.utf8ByteSize ≤ maxRegular ∧ pair.2.segment.WellFormed := by
      intro pair hpair
      obtain rfl := List.mem_singleton.mp hpair
      have hname : "k".utf8ByteSize ≤ maxRegular := by decide
      exact ⟨hname, hvalue⟩
    have hkeys : ([("k", value)].map Prod.fst).Nodup := List.nodup_singleton "k"
    have hcount : 1 ≤ maxWord := by decide
    obtain ⟨hattachments, hentries⟩ := FieldMap.encodable_ofList hkeys hpairs hcount
    let m : Message := ⟨"a", .ofList [("k", value)]⟩
    have hlength : m.attachments.length = 1 := congrArg List.length hentries
    have hcommand : "a".utf8ByteSize ≤ maxWord := by decide
    have h : m.Encodable := ⟨hattachments, hcommand, by rw [Message.integrityCount, hlength]; decide⟩
    refine ⟨m, h, hentries, ?_, ?_⟩
    · rw [Message.members, hlength, hentries]
      rfl
    · rw [h.flatten_eq_envelope, envelopeBytes_eq h.members_wellFormed, Message.integrityCount, hlength]
  obtain ⟨plain, hplain, hpairs, hmembers, hbytes⟩ := hwith ⟨⟨.uint8, [7]⟩, rfl⟩ rfl
  obtain ⟨marked, hmarked, hpairs', hmembers', hbytes'⟩ := hwith ⟨endMarker 3, rfl⟩ rfl
  obtain ⟨e, he, hread, -⟩ := message_is_document plain hplain
  obtain ⟨e', he', -, hstop⟩ := message_is_document marked hmarked
  rw [hbytes, hmembers] at he
  rw [hbytes', hmembers'] at he'
  cases he
  cases he'
  refine ⟨plain, marked, hplain, hmarked, by rw [hbytes, hmembers]; rfl, ?_,
    by rw [hbytes', hmembers']; rfl, ?_⟩
  · obtain ⟨-, -, -, hdocument, -⟩ := hread (by rw [hpairs]; simp)
    rw [Message.asDocument, hmembers] at hdocument
    exact hdocument
  · obtain ⟨count, -, hcount, -, hdocument, -⟩ := hstop [] [] "k" _ 1 hpairs' rfl (by simp) rfl
    cases hcount
    rw [hmembers'] at hdocument
    exact hdocument rfl

end SegmentWire
