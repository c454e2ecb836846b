import SegmentWire.Proofs.Failing

/-!
# What the integrity count detects

The count in an end marker repeats what the body of an envelope says. A reader compares the two after it
has read a whole body, and it refuses nothing else for a size: so this one failure says that the body
was complete and that the marker states another number.

A message says the number of its attachments twice, in the index of its map and in its end marker. If the
index is wrong, the reader is out of step with the attachments when it looks for the end marker, and what
it finds instead gives it away; what the end marker states is then never looked at.

* **`envelope`**, **`envelopeBytes`** — a body between markers that state a number of one's own choice.
* **`readDocument_refuses_sizeMismatch`**, **`readMessage_refuses_sizeMismatch`** — the envelopes that
  are refused for their count; **`sizeMismatch_iff_count_differs`** is both of them.
* **`Message.bytesStating`** — a message whose two counts are replaced;
  **`counts_protect_each_other`** says what a reader makes of it.
-/

namespace SegmentWire

-- powers are those of the core library, whatever else is imported
attribute [local instance (2000)] instPowNat

-- ── Envelopes with any count ─────────────────────────────────────────────────────

/-- A body between the markers of an envelope, of which the last states this count. -/
def envelope (body : List Segment) (count : Nat) : List Segment :=
  startMarker :: (body ++ [endMarker count])

/-- The bytes of an envelope with a count of one's own choice. -/
def envelopeBytes (body : List Segment) (count : Nat) : Except WireError Bytes :=
  ((envelope body count).forM Segment.write).bytes

theorem flatMap_envelope (body : List Segment) (count : Nat) :
    (envelope body count).flatMap Segment.encoding =
      startMarker.encoding ++ (body.flatMap Segment.encoding ++ (endMarker count).encoding) := by
  simp [envelope]

theorem envelopeBytes_eq {body : List Segment} (hbody : ∀ s ∈ body, s.WellFormed) (count : Nat) :
    envelopeBytes body count = .ok ((envelope body count).flatMap Segment.encoding) := by
  have hwellFormed : ∀ s ∈ envelope body count, s.WellFormed := by
    intro s hs
    rw [envelope, List.mem_cons, List.mem_append, List.mem_singleton] at hs
    rcases hs with rfl | hs | rfl
    · exact (startMarker_admitted .unbounded).wellFormed
    · exact hbody s hs
    · exact (endMarker_admitted count .unbounded).wellFormed
  rw [envelopeBytes, Segment.forM_write_eq_put hwellFormed, Writer.bytes_put]

/-- An encodable document is written with the count of its members. -/
theorem Document.Encodable.flatten_eq_envelopeBytes {d : Document} (h : d.Encodable) :
    d.flatten = envelopeBytes d.members.toList d.members.size :=
  h.flatten_eq.trans (envelopeBytes_eq h.members_wellFormed _).symm

-- ── The check of the end marker ──────────────────────────────────────────────────

/-- Of well-formed segments, the end marker of another count alone is refused for its size. -/
theorem checkEnd_eq_sizeMismatch_iff {marker : Segment} (h : marker.WellFormed)
    {count declared actual : Nat} :
    checkEnd marker count = .error (.sizeMismatch declared actual) ↔
      declared ≤ maxWord ∧ marker = endMarker declared ∧ actual = count ∧ declared ≠ actual := by
  have hcheck : checkEnd marker count = if marker.tag ≠ .documentEnd then
      .error (.endExpected marker.tag)
    else marker.endCount >>= fun stated =>
      if stated.toNat ≠ count then .error (.sizeMismatch stated.toNat count) else .ok () := rfl
  rw [hcheck]
  constructor
  · intro hfails
    split at hfails
    · cases hfails
    · rcases bind_eq_error_iff.mp hfails with hend | ⟨stated, hend, hfails⟩
      · exact absurd rfl (h.fits.spares_endCount _ hend)
      · split at hfails
        · next hne =>
          cases hfails
          exact ⟨Nat.le_of_lt_succ stated.toNat_lt, Segment.endCount_eq_ok_iff.mp hend, rfl, hne⟩
        · cases hfails
  · rintro ⟨hle, rfl, rfl, hne⟩
    have hword : (UInt64.ofNat declared).toNat = declared := Segment.toNat_ofNat_of_le hle
    have hend : (endMarker declared).endCount = .ok (.ofNat declared) := by
      rw [Segment.endCount_eq_ok_iff, Segment.documentEnd, hword]
      rfl
    have htag : ¬ (endMarker declared).tag ≠ .documentEnd := not_not_intro rfl
    rw [if_neg htag, hend]
    show (if (UInt64.ofNat declared).toNat ≠ actual then _ else _) = _
    rw [hword, if_pos hne]

-- ── Envelopes refused for their count ────────────────────────────────────────────

/-- A document is refused for its size exactly where a whole body is pending between markers that state
    another number of members. -/
theorem readDocument_refuses_sizeMismatch (declared actual : Nat) :
    readDocument.Refuses .unbounded (.sizeMismatch declared actual) (fun b =>
      ∃ body, (∀ s ∈ body, s.WellFormed ∧ s.tag ≠ .documentEnd) ∧ body.length = actual ∧
        actual ≤ maxWord ∧ declared ≤ maxWord ∧ declared ≠ actual ∧
        b = (envelope body declared).flatMap Segment.encoding) := by
  have hkind : (WireError.sizeMismatch declared actual).kind = .sizeMismatch := rfl
  refine ((readStart_decodes .unbounded).bind_refuses readStart_spares hkind fun _ =>
    (readMembers_decodes .unbounded #[]).bind_refuses (readMembers_spares #[]) hkind fun found =>
      Reader.refuses_lift_bind (Document.mk found.1)).congr fun b => ?_
  constructor
  · rintro ⟨_, e₁, e₂, rfl, ⟨⟨members, marker⟩, e₃, e₄, ⟨body, hmembers, hbody, hlimit, hmarker, -,
      rfl⟩, ⟨hcheck, rfl⟩, rfl⟩, rfl⟩
    obtain rfl : members.toList = body := hmembers
    obtain ⟨hle, rfl, rfl, hne⟩ := (checkEnd_eq_sizeMismatch_iff hmarker.wellFormed).mp hcheck
    refine ⟨members.toList, fun s hs => ⟨(hbody s hs).1.wellFormed, (hbody s hs).2⟩,
      Array.length_toList, ?_, hle, hne, ?_⟩
    · -- the loop holds the number of members against the limit at each of them, so at one at least
      by_cases hempty : members.toList = []
      · have hsize := congrArg List.length hempty
        rw [Array.length_toList] at hsize
        exact Nat.le_trans (Nat.le_of_eq hsize) (Nat.zero_le _)
      · exact hlimit hempty
    · rw [flatMap_envelope]
      simp
  · rintro ⟨body, hbody, rfl, hlength, hle, hne, rfl⟩
    have hadmitted : ∀ s ∈ body, s.Admitted .unbounded ∧ s.tag ≠ .documentEnd :=
      fun s hs => ⟨Segment.admitted_unbounded_iff.mpr (hbody s hs).1, (hbody s hs).2⟩
    have hmarker := endMarker_admitted declared .unbounded
    refine ⟨(), startMarker.encoding, _, rfl, ⟨(body.toArray, endMarker declared), _, [],
      ⟨body, rfl, hadmitted, fun _ => hlength, hmarker, rfl, rfl⟩,
      ⟨(checkEnd_eq_sizeMismatch_iff hmarker.wellFormed).mpr ⟨hle, rfl, rfl, hne⟩, rfl⟩, rfl⟩, ?_⟩
    rw [flatMap_envelope]
    simp

/-- The segments between the markers of a message, with a command and an index of one's own choice. -/
def Message.body (m : Message) (command index : Segment) : List Segment :=
  command :: index :: m.attachments.members

/-- The forms of a message with a command and attachments that can be read, and with a count in its end
    marker that is another one than theirs. -/
structure Message.Miscounted (m : Message) (declared : Nat) (command index : Segment) : Prop where
  attachments : m.attachments.Encodable
  command : Segment.StatesText m.command command
  index : Segment.StatesCount .map .largeMap m.attachments.length index
  declared_le : declared ≤ maxWord
  differs : declared ≠ m.integrityCount

theorem Message.body_wellFormed {m : Message} (h : m.attachments.Encodable) {command index : Segment}
    (hcommand : command.WellFormed) (hindex : index.WellFormed) :
    ∀ s ∈ m.body command index, s.WellFormed := by
  intro s hs
  rw [Message.body, List.mem_cons, List.mem_cons] at hs
  rcases hs with rfl | rfl | hs
  · exact hcommand
  · exact hindex
  · exact h.members_wellFormed s hs

theorem Message.Miscounted.body_wellFormed {m : Message} {declared : Nat} {command index : Segment}
    (h : m.Miscounted declared command index) : ∀ s ∈ m.body command index, s.WellFormed :=
  Message.body_wellFormed h.attachments h.command.wellFormed (h.index.wellFormed rfl rfl)

/-- A message is refused for its size exactly where its command and its attachments are pending between
    markers that state another count. -/
theorem readMessage_refuses_sizeMismatch (declared actual : Nat) :
    readMessage.Refuses .unbounded (.sizeMismatch declared actual) (fun b =>
      ∃ m command index, Message.Miscounted m declared command index ∧ actual = m.integrityCount ∧
        b = (envelope (m.body command index) declared).flatMap Segment.encoding) := by
  have hkind : (WireError.sizeMismatch declared actual).kind = .sizeMismatch := rfl
  refine ((readStart_decodes .unbounded).bind_refuses readStart_spares hkind fun _ =>
    (readCommand_decodes .unbounded).bind_refuses readCommand_spares hkind fun command =>
      (readMap_decodes .unbounded).bind_refuses readMap_spares hkind fun attachments =>
        (readSegment_decodes .unbounded).bind_refuses readSegment_spares hkind fun marker =>
          Reader.refuses_lift_bind (Message.mk command attachments)).congr fun b => ?_
  constructor
  · rintro ⟨_, e₁, e₂, rfl, ⟨text, e₃, e₄, ⟨-, -, command, htext, rfl⟩, ⟨attachments, e₅, e₆,
      ⟨hattachments, index, hindex, rfl⟩, ⟨marker, e₇, e₈, ⟨hmarker, rfl⟩, ⟨hcheck, rfl⟩, rfl⟩,
      rfl⟩, rfl⟩, rfl⟩
    obtain ⟨hle, rfl, rfl, hne⟩ := (checkEnd_eq_sizeMismatch_iff hmarker.wellFormed).mp hcheck
    refine ⟨⟨text, attachments⟩, command, index, ⟨?_, htext, hindex, hle, hne⟩, rfl, ?_⟩
    · exact FieldMap.admitted_unbounded_iff.mp hattachments
    · rw [flatMap_envelope, Message.body]
      simp
  · rintro ⟨m, command, index, ⟨hattachments, htext, hindex, hle, hne⟩, rfl, rfl⟩
    have hmarker := endMarker_admitted declared .unbounded
    refine ⟨(), startMarker.encoding, _, rfl, ⟨m.command, command.encoding, _,
      ⟨htext.le_maxWord, htext.le_maxWord, command, htext, rfl⟩, ⟨m.attachments, _, _,
        ⟨FieldMap.admitted_unbounded_iff.mpr hattachments, index, hindex, rfl⟩,
        ⟨endMarker declared, _, [], ⟨hmarker, rfl⟩,
          ⟨(checkEnd_eq_sizeMismatch_iff hmarker.wellFormed).mpr ⟨hle, rfl, rfl, hne⟩, rfl⟩,
          rfl⟩, rfl⟩, rfl⟩, ?_⟩
    rw [flatMap_envelope, Message.body]
    simp

/-- **A wrong size reported for an envelope means a count that differs, and nothing else.** A document is
    refused for its size exactly where some segments are pending, none of them an end marker, between
    markers that state another number of them; a message exactly where a command and an accepted map
    are pending between markers that state another count than theirs. So a document whose members are
    replaced by any other number of members is always refused for its size. What stands inside a body is
    never refused for a size: no segment, no index, no command and no member. -/
theorem sizeMismatch_iff_count_differs :
    (∀ (source : Source) (declared actual : Nat),
      readDocument.Fails .unbounded source (.sizeMismatch declared actual) ↔
        ∃ body e left, (∀ s ∈ body, s.WellFormed ∧ s.tag ≠ .documentEnd) ∧
          body.length = actual ∧ actual ≤ maxWord ∧ declared ≤ maxWord ∧ declared ≠ actual ∧
          envelopeBytes body declared = .ok e ∧ source.pending = e ++ left) ∧
    (∀ (source : Source) (declared actual : Nat),
      readMessage.Fails .unbounded source (.sizeMismatch declared actual) ↔
        ∃ (m : Message) (command index : Segment) (e left : Bytes), m.attachments.Encodable ∧
          Segment.StatesText m.command command ∧
          Segment.StatesCount .map .largeMap m.attachments.length index ∧
          actual = 2 + 2 * m.attachments.length ∧ declared ≤ maxWord ∧ declared ≠ actual ∧
          envelopeBytes (m.body command index) declared = .ok e ∧ source.pending = e ++ left) ∧
    (∀ (d : Document) (body : List Segment), d.Encodable →
      (∀ s ∈ body, s.WellFormed ∧ s.tag ≠ .documentEnd) → body.length ≤ maxWord →
      body.length ≠ d.length → d.flatten = envelopeBytes d.members.toList d.length ∧
        ∃ e, envelopeBytes body d.length = .ok e ∧ ∀ left,
          Document.unflatten (e ++ left) = .error (.sizeMismatch d.length body.length)) ∧
    ∀ (limits : Limits) (source : Source) (e : WireError),
      readSegment.Fails limits source e ∨ readField.Fails limits source e ∨
        readList.Fails limits source e ∨ readMap.Fails limits source e ∨
        readCommand.Fails limits source e ∨
        (∃ before, Reader.Fails (readMembers before) limits source e) → e.kind ≠ .sizeMismatch := by
  refine ⟨?_, ?_, ?_, ?_⟩
  · intro source declared actual
    rw [readDocument_refuses_sizeMismatch declared actual source]
    constructor
    · rintro ⟨_, left, ⟨body, hbody, hlength, hactual, hdeclared, hne, rfl⟩, hpending⟩
      exact ⟨body, _, left, hbody, hlength, hactual, hdeclared, hne,
        envelopeBytes_eq (fun s hs => (hbody s hs).1) declared, hpending⟩
    · rintro ⟨body, e, left, hbody, hlength, hactual, hdeclared, hne, hbytes, hpending⟩
      rw [envelopeBytes_eq (fun s hs => (hbody s hs).1)] at hbytes
      cases hbytes
      exact ⟨_, left, ⟨body, hbody, hlength, hactual, hdeclared, hne, rfl⟩, hpending⟩
  · intro source declared actual
    rw [readMessage_refuses_sizeMismatch declared actual source]
    constructor
    · rintro ⟨_, left, ⟨m, command, index, h, rfl, rfl⟩, hpending⟩
      exact ⟨m, command, index, _, left, h.attachments, h.command, h.index, rfl, h.declared_le,
        h.differs, envelopeBytes_eq h.body_wellFormed declared, hpending⟩
    · rintro ⟨m, command, index, e, left, hattachments, hcommand, hindex, rfl, hle, hne, hbytes,
        hpending⟩
      have h : m.Miscounted declared command index := ⟨hattachments, hcommand, hindex, hle, hne⟩
      rw [envelopeBytes_eq h.body_wellFormed] at hbytes
      cases hbytes
      exact ⟨_, left, ⟨m, command, index, h, rfl, rfl⟩, hpending⟩
  · intro d body h hbody hlength hne
    have hbytes := envelopeBytes_eq (fun s hs => (hbody s hs).1) d.length
    refine ⟨h.flatten_eq_envelopeBytes, _, hbytes, fun left => ?_⟩
    rw [Document.unflatten, Reader.ofBytes_eq_error_iff]
    exact (readDocument_refuses_sizeMismatch _ _ _).mpr
      ⟨_, left, ⟨body, hbody, rfl, hlength, h.count_le, hne.symm, rfl⟩, rfl⟩
  · rintro limits source e (h | h | h | h | h | ⟨before, h⟩)
    · exact readSegment_spares source e h
    · exact readField_spares source e h
    · exact readList_spares source e h
    · exact readMap_spares source e h
    · exact readCommand_spares source e h
    · exact readMembers_spares before source e h

-- ── The two counts of a message ──────────────────────────────────────────────────

namespace Message

variable {m : Message}

/-- The bytes of a message with an index of one's own choice in front of its attachments, and with any
    count in its end marker. -/
def bytesStating (m : Message) (index : Segment) (count : Nat) : Except WireError Bytes :=
  envelopeBytes (m.body (.ofText m.command) index) count

/-- An encodable message is written with the number of its attachments in both places. -/
theorem Encodable.flatten_eq_bytesStating (h : m.Encodable) :
    m.flatten = m.bytesStating (.mapIndex (.ofNat m.attachments.length)) m.integrityCount :=
  h.flatten_eq_flattenWith

theorem Encodable.bytesStating_eq (h : m.Encodable) {index : Segment} (hindex : index.WellFormed)
    (count : Nat) :
    m.bytesStating index count =
      .ok ((envelope (m.body (.ofText m.command) index) count).flatMap Segment.encoding) :=
  envelopeBytes_eq (body_wellFormed h.attachments
    (Segment.statesText_ofText h.command_le).wellFormed hindex) count

end Message

/-- Behind an index that states fewer attachments than there are, these are found, and the others are
    left. -/
theorem FieldMap.Encodable.readMap_finds_take {m : FieldMap} (h : m.Encodable) {index : Segment}
    {count : Nat} (hindex : Segment.StatesCount .map .largeMap count index) (hle : count ≤ m.length)
    {source : Source} {left : Bytes}
    (hpending : source.pending = (index :: m.members).flatMap Segment.encoding ++ left) :
    ∃ first : FieldMap, readMap.Finds .unbounded source first
      (((m.entries.toList.drop count).flatMap pairSegments).flatMap Segment.encoding ++ left) := by
  have hnodup : ((m.entries.toList.take count).map Prod.fst).Nodup := by
    rw [List.map_take]
    exact h.indexed.keys_nodup.take
  have hlength : (m.entries.toList.take count).length = count := by
    rw [List.length_take, Array.length_toList]
    exact Nat.min_eq_left hle
  have hword : (m.entries.toList.take count).length ≤ maxWord := by
    rw [hlength]
    exact hindex.le_maxWord
  obtain ⟨hfirst, hentries⟩ := encodable_ofList hnodup
    (fun pair hpair => ⟨h.keys_fit pair (List.mem_of_mem_take hpair),
      h.values_wellFormed pair (List.mem_of_mem_take hpair)⟩) hword
  have hcount : (ofList (m.entries.toList.take count)).length = count := by
    rw [length, ← Array.length_toList, hentries, hlength]
  have hmembers : m.members = (ofList (m.entries.toList.take count)).members ++
      (m.entries.toList.drop count).flatMap pairSegments := by
    rw [members, members, hentries, ← List.flatMap_append, List.take_append_drop]
  refine ⟨ofList (m.entries.toList.take count), (readMap_decodes .unbounded).finds
    ⟨admitted_unbounded_iff.mpr hfirst, index, hcount.symm ▸ hindex, rfl⟩ ?_⟩
  rw [hpending, hmembers]
  simp

/-- Behind an index that states more attachments than there are, the next segment is taken for a key. -/
theorem FieldMap.Encodable.readMap_fails_behind {m : FieldMap} (h : m.Encodable) {index : Segment}
    {count : Nat} (hindex : Segment.StatesCount .map .largeMap count index) (hlt : m.length < count)
    {source : Source} {s : Segment} (hs : s.WellFormed) (htag : s.tag ≠ .string) {left : Bytes}
    (hpending : source.pending =
      (index :: m.members).flatMap Segment.encoding ++ (s.encoding ++ left)) :
    readMap.Fails .unbounded source (.keyNotString s.tag) := by
  refine h.readMap_fails_of_next hindex hlt hpending fun more rest hrest => ?_
  exact (readKey_fails_of_tag (Segment.admitted_unbounded_iff.mpr hs) htag hrest).bind

/-- What a reader does behind the command of a message. -/
def readBehind (command : String) : Reader Message := do
  let attachments ← readMap
  let message : Message := ⟨command, attachments⟩
  let marker ← readSegment
  (checkEnd marker message.integrityCount : Except WireError Unit)
  return message

/-- A message whose command can be read fails as what stands behind it. -/
theorem readMessage_fails_of_behind {m : Message} (hcommand : m.command.utf8ByteSize ≤ maxWord)
    {index : Segment} {count : Nat} {source : Source} {left : Bytes} {e : WireError}
    (hpending : source.pending =
      (envelope (m.body (.ofText m.command) index) count).flatMap Segment.encoding ++ left)
    (hbehind : ∀ rest : Source, rest.pending =
        (index :: m.attachments.members).flatMap Segment.encoding ++
          ((endMarker count).encoding ++ left) →
      (readBehind m.command).Fails .unbounded rest e) :
    readMessage.Fails .unbounded source e := by
  have hsplit : source.pending = startMarker.encoding ++ ((Segment.ofText m.command).encoding ++
      ((index :: m.attachments.members).flatMap Segment.encoding ++
        ((endMarker count).encoding ++ left))) := by
    rw [hpending, flatMap_envelope, Message.body]
    simp
  have hstart : readStart.Finds .unbounded source () _ :=
    (readStart_decodes .unbounded).finds rfl hsplit
  refine hstart.bind_fails fun rest hrest => ?_
  exact ((readCommand_decodes .unbounded).finds ⟨hcommand, hcommand, _,
    Segment.statesText_ofText hcommand, rfl⟩ hrest).bind_fails hbehind

namespace Message

variable {m : Message} {index : Segment} {stated count : Nat} {source : Source} {left : Bytes}
  (h : m.Encodable) (hindex : Segment.StatesCount .map .largeMap stated index)
  (hpending : source.pending =
    (envelope (m.body (.ofText m.command) index) count).flatMap Segment.encoding ++ left)
include h hindex hpending

/-- With too small an index, the name of the first attachment left over stands where the end marker is
    looked for. -/
theorem fails_of_stated_lt (hlt : stated < m.attachments.length) :
    readMessage.Fails .unbounded source (.endExpected .string) := by
  refine readMessage_fails_of_behind h.command_le hpending fun rest hrest => ?_
  obtain ⟨first, hfirst⟩ :=
    h.attachments.readMap_finds_take hindex (Nat.le_of_lt hlt) hrest
  have hplace : stated < m.attachments.entries.toList.length := by
    rw [Array.length_toList]
    exact hlt
  have hkey := h.attachments.keys_fit _ (List.getElem_mem hplace)
  have hadmitted : (keySegment m.attachments.entries.toList[stated].1).Admitted .unbounded :=
    Segment.admitted_unbounded_iff.mpr (keySegment_wellFormed_iff.mpr hkey)
  rw [List.drop_eq_getElem_cons hplace, List.flatMap_cons, FieldMap.pairSegments,
    List.cons_append, List.flatMap_cons, List.append_assoc] at hfirst
  refine hfirst.bind_fails fun rest hrest => ?_
  refine ((readSegment_decodes .unbounded).finds ⟨hadmitted, rfl⟩ hrest).bind_fails
    fun rest _ => ?_
  exact Reader.Fails.bind (Reader.fails_lift_iff.mpr rfl)

/-- With too large an index, the end marker stands where another name is looked for. -/
theorem fails_of_lt_stated (hlt : m.attachments.length < stated) :
    readMessage.Fails .unbounded source (.keyNotString .documentEnd) := by
  refine readMessage_fails_of_behind h.command_le hpending fun rest hrest => ?_
  have hmarker := (endMarker_admitted count .unbounded).wellFormed
  exact (h.attachments.readMap_fails_behind hindex hlt hmarker nofun hrest).bind

theorem finds_of_counts (hstated : stated = m.attachments.length)
    (hcount : count = m.integrityCount) : readMessage.Finds .unbounded source m left := by
  subst hstated
  subst hcount
  exact (readMessage_decodes .unbounded).finds ⟨admitted_unbounded_iff.mpr h, _, index,
    Segment.statesText_ofText h.command_le, hindex, rfl⟩ hpending

theorem fails_of_count_ne (hstated : stated = m.attachments.length) (hle : count ≤ maxWord)
    (hne : count ≠ m.integrityCount) :
    readMessage.Fails .unbounded source (.sizeMismatch count m.integrityCount) := by
  subst hstated
  refine (readMessage_refuses_sizeMismatch _ _ source).mpr ⟨_, left, ⟨m, _, index, ?_, rfl, rfl⟩,
    hpending⟩
  exact ⟨h.attachments, Segment.statesText_ofText h.command_le, hindex, hle, hne⟩

end Message

/-- **The two counts of a message protect each other.** In the bytes of an encodable message the index
    of its map and the count in its end marker may be replaced by any others. The message is read only
    where both are as they were. With the index as it was and another count, it is refused for its size,
    with both counts. With a smaller index a name stands in the place of the end marker, which makes an
    invalid message, and with a larger one the end marker in the place of a name, which makes an invalid
    key, whatever count the marker states. -/
theorem counts_protect_each_other (m : Message) (h : m.Encodable) :
    m.flatten = m.bytesStating (.mapIndex (.ofNat m.attachments.length))
        (2 + 2 * m.attachments.length) ∧
    ∀ (stated : Nat) (index : Segment) (count : Nat),
      Segment.StatesCount .map .largeMap stated index → count ≤ maxWord →
      ∃ e, m.bytesStating index count = .ok e ∧
        ∀ (source : Source) (left : Bytes), source.pending = e ++ left →
          (stated = m.attachments.length → count = 2 + 2 * m.attachments.length →
            readMessage.Finds .unbounded source m left) ∧
          (stated = m.attachments.length → count ≠ 2 + 2 * m.attachments.length →
            readMessage.Fails .unbounded source
              (.sizeMismatch count (2 + 2 * m.attachments.length))) ∧
          (stated < m.attachments.length →
            readMessage.Fails .unbounded source (.endExpected .string)) ∧
          (m.attachments.length < stated →
            readMessage.Fails .unbounded source (.keyNotString .documentEnd)) ∧
          ((∃ m' left', readMessage.Finds .unbounded source m' left') →
            stated = m.attachments.length ∧ count = 2 + 2 * m.attachments.length) := by
  refine ⟨h.flatten_eq_bytesStating, ?_⟩
  intro stated index count hindex hle
  refine ⟨_, h.bytesStating_eq (hindex.wellFormed rfl rfl) count, ?_⟩
  intro source left hpending
  have hsmaller := Message.fails_of_stated_lt h hindex hpending
  have hlarger := Message.fails_of_lt_stated h hindex hpending
  have hother := fun hstated => Message.fails_of_count_ne h hindex hpending hstated hle
  refine ⟨Message.finds_of_counts h hindex hpending, hother, hsmaller, hlarger, ?_⟩
  rintro ⟨m', left', hfound⟩
  have hstated : stated = m.attachments.length := by
    rcases Nat.lt_trichotomy stated m.attachments.length with hlt | heq | hlt
    · exact absurd (hsmaller hlt) hfound.not_fails
    · exact heq
    · exact absurd (hlarger hlt) hfound.not_fails
  refine ⟨hstated, ?_⟩
  by_contra hne
  exact hfound.not_fails (hother hstated hne)

/-- A message whose one attachment is itself an end marker with the count of the message. Without the
    attachment both counts would be right; with counts that agree on none or on two attachments it is
    refused, and with the index alone as it was, for its size. -/
theorem counts_protect_each_other_nested_marker :
    ∃ m : Message, m.Encodable ∧ m.attachments.length = 1 ∧
      m.bytesStating ⟨.map, [0, 0]⟩ 2 = .ok [1, 1, 14, 0, 1, 97, 18, 0, 0, 14, 0, 1, 107,
        2, 0, 0, 0, 0, 0, 0, 0, 4, 2, 0, 0, 0, 0, 0, 0, 0, 2] ∧
      Message.unflatten [1, 1, 14, 0, 1, 97, 18, 0, 0, 14, 0, 1, 107,
        2, 0, 0, 0, 0, 0, 0, 0, 4, 2, 0, 0, 0, 0, 0, 0, 0, 2] = .error (.endExpected .string) ∧
      Message.unflatten [1, 1, 14, 0, 1, 97, 18, 0, 2, 14, 0, 1, 107,
        2, 0, 0, 0, 0, 0, 0, 0, 4, 2, 0, 0, 0, 0, 0, 0, 0, 6] =
          .error (.keyNotString .documentEnd) ∧
      Message.unflatten [1, 1, 14, 0, 1, 97, 18, 0, 1, 14, 0, 1, 107,
        2, 0, 0, 0, 0, 0, 0, 0, 4, 2, 0, 0, 0, 0, 0, 0, 0, 6] = .error (.sizeMismatch 6 4) := by
  let pairs : List (String × Field) := [("k", ⟨endMarker 4, rfl⟩)]
  have hpairs : ∀ pair ∈ pairs, pair.1.utf8ByteSize ≤ maxRegular ∧ pair.2.segment.WellFormed := by
    intro pair hpair
    obtain rfl := List.mem_singleton.mp hpair
    exact ⟨by decide, rfl⟩
  have hkeys : (pairs.map Prod.fst).Nodup := List.nodup_singleton "k"
  obtain ⟨hattachments, hentries⟩ := FieldMap.encodable_ofList hkeys hpairs (by decide)
  let m : Message := ⟨"a", .ofList pairs⟩
  have hlength : m.attachments.length = 1 := congrArg List.length hentries
  have h : m.Encodable := ⟨hattachments, by decide, by rw [Message.integrityCount, hlength]; decide⟩
  have hbytes : ∀ index count, m.bytesStating index count =
      envelopeBytes [⟨.string, [97]⟩, index, ⟨.string, [107]⟩, endMarker 4] count := by
    intro index count
    rw [Message.bytesStating, Message.body, FieldMap.members, hentries]
    rfl
  obtain ⟨-, hread⟩ := counts_protect_each_other m h
  obtain ⟨none, hnone, hreadNone⟩ := hread 0 ⟨.map, [0, 0]⟩ 2 (Or.inl ⟨by decide, rfl⟩) (by decide)
  obtain ⟨two, htwo, hreadTwo⟩ := hread 2 ⟨.map, [0, 2]⟩ 6 (Or.inl ⟨by decide, rfl⟩) (by decide)
  obtain ⟨one, hone, hreadOne⟩ := hread 1 ⟨.map, [0, 1]⟩ 6 (Or.inl ⟨by decide, rfl⟩) (by decide)
  rw [hbytes] at hnone htwo hone
  cases hnone
  cases htwo
  cases hone
  have hsource : ∀ bytes : Bytes, Source.pending { pending := bytes } = bytes ++ [] :=
    fun bytes => (List.append_nil bytes).symm
  refine ⟨m, h, hlength, (hbytes _ _).trans rfl, ?_, ?_, ?_⟩
  · exact Reader.ofBytes_eq_error_iff.mpr ((hreadNone _ [] (hsource _)).2.2.1 (by omega))
  · exact Reader.ofBytes_eq_error_iff.mpr ((hreadTwo _ [] (hsource _)).2.2.2.1 (by omega))
  · have hrefused := (hreadOne _ [] (hsource _)).2.1 hlength.symm (by omega)
    rw [hlength] at hrefused
    exact Reader.ofBytes_eq_error_iff.mpr hrefused

end SegmentWire
