import SegmentWire.Message
import SegmentWire.Proofs.EnvelopeCodec
import SegmentWire.Proofs.MapCodec

/-!
# The message codec

A message encloses a command and a map of attachments. Both leave a reader a choice that a writer
does not have: a short command may come as a huge string, and the map behind a large index. The
envelope adds no choice, since its count follows from the number of attachments.

* **`Segment.StatesText`** — the segments that hold a given text, of either size class.
* **`Message.Encodable`** — the messages that have an encoding.
* **`write_eq_put`** — a message is written with the smallest command and the smallest index.
* **`readMessage_decodes`** — a reader finds a message exactly where one of its forms stands.
* **`message_codec_exact`** — both together.
-/

namespace SegmentWire

-- ── Commands ─────────────────────────────────────────────────────────────────────

namespace Segment

variable {s : Segment} {text : String}

/-- The segment is a string that holds this text: of the regular size class, which reaches to 65535
    bytes, or of the huge one. -/
def StatesText (text : String) (s : Segment) : Prop :=
  (text.utf8ByteSize ≤ maxRegular ∧ s = ⟨.string, Utf8.encode text⟩) ∨
    (text.utf8ByteSize ≤ maxWord ∧ s = ⟨.hugeString, Utf8.encode text⟩)

/-- A text stands in exactly the well-formed segments that it is read from. -/
theorem statesText_iff : StatesText text s ↔ s.WellFormed ∧ s.text = .ok text := by
  rw [text_eq_ok_iff]
  constructor
  · rintro (⟨hle, rfl⟩ | ⟨hle, rfl⟩)
    · exact ⟨Nat.lt_succ_of_le hle, rfl, rfl⟩
    · exact ⟨Nat.lt_succ_of_le hle, rfl, rfl⟩
  · rintro ⟨hwf, hstring, hpayload⟩
    obtain ⟨tag, payload⟩ := s
    obtain rfl : payload = Utf8.encode text := hpayload
    cases tag <;> cases hstring
    · exact Or.inl ⟨Nat.le_of_lt_succ hwf, rfl⟩
    · exact Or.inr ⟨Nat.le_of_lt_succ hwf, rfl⟩

theorem StatesText.wellFormed (h : StatesText text s) : s.WellFormed := (statesText_iff.mp h).1

theorem StatesText.le_maxWord (h : StatesText text s) : text.utf8ByteSize ≤ maxWord := by
  rcases h with ⟨hle, -⟩ | ⟨hle, -⟩
  · exact Nat.le_trans hle (by decide)
  · exact hle

/-- A writer makes a regular string of a text only if its bytes fit that. -/
theorem ofText_fits (text : String) : (ofText text).Fits :=
  fits_of_class rfl rfl (Utf8.encode text)

/-- What a writer makes of a text is one of the segments that hold it. -/
theorem statesText_ofText (h : text.utf8ByteSize ≤ maxWord) : StatesText text (ofText text) := by
  rw [ofText]
  split
  · next hle => exact Or.inl ⟨hle, rfl⟩
  · exact Or.inr ⟨h, rfl⟩

end Segment

/-- A reader finds a command exactly where a string of either size class holds it, if it is within
    two limits: the one on payloads, and its own. -/
theorem readCommand_decodes (limits : Limits) :
    readCommand.Decodes limits (fun text e => text.utf8ByteSize ≤ limits.payload ∧
      text.utf8ByteSize ≤ limits.command ∧
      ∃ command, Segment.StatesText text command ∧ e = command.encoding) := by
  refine ((readSegment_decodes limits).bind fun command => Reader.Decodes.unless fun _ =>
    Reader.decodes_limits.bind fun bounds => Reader.Decodes.unless fun _ =>
      Reader.decodes_lift command.text).congr fun text e => ?_
  constructor
  · rintro ⟨command, e₁, e₂, ⟨⟨hwf, hwithin⟩, rfl⟩, ⟨-, bounds, e₃, e₄, ⟨rfl, rfl⟩,
      ⟨hle, htext, rfl⟩, rfl⟩, rfl⟩
    have hstates := Segment.statesText_iff.mpr ⟨hwf, htext⟩
    obtain ⟨hstring, hpayload⟩ := Segment.text_eq_ok_iff.mp htext
    have hlength : command.payload.length = text.utf8ByteSize := congrArg List.length hpayload
    rw [hlength] at hle
    refine ⟨?_, Nat.not_lt.mp hle, command, hstates, List.append_nil _⟩
    rw [← hlength]
    -- strings of both size classes have a size field, so the limit on payloads holds for them
    refine hwithin ?_
    rcases hstates with ⟨-, rfl⟩ | ⟨-, rfl⟩ <;> rfl
  · rintro ⟨hpayload, hcommand, command, hstates, rfl⟩
    obtain ⟨hwf, htext⟩ := Segment.statesText_iff.mp hstates
    obtain ⟨hstring, hencode⟩ := Segment.text_eq_ok_iff.mp htext
    have hlength : command.payload.length = text.utf8ByteSize := congrArg List.length hencode
    refine ⟨command, command.encoding, [], ⟨⟨hwf, fun _ => hlength ▸ hpayload⟩, rfl⟩,
      ⟨?_, limits, [], [], ⟨rfl, rfl⟩, ⟨Nat.not_lt.mpr (hlength ▸ hcommand), htext, rfl⟩, rfl⟩,
      (List.append_nil _).symm⟩
    rw [hstring]
    exact Bool.true_eq_false.mp

-- ── Messages ─────────────────────────────────────────────────────────────────────

namespace Message

/-- What a reader accepts as a message. The count in the end marker has to be a word. -/
structure Admitted (limits : Limits) (m : Message) : Prop where
  command_payload : m.command.utf8ByteSize ≤ limits.payload
  command_le : m.command.utf8ByteSize ≤ limits.command
  attachments : m.attachments.Admitted limits
  count_le : m.integrityCount ≤ maxWord

/-- The messages that have an encoding. The names of the attachments have to fit a regular string
    segment; all else is true of every message that a sequence of operations can build. -/
structure Encodable (m : Message) : Prop where
  attachments : m.attachments.Encodable
  command_le : m.command.utf8ByteSize ≤ maxWord
  count_le : m.integrityCount ≤ maxWord

/-- Without limits, a reader accepts every encodable message. -/
theorem admitted_unbounded_iff {m : Message} : m.Admitted .unbounded ↔ m.Encodable := by
  constructor
  · rintro ⟨-, hcommand, hattachments, hcount⟩
    exact ⟨FieldMap.admitted_unbounded_iff.mp hattachments, hcommand, hcount⟩
  · rintro ⟨hattachments, hcommand, hcount⟩
    exact ⟨hcommand, hcommand, FieldMap.admitted_unbounded_iff.mpr hattachments, hcount⟩

/-- The segments of the envelope, with a command and an index of one's own choice. -/
def segments (m : Message) (command index : Segment) : List Segment :=
  startMarker :: command :: index :: (m.attachments.members ++ [endMarker m.integrityCount])

/-- The bytes of a message with a command and an index of one's own choice. -/
def flattenWith (m : Message) (command index : Segment) : Except WireError Bytes :=
  ((m.segments command index).forM Segment.write).bytes

theorem Encodable.flattenWith_eq {m : Message} (h : m.Encodable) {command index : Segment}
    (hcommand : command.WellFormed) (hindex : index.WellFormed) :
    m.flattenWith command index =
      .ok ((m.segments command index).flatMap Segment.encoding) := by
  have hwellFormed : ∀ s ∈ m.segments command index, s.WellFormed := by
    intro s hs
    rw [segments, List.mem_cons, List.mem_cons, List.mem_cons, List.mem_append,
      List.mem_singleton] at hs
    rcases hs with rfl | rfl | rfl | hs | rfl
    · exact (startMarker_admitted .unbounded).wellFormed
    · exact hcommand
    · exact hindex
    · exact h.attachments.members_wellFormed s hs
    · exact (endMarker_admitted _ .unbounded).wellFormed
  rw [flattenWith, Segment.forM_write_eq_put hwellFormed, Writer.bytes_put]

/-- **A message whose names fit is written with the smallest forms of its command and its index**, to
    every sink. -/
theorem write_eq_put {m : Message}
    (hnames : ∀ pair ∈ m.attachments.entries.toList, pair.1.utf8ByteSize ≤ maxRegular)
    (hvalues : ∀ pair ∈ m.attachments.entries.toList, pair.2.segment.Fits) :
    m.write = Sink.put ((m.segments (.ofText m.command)
      (.mapIndex (.ofNat m.attachments.length))).flatMap Segment.encoding) := by
  rw [write_eq, writeStart_eq_put, (Segment.ofText_fits m.command).write_eq_put,
    FieldMap.write_eq_put hnames hvalues, writeEnd_eq_put, Sink.put_bind_put, Sink.put_bind_put,
    Sink.put_bind_put]
  simp [segments]

theorem flatten_eq {m : Message}
    (hnames : ∀ pair ∈ m.attachments.entries.toList, pair.1.utf8ByteSize ≤ maxRegular)
    (hvalues : ∀ pair ∈ m.attachments.entries.toList, pair.2.segment.Fits) :
    m.flatten = .ok ((m.segments (.ofText m.command)
      (.mapIndex (.ofNat m.attachments.length))).flatMap Segment.encoding) := by
  rw [flatten, write_eq_put hnames hvalues, Writer.bytes_put]

/-- An encodable message is written with the smallest forms of its command and its index. -/
theorem Encodable.flatten_eq_flattenWith {m : Message} (h : m.Encodable) :
    m.flatten =
      m.flattenWith (.ofText m.command) (.mapIndex (.ofNat m.attachments.length)) := by
  have hcommand := (Segment.statesText_ofText h.command_le).wellFormed
  have hvalues := fun pair hpair => (h.attachments.values_wellFormed pair hpair).fits
  rw [flatten_eq h.attachments.keys_fit hvalues,
    h.flattenWith_eq hcommand (Segment.mapIndex_wellFormed _)]

end Message

/-- **A reader finds a message exactly where its markers stand around one of its forms**, if the
    message is admitted. -/
theorem readMessage_decodes (limits : Limits) :
    readMessage.Decodes limits (fun m e => m.Admitted limits ∧ ∃ command index,
      Segment.StatesText m.command command ∧
      Segment.StatesCount .map .largeMap m.attachments.length index ∧
      e = (m.segments command index).flatMap Segment.encoding) := by
  refine ((readStart_decodes limits).bind fun _ => (readCommand_decodes limits).bind
    fun command => (readMap_decodes limits).bind fun attachments =>
      (readSegment_decodes limits).bind fun marker =>
        (Reader.decodes_lift
          (checkEnd marker (Message.mk command attachments).integrityCount)).bind fun _ =>
          Reader.decodes_pure (Message.mk command attachments)).congr fun m e => ?_
  constructor
  · rintro ⟨_, e₁, e₂, rfl, ⟨text, e₃, e₄, ⟨hpayload, hcommand, command, hstates, rfl⟩,
      ⟨attachments, e₅, e₆, ⟨hadmitted, index, hindex, rfl⟩, ⟨marker, e₇, e₈, ⟨-, rfl⟩,
        ⟨_, e₉, e₁₀, ⟨hend, rfl⟩, ⟨rfl, rfl⟩, rfl⟩, rfl⟩, rfl⟩, rfl⟩, rfl⟩
    obtain ⟨hcount, hmarker⟩ := checkEnd_eq_ok_iff.mp hend
    refine ⟨⟨hpayload, hcommand, hadmitted, hcount⟩, command, index, hstates, hindex, ?_⟩
    rw [hmarker]
    simp [Message.segments]
  · rintro ⟨⟨hpayload, hcommand, hadmitted, hcount⟩, command, index, hstates, hindex, rfl⟩
    refine ⟨(), startMarker.encoding, _, rfl, ⟨m.command, command.encoding, _,
      ⟨hpayload, hcommand, command, hstates, rfl⟩, ⟨m.attachments, _, _,
        ⟨hadmitted, index, hindex, rfl⟩, ⟨endMarker m.integrityCount, _, [],
          ⟨endMarker_admitted _ limits, rfl⟩, ⟨(), [], [],
            ⟨checkEnd_eq_ok_iff.mpr ⟨hcount, rfl⟩, rfl⟩, ⟨rfl, rfl⟩, rfl⟩, rfl⟩, rfl⟩, rfl⟩, ?_⟩
    simp [Message.segments]

-- ── The codec as a whole ─────────────────────────────────────────────────────────

/-- Without limits, an encodable message stands for its bytes with any forms of its command and of
    its index, and for no others. -/
theorem readMessage_decodes_flattenWith :
    readMessage.Decodes .unbounded (fun m e => m.Encodable ∧ ∃ command index,
      Segment.StatesText m.command command ∧
      Segment.StatesCount .map .largeMap m.attachments.length index ∧
      m.flattenWith command index = .ok e) := by
  refine (readMessage_decodes .unbounded).congr fun m e => ?_
  rw [Message.admitted_unbounded_iff]
  refine and_congr_right fun h => exists_congr fun command => exists_congr fun index =>
    and_congr_right fun hstates => and_congr_right fun hindex => ?_
  rw [h.flattenWith_eq hstates.wellFormed (hindex.wellFormed rfl rfl), Except.ok.injEq]
  exact eq_comm

/-- An encodable message is read back from its bytes, whatever follows them. -/
theorem Message.Encodable.unflatten_flatten {m : Message} (h : m.Encodable) :
    ∃ e, m.flatten = .ok e ∧ ∀ left, Message.unflatten (e ++ left) = .ok m := by
  have hstates := Segment.statesText_ofText h.command_le
  have hindex := Segment.mapIndex_statesCount h.attachments.length_le
  have hflatten := h.flattenWith_eq hstates.wellFormed
    (Segment.mapIndex_wellFormed (.ofNat m.attachments.length))
  refine ⟨_, h.flatten_eq_flattenWith.trans hflatten, fun left => ?_⟩
  exact (readMessage_decodes_flattenWith.ofBytes_eq_ok_iff _ m).mpr
    ⟨_, left, ⟨h, _, _, hstates, hindex, hflatten⟩, rfl⟩

/-- **The message codec.** From any source a message is read exactly if it is encodable and its
    markers are pending around its command, in a string of either size class, an index of either
    size class that states the number of its attachments, and these in order. What is read has
    distinct names and no container among its attachments. Every encodable message is written with
    the smallest forms of command and index, and is read back as it was. Any command and any
    attachments with distinct names that fit make an encodable message. -/
theorem message_codec_exact :
    (∀ (source : Source) (m : Message) (left : Bytes),
      readMessage.Finds .unbounded source m left ↔
        m.Encodable ∧ ∃ command index e, Segment.StatesText m.command command ∧
          Segment.StatesCount .map .largeMap m.attachments.length index ∧
          m.flattenWith command index = .ok e ∧ source.pending = e ++ left) ∧
    (∀ m : Message, m.Encodable → m.attachments.keys.Nodup ∧
      (∀ pair ∈ m.attachments.entries.toList, pair.2.segment.tag.isContainer = false) ∧
      m.flatten = m.flattenWith (.ofText m.command) (.mapIndex (.ofNat m.attachments.length)) ∧
      ∃ e, m.flatten = .ok e ∧ ∀ left, Message.unflatten (e ++ left) = .ok m) ∧
    ∀ (command : String) (pairs : List (String × Field)), (pairs.map Prod.fst).Nodup →
      (∀ pair ∈ pairs, pair.1.utf8ByteSize ≤ maxRegular ∧ pair.2.segment.WellFormed) →
      command.utf8ByteSize ≤ maxWord → 2 + 2 * pairs.length ≤ maxWord →
      ∃ m : Message, m.Encodable ∧ m.command = command ∧ m.attachments.entries.toList = pairs := by
  refine ⟨?_, ?_, ?_⟩
  · intro source m left
    rw [readMessage_decodes_flattenWith source m left]
    constructor
    · rintro ⟨e, ⟨h, command, index, hstates, hindex, hflatten⟩, hpending⟩
      exact ⟨h, command, index, e, hstates, hindex, hflatten, hpending⟩
    · rintro ⟨h, command, index, e, hstates, hindex, hflatten, hpending⟩
      exact ⟨e, ⟨h, command, index, hstates, hindex, hflatten⟩, hpending⟩
  · intro m h
    exact ⟨h.attachments.indexed.keys_nodup, fun pair _ => pair.2.plain,
      h.flatten_eq_flattenWith, h.unflatten_flatten⟩
  · intro command pairs hkeys hpairs hcommand hcount
    obtain ⟨hattachments, hentries⟩ := FieldMap.encodable_ofList hkeys hpairs (by omega)
    refine ⟨⟨command, .ofList pairs⟩, ⟨hattachments, hcommand, ?_⟩, rfl, hentries⟩
    rw [Message.integrityCount, FieldMap.length, ← Array.length_toList, hentries]
    exact hcount

end SegmentWire
