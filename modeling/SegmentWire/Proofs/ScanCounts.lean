import SegmentWire.Proofs.IntegrityCount
import SegmentWire.Proofs.ScanWalk

/-!
# What a scan makes of containers and envelopes

A scan knows segments only, and so it counts an index like a member and a marker like a segment of
the body. What it does not pass is an empty payload, wherever that stands.

* **`countFrom_encodings`** — a scan of the bytes of some segments, which the other results apply to
  the runs of segments that are written.
* **`ScansAs`** — the two outcomes: all segments are counted, or one of them is invalid.
* **`scan_counts_what_is_written`** — lists, maps, documents and messages; for the last two, the count
  in the end marker is what a scan of the body comes to.
-/

namespace SegmentWire

-- ── One segment ──────────────────────────────────────────────────────────────────

/-- A size field states the length of what follows it. -/
theorem declaredLength_sizeField {tag : Tag} {length : Nat} (h : tag.layout.Allows length)
    (body : Bytes) :
    declaredLength tag (tag.layout.sizeField length ++ body) = .ok (length, body) := by
  rw [declaredLength]
  cases hlayout : tag.layout with
  | fixed width =>
      rw [hlayout] at h
      obtain rfl : length = width := h
      rfl
  | sized field =>
      rw [hlayout] at h
      have htake : (bigEndian field length ++ body).take field = bigEndian field length :=
        List.take_left' (length_bigEndian field length)
      have hdrop : (bigEndian field length ++ body).drop field = body :=
        List.drop_left' (length_bigEndian field length)
      show (if ((bigEndian field length ++ body).take field).length < field then _
        else Except.ok (ofBigEndian ((bigEndian field length ++ body).take field),
          (bigEndian field length ++ body).drop field)) = _
      rw [htake, hdrop, length_bigEndian, if_neg (Nat.lt_irrefl field), ofBigEndian_bigEndian h]

namespace Segment

/-- A scan steps over a segment with a payload and refuses one without. -/
theorem WellFormed.skipSegment_eq {s : Segment} (h : s.WellFormed) (rest : Bytes) :
    skipSegment s.tag.code (s.tag.layout.sizeField s.payload.length ++ (s.payload ++ rest)) =
      if s.payload = [] then .error (.emptySegment s.tag) else .ok rest := by
  rw [SegmentWire.skipSegment_eq (declaredLength_sizeField h _)]
  by_cases hempty : s.payload = []
  · simp [hempty]
  · have hlength : s.payload.length ≠ 0 := by simpa using hempty
    have hfits : ¬ (s.payload ++ rest).length < s.payload.length := by simp
    rw [if_neg hlength, if_neg hfits, if_neg hempty, List.drop_left]

/-- A payload of a fixed width is never empty. -/
theorem WellFormed.payload_ne_nil {s : Segment} (h : s.WellFormed)
    (hfixed : s.tag.isVariable = false) : s.payload ≠ [] := by
  intro hempty
  have hallows : s.tag.layout.Allows s.payload.length := h
  rw [hempty] at hallows
  obtain ⟨field, hlayout⟩ := sized_of_allows_zero hallows
  rw [Tag.isVariable_eq_true_iff.mpr ⟨field, hlayout⟩] at hfixed
  cases hfixed

end Segment

-- ── Runs of segments ─────────────────────────────────────────────────────────────

/-- **A scan of the bytes of some segments counts them all, or stops at the first without a
    payload.** -/
theorem countFrom_encodings {ss : List Segment} (h : ∀ s ∈ ss, s.WellFormed) (counted : Nat) :
    countFrom counted (ss.flatMap Segment.encoding) =
      match ss.find? fun s => s.payload.isEmpty with
      | none => .ok (counted + ss.length)
      | some s => .error (.emptySegment s.tag) := by
  induction ss generalizing counted with
  | nil =>
      rw [List.flatMap_nil, countFrom]
      rfl
  | cons s ss ih =>
      obtain ⟨hs, hss⟩ := List.forall_mem_cons.mp h
      have hstep := hs.skipSegment_eq (ss.flatMap Segment.encoding)
      have hbytes : (s :: ss).flatMap Segment.encoding = s.tag.code ::
          (s.tag.layout.sizeField s.payload.length ++
            (s.payload ++ ss.flatMap Segment.encoding)) := by
        rw [List.flatMap_cons, Segment.encoding, List.cons_append, List.append_assoc]
      rw [hbytes]
      by_cases hempty : s.payload = []
      · rw [if_pos hempty] at hstep
        rw [countFrom_of_error hstep, List.find?_cons_of_pos (by simp [hempty])]
      · rw [if_neg hempty] at hstep
        rw [countFrom_of_ok hstep, List.find?_cons_of_neg (by simp [hempty]), ih hss,
          List.length_cons, Nat.add_right_comm, Nat.add_assoc]

/-- A scan of these bytes comes to `n` segments if they are all full, and otherwise finds one of them
    invalid. -/
def ScansAs (bytes : Bytes) (full : Prop) (n : Nat) : Prop :=
  (full → countSegments bytes = .ok n) ∧
    (¬ full → ∃ e, countSegments bytes = .error e ∧ e.kind = .invalidSegment)

theorem ScansAs.congr {bytes : Bytes} {full full' : Prop} {n : Nat} (h : ScansAs bytes full n)
    (hfull : full ↔ full') : ScansAs bytes full' n := by
  rwa [← propext hfull]

theorem scansAs_encodings {ss : List Segment} (h : ∀ s ∈ ss, s.WellFormed) :
    ScansAs (ss.flatMap Segment.encoding) (∀ s ∈ ss, s.payload ≠ []) ss.length := by
  rw [ScansAs, countSegments, countFrom_encodings h, Nat.zero_add]
  constructor
  · intro hfull
    have hnone : (ss.find? fun s => s.payload.isEmpty) = none := by
      rw [List.find?_eq_none]
      intro s hs hempty
      exact hfull s hs (List.isEmpty_iff.mp hempty)
    rw [hnone]
  · intro hfull
    cases hfind : ss.find? fun s => s.payload.isEmpty with
    | none =>
        refine absurd (fun s hs hempty => ?_) hfull
        exact List.find?_eq_none.mp hfind s hs (List.isEmpty_iff.mpr hempty)
    | some s => exact ⟨_, rfl, rfl⟩

/-- A segment of a fixed width in front of others adds itself to the count and cannot spoil it. -/
theorem scansAs_cons {s : Segment} {ss : List Segment} (hs : s.WellFormed)
    (hfixed : s.tag.isVariable = false) (hss : ∀ s ∈ ss, s.WellFormed) :
    ScansAs ((s :: ss).flatMap Segment.encoding) (∀ s ∈ ss, s.payload ≠ []) (1 + ss.length) := by
  have hall := scansAs_encodings (List.forall_mem_cons.mpr ⟨hs, hss⟩)
  rw [List.length_cons, Nat.add_comm] at hall
  refine hall.congr ?_
  rw [List.forall_mem_cons]
  exact and_iff_right (hs.payload_ne_nil hfixed)

/-- Around a body stand two markers, both with a payload. -/
theorem scansAs_envelope {body : List Segment} (h : ∀ s ∈ body, s.WellFormed) (count : Nat) :
    ScansAs ((envelope body count).flatMap Segment.encoding) (∀ s ∈ body, s.payload ≠ [])
      (body.length + 2) := by
  have hmarker := (endMarker_admitted count .unbounded).wellFormed
  have hbehind : ∀ s ∈ body ++ [endMarker count], s.WellFormed := by
    intro s hs
    rcases List.mem_append.mp hs with hs | hs
    · exact h s hs
    · rw [List.mem_singleton.mp hs]
      exact hmarker
  have hall := scansAs_cons (startMarker_admitted .unbounded).wellFormed rfl hbehind
  rw [List.length_append, List.length_singleton, Nat.add_comm] at hall
  refine hall.congr ?_
  rw [List.forall_mem_append, List.forall_mem_singleton]
  exact and_iff_left (hmarker.payload_ne_nil rfl)

-- ── Containers ───────────────────────────────────────────────────────────────────

theorem Utf8.encode_eq_nil_iff {t : String} : encode t = [] ↔ t = "" := by
  have hlength : (encode t).length = t.utf8ByteSize := rfl
  rw [← List.length_eq_zero_iff, hlength, String.utf8ByteSize_eq_zero_iff]

theorem Segment.isVariable_indexOf {regular large : Tag} (hregular : regular.isVariable = false)
    (hlarge : large.isVariable = false) (count : UInt64) :
    (indexOf regular large count).tag.isVariable = false := by
  rw [indexOf]
  split
  · exact hregular
  · exact hlarge

/-- No item is without a payload. -/
def FieldList.Full (l : FieldList) : Prop := ∀ f ∈ l.items.toList, f.segment.payload ≠ []

/-- No key is empty, and no value is without a payload. -/
def FieldMap.Full (m : FieldMap) : Prop :=
  ∀ pair ∈ m.entries.toList, pair.1 ≠ "" ∧ pair.2.segment.payload ≠ []

/-- No member is without a payload. -/
def Document.Full (d : Document) : Prop := ∀ s ∈ d.members.toList, s.payload ≠ []

/-- The command is not empty, nor are the names and the values of the attachments. -/
def Message.Full (m : Message) : Prop := m.command ≠ "" ∧ m.attachments.Full

theorem FieldList.full_iff {l : FieldList} : (∀ s ∈ l.members, s.payload ≠ []) ↔ l.Full :=
  List.forall_mem_map

theorem FieldMap.full_iff {m : FieldMap} : (∀ s ∈ m.members, s.payload ≠ []) ↔ m.Full := by
  rw [members, List.forall_mem_flatMap]
  refine forall₂_congr fun pair _ => ?_
  rw [pairSegments, List.forall_mem_cons, List.forall_mem_singleton]
  exact and_congr_left' (not_congr Utf8.encode_eq_nil_iff)

theorem FieldList.Encodable.scansAs {l : FieldList} (h : l.Encodable) :
    ∃ e, l.flatten = .ok e ∧ ScansAs e l.Full (1 + l.length) := by
  have hindex := Segment.listIndex_wellFormed (.ofNat l.length)
  refine ⟨_, h.flatten_eq_flattenWith.trans (h.flattenWith_eq hindex), ?_⟩
  have hscan := scansAs_cons hindex (Segment.isVariable_indexOf rfl rfl _) h.members_wellFormed
  rw [l.length_members] at hscan
  exact hscan.congr full_iff

theorem FieldMap.Encodable.scansAs {m : FieldMap} (h : m.Encodable) :
    ∃ e, m.flatten = .ok e ∧ ScansAs e m.Full (1 + 2 * m.length) := by
  have hindex := Segment.mapIndex_wellFormed (.ofNat m.length)
  refine ⟨_, h.flatten_eq, ?_⟩
  have hscan := scansAs_cons hindex (Segment.isVariable_indexOf rfl rfl _) h.members_wellFormed
  rw [m.length_members] at hscan
  exact hscan.congr full_iff

-- ── Envelopes ────────────────────────────────────────────────────────────────────

/-- Both markers are counted with the body of these bytes, and the count in the end marker is that of
    the body alone. -/
def ScansAsEnvelope (bytes : Bytes) (full : Prop) (count : Nat) : Prop :=
  ScansAs bytes full (count + 2) ∧
    ∃ start body stop, writeStart.bytes = .ok start ∧ (writeEnd count).bytes = .ok stop ∧
      bytes = start ++ body ++ stop ∧ ScansAs body full count

theorem scansAsEnvelope {body : List Segment} (h : ∀ s ∈ body, s.WellFormed) {full : Prop}
    (hfull : (∀ s ∈ body, s.payload ≠ []) ↔ full) :
    ScansAsEnvelope ((envelope body body.length).flatMap Segment.encoding) full body.length := by
  refine ⟨(scansAs_envelope h body.length).congr hfull, startMarker.encoding,
    body.flatMap Segment.encoding, (endMarker body.length).encoding, ?_, ?_, ?_,
    (scansAs_encodings h).congr hfull⟩
  · rw [writeStart_eq_put, Writer.bytes_put]
  · rw [writeEnd_eq_put, Writer.bytes_put]
  · rw [flatMap_envelope, List.append_assoc]

theorem Document.Encodable.scansAs {d : Document} (h : d.Encodable) :
    ∃ e, d.flatten = .ok e ∧ ScansAsEnvelope e d.Full d.integrityCount :=
  ⟨_, h.flatten_eq, scansAsEnvelope h.members_wellFormed Iff.rfl⟩

theorem Message.Encodable.scansAs {m : Message} (h : m.Encodable) :
    ∃ e, m.flatten = .ok e ∧ ScansAsEnvelope e m.Full m.integrityCount := by
  have hindex := Segment.mapIndex_wellFormed (.ofNat m.attachments.length)
  have hbody := body_wellFormed h.attachments
    (Segment.statesText_ofText h.command_le).wellFormed hindex
  refine ⟨_, h.flatten_eq_bytesStating.trans (h.bytesStating_eq hindex m.integrityCount), ?_⟩
  have hlength : (m.body (.ofText m.command)
      (.mapIndex (.ofNat m.attachments.length))).length = m.integrityCount := by
    rw [body, List.length_cons, List.length_cons, FieldMap.length_members, integrityCount]
    omega
  rw [← hlength]
  refine scansAsEnvelope hbody ?_
  -- of the two segments in front of the attachments, the index always has a payload
  rw [body, List.forall_mem_cons, List.forall_mem_cons, Full, FieldMap.full_iff,
    and_iff_right (hindex.payload_ne_nil (Segment.isVariable_indexOf rfl rfl _))]
  exact and_congr_left' (not_congr Utf8.encode_eq_nil_iff)

/-- **A scan counts what is written.** The bytes of a list of `n` items hold `1 + n` segments, those
    of a map of `n` pairs `1 + 2 n`, and those of a document or of a message two more than their
    integrity count, which is the number of segments between the markers. So a scan says, unless a
    payload is empty among the items, the keys and values, the members, or the command, the names and
    the attachments; then it finds an invalid segment instead. -/
theorem scan_counts_what_is_written :
    (∀ l : FieldList, l.Encodable →
      ∃ e, l.flatten = .ok e ∧ ScansAs e l.Full (1 + l.length)) ∧
    (∀ m : FieldMap, m.Encodable →
      ∃ e, m.flatten = .ok e ∧ ScansAs e m.Full (1 + 2 * m.length)) ∧
    (∀ d : Document, d.Encodable →
      ∃ e, d.flatten = .ok e ∧ ScansAsEnvelope e d.Full d.integrityCount) ∧
    ∀ m : Message, m.Encodable →
      m.integrityCount + 2 = 2 * m.attachments.length + 4 ∧
      ∃ e, m.flatten = .ok e ∧ ScansAsEnvelope e m.Full m.integrityCount := by
  refine ⟨?_, ?_, ?_, ?_⟩
  · intro l h
    exact h.scansAs
  · intro m h
    exact h.scansAs
  · intro d h
    exact h.scansAs
  · intro m h
    refine ⟨?_, h.scansAs⟩
    rw [Message.integrityCount]
    omega

/-- An empty text of the huge class makes a list invalid for a scan. Indices and start markers inside a
    document are segments like all others. -/
theorem scan_counts_what_is_written_list :
    let l : FieldList := .ofList [⟨⟨.bool, [7]⟩, rfl⟩, ⟨⟨.hugeString, []⟩, rfl⟩]
    let d : Document := ⟨#[.documentStart 9, ⟨.largeList, bigEndian 8 70000⟩]⟩
    l.flatten = .ok [19, 0, 2, 11, 7, 16, 0, 0, 0, 0, 0, 0, 0, 0] ∧
      (∃ e, countSegments [19, 0, 2, 11, 7, 16, 0, 0, 0, 0, 0, 0, 0, 0] = .error e ∧
        e.kind = .invalidSegment) ∧
      d.flatten = .ok [1, 1, 1, 9, 21, 0, 0, 0, 0, 0, 1, 17, 112, 2, 0, 0, 0, 0, 0, 0, 0, 2] ∧
      countSegments [1, 1, 1, 9, 21, 0, 0, 0, 0, 0, 1, 17, 112, 2, 0, 0, 0, 0, 0, 0, 0, 2] = .ok 4 := by
  intro l d
  have hl : l.Encodable := FieldList.encodable_of_members (by decide) (by decide)
  have hd : d.Encodable := ⟨by unfold Document.Closed; decide, by decide, by decide⟩
  have hlist : l.flatten = .ok [19, 0, 2, 11, 7, 16, 0, 0, 0, 0, 0, 0, 0, 0] := by decide
  have hdocument : d.flatten =
      .ok [1, 1, 1, 9, 21, 0, 0, 0, 0, 0, 1, 17, 112, 2, 0, 0, 0, 0, 0, 0, 0, 2] := by decide
  obtain ⟨hlists, -, hdocuments, -⟩ := scan_counts_what_is_written
  obtain ⟨e, hflatten, hscan⟩ := hlists l hl
  obtain ⟨e', hflatten', hscan', -⟩ := hdocuments d hd
  obtain rfl := Except.ok.inj (hlist.symm.trans hflatten)
  obtain rfl := Except.ok.inj (hdocument.symm.trans hflatten')
  refine ⟨hlist, hscan.2 ?_, hdocument, hscan'.1 ?_⟩
  · intro hfull
    exact hfull ⟨⟨.hugeString, []⟩, rfl⟩ (by decide) rfl
  · unfold Document.Full
    decide

end SegmentWire
