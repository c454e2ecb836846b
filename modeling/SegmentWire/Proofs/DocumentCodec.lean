import SegmentWire.Document
import SegmentWire.Proofs.EnvelopeCodec

/-!
# The document codec

The body of a document has no length: a reader goes on until it meets an end marker, and then holds
the count in it against what it has read. As no member is an end marker, and every segment
delimits itself, a document has exactly one encoding.

* **`Document.Encodable`** — the documents that have an encoding; **`foldlM_push_eq_ok_iff`** says
  which runs of segments make one.
* **`write_eq_put`** — a document is written as its markers and members.
* **`readMembers_decodes`** — the loop over the members; **`readDocument_decodes`** — a reader finds
  a document exactly where its bytes stand.
* **`document_codec_exact`** — both together.
-/

namespace SegmentWire

namespace Document

/-- What a reader accepts as a document. The count in the end marker has to be a word. -/
structure Admitted (limits : Limits) (d : Document) : Prop where
  closed : d.Closed
  members : ∀ s ∈ d.members.toList, s.Admitted limits
  length_le : d.members.size ≤ limits.document
  count_le : d.members.size ≤ maxWord

/-- The documents that have an encoding. -/
structure Encodable (d : Document) : Prop where
  closed : d.Closed
  members_wellFormed : ∀ s ∈ d.members.toList, s.WellFormed
  count_le : d.members.size ≤ maxWord

/-- Without limits, a reader accepts every encodable document. -/
theorem admitted_unbounded_iff {d : Document} : d.Admitted .unbounded ↔ d.Encodable := by
  constructor
  · rintro ⟨hclosed, hmembers, -, hcount⟩
    exact ⟨hclosed, fun s hs => (hmembers s hs).wellFormed, hcount⟩
  · rintro ⟨hclosed, hmembers, hcount⟩
    exact ⟨hclosed, fun s hs => Segment.admitted_unbounded_iff.mpr (hmembers s hs), hcount, hcount⟩

/-- The segments of the envelope: its markers, and the members between them. -/
def segments (d : Document) : List Segment :=
  startMarker :: (d.members.toList ++ [endMarker d.members.size])

-- ── Building ─────────────────────────────────────────────────────────────────────

/-- A member is taken unless it is an end marker. -/
theorem push_eq_ok_iff {d d' : Document} {s : Segment} :
    d.push s = .ok d' ↔ s.tag ≠ .documentEnd ∧ ⟨d.members.push s⟩ = d' := by
  rw [push, unless_eq_ok_iff]
  exact and_congr_right fun _ => ⟨Except.ok.inj, congrArg Except.ok⟩

/-- **A run of segments can be added exactly if it holds no end marker**, and is then appended in
    order. The induction is on the run, for every document it is added to. -/
theorem foldlM_push_eq_ok_iff {ss : List Segment} {d d' : Document} :
    ss.foldlM push d = .ok d' ↔
      (∀ s ∈ ss, s.tag ≠ .documentEnd) ∧ d'.members.toList = d.members.toList ++ ss := by
  induction ss generalizing d with
  | nil =>
      show Except.ok d = Except.ok d' ↔ _
      rw [List.append_nil]
      constructor
      · rintro ⟨⟩
        exact ⟨nofun, rfl⟩
      · rintro ⟨-, hmembers⟩
        obtain ⟨members⟩ := d
        obtain ⟨members'⟩ := d'
        obtain rfl : members' = members := Array.ext' hmembers
        rfl
  | cons s ss ih =>
      rw [List.foldlM_cons, bind_eq_ok_iff]
      constructor
      · rintro ⟨middle, hpush, hrest⟩
        obtain ⟨htag, rfl⟩ := push_eq_ok_iff.mp hpush
        obtain ⟨htags, hmembers⟩ := ih.mp hrest
        rw [Array.toList_push, List.append_assoc] at hmembers
        exact ⟨List.forall_mem_cons.mpr ⟨htag, htags⟩, hmembers⟩
      · rintro ⟨htags, hmembers⟩
        obtain ⟨htag, htags⟩ := List.forall_mem_cons.mp htags
        refine ⟨⟨d.members.push s⟩, push_eq_ok_iff.mpr ⟨htag, rfl⟩, ih.mpr ⟨htags, ?_⟩⟩
        rw [Array.toList_push, List.append_assoc]
        exact hmembers

-- ── Writing ──────────────────────────────────────────────────────────────────────

/-- **A document is written as its markers and members**, to every sink. -/
theorem write_eq_put {d : Document} (h : ∀ s ∈ d.members.toList, s.Fits) :
    d.write = Sink.put (d.segments.flatMap Segment.encoding) := by
  show (writeStart >>= fun _ => (d.members.toList.forM Segment.write) >>= fun _ =>
    writeEnd d.members.size) = _
  rw [writeStart_eq_put, Segment.forM_write_eq_put_of_fits h, writeEnd_eq_put,
    Sink.put_bind_put, Sink.put_bind_put, segments, List.flatMap_cons, List.flatMap_append,
    List.flatMap_singleton]

theorem flatten_eq {d : Document} (h : ∀ s ∈ d.members.toList, s.Fits) :
    d.flatten = .ok (d.segments.flatMap Segment.encoding) := by
  rw [flatten, write_eq_put h, Writer.bytes_put]

theorem Encodable.flatten_eq {d : Document} (h : d.Encodable) :
    d.flatten = .ok (d.segments.flatMap Segment.encoding) :=
  Document.flatten_eq fun s hs => (h.members_wellFormed s hs).fits

end Document

-- ── Reading ──────────────────────────────────────────────────────────────────────

/-- The forms of more members behind others, and of the end marker behind them. -/
def MembersForm (limits : Limits) (before : Array Segment) : WireForm (Array Segment × Segment) :=
  fun found e => ∃ ss : List Segment, found.1.toList = before.toList ++ ss ∧
    (∀ s ∈ ss, s.Admitted limits ∧ s.tag ≠ .documentEnd) ∧
    (ss ≠ [] → found.1.size ≤ limits.document) ∧
    found.2.Admitted limits ∧ found.2.tag = .documentEnd ∧
    e = (ss ++ [found.2]).flatMap Segment.encoding

/-- What the loop over the members finds is pending. The induction follows the loop. -/
theorem readMembers_sound {limits : Limits} {before : Array Segment} {source rest : Source}
    {found : Array Segment × Segment}
    (h : readMembers before limits source = .ok (found, rest)) :
    ∃ e, MembersForm limits before found e ∧ source.pending = e ++ rest.pending := by
  fun_induction readMembers before limits source with
  | case1 before source e hread => cases h
  | case2 before source s middle hread htag =>
      cases h
      obtain ⟨e, ⟨hadmitted, rfl⟩, hpending⟩ :=
        (readSegment_decodes limits source s rest.pending).mp ⟨rest, hread, rfl⟩
      refine ⟨_, ⟨[], (List.append_nil _).symm, nofun, nofun, hadmitted, htag, rfl⟩, ?_⟩
      rw [hpending]
      simp
  | case3 before source s middle hread htag hfull => cases h
  | case4 before source s middle hread htag hfull ih =>
      obtain ⟨e, ⟨hadmitted, rfl⟩, hpending⟩ :=
        (readSegment_decodes limits source s middle.pending).mp ⟨middle, hread, rfl⟩
      obtain ⟨e', ⟨ss, hmembers, hss, hlimit, hmarker, hend, rfl⟩, hmiddle⟩ := ih h
      rw [Array.toList_push, List.append_assoc] at hmembers
      refine ⟨_, ⟨s :: ss, hmembers, List.forall_mem_cons.mpr ⟨⟨hadmitted, htag⟩, hss⟩, ?_,
        hmarker, hend, rfl⟩, ?_⟩
      · -- each member was held against the limit alone, so the last one decides
        intro _
        cases ss with
        | nil =>
            have hsize := congrArg List.length hmembers
            simp only [Array.length_toList, List.length_append, List.length_cons,
              List.length_nil] at hsize
            omega
        | cons t ss => exact hlimit (List.cons_ne_nil t ss)
      · rw [hpending, hmiddle]
        simp

/-- At an end marker the loop ends. -/
theorem readMembers_of_end {limits : Limits} {before : Array Segment} {source rest : Source}
    {s : Segment} (h : readSegment limits source = .ok (s, rest)) (htag : s.tag = .documentEnd) :
    readMembers before limits source = .ok ((before, s), rest) := by
  rw [readMembers]
  split
  · next hread =>
    rw [h] at hread
    cases hread
  · next hread =>
    rw [h] at hread
    cases hread
    exact if_pos htag

/-- At another segment the loop goes on, if there is room for it. -/
theorem readMembers_of_member {limits : Limits} {before : Array Segment} {source rest : Source}
    {s : Segment} (h : readSegment limits source = .ok (s, rest)) (htag : s.tag ≠ .documentEnd)
    (hroom : before.size < limits.document) :
    readMembers before limits source = readMembers (before.push s) limits rest := by
  rw [readMembers]
  split
  · next hread =>
    rw [h] at hread
    cases hread
  · next hread =>
    rw [h] at hread
    cases hread
    rw [if_neg htag, if_neg (Nat.not_le.mpr hroom)]

/-- What the loop over the members may find, it finds where it is pending. The induction is on the
    members still to come, for every run of them read before. -/
theorem readMembers_complete {limits : Limits} {before : Array Segment}
    {found : Array Segment × Segment} {e left : Bytes} (h : MembersForm limits before found e)
    {source : Source} (hpending : source.pending = e ++ left) :
    Reader.Finds (readMembers before) limits source found left := by
  obtain ⟨members, marker⟩ := found
  obtain ⟨ss, hmembers, hss, hlimit, hmarker, hend, rfl⟩ := h
  replace hmembers : members.toList = before.toList ++ ss := hmembers
  induction ss generalizing before source with
  | nil =>
      obtain rfl : members = before := Array.ext' (hmembers.trans (List.append_nil _))
      have hform : source.pending = marker.encoding ++ left := by
        rw [hpending]
        simp
      obtain ⟨rest, hread, hrest⟩ := (readSegment_decodes limits).finds ⟨hmarker, rfl⟩ hform
      exact ⟨rest, readMembers_of_end hread hend, hrest⟩
  | cons s ss ih =>
      obtain ⟨⟨hadmitted, htag⟩, hss⟩ := List.forall_mem_cons.mp hss
      have hlimit := hlimit (List.cons_ne_nil s ss)
      have hform : source.pending =
          s.encoding ++ ((ss ++ [marker]).flatMap Segment.encoding ++ left) := by
        rw [hpending]
        simp
      obtain ⟨middle, hread, hmiddle⟩ := (readSegment_decodes limits).finds ⟨hadmitted, rfl⟩ hform
      have hroom : before.size < limits.document := by
        have hsize := congrArg List.length hmembers
        simp only [Array.length_toList, List.length_append, List.length_cons] at hsize
        exact Nat.lt_of_lt_of_le (by omega : before.size < members.size) hlimit
      have hpush : members.toList = (before.push s).toList ++ ss := by
        rw [Array.toList_push, List.append_assoc]
        exact hmembers
      obtain ⟨rest, hrun, hrest⟩ := ih hss (fun _ => hlimit) hmiddle hpush
      refine ⟨rest, ?_, hrest⟩
      show readMembers before limits source = _
      rw [readMembers_of_member hread htag hroom]
      exact hrun

/-- **The loop over the members finds exactly runs of admitted members and an end marker**, as many
    as there is room for. -/
theorem readMembers_decodes (limits : Limits) (before : Array Segment) :
    Reader.Decodes (readMembers before) limits (MembersForm limits before) := by
  intro source found left
  constructor
  · rintro ⟨rest, hread, rfl⟩
    exact readMembers_sound hread
  · rintro ⟨e, hform, hpending⟩
    exact readMembers_complete hform hpending

/-- **A reader finds a document exactly where its markers and members stand**, if the document is
    admitted. -/
theorem readDocument_decodes (limits : Limits) :
    readDocument.Decodes limits
      (fun d e => d.Admitted limits ∧ e = d.segments.flatMap Segment.encoding) := by
  refine ((readStart_decodes limits).bind fun _ => (readMembers_decodes limits #[]).bind
    fun found => (Reader.decodes_lift (checkEnd found.2 found.1.size)).bind fun _ =>
      Reader.decodes_pure (Document.mk found.1)).congr fun d e => ?_
  constructor
  · rintro ⟨_, e₁, e₂, rfl, ⟨⟨members, marker⟩, e₃, e₄, ⟨ss, hmembers, hss, hlimit, -, -, rfl⟩,
      ⟨_, e₅, e₆, ⟨hend, rfl⟩, ⟨rfl, rfl⟩, rfl⟩, rfl⟩, rfl⟩
    obtain rfl : members.toList = ss := hmembers
    obtain ⟨hcount, hmarker⟩ := checkEnd_eq_ok_iff.mp hend
    obtain rfl : marker = endMarker members.size := hmarker
    refine ⟨⟨?_, fun s hs => (hss s hs).1, ?_, hcount⟩, ?_⟩
    · intro s hs
      exact (hss s (Array.mem_toList_iff.mpr hs)).2
    · by_cases hempty : members.toList = []
      · have hsize := congrArg List.length hempty
        rw [Array.length_toList] at hsize
        exact Nat.le_trans (Nat.le_of_eq hsize) (Nat.zero_le _)
      · exact hlimit hempty
    · rw [List.nil_append, List.append_nil]
      rfl
  · rintro ⟨⟨hclosed, hmembers, hlength, hcount⟩, rfl⟩
    refine ⟨(), startMarker.encoding, _, rfl, ⟨(d.members, endMarker d.members.size), _, [],
      ⟨d.members.toList, rfl, ?_, fun _ => hlength, endMarker_admitted _ limits, rfl, rfl⟩,
      ⟨(), [], [], ⟨checkEnd_eq_ok_iff.mpr ⟨hcount, rfl⟩, rfl⟩, ⟨rfl, rfl⟩, rfl⟩, rfl⟩, ?_⟩
    · intro s hs
      exact ⟨hmembers s hs, hclosed s (Array.mem_toList_iff.mp hs)⟩
    · rw [List.append_nil]
      rfl

-- ── The codec as a whole ─────────────────────────────────────────────────────────

/-- Without limits, an encodable document stands for its own bytes and no others. -/
theorem readDocument_decodes_flatten :
    readDocument.Decodes .unbounded (fun d e => d.Encodable ∧ d.flatten = .ok e) := by
  refine (readDocument_decodes .unbounded).congr fun d e => ?_
  rw [Document.admitted_unbounded_iff]
  refine and_congr_right fun h => ?_
  rw [h.flatten_eq, Except.ok.injEq]
  exact eq_comm

/-- What a run of pushes builds from well-formed segments is encodable. -/
theorem Document.Encodable.of_foldlM_push {ss : List Segment} {d : Document}
    (hss : ∀ s ∈ ss, s.WellFormed) (hlength : ss.length ≤ maxWord)
    (h : ss.foldlM Document.push {} = .ok d) : d.Encodable := by
  obtain ⟨htags, hmembers⟩ := Document.foldlM_push_eq_ok_iff.mp h
  replace hmembers : d.members.toList = ss := hmembers
  refine ⟨?_, ?_, ?_⟩
  · intro s hs
    exact htags s (hmembers ▸ Array.mem_toList_iff.mpr hs)
  · intro s hs
    exact hss s (hmembers ▸ hs)
  · rw [← Array.length_toList, hmembers]
    exact hlength

/-- **The document codec is exactly invertible.** From any source a document is read exactly if it
    has no end marker among its well-formed members and its bytes are pending. A run of segments can
    be pushed exactly if it holds no end marker, and what a run of well-formed segments makes is
    read back as it was, whatever follows. A document that was read is written as the bytes it was
    read from, and no other bytes are ever read as it. -/
theorem document_codec_exact :
    (∀ (source : Source) (d : Document) (left : Bytes),
      readDocument.Finds .unbounded source d left ↔
        d.Closed ∧ (∀ s ∈ d.members.toList, s.WellFormed) ∧ d.members.size ≤ maxWord ∧
          ∃ e, d.flatten = .ok e ∧ source.pending = e ++ left) ∧
    (∀ (ss : List Segment) (d : Document), ss.foldlM Document.push {} = .ok d ↔
      (∀ s ∈ ss, s.tag ≠ .documentEnd) ∧ d.members.toList = ss) ∧
    (∀ (ss : List Segment) (d : Document), (∀ s ∈ ss, s.WellFormed) → ss.length ≤ maxWord →
      ss.foldlM Document.push {} = .ok d →
      ∃ e, d.flatten = .ok e ∧ ∀ left, Document.unflatten (e ++ left) = .ok d) ∧
    (∀ (bytes : Bytes) (d : Document), Document.unflatten bytes = .ok d →
      ∃ e, d.flatten = .ok e ∧ e <+: bytes) ∧
    ∀ (source source' : Source) (d : Document) (left left' : Bytes),
      readDocument.Finds .unbounded source d left →
      readDocument.Finds .unbounded source' d left' →
      ∃ e, source.pending = e ++ left ∧ source'.pending = e ++ left' := by
  have hread := readDocument_decodes_flatten
  refine ⟨?_, fun ss d => Document.foldlM_push_eq_ok_iff, ?_, ?_, ?_⟩
  · intro source d left
    rw [hread.finds_iff_flatten source d left]
    constructor
    · rintro ⟨⟨hclosed, hmembers, hcount⟩, hform⟩
      exact ⟨hclosed, hmembers, hcount, hform⟩
    · rintro ⟨hclosed, hmembers, hcount, hform⟩
      exact ⟨⟨hclosed, hmembers, hcount⟩, hform⟩
  · intro ss d hss hlength hpush
    have hencodable := Document.Encodable.of_foldlM_push hss hlength hpush
    refine ⟨_, hencodable.flatten_eq, fun left => ?_⟩
    exact (hread.ofBytes_iff_flatten _ _).mpr
      ⟨hencodable, _, hencodable.flatten_eq, List.prefix_append _ left⟩
  · intro bytes d hd
    exact ((hread.ofBytes_iff_flatten bytes d).mp hd).2
  · intro source source' d left left' hfound hfound'
    obtain ⟨-, e, hflatten, hpending⟩ := (hread.finds_iff_flatten source d left).mp hfound
    obtain ⟨-, e', hflatten', hpending'⟩ := (hread.finds_iff_flatten source' d left').mp hfound'
    rw [hflatten] at hflatten'
    cases hflatten'
    exact ⟨e, hpending, hpending'⟩

end SegmentWire
