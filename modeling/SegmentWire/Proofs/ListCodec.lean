import SegmentWire.Proofs.IndexCodec

/-!
# The list codec

A list travels as a run of segments: an index, then the items in order. A writer chooses the
smallest index that can state the number of items; a reader takes either size class. Items are
plain segments, so that nothing but the index says where a list ends.

* **`FieldList.Encodable`** — the lists that have an encoding; **`FieldList.exists_of_plain`** says
  which runs of segments are the members of a list.
* **`write_eq_put`** — a list is written with its smallest index.
* **`readList_decodes`** — a reader finds a list exactly where an index that states its length
  stands, and then its items. The loop over the items is **`readFields_decodes`**.
* **`list_codec_exact`** — both together.
-/

namespace SegmentWire

namespace FieldList

/-- The segments behind the index, in order. -/
def members (l : FieldList) : List Segment := l.items.toList.map Field.segment

/-- What a reader accepts as a list. -/
structure Admitted (limits : Limits) (l : FieldList) : Prop where
  items : ∀ f ∈ l.items.toList, f.segment.Admitted limits
  length_le : l.length ≤ limits.container

/-- The lists that have an encoding. This is true of every list that a sequence of operations can
    build. -/
structure Encodable (l : FieldList) : Prop where
  items_wellFormed : ∀ f ∈ l.items.toList, f.segment.WellFormed
  length_le : l.length ≤ maxWord

/-- Without limits, a reader accepts every encodable list. -/
theorem admitted_unbounded_iff {l : FieldList} : l.Admitted .unbounded ↔ l.Encodable := by
  constructor
  · rintro ⟨hitems, hlength⟩
    exact ⟨fun f hf => (hitems f hf).wellFormed, hlength⟩
  · rintro ⟨hitems, hlength⟩
    exact ⟨fun f hf => Segment.admitted_unbounded_iff.mpr (hitems f hf), hlength⟩

/-- There is a member for every item. -/
theorem length_members (l : FieldList) : l.members.length = l.length := by
  rw [members, List.length_map, Array.length_toList]
  rfl

/-- No member is a container index. -/
theorem members_plain (l : FieldList) : ∀ s ∈ l.members, s.tag.isContainer = false := by
  intro s hs
  obtain ⟨f, -, rfl⟩ := List.mem_map.mp hs
  exact f.plain

/-- Behind the index of an encodable list stand well-formed segments. -/
theorem Encodable.members_wellFormed {l : FieldList} (h : l.Encodable) :
    ∀ s ∈ l.members, s.WellFormed := by
  intro s hs
  obtain ⟨f, hf, rfl⟩ := List.mem_map.mp hs
  exact h.items_wellFormed f hf

/-- A list is encodable if its members are well formed and not too many to count. -/
theorem encodable_of_members {l : FieldList} (h : ∀ s ∈ l.members, s.WellFormed)
    (hlength : l.members.length ≤ maxWord) : l.Encodable :=
  ⟨fun f hf => h f.segment (List.mem_map_of_mem hf), l.length_members ▸ hlength⟩

/-- **Any segments that are no container indices are the members of a list.** -/
theorem exists_of_plain {ss : List Segment} (h : ∀ s ∈ ss, s.tag.isContainer = false) :
    ∃ l : FieldList, l.members = ss := by
  refine ⟨.ofList (ss.pmap Field.mk h), ?_⟩
  show (ss.pmap Field.mk h).map Field.segment = ss
  rw [List.map_pmap, List.pmap_eq_self]
  exact fun _ _ => rfl

-- ── Writing ──────────────────────────────────────────────────────────────────────

/-- The bytes of a list behind an index of its own choice. -/
def flattenWith (l : FieldList) (index : Segment) : Except WireError Bytes :=
  ((index :: l.members).forM Segment.write).bytes

/-- **A list is written with its smallest index**, to every sink. -/
theorem write_eq_put {l : FieldList} (h : ∀ f ∈ l.items.toList, f.segment.Fits) :
    l.write = Sink.put
      ((Segment.listIndex (.ofNat l.length) :: l.members).flatMap Segment.encoding) := by
  have hitems : l.items.toList.forM (fun f => f.segment.write)
      = Sink.put (l.members.flatMap Segment.encoding) := by
    rw [members, List.flatMap_map]
    exact Writer.forM_eq_put fun f hf => (h f hf).write_eq_put
  show ((Segment.listIndex (.ofNat l.length)).write >>= fun _ =>
    l.items.toList.forM fun f => f.segment.write) = _
  rw [(Segment.listIndex_wellFormed _).write_eq_put, hitems, Sink.put_bind_put]
  rfl

theorem flatten_eq {l : FieldList} (h : ∀ f ∈ l.items.toList, f.segment.Fits) :
    l.flatten = .ok
      ((Segment.listIndex (.ofNat l.length) :: l.members).flatMap Segment.encoding) := by
  rw [flatten, write_eq_put h, Writer.bytes_put]

theorem Encodable.flattenWith_eq {l : FieldList} (h : l.Encodable) {index : Segment}
    (hindex : index.WellFormed) :
    l.flattenWith index = .ok ((index :: l.members).flatMap Segment.encoding) := by
  have hwellFormed : ∀ s ∈ index :: l.members, s.WellFormed :=
    List.forall_mem_cons.mpr ⟨hindex, h.members_wellFormed⟩
  rw [flattenWith, Segment.forM_write_eq_put hwellFormed, Writer.bytes_put]

/-- An encodable list is written behind the smallest index. -/
theorem Encodable.flatten_eq_flattenWith {l : FieldList} (h : l.Encodable) :
    l.flatten = l.flattenWith (.listIndex (.ofNat l.length)) := by
  rw [flatten_eq fun f hf => (h.items_wellFormed f hf).fits,
    h.flattenWith_eq (Segment.listIndex_wellFormed _)]

end FieldList

-- ── Reading ──────────────────────────────────────────────────────────────────────

/-- The forms of `count` more fields behind others. -/
def FieldsForm (limits : Limits) (count : Nat) (before : Array Field) : WireForm (Array Field) :=
  fun fields e => ∃ more : List Field, more.length = count ∧
    fields.toList = before.toList ++ more ∧ (∀ f ∈ more, f.segment.Admitted limits) ∧
    e = (more.map Field.segment).flatMap Segment.encoding

/-- The loop over the items finds exactly so many admitted fields, each where its segment stands.
    The induction is on the number of fields still to come, for every run of them read before. -/
theorem readFields_decodes (limits : Limits) (count : Nat) (before : Array Field) :
    (readFields count before).Decodes limits (FieldsForm limits count before) := by
  induction count generalizing before with
  | zero =>
      refine (Reader.decodes_pure before).congr fun fields e => ?_
      constructor
      · rintro ⟨rfl, rfl⟩
        exact ⟨[], rfl, (List.append_nil _).symm, nofun, rfl⟩
      · rintro ⟨more, hlength, hfields, -, rfl⟩
        obtain rfl := List.length_eq_zero_iff.mp hlength
        exact ⟨Array.ext' (hfields.trans (List.append_nil _)), rfl⟩
  | succ count ih =>
      refine ((readField_decodes limits).bind fun field => ih (before.push field)).congr
        fun fields e => ?_
      constructor
      · rintro ⟨field, e₁, e₂, ⟨hfield, rfl⟩, ⟨more, rfl, hfields, hmore, rfl⟩, rfl⟩
        rw [Array.toList_push, List.append_assoc] at hfields
        exact ⟨field :: more, rfl, hfields, List.forall_mem_cons.mpr ⟨hfield, hmore⟩, rfl⟩
      · rintro ⟨more, hlength, hfields, hmore, rfl⟩
        cases more with
        | nil => cases hlength
        | cons field more =>
            obtain ⟨hfield, hmore⟩ := List.forall_mem_cons.mp hmore
            refine ⟨field, _, _, ⟨hfield, rfl⟩,
              ⟨more, Nat.succ.inj hlength, ?_, hmore, rfl⟩, rfl⟩
            rw [Array.toList_push, List.append_assoc]
            exact hfields

/-- The loop over some items and more items goes over the first ones and then over the others. -/
theorem readFields_add (first second : Nat) (before : Array Field) :
    readFields (first + second) before = readFields first before >>= readFields second := by
  induction first generalizing before with
  | zero =>
      rw [Nat.zero_add]
      rfl
  | succ first ih =>
      rw [Nat.succ_add]
      show (readField >>= fun field => readFields (first + second) (before.push field)) =
        (readField >>= fun field => readFields first (before.push field)) >>= readFields second
      rw [bind_assoc]
      exact bind_congr fun field => ih _

/-- **A reader finds a list exactly where an index that states its length stands, and then its
    items**, if the list is admitted. -/
theorem readList_decodes (limits : Limits) :
    readList.Decodes limits (fun l e => l.Admitted limits ∧
      ∃ index, Segment.StatesCount .list .largeList l.length index ∧
        e = (index :: l.members).flatMap Segment.encoding) := by
  refine ((readSegment_decodes limits).bind fun index =>
    (Reader.decodes_lift index.listCount).bind fun count =>
      (checkContainer_decodes limits count.toNat).bind fun _ =>
        (readFields_decodes limits count.toNat #[]).bind fun fields =>
          Reader.decodes_pure (FieldList.mk fields)).congr fun l e => ?_
  constructor
  · rintro ⟨index, e₁, e₂, ⟨-, rfl⟩, ⟨count, e₃, e₄, ⟨hcount, rfl⟩, ⟨_, e₅, e₆, ⟨hle, rfl⟩,
      ⟨fields, e₇, e₈, ⟨more, hlength, hfields, hmore, rfl⟩, ⟨rfl, rfl⟩, rfl⟩, rfl⟩, rfl⟩, rfl⟩
    obtain rfl : fields.toList = more := hfields
    have hcount' : count.toNat = (FieldList.mk fields).length := hlength.symm
    rw [hcount'] at hle
    refine ⟨⟨hmore, hle⟩, index, ?_, ?_⟩
    · rw [← hcount']
      exact Segment.listCount_eq_ok_iff.mp hcount
    · simp [FieldList.members]
  · rintro ⟨⟨hitems, hle⟩, index, hindex, rfl⟩
    have hword : (UInt64.ofNat l.length).toNat = l.length :=
      Segment.toNat_ofNat_of_le hindex.le_maxWord
    refine ⟨index, index.encoding, _, ⟨hindex.admitted rfl rfl limits, rfl⟩,
      ⟨.ofNat l.length, [], _, ⟨Segment.listCount_eq_ok_iff.mpr ?_, rfl⟩,
        ⟨(), [], _, ⟨?_, rfl⟩, ⟨l.items, _, [], ⟨l.items.toList, ?_, rfl, hitems, rfl⟩,
          ⟨rfl, rfl⟩, rfl⟩, rfl⟩, rfl⟩, ?_⟩
    · rw [hword]
      exact hindex
    · rw [hword]
      exact hle
    · exact hword.symm
    · simp [FieldList.members]

-- ── The codec as a whole ─────────────────────────────────────────────────────────

/-- Without limits, an encodable list stands for its bytes behind any index that states its length,
    and for no others. -/
theorem readList_decodes_flattenWith :
    readList.Decodes .unbounded (fun l e => l.Encodable ∧ ∃ index,
      Segment.StatesCount .list .largeList l.length index ∧ l.flattenWith index = .ok e) := by
  refine (readList_decodes .unbounded).congr fun l e => ?_
  rw [FieldList.admitted_unbounded_iff]
  refine and_congr_right fun h => exists_congr fun index => and_congr_right fun hindex => ?_
  rw [h.flattenWith_eq (hindex.wellFormed rfl rfl), Except.ok.injEq]
  exact eq_comm

/-- A list is found exactly if it is encodable and its bytes are pending behind an index that
    states its length. -/
theorem readList_finds_iff (source : Source) (l : FieldList) (left : Bytes) :
    readList.Finds .unbounded source l left ↔
      l.Encodable ∧ ∃ index e, Segment.StatesCount .list .largeList l.length index ∧
        l.flattenWith index = .ok e ∧ source.pending = e ++ left := by
  rw [readList_decodes_flattenWith source l left]
  constructor
  · rintro ⟨e, ⟨h, index, hindex, hflatten⟩, hpending⟩
    exact ⟨h, index, e, hindex, hflatten, hpending⟩
  · rintro ⟨h, index, e, hindex, hflatten, hpending⟩
    exact ⟨e, ⟨h, index, hindex, hflatten⟩, hpending⟩

/-- An encodable list is read back from its bytes, whatever follows them. -/
theorem FieldList.Encodable.unflatten_flatten {l : FieldList} (h : l.Encodable) :
    ∃ e, l.flatten = .ok e ∧ ∀ left, FieldList.unflatten (e ++ left) = .ok l := by
  have hindex := Segment.listIndex_statesCount h.length_le
  have hflatten := h.flattenWith_eq (Segment.listIndex_wellFormed (.ofNat l.length))
  refine ⟨_, h.flatten_eq_flattenWith.trans hflatten, fun left => ?_⟩
  exact (readList_decodes_flattenWith.ofBytes_eq_ok_iff _ l).mpr
    ⟨_, left, ⟨h, _, hindex, hflatten⟩, rfl⟩

/-- What is written for a list that was read is what it was read from exactly if that had the
    smallest index. -/
theorem FieldList.Encodable.flatten_eq_consumed_iff {l : FieldList} (h : l.Encodable)
    {index : Segment} {consumed : Bytes}
    (hindex : Segment.StatesCount .list .largeList l.length index)
    (hconsumed : l.flattenWith index = .ok consumed) :
    l.flatten = .ok consumed ↔ index.tag = l.indexTag := by
  have hsmallest := Segment.listIndex_wellFormed (.ofNat l.length)
  rw [h.flatten_eq_flattenWith, ← hconsumed]
  rcases hindex.eq_indexOf_or with rfl | ⟨hle, rfl, hregular⟩
  · exact iff_of_true rfl (Segment.tag_indexOf h.length_le)
  · -- a large index in place of a regular one makes other bytes: it is longer
    rw [h.flattenWith_eq hsmallest, h.flattenWith_eq (hindex.wellFormed rfl rfl),
      FieldList.indexTag, if_pos hle]
    refine iff_of_false (fun heq => ?_) nofun
    replace hregular : Segment.listIndex (.ofNat l.length) = _ := hregular
    have hlength := congrArg List.length (List.append_cancel_right (Except.ok.inj heq))
    rw [hsmallest.length_encoding, (hindex.wellFormed rfl rfl).length_encoding, hregular] at hlength
    cases hlength

/-- **The list codec.** From any source a list is read exactly if it is encodable and its bytes are
    pending behind an index of either size class that states its length. Seen as a run of segments:
    exactly those runs are read that hold well-formed segments, no container index among them, and
    not too many to count. Every encodable list is written with the smallest index and is read back
    as it was, whatever follows. What is written for a list is what it was read from exactly if
    that had the smallest index. -/
theorem list_codec_exact :
    (∀ (source : Source) (l : FieldList) (left : Bytes),
      readList.Finds .unbounded source l left ↔
        l.Encodable ∧ ∃ index e, Segment.StatesCount .list .largeList l.length index ∧
          l.flattenWith index = .ok e ∧ source.pending = e ++ left) ∧
    (∀ (source : Source) (ss : List Segment) (left : Bytes),
      (∃ l, readList.Finds .unbounded source l left ∧ l.members = ss) ↔
        (∀ s ∈ ss, s.WellFormed ∧ s.tag.isContainer = false) ∧ ss.length ≤ maxWord ∧
          ∃ index e, Segment.StatesCount .list .largeList ss.length index ∧
            ((index :: ss).forM Segment.write).bytes = .ok e ∧ source.pending = e ++ left) ∧
    (∀ l : FieldList, l.Encodable →
      l.flatten = l.flattenWith (.listIndex (.ofNat l.length)) ∧
      (Segment.listIndex (.ofNat l.length)).tag =
        (if l.length ≤ maxRegular then .list else .largeList) ∧
      ∃ e, l.flatten = .ok e ∧ ∀ left, FieldList.unflatten (e ++ left) = .ok l) ∧
    ∀ (l : FieldList) (index : Segment) (consumed : Bytes), l.Encodable →
      Segment.StatesCount .list .largeList l.length index → l.flattenWith index = .ok consumed →
      (l.flatten = .ok consumed ↔ index.tag = l.indexTag) := by
  refine ⟨readList_finds_iff, ?_, ?_, ?_⟩
  · intro source ss left
    constructor
    · rintro ⟨l, hfinds, rfl⟩
      obtain ⟨h, index, e, hindex, hflatten, hpending⟩ := (readList_finds_iff _ _ _).mp hfinds
      rw [l.length_members]
      exact ⟨fun s hs => ⟨h.members_wellFormed s hs, l.members_plain s hs⟩, h.length_le, index, e,
        hindex, hflatten, hpending⟩
    · rintro ⟨hss, hlength, index, e, hindex, hflatten, hpending⟩
      obtain ⟨l, rfl⟩ := FieldList.exists_of_plain fun s hs => (hss s hs).2
      have h := FieldList.encodable_of_members (fun s hs => (hss s hs).1) hlength
      rw [l.length_members] at hindex
      exact ⟨l, (readList_finds_iff _ _ _).mpr ⟨h, index, e, hindex, hflatten, hpending⟩, rfl⟩
  · intro l h
    exact ⟨h.flatten_eq_flattenWith, Segment.tag_indexOf h.length_le, h.unflatten_flatten⟩
  · intro l index consumed h hindex hconsumed
    exact h.flatten_eq_consumed_iff hindex hconsumed

/-- A list of one boolean is encodable. Behind a large index it is read as well, but is not written
    back so. -/
theorem list_codec_exact_boolean :
    let l : FieldList := .ofList [⟨⟨.bool, [7]⟩, rfl⟩]
    let consumed : Bytes := [21, 0, 0, 0, 0, 0, 0, 0, 1, 11, 7]
    l.flatten = .ok [19, 0, 1, 11, 7] ∧
      (∀ left, FieldList.unflatten ([19, 0, 1, 11, 7] ++ left) = .ok l) ∧
      readList.Finds .unbounded { pending := consumed } l [] ∧ l.flatten ≠ .ok consumed := by
  intro l consumed
  have h : l.Encodable := by
    refine ⟨fun f hf => ?_, by decide⟩
    obtain rfl := List.mem_singleton.mp hf
    exact rfl
  have hlarge : Segment.StatesCount .list .largeList l.length ⟨.largeList, bigEndian 8 1⟩ :=
    Or.inr ⟨by decide, rfl⟩
  obtain ⟨hfinds, -, hwritten, hsmallest⟩ := list_codec_exact
  obtain ⟨-, -, e, hflatten, hread⟩ := hwritten l h
  have hregular : l.flatten = .ok [19, 0, 1, 11, 7] := by decide
  obtain rfl := Except.ok.inj (hregular.symm.trans hflatten)
  refine ⟨hregular, hread, ?_, ?_⟩
  · exact (hfinds _ l []).mpr ⟨h, _, consumed, hlarge, rfl, rfl⟩
  · rw [ne_eq, hsmallest l _ consumed h hlarge rfl]
    decide

end SegmentWire
