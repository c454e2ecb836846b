import SegmentWire.Proofs.Comparison
import SegmentWire.Proofs.DocumentCodec
import SegmentWire.Proofs.ListCodec
import SegmentWire.Proofs.MessageCodec

/-!
# Limits are a filter

A reader checks its limits here and there on the way: a payload before it is read, a count before the
members, a member before it is kept, a command after it was read. What this comes to is a property of
the item alone. A read within limits finds what the same read finds without limits, if that is within
them; and if it fails for another reason than its limits, the other read fails for that reason too.

* **`Item.Within`** — what the limits say about an item.
* **`Reader.FiltersBy`** — reads for which limits are a filter; **`Reader.filtersBy_of_decodes`** says
  when a read is one of them.
* **`loosening`** — one source read within limits and within looser ones; **`Reader.runOn_looser_ok`**
  and **`Reader.runOn_looser_error`** say that neither a success changes, nor a failure that is not for
  the limits.
* **`limits_exact_filter`** — all of this for every kind of item.
-/

namespace SegmentWire

-- ── What the limits say about an item ────────────────────────────────────────────

/-- A list is within the limits if its items and their number are. -/
structure FieldList.Within (limits : Limits) (l : FieldList) : Prop where
  items : ∀ f ∈ l.items.toList, f.segment.Within limits
  length_le : l.length ≤ limits.container

/-- A map is within the limits if its keys, its values and the number of pairs are. -/
structure FieldMap.Within (limits : Limits) (m : FieldMap) : Prop where
  keys_le : ∀ pair ∈ m.entries.toList, pair.1.utf8ByteSize ≤ limits.payload
  values : ∀ pair ∈ m.entries.toList, pair.2.segment.Within limits
  length_le : m.length ≤ limits.container

/-- A document is within the limits if its members and their number are. -/
structure Document.Within (limits : Limits) (d : Document) : Prop where
  members : ∀ s ∈ d.members.toList, s.Within limits
  length_le : d.members.size ≤ limits.document

/-- A message is within the limits if its command is, as a payload and as a command, and if its
    attachments are. -/
structure Message.Within (limits : Limits) (m : Message) : Prop where
  payload_le : m.command.utf8ByteSize ≤ limits.payload
  command_le : m.command.utf8ByteSize ≤ limits.command
  attachments : m.attachments.Within limits

/-- What the limits say about an item. Markers and indices play no part in it. -/
def Item.Within (limits : Limits) : Item → Prop
  | segment s => s.Within limits
  | field f => f.segment.Within limits
  | list l => l.Within limits
  | map m => m.Within limits
  | document d => d.Within limits
  | message m => m.Within limits

/-- Limits bear on the payloads of the four tags that have a size field, and on no others. -/
theorem Segment.within_iff {limits : Limits} {s : Segment} :
    s.Within limits ↔
      (s.tag = .string ∨ s.tag = .binary ∨ s.tag = .hugeString ∨ s.tag = .hugeBinary →
        s.payload.length ≤ limits.payload) := by
  rw [Within]
  cases s.tag <;> simp [Tag.isVariable, Tag.fixedWidth, Tag.layout]

-- ── What a reader accepts, and what it would accept without limits ───────────────

theorem Segment.admitted_iff {limits : Limits} {s : Segment} :
    s.Admitted limits ↔ s.Admitted .unbounded ∧ s.Within limits := by
  rw [admitted_unbounded_iff]
  exact ⟨fun h => ⟨h.wellFormed, h.within⟩, fun h => ⟨h.1, h.2⟩⟩

theorem keySegment_within_iff {limits : Limits} {key : String} :
    (keySegment key).Within limits ↔ key.utf8ByteSize ≤ limits.payload :=
  ⟨fun h => h rfl, fun h _ => h⟩

/-- A list that can be counted is accepted if it would be without limits and is within them. -/
theorem FieldList.admitted_iff {limits : Limits} {l : FieldList} (hlength : l.length ≤ maxWord) :
    l.Admitted limits ↔ l.Admitted .unbounded ∧ l.Within limits := by
  constructor
  · rintro ⟨hitems, hle⟩
    have hitem := fun f hf => Segment.admitted_iff.mp (hitems f hf)
    exact ⟨⟨fun f hf => (hitem f hf).1, hlength⟩, ⟨fun f hf => (hitem f hf).2, hle⟩⟩
  · rintro ⟨hunbounded, hwithin⟩
    exact ⟨fun f hf => Segment.admitted_iff.mpr ⟨hunbounded.items f hf, hwithin.items f hf⟩,
      hwithin.length_le⟩

/-- A pair is accepted if it would be without limits, and if its key and its value are within
    them. -/
theorem FieldMap.pairAdmitted_iff {limits : Limits} {pair : String × Field} :
    PairAdmitted limits pair ↔ PairAdmitted .unbounded pair ∧
      pair.1.utf8ByteSize ≤ limits.payload ∧ pair.2.segment.Within limits := by
  have hkey : (keySegment pair.1).Admitted limits ↔
      (keySegment pair.1).Admitted .unbounded ∧ pair.1.utf8ByteSize ≤ limits.payload :=
    Segment.admitted_iff.trans (and_congr_right' keySegment_within_iff)
  exact (and_congr hkey Segment.admitted_iff).trans and_and_and_comm

/-- A map that can be counted is accepted if it would be without limits and is within them. -/
theorem FieldMap.admitted_iff {limits : Limits} {m : FieldMap} (hlength : m.length ≤ maxWord) :
    m.Admitted limits ↔ m.Admitted .unbounded ∧ m.Within limits := by
  constructor
  · rintro ⟨hindexed, hpairs, hle⟩
    have hpair := fun pair h => pairAdmitted_iff.mp (hpairs pair h)
    exact ⟨⟨hindexed, fun pair h => (hpair pair h).1, hlength⟩,
      ⟨fun pair h => (hpair pair h).2.1, fun pair h => (hpair pair h).2.2, hle⟩⟩
  · rintro ⟨hunbounded, hwithin⟩
    exact ⟨hunbounded.indexed, fun pair h => pairAdmitted_iff.mpr
      ⟨hunbounded.pairs pair h, hwithin.keys_le pair h, hwithin.values pair h⟩, hwithin.length_le⟩

/-- A document is accepted if it would be without limits and is within them. -/
theorem Document.admitted_iff {limits : Limits} {d : Document} :
    d.Admitted limits ↔ d.Admitted .unbounded ∧ d.Within limits := by
  constructor
  · rintro ⟨hclosed, hmembers, hle, hcount⟩
    have hmember := fun s hs => Segment.admitted_iff.mp (hmembers s hs)
    exact ⟨⟨hclosed, fun s hs => (hmember s hs).1, hcount, hcount⟩,
      ⟨fun s hs => (hmember s hs).2, hle⟩⟩
  · rintro ⟨hunbounded, hwithin⟩
    exact ⟨hunbounded.closed,
      fun s hs => Segment.admitted_iff.mpr ⟨hunbounded.members s hs, hwithin.members s hs⟩,
      hwithin.length_le, hunbounded.count_le⟩

/-- A message whose command and attachments have forms is accepted if it would be without limits and
    is within them. -/
theorem Message.admitted_iff {limits : Limits} {m : Message}
    (hcommand : m.command.utf8ByteSize ≤ maxWord) (hlength : m.attachments.length ≤ maxWord) :
    m.Admitted limits ↔ m.Admitted .unbounded ∧ m.Within limits := by
  constructor
  · rintro ⟨hpayload, hle, hattachments, hcount⟩
    obtain ⟨hunbounded, hwithin⟩ := (FieldMap.admitted_iff hlength).mp hattachments
    exact ⟨⟨hcommand, hcommand, hunbounded, hcount⟩, ⟨hpayload, hle, hwithin⟩⟩
  · rintro ⟨hunbounded, hwithin⟩
    exact ⟨hwithin.payload_le, hwithin.command_le,
      (FieldMap.admitted_iff hlength).mpr ⟨hunbounded.attachments, hwithin.attachments⟩,
      hunbounded.count_le⟩

-- ── Reads that limits filter ─────────────────────────────────────────────────────

namespace Reader

variable {α β : Type} {read : Reader α} {within : Limits → α → Prop}

/-- Within limits the read finds exactly what it finds without limits, if that is within them. -/
def FiltersBy (read : Reader α) (within : Limits → α → Prop) : Prop :=
  ∀ (limits : Limits) (source : Source) (a : α) (left : Bytes),
    read.Finds limits source a left ↔ read.Finds .unbounded source a left ∧ within limits a

/-- A read is filtered if limits bear on what it accepts and not on the bytes that stand for it. That
    there are such bytes may be used, since it says that the value is not too large to be counted. -/
theorem filtersBy_of_decodes {admitted : Limits → α → Prop} {form : WireForm α}
    (hread : ∀ limits, read.Decodes limits fun a e => admitted limits a ∧ form a e)
    (hadmitted : ∀ {limits a e}, form a e →
      (admitted limits a ↔ admitted .unbounded a ∧ within limits a)) :
    read.FiltersBy within := by
  intro limits source a left
  rw [hread limits source a left, hread .unbounded source a left]
  constructor
  · rintro ⟨e, ⟨ha, hform⟩, hpending⟩
    obtain ⟨hunbounded, hwithin⟩ := (hadmitted hform).mp ha
    exact ⟨⟨e, ⟨hunbounded, hform⟩, hpending⟩, hwithin⟩
  · rintro ⟨⟨e, ⟨hunbounded, hform⟩, hpending⟩, hwithin⟩
    exact ⟨e, ⟨(hadmitted hform).mpr ⟨hunbounded, hwithin⟩, hform⟩, hpending⟩

/-- A read whose value is changed finds what the read itself finds, changed. -/
theorem finds_map_iff {change : α → β} {limits : Limits} {source : Source} {b : β} {left : Bytes} :
    (change <$> read).Finds limits source b left ↔
      ∃ a, read.Finds limits source a left ∧ change a = b := by
  constructor
  · rintro ⟨rest, hread, hrest⟩
    obtain ⟨a, ha, hchange⟩ := map_eq_ok hread
    exact ⟨a, ⟨rest, ha, hrest⟩, hchange⟩
  · rintro ⟨a, ⟨rest, ha, hrest⟩, rfl⟩
    refine ⟨rest, ?_, hrest⟩
    show (read limits source >>= fun found => pure (change found.1, found.2)) = _
    rw [show read limits source = _ from ha]
    rfl

/-- Changing the value does not change what the limits say about it. -/
theorem FiltersBy.map (h : read.FiltersBy within) {change : α → β} {within' : Limits → β → Prop}
    (hwithin : ∀ {limits a}, within' limits (change a) ↔ within limits a) :
    (change <$> read).FiltersBy within' := by
  intro limits source b left
  rw [finds_map_iff, finds_map_iff]
  constructor
  · rintro ⟨a, ha, rfl⟩
    obtain ⟨hfound, ha⟩ := (h limits source a left).mp ha
    exact ⟨⟨a, hfound, rfl⟩, hwithin.mpr ha⟩
  · rintro ⟨⟨a, hfound, rfl⟩, ha⟩
    exact ⟨a, (h limits source a left).mpr ⟨hfound, hwithin.mp ha⟩, rfl⟩

end Reader

theorem readSegment_filtersBy : readSegment.FiltersBy Segment.Within :=
  Reader.filtersBy_of_decodes readSegment_decodes fun _ => Segment.admitted_iff

theorem readField_filtersBy : readField.FiltersBy fun limits f => f.segment.Within limits :=
  Reader.filtersBy_of_decodes readField_decodes fun _ => Segment.admitted_iff

theorem readList_filtersBy : readList.FiltersBy FieldList.Within :=
  Reader.filtersBy_of_decodes readList_decodes fun ⟨_, hindex, _⟩ =>
    FieldList.admitted_iff hindex.le_maxWord

theorem readMap_filtersBy : readMap.FiltersBy FieldMap.Within :=
  Reader.filtersBy_of_decodes readMap_decodes fun ⟨_, hindex, _⟩ =>
    FieldMap.admitted_iff hindex.le_maxWord

theorem readDocument_filtersBy : readDocument.FiltersBy Document.Within :=
  Reader.filtersBy_of_decodes readDocument_decodes fun _ => Document.admitted_iff

theorem readMessage_filtersBy : readMessage.FiltersBy Message.Within :=
  Reader.filtersBy_of_decodes readMessage_decodes fun ⟨_, _, hcommand, hindex, _⟩ =>
    Message.admitted_iff hcommand.le_maxWord hindex.le_maxWord

/-- Limits filter every kind of item. -/
theorem readItem_filtersBy (kind : ItemKind) : (readItem kind).FiltersBy Item.Within := by
  cases kind with
  | segment => exact readSegment_filtersBy.map Iff.rfl
  | field => exact readField_filtersBy.map Iff.rfl
  | list => exact readList_filtersBy.map Iff.rfl
  | map => exact readMap_filtersBy.map Iff.rfl
  | document => exact readDocument_filtersBy.map Iff.rfl
  | message => exact readMessage_filtersBy.map Iff.rfl

-- ── Looser limits ────────────────────────────────────────────────────────────────

/-- One source read within limits and within looser ones. A failure for the limits in the first run
    says nothing about the second. -/
def loosening {tight loose : Limits} (h : tight ≤ loose) : Comparison .primitive .primitive where
  tight := tight
  loose := loose
  sources := Eq
  errors := Eq
  excused e := e.kind = .limit
  tight_le_loose := h
  excused_or_eq _ := Or.inl
  errors_of_onContent _ _ := rfl
  alike_take := by
    rintro - want source _ rfl
    rw [Fetch.take_primitive]
    -- the primitive read does not look at the limits
    have hsame : Reader.exactly want tight source = Reader.exactly want loose source := rfl
    rw [hsame]
    cases Reader.exactly want loose source with
    | error e => exact .failed rfl
    | ok found => exact .found found.1 rfl

namespace Reader

section Looser

variable {α : Type} {read : Reader α} {tight loose : Limits} {h : tight ≤ loose}
  (hread : read.Respects (loosening h)) {source : Source}
include hread

/-- Looser limits do not change a success. -/
theorem runOn_looser_ok {a : α} {rest : Source} (hfound : read.runOn tight source = .ok (a, rest)) :
    read.runOn loose source = .ok (a, rest) := by
  obtain ⟨rest', hfound', rfl⟩ := hread.of_ok rfl hfound
  exact hfound'

/-- Looser limits do not change a failure that is not for the limits. -/
theorem runOn_looser_error {e : WireError} (hfailed : read.runOn tight source = .error e)
    (hkind : e.kind ≠ .limit) : read.runOn loose source = .error e := by
  obtain ⟨e', hfailed', rfl⟩ := hread.of_error rfl hfailed hkind
  exact hfailed'

end Looser

end Reader

/-- **Limits are an exact filter.** Limits bear on the payloads of texts and binaries, on the number of
    members of a list, a map and a document, and on the command of a message, and on nothing else.
    A read within limits finds an item, and leaves some bytes, exactly if the read without limits
    does and the item is within them. Looser limits change neither a success nor a failure that is not
    for the limits; the unbounded ones are looser than all limits that are words. -/
theorem limits_exact_filter (kind : ItemKind) (limits : Limits) :
    (∀ s : Segment, s.Within limits ↔
      (s.tag = .string ∨ s.tag = .binary ∨ s.tag = .hugeString ∨ s.tag = .hugeBinary →
        s.payload.length ≤ limits.payload)) ∧
    (∀ (source : Source) (item : Item) (left : Bytes),
      (readItem kind).Finds limits source item left ↔
        (readItem kind).Finds .unbounded source item left ∧ item.Within limits) ∧
    ∀ (looser : Limits) (source : Source), limits ≤ looser →
      (∀ (item : Item) (rest : Source), (readItem kind).runOn limits source = .ok (item, rest) →
        (readItem kind).runOn looser source = .ok (item, rest)) ∧
      ∀ e : WireError, (readItem kind).runOn limits source = .error e → e.kind ≠ .limit →
        (readItem kind).runOn looser source = .error e := by
  refine ⟨fun s => Segment.within_iff, readItem_filtersBy kind limits, ?_⟩
  intro looser source hle
  have hread : (readItem kind).Respects (loosening hle) := readItem_matches kind
  exact ⟨fun item rest => Reader.runOn_looser_ok hread,
    fun e => Reader.runOn_looser_error hread⟩

/-- A text of one byte is found within limits of one byte and not within limits of none. A byte that
    is no tag is refused within these limits, and therefore without limits. -/
theorem limits_exact_filter_letter :
    let tight : Limits := ⟨0, 0, 0, 0⟩
    let source : Source := { pending := [14, 0, 1, 104] }
    let unknown : Source := { pending := [22] }
    let item : Item := .segment ⟨.string, [104]⟩
    (readItem .segment).Finds ⟨1, 0, 0, 0⟩ source item [] ∧
      ¬ (readItem .segment).Finds tight source item [] ∧
      (readItem .segment).runOn .unbounded unknown = .error (.unknownTag 22) := by
  intro tight source unknown item
  have hfound : (readItem .segment).Finds .unbounded source item [] := ⟨_, rfl, rfl⟩
  obtain ⟨-, hfilter, -⟩ := limits_exact_filter .segment ⟨1, 0, 0, 0⟩
  obtain ⟨-, hfilter', hlooser⟩ := limits_exact_filter .segment tight
  refine ⟨(hfilter source item []).mpr ⟨hfound, fun _ => Nat.le_refl 1⟩, fun h => ?_, ?_⟩
  · exact absurd (((hfilter' source item []).mp h).2 rfl) (by decide)
  · exact (hlooser .unbounded unknown (by decide)).2 _ rfl nofun

end SegmentWire
