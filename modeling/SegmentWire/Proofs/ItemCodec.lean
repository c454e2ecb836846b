import SegmentWire.Proofs.LimitFilter
import SegmentWire.Proofs.Sizes

/-!
# Items as runs of segments

Whatever its kind, an item is written as a run of segments: itself, an index and its members, or an
envelope. What has been built can be in the way of that only by its keys.

* **`Item.segments`**, **`Item.encoding`** — the segments of an item, and their bytes.
* **`Item.Sound.write_eq_put`** — a sound item whose keys fit is written as its encoding, to every
  sink, and **`Item.Sound.flatten_eq_ok_iff`** says that this is the only way to have one.
* **`Item.Encodable`** — the items that are also read back: their lengths and counts are words.
* **`Item.Encodable.finds`** — such an item is found where its encoding stands, whatever follows.
-/

namespace SegmentWire

namespace Item

/-- The segments that an item is written as, each command and index in its smallest size class. -/
def segments : Item → List Segment
  | segment s => [s]
  | field f => [f.segment]
  | list l => .listIndex (.ofNat l.length) :: l.members
  | map m => .mapIndex (.ofNat m.length) :: m.members
  | document d => d.segments
  | message m => m.segments (.ofText m.command) (.mapIndex (.ofNat m.attachments.length))

/-- The bytes that an item is written as. -/
def encoding (item : Item) : Bytes := item.segments.flatMap Segment.encoding

/-- The bytes of an item, if it can be written. -/
def flatten : Item → Except WireError Bytes
  | segment s => s.flatten
  | field f => f.segment.flatten
  | list l => l.flatten
  | map m => m.flatten
  | document d => d.flatten
  | message m => m.flatten

/-- The keys of a map, or the names of a message's attachments. -/
def keys : Item → List String
  | map m => m.keys
  | message m => m.attachments.keys
  | _ => []

/-- Every key fits a regular string segment. -/
def KeysFit (item : Item) : Prop := ∀ key ∈ item.keys, key.utf8ByteSize ≤ maxRegular

/-- The lengths of payloads, and the counts that indices and end markers state, are words. -/
def Countable : Item → Prop
  | segment s => s.payload.length ≤ maxWord
  | field f => f.segment.payload.length ≤ maxWord
  | list l => (∀ f ∈ l.items.toList, f.segment.payload.length ≤ maxWord) ∧ l.length ≤ maxWord
  | map m => (∀ pair ∈ m.entries.toList, pair.2.segment.payload.length ≤ maxWord) ∧
      m.length ≤ maxWord
  | document d => (∀ s ∈ d.members.toList, s.payload.length ≤ maxWord) ∧ d.length ≤ maxWord
  | message m => (∀ pair ∈ m.attachments.entries.toList,
        pair.2.segment.payload.length ≤ maxWord) ∧
      m.command.utf8ByteSize ≤ maxWord ∧ m.integrityCount ≤ maxWord

/-- The items that have an encoding. -/
def Encodable : Item → Prop
  | segment s => s.WellFormed
  | field f => f.segment.WellFormed
  | list l => l.Encodable
  | map m => m.Encodable
  | document d => d.Encodable
  | message m => m.Encodable

theorem keysFit_of_keys_nil {item : Item} (h : item.keys = []) : item.KeysFit := by
  rw [KeysFit, h]
  exact List.forall_mem_nil _

theorem flatten_eq_bytes (item : Item) : item.flatten = item.write.bytes := by
  cases item <;> rfl

/-- **What is reachable has an encoding**, as long as its keys fit and its parts can be counted. -/
theorem Reachable.encodable_of {item : Item} (h : item.Reachable) (hkeys : item.KeysFit)
    (hcountable : item.Countable) : item.Encodable := by
  obtain ⟨hsegment, hlist, hmap, hdocument, hmessage⟩ := Item.Reachable.encodable
  cases item with
  | segment s => exact hsegment s h hcountable
  | field f => exact hsegment f.segment (.fieldSegment h) hcountable
  | list l => exact hlist l h hcountable.1 hcountable.2
  | map m =>
      refine hmap m h (fun pair hpair => ⟨?_, hcountable.1 pair hpair⟩) hcountable.2
      exact hkeys pair.1 (List.mem_map_of_mem hpair)
  | document d => exact hdocument d h hcountable.1 hcountable.2
  | message m =>
      obtain ⟨hpayloads, hcommand, hcount⟩ := hcountable
      refine hmessage m h (fun pair hpair => ⟨?_, hpayloads pair hpair⟩) hcommand hcount
      exact hkeys pair.1 (List.mem_map_of_mem hpair)

-- ── Writing ──────────────────────────────────────────────────────────────────────

/-- **A sound item whose keys fit is written as its encoding**, to every sink. -/
theorem Sound.write_eq_put {item : Item} (h : item.Sound) (hkeys : item.KeysFit) :
    item.write = Sink.put item.encoding := by
  cases item with
  | segment s =>
      have hfits : s.Fits := h
      rw [encoding, segments, List.flatMap_singleton]
      exact hfits.write_eq_put
  | field f =>
      have hfits : f.segment.Fits := h
      rw [encoding, segments, List.flatMap_singleton]
      exact hfits.write_eq_put
  | list l => exact FieldList.write_eq_put h
  | map m => exact FieldMap.write_eq_put (List.forall_mem_map.mp hkeys) h.values_fit
  | document d => exact Document.write_eq_put h.members_fit
  | message m => exact Message.write_eq_put (List.forall_mem_map.mp hkeys) h.values_fit

/-- A sound item has one run of bytes, if its keys fit, and none otherwise. -/
theorem Sound.flatten_eq_ok_iff {item : Item} (h : item.Sound) {e : Bytes} :
    item.flatten = .ok e ↔ item.KeysFit ∧ item.encoding = e := by
  constructor
  · intro hflatten
    have hkeys : item.KeysFit := by
      by_contra hlong
      cases item with
      | map m =>
          obtain ⟨key, -, -, hrefused⟩ :=
            FieldMap.flatten_of_long fun hpairs => hlong (List.forall_mem_map.mpr hpairs)
          exact nomatch hrefused.symm.trans hflatten
      | message m =>
          obtain ⟨name, -, -, hrefused⟩ :=
            Message.flatten_of_long fun hpairs => hlong (List.forall_mem_map.mpr hpairs)
          exact nomatch hrefused.symm.trans hflatten
      | _ => exact hlong nofun
    rw [flatten_eq_bytes, h.write_eq_put hkeys, Writer.bytes_put] at hflatten
    exact ⟨hkeys, Except.ok.inj hflatten⟩
  · rintro ⟨hkeys, rfl⟩
    rw [flatten_eq_bytes, h.write_eq_put hkeys, Writer.bytes_put]

/-- An encodable item is sound, and its keys fit. -/
theorem Encodable.sound {item : Item} (h : item.Encodable) : item.Sound ∧ item.KeysFit := by
  cases item with
  | segment s => exact ⟨Segment.WellFormed.fits h, nofun⟩
  | field f => exact ⟨Segment.WellFormed.fits h, nofun⟩
  | list l => exact ⟨fun f hf => (h.items_wellFormed f hf).fits, nofun⟩
  | map m =>
      refine ⟨⟨h.indexed, fun pair hpair => (h.values_wellFormed pair hpair).fits⟩, ?_⟩
      exact List.forall_mem_map.mpr h.keys_fit
  | document d => exact ⟨⟨h.closed, fun s hs => (h.members_wellFormed s hs).fits⟩, nofun⟩
  | message m =>
      refine ⟨⟨h.attachments.indexed, fun pair hpair =>
        (h.attachments.values_wellFormed pair hpair).fits⟩, ?_⟩
      exact List.forall_mem_map.mpr h.attachments.keys_fit

theorem Encodable.write_eq_put {item : Item} (h : item.Encodable) :
    item.write = Sink.put item.encoding :=
  h.sound.1.write_eq_put h.sound.2

theorem Encodable.flatten_eq {item : Item} (h : item.Encodable) :
    item.flatten = .ok item.encoding :=
  h.sound.1.flatten_eq_ok_iff.mpr ⟨h.sound.2, rfl⟩

-- ── Reading ──────────────────────────────────────────────────────────────────────

/-- **An encodable item is found where its encoding stands**, whatever follows it. -/
theorem Encodable.finds {item : Item} (h : item.Encodable) {source : Source} {left : Bytes}
    (hpending : source.pending = item.encoding ++ left) :
    (readItem item.kind).Finds .unbounded source item left := by
  have hflatten := h.flatten_eq
  cases item with
  | segment s =>
      have hfound := readSegment_decodes_flatten.finds ⟨h, hflatten⟩ hpending
      exact Reader.finds_map_iff.mpr ⟨s, hfound, rfl⟩
  | field f =>
      have hadmitted := Segment.admitted_unbounded_iff.mpr h
      rw [encoding, segments, List.flatMap_singleton] at hpending
      have hfound := (readField_decodes .unbounded).finds ⟨hadmitted, rfl⟩ hpending
      exact Reader.finds_map_iff.mpr ⟨f, hfound, rfl⟩
  | list l =>
      have hindex := Segment.listIndex_statesCount h.length_le
      rw [show Item.flatten (list l) = l.flatten from rfl,
        FieldList.Encodable.flatten_eq_flattenWith h] at hflatten
      have hfound := readList_decodes_flattenWith.finds ⟨h, _, hindex, hflatten⟩ hpending
      exact Reader.finds_map_iff.mpr ⟨l, hfound, rfl⟩
  | map m =>
      have hindex := Segment.mapIndex_statesCount h.length_le
      have hwith := FieldMap.Encodable.flattenWith_eq h
        (Segment.mapIndex_wellFormed (.ofNat m.length))
      have hfound := readMap_decodes_flattenWith.finds ⟨h, _, hindex, hwith⟩ hpending
      exact Reader.finds_map_iff.mpr ⟨m, hfound, rfl⟩
  | document d =>
      have hfound := readDocument_decodes_flatten.finds ⟨h, hflatten⟩ hpending
      exact Reader.finds_map_iff.mpr ⟨d, hfound, rfl⟩
  | message m =>
      have hstates := Segment.statesText_ofText h.command_le
      have hindex := Segment.mapIndex_statesCount h.attachments.length_le
      rw [show Item.flatten (message m) = m.flatten from rfl,
        Message.Encodable.flatten_eq_flattenWith h] at hflatten
      have hfound :=
        readMessage_decodes_flattenWith.finds ⟨h, _, _, hstates, hindex, hflatten⟩ hpending
      exact Reader.finds_map_iff.mpr ⟨m, hfound, rfl⟩

end Item

end SegmentWire
