import SegmentWire.Proofs.Reachable

/-!
# Sizes

How long an encoding is can be asked without writing it, and a buffer is allocated for the answer. The
answer is computed apart from the writer: from the tag that an index or a command will have, from the
lengths of keys, and from two constants for the markers.

* **`Fits.length_encoding`** says how long one segment is; **`Segment.length_encoding_indexOf`** and
  **`Segment.length_encoding_ofText`** are about those whose tag is chosen when they are written.
* **`FieldList.length_flatten`**, **`FieldMap.length_flatten`**, **`Document.length_flatten`**,
  **`Message.length_flatten`** — what is written is as long as the size says.
* **`FieldMap.write_of_long`**, **`Message.write_of_long`** — a key that is too long is the one thing
  that can be in the way. It stops a map before anything is written, and a message behind its head.
* **`sizes_exact`** — both together, for all that is reachable.
-/

namespace SegmentWire

-- zero is that of the core library, whatever else is imported
attribute [local instance (2000)] Zero.ofOfNat0

-- ── Segments ─────────────────────────────────────────────────────────────────────

theorem encodedLength_of_fixed {tag : Tag} {width : Nat} (hlayout : tag.layout = .fixed width)
    (length : Nat) : encodedLength tag length = 1 + width := by
  rw [encodedLength, hlayout]

namespace Segment

theorem size_eq_encodedLength (s : Segment) : s.size = encodedLength s.tag s.payload.length := by
  rw [size, encodedLength, Tag.fixedWidth, Tag.sizeFieldWidth]
  cases s.tag.layout with
  | fixed width => rfl
  | sized field => rfl

/-- An index has a fixed width in either size class, so that its length follows from its tag alone. -/
theorem length_encoding_indexOf {regular large : Tag} (hregular : regular.layout = .fixed 2)
    (hlarge : large.layout = .fixed 8) {count : Nat} (hcount : count ≤ maxWord) :
    (indexOf regular large (.ofNat count)).encoding.length =
      encodedLength (if count ≤ maxRegular then regular else large) 0 := by
  have hwellFormed := (indexOf_statesCount hcount).wellFormed hregular hlarge
  rw [hwellFormed.length_encoding, size_eq_encodedLength, tag_indexOf hcount]
  split
  · rw [encodedLength_of_fixed hregular, encodedLength_of_fixed hregular]
  · rw [encodedLength_of_fixed hlarge, encodedLength_of_fixed hlarge]

theorem size_pos (s : Segment) : 0 < s.size := by
  rw [size]
  split <;> omega

theorem length_encoding_ofText (text : String) :
    (ofText text).encoding.length =
      encodedLength (if text.utf8ByteSize ≤ maxRegular then .string else .hugeString)
        text.utf8ByteSize := by
  rw [(ofText_fits text).length_encoding, size_eq_encodedLength]
  rfl

end Segment

-- ── Containers ───────────────────────────────────────────────────────────────────

/-- A loop that adds up numbers gives their sum. -/
theorem foldl_add_eq_sum {α : Type} (size : α → Nat) (items : Array α) :
    items.foldl (fun total a => total + size a) 0 = (items.toList.map size).sum := by
  rw [List.sum_eq_foldl, List.foldl_map, Array.foldl_toList]

/-- Runs of bytes, one after the other, are as long as all of them together. -/
theorem length_flatMap_of {α : Type} {form : α → Bytes} {size : α → Nat} {items : List α}
    (h : ∀ a ∈ items, (form a).length = size a) :
    (items.flatMap form).length = (items.map size).sum := by
  rw [List.length_flatMap, List.map_congr_left h]

theorem length_le_sum {α : Type} {size : α → Nat} (h : ∀ a, 0 < size a) (items : List α) :
    items.length ≤ (items.map size).sum := by
  induction items with
  | nil => exact Nat.le_refl 0
  | cons a items ih =>
      have hfirst := h a
      rw [List.map_cons, List.sum_cons, List.length_cons]
      omega

namespace FieldList

theorem length_le_size (l : FieldList) : l.length ≤ l.size := by
  rw [size, foldl_add_eq_sum, length, ← Array.length_toList]
  exact Nat.le_trans (length_le_sum (fun f => f.segment.size_pos) _) (Nat.le_add_left _ _)

/-- A list is written as so many bytes as its size says, if that is a word: then the number of its items
    is one as well, which the index states. -/
theorem length_flatten {l : FieldList} (h : ∀ f ∈ l.items.toList, f.segment.Fits) :
    ∃ e, l.flatten = .ok e ∧ (l.size ≤ maxWord → e.length = l.size) := by
  refine ⟨_, flatten_eq h, fun hsize => ?_⟩
  have hindex : (Segment.listIndex (.ofNat l.length)).encoding.length =
      encodedLength l.indexTag 0 :=
    Segment.length_encoding_indexOf rfl rfl (Nat.le_trans l.length_le_size hsize)
  have hitems : (l.members.flatMap Segment.encoding).length =
      (l.items.toList.map Field.size).sum := by
    rw [members, List.flatMap_map]
    exact length_flatMap_of fun f hf => (h f hf).length_encoding
  rw [List.flatMap_cons, List.length_append, hindex, hitems, size, foldl_add_eq_sum]

end FieldList

namespace FieldMap

variable {m : FieldMap}

theorem length_encoding_keySegment {key : String} (h : key.utf8ByteSize ≤ maxRegular) :
    (keySegment key).encoding.length = encodedLength .string key.utf8ByteSize := by
  rw [(keySegment_wellFormed_iff.mpr h).length_encoding, Segment.size_eq_encodedLength]
  rfl

theorem length_le_size (m : FieldMap) : m.length ≤ m.size := by
  rw [size, foldl_add_eq_sum, length, ← Array.length_toList]
  refine Nat.le_trans (length_le_sum (fun pair => ?_) _) (Nat.le_add_left _ _)
  exact Nat.add_pos_right _ pair.2.segment.size_pos

/-- The index and the pairs are as long as the size says. -/
theorem length_encodings (hkeys : ∀ pair ∈ m.entries.toList, pair.1.utf8ByteSize ≤ maxRegular)
    (hvalues : ∀ pair ∈ m.entries.toList, pair.2.segment.Fits) (hsize : m.size ≤ maxWord) :
    ((Segment.mapIndex (.ofNat m.length) :: m.members).flatMap Segment.encoding).length =
      m.size := by
  have hindex : (Segment.mapIndex (.ofNat m.length)).encoding.length =
      encodedLength m.indexTag 0 :=
    Segment.length_encoding_indexOf rfl rfl (Nat.le_trans m.length_le_size hsize)
  have hpairs : (m.members.flatMap Segment.encoding).length = (m.entries.toList.map fun pair =>
      encodedLength .string pair.1.utf8ByteSize + pair.2.size).sum := by
    rw [members, List.flatMap_assoc]
    refine length_flatMap_of fun pair hpair => ?_
    rw [pairSegments, List.flatMap_cons, List.flatMap_singleton, List.length_append,
      length_encoding_keySegment (hkeys pair hpair), (hvalues pair hpair).length_encoding]
    rfl
  rw [List.flatMap_cons, List.length_append, hindex, hpairs, size, foldl_add_eq_sum]

theorem length_flatten (hkeys : ∀ pair ∈ m.entries.toList, pair.1.utf8ByteSize ≤ maxRegular)
    (hvalues : ∀ pair ∈ m.entries.toList, pair.2.segment.Fits) :
    ∃ e, m.flatten = .ok e ∧ (m.size ≤ maxWord → e.length = m.size) :=
  ⟨_, flatten_eq hkeys hvalues, length_encodings hkeys hvalues⟩

/-- **The first key that is too long stops the writer** before anything is written. -/
theorem write_of_long (h : ¬ ∀ pair ∈ m.entries.toList, pair.1.utf8ByteSize ≤ maxRegular) :
    ∃ key ∈ m.keys, maxRegular < key.utf8ByteSize ∧
      m.write = throw (.keyTooLong key.utf8ByteSize) := by
  rw [write]
  cases hfind : m.entries.find? fun pair => maxRegular < pair.1.utf8ByteSize with
  | none =>
      rw [Array.find?_eq_none] at hfind
      refine absurd (fun pair hpair => ?_) h
      have hshort := hfind pair (Array.mem_toList_iff.mp hpair)
      exact Nat.not_lt.mp fun hlong => hshort (decide_eq_true hlong)
  | some pair =>
      have hmem := Array.mem_toList_iff.mpr (Array.mem_of_find?_eq_some hfind)
      have hlong := Array.find?_some hfind
      exact ⟨pair.1, List.mem_map_of_mem hmem, of_decide_eq_true hlong, rfl⟩

theorem flatten_of_long (h : ¬ ∀ pair ∈ m.entries.toList, pair.1.utf8ByteSize ≤ maxRegular) :
    ∃ key ∈ m.keys, maxRegular < key.utf8ByteSize ∧
      m.flatten = .error (.keyTooLong key.utf8ByteSize) := by
  obtain ⟨key, hkey, hlong, hwrite⟩ := write_of_long h
  refine ⟨key, hkey, hlong, ?_⟩
  rw [flatten, hwrite]
  rfl

end FieldMap

-- ── Envelopes ────────────────────────────────────────────────────────────────────

theorem length_encoding_endMarker (count : Nat) : (endMarker count).encoding.length = endLength :=
  (endMarker_admitted count .unbounded).wellFormed.length_encoding

theorem Document.length_flatten {d : Document} (h : ∀ s ∈ d.members.toList, s.Fits) :
    ∃ e, d.flatten = .ok e ∧ e.length = d.size := by
  refine ⟨_, flatten_eq h, ?_⟩
  have hmembers : (d.members.toList.flatMap Segment.encoding).length =
      (d.members.toList.map Segment.size).sum :=
    length_flatMap_of fun s hs => (h s hs).length_encoding
  have hstart : startMarker.encoding.length = startLength := rfl
  rw [segments, List.flatMap_cons, List.flatMap_append, List.flatMap_singleton, List.length_append,
    List.length_append, hstart, hmembers, length_encoding_endMarker, size, foldl_add_eq_sum,
    Nat.add_assoc]

namespace Message

variable {m : Message}

theorem length_flatten
    (hnames : ∀ pair ∈ m.attachments.entries.toList, pair.1.utf8ByteSize ≤ maxRegular)
    (hvalues : ∀ pair ∈ m.attachments.entries.toList, pair.2.segment.Fits) :
    ∃ e, m.flatten = .ok e ∧ (m.size ≤ maxWord → e.length = m.size) := by
  refine ⟨_, flatten_eq hnames hvalues, fun hsize => ?_⟩
  have hstart : startMarker.encoding.length = startLength := rfl
  have hcommand : (Segment.ofText m.command).encoding.length =
      encodedLength m.commandTag m.command.utf8ByteSize :=
    Segment.length_encoding_ofText m.command
  rw [size] at hsize
  have hattachments := FieldMap.length_encodings hnames hvalues (by omega)
  rw [List.flatMap_cons, List.length_append] at hattachments
  rw [segments, List.flatMap_cons, List.flatMap_cons, List.flatMap_cons, List.flatMap_append,
    List.flatMap_singleton]
  simp only [List.length_append, hstart, hcommand, length_encoding_endMarker, size]
  omega

/-- The bytes in front of a message's attachments: the start marker and the command. -/
def head (m : Message) : Bytes := startMarker.encoding ++ (Segment.ofText m.command).encoding

/-- **A name that is too long stops the writer of the message behind the head.** -/
theorem write_of_long
    (h : ¬ ∀ pair ∈ m.attachments.entries.toList, pair.1.utf8ByteSize ≤ maxRegular) :
    ∃ name ∈ m.attachments.keys, maxRegular < name.utf8ByteSize ∧
      m.attachments.write = throw (.keyTooLong name.utf8ByteSize) ∧
      m.write = Sink.put m.head >>= fun _ => throw (.keyTooLong name.utf8ByteSize) := by
  obtain ⟨name, hname, hlong, hwrite⟩ := FieldMap.write_of_long h
  refine ⟨name, hname, hlong, hwrite, ?_⟩
  rw [write_eq, hwrite, writeStart_eq_put, (Segment.ofText_fits m.command).write_eq_put, head,
    ← Sink.put_bind_put, bind_assoc]
  rfl

theorem flatten_of_long
    (h : ¬ ∀ pair ∈ m.attachments.entries.toList, pair.1.utf8ByteSize ≤ maxRegular) :
    ∃ name ∈ m.attachments.keys, maxRegular < name.utf8ByteSize ∧
      m.flatten = .error (.keyTooLong name.utf8ByteSize) := by
  obtain ⟨name, hname, hlong, -, hwrite⟩ := write_of_long h
  refine ⟨name, hname, hlong, ?_⟩
  rw [flatten, hwrite]
  rfl

end Message

-- ── All that is reachable ────────────────────────────────────────────────────────

/-- An outcome that is decided by the keys: it succeeds exactly if they fit, with so many bytes, and
    fails for a key otherwise. -/
theorem decided_by_keys {m : FieldMap} {outcome : Except WireError Bytes} {size : Nat}
    (hfit : (∀ pair ∈ m.entries.toList, pair.1.utf8ByteSize ≤ maxRegular) →
      ∃ e, outcome = .ok e ∧ (size ≤ maxWord → e.length = size))
    (hlong : (¬ ∀ pair ∈ m.entries.toList, pair.1.utf8ByteSize ≤ maxRegular) →
      ∃ key ∈ m.keys, maxRegular < key.utf8ByteSize ∧
        outcome = .error (.keyTooLong key.utf8ByteSize)) :
    ((∃ e, outcome = .ok e) ↔ ∀ key ∈ m.keys, key.utf8ByteSize ≤ maxRegular) ∧
      (∀ e, outcome = .ok e → size ≤ maxWord → e.length = size) ∧
      ((∃ key ∈ m.keys, maxRegular < key.utf8ByteSize) →
        ∃ e, outcome = .error e ∧ e.kind = .invalidKey) := by
  by_cases hkeys : ∀ key ∈ m.keys, key.utf8ByteSize ≤ maxRegular
  · obtain ⟨e, rfl, hlength⟩ := hfit fun pair hpair => hkeys _ (List.mem_map_of_mem hpair)
    refine ⟨iff_of_true ⟨e, rfl⟩ hkeys, ?_, ?_⟩
    · rintro _ ⟨⟩
      exact hlength
    · rintro ⟨key, hkey, hlt⟩
      exact absurd hlt (Nat.not_lt.mpr (hkeys key hkey))
  · obtain ⟨key, hkey, hlt, rfl⟩ := hlong fun hpairs => hkeys (List.forall_mem_map.mpr hpairs)
    refine ⟨iff_of_false nofun hkeys, nofun, fun _ => ⟨_, rfl, rfl⟩⟩

/-- **Sizes are exact, and the keys alone decide whether something can be written.** Every reachable
    segment, list and document is written as so many bytes as its size says. A map or a message is
    written exactly if every key has at most 65535 bytes, and then as so many bytes as its size says;
    otherwise it is refused for a key. Sizes are taken to be words where the number of members is
    written as one. -/
theorem sizes_exact :
    (∀ s : Segment, (Item.segment s).Reachable → ∃ e, s.flatten = .ok e ∧ e.length = s.size) ∧
    (∀ l : FieldList, (Item.list l).Reachable →
      ∃ e, l.flatten = .ok e ∧ (l.size ≤ maxWord → e.length = l.size)) ∧
    (∀ d : Document, (Item.document d).Reachable →
      ∃ e, d.flatten = .ok e ∧ e.length = d.size) ∧
    (∀ m : FieldMap, (Item.map m).Reachable →
      ((∃ e, m.flatten = .ok e) ↔ ∀ key ∈ m.keys, key.utf8ByteSize ≤ maxRegular) ∧
      (∀ e, m.flatten = .ok e → m.size ≤ maxWord → e.length = m.size) ∧
      ((∃ key ∈ m.keys, maxRegular < key.utf8ByteSize) →
        ∃ e, m.flatten = .error e ∧ e.kind = .invalidKey)) ∧
    ∀ m : Message, (Item.message m).Reachable →
      ((∃ e, m.flatten = .ok e) ↔ ∀ name ∈ m.attachments.keys, name.utf8ByteSize ≤ maxRegular) ∧
      (∀ e, m.flatten = .ok e → m.size ≤ maxWord → e.length = m.size) ∧
      ((∃ name ∈ m.attachments.keys, maxRegular < name.utf8ByteSize) →
        ∃ e, m.flatten = .error e ∧ e.kind = .invalidKey) := by
  refine ⟨?_, ?_, ?_, ?_, ?_⟩
  · intro s h
    have hfits : s.Fits := h.sound
    exact ⟨_, hfits.flatten_eq, hfits.length_encoding⟩
  · intro l h
    exact FieldList.length_flatten h.sound
  · intro d h
    have hsound : d.Sound := h.sound
    exact Document.length_flatten hsound.members_fit
  · intro m h
    have hsound : m.Sound := h.sound
    exact decided_by_keys (fun hkeys => FieldMap.length_flatten hkeys hsound.values_fit)
      FieldMap.flatten_of_long
  · intro m h
    have hsound : m.attachments.Sound := h.sound
    exact decided_by_keys (fun hnames => Message.length_flatten hnames hsound.values_fit)
      Message.flatten_of_long

/-- A message with one attachment, under a name as long as a name may be, and under one that is a byte
    longer. The list of the attached number and the document of it can be written in any case. -/
theorem sizes_exact_longest_name :
    let f : Field := .ofValue (.int16 (-2)) rfl
    let name (length : Nat) : String := .ofList (.replicate length 'a')
    let m (length : Nat) : Message := (Message.exchange { command := "c" } (name length) f).2
    (∃ e, (FieldList.ofList [f]).flatten = .ok e ∧ e.length = 6) ∧
    (∃ e, (Document.mk #[f.segment]).flatten = .ok e ∧ e.length = 14) ∧
    (∃ e, (m 65535).flatten = .ok e ∧ e.length = 65559) ∧
    (∃ e, (m 65536).attachments.flatten = .error e ∧ e.kind = .invalidKey) ∧
    ∃ e, (m 65536).flatten = .error e ∧ e.kind = .invalidKey := by
  intro f name m
  have hname : ∀ length, (name length).utf8ByteSize = length := utf8ByteSize_replicate
  have hf : (Item.field f).Reachable := .fieldOfValue _ rfl
  have hl : (Item.list (.ofList [f])).Reachable := .listOf (by simpa using hf)
  have hd : (Item.document ⟨#[f.segment]⟩).Reachable :=
    .documentPush .emptyDocument (.fieldSegment hf) rfl
  have hm : ∀ length, (Item.message (m length)).Reachable :=
    fun length => .attach (name length) (.command "c") hf
  have hentries : ∀ length, (m length).attachments.entries.toList = [(name length, f)] := by
    intro length
    have hkeys : ([(name length, f)].map Prod.fst).Nodup := List.nodup_singleton (name length)
    exact (FieldMap.ofList_of_nodup hkeys).2
  have hkeys : ∀ length, (m length).attachments.keys = [name length] := by
    intro length
    rw [FieldMap.keys, hentries]
    rfl
  have hlong : ∃ key ∈ (m 65536).attachments.keys, maxRegular < key.utf8ByteSize := by
    refine ⟨name 65536, ?_, ?_⟩
    · rw [hkeys]
      exact List.mem_singleton_self _
    · rw [hname]
      decide
  have hsize : (m 65535).size = 65559 := by
    have hlength : (m 65535).attachments.length = 1 := by
      rw [FieldMap.length, ← Array.length_toList, hentries]
      rfl
    rw [Message.size, FieldMap.size, foldl_add_eq_sum, hentries, FieldMap.indexTag, hlength]
    simp only [List.map_cons, List.map_nil, List.sum_cons, List.sum_nil, hname]
    -- the command takes four bytes, the index three, and so does the number
    show 2 + 4 + (3 + (encodedLength .string 65535 + 3 + 0)) + 9 = 65559
    rfl
  obtain ⟨-, hlist, hdocument, hmap, hmessage⟩ := sizes_exact
  refine ⟨?_, hdocument _ hd, ?_, (hmap _ (hm 65536).attachments).2.2 hlong,
    (hmessage _ (hm 65536)).2.2 hlong⟩
  · obtain ⟨e, hflatten, hlength⟩ := hlist _ hl
    exact ⟨e, hflatten, hlength (by decide)⟩
  · obtain ⟨hiff, hlength, -⟩ := hmessage _ (hm 65535)
    obtain ⟨e, hflatten⟩ := hiff.mpr (by rw [hkeys, List.forall_mem_singleton, hname]; decide)
    refine ⟨e, hflatten, ?_⟩
    rw [hlength e hflatten (by rw [hsize]; decide), hsize]

end SegmentWire
