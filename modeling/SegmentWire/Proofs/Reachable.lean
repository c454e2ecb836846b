import SegmentWire.Json.Envelopes
import SegmentWire.Proofs.Loops
import SegmentWire.Proofs.Representation
import SegmentWire.Proofs.TypedValues
import SegmentWire.Stream

/-!
# What operations can build

There are many ways to a segment: values are converted to it and stored in it, parts are put together,
bytes are decoded and JSON is read. Some of them check the payload against the tag and others do not,
because they cannot get it wrong. From segments come fields, and from both come the containers and the
envelopes.

* **`Item.Reachable`** — what some sequence of operations makes.
* **`Item.Sound`** — payloads fit their tags, the index of a map agrees with its pairs, and no member of
  a document is an end marker.
* **`readItem_sound`** — whatever is decoded is sound; **`Item.Reachable.sound`** — so is all that is
  reachable, by induction on how it was made.
* **`representation_invariant`** — what this says about accessors and about writing.
* **`Item.Reachable.encodable`** — but for the length of the keys, all that is reachable has an encoding.
-/

namespace SegmentWire

-- ── Ways to build ────────────────────────────────────────────────────────────────

/-- The items that some sequence of operations makes. -/
inductive Item.Reachable : Item → Prop
  -- a value as a segment: made as such, or set in a segment that is made for it, or in any other
  | ofValue (v : Value) : Reachable (.segment (.ofValue v))
  | setBlank (v : Value) : Reachable (.segment (Segment.blank.set v))
  | set {s : Segment} (v : Value) : Reachable (.segment s) → Reachable (.segment (s.set v))
  | ofParts {tag : Tag} {payload : Bytes} {s : Segment} :
      Segment.ofParts tag payload = .ok s → Reachable (.segment s)
  | segmentOfJson {value : Json} {s : Segment} :
      Segment.ofJson value = .ok s → Reachable (.segment s)
  | fieldSegment {f : Field} : Reachable (.field f) → Reachable (.segment f.segment)
  | documentMember {d : Document} {s : Segment} :
      Reachable (.document d) → s ∈ d.members → Reachable (.segment s)
  -- an item of any kind, read from any source within any limits
  | read {kind : ItemKind} {limits : Limits} {source rest : Source} {item : Item} :
      readItem kind limits source = .ok (item, rest) → Reachable item
  -- a field: checked, converted without a check, or taken out of a container
  | fieldOfSegment {s : Segment} {f : Field} :
      Reachable (.segment s) → Field.ofSegment s = .ok f → Reachable (.field f)
  | fieldOfValue (v : Value) (h : v.kind.isPlain = true) : Reachable (.field (.ofValue v h))
  | fieldOfJson {value : Json} {f : Field} : Field.ofJson value = .ok f → Reachable (.field f)
  | listItem {l : FieldList} {f : Field} :
      Reachable (.list l) → f ∈ l.items → Reachable (.field f)
  | mapValue {m : FieldMap} {pair : String × Field} :
      Reachable (.map m) → pair ∈ m.entries → Reachable (.field pair.2)
  | lookedUp {m : FieldMap} {key : String} {f : Field} :
      Reachable (.map m) → m.get? key = some f → Reachable (.field f)
  | replaced {m : FieldMap} {key : String} {value f : Field} :
      Reachable (.map m) → (m.exchange key value).1 = some f → Reachable (.field f)
  | withdrawn {m : FieldMap} {key : String} {f : Field} :
      Reachable (.map m) → (m.withdraw key).1 = some f → Reachable (.field f)
  -- a container: of any members, empty ones included, or with one member more or less
  | listOf {items : List Field} :
      (∀ f ∈ items, Reachable (.field f)) → Reachable (.list (.ofList items))
  | push {l : FieldList} {f : Field} :
      Reachable (.list l) → Reachable (.field f) → Reachable (.list (l.push f))
  | mapOf {pairs : List (String × Field)} :
      (∀ pair ∈ pairs, Reachable (.field pair.2)) → Reachable (.map (.ofList pairs))
  | exchange {m : FieldMap} (key : String) {value : Field} :
      Reachable (.map m) → Reachable (.field value) → Reachable (.map (m.exchange key value).2)
  | withdraw {m : FieldMap} (key : String) :
      Reachable (.map m) → Reachable (.map (m.withdraw key).2)
  | attachments {m : Message} : Reachable (.message m) → Reachable (.map m.attachments)
  -- an envelope
  | emptyDocument : Reachable (.document {})
  | documentPush {d d' : Document} {s : Segment} :
      Reachable (.document d) → Reachable (.segment s) → d.push s = .ok d' →
      Reachable (.document d')
  | documentOfJson {value : Json} {d : Document} :
      Document.ofJson value = .ok d → Reachable (.document d)
  | command (command : String) : Reachable (.message { command })
  | setCommand {m : Message} (command : String) :
      Reachable (.message m) → Reachable (.message { m with command })
  | attach {m : Message} (name : String) {value : Field} :
      Reachable (.message m) → Reachable (.field value) →
      Reachable (.message (m.exchange name value).2)
  | attachSegment {m m' : Message} {name : String} {s : Segment} :
      Reachable (.message m) → Reachable (.segment s) → m.attachSegment name s = .ok m' →
      Reachable (.message m')
  | detach {m : Message} (name : String) :
      Reachable (.message m) → Reachable (.message (m.withdraw name).2)
  | messageOfJson {value : Json} {m : Message} :
      Message.ofJson value = .ok m → Reachable (.message m)
  | messageOfJsonText {text : String} {m : Message} :
      Message.ofJsonText text = .ok m → Reachable (.message m)

-- ── Soundness ────────────────────────────────────────────────────────────────────

/-- The index agrees with the pairs, and the payloads of the values fit. -/
structure FieldMap.Sound (m : FieldMap) : Prop where
  indexed : m.Indexed
  values_fit : ∀ pair ∈ m.entries.toList, pair.2.segment.Fits

/-- No member is an end marker, and the payloads of all members fit. -/
structure Document.Sound (d : Document) : Prop where
  closed : d.Closed
  members_fit : ∀ s ∈ d.members.toList, s.Fits

/-- What every operation keeps. That the members of containers are no container indices goes without
    saying, since they are fields. -/
def Item.Sound : Item → Prop
  | segment s => s.Fits
  | field f => f.segment.Fits
  | list l => ∀ f ∈ l.items.toList, f.segment.Fits
  | map m => m.Sound
  | document d => d.Sound
  | message m => m.attachments.Sound

namespace Segment

/-- **The segment of a value fits.** Every number is stored in as many bytes as its tag fixes, and texts
    and bytes are in the regular size class only if they are short enough for it. -/
theorem ofValue_fits (v : Value) : (ofValue v).Fits := by
  cases v with
  | text t => exact ofText_fits t
  | binary bytes => exact fits_of_class rfl rfl bytes
  | listIndex count => exact (listIndex_wellFormed count).fits
  | mapIndex count => exact (mapIndex_wellFormed count).fits
  | documentStart version => exact fits_of_fixed rfl rfl
  | bool b => exact fits_of_fixed rfl rfl
  | _ => exact fits_of_fixed rfl (length_bigEndian _ _)

theorem fits_of_ofTyped {v : TypedValue} {s : Segment} (h : ofTyped v = .ok s) : s.Fits := by
  obtain ⟨value, -, rfl⟩ := TypedValue.makes_iff.mp h
  exact ofValue_fits value

theorem fits_of_ofJson {value : Json} {s : Segment} (h : ofJson value = .ok s) : s.Fits := by
  rw [ofJson] at h
  split at h
  · exact fits_of_ofTyped h
  · cases h

end Segment

/-- A segment makes a field, namely itself, unless it is a container index. -/
theorem Field.ofSegment_eq_ok_iff {s : Segment} {f : Field} :
    ofSegment s = .ok f ↔ f.segment = s ∧ s.tag.isContainer = false := by
  rw [ofSegment]
  constructor
  · intro h
    split at h
    · next hplain =>
      cases h
      exact ⟨rfl, hplain⟩
    · cases h
  · rintro ⟨rfl, hplain⟩
    exact dif_pos hplain

theorem Field.fits_of_ofJson {value : Json} {f : Field} (h : ofJson value = .ok f) :
    f.segment.Fits := by
  obtain ⟨s, hsegment, hfield⟩ := bind_eq_ok_iff.mp h
  rw [(ofSegment_eq_ok_iff.mp hfield).1]
  exact Segment.fits_of_ofJson hsegment

namespace FieldMap

variable {m : FieldMap}

theorem sound_empty : empty.Sound := ⟨indexed_empty, nofun⟩

/-- A value that is found stands among the pairs. -/
theorem Sound.get? (h : m.Sound) {key : String} {f : Field} (hget : m.get? key = some f) :
    f.segment.Fits :=
  h.values_fit (key, f) (h.indexed.get?_eq_some_iff.mp hget)

/-- An insertion adds the new value to the old ones, or puts it in the place of one that it gives
    back. -/
theorem Sound.exchange (h : m.Sound) (key : String) (value : Field) :
    (value.segment.Fits → (m.exchange key value).2.Sound) ∧
      ∀ f, (m.exchange key value).1 = some f → f.segment.Fits := by
  cases hplace : m.position? key with
  | none =>
      constructor
      · intro hvalue
        refine ⟨h.indexed.exchange key value, ?_⟩
        rw [FieldMap.exchange, hplace]
        intro pair hpair
        rcases Array.mem_push.mp (Array.mem_toList_iff.mp hpair) with hpair | rfl
        · exact h.values_fit pair (Array.mem_toList_iff.mpr hpair)
        · exact hvalue
      · intro f hf
        rw [FieldMap.exchange, hplace] at hf
        cases hf
  | some place =>
      obtain ⟨front, old, back, hsplit, rfl, -⟩ := h.indexed.split hplace
      obtain ⟨hgiven, hentries⟩ := exchange_of_split hplace hsplit value
      have hold := h.values_fit
      rw [hsplit, List.forall_mem_append, List.forall_mem_cons] at hold
      obtain ⟨hfront, hreplaced, hback⟩ := hold
      constructor
      · intro hvalue
        refine ⟨h.indexed.exchange key value, ?_⟩
        rw [hentries, List.forall_mem_append, List.forall_mem_cons]
        exact ⟨hfront, hvalue, hback⟩
      · intro f hf
        cases hgiven.symm.trans hf
        exact hreplaced

/-- A withdrawal leaves the other values and gives back the one that it takes out. -/
theorem Sound.withdraw (h : m.Sound) (key : String) :
    (m.withdraw key).2.Sound ∧ ∀ f, (m.withdraw key).1 = some f → f.segment.Fits := by
  cases hplace : m.position? key with
  | none =>
      rw [FieldMap.withdraw, hplace]
      refine ⟨h, fun f hf => ?_⟩
      cases hf
  | some place =>
      obtain ⟨front, old, back, hsplit, rfl, -⟩ := h.indexed.split hplace
      obtain ⟨hgiven, hentries⟩ := withdraw_of_split hplace hsplit
      have hold := h.values_fit
      rw [hsplit, List.forall_mem_append, List.forall_mem_cons] at hold
      obtain ⟨hfront, hreplaced, hback⟩ := hold
      refine ⟨⟨h.indexed.withdraw key, ?_⟩, ?_⟩
      · rw [hentries, List.forall_mem_append]
        exact ⟨hfront, hback⟩
      · intro f hf
        cases hgiven.symm.trans hf
        exact hreplaced

/-- Insertions one after the other. -/
theorem Sound.foldl (h : m.Sound) {pairs : List (String × Field)}
    (hpairs : ∀ pair ∈ pairs, pair.2.segment.Fits) :
    (pairs.foldl (fun m pair => m.insert pair.1 pair.2) m).Sound := by
  induction pairs generalizing m with
  | nil => exact h
  | cons pair pairs ih =>
      obtain ⟨hpair, hpairs⟩ := List.forall_mem_cons.mp hpairs
      exact ih ((h.exchange pair.1 pair.2).1 hpair) hpairs

end FieldMap

namespace Document

theorem Sound.push {d d' : Document} {s : Segment} (h : d.Sound) (hs : s.Fits)
    (hpush : d.push s = .ok d') : d'.Sound := by
  obtain ⟨htag, rfl⟩ := push_eq_ok_iff.mp hpush
  constructor
  · intro s' hs'
    rcases Array.mem_push.mp hs' with hs' | rfl
    · exact h.closed s' hs'
    · exact htag
  · intro s' hs'
    rcases Array.mem_push.mp (Array.mem_toList_iff.mp hs') with hs' | rfl
    · exact h.members_fit s' (Array.mem_toList_iff.mpr hs')
    · exact hs

theorem sound_empty : Sound {} := ⟨nofun, nofun⟩

theorem sound_of_ofJson {value : Json} {d : Document} (h : ofJson value = .ok d) : d.Sound := by
  rw [ofJson] at h
  split at h
  · refine foldlM_keeps (P := Sound) ?_ sound_empty h
    intro d v d' hd hstep
    obtain ⟨s, hsegment, hpush⟩ := bind_eq_ok_iff.mp hstep
    exact hd.push (Segment.fits_of_ofTyped hsegment) hpush
  · cases h

end Document

namespace Message

theorem sound_attachSegment {m m' : Message} {name : String} {s : Segment} (h : m.attachments.Sound)
    (hs : s.Fits) (hattach : m.attachSegment name s = .ok m') : m'.attachments.Sound := by
  obtain ⟨f, hfield, hresult⟩ := bind_eq_ok_iff.mp hattach
  cases hresult
  rw [← (Field.ofSegment_eq_ok_iff.mp hfield).1] at hs
  exact (h.exchange name f).1 hs

theorem sound_of_ofJson {value : Json} {m : Message} (h : ofJson value = .ok m) :
    m.attachments.Sound := by
  rw [ofJson] at h
  split at h
  · refine foldlM_keeps (P := fun m => m.attachments.Sound) ?_ FieldMap.sound_empty h
    intro m attachment m' hm hstep
    obtain ⟨-, hstep⟩ := unless_eq_ok_iff.mp hstep
    obtain ⟨s, hsegment, hattach⟩ := bind_eq_ok_iff.mp hstep
    exact sound_attachSegment hm (Segment.fits_of_ofTyped hsegment) hattach
  · cases h

theorem sound_of_ofJsonText {text : String} {m : Message} (h : ofJsonText text = .ok m) :
    m.attachments.Sound := by
  rw [ofJsonText] at h
  split at h
  · exact sound_of_ofJson h
  · cases h

end Message

-- ── What is decoded ──────────────────────────────────────────────────────────────

theorem Segment.Admitted.fits {limits : Limits} {s : Segment} (h : s.Admitted limits) : s.Fits :=
  h.wellFormed.fits

theorem FieldMap.Admitted.sound {limits : Limits} {m : FieldMap} (h : m.Admitted limits) : m.Sound :=
  ⟨h.indexed, fun pair hpair => (h.pairs pair hpair).2.fits⟩

/-- **Whatever is decoded is sound**, from any source and within any limits. -/
theorem readItem_sound {kind : ItemKind} {limits : Limits} {source rest : Source} {item : Item}
    (h : readItem kind limits source = .ok (item, rest)) : item.Sound := by
  cases kind with
  | segment =>
      obtain ⟨s, hread, rfl⟩ := Reader.map_eq_ok h
      obtain ⟨_, ⟨hadmitted, -⟩, -⟩ := (readSegment_decodes limits _ _ _).mp ⟨rest, hread, rfl⟩
      exact hadmitted.fits
  | field =>
      obtain ⟨f, hread, rfl⟩ := Reader.map_eq_ok h
      obtain ⟨_, ⟨hadmitted, -⟩, -⟩ := (readField_decodes limits _ _ _).mp ⟨rest, hread, rfl⟩
      exact hadmitted.fits
  | list =>
      obtain ⟨l, hread, rfl⟩ := Reader.map_eq_ok h
      obtain ⟨_, ⟨hadmitted, -⟩, -⟩ := (readList_decodes limits _ _ _).mp ⟨rest, hread, rfl⟩
      intro f hf
      exact (hadmitted.items f hf).fits
  | map =>
      obtain ⟨m, hread, rfl⟩ := Reader.map_eq_ok h
      obtain ⟨_, ⟨hadmitted, -⟩, -⟩ := (readMap_decodes limits _ _ _).mp ⟨rest, hread, rfl⟩
      exact hadmitted.sound
  | document =>
      obtain ⟨d, hread, rfl⟩ := Reader.map_eq_ok h
      obtain ⟨_, ⟨hadmitted, -⟩, -⟩ := (readDocument_decodes limits _ _ _).mp ⟨rest, hread, rfl⟩
      exact ⟨hadmitted.closed, fun s hs => (hadmitted.members s hs).fits⟩
  | message =>
      obtain ⟨m, hread, rfl⟩ := Reader.map_eq_ok h
      obtain ⟨_, ⟨hadmitted, -⟩, -⟩ := (readMessage_decodes limits _ _ _).mp ⟨rest, hread, rfl⟩
      exact hadmitted.attachments.sound

-- ── All that is reachable ────────────────────────────────────────────────────────

/-- **All that is reachable is sound.** The induction is on how the item was made, with one case a way;
    what an operation starts from is sound by the induction hypothesis. -/
theorem Item.Reachable.sound {item : Item} (h : item.Reachable) : item.Sound := by
  induction h with
  | ofValue v => exact Segment.ofValue_fits v
  | setBlank v =>
      rw [Segment.set_eq]
      exact Segment.ofValue_fits v
  | set v _ _ =>
      rw [Segment.set_eq]
      exact Segment.ofValue_fits v
  | ofParts h => exact (Segment.ofParts_eq_ok_iff.mp h).2
  | segmentOfJson h => exact Segment.fits_of_ofJson h
  | fieldSegment _ ih => exact ih
  | documentMember _ hs ih => exact ih.members_fit _ (Array.mem_toList_iff.mpr hs)
  | read h => exact readItem_sound h
  | fieldOfSegment _ h ih =>
      rw [← (Field.ofSegment_eq_ok_iff.mp h).1] at ih
      exact ih
  | fieldOfValue v _ => exact Segment.ofValue_fits v
  | fieldOfJson h => exact Field.fits_of_ofJson h
  | listItem _ hf ih => exact ih _ (Array.mem_toList_iff.mpr hf)
  | mapValue _ hpair ih => exact ih.values_fit _ (Array.mem_toList_iff.mpr hpair)
  | lookedUp _ hget ih => exact ih.get? hget
  | replaced _ hgiven ih => exact (ih.exchange _ _).2 _ hgiven
  | withdrawn _ hgiven ih => exact (ih.withdraw _).2 _ hgiven
  | listOf _ ih => exact ih
  | push _ _ ihl ihf =>
      intro f hf
      rcases Array.mem_push.mp (Array.mem_toList_iff.mp hf) with hf | rfl
      · exact ihl f (Array.mem_toList_iff.mpr hf)
      · exact ihf
  | mapOf _ ih => exact FieldMap.sound_empty.foldl ih
  | exchange key _ _ ihm ihf => exact (ihm.exchange key _).1 ihf
  | withdraw key _ ih => exact (ih.withdraw key).1
  | attachments _ ih => exact ih
  | emptyDocument => exact Document.sound_empty
  | documentPush _ _ hpush ihd ihs => exact ihd.push ihs hpush
  | documentOfJson h => exact Document.sound_of_ofJson h
  | command _ => exact FieldMap.sound_empty
  | setCommand _ _ ih => exact ih
  | attach name _ _ ihm ihf => exact (ihm.exchange name _).1 ihf
  | attachSegment _ _ hattach ihm ihs => exact Message.sound_attachSegment ihm ihs hattach
  | detach name _ ih => exact (ih.withdraw name).1
  | messageOfJson h => exact Message.sound_of_ofJson h
  | messageOfJsonText h => exact Message.sound_of_ofJsonText h

/-- **The representation invariant.** However a segment was made and whatever was stored in it since, its
    payload has the width that its tag fixes, or at most 65535 bytes if it is a regular string or binary.
    A segment is taken for a field exactly if it is no container index, and the values that become
    fields without a check would pass it, so that no member of a list, a map or a message is such an
    index. No member of a document is an end marker. Therefore no value is ever refused for the width of
    a payload, neither where it is looked up nor where a segment is read, and every segment, list and
    document can be written. -/
theorem representation_invariant :
    (∀ s : Segment, (Item.segment s).Reachable →
      (∀ width, s.tag.fixedWidth = some width → s.payload.length = width) ∧
      (s.tag = .string ∨ s.tag = .binary → s.payload.length ≤ maxRegular) ∧
      (∀ kind, Spares .sizeMismatch (s.get kind)) ∧ ∃ e, s.flatten = .ok e) ∧
    (∀ (s : Segment) (f : Field),
      Field.ofSegment s = .ok f ↔ f.segment = s ∧ s.tag.isContainer = false) ∧
    (∀ (v : Value) (h : v.kind.isPlain = true),
      Field.ofSegment (.ofValue v) = .ok (.ofValue v h)) ∧
    (∀ f : Field, (Item.field f).Reachable →
      f.segment.tag.isContainer = false ∧ (Item.segment f.segment).Reachable) ∧
    (∀ l : FieldList, (Item.list l).Reachable →
      (∀ f ∈ l.items.toList, f.segment.tag.isContainer = false ∧
        (Item.segment f.segment).Reachable) ∧ ∃ e, l.flatten = .ok e) ∧
    (∀ m : FieldMap, (Item.map m).Reachable →
      ∀ pair ∈ m.entries.toList, pair.2.segment.tag.isContainer = false ∧
        (Item.segment pair.2.segment).Reachable) ∧
    (∀ m : Message, (Item.message m).Reachable →
      (∀ pair ∈ m.attachments.entries.toList, pair.2.segment.tag.isContainer = false ∧
        (Item.segment pair.2.segment).Reachable) ∧
      ∀ name kind, Spares .sizeMismatch (m.get name kind)) ∧
    (∀ d : Document, (Item.document d).Reachable →
      (∀ s ∈ d.members.toList, s.tag ≠ .documentEnd ∧ (Item.segment s).Reachable) ∧
        ∃ e, d.flatten = .ok e) ∧
    ∀ limits, readSegment.Spares .sizeMismatch limits := by
  have hvalue : ∀ {m : FieldMap}, (Item.map m).Reachable → ∀ pair ∈ m.entries.toList,
      pair.2.segment.tag.isContainer = false ∧ (Item.segment pair.2.segment).Reachable := by
    intro m h pair hpair
    exact ⟨pair.2.plain, .fieldSegment (.mapValue h (Array.mem_toList_iff.mp hpair))⟩
  refine ⟨?_, fun s f => Field.ofSegment_eq_ok_iff, fun v h => Field.ofSegment_ofValue h, ?_, ?_,
    fun m h => hvalue h, ?_, ?_, fun limits => readSegment_spares⟩
  · intro s h
    have hfits : s.Fits := h.sound
    exact ⟨hfits.width, hfits.regular, hfits.spares_get, _, hfits.flatten_eq⟩
  · intro f h
    exact ⟨f.plain, .fieldSegment h⟩
  · intro l h
    refine ⟨fun f hf => ⟨f.plain, ?_⟩, _, FieldList.flatten_eq h.sound⟩
    exact .fieldSegment (.listItem h (Array.mem_toList_iff.mp hf))
  · intro m h
    refine ⟨hvalue h.attachments, fun name kind => ?_⟩
    have hsound : m.attachments.Sound := h.sound
    refine Spares.bind ?_ fun f hf => ?_
    · rw [Message.attachment]
      split
      · exact spares_ok _
      · exact spares_error (by rintro ⟨⟩)
    · rw [Message.attachment] at hf
      split at hf
      · next hget =>
        cases hf
        exact (hsound.get? hget).spares_get kind
      · cases hf
  · intro d h
    have hsound : d.Sound := h.sound
    refine ⟨fun s hs => ?_, _, Document.flatten_eq hsound.members_fit⟩
    have hmem : s ∈ d.members := Array.mem_toList_iff.mp hs
    exact ⟨hsound.closed s hmem, .documentMember h hmem⟩

/-- A segment that was an index and a text before it holds a number, a list of it, a message with it
    attached and a document of it are all reachable. -/
theorem representation_invariant_stored_twice :
    let s := ((Segment.blank.set (.mapIndex 70000)).set (.text "ab")).set (.int16 (-2))
    let f : Field := ⟨s, rfl⟩
    let m : Message := (Message.exchange { command := "c" } "k" f).2
    ((Item.segment s).Reachable ∧ s.payload.length = 2 ∧ (∃ e, s.flatten = .ok e) ∧
      Spares .sizeMismatch (s.get .text)) ∧
    ((Item.field f).Reachable ∧ f.segment.tag.isContainer = false) ∧
    ((Item.list (.ofList [f])).Reachable ∧ ∃ e, (FieldList.ofList [f]).flatten = .ok e) ∧
    ((Item.map m.attachments).Reachable ∧
      ∀ pair ∈ m.attachments.entries.toList, pair.2.segment.tag.isContainer = false) ∧
    ((Item.message m).Reachable ∧ Spares .sizeMismatch (m.get "k" .int8)) ∧
    ∃ d : Document, (Item.document d).Reachable ∧ d.members.toList = [s] ∧
      ∃ e, d.flatten = .ok e := by
  intro s f m
  have hs : (Item.segment s).Reachable := .set _ (.set _ (.setBlank _))
  have hf : (Item.field f).Reachable :=
    .fieldOfSegment hs (Field.ofSegment_eq_ok_iff.mpr ⟨rfl, rfl⟩)
  have hl : (Item.list (.ofList [f])).Reachable := .listOf (by simpa using hf)
  have hm : (Item.message m).Reachable := .attach "k" (.command "c") hf
  have hd : (Item.document ⟨#[s]⟩).Reachable := .documentPush .emptyDocument hs rfl
  obtain ⟨hsegment, -, -, hfield, hlist, hmap, hmessage, hdocument, -⟩ := representation_invariant
  obtain ⟨hwidth, -, hget, hflatten⟩ := hsegment s hs
  refine ⟨⟨hs, hwidth 2 rfl, hflatten, hget .text⟩, ⟨hf, (hfield f hf).1⟩, ⟨hl, (hlist _ hl).2⟩,
    ⟨.attachments hm, ?_⟩, ⟨hm, (hmessage m hm).2 "k" .int8⟩, ⟨_, hd, rfl, (hdocument _ hd).2⟩⟩
  intro pair hpair
  exact (hmap _ (.attachments hm) pair hpair).1

-- ── What has an encoding ─────────────────────────────────────────────────────────

/-- **What is reachable has an encoding**, as long as its parts can be counted: payloads and members in
    eight bytes, and the bytes of a key in two. -/
theorem Item.Reachable.encodable :
    (∀ s : Segment, (Item.segment s).Reachable → s.payload.length ≤ maxWord → s.WellFormed) ∧
    (∀ l : FieldList, (Item.list l).Reachable →
      (∀ f ∈ l.items.toList, f.segment.payload.length ≤ maxWord) → l.length ≤ maxWord →
      l.Encodable) ∧
    (∀ m : FieldMap, (Item.map m).Reachable →
      (∀ pair ∈ m.entries.toList, pair.1.utf8ByteSize ≤ maxRegular ∧
        pair.2.segment.payload.length ≤ maxWord) → m.length ≤ maxWord → m.Encodable) ∧
    (∀ d : Document, (Item.document d).Reachable →
      (∀ s ∈ d.members.toList, s.payload.length ≤ maxWord) → d.length ≤ maxWord →
      d.Encodable) ∧
    ∀ m : Message, (Item.message m).Reachable →
      (∀ pair ∈ m.attachments.entries.toList, pair.1.utf8ByteSize ≤ maxRegular ∧
        pair.2.segment.payload.length ≤ maxWord) →
      m.command.utf8ByteSize ≤ maxWord → m.integrityCount ≤ maxWord → m.Encodable := by
  have hmap : ∀ m : FieldMap, (Item.map m).Reachable →
      (∀ pair ∈ m.entries.toList, pair.1.utf8ByteSize ≤ maxRegular ∧
        pair.2.segment.payload.length ≤ maxWord) → m.length ≤ maxWord → m.Encodable := by
    intro m h hpairs hlength
    have hsound : m.Sound := h.sound
    refine ⟨hsound.indexed, fun pair hpair => (hpairs pair hpair).1, ?_, hlength⟩
    intro pair hpair
    exact Segment.wellFormed_iff_fits.mpr ⟨hsound.values_fit pair hpair, (hpairs pair hpair).2⟩
  refine ⟨?_, ?_, hmap, ?_, ?_⟩
  · intro s h hlength
    exact Segment.wellFormed_iff_fits.mpr ⟨h.sound, hlength⟩
  · intro l h hitems hlength
    refine ⟨fun f hf => ?_, hlength⟩
    exact Segment.wellFormed_iff_fits.mpr ⟨h.sound f hf, hitems f hf⟩
  · intro d h hmembers hlength
    have hsound : d.Sound := h.sound
    refine ⟨hsound.closed, fun s hs => ?_, hlength⟩
    exact Segment.wellFormed_iff_fits.mpr ⟨hsound.members_fit s hs, hmembers s hs⟩
  · intro m h hpairs hcommand hcount
    refine ⟨hmap m.attachments h.attachments hpairs ?_, hcommand, hcount⟩
    rw [Message.integrityCount] at hcount
    omega

end SegmentWire
