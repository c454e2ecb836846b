import SegmentWire.Proofs.CanonicalForm
import SegmentWire.Proofs.TypedBuilding

/-!
# Canonical messages and documents

A field, a map, a message and a document have canonical forms too: every segment in them is brought to its
own. Nothing else changes, so that the index of a map still agrees with its pairs.

* **`Field.canonical`**, **`FieldMap.canonical`**, **`Message.canonical`**, **`Document.canonical`** — the
  forms; **`Segment.kind_canonical`** is why they are fields and documents again.
* **`Message.canonical_eq_iff`**, **`Document.canonical_eq_iff`** — they change nothing exactly if every
  part is canonical.
-/

namespace SegmentWire

namespace Segment

/-- The canonical form is of the same kind. -/
theorem kind_canonical (s : Segment) : s.canonical.tag.kind = s.tag.kind := by
  have hclass : ∀ {c : Prop} [Decidable c] {small large : Segment},
      small.tag.kind = large.tag.kind → (if c then small else large).tag.kind = large.tag.kind := by
    intro c _ small large hkind
    split
    · exact hkind
    · rfl
  obtain ⟨tag, payload⟩ := s
  cases tag with
  | hugeString => exact hclass rfl
  | hugeBinary => exact hclass rfl
  | largeList => exact hclass rfl
  | largeMap => exact hclass rfl
  | _ => rfl

theorem isContainer_canonical (s : Segment) :
    s.canonical.tag.isContainer = s.tag.isContainer := by
  rw [Bool.eq_iff_iff, Tag.isContainer_eq_true_iff, Tag.isContainer_eq_true_iff, kind_canonical]

end Segment

/-- The field with its segment in the canonical form. -/
def Field.canonical (f : Field) : Field :=
  ⟨f.segment.canonical, f.segment.isContainer_canonical.trans f.plain⟩

/-- The map with all its values in the canonical form. -/
def FieldMap.canonical (m : FieldMap) : FieldMap :=
  { m with entries := m.entries.map fun pair => (pair.1, pair.2.canonical) }

/-- The message with all its attachments in the canonical form. -/
def Message.canonical (m : Message) : Message := { m with attachments := m.attachments.canonical }

/-- The document with all its members in the canonical form. -/
def Document.canonical (d : Document) : Document := ⟨d.members.map Segment.canonical⟩

theorem FieldMap.entries_canonical (m : FieldMap) : m.canonical.entries.toList =
    m.entries.toList.map fun pair => (pair.1, pair.2.canonical) :=
  Array.toList_map

theorem Document.members_canonical (d : Document) :
    d.canonical.members.toList = d.members.toList.map Segment.canonical :=
  Array.toList_map

theorem FieldMap.Indexed.canonical {m : FieldMap} (h : m.Indexed) : m.canonical.Indexed := by
  intro key place
  have hkey : (m.canonical.entries[place]?).map Prod.fst = (m.entries[place]?).map Prod.fst := by
    rw [FieldMap.canonical, Array.getElem?_map, Option.map_map]
    rfl
  rw [hkey]
  exact h key place

/-- Mapping leaves a list as it is exactly if it leaves every item. -/
theorem map_eq_self_iff {α : Type} {f : α → α} {items : List α} :
    items.map f = items ↔ ∀ a ∈ items, f a = a := by
  conv_lhs => rhs; rw [← List.map_id items]
  exact List.map_inj_left

theorem Field.canonical_eq_iff {f : Field} (h : f.segment.Fits) :
    f.canonical = f ↔ f.segment.Canonical := by
  rw [← h.canonical_eq_iff]
  constructor
  · exact congrArg Field.segment
  · obtain ⟨segment, plain⟩ := f
    intro heq
    simpa [Field.canonical] using heq

/-- **A message is in the canonical form exactly if all its attachments are.** -/
theorem Message.canonical_eq_iff {m : Message} (h : m.attachments.Sound) :
    m.canonical = m ↔ ∀ pair ∈ m.attachments.entries.toList, pair.2.segment.Canonical := by
  have hpair : ∀ pair ∈ m.attachments.entries.toList,
      (pair.1, pair.2.canonical) = pair ↔ pair.2.segment.Canonical := by
    rintro ⟨name, f⟩ hmem
    rw [← Field.canonical_eq_iff (h.values_fit _ hmem)]
    exact Prod.mk_right_inj
  have hentries := m.attachments.entries_canonical
  constructor
  · intro heq pair hmem
    have hsame : m.attachments.canonical = m.attachments := congrArg Message.attachments heq
    rw [hsame] at hentries
    exact (hpair pair hmem).mp (map_eq_self_iff.mp hentries.symm pair hmem)
  · intro hcanonical
    rw [map_eq_self_iff.mpr fun pair hmem => (hpair pair hmem).mpr (hcanonical pair hmem)] at hentries
    obtain ⟨command, entries, positions⟩ := m
    exact congrArg (fun entries => Message.mk command ⟨entries, positions⟩) (Array.toList_inj.mp hentries)

/-- **A document is in the canonical form exactly if all its members are.** -/
theorem Document.canonical_eq_iff {d : Document} (h : d.Sound) :
    d.canonical = d ↔ ∀ s ∈ d.members.toList, s.Canonical := by
  have hmembers := d.members_canonical
  constructor
  · intro heq s hmem
    rw [heq] at hmembers
    exact (h.members_fit s hmem).canonical_eq_iff.mp (map_eq_self_iff.mp hmembers.symm s hmem)
  · intro hcanonical
    rw [map_eq_self_iff.mpr fun s hmem =>
      (h.members_fit s hmem).canonical_eq_iff.mpr (hcanonical s hmem)] at hmembers
    exact congrArg Document.mk (Array.toList_inj.mp hmembers)

end SegmentWire
