import SegmentWire.Proofs.Failing

/-!
# The first offence of a container

Behind the index of a container any segments may stand, and a reader looks at them one after the other.
A pair of a map may be out of place in four ways, and they are looked for in this order: its key may be
no plain string, or no text, its value may be a container index, and its key may stand in front already.
An item of a list can only be a container index. The first member that is out of place is what the
reader reports, and it never looks at what stands behind it.

* **`Unoffending`**, **`FirstOffence`** — runs without a member that is out of place, and the others;
  **`unoffending_or_firstOffence`** says that there are no more.
* **`PairOffends`**, **`ItemOffends`** — what may be wrong with a member;
  **`unoffending_pairs_iff`** says that pairs without a fault are the entries of a map.
* **`readPairs_fails_of_offends`** — one round of the loop over pairs;
  **`readMap_fails_of_offends`**, **`readList_fails_of_offends`** — a whole container.
* **`containers_report_first_offence`** — maps and lists of any segments.
-/

namespace SegmentWire

-- ── Runs of members ──────────────────────────────────────────────────────────────

section Runs

variable {α : Type} {offends : List α → α → WireError → Prop} {run : List α} {a : α} {e : WireError}

/-- No member of the run is out of place behind those in front of it. -/
def Unoffending (offends : List α → α → WireError → Prop) (run : List α) : Prop :=
  ∀ front a back e, run = front ++ a :: back → ¬ offends front a e

/-- The first member of the run that is out of place is so for this reason. -/
def FirstOffence (offends : List α → α → WireError → Prop) (run : List α) (e : WireError) : Prop :=
  ∃ front a back, run = front ++ a :: back ∧ Unoffending offends front ∧ offends front a e

theorem unoffending_nil : Unoffending offends [] := by
  intro front a back e hsplit
  cases front <;> cases hsplit

/-- One more member stays in place if it is in place behind all the others. -/
theorem unoffending_concat_iff :
    Unoffending offends (run ++ [a]) ↔ Unoffending offends run ∧ ∀ e, ¬ offends run a e := by
  constructor
  · intro h
    refine ⟨fun front b back e hsplit => h front b (back ++ [a]) e ?_, fun e => h run a [] e rfl⟩
    rw [hsplit, List.append_assoc, List.cons_append]
  · rintro ⟨hrun, ha⟩ front b back e hsplit
    -- the member is the last one, or it stands in the run
    rcases List.eq_nil_or_concat back with rfl | ⟨back, last, rfl⟩
    · obtain ⟨rfl, hlast⟩ := List.append_inj' hsplit rfl
      cases hlast
      exact ha e
    · rw [List.concat_eq_append, ← List.cons_append, ← List.append_assoc] at hsplit
      exact hrun front b back e (List.append_inj' hsplit rfl).1

/-- In every other run some member is the first to be out of place. The induction is on the run, from
    its end. -/
theorem unoffending_or_firstOffence (run : List α) :
    Unoffending offends run ∨ ∃ e, FirstOffence offends run e := by
  induction run using List.reverseRecOn with
  | nil => exact Or.inl unoffending_nil
  | append_singleton run a ih =>
      rcases ih with hrun | ⟨e, front, b, back, rfl, hfront, hb⟩
      · by_cases ha : ∃ e, offends run a e
        · obtain ⟨e, ha⟩ := ha
          exact Or.inr ⟨e, run, a, [], rfl, hrun, ha⟩
        · exact Or.inl (unoffending_concat_iff.mpr ⟨hrun, not_exists.mp ha⟩)
      · refine Or.inr ⟨e, front, b, back ++ [a], ?_, hfront, hb⟩
        rw [List.append_assoc, List.cons_append]

/-- A reader that finds something behind every run without a fault, and reports the first offence of
    every other, reports nothing else. -/
theorem Reader.fails_iff_firstOffence {β : Type} {read : Reader β} {limits : Limits} {source : Source}
    {left : Bytes}
    (hfinds : Unoffending offends run → ∃ b, read.Finds limits source b left)
    (hfails : ∀ e, FirstOffence offends run e → read.Fails limits source e) :
    read.Fails limits source e ↔ FirstOffence offends run e := by
  refine ⟨fun h => ?_, hfails e⟩
  rcases unoffending_or_firstOffence run with hrun | ⟨e', hrun⟩
  · obtain ⟨b, hfound⟩ := hfinds hrun
    exact absurd h hfound.not_fails
  · have hfails' : read.runOn limits source = .error e' := hfails e' hrun
    obtain rfl : e' = e := Except.error.inj (hfails'.symm.trans h)
    exact hrun

end Runs

-- ── Pairs of a map ───────────────────────────────────────────────────────────────

/-- A pair of a map as the two segments that it is read from. -/
def FieldMap.parts (pair : String × Field) : Segment × Segment := (keySegment pair.1, pair.2.segment)

/-- A key and a value on the wire. -/
def pairMembers (pair : Segment × Segment) : List Segment := [pair.1, pair.2]

/-- What is wrong with a key and a value behind others. -/
inductive PairOffends (front : List (Segment × Segment)) : Segment × Segment → WireError → Prop
  /-- The key is something else than a plain string, or is a string of the other size class. -/
  | keyTag {key value : Segment} (h : key.tag ≠ .string) :
      PairOffends front (key, value) (.keyNotString key.tag)
  /-- The key is a plain string, but no text. -/
  | keyText {payload : Bytes} {value : Segment} (h : Utf8.decode? payload = none) :
      PairOffends front (⟨.string, payload⟩, value) (.notUtf8 .string)
  /-- The key is a text, but the value is the index of a container. -/
  | nested {key : String} {value : Segment} (h : value.tag.isContainer = true) :
      PairOffends front (keySegment key, value) (.nestedContainer value.tag)
  /-- Key and value are in order, but the key stands in front already. -/
  | repeated {key : String} {value : Segment} (hplain : value.tag.isContainer = false)
      (h : keySegment key ∈ front.map Prod.fst) :
      PairOffends front (keySegment key, value) (.duplicateKey key)

theorem keySegment_injective : Function.Injective keySegment := by
  intro key key' h
  have hkey : Utf8.decode? (Utf8.encode key) = some key := Utf8.decode?_eq_some_iff.mpr rfl
  have hkey' : Utf8.decode? (Utf8.encode key) = some key' :=
    Utf8.decode?_eq_some_iff.mpr (congrArg Segment.payload h)
  exact Option.some.inj (hkey.symm.trans hkey')

/-- A key stands among those of some entries if its segment stands among theirs. -/
theorem keySegment_mem_parts_iff {entries : List (String × Field)} {key : String} :
    keySegment key ∈ (entries.map FieldMap.parts).map Prod.fst ↔ key ∈ entries.map Prod.fst := by
  rw [List.map_map, show Prod.fst ∘ FieldMap.parts = keySegment ∘ Prod.fst from rfl, ← List.map_map]
  exact List.mem_map_of_injective keySegment_injective

variable {front pairs : List (Segment × Segment)} {pair : Segment × Segment} {e : WireError}

/-- A pair without a fault is a text with a field. -/
theorem exists_parts_of_not_offends (h : ∀ e, ¬ PairOffends front pair e) :
    ∃ entry, FieldMap.parts entry = pair ∧ pair.1 ∉ front.map Prod.fst := by
  obtain ⟨⟨tag, payload⟩, value⟩ := pair
  obtain rfl : tag = .string := by
    by_contra htag
    exact h _ (.keyTag htag)
  cases hdecode : Utf8.decode? payload with
  | none => exact absurd (.keyText hdecode) (h _)
  | some key =>
      obtain rfl := Utf8.decode?_eq_some_iff.mp hdecode
      have hplain : value.tag.isContainer = false := by
        by_contra hcontainer
        exact h _ (.nested (Bool.not_eq_false _ ▸ hcontainer))
      exact ⟨(key, ⟨value, hplain⟩), rfl, fun hmem => h _ (.repeated hplain hmem)⟩

/-- And the other way round: a text with a field is in order, if its key is new. -/
theorem not_offends_parts {entry : String × Field} (hnew : keySegment entry.1 ∉ front.map Prod.fst) :
    ¬ PairOffends front (FieldMap.parts entry) e := by
  intro h
  generalize hpair : FieldMap.parts entry = pair at h
  cases h with
  | keyTag htag =>
      cases hpair
      exact htag rfl
  | keyText hdecode =>
      cases hpair
      rw [Utf8.decode?_eq_some_iff.mpr rfl] at hdecode
      cases hdecode
  | nested hcontainer =>
      obtain ⟨-, rfl⟩ := Prod.mk.inj hpair
      exact Bool.false_ne_true (entry.2.plain.symm.trans hcontainer)
  | repeated _ hmem => exact hnew ((Prod.mk.inj hpair).1 ▸ hmem)

/-- **Pairs without a fault are the entries of a map.** The induction is on the pairs, from their end:
    the last one has to be in place behind the others. -/
theorem unoffending_pairs_iff :
    Unoffending PairOffends pairs ↔ ∃ entries : List (String × Field),
      entries.map FieldMap.parts = pairs ∧ (entries.map Prod.fst).Nodup := by
  constructor
  · intro h
    induction pairs using List.reverseRecOn with
    | nil => exact ⟨[], rfl, List.nodup_nil⟩
    | append_singleton pairs pair ih =>
        obtain ⟨hpairs, hpair⟩ := unoffending_concat_iff.mp h
        obtain ⟨entries, rfl, hnodup⟩ := ih hpairs
        obtain ⟨entry, rfl, hnew⟩ := exists_parts_of_not_offends hpair
        refine ⟨entries ++ [entry], List.map_append, ?_⟩
        rw [List.map_append, List.map_singleton, ← List.concat_eq_append]
        exact hnodup.concat (mt keySegment_mem_parts_iff.mpr hnew)
  · rintro ⟨entries, rfl, hnodup⟩
    induction entries using List.reverseRecOn with
    | nil => exact unoffending_nil
    | append_singleton entries entry ih =>
        rw [List.map_append, List.map_singleton] at hnodup ⊢
        obtain ⟨hfront, -, hnew⟩ := List.nodup_append.mp hnodup
        refine unoffending_concat_iff.mpr ⟨ih hfront, fun e => not_offends_parts fun hmem => ?_⟩
        exact hnew _ (keySegment_mem_parts_iff.mp hmem) _ (List.mem_singleton_self _) rfl

/-- So they are what a map is read from. -/
theorem exists_encodable_of_unoffending (h : Unoffending PairOffends pairs)
    (hpairs : ∀ pair ∈ pairs, pair.1.WellFormed ∧ pair.2.WellFormed)
    (hlength : pairs.length ≤ maxWord) :
    ∃ m : FieldMap, m.Encodable ∧ m.entries.toList.map FieldMap.parts = pairs := by
  obtain ⟨entries, rfl, hnodup⟩ := unoffending_pairs_iff.mp h
  rw [List.length_map] at hlength
  have hfit : ∀ entry ∈ entries, entry.1.utf8ByteSize ≤ maxRegular ∧ entry.2.segment.WellFormed := by
    intro entry hentry
    obtain ⟨hkey, hvalue⟩ := hpairs _ (List.mem_map_of_mem hentry)
    exact ⟨keySegment_wellFormed_iff.mp hkey, hvalue⟩
  obtain ⟨hm, hentries⟩ := FieldMap.encodable_ofList hnodup hfit hlength
  exact ⟨_, hm, congrArg (List.map FieldMap.parts) hentries⟩

theorem FieldMap.members_of_parts {m : FieldMap}
    (h : m.entries.toList.map FieldMap.parts = pairs) : m.members = pairs.flatMap pairMembers := by
  rw [← h, List.flatMap_map]
  rfl

theorem FieldMap.length_of_parts {m : FieldMap}
    (h : m.entries.toList.map FieldMap.parts = pairs) : m.length = pairs.length := by
  rw [← h, List.length_map, Array.length_toList]
  rfl

/-- A loop over pairs fails at a pair with a fault, if it has read those in front of it. -/
theorem readPairs_fails_of_offends {m : FieldMap} {source : Source} {left : Bytes} (more : Nat)
    (hm : m.Indexed) (hfront : m.entries.toList.map FieldMap.parts = front)
    (hkey : pair.1.WellFormed) (hvalue : pair.2.WellFormed) (h : PairOffends front pair e)
    (hpending : source.pending = pair.1.encoding ++ (pair.2.encoding ++ left)) :
    (readPairs (more + 1) m).Fails .unbounded source e := by
  have hadmitted := Segment.admitted_unbounded_iff.mpr hkey
  replace hvalue := Segment.admitted_unbounded_iff.mpr hvalue
  cases h with
  | keyTag htag => exact (readKey_fails_of_tag hadmitted htag hpending).bind
  | keyText hdecode =>
      refine Reader.Fails.bind (((readSegment_decodes _).finds ⟨hadmitted, rfl⟩ hpending).bind_fails
        fun rest _ => Reader.fails_lift_iff.mpr ?_)
      rw [Segment.text, hdecode]
      rfl
  | nested hcontainer =>
      refine ((readKey_decodes _).finds ⟨hadmitted, rfl⟩ hpending).bind_fails fun rest hrest => ?_
      exact (readField_fails_of_container hvalue hcontainer hrest).bind
  | @repeated key value hplain hmem =>
      refine ((readKey_decodes _).finds ⟨hadmitted, rfl⟩ hpending).bind_fails fun rest hrest => ?_
      have hfield : readField.Finds .unbounded rest ⟨value, hplain⟩ left :=
        (readField_decodes _).finds ⟨hvalue, rfl⟩ hrest
      rw [← hfront, keySegment_mem_parts_iff] at hmem
      exact hfield.bind_fails fun _ _ => Reader.fails_unless_of (hm.contains_iff.mpr hmem)

/-- **Pairs without a fault are read as the map that has them as its entries, in order.** -/
theorem readMap_finds_of_unoffending {index : Segment} {source : Source} {left : Bytes}
    (h : Unoffending PairOffends pairs)
    (hpairs : ∀ pair ∈ pairs, pair.1.WellFormed ∧ pair.2.WellFormed)
    (hindex : Segment.StatesCount .map .largeMap pairs.length index)
    (hpending : source.pending =
      (index :: pairs.flatMap pairMembers).flatMap Segment.encoding ++ left) :
    ∃ m : FieldMap, m.Indexed ∧ m.entries.toList.map FieldMap.parts = pairs ∧
      readMap.Finds .unbounded source m left := by
  obtain ⟨m, hm, hparts⟩ := exists_encodable_of_unoffending h hpairs hindex.le_maxWord
  rw [← FieldMap.length_of_parts hparts] at hindex
  refine ⟨m, hm.indexed, hparts, (readMap_decodes .unbounded).finds
    ⟨FieldMap.admitted_unbounded_iff.mpr hm, index, hindex, rfl⟩ ?_⟩
  rw [FieldMap.members_of_parts hparts]
  exact hpending

/-- **The first pair with a fault is what a map is refused for**, whatever stands behind it, and however
    many pairs the index states. -/
theorem readMap_fails_of_offends {index : Segment} {count : Nat} {source : Source} {left : Bytes}
    (hfront : Unoffending PairOffends front) (h : PairOffends front pair e)
    (hpairs : ∀ p ∈ front ++ [pair], p.1.WellFormed ∧ p.2.WellFormed)
    (hindex : Segment.StatesCount .map .largeMap count index) (hlt : front.length < count)
    (hpending : source.pending =
      (index :: (front ++ [pair]).flatMap pairMembers).flatMap Segment.encoding ++ left) :
    readMap.Fails .unbounded source e := by
  obtain ⟨hwellFormed, hpair⟩ := List.forall_mem_append.mp hpairs
  obtain ⟨hkey, hvalue⟩ := hpair pair (List.mem_singleton_self pair)
  obtain ⟨m, hm, hparts⟩ := exists_encodable_of_unoffending hfront hwellFormed
    (Nat.le_of_lt (Nat.lt_of_lt_of_le hlt hindex.le_maxWord))
  rw [← FieldMap.length_of_parts hparts] at hlt
  have hsplit : source.pending = (index :: m.members).flatMap Segment.encoding ++
      (pair.1.encoding ++ (pair.2.encoding ++ left)) := by
    rw [hpending, FieldMap.members_of_parts hparts]
    simp [pairMembers]
  exact hm.readMap_fails_of_next hindex hlt hsplit fun more rest hrest =>
    readPairs_fails_of_offends more hm.indexed hparts hkey hvalue h hrest

-- ── Items of a list ──────────────────────────────────────────────────────────────

/-- What is wrong with an item, whatever stands in front of it. -/
inductive ItemOffends (front : List Segment) : Segment → WireError → Prop
  /-- The item is the index of a container. -/
  | nested {s : Segment} (h : s.tag.isContainer = true) :
      ItemOffends front s (.nestedContainer s.tag)

theorem unoffending_items_iff {ss : List Segment} :
    Unoffending ItemOffends ss ↔ ∀ s ∈ ss, s.tag.isContainer = false := by
  constructor
  · intro h s hs
    obtain ⟨front, back, hsplit⟩ := List.append_of_mem hs
    by_contra hcontainer
    exact h front s back _ hsplit (.nested (Bool.not_eq_false _ ▸ hcontainer))
  · rintro h front s back e hsplit ⟨hcontainer⟩
    have hs : s ∈ ss := hsplit ▸ List.mem_append_right front List.mem_cons_self
    exact Bool.false_ne_true ((h s hs).symm.trans hcontainer)

theorem firstOffence_items_iff {ss : List Segment} :
    FirstOffence ItemOffends ss e ↔ ∃ front s back, ss = front ++ s :: back ∧
      (∀ t ∈ front, t.tag.isContainer = false) ∧ s.tag.isContainer = true ∧
      e = .nestedContainer s.tag := by
  refine exists_congr fun front => exists_congr fun s => exists_congr fun back =>
    and_congr_right fun _ => and_congr unoffending_items_iff ?_
  constructor
  · rintro ⟨hcontainer⟩
    exact ⟨hcontainer, rfl⟩
  · rintro ⟨hcontainer, rfl⟩
    exact .nested hcontainer

/-- **Items without a container index among them are read as the list of them, in order.** -/
theorem readList_finds_of_unoffending {ss : List Segment} {index : Segment} {source : Source}
    {left : Bytes} (h : Unoffending ItemOffends ss) (hss : ∀ s ∈ ss, s.WellFormed)
    (hindex : Segment.StatesCount .list .largeList ss.length index)
    (hpending : source.pending = (index :: ss).flatMap Segment.encoding ++ left) :
    ∃ l : FieldList, l.members = ss ∧ readList.Finds .unbounded source l left := by
  obtain ⟨l, rfl⟩ := FieldList.exists_of_plain (unoffending_items_iff.mp h)
  have hl : l.Encodable := FieldList.encodable_of_members hss hindex.le_maxWord
  rw [l.length_members] at hindex
  exact ⟨l, rfl, (readList_decodes .unbounded).finds
    ⟨FieldList.admitted_unbounded_iff.mpr hl, index, hindex, rfl⟩ hpending⟩

/-- **The first container index is what a list is refused for**, whatever stands behind it, and however
    many items the index of the list states. -/
theorem readList_fails_of_offends {ss : List Segment} {s : Segment} {index : Segment} {count : Nat}
    {source : Source} {left : Bytes} (hss : Unoffending ItemOffends ss) (h : ItemOffends ss s e)
    (hwellFormed : ∀ t ∈ ss ++ [s], t.WellFormed)
    (hindex : Segment.StatesCount .list .largeList count index) (hlt : ss.length < count)
    (hpending : source.pending = (index :: (ss ++ [s])).flatMap Segment.encoding ++ left) :
    readList.Fails .unbounded source e := by
  obtain ⟨hcontainer⟩ := h
  obtain ⟨hfront, hs⟩ := List.forall_mem_append.mp hwellFormed
  replace hs := Segment.admitted_unbounded_iff.mpr (hs s (List.mem_singleton_self s))
  obtain ⟨l, rfl⟩ := FieldList.exists_of_plain (unoffending_items_iff.mp hss)
  have hl : l.Encodable := FieldList.encodable_of_members hfront
    (Nat.le_of_lt (Nat.lt_of_lt_of_le hlt hindex.le_maxWord))
  rw [l.length_members] at hlt
  have hsplit : source.pending =
      (index :: l.members).flatMap Segment.encoding ++ (s.encoding ++ left) := by
    rw [hpending]
    simp
  exact hl.readList_fails_of_next hindex hlt hsplit fun more rest hrest =>
    (readField_fails_of_container hs hcontainer hrest).bind

-- ── Maps and lists of any segments ───────────────────────────────────────────────

/-- **A container is refused for its first offence.** Behind an index that states their number, any
    well-formed segments are read as a map of pairs, with their keys and values in order, or the first
    pair that is out of place behind those in front of it is reported: a key that is no plain string,
    then a key that is no text, then a container index as a value, then a key that stands in front
    already. What follows that pair is never looked at, be it any bytes at all, and however many pairs
    the index states. In the same way any well-formed segments are read as a list of them, or the first
    container index among them is reported. -/
theorem containers_report_first_offence :
    (∀ (pairs : List (Segment × Segment)) (index : Segment) (source : Source) (left : Bytes),
      (∀ pair ∈ pairs, pair.1.WellFormed ∧ pair.2.WellFormed) →
      Segment.StatesCount .map .largeMap pairs.length index →
      source.pending = (index :: pairs.flatMap pairMembers).flatMap Segment.encoding ++ left →
      (Unoffending PairOffends pairs → ∃ m : FieldMap, m.Indexed ∧
        m.entries.toList.map FieldMap.parts = pairs ∧ readMap.Finds .unbounded source m left) ∧
      ∀ e, readMap.Fails .unbounded source e ↔ FirstOffence PairOffends pairs e) ∧
    (∀ (front : List (Segment × Segment)) (pair : Segment × Segment) (e : WireError)
      (index : Segment) (count : Nat) (source : Source) (left : Bytes),
      Unoffending PairOffends front → PairOffends front pair e →
      (∀ p ∈ front ++ [pair], p.1.WellFormed ∧ p.2.WellFormed) →
      Segment.StatesCount .map .largeMap count index → front.length < count →
      source.pending =
        (index :: (front ++ [pair]).flatMap pairMembers).flatMap Segment.encoding ++ left →
      readMap.Fails .unbounded source e) ∧
    (∀ (ss : List Segment) (index : Segment) (source : Source) (left : Bytes),
      (∀ s ∈ ss, s.WellFormed) → Segment.StatesCount .list .largeList ss.length index →
      source.pending = (index :: ss).flatMap Segment.encoding ++ left →
      ((∀ s ∈ ss, s.tag.isContainer = false) →
        ∃ l : FieldList, l.members = ss ∧ readList.Finds .unbounded source l left) ∧
      ∀ e, readList.Fails .unbounded source e ↔ ∃ front s back, ss = front ++ s :: back ∧
        (∀ t ∈ front, t.tag.isContainer = false) ∧ s.tag.isContainer = true ∧
        e = .nestedContainer s.tag) ∧
    ∀ (front : List Segment) (s : Segment) (index : Segment) (count : Nat) (source : Source)
      (left : Bytes), (∀ t ∈ front, t.tag.isContainer = false) → s.tag.isContainer = true →
      (∀ t ∈ front ++ [s], t.WellFormed) → Segment.StatesCount .list .largeList count index →
      front.length < count →
      source.pending = (index :: (front ++ [s])).flatMap Segment.encoding ++ left →
      readList.Fails .unbounded source (.nestedContainer s.tag) := by
  refine ⟨?_, ?_, ?_, ?_⟩
  · intro pairs index source left hpairs hindex hpending
    have hfinds := fun h => readMap_finds_of_unoffending h hpairs hindex hpending
    refine ⟨hfinds, fun e => Reader.fails_iff_firstOffence
      (fun h => (hfinds h).imp fun m hm => hm.2.2) ?_⟩
    rintro e ⟨front, pair, back, rfl, hfront, hpair⟩
    rw [List.append_cons] at hpairs
    have hsplit : source.pending =
        (index :: (front ++ [pair]).flatMap pairMembers).flatMap Segment.encoding ++
          ((back.flatMap pairMembers).flatMap Segment.encoding ++ left) := by
      rw [hpending]
      simp
    refine readMap_fails_of_offends hfront hpair (List.forall_mem_append.mp hpairs).1 hindex ?_ hsplit
    rw [List.length_append, List.length_cons]
    omega
  · intro front pair e index count source left hfront h hpairs hindex hlt hpending
    exact readMap_fails_of_offends hfront h hpairs hindex hlt hpending
  · intro ss index source left hss hindex hpending
    have hfinds := fun h => readList_finds_of_unoffending h hss hindex hpending
    refine ⟨fun h => hfinds (unoffending_items_iff.mpr h), fun e => ?_⟩
    rw [← firstOffence_items_iff]
    refine Reader.fails_iff_firstOffence (fun h => (hfinds h).imp fun l hl => hl.2) ?_
    rintro e ⟨front, s, back, rfl, hfront, hs⟩
    rw [List.append_cons] at hss
    have hsplit : source.pending = (index :: (front ++ [s])).flatMap Segment.encoding ++
        (back.flatMap Segment.encoding ++ left) := by
      rw [hpending]
      simp
    refine readList_fails_of_offends hfront hs (List.forall_mem_append.mp hss).1 hindex ?_ hsplit
    rw [List.length_append, List.length_cons]
    omega
  · intro front s index count source left hfront hs hwellFormed hindex hlt hpending
    exact readList_fails_of_offends (unoffending_items_iff.mpr hfront) (.nested hs) hwellFormed hindex
      hlt hpending

/-- The same key stands twice, and the second time in front of the index of a list: the index is what
    the map is refused for. With a boolean in its place it is the key. More pairs are stated than there
    are, and what stands behind the second is no segment. A list is refused for the first index in it,
    in the same way. -/
theorem containers_report_first_offence_hidden_repeat :
    FieldMap.unflatten [18, 0, 9, 14, 0, 1, 97, 11, 7, 14, 0, 1, 97, 19, 0, 0, 255] =
      .error (.nestedContainer .list) ∧
    FieldMap.unflatten [18, 0, 9, 14, 0, 1, 97, 11, 7, 14, 0, 1, 97, 11, 7, 255] =
      .error (.duplicateKey "a") ∧
    (∃ m : FieldMap, m.entries.toList.map FieldMap.parts = [(⟨.string, [97]⟩, ⟨.bool, [7]⟩)] ∧
      FieldMap.unflatten [18, 0, 1, 14, 0, 1, 97, 11, 7] = .ok m) ∧
    (∃ l : FieldList, l.members = [⟨.bool, [7]⟩] ∧ FieldList.unflatten [19, 0, 1, 11, 7] = .ok l) ∧
    FieldList.unflatten [19, 0, 9, 11, 7, 18, 0, 0, 255] = .error (.nestedContainer .map) := by
  let entry : String × Field := ("a", ⟨⟨.bool, [7]⟩, rfl⟩)
  have hfront : Unoffending PairOffends [FieldMap.parts entry] :=
    unoffending_pairs_iff.mpr ⟨[entry], rfl, List.nodup_singleton "a"⟩
  have hnine : Segment.StatesCount .map .largeMap 9 ⟨.map, [0, 9]⟩ := Or.inl ⟨by decide, rfl⟩
  obtain ⟨hmap, hmapFails, hlist, hlistFails⟩ := containers_report_first_offence
  refine ⟨?_, ?_, ?_, ?_, ?_⟩
  · refine Reader.ofBytes_eq_error_iff.mpr (hmapFails [FieldMap.parts entry]
      (keySegment "a", ⟨.list, [0, 0]⟩) _ _ 9 _ [255] hfront (.nested rfl) ?_ hnine (by decide) ?_)
    · decide
    · decide
  · refine Reader.ofBytes_eq_error_iff.mpr (hmapFails [FieldMap.parts entry]
      (FieldMap.parts entry) _ _ 9 _ [255] hfront (.repeated rfl List.mem_cons_self) ?_ hnine
      (by decide) ?_)
    · decide
    · decide
  · obtain ⟨hread, -⟩ := hmap [FieldMap.parts entry] ⟨.map, [0, 1]⟩
      { pending := [18, 0, 1, 14, 0, 1, 97, 11, 7] } [] (by decide) (Or.inl (by decide)) (by decide)
    obtain ⟨m, -, hm, hfound⟩ := hread hfront
    exact ⟨m, hm, hfound.ofBytes_eq_ok⟩
  · obtain ⟨hread, -⟩ := hlist [⟨.bool, [7]⟩] ⟨.list, [0, 1]⟩
      { pending := [19, 0, 1, 11, 7] } [] (by decide) (Or.inl (by decide)) (by decide)
    obtain ⟨l, hl, hfound⟩ := hread (by decide)
    exact ⟨l, hl, hfound.ofBytes_eq_ok⟩
  · exact Reader.ofBytes_eq_error_iff.mpr (hlistFails [⟨.bool, [7]⟩] ⟨.map, [0, 0]⟩ ⟨.list, [0, 9]⟩ 9 _
      [255] (by decide) rfl (by decide) (Or.inl (by decide)) (by decide) (by decide))

end SegmentWire
