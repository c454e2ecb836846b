import SegmentWire.Proofs.Dictionary
import SegmentWire.Proofs.IndexCodec

/-!
# The map codec

A map travels as a run of segments: an index, then a key and a value for every pair. A writer
chooses the smallest index that can state the number of pairs; a reader takes either size class, so
that a map of at most 65535 pairs has two encodings, which differ in the index alone.

* **`FieldMap.members`** — the segments behind the index.
* **`FieldMap.Encodable`** — the maps that have an encoding.
* **`write_eq_put`** — a map whose keys fit is written with its smallest index.
* **`readMap_decodes`** — a reader finds a map exactly where an index that states its length
  stands, and then its members. The loop over the pairs is **`readPairs_decodes`**.
* **`map_codec_exact`** — both together.
-/

namespace SegmentWire

/-- A key as a regular string segment. -/
def keySegment (key : String) : Segment := ⟨.string, Utf8.encode key⟩

/-- A key is well formed as a segment if it has at most 65535 bytes. -/
theorem keySegment_wellFormed_iff {key : String} :
    (keySegment key).WellFormed ↔ key.utf8ByteSize ≤ maxRegular := Nat.lt_succ_iff

namespace FieldMap

/-- The segments of a pair: its key, then its value. -/
def pairSegments (pair : String × Field) : List Segment := [keySegment pair.1, pair.2.segment]

/-- The segments behind the index, in order. -/
def members (m : FieldMap) : List Segment := m.entries.toList.flatMap pairSegments

/-- A run of pairs of segments is twice as long as there are pairs. -/
theorem length_flatMap_pairs {form : String × Field → List Segment}
    (h : ∀ pair, (form pair).length = 2) (pairs : List (String × Field)) :
    (pairs.flatMap form).length = 2 * pairs.length := by
  induction pairs with
  | nil => rfl
  | cons pair pairs ih =>
      rw [List.flatMap_cons, List.length_append, ih, h, List.length_cons]
      omega

theorem length_members (m : FieldMap) : m.members.length = 2 * m.length := by
  rw [members, length_flatMap_pairs (fun _ => rfl), Array.length_toList]
  rfl

/-- Both segments of a pair are what a reader accepts. -/
def PairAdmitted (limits : Limits) (pair : String × Field) : Prop :=
  (keySegment pair.1).Admitted limits ∧ pair.2.segment.Admitted limits

/-- What a reader accepts as a map. -/
structure Admitted (limits : Limits) (m : FieldMap) : Prop where
  indexed : m.Indexed
  pairs : ∀ pair ∈ m.entries.toList, PairAdmitted limits pair
  length_le : m.length ≤ limits.container

/-- The maps that have an encoding. The keys have to fit a regular string segment; all else is true
    of every map that a sequence of operations can build. -/
structure Encodable (m : FieldMap) : Prop where
  indexed : m.Indexed
  keys_fit : ∀ pair ∈ m.entries.toList, pair.1.utf8ByteSize ≤ maxRegular
  values_wellFormed : ∀ pair ∈ m.entries.toList, pair.2.segment.WellFormed
  length_le : m.length ≤ maxWord

/-- Without limits, a reader accepts every encodable map. -/
theorem admitted_unbounded_iff {m : FieldMap} : m.Admitted .unbounded ↔ m.Encodable := by
  constructor
  · rintro ⟨hindexed, hpairs, hlength⟩
    exact ⟨hindexed,
      fun pair hpair => keySegment_wellFormed_iff.mp (hpairs pair hpair).1.wellFormed,
      fun pair hpair => (hpairs pair hpair).2.wellFormed, hlength⟩
  · rintro ⟨hindexed, hkeys, hvalues, hlength⟩
    refine ⟨hindexed, fun pair hpair => ⟨?_, ?_⟩, hlength⟩
    · exact Segment.admitted_unbounded_iff.mpr
        (keySegment_wellFormed_iff.mpr (hkeys pair hpair))
    · exact Segment.admitted_unbounded_iff.mpr (hvalues pair hpair)

/-- **Any pairs with distinct keys that fit, and well-formed values, are the pairs of an encodable
    map.** -/
theorem encodable_ofList {pairs : List (String × Field)} (hkeys : (pairs.map Prod.fst).Nodup)
    (hpairs : ∀ pair ∈ pairs, pair.1.utf8ByteSize ≤ maxRegular ∧ pair.2.segment.WellFormed)
    (hlength : pairs.length ≤ maxWord) :
    (ofList pairs).Encodable ∧ (ofList pairs).entries.toList = pairs := by
  obtain ⟨hindexed, hentries⟩ := ofList_of_nodup hkeys
  refine ⟨⟨hindexed, ?_, ?_, ?_⟩, hentries⟩
  · rw [hentries]
    exact fun pair hpair => (hpairs pair hpair).1
  · rw [hentries]
    exact fun pair hpair => (hpairs pair hpair).2
  · rw [length, ← Array.length_toList, hentries]
    exact hlength

/-- Behind the index of an encodable map stand well-formed segments. -/
theorem Encodable.members_wellFormed {m : FieldMap} (h : m.Encodable) :
    ∀ s ∈ m.members, s.WellFormed := by
  intro s hs
  obtain ⟨pair, hpair, hmember⟩ := List.mem_flatMap.mp hs
  rcases List.mem_pair.mp hmember with rfl | rfl
  · exact keySegment_wellFormed_iff.mpr (h.keys_fit pair hpair)
  · exact h.values_wellFormed pair hpair

-- ── Writing ──────────────────────────────────────────────────────────────────────

/-- The bytes of a map behind an index of its own choice. -/
def flattenWith (m : FieldMap) (index : Segment) : Except WireError Bytes :=
  ((index :: m.members).forM Segment.write).bytes

/-- A pair whose key fits is written as its two segments. -/
theorem writePair_eq_put {pair : String × Field} (hkey : pair.1.utf8ByteSize ≤ maxRegular)
    (hvalue : pair.2.segment.Fits) :
    writePair pair = Sink.put ((pairSegments pair).flatMap Segment.encoding) := by
  show ((keySegment pair.1).write >>= fun _ => pair.2.segment.write)
    = Sink.put ((keySegment pair.1).encoding ++ (pair.2.segment.encoding ++ []))
  rw [(keySegment_wellFormed_iff.mpr hkey).write_eq_put, hvalue.write_eq_put, Sink.put_bind_put,
    List.append_nil]

/-- **A map whose keys fit is written with its smallest index**, to every sink. -/
theorem write_eq_put {m : FieldMap}
    (hkeys : ∀ pair ∈ m.entries.toList, pair.1.utf8ByteSize ≤ maxRegular)
    (hvalues : ∀ pair ∈ m.entries.toList, pair.2.segment.Fits) :
    m.write = Sink.put
      ((Segment.mapIndex (.ofNat m.length) :: m.members).flatMap Segment.encoding) := by
  have hfind : m.entries.find? (fun pair => maxRegular < pair.1.utf8ByteSize) = none := by
    rw [Array.find?_eq_none]
    intro pair hpair hlong
    exact absurd (hkeys pair (Array.mem_toList_iff.mpr hpair))
      (Nat.not_le.mpr (of_decide_eq_true hlong))
  have hpairs :
      m.entries.toList.forM writePair = Sink.put (m.members.flatMap Segment.encoding) := by
    rw [members, List.flatMap_assoc]
    exact Writer.forM_eq_put fun pair hpair =>
      writePair_eq_put (hkeys pair hpair) (hvalues pair hpair)
  rw [write, hfind]
  show ((Segment.mapIndex (.ofNat m.length)).write >>= fun _ => m.entries.toList.forM writePair) = _
  rw [(Segment.mapIndex_wellFormed _).write_eq_put, hpairs, Sink.put_bind_put]
  rfl

theorem flatten_eq {m : FieldMap}
    (hkeys : ∀ pair ∈ m.entries.toList, pair.1.utf8ByteSize ≤ maxRegular)
    (hvalues : ∀ pair ∈ m.entries.toList, pair.2.segment.Fits) :
    m.flatten = .ok
      ((Segment.mapIndex (.ofNat m.length) :: m.members).flatMap Segment.encoding) := by
  rw [flatten, write_eq_put hkeys hvalues, Writer.bytes_put]

theorem Encodable.flatten_eq {m : FieldMap} (h : m.Encodable) :
    m.flatten = .ok
      ((Segment.mapIndex (.ofNat m.length) :: m.members).flatMap Segment.encoding) :=
  FieldMap.flatten_eq h.keys_fit fun pair hpair => (h.values_wellFormed pair hpair).fits

theorem Encodable.flattenWith_eq {m : FieldMap} (h : m.Encodable) {index : Segment}
    (hindex : index.WellFormed) :
    m.flattenWith index = .ok ((index :: m.members).flatMap Segment.encoding) := by
  have hwellFormed : ∀ s ∈ index :: m.members, s.WellFormed := by
    rintro s (_ | ⟨_, hs⟩)
    · exact hindex
    · exact h.members_wellFormed s hs
  rw [flattenWith, Segment.forM_write_eq_put hwellFormed, Writer.bytes_put]

end FieldMap

-- ── Reading ──────────────────────────────────────────────────────────────────────

/-- A reader finds a key exactly where its segment stands. -/
theorem readKey_decodes (limits : Limits) :
    readKey.Decodes limits
      (fun key e => (keySegment key).Admitted limits ∧ e = (keySegment key).encoding) := by
  refine ((readSegment_decodes limits).bind fun s => Reader.Decodes.unless fun _ =>
    Reader.decodes_lift s.text).congr fun key e => ?_
  constructor
  · rintro ⟨⟨tag, payload⟩, e₁, e₂, ⟨hadmitted, rfl⟩, ⟨htag, htext, rfl⟩, rfl⟩
    obtain rfl : tag = .string := Decidable.not_not.mp htag
    obtain rfl : payload = Utf8.encode key := (Segment.text_eq_ok_iff.mp htext).2
    exact ⟨hadmitted, List.append_nil _⟩
  · rintro ⟨hadmitted, rfl⟩
    exact ⟨keySegment key, (keySegment key).encoding, [], ⟨hadmitted, rfl⟩,
      ⟨not_not_intro rfl, Segment.text_eq_ok_iff.mpr ⟨rfl, rfl⟩, rfl⟩, (List.append_nil _).symm⟩

/-- The forms of `count` more pairs behind those of another map. -/
def PairsForm (limits : Limits) (count : Nat) (before : FieldMap) : WireForm FieldMap :=
  fun m e => ∃ pairs : List (String × Field), pairs.length = count ∧
    m.entries.toList = before.entries.toList ++ pairs ∧ m.Indexed ∧
    (∀ pair ∈ pairs, FieldMap.PairAdmitted limits pair) ∧
    e = (pairs.flatMap FieldMap.pairSegments).flatMap Segment.encoding

/-- The loop over the pairs finds exactly the maps that go on with new and admitted pairs, each
    where its segments stand. The induction is on the number of pairs still to come, for every map
    read before; what the loop keeps is that pairs and index agree. -/
theorem readPairs_decodes (limits : Limits) (count : Nat) {before : FieldMap}
    (hbefore : before.Indexed) :
    (readPairs count before).Decodes limits (PairsForm limits count before) := by
  induction count generalizing before with
  | zero =>
      refine (Reader.decodes_pure before).congr fun m e => ?_
      constructor
      · rintro ⟨rfl, rfl⟩
        exact ⟨[], rfl, (List.append_nil _).symm, hbefore, nofun, rfl⟩
      · rintro ⟨pairs, hlength, hentries, hindexed, -, rfl⟩
        obtain rfl := List.length_eq_zero_iff.mp hlength
        rw [List.append_nil] at hentries
        exact ⟨hindexed.eq_of_entries_eq hbefore (Array.ext' hentries), rfl⟩
  | succ count ih =>
      refine ((readKey_decodes limits).bind fun key => (readField_decodes limits).bind fun value =>
        Reader.Decodes.unless fun habsent =>
          ih (hbefore.insert_of_absent (Bool.eq_false_iff.mpr habsent) value)).congr fun m e => ?_
      constructor
      · rintro ⟨key, e₁, e₂, ⟨hkey, rfl⟩, ⟨value, e₃, e₄, ⟨hvalue, rfl⟩,
          ⟨habsent, pairs, rfl, hentries, hindexed, hpairs, rfl⟩, rfl⟩, rfl⟩
        rw [FieldMap.entries_insert_of_absent (Bool.eq_false_iff.mpr habsent), Array.toList_push,
          List.append_assoc] at hentries
        -- the key was held against the pairs before it, which makes it the next one
        refine ⟨(key, value) :: pairs, rfl, hentries, hindexed, ?_, ?_⟩
        · rintro pair (_ | ⟨_, hpair⟩)
          · exact ⟨hkey, hvalue⟩
          · exact hpairs pair hpair
        · rfl
      · rintro ⟨pairs, hlength, hentries, hindexed, hpairs, rfl⟩
        cases pairs with
        | nil => cases hlength
        | cons pair pairs =>
            have habsent := hindexed.absent_of_append hbefore hentries
            obtain ⟨hkey, hvalue⟩ := hpairs pair List.mem_cons_self
            refine ⟨pair.1, _, _, ⟨hkey, rfl⟩, ⟨pair.2, _, _, ⟨hvalue, rfl⟩,
              ⟨Bool.eq_false_iff.mp habsent, pairs, Nat.succ.inj hlength, ?_, hindexed,
                fun pair hpair => hpairs pair (List.mem_cons_of_mem _ hpair), rfl⟩, rfl⟩, rfl⟩
            rw [FieldMap.entries_insert_of_absent habsent, Array.toList_push, List.append_assoc]
            exact hentries

/-- The loop over some pairs and more pairs goes over the first ones and then over the others. -/
theorem readPairs_add (first second : Nat) (before : FieldMap) :
    readPairs (first + second) before = readPairs first before >>= readPairs second := by
  induction first generalizing before with
  | zero =>
      rw [Nat.zero_add]
      rfl
  | succ first ih =>
      rw [Nat.succ_add]
      show (readKey >>= fun key => readField >>= fun value =>
          if before.contains key then throw (.duplicateKey key)
          else readPairs (first + second) (before.insert key value)) =
        (readKey >>= fun key => readField >>= fun value =>
          if before.contains key then throw (.duplicateKey key)
          else readPairs first (before.insert key value)) >>= readPairs second
      simp only [bind_assoc]
      refine bind_congr fun key => bind_congr fun value => ?_
      split
      · rfl
      · exact ih _

/-- **A reader finds a map exactly where an index that states its length stands, and then its
    members**, if the map is admitted. -/
theorem readMap_decodes (limits : Limits) :
    readMap.Decodes limits (fun m e => m.Admitted limits ∧
      ∃ index, Segment.StatesCount .map .largeMap m.length index ∧
        e = (index :: m.members).flatMap Segment.encoding) := by
  refine ((readSegment_decodes limits).bind fun index =>
    (Reader.decodes_lift index.mapCount).bind fun count =>
      (checkContainer_decodes limits count.toNat).bind fun _ =>
        readPairs_decodes limits count.toNat FieldMap.indexed_empty).congr fun m e => ?_
  constructor
  · rintro ⟨index, e₁, e₂, ⟨-, rfl⟩, ⟨count, e₃, e₄, ⟨hcount, rfl⟩, ⟨_, e₅, e₆, ⟨hle, rfl⟩,
      ⟨pairs, hlength, hentries, hindexed, hpairs, rfl⟩, rfl⟩, rfl⟩, rfl⟩
    obtain rfl : m.entries.toList = pairs := hentries
    have hcount' : count.toNat = m.length := hlength.symm
    rw [hcount'] at hle
    refine ⟨⟨hindexed, hpairs, hle⟩, index, ?_, rfl⟩
    rw [← hcount']
    exact Segment.mapCount_eq_ok_iff.mp hcount
  · rintro ⟨⟨hindexed, hpairs, hle⟩, index, hindex, rfl⟩
    have hword : (UInt64.ofNat m.length).toNat = m.length :=
      Segment.toNat_ofNat_of_le hindex.le_maxWord
    refine ⟨index, index.encoding, _, ⟨hindex.admitted rfl rfl limits, rfl⟩,
      ⟨.ofNat m.length, [], _, ⟨Segment.mapCount_eq_ok_iff.mpr ?_, rfl⟩,
        ⟨(), [], _, ⟨?_, rfl⟩, ⟨m.entries.toList, ?_, rfl, hindexed, hpairs, rfl⟩, rfl⟩, rfl⟩, rfl⟩
    · rw [hword]
      exact hindex
    · rw [hword]
      exact hle
    · exact hword.symm

-- ── The codec as a whole ─────────────────────────────────────────────────────────

/-- Without limits, an encodable map stands for its bytes behind any index that states its length,
    and for no others. -/
theorem readMap_decodes_flattenWith :
    readMap.Decodes .unbounded (fun m e => m.Encodable ∧ ∃ index,
      Segment.StatesCount .map .largeMap m.length index ∧ m.flattenWith index = .ok e) := by
  refine (readMap_decodes .unbounded).congr fun m e => ?_
  rw [FieldMap.admitted_unbounded_iff]
  refine and_congr_right fun h => exists_congr fun index => and_congr_right fun hindex => ?_
  rw [h.flattenWith_eq (hindex.wellFormed rfl rfl), Except.ok.injEq]
  exact eq_comm

/-- An encodable map is read back from its bytes, whatever follows them. -/
theorem FieldMap.Encodable.unflatten_flatten {m : FieldMap} (h : m.Encodable) :
    ∃ e, m.flatten = .ok e ∧ ∀ left, FieldMap.unflatten (e ++ left) = .ok m := by
  have hindex := Segment.mapIndex_statesCount h.length_le
  refine ⟨_, h.flatten_eq, fun left => ?_⟩
  exact (readMap_decodes_flattenWith.ofBytes_eq_ok_iff _ m).mpr
    ⟨_, left, ⟨h, _, hindex, h.flattenWith_eq (Segment.mapIndex_wellFormed _)⟩, rfl⟩

/-- What is written for a map that was read: the same bytes if its index was the smallest, and
    otherwise bytes that begin with the smallest index, which is six bytes shorter, and go on
    alike. -/
theorem FieldMap.Encodable.flatten_of_flattenWith {m : FieldMap} (h : m.Encodable) {index : Segment}
    {consumed : Bytes} (hindex : Segment.StatesCount .map .largeMap m.length index)
    (hconsumed : m.flattenWith index = .ok consumed) :
    ∃ e, m.flatten = .ok e ∧ (index.tag = m.indexTag → e = consumed) ∧
      (index.tag ≠ m.indexTag → m.length ≤ maxRegular ∧ consumed.length = e.length + 6 ∧
        ∃ large regular body, index.flatten = .ok large ∧
          (Segment.mapIndex (.ofNat m.length)).flatten = .ok regular ∧
          consumed = large ++ body ∧ e = regular ++ body) := by
  have hwellFormed := hindex.wellFormed rfl rfl
  have hsmallest := Segment.mapIndex_wellFormed (.ofNat m.length)
  rw [h.flattenWith_eq hwellFormed] at hconsumed
  cases hconsumed
  refine ⟨_, h.flatten_eq, ?_⟩
  rcases hindex.eq_indexOf_or with rfl | ⟨hle, rfl, hregular⟩
  · exact ⟨fun _ => rfl, fun hne => absurd (Segment.tag_indexOf h.length_le) hne⟩
  · replace hregular : Segment.mapIndex (.ofNat m.length) = _ := hregular
    constructor
    · intro htag
      rw [indexTag, if_pos hle] at htag
      cases htag
    · intro _
      refine ⟨hle, ?_, _, _, m.members.flatMap Segment.encoding, hwellFormed.flatten_eq,
        hsmallest.flatten_eq, rfl, rfl⟩
      rw [List.flatMap_cons, List.length_append, hwellFormed.length_encoding, List.flatMap_cons,
        List.length_append, hsmallest.length_encoding, hregular]
      show 9 + _ = 3 + _ + 6
      omega

/-- **The map codec.** From any source a map is read exactly if it is encodable and its bytes are
    pending behind an index of either size class that states its length. What is read has distinct
    keys and no container among its values, and finds each value under its key. Every encodable map
    is read back as it was, and any pairs with distinct keys that fit make one. What is written for
    a map is what it was read from if that had the smallest index, and is six bytes shorter, in the
    index alone, if it had a large one needlessly. -/
theorem map_codec_exact :
    (∀ (source : Source) (m : FieldMap) (left : Bytes),
      readMap.Finds .unbounded source m left ↔
        m.Encodable ∧ ∃ index e, Segment.StatesCount .map .largeMap m.length index ∧
          m.flattenWith index = .ok e ∧ source.pending = e ++ left) ∧
    (∀ m : FieldMap, m.Encodable → m.keys.Nodup ∧
      (∀ pair ∈ m.entries.toList, pair.2.segment.tag.isContainer = false) ∧
      (∀ key value, m.get? key = some value ↔ (key, value) ∈ m.entries.toList) ∧
      ∃ e, m.flatten = .ok e ∧ ∀ left, FieldMap.unflatten (e ++ left) = .ok m) ∧
    (∀ pairs : List (String × Field), (pairs.map Prod.fst).Nodup →
      (∀ pair ∈ pairs, pair.1.utf8ByteSize ≤ maxRegular ∧ pair.2.segment.WellFormed) →
      pairs.length ≤ maxWord → ∃ m : FieldMap, m.Encodable ∧ m.entries.toList = pairs) ∧
    ∀ (m : FieldMap) (index : Segment) (consumed : Bytes), m.Encodable →
      Segment.StatesCount .map .largeMap m.length index → m.flattenWith index = .ok consumed →
      ∃ e, m.flatten = .ok e ∧ (index.tag = m.indexTag → e = consumed) ∧
        (index.tag ≠ m.indexTag → m.length ≤ maxRegular ∧ consumed.length = e.length + 6 ∧
          ∃ large regular body, index.flatten = .ok large ∧
            (Segment.mapIndex (.ofNat m.length)).flatten = .ok regular ∧
            consumed = large ++ body ∧ e = regular ++ body) := by
  refine ⟨?_, ?_, ?_, ?_⟩
  · intro source m left
    rw [readMap_decodes_flattenWith source m left]
    constructor
    · rintro ⟨e, ⟨h, index, hindex, hflatten⟩, hpending⟩
      exact ⟨h, index, e, hindex, hflatten, hpending⟩
    · rintro ⟨h, index, e, hindex, hflatten, hpending⟩
      exact ⟨e, ⟨h, index, hindex, hflatten⟩, hpending⟩
  · intro m h
    exact ⟨h.indexed.keys_nodup, fun pair _ => pair.2.plain,
      fun key value => h.indexed.get?_eq_some_iff, h.unflatten_flatten⟩
  · intro pairs hkeys hpairs hlength
    exact ⟨.ofList pairs, FieldMap.encodable_ofList hkeys hpairs hlength⟩
  · intro m index consumed h hindex hconsumed
    exact h.flatten_of_flattenWith hindex hconsumed

end SegmentWire
