import SegmentWire.Proofs.Failing
import SegmentWire.Proofs.ScanOffsets
import SegmentWire.Proofs.Truncation

/-!
# Scans and readers walk alike

A scan has its own way of taking headers apart, and two opinions of its own: a segment without a
payload is none, and a size field that is cut off is not worth a short read. In all else it goes where
a reader goes that takes one segment after the other.

* **`walk`** — where that reader comes to, and what it finds there.
* **`Flaw`** — what a scan makes of a segment that it does not pass.
* **`skipSegment_passes_or_flaw`** — one step of both; **`countFrom_passes_or_flaw`** — the whole way.
* **`scan_agrees_with_reader`** — what a scan says about the walk, and that it stays within its words.
-/

namespace SegmentWire

-- ── Short reads ──────────────────────────────────────────────────────────────────

namespace Reader

variable {α β : Type} {limits : Limits} {source : Source} {e : WireError}

/-- Too few bytes are a short read, unless the source fails instead of ending. -/
theorem exactly_fails {want : Nat} (h : source.pending.length < want)
    (hending : source.ending ≠ .failing) :
    (exactly want).Fails limits source (.shortRead want source.pending.length) := by
  rw [Fails, runOn, exactly_of_lt h, Ending.reports_of_ne_failing hending]

/-- After a value is found, a sequence fails as its second part does, on a source that still ends as
    it did before. -/
theorem Finds.bind_fails_of_ending {first : Reader α} {next : α → Reader β} {a : α} {left : Bytes}
    (hfirst : first.Finds limits source a left)
    (hrespects : first.Respects (continuation limits [])) (hending : source.ending ≠ .failing)
    (hnext : ∀ rest, rest.pending = left → rest.ending ≠ .failing → (next a).Fails limits rest e) :
    (first >>= next).Fails limits source e := by
  obtain ⟨rest, hread, hrest⟩ := hfirst
  obtain ⟨_, -, -, hrestEnding⟩ :=
    hrespects.of_ok ⟨(List.append_nil source.pending).symm, hending⟩ hread
  exact fails_bind_iff.mpr (Or.inr ⟨a, rest, hread, hnext rest hrest hrestEnding⟩)

end Reader

variable {source : Source} {tag : Tag}

/-- A byte that is no tag is where a reader of segments stops. -/
theorem readSegment_fails_of_unknownTag {limits : Limits} {code : UInt8} {rest : Bytes}
    (hcode : Tag.ofCode? code = none) (hpending : source.pending = code :: rest) :
    readSegment.Fails limits source (.unknownTag code) := by
  have hbyte : UInt8.ofNat code.toNat = code := UInt8.ofNat_toNat
  have hfound : (Reader.number 1).Finds limits source code.toNat rest := by
    refine (Reader.decodes_number 1).finds ⟨code.toNat_lt, rfl⟩ ?_
    rw [hpending]
    show code :: rest = [UInt8.ofNat code.toNat] ++ rest
    rw [hbyte]
    rfl
  refine (hfound.bind_fails fun _ _ => ?_).bind
  rw [Reader.fails_lift_iff, hbyte, Tag.ofCode, hcode]

/-- A reader that comes to a size field that is cut off wants the rest of the field. -/
theorem readSegment_fails_of_cut_size {limits : Limits} {field : Nat} {digits : Bytes}
    (hlayout : tag.layout = .sized field) (hlt : digits.length < field)
    (hpending : source.pending = tag.code :: digits) (hending : source.ending ≠ .failing) :
    readSegment.Fails limits source (.shortRead field digits.length) := by
  have htag : readTag.Finds limits source tag digits := (readTag_decodes limits).finds rfl hpending
  refine htag.bind_fails_of_ending readTag_matches hending ?_
  rintro rest rfl hrest
  refine Reader.Fails.bind ?_
  rw [readLength, hlayout]
  exact ((Reader.exactly_fails hlt hrest).bind).bind

/-- A reader that comes to a payload that is cut off wants the rest of the payload. -/
theorem readSegment_fails_of_cut_payload {length : Nat} {part : Bytes}
    (hallows : tag.layout.Allows length) (hlt : part.length < length)
    (hpending : source.pending = tag.code :: (tag.layout.sizeField length ++ part))
    (hending : source.ending ≠ .failing) :
    readSegment.Fails .unbounded source (.shortRead length part.length) := by
  have htag : readTag.Finds .unbounded source tag (tag.layout.sizeField length ++ part) :=
    (readTag_decodes .unbounded).finds rfl hpending
  refine htag.bind_fails_of_ending readTag_matches hending fun afterTag hafterTag hending => ?_
  have hlength : (readLength tag).Finds .unbounded afterTag length part :=
    (readLength_decodes .unbounded tag).finds
      ⟨hallows, fun hvariable => Tag.le_maxWord_of_allows hvariable hallows, rfl⟩ hafterTag
  refine hlength.bind_fails_of_ending (readLength_matches tag) hending ?_
  rintro afterLength rfl hending
  exact (Reader.exactly_fails hlt hending).bind

-- ── One segment ──────────────────────────────────────────────────────────────────

/-- What is wrong with the bytes at which a scan gives up: what a reader of segments finds there, and
    what the scan says. -/
inductive Flaw : Bytes → Except WireError Segment → WireError → Prop
  /-- The first byte is no tag. -/
  | unknownTag {code : UInt8} {rest : Bytes} (h : Tag.ofCode? code = none) :
      Flaw (code :: rest) (.error (.unknownTag code)) (.unknownTag code)
  /-- The size field is cut off. The reader wants more bytes, and the scan does not. -/
  | cutSize {tag : Tag} {field : Nat} {digits : Bytes} (hlayout : tag.layout = .sized field)
      (h : digits.length < field) :
      Flaw (tag.code :: digits) (.error (.shortRead field digits.length)) .truncatedSize
  /-- The size field states that there is no payload. The reader takes that, and the scan does
      not. -/
  | empty {tag : Tag} {field : Nat} {rest : Bytes} (hlayout : tag.layout = .sized field) :
      Flaw (tag.code :: (tag.layout.sizeField 0 ++ rest)) (.ok ⟨tag, []⟩) (.emptySegment tag)
  /-- The payload is cut off. Both want as many bytes as were declared. -/
  | cutPayload {tag : Tag} {length : Nat} {part : Bytes} (hallows : tag.layout.Allows length)
      (h : part.length < length) :
      Flaw (tag.code :: (tag.layout.sizeField length ++ part))
        (.error (.shortRead length part.length)) (.shortRead length part.length)

/-- Behind a tag stands either a size field that is cut off, or a length that the tag allows. -/
theorem declaredLength_cases (tag : Tag) (rest : Bytes) :
    (∃ field, tag.layout = .sized field ∧ rest.length < field ∧
      declaredLength tag rest = .error .truncatedSize) ∨
    ∃ length body, tag.layout.Allows length ∧ rest = tag.layout.sizeField length ++ body ∧
      declaredLength tag rest = .ok (length, body) := by
  rw [declaredLength]
  cases hlayout : tag.layout with
  | fixed width => exact Or.inr ⟨width, rest, rfl, rfl, rfl⟩
  | sized field =>
      have hlength : (rest.take field).length = min field rest.length := List.length_take
      show (∃ field', Layout.sized field = .sized field' ∧ rest.length < field' ∧
        (if (rest.take field).length < field then _ else _) = _) ∨ ∃ length body, _ ∧ _ ∧
        (if (rest.take field).length < field then _ else _) = _
      by_cases hcut : rest.length < field
      · rw [if_pos (by omega)]
        exact Or.inl ⟨field, rfl, hcut, rfl⟩
      · rw [if_neg (by omega)]
        have hwidth : (rest.take field).length = field := by omega
        refine Or.inr ⟨_, _, ?_, ?_, rfl⟩
        · have hlt := ofBigEndian_lt (rest.take field)
          rwa [hwidth] at hlt
        · have hdigits := bigEndian_ofBigEndian (rest.take field)
          rw [hwidth] at hdigits
          show rest = bigEndian field _ ++ _
          rw [hdigits, List.take_append_drop]

theorem skipSegment_eq {rest body : Bytes} {length : Nat}
    (h : declaredLength tag rest = .ok (length, body)) :
    skipSegment tag.code rest =
      if length = 0 then .error (.emptySegment tag)
      else if body.length < length then .error (.shortRead length body.length)
      else .ok (body.drop length) := by
  have hstep : skipSegment tag.code rest = if length = 0 then .error (.emptySegment tag)
      else if (body.take length).length < length then
        .error (.shortRead length (body.take length).length)
      else .ok (body.drop length) := by
    rw [skipSegment, Tag.ofCode_eq_ok_iff.mpr rfl]
    show (declaredLength tag rest >>= _) = _
    rw [h]
    rfl
  rw [hstep, List.length_take]
  by_cases hcut : body.length < length
  · rw [Nat.min_eq_right (Nat.le_of_lt hcut)]
  · rw [Nat.min_eq_left (Nat.not_lt.mp hcut), if_neg (Nat.lt_irrefl length), if_neg hcut]

/-- Where a declared payload is not cut off, a reader finds it. -/
theorem readSegment_of_payload {length : Nat} {body : Bytes} (hallows : tag.layout.Allows length)
    (hle : length ≤ body.length) :
    readSegment.onBytes .unbounded (tag.code :: (tag.layout.sizeField length ++ body)) =
      .ok (⟨tag, body.take length⟩, body.drop length) := by
  have htake : (body.take length).length = length := List.length_take_of_le hle
  have hwf : (Segment.mk tag (body.take length)).WellFormed := by
    show tag.layout.Allows (body.take length).length
    rwa [htake]
  refine Reader.onBytes_eq_ok_iff.mpr ((readSegment_decodes .unbounded).finds
    ⟨Segment.admitted_unbounded_iff.mpr hwf, rfl⟩ ?_)
  rw [Segment.encoding, htake, List.cons_append, List.append_assoc, List.take_append_drop]

/-- Only behind a size field can a payload be empty. -/
theorem sized_of_allows_zero (h : tag.layout.Allows 0) : ∃ field, tag.layout = .sized field := by
  cases hlayout : tag.layout with
  | fixed width =>
      rw [hlayout] at h
      cases tag <;> cases hlayout <;> cases h
  | sized field => exact ⟨field, rfl⟩

/-- **A scan passes a segment exactly if a reader reads it and finds a payload**; they then come to
    the same bytes. Otherwise the segment has a flaw, and the scan says which. -/
theorem skipSegment_passes_or_flaw (code : UInt8) (rest : Bytes) :
    (∃ s left, readSegment.onBytes .unbounded (code :: rest) = .ok (s, left) ∧ s.payload ≠ [] ∧
      skipSegment code rest = .ok left) ∨
    ∃ e, skipSegment code rest = .error e ∧
      Flaw (code :: rest) ((readSegment.onBytes .unbounded (code :: rest)).map Prod.fst) e := by
  have hfails : ∀ {e}, readSegment.Fails .unbounded { pending := code :: rest } e →
      (readSegment.onBytes .unbounded (code :: rest)).map Prod.fst = .error e := by
    intro e h
    rw [Reader.onBytes_eq_error_iff.mpr h]
    rfl
  cases hcode : Tag.ofCode? code with
  | none =>
      refine Or.inr ⟨.unknownTag code, ?_, ?_⟩
      · rw [skipSegment, Tag.ofCode, hcode]
        rfl
      · rw [hfails (readSegment_fails_of_unknownTag hcode rfl)]
        exact .unknownTag hcode
  | some tag =>
      obtain rfl : code = tag.code := Tag.ofCode_eq_ok_iff.mp (by rw [Tag.ofCode, hcode])
      rcases declaredLength_cases tag rest with
        ⟨field, hlayout, hcut, hlength⟩ | ⟨length, body, hallows, rfl, hlength⟩
      · refine Or.inr ⟨.truncatedSize, ?_, ?_⟩
        · rw [skipSegment, Tag.ofCode_eq_ok_iff.mpr rfl]
          show (declaredLength tag rest >>= _) = _
          rw [hlength]
          rfl
        · rw [hfails (readSegment_fails_of_cut_size hlayout hcut rfl (by rintro ⟨⟩))]
          exact .cutSize hlayout hcut
      · rw [skipSegment_eq hlength]
        by_cases hcut : body.length < length
        · refine Or.inr ⟨.shortRead length body.length, ?_, ?_⟩
          · rw [if_neg (by omega), if_pos hcut]
          · rw [hfails (readSegment_fails_of_cut_payload hallows hcut rfl (by rintro ⟨⟩))]
            exact .cutPayload hallows hcut
        · -- the reader finds the segment, which the scan passes unless its payload is empty
          have hread := readSegment_of_payload hallows (Nat.not_lt.mp hcut)
          by_cases hzero : length = 0
          · subst hzero
            refine Or.inr ⟨.emptySegment tag, if_pos rfl, ?_⟩
            obtain ⟨field, hlayout⟩ := sized_of_allows_zero hallows
            rw [hread]
            exact .empty hlayout
          · refine Or.inl ⟨_, _, hread, ?_, ?_⟩
            · intro hempty
              have hlength := congrArg List.length hempty
              rw [List.length_take_of_le (Nat.not_lt.mp hcut)] at hlength
              exact hzero hlength
            · rw [if_neg hzero, if_neg hcut]

-- ── The whole way ────────────────────────────────────────────────────────────────

/-- A reader of segments that has come to some bytes, and what it finds there. -/
structure Visit where
  bytes : Bytes
  outcome : Except WireError Segment

/-- The reader finds a segment with a payload. -/
def Visit.Passes (visit : Visit) : Prop := ∃ s, visit.outcome = .ok s ∧ s.payload ≠ []

/-- The visits of a reader that takes one segment after the other, until no bytes are left or a read
    fails. -/
def walk (bytes : Bytes) : List Visit :=
  if bytes = [] then []
  else
    match _h : readSegment.onBytes .unbounded bytes with
    | .error e => [⟨bytes, .error e⟩]
    | .ok (s, left) => ⟨bytes, .ok s⟩ :: walk left
termination_by bytes.length
decreasing_by
  obtain ⟨rest, hread, rfl⟩ := Reader.onBytes_eq_ok_iff.mp _h
  exact readSegment_pending_lt hread

theorem walk_nil : walk [] = [] := by rw [walk, if_pos rfl]

theorem walk_of_ok {bytes left : Bytes} {s : Segment} (hne : bytes ≠ [])
    (h : readSegment.onBytes .unbounded bytes = .ok (s, left)) :
    walk bytes = ⟨bytes, .ok s⟩ :: walk left := by
  rw [walk, if_neg hne]
  split
  · next hread => cases hread.symm.trans h
  · next hread => cases hread.symm.trans h; rfl

theorem walk_eq_cons {bytes : Bytes} (hne : bytes ≠ []) : ∃ behind,
    walk bytes = ⟨bytes, (readSegment.onBytes .unbounded bytes).map Prod.fst⟩ :: behind := by
  cases h : readSegment.onBytes .unbounded bytes with
  | ok found => exact ⟨walk found.2, walk_of_ok hne h⟩
  | error e =>
      refine ⟨[], ?_⟩
      rw [walk, if_neg hne]
      split
      · next hread => cases hread.symm.trans h; rfl
      · next hread => cases hread.symm.trans h

theorem Flaw.not_passes {visit : Visit} {e : WireError} (h : Flaw visit.bytes visit.outcome e) :
    ¬ visit.Passes := by
  rintro ⟨s, houtcome, hpayload⟩
  rw [houtcome] at h
  generalize visit.bytes = bytes at h
  cases h
  exact hpayload rfl

/-- **A count either passes all visits of the walk, or ends at the first flaw.** The induction is on
    the length of the bytes, of which every visit that is passed takes some. -/
theorem countFrom_passes_or_flaw (bytes : Bytes) (counted : Nat) :
    (∃ segments : List Segment, (walk bytes).map Visit.outcome = segments.map .ok ∧
      segments.flatMap Segment.encoding = bytes ∧ (∀ s ∈ segments, s.payload ≠ []) ∧
      countFrom counted bytes = .ok (counted + segments.length)) ∨
    ∃ passed visit behind e, walk bytes = passed ++ visit :: behind ∧
      (∀ v ∈ passed, v.Passes) ∧ Flaw visit.bytes visit.outcome e ∧
      countFrom counted bytes = .error e := by
  induction hlength : bytes.length using Nat.strongRecOn generalizing bytes counted with
  | ind length ih =>
    subst hlength
    cases bytes with
    | nil =>
        refine Or.inl ⟨[], ?_, rfl, List.forall_mem_nil _, ?_⟩
        · rw [walk_nil]
          rfl
        · rw [countFrom]
          rfl
    | cons code rest =>
        have hne : code :: rest ≠ [] := List.cons_ne_nil code rest
        rcases skipSegment_passes_or_flaw code rest with
          ⟨s, left, hread, hpayload, hskip⟩ | ⟨e, hskip, hflaw⟩
        · have hwalk := walk_of_ok hne hread
          have hcount := countFrom_of_ok hskip counted
          rcases ih left.length (Nat.lt_succ_of_le (skipSegment_le hskip)) left (counted + 1) rfl with
            ⟨segments, houtcomes, hencoding, hpayloads, hcounted⟩ |
              ⟨passed, visit, behind, e, hleft, hpassed, hflaw, hcounted⟩
          · refine Or.inl ⟨s :: segments, ?_, ?_, ?_, ?_⟩
            · rw [hwalk, List.map_cons, houtcomes, List.map_cons]
            · obtain ⟨_, ⟨-, rfl⟩, hbytes⟩ :=
                (readSegment_decodes .unbounded _ _ _).mp (Reader.onBytes_eq_ok_iff.mp hread)
              rw [List.flatMap_cons, hencoding]
              exact hbytes.symm
            · rintro t (_ | ⟨_, ht⟩)
              · exact hpayload
              · exact hpayloads t ht
            · rw [hcount, hcounted, List.length_cons, Nat.add_right_comm, Nat.add_assoc]
          · refine Or.inr ⟨⟨code :: rest, .ok s⟩ :: passed, visit, behind, e, ?_, ?_, hflaw, ?_⟩
            · rw [hwalk, hleft]
              rfl
            · rintro v (_ | ⟨_, hv⟩)
              · exact ⟨s, rfl, hpayload⟩
              · exact hpassed v hv
            · rw [hcount, hcounted]
        · obtain ⟨behind, hwalk⟩ := walk_eq_cons hne
          exact Or.inr ⟨[], _, behind, e, hwalk, List.forall_mem_nil _, hflaw,
            countFrom_of_error hskip counted⟩

/-- The first visit that is not passed is the first in every way to say so. -/
theorem eq_of_first_not_passes {passed passed' behind behind' : List Visit} {visit visit' : Visit}
    (h : passed ++ visit :: behind = passed' ++ visit' :: behind')
    (hpassed : ∀ v ∈ passed, v.Passes) (hvisit : ¬ visit.Passes)
    (hpassed' : ∀ v ∈ passed', v.Passes) (hvisit' : ¬ visit'.Passes) : visit = visit' := by
  rcases List.append_eq_append_iff.mp h with ⟨between, rfl, heq⟩ | ⟨between, rfl, heq⟩
  · cases between with
    | nil => exact (List.cons.inj heq).1
    | cons first between =>
        obtain rfl : visit = first := (List.cons.inj heq).1
        exact absurd (hpassed' visit (List.mem_append_right _ List.mem_cons_self)) hvisit
  · cases between with
    | nil => exact (List.cons.inj heq).1.symm
    | cons first between =>
        obtain rfl : visit' = first := (List.cons.inj heq).1
        exact absurd (hpassed visit' (List.mem_append_right _ List.mem_cons_self)) hvisit'

/-- A flaw makes a segment invalid, unless the payload is cut off; then the reader says the same. -/
theorem Flaw.kind_or {bytes : Bytes} {outcome : Except WireError Segment} {e : WireError}
    (h : Flaw bytes outcome e) :
    e.kind = .invalidSegment ∨
      ∃ needed got, e = .shortRead needed got ∧ outcome = .error (.shortRead needed got) := by
  cases h with
  | unknownTag => exact Or.inl rfl
  | cutSize => exact Or.inl rfl
  | empty => exact Or.inl rfl
  | cutPayload => exact Or.inr ⟨_, _, rfl, rfl⟩

/-- **A scan counts what a reader finds.** It counts `n` segments exactly if a reader that takes one
    after the other reads `n` of them, comes to the end of the bytes with the last one, and finds none
    without a payload. Otherwise the first visit that fails, or finds no payload, decides what the scan
    says: the segment is invalid if the byte is no tag, if the size field is cut off or if it states a
    length of zero; and if the payload is cut off, the scan wants and has as many bytes as the reader.
    By offset, on words, the scan comes to the same outcome on every buffer whose size is a word:
    no declared length makes it overflow or leave the buffer. -/
theorem scan_agrees_with_reader :
    (∀ (bytes : Bytes) (n : Nat), countSegments bytes = .ok n ↔
      ∃ segments : List Segment, (walk bytes).map Visit.outcome = segments.map .ok ∧
        segments.flatMap Segment.encoding = bytes ∧ segments.length = n ∧
        ∀ s ∈ segments, s.payload ≠ []) ∧
    (∀ (bytes : Bytes) (passed behind : List Visit) (visit : Visit),
      walk bytes = passed ++ visit :: behind → (∀ v ∈ passed, v.Passes) → ¬ visit.Passes →
      ∃ e, countSegments bytes = .error e ∧ Flaw visit.bytes visit.outcome e ∧
        (e.kind = .invalidSegment ∨
          ∃ needed got, e = .shortRead needed got ∧
            visit.outcome = .error (.shortRead needed got))) ∧
    ∀ bytes : Bytes, bytes.length ≤ maxWord →
      ∃ outcome, scanWords bytes.toArray = some outcome ∧
        outcome.map UInt64.toNat = countSegments bytes := by
  have hpasses : ∀ {bytes : Bytes} {segments : List Segment},
      (walk bytes).map Visit.outcome = segments.map .ok → (∀ s ∈ segments, s.payload ≠ []) →
      ∀ visit ∈ walk bytes, visit.Passes := by
    intro bytes segments houtcomes hpayloads visit hvisit
    have hmem := List.mem_map_of_mem (f := Visit.outcome) hvisit
    rw [houtcomes] at hmem
    obtain ⟨s, hs, houtcome⟩ := List.mem_map.mp hmem
    exact ⟨s, houtcome.symm, hpayloads s hs⟩
  refine ⟨?_, ?_, scanWords_eq⟩
  · intro bytes n
    rcases countFrom_passes_or_flaw bytes 0 with
      ⟨segments, houtcomes, hencoding, hpayloads, hcounted⟩ |
        ⟨passed, visit, behind, e, hwalk, -, hflaw, hcounted⟩
    · rw [Nat.zero_add] at hcounted
      rw [countSegments, hcounted, Except.ok.injEq]
      constructor
      · intro hn
        exact ⟨segments, houtcomes, hencoding, hn, hpayloads⟩
      · rintro ⟨segments', houtcomes', -, rfl, -⟩
        have hlengths := congrArg List.length (houtcomes.symm.trans houtcomes')
        rwa [List.length_map, List.length_map] at hlengths
    · rw [countSegments, hcounted]
      constructor
      · rintro ⟨⟩
      · rintro ⟨segments, houtcomes, -, -, hpayloads⟩
        have hvisit : visit ∈ walk bytes := by
          rw [hwalk]
          exact List.mem_append_right _ List.mem_cons_self
        exact absurd (hpasses houtcomes hpayloads visit hvisit) hflaw.not_passes
  · intro bytes passed behind visit hwalk hpassed hvisit
    rcases countFrom_passes_or_flaw bytes 0 with
      ⟨segments, houtcomes, -, hpayloads, -⟩ |
        ⟨passed', visit', behind', e, hwalk', hpassed', hflaw, hcounted⟩
    · have hmem : visit ∈ walk bytes := by
        rw [hwalk]
        exact List.mem_append_right _ List.mem_cons_self
      exact absurd (hpasses houtcomes hpayloads visit hmem) hvisit
    · obtain rfl := eq_of_first_not_passes (hwalk.symm.trans hwalk') hpassed hvisit hpassed'
        hflaw.not_passes
      exact ⟨e, hcounted, hflaw, hflaw.kind_or⟩

end SegmentWire
