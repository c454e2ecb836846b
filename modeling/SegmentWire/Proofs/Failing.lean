import SegmentWire.Proofs.Calls
import SegmentWire.Proofs.DocumentCodec
import SegmentWire.Proofs.ListCodec
import SegmentWire.Proofs.MessageCodec

/-!
# How reads fail

A read fails at the first of its parts that does. Which part that was is often told by the kind of the
failure alone: a part that never fails for this kind of reason has to have succeeded.

* **`Reader.Fails`** — one failed read; **`Finds.bind_fails`** follows a sequence to its failure.
* **`Spares`**, **`Reader.Spares`** — outcomes and reads that never fail for a kind of reason;
  **`Spares.bind`** lets a later part use what an earlier one found.
* **`Reader.Refuses`** — all reads that fail with one error at once: those where certain bytes are
  pending. **`Decodes.bind_refuses`** puts them together behind parts that spare its kind.
* **`readSegment_spares`**, **`readMap_spares`**, **`readMembers_spares`** — from no bytes a segment, a
  container or a body is refused for a width that does not fit: what was read is well formed.
* **`readList_fails_of_fields`**, **`readMap_fails_of_pairs`** — behind its index, a container fails as
  the loop over its members does; **`readList_fails_of_next`**, **`readMap_fails_of_next`** — behind the
  members of one, as the next round does.
-/

namespace SegmentWire

-- ── Outcomes ─────────────────────────────────────────────────────────────────────

section Outcomes

variable {α β : Type} {kind : ErrorKind}

/-- The outcome is no failure of this kind. -/
def Spares (kind : ErrorKind) (outcome : Except WireError α) : Prop :=
  ∀ e, outcome = .error e → e.kind ≠ kind

theorem spares_ok (a : α) : Spares kind (.ok a) := nofun

theorem spares_error {e : WireError} (h : e.kind ≠ kind) :
    Spares kind (.error e : Except WireError α) := by
  rintro _ ⟨⟩
  exact h

theorem Spares.ite {c : Prop} [Decidable c] {first second : Except WireError α}
    (hfirst : c → Spares kind first) (hsecond : ¬ c → Spares kind second) :
    Spares kind (if c then first else second) := by
  split
  · exact hfirst ‹c›
  · exact hsecond ‹¬ c›

theorem Spares.bind {first : Except WireError α} {next : α → Except WireError β}
    (hfirst : Spares kind first) (hnext : ∀ a, first = .ok a → Spares kind (next a)) :
    Spares kind (first >>= next) := by
  cases first with
  | error e => exact spares_error (hfirst e rfl)
  | ok a => exact hnext a rfl

theorem bind_eq_error_iff {first : Except WireError α} {next : α → Except WireError β}
    {e : WireError} :
    (first >>= next) = .error e ↔
      first = .error e ∨ ∃ a, first = .ok a ∧ next a = .error e := by
  cases first with
  | error e' =>
      constructor
      · rintro ⟨⟩
        exact Or.inl rfl
      · rintro (⟨⟨⟩⟩ | ⟨a, ⟨⟩, -⟩)
        rfl
  | ok a =>
      constructor
      · intro h
        exact Or.inr ⟨a, rfl, h⟩
      · rintro (⟨⟨⟩⟩ | ⟨a, ⟨⟩, h⟩)
        exact h

end Outcomes

-- ── Reads ────────────────────────────────────────────────────────────────────────

namespace Reader

variable {α β : Type} {limits : Limits} {kind : ErrorKind} {e : WireError}

/-- On this source the read fails with this error. -/
def Fails (read : Reader α) (limits : Limits) (source : Source) (e : WireError) : Prop :=
  read.runOn limits source = .error e

/-- Within these limits, no source makes the read fail for this kind of reason. -/
def Spares (read : Reader α) (kind : ErrorKind) (limits : Limits) : Prop :=
  ∀ source, SegmentWire.Spares kind (read.runOn limits source)

theorem fails_bind_iff {first : Reader α} {next : α → Reader β} {source : Source} :
    (first >>= next).Fails limits source e ↔ first.Fails limits source e ∨
      ∃ a rest, first.runOn limits source = .ok (a, rest) ∧ (next a).Fails limits rest e := by
  show (first.runOn limits source >>= fun r => (next r.1).runOn limits r.2) = .error e ↔ _
  rw [bind_eq_error_iff]
  exact or_congr_right Prod.exists

theorem fails_lift_iff {outcome : Except WireError α} {source : Source} :
    (liftM outcome : Reader α).Fails limits source e ↔ outcome = .error e := by
  cases outcome with
  | error e' => exact ⟨fun h => by cases h; rfl, fun h => by cases h; rfl⟩
  | ok a => exact ⟨nofun, nofun⟩

/-- A read of a run of bytes fails as it does on the source that hands them out. -/
theorem ofBytes_eq_error_iff {read : Reader α} {bytes : Bytes} :
    read.ofBytes limits bytes = .error e ↔ read.Fails limits { pending := bytes } e := by
  rw [ofBytes, Fails]
  cases read.runOn limits { pending := bytes } with
  | error e' => simp [Except.map]
  | ok found => simp [Except.map]

theorem Finds.ofBytes_eq_ok {read : Reader α} {bytes left : Bytes} {a : α}
    (h : read.Finds limits { pending := bytes } a left) : read.ofBytes limits bytes = .ok a := by
  obtain ⟨rest, hread, -⟩ := h
  rw [ofBytes, hread]
  rfl

theorem Finds.not_fails {read : Reader α} {source : Source} {a : α} {left : Bytes}
    (h : read.Finds limits source a left) : ¬ read.Fails limits source e := by
  intro hfails
  obtain ⟨rest, hread, -⟩ := h
  rw [hfails] at hread
  cases hread

/-- After a value is found, a sequence fails as its second part does. -/
theorem Finds.bind_fails {first : Reader α} {next : α → Reader β} {source : Source} {a : α}
    {left : Bytes} (hfirst : first.Finds limits source a left)
    (hnext : ∀ rest, rest.pending = left → (next a).Fails limits rest e) :
    (first >>= next).Fails limits source e := by
  obtain ⟨rest, hread, hrest⟩ := hfirst
  exact fails_bind_iff.mpr (Or.inr ⟨a, rest, hread, hnext rest hrest⟩)

theorem fails_unless_of {c : Prop} [Decidable c] {next : Reader α} {source : Source} (hc : c) :
    (if c then throw e else next).Fails limits source e := by
  rw [if_pos hc]
  rfl

theorem Fails.bind {first : Reader α} {next : α → Reader β} {source : Source}
    (h : first.Fails limits source e) : (first >>= next).Fails limits source e :=
  fails_bind_iff.mpr (Or.inl h)

-- ── Reads that spare a kind of failure ───────────────────────────────────────────

theorem spares_pure (a : α) : (pure a : Reader α).Spares kind limits :=
  fun source => spares_ok (a, source)

theorem spares_lift {outcome : Except WireError α} (h : SegmentWire.Spares kind outcome) :
    (liftM outcome : Reader α).Spares kind limits := by
  intro source e hfails
  exact h e (fails_lift_iff.mp hfails)

theorem spares_throw (h : e.kind ≠ kind) : (throw e : Reader α).Spares kind limits :=
  fun _ => spares_error h

/-- A later part may use that the earlier one has found its value. -/
theorem Spares.bind {first : Reader α} {next : α → Reader β} (hfirst : first.Spares kind limits)
    (hnext : ∀ source a left, first.Finds limits source a left → (next a).Spares kind limits) :
    (first >>= next).Spares kind limits := by
  intro source
  exact (hfirst source).bind fun found hread =>
    hnext source found.1 found.2.pending ⟨found.2, hread, rfl⟩ found.2

theorem Spares.unless {c : Prop} [Decidable c] {refusal : WireError} {next : Reader α}
    (hrefusal : refusal.kind ≠ kind) (hnext : ¬ c → next.Spares kind limits) :
    (if c then throw refusal else next).Spares kind limits := by
  split
  · exact spares_throw hrefusal
  · exact hnext ‹¬ c›

theorem spares_limits {next : Limits → Reader α} (hnext : (next limits).Spares kind limits) :
    (read >>= next).Spares kind limits :=
  fun source => hnext source

/-- Bytes can only be too few, or the source can fail. -/
theorem spares_exactly (want : Nat) (hcontent : kind.isContent = true) :
    (exactly want).Spares kind limits := by
  intro source
  rw [runOn, exactly_eq]
  refine .ite (fun _ => spares_ok _) fun _ => spares_error ?_
  rw [Ending.reports]
  rintro rfl
  split at hcontent
  · cases hcontent
  · cases hcontent

theorem spares_number (width : Nat) (hcontent : kind.isContent = true) :
    (number width).Spares kind limits :=
  (spares_exactly width hcontent).bind fun _ _ _ _ => spares_pure _

-- ── Reads that fail with one error ───────────────────────────────────────────────

/-- On every source, the read fails with this error exactly when the pending bytes begin with some of
    these. -/
def Refuses (read : Reader α) (limits : Limits) (e : WireError) (form : Bytes → Prop) : Prop :=
  ∀ source, read.Fails limits source e ↔ ∃ b left, form b ∧ source.pending = b ++ left

theorem Refuses.congr {read : Reader α} {form form' : Bytes → Prop}
    (h : read.Refuses limits e form) (hform : ∀ b, form b ↔ form' b) :
    read.Refuses limits e form' := by
  intro source
  rw [h source]
  exact exists_congr fun b => exists_congr fun left => and_congr_left' (hform b)

/-- A known failure needs no bytes, and after a known success nothing is left to fail. -/
theorem refuses_lift_bind {outcome : Except WireError α} (b : β) :
    ((liftM outcome : Reader α) >>= fun _ => (pure b : Reader β)).Refuses limits e
      (fun bytes => outcome = .error e ∧ bytes = []) := by
  intro source
  rw [fails_bind_iff, fails_lift_iff]
  constructor
  · rintro (hfails | ⟨_, _, _, ⟨⟩⟩)
    exact ⟨[], source.pending, ⟨hfails, rfl⟩, rfl⟩
  · rintro ⟨_, _, ⟨hfails, -⟩, -⟩
    exact Or.inl hfails

/-- Behind a part that spares the kind of the failure, the second part has to fail. -/
theorem Decodes.bind_refuses {first : Reader α} {next : α → Reader β} {form : WireForm α}
    {form' : α → Bytes → Prop} (hfirst : first.Decodes limits form)
    (hspares : first.Spares kind limits) (hkind : e.kind = kind)
    (hnext : ∀ a, (next a).Refuses limits e (form' a)) :
    (first >>= next).Refuses limits e
      (fun b => ∃ a e₁ e₂, form a e₁ ∧ form' a e₂ ∧ b = e₁ ++ e₂) := by
  intro source
  constructor
  · intro hfails
    rcases fails_bind_iff.mp hfails with hfails | ⟨a, rest, hread, hfails⟩
    · exact absurd hkind (hspares source e hfails)
    · obtain ⟨e₁, hform, hpending⟩ := (hfirst source a rest.pending).mp ⟨rest, hread, rfl⟩
      obtain ⟨e₂, left, hform', hrest⟩ := (hnext a rest).mp hfails
      refine ⟨e₁ ++ e₂, left, ⟨a, e₁, e₂, hform, hform', rfl⟩, ?_⟩
      rw [hpending, hrest, List.append_assoc]
  · rintro ⟨_, left, ⟨a, e₁, e₂, hform, hform', rfl⟩, hpending⟩
    rw [List.append_assoc] at hpending
    refine (hfirst.finds hform hpending).bind_fails fun rest hrest => ?_
    exact (hnext a rest).mpr ⟨e₂, left, hform', hrest⟩

end Reader

-- ── No width is wrong in what was read ───────────────────────────────────────────

namespace Segment

variable {s : Segment}

/-- A segment that fits has the width of its tag, so that only its tag can be wrong for a number. -/
theorem Fits.spares_number (h : s.Fits) {tag : Tag} {width : Nat}
    (hlayout : tag.layout = .fixed width) : Spares .sizeMismatch (s.number tag width) := by
  refine .ite (fun _ => spares_error (by rintro ⟨⟩)) fun htag =>
    .ite (fun hwidth => ?_) fun _ => spares_ok _
  rw [← Decidable.not_not.mp htag] at hlayout
  exact absurd (h.length_eq hlayout) hwidth

theorem Fits.spares_version (h : s.Fits) : Spares .sizeMismatch s.version :=
  (h.spares_number rfl).bind fun _ _ => spares_ok _

theorem Fits.spares_endCount (h : s.Fits) : Spares .sizeMismatch s.endCount :=
  (h.spares_number rfl).bind fun _ _ => spares_ok _

theorem Fits.spares_countAs (h : s.Fits) {regular large : Tag}
    (hregular : regular.layout = .fixed 2) (hlarge : large.layout = .fixed 8) :
    Spares .sizeMismatch (s.countAs regular large) :=
  .ite (fun _ => (h.spares_number hregular).bind fun _ _ => spares_ok _) fun _ =>
    .ite (fun _ => (h.spares_number hlarge).bind fun _ _ => spares_ok _) fun _ =>
      spares_error (by rintro ⟨⟩)

theorem spares_text (s : Segment) : Spares .sizeMismatch s.text := by
  refine .ite (fun _ => ?_) fun _ => spares_error (by rintro ⟨⟩)
  cases Utf8.decode? s.payload with
  | none => exact spares_error (by rintro ⟨⟩)
  | some t => exact spares_ok t

theorem spares_binary (s : Segment) : Spares .sizeMismatch s.binary :=
  .ite (fun _ => spares_ok _) fun _ => spares_error (by rintro ⟨⟩)

/-- **No kind of value is refused for the width of a payload that fits.** -/
theorem Fits.spares_get (h : s.Fits) (kind : Kind) : Spares .sizeMismatch (s.get kind) := by
  cases kind with
  | documentStart => exact h.spares_version.bind fun _ _ => spares_ok _
  | documentEnd => exact h.spares_endCount.bind fun _ _ => spares_ok _
  | text => exact s.spares_text.bind fun _ _ => spares_ok _
  | binary => exact s.spares_binary.bind fun _ _ => spares_ok _
  | listIndex =>
      rw [get, listCount_eq_countAs]
      exact (h.spares_countAs rfl rfl).bind fun _ _ => spares_ok _
  | mapIndex =>
      rw [get, mapCount_eq_countAs]
      exact (h.spares_countAs rfl rfl).bind fun _ _ => spares_ok _
  | _ => exact (h.spares_number rfl).bind fun _ _ => spares_ok _

end Segment

variable {limits : Limits}

theorem readTag_spares : readTag.Spares .sizeMismatch limits := by
  refine (Reader.spares_number 1 rfl).bind fun _ code _ _ => Reader.spares_lift ?_
  rw [Tag.ofCode]
  cases Tag.ofCode? (.ofNat code) with
  | none => exact spares_error (by rintro ⟨⟩)
  | some tag => exact spares_ok tag

theorem readLength_spares (tag : Tag) : (readLength tag).Spares .sizeMismatch limits := by
  rw [readLength]
  cases tag.layout with
  | fixed width => exact Reader.spares_pure width
  | sized field =>
      exact (Reader.spares_number field rfl).bind fun _ length _ _ => Reader.spares_limits <|
        .unless (by rintro ⟨⟩) fun _ => Reader.spares_pure length

/-- The payload has the length that was read for it, so that the last check of it never strikes. -/
theorem readSegment_spares : readSegment.Spares .sizeMismatch limits := by
  refine readTag_spares.bind fun _ tag _ _ => (readLength_spares tag).bind
    fun _ length _ hlength => (Reader.spares_exactly length rfl).bind
      fun _ payload _ hpayload => Reader.spares_lift ?_
  -- what was read as a length is a length that the tag allows
  obtain ⟨_, ⟨hallows, -⟩, -⟩ := (readLength_decodes limits tag _ _ _).mp hlength
  obtain ⟨_, ⟨rfl, rfl⟩, -⟩ := (Reader.decodes_exactly length _ _ _).mp hpayload
  have hwf : (Segment.mk tag payload).WellFormed := hallows
  rw [show Segment.ofParts tag payload = _ from hwf.ofParts_eq]
  exact spares_ok _

theorem readSegment_wellFormed {source : Source} {s : Segment} {left : Bytes}
    (h : readSegment.Finds limits source s left) : s.WellFormed := by
  obtain ⟨_, ⟨hadmitted, -⟩, -⟩ := (readSegment_decodes limits source s left).mp h
  exact hadmitted.wellFormed

theorem readField_spares : readField.Spares .sizeMismatch limits := by
  refine readSegment_spares.bind fun _ s _ _ => Reader.spares_lift ?_
  rw [Field.ofSegment]
  split
  · exact spares_ok _
  · exact spares_error (by rintro ⟨⟩)

theorem checkContainer_spares (count : Nat) :
    (checkContainer count).Spares .sizeMismatch limits :=
  Reader.spares_limits <| .unless (by rintro ⟨⟩) fun _ => Reader.spares_pure ()

/-- The loop over the items of a list: the induction is on the number of them still to come. -/
theorem readFields_spares (count : Nat) (before : Array Field) :
    (readFields count before).Spares .sizeMismatch limits := by
  induction count generalizing before with
  | zero => exact Reader.spares_pure before
  | succ count ih => exact readField_spares.bind fun _ field _ _ => ih (before.push field)

theorem readList_spares : readList.Spares .sizeMismatch limits := by
  refine readSegment_spares.bind fun _ index _ hindex => ?_
  have hcount : Spares .sizeMismatch index.listCount :=
    index.listCount_eq_countAs ▸ (readSegment_wellFormed hindex).fits.spares_countAs rfl rfl
  exact (Reader.spares_lift hcount).bind fun _ count _ _ =>
    (checkContainer_spares _).bind fun _ _ _ _ =>
      (readFields_spares count.toNat #[]).bind fun _ _ _ _ => Reader.spares_pure _

theorem readKey_spares : readKey.Spares .sizeMismatch limits :=
  readSegment_spares.bind fun _ key _ _ =>
    .unless (by rintro ⟨⟩) fun _ => Reader.spares_lift key.spares_text

theorem readPairs_spares (count : Nat) (before : FieldMap) :
    (readPairs count before).Spares .sizeMismatch limits := by
  induction count generalizing before with
  | zero => exact Reader.spares_pure before
  | succ count ih =>
      exact readKey_spares.bind fun _ key _ _ => readField_spares.bind fun _ value _ _ =>
        .unless (by rintro ⟨⟩) fun _ => ih (before.insert key value)

theorem readMap_spares : readMap.Spares .sizeMismatch limits := by
  refine readSegment_spares.bind fun _ index _ hindex => ?_
  have hcount : Spares .sizeMismatch index.mapCount :=
    index.mapCount_eq_countAs ▸ (readSegment_wellFormed hindex).fits.spares_countAs rfl rfl
  exact (Reader.spares_lift hcount).bind fun _ count _ _ =>
    (checkContainer_spares _).bind fun _ _ _ _ => readPairs_spares count.toNat .empty

theorem readStart_spares : readStart.Spares .sizeMismatch limits :=
  readSegment_spares.bind fun _ _ _ hstart => .unless (by rintro ⟨⟩) fun _ =>
    (Reader.spares_lift (readSegment_wellFormed hstart).fits.spares_version).bind fun _ _ _ _ =>
      .unless (by rintro ⟨⟩) fun _ => Reader.spares_pure ()

theorem readCommand_spares : readCommand.Spares .sizeMismatch limits :=
  readSegment_spares.bind fun _ command _ _ => .unless (by rintro ⟨⟩) fun _ =>
    Reader.spares_limits <| .unless (by rintro ⟨⟩) fun _ => Reader.spares_lift command.spares_text

/-- The loop over the members of a document, as far as it goes. The induction follows the loop. -/
theorem readMembers_spares (before : Array Segment) :
    Reader.Spares (readMembers before) .sizeMismatch limits := by
  intro source
  show Spares .sizeMismatch (readMembers before limits source)
  fun_induction readMembers before limits source with
  | case1 before source e hread => exact spares_error (readSegment_spares source e hread)
  | case2 before source s rest hread htag => exact spares_ok _
  | case3 before source s rest hread htag hfull => exact spares_error (by rintro ⟨⟩)
  | case4 before source s rest hread htag hfull ih => exact ih

-- ── Segments in a place of others ────────────────────────────────────────────────

/-- Any other segment than a plain string is refused as a key. -/
theorem readKey_fails_of_tag {source : Source} {s : Segment} {left : Bytes} (hs : s.Admitted limits)
    (htag : s.tag ≠ .string) (hpending : source.pending = s.encoding ++ left) :
    readKey.Fails limits source (.keyNotString s.tag) :=
  ((readSegment_decodes limits).finds ⟨hs, rfl⟩ hpending).bind_fails fun _ _ =>
    Reader.fails_unless_of htag

/-- A segment is refused as a field exactly if its tag is a container index. -/
theorem Field.ofSegment_eq_error_iff {s : Segment} {e : WireError} :
    ofSegment s = .error e ↔ s.tag.isContainer = true ∧ e = .nestedContainer s.tag := by
  rw [ofSegment]
  split
  · next hplain =>
    refine iff_of_false (fun h => ?_) fun h => ?_
    · cases h
    · exact Bool.false_ne_true (hplain.symm.trans h.1)
  · next hcontainer =>
    rw [Except.error.injEq, and_iff_right (Bool.not_eq_false _ ▸ hcontainer)]
    exact eq_comm

/-- So a container index is refused where a field is read. -/
theorem readField_fails_of_container {source : Source} {s : Segment} {left : Bytes}
    (hs : s.Admitted limits) (hcontainer : s.tag.isContainer = true)
    (hpending : source.pending = s.encoding ++ left) :
    readField.Fails limits source (.nestedContainer s.tag) := by
  refine ((readSegment_decodes limits).finds ⟨hs, rfl⟩ hpending).bind_fails fun _ _ => ?_
  exact Reader.fails_lift_iff.mpr (Field.ofSegment_eq_error_iff.mpr ⟨hcontainer, rfl⟩)

/-- Behind its index, a container within the limits fails as the loop over its members does. -/
theorem container_fails_of_members {α : Type} {countOf : Segment → Except WireError UInt64}
    (members : Nat → Reader α) {source : Source} {index : Segment} {count : Nat} {left : Bytes}
    {e : WireError} (hindex : index.Admitted limits) (hcount : countOf index = .ok (.ofNat count))
    (hword : count ≤ maxWord) (hle : count ≤ limits.container)
    (hpending : source.pending = index.encoding ++ left)
    (hmembers : ∀ rest, rest.pending = left → (members count).Fails limits rest e) :
    Reader.Fails (readSegment >>= fun index => liftM (countOf index) >>= fun count =>
      checkContainer count.toNat >>= fun _ => members count.toNat) limits source e := by
  refine ((readSegment_decodes limits).finds ⟨hindex, rfl⟩ hpending).bind_fails fun rest hrest => ?_
  refine ((Reader.decodes_lift (countOf index)).finds ⟨hcount, rfl⟩ hrest).bind_fails
    fun rest hrest => ?_
  rw [Segment.toNat_ofNat_of_le hword]
  have hcheck : (checkContainer count).Finds limits rest () left :=
    (checkContainer_decodes limits count).finds ⟨hle, rfl⟩ hrest
  exact hcheck.bind_fails hmembers

/-- Behind an index, a list fails as the loop over its items does. -/
theorem readList_fails_of_fields {source : Source} {index : Segment} {count : Nat} {left : Bytes}
    {e : WireError} (hindex : Segment.StatesCount .list .largeList count index)
    (hle : count ≤ limits.container) (hpending : source.pending = index.encoding ++ left)
    (hfields : ∀ rest, rest.pending = left → (readFields count #[]).Fails limits rest e) :
    readList.Fails limits source e := by
  exact container_fails_of_members
    (fun count => readFields count #[] >>= fun fields => pure (FieldList.mk fields))
    (hindex.admitted rfl rfl limits) hindex.listCount_eq hindex.le_maxWord hle hpending
    fun rest hrest => (hfields rest hrest).bind

/-- Behind an index, a map fails as the loop over its pairs does. -/
theorem readMap_fails_of_pairs {source : Source} {index : Segment} {count : Nat} {left : Bytes}
    {e : WireError} (hindex : Segment.StatesCount .map .largeMap count index)
    (hle : count ≤ limits.container) (hpending : source.pending = index.encoding ++ left)
    (hpairs : ∀ rest, rest.pending = left → (readPairs count .empty).Fails limits rest e) :
    readMap.Fails limits source e := by
  exact container_fails_of_members (fun count => readPairs count .empty)
    (hindex.admitted rfl rfl limits) hindex.mapCount_eq hindex.le_maxWord hle hpending hpairs

section More

variable {source : Source} {index : Segment} {count : Nat} {left : Bytes} {e : WireError}

/-- Behind an index that states more items than a list has, a reader of lists fails as the next round of
    the loop over them does. -/
theorem FieldList.Encodable.readList_fails_of_next {l : FieldList} (h : l.Encodable)
    (hindex : Segment.StatesCount .list .largeList count index) (hlt : l.length < count)
    (hpending : source.pending = (index :: l.members).flatMap Segment.encoding ++ left)
    (hnext : ∀ more rest, rest.pending = left →
      (readFields (more + 1) l.items).Fails .unbounded rest e) :
    readList.Fails .unbounded source e := by
  rw [List.flatMap_cons, List.append_assoc] at hpending
  obtain ⟨more, rfl⟩ := Nat.exists_eq_add_of_lt hlt
  refine readList_fails_of_fields hindex hindex.le_maxWord hpending fun rest hrest => ?_
  have hfirst : (readFields l.length #[]).Finds .unbounded rest l.items left :=
    (readFields_decodes .unbounded l.length #[]).finds ⟨l.items.toList, Array.length_toList, rfl,
      (FieldList.admitted_unbounded_iff.mpr h).items, rfl⟩ hrest
  rw [Nat.add_assoc, readFields_add]
  exact hfirst.bind_fails (hnext more)

/-- Behind an index that states more pairs than a map has, a reader of maps fails as the next round of
    the loop over them does. -/
theorem FieldMap.Encodable.readMap_fails_of_next {m : FieldMap} (h : m.Encodable)
    (hindex : Segment.StatesCount .map .largeMap count index) (hlt : m.length < count)
    (hpending : source.pending = (index :: m.members).flatMap Segment.encoding ++ left)
    (hnext : ∀ more rest, rest.pending = left → (readPairs (more + 1) m).Fails .unbounded rest e) :
    readMap.Fails .unbounded source e := by
  rw [List.flatMap_cons, List.append_assoc] at hpending
  obtain ⟨more, rfl⟩ := Nat.exists_eq_add_of_lt hlt
  refine readMap_fails_of_pairs hindex hindex.le_maxWord hpending fun rest hrest => ?_
  have hfirst : (readPairs m.length .empty).Finds .unbounded rest m left :=
    (readPairs_decodes .unbounded m.length FieldMap.indexed_empty).finds ⟨m.entries.toList,
      Array.length_toList, rfl, h.indexed, (FieldMap.admitted_unbounded_iff.mpr h).pairs, rfl⟩ hrest
  rw [Nat.add_assoc, readPairs_add]
  exact hfirst.bind_fails (hnext more)

end More

end SegmentWire
