import SegmentWire.Stream
import SegmentWire.Proofs.IndexCodec

/-!
# Two runs of one reader

A reader is put together from ways to take bytes from a source, from checks of what the bytes say, and
from checks against the limits. Whatever a pair of sources have in common, if taking bytes from both
of them keeps it, then so does every reader, also where the two runs take their bytes in different
ways: they go through the same steps until both are done or one of them fails.

* **`Comparison`** — what two runs are given, and how their outcomes may differ.
* **`Reader.Matches`** — two reads whose runs have outcomes that differ in this way only, which
  **`Reader.Respects`** says of two runs of one read; **`Matches.of_ok`** and **`Matches.of_error`**
  say what this makes of the first outcome.
* **`Matches.bind`**, **`Matches.unless`**, **`Matches.limited`**, **`matches_lift`** — how such reads are
  put together.
* **`readItem_matches`** — the readers of every kind of item match in every comparison.
-/

namespace SegmentWire

-- ── Failures on content ──────────────────────────────────────────────────────────

/-- A failure of this kind is one for what the bytes say, not for how many there are or how they
    arrive. -/
def ErrorKind.isContent : ErrorKind → Bool
  | shortRead | io => false
  | _ => true

/-- The failure is one for what the bytes say. -/
def WireError.OnContent (e : WireError) : Prop := e.kind.isContent = true

theorem WireError.OnContent.kind_ne_shortRead {e : WireError} (h : e.OnContent) :
    e.kind ≠ .shortRead := by
  intro hkind
  rw [OnContent, hkind] at h
  cases h

theorem WireError.OnContent.kind_ne_io {e : WireError} (h : e.OnContent) : e.kind ≠ .io := by
  intro hkind
  rw [OnContent, hkind] at h
  cases h

/-- The outcome fails, if at all, for what the bytes say. -/
def FailsOnContent {α : Type} (outcome : Except WireError α) : Prop :=
  ∀ e, outcome = .error e → e.OnContent

section FailsOnContent

variable {α β : Type}

theorem failsOnContent_ok (a : α) : FailsOnContent (.ok a) := nofun

theorem failsOnContent_error {e : WireError} (h : e.OnContent) :
    FailsOnContent (.error e : Except WireError α) := by
  rintro _ ⟨⟩
  exact h

/-- A check of the content decides between two outcomes. -/
theorem FailsOnContent.ite {c : Prop} [Decidable c] {first second : Except WireError α}
    (hfirst : FailsOnContent first) (hsecond : FailsOnContent second) :
    FailsOnContent (if c then first else second) := by
  split
  · exact hfirst
  · exact hsecond

/-- A check in front of an outcome may refuse the content as well. -/
theorem FailsOnContent.unless {c : Prop} [Decidable c] {refusal : WireError}
    {next : Except WireError α} (hrefusal : refusal.OnContent) (hnext : FailsOnContent next) :
    FailsOnContent (if c then .error refusal else next) :=
  .ite (failsOnContent_error hrefusal) hnext

theorem FailsOnContent.bind {first : Except WireError α} {next : α → Except WireError β}
    (hfirst : FailsOnContent first) (hnext : ∀ a, FailsOnContent (next a)) :
    FailsOnContent (first >>= next) := by
  cases first with
  | error e => exact failsOnContent_error (hfirst e rfl)
  | ok a => exact hnext a

end FailsOnContent

theorem Tag.failsOnContent_ofCode (code : UInt8) : FailsOnContent (Tag.ofCode code) := by
  rw [Tag.ofCode]
  cases Tag.ofCode? code with
  | some tag => exact failsOnContent_ok tag
  | none => exact failsOnContent_error rfl

theorem Field.failsOnContent_ofSegment (s : Segment) : FailsOnContent (Field.ofSegment s) := by
  rw [Field.ofSegment]
  by_cases hplain : s.tag.isContainer = false
  · rw [dif_pos hplain]
    exact failsOnContent_ok _
  · rw [dif_neg hplain]
    exact failsOnContent_error rfl

namespace Segment

theorem failsOnContent_ofParts (tag : Tag) (payload : Bytes) :
    FailsOnContent (ofParts tag payload) := by
  rw [ofParts]
  cases tag.fixedWidth with
  | some width => exact .ite (failsOnContent_ok _) (failsOnContent_error rfl)
  | none => exact .unless rfl (failsOnContent_ok _)

variable (s : Segment)

theorem failsOnContent_number (tag : Tag) (width : Nat) : FailsOnContent (s.number tag width) :=
  .unless rfl (.unless rfl (failsOnContent_ok _))

theorem failsOnContent_version : FailsOnContent s.version :=
  (s.failsOnContent_number _ _).bind fun _ => failsOnContent_ok _

theorem failsOnContent_endCount : FailsOnContent s.endCount :=
  (s.failsOnContent_number _ _).bind fun _ => failsOnContent_ok _

theorem failsOnContent_countAs (regular large : Tag) :
    FailsOnContent (s.countAs regular large) := by
  have hcount : ∀ tag width,
      FailsOnContent (s.number tag width >>= fun n => pure (UInt64.ofNat n)) :=
    fun tag width => (s.failsOnContent_number tag width).bind fun _ => failsOnContent_ok _
  exact .ite (hcount _ _) (.ite (hcount _ _) (failsOnContent_error rfl))

theorem failsOnContent_listCount : FailsOnContent s.listCount :=
  s.listCount_eq_countAs ▸ s.failsOnContent_countAs _ _

theorem failsOnContent_mapCount : FailsOnContent s.mapCount :=
  s.mapCount_eq_countAs ▸ s.failsOnContent_countAs _ _

theorem failsOnContent_text : FailsOnContent s.text := by
  refine .ite ?_ (failsOnContent_error rfl)
  cases Utf8.decode? s.payload with
  | some t => exact failsOnContent_ok t
  | none => exact failsOnContent_error rfl

end Segment

theorem failsOnContent_checkEnd (marker : Segment) (count : Nat) :
    FailsOnContent (checkEnd marker count) :=
  .unless rfl (marker.failsOnContent_endCount.bind fun _ =>
    .unless rfl (failsOnContent_ok _))

-- ── Comparisons ──────────────────────────────────────────────────────────────────

/-- Each limit is at most the other one. -/
instance : LE Limits where
  le tight loose := tight.payload ≤ loose.payload ∧ tight.container ≤ loose.container ∧
    tight.document ≤ loose.document ∧ tight.command ≤ loose.command

instance (tight loose : Limits) : Decidable (tight ≤ loose) :=
  inferInstanceAs (Decidable (_ ∧ _ ∧ _ ∧ _))

theorem Limits.le_refl (limits : Limits) : limits ≤ limits :=
  ⟨Nat.le_refl _, Nat.le_refl _, Nat.le_refl _, Nat.le_refl _⟩

/-- How the outcomes of two runs may go together: both find the same value and leave sources of a
    kind, or both fail and the errors correspond, or the first fails with an error that excuses
    whatever the second one does. -/
inductive Alike (sources : Source → Source → Prop) (errors : WireError → WireError → Prop)
    (excused : WireError → Prop) {α : Type} :
    Except WireError (α × Source) → Except WireError (α × Source) → Prop
  | found (a : α) {rest rest' : Source} (h : sources rest rest') :
      Alike sources errors excused (.ok (a, rest)) (.ok (a, rest'))
  | failed {e e' : WireError} (h : errors e e') :
      Alike sources errors excused (.error e) (.error e')
  | excused {e : WireError} (h : excused e) (outcome : Except WireError (α × Source)) :
      Alike sources errors excused (.error e) outcome

namespace Alike

variable {sources : Source → Source → Prop} {errors : WireError → WireError → Prop}
  {excused : WireError → Prop} {α : Type} {outcome : Except WireError (α × Source)}

/-- Where the first run finds a value, the second one finds it too. -/
theorem of_ok {a : α} {rest : Source} (h : Alike sources errors excused (.ok (a, rest)) outcome) :
    ∃ rest', outcome = .ok (a, rest') ∧ sources rest rest' := by
  cases h with
  | found _ hrest => exact ⟨_, rfl, hrest⟩

/-- Where the first run fails without an excuse, the second one fails too. -/
theorem of_error {e : WireError} (h : Alike sources errors excused (.error e) outcome)
    (hexcused : ¬ excused e) : ∃ e', outcome = .error e' ∧ errors e e' := by
  cases h with
  | failed herrors => exact ⟨_, rfl, herrors⟩
  | excused h _ => exact absurd h hexcused

end Alike

/-- The excuse for no error at all. -/
def noExcuse (_ : WireError) : Prop := False

theorem noExcuse_or_self (limits : Limits) (e : WireError) (_ : e.kind = .limit) :
    noExcuse e ∨ limits = limits :=
  Or.inr rfl

/-- What two runs of a reader are given, and how their outcomes may differ. Bytes taken from sources that
    go together have to differ in this way only, and a failure on content has to be shared. Limits may
    be looser in the second run if a failure for the limits in the first is excused. -/
structure Comparison (first second : Fetch) where
  /-- The limits of the first run. -/
  tight : Limits
  /-- The limits of the second run. -/
  loose : Limits
  /-- The sources that go together. -/
  sources : Source → Source → Prop
  /-- The errors that go together. -/
  errors : WireError → WireError → Prop
  /-- The errors of the first run that say nothing about the second one. -/
  excused : WireError → Prop
  tight_le_loose : tight ≤ loose
  excused_or_eq : ∀ e, e.kind = .limit → excused e ∨ tight = loose
  errors_of_onContent : ∀ e, e.OnContent → errors e e
  alike_take : ∀ (portion : Portion) (want : Nat) (source source' : Source), sources source source' →
    Alike sources errors excused (first.take portion want tight source)
      (second.take portion want loose source')

variable {first second : Fetch} {c : Comparison first second} {α β : Type}

namespace Comparison

/-- How the outcomes of two compared runs go together. -/
abbrev Outcomes (c : Comparison first second) :
    Except WireError (α × Source) → Except WireError (α × Source) → Prop :=
  Alike c.sources c.errors c.excused

/-- Outcomes that go together do so after one more step, if the step keeps sources together. -/
theorem Outcomes.bind {outcome outcome' : Except WireError (α × Source)}
    {next next' : α × Source → Except WireError (β × Source)} (h : c.Outcomes outcome outcome')
    (hnext : ∀ a rest rest', outcome = .ok (a, rest) → c.sources rest rest' →
      c.Outcomes (next (a, rest)) (next' (a, rest'))) :
    c.Outcomes (outcome >>= next) (outcome' >>= next') := by
  cases h with
  | found a hrest => exact hnext a _ _ rfl hrest
  | failed herrors => exact .failed herrors
  | excused hexcused _ => exact .excused hexcused _

end Comparison

namespace Reader

/-- The runs of the two reads on sources that go together have outcomes that go together. -/
def Matches (read read' : Reader α) (c : Comparison first second) : Prop :=
  ∀ source source', c.sources source source' →
    c.Outcomes (read c.tight source) (read' c.loose source')

/-- The two runs of the read do. -/
abbrev Respects (read : Reader α) (c : Comparison first second) : Prop := read.Matches read c

/-- Where the first run finds a value, the second one finds it too. -/
theorem Matches.of_ok {read read' : Reader α} (h : read.Matches read' c)
    {source source' rest : Source} {a : α} (hsources : c.sources source source')
    (hfound : read.runOn c.tight source = .ok (a, rest)) :
    ∃ rest', read'.runOn c.loose source' = .ok (a, rest') ∧ c.sources rest rest' := by
  have houtcomes : c.Outcomes (read.runOn c.tight source) (read'.runOn c.loose source') :=
    h source source' hsources
  rw [hfound] at houtcomes
  exact houtcomes.of_ok

/-- Where the first run fails without an excuse, the second one fails too. -/
theorem Matches.of_error {read read' : Reader α} (h : read.Matches read' c)
    {source source' : Source} {e : WireError} (hsources : c.sources source source')
    (hfailed : read.runOn c.tight source = .error e) (hexcused : ¬ c.excused e) :
    ∃ e', read'.runOn c.loose source' = .error e' ∧ c.errors e e' := by
  have houtcomes : c.Outcomes (read.runOn c.tight source) (read'.runOn c.loose source') :=
    h source source' hsources
  rw [hfailed] at houtcomes
  exact houtcomes.of_error hexcused

-- ── Putting reads together ───────────────────────────────────────────────────────

theorem matches_take (portion : Portion) (want : Nat) :
    (first.take portion want).Matches (second.take portion want) c :=
  c.alike_take portion want

theorem matches_pure (a : α) : (pure a : Reader α).Respects c :=
  fun _ _ h => .found a h

theorem matches_lift {outcome : Except WireError α} (h : FailsOnContent outcome) :
    (liftM outcome : Reader α).Respects c := by
  intro source source' hsources
  cases outcome with
  | error e => exact .failed (c.errors_of_onContent e (h e rfl))
  | ok a => exact .found a hsources

theorem Matches.bind {read read' : Reader α} {next next' : α → Reader β}
    (hread : read.Matches read' c) (hnext : ∀ a, (next a).Matches (next' a) c) :
    (read >>= next).Matches (read' >>= next') c :=
  fun source source' h => (hread source source' h).bind fun a rest rest' _ hrest =>
    hnext a rest rest' hrest

theorem Matches.map {read read' : Reader α} (h : read.Matches read' c) (change : α → β) :
    (change <$> read).Matches (change <$> read') c :=
  h.bind fun a => matches_pure (change a)

theorem matches_number (width : Nat) : (@number first width).Matches (@number second width) c :=
  (matches_take .head width).bind fun _ => matches_pure _

/-- A refusal of content in front of two reads strikes both runs. -/
theorem Matches.unless {p : Prop} [Decidable p] {refusal : WireError} {next next' : Reader α}
    (hrefusal : refusal.OnContent) (hnext : next.Matches next' c) :
    (if p then throw refusal else next).Matches (if p then throw refusal else next') c := by
  split
  · exact fun _ _ _ => .failed (c.errors_of_onContent refusal hrefusal)
  · exact hnext

section Limited

variable {exceeds : Limits → Prop} [DecidablePred exceeds] {refusal : Limits → WireError}
  (hexceeds : ∀ {tight loose : Limits}, tight ≤ loose → exceeds loose → exceeds tight)
  (hrefusal : ∀ limits, (refusal limits).kind = .limit)
include hexceeds hrefusal

/-- A check against the limits strikes the first run, and then it is excused or strikes the second
    one as well, or it strikes neither of them. -/
theorem limited_outcomes {next next' : Reader α} {source source' : Source}
    (hnext : c.Outcomes (next c.tight source) (next' c.loose source')) :
    let limited (next : Reader α) : Reader α := read >>= fun limits =>
      if exceeds limits then throw (refusal limits) else next
    c.Outcomes (limited next c.tight source) (limited next' c.loose source') := by
  show c.Outcomes ((if exceeds c.tight then throw (refusal c.tight) else next) c.tight source)
    ((if exceeds c.loose then throw (refusal c.loose) else next') c.loose source')
  by_cases htight : exceeds c.tight
  · rw [if_pos htight]
    rcases c.excused_or_eq (refusal c.tight) (hrefusal c.tight) with hexcused | heq
    · exact .excused hexcused _
    · rw [← heq, if_pos htight]
      refine .failed (c.errors_of_onContent _ ?_)
      rw [WireError.OnContent, hrefusal c.tight]
      rfl
  · rw [if_neg htight, if_neg fun hloose => htight (hexceeds c.tight_le_loose hloose)]
    exact hnext

theorem Matches.limited {next next' : Reader α} (hnext : next.Matches next' c) :
    (read >>= fun limits => if exceeds limits then throw (refusal limits) else next :
      Reader α).Matches
    (read >>= fun limits => if exceeds limits then throw (refusal limits) else next') c :=
  fun source source' h => limited_outcomes hexceeds hrefusal (hnext source source' h)

end Limited

end Reader

-- ── All readers ──────────────────────────────────────────────────────────────────

theorem readTag_matches : (@readTag first).Matches (@readTag second) c :=
  (Reader.matches_number 1).bind fun _ => Reader.matches_lift (Tag.failsOnContent_ofCode _)

theorem readLength_matches (tag : Tag) :
    (@readLength first tag).Matches (@readLength second tag) c := by
  unfold readLength
  cases tag.layout with
  | fixed width => exact Reader.matches_pure width
  | sized field =>
      exact (Reader.matches_number field).bind fun length =>
        .limited (fun hle h => Nat.lt_of_le_of_lt hle.1 h) (fun _ => rfl)
          (Reader.matches_pure length)

theorem readSegment_matches : (@readSegment first).Matches (@readSegment second) c :=
  readTag_matches.bind fun tag => (readLength_matches tag).bind fun length =>
    (Reader.matches_take .payload length).bind fun payload =>
      Reader.matches_lift (Segment.failsOnContent_ofParts tag payload)

theorem readField_matches : (@readField first).Matches (@readField second) c :=
  readSegment_matches.bind fun s => Reader.matches_lift (Field.failsOnContent_ofSegment s)

theorem checkContainer_matches (count : Nat) : (checkContainer count).Respects c :=
  .limited (fun hle h => Nat.lt_of_le_of_lt hle.2.1 h) (fun _ => rfl) (Reader.matches_pure ())

/-- The loop over the items of a list: the induction is on the number of them still to come. -/
theorem readFields_matches (count : Nat) (before : Array Field) :
    (@readFields first count before).Matches (@readFields second count before) c := by
  induction count generalizing before with
  | zero => exact Reader.matches_pure before
  | succ count ih => exact readField_matches.bind fun field => ih (before.push field)

theorem readList_matches : (@readList first).Matches (@readList second) c :=
  readSegment_matches.bind fun index =>
    (Reader.matches_lift index.failsOnContent_listCount).bind fun count =>
      (checkContainer_matches _).bind fun _ =>
        (readFields_matches count.toNat #[]).bind fun _ => Reader.matches_pure _

theorem readKey_matches : (@readKey first).Matches (@readKey second) c :=
  readSegment_matches.bind fun key =>
    .unless rfl (Reader.matches_lift key.failsOnContent_text)

/-- The loop over the pairs of a map. What the runs have read is the same, so that a key is refused
    as a duplicate in both of them. -/
theorem readPairs_matches (count : Nat) (before : FieldMap) :
    (@readPairs first count before).Matches (@readPairs second count before) c := by
  induction count generalizing before with
  | zero => exact Reader.matches_pure before
  | succ count ih =>
      exact readKey_matches.bind fun key => readField_matches.bind fun value =>
        .unless rfl (ih (before.insert key value))

theorem readMap_matches : (@readMap first).Matches (@readMap second) c :=
  readSegment_matches.bind fun index =>
    (Reader.matches_lift index.failsOnContent_mapCount).bind fun count =>
      (checkContainer_matches _).bind fun _ => readPairs_matches count.toNat .empty

theorem readStart_matches : (@readStart first).Matches (@readStart second) c :=
  readSegment_matches.bind fun start => .unless rfl
    ((Reader.matches_lift start.failsOnContent_version).bind fun _ =>
      .unless rfl (Reader.matches_pure ()))

/-- The loop over the members of a document, one step opened. -/
theorem readMembers_eq [Fetch] (before : Array Segment) :
    readMembers before = readSegment >>= fun s =>
      if s.tag = .documentEnd then pure (before, s)
      else read >>= fun limits =>
        if limits.document ≤ before.size then throw (.documentLimit limits.document)
        else readMembers (before.push s) := by
  funext limits source
  show readMembers before limits source = (readSegment limits source >>= fun r => Reader.runOn
    (if r.1.tag = .documentEnd then pure (before, r.1) else read >>= fun limits =>
      if limits.document ≤ before.size then throw (.documentLimit limits.document)
      else readMembers (before.push r.1)) limits r.2)
  rw [readMembers]
  split
  · next e hread =>
    rw [hread]
    rfl
  · next s rest hread =>
    rw [hread]
    show _ = Reader.runOn (if s.tag = .documentEnd then _ else _) limits rest
    by_cases htag : s.tag = .documentEnd
    · rw [if_pos htag, if_pos htag]
      rfl
    · rw [if_neg htag, if_neg htag]
      show _ = Reader.runOn (if limits.document ≤ before.size then _ else _) limits rest
      split <;> rfl

/-- The loop over the members of a document. Nothing says how many are still to come; the induction
    is on the number of bytes that the first run has left. -/
theorem readMembers_matches (before : Array Segment) :
    Reader.Matches (@readMembers first before) (@readMembers second before) c := by
  intro source source' hsources
  induction hlength : source.pending.length using Nat.strongRecOn
    generalizing before source source' with
  | ind n ih =>
      rw [@readMembers_eq first, @readMembers_eq second]
      refine (readSegment_matches source source' hsources).bind fun s rest rest' hread hrest => ?_
      show c.Outcomes (Reader.runOn (if s.tag = .documentEnd then _ else _) c.tight rest)
        (Reader.runOn (if s.tag = .documentEnd then _ else _) c.loose rest')
      by_cases htag : s.tag = .documentEnd
      · rw [if_pos htag, if_pos htag]
        exact .found (before, s) hrest
      · rw [if_neg htag, if_neg htag]
        exact Reader.limited_outcomes (fun hle h => Nat.le_trans hle.2.2.1 h) (fun _ => rfl)
          (ih _ (hlength ▸ readSegment_pending_lt hread) (before.push s) rest rest' hrest rfl)

theorem readDocument_matches : (@readDocument first).Matches (@readDocument second) c :=
  readStart_matches.bind fun _ => (readMembers_matches #[]).bind fun found =>
    (Reader.matches_lift (failsOnContent_checkEnd found.2 found.1.size)).bind fun _ =>
      Reader.matches_pure _

theorem readCommand_matches : (@readCommand first).Matches (@readCommand second) c :=
  readSegment_matches.bind fun command => .unless rfl
    (.limited (fun hle h => Nat.lt_of_le_of_lt hle.2.2.2 h) (fun _ => rfl)
      (Reader.matches_lift command.failsOnContent_text))

theorem readMessage_matches : (@readMessage first).Matches (@readMessage second) c :=
  readStart_matches.bind fun _ => readCommand_matches.bind fun command =>
    readMap_matches.bind fun attachments => readSegment_matches.bind fun marker =>
      (Reader.matches_lift (failsOnContent_checkEnd marker _)).bind fun _ =>
        Reader.matches_pure (Message.mk command attachments)

/-- **Every reader matches itself in every comparison**, however the two runs take their bytes. -/
theorem readItem_matches (kind : ItemKind) :
    (@readItem first kind).Matches (@readItem second kind) c := by
  cases kind with
  | segment => exact readSegment_matches.map Item.segment
  | field => exact readField_matches.map Item.field
  | list => exact readList_matches.map Item.list
  | map => exact readMap_matches.map Item.map
  | document => exact readDocument_matches.map Item.document
  | message => exact readMessage_matches.map Item.message

end SegmentWire
