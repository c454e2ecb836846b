import SegmentWire.Proofs.Comparison

/-!
# Sources call by call

A read of so many bytes takes as many calls as the source makes it take. There are two loops for it.
A **tag or size field** is filled: each call asks for what is still missing. A **payload** is drained:
the source is cut off at the payload's length and emptied into a buffer, each call asking for as
much as the buffer happens to have room for, and only then the bytes are counted.

Both loops come to the one primitive read `Reader.exactly`, whatever the turns of the source and
whatever the buffer: they find the same bytes, leave the same bytes pending, and fail alike. So does
everything that is put together from them, up to whole messages.

* **`Reader.exactly_of_le`**, **`Reader.exactly_of_lt`** — the primitive read, by the number of bytes
  that are pending; **`Ending.reports`** is what the ending makes of too few.
* **`Source.call`** — one call; **`Source.call_sound`** says what it can do.
* **`Source.fill`**, **`Source.drain`** — the two loops.
* **`Source.seen_fill`**, **`Source.seen_drain`** — both loops are the primitive read.
* **`Fetch.loops`** — bytes taken by the two loops; **`Source.seen_readItem_loops`** — the readers over
  them find what the readers over the primitive read find.
-/

namespace SegmentWire

/-- What a source with this ending makes of a failure: one that fails instead of ending reports its
    own failure where the bytes are too few. -/
def Ending.reports (ending : Ending) (e : WireError) : WireError :=
  if ending = .failing ∧ e.kind = .shortRead then .sourceFailed else e

namespace Ending

theorem reports_of_ne_failing {ending : Ending} (h : ending ≠ .failing) (e : WireError) :
    ending.reports e = e :=
  if_neg fun hfailing => h hfailing.1

theorem reports_of_onContent (ending : Ending) {e : WireError} (h : e.OnContent) :
    ending.reports e = e :=
  if_neg fun hshort => h.kind_ne_shortRead hshort.2

end Ending

-- ── The primitive read ───────────────────────────────────────────────────────────

namespace Reader

variable {want : Nat} {limits : Limits} {source : Source}

/-- The primitive read, by what the source hands out. -/
theorem exactly_eq (want : Nat) (limits : Limits) (source : Source) :
    exactly want limits source =
      if (source.gather want).1.length = want then .ok (source.gather want)
      else .error (source.ending.reports (.shortRead want (source.gather want).1.length)) := by
  have hreports : (if source.ending = .failing then Except.error .sourceFailed
        else Except.error (.shortRead want (source.gather want).1.length)) =
      (Except.error (source.ending.reports (.shortRead want (source.gather want).1.length)) :
        Except WireError (Bytes × Source)) := by
    by_cases hfailing : source.ending = .failing
    · rw [if_pos hfailing, Ending.reports, if_pos ⟨hfailing, rfl⟩]
    · rw [if_neg hfailing, Ending.reports_of_ne_failing hfailing]
  rw [← hreports]
  rfl

/-- If enough bytes are pending, they are read, whatever the ending. -/
theorem exactly_of_le (h : want ≤ source.pending.length) :
    exactly want limits source = .ok (source.pending.take want, (source.gather want).2) := by
  have hlength : (source.gather want).1.length = want := by
    rw [source.gather_bytes, List.length_take, Nat.min_eq_left h]
  rw [exactly_eq, if_pos hlength, ← source.gather_bytes]

/-- If too few bytes are pending, the read fails and says how many there were. -/
theorem exactly_of_lt (h : source.pending.length < want) :
    exactly want limits source =
      .error (source.ending.reports (.shortRead want source.pending.length)) := by
  have hlength : (source.gather want).1.length = source.pending.length := by
    rw [source.gather_bytes, List.length_take, Nat.min_eq_right (Nat.le_of_lt h)]
  rw [exactly_eq, if_neg (by rw [hlength]; exact Nat.ne_of_lt h), hlength]

end Reader

-- ── Single calls ─────────────────────────────────────────────────────────────────

namespace Source

/-- What a call comes back with. -/
inductive Answer where
  /-- Nothing; the call has to be made again. -/
  | interrupted
  /-- The next bytes. -/
  | part (bytes : Bytes)
  /-- Nothing, since no bytes are left. -/
  | ended

/-- A call that yields as many bytes as it can, up to a number of them. -/
def yield (most : Nat) (source : Source) : Answer × Source :=
  if (source.pending.take most).isEmpty then (.ended, source)
  else (.part (source.pending.take most), { source with pending := source.pending.drop most })

/-- One call with room for a number of bytes. -/
def call (room : Nat) (source : Source) : Answer × Source :=
  match source.turns with
  | [] => source.yield room
  | .interrupted :: turns => (.interrupted, { source with turns := turns })
  | .upTo more :: turns => yield (min room (more + 1)) { source with turns := turns }

/-- What a call can do: an interrupted one uses up its turn and nothing else, one with an answer
    takes at least one byte off the front and no more than there is room for, and only where no
    bytes are left does it find the source at its end. -/
def Answer.Sound (room : Nat) (source rest : Source) : Answer → Prop
  | .interrupted => rest.pending = source.pending ∧ rest.turns.length < source.turns.length
  | .part bytes => bytes ≠ [] ∧ bytes.length ≤ room ∧ source.pending = bytes ++ rest.pending ∧
      rest.turns.length ≤ source.turns.length
  | .ended => source.pending = []

theorem yield_sound {most room : Nat} (hpos : 0 < most) (hle : most ≤ room) {source rest : Source}
    {answer : Answer} (h : source.yield most = (answer, rest)) :
    answer.Sound room source rest ∧ rest.ending = source.ending := by
  rw [yield] at h
  split at h
  · next hempty =>
    cases h
    refine ⟨?_, rfl⟩
    rcases List.take_eq_nil_iff.mp (List.isEmpty_iff.mp hempty) with hzero | hpending
    · exact absurd hzero (Nat.ne_of_gt hpos)
    · exact hpending
  · next hempty =>
    cases h
    refine ⟨⟨fun hnil => hempty (List.isEmpty_iff.mpr hnil), ?_, ?_, Nat.le_refl _⟩, rfl⟩
    · exact Nat.le_trans (List.length_take_le most _) hle
    · exact (List.take_append_drop most source.pending).symm

/-- **Every call is sound**, whatever its turn. -/
theorem call_sound {room : Nat} (hroom : 0 < room) {source rest : Source} {answer : Answer}
    (h : source.call room = (answer, rest)) :
    answer.Sound room source rest ∧ rest.ending = source.ending := by
  obtain ⟨pending, turns, ending⟩ := source
  rcases turns with _ | ⟨_ | more, turns⟩
  · exact yield_sound hroom (Nat.le_refl room) h
  · cases h
    exact ⟨⟨rfl, Nat.lt_succ_self _⟩, rfl⟩
  · obtain ⟨hsound, hending⟩ :=
      yield_sound (Nat.lt_min.mpr ⟨hroom, Nat.succ_pos more⟩) (Nat.min_le_left _ _) h
    refine ⟨?_, hending⟩
    cases answer with
    | interrupted => exact ⟨hsound.1, Nat.lt_succ_of_lt hsound.2⟩
    | part bytes => exact ⟨hsound.1, hsound.2.1, hsound.2.2.1, Nat.le_succ_of_le hsound.2.2.2⟩
    | ended => exact hsound

-- ── The two loops ────────────────────────────────────────────────────────────────

/-- Calls for what is missing until `want` bytes are there. -/
def fill (want : Nat) (got : Bytes) (source : Source) : Except WireError (Bytes × Source) :=
  if _hmissing : got.length < want then
    match _h : source.call (want - got.length) with
    | (.interrupted, rest) => fill want got rest
    | (.part bytes, rest) => fill want (got ++ bytes) rest
    | (.ended, rest) => .error (rest.ending.reports (.shortRead want got.length))
  else .ok (got, source)
termination_by source.turns.length + (want - got.length)
decreasing_by
  · have hsound := (call_sound (Nat.sub_pos_of_lt _hmissing) _h).1
    exact Nat.add_lt_add_right hsound.2 _
  · obtain ⟨hne, -, -, hturns⟩ := (call_sound (Nat.sub_pos_of_lt _hmissing) _h).1
    have hpos := List.length_pos_iff.mpr hne
    rw [List.length_append]
    omega

/-- Empties a source that is cut off after `left` more bytes. Each call has room for one byte at least;
    for how many more is up to the buffer, call by call. Where the cut is reached no call is made. -/
def drain (rooms : Nat → Nat) (calls left : Nat) (got : Bytes) (source : Source) :
    Except WireError (Bytes × Source) :=
  if _hleft : 0 < left then
    match _h : source.call (min left (rooms calls + 1)) with
    | (.interrupted, rest) => drain rooms (calls + 1) left got rest
    | (.part bytes, rest) => drain rooms (calls + 1) (left - bytes.length) (got ++ bytes) rest
    | (.ended, rest) => if rest.ending = .failing then .error .sourceFailed else .ok (got, rest)
  else .ok (got, source)
termination_by source.turns.length + left
decreasing_by
  · have hsound := (call_sound (Nat.lt_min.mpr ⟨_hleft, Nat.succ_pos _⟩) _h).1
    exact Nat.add_lt_add_right hsound.2 _
  · obtain ⟨hne, -, -, hturns⟩ := (call_sound (Nat.lt_min.mpr ⟨_hleft, Nat.succ_pos _⟩) _h).1
    have hpos := List.length_pos_iff.mpr hne
    omega

/-- Refuses what has arrived if it is too little. -/
def counted (want : Nat) (found : Bytes × Source) : Except WireError (Bytes × Source) :=
  if found.1.length < want then .error (.shortRead want found.1.length) else .ok found

-- ── Both loops are the primitive read ────────────────────────────────────────────

/-- How a loop has to end that goes on from `got`: with the bytes that were missing taken off the
    front, or with the failure that the ending makes of too few bytes. -/
inductive Gathered (want : Nat) (got : Bytes) (source : Source) :
    Except WireError (Bytes × Source) → Prop
  | enough {more : Bytes} {rest : Source} (hpending : source.pending = more ++ rest.pending)
      (hlength : (got ++ more).length = want) (hending : rest.ending = source.ending) :
      Gathered want got source (.ok (got ++ more, rest))
  | short (h : (got ++ source.pending).length < want) :
      Gathered want got source
        (.error (source.ending.reports (.shortRead want (got ++ source.pending).length)))

/-- One more part does not change how a loop ends. -/
theorem Gathered.of_part {want : Nat} {got part : Bytes} {source rest : Source}
    {outcome : Except WireError (Bytes × Source)} (h : Gathered want (got ++ part) rest outcome)
    (hpending : source.pending = part ++ rest.pending) (hending : rest.ending = source.ending) :
    Gathered want got source outcome := by
  cases h with
  | @enough more last hrest hlength hlast =>
      rw [List.append_assoc] at hlength ⊢
      refine .enough ?_ hlength (hlast.trans hending)
      rw [hpending, hrest, List.append_assoc]
  | short hshort =>
      rw [List.append_assoc, ← hpending] at hshort ⊢
      rw [hending]
      exact .short hshort

/-- Nor does an interruption. -/
theorem Gathered.of_interrupted {want : Nat} {got : Bytes} {source rest : Source}
    {outcome : Except WireError (Bytes × Source)} (h : Gathered want got rest outcome)
    (hpending : rest.pending = source.pending) (hending : rest.ending = source.ending) :
    Gathered want got source outcome := by
  rw [← List.append_nil got] at h
  exact h.of_part hpending.symm hending

/-- Where no bytes are left and some are missing, the bytes are too few. -/
theorem gathered_of_ended {want : Nat} {got : Bytes} {source : Source}
    (hpending : source.pending = []) (hmissing : got.length < want) :
    Gathered want got source (.error (source.ending.reports (.shortRead want got.length))) := by
  have hall : got ++ source.pending = got := by rw [hpending, List.append_nil]
  have hshort : Gathered want got source _ := .short (by rw [hall]; exact hmissing)
  rwa [hall] at hshort

/-- Where nothing is missing, the loop is done. -/
theorem gathered_of_done {got : Bytes} {source : Source} :
    Gathered got.length got source (.ok (got, source)) := by
  have hdone : Gathered got.length got source (.ok (got ++ [], source)) :=
    .enough rfl (congrArg List.length (List.append_nil got)) rfl
  rwa [List.append_nil] at hdone

/-- The loop for tags and size fields, from any point on. The induction follows the loop. -/
theorem gathered_fill {want : Nat} {got : Bytes} (source : Source) (hgot : got.length ≤ want) :
    Gathered want got source (fill want got source) := by
  fun_induction fill want got source with
  | case1 got source hmissing rest h ih =>
      obtain ⟨⟨hpending, -⟩, hending⟩ := call_sound (Nat.sub_pos_of_lt hmissing) h
      exact (ih hgot).of_interrupted hpending hending
  | case2 got source hmissing part rest h ih =>
      obtain ⟨⟨-, hle, hpending, -⟩, hending⟩ := call_sound (Nat.sub_pos_of_lt hmissing) h
      refine (ih ?_).of_part hpending hending
      rw [List.length_append]
      omega
  | case3 got source hmissing rest h =>
      obtain ⟨hended, hending⟩ := call_sound (Nat.sub_pos_of_lt hmissing) h
      rw [hending]
      exact gathered_of_ended hended hmissing
  | case4 got source hmissing =>
      obtain rfl : got.length = want := Nat.le_antisymm hgot (Nat.not_lt.mp hmissing)
      exact gathered_of_done

/-- The loop for payloads, from any point on. The cut is where the missing bytes end, so that no call
    asks for a byte behind them. -/
theorem gathered_drain {want left : Nat} {got : Bytes} (rooms : Nat → Nat) (calls : Nat)
    (source : Source) (hleft : got.length + left = want) :
    Gathered want got source (drain rooms calls left got source >>= counted want) := by
  fun_induction drain rooms calls left got source with
  | case1 calls left got source hpos rest h ih =>
      obtain ⟨⟨hpending, -⟩, hending⟩ :=
        call_sound (Nat.lt_min.mpr ⟨hpos, Nat.succ_pos _⟩) h
      exact (ih hleft).of_interrupted hpending hending
  | case2 calls left got source hpos part rest h ih =>
      obtain ⟨⟨-, hle, hpending, -⟩, hending⟩ :=
        call_sound (Nat.lt_min.mpr ⟨hpos, Nat.succ_pos _⟩) h
      refine (ih ?_).of_part hpending hending
      rw [List.length_append]
      omega
  | case3 calls left got source hpos rest h hfailing =>
      obtain ⟨hended, hending⟩ := call_sound (Nat.lt_min.mpr ⟨hpos, Nat.succ_pos _⟩) h
      have hmissing : got.length < want := by omega
      have hshort := gathered_of_ended hended hmissing
      rw [← hending, Ending.reports, if_pos ⟨hfailing, rfl⟩] at hshort
      exact hshort
  | case4 calls left got source hpos rest h hfailing =>
      obtain ⟨hended, hending⟩ := call_sound (Nat.lt_min.mpr ⟨hpos, Nat.succ_pos _⟩) h
      have hmissing : got.length < want := by omega
      have hshort := gathered_of_ended hended hmissing
      rw [← hending, Ending.reports_of_ne_failing hfailing] at hshort
      show Gathered want got source (counted want (got, rest))
      rw [counted, if_pos hmissing]
      exact hshort
  | case5 calls left got source hpos =>
      obtain rfl : got.length = want := by omega
      show Gathered got.length got source (counted got.length (got, source))
      rw [counted, if_neg (Nat.lt_irrefl _)]
      exact gathered_of_done

/-- What can be told of an outcome without looking at the turns of the source. -/
def seen {α : Type} (outcome : Except WireError (α × Source)) :
    Except WireError (α × Bytes × Ending) :=
  outcome.map fun found => (found.1, found.2.pending, found.2.ending)

/-- What is seen of the primitive read depends on the bytes that are pending and on the ending. -/
theorem seen_exactly (want : Nat) (limits : Limits) (source : Source) :
    seen (Reader.exactly want limits source) =
      if want ≤ source.pending.length then
        .ok (source.pending.take want, source.pending.drop want, source.ending)
      else .error (source.ending.reports (.shortRead want source.pending.length)) := by
  rcases Nat.lt_or_ge source.pending.length want with hlt | hle
  · rw [Reader.exactly_of_lt hlt, if_neg (Nat.not_le.mpr hlt)]
    rfl
  · rw [Reader.exactly_of_le hle, if_pos hle, ← source.gather_pending, ← source.gather_ending want]
    rfl

/-- A loop that ends as it has to ends like the primitive read. -/
theorem Gathered.seen_eq {want : Nat} {source : Source}
    {outcome : Except WireError (Bytes × Source)} (h : Gathered want [] source outcome)
    (limits : Limits) : seen outcome = seen (Reader.exactly want limits source) := by
  rw [seen_exactly]
  cases h with
  | @enough more rest hpending hlength hending =>
      obtain rfl : more.length = want := hlength
      have hle : more.length ≤ source.pending.length := by
        rw [hpending, List.length_append]
        exact Nat.le_add_right _ _
      rw [if_pos hle, hpending, List.take_left, List.drop_left, ← hending]
      rfl
  | short hshort =>
      rw [List.nil_append] at hshort ⊢
      rw [if_neg (Nat.not_le.mpr hshort)]
      rfl

/-- **The loop for tags and size fields is the primitive read**, whatever the turns. -/
theorem seen_fill (want : Nat) (limits : Limits) (source : Source) :
    seen (fill want [] source) = seen (Reader.exactly want limits source) :=
  (gathered_fill source (Nat.zero_le want)).seen_eq limits

/-- **The loop for payloads is the primitive read**, whatever the turns and the buffer. -/
theorem seen_drain (rooms : Nat → Nat) (want : Nat) (limits : Limits) (source : Source) :
    seen (drain rooms 0 want [] source >>= counted want) =
      seen (Reader.exactly want limits source) :=
  (gathered_drain rooms 0 source (Nat.zero_add want)).seen_eq limits

end Source

-- ── Readers over the two loops ───────────────────────────────────────────────────

/-- Every portion is taken by its loop. How much room the buffer of a payload has, call by call, may
    depend on the payload's length and on the source. -/
@[reducible]
def Fetch.loops (rooms : Nat → Source → Nat → Nat) : Fetch where
  take
    | .head, want => fun _ source => source.fill want []
    | .payload, want => fun _ source =>
      source.drain (rooms want source) 0 want [] >>= Source.counted want
  take_pending := by
    intro portion want limits source rest got h
    have hgathered : source.Gathered want [] (.ok (got, rest)) := by
      rw [← h]
      cases portion with
      | head => exact Source.gathered_fill source (Nat.zero_le want)
      | payload => exact Source.gathered_drain _ 0 source (Nat.zero_add want)
    cases hgathered with
    | enough hpending hlength _ => exact ⟨hpending, hlength⟩

namespace Source

variable (rooms : Nat → Source → Nat → Nat) (limits : Limits)

theorem seen_take_loops (portion : Portion) (want : Nat) (source : Source) :
    seen ((Fetch.loops rooms).take portion want limits source) =
      seen (Reader.exactly want limits source) := by
  cases portion with
  | head => exact seen_fill want limits source
  | payload => exact seen_drain _ want limits source

/-- The same is seen of two outcomes exactly if both find the same value and leave the same bytes and
    the same ending, or both fail alike. -/
theorem seen_eq_iff {α : Type} {outcome outcome' : Except WireError (α × Source)} :
    seen outcome = seen outcome' ↔
      Alike (fun rest rest' => rest.pending = rest'.pending ∧ rest.ending = rest'.ending) Eq
        noExcuse outcome outcome' := by
  constructor
  · intro h
    rcases outcome with e | ⟨a, rest⟩ <;> rcases outcome' with e' | ⟨a', rest'⟩
    · exact .failed (Except.error.inj h)
    · cases h
    · cases h
    · obtain ⟨rfl, hrest⟩ := Prod.mk.inj (Except.ok.inj h)
      exact .found a (Prod.mk.inj hrest)
  · intro h
    cases h with
    | @found a rest rest' hrest =>
        show Except.ok (a, rest.pending, rest.ending) = Except.ok (a, rest'.pending, rest'.ending)
        rw [hrest.1, hrest.2]
    | failed herrors => exact congrArg Except.error herrors
    | excused hexcused _ => exact hexcused.elim

/-- The primitive read compared with the two loops, on sources that have the same bytes to come and end
    in the same way. -/
def looping : Comparison .primitive (.loops rooms) where
  tight := limits
  loose := limits
  sources source source' := source.pending = source'.pending ∧ source.ending = source'.ending
  errors := Eq
  excused := noExcuse
  tight_le_loose := limits.le_refl
  excused_or_eq := noExcuse_or_self limits
  errors_of_onContent _ _ := rfl
  alike_take := by
    rintro portion want source source' ⟨hpending, hending⟩
    rw [Fetch.take_primitive]
    refine seen_eq_iff.mp ?_
    rw [seen_take_loops, seen_exactly, seen_exactly, hpending, hending]

/-- **Every item is read over the two loops as it is read by the primitive read**, whatever the turns
    and the buffers. -/
theorem seen_readItem_loops (kind : ItemKind) (source : Source) :
    seen ((@readItem (.loops rooms) kind).runOn limits source) =
      seen ((readItem kind).runOn limits source) := by
  have hmatches : (readItem kind).Matches (@readItem (.loops rooms) kind) (looping rooms limits) :=
    readItem_matches kind
  exact (seen_eq_iff.mpr (hmatches source source ⟨rfl, rfl⟩)).symm

end Source

end SegmentWire
