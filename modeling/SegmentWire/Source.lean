import SegmentWire.Error
import SegmentWire.Limits

/-!
# Sources — where encodings are read from

A source hands out its bytes call by call. Each call may be interrupted, or yield fewer bytes
than were asked for; past the last byte it ends in one of three ways. A reader asks again until
it has what it needs, so that the values it reads depend on the bytes alone.

* **`Source`** — the bytes still to come, the turns that the next calls take, and the ending.
* **`Source.gather`** — asks until a number of bytes have arrived or the source has ended.
* **`Reader`** — an action that reads from a source within limits.
* **`Reader.exactly`** — the primitive read: so many bytes, or a failure.
* **`Fetch`** — how a reader takes bytes from a source. Readers leave it open, and take their bytes by
  the primitive read unless they are told another way.
-/

namespace SegmentWire

/-- What one call to a source does. -/
inductive Turn where
  /-- It yields nothing and has to be made again. -/
  | interrupted
  /-- It yields at least one byte, if there is one, and at most `more + 1`. -/
  | upTo (more : Nat)
deriving DecidableEq, Repr

/-- What a call past the last byte does. -/
inductive Ending where
  /-- It yields no bytes. -/
  | silent
  /-- It reports the end of the input. -/
  | reported
  /-- It fails. -/
  | failing
deriving DecidableEq, Repr

/-- The bytes still to come, the turns of the next calls, and the ending. Calls past the listed
    turns yield all that is asked for. -/
structure Source where
  pending : Bytes
  turns : List Turn := []
  ending : Ending := .silent
deriving DecidableEq

/-- The turns of a number of calls, of which every `period`-th is interrupted and the others
    yield at most `chunk` bytes. No period means no interruption. -/
def Turn.pattern (chunk : Nat) (period : Option Nat) (calls : Nat) : List Turn :=
  (List.range calls).map fun i =>
    match period with
    | some k => if (i + 1) % k = 0 then .interrupted else .upTo (chunk - 1)
    | none => .upTo (chunk - 1)

namespace Source

/-- Asks until `want` more bytes have arrived or the source has ended: the bytes that arrived, the
    bytes left, and the turns left. Bytes already there are in `got`. -/
def gatherFrom (want : Nat) (got : Array UInt8) (pending : Bytes) :
    List Turn → Array UInt8 × Bytes × List Turn
  | [] => (got ++ pending.take want, pending.drop want, [])
  | turn :: turns =>
    if want = 0 then (got, pending, turn :: turns)
    else
      match turn with
      | .interrupted => gatherFrom want got pending turns
      | .upTo more =>
        let part := pending.take (min want (more + 1))
        if part.isEmpty then (got, pending, turns)
        else
          gatherFrom (want - part.length) (got ++ part) (pending.drop part.length) turns

/-- Asks until `want` bytes have arrived or the source has ended. Asking for no bytes makes no
    call. -/
def gather (want : Nat) (source : Source) : Bytes × Source :=
  let gathered := gatherFrom want #[] source.pending source.turns
  (gathered.1.toList, { source with pending := gathered.2.1, turns := gathered.2.2 })

/-- Whatever the turns, what is gathered are the first bytes that were pending, and the others
    stay pending. -/
theorem gatherFrom_eq (turns : List Turn) (want : Nat) (got : Array UInt8) (pending : Bytes) :
    (gatherFrom want got pending turns).1 = got ++ pending.take want ∧
      (gatherFrom want got pending turns).2.1 = pending.drop want := by
  induction turns generalizing want got pending with
  | nil => exact ⟨rfl, rfl⟩
  | cons turn turns ih =>
    unfold gatherFrom
    split
    · next h => simp [h]
    · next h =>
      cases turn with
      | interrupted => exact ih want got pending
      | upTo more =>
        cases pending with
        | nil => simp
        | cons b rest =>
          have hne : ((b :: rest).take (min want (more + 1))).isEmpty = false := by
            cases want with
            | zero => exact absurd rfl h
            | succ n => simp [Nat.succ_min_succ]
          simp only [hne, Bool.false_eq_true, if_false]
          generalize hpart : (b :: rest).take (min want (more + 1)) = part
          have hlen : part.length ≤ want := by
            rw [← hpart, List.length_take]; omega
          have hpre : part = (b :: rest).take part.length := by
            rw [← hpart, List.take_eq_take_iff, List.length_take]; omega
          obtain ⟨hgot, hleft⟩ :=
            ih (want - part.length) (got ++ part) ((b :: rest).drop part.length)
          have hsplit : (b :: rest).take want =
              part ++ ((b :: rest).drop part.length).take (want - part.length) := by
            conv => lhs; rw [show want = part.length + (want - part.length) by omega]
            rw [List.take_add, ← hpre]
          constructor
          · rw [hgot, hsplit]
            exact Array.ext' (by simp [Array.toList_appendList])
          · rw [hleft, List.drop_drop]
            congr 1
            omega

/-- The gathered bytes are the first ones pending. -/
theorem gather_bytes (want : Nat) (source : Source) :
    (source.gather want).1 = source.pending.take want := by
  have h := (gatherFrom_eq source.turns want #[] source.pending).1
  show (gatherFrom want #[] source.pending source.turns).1.toList = _
  rw [h]
  exact Array.toList_appendList

/-- All other bytes stay pending. -/
theorem gather_pending (want : Nat) (source : Source) :
    (source.gather want).2.pending = source.pending.drop want :=
  (gatherFrom_eq source.turns want #[] source.pending).2

/-- Gathering does not change how the source ends. -/
theorem gather_ending (want : Nat) (source : Source) :
    (source.gather want).2.ending = source.ending := rfl

end Source

/-- An action that reads from a source within limits. What is read before a failure is lost. -/
abbrev Reader := ReaderT Limits (StateT Source (Except WireError))

namespace Reader

/-- Exactly `want` bytes. A source that ends before them makes the read short, and one that fails
    makes it fail. -/
def exactly (want : Nat) : Reader Bytes := fun _ source =>
  let (got, rest) := source.gather want
  if got.length = want then .ok (got, rest)
  else if source.ending = .failing then .error .sourceFailed
  else .error (.shortRead want got.length)

/-- The outcome of a read on a source. -/
def runOn {α : Type} (read : Reader α) (limits : Limits) (source : Source) :
    Except WireError (α × Source) :=
  read limits source

/-- The value that a read finds at the start of `bytes`, whatever follows it. -/
def ofBytes {α : Type} (read : Reader α) (limits : Limits) (bytes : Bytes) :
    Except WireError α :=
  (read.runOn limits { pending := bytes }).map (·.1)

/-- A sequence of two reads succeeds as the second does on what the first leaves. -/
theorem bind_eq_ok {α β : Type} {first : Reader α} {next : α → Reader β} {limits : Limits}
    {source rest : Source} {b : β} (h : (first >>= next) limits source = .ok (b, rest)) :
    ∃ a middle, first limits source = .ok (a, middle) ∧
      next a limits middle = .ok (b, rest) := by
  change (first limits source >>= fun r => next r.1 limits r.2) = .ok (b, rest) at h
  cases hfirst : first limits source with
  | error e => rw [hfirst] at h; cases h
  | ok r =>
    rw [hfirst] at h
    exact ⟨r.1, r.2, rfl, h⟩

/-- A read whose value is changed succeeds as the read itself does. -/
theorem map_eq_ok {α β : Type} {change : α → β} {read : Reader α} {limits : Limits}
    {source rest : Source} {b : β} (h : (change <$> read) limits source = .ok (b, rest)) :
    ∃ a, read limits source = .ok (a, rest) ∧ change a = b := by
  have hbind : (read >>= fun a => pure (change a)) limits source = .ok (b, rest) := h
  obtain ⟨a, middle, hread, h⟩ := bind_eq_ok hbind
  cases h
  exact ⟨a, hread, rfl⟩

/-- A check of what has been read leaves the source alone. -/
theorem lift_eq_ok {α : Type} {outcome : Except WireError α} {limits : Limits}
    {source rest : Source} {a : α}
    (h : (liftM outcome : Reader α) limits source = .ok (a, rest)) :
    outcome = .ok a ∧ rest = source := by
  cases outcome with
  | error e => cases h
  | ok value =>
    cases h
    exact ⟨rfl, rfl⟩

/-- What is read is no longer pending. -/
theorem exactly_pending {want : Nat} {limits : Limits} {source rest : Source} {got : Bytes}
    (h : exactly want limits source = .ok (got, rest)) :
    source.pending = got ++ rest.pending ∧ got.length = want := by
  have hbytes := source.gather_bytes want
  have hpending := source.gather_pending want
  have hread : exactly want limits source =
      if (source.gather want).1.length = want then .ok (source.gather want)
      else if source.ending = .failing then .error .sourceFailed
      else .error (.shortRead want (source.gather want).1.length) := rfl
  rw [hread] at h
  split at h
  · next hlen =>
    have hpair : source.gather want = (got, rest) := Except.ok.inj h
    rw [hpair] at hbytes hpending hlen
    refine ⟨?_, hlen⟩
    show source.pending = (got, rest).1 ++ (got, rest).2.pending
    rw [hbytes, hpending, List.take_append_drop]
  · split at h <;> cases h

end Reader

/-- What a reader takes from a source at once. -/
inductive Portion where
  /-- A tag, or a size field. -/
  | head
  /-- A payload. -/
  | payload

/-- How a reader takes bytes from a source. It takes exactly as many as it asks for, off the front of
    what is pending, or fails. -/
class Fetch where
  take : Portion → Nat → Reader Bytes
  take_pending : ∀ {portion : Portion} {want : Nat} {limits : Limits} {source rest : Source}
    {got : Bytes}, take portion want limits source = .ok (got, rest) →
      source.pending = got ++ rest.pending ∧ got.length = want

/-- Every portion is taken by the primitive read. -/
instance Fetch.primitive : Fetch where
  take _ := Reader.exactly
  take_pending := Reader.exactly_pending

@[simp]
theorem Fetch.take_primitive (portion : Portion) (want : Nat) :
    primitive.take portion want = Reader.exactly want := rfl

namespace Reader

variable [Fetch]

/-- A big-endian number of `width` bytes. -/
def number (width : Nat) : Reader Nat := do
  return ofBigEndian (← Fetch.take .head width)

/-- The bytes of a number that is read are no longer pending. -/
theorem number_pending {width n : Nat} {limits : Limits} {source rest : Source}
    (h : number width limits source = .ok (n, rest)) :
    source.pending.length = width + rest.pending.length := by
  obtain ⟨got, middle, hgot, h⟩ := bind_eq_ok h
  obtain ⟨hpending, hlength⟩ := Fetch.take_pending hgot
  cases h
  rw [hpending, List.length_append, hlength]

end Reader

end SegmentWire
