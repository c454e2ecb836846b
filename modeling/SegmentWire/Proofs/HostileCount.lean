import SegmentWire.Proofs.Failing
import SegmentWire.Proofs.Sizes
import SegmentWire.Proofs.Truncation

/-!
# Hostile counts

The index of a container states as many members as it likes, up to 2⁶⁴ - 1 of them. It is only bytes that
members are read from, and every segment takes two at least. So a reader that is promised more members
than there can be stops at a member that the bytes do not supply, or that is invalid, and where that is
and what is wrong there does not depend on the promise.

* **`bare`**, **`Reader.onBytes_bind_of_ok`** — a sequence of reads on a run of bytes: the second one
  runs on the bytes that the first one leaves.
* **`Reader.Consumes`** — how many bytes a read takes at least; **`readSegment_consumes`** — two of them
  for every segment.
* **`Reader.Stops`** — where a loop comes to an end; **`exists_stops`** says that it does if every round
  takes some bytes, and **`Stops.fails_of_lt`** that this is so whatever the number of rounds.
* **`hostile_count_is_harmless`** — lists, maps and messages with any two counts that are too large.
-/

namespace SegmentWire

-- ── Reads on runs of bytes ───────────────────────────────────────────────────────

/-- A source that hands out its bytes at once and then ends, compared with itself. Only what is found is
    of interest. -/
def bare (limits : Limits) : Comparison .primitive .primitive where
  tight := limits
  loose := limits
  sources source source' := source = source' ∧ source = { pending := source.pending }
  errors _ _ := True
  excused _ := True
  tight_le_loose := limits.le_refl
  excused_or_eq _ _ := Or.inl trivial
  errors_of_onContent _ _ := trivial
  alike_take := by
    rintro - want source _ ⟨rfl, hbare⟩
    rw [Fetch.take_primitive]
    rcases Nat.lt_or_ge source.pending.length want with hlt | hle
    · rw [Reader.exactly_of_lt hlt]
      exact .failed trivial
    · rw [Reader.exactly_of_le hle]
      refine .found _ ⟨rfl, ?_⟩
      rw [hbare]
      rfl

namespace Reader

variable {α β σ : Type} {limits : Limits} {bytes left : Bytes} {a : α} {e : WireError}

/-- What a read finds on a run of bytes leaves the run of the others. -/
theorem runOn_of_onBytes {read : Reader α} (hread : read.Respects (bare limits))
    (h : read.onBytes limits bytes = .ok (a, left)) :
    read.runOn limits { pending := bytes } = .ok (a, { pending := left }) := by
  obtain ⟨rest, hfound, rfl⟩ := onBytes_eq_ok_iff.mp h
  obtain ⟨rest', hfound', rfl, hbare⟩ := hread.of_ok ⟨rfl, rfl⟩ hfound
  rw [hfound, ← hbare]

theorem onBytes_bind_of_ok {first : Reader α} {next : α → Reader β}
    (hfirst : first.Respects (bare limits)) (h : first.onBytes limits bytes = .ok (a, left)) :
    (first >>= next).onBytes limits bytes = (next a).onBytes limits left := by
  have hrun : (first >>= next).runOn limits { pending := bytes } =
      (first.runOn limits { pending := bytes } >>= fun found => (next found.1).runOn limits found.2) :=
    rfl
  rw [onBytes, hrun, runOn_of_onBytes hfirst h]
  rfl

theorem onBytes_bind_of_error {first : Reader α} {next : α → Reader β}
    (h : first.onBytes limits bytes = .error e) :
    (first >>= next).onBytes limits bytes = .error e :=
  onBytes_eq_error_iff.mpr (Fails.bind (onBytes_eq_error_iff.mp h))

/-- A read of a run of bytes fails as it does if the others are of interest. -/
theorem ofBytes_eq_error_of_onBytes {read : Reader α} (h : read.onBytes limits bytes = .error e) :
    read.ofBytes limits bytes = .error e :=
  ofBytes_eq_error_iff.mpr (onBytes_eq_error_iff.mp h)

theorem Decodes.onBytes_eq_ok {read : Reader α} {form : WireForm α} (h : read.Decodes limits form)
    {taken : Bytes} (hform : form a taken) (left : Bytes) :
    read.onBytes limits (taken ++ left) = .ok (a, left) :=
  onBytes_eq_ok_iff.mpr (h.finds hform rfl)

-- ── How many bytes are taken ─────────────────────────────────────────────────────

/-- Where the read succeeds, it takes at least so many bytes. -/
def Consumes (read : Reader α) (limits : Limits) (least : Nat) : Prop :=
  ∀ source a left, read.Finds limits source a left → left.length + least ≤ source.pending.length

theorem consumes_pure (a : α) : (pure a : Reader α).Consumes limits 0 := by
  rintro source _ _ ⟨rest, hread, rfl⟩
  cases hread
  exact Nat.le_refl _

theorem consumes_lift (outcome : Except WireError α) : (liftM outcome : Reader α).Consumes limits 0 := by
  rintro source _ _ ⟨rest, hread, rfl⟩
  obtain ⟨-, rfl⟩ := lift_eq_ok hread
  exact Nat.le_refl _

theorem Consumes.unless {c : Prop} [Decidable c] {refusal : WireError} {next : Reader α} {least : Nat}
    (h : next.Consumes limits least) : (if c then throw refusal else next).Consumes limits least := by
  split
  · rintro source a left ⟨rest, ⟨⟩, -⟩
  · exact h

theorem Consumes.bind {first : Reader α} {next : α → Reader β} {least least' : Nat}
    (hfirst : first.Consumes limits least) (hnext : ∀ a, (next a).Consumes limits least') :
    (first >>= next).Consumes limits (least + least') := by
  rintro source b left ⟨rest, hread, hrest⟩
  obtain ⟨a, middle, hread₁, hread₂⟩ := bind_eq_ok hread
  have hle₁ := hfirst source a middle.pending ⟨middle, hread₁, rfl⟩
  have hle₂ := hnext a middle b left ⟨rest, hread₂, hrest⟩
  omega

-- ── Loops ────────────────────────────────────────────────────────────────────────

/-- A loop over a state stops after so many rounds, with this state and these bytes left, since one more
    round fails with this error. -/
structure Stops (loop : Nat → σ → Reader σ) (limits : Limits) (s : σ) (bytes : Bytes) (done : Nat)
    (s' : σ) (left : Bytes) (e : WireError) : Prop where
  runs : (loop done s).onBytes limits bytes = .ok (s', left)
  fails : (loop 1 s').onBytes limits left = .error e

section Stopping

variable {loop : Nat → σ → Reader σ}
  (hadd : ∀ first second s, loop (first + second) s = loop first s >>= loop second)
  (hrespects : ∀ count s, (loop count s).Respects (bare limits))
include hadd hrespects

/-- **Every loop stops, if its rounds take some bytes each**, and then after no more rounds than there
    are bytes for. The induction is on the number of bytes. -/
theorem exists_stops {least : Nat} (hzero : ∀ s, loop 0 s = pure s) (hleast : 0 < least)
    (hconsumes : ∀ s, (loop 1 s).Consumes limits least) (bytes : Bytes) (s : σ) :
    ∃ done s' left e, Stops loop limits s bytes done s' left e ∧
      least * done + left.length ≤ bytes.length := by
  induction hlength : bytes.length using Nat.strongRecOn generalizing bytes s with
  | ind length ih =>
      subst hlength
      cases hfirst : (loop 1 s).onBytes limits bytes with
      | error e =>
          have hnone : (loop 0 s).onBytes limits bytes = .ok (s, bytes) := by
            rw [hzero]
            rfl
          exact ⟨0, s, bytes, e, ⟨hnone, hfirst⟩, by omega⟩
      | ok found =>
          obtain ⟨next, behind⟩ := found
          have hle := hconsumes s _ next behind (onBytes_eq_ok_iff.mp hfirst)
          replace hle : behind.length + least ≤ bytes.length := hle
          obtain ⟨done, s', left, e, hstops, hdone⟩ := ih behind.length (by omega) behind next rfl
          refine ⟨1 + done, s', left, e, ⟨?_, hstops.fails⟩, ?_⟩
          · rw [hadd, onBytes_bind_of_ok (hrespects 1 s) hfirst]
            exact hstops.runs
          · rw [Nat.mul_add]
            omega

/-- **Where a loop stops, it stops whatever the number of rounds to come.** -/
theorem Stops.fails_of_lt {s s' : σ} {done count : Nat} (h : Stops loop limits s bytes done s' left e)
    (hlt : done < count) : (loop count s).onBytes limits bytes = .error e := by
  obtain ⟨more, rfl⟩ := Nat.exists_eq_add_of_lt hlt
  rw [Nat.add_assoc, Nat.add_comm more 1, hadd, onBytes_bind_of_ok (hrespects done s) h.runs, hadd]
  exact onBytes_bind_of_error h.fails

end Stopping

end Reader

variable {limits : Limits}

theorem two_le_encodedLength (tag : Tag) (length : Nat) : 2 ≤ encodedLength tag length := by
  cases tag <;> simp only [encodedLength, Tag.layout] <;> omega

/-- **Every segment takes two bytes at least.** -/
theorem readSegment_consumes : readSegment.Consumes limits 2 := by
  intro source s left h
  obtain ⟨_, ⟨hadmitted, rfl⟩, hpending⟩ := (readSegment_decodes limits source s left).mp h
  have hlength := hadmitted.wellFormed.length_encoding
  rw [Segment.size_eq_encodedLength] at hlength
  have hle := two_le_encodedLength s.tag s.payload.length
  rw [hpending, List.length_append]
  omega

theorem readField_consumes : readField.Consumes limits 2 :=
  readSegment_consumes.bind fun _ => Reader.consumes_lift _

theorem readKey_consumes : readKey.Consumes limits 2 :=
  readSegment_consumes.bind fun _ => .unless (Reader.consumes_lift _)

theorem readFields_one_consumes (before : Array Field) : (readFields 1 before).Consumes limits 2 :=
  readField_consumes.bind fun _ => Reader.consumes_pure _

theorem readPairs_one_consumes (before : FieldMap) : (readPairs 1 before).Consumes limits 4 :=
  readKey_consumes.bind fun _ => readField_consumes.bind fun _ => .unless (Reader.consumes_pure _)

-- ── Behind the index ─────────────────────────────────────────────────────────────

section Behind

variable {index : Segment} {count : Nat}

/-- Behind its index, a container is what the loop over its members makes of the other bytes. -/
theorem container_onBytes {α : Type} {countOf : Segment → Except WireError UInt64}
    (members : Nat → Reader α) (hindex : index.WellFormed) (hcount : countOf index = .ok (.ofNat count))
    (hword : count ≤ maxWord) (body : Bytes) :
    Reader.onBytes (readSegment >>= fun index => liftM (countOf index) >>= fun count =>
        checkContainer count.toNat >>= fun _ => members count.toNat)
      .unbounded (index.encoding ++ body) = (members count).onBytes .unbounded body := by
  have hread : readSegment.onBytes .unbounded (index.encoding ++ body) = .ok (index, body) :=
    (readSegment_decodes .unbounded).onBytes_eq_ok
      ⟨Segment.admitted_unbounded_iff.mpr hindex, rfl⟩ body
  have hlift : (liftM (countOf index) : Reader UInt64).onBytes .unbounded body =
      .ok (.ofNat count, body) :=
    (Reader.decodes_lift (countOf index)).onBytes_eq_ok ⟨hcount, rfl⟩ body
  have hcheck : (checkContainer count).onBytes .unbounded body = .ok ((), body) :=
    (checkContainer_decodes .unbounded count).onBytes_eq_ok ⟨hword, rfl⟩ body
  rw [Reader.onBytes_bind_of_ok readSegment_matches hread, hcount]
  rw [hcount] at hlift
  rw [Reader.onBytes_bind_of_ok (Reader.matches_lift (failsOnContent_ok _)) hlift,
    Segment.toNat_ofNat_of_le hword]
  exact Reader.onBytes_bind_of_ok (checkContainer_matches count) hcheck

theorem readList_onBytes (hindex : Segment.StatesCount .list .largeList count index) (body : Bytes) :
    readList.onBytes .unbounded (index.encoding ++ body) =
      (readFields count #[] >>= fun fields => pure (FieldList.mk fields)).onBytes .unbounded body := by
  exact container_onBytes (fun count => readFields count #[] >>= fun fields => pure (FieldList.mk fields))
    (hindex.wellFormed rfl rfl) hindex.listCount_eq hindex.le_maxWord body

theorem readMap_onBytes (hindex : Segment.StatesCount .map .largeMap count index) (body : Bytes) :
    readMap.onBytes .unbounded (index.encoding ++ body) =
      (readPairs count .empty).onBytes .unbounded body := by
  exact container_onBytes (fun count => readPairs count .empty) (hindex.wellFormed rfl rfl)
    hindex.mapCount_eq hindex.le_maxWord body

/-- Behind its command, a message fails as the map of its attachments does. -/
theorem readMessage_onBytes_of_map {text : String} {command : Segment}
    (hcommand : Segment.StatesText text command) {bytes : Bytes} {e : WireError}
    (h : readMap.onBytes .unbounded bytes = .error e) :
    readMessage.onBytes .unbounded (startMarker.encoding ++ (command.encoding ++ bytes)) = .error e := by
  have hstart : readStart.onBytes .unbounded (startMarker.encoding ++ (command.encoding ++ bytes)) =
      .ok ((), command.encoding ++ bytes) :=
    (readStart_decodes .unbounded).onBytes_eq_ok rfl _
  have htext : readCommand.onBytes .unbounded (command.encoding ++ bytes) = .ok (text, bytes) :=
    (readCommand_decodes .unbounded).onBytes_eq_ok
      ⟨hcommand.le_maxWord, hcommand.le_maxWord, command, hcommand, rfl⟩ bytes
  refine (Reader.onBytes_bind_of_ok readStart_matches hstart).trans ?_
  refine (Reader.onBytes_bind_of_ok readCommand_matches htext).trans ?_
  exact Reader.onBytes_bind_of_error h

end Behind

-- ── Counts that are too large ────────────────────────────────────────────────────

/-- **A hostile count is harmless.** Every segment that is read takes two bytes at least. So whatever
    bytes stand behind the index of a list, the reader stops at an item that they do not supply, or that
    is invalid, after at most half as many items as there are bytes; and it fails with what is wrong
    there behind every index that states more than that. In the same way it stops at a pair of a map,
    after at most a quarter as many pairs, and of the attachments of a message behind any command. -/
theorem hostile_count_is_harmless :
    (∀ (limits : Limits) (source : Source) (s : Segment) (left : Bytes),
      readSegment.Finds limits source s left → left.length + 2 ≤ source.pending.length) ∧
    (∀ body : Bytes, ∃ (done : Nat) (fields : Array Field) (left : Bytes) (e : WireError),
      (readFields done #[]).onBytes .unbounded body = .ok (fields, left) ∧
      2 * done + left.length ≤ body.length ∧
      (readFields 1 fields).onBytes .unbounded left = .error e ∧
      ∀ (count : Nat) (index : Segment), Segment.StatesCount .list .largeList count index →
        body.length < 2 * count → FieldList.unflatten (index.encoding ++ body) = .error e) ∧
    ∀ body : Bytes, ∃ (done : Nat) (m : FieldMap) (left : Bytes) (e : WireError),
      (readPairs done .empty).onBytes .unbounded body = .ok (m, left) ∧
      4 * done + left.length ≤ body.length ∧
      (readPairs 1 m).onBytes .unbounded left = .error e ∧
      ∀ (count : Nat) (index : Segment), Segment.StatesCount .map .largeMap count index →
        body.length < 2 * count →
        FieldMap.unflatten (index.encoding ++ body) = .error e ∧
        ∀ (text : String) (command : Segment), Segment.StatesText text command →
          Message.unflatten (startMarker.encoding ++ (command.encoding ++ (index.encoding ++ body))) =
            .error e := by
  refine ⟨fun limits => readSegment_consumes, fun body => ?_, fun body => ?_⟩
  · have hrespects := fun count before => readFields_matches (c := bare .unbounded) count before
    obtain ⟨done, fields, left, e, hstops, hle⟩ := Reader.exists_stops readFields_add hrespects
      (fun _ => rfl) (by decide) readFields_one_consumes body #[]
    refine ⟨done, fields, left, e, hstops.runs, hle, hstops.fails, fun count index hindex hlt => ?_⟩
    refine Reader.ofBytes_eq_error_of_onBytes ((readList_onBytes hindex body).trans ?_)
    exact Reader.onBytes_bind_of_error (hstops.fails_of_lt readFields_add hrespects (by omega))
  · have hrespects := fun count before => readPairs_matches (c := bare .unbounded) count before
    obtain ⟨done, m, left, e, hstops, hle⟩ := Reader.exists_stops readPairs_add hrespects
      (fun _ => rfl) (by decide) readPairs_one_consumes body .empty
    refine ⟨done, m, left, e, hstops.runs, hle, hstops.fails, fun count index hindex hlt => ?_⟩
    have hmap : readMap.onBytes .unbounded (index.encoding ++ body) = .error e :=
      (readMap_onBytes hindex body).trans
        (hstops.fails_of_lt readPairs_add hrespects (by omega))
    exact ⟨Reader.ofBytes_eq_error_of_onBytes hmap, fun text command hcommand =>
      Reader.ofBytes_eq_error_of_onBytes (readMessage_onBytes_of_map hcommand hmap)⟩

/-- A boolean and a byte that is no tag, behind indices that state two items and 2⁶⁴ - 1 of them: the
    byte is what both lists are refused for. A boolean in the place of the first key is what a map is
    refused for, and what a message is, whether they are promised four pairs or 2⁶⁴ - 1. -/
theorem hostile_count_is_harmless_greatest :
    let most : Bytes := .replicate 8 255
    let body : Bytes := [11, 7, 14]
    FieldList.unflatten [19, 0, 2, 11, 7, 255] = .error (.unknownTag 255) ∧
    FieldList.unflatten ([21] ++ most ++ [11, 7, 255]) = .error (.unknownTag 255) ∧
    FieldMap.unflatten ([18, 0, 4] ++ body) = .error (.keyNotString .bool) ∧
    FieldMap.unflatten ([20] ++ most ++ body) = .error (.keyNotString .bool) ∧
    Message.unflatten ([1, 1, 14, 0, 1, 97, 20] ++ most ++ body) = .error (.keyNotString .bool) := by
  intro most body
  obtain ⟨-, hlist, hmap⟩ := hostile_count_is_harmless
  obtain ⟨_, _, _, e, -, -, -, hlistFails⟩ := hlist [11, 7, 255]
  obtain ⟨_, _, _, e', -, -, -, hmapFails⟩ := hmap body
  have htwo : FieldList.unflatten [19, 0, 2, 11, 7, 255] = .error (.unknownTag 255) := rfl
  have hfour : FieldMap.unflatten ([18, 0, 4] ++ body) = .error (.keyNotString .bool) := rfl
  obtain rfl : e = .unknownTag 255 := Except.error.inj
    ((hlistFails 2 ⟨.list, [0, 2]⟩ (Or.inl (by decide)) (by decide)).symm.trans htwo)
  obtain rfl : e' = .keyNotString .bool := Except.error.inj
    ((hmapFails 4 ⟨.map, [0, 4]⟩ (Or.inl (by decide)) (by decide)).1.symm.trans hfour)
  have hmany := hlistFails maxWord ⟨.largeList, most⟩ (Or.inr (by decide)) (by decide)
  obtain ⟨hmany', hmessage⟩ := hmapFails maxWord ⟨.largeMap, most⟩ (Or.inr (by decide)) (by decide)
  exact ⟨htwo, hmany, hfour, hmany', hmessage "a" ⟨.string, [97]⟩ (Or.inl (by decide))⟩

end SegmentWire
