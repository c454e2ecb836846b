import SegmentWire.Source
import SegmentWire.Proofs.Writing

/-!
# Sinks call by call

A run of bytes takes as many calls as the sink makes it take. Each call offers what is still left of
the run; the sink may be interrupted, or take a part of what it is offered, until it has no more
room. Where nothing is left no call is made, so that an empty run succeeds even on a full sink.

The loop comes to the one primitive write `Sink.put`, whatever the turns of the calls, and so do
several runs one after the other, however the bytes are cut into runs.

* **`Channel`** — a sink and the turns of the next calls; **`Channel.call`** is one call, and
  **`Channel.call_sound`** says what it can do.
* **`Channel.writeAll`**, **`Channel.writeRuns`** — the loop for one run, and for one run after
  another.
* **`Channel.seen_writeAll`**, **`Channel.seen_writeRuns`** — both are the primitive write.
-/

namespace SegmentWire

namespace Sink

/-- How many of so many bytes the sink has room for. -/
def fitting (sink : Sink) (count : Nat) : Nat :=
  match sink.room with
  | none => count
  | some room => min count room

/-- A write of bytes that there is room for succeeds; one of more bytes is refused where there is no
    room at all, and takes none of them. -/
theorem put_of_fitting (part : Bytes) (sink : Sink) (h : sink.fitting part.length = part.length) :
    ∃ after, put part sink = (.ok (), after) := by
  obtain ⟨taken, room⟩ := sink
  cases room with
  | none => exact ⟨_, rfl⟩
  | some room =>
      have hle : part.length ≤ room := by
        rw [← h]
        exact Nat.min_le_right _ _
      exact ⟨_, put_of_le hle⟩

theorem put_of_full {bytes : Bytes} {sink : Sink} (hbytes : bytes ≠ [])
    (h : sink.room = some 0) : put bytes sink = (.error .sinkFull, sink) := by
  obtain ⟨taken, room⟩ := sink
  obtain rfl : room = some 0 := h
  rw [put_of_lt (List.length_pos_iff.mpr hbytes), List.take_zero, Array.appendList_nil]

end Sink

/-- A sink and what the next calls to it do. Calls past the listed turns take all that there is room
    for. -/
structure Channel where
  sink : Sink
  turns : List Turn := []

namespace Channel

/-- What a call comes back with. -/
inductive Answer where
  /-- Nothing; the call has to be made again. -/
  | interrupted
  /-- So many of the bytes have been taken. -/
  | took (count : Nat)
  /-- Nothing, since there is no room left. -/
  | full

/-- A call that takes as many of the bytes as it can, up to a number of them. -/
def offer (most : Nat) (bytes : Bytes) (c : Channel) : Answer × Channel :=
  let part := bytes.take (c.sink.fitting (min bytes.length most))
  if part.isEmpty then (.full, c)
  else (.took part.length, { c with sink := (Sink.put part c.sink).2 })

/-- One call that is offered some bytes. -/
def call (bytes : Bytes) (c : Channel) : Answer × Channel :=
  match c.turns with
  | [] => c.offer bytes.length bytes
  | .interrupted :: turns => (.interrupted, { c with turns })
  | .upTo more :: turns => offer (more + 1) bytes { c with turns }

/-- What a call can do: an interrupted one uses up its turn and nothing else, one that takes bytes
    takes at least one off the front, just as a write of these alone would, and only without room it
    takes nothing. -/
def Answer.Sound (bytes : Bytes) (c rest : Channel) : Answer → Prop
  | .interrupted => rest.sink = c.sink ∧ rest.turns.length < c.turns.length
  | .took count => 0 < count ∧ count ≤ bytes.length ∧
      Sink.put (bytes.take count) c.sink = (.ok (), rest.sink) ∧
      rest.turns.length ≤ c.turns.length
  | .full => rest.sink = c.sink ∧ c.sink.room = some 0

theorem offer_sound {most : Nat} (hmost : 0 < most) {bytes : Bytes} (hbytes : bytes ≠ [])
    {c rest : Channel} {answer : Answer} (h : c.offer most bytes = (answer, rest)) :
    answer.Sound bytes c rest := by
  have hlength : 0 < min bytes.length most :=
    Nat.lt_min.mpr ⟨List.length_pos_iff.mpr hbytes, hmost⟩
  rw [offer] at h
  generalize hcount : c.sink.fitting (min bytes.length most) = count at h
  have hle : count ≤ bytes.length := by
    rw [← hcount, Sink.fitting]
    split <;> omega
  have htake : (bytes.take count).length = count := List.length_take_of_le hle
  by_cases hempty : (bytes.take count).isEmpty
  · rw [if_pos hempty] at h
    cases h
    refine ⟨rfl, ?_⟩
    have hzero : count = 0 := by rw [← htake, List.isEmpty_iff.mp hempty]; rfl
    rw [hzero, Sink.fitting] at hcount
    split at hcount
    · omega
    · next room hroom =>
      rw [hroom]
      congr 1
      omega
  · rw [if_neg hempty] at h
    cases h
    have hpos : 0 < count := by
      rw [← htake]
      exact List.length_pos_iff.mpr fun hnil => hempty (List.isEmpty_iff.mpr hnil)
    have hfitting : c.sink.fitting (bytes.take count).length = (bytes.take count).length := by
      rw [htake, ← hcount, Sink.fitting, Sink.fitting]
      cases c.sink.room with
      | none => rfl
      | some room => exact Nat.min_eq_left (Nat.min_le_right _ _)
    obtain ⟨after, hput⟩ := Sink.put_of_fitting _ _ hfitting
    rw [htake]
    refine ⟨hpos, hle, ?_, Nat.le_refl _⟩
    rw [hput]

/-- **Every call is sound**, whatever its turn. -/
theorem call_sound {bytes : Bytes} (hbytes : bytes ≠ []) {c rest : Channel} {answer : Answer}
    (h : c.call bytes = (answer, rest)) : answer.Sound bytes c rest := by
  obtain ⟨sink, turns⟩ := c
  rcases turns with _ | ⟨_ | more, turns⟩
  · exact offer_sound (List.length_pos_iff.mpr hbytes) hbytes h
  · cases h
    exact ⟨rfl, Nat.lt_succ_self _⟩
  · have hsound := offer_sound (Nat.succ_pos more) hbytes h
    cases answer with
    | interrupted => exact ⟨hsound.1, Nat.lt_succ_of_lt hsound.2⟩
    | took count => exact ⟨hsound.1, hsound.2.1, hsound.2.2.1, Nat.le_succ_of_le hsound.2.2.2⟩
    | full => exact hsound

-- ── The loop ─────────────────────────────────────────────────────────────────────

/-- Calls with what is left of the bytes until none are. -/
def writeAll (bytes : Bytes) (c : Channel) : Except WireError Unit × Channel :=
  if _hbytes : bytes = [] then (.ok (), c)
  else
    match _h : c.call bytes with
    | (.interrupted, rest) => writeAll bytes rest
    | (.took count, rest) => writeAll (bytes.drop count) rest
    | (.full, rest) => (.error .sinkFull, rest)
termination_by c.turns.length + bytes.length
decreasing_by
  · have hsound := call_sound _hbytes _h
    exact Nat.add_lt_add_right hsound.2 _
  · obtain ⟨hpos, hle, -, hturns⟩ := call_sound _hbytes _h
    rw [List.length_drop]
    omega

/-- Runs of bytes one after the other, up to the first failure. -/
def writeRuns : List Bytes → Channel → Except WireError Unit × Channel
  | [], c => (.ok (), c)
  | run :: runs, c =>
    match c.writeAll run with
    | (.ok (), rest) => writeRuns runs rest
    | (.error e, rest) => (.error e, rest)

/-- What can be told of an outcome without looking at the turns. -/
def seen (outcome : Except WireError Unit × Channel) : Except WireError Unit × Sink :=
  (outcome.1, outcome.2.sink)

/-- **The loop is the primitive write**, whatever the turns. The induction follows the loop: what a
    call takes and what is left for the next ones are two writes, which are the write of both. -/
theorem seen_writeAll (bytes : Bytes) (c : Channel) :
    seen (c.writeAll bytes) = Sink.put bytes c.sink := by
  fun_induction writeAll bytes c with
  | case1 c =>
      rw [Sink.put_nil]
      rfl
  | case2 bytes c hbytes rest h ih =>
      obtain ⟨hsink, -⟩ := call_sound hbytes h
      rw [ih, hsink]
  | case3 bytes c hbytes count rest h ih =>
      obtain ⟨-, -, hput, -⟩ := call_sound hbytes h
      have hsplit := Sink.put_bind_put (bytes.take count) (bytes.drop count)
      rw [List.take_append_drop] at hsplit
      rw [ih, ← hsplit, Writer.bind_of_ok hput]
  | case4 bytes c hbytes rest h =>
      obtain ⟨hsink, hroom⟩ := call_sound hbytes h
      rw [Sink.put_of_full hbytes hroom, ← hsink]
      rfl

/-- **Runs one after the other are the primitive write of all their bytes**, however these are cut
    into runs. The induction is on the runs, for every channel. -/
theorem seen_writeRuns (runs : List Bytes) (c : Channel) :
    seen (c.writeRuns runs) = Sink.put runs.flatten c.sink := by
  induction runs generalizing c with
  | nil =>
      rw [List.flatten_nil, Sink.put_nil]
      rfl
  | cons run runs ih =>
      have hrun := seen_writeAll run c
      rw [List.flatten_cons, ← Sink.put_bind_put, writeRuns]
      generalize c.writeAll run = outcome at hrun ⊢
      obtain ⟨result, rest⟩ := outcome
      cases result with
      | error e =>
          rw [Writer.bind_of_error hrun.symm]
          rfl
      | ok done =>
          rw [Writer.bind_of_ok hrun.symm]
          exact ih rest

end Channel

end SegmentWire
