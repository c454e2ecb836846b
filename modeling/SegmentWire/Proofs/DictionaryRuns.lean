import SegmentWire.Proofs.Representation

/-!
# Field maps are insertion-ordered dictionaries

Whatever is done with a field map, one request after the other, it answers as the list of its pairs
would.

* **`FieldMap.serve`**, **`PairList.serve`** — what one request does to a map and to a list;
  **`Message.serve`**, **`PairMessage.serve`** — to a message, and to a command with a list.
* **`serveAll`** — a run of requests.
* **`fieldMap_serve_agrees`**, **`message_serve_agrees`** — one request keeps map and list in step, and
  **`serveAll_agrees`** — so does a run.
* **`dictionary_runs_agree`** — all of it from the start, and what follows for maps that compare
  equal.
-/

namespace SegmentWire

-- ── Requests ─────────────────────────────────────────────────────────────────────

/-- A question about a dictionary. -/
inductive Query where
  | get (key : String)
  | contains (key : String)
  | length
  | keys
  | pairs
  | flatten

/-- What may be done with a dictionary. -/
inductive Request where
  | insert (key : String) (value : Field)
  | remove (key : String)
  | clear
  /-- The pairs take the place of the dictionary, inserted one after the other. -/
  | collect (pairs : PairList)
  /-- What is read takes the place of the dictionary, unless the read fails. -/
  | load (limits : Limits) (source : Source)
  | ask (query : Query)

/-- What may be done with a message. -/
inductive Message.Request where
  | setCommand (command : String)
  | attach (name : String) (value : Field)
  | attachSegment (name : String) (s : Segment)
  | remove (name : String)
  /-- What is read takes the place of the message, unless the read fails. -/
  | load (limits : Limits) (source : Source)
  | attachment (name : String)
  | get (name : String) (kind : Kind)
  | flatten
  /-- A question about the attachments. -/
  | ask (query : Query)

/-- What a request gives back. -/
inductive Reply where
  | done
  | value (found : Option Field)
  | present (found : Bool)
  | count (n : Nat)
  | keys (keys : List String)
  | pairs (pairs : PairList)
  | bytes (outcome : Except WireError Bytes)
  /-- The rest of the source, or the failure. -/
  | loaded (outcome : Except WireError Source)
  | attached (outcome : Except WireError Unit)
  | attachment (outcome : Except WireError Field)
  | typed (outcome : Except WireError Value)

/-- Reads a state in the place of another. -/
def serveLoad {σ : Type} (read : Reader σ) (limits : Limits) (source : Source) (before : σ) :
    Reply × σ :=
  match read limits source with
  | .ok (loaded, rest) => (.loaded (.ok rest), loaded)
  | .error e => (.loaded (.error e), before)

/-- One request after the other: all replies, and the last state. -/
def serveAll {σ ρ : Type} (serve : σ → ρ → Reply × σ) : List ρ → σ → List Reply × σ
  | [], s => ([], s)
  | request :: requests, s =>
    let (reply, next) := serve s request
    let (replies, last) := serveAll serve requests next
    (reply :: replies, last)

namespace FieldMap

def answer (m : FieldMap) : Query → Reply
  | .get key => .value (m.get? key)
  | .contains key => .present (m.contains key)
  | .length => .count m.length
  | .keys => .keys m.keys
  | .pairs => .pairs m.entries.toList
  | .flatten => .bytes m.flatten

/-- What a request does to a map. -/
def serve (m : FieldMap) : Request → Reply × FieldMap
  | .insert key value =>
    let (previous, next) := m.exchange key value
    (.value previous, next)
  | .remove key =>
    let (previous, next) := m.withdraw key
    (.value previous, next)
  | .clear => (.done, .empty)
  | .collect pairs => (.done, ofList pairs)
  | .load limits source => serveLoad readMap limits source m
  | .ask query => (m.answer query, m)

/-- The map that a history of requests builds. -/
def built (requests : List Request) : FieldMap := (serveAll serve requests .empty).2

end FieldMap

namespace PairList

def answer (pairs : PairList) : Query → Reply
  | .get key => .value (pairs.lookup key)
  | .contains key => .present (pairs.lookup key).isSome
  | .length => .count pairs.length
  | .keys => .keys pairs.keys
  | .pairs => .pairs pairs
  | .flatten => .bytes pairs.write.bytes

def serve (pairs : PairList) : Request → Reply × PairList
  | .insert key value =>
    let (previous, next) := pairs.exchange key value
    (.value previous, next)
  | .remove key =>
    let (previous, next) := pairs.withdraw key
    (.value previous, next)
  | .clear => (.done, [])
  | .collect pairs => (.done, pairs.collect)
  | .load limits source => serveLoad read limits source pairs
  | .ask query => (pairs.answer query, pairs)

end PairList

namespace Message

def serve (m : Message) : Message.Request → Reply × Message
  | .setCommand command => (.done, { m with command })
  | .attach name value =>
    let (previous, next) := m.exchange name value
    (.value previous, next)
  | .attachSegment name s =>
    match m.attachSegment name s with
    | .ok next => (.attached (.ok ()), next)
    | .error e => (.attached (.error e), m)
  | .remove name =>
    let (previous, next) := m.withdraw name
    (.value previous, next)
  | .load limits source => serveLoad readMessage limits source m
  | .attachment name => (.attachment (m.attachment name), m)
  | .get name kind => (.typed (m.get name kind), m)
  | .flatten => (.bytes m.flatten, m)
  | .ask query => (m.attachments.answer query, m)

/-- The message that a history of requests builds from a command. -/
def built (command : String) (requests : List Message.Request) : Message :=
  (serveAll serve requests ⟨command, .empty⟩).2

end Message

def PairMessage.serve (m : PairMessage) : Message.Request → Reply × PairMessage
  | .setCommand command => (.done, { m with command })
  | .attach name value =>
    let (previous, next) := m.attachments.exchange name value
    (.value previous, { m with attachments := next })
  | .attachSegment name s =>
    match Field.ofSegment s with
    | .ok value => (.attached (.ok ()), { m with attachments := (m.attachments.exchange name value).2 })
    | .error e => (.attached (.error e), m)
  | .remove name =>
    let (previous, next) := m.attachments.withdraw name
    (.value previous, { m with attachments := next })
  | .load limits source => serveLoad read limits source m
  | .attachment name => (.attachment (m.attachment name), m)
  | .get name kind => (.typed (do (← m.attachment name).segment.get kind), m)
  | .flatten => (.bytes m.write.bytes, m)
  | .ask query => (m.attachments.answer query, m)

-- ── Runs of requests ─────────────────────────────────────────────────────────────

variable {σ τ ρ : Type} {related : σ → τ → Prop}

theorem serveLoad_agrees {read : Reader σ} {read' : Reader τ} (h : read.Agree related read')
    {s : σ} {t : τ} (hbefore : related s t) (limits : Limits) (source : Source) :
    InStep related (serveLoad read limits source s) (serveLoad read' limits source t) := by
  rw [serveLoad, serveLoad]
  have hmatching := h limits source
  generalize read limits source = outcome, read' limits source = outcome' at hmatching
  cases hmatching with
  | failed e => exact ⟨rfl, hbefore⟩
  | found hfound =>
      obtain ⟨hab, hrest⟩ := hfound
      exact ⟨congrArg (Reply.loaded ∘ Except.ok) hrest, hab⟩

/-- States that each request keeps in step are in step after a run, and gave the same replies. The
    induction is on the requests still to come, for all states in step. -/
theorem serveAll_agrees {serve : σ → ρ → Reply × σ} {serve' : τ → ρ → Reply × τ}
    (hstep : ∀ s t request, related s t → InStep related (serve s request) (serve' t request))
    (requests : List ρ) {s : σ} {t : τ} (h : related s t) :
    InStep related (serveAll serve requests s) (serveAll serve' requests t) := by
  induction requests generalizing s t with
  | nil => exact ⟨rfl, h⟩
  | cons request requests ih =>
      obtain ⟨hreply, hnext⟩ := hstep s t request h
      obtain ⟨hreplies, hlast⟩ := ih hnext
      exact ⟨congrArg₂ List.cons hreply hreplies, hlast⟩

theorem FieldMap.Represents.answer {m : FieldMap} {pairs : PairList} (h : m.Represents pairs)
    (query : Query) : m.answer query = pairs.answer query := by
  cases query with
  | get key => exact congrArg Reply.value (h.get? key)
  | contains key => exact congrArg Reply.present (h.contains key)
  | length => exact congrArg Reply.count h.length
  | keys => exact congrArg Reply.keys h.keys
  | pairs => exact congrArg Reply.pairs h.entries
  | flatten => exact congrArg (Reply.bytes ∘ Writer.bytes) h.write

/-- **Each request keeps a map in step with its list of pairs.** -/
theorem fieldMap_serve_agrees (m : FieldMap) (pairs : PairList) (request : Request)
    (h : m.Represents pairs) :
    InStep FieldMap.Represents (m.serve request) (pairs.serve request) := by
  cases request with
  | insert key value =>
      obtain ⟨hprevious, hnext⟩ := h.exchange key value
      exact ⟨congrArg Reply.value hprevious, hnext⟩
  | remove key =>
      obtain ⟨hprevious, hnext⟩ := h.withdraw key
      exact ⟨congrArg Reply.value hprevious, hnext⟩
  | clear => exact ⟨rfl, FieldMap.represents_empty⟩
  | collect collected => exact ⟨rfl, FieldMap.represents_ofList collected⟩
  | load limits source => exact serveLoad_agrees readMap_agrees h limits source
  | ask query => exact ⟨h.answer query, h⟩

/-- **Each request keeps a message in step with its command and its list of pairs.** -/
theorem message_serve_agrees (m : Message) (plain : PairMessage) (request : Message.Request)
    (h : m.Represents plain) :
    InStep Message.Represents (m.serve request) (plain.serve request) := by
  cases request with
  | setCommand command => exact ⟨rfl, rfl, h.attachments⟩
  | attach name value =>
      obtain ⟨hprevious, hnext⟩ := h.attachments.exchange name value
      exact ⟨congrArg Reply.value hprevious, h.command, hnext⟩
  | attachSegment name s =>
      rw [Message.serve, PairMessage.serve, Message.attachSegment]
      cases Field.ofSegment s with
      | ok value => exact ⟨rfl, h.command, (h.attachments.exchange name value).2⟩
      | error e => exact ⟨rfl, h⟩
  | remove name =>
      obtain ⟨hprevious, hnext⟩ := h.attachments.withdraw name
      exact ⟨congrArg Reply.value hprevious, h.command, hnext⟩
  | load limits source => exact serveLoad_agrees readMessage_agrees h limits source
  | attachment name => exact ⟨congrArg Reply.attachment (h.attachment name), h⟩
  | get name kind =>
      refine ⟨?_, h⟩
      show Reply.typed (m.get name kind) = Reply.typed _
      rw [Message.get, h.attachment name]
  | flatten => exact ⟨congrArg (Reply.bytes ∘ Writer.bytes) h.write, h⟩
  | ask query => exact ⟨h.attachments.answer query, h⟩

-- ── Equality ─────────────────────────────────────────────────────────────────────

/-- Maps that compare equal are the same, for the index of each agrees with its pairs. -/
theorem FieldMap.Indexed.eq_of_beq {m m' : FieldMap} (h : m.Indexed) (h' : m'.Indexed)
    (heq : (m == m') = true) : m = m' :=
  h.eq_of_entries_eq h' (LawfulBEq.eq_of_beq heq)

/-- **Field maps are insertion-ordered dictionaries.** After every history of requests the keys of a
    map are distinct and its index gives exactly these, each with its place; its pairs are those of
    the list that the same history builds, and so were all replies on the way. The same holds of the
    attachments of a message. Collected pairs keep the order in which their keys first occur, and the
    values that occur last. Whatever histories built two maps that compare equal, they give the same
    replies to all later requests; so do messages. -/
theorem dictionary_runs_agree :
    (∀ requests : List Request,
      (FieldMap.built requests).keys.Nodup ∧ (FieldMap.built requests).Indexed ∧
      (FieldMap.built requests).entries.toList = (serveAll PairList.serve requests []).2 ∧
      (serveAll FieldMap.serve requests .empty).1 = (serveAll PairList.serve requests []).1) ∧
    (∀ (command : String) (requests : List Message.Request),
      (Message.built command requests).attachments.keys.Nodup ∧
      (Message.built command requests).attachments.Indexed ∧
      (Message.built command requests).attachments.entries.toList =
        (serveAll PairMessage.serve requests ⟨command, []⟩).2.attachments ∧
      (serveAll Message.serve requests ⟨command, .empty⟩).1 =
        (serveAll PairMessage.serve requests ⟨command, []⟩).1) ∧
    (∀ pairs : PairList, (FieldMap.ofList pairs).keys = (pairs.map Prod.fst).eraseDups ∧
      ∀ key, (FieldMap.ofList pairs).get? key = pairs.reverse.lookup key) ∧
    (∀ history history' later : List Request,
      (FieldMap.built history == FieldMap.built history') = true →
        (serveAll FieldMap.serve later (FieldMap.built history)).1 =
          (serveAll FieldMap.serve later (FieldMap.built history')).1) ∧
    ∀ (command command' : String) (history history' later : List Message.Request),
      (Message.built command history == Message.built command' history') = true →
        (serveAll Message.serve later (Message.built command history)).1 =
          (serveAll Message.serve later (Message.built command' history')).1 := by
  have hmaps := fun requests : List Request =>
    serveAll_agrees fieldMap_serve_agrees requests FieldMap.represents_empty
  have hmessages := fun (command : String) (requests : List Message.Request) =>
    serveAll_agrees message_serve_agrees requests (Message.represents_new command)
  refine ⟨?_, ?_, ?_, ?_, ?_⟩
  · intro requests
    obtain ⟨hreplies, hindexed, hentries⟩ := hmaps requests
    exact ⟨hindexed.keys_nodup, hindexed, hentries, hreplies⟩
  · intro command requests
    obtain ⟨hreplies, -, hindexed, hentries⟩ := hmessages command requests
    exact ⟨hindexed.keys_nodup, hindexed, hentries, hreplies⟩
  · intro pairs
    have hcollected := FieldMap.represents_ofList pairs
    exact ⟨hcollected.keys.trans (PairList.keys_collect pairs),
      fun key => (hcollected.get? key).trans (PairList.lookup_collect pairs key)⟩
  · intro history history' later heq
    have hsame : FieldMap.built history = FieldMap.built history' :=
      (hmaps history).2.indexed.eq_of_beq (hmaps history').2.indexed heq
    rw [hsame]
  · intro command command' history history' later heq
    obtain ⟨hcommand, hattachments⟩ := Bool.and_eq_true_iff.mp heq
    have hsame : Message.built command history = Message.built command' history' := by
      have hmaps := (hmessages command history).2.attachments.indexed.eq_of_beq
        (hmessages command' history').2.attachments.indexed hattachments
      exact congrArg₂ Message.mk (eq_of_beq hcommand) hmaps
    rw [hsame]

end SegmentWire
