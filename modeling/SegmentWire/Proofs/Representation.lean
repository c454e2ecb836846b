import SegmentWire.Proofs.PairList

/-!
# Field maps and their lists of pairs

A field map keeps an index beside its pairs, which each operation has to follow; a list of pairs is
searched and changed in one place. As long as the index agrees with the pairs, the two cannot be
told apart.

* **`FieldMap.Represents`** — the pairs and the index of a map agree, and the pairs are these.
* **`Represents.exchange`**, **`Represents.withdraw`**, **`represents_ofList`** — insertions and removals
  give back the same, and keep the map in step with the list.
* **`Represents.get?`**, **`Represents.write`** and others — so does all that is asked of them.
* **`readMap_agrees`**, **`readMessage_agrees`** — the same holds of what is read, on every source.
-/

namespace SegmentWire

/-- Two outcomes are in step: what is given back is the same, and the states are related. -/
def InStep {ω σ τ : Type} (related : σ → τ → Prop) (outcome : ω × σ) (outcome' : ω × τ) : Prop :=
  outcome.1 = outcome'.1 ∧ related outcome.2 outcome'.2

-- ── A map and its list of pairs ──────────────────────────────────────────────────

namespace FieldMap

/-- The pairs of the map are these, and its index agrees with them. -/
structure Represents (m : FieldMap) (pairs : PairList) : Prop where
  indexed : m.Indexed
  entries : m.entries.toList = pairs

variable {m : FieldMap} {pairs : PairList}

theorem represents_empty : empty.Represents [] := ⟨indexed_empty, rfl⟩

/-- A key is either nowhere, or the index gives the place where it stands among the pairs, and it
    stands nowhere else. -/
theorem Represents.absent_or_split (h : m.Represents pairs) (key : String) :
    (m.position? key = none ∧ key ∉ pairs.keys) ∨
      ∃ front old back, pairs = front ++ (key, old) :: back ∧
        m.position? key = some front.length ∧ key ∉ PairList.keys (front ++ back) := by
  obtain ⟨hindexed, rfl⟩ := h
  cases hplace : m.position? key with
  | none =>
      refine Or.inl ⟨rfl, fun hkey => ?_⟩
      have hcontains := hindexed.contains_iff.mpr hkey
      rw [contains, hplace] at hcontains
      cases hcontains
  | some place =>
      obtain ⟨front, old, back, hsplit, rfl, hkey⟩ := hindexed.split hplace
      exact Or.inr ⟨front, old, back, hsplit, rfl, hkey⟩

theorem Represents.get? (h : m.Represents pairs) (key : String) :
    m.get? key = pairs.lookup key := by
  rcases h.absent_or_split key with ⟨hplace, hkey⟩ | ⟨front, old, back, hsplit, hplace, hkey⟩
  · rw [FieldMap.get?, hplace, PairList.lookup_eq_none hkey]
  · rw [get?_of_position? hplace, getElem?_of_split (h.entries.trans hsplit), hsplit,
      PairList.lookup_split hkey]
    rfl

theorem Represents.contains (h : m.Represents pairs) (key : String) :
    m.contains key = (pairs.lookup key).isSome := by
  rcases h.absent_or_split key with ⟨hplace, hkey⟩ | ⟨front, old, back, hsplit, hplace, hkey⟩
  · rw [FieldMap.contains, hplace, PairList.lookup_eq_none hkey]
    rfl
  · rw [FieldMap.contains, hplace, hsplit, PairList.lookup_split hkey]
    rfl

theorem Represents.length (h : m.Represents pairs) : m.length = pairs.length := by
  rw [FieldMap.length, ← Array.length_toList, h.entries]

theorem Represents.keys (h : m.Represents pairs) : m.keys = pairs.keys := by
  rw [FieldMap.keys, h.entries]
  rfl

/-- **An insertion does to a map what it does to the list**, and gives back the same. -/
theorem Represents.exchange (h : m.Represents pairs) (key : String) (value : Field) :
    InStep Represents (m.exchange key value) (pairs.exchange key value) := by
  rcases h.absent_or_split key with ⟨hplace, hkey⟩ | ⟨front, old, back, hsplit, hplace, hkey⟩
  · have habsent : m.contains key = false := by rw [FieldMap.contains, hplace]; rfl
    rw [PairList.exchange, PairList.lookup_eq_none hkey]
    refine ⟨by rw [FieldMap.exchange, hplace], h.indexed.exchange key value, ?_⟩
    have hentries := entries_insert_of_absent habsent value
    rw [insert] at hentries
    rw [hentries, Array.toList_push, h.entries]
  · obtain ⟨hold, hentries⟩ := exchange_of_split hplace (h.entries.trans hsplit) value
    rw [hsplit, PairList.exchange_split hkey]
    exact ⟨hold, h.indexed.exchange key value, hentries⟩

/-- **A removal does to a map what it does to the list**, and gives back the same. -/
theorem Represents.withdraw (h : m.Represents pairs) (key : String) :
    InStep Represents (m.withdraw key) (pairs.withdraw key) := by
  rcases h.absent_or_split key with ⟨hplace, hkey⟩ | ⟨front, old, back, hsplit, hplace, hkey⟩
  · have hfilter : pairs.filter (fun pair => pair.1 ≠ key) = pairs := by
      rw [List.filter_eq_self]
      intro pair hpair
      rw [decide_eq_true_iff]
      rintro rfl
      exact hkey (List.mem_map_of_mem hpair)
    rw [PairList.withdraw, PairList.lookup_eq_none hkey, hfilter, FieldMap.withdraw, hplace]
    exact ⟨rfl, h⟩
  · obtain ⟨hold, hentries⟩ := withdraw_of_split hplace (h.entries.trans hsplit)
    rw [hsplit, PairList.withdraw_split hkey]
    exact ⟨hold, h.indexed.withdraw key, hentries⟩

/-- Collected pairs make a map that represents the list that they make. The induction is on the
    pairs still to come, for every map and list in step. -/
theorem Represents.foldl (h : m.Represents pairs) (more : PairList) :
    (more.foldl (fun m pair => m.insert pair.1 pair.2) m).Represents
      (more.foldl (fun before pair => (PairList.exchange before pair.1 pair.2).2) pairs) := by
  induction more generalizing m pairs with
  | nil => exact h
  | cons pair more ih => exact ih (h.exchange pair.1 pair.2).2

theorem represents_ofList (pairs : PairList) : (ofList pairs).Represents pairs.collect :=
  represents_empty.foldl pairs

theorem Represents.write (h : m.Represents pairs) : m.write = pairs.write := by
  obtain ⟨-, rfl⟩ := h
  have hpair : ∀ pair : String × Field,
      writePair pair = (pairSegments pair).forM Segment.write := by
    intro pair
    show ((keySegment pair.1).write >>= fun _ => pair.2.segment.write) =
      ((keySegment pair.1).write >>= fun _ => pair.2.segment.write >>= fun _ => pure ())
    rw [bind_pure_unit]
  have hpairs : ∀ pairs : PairList, pairs.forM writePair =
      (pairs.flatMap pairSegments).forM Segment.write := by
    intro pairs
    induction pairs with
    | nil => rfl
    | cons pair pairs ih =>
        show (writePair pair >>= fun _ => pairs.forM writePair) =
          forM (pairSegments pair ++ pairs.flatMap pairSegments) Segment.write
        rw [List.forM_append, ih, hpair]
        rfl
  rw [FieldMap.write, PairList.write, ← Array.find?_toList]
  cases m.entries.toList.find? fun pair => decide (maxRegular < pair.1.utf8ByteSize) with
  | some pair => rfl
  | none =>
      show (_ >>= fun _ => m.entries.toList.forM writePair) = _
      rw [hpairs]
      rfl

end FieldMap

-- ── Reading ──────────────────────────────────────────────────────────────────────

namespace Reader

variable {α β γ δ : Type} {related : α → β → Prop} {related' : γ → δ → Prop}

/-- Two reads agree: on every source both fail with the same error, or both leave the same and find
    related values. -/
def Agree (related : α → β → Prop) (read : Reader α) (read' : Reader β) : Prop :=
  ∀ limits source, Matching (fun found found' => related found.1 found'.1 ∧ found.2 = found'.2)
    (read limits source) (read' limits source)

theorem agree_refl (read : Reader α) : read.Agree Eq read := by
  intro limits source
  cases read limits source with
  | error e => exact .failed e
  | ok found => exact .found ⟨rfl, rfl⟩

theorem agree_pure {a : α} {b : β} (h : related a b) :
    (pure a : Reader α).Agree related (pure b) :=
  fun _ _ => .found ⟨h, rfl⟩

theorem agree_throw (e : WireError) : (throw e : Reader α).Agree related (throw e : Reader β) :=
  fun _ _ => .failed e

/-- Reads that agree go on alike if what they do with related values agrees. -/
theorem Agree.bind {first : Reader α} {first' : Reader β} {next : α → Reader γ}
    {next' : β → Reader δ} (h : first.Agree related first')
    (hnext : ∀ a b, related a b → (next a).Agree related' (next' b)) :
    (first >>= next).Agree related' (first' >>= next') := by
  intro limits source
  refine Matching.bind (h limits source) ?_
  rintro ⟨a, rest⟩ ⟨b, _⟩ ⟨hab, rfl⟩
  exact hnext a b hab limits rest

/-- Reads that begin with the same read agree if they go on alike. -/
theorem Agree.after (first : Reader α) {next : α → Reader γ} {next' : α → Reader δ}
    (hnext : ∀ a, (next a).Agree related' (next' a)) :
    (first >>= next).Agree related' (first >>= next') := by
  refine (agree_refl first).bind ?_
  rintro a _ rfl
  exact hnext a

end Reader

/-- The loop over the pairs keeps the map in step with the list. The induction is on the number of
    pairs still to come, for every map and list in step. -/
theorem readPairs_agrees (count : Nat) {m : FieldMap} {pairs : PairList} (h : m.Represents pairs) :
    (readPairs count m).Agree FieldMap.Represents (PairList.readMore count pairs) := by
  induction count generalizing m pairs with
  | zero => exact Reader.agree_pure h
  | succ count ih =>
      refine Reader.Agree.after readKey fun key => Reader.Agree.after readField fun value => ?_
      rw [h.contains key]
      split
      · exact Reader.agree_throw _
      · next habsent =>
        have hlookup : pairs.lookup key = none := by
          rwa [Option.not_isSome_iff_eq_none] at habsent
        have hnext := (h.exchange key value).2
        rw [PairList.exchange, hlookup] at hnext
        exact ih hnext

/-- **A map is read as its list of pairs is.** -/
theorem readMap_agrees : readMap.Agree FieldMap.Represents PairList.read :=
  Reader.Agree.after readSegment fun index => Reader.Agree.after (liftM index.mapCount)
    fun count => Reader.Agree.after (checkContainer count.toNat) fun _ =>
      readPairs_agrees count.toNat FieldMap.represents_empty

namespace Message

/-- The message has this command, and its attachments represent this list. -/
structure Represents (m : Message) (plain : PairMessage) : Prop where
  command : m.command = plain.command
  attachments : m.attachments.Represents plain.attachments

variable {m : Message} {plain : PairMessage}

theorem represents_new (command : String) :
    (Message.mk command .empty).Represents ⟨command, []⟩ := ⟨rfl, FieldMap.represents_empty⟩

theorem Represents.attachment (h : m.Represents plain) (name : String) :
    m.attachment name = plain.attachment name := by
  rw [Message.attachment, h.attachments.get?]
  cases hfound : plain.attachments.lookup name with
  | none => rw [PairMessage.attachment, hfound]
  | some field => rw [PairMessage.attachment, hfound]

theorem Represents.write (h : m.Represents plain) : m.write = plain.write := by
  rw [Message.write_eq, PairMessage.write, h.command, h.attachments.write, integrityCount,
    h.attachments.length]

end Message

/-- **A message is read as a command with a list of pairs is.** -/
theorem readMessage_agrees : readMessage.Agree Message.Represents PairMessage.read := by
  refine Reader.Agree.after readStart fun _ => Reader.Agree.after readCommand fun command =>
    readMap_agrees.bind fun attachments pairs h => Reader.Agree.after readSegment fun marker => ?_
  show Reader.Agree _ (liftM (checkEnd marker (2 + 2 * attachments.length)) >>= fun _ =>
    pure (Message.mk command attachments)) _
  rw [h.length]
  exact Reader.Agree.after _ fun _ => Reader.agree_pure ⟨rfl, h⟩

end SegmentWire
