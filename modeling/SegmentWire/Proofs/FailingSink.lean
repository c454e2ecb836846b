import SegmentWire.Proofs.ItemCodec
import SegmentWire.Proofs.SinkCalls

/-!
# Writing to a sink that runs full

Writing is a long sequence of small writes, and any of them may be the one that there is no room
for. Since a sound item comes down to one run of bytes, what a full sink has taken is a prefix of
it, of which nothing but the room decides the length.

Keys are refused before anything is written. That is a rule of maps alone: a message writes its
start marker and its command before it comes to its attachments, and these stay behind when a name
is refused.

* **`failing_sink_takes_prefix`** — writing succeeds exactly if there is room for all bytes, and
  leaves as many of them as there is room for; a map with a key that is too long leaves nothing.
* **`Message.broken_head_stays_behind`** — what a message with such a name leaves.
-/

namespace SegmentWire

/-- **What a sink with limited room keeps of a run of bytes.** -/
theorem Writer.runCapped_put (bytes : Bytes) (cap : Nat) :
    Writer.runCapped (Sink.put bytes) (some cap) =
      if bytes.length ≤ cap then (.ok (), bytes) else (.error .sinkFull, bytes.take cap) := by
  have hrun : ∀ {outcome after}, Sink.put bytes { room := some cap } = (outcome, after) →
      Writer.runCapped (Sink.put bytes) (some cap) = (outcome, after.taken.toList) :=
    fun h => congrArg (fun run => (run.1, run.2.taken.toList)) h
  rcases Nat.lt_or_ge cap bytes.length with hlt | hle
  · rw [if_neg (Nat.not_le.mpr hlt), hrun (Sink.put_of_lt hlt), Array.toList_appendList,
      List.nil_append]
  · rw [if_pos hle, hrun (Sink.put_of_le hle), Array.toList_appendList, List.nil_append]

/-- A failure that is thrown at once leaves any sink as it was. -/
theorem Writer.runCapped_throw (e : WireError) (cap : Option Nat) :
    Writer.runCapped (throw e) cap = (.error e, []) := rfl

theorem FieldMap.not_all_fit_of_long {m : FieldMap}
    (h : ∃ key ∈ m.keys, maxRegular < key.utf8ByteSize) :
    ¬ ∀ pair ∈ m.entries.toList, pair.1.utf8ByteSize ≤ maxRegular := by
  obtain ⟨key, hkey, hlt⟩ := h
  obtain ⟨pair, hpair, rfl⟩ := List.mem_map.mp hkey
  exact fun hfit => Nat.not_lt.mpr (hfit pair hpair) hlt

/-- **A failing sink keeps a prefix.** If a reachable item has an encoding, then it is written
    without failure exactly if the sink has room for all of it, which the sink then holds; otherwise
    the sink fails, and holds as many bytes of the encoding as there was room for. A map with a key
    that is too long is refused for that key, wherever it stands, and leaves every sink as it was.
    Underneath, the loop of calls comes to the primitive write, so that it makes no difference how
    many bytes the sink takes in each call, nor how the encoding is cut into runs. -/
theorem failing_sink_takes_prefix :
    (∀ (item : Item) (e : Bytes), item.Reachable → item.flatten = .ok e → ∀ cap : Nat,
      ((item.write.runCapped (some cap)).1 = .ok () ↔ e.length ≤ cap) ∧
      (e.length ≤ cap → item.write.runCapped (some cap) = (.ok (), e)) ∧
      (cap < e.length → ∃ err : WireError, err.kind = .io ∧
        item.write.runCapped (some cap) = (.error err, e.take cap)) ∧
      ∀ (runs : List Bytes) (turns : List Turn), runs.flatten = e →
        Channel.seen (Channel.writeRuns runs ⟨{ room := some cap }, turns⟩) =
          item.write { room := some cap }) ∧
    (∀ m : FieldMap, (∃ key ∈ m.keys, maxRegular < key.utf8ByteSize) →
      ∃ err : WireError, err.kind = .invalidKey ∧ (∀ sink, m.write sink = (.error err, sink)) ∧
        ∀ cap, m.write.runCapped cap = (.error err, [])) ∧
    ∀ (bytes : Bytes) (c : Channel), Channel.seen (c.writeAll bytes) = Sink.put bytes c.sink := by
  refine ⟨fun item e hreachable hflatten cap => ?_, fun m hlong => ?_, Channel.seen_writeAll⟩
  · obtain ⟨hkeys, hencoding⟩ := hreachable.sound.flatten_eq_ok_iff.mp hflatten
    have hwrite : item.write = Sink.put e := by
      rw [hreachable.sound.write_eq_put hkeys, hencoding]
    rw [hwrite, Writer.runCapped_put]
    refine ⟨?_, fun hle => if_pos hle, fun hlt => ⟨.sinkFull, rfl, if_neg (Nat.not_le.mpr hlt)⟩, ?_⟩
    · split
      · next hle => exact iff_of_true rfl hle
      · next hlt => exact iff_of_false nofun hlt
    · rintro runs turns rfl
      exact Channel.seen_writeRuns runs _
  · obtain ⟨first, -, -, hwrite⟩ := FieldMap.write_of_long (FieldMap.not_all_fit_of_long hlong)
    rw [hwrite]
    exact ⟨.keyTooLong first.utf8ByteSize, rfl, fun _ => rfl, Writer.runCapped_throw _⟩

/-- A map of one number, written to a sink with room for four of its ten bytes and to one with room
    for all of them, which takes a byte in its first call, is interrupted and then takes three at
    most. With a key of a byte too many behind the first one, a sink without any room is not even
    asked. -/
theorem failing_sink_takes_prefix_pair :
    let f : Field := .ofValue (.int16 (-2)) rfl
    let item : Item := .map (.ofList [("k", f)])
    let e : Bytes := [18, 0, 1, 14, 0, 1, 107, 5, 255, 254]
    let long : String := .ofList (.replicate 65536 'a')
    item.Reachable ∧ item.flatten = .ok e ∧
    item.write.runCapped (some 10) = (.ok (), e) ∧
    (∃ err : WireError, err.kind = .io ∧
      item.write.runCapped (some 4) = (.error err, [18, 0, 1, 14])) ∧
    Channel.seen (Channel.writeRuns [[18, 0, 1, 14], [], [0, 1, 107, 5, 255, 254]]
        ⟨{ room := some 10 }, [.upTo 0, .interrupted, .upTo 2]⟩) =
      item.write { room := some 10 } ∧
    ∃ err : WireError, err.kind = .invalidKey ∧
      (FieldMap.ofList [("k", f), (long, f)]).write.runCapped (some 0) = (.error err, []) := by
  intro f item e long
  have hf : (Item.field f).Reachable := .fieldOfValue _ rfl
  have hitem : item.Reachable := .mapOf (by simpa using hf)
  have hentries := FieldMap.entries_ofList_singleton "k" f
  have hflatten : item.flatten = .ok e := by
    refine hitem.sound.flatten_eq_ok_iff.mpr ⟨?_, ?_⟩
    · intro key hkey
      rw [Item.keys, FieldMap.keys, hentries, List.map_singleton, List.mem_singleton] at hkey
      subst hkey
      decide
    · rw [Item.encoding, Item.segments, FieldMap.members, FieldMap.length, ← Array.length_toList,
        hentries]
      decide
  have hlong : ∃ key ∈ (FieldMap.ofList [("k", f), (long, f)]).keys,
      maxRegular < key.utf8ByteSize := by
    have hne : "k" ≠ long := by
      intro heq
      have hsize := congrArg String.utf8ByteSize heq
      rw [utf8ByteSize_replicate] at hsize
      exact absurd hsize (by decide)
    have hnodup : ([("k", f), (long, f)].map Prod.fst).Nodup := by
      simpa using hne
    refine ⟨long, ?_, ?_⟩
    · rw [FieldMap.keys, (FieldMap.ofList_of_nodup hnodup).2]
      exact List.mem_cons_of_mem _ (List.mem_singleton_self _)
    · rw [utf8ByteSize_replicate]
      decide
  obtain ⟨hwritten, hrefused, -⟩ := failing_sink_takes_prefix
  obtain ⟨-, hall, -, hcalls⟩ := hwritten item e hitem hflatten 10
  obtain ⟨-, -, hsome, -⟩ := hwritten item e hitem hflatten 4
  obtain ⟨err, hkind, -, htaken⟩ := hrefused _ hlong
  exact ⟨hitem, hflatten, hall (by decide), hsome (by decide), hcalls _ _ rfl, err, hkind, htaken _⟩

namespace Message

variable {m : Message}

theorem five_le_length_head (m : Message) : 5 ≤ m.head.length := by
  have hstart : startMarker.encoding.length = 2 := rfl
  have hcommand : 3 ≤ (Segment.ofText m.command).encoding.length := by
    rw [Segment.length_encoding_ofText]
    split
    · exact Nat.le_add_right 3 _
    · exact Nat.le_trans (by decide : 3 ≤ 1 + 8) (Nat.le_add_right _ _)
  rw [head, List.length_append]
  omega

/-- **The head of a message with a name that is too long stays behind**, although the map of the
    attachments would have been refused before anything is written: a sink that accepts everything
    takes the start marker and the command, and then the message is refused for the name. -/
theorem broken_head_stays_behind (m : Message)
    (h : ∃ name ∈ m.attachments.keys, maxRegular < name.utf8ByteSize) :
    ∃ err : WireError, err.kind = .invalidKey ∧ 5 ≤ m.head.length ∧ ∀ sink : Sink,
      m.attachments.write sink = (.error err, sink) ∧
      (sink.room = none →
        m.write sink = (.error err, { sink with taken := sink.taken ++ m.head })) := by
  obtain ⟨name, -, -, hattachments, hwrite⟩ := write_of_long (FieldMap.not_all_fit_of_long h)
  refine ⟨.keyTooLong name.utf8ByteSize, rfl, m.five_le_length_head, fun sink => ⟨?_, ?_⟩⟩
  · rw [hattachments]
    rfl
  · intro hroom
    obtain ⟨taken, room⟩ := sink
    obtain rfl : room = none := hroom
    rw [hwrite]
    rfl

/-- The command "c", refused for the name of its one attachment after six bytes of it are
    written. -/
theorem broken_head_stays_behind_letter :
    let m := attach { command := "c" } (.ofList (.replicate 65536 'a')) (.ofValue (.uint8 1) rfl)
    (∃ name ∈ m.attachments.keys, maxRegular < name.utf8ByteSize) ∧
      ∃ err : WireError, err.kind = .invalidKey ∧
        m.write.runCapped none = (.error err, [1, 1, 14, 0, 1, 99]) := by
  intro m
  have hkeys : m.attachments.keys = [.ofList (.replicate 65536 'a')] :=
    congrArg (List.map Prod.fst) (FieldMap.entries_ofList_singleton _ _)
  have hlong : ∃ name ∈ m.attachments.keys, maxRegular < name.utf8ByteSize := by
    refine ⟨_, hkeys ▸ List.mem_singleton_self _, ?_⟩
    rw [utf8ByteSize_replicate]
    decide
  obtain ⟨err, hkind, -, hsink⟩ := broken_head_stays_behind m hlong
  have hwrite := (hsink {}).2 rfl
  rw [show m.head = [1, 1, 14, 0, 1, 99] by decide] at hwrite
  exact ⟨hlong, err, hkind, congrArg (fun run => (run.1, run.2.taken.toList)) hwrite⟩

end Message

end SegmentWire
