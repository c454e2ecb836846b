import SegmentWire.Proofs.Delivery
import SegmentWire.Proofs.ItemCodec
import SegmentWire.Proofs.Loops

/-!
# Streams of mixed items

Nothing stands between the items of a stream, and nothing says of what kind the next one is. Each of
them ends where its own bytes say that it ends, whatever comes behind it, so that a reader that asks
for the same kinds in the same order never gets out of step.

* **`bytesBehind`** — what is left behind every item of a stream.
* **`observed_readItemsAfter_of_encodable`** — one item after the other is found, with what is left
  behind it.
* **`mixed_stream_reads_back`** — what is written one after the other is read back, item by item.
-/

namespace SegmentWire

/-- The bytes behind every one of some runs of bytes that stand in front of a tail. -/
def bytesBehind (tail : Bytes) : List Bytes → List Bytes
  | [] => []
  | _ :: es => (es.flatten ++ tail) :: bytesBehind tail es

/-- **One item after the other is found.** The induction is on the items still to be read, for every
    source that holds them and for all that was read before. -/
theorem observed_readItemsAfter_of_encodable {items : List Item}
    (h : ∀ item ∈ items, item.Encodable) {source : Source} {tail : Bytes}
    (hpending : source.pending = (items.map Item.encoding).flatten ++ tail)
    (before : Array (Item × Source)) :
    observed (readItemsAfter before .unbounded (items.map Item.kind) source) =
      (before.toList.map (fun found => (found.1, found.2.pending)) ++
        items.zip (bytesBehind tail (items.map Item.encoding)), .ok tail) := by
  induction items generalizing source before with
  | nil =>
      refine Prod.ext (List.append_nil _).symm ?_
      exact congrArg Except.ok hpending
  | cons item items ih =>
      obtain ⟨hitem, hitems⟩ := List.forall_mem_cons.mp h
      rw [List.map_cons, List.flatten_cons, List.append_assoc] at hpending
      obtain ⟨rest, hread, hrest⟩ := hitem.finds hpending
      rw [List.map_cons, readItemsAfter, hread]
      show observed (readItemsAfter (before.push (item, rest)) _ _ rest) = _
      rw [ih hitems hrest, Array.toList_push, List.map_append, List.append_assoc,
        List.map_singleton, hrest]
      rfl

/-- **Mixed streams.** Items of any kinds are written one after the other, each as it would be
    written alone, and followed by anything. Then the reads of the same kinds in the same order find
    exactly these items, each of them with exactly the bytes of the items behind it and of the tail
    still to be read, so that the tail is what is left in the end, however a source delivers the
    bytes. -/
theorem mixed_stream_reads_back (items : List Item)
    (h : ∀ item ∈ items, item.Reachable ∧ item.KeysFit ∧ item.Countable) :
    ∃ es : List Bytes, items.mapM Item.flatten = .ok es ∧
      (writeItems items).bytes = .ok es.flatten ∧ writeItems items = Sink.put es.flatten ∧
      ∀ (source : Source) (tail : Bytes), source.pending = es.flatten ++ tail →
        observed (readItems .unbounded (items.map Item.kind) source) =
          (items.zip (bytesBehind tail es), .ok tail) := by
  have hencodable : ∀ item ∈ items, item.Encodable := by
    intro item hitem
    obtain ⟨hreachable, hkeys, hcountable⟩ := h item hitem
    exact hreachable.encodable_of hkeys hcountable
  have hwrite : writeItems items = Sink.put (items.map Item.encoding).flatten := by
    rw [← List.flatMap_def]
    exact Writer.forM_eq_put fun item hitem => (hencodable item hitem).write_eq_put
  refine ⟨items.map Item.encoding, ?_, ?_, hwrite, ?_⟩
  · exact mapM_eq_ok_map fun item hitem => (hencodable item hitem).flatten_eq
  · rw [hwrite, Writer.bytes_put]
  · intro source tail hpending
    exact observed_readItemsAfter_of_encodable hencodable hpending #[]

/-- An empty list, a message, a field, a document that holds an index without a map, and such an
    index by itself, with bytes behind them that would begin one more. -/
theorem mixed_stream_reads_back_four_kinds :
    let f : Field := .ofValue (.int16 (-2)) rfl
    let m : Message := (Message.exchange { command := "c" } "k" f).2
    let d : Document := ⟨#[.mapIndex 1, f.segment]⟩
    let items : List Item :=
      [.list (.ofList []), .message m, .field f, .document d, .segment (.mapIndex 2)]
    let tail : Bytes := [18, 0]
    ∃ es : List Bytes, items.mapM Item.flatten = .ok es ∧
      (writeItems items).bytes = .ok es.flatten ∧
      observed (readItems .unbounded [.list, .message, .field, .document, .segment]
          ⟨es.flatten ++ tail, [.upTo 2, .interrupted, .upTo 0], .silent⟩) =
        (items.zip (bytesBehind tail es), .ok tail) := by
  intro f m d items tail
  have hf : (Item.field f).Reachable := .fieldOfValue _ rfl
  have hl : (Item.list (.ofList [])).Reachable := .listOf (List.forall_mem_nil _)
  have hm : (Item.message m).Reachable := .attach "k" (.command "c") hf
  have hd : (Item.document d).Reachable :=
    .documentPush (.documentPush .emptyDocument (.ofValue (.mapIndex 1)) rfl) (.fieldSegment hf) rfl
  have hentries : m.attachments.entries.toList = [("k", f)] :=
    FieldMap.entries_ofList_singleton "k" f
  have hlength : m.attachments.length = 1 := by
    rw [FieldMap.length, ← Array.length_toList, hentries]
    rfl
  have hkeys : (Item.message m).KeysFit := by
    intro key hkey
    rw [Item.keys, FieldMap.keys, hentries, List.map_singleton, List.mem_singleton] at hkey
    subst hkey
    decide
  have hcountable : (Item.message m).Countable := by
    refine ⟨?_, by decide, ?_⟩
    · rw [hentries]
      decide
    · rw [Message.integrityCount, hlength]
      decide
  have hpayload : f.segment.payload.length ≤ maxWord := by decide
  have hindex : (Segment.mapIndex 2).payload.length ≤ maxWord := by decide
  have hitems : ∀ item ∈ items, item.Reachable ∧ item.KeysFit ∧ item.Countable := by
    intro item hitem
    simp only [items, List.mem_cons, List.not_mem_nil, or_false] at hitem
    rcases hitem with rfl | rfl | rfl | rfl | rfl
    · exact ⟨hl, Item.keysFit_of_keys_nil rfl, List.forall_mem_nil _, by decide⟩
    · exact ⟨hm, hkeys, hcountable⟩
    · exact ⟨hf, Item.keysFit_of_keys_nil rfl, hpayload⟩
    · exact ⟨hd, Item.keysFit_of_keys_nil rfl, by decide, by decide⟩
    · exact ⟨.ofValue (.mapIndex 2), Item.keysFit_of_keys_nil rfl, hindex⟩
  obtain ⟨es, hes, hbytes, -, hread⟩ := mixed_stream_reads_back items hitems
  exact ⟨es, hes, hbytes, hread _ tail rfl⟩

end SegmentWire
