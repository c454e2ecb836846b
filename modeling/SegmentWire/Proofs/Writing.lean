import SegmentWire.Sink

/-!
# Writers that put a run of bytes

A writer that refuses nothing comes down to one `Sink.put`, whatever room the sink has left: a
sink that runs full in the middle of several writes is left as if all of them were one.

* **`Sink.put_bind_put`** — two writes are the write of both runs of bytes.
* **`Writer.forM_eq_put`** — so is a loop of writes.
* **`Writer.bytes_put`** — what such a writer writes to a sink without a limit.
-/

namespace SegmentWire

namespace Writer

/-- After a success, the next action goes on with the sink as it was left. -/
theorem bind_of_ok {α β : Type} {first : Writer α} {next : α → Writer β} {sink after : Sink} {a : α}
    (h : first sink = (.ok a, after)) : (first >>= next) sink = next a after := by
  show ExceptT.bindCont next (first sink).1 (first sink).2 = next a after
  rw [h]
  rfl

/-- After a failure, there is no next action. -/
theorem bind_of_error {α β : Type} {first : Writer α} {next : α → Writer β} {sink after : Sink}
    {e : WireError} (h : first sink = (.error e, after)) :
    (first >>= next) sink = (.error e, after) := by
  show ExceptT.bindCont next (first sink).1 (first sink).2 = (.error e, after)
  rw [h]
  rfl

end Writer

namespace Sink

theorem put_of_le {bytes : Bytes} {taken : Array UInt8} {room : Nat} (h : bytes.length ≤ room) :
    put bytes ⟨taken, some room⟩ = (.ok (), ⟨taken ++ bytes, some (room - bytes.length)⟩) :=
  if_pos h

theorem put_of_lt {bytes : Bytes} {taken : Array UInt8} {room : Nat} (h : room < bytes.length) :
    put bytes ⟨taken, some room⟩ = (.error .sinkFull, ⟨taken ++ bytes.take room, some 0⟩) :=
  if_neg (Nat.not_le.mpr h)

/-- Taking no bytes changes no sink. -/
theorem put_nil : put [] = pure () := by
  funext sink
  obtain ⟨taken, room⟩ := sink
  cases room with
  | none =>
      show (Except.ok (), Sink.mk (taken ++ []) none) = (Except.ok (), Sink.mk taken none)
      rw [Array.appendList_nil]
  | some room =>
      rw [put_of_le (Nat.zero_le room), Array.appendList_nil]
      rfl

/-- Taking one run of bytes after another appends both. -/
private theorem append_append (taken : Array UInt8) (first second : Bytes) :
    taken ++ first ++ second = taken ++ (first ++ second) := by
  apply Array.ext'
  simp only [Array.toList_appendList, List.append_assoc]

/-- **Two writes are the write of both runs of bytes.** A sink that runs full in the first takes
    nothing of the second. -/
theorem put_bind_put (first second : Bytes) :
    (put first >>= fun _ => put second) = put (first ++ second) := by
  funext sink
  obtain ⟨taken, room⟩ := sink
  cases room with
  | none =>
      show (Except.ok (), Sink.mk (taken ++ first ++ second) none)
        = (Except.ok (), Sink.mk (taken ++ (first ++ second)) none)
      rw [append_append]
  | some room =>
      have hlength : (first ++ second).length = first.length + second.length :=
        List.length_append
      rcases Nat.lt_or_ge room first.length with hfirst | hfirst
      · rw [Writer.bind_of_error (put_of_lt hfirst), put_of_lt (by omega),
          List.take_append_of_le_length (Nat.le_of_lt hfirst)]
      · rw [Writer.bind_of_ok (put_of_le hfirst)]
        rcases Nat.lt_or_ge (room - first.length) second.length with hsecond | hsecond
        · rw [put_of_lt hsecond, put_of_lt (by omega), append_append, List.take_append,
            List.take_of_length_le hfirst]
        · rw [put_of_le hsecond, put_of_le (by omega), append_append, hlength, Nat.sub_add_eq]

end Sink

namespace Writer

/-- A loop of writes is the write of all the runs of bytes, in order. -/
theorem forM_eq_put {α : Type} {write : α → Writer Unit} {form : α → Bytes} {items : List α}
    (h : ∀ a ∈ items, write a = Sink.put (form a)) :
    items.forM write = Sink.put (items.flatMap form) := by
  induction items with
  | nil => exact Sink.put_nil.symm
  | cons a items ih =>
      show (write a >>= fun _ => items.forM write) = Sink.put (form a ++ items.flatMap form)
      rw [h a List.mem_cons_self, ih fun b hb => h b (List.mem_cons_of_mem a hb)]
      exact Sink.put_bind_put (form a) (items.flatMap form)

/-- What a single write leaves in a sink without a limit. -/
theorem bytes_put (e : Bytes) : Writer.bytes (Sink.put e) = .ok e := by
  show Except.ok (#[] ++ e : Array UInt8).toList = .ok e
  rw [Array.toList_appendList]
  rfl

end Writer

end SegmentWire
