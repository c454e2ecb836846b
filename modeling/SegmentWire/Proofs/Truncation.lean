import SegmentWire.Proofs.Calls
import SegmentWire.Proofs.DocumentCodec
import SegmentWire.Proofs.ListCodec
import SegmentWire.Proofs.MessageCodec

/-!
# Reading goes forward only

A reader never looks past what it takes. So what it finds does not depend on the bytes behind it, a
failure for another reason than too few bytes is final, and an item that is cut off, wherever the
cut is, shows as a short read and as nothing else.

* **`Reader.onBytes`** — the outcome of a read on a run of bytes.
* **`continuation`** — a source and one that has more bytes to come.
* **`Reader.onBytes_append_ok`**, **`Reader.onBytes_append_error`** — more bytes change neither a
  success nor a failure that is not for want of bytes.
* **`Reader.onBytes_cut`** — a read that is cut off is short.
* **`readItem_forward_only`** — all of this for every kind of item.
-/

namespace SegmentWire

/-- A source compared with one that has more bytes to come. -/
def continuation (limits : Limits) (more : Bytes) : Comparison .primitive .primitive where
  tight := limits
  loose := limits
  sources source longer := longer.pending = source.pending ++ more ∧ source.ending ≠ .failing
  errors e e' := e = e'
  excused e := e.kind = .shortRead
  tight_le_loose := limits.le_refl
  excused_or_eq _ _ := Or.inr rfl
  errors_of_onContent _ _ := rfl
  alike_take := by
    rintro - want source longer ⟨hpending, hending⟩
    rw [Fetch.take_primitive]
    rcases Nat.lt_or_ge source.pending.length want with hlt | hle
    · rw [Reader.exactly_of_lt hlt, Ending.reports_of_ne_failing hending]
      exact .excused (show (WireError.shortRead _ _).kind = .shortRead from rfl) _
    · have hlonger : want ≤ longer.pending.length := by
        rw [hpending, List.length_append]
        exact Nat.le_add_right_of_le hle
      rw [Reader.exactly_of_le hle, Reader.exactly_of_le hlonger, hpending,
        List.take_append_of_le_length hle]
      refine .found _ ⟨?_, hending⟩
      rw [source.gather_pending, longer.gather_pending, hpending,
        List.drop_append_of_le_length hle]

theorem continuation_sources (limits : Limits) (bytes more : Bytes) :
    (continuation limits more).sources { pending := bytes } { pending := bytes ++ more } :=
  ⟨rfl, nofun⟩

namespace Reader

variable {α : Type} {read : Reader α} {limits : Limits}

/-- The outcome of a read on a run of bytes: the value, and the bytes that are left. -/
def onBytes (read : Reader α) (limits : Limits) (bytes : Bytes) : Except WireError (α × Bytes) :=
  (read.runOn limits { pending := bytes }).map fun found => (found.1, found.2.pending)

theorem onBytes_eq_ok_iff {bytes left : Bytes} {a : α} :
    read.onBytes limits bytes = .ok (a, left) ↔
      read.Finds limits { pending := bytes } a left := by
  rw [onBytes, Finds]
  cases read.runOn limits { pending := bytes } with
  | error e => simp [Except.map]
  | ok found => simp [Except.map, Prod.ext_iff]

theorem onBytes_eq_error_iff {bytes : Bytes} {e : WireError} :
    read.onBytes limits bytes = .error e ↔ read.runOn limits { pending := bytes } = .error e := by
  rw [onBytes]
  cases read.runOn limits { pending := bytes } with
  | error e => simp [Except.map]
  | ok found => simp [Except.map]

/-- What is decoded is the front of the bytes. -/
theorem Decodes.exists_consumed {form : WireForm α} (h : read.Decodes limits form) {bytes left : Bytes}
    {a : α} (hread : read.onBytes limits bytes = .ok (a, left)) :
    ∃ consumed, bytes = consumed ++ left := by
  obtain ⟨e, -, hpending⟩ := (h _ a left).mp (onBytes_eq_ok_iff.mp hread)
  exact ⟨e, hpending⟩

section Forward

variable (hread : ∀ more, read.Respects (continuation limits more))
include hread

/-- More bytes do not change a success. -/
theorem onBytes_append_ok {bytes left : Bytes} {a : α}
    (h : read.onBytes limits bytes = .ok (a, left)) (more : Bytes) :
    read.onBytes limits (bytes ++ more) = .ok (a, left ++ more) := by
  obtain ⟨rest, hfound, rfl⟩ := onBytes_eq_ok_iff.mp h
  obtain ⟨rest', hfound', hrest, -⟩ :=
    (hread more).of_ok (continuation_sources limits bytes more) hfound
  exact onBytes_eq_ok_iff.mpr ⟨rest', hfound', hrest⟩

/-- More bytes do not change a failure that is not for want of bytes. -/
theorem onBytes_append_error {bytes : Bytes} {e : WireError}
    (h : read.onBytes limits bytes = .error e) (hkind : e.kind ≠ .shortRead) (more : Bytes) :
    read.onBytes limits (bytes ++ more) = .error e := by
  obtain ⟨e', hfailed, rfl⟩ := (hread more).of_error (continuation_sources limits bytes more)
    (onBytes_eq_error_iff.mp h) hkind
  exact onBytes_eq_error_iff.mpr hfailed

/-- **A read that is cut off is short.** On the strict front of what it took it cannot succeed, or it
    would have left more; and it cannot fail on content, or it would have failed before. -/
theorem onBytes_cut {taken missing left : Bytes} {a : α}
    (h : read.onBytes limits (taken ++ (missing ++ left)) = .ok (a, left)) (hmissing : missing ≠ []) :
    ∃ needed got, read.onBytes limits taken = .error (.shortRead needed got) := by
  cases hcut : read.onBytes limits taken with
  | ok found =>
      obtain ⟨b, left'⟩ := found
      have hall := onBytes_append_ok hread hcut (missing ++ left)
      rw [h] at hall
      have hleft := congrArg List.length (congrArg Prod.snd (Except.ok.inj hall))
      have hpos := List.length_pos_iff.mpr hmissing
      simp only [List.length_append] at hleft
      omega
  | error e =>
      by_cases hkind : e.kind = .shortRead
      · cases e <;> cases hkind
        exact ⟨_, _, rfl⟩
      · have hall := onBytes_append_error hread hcut hkind (missing ++ left)
        rw [h] at hall
        cases hall

end Forward

end Reader

/-- Every kind of item is read from the front of the bytes. -/
theorem readItem_consumes (kind : ItemKind) (limits : Limits) {bytes left : Bytes} {item : Item}
    (h : (readItem kind).onBytes limits bytes = .ok (item, left)) :
    ∃ consumed, bytes = consumed ++ left := by
  cases kind with
  | segment => exact (readSegment_decodes limits).map.exists_consumed h
  | field => exact (readField_decodes limits).map.exists_consumed h
  | list => exact (readList_decodes limits).map.exists_consumed h
  | map => exact (readMap_decodes limits).map.exists_consumed h
  | document => exact (readDocument_decodes limits).map.exists_consumed h
  | message => exact (readMessage_decodes limits).map.exists_consumed h

/-- **Reading goes forward only.** Whatever the kind of item and the limits: bytes behind an item are
    left alone and do not change it; bytes behind a failure other than a short read do not mend it;
    and an item that was read is a short read on every strict front of the bytes it took. -/
theorem readItem_forward_only (kind : ItemKind) (limits : Limits) :
    (∀ (bytes more left : Bytes) (item : Item),
      (readItem kind).onBytes limits bytes = .ok (item, left) →
      (readItem kind).onBytes limits (bytes ++ more) = .ok (item, left ++ more)) ∧
    (∀ (bytes more : Bytes) (e : WireError),
      (readItem kind).onBytes limits bytes = .error e → e.kind ≠ .shortRead →
      (readItem kind).onBytes limits (bytes ++ more) = .error e) ∧
    ∀ (bytes left : Bytes) (item : Item),
      (readItem kind).onBytes limits bytes = .ok (item, left) →
      ∃ consumed, bytes = consumed ++ left ∧ ∀ taken, taken <+: consumed → taken ≠ consumed →
        ∃ needed got, (readItem kind).onBytes limits taken = .error (.shortRead needed got) := by
  have hread : ∀ more, (readItem kind).Respects (continuation limits more) :=
    fun _ => readItem_matches kind
  refine ⟨fun bytes more left item h => Reader.onBytes_append_ok hread h more,
    fun bytes more e h hkind => Reader.onBytes_append_error hread h hkind more, ?_⟩
  intro bytes left item h
  obtain ⟨consumed, rfl⟩ := readItem_consumes kind limits h
  refine ⟨consumed, rfl, ?_⟩
  rintro taken ⟨missing, rfl⟩ hne
  rw [List.append_assoc] at h
  refine Reader.onBytes_cut hread h ?_
  rintro rfl
  exact hne (List.append_nil taken).symm

/-- A list of one octet: in front of another byte, and cut off in its item. -/
theorem readItem_forward_only_octet :
    let item : Item := .list (.ofList [⟨⟨.uint8, [7]⟩, rfl⟩])
    (readItem .list).onBytes .unbounded ([19, 0, 1, 4, 7] ++ [9]) = .ok (item, [9]) ∧
      ∃ needed got, (readItem .list).onBytes .unbounded [19, 0, 1, 4] =
        .error (.shortRead needed got) := by
  intro item
  have hread : (readItem .list).onBytes .unbounded [19, 0, 1, 4, 7] = .ok (item, []) := rfl
  obtain ⟨happend, -, hcut⟩ := readItem_forward_only .list .unbounded
  obtain ⟨consumed, hconsumed, hshort⟩ := hcut _ _ _ hread
  obtain rfl : [19, 0, 1, 4, 7] = consumed := hconsumed.trans (List.append_nil _)
  exact ⟨happend _ [9] _ _ hread, hshort [19, 0, 1, 4] ⟨[7], rfl⟩ (by decide)⟩

end SegmentWire
