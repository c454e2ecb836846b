import SegmentWire.Proofs.Calls

/-!
# Delivery is not observable

A source hands out its bytes in as many calls as it likes, some of them interrupted, and ends in one
of three ways. Of all this a reader sees the bytes, and after too few of them whether the source
ended or failed.

* **`observed`** — what can be told of a run of reads without looking at the source.
* **`observed_readItemsAfter`** — what is observed of two compared runs of reads. From it follow
  **`observed_readItems`**, that a run on any source is the run on its bytes alone, and
  **`observed_readItems_loops`**, that a run over the two loops of calls is the run by the primitive read.
* **`delivery_unobservable`** — the same for every way to deliver some bytes, down to the calls.
-/

namespace SegmentWire

-- ── Runs of reads ────────────────────────────────────────────────────────────────

/-- A source compared with its bare bytes. -/
def delivery (limits : Limits) (ending : Ending) : Comparison .primitive .primitive where
  tight := limits
  loose := limits
  sources bare source :=
    bare.pending = source.pending ∧ bare.ending ≠ .failing ∧ source.ending = ending
  errors e e' := e.kind ≠ .io ∧ e' = ending.reports e
  excused := noExcuse
  tight_le_loose := limits.le_refl
  excused_or_eq := noExcuse_or_self limits
  errors_of_onContent e h := ⟨h.kind_ne_io, (ending.reports_of_onContent h).symm⟩
  alike_take := by
    rintro - want bare source ⟨hpending, hbare, rfl⟩
    rw [Fetch.take_primitive]
    rcases Nat.lt_or_ge source.pending.length want with hlt | hle
    · rw [Reader.exactly_of_lt (hpending ▸ hlt), Reader.exactly_of_lt hlt, hpending,
        Ending.reports_of_ne_failing hbare]
      exact .failed ⟨nofun, rfl⟩
    · rw [Reader.exactly_of_le (hpending ▸ hle), Reader.exactly_of_le hle, hpending]
      refine .found _ ⟨?_, hbare, rfl⟩
      rw [bare.gather_pending, source.gather_pending, hpending]

/-- What can be told of a run of reads without looking at the source: every item with the bytes that
    were left after it, and the bytes left in the end or the failure. -/
def observed (run : Array (Item × Source) × Except WireError Source) :
    List (Item × Bytes) × Except WireError Bytes :=
  (run.1.toList.map fun found => (found.1, found.2.pending), run.2.map Source.pending)

/-- How two compared runs of reads may end: with the same bytes left, or with failures that go
    together. -/
inductive EndAlike (errors : WireError → WireError → Prop) :
    Except WireError Bytes → Except WireError Bytes → Prop
  | left (bytes : Bytes) : EndAlike errors (.ok bytes) (.ok bytes)
  | failed {e e' : WireError} (h : errors e e') : EndAlike errors (.error e) (.error e')

/-- Two compared runs of reads find the same items and leave the same bytes after each of them, if
    sources that go together have the same bytes to come and nothing is excused. The induction is on
    the kinds still to be read, for all that was read before. -/
theorem observed_readItemsAfter {first second : Fetch} {c : Comparison first second}
    (hpending : ∀ {source source'}, c.sources source source' → source.pending = source'.pending)
    (hexcuse : ∀ e, ¬ c.excused e) (kinds : List ItemKind) {source source' : Source}
    (hsources : c.sources source source') {before before' : Array (Item × Source)}
    (hbefore : before.toList.map (fun found => (found.1, found.2.pending)) =
      before'.toList.map fun found => (found.1, found.2.pending)) :
    let run := observed (@readItemsAfter first before c.tight kinds source)
    let run' := observed (@readItemsAfter second before' c.loose kinds source')
    run.1 = run'.1 ∧ EndAlike c.errors run.2 run'.2 := by
  induction kinds generalizing source source' before before' with
  | nil =>
      refine ⟨hbefore, ?_⟩
      show EndAlike c.errors (.ok source.pending) (.ok source'.pending)
      rw [hpending hsources]
      exact .left source'.pending
  | cons kind kinds ih =>
      have houtcomes : c.Outcomes ((@readItem first kind).runOn c.tight source)
          ((@readItem second kind).runOn c.loose source') :=
        readItem_matches kind source source' hsources
      unfold readItemsAfter
      generalize (@readItem first kind).runOn c.tight source = outcome at houtcomes ⊢
      generalize (@readItem second kind).runOn c.loose source' = outcome' at houtcomes ⊢
      cases houtcomes with
      | @found item rest rest' hrest =>
          refine ih hrest ?_
          rw [Array.toList_push, Array.toList_push, List.map_append, List.map_append, hbefore,
            List.map_singleton, List.map_singleton, hpending hrest]
      | failed herrors => exact ⟨hbefore, .failed herrors⟩
      | excused hexcused _ => exact absurd hexcused (hexcuse _)

/-- What is observed of a run on a source is what is observed on its bytes alone, but for a failure at
    the end, which the ending may replace by its own. -/
theorem observed_readItems (limits : Limits) (kinds : List ItemKind) (source : Source) :
    let plain := observed (readItems limits kinds { pending := source.pending })
    observed (readItems limits kinds source) =
        (plain.1, plain.2.mapError source.ending.reports) ∧
      ∀ e, plain.2 = .error e → e.kind ≠ .io := by
  intro plain
  have hsources : (delivery limits source.ending).sources { pending := source.pending } source :=
    ⟨rfl, nofun, rfl⟩
  obtain ⟨hitems, hends⟩ : plain.1 = (observed (readItems limits kinds source)).1 ∧
      EndAlike (delivery limits source.ending).errors plain.2
        (observed (readItems limits kinds source)).2 :=
    observed_readItemsAfter And.left (fun _ => id) kinds hsources rfl
  generalize observed (readItems limits kinds source) = run at hitems hends ⊢
  obtain ⟨items, ended⟩ := run
  obtain ⟨plainItems, plainEnded⟩ := plain
  obtain rfl : plainItems = items := hitems
  cases hends with
  | left bytes => exact ⟨rfl, nofun⟩
  | failed herrors =>
      obtain ⟨hkind, rfl⟩ := herrors
      refine ⟨rfl, ?_⟩
      rintro _ ⟨⟩
      exact hkind

/-- A run of reads over the two loops is observed like the run by the primitive read. From item to item
    the sources keep the same bytes and the same ending, while their turns may come apart. -/
theorem observed_readItems_loops (rooms : Nat → Source → Nat → Nat) (limits : Limits)
    (kinds : List ItemKind) (source : Source) :
    observed (@readItems (.loops rooms) limits kinds source) =
      observed (readItems limits kinds source) := by
  have hsources : (Source.looping rooms limits).sources source source := ⟨rfl, rfl⟩
  obtain ⟨hitems, hends⟩ : (observed (readItems limits kinds source)).1 =
        (observed (@readItems (.loops rooms) limits kinds source)).1 ∧
      EndAlike Eq (observed (readItems limits kinds source)).2
        (observed (@readItems (.loops rooms) limits kinds source)).2 :=
    observed_readItemsAfter And.left (fun _ => id) kinds hsources rfl
  refine Prod.ext hitems.symm ?_
  generalize (observed (readItems limits kinds source)).2 = ended at hends ⊢
  generalize (observed (@readItems (.loops rooms) limits kinds source)).2 = ended' at hends ⊢
  cases hends with
  | left bytes => rfl
  | failed herrors => exact congrArg Except.error herrors.symm

/-- An ending that does not fail replaces no failure. -/
theorem Ending.mapError_reports {ending : Ending} (h : ending ≠ .failing) {α : Type}
    (outcome : Except WireError α) : outcome.mapError ending.reports = outcome := by
  cases outcome with
  | error e => exact congrArg Except.error (reports_of_ne_failing h e)
  | ok a => rfl

/-- **Delivery is not observable.** Of a run of reads on some bytes nothing but the failure at the end
    depends on how a source delivers them, and that only if the source fails instead of ending: then
    its own failure takes the place of a short read, and of no other failure. Underneath, both loops
    of calls come to the primitive read, one for tags and size fields and one for payloads, and so
    every item is read over the two loops as it is by the primitive read, and so is every run of
    them. -/
theorem delivery_unobservable (limits : Limits) (kinds : List ItemKind) (bytes : Bytes)
    (turns : List Turn) :
    let plain := observed (readItems limits kinds { pending := bytes })
    observed (readItems limits kinds ⟨bytes, turns, .silent⟩) = plain ∧
    observed (readItems limits kinds ⟨bytes, turns, .reported⟩) = plain ∧
    observed (readItems limits kinds ⟨bytes, turns, .failing⟩) =
      (plain.1, plain.2.mapError fun e => if e.kind = .shortRead then .sourceFailed else e) ∧
    (∀ e, plain.2 = .error e → e.kind ≠ .io) ∧
    ∀ ending : Ending, let source : Source := ⟨bytes, turns, ending⟩
      (∀ want, Source.seen (Source.fill want [] source) =
          Source.seen (Reader.exactly want limits source) ∧
        ∀ rooms, Source.seen (Source.drain rooms 0 want [] source >>= Source.counted want) =
          Source.seen (Reader.exactly want limits source)) ∧
      ∀ rooms : Nat → Source → Nat → Nat,
        (∀ kind, Source.seen ((@readItem (.loops rooms) kind).runOn limits source) =
          Source.seen ((readItem kind).runOn limits source)) ∧
        observed (@readItems (.loops rooms) limits kinds source) =
          observed (readItems limits kinds source) := by
  have hrun := fun ending => observed_readItems limits kinds ⟨bytes, turns, ending⟩
  have hsilent : Ending.silent ≠ .failing := nofun
  have hreported : Ending.reported ≠ .failing := nofun
  have hfailing : Ending.failing.reports =
      fun e => if e.kind = .shortRead then .sourceFailed else e := by
    funext e
    rw [Ending.reports]
    simp only [true_and]
  refine ⟨?_, ?_, ?_, (hrun .silent).2, fun ending =>
    ⟨fun want => ⟨?_, fun rooms => ?_⟩, fun rooms => ⟨fun kind => ?_, ?_⟩⟩⟩
  · exact (hrun .silent).1.trans (congrArg (Prod.mk _) (Ending.mapError_reports hsilent _))
  · exact (hrun .reported).1.trans (congrArg (Prod.mk _) (Ending.mapError_reports hreported _))
  · rw [← hfailing]
    exact (hrun .failing).1
  · exact Source.seen_fill want limits _
  · exact Source.seen_drain rooms want limits _
  · exact Source.seen_readItem_loops rooms limits kind _
  · exact observed_readItems_loops rooms limits kinds _

end SegmentWire
