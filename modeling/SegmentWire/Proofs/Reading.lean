import SegmentWire.Source
import SegmentWire.Proofs.BigEndian

/-!
# Reads as decoders of wire forms

A **wire form** says which bytes may stand for a value. A read *decodes* a wire form when it
succeeds on exactly the sources whose pending bytes begin with a form of some value, and then
gives that value and leaves what follows the form. How the source delivers its bytes, and how it
ends, plays no part in this.

* **`Reader.Finds`** — one successful read: the value, and the bytes left.
* **`Reader.Decodes`** — all successful reads at once, in both directions.
* **`Decodes.bind`**, **`Decodes.unless`**, **`decodes_lift`** — how decoders are put together: a
  sequence decodes concatenated forms, and a check narrows a form.
* **`Decodes.unambiguous`** — what is decoded delimits itself: no form of one value can be taken
  for a form of another, whatever follows.
-/

namespace SegmentWire

-- powers are those of the core library, whatever else is imported
attribute [local instance (2000)] instPowNat

/-- Which bytes may stand for a value. -/
abbrev WireForm (α : Type) := α → Bytes → Prop

namespace Reader

variable {α β : Type} {limits : Limits}

/-- On this source the read succeeds with this value and leaves these bytes pending. -/
def Finds (read : Reader α) (limits : Limits) (source : Source) (a : α) (left : Bytes) : Prop :=
  ∃ rest, read.runOn limits source = .ok (a, rest) ∧ rest.pending = left

/-- On every source, the read finds a value exactly when the pending bytes are a form of the value
    and then the bytes that are left. -/
def Decodes (read : Reader α) (limits : Limits) (form : WireForm α) : Prop :=
  ∀ (source : Source) (a : α) (left : Bytes),
    read.Finds limits source a left ↔ ∃ e, form a e ∧ source.pending = e ++ left

-- ── Single reads ─────────────────────────────────────────────────────────────────

/-- Reading `want` bytes succeeds exactly when there are as many. -/
theorem decodes_exactly (want : Nat) :
    (exactly want).Decodes limits (fun got e => got = e ∧ e.length = want) := by
  intro source got left
  constructor
  · rintro ⟨rest, hread, rfl⟩
    obtain ⟨hpending, hlength⟩ := exactly_pending hread
    exact ⟨got, ⟨rfl, hlength⟩, hpending⟩
  · rintro ⟨e, ⟨rfl, hlength⟩, hpending⟩
    have hbytes : (source.gather want).1 = got := by
      rw [source.gather_bytes want, hpending, ← hlength]
      exact List.take_left
    refine ⟨(source.gather want).2, ?_, ?_⟩
    · show (if (source.gather want).1.length = want then Except.ok (source.gather want)
        else _) = Except.ok (got, (source.gather want).2)
      rw [if_pos (by rw [hbytes]; exact hlength), ← hbytes]
    · rw [source.gather_pending want, hpending, ← hlength]
      exact List.drop_left

/-- A value that needs no bytes. -/
theorem decodes_pure (a : α) :
    (pure a : Reader α).Decodes limits (fun b e => b = a ∧ e = []) := by
  intro source b left
  constructor
  · rintro ⟨rest, hread, rfl⟩
    cases hread
    exact ⟨[], ⟨rfl, rfl⟩, rfl⟩
  · rintro ⟨e, ⟨rfl, rfl⟩, hpending⟩
    exact ⟨source, rfl, hpending⟩

/-- A look at the limits needs no bytes. -/
theorem decodes_limits :
    (read : Reader Limits).Decodes limits (fun l e => l = limits ∧ e = []) := by
  intro source l left
  constructor
  · rintro ⟨rest, hread, rfl⟩
    cases hread
    exact ⟨[], ⟨rfl, rfl⟩, rfl⟩
  · rintro ⟨e, ⟨rfl, rfl⟩, hpending⟩
    exact ⟨source, rfl, hpending⟩

/-- An outcome that is known already needs no bytes. -/
theorem decodes_lift (outcome : Except WireError α) :
    (liftM outcome : Reader α).Decodes limits (fun a e => outcome = .ok a ∧ e = []) := by
  intro source a left
  constructor
  · rintro ⟨rest, hread, rfl⟩
    obtain ⟨houtcome, rfl⟩ := lift_eq_ok hread
    exact ⟨[], ⟨houtcome, rfl⟩, rfl⟩
  · rintro ⟨e, ⟨rfl, rfl⟩, hpending⟩
    exact ⟨source, rfl, hpending⟩

-- ── Putting decoders together ────────────────────────────────────────────────────

/-- A wire form may be replaced by an equivalent one. -/
theorem Decodes.congr {read : Reader α} {form form' : WireForm α}
    (h : read.Decodes limits form) (hform : ∀ a e, form a e ↔ form' a e) :
    read.Decodes limits form' := by
  intro source a left
  rw [h source a left]
  exact exists_congr fun e => and_congr_left' (hform a e)

/-- A sequence of two reads decodes the concatenation of their forms. -/
theorem Decodes.bind {first : Reader α} {next : α → Reader β} {form : WireForm α}
    {form' : α → WireForm β} (hfirst : first.Decodes limits form)
    (hnext : ∀ a, (next a).Decodes limits (form' a)) :
    (first >>= next).Decodes limits
      (fun b e => ∃ a e₁ e₂, form a e₁ ∧ form' a b e₂ ∧ e = e₁ ++ e₂) := by
  intro source b left
  constructor
  · rintro ⟨rest, hread, rfl⟩
    obtain ⟨a, middle, hread₁, hread₂⟩ := bind_eq_ok hread
    obtain ⟨e₁, hform, hpending⟩ := (hfirst source a middle.pending).mp ⟨middle, hread₁, rfl⟩
    obtain ⟨e₂, hform', hmiddle⟩ := (hnext a middle b rest.pending).mp ⟨rest, hread₂, rfl⟩
    refine ⟨e₁ ++ e₂, ⟨a, e₁, e₂, hform, hform', rfl⟩, ?_⟩
    rw [hpending, hmiddle, List.append_assoc]
  · rintro ⟨e, ⟨a, e₁, e₂, hform, hform', rfl⟩, hpending⟩
    rw [List.append_assoc] at hpending
    obtain ⟨middle, hread₁, hmiddle⟩ := (hfirst source a (e₂ ++ left)).mpr ⟨e₁, hform, hpending⟩
    obtain ⟨rest, hread₂, hrest⟩ := (hnext a middle b left).mpr ⟨e₂, hform', hmiddle⟩
    refine ⟨rest, ?_, hrest⟩
    show (first limits source >>= fun r => next r.1 limits r.2) = .ok (b, rest)
    rw [show first limits source = .ok (a, middle) from hread₁]
    exact hread₂

/-- A refusal before a read narrows what it decodes. -/
theorem Decodes.unless {c : Prop} [Decidable c] {refusal : WireError} {next : Reader α}
    {form : WireForm α} (hnext : ¬ c → next.Decodes limits form) :
    (if c then throw refusal else next).Decodes limits (fun a e => ¬ c ∧ form a e) := by
  intro source a left
  by_cases hc : c
  · rw [if_pos hc]
    constructor
    · rintro ⟨rest, hread, -⟩
      cases hread
    · rintro ⟨e, ⟨hnot, -⟩, -⟩
      exact absurd hc hnot
  · rw [if_neg hc, hnext hc source a left]
    exact exists_congr fun e => and_congr_left' ⟨fun h => ⟨hc, h⟩, And.right⟩

/-- Changing the value that is read changes the value of every form. -/
theorem Decodes.map {read : Reader α} {change : α → β} {form : WireForm α}
    (h : read.Decodes limits form) :
    (change <$> read).Decodes limits (fun b e => ∃ a, form a e ∧ change a = b) := by
  refine (h.bind fun a => decodes_pure (change a)).congr fun b e => ?_
  constructor
  · rintro ⟨a, e₁, e₂, hform, ⟨rfl, rfl⟩, rfl⟩
    exact ⟨a, by rwa [List.append_nil], rfl⟩
  · rintro ⟨a, hform, rfl⟩
    exact ⟨a, e, [], hform, ⟨rfl, rfl⟩, (List.append_nil e).symm⟩

/-- A read of a number decodes its digits. -/
theorem decodes_number (width : Nat) :
    (number width).Decodes limits (fun n e => n < 256 ^ width ∧ e = bigEndian width n) := by
  have hdigits : (ofBigEndian <$> exactly width).Decodes limits _ := (decodes_exactly width).map
  refine hdigits.congr fun n e => ?_
  constructor
  · rintro ⟨got, ⟨rfl, rfl⟩, rfl⟩
    exact ⟨ofBigEndian_lt got, (bigEndian_ofBigEndian got).symm⟩
  · rintro ⟨hlt, rfl⟩
    exact ⟨_, ⟨rfl, length_bigEndian width n⟩, ofBigEndian_bigEndian hlt⟩

-- ── What decoding implies ────────────────────────────────────────────────────────

/-- A form that is pending is found. -/
theorem Decodes.finds {read : Reader α} {form : WireForm α} (h : read.Decodes limits form)
    {a : α} {e : Bytes} (hform : form a e) {source : Source} {left : Bytes}
    (hpending : source.pending = e ++ left) : read.Finds limits source a left :=
  (h source a left).mpr ⟨e, hform, hpending⟩

/-- **What is decoded delimits itself.** Where two forms begin the same bytes, they stand for the
    same value and end at the same place. -/
theorem Decodes.unambiguous {read : Reader α} {form : WireForm α} (h : read.Decodes limits form)
    {a a' : α} {e e' left left' : Bytes} (hform : form a e) (hform' : form a' e')
    (heq : e ++ left = e' ++ left') : a = a' ∧ left = left' := by
  -- both are read from the same source, and a read has one outcome
  obtain ⟨rest, hread, hrest⟩ := (h ⟨e ++ left, [], .silent⟩ a left).mpr ⟨e, hform, rfl⟩
  obtain ⟨rest', hread', hrest'⟩ := (h ⟨e ++ left, [], .silent⟩ a' left').mpr ⟨e', hform', heq⟩
  rw [hread] at hread'
  cases hread'
  exact ⟨rfl, hrest.symm.trans hrest'⟩

/-- The value at the start of a run of bytes is the one that some form there stands for. -/
theorem Decodes.ofBytes_eq_ok_iff {read : Reader α} {form : WireForm α}
    (h : read.Decodes limits form) (bytes : Bytes) (a : α) :
    read.ofBytes limits bytes = .ok a ↔ ∃ e left, form a e ∧ bytes = e ++ left := by
  have hfinds : read.ofBytes limits bytes = .ok a ↔
      ∃ left, read.Finds limits ⟨bytes, [], .silent⟩ a left := by
    show (read.runOn limits ⟨bytes, [], .silent⟩).map (·.1) = .ok a ↔ _
    cases hread : read.runOn limits ⟨bytes, [], .silent⟩ with
    | error e =>
        constructor
        · rintro ⟨⟩
        · rintro ⟨left, rest, hok, -⟩
          rw [hread] at hok
          cases hok
    | ok r =>
        obtain ⟨b, rest⟩ := r
        constructor
        · rintro ⟨⟩
          exact ⟨rest.pending, rest, hread, rfl⟩
        · rintro ⟨left, rest', hok, -⟩
          rw [hread] at hok
          cases hok
          rfl
  rw [hfinds]
  constructor
  · rintro ⟨left, hfound⟩
    obtain ⟨e, hform, hpending⟩ := (h _ a left).mp hfound
    exact ⟨e, left, hform, hpending⟩
  · rintro ⟨e, left, hform, hbytes⟩
    exact ⟨left, h.finds hform hbytes⟩

-- ── Values with one form ─────────────────────────────────────────────────────────

section OneForm

variable {read : Reader α} {valid : α → Prop} {flatten : α → Except WireError Bytes}

/-- Where a valid value stands for its own bytes alone, it is found exactly where these are
    pending. -/
theorem Decodes.finds_iff_flatten
    (h : read.Decodes limits fun a e => valid a ∧ flatten a = .ok e)
    (source : Source) (a : α) (left : Bytes) :
    read.Finds limits source a left ↔
      valid a ∧ ∃ e, flatten a = .ok e ∧ source.pending = e ++ left := by
  rw [h source a left]
  simp only [and_assoc, exists_and_left]

/-- Such a value is read from exactly the runs of bytes that begin with its own. -/
theorem Decodes.ofBytes_iff_flatten
    (h : read.Decodes limits fun a e => valid a ∧ flatten a = .ok e) (bytes : Bytes) (a : α) :
    read.ofBytes limits bytes = .ok a ↔ valid a ∧ ∃ e, flatten a = .ok e ∧ e <+: bytes := by
  rw [h.ofBytes_eq_ok_iff bytes a]
  constructor
  · rintro ⟨e, left, ⟨hvalid, hflatten⟩, rfl⟩
    exact ⟨hvalid, e, hflatten, List.prefix_append e left⟩
  · rintro ⟨hvalid, e, hflatten, left, rfl⟩
    exact ⟨e, left, ⟨hvalid, hflatten⟩, rfl⟩

end OneForm

end Reader

end SegmentWire
