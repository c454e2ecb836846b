import SegmentWire.Scan.Offsets
import SegmentWire.Proofs.Payload

/-!
# Scans by offset count the same

On a buffer whose size is a word, a scan by offset does what the scan that cuts the buffer up does.
In particular it always has an outcome: a declared length is held against what remains before it is
added to the offset, so that no sum overflows and no offset leaves the buffer, whatever the length.

* **`Word.toNat_ofBytes`** — up to eight bytes, nothing is lost in a big-endian number.
* **`Behind`** — what stands behind an offset; **`Behind.add?`** moves it on, and
  **`Behind.sub?`**, **`Behind.slice?`** look at it.
* **`stepAt_matches`** — one step; **`countAt_matches`** — the loop over them.
* **`scanWords_eq`** — a whole scan.
-/

namespace SegmentWire

-- powers are those of the core library, whatever else is imported
attribute [local instance (2000)] instPowNat

variable {buffer : Array UInt8} {offset : UInt64}

-- ── Numbers ──────────────────────────────────────────────────────────────────────

/-- Up to eight bytes, no bit is shifted out of a word. The induction is on the bytes from the last
    one, which is shifted in last. -/
theorem Word.toNat_ofBytes {bytes : Bytes} (h : bytes.length ≤ 8) :
    (Word.ofBytes bytes).toNat = ofBigEndian bytes := by
  induction bytes using List.reverseRecOn with
  | nil => rfl
  | append_singleton bytes b ih =>
      rw [List.length_append, List.length_singleton] at h
      have hlt : ofBigEndian bytes < 256 ^ 7 :=
        Nat.lt_of_lt_of_le (ofBigEndian_lt bytes)
          (Nat.pow_le_pow_right (by decide) (by omega))
      have hconcat : Word.ofBytes (bytes ++ [b]) = Word.ofBytes bytes <<< 8 ||| b.toUInt64 := by
        rw [Word.ofBytes, List.foldl_append]
        rfl
      have hb : b.toNat < 2 ^ 8 := b.toNat_lt
      rw [hconcat, UInt64.toNat_or, UInt64.toNat_shiftLeft, ih (by omega), UInt8.toNat_toUInt64,
        ofBigEndian_concat]
      show ofBigEndian bytes <<< 8 % 2 ^ 64 ||| b.toNat = _
      rw [Nat.mod_eq_of_lt (by rw [Nat.shiftLeft_eq]; omega), ← Nat.shiftLeft_add_eq_or_of_lt hb,
        Nat.shiftLeft_eq]

-- ── What stands behind an offset ─────────────────────────────────────────────────

/-- The offset lies in the buffer, and these bytes stand behind it. -/
def Behind (buffer : Array UInt8) (offset : UInt64) (rest : Bytes) : Prop :=
  ∃ front : Bytes, buffer.toList = front ++ rest ∧ front.length = offset.toNat

namespace Behind

variable {rest part : Bytes}

theorem size_eq (h : Behind buffer offset rest) :
    buffer.size = offset.toNat + rest.length := by
  obtain ⟨front, hbuffer, hfront⟩ := h
  rw [← Array.length_toList, hbuffer, List.length_append, hfront]

theorem getElem? {code : UInt8} (h : Behind buffer offset (code :: rest)) :
    buffer[offset.toNat]? = some code := by
  obtain ⟨front, hbuffer, hfront⟩ := h
  rw [← Array.getElem?_toList, hbuffer, ← hfront, List.getElem?_append_right (Nat.le_refl _),
    Nat.sub_self]
  rfl

/-- Moving on within the buffer never overflows. -/
theorem add? (h : Behind buffer offset (part ++ rest)) (hsize : buffer.size ≤ maxWord) {n : UInt64}
    (hn : n.toNat = part.length) :
    ∃ next, Word.add? offset n = some next ∧ Behind buffer next rest := by
  have hle := h.size_eq
  rw [List.length_append] at hle
  have hsum : Word.add? offset n = some (offset + n) := if_pos (by omega)
  obtain ⟨front, hbuffer, hfront⟩ := h
  refine ⟨offset + n, hsum, front ++ part, ?_, ?_⟩
  · rw [hbuffer, List.append_assoc]
  · rw [List.length_append, hfront, Word.toNat_of_add? hsum, hn]

/-- What remains is the size less the offset. -/
theorem sub? (h : Behind buffer offset rest) (hsize : buffer.size ≤ maxWord) :
    ∃ remaining, Word.sub? (.ofNat buffer.size) offset = some remaining ∧
      remaining.toNat = rest.length := by
  have hle := h.size_eq
  have hword : (UInt64.ofNat buffer.size).toNat = buffer.size := Segment.toNat_ofNat_of_le hsize
  have hoffset : offset ≤ .ofNat buffer.size := by
    rw [UInt64.le_iff_toNat_le, hword]
    omega
  refine ⟨UInt64.ofNat buffer.size - offset, if_pos hoffset, ?_⟩
  rw [UInt64.toNat_sub_of_le _ _ hoffset, hword]
  omega

theorem slice? (h : Behind buffer offset (part ++ rest)) {stop : UInt64}
    (hstop : Behind buffer stop rest) : slice? buffer offset stop = some part := by
  have hsize := h.size_eq
  have hsize' := hstop.size_eq
  rw [List.length_append] at hsize
  have hle : offset ≤ stop := by
    rw [UInt64.le_iff_toNat_le]
    omega
  obtain ⟨front, hbuffer, hfront⟩ := h
  rw [SegmentWire.slice?, if_pos ⟨hle, by omega⟩, Array.toList_extract,
    List.extract_eq_take_drop, hbuffer, ← hfront, List.drop_left,
    show stop.toNat - front.length = part.length by omega, List.take_left]

end Behind

-- ── Outcomes on words ────────────────────────────────────────────────────────────

namespace Checked

variable {α β γ δ : Type} {related : α → β → Prop} {related' : γ → δ → Prop}

/-- The outcome on words exists, and matches this one. -/
def Matches (related : α → β → Prop) (outcome : Except WireError α) (checked : Checked β) : Prop :=
  ∃ outcome', checked = some outcome' ∧ Matching related outcome outcome'

theorem matches_ok {a : α} {b : β} (h : related a b) :
    Matches related (.ok a) (pure b : Checked β) :=
  ⟨_, rfl, .found h⟩

theorem matches_error (e : WireError) :
    Matches related (.error e : Except WireError α) (throw e : Checked β) :=
  ⟨_, rfl, .failed e⟩

theorem matches_lift (outcome : Except WireError α) :
    Matches Eq outcome (liftM outcome : Checked α) := by
  cases outcome with
  | error e => exact matches_error e
  | ok a => exact matches_ok rfl

theorem Matches.bind {first : Except WireError α} {first' : Checked β}
    {next : α → Except WireError γ} {next' : β → Checked δ} (h : Matches related first first')
    (hnext : ∀ a b, first = .ok a → related a b → Matches related' (next a) (next' b)) :
    Matches related' (first >>= next) (first' >>= next') := by
  obtain ⟨outcome, rfl, hmatching⟩ := h
  cases hmatching with
  | failed e => exact matches_error e
  | found hab => exact hnext _ _ rfl hab

/-- A refusal for the same reason in front of both. -/
theorem Matches.unless {c c' : Prop} [Decidable c] [Decidable c'] {e e' : WireError}
    {next : Except WireError α} {next' : Checked β} (hc : c ↔ c') (he : c → e = e')
    (hnext : ¬ c → Matches related next next') :
    Matches related (if c then .error e else next) (if c' then throw e' else next') := by
  by_cases h : c
  · rw [if_pos h, if_pos (hc.mp h), he h]
    exact matches_error e'
  · rw [if_neg h, if_neg (mt hc.mpr h)]
    exact hnext h

theorem lift_some_bind {outcome : Option α} {a : α} (h : outcome = some a) (next : α → Checked β) :
    ((liftM outcome : Checked α) >>= next) = next a := by
  rw [h]
  rfl

end Checked

-- ── The scan ─────────────────────────────────────────────────────────────────────

variable {rest : Bytes}

/-- A number that is cut off reaches past the buffer, or even past the last word. -/
theorem numberAt_of_cut (hsize : buffer.size ≤ maxWord) (h : Behind buffer offset rest)
    {width : UInt64} (hcut : rest.length < width.toNat) :
    numberAt buffer offset width = throw .truncatedSize := by
  have htotal := h.size_eq
  have hstop : (Word.add? offset width).filter (· ≤ .ofNat buffer.size) = none := by
    rw [Option.filter_eq_none_iff]
    intro stop hadd
    rw [decide_eq_true_iff, UInt64.le_iff_toNat_le, Segment.toNat_ofNat_of_le hsize,
      Word.toNat_of_add? hadd]
    omega
  rw [numberAt, hstop]

/-- A number of up to eight bytes is read where it stands. -/
theorem numberAt_of_behind (hsize : buffer.size ≤ maxWord) {digits : Bytes}
    (h : Behind buffer offset (digits ++ rest)) {width : UInt64}
    (hwidth : width.toNat = digits.length) (hle : digits.length ≤ 8) :
    ∃ n stop, numberAt buffer offset width = pure (n, stop) ∧ n.toNat = ofBigEndian digits ∧
      Behind buffer stop rest := by
  obtain ⟨stop, hadd, hbehind⟩ := h.add? hsize hwidth
  have hstop : (Word.add? offset width).filter (· ≤ .ofNat buffer.size) = some stop := by
    rw [Option.filter_eq_some_iff]
    refine ⟨hadd, ?_⟩
    rw [decide_eq_true_iff, UInt64.le_iff_toNat_le, Segment.toNat_ofNat_of_le hsize,
      hbehind.size_eq]
    exact Nat.le_add_right _ _
  refine ⟨Word.ofBytes digits, stop, ?_, Word.toNat_ofBytes hle, hbehind⟩
  rw [numberAt, hstop]
  exact Checked.lift_some_bind (h.slice? hbehind) _

/-- A declared length and the payload behind it are found where they stand. -/
theorem lengthAt_matches (hsize : buffer.size ≤ maxWord) (h : Behind buffer offset rest) (tag : Tag) :
    Checked.Matches (fun found found' => found'.1.toNat = found.1 ∧ Behind buffer found'.2 found.2)
      (declaredLength tag rest) (lengthAt buffer tag offset) := by
  have hwidth : ∀ width, width ≤ 8 → (UInt64.ofNat width).toNat = width := by
    intro width hle
    exact Segment.toNat_ofNat_of_le (Nat.le_trans hle (by decide))
  rw [declaredLength, lengthAt]
  cases hlayout : tag.layout with
  | fixed width =>
      have hle : width ≤ 8 := by cases tag <;> cases hlayout <;> decide
      exact Checked.matches_ok ⟨hwidth width hle, h⟩
  | sized field =>
      have hle : field ≤ 8 := by cases tag <;> cases hlayout <;> decide
      show Checked.Matches _ (if (rest.take field).length < field then _ else _)
        (numberAt buffer offset (.ofNat field))
      rw [List.length_take]
      by_cases hcut : rest.length < field
      · rw [if_pos (by omega), numberAt_of_cut hsize h (by rwa [hwidth field hle])]
        exact Checked.matches_error _
      · have hlength : (rest.take field).length = field :=
          List.length_take_of_le (Nat.not_lt.mp hcut)
        rw [← List.take_append_drop field rest] at h
        obtain ⟨n, stop, hnumber, hn, hbehind⟩ := numberAt_of_behind hsize h
          ((hwidth field hle).trans hlength.symm) (Nat.le_trans (Nat.le_of_eq hlength) hle)
        rw [if_neg (by omega), hnumber]
        exact Checked.matches_ok ⟨hn, hbehind⟩

/-- **A step by offset is a step.** -/
theorem stepAt_matches (hsize : buffer.size ≤ maxWord) {code : UInt8}
    (h : Behind buffer offset (code :: rest)) :
    Checked.Matches (fun left next => Behind buffer next left) (skipSegment code rest)
      (stepAt buffer offset) := by
  rw [skipSegment, stepAt, Checked.lift_some_bind h.getElem?]
  refine (Checked.matches_lift (Tag.ofCode code)).bind ?_
  rintro tag _ - rfl
  have hfirst : Behind buffer offset ([code] ++ rest) := h
  obtain ⟨behind, hadd, hbehind⟩ := hfirst.add? hsize (n := 1) rfl
  rw [Checked.lift_some_bind hadd]
  refine (lengthAt_matches hsize hbehind tag).bind ?_
  rintro ⟨length, body⟩ ⟨word, start⟩ - ⟨hlength, hbody⟩
  replace hlength : word.toNat = length := hlength
  replace hbody : Behind buffer start body := hbody
  show Checked.Matches _
    (if length = 0 then .error (.emptySegment tag)
      else if (body.take length).length < length then
        .error (.shortRead length (body.take length).length)
      else .ok (body.drop length))
    (if word = 0 then throw (.emptySegment tag)
      else liftM (Word.sub? (.ofNat buffer.size) start) >>= fun remaining =>
        if remaining < word then throw (.shortRead word.toNat remaining.toNat)
        else liftM (Word.add? start word))
  have hzero : length = 0 ↔ word = 0 := by
    rw [← hlength, ← UInt64.toNat_inj]
    rfl
  refine .unless hzero (fun _ => rfl) fun _ => ?_
  obtain ⟨remaining, hsub, hremaining⟩ := hbody.sub? hsize
  rw [Checked.lift_some_bind hsub, List.length_take]
  refine .unless ?_ (fun hcut => ?_) fun hfits => ?_
  · rw [UInt64.lt_iff_toNat_lt, hlength, hremaining]
    omega
  · rw [hlength, hremaining, Nat.min_eq_right (by omega)]
  · rw [← List.take_append_drop length body] at hbody
    obtain ⟨next, hnext, hleft⟩ :=
      hbody.add? hsize (n := word) (by rw [hlength, List.length_take]; omega)
    rw [hnext]
    exact Checked.matches_ok hleft

/-- **The loop by offset is the loop.** The induction is on how much is left of the buffer. No more
    segments are counted than bytes are passed, so that the count does not overflow either. -/
theorem countAt_matches (hsize : buffer.size ≤ maxWord) (h : Behind buffer offset rest)
    (counted : UInt64) (hcounted : counted.toNat ≤ offset.toNat) :
    Checked.Matches (fun n n' => n'.toNat = n) (countFrom counted.toNat rest)
      (countAt buffer counted offset) := by
  induction hlength : rest.length using Nat.strongRecOn generalizing rest offset counted with
  | ind length ih =>
    subst hlength
    have htotal := h.size_eq
    cases rest with
    | nil =>
        rw [countAt, dif_neg (by rw [htotal]; exact Nat.lt_irrefl _), countFrom]
        exact Checked.matches_ok rfl
    | cons code rest =>
        have hlt : offset.toNat < buffer.size := by
          rw [htotal, List.length_cons]
          omega
        obtain ⟨outcome, hstep, hmatching⟩ := stepAt_matches hsize h
        cases hskip : skipSegment code rest with
        | error e =>
            -- both counts end with this error
            rw [hskip] at hmatching
            cases hmatching
            rw [countFrom_of_error hskip, countAt_of_error hlt hstep]
            exact Checked.matches_error e
        | ok left =>
            rw [hskip] at hmatching
            cases hmatching with
            | found hbehind =>
                have hforward := stepAt_lt hstep
                have hwithin := hbehind.size_eq
                -- the step passed at least one byte, so one segment more can still be counted
                have hone : (1 : UInt64).toNat = 1 := rfl
                have hadd : Word.add? counted 1 = some (counted + 1) := if_pos (by omega)
                have hsum := Word.toNat_of_add? hadd
                rw [countFrom_of_ok hskip, countAt_of_ok hlt hstep, Checked.lift_some_bind hadd,
                  ← hone, ← hsum]
                exact ih left.length (Nat.lt_succ_of_le (skipSegment_le hskip)) hbehind _
                  (by omega) rfl

/-- **A scan by offset has an outcome, and it is that of the plain scan**, on every buffer whose size
    is a word. -/
theorem scanWords_eq (bytes : Bytes) (hsize : bytes.length ≤ maxWord) :
    ∃ outcome, scanWords bytes.toArray = some outcome ∧
      outcome.map UInt64.toNat = countSegments bytes := by
  obtain ⟨outcome, hscan, hmatching⟩ :=
    countAt_matches hsize (show Behind bytes.toArray 0 bytes from ⟨[], rfl, rfl⟩) 0 (Nat.le_refl 0)
  refine ⟨outcome, hscan, ?_⟩
  replace hmatching : Matching (fun n n' => n'.toNat = n) (countSegments bytes) outcome := hmatching
  generalize countSegments bytes = counted at hmatching
  cases hmatching with
  | failed e => rfl
  | found h => exact congrArg Except.ok h

end SegmentWire
