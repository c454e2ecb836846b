import SegmentWire.Base64
import SegmentWire.Proofs.BigEndian

/-!
# Base64 gives the bytes back

Three bytes are four digits of six bits each; the one or two bytes that may be left at the end are
two or three digits and padding. Since no digit is the padding character, a group is never taken for
the last one before its time. As the bits that padding leaves over have to be zeros, no other text
is read as the same bytes.

* **`digit?_digit`**, **`bits?_digits`** — one digit, and the twenty-four bits of a group.
* **`decodeAfter_three`**, **`decodeAfter_two`**, **`decodeAfter_one`** — the groups.
* **`toList_encodeAfter`** — what is shown for a run of bytes does not depend on what is there
  already.
* **`decode?_encode`** — the text of a run of bytes is read as these bytes.
* **`digit?_eq_some`**, **`bits?_eq_some`** — only digits stand for bits, each for its own.
* **`decode?_eq_some_iff`** — a text is read as the bytes whose text it is.
-/

namespace SegmentWire.Base64

theorem digit?_digit {n : Nat} (h : n < 64) : digit? (digit n) = some n := by
  revert n
  decide +kernel

theorem digit_ne_padding {n : Nat} (h : n < 64) : digit n ≠ '=' := by
  revert n
  decide +kernel

/-- The digit that stands for the bits of a padding character. -/
theorem digit_zero : 'A' = digit 0 := by decide

/-- The digits of twenty-four bits are read as these bits. -/
theorem bits?_digits {n : Nat} (h : n < 16777216) :
    bits? (digit (n / 262144)) (digit (n / 4096 % 64)) (digit (n / 64 % 64)) (digit (n % 64)) =
      some n := by
  have hfirst : n / 262144 < 64 := by omega
  have hsum : n / 262144 * 262144 + n / 4096 % 64 * 4096 + n / 64 % 64 * 64 + n % 64 = n := by
    omega
  have hlow : ∀ k : Nat, k % 64 < 64 := fun k => Nat.mod_lt k (by decide)
  rw [bits?, digit?_digit hfirst, digit?_digit (hlow _), digit?_digit (hlow _),
    digit?_digit (hlow _)]
  exact congrArg some hsum

theorem toList_group (bits count : Nat) :
    (group bits count).toList =
      [digit (bits / 262144), digit (bits / 4096 % 64), digit (bits / 64 % 64),
        digit (bits % 64)].take count ++ List.replicate (4 - count) '=' :=
  String.toList_ofList

/-- A group whose last character is a digit stands for three bytes, whatever follows. -/
theorem decodeAfter_cons {d : Char} (hd : d ≠ '=') (got : Array UInt8) (a b c : Char)
    (rest : List Char) :
    decodeAfter got (a :: b :: c :: d :: rest) =
      (bits? a b c d).bind fun bits => decodeAfter (got ++ bigEndian 3 bits) rest := by
  rw [decodeAfter]
  · rfl
  · rintro - rfl
    exact fun _ => hd rfl
  · exact fun h => absurd h hd

/-- A group with one character of padding stands for two bytes. -/
theorem decodeAfter_padded {c : Char} (hc : c ≠ '=') (got : Array UInt8) (a b : Char) :
    decodeAfter got [a, b, c, '='] = (bits? a b c 'A').bind fun bits =>
      if bits % 256 = 0 then some (got ++ bigEndian 2 (bits / 256)) else none := by
  rw [decodeAfter]
  · rfl
  · exact hc

/-- A group with two characters of padding stands for one byte. -/
theorem decodeAfter_padded_twice (got : Array UInt8) (a b : Char) :
    decodeAfter got [a, b, '=', '='] = (bits? a b 'A' 'A').bind fun bits =>
      if bits % 65536 = 0 then some (got ++ bigEndian 1 (bits / 65536)) else none := by
  rw [decodeAfter]
  rfl

/-- A group of three bytes, whatever follows. -/
theorem decodeAfter_three (got : Array UInt8) (a b c : UInt8) (rest : List Char) :
    decodeAfter got ((group (a.toNat * 65536 + b.toNat * 256 + c.toNat) 4).toList ++ rest) =
      decodeAfter (got ++ [a, b, c]) rest := by
  have ha := a.toNat_lt
  have hb := b.toNat_lt
  have hc := c.toNat_lt
  have hbytes : bigEndian 3 (a.toNat * 65536 + b.toNat * 256 + c.toNat) = [a, b, c] := by
    refine bigEndian_eq_of rfl ?_
    show ((0 * 256 + a.toNat) * 256 + b.toNat) * 256 + c.toNat = _
    omega
  generalize hbits : a.toNat * 65536 + b.toNat * 256 + c.toNat = bits at hbytes ⊢
  rw [toList_group]
  show decodeAfter got (_ :: _ :: _ :: _ :: rest) = _
  rw [decodeAfter_cons (digit_ne_padding (Nat.mod_lt _ (by decide))), bits?_digits (by omega),
    Option.bind_some, hbytes]

/-- Two bytes at the end. -/
theorem decodeAfter_two (got : Array UInt8) (a b : UInt8) :
    decodeAfter got (group (a.toNat * 65536 + b.toNat * 256) 3).toList = some (got ++ [a, b]) := by
  have ha := a.toNat_lt
  have hb := b.toNat_lt
  have hbytes : bigEndian 2 ((a.toNat * 65536 + b.toNat * 256) / 256) = [a, b] := by
    refine bigEndian_eq_of rfl ?_
    show (0 * 256 + a.toNat) * 256 + b.toNat = _
    omega
  have hlow : (a.toNat * 65536 + b.toNat * 256) % 64 = 0 := by omega
  have hrest : (a.toNat * 65536 + b.toNat * 256) % 256 = 0 := by omega
  generalize hbits : a.toNat * 65536 + b.toNat * 256 = bits at hbytes hlow hrest ⊢
  have hdigits := bits?_digits (show bits < 16777216 by omega)
  rw [hlow] at hdigits
  rw [toList_group]
  show decodeAfter got [_, _, _, '='] = _
  rw [decodeAfter_padded (digit_ne_padding (Nat.mod_lt _ (by decide))), digit_zero, hdigits,
    Option.bind_some, if_pos hrest, hbytes]

/-- One byte at the end. -/
theorem decodeAfter_one (got : Array UInt8) (a : UInt8) :
    decodeAfter got (group (a.toNat * 65536) 2).toList = some (got ++ [a]) := by
  have ha := a.toNat_lt
  have hbytes : bigEndian 1 (a.toNat * 65536 / 65536) = [a] := by
    refine bigEndian_eq_of rfl ?_
    show 0 * 256 + a.toNat = _
    omega
  have hlow : a.toNat * 65536 % 64 = 0 := by omega
  have hmiddle : a.toNat * 65536 / 64 % 64 = 0 := by omega
  have hrest : a.toNat * 65536 % 65536 = 0 := by omega
  generalize hbits : a.toNat * 65536 = bits at hbytes hlow hmiddle hrest ⊢
  have hdigits := bits?_digits (show bits < 16777216 by omega)
  rw [hlow, hmiddle] at hdigits
  rw [toList_group]
  show decodeAfter got [_, _, '=', '='] = _
  rw [decodeAfter_padded_twice, digit_zero, hdigits, Option.bind_some, if_pos hrest, hbytes]

/-- What is shown already stays in front. The recursion is that of the encoder, for everything that
    may be shown already. -/
theorem toList_encodeAfter : ∀ (shown : String) (bytes : Bytes),
    (encodeAfter shown bytes).toList = shown.toList ++ (encode bytes).toList
  | shown, [] => by
      rw [encode, encodeAfter, encodeAfter, String.toList_empty, List.append_nil]
  | shown, [a] => by
      rw [encode, encodeAfter, encodeAfter, String.empty_append, String.toList_append]
  | shown, [a, b] => by
      rw [encode, encodeAfter, encodeAfter, String.empty_append, String.toList_append]
  | shown, a :: b :: c :: rest => by
      rw [encode, encodeAfter, encodeAfter, toList_encodeAfter (shown ++ _), String.toList_append,
        toList_encodeAfter ("" ++ _), String.empty_append, List.append_assoc]

/-- **What is shown for some bytes is read as these bytes**, behind whatever has been read
    already. -/
theorem decodeAfter_encode : ∀ (got : Array UInt8) (bytes : Bytes),
    decodeAfter got (encode bytes).toList = some (got ++ bytes)
  | got, [] => congrArg some Array.appendList_nil.symm
  | got, [a] => by
      rw [encode, encodeAfter, String.empty_append, decodeAfter_one]
  | got, [a, b] => by
      rw [encode, encodeAfter, String.empty_append, decodeAfter_two]
  | got, a :: b :: c :: rest => by
      have hgot : (got ++ [a, b, c] ++ rest : Array UInt8) = got ++ (a :: b :: c :: rest) := by
        apply Array.ext'
        simp only [Array.toList_appendList, List.append_assoc, List.cons_append, List.nil_append]
      rw [encode, encodeAfter, String.empty_append, toList_encodeAfter, decodeAfter_three,
        decodeAfter_encode, hgot]

/-- **Base64 gives the bytes back.** -/
theorem decode?_encode (bytes : Bytes) : decode? (encode bytes) = some bytes := by
  have hbytes : ((#[] : Array UInt8) ++ bytes).toList = bytes := by
    rw [Array.toList_appendList, List.nil_append]
  rw [decode?, decodeAfter_encode, Option.map_some, hbytes]

-- ── Only the text of the bytes is read ───────────────────────────────────────────

/-- A character of the alphabet is the digit of its number. -/
theorem digit?_eq_some {c : Char} {n : Nat} (h : digit? c = some n) : n < 64 ∧ c = digit n := by
  have hrange : ∀ {low high : Char}, low ≤ c ∧ c ≤ high →
      low.toNat ≤ c.toNat ∧ c.toNat ≤ high.toNat := fun h => h
  -- a digit of the three ranges is its character shifted down and up again
  have hshift : ∀ {low : Nat}, low ≤ c.toNat → Char.ofNat (c.toNat - low + low) = c := by
    intro low hlow
    rw [Nat.sub_add_cancel hlow, Char.ofNat_toNat]
  rw [digit?] at h
  split at h
  · next hupper =>
    obtain ⟨hlow, hhigh⟩ : 65 ≤ c.toNat ∧ c.toNat ≤ 90 := hrange hupper
    cases h
    refine ⟨by omega, ?_⟩
    rw [digit, if_pos (by omega), hshift hlow]
  · split at h
    · next hlower =>
      obtain ⟨hlow, hhigh⟩ : 97 ≤ c.toNat ∧ c.toNat ≤ 122 := hrange hlower
      cases h
      refine ⟨by omega, ?_⟩
      rw [digit, if_neg (by omega), if_pos (by omega), Nat.add_sub_cancel, hshift hlow]
    · split at h
      · next hdecimal =>
        obtain ⟨hlow, hhigh⟩ : 48 ≤ c.toNat ∧ c.toNat ≤ 57 := hrange hdecimal
        cases h
        refine ⟨by omega, ?_⟩
        rw [digit, if_neg (by omega), if_neg (by omega), if_pos (by omega), Nat.add_sub_cancel,
          hshift hlow]
      · split at h
        · next hplus =>
          cases h
          exact ⟨by decide, hplus⟩
        · split at h
          · next hslash =>
            cases h
            exact ⟨by decide, hslash⟩
          · cases h

/-- Four characters of the alphabet are the digits of twenty-four bits. -/
theorem bits?_eq_some {a b c d : Char} {n : Nat} (h : bits? a b c d = some n) :
    n < 16777216 ∧ a = digit (n / 262144) ∧ b = digit (n / 4096 % 64) ∧
      c = digit (n / 64 % 64) ∧ d = digit (n % 64) := by
  rw [bits?] at h
  obtain ⟨i, ha, h⟩ := Option.bind_eq_some_iff.mp h
  obtain ⟨j, hb, h⟩ := Option.bind_eq_some_iff.mp h
  obtain ⟨k, hc, h⟩ := Option.bind_eq_some_iff.mp h
  obtain ⟨l, hd, h⟩ := Option.bind_eq_some_iff.mp h
  cases h
  obtain ⟨hi, rfl⟩ := digit?_eq_some ha
  obtain ⟨hj, rfl⟩ := digit?_eq_some hb
  obtain ⟨hk, rfl⟩ := digit?_eq_some hc
  obtain ⟨hl, rfl⟩ := digit?_eq_some hd
  refine ⟨by omega, ?_, ?_, ?_, ?_⟩ <;> exact congrArg digit (by omega)

/-- **What is read stands in the text**, with nothing else in it. The induction is on the groups of the
    text, for everything that may have been read already. -/
theorem exists_of_decodeAfter {got got' : Array UInt8} {chars : List Char}
    (h : decodeAfter got chars = some got') :
    ∃ bytes : Bytes, got' = got ++ bytes ∧ chars = (encode bytes).toList := by
  have hoctet : ∀ n : Nat, (UInt8.ofNat n).toNat = n % 256 := fun n => UInt8.toNat_ofNat'
  fun_induction decodeAfter got chars with
  | case1 got =>
      cases h
      exact ⟨[], Array.appendList_nil.symm, rfl⟩
  | case2 got a b =>
      obtain ⟨bits, hbits, h⟩ := Option.bind_eq_some_iff.mp h
      split at h
      · next hrest =>
        cases h
        obtain ⟨hlt, rfl, rfl, -, -⟩ := bits?_eq_some hbits
        have hgroup : (UInt8.ofNat (bits / 65536)).toNat * 65536 = bits := by
          rw [hoctet]
          omega
        refine ⟨bigEndian 1 (bits / 65536), rfl, ?_⟩
        show _ = (encodeAfter "" [UInt8.ofNat (bits / 65536)]).toList
        rw [encodeAfter, String.empty_append, hgroup, toList_group]
        rfl
      · cases h
  | case3 got a b c hc =>
      obtain ⟨bits, hbits, h⟩ := Option.bind_eq_some_iff.mp h
      split at h
      · next hrest =>
        cases h
        obtain ⟨hlt, rfl, rfl, rfl, -⟩ := bits?_eq_some hbits
        have hgroup : (UInt8.ofNat (bits / 256 / 256)).toNat * 65536 +
            (UInt8.ofNat (bits / 256)).toNat * 256 = bits := by
          rw [hoctet, hoctet]
          omega
        refine ⟨bigEndian 2 (bits / 256), rfl, ?_⟩
        show _ = (encodeAfter "" [UInt8.ofNat (bits / 256 / 256),
          UInt8.ofNat (bits / 256)]).toList
        rw [encodeAfter, String.empty_append, hgroup, toList_group]
        rfl
      · cases h
  | case4 got a b c d rest _ _ ih =>
      obtain ⟨bits, hbits, h⟩ := Option.bind_eq_some_iff.mp h
      obtain ⟨bytes, rfl, rfl⟩ := ih bits h
      obtain ⟨hlt, rfl, rfl, rfl, rfl⟩ := bits?_eq_some hbits
      have hgroup : (UInt8.ofNat (bits / 256 / 256)).toNat * 65536 +
          (UInt8.ofNat (bits / 256)).toNat * 256 + (UInt8.ofNat bits).toNat = bits := by
        rw [hoctet, hoctet, hoctet]
        omega
      refine ⟨bigEndian 3 bits ++ bytes, ?_, ?_⟩
      · apply Array.ext'
        simp only [Array.toList_appendList, List.append_assoc]
      · show _ = (encodeAfter "" (UInt8.ofNat (bits / 256 / 256) :: UInt8.ofNat (bits / 256) ::
          UInt8.ofNat bits :: bytes)).toList
        rw [encodeAfter, toList_encodeAfter, String.empty_append, hgroup, toList_group]
        rfl
  | case5 => cases h

/-- **A text is read as some bytes exactly if it is the text of these bytes.** -/
theorem decode?_eq_some_iff {text : String} {bytes : Bytes} :
    decode? text = some bytes ↔ text = encode bytes := by
  constructor
  · intro h
    obtain ⟨got, hgot, rfl⟩ := Option.map_eq_some_iff.mp h
    obtain ⟨bytes, rfl, hchars⟩ := exists_of_decodeAfter hgot
    rw [Array.toList_appendList, List.nil_append]
    exact String.toList_inj.mp hchars
  · rintro rfl
    exact decode?_encode bytes

end SegmentWire.Base64
