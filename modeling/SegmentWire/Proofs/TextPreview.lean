import Mathlib.Tactic.IntervalCases
import SegmentWire.Segment.Display
import SegmentWire.Proofs.Payload

/-!
# Previews of text

The preview of a text is cut by bytes, and what is left of it is read leniently. The cut may fall inside
a character; then its first bytes stand at the end, and all of them together are one malformed part.

* **`Utf8.Completes`** — the bytes that a character still owes; **`completes_utf8EncodeChar`** says what
  the first byte of a character leaves to come.
* **`lossyFrom_char`**, **`lossyFrom_cut_char`** — the lenient reading of a character, and of its first
  bytes only.
* **`Utf8.Longest`**, **`Utf8.Inside`** — the front of a text that fits a number of bytes, and the
  characters that a cut may fall inside; **`lossy_take_encode`** puts them together.
* **`text_preview_exact`** — the display of a string segment.
-/

namespace SegmentWire

namespace Utf8

variable {c : Char} {p : Unfinished} {bytes rest : Bytes}

-- ── One character ────────────────────────────────────────────────────────────────

/-- These bytes, and no fewer, complete the unfinished character to this one. -/
inductive Completes (c : Char) : Unfinished → Bytes → Prop
  /-- The last byte that is owed. -/
  | last {p : Unfinished} {b : UInt8} (hrange : p.low ≤ b ∧ b ≤ p.high) (howed : p.owed = 1)
      (hbits : Char.ofNat (p.bits * 64 + (b.toNat - 0x80)) = c) : Completes c p [b]
  /-- A byte behind which more are owed. -/
  | more {p : Unfinished} {b : UInt8} {rest : Bytes} (hrange : p.low ≤ b ∧ b ≤ p.high)
      (howed : p.owed ≠ 1)
      (hrest : Completes c ⟨p.bits * 64 + (b.toNat - 0x80), p.owed - 1, 0x80, 0xBF⟩ rest) :
      Completes c p (b :: rest)

/-- All the bytes that are owed show the character. -/
theorem Completes.lossyFrom_append (h : Completes c p bytes) (rest : Bytes) :
    lossyFrom (some p) (bytes ++ rest) = c :: lossyFrom none rest := by
  induction h with
  | last hrange howed hbits =>
      rw [List.singleton_append, lossyFrom, step, if_pos hrange, if_pos howed, hbits]
      rfl
  | more hrange howed _ ih =>
      rw [List.cons_append, lossyFrom, step, if_pos hrange, if_neg howed]
      exact ih

/-- Fewer of them are one malformed part. -/
theorem Completes.lossyFrom_take (h : Completes c p bytes) {n : Nat} (hlt : n < bytes.length) :
    lossyFrom (some p) (bytes.take n) = [replacement] := by
  induction h generalizing n with
  | last =>
      obtain rfl : n = 0 := Nat.lt_one_iff.mp hlt
      rfl
  | more hrange howed _ ih =>
      cases n with
      | zero => rfl
      | succ n =>
          rw [List.take_succ_cons, lossyFrom, step, if_pos hrange, if_neg howed]
          exact ih (Nat.lt_of_succ_lt_succ hlt)

section Bits

variable {v bits owed d : Nat} {low high : UInt8}

theorem toNat_continuation (hd : d < 64) : (UInt8.ofNat (d + 0x80)).toNat = d + 0x80 :=
  UInt8.toNat_ofNat_of_lt' (Nat.lt_trans (Nat.add_lt_add_right hd 0x80) (by decide))

theorem Completes.of_last (hd : d < 64) (hlow : low.toNat ≤ d + 0x80) (hhigh : d + 0x80 ≤ high.toNat)
    (hbits : bits * 64 + d = c.toNat) :
    Completes c ⟨bits, 1, low, high⟩ [UInt8.ofNat (d + 0x80)] := by
  refine .last ⟨?_, ?_⟩ rfl ?_
  · rwa [UInt8.le_iff_toNat_le, toNat_continuation hd]
  · rwa [UInt8.le_iff_toNat_le, toNat_continuation hd]
  · rw [toNat_continuation hd, Nat.add_sub_cancel]
    exact (congrArg Char.ofNat hbits).trans (Char.ofNat_toNat c)

theorem Completes.of_more (hd : d < 64) (hlow : low.toNat ≤ d + 0x80) (hhigh : d + 0x80 ≤ high.toNat)
    (hrest : Completes c ⟨bits * 64 + d, owed + 1, 0x80, 0xBF⟩ rest) :
    Completes c ⟨bits, owed + 2, low, high⟩ (UInt8.ofNat (d + 0x80) :: rest) := by
  refine .more ⟨?_, ?_⟩ (Nat.succ_ne_succ_iff.mpr (Nat.succ_ne_zero owed)) ?_
  · rwa [UInt8.le_iff_toNat_le, toNat_continuation hd]
  · rwa [UInt8.le_iff_toNat_le, toNat_continuation hd]
  · rw [toNat_continuation hd, Nat.add_sub_cancel]
    exact hrest

/-- One byte with the last six bits of the character. -/
theorem completes_one (c : Char) :
    Completes c ⟨c.toNat / 64, 1, 0x80, 0xBF⟩ [UInt8.ofNat (c.toNat % 64 + 0x80)] := by
  refine .of_last (Nat.mod_lt _ (by decide)) (Nat.le_add_left _ _) ?_ (Nat.div_add_mod' _ _)
  show c.toNat % 64 + 0x80 ≤ 0xBF
  omega

/-- Two bytes with the last twelve, the first of them in a range that may be narrower. -/
theorem completes_two (hlow : low.toNat ≤ c.toNat / 64 % 64 + 0x80)
    (hhigh : c.toNat / 64 % 64 + 0x80 ≤ high.toNat) :
    Completes c ⟨c.toNat / 4096, 2, low, high⟩
      [UInt8.ofNat (c.toNat / 64 % 64 + 0x80), UInt8.ofNat (c.toNat % 64 + 0x80)] := by
  refine .of_more (Nat.mod_lt _ (by decide)) hlow hhigh ?_
  rw [show c.toNat / 4096 * 64 + c.toNat / 64 % 64 = c.toNat / 64 by omega]
  exact completes_one c

/-- Three bytes with the last eighteen. -/
theorem completes_three (hlow : low.toNat ≤ c.toNat / 4096 % 64 + 0x80)
    (hhigh : c.toNat / 4096 % 64 + 0x80 ≤ high.toNat) :
    Completes c ⟨c.toNat / 262144, 3, low, high⟩
      [UInt8.ofNat (c.toNat / 4096 % 64 + 0x80), UInt8.ofNat (c.toNat / 64 % 64 + 0x80),
        UInt8.ofNat (c.toNat % 64 + 0x80)] := by
  refine .of_more (Nat.mod_lt _ (by decide)) hlow hhigh ?_
  rw [show c.toNat / 262144 * 64 + c.toNat / 4096 % 64 = c.toNat / 4096 by omega]
  refine completes_two (Nat.le_add_left _ _) ?_
  show c.toNat / 64 % 64 + 0x80 ≤ 0xBF
  omega

theorem lead_single (h : v < 0x80) : lead (UInt8.ofNat v) = .single (Char.ofNat v) := by
  have htoNat : (UInt8.ofNat v).toNat = v :=
    UInt8.toNat_ofNat_of_lt' (Nat.lt_trans h (by decide))
  rw [lead, htoNat]
  exact if_pos h

theorem lead_two (hlow : 2 ≤ bits) (hhigh : bits < 32) :
    lead (UInt8.ofNat (bits + 0xC0)) = .opening ⟨bits, 1, 0x80, 0xBF⟩ := by
  have htoNat : (UInt8.ofNat (bits + 0xC0)).toNat = bits + 0xC0 :=
    UInt8.toNat_ofNat_of_lt' (Nat.lt_trans (Nat.add_lt_add_right hhigh 0xC0) (by decide))
  rw [lead, htoNat, if_neg (by omega), if_neg (by omega), if_pos (by omega), Nat.add_sub_cancel]

/-- What is behind `E0` may not be overlong, and what is behind `ED` no surrogate. -/
theorem lead_three (h : bits < 16) :
    lead (UInt8.ofNat (bits + 0xE0)) =
      .opening ⟨bits, 2, if bits = 0 then 0xA0 else 0x80, if bits = 13 then 0x9F else 0xBF⟩ := by
  interval_cases bits <;> rfl

/-- What is behind `F0` may not be overlong, and what is behind `F4` not past `10FFFF`. -/
theorem lead_four (h : bits < 5) :
    lead (UInt8.ofNat (bits + 0xF0)) =
      .opening ⟨bits, 3, if bits = 0 then 0x90 else 0x80, if bits = 4 then 0x8F else 0xBF⟩ := by
  interval_cases bits <;> rfl

end Bits

-- ── The four lengths of characters ───────────────────────────────────────────────

theorem utf8EncodeChar_one (h : c.toNat ≤ 0x7F) :
    String.utf8EncodeChar c = [UInt8.ofNat c.toNat] := if_pos h

theorem utf8EncodeChar_two (h : ¬ c.toNat ≤ 0x7F) (h' : c.toNat ≤ 0x7FF) :
    String.utf8EncodeChar c =
      [UInt8.ofNat (c.toNat / 64 + 0xC0), UInt8.ofNat (c.toNat % 64 + 0x80)] := by
  have hbits : c.toNat / 64 % 0x20 = c.toNat / 64 := Nat.mod_eq_of_lt (by omega)
  rw [← hbits]
  exact (if_neg h).trans (if_pos h')

theorem utf8EncodeChar_three (h : ¬ c.toNat ≤ 0x7FF) (h' : c.toNat ≤ 0xFFFF) :
    String.utf8EncodeChar c =
      [UInt8.ofNat (c.toNat / 4096 + 0xE0), UInt8.ofNat (c.toNat / 64 % 64 + 0x80),
        UInt8.ofNat (c.toNat % 64 + 0x80)] := by
  have hbits : c.toNat / 4096 % 0x10 = c.toNat / 4096 := Nat.mod_eq_of_lt (by omega)
  have hone : ¬ c.toNat ≤ 0x7F := by omega
  rw [← hbits]
  exact (if_neg hone).trans ((if_neg h).trans (if_pos h'))

theorem utf8EncodeChar_four (h : ¬ c.toNat ≤ 0xFFFF) (h' : c.toNat < 0x110000) :
    String.utf8EncodeChar c =
      [UInt8.ofNat (c.toNat / 262144 + 0xF0), UInt8.ofNat (c.toNat / 4096 % 64 + 0x80),
        UInt8.ofNat (c.toNat / 64 % 64 + 0x80), UInt8.ofNat (c.toNat % 64 + 0x80)] := by
  have hbits : c.toNat / 262144 % 0x08 = c.toNat / 262144 := Nat.mod_eq_of_lt (by omega)
  have hone : ¬ c.toNat ≤ 0x7F := by omega
  have htwo : ¬ c.toNat ≤ 0x7FF := by omega
  rw [← hbits]
  exact (if_neg hone).trans ((if_neg htwo).trans (if_neg h))

/-- **The first byte of a character is all of it, or opens what the others complete.** What is narrower
    behind some first bytes is what no character has there. -/
theorem completes_utf8EncodeChar (c : Char) :
    (∃ b, String.utf8EncodeChar c = [b] ∧ lead b = .single c) ∨
      ∃ b p rest, String.utf8EncodeChar c = b :: rest ∧ lead b = .opening p ∧ Completes c p rest := by
  have hvalid : c.toNat < 0xD800 ∨ 0xDFFF < c.toNat ∧ c.toNat < 0x110000 := c.valid
  by_cases hone : c.toNat ≤ 0x7F
  · refine Or.inl ⟨_, utf8EncodeChar_one hone, ?_⟩
    rw [lead_single (Nat.lt_succ_of_le hone), Char.ofNat_toNat]
  · refine Or.inr ?_
    by_cases htwo : c.toNat ≤ 0x7FF
    · exact ⟨_, _, _, utf8EncodeChar_two hone htwo, lead_two (by omega) (by omega), completes_one c⟩
    · by_cases hthree : c.toNat ≤ 0xFFFF
      · refine ⟨_, _, _, utf8EncodeChar_three htwo hthree, lead_three (by omega), completes_two ?_ ?_⟩
        · split
          · show 0xA0 ≤ _
            omega
          · exact Nat.le_add_left _ _
        · split
          · show _ ≤ 0x9F
            omega
          · show _ ≤ 0xBF
            omega
      · refine ⟨_, _, _, utf8EncodeChar_four hthree (by omega), lead_four (by omega),
          completes_three ?_ ?_⟩
        · split
          · show 0x90 ≤ _
            omega
          · exact Nat.le_add_left _ _
        · split
          · show _ ≤ 0x8F
            omega
          · show _ ≤ 0xBF
            omega

/-- A character in front is shown as it is. -/
theorem lossyFrom_char (c : Char) (rest : Bytes) :
    lossyFrom none (String.utf8EncodeChar c ++ rest) = c :: lossyFrom none rest := by
  rcases completes_utf8EncodeChar c with ⟨b, hencode, hlead⟩ | ⟨b, p, behind, hencode, hlead, h⟩
  · rw [hencode, List.singleton_append, lossyFrom, step, start, hlead]
    rfl
  · rw [hencode, List.cons_append, lossyFrom, step, start, hlead]
    exact h.lossyFrom_append rest

/-- Some of its first bytes, but not all of them, are shown as one malformed part. -/
theorem lossyFrom_cut_char (c : Char) {n : Nat} (hpos : 0 < n) (hlt : n < c.utf8Size) :
    lossyFrom none ((String.utf8EncodeChar c).take n) = [replacement] := by
  obtain ⟨n, rfl⟩ := Nat.exists_eq_succ_of_ne_zero (Nat.ne_of_gt hpos)
  rw [← String.length_utf8EncodeChar] at hlt
  rcases completes_utf8EncodeChar c with ⟨b, hencode, -⟩ | ⟨b, p, behind, hencode, hlead, h⟩
  · rw [hencode] at hlt
    exact absurd (Nat.lt_of_succ_lt_succ hlt) (Nat.not_lt_zero n)
  · rw [hencode] at hlt ⊢
    rw [List.take_succ_cons, lossyFrom, step, start, hlead]
    exact h.lossyFrom_take (Nat.lt_of_succ_lt_succ hlt)

-- ── Texts ────────────────────────────────────────────────────────────────────────

/-- The bytes of some characters. -/
def encodeChars (cs : List Char) : Bytes := cs.flatMap String.utf8EncodeChar

theorem encode_ofList (cs : List Char) : encode (String.ofList cs) = encodeChars cs := by
  rw [encode, String.toByteArray_ofList, List.utf8Encode, List.data_toByteArray, List.toList_toArray]
  rfl

theorem utf8ByteSize_ofList (cs : List Char) :
    (String.ofList cs).utf8ByteSize = (encodeChars cs).length := by
  rw [← encode_ofList]
  rfl

theorem encodeChars_append (front back : List Char) :
    encodeChars (front ++ back) = encodeChars front ++ encodeChars back := List.flatMap_append

theorem encodeChars_cons (c : Char) (cs : List Char) :
    encodeChars (c :: cs) = String.utf8EncodeChar c ++ encodeChars cs := List.flatMap_cons

theorem length_encodeChars_append (front back : List Char) :
    (encodeChars (front ++ back)).length = (encodeChars front).length + (encodeChars back).length := by
  rw [encodeChars_append, List.length_append]

theorem length_encodeChars_cons (c : Char) (cs : List Char) :
    (encodeChars (c :: cs)).length = c.utf8Size + (encodeChars cs).length := by
  rw [encodeChars_cons, List.length_append, String.length_utf8EncodeChar]

/-- Characters in front are shown as they are. -/
theorem lossyFrom_encodeChars (cs : List Char) (rest : Bytes) :
    lossyFrom none (encodeChars cs ++ rest) = cs ++ lossyFrom none rest := by
  induction cs with
  | nil => rfl
  | cons c cs ih =>
      rw [encodeChars_cons, List.append_assoc, lossyFrom_char, ih]
      rfl

/-- The front of a text that is the longest of those that have so many bytes at most. -/
structure Longest (n : Nat) (t shown : String) : Prop where
  front : ∃ rest, t = shown ++ rest
  fits : shown.utf8ByteSize ≤ n
  longest : ∀ front rest, t = front ++ rest → front.utf8ByteSize ≤ n → ∃ more, shown = front ++ more

/-- Behind so many bytes of a text one is inside a character: it begins in front of the place, and ends
    behind it. -/
def Inside (n : Nat) (t : String) : Prop :=
  ∃ front c back, t.toList = front ++ c :: back ∧ (String.ofList front).utf8ByteSize < n ∧
    n < (String.ofList front).utf8ByteSize + c.utf8Size

/-- A cut of some characters after so many bytes: those in front of it fit, and the next one does
    not. -/
structure CutAt (n : Nat) (shown rest : List Char) : Prop where
  fits : (encodeChars shown).length ≤ n
  next : ∀ c more, rest = c :: more → n < (encodeChars shown).length + c.utf8Size

/-- All characters can be cut so. The induction is on them, for every number of bytes. -/
theorem exists_cutAt (n : Nat) (cs : List Char) :
    ∃ shown rest, cs = shown ++ rest ∧ CutAt n shown rest := by
  induction cs generalizing n with
  | nil => exact ⟨[], [], rfl, Nat.zero_le n, nofun⟩
  | cons c cs ih =>
      by_cases hle : c.utf8Size ≤ n
      · obtain ⟨shown, rest, rfl, hfits, hnext⟩ := ih (n - c.utf8Size)
        refine ⟨c :: shown, rest, rfl, ?_, fun d more hrest => ?_⟩
        · rw [length_encodeChars_cons]
          omega
        · have hlt := hnext d more hrest
          rw [length_encodeChars_cons]
          omega
      · refine ⟨[], c :: cs, rfl, Nat.zero_le n, ?_⟩
        rintro _ _ ⟨⟩
        rw [encodeChars, List.flatMap_nil, List.length_nil]
        omega

namespace CutAt

variable {n : Nat} {shown rest : List Char}

/-- What stands in front of the cut is the longest front that fits. -/
theorem exists_more (h : CutAt n shown rest) {front back : List Char}
    (hsplit : shown ++ rest = front ++ back) (hfits : (encodeChars front).length ≤ n) :
    ∃ more, shown = front ++ more := by
  rcases List.append_eq_append_iff.mp hsplit with ⟨between, rfl, hrest⟩ | ⟨more, hshown, -⟩
  · cases between with
    | nil => exact ⟨[], by rw [List.append_nil, List.append_nil]⟩
    | cons c between =>
        have hlt := h.next c _ hrest
        rw [length_encodeChars_append, length_encodeChars_cons] at hfits
        omega
  · exact ⟨more, hshown⟩

/-- The cut falls inside a character if it leaves some characters behind it, and some bytes in front. -/
theorem inside_iff (h : CutAt n shown rest) :
    Inside n (String.ofList (shown ++ rest)) ↔ rest ≠ [] ∧ (encodeChars shown).length < n := by
  rw [Inside]
  simp only [String.toList_ofList, utf8ByteSize_ofList]
  constructor
  · rintro ⟨front, c, back, hsplit, hlow, hhigh⟩
    -- the front fits, and with the character it does not
    obtain ⟨more, rfl⟩ := h.exists_more hsplit (Nat.le_of_lt hlow)
    rw [List.append_assoc, List.append_cancel_left_eq] at hsplit
    cases more with
    | nil =>
        rw [List.append_nil]
        obtain rfl : rest = c :: back := hsplit
        exact ⟨List.cons_ne_nil c back, hlow⟩
    | cons d more =>
        obtain ⟨rfl, -⟩ := List.cons.inj hsplit
        have hfits := h.fits
        rw [length_encodeChars_append, length_encodeChars_cons] at hfits
        omega
  · rintro ⟨hrest, hlow⟩
    obtain ⟨c, more, rfl⟩ := List.exists_cons_of_ne_nil hrest
    exact ⟨shown, c, more, rfl, hlow, h.next c more rfl⟩

/-- The lenient reading of the bytes in front of the cut. -/
theorem lossyFrom_take (h : CutAt n shown rest) :
    lossyFrom none ((encodeChars (shown ++ rest)).take n) =
      if rest ≠ [] ∧ (encodeChars shown).length < n then shown ++ [replacement] else shown := by
  rw [encodeChars_append, List.take_append, List.take_of_length_le h.fits, lossyFrom_encodeChars]
  cases rest with
  | nil =>
      rw [if_neg fun hinside => hinside.1 rfl, show encodeChars [] = [] from rfl, List.take_nil]
      exact List.append_nil shown
  | cons c more =>
      have hchar : n - (encodeChars shown).length < c.utf8Size :=
        Nat.sub_lt_left_of_lt_add h.fits (h.next c more rfl)
      rw [encodeChars_cons, List.take_append_of_le_length
        (String.length_utf8EncodeChar c ▸ Nat.le_of_lt hchar)]
      by_cases hroom : (encodeChars shown).length < n
      · rw [if_pos ⟨List.cons_ne_nil c more, hroom⟩,
          lossyFrom_cut_char c (Nat.sub_pos_of_lt hroom) hchar]
      · rw [if_neg fun hinside => hroom hinside.2, Nat.sub_eq_zero_of_le (Nat.not_lt.mp hroom),
          List.take_zero]
        exact List.append_nil shown

end CutAt

/-- One is inside a character of a text only with bytes left. -/
theorem Inside.lt_utf8ByteSize {n : Nat} {t : String} (h : Inside n t) : n < t.utf8ByteSize := by
  obtain ⟨front, c, back, hsplit, -, hlt⟩ := h
  rw [utf8ByteSize_ofList] at hlt
  rw [← String.ofList_toList (s := t), utf8ByteSize_ofList, hsplit, length_encodeChars_append,
    length_encodeChars_cons]
  omega

namespace Longest

variable {n : Nat} {t shown shown' : String}

/-- There is one longest front. -/
theorem unique (h : Longest n t shown) (h' : Longest n t shown') : shown = shown' := by
  obtain ⟨rest, hrest⟩ := h.front
  obtain ⟨rest', hrest'⟩ := h'.front
  obtain ⟨more, hmore⟩ := h.longest shown' rest' hrest' h'.fits
  obtain ⟨more', hmore'⟩ := h'.longest shown rest hrest h.fits
  -- each is a front of the other, so that neither has more bytes
  have hsize := congrArg String.utf8ByteSize hmore
  have hsize' := congrArg String.utf8ByteSize hmore'
  rw [String.utf8ByteSize_append] at hsize hsize'
  obtain rfl : more = "" := String.utf8ByteSize_eq_zero_iff.mp (by omega)
  rw [hmore, String.append_empty]

/-- A text that fits is the longest front of itself. -/
theorem self (hle : t.utf8ByteSize ≤ n) : Longest n t t :=
  ⟨⟨"", String.append_empty.symm⟩, hle, fun _ rest hsplit _ => ⟨rest, hsplit⟩⟩

end Longest

/-- The characters in front of a cut are the longest front of all of them. -/
theorem CutAt.longest {n : Nat} {shown rest : List Char} (h : CutAt n shown rest) :
    Longest n (String.ofList (shown ++ rest)) (String.ofList shown) := by
  refine ⟨⟨_, String.ofList_append⟩, ?_, fun front back hsplit hfits => ?_⟩
  · rw [utf8ByteSize_ofList]
    exact h.fits
  · replace hsplit := congrArg String.toList hsplit
    rw [String.toList_ofList, String.toList_append] at hsplit
    rw [← String.ofList_toList (s := front), utf8ByteSize_ofList] at hfits
    obtain ⟨more, rfl⟩ := h.exists_more hsplit hfits
    exact ⟨String.ofList more, by rw [String.ofList_append, String.ofList_toList]⟩

/-- **The lenient reading of the first bytes of a text** is the longest front that they hold, and a mark
    behind it if they end inside a character. -/
theorem lossy_take_encode (n : Nat) (t : String) :
    ∃ shown, Longest n t shown ∧
      (Inside n t → lossy ((encode t).take n) = shown ++ "\uFFFD") ∧
      (¬ Inside n t → lossy ((encode t).take n) = shown) := by
  obtain ⟨shown, rest, hsplit, hcut⟩ := exists_cutAt n t.toList
  obtain rfl : t = String.ofList (shown ++ rest) := by rw [← hsplit, String.ofList_toList]
  refine ⟨String.ofList shown, hcut.longest, fun h => ?_, fun h => ?_⟩
  · rw [lossy, encode_ofList, hcut.lossyFrom_take, if_pos (hcut.inside_iff.mp h), String.ofList_append]
    rfl
  · rw [lossy, encode_ofList, hcut.lossyFrom_take, if_neg (mt hcut.inside_iff.mpr h)]

end Utf8

-- ── The display of text ──────────────────────────────────────────────────────────

namespace Segment

variable {s : Segment}

/-- What is displayed of a string of either size class. -/
theorem display_of_isString (h : s.tag.isString = true) :
    s.display = s.tag.name ++ "=" ++ ("\"" ++ Utf8.lossy (s.payload.take previewLength) ++ "\"") := by
  have hkind : s.tag.kind = .text := by
    revert h
    cases s.tag <;> decide
  rw [display, displayValue, hkind]

end Segment

/-- **The preview of a text is exact.** A string segment of either size class with a valid payload is
    displayed as the name of its tag, an equals sign and, in quotes, the longest front of its text that
    has at most thirty-two bytes, and ends between two characters. Behind it stands one U+FFFD exactly if
    the payload is longer than that, and the thirty-two bytes end inside a character. So no more and no
    less is displayed of a text that fits. -/
theorem text_preview_exact (s : Segment) (htag : s.tag.isString = true) (t : String)
    (ht : Utf8.decode? s.payload = some t) :
    (∃ shown, Utf8.Longest 32 t shown ∧
      (32 < s.payload.length ∧ Utf8.Inside 32 t →
        s.display = s.tag.name ++ "=" ++ ("\"" ++ (shown ++ "\uFFFD") ++ "\"")) ∧
      (¬ (32 < s.payload.length ∧ Utf8.Inside 32 t) →
        s.display = s.tag.name ++ "=" ++ ("\"" ++ shown ++ "\""))) ∧
    (s.payload.length ≤ 32 → s.display = s.tag.name ++ "=" ++ ("\"" ++ t ++ "\"")) := by
  have hpayload := Utf8.decode?_eq_some_iff.mp ht
  have hlength : s.payload.length = t.utf8ByteSize := congrArg List.length hpayload
  have hdisplay := Segment.display_of_isString htag
  rw [hpayload] at hdisplay
  obtain ⟨shown, hshown, hinside, houtside⟩ := Utf8.lossy_take_encode previewLength t
  have hcut : 32 < s.payload.length ∧ Utf8.Inside 32 t ↔ Utf8.Inside previewLength t :=
    and_iff_right_of_imp fun h => hlength ▸ h.lt_utf8ByteSize
  rw [hcut]
  refine ⟨⟨shown, hshown, fun h => ?_, fun h => ?_⟩, fun hle => ?_⟩
  · rw [hdisplay, hinside h]
  · rw [hdisplay, houtside h]
  · rw [hlength] at hle
    rw [hdisplay, houtside fun h => Nat.not_lt.mpr hle h.lt_utf8ByteSize, hshown.unique (.self hle)]

/-- Thirty-one letters and a sign of three bytes: the sign is cut, and a mark stands in its place. Behind
    one letter more it is left out, and nothing stands there. -/
theorem text_preview_exact_sign :
    let few : List Char := .replicate 31 'x'
    let more : List Char := .replicate 32 'x'
    Segment.display ⟨.string, Utf8.encode (.ofList (few ++ ['€']))⟩ =
      "String=\"xxxxxxxxxxxxxxxxxxxxxxxxxxxxxxx\uFFFD\"" ∧
    Segment.display ⟨.hugeString, Utf8.encode (.ofList (more ++ ['€']))⟩ =
      "HugeString=\"xxxxxxxxxxxxxxxxxxxxxxxxxxxxxxxx\"" ∧
    Segment.display ⟨.string, Utf8.encode "€"⟩ = "String=\"€\"" := by
  intro few more
  have hfew : Utf8.CutAt 32 few ['€'] := ⟨by decide, by rintro _ _ ⟨⟩; decide⟩
  have hmore : Utf8.CutAt 32 more ['€'] := ⟨by decide, by rintro _ _ ⟨⟩; decide⟩
  refine ⟨?_, ?_, ?_⟩
  · obtain ⟨⟨shown, hshown, hinside, -⟩, -⟩ := text_preview_exact
      ⟨.string, Utf8.encode (.ofList (few ++ ['€']))⟩ rfl _ (Utf8.decode?_eq_some_iff.mpr rfl)
    obtain rfl := hshown.unique hfew.longest
    exact (hinside ⟨by decide, hfew.inside_iff.mpr (by decide)⟩).trans (by decide)
  · obtain ⟨⟨shown, hshown, -, houtside⟩, -⟩ := text_preview_exact
      ⟨.hugeString, Utf8.encode (.ofList (more ++ ['€']))⟩ rfl _ (Utf8.decode?_eq_some_iff.mpr rfl)
    obtain rfl := hshown.unique hmore.longest
    have hroom : ¬ (Utf8.encodeChars more).length < 32 := by decide
    exact (houtside fun h => hroom (hmore.inside_iff.mp h.2).2).trans (by decide)
  · obtain ⟨-, hfull⟩ := text_preview_exact ⟨.string, Utf8.encode "€"⟩ rfl _
      (Utf8.decode?_eq_some_iff.mpr rfl)
    exact (hfull (by decide)).trans (by decide)

end SegmentWire
