import SegmentWire.Proofs.JsonNumbers

/-!
# The tokens of what is written

A text is scanned from left to right, so that what is written next goes on from where the scan stands.
Brackets, commas and texts are whole tokens at once. A number or a word may still go on, and is a token only
when a character comes that ends it. Everything that is written behind a value begins with such a character.

* **`Json.Between`**, **`Json.Settled`** — the text so far is scanned to these tokens, in the stricter and
  in the weaker sense.
* **`Json.Settled.lead`**, **`Json.Between.colon`**, **`Json.Settled.close`** — what stands around values.
* **`Json.Between.text`**, **`Json.Between.number`**, **`Json.Between.word`** — what is a token itself;
  **`Json.resolve?_literalOf`** says that the token of a text stands for this text.
* **`Json.Settled.scan?_eq`** — the tokens of a whole text.
-/

namespace SegmentWire.Json

open Token (step? start? isNumeric ofWord?)

-- ── The scan of what is written ──────────────────────────────────────────────────

/-- The scan of the characters written so far. -/
def Scanned (written : String) (scan : Scan) : Prop :=
  written.toList.foldlM step? {} = some scan

/-- A scan in which the next character that is neither of a number nor of a word finds these tokens. -/
inductive Scan.Settles : Scan → List Token → Prop
  | between (tokens : List Token) : Settles ⟨tokens.toArray, .between⟩ tokens
  | number {tokens : List Token} {chars : List Char} {n : NumberLiteral}
      (h : NumberLiteral.ofChars? chars.reverse = some n) :
      Settles ⟨tokens.toArray, .number chars⟩ (tokens ++ [.number n])
  | word {tokens : List Token} {chars : List Char} {token : Token}
      (h : ofWord? chars.reverse = some token) :
      Settles ⟨tokens.toArray, .word chars⟩ (tokens ++ [token])

/-- What is written so far are whole tokens, and nothing may change the last one. -/
def Between (written : String) (tokens : List Token) : Prop :=
  Scanned written ⟨tokens.toArray, .between⟩

/-- What is written so far are whole tokens, though a number or a word may go on. -/
def Settled (written : String) (tokens : List Token) : Prop :=
  ∃ scan, Scanned written scan ∧ scan.Settles tokens

variable {written more : String} {tokens added : List Token} {scan scan' : Scan}

/-- More characters are scanned from where the scan stands. -/
theorem Scanned.append (h : Scanned written scan)
    (hmore : more.toList.foldlM step? scan = some scan') : Scanned (written ++ more) scan' := by
  rw [Scanned, String.toList_append, List.foldlM_append, h]
  exact hmore

theorem Between.settled (h : Between written tokens) : Settled written tokens :=
  ⟨_, h, .between tokens⟩

/-- A character that ends numbers and words is read as if between tokens. -/
theorem Scan.Settles.step_eq (h : scan.Settles tokens) {c : Char} (hnumeric : isNumeric c = false)
    (halpha : c.isAlpha = false) : step? scan c = start? tokens.toArray c := by
  cases h with
  | between => rfl
  | number h =>
      unfold step?
      simp [hnumeric, h]
  | word h =>
      unfold step?
      simp [halpha, h]

/-- The text ends where the scan has settled. -/
theorem Settled.scan?_eq (h : Settled written tokens) : Token.scan? written = some tokens := by
  obtain ⟨scan, hscan, hsettles⟩ := h
  unfold Token.scan?
  rw [hscan]
  cases hsettles with
  | between => rfl
  | number h => simp [h]
  | word h => simp [h]

-- ── Layout ───────────────────────────────────────────────────────────────────────

/-- Between tokens these characters add some, and none of them is a number or a word. -/
def Lays (more : String) (added : List Token) : Prop :=
  ∀ tokens : List Token, more.toList.foldlM step? ⟨tokens.toArray, .between⟩ =
    some ⟨(tokens ++ added).toArray, .between⟩

/-- The first character ends numbers and words. -/
def Delimits (more : String) : Prop :=
  ∃ c rest, more.toList = c :: rest ∧ isNumeric c = false ∧ c.isAlpha = false

theorem Lays.append {more' : String} {added' : List Token} (h : Lays more added)
    (h' : Lays more' added') : Lays (more ++ more') (added ++ added') := by
  intro tokens
  rw [String.toList_append, List.foldlM_append, h tokens, ← List.append_assoc]
  exact h' (tokens ++ added)

theorem Delimits.append (h : Delimits more) (more' : String) : Delimits (more ++ more') := by
  obtain ⟨c, rest, hmore, hc⟩ := h
  refine ⟨c, rest ++ more'.toList, ?_, hc⟩
  rw [String.toList_append, hmore]
  rfl

theorem Between.lay (h : Between written tokens) (hlays : Lays more added) :
    Between (written ++ more) (tokens ++ added) :=
  Scanned.append h (hlays tokens)

/-- A number or a word is ended by what delimits it. -/
theorem Settled.lay (h : Settled written tokens) (hdelimits : Delimits more)
    (hlays : Lays more added) : Between (written ++ more) (tokens ++ added) := by
  obtain ⟨scan, hscan, hsettles⟩ := h
  obtain ⟨c, rest, hchars, hnumeric, halpha⟩ := hdelimits
  have hmore := hlays tokens
  refine hscan.append ?_
  rw [hchars, List.foldlM_cons] at hmore ⊢
  rw [hsettles.step_eq hnumeric halpha]
  exact hmore

theorem lays_empty : Lays "" [] := by
  intro tokens
  rw [List.append_nil]
  rfl

/-- A character that is a token by itself. -/
theorem lays_token (more : String) (c : Char) (token : Token) (hmore : more.toList = [c])
    (h : ∀ tokens, start? tokens c = some ⟨tokens.push token, .between⟩) : Lays more [token] := by
  intro tokens
  rw [hmore, List.foldlM_cons]
  show (start? tokens.toArray c).bind _ = _
  rw [h, List.push_toArray]
  rfl

theorem lays_blanks (n : Nat) : Lays (String.ofList (List.replicate n ' ')) [] := by
  intro tokens
  rw [String.toList_ofList, List.append_nil]
  induction n with
  | zero => rfl
  | succ n ih =>
      rw [List.replicate_succ, List.foldlM_cons]
      exact ih

/-- A line break and an indent add no tokens. -/
theorem lays_lineBreak (style : Style) (level : Nat) : Lays (style.lineBreak level) [] := by
  have hbreak : Lays "\n" [] := by
    intro tokens
    rw [List.append_nil]
    rfl
  unfold Style.lineBreak
  split
  · exact lays_empty
  · exact hbreak.append (lays_blanks _)

theorem lineBreak_eq_or (style : Style) (level : Nat) :
    style.lineBreak level = "" ∨ Delimits (style.lineBreak level) := by
  unfold Style.lineBreak
  split
  · exact Or.inl rfl
  · exact Or.inr (Delimits.append ⟨'\n', [], rfl, by decide, by decide⟩ _)

/-- What stands before the first member. -/
theorem Between.lead (h : Between written tokens) (style : Style) (level : Nat) :
    Between (written ++ style.lead level true) tokens := by
  have hlead := h.lay (lays_empty.append (lays_lineBreak style level))
  rwa [List.append_nil, List.append_nil] at hlead

/-- What stands before any other member. -/
theorem Settled.lead (h : Settled written tokens) (style : Style) (level : Nat) :
    Between (written ++ style.lead level false) (tokens ++ [.comma]) := by
  have hcomma : Lays "," [.comma] := lays_token "," ',' .comma rfl fun _ => rfl
  exact h.lay (Delimits.append ⟨',', [], rfl, by decide, by decide⟩ _)
    (hcomma.append (lays_lineBreak style level))

/-- What stands between a key and its value. -/
theorem Between.colon (h : Between written tokens) (style : Style) :
    Between (written ++ style.colon) (tokens ++ [.colon]) := by
  refine h.lay ?_
  intro tokens
  unfold Style.colon
  rw [← List.push_toArray]
  split <;> rfl

/-- A bracket that closes. -/
theorem Settled.close (h : Settled written tokens) (style : Style) (level : Nat) (empty : Bool)
    {bracket : String} {token : Token} (hbracket : Delimits bracket) (hlays : Lays bracket [token]) :
    Between (written ++ style.close level empty bracket) (tokens ++ [token]) := by
  have hbreak : ∀ blank, Lays blank [] → (blank = "" ∨ Delimits blank) →
      Between (written ++ (blank ++ bracket)) (tokens ++ [token]) := by
    rintro blank hblank (rfl | hdelimits)
    · rw [String.empty_append]
      exact h.lay hbracket hlays
    · exact h.lay (hdelimits.append bracket) (hblank.append hlays)
  unfold Style.close
  cases empty with
  | true => exact hbreak "" lays_empty (Or.inl rfl)
  | false => exact hbreak _ (lays_lineBreak style level) (lineBreak_eq_or style level)

-- ── Texts ────────────────────────────────────────────────────────────────────────

/-- The piece that a character of a text is written as. -/
def pieceOf (c : Char) : Piece :=
  if c < ' ' ∧ c ∉ ['\x08', '\x0c', '\n', '\r', '\t'] then .unit c.toNat else .plain c

theorem hexValue?_digitChar {d : Nat} (h : d < 16) : Token.hexValue? (Nat.digitChar d) = some d := by
  revert d
  decide

/-- Controls come before the blank, which is character 32. -/
theorem toNat_lt_of_lt_blank {c : Char} (h : c < ' ') : c.toNat < 32 := by
  rwa [Char.lt_def, UInt32.lt_iff_toNat_lt] at h

/-- A character of a text is scanned to its piece. -/
theorem scan_escape (tokens : Array Token) (pieces : TextLiteral) (c : Char) :
    (escape c).toList.foldlM step? ⟨tokens, .text pieces⟩ =
      some ⟨tokens, .text (pieceOf c :: pieces)⟩ := by
  unfold escape
  -- quotes, backslashes and the controls that have a letter
  iterate 7
    split
    · next hc =>
      subst hc
      rfl
  split
  · next _ _ hback hfeed hline hreturn htab hcontrol =>
    have hpiece : pieceOf c = .unit c.toNat :=
      if_pos ⟨hcontrol, by simp [hback, hfeed, hline, hreturn, htab]⟩
    have hlt := toNat_lt_of_lt_blank hcontrol
    have hhigh := hexValue?_digitChar (d := c.toNat / 16) (by omega)
    have hlow := hexValue?_digitChar (d := c.toNat % 16) (by omega)
    have hunit : "\\u00".toList.foldlM step? ⟨tokens, .text pieces⟩ =
        some ⟨tokens, .unit pieces 2 0⟩ := rfl
    rw [String.toList_append, List.foldlM_append, hunit, String.toList_ofList, hpiece]
    simp [step?, hhigh, hlow, Nat.div_add_mod]
  · next hquote hslash _ _ _ _ _ hcontrol =>
    have hpiece : pieceOf c = .plain c := if_neg fun h => hcontrol h.1
    have hchars : c.toString.toList = [c] := String.toList_singleton c
    rw [hchars, hpiece]
    simp [step?, hquote, hslash, hcontrol]

/-- The literal of a text. -/
def literalOf (text : String) : TextLiteral := text.toList.map pieceOf

/-- **A text is scanned to the literal of its characters.** -/
theorem Between.text (h : Between written tokens) (text : String) :
    Between (writeText written text) (tokens ++ [.text (literalOf text)]) := by
  have hchars : ∀ (chars : List Char) (w : String) (pieces : TextLiteral),
      Scanned w ⟨tokens.toArray, .text pieces⟩ →
      Scanned (chars.foldl (fun w c => w ++ escape c) w)
        ⟨tokens.toArray, .text ((chars.map pieceOf).reverse ++ pieces)⟩ := by
    intro chars
    induction chars with
    | nil => exact fun _ _ hw => hw
    | cons c chars ih =>
        intro w pieces hw
        have hrest := ih _ _ (hw.append (scan_escape _ pieces c))
        rwa [List.map_cons, List.reverse_cons, List.append_assoc]
  have hopen : Scanned (written.push '"') ⟨tokens.toArray, .text []⟩ := by
    rw [String.push_eq_append]
    exact Scanned.append h rfl
  have hclosed := hchars text.toList _ _ hopen
  rw [List.append_nil] at hclosed
  unfold writeText
  rw [String.push_eq_append]
  refine Scanned.append hclosed ?_
  show some (Scan.mk _ _) = _
  rw [List.push_toArray, List.reverse_reverse, literalOf]

/-- A unit below the surrogates is a character by itself. -/
theorem resolveAfter_unit (read : String) {n : Nat} (h : n < 0xD800) (rest : TextLiteral) :
    resolveAfter read (.unit n :: rest) = resolveAfter (read.push (.ofNat n)) rest := by
  have hlow : isLowSurrogate n = false := by simp [isLowSurrogate]; omega
  have hhigh : isHighSurrogate n = false := by simp [isHighSurrogate]; omega
  rw [resolveAfter.eq_def]
  simp only [hlow, hhigh, Bool.false_eq_true, if_false]

/-- The literal of a text stands for this text. -/
theorem resolve?_literalOf (text : String) : (literalOf text).resolve? = some text := by
  have hchars : ∀ (chars : List Char) (read : String),
      resolveAfter read (chars.map pieceOf) = some (read ++ String.ofList chars) := by
    intro chars
    induction chars with
    | nil =>
        intro read
        rw [List.map_nil, resolveAfter, String.ofList_nil, String.append_empty]
    | cons c chars ih =>
        intro read
        have hrest := ih (read.push c)
        rw [String.push_eq_append, String.append_assoc, ← String.ofList_cons] at hrest
        rw [List.map_cons, pieceOf, ← hrest, ← String.push_eq_append]
        split
        · next hcontrol =>
          have hlt := toNat_lt_of_lt_blank hcontrol.1
          rw [resolveAfter_unit read (Nat.lt_trans hlt (by decide)), Char.ofNat_toNat]
        · rfl
  rw [TextLiteral.resolve?, literalOf, hchars, String.empty_append, String.ofList_toList]

-- ── Numbers and words ────────────────────────────────────────────────────────────

/-- Numbers begin with a digit or the sign. -/
theorem start?_number {c : Char} (h : c.isDigit = true ∨ c = '-') (tokens : Array Token) :
    start? tokens c = some ⟨tokens, .number [c]⟩ := by
  have hne : ∀ d : Char, d.isDigit = false → d ≠ '-' → c ≠ d := by
    rintro d hdigit hminus rfl
    exact h.elim (fun h => Bool.false_ne_true (hdigit.symm.trans h)) hminus
  have hblank : Token.isBlank c = false := by
    simp [Token.isBlank, hne ' ' (by decide) (by decide), hne '\t' (by decide) (by decide),
      hne '\n' (by decide) (by decide), hne '\r' (by decide) (by decide)]
  rw [start?, hblank, if_neg Bool.false_ne_true, if_neg (hne '"' (by decide) (by decide)),
    if_neg (hne '[' (by decide) (by decide)), if_neg (hne ']' (by decide) (by decide)),
    if_neg (hne '\x7b' (by decide) (by decide)), if_neg (hne '\x7d' (by decide) (by decide)),
    if_neg (hne ':' (by decide) (by decide)), if_neg (hne ',' (by decide) (by decide)), if_pos h]

/-- All characters of a number are taken into it. -/
theorem scan_numeric (tokens : Array Token) {chars : List Char} (h : NumberLiteral.Numeric chars)
    (read : List Char) : chars.foldlM step? ⟨tokens, .number read⟩ =
      some ⟨tokens, .number (chars.reverse ++ read)⟩ := by
  induction chars generalizing read with
  | nil => rfl
  | cons c chars ih =>
      obtain ⟨hc, hchars⟩ := List.forall_mem_cons.mp h
      have hstep : step? ⟨tokens, .number read⟩ c = some ⟨tokens, .number (c :: read)⟩ := if_pos hc
      rw [List.foldlM_cons, hstep, List.reverse_cons, List.append_assoc]
      exact ih hchars (c :: read)

/-- **A number is scanned to the literal that it is.** -/
theorem Between.number (h : Between written tokens) {n : Number} {literal : NumberLiteral}
    (hliteral : NumberLiteral.ofChars? n.render.toList = some literal) :
    Settled (written ++ n.render) (tokens ++ [.number literal]) := by
  obtain ⟨hnumeric, c, chars, hchars, hfirst⟩ := NumberLiteral.numeric_of_ofChars? hliteral
  rw [hchars] at hnumeric
  refine ⟨⟨tokens.toArray, .number (chars.reverse ++ [c])⟩, Scanned.append h ?_, .number ?_⟩
  · rw [hchars, List.foldlM_cons]
    show (start? tokens.toArray c).bind _ = _
    rw [start?_number hfirst]
    exact scan_numeric _ (List.forall_mem_cons.mp hnumeric).2 [c]
  · rw [List.reverse_append, List.reverse_reverse, ← hliteral, hchars]
    rfl

/-- A word is scanned to its token. -/
theorem Between.word (h : Between written tokens) {word : String} {chars : List Char}
    {token : Token} (hchars : ∀ tokens : Array Token,
      word.toList.foldlM step? ⟨tokens, .between⟩ = some ⟨tokens, .word chars⟩)
    (hword : ofWord? chars.reverse = some token) : Settled (written ++ word) (tokens ++ [token]) :=
  ⟨_, Scanned.append h (hchars _), .word hword⟩

end SegmentWire.Json
