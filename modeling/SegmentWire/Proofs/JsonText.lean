import Mathlib.Data.String.Basic
import SegmentWire.Proofs.JsonScan

/-!
# JSON text is read as it was written

A value is written as tokens that spell a form, and the form stands for the value. All that it takes is
that its objects are in order, that not too many of them are inside each other, and that its numbers are
read as they were written.

* **`Json.Readable`** — the values that this is true of.
* **`Json.Spells`** — the tokens and the form of a value: how they are written, put together and
  resolved.
* **`Json.Readable.exists_spells`** — every readable value has some.
* **`Json.parse_render`** — the text of a value is read as this value, in any layout.
-/

namespace SegmentWire.Json

open Assembly (deliver)

-- ── Values that are read as they were written ────────────────────────────────────

/-- A value with at most `depth` arrays and objects inside each other, whose objects list their members
    by increasing key, and whose numbers are read as they were written. -/
inductive Readable : Nat → Json → Prop
  | null (depth : Nat) : Readable depth .null
  | bool (depth : Nat) (b : Bool) : Readable depth (.bool b)
  | number (depth : Nat) {n : Number} (h : n.ReadsBack) : Readable depth (.number n)
  | text (depth : Nat) (t : String) : Readable depth (.text t)
  | array {depth : Nat} {items : List Json} (h : ∀ item ∈ items, Readable depth item) :
      Readable (depth + 1) (.array items)
  | object {depth : Nat} {members : List (String × Json)}
      (hsorted : members.Pairwise fun a b => a.1 < b.1)
      (h : ∀ member ∈ members, Readable depth member.2) : Readable (depth + 1) (.object members)

/-- An object of two members. -/
theorem Readable.pair {depth : Nat} {first second : String} {v w : Json} (hlt : first < second)
    (hv : v.Readable depth) (hw : w.Readable depth) :
    Readable (depth + 1) (.object [(first, v), (second, w)]) := by
  refine .object (List.pairwise_pair.mpr hlt) ?_
  rintro member (_ | ⟨_, _ | ⟨_, ⟨⟩⟩⟩)
  · exact hv
  · exact hw

/-- The object of members by increasing key lists them in this order. -/
theorem ofMembers_of_sorted {members : List (String × Json)}
    (h : members.Pairwise fun a b => a.1 < b.1) : ofMembers members = .object members := by
  have hsort : (members.mergeSort fun a b => a.1 ≤ b.1) = members :=
    List.mergeSort_of_pairwise (h.imp fun hlt => decide_eq_true (le_of_lt hlt))
  have hstack : ∀ (below : List (String × Json)),
      (∀ m ∈ below.head?, ∀ member ∈ members.head?, m.1 ≠ member.1) →
      members.foldl stack below = members.reverse ++ below := by
    clear hsort
    induction h with
    | nil => exact fun _ _ => rfl
    | @cons m members hm _ ih =>
        intro below hbelow
        have hpush : stack below m = m :: below := by
          cases below with
          | nil => rfl
          | cons top below => exact if_neg (hbelow top rfl m rfl)
        rw [List.foldl_cons, hpush, List.reverse_cons, List.append_assoc]
        refine ih (m :: below) ?_
        rintro _ ⟨⟩ member hmember
        exact ne_of_lt (hm member (List.mem_of_mem_head? hmember))
  rw [ofMembers, hsort, hstack [] nofun, List.append_nil, List.reverse_reverse]

-- ── The tokens of a value ────────────────────────────────────────────────────────

/-- The tokens that a value is written to, and the form that they are put together to. -/
structure Spells (depth : Nat) (v : Json) (tokens : List Token) (form : Form) : Prop where
  written : ∀ (style : Style) (level : Nat) (written : String) (before : List Token),
    Between written before → Settled (write style level written v) (before ++ tokens)
  assembled : ∀ (frames : List Frame) (expect : Expect), expect = .value ∨ expect = .itemOrClose →
    tokens.foldlM Assembly.step? ⟨frames, expect⟩ = some (deliver frames form)
  resolved : form.resolve? depth = some v

/-- The items of an array with the bracket behind them, the first item with or without a comma. -/
structure SpellsItems (depth : Nat) (first : Bool) (items : List Json) (tokens : List Token)
    (forms : List Form) : Prop where
  written : ∀ (style : Style) (level : Nat) (written : String) (before : List Token),
    (first = true → Between written before) → Settled written before →
    Settled (writeItems style level first written items) (before ++ tokens)
  assembled : ∀ (done : Array Form) (outer : List Frame),
    (tokens ++ [Token.closeArray]).foldlM Assembly.step?
      ⟨.array done :: outer, if first then .itemOrClose else .commaOrClose⟩ =
        some (deliver outer (.array (done.toList ++ forms)))
  resolved : forms.mapM (Form.resolve? depth) = some items

/-- The members of an object with the bracket behind them. -/
structure SpellsMembers (depth : Nat) (first : Bool) (members : List (String × Json))
    (tokens : List Token) (forms : List (TextLiteral × Form)) : Prop where
  written : ∀ (style : Style) (level : Nat) (written : String) (before : List Token),
    (first = true → Between written before) → Settled written before →
    Settled (writeMembers style level first written members) (before ++ tokens)
  assembled : ∀ (done : Array (TextLiteral × Form)) (key : TextLiteral) (outer : List Frame),
    (tokens ++ [Token.closeObject]).foldlM Assembly.step?
      ⟨.object done key :: outer, if first then .keyOrClose else .commaOrClose⟩ =
        some (deliver outer (.object (done.toList ++ forms)))
  resolved : forms.mapM (fun (key, value) => do
    return (← key.resolve?, ← Form.resolve? depth value)) = some members

variable {depth : Nat} {first : Bool}

/-- A comma stands before any member but the first. -/
def leadTokens (first : Bool) : List Token := if first then [] else [.comma]

/-- Before a member the scan is between tokens. -/
theorem between_lead {written : String} {before : List Token}
    (hfirst : first = true → Between written before) (h : Settled written before) (style : Style)
    (level : Nat) :
    Between (written ++ style.lead level first) (before ++ leadTokens first) := by
  cases first with
  | true =>
      show Between _ (before ++ [])
      rw [List.append_nil]
      exact (hfirst rfl).lead style level
  | false => exact h.lead style level

/-- Items that are spelled one by one are spelled together. -/
theorem exists_spellsItems (first : Bool) {items : List Json}
    (h : ∀ item ∈ items, ∃ tokens form, Spells depth item tokens form) :
    ∃ tokens forms, SpellsItems depth first items tokens forms := by
  induction items generalizing first with
  | nil =>
      refine ⟨[], [], ?_, ?_, rfl⟩
      · intro style level written before _ hsettled
        rwa [List.append_nil]
      · intro done outer
        rw [List.append_nil]
        cases first <;> rfl
  | cons item items ih =>
      obtain ⟨hitem, hitems⟩ := List.forall_mem_cons.mp h
      obtain ⟨tokens, form, hspells⟩ := hitem
      obtain ⟨others, forms, hothers⟩ := ih false hitems
      refine ⟨leadTokens first ++ (tokens ++ others), form :: forms, ?_, ?_, ?_⟩
      · intro style level written before hfirst hsettled
        have hlead := between_lead hfirst hsettled style level
        have hwritten := hspells.written style level _ _ hlead
        rw [← List.append_assoc, ← List.append_assoc]
        exact hothers.written style level _ _ nofun hwritten
      · intro done outer
        have hitem : (leadTokens first ++ tokens).foldlM Assembly.step?
            ⟨.array done :: outer, if first then .itemOrClose else .commaOrClose⟩ =
              some (deliver (.array done :: outer) form) := by
          cases first with
          | true => exact hspells.assembled _ _ (Or.inr rfl)
          | false => exact hspells.assembled _ _ (Or.inl rfl)
        have hrest := hothers.assembled (done.push form) outer
        rw [Array.toList_push, List.append_assoc] at hrest
        rw [← List.append_assoc, List.append_assoc, List.foldlM_append, hitem]
        exact hrest
      · rw [List.mapM_cons, hspells.resolved]
        show (forms.mapM (Form.resolve? depth)).bind _ = _
        rw [hothers.resolved]
        rfl

/-- Members that are spelled one by one are spelled together. -/
theorem exists_spellsMembers (first : Bool) {members : List (String × Json)}
    (h : ∀ member ∈ members, ∃ tokens form, Spells depth member.2 tokens form) :
    ∃ tokens forms, SpellsMembers depth first members tokens forms := by
  induction members generalizing first with
  | nil =>
      refine ⟨[], [], ?_, ?_, rfl⟩
      · intro style level written before _ hsettled
        rwa [List.append_nil]
      · intro done key outer
        rw [List.append_nil]
        cases first <;> rfl
  | cons member members ih =>
      obtain ⟨hmember, hmembers⟩ := List.forall_mem_cons.mp h
      obtain ⟨key, value⟩ := member
      obtain ⟨tokens, form, hspells⟩ := hmember
      obtain ⟨others, forms, hothers⟩ := ih false hmembers
      refine ⟨leadTokens first ++ [.text (literalOf key)] ++ [.colon] ++ tokens ++ others,
        (literalOf key, form) :: forms, ?_, ?_, ?_⟩
      · intro style level written before hfirst hsettled
        have hlead := between_lead hfirst hsettled style level
        have hwritten := hspells.written style level _ _ ((hlead.text key).colon style)
        simp only [← List.append_assoc] at hwritten ⊢
        exact hothers.written style level _ _ nofun hwritten
      · intro done before outer
        have hkey : (leadTokens first ++ [Token.text (literalOf key)] ++ [Token.colon]).foldlM
            Assembly.step?
            ⟨.object done before :: outer, if first then .keyOrClose else .commaOrClose⟩ =
              some ⟨.object done (literalOf key) :: outer, .value⟩ := by
          cases first <;> rfl
        have hvalue := hspells.assembled (.object done (literalOf key) :: outer) .value (Or.inl rfl)
        have hrest := hothers.assembled (done.push (literalOf key, form)) [] outer
        rw [Array.toList_push, List.append_assoc] at hrest
        rw [List.append_assoc, List.append_assoc, List.foldlM_append, hkey]
        show (tokens ++ (others ++ [Token.closeObject])).foldlM Assembly.step? _ = _
        rw [List.foldlM_append, hvalue]
        exact hrest
      · have hmember : ((literalOf key).resolve? >>= fun key => form.resolve? depth >>= fun value =>
            some (key, value)) = some (key, value) := by
          rw [resolve?_literalOf, hspells.resolved]
          rfl
        rw [List.mapM_cons]
        show (((literalOf key).resolve? >>= fun key => form.resolve? depth >>= fun value =>
            some (key, value)) >>= _) = _
        rw [hmember, hothers.resolved]
        rfl

/-- **Every readable value is spelled** by some tokens. The induction is on why it is readable, so that
    the items and members of a value are spelled before it. -/
theorem Readable.exists_spells {v : Json} (h : v.Readable depth) :
    ∃ tokens form, Spells depth v tokens form := by
  induction h with
  | null depth =>
      refine ⟨[.null], .null, ?_, ?_, ?_⟩
      · intro style level written before hbetween
        exact hbetween.word (fun _ => rfl) rfl
      · rintro frames expect (rfl | rfl) <;> rfl
      · cases depth <;> rfl
  | bool depth b =>
      refine ⟨[.bool b], .bool b, ?_, ?_, ?_⟩
      · intro style level written before hbetween
        cases b with
        | false => exact hbetween.word (fun _ => rfl) rfl
        | true => exact hbetween.word (fun _ => rfl) rfl
      · rintro frames expect (rfl | rfl) <;> rfl
      · cases depth <;> rfl
  | @number depth n h =>
      obtain ⟨literal, hliteral, hresolve⟩ := Option.bind_eq_some_iff.mp h
      refine ⟨[.number literal], .number literal, ?_, ?_, ?_⟩
      · intro style level written before hbetween
        exact hbetween.number hliteral
      · rintro frames expect (rfl | rfl) <;> rfl
      · rw [Form.resolve?, hresolve]
        rfl
  | text depth t =>
      refine ⟨[.text (literalOf t)], .text (literalOf t), ?_, ?_, ?_⟩
      · intro style level written before hbetween
        exact (hbetween.text t).settled
      · rintro frames expect (rfl | rfl) <;> rfl
      · rw [Form.resolve?, resolve?_literalOf]
        rfl
  | @array depth items _ ih =>
      obtain ⟨tokens, forms, hspells⟩ := exists_spellsItems true ih
      refine ⟨[.openArray] ++ tokens ++ [.closeArray], .array forms, ?_, ?_, ?_⟩
      · intro style level written before hbetween
        have hopen := hbetween.lay (lays_token "[" '[' .openArray rfl fun _ => rfl)
        have hitems := hspells.written style (level + 1) _ _ (fun _ => hopen) hopen.settled
        have hclosed := hitems.close style level items.isEmpty ⟨']', [], rfl, by decide, by decide⟩
          (lays_token "]" ']' .closeArray rfl fun _ => rfl)
        simp only [← List.append_assoc]
        exact hclosed.settled
      · rintro frames expect (rfl | rfl) <;> exact hspells.assembled #[] frames
      · rw [Form.resolve?, hspells.resolved]
        rfl
  | @object depth members hsorted _ ih =>
      obtain ⟨tokens, forms, hspells⟩ := exists_spellsMembers true ih
      refine ⟨[.openObject] ++ tokens ++ [.closeObject], .object forms, ?_, ?_, ?_⟩
      · intro style level written before hbetween
        have hopen := hbetween.lay (lays_token "\x7b" '\x7b' .openObject rfl fun _ => rfl)
        have hmembers := hspells.written style (level + 1) _ _ (fun _ => hopen) hopen.settled
        have hclosed := hmembers.close style level members.isEmpty
          ⟨'\x7d', [], rfl, by decide, by decide⟩
          (lays_token "\x7d" '\x7d' .closeObject rfl fun _ => rfl)
        simp only [← List.append_assoc]
        exact hclosed.settled
      · rintro frames expect (rfl | rfl) <;> exact hspells.assembled #[] [] frames
      · rw [Form.resolve?, hspells.resolved]
        exact congrArg some (ofMembers_of_sorted hsorted)

/-- **JSON text is read as it was written.** From the text of a readable value, in any layout, comes
    this value. -/
theorem parse_render {v : Json} (h : v.Readable maxDepth) (style : Style) :
    parse (v.render style) = .ok v := by
  obtain ⟨tokens, form, hspells⟩ := h.exists_spells
  have hscan : Token.scan? (v.render style) = some tokens :=
    (hspells.written style 0 "" [] rfl).scan?_eq
  have hform : Form.ofTokens? tokens = some form := by
    rw [Form.ofTokens?, hspells.assembled [] .value (Or.inl rfl)]
    rfl
  have hvalue : (Form.ofText? (v.render style) >>= Form.resolve? maxDepth) = some v := by
    rw [Form.ofText?, hscan]
    show (Form.ofTokens? tokens).bind (Form.resolve? maxDepth) = some v
    rw [hform]
    exact hspells.resolved
  rw [parse, hvalue]

end SegmentWire.Json
