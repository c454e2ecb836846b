import SegmentWire.Proofs.Failing

/-!
# Loops that stop at the first failure

A loop over a list fails exactly if one of its steps does. What stands in front of that step went
well, and what stands behind it is never looked at.

* **`foldlM_keeps`** — what each step keeps, the loop keeps.
* **`foldlM_eq_error_iff`** — the failure of a loop with a state is that of the first step to fail.
* **`mapM_eq_ok_iff`**, **`mapM_eq_error_iff`** — the same for a loop that treats each item alone.
* **`mapM_map_eq_some`**, **`map_eq_of_mapM`** — what is written item by item is read, and the other way
  round.
-/

namespace SegmentWire

variable {α β : Type}

/-- What follows a step and cannot fail does not change its failure. -/
theorem bind_pure_eq_error_iff {first : Except WireError α} {f : α → β} {e : WireError} :
    (do return f (← first) : Except WireError β) = .error e ↔ first = .error e := by
  refine bind_eq_error_iff.trans ⟨?_, Or.inl⟩
  rintro (h | ⟨a, -, ⟨⟩⟩)
  exact h

/-- What each step of a loop keeps, the whole loop keeps. -/
theorem foldlM_keeps {step : β → α → Except WireError β} {P : β → Prop}
    (hstep : ∀ b a b', P b → step b a = .ok b' → P b') {items : List α} {b b' : β}
    (hb : P b) (h : items.foldlM step b = .ok b') : P b' := by
  induction items generalizing b with
  | nil =>
      cases h
      exact hb
  | cons a items ih =>
      rw [List.foldlM_cons] at h
      obtain ⟨middle, hfirst, hrest⟩ := bind_eq_ok_iff.mp h
      exact ih (hstep b a middle hb hfirst) hrest

/-- **A loop fails where one of its steps does**, in the state that the steps before it have left. The
    induction is on the list, for every state that the loop begins in. -/
theorem foldlM_eq_error_iff {step : β → α → Except WireError β} {items : List α} {b : β}
    {e : WireError} :
    items.foldlM step b = .error e ↔ ∃ front a back middle, items = front ++ a :: back ∧
      front.foldlM step b = .ok middle ∧ step middle a = .error e := by
  induction items generalizing b with
  | nil =>
      constructor
      · rintro ⟨⟩
      · rintro ⟨front, a, back, -, hsplit, -⟩
        simp at hsplit
  | cons first items ih =>
      rw [List.foldlM_cons, bind_eq_error_iff]
      constructor
      · rintro (hfails | ⟨next, hfirst, hrest⟩)
        · exact ⟨[], first, items, b, rfl, rfl, hfails⟩
        · obtain ⟨front, a, back, middle, rfl, hfront, hfails⟩ := ih.mp hrest
          refine ⟨first :: front, a, back, middle, rfl, ?_, hfails⟩
          rw [List.foldlM_cons]
          exact bind_eq_ok_iff.mpr ⟨next, hfirst, hfront⟩
      · rintro ⟨front, a, back, middle, hsplit, hfront, hfails⟩
        rcases List.cons_eq_append_iff.mp hsplit with ⟨rfl, hitems⟩ | ⟨front, rfl, rfl⟩
        · cases hitems
          cases hfront
          exact Or.inl hfails
        · rw [List.foldlM_cons] at hfront
          obtain ⟨next, hfirst, hfront⟩ := bind_eq_ok_iff.mp hfront
          exact Or.inr ⟨next, hfirst, ih.mpr ⟨front, a, back, middle, rfl, hfront, hfails⟩⟩

/-- What is told of each item by the one beside it. -/
theorem forall_of_forall₂ {R : α → β → Prop} {P : β → Prop} {items : List α} {found : List β}
    (h : List.Forall₂ R items found) (hP : ∀ a ∈ items, ∀ b, R a b → P b) : ∀ b ∈ found, P b := by
  induction h with
  | nil => exact List.forall_mem_nil _
  | cons hR _ ih =>
      obtain ⟨hfirst, hothers⟩ := List.forall_mem_cons.mp hP
      exact List.forall_mem_cons.mpr ⟨hfirst _ hR, ih hothers⟩

/-- **A loop over single items gives an outcome for each of them**, in order. -/
theorem mapM_eq_ok_iff {f : α → Except WireError β} {items : List α} {found : List β} :
    items.mapM f = .ok found ↔ List.Forall₂ (fun a b => f a = .ok b) items found := by
  induction items generalizing found with
  | nil =>
      rw [List.forall₂_nil_left_iff]
      exact ⟨fun h => by cases h; rfl, fun h => by rw [h]; rfl⟩
  | cons a items ih =>
      rw [List.mapM_cons, List.forall₂_cons_left_iff]
      constructor
      · intro h
        obtain ⟨b, hb, h⟩ := bind_eq_ok_iff.mp h
        obtain ⟨rest, hrest, ⟨⟩⟩ := bind_eq_ok_iff.mp h
        exact ⟨b, rest, hb, ih.mp hrest, rfl⟩
      · rintro ⟨b, rest, hb, hrest, rfl⟩
        exact bind_eq_ok_iff.mpr ⟨b, hb, bind_eq_ok_iff.mpr ⟨rest, ih.mpr hrest, rfl⟩⟩

/-- A loop that finds a value for every item finds all of them, in order. -/
theorem mapM_eq_ok_map {f : α → Except WireError β} {g : α → β} {items : List α}
    (h : ∀ a ∈ items, f a = .ok (g a)) : items.mapM f = .ok (items.map g) :=
  mapM_eq_ok_iff.mpr (List.forall₂_map_right_iff.mpr (List.forall₂_same.mpr h))

/-- **It fails where one of its items does**, behind items that do not. -/
theorem mapM_eq_error_iff {f : α → Except WireError β} {items : List α} {e : WireError} :
    items.mapM f = .error e ↔ ∃ front a back, items = front ++ a :: back ∧
      (∀ b ∈ front, ∃ c, f b = .ok c) ∧ f a = .error e := by
  induction items with
  | nil =>
      constructor
      · rintro ⟨⟩
      · rintro ⟨front, a, back, hsplit, -⟩
        simp at hsplit
  | cons first items ih =>
      rw [List.mapM_cons, bind_eq_error_iff]
      constructor
      · rintro (hfails | ⟨c, hfirst, hrest⟩)
        · exact ⟨[], first, items, rfl, List.forall_mem_nil _, hfails⟩
        · rcases bind_eq_error_iff.mp hrest with hrest | ⟨rest, -, ⟨⟩⟩
          obtain ⟨front, a, back, rfl, hfront, hfails⟩ := ih.mp hrest
          exact ⟨first :: front, a, back, rfl, List.forall_mem_cons.mpr ⟨⟨c, hfirst⟩, hfront⟩,
            hfails⟩
      · rintro ⟨front, a, back, hsplit, hfront, hfails⟩
        rcases List.cons_eq_append_iff.mp hsplit with ⟨rfl, hitems⟩ | ⟨front, rfl, rfl⟩
        · cases hitems
          exact Or.inl hfails
        · obtain ⟨⟨c, hfirst⟩, hfront⟩ := List.forall_mem_cons.mp hfront
          have hrest := ih.mpr ⟨front, a, back, rfl, hfront, hfails⟩
          exact Or.inr ⟨c, hfirst, bind_eq_error_iff.mpr (Or.inl hrest)⟩

-- ── Loops that may find nothing ───────────────────────────────────────────────────

/-- A loop reads what was written item by item. -/
theorem mapM_map_eq_some {read : α → Option β} {write : β → α} {items : List β}
    (h : ∀ b ∈ items, read (write b) = some b) : (items.map write).mapM read = some items := by
  induction items with
  | nil => rfl
  | cons b items ih =>
      obtain ⟨hfirst, hothers⟩ := List.forall_mem_cons.mp h
      rw [List.map_cons, List.mapM_cons, hfirst, ih hothers]
      rfl

/-- A list of items is written as it was read, if each of them is. -/
theorem map_eq_of_mapM {read : α → Option β} {write : β → α} {P : β → Prop}
    {items : List α} {found : List β} (h : items.mapM read = some found)
    (hitem : ∀ a ∈ items, ∀ b, read a = some b → write b = a ∧ P b) :
    found.map write = items ∧ ∀ b ∈ found, P b := by
  induction items generalizing found with
  | nil =>
      cases h
      exact ⟨rfl, List.forall_mem_nil _⟩
  | cons a items ih =>
      obtain ⟨hfirst, hothers⟩ := List.forall_mem_cons.mp hitem
      rw [List.mapM_cons] at h
      obtain ⟨b, hb, h⟩ := Option.bind_eq_some_iff.mp h
      obtain ⟨rest, hrest, ⟨⟩⟩ := Option.bind_eq_some_iff.mp h
      obtain ⟨hwrite, hP⟩ := hfirst b hb
      obtain ⟨hmap, hall⟩ := ih hrest hothers
      exact ⟨congrArg₂ List.cons hwrite hmap, List.forall_mem_cons.mpr ⟨hP, hall⟩⟩

end SegmentWire
