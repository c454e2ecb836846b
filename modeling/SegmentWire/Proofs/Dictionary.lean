import Mathlib.Data.List.Nodup
import Mathlib.Data.String.Basic
import SegmentWire.FieldMap

/-!
# Field maps as dictionaries

The pairs of a map and its position index carry the same information twice. As long as they
agree (`FieldMap.Indexed`), the pairs alone determine the map.

* **`Indexed.insert_of_absent`** — appending a pair with a new key keeps the agreement; so any pairs
  with distinct keys are the pairs of a map, **`ofList_of_nodup`**.
* **`Indexed.keys_nodup`**, **`Indexed.get?_eq_some_iff`** — no key stands twice, and a lookup gives
  exactly what stands among the pairs.
* **`Indexed.eq_of_entries_eq`** — maps with the same pairs are the same in every respect.
* **`Indexed.exchange`**, **`Indexed.withdraw`** — insertions and removals keep the agreement;
  **`exchange_of_split`** and **`withdraw_of_split`** say what they do around the place of a key.
-/

namespace SegmentWire

namespace FieldMap

variable {m : FieldMap}

/-- The pairs and the index of the map without pairs agree. -/
theorem indexed_empty : Indexed empty := by
  intro key place
  show (∅ : Std.ExtHashMap String Nat)[key]? = some place ↔ _
  rw [Std.ExtHashMap.getElem?_empty]
  constructor <;> rintro ⟨⟩

theorem getElem?_keys (m : FieldMap) (place : Nat) :
    m.keys[place]? = (m.entries[place]?).map Prod.fst := by
  rw [keys, List.getElem?_map, Array.getElem?_toList]

/-- A key is found exactly if it stands among the pairs. -/
theorem Indexed.contains_iff (h : m.Indexed) {key : String} :
    m.contains key = true ↔ key ∈ m.keys := by
  show (m.positions[key]?).isSome = true ↔ _
  rw [Option.isSome_iff_exists, List.mem_iff_getElem?]
  exact exists_congr fun place => by rw [h key place, getElem?_keys]

/-- No key stands twice. -/
theorem Indexed.keys_nodup (h : m.Indexed) : m.keys.Nodup := by
  rw [List.nodup_iff_getElem?_ne_getElem?]
  intro i j hij hj heq
  have hkey : m.keys[j]? = some m.keys[j] := List.getElem?_eq_getElem hj
  -- the index would have to give both places to the one key
  have hi := (h m.keys[j] i).mpr (by rw [← getElem?_keys, heq, hkey])
  have hj := (h m.keys[j] j).mpr (by rw [← getElem?_keys, hkey])
  rw [hi] at hj
  exact absurd (Option.some.inj hj) (Nat.ne_of_lt hij)

/-- A lookup of a key with a place gives the value there. -/
theorem get?_of_position? {key : String} {place : Nat} (h : m.position? key = some place) :
    m.get? key = (m.entries[place]?).map Prod.snd := by
  rw [get?, h]

/-- **A lookup gives what stands among the pairs.** -/
theorem Indexed.get?_eq_some_iff (h : m.Indexed) {key : String} {value : Field} :
    m.get? key = some value ↔ (key, value) ∈ m.entries.toList := by
  rw [List.mem_iff_getElem?]
  constructor
  · intro hget
    cases hplace : m.position? key with
    | none =>
        rw [get?, hplace] at hget
        cases hget
    | some place =>
        have hkey := (h key place).mp hplace
        rw [get?_of_position? hplace] at hget
        refine ⟨place, ?_⟩
        rw [Array.getElem?_toList]
        cases hpair : m.entries[place]? with
        | none =>
            rw [hpair] at hkey
            cases hkey
        | some pair =>
            rw [hpair] at hkey hget
            cases hkey
            cases hget
            rfl
  · rintro ⟨place, hpair⟩
    rw [Array.getElem?_toList] at hpair
    have hplace : m.position? key = some place := (h key place).mpr (by rw [hpair]; rfl)
    rw [get?_of_position? hplace, hpair]
    rfl

theorem position?_of_absent {key : String} (h : m.contains key = false) :
    m.position? key = none :=
  Option.isNone_iff_eq_none.mp (Option.isSome_eq_false_iff.mp h)

/-- A new key goes to the end. -/
theorem entries_insert_of_absent {key : String} (h : m.contains key = false) (value : Field) :
    (m.insert key value).entries = m.entries.push (key, value) := by
  rw [insert, exchange, position?_of_absent h]

/-- Appending a pair with a new key keeps the agreement. -/
theorem Indexed.insert_of_absent (h : m.Indexed) {key : String} (habsent : m.contains key = false)
    (value : Field) : (m.insert key value).Indexed := by
  intro other place
  have hpositions : (m.insert key value).positions = m.positions.insert key m.entries.size := by
    rw [insert, exchange, position?_of_absent habsent]
  rw [hpositions, entries_insert_of_absent habsent, Std.ExtHashMap.getElem?_insert,
    Array.getElem?_push]
  have hnone : m.positions[key]? = none := position?_of_absent habsent
  by_cases hkey : key = other
  · subst hkey
    rw [if_pos (beq_self_eq_true key)]
    by_cases hplace : place = m.entries.size
    · rw [if_pos hplace, hplace]
      exact ⟨fun _ => rfl, fun _ => rfl⟩
    · rw [if_neg hplace, ← h key place, hnone]
      constructor
      · intro hsome
        exact absurd (Option.some.inj hsome).symm hplace
      · rintro ⟨⟩
  · rw [if_neg (by rwa [beq_iff_eq])]
    by_cases hplace : place = m.entries.size
    · rw [if_pos hplace, h other place, hplace, Array.getElem?_size]
      constructor
      · rintro ⟨⟩
      · intro hsome
        exact absurd (Option.some.inj hsome) hkey
    · rw [if_neg hplace]
      exact h other place

/-- A key is absent if it can stand behind the keys of the map. -/
theorem Indexed.absent_of_nodup (h : m.Indexed) {key : String} {others : List String}
    (hkeys : (m.keys ++ key :: others).Nodup) : m.contains key = false := by
  rw [Bool.eq_false_iff]
  intro hcontains
  exact (List.nodup_append.mp hkeys).2.2 key (h.contains_iff.mp hcontains) key
    List.mem_cons_self rfl

/-- A key that stands behind the pairs of another map is absent from that map. -/
theorem Indexed.absent_of_append {m' : FieldMap} (h : m.Indexed) (h' : m'.Indexed)
    {pair : String × Field} {pairs : List (String × Field)}
    (hentries : m.entries.toList = m'.entries.toList ++ pair :: pairs) :
    m'.contains pair.1 = false := by
  have hkeys : m.keys = m'.keys ++ pair.1 :: pairs.map Prod.fst := by
    rw [keys, hentries, List.map_append, List.map_cons]
    rfl
  exact h'.absent_of_nodup (hkeys ▸ h.keys_nodup)

/-- Inserting pairs with new and distinct keys appends them. -/
theorem Indexed.foldl_insert (h : m.Indexed) {pairs : List (String × Field)}
    (hkeys : (m.keys ++ pairs.map Prod.fst).Nodup) :
    (pairs.foldl (fun m pair => m.insert pair.1 pair.2) m).Indexed ∧
      (pairs.foldl (fun m pair => m.insert pair.1 pair.2) m).entries.toList =
        m.entries.toList ++ pairs := by
  induction pairs generalizing m with
  | nil => exact ⟨h, (List.append_nil _).symm⟩
  | cons pair pairs ih =>
      have habsent : m.contains pair.1 = false := h.absent_of_nodup hkeys
      have hinsert : (m.insert pair.1 pair.2).entries.toList = m.entries.toList ++ [pair] := by
        rw [entries_insert_of_absent habsent, Array.toList_push]
      have hkeys' : ((m.insert pair.1 pair.2).keys ++ pairs.map Prod.fst).Nodup := by
        rw [keys, hinsert, List.map_append, List.append_assoc]
        exact hkeys
      obtain ⟨hindexed, hentries⟩ := ih (h.insert_of_absent habsent pair.2) hkeys'
      rw [hinsert, List.append_assoc] at hentries
      exact ⟨hindexed, hentries⟩

/-- **Any pairs with distinct keys are the pairs of a map.** -/
theorem ofList_of_nodup {pairs : List (String × Field)} (hkeys : (pairs.map Prod.fst).Nodup) :
    (ofList pairs).Indexed ∧ (ofList pairs).entries.toList = pairs :=
  indexed_empty.foldl_insert hkeys

theorem entries_ofList_singleton (key : String) (value : Field) :
    (ofList [(key, value)]).entries.toList = [(key, value)] := by
  have hkeys : ([(key, value)].map Prod.fst).Nodup := List.nodup_singleton key
  exact (ofList_of_nodup hkeys).2

/-- Maps with the same pairs are the same, their indices included. -/
theorem Indexed.eq_of_entries_eq {m' : FieldMap} (h : m.Indexed) (h' : m'.Indexed)
    (hentries : m.entries = m'.entries) : m = m' := by
  have hpositions : m.positions = m'.positions := by
    refine Std.ExtHashMap.ext_getElem? fun key => Option.ext fun place => ?_
    rw [h key place, h' key place, hentries]
  obtain ⟨entries, positions⟩ := m
  obtain ⟨entries', positions'⟩ := m'
  obtain rfl : entries = entries' := hentries
  obtain rfl : positions = positions' := hpositions
  rfl

-- ── Replacing and taking out ─────────────────────────────────────────────────────

variable {key : String} {old : Field} {front back : List (String × Field)}

/-- The place of a key splits the pairs: the key stands there, and no other pair has it. -/
theorem Indexed.split (h : m.Indexed) {place : Nat} (hplace : m.position? key = some place) :
    ∃ front old back, m.entries.toList = front ++ (key, old) :: back ∧ front.length = place ∧
      key ∉ (front ++ back).map Prod.fst := by
  obtain ⟨pair, hpair, rfl⟩ := Option.map_eq_some_iff.mp ((h key place).mp hplace)
  rw [← Array.getElem?_toList] at hpair
  obtain ⟨hlt, hget⟩ := List.getElem?_eq_some_iff.mp hpair
  have hsplit : m.entries.toList =
      m.entries.toList.take place ++ pair :: m.entries.toList.drop (place + 1) := by
    rw [← hget, List.getElem_cons_drop, List.take_append_drop]
  refine ⟨_, pair.2, _, hsplit, List.length_take_of_le (Nat.le_of_lt hlt), ?_⟩
  have hkeys := h.keys_nodup
  rw [keys, hsplit, List.map_append, List.map_cons, List.nodup_middle, List.nodup_cons,
    ← List.map_append] at hkeys
  exact hkeys.1

theorem getElem?_of_split (hsplit : m.entries.toList = front ++ (key, old) :: back) :
    m.entries[front.length]? = some (key, old) := by
  rw [← Array.getElem?_toList, hsplit, List.getElem?_append_right (Nat.le_refl _), Nat.sub_self]
  rfl

/-- An insertion under a present key gives back the old value and puts the new one in its place. -/
theorem exchange_of_split (hplace : m.position? key = some front.length)
    (hsplit : m.entries.toList = front ++ (key, old) :: back) (value : Field) :
    (m.exchange key value).1 = some old ∧
      (m.exchange key value).2.entries.toList = front ++ (key, value) :: back := by
  rw [exchange, hplace]
  constructor
  · show (m.entries[front.length]?).map Prod.snd = some old
    rw [getElem?_of_split hsplit]
    rfl
  · show (m.entries.modify front.length _).toList = _
    rw [Array.toList_modify, hsplit, List.modify_eq_take_drop, List.take_left, List.drop_left]
    rfl

/-- Taking out a present key gives back its value and closes the hole. -/
theorem withdraw_of_split (hplace : m.position? key = some front.length)
    (hsplit : m.entries.toList = front ++ (key, old) :: back) :
    (m.withdraw key).1 = some old ∧ (m.withdraw key).2.entries.toList = front ++ back := by
  rw [withdraw, hplace]
  constructor
  · show (m.entries[front.length]?).map Prod.snd = some old
    rw [getElem?_of_split hsplit]
    rfl
  · show (m.entries.eraseIdxIfInBounds front.length).toList = _
    rw [Array.toList_eraseIdxIfInBounds, hsplit, List.eraseIdx_append_of_length_le (Nat.le_refl _),
      Nat.sub_self]
    rfl

/-- **Insertions keep the agreement of pairs and index**, whether or not the key is present. -/
theorem Indexed.exchange (h : m.Indexed) (key : String) (value : Field) :
    (m.exchange key value).2.Indexed := by
  cases hplace : m.position? key with
  | none => exact h.insert_of_absent (by rw [contains, hplace]; rfl) value
  | some place =>
      intro other i
      rw [FieldMap.exchange, hplace]
      show m.positions[other]? = some i ↔
        ((m.entries.modify place fun pair => (pair.1, value))[i]?).map Prod.fst = some other
      -- the keys of the pairs are the same as before
      rw [h other i, Array.getElem?_modify]
      split
      · rw [Option.map_map]
        rfl
      · rfl

/-- Keys in front of the hole keep their places. -/
theorem getElem?_moveUp_of_not_mem {pairs : List (String × Field)} {key : String}
    (h : key ∉ pairs.map Prod.fst) (positions : Std.ExtHashMap String Nat) :
    (moveUp positions pairs)[key]? = positions[key]? := by
  induction pairs generalizing positions with
  | nil => rfl
  | cons pair pairs ih =>
      rw [List.map_cons, List.mem_cons, not_or] at h
      show (moveUp (positions.modify pair.1 (· - 1)) pairs)[key]? = _
      rw [ih h.2, Std.ExtHashMap.getElem?_modify, if_neg]
      rw [beq_iff_eq]
      exact Ne.symm h.1

/-- Keys behind the hole move up by one place, each of them once. -/
theorem getElem?_moveUp_of_mem {pairs : List (String × Field)} {key : String}
    (hkeys : (pairs.map Prod.fst).Nodup) (h : key ∈ pairs.map Prod.fst)
    (positions : Std.ExtHashMap String Nat) :
    (moveUp positions pairs)[key]? = (positions[key]?).map (· - 1) := by
  induction pairs generalizing positions with
  | nil => cases h
  | cons pair pairs ih =>
      obtain ⟨hpair, hkeys⟩ := List.nodup_cons.mp hkeys
      show (moveUp (positions.modify pair.1 (· - 1)) pairs)[key]? = _
      rcases List.mem_cons.mp h with rfl | hmem
      · rw [getElem?_moveUp_of_not_mem hpair, Std.ExtHashMap.getElem?_modify,
          if_pos (beq_self_eq_true _)]
      · have hne : pair.1 ≠ key := by
          rintro rfl
          exact hpair hmem
        rw [ih hkeys hmem, Std.ExtHashMap.getElem?_modify, if_neg (by rwa [beq_iff_eq])]

/-- What does not stand in the back of a list stands where it stands in the front. -/
theorem getElem?_append_of_not_mem {α : Type} {front back : List α} {a : α} (h : a ∉ back)
    (i : Nat) : (front ++ back)[i]? = some a ↔ front[i]? = some a := by
  rw [List.getElem?_append]
  split
  · rfl
  · next hlt =>
    rw [List.getElem?_eq_none (Nat.not_lt.mp hlt)]
    exact ⟨fun hsome => absurd (List.mem_of_getElem? hsome) h, nofun⟩

/-- Without the element in the middle, what stands behind it stands one place further in front. -/
theorem exists_place_of_mem_back {α : Type} (front : List α) (a : α) {back : List α} {b : α}
    (h : b ∈ back) :
    ∃ place, (front ++ a :: back)[place + 1]? = some b ∧ (front ++ back)[place]? = some b := by
  obtain ⟨j, hj⟩ := List.mem_iff_getElem?.mp h
  refine ⟨front.length + j, ?_, ?_⟩
  · rw [List.getElem?_append_right (by omega),
      show front.length + j + 1 - front.length = j + 1 by omega]
    exact hj
  · rw [List.getElem?_append_right (Nat.le_add_right _ _), Nat.add_sub_cancel_left]
    exact hj

/-- **Removals keep the agreement of pairs and index**: closing the hole moves the pairs behind it,
    and their places with them. -/
theorem Indexed.withdraw (h : m.Indexed) (key : String) : (m.withdraw key).2.Indexed := by
  cases hplace : m.position? key with
  | none =>
      rw [FieldMap.withdraw, hplace]
      exact h
  | some place =>
      obtain ⟨front, old, back, hsplit, rfl, hkey⟩ := h.split hplace
      have hentries := (withdraw_of_split hplace hsplit).2
      have hpositions : (m.withdraw key).2.positions = moveUp (m.positions.erase key) back := by
        have hdrop : (m.withdraw key).2.positions = moveUp (m.positions.erase key)
            ((m.withdraw key).2.entries.toList.drop front.length) := by
          rw [FieldMap.withdraw, hplace]
        rw [hdrop, hentries, List.drop_left]
      have hkeys : (front.map Prod.fst ++ key :: back.map Prod.fst).Nodup := by
        have hnodup := h.keys_nodup
        rwa [keys, hsplit, List.map_append] at hnodup
      have hkeys' := (List.nodup_cons.mp (List.nodup_middle.mp hkeys)).2
      have hold : ∀ (other : String) (i : Nat), m.positions[other]? = some i ↔
          (front.map Prod.fst ++ key :: back.map Prod.fst)[i]? = some other := by
        intro other i
        rw [h other i, ← getElem?_keys, keys, hsplit, List.map_append, List.map_cons]
      intro other i
      rw [hpositions, ← getElem?_keys, keys, hentries, List.map_append]
      rw [List.map_append] at hkey
      by_cases hback : other ∈ back.map Prod.fst
      · -- a key behind the hole: its place was one further back
        obtain ⟨place, hbefore, hafter⟩ :=
          exists_place_of_mem_back (front.map Prod.fst) key hback
        have hne : (key == other) = false := by
          rw [beq_eq_false_iff_ne]
          rintro rfl
          exact hkey (List.mem_append_right _ hback)
        rw [getElem?_moveUp_of_mem (List.nodup_append.mp hkeys').2.1 hback,
          Std.ExtHashMap.getElem?_erase, hne, if_neg Bool.false_ne_true, (hold _ _).mpr hbefore]
        constructor
        · intro hi
          obtain rfl : place = i := Option.some.inj hi
          exact hafter
        · intro hi
          have hlt := (List.getElem?_eq_some_iff.mp hafter).1
          rw [← (List.getElem?_inj hlt hkeys').mp (hafter.trans hi.symm)]
          rfl
      · rw [getElem?_moveUp_of_not_mem hback, Std.ExtHashMap.getElem?_erase,
          getElem?_append_of_not_mem hback]
        by_cases heq : key = other
        · subst heq
          rw [if_pos (beq_self_eq_true key)]
          exact ⟨nofun, fun hi => absurd (List.mem_append_left _ (List.mem_of_getElem? hi)) hkey⟩
        · -- a key in front of the hole stays where it is
          rw [if_neg (by rwa [beq_iff_eq]), hold]
          refine getElem?_append_of_not_mem ?_ i
          rw [List.mem_cons, not_or]
          exact ⟨Ne.symm heq, hback⟩

end FieldMap

end SegmentWire
