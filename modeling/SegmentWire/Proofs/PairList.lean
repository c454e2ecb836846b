import SegmentWire.Proofs.MapCodec
import SegmentWire.Proofs.MessageCodec

/-!
# Pair lists — what a dictionary is

An insertion-ordered dictionary is a list of pairs and nothing else. This is the reference that
field maps are held against: every operation is said in one line, by a search through the list.

* **`PairList.exchange`**, **`PairList.withdraw`**, **`PairList.collect`** — insertion, removal, and
  insertion of many pairs.
* **`PairList.write`**, **`PairList.read`** — the wire form of a list of pairs.
* **`keys_collect`**, **`lookup_collect`** — pairs that are collected keep their keys in the order of
  the first occurrences, and their values of the last ones.
* **`PairMessage`** — a command with such a list in place of a map.
-/

namespace SegmentWire

/-- Pairs of a key and a field in order. -/
abbrev PairList := List (String × Field)

namespace PairList

variable {pairs front back : PairList} {key : String} {old : Field}

-- ── Operations ───────────────────────────────────────────────────────────────────

def keys (pairs : PairList) : List String := pairs.map Prod.fst

/-- Puts a value under a key and gives back the one that was there: in the place of a key that is
    there, at the end for a key that is not. -/
def exchange (pairs : PairList) (key : String) (value : Field) : Option Field × PairList :=
  match pairs.lookup key with
  | some old => (some old, pairs.map fun pair => if pair.1 = key then (key, value) else pair)
  | none => (none, pairs ++ [(key, value)])

/-- Takes the pair of a key out and gives back its value. -/
def withdraw (pairs : PairList) (key : String) : Option Field × PairList :=
  (pairs.lookup key, pairs.filter fun pair => pair.1 ≠ key)

/-- These pairs, inserted one after the other. -/
def collect (pairs : PairList) : PairList :=
  pairs.foldl (fun before pair => (exchange before pair.1 pair.2).2) []

/-- Writes an index with the number of pairs, and then every key and every value in order, unless a
    key is too long. -/
def write (pairs : PairList) : Writer Unit :=
  match pairs.find? fun pair => maxRegular < pair.1.utf8ByteSize with
  | some pair => throw (.keyTooLong pair.1.utf8ByteSize)
  | none =>
    (Segment.mapIndex (.ofNat pairs.length) :: pairs.flatMap FieldMap.pairSegments).forM
      Segment.write

/-- So many pairs, behind those read before. A key that is already there is refused. -/
def readMore : Nat → PairList → Reader PairList
  | 0, pairs => pure pairs
  | count + 1, pairs => do
    let key ← readKey
    let value ← readField
    if (pairs.lookup key).isSome then throw (.duplicateKey key)
    readMore count (pairs ++ [(key, value)])

/-- The pairs behind an index that states their number. -/
def read : Reader PairList := do
  let index ← readSegment
  let count ← (index.mapCount : Except WireError UInt64)
  checkContainer count.toNat
  readMore count.toNat []

-- ── A key and the pairs around it ────────────────────────────────────────────────

theorem lookup_cons (pair : String × Field) (pairs : PairList) (key : String) :
    (pair :: pairs).lookup key = if key = pair.1 then some pair.2 else pairs.lookup key := by
  rw [List.lookup_cons]
  split
  · next hkey => exact (if_pos (eq_of_beq hkey)).symm
  · next hkey => exact (if_neg (ne_of_beq_false hkey)).symm

theorem lookup_eq_none (h : key ∉ pairs.keys) : pairs.lookup key = none := by
  rw [List.lookup_eq_none_iff]
  intro pair hpair
  rw [bne_iff_ne]
  rintro rfl
  exact h (List.mem_map_of_mem hpair)

theorem lookup_split (h : key ∉ (front ++ back).keys) :
    (front ++ (key, old) :: back).lookup key = some old := by
  rw [keys, List.map_append, List.mem_append, not_or] at h
  rw [List.lookup_append, lookup_eq_none h.1, List.lookup_cons_self]
  rfl

theorem exchange_split (h : key ∉ (front ++ back).keys) (value : Field) :
    exchange (front ++ (key, old) :: back) key value =
      (some old, front ++ (key, value) :: back) := by
  have hothers : ∀ pair ∈ front ++ back, (if pair.1 = key then (key, value) else pair) = pair := by
    intro pair hpair
    refine if_neg ?_
    rintro rfl
    exact h (List.mem_map_of_mem hpair)
  rw [exchange, lookup_split h]
  simp only [List.map_append, List.map_cons, if_true]
  rw [List.map_congr_left fun pair hpair => hothers pair (List.mem_append_left _ hpair),
    List.map_congr_left fun pair hpair => hothers pair (List.mem_append_right _ hpair),
    List.map_id', List.map_id']

theorem withdraw_split (h : key ∉ (front ++ back).keys) :
    withdraw (front ++ (key, old) :: back) key = (some old, front ++ back) := by
  have hothers : (front ++ back).filter (fun pair => pair.1 ≠ key) = front ++ back := by
    rw [List.filter_eq_self]
    intro pair hpair
    rw [decide_eq_true_iff]
    rintro rfl
    exact h (List.mem_map_of_mem hpair)
  rw [List.filter_append] at hothers
  rw [withdraw, lookup_split h, List.filter_append, List.filter_cons_of_neg (by simp), hothers]

-- ── Collected pairs ──────────────────────────────────────────────────────────────

/-- After an insertion the key is there, once. -/
theorem keys_exchange (pairs : PairList) (key : String) (value : Field) :
    (exchange pairs key value).2.keys =
      if key ∈ pairs.keys then pairs.keys else pairs.keys ++ [key] := by
  rw [exchange]
  split
  · next old hlookup =>
    have hmem : key ∈ pairs.keys := by
      by_contra habsent
      rw [lookup_eq_none habsent] at hlookup
      cases hlookup
    rw [if_pos hmem, keys, List.map_map]
    refine List.map_congr_left fun pair _ => ?_
    show (if pair.1 = key then (key, value) else pair).1 = pair.1
    split
    · next hkey => exact hkey.symm
    · rfl
  · next hlookup =>
    have habsent : key ∉ pairs.keys := by
      intro hmem
      obtain ⟨pair, hpair, rfl⟩ := List.mem_map.mp hmem
      exact bne_iff_ne.mp (List.lookup_eq_none_iff.mp hlookup pair hpair) rfl
    rw [if_neg habsent, keys, List.map_append]
    rfl

theorem lookup_replace (pairs : PairList) (key : String) (value : Field) (other : String) :
    (pairs.map fun pair => if pair.1 = key then (key, value) else pair).lookup other =
      if other = key then (pairs.lookup key).map fun _ => value else pairs.lookup other := by
  induction pairs with
  | nil => simp
  | cons pair pairs ih =>
      rw [List.map_cons, lookup_cons, lookup_cons, lookup_cons, ih]
      by_cases hkey : pair.1 = key
      · subst hkey
        by_cases hother : other = pair.1
        · simp [hother]
        · simp [hother]
      · rw [if_neg hkey]
        by_cases hother : other = key
        · subst hother
          simp [Ne.symm hkey]
        · rw [if_neg hother, if_neg hother]

/-- An insertion changes what is found under its key, and under no other. -/
theorem lookup_exchange (pairs : PairList) (key : String) (value : Field) (other : String) :
    (exchange pairs key value).2.lookup other =
      if other = key then some value else pairs.lookup other := by
  rw [exchange]
  split
  · next old hlookup =>
    rw [lookup_replace, hlookup]
    rfl
  · next hlookup =>
    rw [List.lookup_append, lookup_cons, List.lookup_nil]
    by_cases hother : other = key
    · subst hother
      simp [hlookup]
    · simp [hother]

theorem collect_concat (pairs : PairList) (pair : String × Field) :
    collect (pairs ++ [pair]) = (exchange (collect pairs) pair.1 pair.2).2 := by
  rw [collect, List.foldl_append]
  rfl

/-- **Collected pairs have each key once, in the order of the first occurrences.** -/
theorem keys_collect (pairs : PairList) : (collect pairs).keys = pairs.keys.eraseDups := by
  induction pairs using List.reverseRecOn with
  | nil => rfl
  | append_singleton pairs pair ih =>
      have hkeys : keys (pairs ++ [pair]) = keys pairs ++ [pair.1] := List.map_append
      rw [collect_concat, keys_exchange, ih, hkeys, List.eraseDups_append]
      by_cases hmem : pair.1 ∈ keys pairs
      · rw [if_pos (List.mem_eraseDups.mpr hmem)]
        simp [List.removeAll, hmem]
      · rw [if_neg (mt List.mem_eraseDups.mp hmem)]
        simp [List.removeAll, hmem, List.eraseDups_cons]

/-- **Under each key stands the value of its last occurrence.** -/
theorem lookup_collect (pairs : PairList) (key : String) :
    (collect pairs).lookup key = pairs.reverse.lookup key := by
  induction pairs using List.reverseRecOn with
  | nil => rfl
  | append_singleton pairs pair ih =>
      rw [collect_concat, lookup_exchange, ih, List.reverse_concat, lookup_cons]

example (f g : Field) : collect [("a", f), ("b", f), ("a", g)] = [("a", g), ("b", f)] := by rfl

end PairList

-- ── Messages ─────────────────────────────────────────────────────────────────────

/-- A command and its attachments as a list. -/
structure PairMessage where
  command : String
  attachments : PairList

namespace PairMessage

def attachment (m : PairMessage) (name : String) : Except WireError Field :=
  match m.attachments.lookup name with
  | some field => .ok field
  | none => .error (.notFound name)

/-- Writes the start marker, the command, the attachments and the end marker. -/
def write (m : PairMessage) : Writer Unit := do
  writeStart
  (Segment.ofText m.command).write
  m.attachments.write
  writeEnd (2 + 2 * m.attachments.length)

/-- One message, with its attachments as a list. -/
def read : Reader PairMessage := do
  readStart
  let command ← readCommand
  let attachments ← PairList.read
  let marker ← readSegment
  (checkEnd marker (2 + 2 * attachments.length) : Except WireError Unit)
  return ⟨command, attachments⟩

end PairMessage

end SegmentWire
