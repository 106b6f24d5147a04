import Datacube.Cells.Cache
import Datacube.Proofs.Lists

/-!
# Lookups in the values of a result

A result is read row by row, and a row replaces what was read before under the same key.  So a
lookup answers with the last row that has the names in its key columns, and with nothing if there
is no such row, if the value is empty, or if there is no such measure.  Whether rows are addressed
by their keys or by hashes of them makes no difference as long as the hashes do not collide.

## Main definitions

* `CellCache.keyOfRow` — the lexical values of the key columns of a row.
* `CellCache.IsLast` — whether a row is the last one with a key.
* `CellCache.getHashed?` — the value of a measure, where rows are addressed by hashes.

## Main results

* `CellCache.ofResult_eq_ok_iff` — when a result is read.
* `CellCache.find?_rows_eq_some_iff` — **the last row with a key is found**.
* `CellCache.get?_last_row` — **lookups in the values of a result**.
-/

namespace Datacube

/-- **The last element with a key is found** if a list is searched from its end. -/
theorem find?_reverse_key_eq_some_iff {α β : Type} [BEq β] [LawfulBEq β] {key : α → β}
    {as : List α} {a : α} {b : β} : (as.reverse.find? fun x => key x == b) = some a ↔
      ∃ before after, as = before ++ a :: after ∧ key a = b ∧ ∀ x ∈ after, key x ≠ b := by
  rw [List.find?_eq_some_iff_append]
  simp only [beq_iff_eq, Bool.not_eq_true', beq_eq_false_iff_ne]
  constructor
  · rintro ⟨hkey, after, before, has, hafter⟩
    refine ⟨before.reverse, after.reverse, ?_, hkey, ?_⟩
    · rw [← List.reverse_reverse as, has, List.reverse_append, List.reverse_cons,
        List.append_assoc, List.singleton_append]
    · exact fun x hx => hafter x (List.mem_reverse.1 hx)
  · rintro ⟨before, after, rfl, hkey, hafter⟩
    refine ⟨hkey, after.reverse, before.reverse, ?_, ?_⟩
    · rw [List.reverse_append, List.reverse_cons, List.append_assoc, List.singleton_append]
    · exact fun x hx => hafter x (List.mem_reverse.1 hx)

namespace CellCache

/-! ### Rows and their keys -/

/-- The key of a row: the lexical values of its first `keys` columns. -/
def keyOfRow (keys : Nat) (row : List Term) : CellKey := (row.take keys).map Term.value

/-- Whether a row is the last one with the given names in its first `keys` columns. -/
def IsLast (keys : Nat) (names : CellKey) (rows : List (List Term)) (row : List Term) : Prop :=
  ∃ before after, rows = before ++ row :: after ∧ keyOfRow keys row = names
    ∧ ∀ later ∈ after, keyOfRow keys later ≠ names

/-- The value of a measure in the cell whose key has the given hash, where rows are addressed by
the hashes of their keys. -/
def getHashed? {κ : Type} [DecidableEq κ] (hash : CellKey → κ) (c : CellCache) (code : κ)
    (measure : Nat) : Option CellValue := do
  let (_, values) ← c.rows.reverse.find? fun (k, _) => hash k == code
  (← values[measure]?)

variable {keys measures : Nat} {names : CellKey} {row : List Term}

theorem fst_entry (keys measures : Nat) (row : List Term) :
    (entry keys measures row).1 = keyOfRow keys row := List.map_take.symm

/-- The value that is kept of a column of a row. -/
theorem snd_entry_getElem? (keys measures : Nat) (row : List Term) (measure : Nat) :
    (entry keys measures row).2[measure]?
      = if measure < measures then row[keys + measure]?.map fun t => valueOf? t.value
        else none := by
  rw [entry, List.getElem?_map, List.getElem?_take]
  split
  · rw [List.getElem?_drop, List.getElem?_map, Option.map_map]
    rfl
  · rfl

theorem valueOf?_eq_some_iff {s : String} {v : CellValue} :
    valueOf? s = some v ↔ s ≠ "" ∧ v = ⟨s, displayValue s⟩ := by
  rw [valueOf?]
  split
  · rename_i h
    exact iff_of_false nofun fun h' => h'.1 h
  · rename_i h
    rw [Option.some.injEq, eq_comm]
    exact (and_iff_right h).symm

/-! ### Reading a result -/

variable {result : RowSet} {cache : CellCache}

/-- **When a result is read**: if it has no row, or enough columns. -/
theorem ofResult_eq_ok_iff : ofResult result keys measures = .ok cache ↔
    (result.rows = [] ∨ keys + measures ≤ result.columns.length)
      ∧ cache = ⟨result.rows.map (entry keys measures)⟩ := by
  have hshort : (∃ pair ∈ result.rows.zipIdx, pair.1.length < keys + measures) ↔
      ¬(result.rows = [] ∨ keys + measures ≤ result.columns.length) := by
    rw [not_or, Nat.not_le]
    constructor
    · rintro ⟨⟨row, index⟩, hmem, hlt⟩
      have hrow := List.fst_mem_of_mem_zipIdx hmem
      exact ⟨List.ne_nil_of_mem hrow, result.width_eq row hrow ▸ hlt⟩
    · rintro ⟨hne, hlt⟩
      obtain ⟨row, rest, hrows⟩ := List.exists_cons_of_ne_nil hne
      refine ⟨(row, 0), ?_, ?_⟩
      · rw [hrows]
        exact List.mem_cons_self
      · rw [result.width_eq row (hrows ▸ List.mem_cons_self)]
        exact hlt
  rw [ofResult]
  split
  · rename_i row index hfind
    have hmem := List.mem_of_find?_eq_some hfind
    have hlt := List.find?_some (p := fun pair : List Term × Nat =>
      decide (pair.1.length < keys + measures)) hfind
    exact iff_of_false nofun fun h => hshort.1 ⟨_, hmem, of_decide_eq_true hlt⟩ h.1
  · rename_i hnone
    have hwide : result.rows = [] ∨ keys + measures ≤ result.columns.length := by
      by_contra hnot
      obtain ⟨pair, hmem, hlt⟩ := hshort.2 hnot
      exact List.find?_eq_none.1 hnone pair hmem (decide_eq_true hlt)
    rw [Except.ok.injEq, eq_comm]
    exact (and_iff_right hwide).symm

/-- A result that is not read has the wrong width. -/
theorem ofResult_eq_error_iff : (∃ reason, ofResult result keys measures
    = .error (.malformedResult reason)) ↔
      result.rows ≠ [] ∧ result.columns.length < keys + measures := by
  rw [← Nat.not_le, ← not_or]
  constructor
  · rintro ⟨reason, h⟩ hwide
    have hok := ofResult_eq_ok_iff.2 ⟨hwide, rfl⟩
    rw [h] at hok
    cases hok
  · intro hnot
    cases h : ofResult result keys measures with
    | ok cache => exact absurd (ofResult_eq_ok_iff.1 h).1 hnot
    | error e =>
      rw [ofResult] at h
      split at h
      · cases h
        exact ⟨_, rfl⟩
      · cases h

/-! ### Lookups -/

/-- **The last row with a key is found.** -/
theorem find?_rows_eq_some_iff {rows : List (List Term)}
    {found : CellKey × List (Option CellValue)} :
    ((rows.map (entry keys measures)).reverse.find? fun (k, _) => k == names) = some found ↔
      ∃ row, IsLast keys names rows row ∧ entry keys measures row = found := by
  have hfind : ((rows.map (entry keys measures)).reverse.find? fun (k, _) => k == names)
      = (rows.reverse.find? fun row => keyOfRow keys row == names).map (entry keys measures) := by
    rw [← List.map_reverse, List.find?_map]
    congr 2
    funext row
    rw [Function.comp_apply, ← fst_entry keys measures]
  rw [hfind, Option.map_eq_some_iff]
  simp only [find?_reverse_key_eq_some_iff, IsLast]

/-- A lookup by hashes finds the same row if the hash of the names is that of no other key. -/
theorem getHashed?_eq_get? {rows : List (List Term)} {κ : Type} [DecidableEq κ]
    {hash : CellKey → κ}
    (hhash : ∀ row ∈ rows, hash (keyOfRow keys row) = hash names → keyOfRow keys row = names)
    (measure : Nat) :
    (CellCache.mk (rows.map (entry keys measures))).getHashed? hash (hash names) measure
      = (CellCache.mk (rows.map (entry keys measures))).get? names measure := by
  have hfind : ((rows.map (entry keys measures)).reverse.find? fun (k, _) => hash k == hash names)
      = (rows.map (entry keys measures)).reverse.find? fun (k, _) => k == names := by
    rw [← List.head?_filter, ← List.head?_filter]
    refine congrArg List.head? (List.filter_congr fun pair hpair => ?_)
    obtain ⟨row, hrow, rfl⟩ := List.mem_map.1 (List.mem_reverse.1 hpair)
    rw [Bool.eq_iff_iff, beq_iff_eq, beq_iff_eq, fst_entry]
    exact ⟨hhash row hrow, congrArg hash⟩
  rw [getHashed?, get?, hfind]

/-- **Lookups in the values of a result.**  A result is refused if and only if it has a row and
fewer columns than there are keys and measures.  Otherwise a measure has a value in a cell if and
only if some row is the last one with the key of the cell, the measure is one of those that are
read, and its column in that row is not empty; the value is what stands there, shown as a number if
it looks like one.  The same value is found by a hash of the key that differs from the hashes of
all other keys. -/
theorem get?_last_row (result : RowSet) (keys measures : Nat) :
    ((∃ reason, ofResult result keys measures = .error (.malformedResult reason)) ↔
      result.rows ≠ [] ∧ result.columns.length < keys + measures)
    ∧ (¬(result.rows ≠ [] ∧ result.columns.length < keys + measures) → ∃ cache,
      ofResult result keys measures = .ok cache ∧ ∀ names measure,
        (∀ v, cache.get? names measure = some v ↔ ∃ row t, IsLast keys names result.rows row
          ∧ measure < measures ∧ row[keys + measure]? = some t ∧ t.value ≠ ""
          ∧ v = ⟨t.value, displayValue t.value⟩)
        ∧ ∀ (κ : Type) [DecidableEq κ] (hash : CellKey → κ),
          (∀ row ∈ result.rows, hash (keyOfRow keys row) = hash names →
            keyOfRow keys row = names) →
          cache.getHashed? hash (hash names) measure = cache.get? names measure) := by
  refine ⟨ofResult_eq_error_iff, fun hwide => ?_⟩
  rw [← Nat.not_le, ← not_or, not_not] at hwide
  refine ⟨_, ofResult_eq_ok_iff.2 ⟨hwide, rfl⟩, ?_⟩
  intro names measure
  refine ⟨fun v => ?_, fun κ _ hash hhash => getHashed?_eq_get? hhash measure⟩
  have hget : (CellCache.mk (result.rows.map (entry keys measures))).get? names measure = some v ↔
      ∃ found, ((result.rows.map (entry keys measures)).reverse.find? fun (k, _) => k == names)
          = some found ∧ found.2[measure]? = some (some v) := by
    rw [get?]
    simp only [Option.bind_eq_bind, Option.bind_eq_some_iff, exists_eq_right]
  rw [hget]
  simp only [find?_rows_eq_some_iff]
  constructor
  · rintro ⟨_, ⟨row, hlast, rfl⟩, hvalue⟩
    rw [snd_entry_getElem?] at hvalue
    split at hvalue
    · rename_i hlt
      obtain ⟨t, ht, hvalue⟩ := Option.map_eq_some_iff.1 hvalue
      obtain ⟨hne, rfl⟩ := valueOf?_eq_some_iff.1 hvalue
      exact ⟨row, t, hlast, hlt, ht, hne, rfl⟩
    · cases hvalue
  · rintro ⟨row, t, hlast, hlt, ht, hne, rfl⟩
    refine ⟨_, ⟨row, hlast, rfl⟩, ?_⟩
    rw [snd_entry_getElem?, if_pos hlt, ht]
    exact congrArg some (valueOf?_eq_some_iff.2 ⟨hne, rfl⟩)

/-- Amounts and counts by year and country, where a year occurs twice.  Resources, blank nodes and
literals of any kind are the same to a lookup. -/
def yearly : RowSet where
  columns := ["[Time].[Year]", "[Geo].[Country]", "[Measures].[Amount]", "[Measures].[Count]"]
  rows := [
    [.simple "ab", .simple "c", .typed "3.14159" xsdDouble, .simple "2"],
    [.iri "http://example.org/2020", .blank "AT", .simple "1", .simple ""],
    [.simple "a", .simple "bc", .simple "7", .simple "8"],
    [.simple "http://example.org/2020", .tagged "AT" "en", .typed "42" xsdInteger, .simple ""]]
  width_eq := by decide

/-- The last row of a year counts, its empty value is absent, and keys are not run together.  The
lengths of names tell the keys apart. -/
theorem get?_last_row_yearly :
    ¬(yearly.rows ≠ [] ∧ yearly.columns.length < 2 + 2) ∧ ∃ cache,
      ofResult yearly 2 2 = .ok cache
      ∧ cache.get? ["http://example.org/2020", "AT"] 0 = some ⟨"42", displayValue "42"⟩
      ∧ (∀ v, cache.get? ["http://example.org/2020", "AT"] 1 ≠ some v)
      ∧ cache.get? ["ab", "c"] 0 = some ⟨"3.14159", displayValue "3.14159"⟩
      ∧ cache.getHashed? (List.map String.length) [1, 2] 1 = some ⟨"8", displayValue "8"⟩ := by
  have hwide : ¬(yearly.rows ≠ [] ∧ yearly.columns.length < 2 + 2) := by decide
  obtain ⟨cache, hcache, hlookup⟩ := (get?_last_row yearly 2 2).2 hwide
  refine ⟨hwide, cache, hcache, ?_, ?_, ?_, ?_⟩
  · have hlast : IsLast 2 ["http://example.org/2020", "AT"] yearly.rows
        [.simple "http://example.org/2020", .tagged "AT" "en", .typed "42" xsdInteger,
          .simple ""] := ⟨yearly.rows.take 3, [], rfl, by decide, by decide⟩
    exact ((hlookup _ 0).1 _).2 ⟨_, .typed "42" xsdInteger, hlast, by decide, rfl, by decide, rfl⟩
  · rintro v hv
    obtain ⟨row, t, ⟨before, after, hrows, hkey, hafter⟩, -, ht, hne, -⟩ := ((hlookup _ 1).1 v).1 hv
    -- both rows of the year are empty in this column
    have hall : ∀ row ∈ yearly.rows, keyOfRow 2 row = ["http://example.org/2020", "AT"] →
        row[3]?.map Term.value = some "" := by decide
    have hempty := hall row (hrows ▸ List.mem_append_right _ List.mem_cons_self) hkey
    rw [ht] at hempty
    exact hne (Option.some.inj hempty)
  · have hlast : IsLast 2 ["ab", "c"] yearly.rows
        [.simple "ab", .simple "c", .typed "3.14159" xsdDouble, .simple "2"] :=
      ⟨[], yearly.rows.drop 1, rfl, by decide, by decide⟩
    exact ((hlookup _ 0).1 _).2
      ⟨_, .typed "3.14159" xsdDouble, hlast, by decide, rfl, by decide, rfl⟩
  · have hlast : IsLast 2 ["a", "bc"] yearly.rows
        [.simple "a", .simple "bc", .simple "7", .simple "8"] :=
      ⟨yearly.rows.take 2, yearly.rows.drop 3, rfl, by decide, by decide⟩
    have hget := ((hlookup _ 1).1 _).2 ⟨_, .simple "8", hlast, by decide, rfl, by decide, rfl⟩
    exact ((hlookup ["a", "bc"] 1).2 _ (List.map String.length) (by decide)).trans hget

end CellCache

end Datacube
