import Datacube.Proofs.Texts

/-!
# Splitting undoes quoting

The segments of a unique name are read back as they were written, whatever characters they are made
of, but without the blanks around them.

## Main definitions

* `Spelled` — whether a name is a segment that is read as it was written.

## Main results

* `scanSegments_doubled`, `scanSegments_quoteChars` — **a segment in brackets** is read back.
* `splitName_joinSegments` — **a unique name** is read back.
* `segments_parse_joinSegments` — nothing is lost of a unique name whose segments are spelled.
* `joinSegments_injective` — different segments have different unique names.
* `splitName_undoes_joinSegments` — all of this together.
-/

namespace Datacube

/-! ### Single characters -/

theorem scanSegments_open (cs : List Char) :
    scanSegments false ('[' :: cs) = scanSegments true cs := by
  rw [scanSegments.eq_def]
  simp

theorem scanSegments_dot (cs : List Char) : scanSegments false ('.' :: cs)
    = ([], (scanSegments false cs).1 :: (scanSegments false cs).2) := by
  rw [scanSegments.eq_def]
  simp

theorem scanSegments_close {rest : List Char} (h : rest.head? ≠ some ']') :
    scanSegments true (']' :: rest) = scanSegments false rest := by
  rw [scanSegments.eq_def]
  simp only [if_true]
  split
  · exact absurd rfl h
  · rfl

theorem scanSegments_close_close (cs : List Char) :
    scanSegments true (']' :: ']' :: cs)
      = (']' :: (scanSegments true cs).1, (scanSegments true cs).2) := by
  rw [scanSegments.eq_def]
  simp

theorem scanSegments_of_ne {c : Char} (h : c ≠ ']') (cs : List Char) :
    scanSegments true (c :: cs) = (c :: (scanSegments true cs).1, (scanSegments true cs).2) := by
  rw [scanSegments.eq_def]
  simp [h]

/-! ### Segments -/

/-- A text without brackets stays as it is between brackets. -/
theorem doubled_of_not_mem {q : Char} {cs : List Char} (h : q ∉ cs) : doubled q cs = cs := by
  induction cs with
  | nil => rfl
  | cons c cs ih =>
    rw [List.mem_cons, not_or] at h
    rw [doubled_cons_of_ne (Ne.symm h.1), ih h.2]

/-- **The characters of a segment** are read up to the bracket that closes it. -/
theorem scanSegments_doubled (cs : List Char) {rest : List Char} (hrest : rest.head? ≠ some ']') :
    scanSegments true (doubled ']' cs ++ ']' :: rest)
      = (cs ++ (scanSegments false rest).1, (scanSegments false rest).2) := by
  induction cs with
  | nil => exact scanSegments_close hrest
  | cons c cs ih =>
    by_cases hc : c = ']'
    -- a closing bracket is written twice, and two of them are read as one
    · subst hc
      rw [doubled_cons_self, List.cons_append, List.cons_append, scanSegments_close_close, ih]
      rfl
    · rw [doubled_cons_of_ne hc, List.cons_append, scanSegments_of_ne hc, ih]
      rfl

/-- **A segment in brackets** is read back. -/
theorem scanSegments_quoteChars (cs : List Char) {rest : List Char}
    (hrest : rest.head? ≠ some ']') :
    scanSegments false (quoteChars cs ++ rest)
      = (cs ++ (scanSegments false rest).1, (scanSegments false rest).2) := by
  rw [quoteChars, List.cons_append, List.append_assoc, scanSegments_open]
  exact scanSegments_doubled cs hrest

/-! ### Unique names -/

theorem toList_joinSegments_singleton (segment : String) :
    (joinSegments [segment]).toList = quoteChars segment.toList := by
  rw [joinSegments, List.map_singleton, String.intercalate_singleton, quoteSegment,
    String.toList_ofList]

theorem toList_joinSegments_cons_cons (segment next : String) (segments : List String) :
    (joinSegments (segment :: next :: segments)).toList
      = quoteChars segment.toList ++ '.' :: (joinSegments (next :: segments)).toList := by
  simp [joinSegments, quoteSegment, String.intercalate_cons_cons]

/-- The segments of a unique name, still with the blanks around them. -/
private theorem scanSegments_joinSegments (segment : String) (segments : List String) :
    scanSegments false (joinSegments (segment :: segments)).toList
      = (segment.toList, segments.map String.toList) := by
  induction segments generalizing segment with
  | nil =>
    rw [toList_joinSegments_singleton, ← List.append_nil (quoteChars _),
      scanSegments_quoteChars _ (by simp), scanSegments, List.append_nil]
    rfl
  | cons next segments ih =>
    rw [toList_joinSegments_cons_cons, scanSegments_quoteChars _ (by simp), scanSegments_dot, ih,
      List.append_nil]
    rfl

/-- **A unique name is read back**: its segments are those that were joined, each without the blanks
around it. -/
theorem splitName_joinSegments {segments : List String} (h : segments ≠ []) :
    splitName (joinSegments segments) = segments.map trim := by
  cases segments with
  | nil => exact absurd rfl h
  | cons segment segments =>
    rw [splitName, splitChars, scanSegments_joinSegments]
    simp [trim]

private theorem joinSegments_cons_ne_empty (segment : String) (segments : List String) :
    joinSegments (segment :: segments) ≠ "" := by
  intro hempty
  have hscan := scanSegments_joinSegments segment segments
  rw [hempty, String.toList_empty, scanSegments] at hscan
  -- only an empty segment could be read, but it stands in brackets
  obtain ⟨hsegment, hsegments⟩ := Prod.mk.inj hscan
  rw [String.toList_eq_nil_iff.1 hsegment.symm, List.map_eq_nil_iff.1 hsegments.symm] at hempty
  exact absurd hempty (by decide)

/-- **Different segments have different unique names**, even if they differ only in the blanks around
them. -/
theorem joinSegments_injective {segments others : List String}
    (h : joinSegments segments = joinSegments others) : segments = others := by
  cases segments with
  | nil =>
    cases others with
    | nil => rfl
    | cons other others => exact absurd h.symm (joinSegments_cons_ne_empty other others)
  | cons segment segments =>
    cases others with
    | nil => exact absurd h (joinSegments_cons_ne_empty segment segments)
    | cons other others =>
      have hscan := scanSegments_joinSegments segment segments
      rw [h, scanSegments_joinSegments] at hscan
      obtain ⟨hfirst, hrest⟩ := Prod.mk.inj hscan
      rw [String.toList_inj.1 hfirst.symm,
        List.map_injective_iff.2 (fun _ _ => String.toList_inj.1) hrest.symm]

/-! ### Names that are read as they were written -/

/-- Whether a name is a segment that is read as it was written: there are no blanks around it. -/
def Spelled (name : String) : Prop := trim name = name

instance (name : String) : Decidable (Spelled name) :=
  inferInstanceAs (Decidable (trim name = name))

theorem joinSegments_append_singleton {segments : List String} (h : segments ≠ [])
    (segment : String) : joinSegments (segments ++ [segment])
      = joinSegments segments ++ "." ++ quoteSegment segment := by
  have hne : segments.map quoteSegment ≠ [] := fun hnil => h (List.map_eq_nil_iff.1 hnil)
  rw [joinSegments, List.map_append, List.map_singleton,
    String.intercalate_append_of_ne_nil hne (List.cons_ne_nil _ _), String.intercalate_singleton]
  rfl

/-- Segments that are read as they were written. -/
theorem segments_parse_joinSegments {segments : List String} (hne : segments ≠ [])
    (h : ∀ s ∈ segments, Spelled s) :
    (Identifier.parse (joinSegments segments)).segments = segments := by
  rw [Identifier.parse, splitName_joinSegments hne]
  exact (List.map_congr_left h).trans (List.map_id _)

theorem splitName_ne_nil (name : String) : splitName name ≠ [] := by
  simp [splitName, splitChars]

/-- What is read has no blanks around it. -/
theorem spelled_of_mem_splitName {name s : String} (h : s ∈ splitName name) : Spelled s := by
  obtain ⟨cs, hcs, rfl⟩ := List.mem_map.1 h
  obtain ⟨ds, -, rfl⟩ := List.mem_map.1 hcs
  rw [Spelled, trim, String.toList_ofList, trimChars_trimChars]

/-- **An identifier is read back** from its unique name, whatever text it was read from. -/
theorem segments_parse_uniqueName (name : String) :
    (Identifier.parse (Identifier.parse name).uniqueName).segments
      = (Identifier.parse name).segments :=
  segments_parse_joinSegments (splitName_ne_nil name) fun _ => spelled_of_mem_splitName

/-! ### Both ways -/

/-- **Splitting undoes quoting**: segments are read back without the blanks around them, identifiers
are read back as they are, and a unique name belongs to one list of segments only. -/
theorem splitName_undoes_joinSegments {segments : List String} (h : segments ≠ [])
    (others : List String) (name : String) :
    splitName (joinSegments segments) = segments.map trim
      ∧ (Identifier.parse (Identifier.parse name).uniqueName).segments
        = (Identifier.parse name).segments
      ∧ (joinSegments segments = joinSegments others ↔ segments = others) :=
  ⟨splitName_joinSegments h, segments_parse_uniqueName name, joinSegments_injective,
    congrArg joinSegments⟩

/-- Brackets, dots and blanks inside segments do not matter. -/
theorem splitName_undoes_joinSegments_brackets :
    ["a]", "", "].[", " b c "] ≠ [] ∧ splitName (joinSegments ["a]", "", "].[", " b c "])
      = ["a]", "", "].[", "b c"] :=
  ⟨by decide, (splitName_undoes_joinSegments (by decide) [] "").1.trans (by decide +kernel)⟩

end Datacube
