import Datacube.Proofs.Assurance
import Datacube.Proofs.FormulaTexts

/-!
# Schema objects that are read back

Engines write schema objects into rows, stores read them, plans write them again, and engines read
the parameters of plans.  An object that was read from a row is read back from its own row as it
is.  An object that was made otherwise keeps what matters: its unique name and those of the objects
around it, its depth, and what a measure is computed from.

## Main definitions

* `rowOf`, `measureRowOf` — the row of an object and the row of a measure, with their headers.
* `Label.Keyed` — whether what has a name also has a unique name.

## Main results

* `Cube.read_rowOf`, `Level.read_rowOf`, `Member.read_rowOf` — **objects from rows are read back**.
* `Level.sameRow`, `Member.sameRow`, `sameMeasure_of_read` — what other objects keep.
-/

namespace Datacube

/-! ### Columns -/

/-- A text, unless it is empty. -/
def presence (s : String) : Option String := (some s).filter (· ≠ "")

@[simp] theorem presence_eq_some {s t : String} : presence s = some t ↔ s = t ∧ s ≠ "" := by
  simp [presence, Option.filter_eq_some_iff]
  rintro rfl
  rfl

theorem presence_of_ne {s : String} (h : s ≠ "") : presence s = some s :=
  presence_eq_some.2 ⟨rfl, h⟩

theorem presence_getD (s : String) : (presence s).getD "" = s := by
  by_cases h : s = ""
  · rw [h]
    rfl
  · rw [presence_of_ne h]
    rfl

namespace Row

variable {row : Row} {column : String}

theorem ne_empty_of_text? {s : String} (h : row.text? column = some s) : s ≠ "" := by
  simpa using (Option.filter_eq_some_iff.1 h).2

theorem presence_of_text? {s : String} (h : row.text? column = some s) : presence s = some s :=
  presence_of_ne (ne_empty_of_text? h)

/-- An absent value is written as the empty text, from which it is read again. -/
theorem presence_getD_of_text? {o : Option String} (h : o = row.text? column) :
    presence (o.getD "") = o := by
  cases o with
  | none => rfl
  | some s => exact presence_of_text? h.symm

@[simp] theorem require_eq_ok {s : String} :
    row.require column = .ok s ↔ row.text? column = some s := by
  rw [require]
  cases row.text? column with
  | none => exact iff_of_false nofun nofun
  | some t =>
    constructor
    · intro h
      exact congrArg some (Except.ok.inj h)
    · intro h
      cases h
      rfl

theorem lt_countBound_of_countOrZero {n : Nat} (h : row.countOrZero column = .ok n) :
    n < countBound := by
  obtain ⟨o, ho, rfl⟩ := Outcome.map_eq_ok.1 h
  rw [count?] at ho
  split at ho
  · cases ho
    decide
  · split at ho
    · cases ho
      rename_i k hk
      rw [readCount?, Option.filter_eq_some_iff] at hk
      simpa using hk.2
    · cases ho

/-- A column that holds the digits of a number holds that number as a count. -/
theorem countOrZero_of_repr {k n : Nat} (h : row.text? column = presence k.repr) :
    row.countOrZero column = .ok n ↔ k = n ∧ k < countBound := by
  have hne : k.repr ≠ "" := by
    rw [Nat.repr_eq_ofList_toDigits]
    intro hempty
    exact Nat.toDigits_ne_nil (String.ofList_eq_empty_iff.1 hempty)
  rw [countOrZero, count?, h, presence_of_ne hne]
  simp only [readCount?_repr]
  by_cases hk : k < countBound
  · rw [if_pos hk]
    constructor
    · intro h
      exact ⟨Except.ok.inj h, hk⟩
    · rintro ⟨rfl, -⟩
      rfl
  · rw [if_neg hk]
    refine iff_of_false nofun ?_
    rintro ⟨-, hlt⟩
    exact hk hlt

end Row

/-! ### Labels -/

namespace Label

/-- Whether what has a name also has a unique name. -/
def Keyed (l : Label) : Prop := l.uniqueName = "" → l.name = ""

theorem read_eq_ok {row : Row} {nameColumn : String}
    {uniqueNameColumn captionColumn : Option String} {l : Label} :
    Label.read row nameColumn uniqueNameColumn captionColumn = .ok l ↔
      (row.text? nameColumn).or (uniqueNameColumn.bind row.text?) = some l.name
        ∧ l.uniqueName = (uniqueNameColumn.bind row.text?).getD (quoteSegment l.name)
        ∧ l.caption = (captionColumn.bind row.text?).getD l.name
        ∧ l.description = (row.text? Column.description).getD "" := by
  rw [Label.read]
  cases h : (row.text? nameColumn).or (uniqueNameColumn.bind row.text?) with
  | none =>
    have hrequire : row.require nameColumn
        = .error (.invalidMetadata ("Missing value for " ++ nameColumn)) := by
      rw [Row.require, (Option.or_eq_none_iff.1 h).1]
    rw [hrequire]
    exact ⟨nofun, nofun⟩
  | some name =>
    obtain ⟨u, n, c, d⟩ := l
    constructor
    · intro e
      cases e
      exact ⟨rfl, rfl, rfl, rfl⟩
    · rintro ⟨hn, hu, hc, hd⟩
      dsimp only at hn hu hc hd
      obtain rfl := Option.some.inj hn
      subst hu hc hd
      rfl

variable {row : Row} {nameColumn : String} {uniqueNameColumn captionColumn : Option String}
  {l : Label}

/-- A row gives a label as soon as it gives a name or a unique name. -/
theorem exists_read {name : String}
    (h : (row.text? nameColumn).or (uniqueNameColumn.bind row.text?) = some name) :
    ∃ l, Label.read row nameColumn uniqueNameColumn captionColumn = .ok l := by
  refine ⟨{ uniqueName := (uniqueNameColumn.bind row.text?).getD (quoteSegment name)
            name
            caption := (captionColumn.bind row.text?).getD name
            description := (row.text? Column.description).getD "" }, ?_⟩
  exact read_eq_ok.2 ⟨h, rfl, rfl, rfl⟩

theorem name_ne_empty (h : Label.read row nameColumn uniqueNameColumn captionColumn = .ok l) :
    l.name ≠ "" := by
  rcases Option.or_eq_some_iff.1 (read_eq_ok.1 h).1 with h | ⟨-, h⟩
  · exact Row.ne_empty_of_text? h
  · obtain ⟨column, -, h⟩ := Option.bind_eq_some_iff.1 h
    exact Row.ne_empty_of_text? h

theorem uniqueName_ne_empty (h : Label.read row nameColumn uniqueNameColumn captionColumn = .ok l) :
    l.uniqueName ≠ "" := by
  rw [(read_eq_ok.1 h).2.1]
  cases e : uniqueNameColumn.bind row.text? with
  | none => exact quoteSegment_ne_empty _
  | some s =>
    obtain ⟨column, -, h⟩ := Option.bind_eq_some_iff.1 e
    exact Row.ne_empty_of_text? h

theorem caption_ne_empty (h : Label.read row nameColumn uniqueNameColumn captionColumn = .ok l) :
    l.caption ≠ "" := by
  rw [(read_eq_ok.1 h).2.2.1]
  cases e : captionColumn.bind row.text? with
  | none => exact name_ne_empty h
  | some s =>
    obtain ⟨column, -, h⟩ := Option.bind_eq_some_iff.1 e
    exact Row.ne_empty_of_text? h

/-- A label is read back if none of its names is empty. -/
theorem read_of_ne_empty {nameColumn uniqueNameColumn captionColumn : String}
    (hn : row.text? nameColumn = presence l.name)
    (hu : row.text? uniqueNameColumn = presence l.uniqueName)
    (hc : row.text? captionColumn = presence l.caption)
    (hd : row.text? Column.description = presence l.description)
    (hn' : l.name ≠ "") (hu' : l.uniqueName ≠ "") (hc' : l.caption ≠ "") :
    Label.read row nameColumn (some uniqueNameColumn) (some captionColumn) = .ok l := by
  rw [read_eq_ok, Option.bind_some, Option.bind_some, hn, hu, hc, hd, presence_of_ne hn',
    presence_of_ne hu', presence_of_ne hc', presence_getD]
  exact ⟨rfl, rfl, rfl, rfl⟩

/-- A unique name is read back unless it is empty. -/
theorem uniqueName_of_read {s : String} {nameColumn uniqueNameColumn : String}
    (hu : row.text? uniqueNameColumn = presence s) (hs : s ≠ "")
    (h : Label.read row nameColumn (some uniqueNameColumn) captionColumn = .ok l) :
    l.uniqueName = s := by
  rw [(read_eq_ok.1 h).2.1, Option.bind_some, hu, presence_of_ne hs, Option.getD_some]

end Label

/-! ### Cubes and levels -/

/-- The row of an object, with its header. -/
def rowOf {α : Type} [Record α] (a : α) : Row := (Record.columns α).zip (Record.write a)

@[simp] theorem tuples_rowSetOf_eq_map {α : Type} [Record α] (objects : List α) :
    (rowSetOf objects).tuples = objects.map rowOf := tuples_rowSetOf objects

theorem readAll_rowSetOf {α : Type} [Record α] {objects result : List α} :
    readAll α (rowSetOf objects) = .ok result ↔
      List.Forall₂ (fun a b => Record.read (rowOf a) = .ok b) objects result := by
  rw [readAll, tuples_rowSetOf_eq_map, Outcome.mapM_eq_ok, List.forall₂_map_left_iff]

namespace Cube

theorem read_eq_ok {row : Row} {a : Cube} : Record.read row = .ok a ↔
    Label.read row Column.cubeName none (some Column.cubeCaption) = .ok a.label
      ∧ a.catalogName = (row.text? Column.catalogName).getD ""
      ∧ a.schemaName = (row.text? Column.schemaName).getD "" := by
  constructor
  · intro h
    obtain ⟨l, hl, h⟩ := Outcome.bind_eq_ok.1 h
    cases h
    exact ⟨hl, rfl, rfl⟩
  · rintro ⟨hl, hc, hs⟩
    refine Outcome.bind_eq_ok.2 ⟨_, hl, ?_⟩
    cases a
    subst hc hs
    rfl

/-- A cube is read back if it has a name and a caption, and its unique name is the quoted name. -/
theorem read_rowOf_of_ne_empty {a : Cube} (hn : a.label.name ≠ "") (hc : a.label.caption ≠ "")
    (hu : a.label.uniqueName = quoteSegment a.label.name) : Record.read (rowOf a) = .ok a := by
  refine read_eq_ok.2 ⟨?_, (presence_getD _).symm, (presence_getD _).symm⟩
  refine Label.read_eq_ok.2 ⟨?_, hu, ?_, (presence_getD _).symm⟩
  · exact Option.or_eq_some_iff.2 (.inl (presence_of_ne hn))
  · exact (congrArg (Option.getD · a.label.name) (presence_of_ne hc)).symm

/-- **A cube that was read from a row is read back.** -/
theorem read_rowOf {row : Row} {a : Cube} (h : Record.read row = .ok a) :
    Record.read (rowOf a) = .ok a := by
  obtain ⟨hl, -, -⟩ := read_eq_ok.1 h
  exact read_rowOf_of_ne_empty (Label.name_ne_empty hl) (Label.caption_ne_empty hl)
    (Label.read_eq_ok.1 hl).2.1

/-- **The segments that name a cube** are its name and, if it is the quoted name, its unique name. -/
theorem isNamed_iff {a : Cube} (hu : a.label.uniqueName = quoteSegment a.label.name)
    {segment : String} :
    isNamed a segment = true ↔ a.label.name = segment ∨ quoteSegment a.label.name = segment := by
  change (a.label.name == segment || a.label.uniqueName == segment
    || a.label.uniqueName == quoteSegment segment) = true ↔ _
  simp only [hu, Bool.or_eq_true, beq_iff_eq]
  constructor
  · rintro ((h | h) | h)
    · exact .inl h
    · exact .inr h
    · exact .inl (quoteSegment_inj h)
  · rintro (h | h)
    · exact .inl (.inl h)
    · exact .inl (.inr h)

/-- The name of a cube is kept. -/
theorem name_of_read_rowOf {a b : Cube} (h : Record.read (rowOf a) = .ok b) :
    b.label.name = a.label.name := by
  have hname := (Label.read_eq_ok.1 (read_eq_ok.1 h).1).1
  rw [Option.bind_none, Option.or_none] at hname
  exact (presence_eq_some.1 hname).1.symm

end Cube

namespace Level

theorem read_eq_ok {row : Row} {a : Level} : Record.read row = .ok a ↔
    Label.read row Column.levelName (some Column.levelUniqueName) (some Column.levelCaption)
        = .ok a.label
      ∧ row.text? Column.cubeName = some a.cubeName
      ∧ row.text? Column.dimensionUniqueName = some a.dimension
      ∧ row.text? Column.hierarchyUniqueName = some a.hierarchy
      ∧ row.countOrZero Column.levelNumber = .ok a.depth
      ∧ row.countOrZero Column.levelCardinality = .ok a.cardinality := by
  constructor
  · intro h
    obtain ⟨l, hl, h⟩ := Outcome.bind_eq_ok.1 h
    obtain ⟨cube, hcube, h⟩ := Outcome.bind_eq_ok.1 h
    obtain ⟨dimension, hdimension, h⟩ := Outcome.bind_eq_ok.1 h
    obtain ⟨hierarchy, hhierarchy, h⟩ := Outcome.bind_eq_ok.1 h
    obtain ⟨depth, hdepth, h⟩ := Outcome.bind_eq_ok.1 h
    obtain ⟨cardinality, hcardinality, h⟩ := Outcome.bind_eq_ok.1 h
    cases h
    exact ⟨hl, Row.require_eq_ok.1 hcube, Row.require_eq_ok.1 hdimension,
      Row.require_eq_ok.1 hhierarchy, hdepth, hcardinality⟩
  · rintro ⟨hl, hcube, hdimension, hhierarchy, hdepth, hcardinality⟩
    refine Outcome.bind_eq_ok.2 ⟨_, hl, ?_⟩
    refine Outcome.bind_eq_ok.2 ⟨_, Row.require_eq_ok.2 hcube, ?_⟩
    refine Outcome.bind_eq_ok.2 ⟨_, Row.require_eq_ok.2 hdimension, ?_⟩
    refine Outcome.bind_eq_ok.2 ⟨_, Row.require_eq_ok.2 hhierarchy, ?_⟩
    refine Outcome.bind_eq_ok.2 ⟨_, hdepth, ?_⟩
    exact Outcome.bind_eq_ok.2 ⟨_, hcardinality, rfl⟩

/-- **A level that was read from a row is read back.** -/
theorem read_rowOf {row : Row} {a : Level} (h : Record.read row = .ok a) :
    Record.read (rowOf a) = .ok a := by
  obtain ⟨hl, hcube, hdimension, hhierarchy, hdepth, hcardinality⟩ := read_eq_ok.1 h
  refine read_eq_ok.2 ⟨?_, Row.presence_of_text? hcube, Row.presence_of_text? hdimension,
    Row.presence_of_text? hhierarchy, ?_, ?_⟩
  · exact Label.read_of_ne_empty rfl rfl rfl rfl (Label.name_ne_empty hl)
      (Label.uniqueName_ne_empty hl) (Label.caption_ne_empty hl)
  · exact (Row.countOrZero_of_repr rfl).2 ⟨rfl, Row.lt_countBound_of_countOrZero hdepth⟩
  · exact (Row.countOrZero_of_repr rfl).2 ⟨rfl, Row.lt_countBound_of_countOrZero hcardinality⟩

/-- What a level keeps when it is read back. -/
theorem sameRow {a b : Level} (hu : a.label.uniqueName ≠ "") (h : Record.read (rowOf a) = .ok b) :
    b.label.uniqueName = a.label.uniqueName ∧ b.hierarchy = a.hierarchy ∧ b.depth = a.depth := by
  obtain ⟨hl, -, -, hhierarchy, hdepth, -⟩ := read_eq_ok.1 h
  refine ⟨Label.uniqueName_of_read rfl hu hl, ?_, ?_⟩
  · exact (presence_eq_some.1 hhierarchy).1.symm
  · exact ((Row.countOrZero_of_repr rfl).1 hdepth).1.symm

end Level

/-! ### Members -/

namespace MemberType

theorem parse_repr_code (t : MemberType) : parse t.code.repr = t := by
  cases t <;> decide +kernel

/-- The kind of a member is read back unless an aggregator makes it a measure. -/
theorem read_of_texts {row : Row} {t : MemberType}
    (htype : row.text? Column.memberType = some t.code.repr)
    (haggregator : row.text? Column.measureAggregator = none) : MemberType.read row = t := by
  rw [MemberType.read, htype, haggregator, Option.map_some, parse_repr_code]
  simp

end MemberType

/-- Two ways of beginning a computation that goes on in the same way. -/
private theorem ite_bind {α β : Type} {c : Bool} {x y : Outcome α} {f : α → Outcome β} :
    (if c then x >>= f else y >>= f) = (if c then x else y) >>= f := by
  cases c <;> rfl

namespace Member

theorem read_eq_ok {row : Row} {a : Member} : Record.read row = .ok a ↔
    Label.read row Column.memberName (some Column.memberUniqueName) (some Column.memberCaption)
        = .ok a.label
      ∧ (if (MemberType.read row).isMeasure then some <$> MeasureInfo.read row else pure none)
          = .ok a.measure
      ∧ row.text? Column.cubeName = some a.cubeName
      ∧ row.text? Column.dimensionUniqueName = some a.dimension
      ∧ row.text? Column.hierarchyUniqueName = some a.hierarchy
      ∧ row.text? Column.levelUniqueName = some a.level
      ∧ row.countOrZero Column.levelNumber = .ok a.depth
      ∧ row.countOrZero Column.memberOrdinal = .ok a.ordinal
      ∧ a.parent = row.text? Column.parentUniqueName
      ∧ a.type = MemberType.read row
      ∧ a.properties = Member.readProperties row := by
  constructor
  · intro h
    obtain ⟨l, hl, h⟩ := Outcome.bind_eq_ok.1 h
    obtain ⟨measure, hmeasure, h⟩ := Outcome.bind_eq_ok.1 (ite_bind.symm.trans h)
    obtain ⟨cube, hcube, h⟩ := Outcome.bind_eq_ok.1 h
    obtain ⟨dimension, hdimension, h⟩ := Outcome.bind_eq_ok.1 h
    obtain ⟨hierarchy, hhierarchy, h⟩ := Outcome.bind_eq_ok.1 h
    obtain ⟨level, hlevel, h⟩ := Outcome.bind_eq_ok.1 h
    obtain ⟨depth, hdepth, h⟩ := Outcome.bind_eq_ok.1 h
    obtain ⟨ordinal, hordinal, h⟩ := Outcome.bind_eq_ok.1 h
    cases h
    exact ⟨hl, hmeasure, Row.require_eq_ok.1 hcube, Row.require_eq_ok.1 hdimension,
      Row.require_eq_ok.1 hhierarchy, Row.require_eq_ok.1 hlevel, hdepth, hordinal, rfl, rfl, rfl⟩
  · rintro ⟨hl, hmeasure, hcube, hdimension, hhierarchy, hlevel, hdepth, hordinal, hparent, htype,
      hproperties⟩
    refine Outcome.bind_eq_ok.2 ⟨_, hl, ?_⟩
    refine ite_bind.trans (Outcome.bind_eq_ok.2 ⟨_, hmeasure, ?_⟩)
    refine Outcome.bind_eq_ok.2 ⟨_, Row.require_eq_ok.2 hcube, ?_⟩
    refine Outcome.bind_eq_ok.2 ⟨_, Row.require_eq_ok.2 hdimension, ?_⟩
    refine Outcome.bind_eq_ok.2 ⟨_, Row.require_eq_ok.2 hhierarchy, ?_⟩
    refine Outcome.bind_eq_ok.2 ⟨_, Row.require_eq_ok.2 hlevel, ?_⟩
    refine Outcome.bind_eq_ok.2 ⟨_, hdepth, ?_⟩
    refine Outcome.bind_eq_ok.2 ⟨_, hordinal, ?_⟩
    cases a
    subst hparent htype hproperties
    rfl

theorem label_of_read {row : Row} {a : Member} (h : Record.read row = .ok a) :
    a.label.name ≠ "" ∧ a.label.uniqueName ≠ "" ∧ a.label.caption ≠ "" := by
  obtain ⟨hl, -⟩ := read_eq_ok.1 h
  exact ⟨Label.name_ne_empty hl, Label.uniqueName_ne_empty hl, Label.caption_ne_empty hl⟩

/-- A member that was read and is no measure has nothing of a measure. -/
theorem measure_of_read {row : Row} {a : Member} (h : Record.read row = .ok a)
    (ha : a.isMeasure = false) : a.measure = none := by
  obtain ⟨-, hmeasure, -, -, -, -, -, -, -, htype, -⟩ := read_eq_ok.1 h
  rw [← htype, if_neg (by rw [← Member.isMeasure, ha]; decide)] at hmeasure
  exact (Except.ok.inj hmeasure).symm

/-- The row of a member that has nothing of a measure says so. -/
theorem read_rowOf_type {a : Member} (hm : a.measure = none) :
    MemberType.read (rowOf a) = a.type := by
  refine MemberType.read_of_texts ?_ ?_
  · have hne : a.type.code.repr ≠ "" := by cases a.type <;> decide
    exact presence_of_ne hne
  · change presence (((a.aggregator?).map Aggregator.text).getD "") = none
    rw [aggregator?, hm]
    rfl

/-- The row of a member has no columns other than those of the header. -/
private theorem readProperties_rowOf (a : Member) : readProperties (rowOf a) = [] := rfl

/-- A member that was read from a row is read back if its kind and what it has of a measure are.  Its
properties are not written. -/
theorem read_rowOf_of_measure {row : Row} {a : Member} (h : Record.read row = .ok a)
    (htype : MemberType.read (rowOf a) = a.type)
    (hmeasure : (if a.isMeasure then some <$> MeasureInfo.read (rowOf a) else pure none)
      = .ok a.measure) : Record.read (rowOf a) = .ok { a with properties := [] } := by
  obtain ⟨hl, -, hcube, hdimension, hhierarchy, hlevel, hdepth, hordinal, hparent, -⟩ :=
    read_eq_ok.1 h
  refine read_eq_ok.2 ⟨?_, ?_, Row.presence_of_text? hcube, Row.presence_of_text? hdimension,
    Row.presence_of_text? hhierarchy, Row.presence_of_text? hlevel, ?_, ?_,
    (Row.presence_getD_of_text? hparent).symm, htype.symm, (readProperties_rowOf a).symm⟩
  · exact Label.read_of_ne_empty rfl rfl rfl rfl (Label.name_ne_empty hl)
      (Label.uniqueName_ne_empty hl) (Label.caption_ne_empty hl)
  · rwa [htype]
  · exact (Row.countOrZero_of_repr rfl).2 ⟨rfl, Row.lt_countBound_of_countOrZero hdepth⟩
  · exact (Row.countOrZero_of_repr rfl).2 ⟨rfl, Row.lt_countBound_of_countOrZero hordinal⟩

/-- **A member that was read from a row is read back** unless it is a measure.  Its properties
are not written. -/
theorem read_rowOf {row : Row} {a : Member} (h : Record.read row = .ok a)
    (ha : a.isMeasure = false) : Record.read (rowOf a) = .ok { a with properties := [] } := by
  have hm := measure_of_read h ha
  refine read_rowOf_of_measure h (read_rowOf_type hm) ?_
  -- nothing of a measure is read for a kind that is none
  rw [if_neg (by rw [ha]; decide), hm]
  rfl

/-- What a member other than a measure keeps when it is read back. -/
theorem sameRow {a b : Member} (hu : a.label.uniqueName ≠ "") (hm : a.measure = none)
    (h : Record.read (rowOf a) = .ok b) :
    b.label.uniqueName = a.label.uniqueName ∧ b.hierarchy = a.hierarchy ∧ b.level = a.level
      ∧ b.depth = a.depth ∧ b.type = a.type := by
  obtain ⟨hl, -, -, -, hhierarchy, hlevel, hdepth, -, -, htype, -⟩ := read_eq_ok.1 h
  refine ⟨Label.uniqueName_of_read rfl hu hl, ?_, ?_, ?_, ?_⟩
  · exact (presence_eq_some.1 hhierarchy).1.symm
  · exact (presence_eq_some.1 hlevel).1.symm
  · exact ((Row.countOrZero_of_repr rfl).1 hdepth).1.symm
  · rw [htype, read_rowOf_type hm]

end Member

/-! ### Measures -/

theorem Aggregator.parse_text (a : Aggregator) : parse a.text = a := by
  cases a <;> decide +kernel

theorem MeasureInfo.read_eq_ok {row : Row} {a : MeasureInfo} : MeasureInfo.read row = .ok a ↔
    (row.text? Column.expression).mapM Formula.read = .ok a.formula
      ∧ a.aggregator = (match row.text? Column.measureAggregator with
        | some s => .parse s
        | none => if a.formula.isSome then .calculated else .sum)
      ∧ a.datatype = row.text? Column.dataType := by
  constructor
  · intro h
    obtain ⟨formula, hformula, h⟩ := Outcome.bind_eq_ok.1 h
    cases h
    exact ⟨hformula, rfl, rfl⟩
  · rintro ⟨hformula, haggregator, hdatatype⟩
    obtain ⟨aggregator, datatype, formula⟩ := a
    refine Outcome.bind_eq_ok.2 ⟨formula, hformula, ?_⟩
    dsimp only at haggregator hdatatype
    rw [haggregator, hdatatype]
    rfl

theorem readMeasure_eq_ok {row : Row} {ordinal : Nat} {a : Member} :
    readMeasure row ordinal = .ok a ↔
      Label.read row Column.measureName (some Column.measureUniqueName)
          (some Column.measureCaption) = .ok a.label
        ∧ row.text? Column.cubeName = some a.cubeName
        ∧ (∃ info, MeasureInfo.read row = .ok info ∧ a.measure = some info
          ∧ a.type = if info.aggregator = .calculated then .formula else .measure)
        ∧ a.dimension = (row.text? Column.dimensionUniqueName).getD measuresDimension
        ∧ a.hierarchy = (row.text? Column.hierarchyUniqueName).getD measuresHierarchy
        ∧ a.level = (row.text? Column.levelUniqueName).getD measuresLevel
        ∧ a.depth = 0 ∧ a.parent = none ∧ a.ordinal = ordinal ∧ a.properties = [] := by
  constructor
  · intro h
    obtain ⟨l, hl, h⟩ := Outcome.bind_eq_ok.1 h
    obtain ⟨info, hinfo, h⟩ := Outcome.bind_eq_ok.1 h
    obtain ⟨cube, hcube, h⟩ := Outcome.bind_eq_ok.1 h
    cases h
    exact ⟨hl, Row.require_eq_ok.1 hcube, ⟨info, hinfo, rfl, rfl⟩, rfl, rfl, rfl, rfl, rfl, rfl, rfl⟩
  · rintro ⟨hl, hcube, ⟨info, hinfo, hmeasure, htype⟩, hdimension, hhierarchy, hlevel, hdepth,
      hparent, hordinal, hproperties⟩
    refine Outcome.bind_eq_ok.2 ⟨_, hl, ?_⟩
    refine Outcome.bind_eq_ok.2 ⟨_, hinfo, ?_⟩
    refine Outcome.bind_eq_ok.2 ⟨_, Row.require_eq_ok.2 hcube, ?_⟩
    cases a
    subst hmeasure htype hdimension hhierarchy hlevel hdepth hparent hordinal hproperties
    rfl

/-- A measure that was read is one by its kind, and it has names. -/
theorem isMeasure_of_readMeasure {row : Row} {ordinal : Nat} {a : Member}
    (h : readMeasure row ordinal = .ok a) : a.isMeasure = true := by
  obtain ⟨-, -, ⟨info, -, -, htype⟩, -⟩ := readMeasure_eq_ok.1 h
  rw [Member.isMeasure, htype]
  split <;> rfl

/-- The row of a measure, with its header. -/
def measureRowOf (m : Member) : Row := measureHeader.zip (writeMeasure m)

theorem tuples_measureRowSet (measures : List Member) :
    (measureRowSet measures).tuples = measures.map measureRowOf := by
  simp only [RowSet.tuples, measureRowSet, List.map_map]
  rfl

/-- The text in which the formula of a measure is written. -/
private theorem text?_expression (m : Member) : (measureRowOf m).text? Column.expression
    = presence (((m.formula?).map Formula.text).getD "") := rfl

private theorem Formula.text_ne_empty (f : Formula) : f.text ≠ "" := by
  intro h
  have hlength := congrArg String.length h
  simp [Formula.text] at hlength

/-- The formula that the row of a measure gives is read from its text. -/
private theorem mapM_read_expression (m : Member) :
    ((measureRowOf m).text? Column.expression).mapM Formula.read
      = (m.formula?).mapM fun f => Formula.read f.text := by
  rw [text?_expression]
  cases m.formula? with
  | none => rfl
  | some f =>
    rw [Option.map_some, Option.getD_some, presence_of_ne f.text_ne_empty]
    rfl

/-- **The formula of a measure that is read back** is the one that is read from its text. -/
theorem formula_of_readMeasure {a b : Member} {ordinal : Nat}
    (h : readMeasure (measureRowOf a) ordinal = .ok b) :
    (a.formula?).mapM (fun f => Formula.read f.text) = .ok b.formula? := by
  obtain ⟨-, -, ⟨info, hinfo, hbinfo, -⟩, -⟩ := readMeasure_eq_ok.1 h
  rw [← mapM_read_expression, (MeasureInfo.read_eq_ok.1 hinfo).1, Member.formula?, hbinfo,
    Option.bind_some]

/-- What a measure keeps when it is read back. -/
structure SameMeasure (a b : Member) : Prop where
  uniqueName : a.label.uniqueName ≠ "" → b.label.uniqueName = a.label.uniqueName
  aggregator : ∀ g ∈ a.aggregator?, b.aggregator? = some g
  stored : a.formula? = none ↔ b.formula? = none
  calculated : ∀ f ∈ a.formula?, IsOperand f.lhs → IsOperand f.rhs → b.formula? = some f

/-- **Measures are read back** in what they are computed from. -/
theorem sameMeasure_of_read {a b : Member} {ordinal : Nat}
    (h : readMeasure (measureRowOf a) ordinal = .ok b) : SameMeasure a b := by
  obtain ⟨hl, -, ⟨info, hinfo, hbinfo, -⟩, -⟩ := readMeasure_eq_ok.1 h
  have hformula := formula_of_readMeasure h
  refine ⟨fun hu => Label.uniqueName_of_read rfl hu hl, ?_, ?_, ?_⟩
  · intro g hg
    have htext : (measureRowOf a).text? Column.measureAggregator = some g.text := by
      change presence ((a.aggregator?.map Aggregator.text).getD "") = _
      rw [hg]
      exact presence_of_ne (by cases g <;> decide)
    have hparse : info.aggregator = g := by
      rw [(MeasureInfo.read_eq_ok.1 hinfo).2.1, htext]
      exact g.parse_text
    rw [Member.aggregator?, hbinfo, Option.map_some, hparse]
  · cases hf : a.formula? with
    | none =>
      rw [hf] at hformula
      exact iff_of_true rfl (Except.ok.inj hformula).symm
    | some f =>
      rw [hf] at hformula
      -- some formula is read, though not always the one that was written
      obtain ⟨g, -, hg⟩ := Outcome.map_eq_ok.1 hformula
      rw [← hg]
      exact iff_of_false (Option.some_ne_none f) (Option.some_ne_none g)
  · intro f hf hlhs hrhs
    obtain ⟨g, hg, hb⟩ : ∃ g, Formula.read f.text = .ok g ∧ some g = b.formula? := by
      rw [hf] at hformula
      exact Outcome.map_eq_ok.1 hformula
    rw [Formula.read_text hlhs hrhs] at hg
    rw [← hb, Except.ok.inj hg]

theorem SameMeasure.refl (a : Member) : SameMeasure a a :=
  ⟨fun _ => rfl, fun _ hg => hg, Iff.rfl, fun _ hf _ _ => hf⟩

/-- What is kept twice is kept. -/
theorem SameMeasure.trans {a b c : Member} (hu : a.label.uniqueName ≠ "") (h : SameMeasure a b)
    (h' : SameMeasure b c) : SameMeasure a c where
  uniqueName _ := (h'.uniqueName (h.uniqueName hu ▸ hu)).trans (h.uniqueName hu)
  aggregator g hg := h'.aggregator g (h.aggregator g hg)
  stored := h.stored.trans h'.stored
  calculated f hf hlhs hrhs := h'.calculated f (h.calculated f hf hlhs hrhs) hlhs hrhs

/-- **What is needed to read a measure back** at all are the names of the measure and its cube. -/
theorem exists_readMeasure_iff {a : Member} {ordinal : Nat} :
    (∃ b, readMeasure (measureRowOf a) ordinal = .ok b) ↔
      (a.label.name ≠ "" ∨ a.label.uniqueName ≠ "") ∧ a.cubeName ≠ "" := by
  have hname : ((measureRowOf a).text? Column.measureName).or
      ((some Column.measureUniqueName).bind (measureRowOf a).text?)
      = (presence a.label.name).or (presence a.label.uniqueName) := rfl
  constructor
  · rintro ⟨b, h⟩
    obtain ⟨hl, hcube, -⟩ := readMeasure_eq_ok.1 h
    refine ⟨?_, (presence_eq_some.1 hcube).2⟩
    have hlabel := (Label.read_eq_ok.1 hl).1
    rw [hname, Option.or_eq_some_iff] at hlabel
    rcases hlabel with h | ⟨-, h⟩
    · exact .inl (presence_eq_some.1 h).2
    · exact .inr (presence_eq_some.1 h).2
  · rintro ⟨hnames, hcube⟩
    obtain ⟨name, hread⟩ : ∃ name,
        (presence a.label.name).or (presence a.label.uniqueName) = some name := by
      -- a missing name is replaced by the unique name
      cases h : presence a.label.name with
      | none =>
        refine ⟨_, presence_of_ne (hnames.resolve_left fun hne => ?_)⟩
        rw [presence_of_ne hne] at h
        cases h
      | some name => exact ⟨name, rfl⟩
    obtain ⟨l, hl⟩ := Label.exists_read (hname.trans hread)
    obtain ⟨formula, hformula⟩ : ∃ formula,
        ((measureRowOf a).text? Column.expression).mapM Formula.read = .ok formula := by
      rw [mapM_read_expression]
      cases a.formula? with
      | none => exact ⟨none, rfl⟩
      | some f =>
        obtain ⟨g, hg⟩ := f.exists_read_text
        exact ⟨some g, Outcome.map_eq_ok.2 ⟨g, hg, rfl⟩⟩
    obtain ⟨info, hinfo⟩ : ∃ info, MeasureInfo.read (measureRowOf a) = .ok info :=
      ⟨_, Outcome.bind_eq_ok.2 ⟨formula, hformula, rfl⟩⟩
    have hrequire : (measureRowOf a).require Column.cubeName = .ok a.cubeName :=
      Row.require_eq_ok.2 (presence_of_ne hcube)
    exact ⟨_, Outcome.bind_eq_ok.2 ⟨l, hl, Outcome.bind_eq_ok.2 ⟨info, hinfo,
      Outcome.bind_eq_ok.2 ⟨a.cubeName, hrequire, rfl⟩⟩⟩⟩

/-- A measure that was read has names. -/
theorem label_of_readMeasure {row : Row} {ordinal : Nat} {a : Member}
    (h : readMeasure row ordinal = .ok a) :
    a.label.name ≠ "" ∧ a.label.uniqueName ≠ "" ∧ a.cubeName ≠ "" := by
  obtain ⟨hl, hcube, -⟩ := readMeasure_eq_ok.1 h
  exact ⟨Label.name_ne_empty hl, Label.uniqueName_ne_empty hl, Row.ne_empty_of_text? hcube⟩

/-- A measure without a unique name is read back under its quoted name. -/
theorem uniqueName_of_readMeasure {a b : Member} {ordinal : Nat}
    (h : readMeasure (measureRowOf a) ordinal = .ok b) (hu : a.label.uniqueName = "") :
    a.label.name ≠ "" ∧ b.label.uniqueName = quoteSegment a.label.name := by
  obtain ⟨hname, hunique, -⟩ := Label.read_eq_ok.1 (readMeasure_eq_ok.1 h).1
  have hn : (measureRowOf a).text? Column.measureName = presence a.label.name := rfl
  have hu' : (measureRowOf a).text? Column.measureUniqueName = none := by
    change presence a.label.uniqueName = none
    rw [hu]
    rfl
  rw [Option.bind_some, hu', hn, Option.or_none, presence_eq_some] at hname
  rw [Option.bind_some, hu', ← hname.1] at hunique
  exact ⟨hname.2, hunique⟩

theorem readMeasures_eq_ok {rows : RowSet} {measures : List Member} :
    readMeasures rows = .ok measures ↔
      List.Forall₂ (fun (row : Row × Nat) b => readMeasure row.1 row.2 = .ok b)
        rows.tuples.zipIdx measures :=
  Outcome.mapM_eq_ok

/-- The rows of measures, each with what is read from it. -/
theorem forall₂_readMeasures {rows : RowSet} {measures : List Member}
    (h : readMeasures rows = .ok measures) :
    List.Forall₂ (fun row b => ∃ ordinal, readMeasure row ordinal = .ok b) rows.tuples
      measures := by
  have hordinal : ∀ (row : Row × Nat) b, readMeasure row.1 row.2 = .ok b →
      ∃ ordinal, readMeasure row.1 ordinal = .ok b := by
    intro row b hrow
    exact ⟨row.2, hrow⟩
  rw [← List.zipIdx_map_fst 0 rows.tuples, List.forall₂_map_left_iff]
  exact (readMeasures_eq_ok.1 h).imp hordinal

/-- The measures of a row set, each with what is read back of it. -/
theorem forall₂_readMeasures_measureRowSet {measures result : List Member}
    (h : readMeasures (measureRowSet measures) = .ok result) :
    List.Forall₂ (fun a b => ∃ ordinal, readMeasure (measureRowOf a) ordinal = .ok b) measures
      result := by
  have h' := forall₂_readMeasures h
  rwa [tuples_measureRowSet, List.forall₂_map_left_iff] at h'

/-- Measures are read back if each of them is. -/
theorem exists_readMeasures {measures : List Member}
    (h : ∀ a ∈ measures, ∀ ordinal, ∃ b, readMeasure (measureRowOf a) ordinal = .ok b) :
    ∃ result, readMeasures (measureRowSet measures) = .ok result := by
  have hrows : ∀ row ∈ (measureRowSet measures).tuples.zipIdx,
      ∃ b, readMeasure row.1 row.2 = .ok b := by
    rintro ⟨row, ordinal⟩ hrow
    have hmem : row ∈ (measureRowSet measures).tuples := List.fst_mem_of_mem_zipIdx hrow
    rw [tuples_measureRowSet] at hmem
    obtain ⟨a, ha, rfl⟩ := List.mem_map.1 hmem
    exact h a ha ordinal
  simp only [readMeasures_eq_ok]
  exact exists_forall₂ hrows

end Datacube
