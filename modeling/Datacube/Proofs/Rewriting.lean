import Datacube.Proofs.RoundTrips

/-!
# Rows that are written again

Whatever rows describe schema objects, the objects can be written to rows of their own, from which
they are read again: the names and numbers that were filled in where a value was missing settle at
once.  Of a member only the extra properties are lost, for which there are no columns.  The formula
of a calculated measure is kept if it is legible, and otherwise another formula is read in its
place.

## Main definitions

* `Settles` — whether the objects of a row set are read again from the rows that they are written to.
* `Member.plain` — a member without extra properties.

## Main results

* `Settles.of_read_rowOf` — row sets settle if single rows do.
* `Database.read_rowOf`, … — **single rows settle**.
* `rows_settle` — **all row sets settle**.
* `Formula.kept_iff` — **what is kept of formulas**.
-/

namespace Datacube

/-! ### Row sets -/

/-- Whether the objects that a row set describes are read again from the rows that they are written
to, up to what `f` takes away from them. -/
def Settles (α : Type) [Record α] (f : α → α) (rows : RowSet) : Prop :=
  ∀ objects : List α, readAll α rows = .ok objects →
    readAll α (rowSetOf objects) = .ok (objects.map f)

theorem Settles.of_read_rowOf {α : Type} [Record α] {f : α → α} {rows : RowSet}
    (h : ∀ row ∈ rows.tuples, ∀ a : α, Record.read row = .ok a →
      Record.read (rowOf a) = .ok (f a)) : Settles α f rows := by
  intro objects hobjects
  have hread : List.Forall₂ (fun row (a : α) => Record.read row = .ok a) rows.tuples objects :=
    Outcome.mapM_eq_ok.1 hobjects
  rw [readAll_rowSetOf, List.forall₂_map_right_iff]
  refine List.forall₂_same.2 fun a ha => ?_
  obtain ⟨row, hrow, hrowRead⟩ := exists_left_of_forall₂ hread ha
  exact h row hrow a hrowRead

/-- Objects that are read again as they are. -/
theorem Settles.of_read_rowOf_id {α : Type} [Record α] {rows : RowSet}
    (h : ∀ row (a : α), Record.read row = .ok a → Record.read (rowOf a) = .ok a) :
    Settles α id rows :=
  .of_read_rowOf fun row _ => h row

/-! ### Labels -/

/-- A label whose unique name and caption are derived from its name is read back as soon as the name
is. -/
theorem Label.read_again {row : Row} (row' : Row) {nameColumn : String} {l : Label}
    (h : Label.read row nameColumn none none = .ok l)
    (hn : row'.text? nameColumn = presence l.name) : Label.read row' nameColumn none none
      = .ok { l with description := (row'.text? Column.description).getD "" } := by
  obtain ⟨-, hu, hc, -⟩ := Label.read_eq_ok.1 h
  refine Label.read_eq_ok.2 ⟨?_, hu, hc, rfl⟩
  rw [hn, presence_of_ne (Label.name_ne_empty h)]
  rfl

theorem Label.complete_of_read {row : Row} {nameColumn : String}
    {uniqueNameColumn captionColumn : Option String} {l : Label}
    (h : Label.read row nameColumn uniqueNameColumn captionColumn = .ok l) : l.Complete :=
  ⟨Label.name_ne_empty h, Label.uniqueName_ne_empty h, Label.caption_ne_empty h⟩

/-! ### Databases, catalogs and schemas -/

namespace Database

theorem read_eq_ok {row : Row} {a : Database} : Record.read row = .ok a ↔
    ∃ l, Label.read row Column.dataSourceName none none = .ok l
      ∧ a.label = { l with
          uniqueName := l.name
          description := (row.text? Column.dataSourceDescription).getD l.description }
      ∧ a.url = row.text? Column.url := by
  constructor
  · intro h
    obtain ⟨l, hl, h⟩ := Outcome.bind_eq_ok.1 h
    cases h
    exact ⟨l, hl, rfl, rfl⟩
  · rintro ⟨l, hl, hlabel, hurl⟩
    refine Outcome.bind_eq_ok.2 ⟨l, hl, ?_⟩
    cases a
    subst hlabel hurl
    rfl

/-- **A database that was read from a row is read back**, with whichever description was found. -/
theorem read_rowOf {row : Row} {a : Database} (h : Record.read row = .ok a) :
    Record.read (rowOf a) = .ok a := by
  obtain ⟨l, hl, hlabel, hurl⟩ := read_eq_ok.1 h
  have hname : (rowOf a).text? Column.dataSourceName = presence l.name := by
    rw [show l.name = a.label.name by rw [hlabel]]
    rfl
  have hdescription : (rowOf a).text? Column.dataSourceDescription
      = presence a.label.description := rfl
  refine read_eq_ok.2 ⟨_, Label.read_again _ hl hname, ?_, (Row.presence_getD_of_text? hurl).symm⟩
  -- there is no column for a general description
  have hgeneral : (rowOf a).text? Column.description = none := rfl
  rw [hdescription, hgeneral, hlabel]
  simp only [Option.getD_none, presence_getD]

end Database

namespace Catalog

theorem read_eq_ok {row : Row} {a : Catalog} : Record.read row = .ok a ↔
    Label.read row Column.catalogName none none = .ok a.label := by
  constructor
  · intro h
    obtain ⟨l, hl, h⟩ := Outcome.bind_eq_ok.1 h
    cases h
    exact hl
  · intro hl
    exact Outcome.bind_eq_ok.2 ⟨_, hl, rfl⟩

/-- **A catalog that was read from a row is read back.** -/
theorem read_rowOf {row : Row} {a : Catalog} (h : Record.read row = .ok a) :
    Record.read (rowOf a) = .ok a := by
  have hl := Label.read_again (rowOf a) (read_eq_ok.1 h) rfl
  have hdescription : (rowOf a).text? Column.description = presence a.label.description := rfl
  rw [hdescription, presence_getD] at hl
  exact read_eq_ok.2 hl

end Catalog

namespace Schema

theorem read_eq_ok {row : Row} {a : Schema} : Record.read row = .ok a ↔
    Label.read row Column.schemaName none none = .ok a.label
      ∧ row.text? Column.catalogName = some a.catalogName := by
  constructor
  · intro h
    obtain ⟨l, hl, h⟩ := Outcome.bind_eq_ok.1 h
    obtain ⟨catalog, hcatalog, h⟩ := Outcome.bind_eq_ok.1 h
    cases h
    exact ⟨hl, Row.require_eq_ok.1 hcatalog⟩
  · rintro ⟨hl, hcatalog⟩
    refine Outcome.bind_eq_ok.2 ⟨_, hl, ?_⟩
    exact Outcome.bind_eq_ok.2 ⟨_, Row.require_eq_ok.2 hcatalog, rfl⟩

/-- **A schema that was read from a row is read back.** -/
theorem read_rowOf {row : Row} {a : Schema} (h : Record.read row = .ok a) :
    Record.read (rowOf a) = .ok a := by
  obtain ⟨hl, hcatalog⟩ := read_eq_ok.1 h
  have hl' := Label.read_again (rowOf a) hl rfl
  have hdescription : (rowOf a).text? Column.description = presence a.label.description := rfl
  rw [hdescription, presence_getD] at hl'
  exact read_eq_ok.2 ⟨hl', Row.presence_of_text? hcatalog⟩

end Schema

/-! ### Dimensions and hierarchies -/

/-- **A dimension that was read from a row is read back.** -/
theorem Dimension.read_rowOf {row : Row} {a : Dimension} (h : Record.read row = .ok a) :
    Record.read (rowOf a) = .ok a := by
  obtain ⟨hl, hcube, -, hordinal⟩ := Dimension.read_eq_ok.1 h
  have hcomplete := Label.complete_of_read hl
  rw [read_rowOf_served hcomplete.uniqueName (Row.ne_empty_of_text? hcube)
    (Row.lt_countBound_of_countOrZero hordinal), served_of_complete hcomplete]

/-- **A hierarchy that was read from a row is read back.** -/
theorem Hierarchy.read_rowOf {row : Row} {a : Hierarchy} (h : Record.read row = .ok a) :
    Record.read (rowOf a) = .ok a := by
  obtain ⟨hl, hcube, hdimension⟩ := Hierarchy.read_eq_ok.1 h
  have hcomplete := Label.complete_of_read hl
  rw [read_rowOf_served hcomplete.uniqueName (Row.ne_empty_of_text? hcube)
    (Row.ne_empty_of_text? hdimension), served_of_complete hcomplete]

/-! ### Attributes of measures -/

/-- **What a measure has besides other members is read back** from its texts, unless a formula was
given. -/
theorem MeasureInfo.read_measureTexts {row row' : Row} {a : Member} {info : MeasureInfo}
    (hexpression : row.text? Column.expression = none) (h : MeasureInfo.read row = .ok info)
    (ha : a.measure = some info)
    (haggregator : row'.text? Column.measureAggregator = presence a.measureTexts.1)
    (hdatatype : row'.text? Column.dataType = presence a.measureTexts.2.1)
    (hformula : row'.text? Column.expression = presence a.measureTexts.2.2) :
    MeasureInfo.read row' = .ok info := by
  obtain ⟨hnone, -, hfound⟩ := MeasureInfo.read_eq_ok.1 h
  rw [hexpression] at hnone
  have hnone : info.formula = none := (Except.ok.inj hnone).symm
  have htexts : a.measureTexts = (info.aggregator.text, info.datatype.getD "", "") := by
    have hformula : a.formula? = none := by
      rw [Member.formula?, ha]
      exact hnone
    rw [Member.measureTexts, Member.aggregator?, hformula, ha]
    rfl
  rw [htexts] at haggregator hdatatype hformula
  have htext : info.aggregator.text ≠ "" := by cases info.aggregator <;> decide
  refine MeasureInfo.read_eq_ok.2 ⟨?_, ?_, ?_⟩
  · rw [hformula, hnone]
    rfl
  · rw [haggregator, presence_of_ne htext]
    exact info.aggregator.parse_text.symm
  · rw [hdatatype]
    exact (Row.presence_getD_of_text? hfound).symm

/-! ### Members -/

namespace Member

/-- A member without its extra properties. -/
def plain (a : Member) : Member := { a with properties := [] }

/-- The kind of a measure is read back as it is. -/
theorem read_rowOf_type_of_isMeasure {a : Member} (ha : a.isMeasure = true) :
    MemberType.read (rowOf a) = a.type := by
  have hcode : (rowOf a).text? Column.memberType = some a.type.code.repr :=
    presence_of_ne (by cases a.type <;> decide)
  have hregular : a.type ≠ .regular := by
    intro h
    rw [Member.isMeasure, h] at ha
    cases ha
  rw [MemberType.read, hcode, Option.map_some, MemberType.parse_repr_code, Option.getD_some]
  exact if_neg fun h => hregular h.1

/-- **A member that was read from a row without a formula is read back**, be it a measure or not. -/
theorem read_rowOf_plain {row : Row} {a : Member}
    (hexpression : row.text? Column.expression = none) (h : Record.read row = .ok a) :
    Record.read (rowOf a) = .ok a.plain := by
  cases ha : a.isMeasure with
  | false => exact read_rowOf h ha
  | true =>
    obtain ⟨-, hmeasure, -, -, -, -, -, -, -, htype, -⟩ := read_eq_ok.1 h
    rw [← htype, ← Member.isMeasure, ha, if_pos rfl] at hmeasure
    obtain ⟨info, hinfo, hainfo⟩ := Outcome.map_eq_ok.1 hmeasure
    have hread : MeasureInfo.read (rowOf a) = .ok info :=
      MeasureInfo.read_measureTexts hexpression hinfo hainfo.symm rfl rfl rfl
    refine read_rowOf_of_measure h (read_rowOf_type_of_isMeasure ha) ?_
    rw [ha, if_pos rfl, hread, ← hainfo]
    rfl

end Member

/-! ### Measure rows -/

theorem Row.getD_text?_ne_empty {row : Row} {column default : String} (h : default ≠ "") :
    (row.text? column).getD default ≠ "" := by
  cases htext : row.text? column with
  | none => exact h
  | some s => exact ne_empty_of_text? htext

/-- **A measure that was read from a row without a formula is read back** from its own row. -/
theorem readMeasure_measureRowOf {row : Row} {ordinal : Nat} {a : Member}
    (hexpression : row.text? Column.expression = none) (h : readMeasure row ordinal = .ok a) :
    readMeasure (measureRowOf a) ordinal = .ok a := by
  obtain ⟨hl, hcube, ⟨info, hinfo, hainfo, htype⟩, hdimension, hhierarchy, hlevel, hrest⟩ :=
    readMeasure_eq_ok.1 h
  -- names that were filled in are not empty, so they are not filled in again
  have hsettled : ∀ {s : String}, s ≠ "" → ∀ default, s = (presence s).getD default := by
    intro s hs default
    rw [presence_of_ne hs, Option.getD_some]
  have hdimension' : a.dimension ≠ "" := hdimension ▸ Row.getD_text?_ne_empty (by decide)
  have hhierarchy' : a.hierarchy ≠ "" := hhierarchy ▸ Row.getD_text?_ne_empty (by decide)
  have hlevel' : a.level ≠ "" := hlevel ▸ Row.getD_text?_ne_empty (by decide)
  have hread : MeasureInfo.read (measureRowOf a) = .ok info :=
    MeasureInfo.read_measureTexts hexpression hinfo hainfo rfl rfl rfl
  refine readMeasure_eq_ok.2 ⟨?_, Row.presence_of_text? hcube, ⟨info, hread, hainfo, htype⟩,
    hsettled hdimension' _, hsettled hhierarchy' _, hsettled hlevel' _, hrest⟩
  exact Label.read_of_ne_empty rfl rfl rfl rfl (Label.name_ne_empty hl)
    (Label.uniqueName_ne_empty hl) (Label.caption_ne_empty hl)

/-- Measures are read again at the places that they had. -/
private theorem forall₂_readMeasure_zipIdx {rows : List Row} {measures : List Member} {start : Nat}
    (hexpression : ∀ row ∈ rows, row.text? Column.expression = none)
    (h : List.Forall₂ (fun (row : Row × Nat) a => readMeasure row.1 row.2 = .ok a)
      (rows.zipIdx start) measures) :
    List.Forall₂ (fun (row : Row × Nat) a => readMeasure row.1 row.2 = .ok a)
      ((measures.map measureRowOf).zipIdx start) measures := by
  induction rows generalizing measures start with
  | nil =>
    rw [List.zipIdx_nil, List.forall₂_nil_left_iff] at h
    rw [h]
    exact .nil
  | cons row rows ih =>
    rw [List.zipIdx_cons, List.forall₂_cons_left_iff] at h
    obtain ⟨a, measures, hrow, hrows, rfl⟩ := h
    have hrowAgain := readMeasure_measureRowOf (hexpression row List.mem_cons_self) hrow
    have hrowsAgain := ih (fun row' hmem => hexpression row' (List.mem_cons_of_mem row hmem)) hrows
    exact .cons hrowAgain hrowsAgain

/-- **Measure rows settle** if they give no formulas. -/
theorem readMeasures_measureRowSet {rows : RowSet} {measures : List Member}
    (hexpression : ∀ row ∈ rows.tuples, row.text? Column.expression = none)
    (h : readMeasures rows = .ok measures) :
    readMeasures (measureRowSet measures) = .ok measures := by
  rw [readMeasures_eq_ok] at h
  rw [readMeasures_eq_ok, tuples_measureRowSet]
  exact forall₂_readMeasure_zipIdx hexpression h

/-! ### All rows -/

/-- **All row sets settle** if they give no formulas, whatever their columns and terms are: schema
objects of every kind and measures are read again from the rows that they are written to.  Of
members only the extra properties are lost. -/
theorem rows_settle {rows : RowSet}
    (h : ∀ row ∈ rows.tuples, row.text? Column.expression = none) :
    Settles Database id rows ∧ Settles Catalog id rows ∧ Settles Schema id rows
      ∧ Settles Cube id rows ∧ Settles Dimension id rows ∧ Settles Hierarchy id rows
      ∧ Settles Level id rows ∧ Settles Member Member.plain rows
      ∧ ∀ measures, readMeasures rows = .ok measures →
        readMeasures (measureRowSet measures) = .ok measures := by
  refine ⟨.of_read_rowOf_id fun _ _ => Database.read_rowOf,
    .of_read_rowOf_id fun _ _ => Catalog.read_rowOf,
    .of_read_rowOf_id fun _ _ => Schema.read_rowOf, .of_read_rowOf_id fun _ _ => Cube.read_rowOf,
    .of_read_rowOf_id fun _ _ => Dimension.read_rowOf,
    .of_read_rowOf_id fun _ _ => Hierarchy.read_rowOf,
    .of_read_rowOf_id fun _ _ => Level.read_rowOf, ?_, ?_⟩
  · exact .of_read_rowOf fun row hrow a hread => Member.read_rowOf_plain (h row hrow) hread
  · exact fun measures hmeasures => readMeasures_measureRowSet h hmeasures

/-- Rows of many columns, in no particular order and partly empty, from which objects of every kind
are read. -/
def scatteredRows : RowSet where
  columns := [Column.expression, "POPULATION", Column.memberName, Column.levelNumber,
    Column.measureAggregator, Column.measureName, Column.levelUniqueName,
    Column.hierarchyUniqueName, Column.dimensionUniqueName, Column.cubeName, Column.schemaName,
    Column.catalogName, Column.dataSourceName, Column.description]
  rows := [
    [.simple "", .typed "1900000" xsdInteger, .tagged "Wien" "de", .typed "+2" xsdInteger,
      .simple "", .simple "Amount", .iri "urn:level", .blank "h", .simple "[Geo]",
      .simple "Sales", .simple "S", .simple "C", .simple "D", .simple ""],
    [.simple "", .simple "", .simple "Average ]", .simple "", .iri "http://example.org/agg#avg",
      .simple "a.b", .iri "urn:level", .blank "h", .simple "[Geo]", .simple "Sales", .simple "S",
      .simple "C", .simple "D", .tagged "mean" "en"]]
  width_eq := by decide

/-- Objects of all kinds are read from scattered rows, and members lose a property. -/
theorem scatteredRows_settle :
    (∀ row ∈ scatteredRows.tuples, row.text? Column.expression = none)
      ∧ (readAll Database scatteredRows).isOk = true ∧ (readAll Catalog scatteredRows).isOk = true
      ∧ (readAll Schema scatteredRows).isOk = true ∧ (readAll Cube scatteredRows).isOk = true
      ∧ (readAll Dimension scatteredRows).isOk = true
      ∧ (readAll Hierarchy scatteredRows).isOk = true ∧ (readAll Level scatteredRows).isOk = true
      ∧ (readAll Member scatteredRows).map (·.map Member.properties)
        = .ok [[("CATALOG_NAME", "C"), ("DATA_SOURCE_NAME", "D"), ("MEASURE_NAME", "Amount"),
            ("POPULATION", "1900000"), ("SCHEMA_NAME", "S")],
          [("CATALOG_NAME", "C"), ("DATA_SOURCE_NAME", "D"), ("MEASURE_NAME", "a.b"),
            ("POPULATION", ""), ("SCHEMA_NAME", "S")]]
      ∧ Settles Member Member.plain scatteredRows
      ∧ (readMeasures scatteredRows).isOk = true
      ∧ ∀ measures, readMeasures scatteredRows = .ok measures →
        readMeasures (measureRowSet measures) = .ok measures := by
  have h : ∀ row ∈ scatteredRows.tuples, row.text? Column.expression = none := by decide +kernel
  obtain ⟨-, -, -, -, -, -, -, hmembers, hmeasures⟩ := rows_settle h
  refine ⟨h, ?_, ?_, ?_, ?_, ?_, ?_, ?_, ?_, hmembers, ?_, hmeasures⟩ <;> decide +kernel

/-! ### Formulas -/

/-- **What is kept of a formula** between unique names.  It is read back from its text, and with a
measure from the row of the measure, if and only if it is legible: no segment of the left operand has
the sign of its operator between blanks, and no segment at all has the sign of an operator that a
text is searched for before. -/
theorem Formula.kept_iff {f : Formula} {left right : List String} (hleft : left ≠ [])
    (hright : right ≠ []) (hlhs : f.lhs = joinSegments left) (hrhs : f.rhs = joinSegments right) :
    (f.IsLegible ↔ (∀ s ∈ left, f.operator.standsIn s = false)
        ∧ ∀ op ∈ f.operator.earlier, ∀ s ∈ left ++ right, op.standsIn s = false)
      ∧ (Formula.read f.text = .ok f ↔ f.IsLegible)
      ∧ ∀ measures : List Member,
        (∀ a ∈ measures, (a.label.name ≠ "" ∨ a.label.uniqueName ≠ "") ∧ a.cubeName ≠ "") →
        ∃ result, readMeasures (measureRowSet measures) = .ok result
          ∧ List.Forall₂ (fun a b => a.formula? = some f → (b.formula? = some f ↔ f.IsLegible))
            measures result := by
  have hread : Formula.read f.text = .ok f ↔ f.IsLegible :=
    Formula.read_text_eq_ok_iff (hlhs ▸ isBracketed_joinSegments hleft)
      (hrhs ▸ isBracketed_joinSegments hright)
  refine ⟨Formula.isLegible_iff hlhs hrhs, hread, fun measures hmeasures => ?_⟩
  obtain ⟨result, hresult⟩ := exists_readMeasures fun a ha ordinal =>
    exists_readMeasure_iff.2 (hmeasures a ha)
  refine ⟨result, hresult, (forall₂_readMeasures_measureRowSet hresult).imp ?_⟩
  rintro a b ⟨ordinal, hb⟩ hf
  have hformula := formula_of_readMeasure hb
  rw [hf] at hformula
  obtain ⟨g, hg, hgb⟩ : ∃ g, Formula.read f.text = .ok g ∧ some g = b.formula? :=
    Outcome.map_eq_ok.1 hformula
  rw [← hread, hg, ← hgb, Option.some.injEq, Except.ok.injEq]

/-- A measure that is the sum of measures with signs in their names. -/
def sumOfSigned : Member where
  label := .ofName "[Measures].[Sum]" "Sum"
  cubeName := "Sales"
  dimension := measuresDimension
  hierarchy := measuresHierarchy
  level := measuresLevel
  depth := 0
  parent := none
  type := .formula
  ordinal := 0
  properties := []
  measure := some ⟨.calculated, none, some ⟨.add, "[Measures].[A - B]", "[Measures].[C + D]"⟩⟩

/-- The sum is kept: when a text is searched for a plus sign, none is found in the left operand, and
no other sign is searched for before. -/
theorem sumOfSigned_kept : ∃ f : Formula, sumOfSigned.formula? = some f
    ∧ f.lhs = joinSegments ["Measures", "A - B"] ∧ f.rhs = joinSegments ["Measures", "C + D"]
    ∧ Formula.read f.text = .ok f
    ∧ ∃ result, readMeasures (measureRowSet [sumOfSigned]) = .ok result
      ∧ result.map Member.formula? = [some f] := by
  obtain ⟨f, hf, hlhs, hrhs, hlegible⟩ : ∃ f : Formula, sumOfSigned.formula? = some f
      ∧ f.lhs = joinSegments ["Measures", "A - B"] ∧ f.rhs = joinSegments ["Measures", "C + D"]
      ∧ f.IsLegible :=
    ⟨_, rfl, by decide +kernel, by decide +kernel, by decide +kernel⟩
  obtain ⟨-, hread, hrows⟩ := Formula.kept_iff (by decide) (by decide) hlhs hrhs
  obtain ⟨result, hresult, hkept⟩ := hrows [sumOfSigned] (by decide +kernel)
  refine ⟨f, hf, hlhs, hrhs, hread.2 hlegible, result, hresult, ?_⟩
  obtain ⟨b, rest, hb, hrest, rfl⟩ := List.forall₂_cons_left_iff.1 hkept
  rw [List.forall₂_nil_left_iff.1 hrest, List.map_singleton, (hb hf).2 hlegible]

/-- A sum in the name of a measure is taken for the sum of two measures. -/
theorem Formula.not_kept_product : ¬ ∀ (op : Arithmetic) (left right : List String),
    left ≠ [] → right ≠ [] → (∀ s ∈ left ++ right, Spelled s) →
      Formula.read (Formula.text ⟨op, joinSegments left, joinSegments right⟩)
        = .ok ⟨op, joinSegments left, joinSegments right⟩ := by
  intro h
  have hkept := h .multiply ["Measures", "A + B"] ["Measures", "C"] (by decide) (by decide)
    (by decide +kernel)
  have hread : Formula.read (Formula.text ⟨.multiply, joinSegments ["Measures", "A + B"],
      joinSegments ["Measures", "C"]⟩)
      = .ok ⟨.add, "[Measures].[A", "B] * [Measures].[C]"⟩ := by decide +kernel
  rw [hread] at hkept
  cases hkept

end Datacube
