import Datacube.Inquiry
import Datacube.Memory.Engine
import Datacube.Proofs.Rows

/-!
# Objects that are read back

An object that has a unique name, and whose numbers are counts, is read back from its row, but what
has no name goes by its unique name.  So if all objects that satisfy restrictions are such, then
exactly these are read from the rows that an engine in memory lists.

## Main definitions

* `Label.served`, `Dimension.served`, … — what is read of a label and of an object.
* `Label.Complete` — whether no name is empty.

## Main results

* `Dimension.read_rowOf_served`, … — **objects are read back** under the names that they have.
* `Label.Complete.served` — nothing is lost of a complete label.
* `isNamed_of_served` — an object answers to the same segments after it has been read.
* `readAll_rowsOf` — **what is listed is what satisfies the restrictions**.
* `admits_dimension`, … — the restrictions of each collection on the rows of its objects.
-/

namespace Datacube

/-! ### Labels -/

/-- What is read of a label: the unique name stands in for a name that is empty, and the name for a
caption. -/
def Label.served (l : Label) : Label :=
  let name := (presence l.name).getD l.uniqueName
  { l with name, caption := (presence l.caption).getD name }

@[simp] theorem Label.uniqueName_served (l : Label) : l.served.uniqueName = l.uniqueName := rfl

/-- Whether no name is empty. -/
structure Label.Complete (l : Label) : Prop where
  name : l.name ≠ ""
  uniqueName : l.uniqueName ≠ ""
  caption : l.caption ≠ ""

theorem Label.complete_ofName {uniqueName name : String} (hu : uniqueName ≠ "") (hn : name ≠ "") :
    (Label.ofName uniqueName name).Complete := ⟨hn, hu, hn⟩

/-- **Nothing is lost of a complete label.** -/
theorem Label.Complete.served {l : Label} (h : l.Complete) : l.served = l := by
  rw [Label.served, presence_of_ne h.name, presence_of_ne h.caption]
  rfl

/-- **A label is read back** if it has a unique name. -/
theorem Label.read_served {row : Row} {l : Label}
    {nameColumn uniqueNameColumn captionColumn : String}
    (hn : row.text? nameColumn = presence l.name)
    (hu : row.text? uniqueNameColumn = presence l.uniqueName)
    (hc : row.text? captionColumn = presence l.caption)
    (hd : row.text? Column.description = presence l.description) (hu' : l.uniqueName ≠ "") :
    Label.read row nameColumn (some uniqueNameColumn) (some captionColumn) = .ok l.served := by
  rw [Label.read_eq_ok, Option.bind_some, Option.bind_some, hn, hu, hc, hd, presence_of_ne hu',
    presence_getD]
  refine ⟨?_, rfl, rfl, rfl⟩
  rw [Label.served]
  cases presence l.name <;> rfl

/-- **An object answers to the same segments** after it has been read, apart from the empty segment,
to which it may answer only if its unique name is the quoted name. -/
theorem isNamed_of_served {α β : Type} [Labelled α] [Labelled β] {a : α} {b : β}
    (h : label b = (label a).served) {segment : String}
    (hsegment : segment ≠ "" ∨ uniqueName a = quoteSegment (label a).name) :
    isNamed b segment = isNamed a segment := by
  rw [isNamed, isNamed, h, Label.served]
  by_cases hname : (label a).name = ""
  · have hempty : presence (label a).name = none := by
      rw [hname]
      rfl
    rw [hempty, hname, Option.getD_none]
    by_cases hempty : segment = ""
    -- an empty segment is found by its quotation
    · have hunique : (label a).uniqueName = quoteSegment segment := by
        have hquoted := hsegment.resolve_left fun hne => hne hempty
        rwa [hname, ← hempty] at hquoted
      rw [hunique, beq_self_eq_true, Bool.or_true, Bool.or_true]
    -- the unique name is tried twice
    · rw [beq_false_of_ne (Ne.symm hempty), Bool.or_self, Bool.false_or]
  · rw [presence_of_ne hname]
    rfl

/-! ### Dimensions and hierarchies -/

theorem DimensionType.parse_repr_code (t : DimensionType) : parse t.code.repr = t := by
  cases t <;> decide +kernel

namespace Dimension

theorem read_eq_ok {row : Row} {a : Dimension} : Record.read row = .ok a ↔
    Label.read row Column.dimensionName (some Column.dimensionUniqueName)
        (some Column.dimensionCaption) = .ok a.label
      ∧ row.text? Column.cubeName = some a.cubeName
      ∧ a.type = ((row.text? Column.dimensionType).map DimensionType.parse).getD .unknown
      ∧ row.countOrZero Column.dimensionOrdinal = .ok a.ordinal := by
  constructor
  · intro h
    obtain ⟨l, hl, h⟩ := Outcome.bind_eq_ok.1 h
    obtain ⟨cube, hcube, h⟩ := Outcome.bind_eq_ok.1 h
    obtain ⟨ordinal, hordinal, h⟩ := Outcome.bind_eq_ok.1 h
    cases h
    exact ⟨hl, Row.require_eq_ok.1 hcube, rfl, hordinal⟩
  · rintro ⟨hl, hcube, htype, hordinal⟩
    refine Outcome.bind_eq_ok.2 ⟨_, hl, ?_⟩
    refine Outcome.bind_eq_ok.2 ⟨_, Row.require_eq_ok.2 hcube, ?_⟩
    refine Outcome.bind_eq_ok.2 ⟨_, hordinal, ?_⟩
    cases a
    subst htype
    rfl

/-- What is read of a dimension. -/
def served (a : Dimension) : Dimension := { a with label := a.label.served }

theorem served_of_complete {a : Dimension} (h : a.label.Complete) : a.served = a := by
  rw [served, h.served]

/-- **A dimension is read back.** -/
theorem read_rowOf_served {a : Dimension} (hu : a.label.uniqueName ≠ "") (hcube : a.cubeName ≠ "")
    (hordinal : a.ordinal < countBound) : Record.read (rowOf a) = .ok a.served := by
  have htype : (rowOf a).text? Column.dimensionType = some a.type.code.repr :=
    presence_of_ne (by cases a.type <;> decide)
  refine read_eq_ok.2 ⟨Label.read_served rfl rfl rfl rfl hu, presence_of_ne hcube, ?_,
    (Row.countOrZero_of_repr rfl).2 ⟨rfl, hordinal⟩⟩
  rw [htype, Option.map_some, DimensionType.parse_repr_code, Option.getD_some]
  rfl

end Dimension

namespace Hierarchy

theorem read_eq_ok {row : Row} {a : Hierarchy} : Record.read row = .ok a ↔
    Label.read row Column.hierarchyName (some Column.hierarchyUniqueName)
        (some Column.hierarchyCaption) = .ok a.label
      ∧ row.text? Column.cubeName = some a.cubeName
      ∧ row.text? Column.dimensionUniqueName = some a.dimension := by
  constructor
  · intro h
    obtain ⟨l, hl, h⟩ := Outcome.bind_eq_ok.1 h
    obtain ⟨cube, hcube, h⟩ := Outcome.bind_eq_ok.1 h
    obtain ⟨dimension, hdimension, h⟩ := Outcome.bind_eq_ok.1 h
    cases h
    exact ⟨hl, Row.require_eq_ok.1 hcube, Row.require_eq_ok.1 hdimension⟩
  · rintro ⟨hl, hcube, hdimension⟩
    refine Outcome.bind_eq_ok.2 ⟨_, hl, ?_⟩
    refine Outcome.bind_eq_ok.2 ⟨_, Row.require_eq_ok.2 hcube, ?_⟩
    exact Outcome.bind_eq_ok.2 ⟨_, Row.require_eq_ok.2 hdimension, rfl⟩

/-- What is read of a hierarchy. -/
def served (a : Hierarchy) : Hierarchy := { a with label := a.label.served }

theorem served_of_complete {a : Hierarchy} (h : a.label.Complete) : a.served = a := by
  rw [served, h.served]

/-- **A hierarchy is read back.** -/
theorem read_rowOf_served {a : Hierarchy} (hu : a.label.uniqueName ≠ "") (hcube : a.cubeName ≠ "")
    (hdimension : a.dimension ≠ "") : Record.read (rowOf a) = .ok a.served :=
  read_eq_ok.2 ⟨Label.read_served rfl rfl rfl rfl hu, presence_of_ne hcube,
    presence_of_ne hdimension⟩

end Hierarchy

/-! ### Levels and members -/

namespace Level

/-- What is read of a level. -/
def served (a : Level) : Level := { a with label := a.label.served }

theorem served_of_complete {a : Level} (h : a.label.Complete) : a.served = a := by
  rw [served, h.served]

/-- **A level is read back.** -/
theorem read_rowOf_served {a : Level} (hu : a.label.uniqueName ≠ "") (hcube : a.cubeName ≠ "")
    (hdimension : a.dimension ≠ "") (hhierarchy : a.hierarchy ≠ "") (hdepth : a.depth < countBound)
    (hcardinality : a.cardinality < countBound) : Record.read (rowOf a) = .ok a.served :=
  read_eq_ok.2 ⟨Label.read_served rfl rfl rfl rfl hu, presence_of_ne hcube,
    presence_of_ne hdimension, presence_of_ne hhierarchy,
    (Row.countOrZero_of_repr rfl).2 ⟨rfl, hdepth⟩,
    (Row.countOrZero_of_repr rfl).2 ⟨rfl, hcardinality⟩⟩

end Level

namespace Member

/-- What is read of an ordinary member. -/
def served (a : Member) : Member := { a with label := a.label.served }

theorem served_of_complete {a : Member} (h : a.label.Complete) : a.served = a := by
  rw [served, h.served]

/-- **An ordinary member is read back.** -/
theorem read_rowOf_served {a : Member} (hu : a.label.uniqueName ≠ "") (hcube : a.cubeName ≠ "")
    (hdimension : a.dimension ≠ "") (hhierarchy : a.hierarchy ≠ "") (hlevel : a.level ≠ "")
    (hdepth : a.depth < countBound) (hordinal : a.ordinal < countBound)
    (hparent : a.parent ≠ some "") (htype : a.type = .regular) (hproperties : a.properties = [])
    (hmeasure : a.measure = none) : Record.read (rowOf a) = .ok a.served := by
  have hread : MemberType.read (rowOf a) = .regular := by
    rw [read_rowOf_type hmeasure, htype]
  refine read_eq_ok.2 ⟨Label.read_served rfl rfl rfl rfl hu, ?_, presence_of_ne hcube,
    presence_of_ne hdimension, presence_of_ne hhierarchy, presence_of_ne hlevel,
    (Row.countOrZero_of_repr rfl).2 ⟨rfl, hdepth⟩, (Row.countOrZero_of_repr rfl).2 ⟨rfl, hordinal⟩,
    ?_, htype.trans hread.symm, hproperties⟩
  · rw [hread]
    exact congrArg Except.ok hmeasure.symm
  · change a.parent = presence (a.parent.getD "")
    cases e : a.parent with
    | none => rfl
    | some s =>
      refine (presence_of_ne ?_).symm
      rintro rfl
      exact hparent e

end Member

/-! ### Measures -/

/-- A measure belongs to the level that its row gives. -/
theorem level_of_readMeasure {row : Row} {ordinal : Nat} {a : Member}
    (h : readMeasure row ordinal = .ok a) :
    a.level = (row.text? Column.levelUniqueName).getD measuresLevel := by
  obtain ⟨-, -, -, -, -, hlevel, -⟩ := readMeasure_eq_ok.1 h
  exact hlevel

/-! ### Rows that satisfy restrictions -/

/-- **What is listed is what satisfies the restrictions**, if all of this is read back. -/
theorem readAll_rowsOf {α : Type} [Record α] {r : Restrictions} {objects : List α} {f : α → α}
    (h : ∀ a ∈ objects, r.admits (rowOf a) = true → Record.read (rowOf a) = .ok (f a)) :
    readAll α (MemoryEngine.rowsOf r objects)
      = .ok ((objects.filter fun a => r.admits (rowOf a)).map f) := by
  refine Outcome.mapM_eq_ok.2 ?_
  rw [MemoryEngine.rowsOf, RowSet.tuples_filter, tuples_rowSetOf_eq_map, List.filter_map,
    List.forall₂_map_left_iff, List.forall₂_map_right_iff]
  refine List.forall₂_same.2 fun a ha => ?_
  obtain ⟨hmem, hadmits⟩ := List.mem_filter.1 ha
  exact h a hmem hadmits

/-- Measures that all satisfy restrictions are all listed. -/
theorem filter_measureRowSet {p : Row → Bool} {measures : List Member}
    (h : ∀ a ∈ measures, p (measureRowOf a) = true) :
    (measureRowSet measures).filter p = measureRowSet measures := by
  refine RowSet.ext rfl (List.filter_eq_self.2 fun row hrow => ?_)
  obtain ⟨a, ha, rfl⟩ := List.mem_map.1 hrow
  exact h a ha

section

variable {σ : Type} (s : Store σ) (x : Cube)

theorem admits_dimension (a : Dimension) :
    (s.restrictions (.dimensions x)).admits (rowOf a) = (a.cubeName == x.label.name) :=
  Bool.and_true _

theorem admits_measure (a : Member) :
    (s.restrictions (.measures x)).admits (measureRowOf a) = (a.cubeName == x.label.name) :=
  Bool.and_true _

theorem admits_hierarchy (d : Dimension) (a : Hierarchy) :
    (s.restrictions (.hierarchies x d)).admits (rowOf a)
      = (a.cubeName == x.label.name && a.dimension == d.label.uniqueName) :=
  congrArg (_ && ·) (Bool.and_true _)

theorem admits_level (h : Hierarchy) (a : Level) :
    (s.restrictions (.levels x h)).admits (rowOf a)
      = (a.cubeName == x.label.name && (a.dimension == h.dimension
        && a.hierarchy == h.label.uniqueName)) :=
  congrArg (_ && ·) (congrArg (_ && ·) (Bool.and_true _))

theorem admits_member (l : Level) (a : Member) :
    (s.restrictions (.members x l)).admits (rowOf a)
      = (a.cubeName == x.label.name && (a.dimension == l.dimension
        && (a.hierarchy == l.hierarchy && a.level == l.label.uniqueName))) :=
  congrArg (_ && ·) (congrArg (_ && ·) (congrArg (_ && ·) (Bool.and_true _)))

end

end Datacube
