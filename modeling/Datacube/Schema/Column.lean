/-!
# Column names

The names of the columns in which schema objects are described.  Engines use them in the rows
that they return, and plans use them in the parameters of their operators.
-/

namespace Datacube.Column

def dataSourceName : String := "DATA_SOURCE_NAME"
def dataSourceDescription : String := "DATA_SOURCE_DESCRIPTION"
def url : String := "URL"

def catalogName : String := "CATALOG_NAME"
def schemaName : String := "SCHEMA_NAME"
def description : String := "DESCRIPTION"

def cubeName : String := "CUBE_NAME"
def cubeCaption : String := "CUBE_CAPTION"

def dimensionName : String := "DIMENSION_NAME"
def dimensionUniqueName : String := "DIMENSION_UNIQUE_NAME"
def dimensionCaption : String := "DIMENSION_CAPTION"
def dimensionOrdinal : String := "DIMENSION_ORDINAL"
def dimensionType : String := "DIMENSION_TYPE"

def hierarchyName : String := "HIERARCHY_NAME"
def hierarchyUniqueName : String := "HIERARCHY_UNIQUE_NAME"
def hierarchyCaption : String := "HIERARCHY_CAPTION"

def levelName : String := "LEVEL_NAME"
def levelUniqueName : String := "LEVEL_UNIQUE_NAME"
def levelCaption : String := "LEVEL_CAPTION"
def levelNumber : String := "LEVEL_NUMBER"
def levelCardinality : String := "LEVEL_CARDINALITY"

def memberName : String := "MEMBER_NAME"
def memberUniqueName : String := "MEMBER_UNIQUE_NAME"
def memberCaption : String := "MEMBER_CAPTION"
def memberType : String := "MEMBER_TYPE"
def memberOrdinal : String := "MEMBER_ORDINAL"
def parentUniqueName : String := "PARENT_UNIQUE_NAME"

def measureName : String := "MEASURE_NAME"
def measureUniqueName : String := "MEASURE_UNIQUE_NAME"
def measureCaption : String := "MEASURE_CAPTION"
def measureAggregator : String := "MEASURE_AGGREGATOR"
def dataType : String := "DATA_TYPE"
def expression : String := "EXPRESSION"

end Datacube.Column
