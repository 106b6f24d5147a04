import Datacube.Connection
import Datacube.Deferred.KeyedThreads
import Datacube.Engine.Table
import Datacube.Memory.Description
import Datacube.Memory.Engine
import Datacube.Proofs.Lists
import Datacube.Proofs.Assurance
import Datacube.Proofs.Texts
import Datacube.Proofs.Rows
import Datacube.Proofs.Lookups
import Datacube.Proofs.Evaluation
import Datacube.Proofs.Statements
import Datacube.Proofs.Plans
import Datacube.Proofs.Stores
import Datacube.Proofs.CellAccess
import Datacube.Proofs.Descriptions
import Datacube.Proofs.Ancestors
import Datacube.Proofs.Executions
import Datacube.Proofs.MemoryEngines
import Datacube.Proofs.CellValues
import Datacube.Proofs.Formulas
import Datacube.Proofs.SharedSlots
import Datacube.Proofs.SingleFlight
import Datacube.Inquiry
import Datacube.SharedStore
import Datacube.Proofs.Freshness
import Datacube.Proofs.Transparency
import Datacube.Proofs.RoundTrips
import Datacube.Proofs.Rewriting
import Datacube.Proofs.Declarations
import Datacube.Proofs.ServedMetadata
import Datacube.Proofs.SharedStores
import Datacube.Proofs.CellLookups
import Datacube.Proofs.RollUps
import Datacube.Proofs.Comparisons
import Datacube.Proofs.Isolation
import Datacube.Proofs.Octets
import Datacube.Proofs.UniqueNames
import Datacube.Proofs.ResourceNames
import Datacube.Proofs.Yields
import Datacube.Proofs.Resolution
import Datacube.Cells.Words
import Datacube.Proofs.Grids
import Datacube.Proofs.KeyOrders
import Datacube.Proofs.Partitions
import Datacube.Proofs.SharedRows
import Datacube.Proofs.BreadthFirst
import Datacube.Proofs.PrunedSearches
import Datacube.Proofs.AncestorOrder
import Datacube.Proofs.Parentage
import Datacube.Proofs.DeclaredFormulas
import Datacube.Proofs.BoundedSearches
import Datacube.Proofs.SearchEnds
import Datacube.Proofs.PlanLookups
import Datacube.Proofs.Signatures
import Datacube.Proofs.KeptAnswers
import Datacube.Proofs.MemoryLookups
import Datacube.Proofs.DimensionUse
import Datacube.Proofs.Narrowing
import Datacube.Proofs.Crossjoins
import Datacube.Proofs.ResultHeaders
import Datacube.Proofs.Expressions
import Datacube.Proofs.Correspondences
import Datacube.Proofs.FlatSets
import Datacube.Proofs.Recollections
import Datacube.Proofs.NamedSets
import Datacube.Proofs.DescribedAxes
import Datacube.Proofs.NumberGrammars
import Datacube.Proofs.CalculatedOrdinals
import Datacube.Proofs.KeptProviders
import Datacube.Proofs.TestedElements
import Datacube.Proofs.Filters
import Datacube.Proofs.CubeSelection
