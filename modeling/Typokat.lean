import Typokat.Frontend.Provenance
import Typokat.Types.LayeredMaps
import Typokat.Types.Identity
import Typokat.Types.ExactSummaries
import Typokat.Types.Fork
import Typokat.Query.IdentityRuns
import Typokat.Check.Events
import Typokat.Check.FlowWrites
import Typokat.Check.FlowScopes
import Typokat.Check.FlowOrder
import Typokat.Check.Narrow
import Typokat.Check.MappedKeys
import Typokat.Check.Params
import Typokat.Check.Concrete
import Typokat.Check.FunctionGroupRuns
import Typokat.Check.ClassTables
import Typokat.Check.ClassPoison
import Typokat.Replay.Preflight
import Typokat.Check.TemplateInference
import Typokat.Check.RestInference
import Typokat.Relate.TupleSoundness
import Typokat.Check.ReturnContext
import Typokat.Diagnostics.RenderBounds
import Typokat.Diagnostics.RenderLines
import Typokat.Query.PlannerRuns
import Typokat.Relate.CacheRuns
import Typokat.Relate.EnvironmentIdentity
import Typokat.Check.ExcessTuples
import Typokat.Check.ExcessIntersections
