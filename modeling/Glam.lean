import Glam.Store.Conflict
import Glam.Store.Dependency
import Glam.Store.FastPath
import Glam.Store.Serial
import Glam.Net.WalkCycle
import Glam.Net.Boundary
import Glam.Net.Custody
import Glam.Gc.Marking
import Glam.Gc.GateSafe
import Glam.Eval.ComparisonLaws
import Glam.Eval.Volume
import Glam.Eval.PatternTake
import Glam.Eval.PatternMatch
import Glam.Coordinator.Wakeups
import Glam.Coordinator.WaitCycle
import Glam.Syntax.Splice
import Glam.Reflection.Waiting
import Glam.Net.Copy
import Glam.Net.Normalize
import Glam.Syntax.WellLexed
import Glam.Lists.Compare
import Glam.Lists.Transform
import Glam.Syntax.Infix
import Glam.Syntax.RecursiveDo
import Glam.Syntax.ListLiteral
import Glam.Syntax.DictLiteral
import Glam.Syntax.Shadowing
