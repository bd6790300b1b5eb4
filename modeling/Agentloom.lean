import Agentloom.Api.Discovery
import Agentloom.Cache.Bust
import Agentloom.Cache.Key
import Agentloom.Contextmgr.Compact
import Agentloom.Cost.Merging
import Agentloom.Dag.CanonicalText
import Agentloom.Dag.Cycles
import Agentloom.Dag.ReadyNaive
import Agentloom.Dashboard.Diff
import Agentloom.Engine.Branches
import Agentloom.Engine.Budgeting
import Agentloom.Engine.LateSuccess
import Agentloom.Engine.Metering
import Agentloom.Engine.Readiness
import Agentloom.Engine.Restoring
import Agentloom.Engine.Timeouts
import Agentloom.Engine.Trail
import Agentloom.Engine.VerdictHistory
import Agentloom.Exec.Effects
import Agentloom.Queue.Trim
import Agentloom.Store.Caps
import Agentloom.Validate.Verdicts
