import AgentMultiplexer.Access.PolicyConfinement
import AgentMultiplexer.Access.DurableUnion
import AgentMultiplexer.SessionRpc.Truthful
import AgentMultiplexer.RuntimeEvents.PageThenFollow
import AgentMultiplexer.Direct.RevocationBarrier
import AgentMultiplexer.Direct.CreationStatus
import AgentMultiplexer.Daemon.PolicyCrossing
import AgentMultiplexer.Daemon.PermissionAnswers
import AgentMultiplexer.SessionRpc.Capacity
import AgentMultiplexer.Access.Watchers
import AgentMultiplexer.Access.RegistrySize
import AgentMultiplexer.Direct.CloudIssuance
import AgentMultiplexer.Daemon.EventHandouts
import AgentMultiplexer.Daemon.EventLimits
import AgentMultiplexer.Mux.TermModes
import AgentMultiplexer.Direct.Inventory
import AgentMultiplexer.CodexApp.Approvals
import AgentMultiplexer.CodexApp.Streaming
import AgentMultiplexer.Accounts.Status
import AgentMultiplexer.ClaudeGoal.Goal
import AgentMultiplexer.Clipboard.Stripper
import AgentMultiplexer.ProcStat.CommandLines
import AgentMultiplexer.TermSelect.Geometry
