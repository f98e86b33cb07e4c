import Codex.ApplyPatch.Agreement
import Codex.ApplyPatch.Grammar
import Codex.ApplyPatch.Verify
import Codex.Permissions.EntryOrder
import Codex.ExecPolicy.Overlay
import Codex.Permissions.LegacySandboxPolicy
import Codex.ExecPolicy.Amend
import Codex.RemoteControl.Completions
import Codex.RemoteControl.LifeCycle
import Codex.RemoteControl.Unacknowledged
import Codex.ExecServer.Recovery
import Codex.ExecServer.NoiseDelivery
import Codex.ExecServer.Activation
import Codex.ShellCommand.IsSafeCommand
import Codex.Tui.Editing
import Codex.NetworkProxy.BlockedLog
import Codex.NetworkProxy.LivePolicy
import Codex.Agent.Accounting
import Codex.Mcp.CodeModeNames
import Codex.CodeMode.Frontier
import Codex.ThreadHistory.RollbackViews
import Codex.Rollout.Compression
import Codex.ApplyPatch.Regions
import Codex.ApplyPatch.Reparse
import Codex.ApplyPatch.Progress
import Codex.TurnDiff.DiffCache
import Codex.Session.EarlyExit
import Codex.Streaming.Transcript
import Codex.Config.OriginsAgree
import Codex.ContextManager.Trim
import Codex.Session.ForkPositions
import Codex.Permissions.FullDiskAccess
import Codex.Permissions.ReadDeny
import Codex.Permissions.Granting
import Codex.NetworkProxy.HostNormalForm
import Codex.ExecPolicy.RuleHost
import Codex.RemoteControl.SplitRoundTrip
import Codex.ExecServer.StdinWrites
import Codex.ExecServer.HttpBodyStream
import Codex.ExecServer.PagedReads
import Codex.ThreadHistory.ItemIds
import Codex.Agent.Nicknames
import Codex.Context.WorldState
import Codex.PathUri.HostPath
import Codex.PathUri.RoundTrip
import Codex.Rollout.SessionIndex
import Codex.Readiness.ReadinessFlag
import Codex.MessageHistory.History
import Codex.Streaming.TableScan
import Codex.Tools.DanglingReferences
import Codex.ContextManager.RepeatedCompaction
import Codex.UnifiedExec.HeadTailBuffer
import Codex.ContextManager.TruncateItems
import Codex.StreamParser.Utf8Stream
import Codex.FuzzyMatch.Matching
import Codex.Session.AssistantStream
