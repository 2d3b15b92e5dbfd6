import ShardKv.Objects.ListRefinement
import ShardKv.Server.ReplyOrder
import ShardKv.Persistence.RecoveryRefinement
import ShardKv.Overflow.NoLostWrite
import ShardKv.Storage.SessionHistory
import ShardKv.Server.GetForms
import ShardKv.Persistence.CrashRecovery
import ShardKv.Server.ExecIsolation
import ShardKv.Server.WatchSoundness
import ShardKv.Storage.NonInterference
import ShardKv.Server.KeyIdentity
import ShardKv.Protocol.FastResponses
import ShardKv.Protocol.FastRequests
import ShardKv.Protocol.NativeRedis
import ShardKv.Overflow.OverflowRestore
import ShardKv.Overflow.Handoff
import ShardKv.Overflow.ObjectPayload
import ShardKv.Overflow.BudgetExactness
import ShardKv.Objects.ObjectExactness
import ShardKv.Objects.FieldDeadlines
import ShardKv.Protocol.CommandParsers
import ShardKv.Storage.CodecNamespaces
import ShardKv.Objects.ZSetRanges
import ShardKv.Storage.StringWrites
import ShardKv.Objects.ModuleRanges
import ShardKv.Objects.StreamRanges
import ShardKv.Objects.BucketIntegrity
import ShardKv.Objects.ZAddConditions
import ShardKv.Objects.ListPositions
import ShardKv.Objects.RateLimit
import ShardKv.Objects.GlobPatterns
import ShardKv.Objects.JsonMerge
import ShardKv.Protocol.DumpChecksum
