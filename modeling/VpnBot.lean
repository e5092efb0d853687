import VpnBot.Bundles.CreateAtomicity
import VpnBot.Warp.CycleSafety
import VpnBot.Deploy.BotRegion
import VpnBot.Xray.ReconcileExact
import VpnBot.Xray.RevocationFinal
import VpnBot.Announcements.AtMostOnce
import VpnBot.Announcements.Forward
import VpnBot.Users.BlockAccounts
import VpnBot.Traffic.Conservation
import VpnBot.Relays.Integrity
import VpnBot.Warp.FeedCache
import VpnBot.Modules.DisableComplete
import VpnBot.Warp.Streak
import VpnBot.Warp.Baseline
import VpnBot.Warp.ApprovalSafety
import VpnBot.Warp.EditRaceSafety
import VpnBot.KeyBundles.CompositionRuns
import VpnBot.Warp.HealthRoutes
import VpnBot.Hy2Auth.LiveReads
import VpnBot.Anomaly.Cooldown
import VpnBot.Subscription.RenderLinks
import VpnBot.DisplayNumbers.Unique
import VpnBot.Db.IsolationRuns
import VpnBot.Awg.OutputCap
import VpnBot.Socks5.Promises
import VpnBot.Issuing.BlockRace
import VpnBot.Trial.Quota
import VpnBot.Expiry.Progress
import VpnBot.Warp.RefreshFailures
import VpnBot.Relays.HealthLatch
import VpnBot.Backup.BundleAccounts
import VpnBot.XrayConfig.DistinctClients
import VpnBot.XrayConfig.ApplyAtomicity
import VpnBot.Deploy.ApplyHelpers
import VpnBot.AccessRequests.Decisions
import VpnBot.Warp.FeedOrigins
import VpnBot.Anomaly.Evidence
import VpnBot.Db.RelabelValues
import VpnBot.Awg.Injection
import VpnBot.Awg.PeerRemoval
import VpnBot.Subscription.SpiderX
import VpnBot.RateLimit.RunLaw
import VpnBot.Keys.ListPages
import VpnBot.Messages.CapLength
import VpnBot.Warp.SplitRoutes
import VpnBot.Db.WithStatements
import VpnBot.Shell.StderrSecrets
import VpnBot.Redaction.Occurrences
import VpnBot.Awg.BlockRuns
import VpnBot.MtProto.Promises
import VpnBot.Awg.IpAllocator
import VpnBot.Deploy.EnvReaders
