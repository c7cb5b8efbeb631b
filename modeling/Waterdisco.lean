import Waterdisco.Db.RestoreSound
import Waterdisco.Db.SelectiveSound
import Waterdisco.Db.ProfileObjectsRuns
import Waterdisco.Db.ProfileOrder
import Waterdisco.Sub.RefreshListing
import Waterdisco.Sub.DocumentEncoded
import Waterdisco.Sub.UpdaterRuns
import Waterdisco.Sub.OvpnConfigSound
import Waterdisco.Sub.VpnLayout
import Waterdisco.Archive.Import
import Waterdisco.Archive.Export
import Waterdisco.Scan.IpListWrite
import Waterdisco.Scan.WorkerRemovals
import Waterdisco.Scan.IpListRefresh
import Waterdisco.Core.Lifecycle
import Waterdisco.Core.ScanSession
import Waterdisco.Core.ScanEvents
import Waterdisco.Global.LogBuffer
import Waterdisco.Global.Ip
import Waterdisco.Global.Re2Sound
import Waterdisco.Xray.GateRuns
import Waterdisco.Lists.Reads
import Waterdisco.Lists.Upsert
import Waterdisco.Sys.KillSwitchRuns
import Waterdisco.Sys.SystemDnsRuns
import Waterdisco.Engine.Starts
import Waterdisco.Engine.Supervisor
import Waterdisco.Engine.ResumeGuard
import Waterdisco.Engine.SettingsRuns
import Waterdisco.Route.RuleReplace
import Waterdisco.Db.RoutesBatch
import Waterdisco.Config.SubtractPrefix
import Waterdisco.Config.Started
import Waterdisco.Config.TestRollback
import Waterdisco.Api.Connected
import Waterdisco.WebDav.Runs
import Waterdisco.Api.RemoteRuns
import Waterdisco.Api.FeedsRuns
import Waterdisco.Api.TransfersRuns
import Waterdisco.Api.RemoteAllow
import Waterdisco.Stats.Connections
import Waterdisco.Stats.AutoSelectorBackoff
import Waterdisco.Stats.AutoSelectorHealth
import Waterdisco.Stats.TrafficStats
import Waterdisco.Ui.JsonTreeReads
import Waterdisco.Outbound.HeaderPairs
import Waterdisco.Outbound.CustomXray
import Waterdisco.Outbound.CustomCore
import Waterdisco.Outbound.XraySecuritySound
import Waterdisco.Ui.RankedTestRuns
import Waterdisco.Global.OtpLink
import Waterdisco.Route.RawOutbounds
