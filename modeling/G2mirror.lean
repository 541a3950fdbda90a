import G2mirror.HistoryZone
import G2mirror.SeamlessRestart
import G2mirror.HistoryPaging
import G2mirror.SizePolicy
import G2mirror.HostRole
import G2mirror.HostExclusive
import G2mirror.ViewerStream
import G2mirror.BellReports
import G2mirror.InputPauses
import G2mirror.LineFraming
import G2mirror.MonitorPicture
import G2mirror.TokenPermissions
import G2mirror.TitlePushes
import G2mirror.Relay
import G2mirror.ReadonlyAttach
import G2mirror.LateReplies
import G2mirror.ExitDrain
import G2mirror.SoftWrap
import G2mirror.TokenSplice
import G2mirror.CommentTokens
import G2mirror.WrapOptions
import G2mirror.HeadlessGreeting
import G2mirror.SizePrecedence
import G2mirror.FoldArchive
import G2mirror.ScrollCapacity
import G2mirror.FullResets
import G2mirror.RecordRendering
import G2mirror.SnapshotCrop
import G2mirror.ScreenRefresh
import G2mirror.HostRegion
import G2mirror.SessionWire
import G2mirror.ServerWire
import G2mirror.TitleNews
import G2mirror.ServerRecords
import G2mirror.ViewRelay
import G2mirror.AddToken
import G2mirror.ViewHandshake
import G2mirror.Admission
import G2mirror.ClientsAgree
import G2mirror.AttachedScreen
import G2mirror.AttachedKeys
import G2mirror.AppDeadline
import G2mirror.RuntimeDir
