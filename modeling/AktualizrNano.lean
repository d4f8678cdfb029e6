import AktualizrNano.CLib
import AktualizrNano.NorFlash
import AktualizrNano.RunningMax
import AktualizrNano.Outcome
import AktualizrNano.Layout
import AktualizrNano.FlashStorage
import AktualizrNano.TufClient
import AktualizrNano.Platform
import AktualizrNano.Settings
import AktualizrNano.CoreJson
import AktualizrNano.TargetsManifest
import AktualizrNano.Bootloader
import AktualizrNano.Device
import AktualizrNano.ImageDownload
import AktualizrNano.DeviceGateway
import AktualizrNano.Checkin
import AktualizrNano.SampleLoop
import AktualizrNano.Trace
import AktualizrNano.Protocol
import AktualizrNano.Refinement
import AktualizrNano.Lifetime
import AktualizrNano.NoDowngrade
import AktualizrNano.Rollback
import AktualizrNano.RollbackDetection
import AktualizrNano.TrustAnchor
import AktualizrNano.Provisioning
import AktualizrNano.InstallEnd
import AktualizrNano.Calls
import AktualizrNano.Trial
import AktualizrNano.Growth
import AktualizrNano.CorrelationId
import AktualizrNano.Reporting
import AktualizrNano.FlashWriter
import AktualizrNano.ImageServer
import AktualizrNano.RemoteConfig
import AktualizrNano.FetchFile
import AktualizrNano.TargetSelection
import AktualizrNano.DeviceTargets
import AktualizrNano.Watchdog
import AktualizrNano.AsciiFilter
import AktualizrNano.Identity
import AktualizrNano.JsonText
import AktualizrNano.Recording
import AktualizrNano.Connections
import AktualizrNano.Unescape
import AktualizrNano.Certificate
import AktualizrNano.EventPayload
import AktualizrNano.DigitVectors
import AktualizrNano.UidInteger
import AktualizrNano.Interleaving
import AktualizrNano.AgentTask
import AktualizrNano.ImageSlots
import AktualizrNano.GenuineImages
import AktualizrNano.UpdateProgress
import AktualizrNano.Enrolment
import AktualizrNano.Conversation
import AktualizrNano.Polling
import AktualizrNano.Recovery
import AktualizrNano.ReportOnce
