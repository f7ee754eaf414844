import DvrBridge.RtspSetup
import DvrBridge.RtspSetupLaw
import DvrBridge.RtspSetupPrepared
import DvrBridge.RtspLock
import DvrBridge.RtspAuth
import DvrBridge.RtspTeardown
import DvrBridge.RtspDescribe
import DvrBridge.RtspWindowsLaw
import DvrBridge.RtspFraming
import DvrBridge.RtspServed
import DvrBridge.RtspCutOff
import DvrBridge.RtspUrl
import DvrBridge.RtspEndpoints
import DvrBridge.RtspUnstopped
import DvrBridge.SpsLaw
import DvrBridge.Probe
import DvrBridge.ConfigErrors
import DvrBridge.SupervisorTimeline
import DvrBridge.SupervisorKeyframe
import DvrBridge.SupervisorServed
import DvrBridge.SupervisorOneDriver
import DvrBridge.SupervisorShutdown
import DvrBridge.HubFanoutAlone
import DvrBridge.StreamCopyLaw
import DvrBridge.NetDvr3Framing
import DvrBridge.NetDvr3ScanLaw
import DvrBridge.NetDvr3Contract
import DvrBridge.NetDvr3Progress
import DvrBridge.FakeDvrPreamble
import DvrBridge.NetDvr3Preamble
import DvrBridge.BridgeLaw
import DvrBridge.RtspCredentials
import DvrBridge.DaemonCopy
import DvrBridge.RtspServerLaw
import DvrBridge.FakeDvrServer
import DvrBridge.RtspDescribed
import DvrBridge.RtpMarkers
import DvrBridge.TimestampMapperLaw
import DvrBridge.StreamSets
import DvrBridge.AnnexB
import DvrBridge.SplitterRecoveryLaw
