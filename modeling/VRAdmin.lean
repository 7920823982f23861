import VRAdmin.Foundation.CString
import VRAdmin.Foundation.Numerals
import VRAdmin.Foundation.LittleEndian
import VRAdmin.Foundation.Machine
import VRAdmin.Foundation.Mutex
import VRAdmin.Foundation.Lives
import VRAdmin.Foundation.FirstWins
import VRAdmin.Foundation.ShellLine
import VRAdmin.Foundation.Parcel
import VRAdmin.Sdk.VrSDK
import VRAdmin.Sdk.XmlDatabase
import VRAdmin.Sdk.StoreMeaning
import VRAdmin.Sdk.Lookups
import VRAdmin.Server.ClientConnector
import VRAdmin.Server.Keywords
import VRAdmin.Server.Replies
import VRAdmin.Server.RequestScans
import VRAdmin.Server.SdkReplies
import VRAdmin.Server.ServerListener
import VRAdmin.Server.Protocol
import VRAdmin.Server.Descriptors
import VRAdmin.Server.ReadyDescriptors
import VRAdmin.Server.AcceptLength
import VRAdmin.Server.Conversations
import VRAdmin.Server.Framing
import VRAdmin.Server.ServerProcess
import VRAdmin.Server.Thread
import VRAdmin.Native.Permission
import VRAdmin.Native.Nodes
import VRAdmin.Native.ReadBack
import VRAdmin.Native.ForbiddenPaths
import VRAdmin.Native.SystemCall
import VRAdmin.Native.CommandOutput
import VRAdmin.Native.VRNativeService
import VRAdmin.Binder.IVRNativeService
import VRAdmin.Binder.RemoteCall
import VRAdmin.Binder.PostEvent
import VRAdmin.Service.VRManager
import VRAdmin.Service.VRAdminService
import VRAdmin.Service.FailedMonitor
import VRAdmin.Service.VRMode
import VRAdmin.Service.Clients
import VRAdmin.Flash.TalkToDfuUtil
import VRAdmin.Flash.ReadBoundaries
import VRAdmin.Flash.ProgressRange
import VRAdmin.Flash.StartDownLoad
import VRAdmin.Flash.SocketName
import VRAdmin.Service.Requests
import VRAdmin.Service.CommandWords
import VRAdmin.Service.HMDReceiver
import VRAdmin.Service.WakeLock
import VRAdmin.Foundation.PrefixCode
import VRAdmin.Service.JavaText
import VRAdmin.Binder.Faults
import VRAdmin.Service.Device
import VRAdmin.Service.PropertyRegisters
import VRAdmin.Server.Directory
import VRAdmin.Service.Callbacks
import VRAdmin.Foundation.Progress
import VRAdmin.Server.ThreadProgress
import VRAdmin.Server.VersionProperty
import VRAdmin.Foundation.Ownership
import VRAdmin.Sdk.ParserMemory
import VRAdmin.Service.MonitorRace
import VRAdmin.Foundation.Linearization
import VRAdmin.Native.BinderThreads
import VRAdmin.Server.ListenerStartup
import VRAdmin.Native.CallsReturn
import VRAdmin.Server.ThreadMap
import VRAdmin.Flash.HeardProgress
import VRAdmin.Server.ConnectorMemory
