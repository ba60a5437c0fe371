import DlsSdk.Library.Lts
import DlsSdk.Library.Network
import DlsSdk.Library.Transport
import DlsSdk.Library.Ghost
import DlsSdk.Library.Lease
import DlsSdk.Library.Replica
import DlsSdk.Library.Buffer
import DlsSdk.Library.Framing
import DlsSdk.Library.ShiftRegister
import DlsSdk.Library.BitField
import DlsSdk.Library.ByteBuffer
import DlsSdk.Library.ByteString
import DlsSdk.Library.Scanner
import DlsSdk.LcmNet.Device
import DlsSdk.LcmNet.Loop
import DlsSdk.LcmNet.Registers
import DlsSdk.LcmNet.LoopSpec
import DlsSdk.LcmNet.RoundTrip
import DlsSdk.LcmNet.Transition
import DlsSdk.LcmNet.System
import DlsSdk.LcmNet.Relay
import DlsSdk.LcmNet.Coherence
import DlsSdk.LcmNet.Snapshot
import DlsSdk.LcmNet.Exclusion
import DlsSdk.LcmNet.Session
import DlsSdk.LcmNet.Endpoint
import DlsSdk.LcmNet.ReplyHalf
import DlsSdk.LcmNet.HangUp
import DlsSdk.LcmNet.Echo
import DlsSdk.LcmNet.Master
import DlsSdk.LcmNet.Acknowledge
import DlsSdk.LcmNet.Timeout
import DlsSdk.LcmNet.Media
import DlsSdk.LcmNet.Machine
import DlsSdk.LcmNet.Patience
import DlsSdk.LcmNet.Clock
import DlsSdk.LcmNet.Pacing
import DlsSdk.Lcm.Coretypes
import DlsSdk.Lcm.Message
import DlsSdk.LcmNet.DevIp
import DlsSdk.LcmNet.Datagrams
import DlsSdk.LcmNet.DatagramNet
import DlsSdk.Uart.Device
import DlsSdk.Uart.Protocol
import DlsSdk.Uart.Stage
import DlsSdk.Uart.Checksum
import DlsSdk.Uart.Stream
import DlsSdk.Uart.Refinement
import DlsSdk.Uart.Replies
import DlsSdk.Uart.Assembly
import DlsSdk.Uart.Bounds
import DlsSdk.Uart.Polls
import DlsSdk.Uart.Line
import DlsSdk.Uart.Transfer
import DlsSdk.Uart.Damage
import DlsSdk.Demo.Startup
import DlsSdk.Json.Parser
import DlsSdk.Json.Grammar
import DlsSdk.Json.Objects
import DlsSdk.Json.Characters
import DlsSdk.Json.Tokens
import DlsSdk.Json.Accepts
import DlsSdk.Json.Scanning
import DlsSdk.Json.Errors
import DlsSdk.Json.Stringifier
import DlsSdk.Json.RoundTrip
import DlsSdk.Json.Lookup
import DlsSdk.Demo.Config
import DlsSdk.Demo.Main
