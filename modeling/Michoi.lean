import Michoi.Agent.Dialled
import Michoi.AgentApi.Newest
import Michoi.AgentServer.Alone
import Michoi.AgentServer.Answered
import Michoi.AgentServer.Base64
import Michoi.AgentServer.Mjpeg
import Michoi.AgentServer.Negotiate
import Michoi.AgentServer.Pcm
import Michoi.AgentServer.QueryToken
import Michoi.Desk.Trio
import Michoi.Discovery.Codec
import Michoi.DoorStation.Loop
import Michoi.Ethernet.Built
import Michoi.Events.Reconnect
import Michoi.Events.Resume
import Michoi.Events.Seam
import Michoi.Events.Wire
import Michoi.Hap.Lock
import Michoi.Household.Answered
import Michoi.Household.Cleanup
import Michoi.Household.Paired
import Michoi.Household.Placed
import Michoi.Household.Sequential
import Michoi.Media.Bounds
import Michoi.Media.Reassembly
import Michoi.Media.Stitch
import Michoi.Pcap.Times
import Michoi.Picture.Converges
import Michoi.Protocol.Slices
import Michoi.Receive
import Michoi.State.Cooldown
import Michoi.Street.Calls
import Michoi.Task.Order
import Michoi.Task.Replay
import Michoi.Task.Ring
import Michoi.Task.Silence
import Michoi.Wire.Capture
