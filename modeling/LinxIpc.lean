import LinxIpc.Machine.Run
import LinxIpc.Machine.Progress
import LinxIpc.Machine.Lockstep
import LinxIpc.Text.Numeral
import LinxIpc.Fifo.Ledger
import LinxIpc.Fifo.PostOffice
import LinxIpc.Queue.Wakeup
import LinxIpc.Queue.Progress
import LinxIpc.Queue.History
import LinxIpc.Queue.PollDescriptor
import LinxIpc.Socket.Readers
import LinxIpc.Server.Datagrams
import LinxIpc.Network.Pairing
import LinxIpc.Network.Settles
import LinxIpc.Server.Stop
import LinxIpc.Server.Descriptor
import LinxIpc.Server.StopReturns
import LinxIpc.Server.KeepsUp
import LinxIpc.Server.HandlerCost
import LinxIpc.Server.HandlerLoop
import LinxIpc.Queue.Mutex
import LinxIpc.Server.Lifecycle
import LinxIpc.Client.Leak
import LinxIpc.Client.Connects
import LinxIpc.Receiving.Backlog
import LinxIpc.Receiving.Slots
import LinxIpc.Receiving.Timing
import LinxIpc.Receiving.Patience
import LinxIpc.Unix.Factory
import LinxIpc.Unix.PeerName
import LinxIpc.Wire.RoundTrip
import LinxIpc.Wire.Untrusted
import LinxIpc.Socket.Send
import LinxIpc.Socket.Flush
import LinxIpc.Udp.Factory
import LinxIpc.Udp.AddressText
import LinxIpc.Udp.Conversation
import LinxIpc.Queue.Capacity
import LinxIpc.Unix.Delivery
import LinxIpc.Unix.Stack
import LinxIpc.Unix.EndToEnd
import LinxIpc.Udp.Internet
import LinxIpc.Udp.Genuine
import LinxIpc.Udp.Amplification
import LinxIpc.Equality
import LinxIpc.Server.Direct
import LinxIpc.Process.Descriptors
import LinxIpc.Process.Lifetimes
