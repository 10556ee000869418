import ScreenLink.Lib.Machine
import ScreenLink.Lib.BigEndian
import ScreenLink.Lib.SlidingWindow
import ScreenLink.Lib.Checked
import ScreenLink.Core.Protocol
import ScreenLink.Core.Security
import ScreenLink.Core.Pairing
import ScreenLink.Core.Realtime
import ScreenLink.Channel.Replay
import ScreenLink.Channel.Network
import ScreenLink.Channel.Safety
import ScreenLink.Session.Types
import ScreenLink.Input.Edge
import ScreenLink.Input.Loop
import ScreenLink.Lib.HeldKeys
import ScreenLink.Video.Transport
import ScreenLink.Session.Mirror
import ScreenLink.Session.Core
import ScreenLink.Session.Run
import ScreenLink.Session.Node
import ScreenLink.Session.Moves
import ScreenLink.Lib.CounterNonce
import ScreenLink.Session.Link
import ScreenLink.Session.Listener
import ScreenLink.Session.Threads
import ScreenLink.Session.Nonces
import ScreenLink.Session.NodeMoves
import ScreenLink.Session.Route
import ScreenLink.Pairing.Confirm
import ScreenLink.Pairing.Gate
import ScreenLink.Session.Inbound
import ScreenLink.Pairing.Revocation
import ScreenLink.Pairing.Handshake
import ScreenLink.Pairing.Party
import ScreenLink.Pairing.Refinement
import ScreenLink.Pairing.Agreement
import ScreenLink.Pairing.Mitm
import ScreenLink.Input.HeldKeys
import ScreenLink.Video.Reassembler
import ScreenLink.Video.Reassembly
import ScreenLink.Video.Forward
import ScreenLink.Lib.Slots
import ScreenLink.Input.Turns
import ScreenLink.Input.Sent
import ScreenLink.Input.Observers
import ScreenLink.Input.Release
import ScreenLink.Input.Loss
import ScreenLink.Input.Privacy
import ScreenLink.Input.Capture
import ScreenLink.Input.LocalOs
import ScreenLink.Input.Exclusive
import ScreenLink.Lib.Register
import ScreenLink.Session.Steering
import ScreenLink.Lib.Exchange
import ScreenLink.Lib.BoundedChannel
import ScreenLink.Lib.Frames
import ScreenLink.Core.TrustFile
import ScreenLink.Core.Framing
import ScreenLink.Clipboard.Manager
import ScreenLink.Clipboard.Echo
import ScreenLink.Clipboard.Converge
import ScreenLink.Session.Viewing
import ScreenLink.Session.Reconnect
import ScreenLink.Session.Cleanup
import ScreenLink.Session.Dispatch
import ScreenLink.Session.Stall
import ScreenLink.Session.Failsafe
import ScreenLink.Session.Tells
import ScreenLink.Pairing.Prompts
import ScreenLink.Session.Delivery
import ScreenLink.Core.TrustCalls
import ScreenLink.Core.Stream
import ScreenLink.Clipboard.Stale
import ScreenLink.Input.Pressure
import ScreenLink.Input.Cursor
import ScreenLink.Input.Seam
import ScreenLink.Input.Beyond
import ScreenLink.Input.EdgeRace
import ScreenLink.Input.Chord
import ScreenLink.Input.Flap
import ScreenLink.Video.Headers
import ScreenLink.Pairing.Pin
import ScreenLink.Input.Keymap
import ScreenLink.Video.Packing
import ScreenLink.Input.Overflow
import ScreenLink.Core.IdentityFile
import ScreenLink.Discovery.Peers
import ScreenLink.Discovery.Browse
import ScreenLink.Session.Lossless
import ScreenLink.Session.Effects
import ScreenLink.Session.Relay
import ScreenLink.Session.Grammar
import ScreenLink.Session.Ping
import ScreenLink.Session.Rows
import ScreenLink.Clipboard.Devices
import ScreenLink.Session.Injection
import ScreenLink.Session.Gridlock
