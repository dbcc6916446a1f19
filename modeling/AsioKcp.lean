import AsioKcp.Ikcp.Packing
import AsioKcp.Ikcp.Parsing
import AsioKcp.Connection.Backpressure
import AsioKcp.Connection.Closing
import AsioKcp.Connection.Framing
import AsioKcp.Connection.Destructor
import AsioKcp.Connection.Handlers
import AsioKcp.Connection.Quiescence
import AsioKcp.Connection.Reads
import AsioKcp.Connection.Resends
import AsioKcp.Connection.Sessions
import AsioKcp.Connection.Ticks
import AsioKcp.Connection.Unrecognised
import AsioKcp.Connection.Writes
import AsioKcp.Acceptor.Served
import AsioKcp.Acceptor.Faults
import AsioKcp.Acceptor.Handshakes
import AsioKcp.Acceptor.Leftovers
import AsioKcp.Acceptor.Orphans
import AsioKcp.Address.RoundTrip
import AsioKcp.Connector.Fresh
import AsioKcp.Pair.Accounts
import AsioKcp.Pair.Reading
import AsioKcp.Connection.Intake
import AsioKcp.Pair.Recovery
import AsioKcp.Pair.Streams
import AsioKcp.Buffers.Ownership
import AsioKcp.Pair.Estimates
import AsioKcp.Connection.Backoff
import AsioKcp.Connection.Congestion
import AsioKcp.Tunnel.Streams
import AsioKcp.Hosting.System
import AsioKcp.Hosting.Streams
