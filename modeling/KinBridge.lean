import KinBridge.Lib.Runs
import KinBridge.Lib.Gather
import KinBridge.Lib.Refine
import KinBridge.Lib.Slots
import KinBridge.Lib.Rows
import KinBridge.Lib.Bits
import KinBridge.Lib.Base64
import KinBridge.Lib.Burst
import KinBridge.Lib.Recent
import KinBridge.Lib.Thin
import KinBridge.Lib.Visit
import KinBridge.Lib.Percent
import KinBridge.Lib.Tickets
import KinBridge.Lib.Readers
import KinBridge.Lib.Snapshots
import KinBridge.Lib.LastWrite
import KinBridge.Net.Clock
import KinBridge.Net.Proto
import KinBridge.Net.Parse
import KinBridge.Net.Grammar
import KinBridge.Net.Loopback
import KinBridge.Store.Database
import KinBridge.Store.PeerMap
import KinBridge.Hbbs.Dispatch
import KinBridge.Hbbs.Online
import KinBridge.Hbbs.Command
import KinBridge.Hbbs.Listing
import KinBridge.Hbbs.Header
import KinBridge.Hbbs.Rotation
import KinBridge.Hbbs.Changes
import KinBridge.Hbbs.Checks
import KinBridge.Hbbs.Served
import KinBridge.Hbbs.Revised
import KinBridge.Hbbr.Relay
import KinBridge.Hbbr.World
import KinBridge.Hbbr.Command
import KinBridge.Hbbr.Header
import KinBridge.Hbbr.Params
import KinBridge.Keys.GenSk
import KinBridge.Keys.Race
import KinBridge.Api.Headscale
import KinBridge.Api.Devices
import KinBridge.Api.Events
import KinBridge.Api.Server
import KinBridge.Proof.Admission
import KinBridge.Proof.Binding
import KinBridge.Proof.Durable
import KinBridge.Proof.Handles
import KinBridge.Proof.Heartbeat
import KinBridge.Proof.Isolation
import KinBridge.Proof.Pairing
import KinBridge.Proof.Staleness
import KinBridge.Proof.Agreement
import KinBridge.Proof.Relays
import KinBridge.Proof.Registry
import KinBridge.Proof.Restart
import KinBridge.Proof.Forwarding
import KinBridge.Proof.Blocking
import KinBridge.Proof.Keys
import KinBridge.Proof.KeyRace
import KinBridge.Proof.UdpLoop
import KinBridge.Proof.Presence
import KinBridge.Proof.Intranet
import KinBridge.Proof.Provenance
import KinBridge.Proof.Expiry
import KinBridge.Proof.Limiter
import KinBridge.Proof.Blocker
import KinBridge.Proof.Accepted
import KinBridge.Proof.Sessions
import KinBridge.Proof.Commands
import KinBridge.Proof.PunchLog
import KinBridge.Proof.Observers
import KinBridge.Proof.Truncation
import KinBridge.Proof.Accounting
import KinBridge.Proof.Usage
import KinBridge.Proof.KeyPair
import KinBridge.Proof.Revocation
import KinBridge.Proof.Rotation
import KinBridge.Proof.Devices
import KinBridge.Proof.Downgrade
import KinBridge.Proof.Listing
import KinBridge.Proof.ProxyHeader
import KinBridge.Proof.Events
import KinBridge.Proof.Served
import KinBridge.Proof.Live
import KinBridge.Proof.Directory
import KinBridge.Proof.Checks
import KinBridge.Proof.Authorised
import KinBridge.Proof.Answers
