import PeerCall.Metrics.Conversion
import PeerCall.Settings.Read
import PeerCall.World.Alone
import PeerCall.World.Bench
import PeerCall.Proofs.Agent.Coherence
import PeerCall.Proofs.Agent.Stride
import PeerCall.Proofs.Agent.Inversion
import PeerCall.Proofs.Agent.Preservation
import PeerCall.Proofs.Agent.History
import PeerCall.Proofs.Agent.Inbound
import PeerCall.Proofs.Agent.Delivery
import PeerCall.Proofs.Agent.Transparency
import PeerCall.Proofs.Agent.Expected
import PeerCall.Proofs.Agent.Renumbering
import PeerCall.Proofs.Agent.Residue
import PeerCall.Proofs.Agent.Exchange
import PeerCall.Proofs.Agent.Notices
import PeerCall.Proofs.Agent.SigningIn
import PeerCall.Proofs.Agent.Requests
import PeerCall.Proofs.Agent.Refusal
import PeerCall.Proofs.Link.Worker
import PeerCall.Proofs.Link.Executor
import PeerCall.Proofs.Link.Schedule
import PeerCall.Proofs.World.RemoteCandidates
import PeerCall.Proofs.World.Closing
import PeerCall.Proofs.World.Residue
import PeerCall.Proofs.World.Closedown
import PeerCall.Proofs.World.OwnCandidates
import PeerCall.Proofs.World.Records
import PeerCall.Proofs.Pair.Answers
import PeerCall.Proofs.Pair.Roles
import PeerCall.Proofs.Metrics.Rates
import PeerCall.Proofs.Metrics.Ledger
import PeerCall.Proofs.Metrics.Integers
import PeerCall.Proofs.Metrics.PollBlocks
import PeerCall.Proofs.Message.Shapes
import PeerCall.Proofs.Settings.Relays
import PeerCall.Proofs.Metrics.Conversion
