import LibPaxos.Transition
import LibPaxos.Voting
import LibPaxos.Server
import LibPaxos.Carray.Deque
import LibPaxos.Storage.Refinement
import LibPaxos.Storage.MaxIid
import LibPaxos.Quorum.Tracking
import LibPaxos.Acceptor.History
import LibPaxos.Acceptor.Votes
import LibPaxos.Acceptor.ReadErrors
import LibPaxos.Proposer.Conservation
import LibPaxos.Proposer.Emission
import LibPaxos.Proposer.Selection
import LibPaxos.Proposer.Timeouts
import LibPaxos.Learner.Tally
import LibPaxos.Learner.Holes
import LibPaxos.Learner.Window
import LibPaxos.Wire.SizeLimits
import LibPaxos.Wire.Malformed
import LibPaxos.Config.Ids
import LibPaxos.Agreement
import LibPaxos.NoLostValue
import LibPaxos.LearnerSoundness
import LibPaxos.AckAssertion
import LibPaxos.StaleAcks
import LibPaxos.AtMostOnce
import LibPaxos.ProposalUniqueness
import LibPaxos.SingleProposer
import LibPaxos.Ballots
import LibPaxos.Acceptor.Crashes
import LibPaxos.ReplicatedLog
import LibPaxos.Deployment.Connections
import LibPaxos.Deployment.Safety
import LibPaxos.Deployment.Callbacks
import LibPaxos.Deployment.Startup
import LibPaxos.Faults
import LibPaxos.Progress
import LibPaxos.StaleFlags
