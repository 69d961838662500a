import EniForwarding.Main
import EniForwarding.Audit.Codec
import EniForwarding.Proofs.Text.Integer
import EniForwarding.Proofs.Names
import EniForwarding.Proofs.Action
import EniForwarding.Proofs.Data.SortedMap
import EniForwarding.Proofs.History
import EniForwarding.Proofs.Context
import EniForwarding.Proofs.Rule.Moves
import EniForwarding.Proofs.World
import EniForwarding.Proofs.World.Coherence
import EniForwarding.Proofs.World.Counting
import EniForwarding.Proofs.Eni
import EniForwarding.Proofs.Runs
import EniForwarding.Proofs.Tunnels
import EniForwarding.Proofs.RuleTable
import EniForwarding.Proofs.CallOrder
import EniForwarding.Proofs.Context.Outlook
import EniForwarding.Proofs.Rule.Aim
import EniForwarding.Proofs.Rule.Firing
import EniForwarding.Proofs.Rule.Obliging
import EniForwarding.Proofs.Eni.Firing
import EniForwarding.Proofs.Deeds
import EniForwarding.Proofs.Tables
import EniForwarding.Proofs.Turns
import EniForwarding.Proofs.Happenings
import EniForwarding.Proofs.Settled
import EniForwarding.Proofs.WakeUp
import EniForwarding.Proofs.Declared
import EniForwarding.Proofs.Lawful
import EniForwarding.Proofs.Eni.Detour
import EniForwarding.Proofs.Retry
import EniForwarding.Proofs.Pass
import EniForwarding.Proofs.Causes
import EniForwarding.Proofs.Waiting
import EniForwarding.Proofs.Replay
import EniForwarding.Proofs.Rule.Frame
import EniForwarding.Proofs.Eni.Frame
import EniForwarding.Proofs.Visits
import EniForwarding.Proofs.Isolation
import EniForwarding.Proofs.Determined
import EniForwarding.Proofs.Attending
import EniForwarding.Proofs.Commute
import EniForwarding.Proofs.AuditTrail
import EniForwarding.Proofs.Initialization
import EniForwarding.Proofs.Json.Scalars
import EniForwarding.Proofs.Json.RoundTrip
import EniForwarding.Proofs.Json.Decode
import EniForwarding.Proofs.Json.Dynamic
import EniForwarding.Proofs.Snapshot
import EniForwarding.Proofs.LastRequest
import EniForwarding.Proofs.Telling
import EniForwarding.Proofs.PassLog
import EniForwarding.Proofs.Rule.Surroundings
import EniForwarding.Proofs.Rule.Agenda
import EniForwarding.Proofs.Rule.Reached
import EniForwarding.Proofs.Rule.Resumption
import EniForwarding.Proofs.Repetition
import EniForwarding.Proofs.Rollback
import EniForwarding.Proofs.Failures
import EniForwarding.Proofs.Hosting
import EniForwarding.Proofs.RuleSets
import EniForwarding.Proofs.TunnelEnds
import EniForwarding.Proofs.Backlog.Bookkeeping
import EniForwarding.Proofs.Backlog.Meaning
import EniForwarding.Proofs.Queues
import EniForwarding.Proofs.Stranded
import EniForwarding.Proofs.Balance
import EniForwarding.Proofs.Text.Blank
import EniForwarding.Proofs.Text.Numeral
import EniForwarding.Proofs.Text.Pieces
import EniForwarding.Proofs.Net.Prefix
import EniForwarding.Proofs.Net.Mac
import EniForwarding.Proofs.Loading
import EniForwarding.Proofs.Eni.Key
import EniForwarding.Proofs.Endpoints
import EniForwarding.Proofs.Time.Calendar
import EniForwarding.Proofs.Time.Instant
import EniForwarding.Proofs.Audit.Codec
import EniForwarding.Proofs.Handles
