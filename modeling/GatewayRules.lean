import GatewayRules.Controller.Step
import GatewayRules.Daemon
import GatewayRules.Main
import GatewayRules.Wire.Flow
import GatewayRules.Wire.Settings
import GatewayRules.Proofs.Trace
import GatewayRules.Proofs.Acts
import GatewayRules.Proofs.Delivery
import GatewayRules.Proofs.Task
import GatewayRules.Proofs.Pipeline
import GatewayRules.Proofs.Gating
import GatewayRules.Proofs.Convergence
import GatewayRules.Proofs.Solo
import GatewayRules.Proofs.Calm
import GatewayRules.Proofs.Renewal
import GatewayRules.Proofs.Steady
import GatewayRules.Proofs.Removal
import GatewayRules.Proofs.Isolation
import GatewayRules.Proofs.Versions
import GatewayRules.Proofs.ChangeLog
import GatewayRules.Proofs.Exhaustion
import GatewayRules.Proofs.Shutdown
import GatewayRules.Proofs.Addresses
import GatewayRules.Proofs.Writing
import GatewayRules.Proofs.Readback
import GatewayRules.Proofs.RoundTrip
import GatewayRules.Proofs.FeedLines
import GatewayRules.Proofs.UpdateLog
import GatewayRules.Proofs.Spans
import GatewayRules.Proofs.Readiness
import GatewayRules.Proofs.Grammar
import GatewayRules.Proofs.Spelling
import GatewayRules.Proofs.Reading
import GatewayRules.Proofs.MemberOrder
import GatewayRules.Proofs.Agreement
import GatewayRules.Proofs.Candidacy
import GatewayRules.Proofs.Precedence
import GatewayRules.Proofs.Fates
import GatewayRules.Proofs.TaskCalls
import GatewayRules.Proofs.Noninterference
import GatewayRules.Proofs.Standstill
import GatewayRules.Proofs.Reachability
import GatewayRules.Proofs.Undisturbed
import GatewayRules.Proofs.Mirror
import GatewayRules.Proofs.Portable
import GatewayRules.Proofs.Backfill
import GatewayRules.Proofs.Containment
import GatewayRules.Proofs.Feeding
import GatewayRules.Proofs.Storage
import GatewayRules.Proofs.Positional
import GatewayRules.Proofs.CutOff
import GatewayRules.Proofs.Seeding
import GatewayRules.Proofs.Quiescence
import GatewayRules.Proofs.MacSpelling
import GatewayRules.Proofs.Rendering
