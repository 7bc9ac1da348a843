import Epidemic.Address.Endpoint
import Epidemic.Address.Ip
import Epidemic.Binary32.Basic
import Epidemic.Binary32.Decimal
import Epidemic.Bootstrap
import Epidemic.Bytes
import Epidemic.Config
import Epidemic.Daemon
import Epidemic.Exchange
import Epidemic.Identity.Edwards
import Epidemic.Identity.Keypair
import Epidemic.Identity.Sha512
import Epidemic.Key
import Epidemic.Main
import Epidemic.Network
import Epidemic.Notifier
import Epidemic.Numeral
import Epidemic.Options
import Epidemic.Peer
import Epidemic.Proofs.Address.Grammar
import Epidemic.Proofs.Address.Text
import Epidemic.Proofs.Binary32.Grammar
import Epidemic.Proofs.Binary32.Nearest
import Epidemic.Proofs.Binary32.Relay
import Epidemic.Proofs.Binary32.Text
import Epidemic.Proofs.Binary32.Value
import Epidemic.Proofs.Except
import Epidemic.Proofs.Exchange.Agreement
import Epidemic.Proofs.Exchange.Answer
import Epidemic.Proofs.Exchange.Carrier
import Epidemic.Proofs.Exchange.Effect
import Epidemic.Proofs.Exchange.Initiator
import Epidemic.Proofs.Exchange.Loopback
import Epidemic.Proofs.Exchange.Outcome
import Epidemic.Proofs.Exchange.Repeated
import Epidemic.Proofs.Exchange.Roles
import Epidemic.Proofs.Exchange.Sweeps
import Epidemic.Proofs.Exchange.Trade
import Epidemic.Proofs.Exchange.Traded
import Epidemic.Proofs.Interleaving.Activity
import Epidemic.Proofs.Interleaving.Admission
import Epidemic.Proofs.Interleaving.Alone
import Epidemic.Proofs.Interleaving.Batches
import Epidemic.Proofs.Interleaving.Freshness
import Epidemic.Proofs.Interleaving.Messages
import Epidemic.Proofs.Interleaving.Resolution
import Epidemic.Proofs.Interleaving.Step
import Epidemic.Proofs.Mesh.Basic
import Epidemic.Proofs.Mesh.Genuine
import Epidemic.Proofs.Mesh.Provenance
import Epidemic.Proofs.Mesh.Renewal
import Epidemic.Proofs.Numeral
import Epidemic.Proofs.Reconcile.Again
import Epidemic.Proofs.Reconcile.Batch
import Epidemic.Proofs.Reconcile.Exact
import Epidemic.Proofs.Reconcile.Notices
import Epidemic.Proofs.Reconcile.Offer
import Epidemic.Proofs.Registry.Calls
import Epidemic.Proofs.Registry.Operations
import Epidemic.Proofs.Registry.SelfRecord
import Epidemic.Proofs.Round.Contacts
import Epidemic.Proofs.Round.Deadline
import Epidemic.Proofs.Round.Policies
import Epidemic.Proofs.Round.Session
import Epidemic.Proofs.Round.Targets
import Epidemic.Proofs.Scheduler.Accounts
import Epidemic.Proofs.Scheduler.Daemon
import Epidemic.Proofs.Scheduler.Frame
import Epidemic.Proofs.Scheduler.Shutdown
import Epidemic.Proofs.Scheduler.Ticks
import Epidemic.Proofs.Store.Codec
import Epidemic.Proofs.Store.Entries
import Epidemic.Proofs.Store.Restart
import Epidemic.Proofs.Store.Snapshot
import Epidemic.Proofs.Store.Uses
import Epidemic.Proofs.Text.Blank
import Epidemic.Proofs.Time.Calendar
import Epidemic.Proofs.Time.Order
import Epidemic.Proofs.Time.Stamp
import Epidemic.Proofs.Time.Verdicts
import Epidemic.Proofs.Transport.Calls
import Epidemic.Proofs.Transport.Frame
import Epidemic.Proofs.Transport.Framing
import Epidemic.Proofs.Wire.Format
import Epidemic.Proofs.Wire.Image
import Epidemic.Proofs.Wire.Load
import Epidemic.Proofs.Wire.Message
import Epidemic.Proofs.Wire.Stored
import Epidemic.Proofs.Wire.Validation
import Epidemic.Reconcile
import Epidemic.Refresh
import Epidemic.Registry
import Epidemic.Registry.Roster
import Epidemic.Round
import Epidemic.Scheduler
import Epidemic.Selector
import Epidemic.Session
import Epidemic.Store
import Epidemic.Text.Blank
import Epidemic.Text.Quoted
import Epidemic.Text.Utf8
import Epidemic.Time.Calendar
import Epidemic.Time.Instant
import Epidemic.Time.Span
import Epidemic.Time.Stamp
import Epidemic.Transport.Error
import Epidemic.Transport.Frame
import Epidemic.Transport.Stream
import Epidemic.Transport.Switchboard
import Epidemic.Wire.Format
import Epidemic.Wire.Message
import Epidemic.Wire.Record
import Epidemic.Wire.Stored
import Epidemic.Wire.Text
