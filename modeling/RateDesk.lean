import RateDesk.Cache.Sweep
import RateDesk.Coordinator
import RateDesk.Proofs.Consensus.Interval
import RateDesk.Proofs.Consensus.Tolerance
import RateDesk.Proofs.Consensus.Uncrossed
import RateDesk.Proofs.Coordinator.Conservation
import RateDesk.Proofs.Coordinator.Deadlines
import RateDesk.Proofs.Coordinator.Independence
import RateDesk.Proofs.Coordinator.Mirror
import RateDesk.Proofs.Coordinator.Resubscribe
import RateDesk.Proofs.Coordinator.Schedule
import RateDesk.Proofs.Coordinator.Shown
import RateDesk.Proofs.Desk.Backing
import RateDesk.Proofs.Desk.Dependents
import RateDesk.Proofs.Desk.Published
import RateDesk.Proofs.Desk.Unread
import RateDesk.Proofs.Feed.Delivery
import RateDesk.Proofs.Feed.Prices
import RateDesk.Proofs.Feed.Timestamps
import RateDesk.Proofs.Outbox.Delivery
import RateDesk.Proofs.Outbox.Frames
import RateDesk.Proofs.Rest.Respelled
import RateDesk.Proofs.Settings.Texts
import RateDesk.Proofs.Settings.Validation
import RateDesk.Proofs.Venue.Commands
import RateDesk.Proofs.Venue.Retire
import RateDesk.Proofs.Venue.Transcript
import RateDesk.Proofs.Worker.Attempts
import RateDesk.Proofs.Worker.Watch
import RateDesk.Settings.Load
import RateDesk.Venue.Registry
import RateDesk.Venue.Rehearsal
import RateDesk.Venue.Script
import RateDesk.Venue.Streaming
import RateDesk.Webhook
