import PoolControl.OrderedMap
import PoolControl.Text.Split
import PoolControl.Text.Natural
import PoolControl.Identity.Key
import PoolControl.Identity.Uid
import PoolControl.Backoff
import PoolControl.Json.Double
import PoolControl.Json.Pointer
import PoolControl.Json.Patch
import PoolControl.Json.Reader
import PoolControl.Json.Writer
import PoolControl.Json.Record
import PoolControl.Timestamp
import PoolControl.Resource.Metadata
import PoolControl.Resource.Basic
import PoolControl.Resource.Event
import PoolControl.Store
import PoolControl.Routing.Dispatch
import PoolControl.Config
import PoolControl.Controller.Fleet
import PoolControl.Trial.Desk
import PoolControl.Trial.Drill
import PoolControl.Trial.World
import PoolControl.Trial.Fixture
import PoolControl.Queue.WorkQueue
import PoolControl.Loop.Provision
import PoolControl.Loop.Report
import PoolControl.Proofs.Queue.Placement
import PoolControl.Proofs.Queue.Service
import PoolControl.Proofs.Queue.Delay
import PoolControl.Proofs.Queue.Turn
import PoolControl.Proofs.Queue.Roster
import PoolControl.Proofs.Queue.Wanted
import PoolControl.Proofs.Store
import PoolControl.Proofs.Api.Tracker
import PoolControl.Proofs.Api.Effect
import PoolControl.Proofs.Api.Feed
import PoolControl.Proofs.Api.Log
import PoolControl.Proofs.Api.Writers
import PoolControl.Proofs.Api.Alike
import PoolControl.Proofs.Routing.Relay
import PoolControl.Proofs.Loop.Protocol
import PoolControl.Proofs.Loop.Site
import PoolControl.Proofs.Loop.Exclusive
import PoolControl.Proofs.Loop.Finalizer
import PoolControl.Proofs.Loop.Migration
import PoolControl.Proofs.Loop.Retry
import PoolControl.Proofs.Loop.Outage
import PoolControl.Proofs.Loop.Record
import PoolControl.Proofs.Loop.Echo
import PoolControl.Proofs.Loop.Lag
import PoolControl.Proofs.Loop.Mends
import PoolControl.Proofs.Loop.Aggregate
import PoolControl.Proofs.Loop.Report
import PoolControl.Proofs.Loop.Operation
import PoolControl.Proofs.Loop.Transcript
import PoolControl.Proofs.Loop.Intent
import PoolControl.Proofs.Loop.Independence
import PoolControl.Proofs.Loop.Turn
import PoolControl.Proofs.Loop.Lasting
import PoolControl.Proofs.Loop.Teardown
import PoolControl.Proofs.Loop.Observed
import PoolControl.Proofs.Loop.Crossing
import PoolControl.Proofs.Routing.Ownership
import PoolControl.Proofs.Routing.Dependents
import PoolControl.Proofs.Routing.Triggers
import PoolControl.Proofs.Controller.Deployment
import PoolControl.Proofs.Controller.Backend
import PoolControl.Proofs.Controller.Course
import PoolControl.Proofs.Controller.Recovery
import PoolControl.Proofs.Controller.Shift
import PoolControl.Proofs.Controller.KeyView
import PoolControl.Proofs.Controller.Requeue
import PoolControl.Proofs.Controller.Terminal
import PoolControl.Proofs.Loop.Outcome
import PoolControl.Proofs.Loop.Steady
import PoolControl.Proofs.Json.Settle
import PoolControl.Proofs.Json.Codec
import PoolControl.Proofs.Identity
import PoolControl.Proofs.Json.Sign
import PoolControl.Proofs.Resource.Form
import PoolControl.Proofs.Api.Life
import PoolControl.Proofs.Api.Numbering
import PoolControl.Proofs.Api.Retention
import PoolControl.Proofs.Resource.RoundTrip
import PoolControl.Proofs.Routing.Resolution
import PoolControl.Proofs.Routing.Part
import PoolControl.Proofs.Queue.Batch
import PoolControl.Proofs.Routing.Delivery
import PoolControl.Proofs.Routing.FanOut
import PoolControl.Proofs.Duration
import PoolControl.Proofs.Identity.Key
import PoolControl.Proofs.Identity.Numeral
import PoolControl.Proofs.Backoff
import PoolControl.Proofs.Failures
import PoolControl.Proofs.Queue.Bell
import PoolControl.Proofs.Queue.Closed
import PoolControl.Proofs.Queue.Change
import PoolControl.Proofs.Queue.Lobby
import PoolControl.Proofs.Identity.Text
import PoolControl.Proofs.Identity.Order
