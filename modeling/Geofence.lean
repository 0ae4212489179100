import Geofence.Framework.Machine
import Geofence.Framework.PromiseChain
import Geofence.Framework.TaskBodies
import Geofence.Framework.Ring
import Geofence.Framework.Base64Url
import Geofence.Framework.JsonString
import Geofence.Framework.KeysetWalk
import Geofence.Framework.OffsetWalk
import Geofence.Framework.FloatNat
import Geofence.Framework.JsText
import Geofence.Framework.Decimal
import Geofence.Framework.Json
import Geofence.Config.Partitions
import Geofence.Areas.SpatialIndex
import Geofence.Areas.PolygonValidation
import Geofence.Database.Tables
import Geofence.Areas.Snapshot
import Geofence.Areas.SnapshotService
import Geofence.Areas.Versioning
import Geofence.Areas.Deletion
import Geofence.Areas.Polling
import Geofence.Areas.Creation
import Geofence.Areas.Lookups
import Geofence.Areas.Listing
import Geofence.Locations.Transaction
import Geofence.Locations.Report
import Geofence.Locations.Hints
import Geofence.Locations.WorkerRun
import Geofence.Locations.ReportPhases
import Geofence.Locations.Sessions
import Geofence.Locations.LockWaits
import Geofence.Locations.Accounting
import Geofence.Locations.DedupOrder
import Geofence.Presence.Cache
import Geofence.Presence.CacheTexts
import Geofence.Presence.Staleness
import Geofence.Presence.NoopCounter
import Geofence.Worker.Consumer
import Geofence.Worker.Dedup
import Geofence.Worker.DeviceRun
import Geofence.Worker.CapturedAt
import Geofence.Worker.StaleArea
import Geofence.Worker.Chains
import Geofence.Worker.Settlement
import Geofence.Worker.Delivery
import Geofence.Worker.Ordering
import Geofence.Worker.Redelivery
import Geofence.Worker.Fleet
import Geofence.Worker.FleetRuns
import Geofence.Worker.Deployment
import Geofence.Worker.DeploymentRuns
import Geofence.Worker.Ownership
import Geofence.Worker.EventPath
import Geofence.Worker.Drain
import Geofence.Worker.Effects
import Geofence.Logs.Cursor
import Geofence.Logs.Listing
import Geofence.Logs.CursorCasts
import Geofence.Logs.Walk
import Geofence.Logs.ChangingWalk
import Geofence.Mq.Publisher
import Geofence.Mq.Wire
import Geofence.Mq.Connection
import Geofence.Mq.Recovery
import Geofence.Mq.Shutdown
import Geofence.Mq.DeclareTopology
