import Axona.Safety.Successor
import Axona.Safety.Cache
import Axona.Safety.Stamps
import Axona.Safety.Retraction
import Axona.Safety.Yield
import Axona.Safety.Deletion
import Axona.Safety.Requests
import Axona.Safety.Attachment
import Axona.Safety.Delegation
import Axona.Safety.Pending
import Axona.Safety.Capability
import Axona.Safety.Sockets
import Axona.Safety.Routes
import Axona.Safety.Crossed
import Axona.Safety.Epochs
import Axona.Safety.Ownership
import Axona.Safety.Standby
import Axona.Safety.Handoff
import Axona.Safety.Marks
import Axona.Safety.Reports
import Axona.Safety.Closes
import Axona.Safety.Snapshot
import Axona.Safety.TwoPools
import Axona.Safety.Convictions
import Axona.Safety.Bridges
import Axona.Safety.Persist
import Axona.Safety.Versions
import Axona.Safety.FindClosest
import Axona.Safety.Fill
import Axona.Safety.Heartbeat
import Axona.Safety.LookupCalls
import Axona.Safety.FilesWhole
import Axona.Safety.Expiry
import Axona.Safety.Durability
import Axona.Safety.Ingest
import Axona.Safety.ReplicaGate
import Axona.Safety.Pages
import Axona.Safety.Strata
import Axona.Safety.Chunk
import Axona.Safety.Chains
import Axona.Safety.NodeIdentity
import Axona.Safety.Claims
import Axona.Safety.Canonical
import Axona.Safety.Transcripts
import Axona.Safety.HolderProbe
import Axona.Safety.Presence
import Axona.Safety.Lives
