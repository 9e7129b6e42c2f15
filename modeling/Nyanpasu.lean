import Nyanpasu.Api.Paths
import Nyanpasu.Api.Retry
import Nyanpasu.Config.Artifacts
import Nyanpasu.Config.Endpoint
import Nyanpasu.Config.Faithful
import Nyanpasu.Config.Soundness
import Nyanpasu.Config.Yaml
import Nyanpasu.Control.Commands
import Nyanpasu.Instance.Deadlines
import Nyanpasu.Instance.Hysteresis
import Nyanpasu.Instance.Lifecycle
import Nyanpasu.Instance.Pairing
import Nyanpasu.Instance.Serialized
import Nyanpasu.Log.Bounds
import Nyanpasu.Log.Logfmt
import Nyanpasu.Log.Names
import Nyanpasu.Log.Premium
import Nyanpasu.Log.Sink
import Nyanpasu.Manager.Cancellation
import Nyanpasu.Manager.Capability
import Nyanpasu.Manager.Features
import Nyanpasu.Manager.Forwarding
import Nyanpasu.Manager.Probing
import Nyanpasu.Manager.Recovery
import Nyanpasu.Manager.Replies
import Nyanpasu.Manager.Restoration
import Nyanpasu.Manager.Snapshots
import Nyanpasu.Manager.Unchanged
import Nyanpasu.Service.Admission
import Nyanpasu.Service.Delivery
import Nyanpasu.Service.Echo
import Nyanpasu.Service.Gate
import Nyanpasu.Service.Kinds
import Nyanpasu.Service.Layered
import Nyanpasu.Service.Legacy
import Nyanpasu.Service.Rings
import Nyanpasu.Service.Shutdown
