import Porla.Map
import Porla.Data.Migrate
import Porla.Workflows.Workflow
import Porla.Session.Shutdown
import Porla.Proofs.Migration
import Porla.Proofs.WorkflowSequencing
import Porla.Proofs.OneshotCallbacks
import Porla.Proofs.Recheck
import Porla.Proofs.Liveness
import Porla.Proofs.TorrentAgreement
import Porla.Proofs.Shutdown
import Porla.Proofs.Prefetch
import Porla.Proofs.ShutdownChunks
import Porla.Proofs.Load
import Porla.Proofs.ClientData
import Porla.Proofs.Staggered
import Porla.Proofs.PrefetchSetup
import Porla.Proofs.PrefetchMaps
import Porla.Proofs.DrainSafety
import Porla.Proofs.Restart
import Porla.Proofs.WorkflowCallbacks
import Porla.Proofs.Lifetimes
