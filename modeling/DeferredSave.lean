import DeferredSave.Configuration
import DeferredSave.Log.Logging
import DeferredSave.Proofs.Course.Burst
import DeferredSave.Proofs.Course.Newest
import DeferredSave.Proofs.Edit.Log
import DeferredSave.Proofs.Exchange.Convergence
import DeferredSave.Proofs.Exchange.Versions
import DeferredSave.Proofs.Log.ReadBack
import DeferredSave.Proofs.Panel.Faithful
import DeferredSave.Proofs.Retry.Script
import DeferredSave.Proofs.Session.ShutDown
import DeferredSave.Proofs.Status.Overtaken
import DeferredSave.Proofs.Store.Conformance
import DeferredSave.Proofs.Store.Reload
import DeferredSave.Proofs.Timer.History
