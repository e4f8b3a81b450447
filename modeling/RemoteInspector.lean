import RemoteInspector.Client.Console
import RemoteInspector.Client.Trace
import RemoteInspector.Transport.Local
import RemoteInspector.Proofs.Client.Lines
import RemoteInspector.Proofs.Client.Marshalling
import RemoteInspector.Proofs.Transport.Decoding
import RemoteInspector.Proofs.Server.Tracers
import RemoteInspector.Proofs.Grip.Identity
import RemoteInspector.Proofs.Server.TabLists
import RemoteInspector.Proofs.Dom.Siblings
import RemoteInspector.Proofs.Inspector.Windows
import RemoteInspector.Proofs.Inspector.Subtrees
import RemoteInspector.Proofs.Grip.Getters
import RemoteInspector.Proofs.Client.Texts
import RemoteInspector.Proofs.Client.Attributes
import RemoteInspector.Proofs.Trace.Names
import RemoteInspector.Proofs.Server.IdleTracers
import RemoteInspector.Proofs.Network.Routing
import RemoteInspector.Proofs.Inspector.Wire
