import RemoteInspector.Client.Front
import RemoteInspector.Server
/-!
A server as the peer of a client, over one of its connections.
-/
namespace RemoteInspector

structure ServerEnd where
  server : Server
  connection : ConnectionId

namespace ServerEnd

/-- The packets written to the client, and whether the connection has ended. -/
def collect (e : ServerEnd) : ServerEnd × List Json × Bool :=
  match e.server.connection? e.connection with
  | none => (e, [], true)
  | some conn =>
    ({ e with server := e.server.onConnection e.connection fun s =>
        s.setConn fun c => { c with sent := [] } },
      conn.sent, !conn.isOpen)

instance : Peer ServerEnd where
  receive e packet := collect { e with server := e.server.receive e.connection (.obj packet) }

end ServerEnd

namespace Link

def onServer (l : Link ServerEnd) (f : Server → Server) : Link ServerEnd :=
  let (peer, packets, ended) := ServerEnd.collect { l.peer with server := f l.peer.server }
  Link.deliver { l with peer := peer } packets ended

def connect (server : Server) : Except ClientError (Link ServerEnd) := do
  let (server, id) := server.connect true false
  let (peer, packets, ended) := ServerEnd.collect ⟨server, id⟩
  let client ← Client.connect packets.head?
  return Link.deliver ⟨client, peer⟩ packets.tail ended

def hangUp (l : Link ServerEnd) : Link ServerEnd := l.onServer (·.hangUp l.peer.connection)

def shutdown (l : Link ServerEnd) : Link ServerEnd := l.onServer Server.shutdown

end Link

end RemoteInspector
