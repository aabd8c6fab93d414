import ProtobufMq.Server.Channel

namespace ProtobufMq

open Foundation

/-!
# `server`: connections, channels and the dispatch of requests

The server finds the connection that a request came on, the connection finds
the channel that the request names, and the channel carries it out.  A request
on an unknown connection shuts the connection down, and one for a channel that
is not open is dropped.  All requests are served by the thread of the event
loop, one after another.

Connections and channels are objects that change in place, so a connection is
assigned to its key again when it or one of its channels has changed.
-/

/-- `Connection`, which is its `ChannelManager`. -/
structure Connection where
  channels : Dictionary Bytes Channel := ∅

/-- A request as it arrives. -/
inductive Packet where
  | openChannel (rid cid : Bytes)
  | closeChannel (rid cid : Bytes)
  | request (rid cid : Bytes) (request : Request)

namespace Packet

/-- The id of the request. -/
def rid : Packet → Bytes
  | .openChannel rid _ => rid
  | .closeChannel rid _ => rid
  | .request rid _ _ => rid

/-- The id of the channel that the request names. -/
def cid : Packet → Bytes
  | .openChannel _ cid => cid
  | .closeChannel _ cid => cid
  | .request _ cid _ => cid

end Packet

/-- What is sent back: a `basicCommonResponse`, nothing, or the end of the
connection. -/
inductive Reply where
  | response (rid cid : Bytes) (ok : Bool)
  | nothing
  | shutdown
  deriving DecidableEq, Repr

/-- `server`. -/
structure Server where
  shared : Shared
  connections : Dictionary Nat Connection := ∅

namespace Server

/-- The constructor: every recovered queue gets a consumer unit. -/
def new [Protobuf] (database : Database) (basedir : Bytes) : FileM Server := do
  let host ← VirtualHost.new database basedir
  return { shared := {
    host := host
    cmptr := host.qmptr.msgQueues.keys.foldl ConsumerManager.initQueueConsumer {} } }

/-- `ConnectionManager::newConnection`. -/
def newConnection (server : Server) (conn : Nat) : Server :=
  { server with connections := Dictionary.insertNew conn {} server.connections }

/-- `ConnectionManager::deleteConnection`: the channels are destroyed with the
connection. -/
def deleteConnection (server : Server) (conn : Nat) : Except Fault Server :=
  match server.connections.lookup conn with
  | none => .ok server
  | some connection =>
      ((Dictionary.values connection.channels).foldlM Channel.destroy server.shared).map
        fun shared => ⟨shared, server.connections.erase conn⟩

/-- `Connection::openChannel`. -/
def openChannel (server : Server) (conn : Nat) (connection : Connection) (cid : Bytes) :
    Bool × Server :=
  match connection.channels.lookup cid with
  | some _ => (false, server)
  | none =>
      let channel : Channel := { address := server.shared.allocated, cid := cid }
      (true, {
        shared := { server.shared with allocated := server.shared.allocated + 1 }
        connections := Dictionary.assign conn ⟨connection.channels.insert cid channel⟩
          server.connections })

/-- `Connection::closeChannel`. -/
def closeChannel (server : Server) (conn : Nat) (connection : Connection) (cid : Bytes) :
    Except Fault (Bool × Server) :=
  match connection.channels.lookup cid with
  | none => .ok (false, server)
  | some channel =>
      (Channel.destroy server.shared channel).map fun shared =>
        (true, ⟨shared,
          Dictionary.assign conn ⟨connection.channels.erase cid⟩ server.connections⟩)

/-- Dispatch a request. -/
def handle [Protobuf] (server : Server) (conn : Nat) (chance : Chance) (packet : Packet) :
    FileM (Reply × Server) :=
  match server.connections.lookup conn with
  | none => return (.shutdown, server)
  | some connection =>
      match packet with
      | .openChannel rid cid =>
          let opened := server.openChannel conn connection cid
          return (.response rid cid opened.1, opened.2)
      | .closeChannel rid cid => do
          let closed ← ofExcept (server.closeChannel conn connection cid)
          return (.response rid cid closed.1, closed.2)
      | .request rid cid request =>
          match connection.channels.lookup cid with
          | none => return (.nothing, server)
          | some channel => do
              let done ← channel.handle server.shared chance request
              return (.response rid cid done.1,
                ⟨done.2.2, Dictionary.assign conn
                  ⟨Dictionary.assign cid done.2.1 connection.channels⟩ server.connections⟩)

/-- The open channel that a connection has under an id. -/
def channelAt (server : Server) (conn : Nat) (cid : Bytes) : Option Channel :=
  (server.connections.lookup conn).bind fun connection => connection.channels.lookup cid

/-! ## Serving one request after another -/

/-- What the event loop is given to do. -/
inductive Action where
  | connect (conn : Nat)
  | disconnect (conn : Nat)
  | packet (conn : Nat) (chance : Chance) (packet : Packet)

/-- An action with the outcomes of its file operations. -/
structure Event where
  action : Action
  script : List Outcome := []

/-- A server together with the disk. -/
structure Site where
  server : Server
  disk : Disk

/-- Perform one action. -/
def perform [Protobuf] (site : Site) (event : Event) : Except Fault Site :=
  match event.action with
  | .connect conn => .ok { site with server := site.server.newConnection conn }
  | .disconnect conn =>
      (site.server.deleteConnection conn).map fun server => { site with server := server }
  | .packet conn chance packet =>
      (performed (site.server.handle conn chance packet) site.disk event.script).map
        fun done => ⟨done.1.2, done.2⟩

/-- The server over an empty database. -/
def fresh (basedir : Bytes) : Server :=
  { shared := { host := VirtualHost.fresh basedir } }

theorem new_empty [Protobuf] (basedir : Bytes) (world : World) :
    new {} basedir world = .ok (fresh basedir) world := rfl

/-! ## What a request can do -/

section Requests

variable {server : Server} {conn : Nat} {cid : Bytes} {world after : World}

theorem channelAt_eq {connection : Connection}
    (connected : server.connections.lookup conn = some connection) (cid : Bytes) :
    server.channelAt conn cid = connection.channels.lookup cid := by
  rw [channelAt, connected]
  rfl

/-- A request is dropped if its channel is not open.  Otherwise the channel
carries it out, and is written back. -/
theorem request_ok [Protobuf] {chance : Chance} {rid : Bytes} {request : Request}
    {done : Reply × Server}
    (completed : server.handle conn chance (.request rid cid request) world = .ok done after) :
    (server.channelAt conn cid = none ∧ done.2 = server ∧
      ∀ accepted, done.1 ≠ .response rid cid accepted) ∨
    (∃ connection channel result, server.connections.lookup conn = some connection ∧
      connection.channels.lookup cid = some channel ∧
      channel.handle server.shared chance request world = .ok result after ∧
      done = (.response rid cid result.1, ⟨result.2.2, Dictionary.assign conn
        ⟨Dictionary.assign cid result.2.1 connection.channels⟩ server.connections⟩)) := by
  unfold handle at completed
  cases connected : server.connections.lookup conn with
  | none =>
      rw [connected] at completed
      cases completed
      refine Or.inl ⟨?_, rfl, nofun⟩
      rw [channelAt, connected]
      rfl
  | some connection =>
      rw [connected] at completed
      simp only at completed
      cases opened : connection.channels.lookup cid with
      | none =>
          rw [opened] at completed
          cases completed
          exact Or.inl ⟨(channelAt_eq connected cid).trans opened, rfl, nofun⟩
      | some channel =>
          rw [opened] at completed
          rcases bind_eq_ok completed with ⟨result, middle, handled, rest⟩
          cases rest
          exact Or.inr ⟨connection, channel, result, rfl, opened, handled, rfl⟩

/-- Opening a channel needs a connection. -/
theorem openChannel_ok [Protobuf] {chance : Chance} {rid : Bytes} {done : Reply × Server}
    (completed : server.handle conn chance (.openChannel rid cid) world = .ok done after) :
    done.2 = server ∨ ∃ connection, server.connections.lookup conn = some connection ∧
      done.2 = (server.openChannel conn connection cid).2 := by
  unfold handle at completed
  cases connected : server.connections.lookup conn with
  | none =>
      rw [connected] at completed
      cases completed
      exact Or.inl rfl
  | some connection =>
      rw [connected] at completed
      cases completed
      exact Or.inr ⟨connection, rfl, rfl⟩

/-- A channel that is closed is destroyed and taken out. -/
theorem closeChannel_cases {connection : Connection} {closed : Bool × Server}
    (completed : server.closeChannel conn connection cid = .ok closed) :
    closed.2 = server ∨ ∃ channel shared, connection.channels.lookup cid = some channel ∧
      Channel.destroy server.shared channel = .ok shared ∧
      closed.2 = ⟨shared,
        Dictionary.assign conn ⟨connection.channels.erase cid⟩ server.connections⟩ := by
  unfold closeChannel at completed
  cases opened : connection.channels.lookup cid with
  | none =>
      rw [opened] at completed
      cases completed
      exact Or.inl rfl
  | some channel =>
      rw [opened] at completed
      rcases except_map_eq_ok completed with ⟨shared, destroyed, same⟩
      exact Or.inr ⟨channel, shared, rfl, destroyed, same ▸ rfl⟩

/-- Closing a channel needs a connection. -/
theorem closeChannel_ok [Protobuf] {chance : Chance} {rid : Bytes} {done : Reply × Server}
    (completed : server.handle conn chance (.closeChannel rid cid) world = .ok done after) :
    done.2 = server ∨ ∃ connection accepted, server.connections.lookup conn = some connection ∧
      server.closeChannel conn connection cid = .ok (accepted, done.2) := by
  unfold handle at completed
  cases connected : server.connections.lookup conn with
  | none =>
      rw [connected] at completed
      cases completed
      exact Or.inl rfl
  | some connection =>
      rw [connected] at completed
      rcases bind_eq_ok completed with ⟨closed, middle, closes, rest⟩
      cases rest
      exact Or.inr ⟨connection, closed.1, rfl, (ofExcept_eq_ok closes).1⟩

end Requests

/-! ## What keeps a property of the managers -/

section Keeping

variable {holds : Shared → Prop} {world after : World}

/-- The managers after a request are those that the channel left, unless the
request was for the connection. -/
theorem packet_keeps [Protobuf] {server : Server} {conn : Nat} {chance : Chance} {packet : Packet}
    {done : Reply × Server}
    (allocates : ∀ shared, holds shared → holds { shared with allocated := shared.allocated + 1 })
    (destroys : ∀ shared channel next, holds shared →
      Channel.destroy shared channel = .ok next → holds next)
    (handles : ∀ rid cid channel request result, packet = .request rid cid request →
      server.channelAt conn cid = some channel →
      Channel.handle channel server.shared chance request world = .ok result after →
      holds result.2.2)
    (held : holds server.shared)
    (completed : server.handle conn chance packet world = .ok done after) : holds done.2.shared := by
  cases packet with
  | openChannel rid cid =>
      rcases openChannel_ok completed with same | ⟨connection, _, same⟩
      all_goals rw [same]
      · exact held
      · unfold openChannel
        cases connection.channels.lookup cid with
        | some channel => exact held
        | none => exact allocates server.shared held
  | closeChannel rid cid =>
      rcases closeChannel_ok completed with same | ⟨connection, accepted, _, closes⟩
      · rw [same]
        exact held
      · rcases closeChannel_cases closes with same | ⟨channel, shared, _, destroyed, same⟩
        all_goals
          simp only at same
          rw [same]
        · exact held
        · exact destroys server.shared channel shared held destroyed
  | request rid cid request =>
      rcases request_ok completed with ⟨_, same, _⟩ |
        ⟨connection, channel, result, connected, opened, handled, same⟩
      · rw [same]
        exact held
      · rw [same]
        exact handles rid cid channel request result rfl ((channelAt_eq connected cid).trans opened)
          handled

/-- What every request keeps, whatever its channel. -/
theorem handle_keeps [Protobuf] {server : Server} {conn : Nat} {chance : Chance} {packet : Packet}
    {done : Reply × Server}
    (allocates : ∀ shared, holds shared → holds { shared with allocated := shared.allocated + 1 })
    (destroys : ∀ shared channel next, holds shared →
      Channel.destroy shared channel = .ok next → holds next)
    (handles : ∀ channel request result, holds server.shared →
      Channel.handle channel server.shared chance request world = .ok result after →
      holds result.2.2)
    (held : holds server.shared)
    (completed : server.handle conn chance packet world = .ok done after) : holds done.2.shared :=
  packet_keeps allocates destroys (fun _ _ channel request result _ _ => handles channel request
    result held) held completed

theorem deleteConnection_keeps {server next : Server} {conn : Nat}
    (destroys : ∀ shared channel next, holds shared →
      Channel.destroy shared channel = .ok next → holds next)
    (held : holds server.shared) (completed : server.deleteConnection conn = .ok next) :
    holds next.shared := by
  unfold deleteConnection at completed
  cases connected : server.connections.lookup conn with
  | none =>
      rw [connected] at completed
      cases completed
      exact held
  | some connection =>
      rw [connected] at completed
      rcases except_map_eq_ok completed with ⟨shared, destroyed, same⟩
      rw [← same]
      exact foldlM_except_invariant destroys held destroyed

end Keeping

end Server

end ProtobufMq
