import ProtobufMq.Client.Channel

namespace ProtobufMq
namespace Client

open Foundation

/-!
# The client, its threads, and what lies between it and the server

Application threads call the request functions of the channels and block until
their responses are there.  The network thread turns what arrives into tasks of
the pool.  A worker of the pool takes all the tasks that are there at once, as
its batch, and runs them one after another; the callback of a consumer runs in
a worker, and if it acknowledges its message the worker blocks as well, with the
rest of its batch in hand.

A machine takes one step of one of these threads, or of the server, at a time.
Of the server only what a client can notice is kept: it registers the consumer
of a subscription and removes it again, answers each request once, and pushes
messages for the tags that are registered.  What is on the way may arrive in any
order.

Channels are not taken out of the table here.  The ids come from
`UUIDHelper::uuid`, so an id that was given to a channel or a request before is
not given again; an event that would do so is not a step.
-/

/-- A call that waits for the response with its id. -/
structure Calling where
  cid : Bytes
  rid : Bytes
  call : Call

/-- A task of the pool. -/
inductive Task where
  | putBasicResponse (resp : Response)
  | consume (push : Push)
  deriving DecidableEq

/-- A worker of the pool: the rest of its batch, and the acknowledgement that it
waits for, if any. -/
structure Worker where
  batch : List Task := []
  acking : Option Calling := none

/-- What is on the way to the client. -/
inductive Arrival where
  | response (resp : Response)
  | push (push : Push)
  deriving DecidableEq

namespace Arrival

/-- The channel that it is for. -/
def cid : Arrival → Bytes
  | .response resp => resp.cid
  | .push message => message.cid

/-- The task that the dispatcher makes of it. -/
def task : Arrival → Task
  | .response resp => .putBasicResponse resp
  | .push message => .consume message

end Arrival

/-- The client with its threads, and the server as it sees it.  `callers` are the
application threads that wait, `woken` those that have their response and have
not returned yet.  `requests` are sent and not answered.  `pushed`, `handed` and
`returned` list what has happened so far. -/
structure Machine where
  channels : Dictionary Bytes Channel := ∅
  taskpool : List Task := []
  workers : List Worker
  callers : List Calling := []
  woken : List (Calling × Response) := []
  returned : List (Calling × Response) := []
  requests : List Packet := []
  registered : List (Bytes × Bytes) := []
  transit : List Arrival := []
  issued : List Bytes := []
  pushed : List Push := []
  handed : List Push := []

/-- Who takes the next step. -/
inductive Event where
  /-- `ChannelManager::createChannel` enters a channel into the table. -/
  | createChannel (cid : Bytes)
  /-- An application thread calls a request function. -/
  | call (cid rid : Bytes) (call : Call)
  /-- The server registers the consumer of a request that it has. -/
  | register (index : Nat)
  /-- The server removes the consumers that a request cancels or closes. -/
  | deregister (index : Nat)
  | reply (index : Nat) (ok : Bool)
  | push (push : Push)
  /-- The network thread receives something. -/
  | arrive (index : Nat)
  /-- A worker takes all the tasks. -/
  | fetch (index : Nat)
  /-- A worker runs the next task of its batch. -/
  | execute (index : Nat) (rid : Bytes)
  /-- A worker has the response to its acknowledgement. -/
  | resume (index : Nat)
  /-- An application thread has its response. -/
  | wake (index : Nat)
  /-- The call of an application thread returns. -/
  | finish (index : Nat)

namespace Machine

/-- A client whose pool has so many workers. -/
def start (workers : Nat) : Machine :=
  { workers := List.replicate workers {} }

/-- The tasks that have not been run. -/
def unexecuted (machine : Machine) : List Task :=
  machine.taskpool ++ machine.workers.flatMap Worker.batch

/-- The consumer whose callback is called with a message. -/
def receiver (machine : Machine) (push : Push) : Option Consumer :=
  (machine.channels.lookup push.cid).bind fun channel => channel.consume push

/-- The machine with another state of a channel. -/
def withChannel (machine : Machine) (cid : Bytes) (channel : Channel) : Machine :=
  { machine with channels := Dictionary.assign cid channel machine.channels }

/-- The machine with another state of a worker. -/
def withWorker (machine : Machine) (index : Nat) (worker : Worker) : Machine :=
  { machine with workers := machine.workers.set index worker }

/-- A request is sent. -/
def sending (machine : Machine) (packet : Packet) : Machine :=
  { machine with
    requests := machine.requests ++ [packet]
    issued := packet.rid :: machine.issued }

/-- An application thread calls a function of a channel. -/
def call (machine : Machine) (cid rid : Bytes) (call : Call) : Except Fault Machine :=
  match machine.channels.lookup cid with
  | none => .ok machine
  | some channel =>
      if rid ∈ machine.issued then .ok machine
      else (channel.send rid call).map fun sent =>
        match sent with
        | none => machine
        | some packet => { machine.sending packet with
            callers := machine.callers ++ [⟨cid, rid, call⟩] }

/-- The server registers the consumer of a subscription. -/
def register (machine : Machine) (index : Nat) : Machine :=
  match machine.requests[index]? with
  | some (.request _ cid (.basicConsume consumerTag _ _)) =>
      { machine with registered := machine.registered ++ [(cid, consumerTag)] }
  | _ => machine

/-- The server removes the consumer of a cancelled subscription, or those of a
closed channel. -/
def deregister (machine : Machine) (index : Nat) : Machine :=
  match machine.requests[index]? with
  | some (.request _ cid (.basicCancel consumerTag _)) =>
      { machine with registered := machine.registered.filter (· ≠ (cid, consumerTag)) }
  | some (.closeChannel _ cid) =>
      { machine with registered := machine.registered.filter fun entry => entry.1 ≠ cid }
  | _ => machine

/-- The server answers a request. -/
def reply (machine : Machine) (index : Nat) (ok : Bool) : Machine :=
  match machine.requests[index]? with
  | none => machine
  | some packet => { machine with
      requests := machine.requests.eraseIdx index
      transit := machine.transit ++ [.response ⟨packet.rid, packet.cid, ok⟩] }

/-- The server pushes a message. -/
def push (machine : Machine) (push : Push) : Machine :=
  if (push.cid, push.consumerTag) ∈ machine.registered then
    { machine with
      transit := machine.transit ++ [.push push]
      pushed := machine.pushed ++ [push] }
  else machine

/-- `client::basicConsume` and `client::basicCommon`: the network thread looks the
channel up and pushes a task. -/
def arrive (machine : Machine) (index : Nat) : Except Fault Machine :=
  match machine.transit[index]? with
  | none => .ok machine
  | some arrival =>
      match machine.channels.lookup arrival.cid with
      | none => .error .channelsEnd
      | some _ => .ok { machine with
          transit := machine.transit.eraseIdx index
          taskpool := machine.taskpool ++ [arrival.task] }

/-- The first half of a turn of `Threadpool::entry`: the worker swaps the tasks
for its empty batch. -/
def fetch (machine : Machine) (index : Nat) : Machine :=
  match machine.workers[index]? with
  | some ⟨[], none⟩ => { machine.withWorker index ⟨machine.taskpool, none⟩ with taskpool := [] }
  | _ => machine

/-- The callback of a consumer, which may acknowledge the message. -/
def callback (machine : Machine) (index : Nat) (rest : List Task) (push : Push) (channel : Channel)
    (consumer : Consumer) (rid : Bytes) : Machine :=
  let handed := { machine.withWorker index ⟨rest, none⟩ with handed := machine.handed ++ [push] }
  if consumer.acknowledges then
    match channel.basicAck rid push.messageId with
    | none => handed
    | some packet =>
        if rid ∈ machine.issued then machine
        else { handed.sending packet with
          workers := machine.workers.set index
            ⟨rest, some ⟨push.cid, rid, .basicAck push.messageId⟩⟩ }
  else handed

/-- A worker that does not wait runs the next task of its batch. -/
def execute (machine : Machine) (index : Nat) (rid : Bytes) : Machine :=
  match machine.workers[index]? with
  | some ⟨.putBasicResponse resp :: rest, none⟩ =>
      match machine.channels.lookup resp.cid with
      | none => machine.withWorker index ⟨rest, none⟩
      | some channel =>
          (machine.withChannel resp.cid (channel.putBasicResponse resp)).withWorker index
            ⟨rest, none⟩
  | some ⟨.consume push :: rest, none⟩ =>
      match machine.channels.lookup push.cid with
      | none => machine.withWorker index ⟨rest, none⟩
      | some channel =>
          match channel.consume push with
          | none => machine.withWorker index ⟨rest, none⟩
          | some consumer => machine.callback index rest push channel consumer rid
  | _ => machine

/-- The response that a call waits for, and the channel without it. -/
def answer (machine : Machine) (calling : Calling) : Option (Response × Channel) :=
  (machine.channels.lookup calling.cid).bind fun channel => channel.waitBasicResponse calling.rid

/-- A worker gets the response to its acknowledgement, and goes on. -/
def resume (machine : Machine) (index : Nat) : Machine :=
  match machine.workers[index]? with
  | some ⟨rest, some calling⟩ =>
      match machine.answer calling with
      | none => machine
      | some (resp, channel) => { (machine.withChannel calling.cid channel).withWorker index
          ⟨rest, none⟩ with returned := machine.returned ++ [(calling, resp)] }
  | _ => machine

/-- An application thread gets its response. -/
def wake (machine : Machine) (index : Nat) : Machine :=
  match machine.callers[index]? with
  | none => machine
  | some calling =>
      match machine.answer calling with
      | none => machine
      | some (resp, channel) => { machine.withChannel calling.cid channel with
          callers := machine.callers.eraseIdx index
          woken := machine.woken ++ [(calling, resp)] }

/-- The call of an application thread does the rest of its work and returns. -/
def finish (machine : Machine) (index : Nat) : Machine :=
  match machine.woken[index]? with
  | none => machine
  | some (calling, resp) =>
      let done := { machine with
        woken := machine.woken.eraseIdx index
        returned := machine.returned ++ [(calling, resp)] }
      match machine.channels.lookup calling.cid with
      | none => done
      | some channel => done.withChannel calling.cid (channel.finish resp calling.call)

/-- Perform one step. -/
def perform (machine : Machine) : Event → Except Fault Machine
  | .createChannel cid =>
      .ok { machine with channels := Dictionary.insertNew cid { cid := cid } machine.channels }
  | .call cid rid call => machine.call cid rid call
  | .register index => .ok (machine.register index)
  | .deregister index => .ok (machine.deregister index)
  | .reply index ok => .ok (machine.reply index ok)
  | .push push => .ok (machine.push push)
  | .arrive index => machine.arrive index
  | .fetch index => .ok (machine.fetch index)
  | .execute index rid => .ok (machine.execute index rid)
  | .resume index => .ok (machine.resume index)
  | .wake index => .ok (machine.wake index)
  | .finish index => .ok (machine.finish index)

/-! ## What a step can do -/

/-- The steps, each with what it finds and what it leaves. -/
inductive Turn (machine : Machine) : Event → Machine → Prop where
  | still {event : Event} : Turn machine event machine
  | created {cid : Bytes} (absent : cid ∉ machine.channels) :
      Turn machine (.createChannel cid)
        { machine with channels := machine.channels.insert cid { cid := cid } }
  | called {cid rid : Bytes} {call : Call} {channel : Channel} {packet : Packet}
      (found : machine.channels.lookup cid = some channel) (fresh : rid ∉ machine.issued)
      (sent : channel.send rid call = .ok (some packet)) :
      Turn machine (.call cid rid call)
        { machine.sending packet with callers := machine.callers ++ [⟨cid, rid, call⟩] }
  | registered {index : Nat} {rid cid tag qname : Bytes} {autoAck : Bool}
      (there : machine.requests[index]? =
        some (.request rid cid (.basicConsume tag qname autoAck))) :
      Turn machine (.register index)
        { machine with registered := machine.registered ++ [(cid, tag)] }
  | deregistered {index : Nat} {registered : List (Bytes × Bytes)}
      (fewer : registered ⊆ machine.registered) :
      Turn machine (.deregister index) { machine with registered := registered }
  | replied {index : Nat} {ok : Bool} {packet : Packet}
      (there : machine.requests[index]? = some packet) :
      Turn machine (.reply index ok) { machine with
        requests := machine.requests.eraseIdx index
        transit := machine.transit ++ [.response ⟨packet.rid, packet.cid, ok⟩] }
  | pushed {push : Push} (known : (push.cid, push.consumerTag) ∈ machine.registered) :
      Turn machine (.push push) { machine with
        transit := machine.transit ++ [.push push]
        pushed := machine.pushed ++ [push] }
  | arrived {index : Nat} {arrival : Arrival} (there : machine.transit[index]? = some arrival) :
      Turn machine (.arrive index) { machine with
        transit := machine.transit.eraseIdx index
        taskpool := machine.taskpool ++ [arrival.task] }
  | fetched {index : Nat} (there : machine.workers[index]? = some ⟨[], none⟩) :
      Turn machine (.fetch index)
        { machine.withWorker index ⟨machine.taskpool, none⟩ with taskpool := [] }
  | put {index : Nat} {rid : Bytes} {resp : Response} {rest : List Task} {channel : Channel}
      (there : machine.workers[index]? = some ⟨.putBasicResponse resp :: rest, none⟩)
      (found : machine.channels.lookup resp.cid = some channel) :
      Turn machine (.execute index rid)
        ((machine.withChannel resp.cid (channel.putBasicResponse resp)).withWorker index
          ⟨rest, none⟩)
  | misput {index : Nat} {rid : Bytes} {resp : Response} {rest : List Task}
      (there : machine.workers[index]? = some ⟨.putBasicResponse resp :: rest, none⟩)
      (missing : machine.channels.lookup resp.cid = none) :
      Turn machine (.execute index rid) (machine.withWorker index ⟨rest, none⟩)
  | ignored {index : Nat} {rid : Bytes} {push : Push} {rest : List Task}
      (there : machine.workers[index]? = some ⟨.consume push :: rest, none⟩)
      (nobody : ∀ channel, machine.channels.lookup push.cid = some channel →
        channel.consume push = none) :
      Turn machine (.execute index rid) (machine.withWorker index ⟨rest, none⟩)
  | handed {index : Nat} {rid : Bytes} {push : Push} {rest : List Task} {channel : Channel}
      {consumer : Consumer}
      (there : machine.workers[index]? = some ⟨.consume push :: rest, none⟩)
      (found : machine.channels.lookup push.cid = some channel)
      (accepts : channel.consume push = some consumer)
      (returns : consumer.acknowledges = false) :
      Turn machine (.execute index rid)
        { machine.withWorker index ⟨rest, none⟩ with handed := machine.handed ++ [push] }
  | acked {index : Nat} {rid : Bytes} {push : Push} {rest : List Task} {channel : Channel}
      {consumer : Consumer} {packet : Packet}
      (there : machine.workers[index]? = some ⟨.consume push :: rest, none⟩)
      (found : machine.channels.lookup push.cid = some channel)
      (accepts : channel.consume push = some consumer)
      (acknowledges : consumer.acknowledges = true) (fresh : rid ∉ machine.issued)
      (sent : channel.basicAck rid push.messageId = some packet) :
      Turn machine (.execute index rid) { machine.sending packet with
        workers := machine.workers.set index
          ⟨rest, some ⟨push.cid, rid, .basicAck push.messageId⟩⟩
        handed := machine.handed ++ [push] }
  | resumed {index : Nat} {rest : List Task} {calling : Calling} {resp : Response}
      {channel : Channel} (there : machine.workers[index]? = some ⟨rest, some calling⟩)
      (answered : machine.answer calling = some (resp, channel)) :
      Turn machine (.resume index)
        { (machine.withChannel calling.cid channel).withWorker index ⟨rest, none⟩ with
          returned := machine.returned ++ [(calling, resp)] }
  | woke {index : Nat} {calling : Calling} {resp : Response} {channel : Channel}
      (there : machine.callers[index]? = some calling)
      (answered : machine.answer calling = some (resp, channel)) :
      Turn machine (.wake index) { machine.withChannel calling.cid channel with
        callers := machine.callers.eraseIdx index
        woken := machine.woken ++ [(calling, resp)] }
  | finished {index : Nat} {calling : Calling} {resp : Response}
      {channels : Dictionary Bytes Channel}
      (there : machine.woken[index]? = some (calling, resp))
      (done : (machine.channels.lookup calling.cid = none ∧ channels = machine.channels) ∨
        ∃ channel, machine.channels.lookup calling.cid = some channel ∧
          channels = Dictionary.assign calling.cid (channel.finish resp calling.call)
            machine.channels) :
      Turn machine (.finish index) { machine with
        channels := channels
        woken := machine.woken.eraseIdx index
        returned := machine.returned ++ [(calling, resp)] }

section Turns

variable {machine next : Machine}

/-- A callback returns, or sends its acknowledgement. -/
theorem callback_turn {index : Nat} {rest : List Task} {push : Push} {channel : Channel}
    {consumer : Consumer} {rid : Bytes}
    (there : machine.workers[index]? = some ⟨.consume push :: rest, none⟩)
    (found : machine.channels.lookup push.cid = some channel)
    (accepts : channel.consume push = some consumer) :
    Turn machine (.execute index rid)
      (machine.callback index rest push channel consumer rid) := by
  unfold callback
  cases acknowledges : consumer.acknowledges with
  | false => exact .handed there found accepts acknowledges
  | true =>
      have subscribed := (channel.consume_eq_some.mp accepts).1
      have sent : channel.basicAck rid push.messageId =
          some (channel.ask rid (.basicAck consumer.qname push.messageId)) := by
        rw [Channel.basicAck, subscribed]
        rfl
      simp only [if_true, sent]
      by_cases old : rid ∈ machine.issued
      · rw [if_pos old]
        exact .still
      · rw [if_neg old]
        exact .acked there found accepts acknowledges old sent

theorem execute_turn (machine : Machine) (index : Nat) (rid : Bytes) :
    Turn machine (.execute index rid) (machine.execute index rid) := by
  unfold execute
  cases there : machine.workers[index]? with
  | none => exact .still
  | some worker =>
      rcases worker with ⟨batch, acking⟩
      cases acking with
      | some calling =>
          cases batch with
          | nil => exact .still
          | cons task rest => cases task <;> exact .still
      | none =>
          cases batch with
          | nil => exact .still
          | cons task rest =>
              cases task with
              | putBasicResponse resp =>
                  simp only
                  cases found : machine.channels.lookup resp.cid with
                  | none => exact .misput there found
                  | some channel => exact .put there found
              | consume push =>
                  simp only
                  cases found : machine.channels.lookup push.cid with
                  | none => exact .ignored there fun channel other => (nomatch found.symm.trans other)
                  | some channel =>
                      simp only
                      cases accepts : channel.consume push with
                      | none =>
                          refine .ignored there fun other otherFound => ?_
                          cases found.symm.trans otherFound
                          exact accepts
                      | some consumer => exact callback_turn there found accepts

theorem call_turn {cid rid : Bytes} {call : Call} (called : machine.call cid rid call = .ok next) :
    Turn machine (.call cid rid call) next := by
  unfold Machine.call at called
  cases found : machine.channels.lookup cid with
  | none =>
      rw [found] at called
      cases called
      exact .still
  | some channel =>
      rw [found] at called
      simp only at called
      by_cases old : rid ∈ machine.issued
      · rw [if_pos old] at called
        cases called
        exact .still
      · rw [if_neg old] at called
        rcases except_map_eq_ok called with ⟨sent, done, same⟩
        cases sent with
        | none =>
            cases same
            exact .still
        | some packet =>
            cases same
            exact .called found old done

theorem finish_turn (machine : Machine) (index : Nat) :
    Turn machine (.finish index) (machine.finish index) := by
  unfold finish
  cases there : machine.woken[index]? with
  | none => exact .still
  | some pair =>
      rcases pair with ⟨calling, resp⟩
      simp only
      cases found : machine.channels.lookup calling.cid with
      | none => exact .finished there (Or.inl ⟨found, rfl⟩)
      | some channel => exact .finished there (Or.inr ⟨channel, found, rfl⟩)

/-- Every step is one of them. -/
theorem perform_turn {event : Event} (stepped : perform machine event = .ok next) :
    Turn machine event next := by
  cases event with
  | createChannel cid =>
      cases stepped
      by_cases present : cid ∈ machine.channels
      · rw [Dictionary.insertNew_of_mem _ present]
        exact .still
      · rw [Dictionary.insertNew_of_notMem _ present]
        exact .created present
  | call cid rid call => exact call_turn stepped
  | register index =>
      cases stepped
      unfold register
      split
      · exact .registered ‹_›
      · exact .still
  | deregister index =>
      cases stepped
      unfold deregister
      split
      · exact .deregistered (List.filter_subset_self _)
      · exact .deregistered (List.filter_subset_self _)
      · exact .still
  | reply index ok =>
      cases stepped
      unfold reply
      cases there : machine.requests[index]? with
      | none => exact .still
      | some packet => exact .replied there
  | push push =>
      cases stepped
      unfold Machine.push
      by_cases known : (push.cid, push.consumerTag) ∈ machine.registered
      · rw [if_pos known]
        exact .pushed known
      · rw [if_neg known]
        exact .still
  | arrive index =>
      change machine.arrive index = _ at stepped
      unfold arrive at stepped
      cases there : machine.transit[index]? with
      | none =>
          rw [there] at stepped
          cases stepped
          exact .still
      | some arrival =>
          rw [there] at stepped
          simp only at stepped
          cases found : machine.channels.lookup arrival.cid with
          | none =>
              rw [found] at stepped
              cases stepped
          | some channel =>
              rw [found] at stepped
              cases stepped
              exact .arrived there
  | fetch index =>
      cases stepped
      unfold fetch
      split
      · exact .fetched ‹_›
      · exact .still
  | execute index rid =>
      cases stepped
      exact machine.execute_turn index rid
  | resume index =>
      cases stepped
      unfold resume
      split
      · rename_i rest calling there
        cases answered : machine.answer calling with
        | none => exact .still
        | some pair => exact .resumed there answered
      · exact .still
  | wake index =>
      cases stepped
      unfold wake
      cases there : machine.callers[index]? with
      | none => exact .still
      | some calling =>
          simp only
          cases answered : machine.answer calling with
          | none => exact .still
          | some pair => exact .woke there answered
  | finish index =>
      cases stepped
      exact machine.finish_turn index

end Turns

end Machine

end Client
end ProtobufMq
