import AIService.Basic
import AIService.Data.Json
import AIService.Data.SortedMap
import AIService.Run
import Mathlib.Algebra.Order.Ring.Int

/-!
# `MQManager::Handler`

A `World` is the handler with everything that can still call it: functors in its loop, timers,
the `AckFn` of each delivery, and the threads inside `schedulePublish`.  A `Step` is one
section of the loop thread or one atomic step of a publisher; when the library calls back, how
a publish or a connection attempt ends and when a timer fires is the choice of the step.

The library calls `onConnected` at most once for a connection, calls a channel back only while
the handler holds it, and gives every delivery of a channel a larger tag than the one before.
The functors that only keep retired objects alive are left out.
-/

namespace AIService.MQ

/-- `MaxPending`. -/
def maxPending : Nat := 10000

/-- `MaxInflight`. -/
def maxInflight : Nat := 128

inductive Disposition
  | ack
  | retry
  | reject
deriving DecidableEq, Repr

/-- The delivery that an `AckFn`, a retry timer or a completion stands for. -/
structure Delivery where
  generation : Nat
  tag : Nat
deriving DecidableEq, Repr

/-- `Publication`.  The one completion the sources make settles a delivery; `ticket` numbers
the calls of `schedulePublish`. -/
structure Publication where
  queue : Bytes
  body : Bytes
  completion : Option Delivery
  ticket : Nat
deriving DecidableEq, Repr

/-- A `muduo` channel: the connection that asked for it, and what it watches. -/
structure Watch where
  connection : Nat
  readable : Bool
  writable : Bool
deriving DecidableEq, Repr

/-- Functors in the loop. -/
inductive Functor
  /-- The end of `schedulePublish`. -/
  | admits (item : Publication)
  /-- The end of an `AckFn`. -/
  | completes (d : Delivery) (result : Disposition) (body : Bytes)
  /-- `connectionFailed`: disconnect, and schedule a reconnect. -/
  | recovers
deriving DecidableEq, Repr

/-- Armed timers, with their delays in seconds. -/
inductive Timer
  | reconnects (delay : Nat)
  | retries (d : Delivery) (target body : Bytes) (delay : Nat)
deriving DecidableEq, Repr

/-- AMQP connections and channels are numbered as they are made. -/
structure Handler where
  queueName : Bytes
  alive : Bool := true
  connection : Option Nat := none
  producerChannel : Option Nat := none
  consumerChannel : Option Nat := none
  channels : SortedMap Int Watch := .empty
  pending : List Publication := []
  inflight : SortedMap Nat Publication := .empty
  outstanding : Nat := 0
  generation : Nat := 0
  nextPublishTag : Nat := 1
  producerReady : Bool := false
  shuttingDown : Bool := false
  reconnectScheduled : Bool := false
  recovering : Bool := false
  constructingConnection : Bool := false
  reconnectDelaySec : Nat := 5

/-- The `AckFn` of a delivery; `once` is its flag. -/
structure AckFn where
  delivery : Delivery
  body : Bytes
  once : Bool := false
deriving DecidableEq, Repr

/-- Where a call of `schedulePublish` stands. -/
inductive Phase
  /-- `alive_` was true. -/
  | checked
  /-- `count` was loaded and is below the bound. -/
  | loaded (count : Nat)
  /-- The exchange succeeded; the functor is not queued yet. -/
  | reserved
deriving DecidableEq, Repr

structure PublishCall where
  item : Publication
  phase : Phase
deriving DecidableEq, Repr

structure World where
  handler : Handler
  functors : List Functor := []
  timers : List Timer := []
  ackFns : List AckFn := []
  calls : List PublishCall := []
  nextTicket : Nat := 0
  /-- `MQManager::start` called `connect`. -/
  started : Bool := false
  nextConnection : Nat := 0
  /-- The connection was told to `onConnected`. -/
  connected : Bool := false
  nextChannel : Nat := 0
  /-- The last delivery tag on the consumer channel. -/
  lastTag : Nat := 0

/-- What is seen of a run. -/
inductive Obs
  /-- A call of `schedulePublish` returned. -/
  | accepted (item : Publication)
  | refused (item : Publication)
  | admitted (item : Publication)
  | published (channel tag : Nat) (item : Publication)
  /-- The broker answers publications. -/
  | confirmed (tag : Nat) (multiple accepted : Bool)
  | retired (tag : Nat) (item : Publication)
  /-- A generation begins. -/
  | began (generation : Nat)
  | opened (generation producer consumer : Nat)
  | delivered (channel : Nat) (d : Delivery) (body : Bytes)
  /-- An `AckFn` was called for the first time. -/
  | reported (d : Delivery) (result : Disposition)
  | acked (channel tag : Nat)
  | rejected (channel tag : Nat)
deriving DecidableEq, Repr

/-! ## The connection -/

namespace Handler

variable (h : Handler)

/-- `retireFd`. -/
def retireFd (fd : Int) : Handler := { h with channels := h.channels.erase fd }

/-- `monitor`. -/
def monitor (connection : Nat) (fd : Int) (readable writable : Bool) : Handler :=
  if fd < 0 ∨ h.shuttingDown then h
  else if ¬ h.constructingConnection ∧ h.connection ≠ some connection then h
  else if ¬ readable ∧ ¬ writable then h.retireFd fd
  else
    let owner := match h.channels.find? fd with
      | some watch => watch.connection
      | none => connection
    { h with channels := h.channels.insert fd ⟨owner, readable, writable⟩ }

/-- `disconnect`; every descriptor is retired. -/
def disconnect : Handler :=
  { h with
    generation := h.generation + 1
    producerReady := false
    channels := .empty
    pending := h.inflight.entries.map Prod.snd ++ h.pending
    inflight := .empty
    nextPublishTag := 1
    consumerChannel := none
    producerChannel := none
    connection := none }

/-- What a completion, or a refused admission, does with its delivery. -/
def settle (d : Delivery) (ok : Bool) : List Obs :=
  if h.alive ∧ d.generation = h.generation then
    match h.consumerChannel with
    | some channel => if ok then [.acked channel d.tag] else [.rejected channel d.tag]
    | none => []
  else []

end Handler

/-- A descriptor the library wants watched during the construction of a connection. -/
structure Monitored where
  fd : Int
  readable : Bool
  writable : Bool

namespace World

variable (w : World)

/-- `connectionFailed`. -/
def connectionFailed : World :=
  if w.handler.shuttingDown ∨ w.handler.recovering then w
  else { w with
    handler := { w.handler with recovering := true, producerReady := false }
    functors := w.functors ++ [.recovers] }

/-- `connect`: the constructor of the connection asks for descriptors, and may throw. -/
def connect (watched : List Monitored) (built : Bool) : World :=
  let fresh := w.nextConnection
  let constructing := { w.handler with recovering := false, constructingConnection := true }
  let monitored := watched.foldl
    (fun h m => h.monitor fresh m.fd m.readable m.writable) constructing
  let w := { w with
    handler := { monitored with constructingConnection := false }
    nextConnection := fresh + 1
    connected := false }
  if built then { w with handler := { w.handler with connection := some fresh } }
  else w.connectionFailed

/-- `scheduleReconnect`. -/
def scheduleReconnect : World :=
  if w.handler.shuttingDown ∨ w.handler.reconnectScheduled then w
  else { w with
    handler := { w.handler with reconnectScheduled := true }
    timers := w.timers ++ [.reconnects w.handler.reconnectDelaySec] }

/-- `stop`. -/
def stop : World :=
  let handler := { w.handler with shuttingDown := true, alive := false }
  { w with
    handler := handler.disconnect
    timers := w.timers.filter fun
      | .reconnects _ => false
      | .retries .. => true }

/-- `onConnected`: the producer channel, then the consumer channel. -/
def onConnected : List Obs × World :=
  ([.opened w.handler.generation w.nextChannel (w.nextChannel + 1)], { w with
    handler := { w.handler with
      reconnectDelaySec := 5
      producerChannel := some w.nextChannel
      consumerChannel := some (w.nextChannel + 1) }
    nextChannel := w.nextChannel + 2
    connected := true
    lastTag := 0 })

/-! ## Publishing -/

/-- The loop of `drainPending`; `sent i` is what the `i`-th call of `publish` returns. -/
def drainLoop (channel : Nat) (sent : Nat → Bool) : Nat → List Publication → World → List Obs × World
  | _, [], w => ([], { w with handler := { w.handler with pending := [] } })
  | i, item :: rest, w =>
      let stopped := { w with handler := { w.handler with pending := item :: rest } }
      if w.handler.inflight.size < maxInflight then
        if sent i then
          let tag := w.handler.nextPublishTag
          let (out, w') := drainLoop channel sent (i + 1) rest { w with
            handler := { w.handler with
              inflight := w.handler.inflight.insert tag item
              nextPublishTag := tag + 1 } }
          (.published channel tag item :: out, w')
        else ([], stopped.connectionFailed)
      else ([], stopped)

/-- `drainPending`. -/
def drainPending (sent : Nat → Bool) : List Obs × World :=
  if ¬ w.handler.producerReady ∨ w.handler.recovering then ([], w)
  else match w.handler.producerChannel with
    | none => ([], w)
    | some channel => drainLoop channel sent 0 w.handler.pending w

/-- The loop of `confirm` over `inflight_`: whether an entry is retired. -/
def covers (tag : Nat) (multiple : Bool) (tag' : Nat) : Bool :=
  if multiple then tag' ≤ tag else tag' = tag

/-- An entry is erased, the admission given back, and its completion called. -/
def retire (entry : Nat × Publication) : List Obs × World :=
  let h := { w.handler with
    inflight := w.handler.inflight.erase entry.1
    outstanding := sizeSub w.handler.outstanding 1 }
  let settled := match entry.2.completion with
    | some d => h.settle d true
    | none => []
  (.retired entry.1 entry.2 :: settled, { w with handler := h })

def retireAll (w : World) : List (Nat × Publication) → List Obs × World
  | [] => ([], w)
  | entry :: rest =>
      let (out, w) := w.retire entry
      let (later, w) := retireAll w rest
      (out ++ later, w)

/-- `confirm`. -/
def confirm (tag : Nat) (multiple accepted : Bool) (sent : Nat → Bool) : List Obs × World :=
  if w.handler.recovering ∨ w.handler.shuttingDown then ([], w)
  else if ¬ accepted then ([], w.connectionFailed)
  else
    let (out, w) := w.retireAll
      (w.handler.inflight.entries.filter fun entry => covers tag multiple entry.1)
    let (later, w) := w.drainPending sent
    (out ++ later, w)

/-! ## Consuming -/

/-- `onConsumerMessage`, up to the call of the message handler. -/
def onConsumerMessage (channel tag : Nat) (body : Bytes) : List Obs × World :=
  let d : Delivery := ⟨w.handler.generation, tag⟩
  ([.delivered channel d body], { w with
    ackFns := w.ackFns ++ [⟨d, body, false⟩]
    lastTag := tag })

end World

/-- `get<int>()`, which converts numbers and truth values and keeps 32 bits. -/
def int? : Json → Option Int32
  | .int n => some (Int32.ofInt n)
  | .float q => some (Int32.ofInt (Int.tdiv q.num q.den))
  | .bool b => some (if b then 1 else 0)
  | _ => none

/-- `job.value("_attempt", 0)`. -/
def attemptOf : Json → Option Int32
  | .obj fields =>
      match SortedMap.lookup (bytes "_attempt") fields with
      | none => some 0
      | some j => int? j
  | _ => none

/-- The queue, body and delay of the copy that takes a delivery's place. -/
def replacement (codec : JsonCodec) (queueName : Bytes) (result : Disposition) (body : Bytes) :
    Bytes × Bytes × Nat :=
  let quarantine := (queueName ++ bytes ".dead", body, 0)
  if result ≠ .retry then quarantine
  else match codec.parse body with
    | none => quarantine
    | some job =>
        match attemptOf job with
        | none => quarantine
        | some attempt =>
            if 0 ≤ attempt ∧ attempt < 5 then
              match (job.setField? (bytes "_attempt") (.int (attempt.toInt + 1))).bind codec.dump with
              | none => quarantine
              | some body => (queueName, body, min 30 (2 ^ attempt.toInt.toNat))
            else quarantine

namespace World

variable (codec : JsonCodec) (w : World)

/-- `completeDelivery`. -/
def completeDelivery (d : Delivery) (result : Disposition) (body : Bytes) : List Obs × World :=
  if d.generation ≠ w.handler.generation ∨ w.handler.recovering then ([], w)
  else match w.handler.consumerChannel with
    | none => ([], w)
    | some channel =>
        if result = .ack then ([.acked channel d.tag], w)
        else
          let (target, body, delay) := replacement codec w.handler.queueName result body
          ([], { w with timers := w.timers ++ [.retries d target body delay] })

/-! ## `schedulePublish` -/

/-- A call of `schedulePublish` returns false; a retry timer then rejects its delivery. -/
def refuse (item : Publication) : List Obs :=
  .refused item :: match item.completion with
    | some d => w.handler.settle d false
    | none => []

/-- The check of `alive_`. -/
def schedulePublish (queue body : Bytes) (completion : Option Delivery) : List Obs × World :=
  let item : Publication := ⟨queue, body, completion, w.nextTicket⟩
  let w := { w with nextTicket := w.nextTicket + 1 }
  if w.handler.alive then ([], { w with calls := w.calls ++ [⟨item, .checked⟩] })
  else (w.refuse item, w)

/-- `outstanding_` was loaded: the call is over, or tries to exchange it. -/
def loadOutstanding (before after : List PublishCall) (item : Publication) : List Obs × World :=
  let count := w.handler.outstanding
  if maxPending ≤ count then (w.refuse item, { w with calls := before ++ after })
  else ([], { w with calls := before ++ ⟨item, .loaded count⟩ :: after })

/-- What a functor does in the loop. -/
def runFunctor (sent : Nat → Bool) : Functor → List Obs × World
  | .admits item =>
      if w.handler.alive then
        let w := { w with handler := { w.handler with pending := w.handler.pending ++ [item] } }
        let (out, w) := w.drainPending sent
        (.admitted item :: out, w)
      else ([], w)
  | .completes d result body =>
      if w.handler.alive then w.completeDelivery codec d result body else ([], w)
  | .recovers =>
      if w.handler.alive then
        let w := { w with handler := w.handler.disconnect }
        ([.began w.handler.generation], w.scheduleReconnect)
      else ([], w)

/-- What a timer does in the loop. -/
def fireTimer (watched : List Monitored) (built : Bool) : Timer → List Obs × World
  | .reconnects _ =>
      if w.handler.alive then
        let w := { w with handler := { w.handler with
          reconnectScheduled := false
          reconnectDelaySec := min 60 (w.handler.reconnectDelaySec * 2) } }
        ([], w.connect watched built)
      else ([], w)
  | .retries d target body _ =>
      if w.handler.alive ∧ d.generation = w.handler.generation then
        w.schedulePublish target body (some d)
      else ([], w)

/-- An `AckFn` is called. -/
def callAckFn (before after : List AckFn) (fn : AckFn) (result : Disposition) : List Obs × World :=
  if fn.once then ([], w)
  else ([.reported fn.delivery result], { w with
    ackFns := before ++ { fn with once := true } :: after
    functors := w.functors ++ [.completes fn.delivery result fn.body] })

end World

/-- One section of the loop thread, or one atomic step of another thread. -/
inductive Step (codec : JsonCodec) : World → List Obs → World → Prop
  /-- `MQManager::start`. -/
  | start {w : World} (watched : List Monitored) (built : Bool) : w.started = false →
    Step codec w [] ({ w with started := true }.connect watched built)
  /-- `MQManager::publish`, by any thread. -/
  | publish {w : World} (queue body : Bytes) :
    Step codec w (w.schedulePublish queue body none).1 (w.schedulePublish queue body none).2
  | load {w : World} {before after : List PublishCall} {item : Publication} :
    w.calls = before ++ ⟨item, .checked⟩ :: after →
    Step codec w (w.loadOutstanding before after item).1 (w.loadOutstanding before after item).2
  | exchange {w : World} {before after : List PublishCall} {item : Publication} {count : Nat} :
    w.calls = before ++ ⟨item, .loaded count⟩ :: after → w.handler.outstanding = count →
    Step codec w [] { w with
      handler := { w.handler with outstanding := count + 1 }
      calls := before ++ ⟨item, .reserved⟩ :: after }
  /-- The exchange fails, spuriously or because another thread was first. -/
  | exchangeFails {w : World} {before after : List PublishCall} {item : Publication} {count : Nat} :
    w.calls = before ++ ⟨item, .loaded count⟩ :: after →
    Step codec w (w.loadOutstanding before after item).1 (w.loadOutstanding before after item).2
  | queueInLoop {w : World} {before after : List PublishCall} {item : Publication} :
    w.calls = before ++ ⟨item, .reserved⟩ :: after →
    Step codec w [.accepted item] { w with
      functors := w.functors ++ [.admits item]
      calls := before ++ after }
  | functor {w : World} {f : Functor} {rest : List Functor} (sent : Nat → Bool) :
    w.functors = f :: rest →
    Step codec w ({ w with functors := rest }.runFunctor codec sent f).1
      ({ w with functors := rest }.runFunctor codec sent f).2
  | timer {w : World} {before after : List Timer} {t : Timer} (watched : List Monitored)
      (built : Bool) : w.timers = before ++ t :: after →
    Step codec w ({ w with timers := before ++ after }.fireTimer watched built t).1
      ({ w with timers := before ++ after }.fireTimer watched built t).2
  | monitor {w : World} (connection : Nat) (m : Monitored) : connection < w.nextConnection →
    Step codec w [] { w with
      handler := w.handler.monitor connection m.fd m.readable m.writable }
  /-- `onLost`, `onError`, an error of a channel, a closed socket, or a returned message. -/
  | connectionFailed {w : World} : w.started = true → Step codec w [] w.connectionFailed
  | onConnected {w : World} : w.handler.connection.isSome → w.connected = false →
    Step codec w w.onConnected.1 w.onConnected.2
  /-- The producer channel is ready: every queue is declared and confirms are selected. -/
  | confirmSelected {w : World} (sent : Nat → Bool) : w.handler.producerChannel.isSome →
    Step codec w
      ({ w with handler := { w.handler with producerReady := true } }.drainPending sent).1
      ({ w with handler := { w.handler with producerReady := true } }.drainPending sent).2
  /-- The socket is writable. -/
  | writable {w : World} (sent : Nat → Bool) : w.handler.alive = true →
    w.handler.connection.isSome → w.handler.recovering = false →
    Step codec w (w.drainPending sent).1 (w.drainPending sent).2
  | confirm {w : World} (tag : Nat) (multiple accepted : Bool) (sent : Nat → Bool) :
    w.handler.producerChannel.isSome →
    Step codec w (.confirmed tag multiple accepted :: (w.confirm tag multiple accepted sent).1)
      (w.confirm tag multiple accepted sent).2
  | deliver {w : World} {channel : Nat} (tag : Nat) (body : Bytes) :
    w.handler.consumerChannel = some channel → w.lastTag < tag →
    Step codec w (w.onConsumerMessage channel tag body).1 (w.onConsumerMessage channel tag body).2
  /-- The message handler, in any thread, or the handler of its exceptions. -/
  | ackFn {w : World} {before after : List AckFn} {fn : AckFn} (result : Disposition) :
    w.ackFns = before ++ fn :: after →
    Step codec w (w.callAckFn before after fn result).1 (w.callAckFn before after fn result).2
  /-- `MQManager::shutdown`, which lets the handler go. -/
  | stop {w : World} : w.started = true → w.handler.alive = true →
    Step codec w [.began (w.handler.generation + 1)] w.stop

/-- A handler that was just made. -/
def World.initial (queueName : Bytes) : World := { handler := { queueName := queueName } }

end AIService.MQ
