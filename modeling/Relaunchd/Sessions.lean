/-
  Relaunchd.Sessions — the manager and its clients on the two sides of the RPC socket
  (`src/rpc_server.cc`, `src/rpc_client.cc`, `src/channel.cc`), in any interleaving.

  The manager serves one connection at a time, within one callback of the event loop: it
  accepts the connection that has waited longest, reads once, runs the handler, writes the
  reply and hangs up. All of these calls block: `write(2)` until the kernel has taken the whole
  reply, of which it keeps `room` bytes for a client that does not read. A client connects,
  writes its message, reads once and exits; it may be killed at any time. What the manager does
  between two connections is not told here: an event changes its state in any way.

  `serve` is what the manager does with a message; `Rpc.answer` is the one of this program. A
  handler that crashes ends launchd.
-/

import Relaunchd.Channel
import Relaunchd.RpcServer

namespace Relaunchd

open Prog

/-! ## What the manager does with a message -/

/-- The part of `rpc_dispatch` between the reading and the writing; none when there is no
    handler for the message. -/
def Rpc.answer (message : Json) : M (Option Json) :=
  Prog.tryCatch (do
    let handler ← ofDecode (handlerFor message)
    let response ← Prog.tryCatch (handler message) fun _ => return errorReply true
    return some response)
    fun _ => return none

/-- A message is answered, and the reply is written. -/
theorem Rpc.rpcDispatch_eq (message : Json) : rpcDispatch (some message) = do
    match ← answer message with
    | some response => Prog.tryCatch (writeMessage response) fun _ => return ()
    | none => return () := by
  funext s
  simp only [rpcDispatch, answer, Prog.tryCatch, bind, andThen]
  cases ofDecode (handlerFor message) s with
  | throw what s' => rfl
  | crash why => rfl
  | ok handler s' =>
    dsimp only
    cases handler message s' with
    | crash why => rfl
    | ok response s'' => rfl
    | throw what s'' => rfl

namespace Sessions

/-! ## The two sides -/

inductive Progress (V : Type) where
  | connected
  | sent
  | answered (reply : V)
  /-- It was killed, or an exception ended it. -/
  | gone

def Progress.isOpen {V : Type} : Progress V → Bool
  | .connected | .sent => true
  | .answered _ | .gone => false

structure Client (V : Type) where
  request : V
  chan : Channel
  progress : Progress V := .connected
  /-- What has been written and not been read yet, either way. -/
  toServer : Bytes := []
  toClient : Bytes := []
  /-- The manager has closed its end. -/
  hungUp : Bool := false

inductive Stage (V : Type) where
  /-- In the event loop. -/
  | waiting
  | reading
  /-- In `write(2)`; the kernel has taken the first bytes. -/
  | replying (response : V) (taken : Nat)
  | hangingUp
  /-- A handler has crashed. -/
  | dead

def Stage.isDead {V : Type} : Stage V → Bool
  | .dead => true
  | .waiting | .reading | .replying _ _ | .hangingUp => false

/-- Ghost: one run of the handler, which has returned. -/
structure Served (σ V : Type) where
  client : Nat
  message : V
  before : σ
  response : Option V
  after : σ

structure Net (σ V : Type) where
  mgr : σ
  /-- The manager's `Channel`. -/
  chan : Channel
  stage : Stage V := .waiting
  /-- In the order of their `connect(2)`. -/
  clients : List (Client V) := []
  /-- The last one accepted is the peer. -/
  accepted : Nat := 0
  log : List (Served σ V) := []

inductive Move (σ V : Type) where
  | connect (fd : Nat) (request : V)
  | send (i : Nat) (accepts : Option Nat)
  | receive (i : Nat) (stale : MessageBuffer) (bytes : Nat)
  | leave (i : Nat)
  /-- The moves of the manager; `none` stands for a call that fails. -/
  | accept (fd : Option Nat)
  | read (stale : MessageBuffer) (bytes : Option Nat)
  /-- The kernel takes some more of the reply. -/
  | take (bytes : Nat)
  /-- `write(2)` returns; it may fail, or come back early, at any time. -/
  | reply (fails : Bool)
  | hangUp
  | event (mgr : σ)

/-- `read(2)` returns some of the bytes that are there; none only at the end of the stream. -/
def readable (stream : Bytes) (closed : Bool) (bytes : Nat) : Bool :=
  if stream = [] then closed && bytes == 0 else 0 < bytes && bytes ≤ stream.length && bytes ≤ ipcMaxMsglen

variable {σ V : Type}

namespace Net

variable (codec : Codec V) (backlog room : Nat) (serve : V → Prog σ (Option V)) (net : Net σ V)

def peer : Nat := net.accepted - 1

def modifyClient (i : Nat) (f : Client V → Client V) : Net σ V := { net with clients := net.clients.modify i f }

def sends (i : Nat) (c : Client V) (accepts : Option Nat) : Option (Net σ V) :=
  match c.chan.writeMessage codec c.request accepts c.toServer with
  | .ok () toServer => some (net.modifyClient i fun c => { c with toServer, progress := .sent })
  | .throw _ toServer => some (net.modifyClient i fun c => { c with toServer, progress := .gone })
  | .crash _ => none

def receives (i : Nat) (c : Client V) (stale : MessageBuffer) (bytes : Nat) : Net σ V :=
  net.modifyClient i fun c' => { c' with
    toClient := c'.toClient.drop bytes
    progress := match c.chan.readMessage codec stale (some (c.toClient.take bytes)) with
      | .ok reply => .answered reply
      | .error _ => .gone }

/-- The rest of a message stays in the socket. -/
def reads (c : Client V) (stale : MessageBuffer) (bytes : Nat) : Option (Net σ V) :=
  let read := net.modifyClient net.peer fun c => { c with toServer := c.toServer.drop bytes }
  match net.chan.readMessage codec stale (some (c.toServer.take bytes)) with
  | .error _ => some { read with stage := .hangingUp }
  | .ok message => match serve message net.mgr with
    | .ok response after => some { read with
        mgr := after
        log := net.log ++ [⟨net.peer, message, net.mgr, response, after⟩]
        stage := match response with
          | some response => .replying response 0
          | none => .hangingUp }
    | .throw .. | .crash _ => some { read with stage := .dead }

def untaken (response : V) (taken : Nat) : Bytes := (codec.dump response ++ [0]).drop taken

def takes (c : Client V) (response : V) (taken bytes : Nat) : Option (Net σ V) :=
  if c.progress.isOpen ∧ 0 < bytes ∧ bytes ≤ (untaken codec response taken).length ∧ c.toClient.length + bytes ≤ room then
    some { net.modifyClient net.peer fun c => { c with toClient := c.toClient ++ (untaken codec response taken).take bytes } with
      stage := .replying response (taken + bytes) }
  else none

/-- `write(2)` returns when all is taken, and when the client is gone. -/
def replies (c : Client V) (response : V) (taken : Nat) (fails : Bool) : Option (Net σ V) :=
  if untaken codec response taken = [] ∨ c.progress.isOpen = false ∨ fails then
    match net.chan.respond codec response (if taken = 0 then none else some taken) [] with
    | .ok _ _ => some { net with stage := .hangingUp }
    | .throw .. | .crash _ => none
  else none

/-- One move, if it is possible. The manager's are those of `rpc_dispatch`. -/
def step : Move σ V → Option (Net σ V)
  | .connect fd request =>
    if net.clients.length - net.accepted ≤ backlog ∧ net.stage.isDead = false then
      some { net with clients := net.clients ++ [{ request, chan := { sockfd := fd } }] }
    else none
  | .send i accepts => match net.clients[i]? with
    | some c => match c.progress, c.hungUp with
      | .connected, false => net.sends codec i c accepts
      | _, _ => none
    | none => none
  | .receive i stale bytes => match net.clients[i]? with
    | some c => match c.progress with
      | .sent => if readable c.toClient (c.hungUp || net.stage.isDead) bytes then some (net.receives codec i c stale bytes) else none
      | _ => none
    | none => none
  | .leave i => some (net.modifyClient i fun c => { c with progress := .gone })
  | .accept fd => match net.stage with
    | .waiting =>
      if net.accepted < net.clients.length then match fd with
        | some fd => some { net with chan := { net.chan with peerfd := fd }, accepted := net.accepted + 1, stage := .reading }
        -- the listening socket cannot be read either
        | none => some net
      else none
    | _ => none
  | .read stale bytes => match net.stage, net.clients[net.peer]? with
    | .reading, some c => match bytes with
      | some bytes => if readable c.toServer (!c.progress.isOpen) bytes then net.reads codec serve c stale bytes else none
      | none => some { net with stage := .hangingUp }
    | _, _ => none
  | .take bytes => match net.stage, net.clients[net.peer]? with
    | .replying response taken, some c => net.takes codec room c response taken bytes
    | _, _ => none
  | .reply fails => match net.stage, net.clients[net.peer]? with
    | .replying response taken, some c => net.replies codec c response taken fails
    | _, _ => none
  | .hangUp => match net.stage with
    | .hangingUp => some { net.modifyClient net.peer fun c => { c with hungUp := true } with
        chan := { net.chan with peerfd := -1 }, stage := .waiting }
    | _ => none
  | .event mgr => match net.stage with
    | .waiting => some { net with mgr }
    | _ => none

def Init (net : Net σ V) : Prop := ∃ mgr sockfd, 0 ≤ sockfd ∧ net = { mgr, chan := { sockfd } }

def Next (net : Net σ V) (move : Move σ V) (net' : Net σ V) : Prop := net.step codec backlog room serve move = some net'

end Net

end Sessions

end Relaunchd
