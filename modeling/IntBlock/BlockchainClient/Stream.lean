import IntBlock.Lib.Schedule

/-!
# The transaction stream

The last query of `main` starts a thread that runs `streamTransactionWorker`,
sleeps for ten seconds and joins it; `~BlockchainClient` joins it again if that
has not been done.  The main thread, the worker and the server of the WebSocket
connection take their steps in any order.

A step of a thread is one statement of the source that reads or writes what the
threads share, or that may fail or block.  The event loop `ws_client->run()` is
not in the repository's own code: it returns only after `stop()` was called on its
client or once its connection has ended.

## Main definitions

* `MainPC`, `WorkerPC` — where the two threads stand.
* `State`, `State.init` — what they share.
* `mainStep`, `workerStep`, `serverStep`, `step` — the steps.
-/

namespace IntBlock
namespace BlockchainClient

/-- Where the main thread stands, in `main` and in `~BlockchainClient`. -/
inductive MainPC
  /-- Queries 1 to 5. -/
  | queries
  /-- `client.pending_transaction_count = 0` -/
  | resetCount
  /-- `if (client.streaming)` -/
  | testStreaming
  /-- `client.streaming = true` -/
  | setStreaming
  /-- `client.stream_thread = std::thread(…)` -/
  | makeThread
  /-- `std::this_thread::sleep_for(std::chrono::seconds(10))` -/
  | sleeping
  /-- `client.streaming = false` -/
  | clearStreaming
  /-- `if (client.stream_thread.joinable())` -/
  | testJoinable
  /-- Blocked in `client.stream_thread.join()`. -/
  | joining
  /-- The line with the number of transactions seen. -/
  | report
  /-- The handler of the streaming block. -/
  | catching
  /-- `streaming = false`, the first line of the destructor. -/
  | dtorClearStreaming
  /-- `if (ws_client) ws_client->stop()` -/
  | dtorTestClient
  /-- `if (stream_thread.joinable())` -/
  | dtorTestJoinable
  /-- Blocked in `stream_thread.join()`. -/
  | dtorJoining
  /-- The destructor has returned. -/
  | exited
  /-- The process has been terminated. -/
  | aborted
  deriving DecidableEq, Repr

/-- The connection the event loop serves. -/
inductive Connection
  | connecting
  | opened
  | ended
  deriving DecidableEq, Repr

/-- Where the thread of `streamTransactionWorker` stands. -/
inductive WorkerPC
  /-- There is no such thread yet. -/
  | absent
  /-- `ws_client = std::make_shared<WSClient>()` -/
  | makeClient
  /-- The handlers, and `ws_client->init_asio()`. -/
  | initAsio
  /-- `ws_client->get_connection(ws_endpoint, ec)` -/
  | getConnection
  /-- `ws_client->connect(con)` -/
  | connect
  /-- In `ws_client->run()`. -/
  | running (con : Connection)
  /-- The worker has returned. -/
  | returned
  deriving DecidableEq, Repr

/-- A WebSocket client, as far as `stop()` can tell. -/
structure WSClient where
  /-- `init_asio()` has set `m_io_service`. -/
  asio : Bool
  /-- `stop()` has been called. -/
  stopped : Bool
  deriving DecidableEq, Repr

/-- The two threads and the members of the client they share. -/
structure State where
  main : MainPC
  worker : WorkerPC
  streaming : Bool
  /-- `stream_thread.joinable()` -/
  joinable : Bool
  wsClient : Option WSClient
  pendingTransactionCount : Int
  deriving DecidableEq, Repr

/-- A client just constructed. -/
def State.init : State where
  main := .queries
  worker := .absent
  streaming := false
  joinable := false
  wsClient := none
  pendingTransactionCount := 0

/-- How the call a step makes ends.  It fails if it throws an exception derived
from `std::exception`, and `get_connection` also if it sets its error code. -/
inductive Outcome
  | ok
  | fails
  deriving DecidableEq, Repr

/-- What the event loop learns from the server, by the handler it calls. -/
inductive ServerEvent
  | onOpen
  /-- A message; `counted` if `onPendingTransaction` gets to count it. -/
  | onMessage (counted : Bool)
  | onClose
  | onFail
  deriving DecidableEq, Repr

/-- An action of one of the three parties. -/
inductive Action
  | main (o : Outcome)
  | worker (o : Outcome)
  | server (e : ServerEvent)
  deriving DecidableEq, Repr

/-- A step of the main thread; none while it is blocked in a `join()`. -/
def mainStep (s : State) (o : Outcome) : Option State :=
  match s.main, o with
  | .queries, .ok => some { s with main := .resetCount }
  -- the exception leaves the block of `client`
  | .queries, .fails => some { s with main := .dtorClearStreaming }
  | .resetCount, .ok => some { s with pendingTransactionCount := 0, main := .testStreaming }
  | .testStreaming, .ok =>
      some { s with main := if s.streaming then .dtorClearStreaming else .setStreaming }
  | .setStreaming, .ok => some { s with streaming := true, main := .makeThread }
  | .makeThread, .ok =>
      some { s with joinable := true, worker := .makeClient, main := .sleeping }
  | .makeThread, .fails => some { s with main := .catching }
  | .sleeping, .ok => some { s with main := .clearStreaming }
  | .clearStreaming, .ok => some { s with streaming := false, main := .testJoinable }
  | .testJoinable, .ok => some { s with main := if s.joinable then .joining else .report }
  | .joining, .ok =>
      if s.worker = .returned then some { s with joinable := false, main := .report } else none
  | .joining, .fails => some { s with main := .catching }
  | .report, .ok => some { s with main := .dtorClearStreaming }
  | .catching, .ok => some { s with streaming := false, main := .dtorClearStreaming }
  | .dtorClearStreaming, .ok => some { s with streaming := false, main := .dtorTestClient }
  | .dtorTestClient, .ok =>
      match s.wsClient with
      | none => some { s with main := .dtorTestJoinable }
      | some c =>
          -- without `init_asio()` there is no `m_io_service` to stop, and the call faults
          if c.asio then
            some { s with wsClient := some { c with stopped := true }, main := .dtorTestJoinable }
          else some { s with main := .aborted }
  | .dtorTestJoinable, .ok => some { s with main := if s.joinable then .dtorJoining else .exited }
  | .dtorJoining, .ok =>
      if s.worker = .returned then some { s with joinable := false, main := .exited } else none
  -- an exception that leaves a destructor terminates the process
  | .dtorJoining, .fails => some { s with main := .aborted }
  | _, _ => none

/-- A step of the worker; none while it is in the event loop with nothing to end it. -/
def workerStep (s : State) (o : Outcome) : Option State :=
  match s.worker, o with
  | .absent, _ => none
  | .returned, _ => none
  | .makeClient, .ok => some { s with wsClient := some ⟨false, false⟩, worker := .initAsio }
  | .initAsio, .ok =>
      some { s with
        wsClient := s.wsClient.map fun c => { c with asio := true }
        worker := .getConnection }
  | .getConnection, .ok => some { s with worker := .connect }
  | .connect, .ok => some { s with worker := .running .connecting }
  | .running con, .ok =>
      if con = .ended ∨ s.wsClient.any WSClient.stopped then some { s with worker := .returned }
      else none
  -- the handler of the worker, or its early return
  | _, .fails => some { s with worker := .returned }

/-- An event of the server, handled in the event loop of the worker. -/
def serverStep (s : State) (e : ServerEvent) : Option State :=
  match s.worker, e with
  | .running .connecting, .onOpen => some { s with worker := .running .opened }
  | .running .connecting, .onFail => some { s with worker := .running .ended }
  | .running .opened, .onMessage counted =>
      some { s with
        pendingTransactionCount := s.pendingTransactionCount + if counted then 1 else 0 }
  | .running .opened, .onClose => some { s with worker := .running .ended }
  | _, _ => none

def step (s : State) : Action → Option State
  | .main o => mainStep s o
  | .worker o => workerStep s o
  | .server e => serverStep s e

end BlockchainClient
end IntBlock
