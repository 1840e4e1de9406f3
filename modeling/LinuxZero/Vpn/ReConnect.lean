import LinuxZero.Lib.Run
import LinuxZero.Net.Kernel
import LinuxZero.Vpn.DataChannel
import Mathlib.Logic.Function.Basic

/-! # The control connection of the client

`vnp_client` connects to the server in `start` and then creates the thread `re_connect`, which waits
on a condition variable and connects again whenever it wakes up; `stop` clears `m_re_connect`,
notifies the thread and joins it. One epoll thread serves the control connections. The threads are
cut before every access to something that another one uses. Only `re_connect` ever locks its mutex.
What `stop` does after the join, and the data that comes in on a connection, play no part.
-/

namespace LinuxZero.Vpn

/-- Where a call of `connect_server` is. -/
inductive ConnectServer where
  /-- About to call `m_main_client.connect`. -/
  | connect
  /-- Connected; `add_eool` has yet to register the connection. -/
  | addEool (c : ℕ)
deriving DecidableEq, Repr

inductive MainThread where
  /-- In `start`, in its `connect_server`. -/
  | connectServer (call : ConnectServer)
  /-- In `start`, about to create `m_re_connect_thread`. -/
  | create
  | started
  /-- In `stop`, with `m_re_connect` cleared. -/
  | notifyAll
  /-- In `m_re_connect_thread.join`. -/
  | join
  | joined
deriving DecidableEq, Repr

inductive ReConnectThread where
  | notCreated
  /-- About to read `m_re_connect`. -/
  | test
  /-- It was true, and `wait` has not been entered. -/
  | lock
  /-- Blocked in `wait`, with no notification pending. -/
  | wait
  /-- Notified, or woken up for no reason. -/
  | woken
  | connectServer (call : ConnectServer)
  | exited
deriving DecidableEq, Repr

inductive ControlEpoll where
  | idle
  /-- The handler has been called; `::close(sock)` is next. -/
  | ending (c : ℕ)
deriving DecidableEq, Repr

/-- A control connection. Once it is registered, its `m_ptr` is the condition variable. -/
inductive ControlConnection where
  | closed
  | connected
  | registered (interest : Interest)
deriving DecidableEq, Repr

structure VnpClient where
  reConnect : Bool
  main : MainThread
  thread : ReConnectThread
  epoll : ControlEpoll
  connections : ℕ → ControlConnection
  next : ℕ

inductive ClientEvent where
  /-- The main thread goes on; `::connect` may succeed or fail. -/
  | main (accepted : Bool)
  /-- `stop` is called. -/
  | stop
  /-- The thread `re_connect` goes on. -/
  | reConnect (accepted : Bool)
  /-- `wait` returns without a notification. -/
  | wake
  /-- `socket_client::close(info)`. -/
  | schedule (c : ℕ)
  /-- A ready event of a control connection. -/
  | ready (c : ℕ) (event : EpollEvent)
  /-- The epoll thread goes on. -/
  | epoll
deriving DecidableEq, Repr

/-- The `connect_server` that the main thread executes. -/
def MainThread.call : MainThread → Option ConnectServer
  | .connectServer call => some call
  | _ => none

/-- The `connect_server` that the thread `re_connect` executes. -/
def ReConnectThread.call : ReConnectThread → Option ConnectServer
  | .connectServer call => some call
  | _ => none

namespace VnpClient

/-- `start` has started the epoll threads. -/
def initial : VnpClient where
  reConnect := true
  main := .connectServer .connect
  thread := .notCreated
  epoll := .idle
  connections _ := .closed
  next := 0

section Functions

variable (s : VnpClient)

def setConnection (c : ℕ) (connection : ControlConnection) : VnpClient :=
  { s with connections := Function.update s.connections c connection }

/-- `connect_server` up to its next cut, which is `none` when it returns. A failed `connect` is tried
again. -/
def advanceCall (accepted : Bool) : ConnectServer → Option ConnectServer × VnpClient
  | .connect =>
    if accepted then (some (.addEool s.next),
      { s.setConnection s.next .connected with next := s.next + 1 })
    else (some .connect, s)
  | .addEool c => (none, s.setConnection c (.registered .epollIn))

/-- `notify_one` and `notify_all`: only one thread ever waits. -/
def notify : VnpClient := { s with thread := if s.thread = .wait then .woken else s.thread }

/-- The main thread up to its next cut. -/
def advanceMain (accepted : Bool) : VnpClient :=
  match s.main with
  | .connectServer call =>
    match s.advanceCall accepted call with
    | (some call, s) => { s with main := .connectServer call }
    | (none, s) => { s with main := .create }
  | .create => { s with thread := .test, main := .started }
  | .started => s
  | .notifyAll => { s.notify with main := .join }
  | .join => if s.thread = .exited then { s with main := .joined } else s
  | .joined => s

/-- The thread `re_connect` up to its next cut. -/
def advanceReConnect (accepted : Bool) : VnpClient :=
  match s.thread with
  | .notCreated => s
  | .test => { s with thread := if s.reConnect then .lock else .exited }
  | .lock => { s with thread := .wait }
  | .wait => s
  | .woken => { s with thread := .connectServer .connect }
  | .connectServer call =>
    match s.advanceCall accepted call with
    | (some call, s) => { s with thread := .connectServer call }
    | (none, s) => { s with thread := .test }
  | .exited => s

/-- `socket_client::close(info)`. -/
def schedule (c : ℕ) : VnpClient :=
  match s.connections c with
  | .registered _ => s.setConnection c (.registered .epollOut)
  | _ => s

/-- A ready event of `socket_client::run_epoll`, up to `::close(sock)`: `on_disconnected` notifies, and
`on_a_disconnected` does nothing. -/
def handle (c : ℕ) (event : EpollEvent) : VnpClient :=
  match event with
  | .out => { s with epoll := .ending c }
  | .again => s
  | .error => { s with epoll := .ending c }
  | .eof => { s.notify with epoll := .ending c }
  | .data _ _ => s

/-- `::close(sock)`, which also takes the connection out of the epoll set, and `del_clinet_info`. -/
def advanceEpoll : VnpClient :=
  match s.epoll with
  | .idle => s
  | .ending c => { s.setConnection c .closed with epoll := .idle }

/-- `EPOLLOUT` is reported for a connection that is scheduled to close; `recv` may already have been
due before. -/
def Ready (c : ℕ) (event : EpollEvent) : Prop :=
  ∃ interest, s.connections c = .registered interest ∧ (event = .out → interest = .epollOut)

def Enabled : ClientEvent → Prop
  | .stop => s.main = .started
  | .wake => s.thread = .wait
  | .ready c event => s.epoll = .idle ∧ s.Ready c event
  | _ => True

def apply : ClientEvent → VnpClient
  | .main accepted => s.advanceMain accepted
  | .stop => { s with reConnect := false, main := .notifyAll }
  | .reConnect accepted => s.advanceReConnect accepted
  | .wake => { s with thread := .woken }
  | .schedule c => s.schedule c
  | .ready c event => s.handle c event
  | .epoll => s.advanceEpoll

/-- The connection is open: `connect` has succeeded and `::close(sock)` has not been called. -/
def Open (c : ℕ) : Prop := s.connections c ≠ .closed

/-- A call of `connect_server` is in progress. -/
def Connecting : Prop := s.main.call ≠ none ∨ s.thread.call ≠ none

end Functions

def Step (s : VnpClient) (event : ClientEvent) (t : VnpClient) : Prop :=
  s.Enabled event ∧ t = s.apply event

/-- A notification does not reach a thread in `connect_server`. -/
theorem call_notify (s : VnpClient) : s.notify.thread.call = s.thread.call := by
  rw [notify]
  dsimp only
  split_ifs with waits
  · rw [waits]
    rfl
  · rfl

end VnpClient

end LinuxZero.Vpn
