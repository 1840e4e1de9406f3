import LinuxZero.Vpn.ChannelAccept
import LinuxZero.Vpn.ChannelRegistry

/-! # The console thread and the accept thread

`business_server::create_channel_server` runs on the console thread while `run_accept` accepts
connections and the business server serves its clients. Both are cut where another thread can see a
difference: after the calls that make a listener live, before and after each of the two insertions,
and between `accept` and the message. Without interleaving the pieces are the functions as they were.
-/

namespace LinuxZero.Vpn

namespace DataChannelServer

variable (s : DataChannelServer)

/-- `create_channel_server` up to the first `server_add_eool`. -/
def bindChannel (channelInfo : VpnChannelInfo) (calls : ChannelCalls) : Option ℕ × DataChannelServer :=
  match s.initServerSocket calls with
  | (none, s) => (none, s)
  | (some serverInfo, s) => (some serverInfo, s.setChannel serverInfo channelInfo)

/-- `server_add_eool` for the listener `v` of the channel `w`, with the clean-up when it is refused. -/
def listenChannel (w v : ℕ) (granted : Bool) : Bool × DataChannelServer :=
  match s.serverAddEool v granted with
  | (false, s) => (false, s.deleteServerInfos w)
  | (true, s) => (true, s)

theorem createChannelServer_stages (channelInfo : VpnChannelInfo) (calls : ChannelCalls) :
    s.createChannelServer channelInfo calls =
      match s.bindChannel channelInfo calls with
      | (none, s) => (false, s)
      | (some w, s) =>
        match s.listenChannel w (s.server w).removte calls.outCalls.listen with
        | (false, s) => (false, s)
        | (true, s) =>
          match s.listenChannel w w calls.inCalls.listen with
          | (false, s) => (false, s)
          | (true, s) => (true,
              s.insertChannel (channelKey channelInfo.clientId channelInfo.channelId) w) := by
  rw [createChannelServer, bindChannel]
  rcases s.initServerSocket calls with ⟨_ | w, bound⟩
  · rfl
  · simp only [listenChannel]
    rcases (bound.setChannel w channelInfo).serverAddEool _ calls.outCalls.listen with ⟨_ | _, out⟩
    · rfl
    · dsimp only
      rcases out.serverAddEool w calls.inCalls.listen with ⟨_ | _, both⟩ <;> rfl

/-- One round of `run_accept` up to the call of `date_socket_accept`. -/
def acceptConnection (w : ℕ) (fd : ℤ) : Option ℕ × DataChannelServer :=
  let s := s.useServer w
  let (newSocket, kernel) := s.kernel.accept (s.server w).fd fd
  let s := { s with kernel := kernel }
  if newSocket < 0 then (none, s)
  else
    let (info, s) := s.getClinetInfo newSocket
    (some info, { s with trace := { s.trace with
      accepted := Function.update s.trace.accepted w (s.trace.accepted w ++ [info]) } })

/-- `date_socket_accept` behind the message. -/
def meet (w : ℕ) (info : ℕ) : DataChannelServer :=
  match (s.server (s.server w).removte).freeSocket with
  | [] => s.pushFree w info
  | reInfo :: _ => s.pairSockets w info reInfo

theorem runAccept_stages (w : ℕ) (fd : ℤ) :
    s.runAccept w fd =
      match s.acceptConnection w fd with
      | (none, s) => s
      | (some info, s) => (s.announce w).meet w info := by
  rw [runAccept, acceptConnection]
  dsimp only
  split_ifs <;> rfl

end DataChannelServer

/-- A creation that has bound its sockets: the client record, the channel and its in side. -/
structure Creation where
  client : ℕ
  channelInfo : VpnChannelInfo
  calls : ChannelCalls
  w : ℕ

/-- What the console thread has done of `business_server::create_channel_server`. -/
inductive Console where
  | idle
  | chosen (client : ℕ) (channelInfo : VpnChannelInfo) (calls : ChannelCalls)
  | bound (creation : Creation)
  | outListens (creation : Creation)
  | bothListen (creation : Creation)
  | inDataMap (creation : Creation)

/-- The accept thread has accepted the connection `p` on the listener `w`, and then sent its message. -/
inductive Acceptor where
  | idle
  | accepted (w p : ℕ)
  | announced (w p : ℕ)
deriving DecidableEq, Repr

def Console.creation : Console → Option Creation
  | .idle => none
  | .chosen .. => none
  | .bound creation => some creation
  | .outListens creation => some creation
  | .bothListen creation => some creation
  | .inDataMap creation => some creation

/-- The program with its threads. The last two fields are history: the client record that a listener
was made for, and which connection caused which message. -/
structure Threads where
  server : BusinessServer
  console : Console
  acceptor : Acceptor
  madeFor : ℕ → ℕ
  informed : List (ℕ × SentMsg)

inductive ThreadEvent where
  /-- Another socket manager of the program takes a number from the shared counter. -/
  | takeIdx
  | connect (fd : ℤ)
  | disconnect (p : ℕ)
  /-- A command for the console thread, which finds the client and chooses the channel number. -/
  | command (clientId : ℤ) (addresses : ChannelAddresses) (calls : ChannelCalls)
  /-- The console thread goes on. -/
  | console
  | accept (w : ℕ) (fd : ℤ)
  /-- The accept thread goes on. -/
  | acceptor
deriving DecidableEq, Repr

namespace Threads

variable (t : Threads)

def initial (server : BusinessServer) : Threads where
  server := server
  console := .idle
  acceptor := .idle
  madeFor _ := 0
  informed := []

def withData (data : DataChannelServer) : Threads := { t with server := { t.server with data := data } }

/-- The start of `business_server::create_channel_server`. -/
def choose (clientId : ℤ) (addresses : ChannelAddresses) (calls : ChannelCalls) : Threads :=
  match t.console, t.server.clinetMap clientId with
  | .idle, some c => { t with console := .chosen c (t.server.newChannelInfo c clientId addresses) calls }
  | _, _ => t

/-- The next piece of `business_server::create_channel_server`. -/
def advanceConsole : Threads :=
  match t.console with
  | .idle => t
  | .chosen client channelInfo calls =>
    match t.server.data.bindChannel channelInfo calls with
    | (none, data) => { t.withData data with console := .idle }
    | (some w, data) =>
      { t.withData data with
        console := .bound ⟨client, channelInfo, calls, w⟩
        madeFor := Function.update (Function.update t.madeFor w client) (data.server w).removte client }
  | .bound creation =>
    match t.server.data.listenChannel creation.w (t.server.data.server creation.w).removte
      creation.calls.outCalls.listen with
    | (false, data) => { t.withData data with console := .idle }
    | (true, data) => { t.withData data with console := .outListens creation }
  | .outListens creation =>
    match t.server.data.listenChannel creation.w creation.w creation.calls.inCalls.listen with
    | (false, data) => { t.withData data with console := .idle }
    | (true, data) => { t.withData data with console := .bothListen creation }
  | .bothListen creation =>
    let key := channelKey creation.channelInfo.clientId creation.channelInfo.channelId
    { t.withData (t.server.data.insertChannel key creation.w) with console := .inDataMap creation }
  | .inDataMap creation =>
    { t with server := t.server.enterChannel creation.client creation.channelInfo, console := .idle }

/-- The accept thread, woken for the listener `w`. -/
def accept (w : ℕ) (fd : ℤ) : Threads :=
  match t.acceptor with
  | .idle =>
    match t.server.data.acceptConnection w fd with
    | (none, data) => t.withData data
    | (some p, data) => { t.withData data with acceptor := .accepted w p }
  | _ => t

/-- The message of `date_socket_accept`, on the out side. -/
def announce (w : ℕ) : BusinessServer :=
  let server := { t.server with data := t.server.data.announce w }
  if (t.server.data.server w).type = 1 then
    (server.sendCreateChannelMsg (t.server.data.server w).clientId (t.server.data.server w).channelId).2
  else server

/-- The next piece of `date_socket_accept`. -/
def advanceAcceptor : Threads :=
  match t.acceptor with
  | .idle => t
  | .accepted w p =>
    { t with
      server := t.announce w
      acceptor := .announced w p
      informed := t.informed ++
        ((t.announce w).messages.drop t.server.messages.length).map fun sent => (p, sent) }
  | .announced w p => { t.withData (t.server.data.meet w p) with acceptor := .idle }

/-- A creation that nobody interrupts is `business_server::create_channel_server`. -/
theorem uninterrupted (idle : t.console = .idle) (clientId : ℤ) (addresses : ChannelAddresses)
    (calls : ChannelCalls) : (advanceConsole^[5] (t.choose clientId addresses calls)).server =
      (t.server.createChannelServer clientId addresses calls).2 := by
  have rest : ∀ (n : ℕ) (u : Threads), u.console = .idle → advanceConsole^[n] u = u := by
    intro n u stops
    apply Function.iterate_fixed
    rw [advanceConsole, stops]
  cases present : t.server.clinetMap clientId with
  | none =>
    have chosen : t.choose clientId addresses calls = t := by simp only [choose, idle, present]
    rw [chosen, rest 5 t idle]
    simp only [BusinessServer.createChannelServer, present]
  | some c =>
    simp only [BusinessServer.createChannelServer, present, DataChannelServer.createChannelServer_stages,
      choose, idle]
    rw [Function.iterate_succ_apply, advanceConsole]
    dsimp only
    rcases t.server.data.bindChannel (t.server.newChannelInfo c clientId addresses) calls with
        ⟨_ | w, bound⟩
    · rw [rest 4 _ rfl]
      rfl
    · dsimp only
      rw [Function.iterate_succ_apply, advanceConsole]
      dsimp only [withData]
      rcases bound.listenChannel w (bound.server w).removte calls.outCalls.listen with ⟨_ | _, out⟩
      · rw [rest 3 _ rfl]
      · dsimp only
        rw [Function.iterate_succ_apply, advanceConsole]
        dsimp only [withData]
        rcases out.listenChannel w w calls.inCalls.listen with ⟨_ | _, both⟩
        · rw [rest 2 _ rfl]
        · rfl

def Enabled : ThreadEvent → Prop
  | .disconnect p => t.server.Enabled (.disconnect p)
  | .accept w _ => ∃ fd interest, t.server.data.kernel.epoll t.server.data.acceptEpfd fd =
      some ⟨interest, .server w⟩
  | _ => True

def apply : ThreadEvent → Threads
  | .takeIdx => { t with server := t.server.apply .takeIdx }
  | .connect fd => { t with server := t.server.connect fd }
  | .disconnect p => { t with server := t.server.disconnect p }
  | .command clientId addresses calls => t.choose clientId addresses calls
  | .console => t.advanceConsole
  | .accept w fd => t.accept w fd
  | .acceptor => t.advanceAcceptor

end Threads

def ThreadStep (t : Threads) (event : ThreadEvent) (u : Threads) : Prop :=
  t.Enabled event ∧ u = t.apply event

end LinuxZero.Vpn
