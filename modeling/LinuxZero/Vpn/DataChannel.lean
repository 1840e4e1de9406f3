import LinuxZero.Lib.Heap
import LinuxZero.Net.Kernel
import LinuxZero.Net.SocketDefine

/-! # The data channel server

`data_channel_server` with the `socket_client` that owns its connections: creation and deletion of a
channel, the accept loop, and the handlers of `socket_client::run_epoll`. A channel is a pair of
listeners that point at each other; each keeps the connections accepted on it in a queue of waiting
and a queue of paired ones. Pointers are natural numbers, `w` for listeners and `p`, `q` for
connections. Log output is left out, and with it the address strings and ports that
are only printed. `trace` records what the functions did and is never read by them.
-/

namespace LinuxZero.Vpn

/-- `server_socket_info`. -/
structure ServerSocketInfo where
  fd : ℤ := 0
  epfd : ℤ := 0
  type : ℤ := 0
  clientId : ℤ := 0
  channelId : ℤ := 0
  freeSocket : List ℕ := []
  busySocket : List ℕ := []
  removte : ℕ := 0
deriving DecidableEq, Repr

/-- What an epoll event's `data.ptr` points at. -/
inductive EventPtr where
  | server (p : ℕ)
  | socket (p : ℕ)
  /-- A connection of the business server. -/
  | client (p : ℕ)
deriving DecidableEq, Repr

/-- One call of `add_eool`, with the peer of the socket and the peer's peer at that moment. -/
structure EoolCall where
  info : ℕ
  peer : Option ℕ
  peersPeer : Option ℕ
deriving DecidableEq, Repr

/-- One call of `close_socket`: whether its argument was allocated, and registered in the epoll set
that its `m_epfd` names. -/
structure CloseCall where
  info : ℕ
  live : Bool
  registered : Bool
deriving DecidableEq, Repr

structure Trace where
  accepted : ℕ → List ℕ := fun _ => []
  eool : List EoolCall := []
  createMsgs : List (ℤ × ℤ) := []
  closed : List CloseCall := []

/-- `data_channel_server`, the `socket_client` and `socket_manager` inside it, and the system. The
counter `idx` is shared by all socket managers of the program. -/
structure DataChannelServer where
  kernel : Kernel EventPtr
  acceptEpfd : ℤ
  epfd : ℤ
  channelMap : ℤ → Option ℕ
  servers : Heap ServerSocketInfo
  sockets : Heap (SocketInfo ℕ)
  idx : UInt32
  shFd2SocketInfo : UInt32 → Option ℕ
  sh2Fd : UInt32 → Option ℤ
  trace : Trace

/-- `((long long)client_id << 32) + channel_id`. -/
def channelKey (clientId channelId : ℤ) : ℤ := clientId * 2 ^ 32 + channelId

/-- The addresses in a `vpn_channel_info`. -/
structure ChannelAddresses where
  outIp : String := ""
  outIp1 : String := ""
  outPort : ℤ := 0
  inIp : String := ""
  inIp1 : String := ""
  inPort : ℤ := 0
  localIp : String := ""
  localPort : ℤ := 0
deriving DecidableEq, Repr

/-- `vpn_channel_info`. -/
structure VpnChannelInfo where
  clientId : ℤ := 0
  channelId : ℤ := 0
  addresses : ChannelAddresses := {}
deriving DecidableEq, Repr

/-- What the system answers while one listener is made: the descriptor that `socket` may return, and
whether `setsockopt`, `bind` and `listen` succeed. -/
structure ListenerCalls where
  socket : ℤ
  setsockopt : Bool
  bind : Bool
  listen : Bool
deriving DecidableEq, Repr

structure ChannelCalls where
  outCalls : ListenerCalls
  inCalls : ListenerCalls
deriving DecidableEq, Repr

/-- What `recv` or the interest told `run_epoll`. -/
inductive EpollEvent where
  /-- `EPOLLOUT`. -/
  | out
  /-- `recv` returned -1 with `EAGAIN`. -/
  | again
  /-- `recv` returned -1 with another error. -/
  | error
  /-- `recv` returned 0. -/
  | eof
  /-- `recv` returned these bytes; `send` may then return this. -/
  | data (bytes : List UInt8) (result : ℤ)
deriving DecidableEq, Repr

namespace DataChannelServer

variable (s : DataChannelServer)

abbrev server (p : ℕ) : ServerSocketInfo := s.servers.content p
abbrev socket (p : ℕ) : SocketInfo ℕ := s.sockets.content p

/-- A fresh server: nothing allocated, no channel, no connection. -/
def initial (kernel : Kernel EventPtr) (acceptEpfd epfd : ℤ) (idx : UInt32) : DataChannelServer where
  kernel := kernel
  acceptEpfd := acceptEpfd
  epfd := epfd
  channelMap _ := none
  servers := .empty {}
  sockets := .empty {}
  idx := idx
  shFd2SocketInfo _ := none
  sh2Fd _ := none
  trace := {}

/-- The connection `p` is accessed. -/
def useSocket (p : ℕ) : DataChannelServer := { s with sockets := s.sockets.use p }

@[simp] theorem socket_useSocket (p q : ℕ) : (s.useSocket p).socket q = s.socket q := rfl
@[simp] theorem kernel_useSocket (p : ℕ) : (s.useSocket p).kernel = s.kernel := rfl

/-- `socket_manager::get_clinet_info`, called by `socket_client::get_clinet_info`, which makes the new
socket its own peer. -/
def getClinetInfo (fd : ℤ) : ℕ × DataChannelServer :=
  (s.sockets.next, { s with
    sockets := s.sockets.new { fd := fd, shFd := s.idx, data := { ptr := some s.sockets.next } }
    shFd2SocketInfo := Function.update s.shFd2SocketInfo s.idx (some s.sockets.next)
    sh2Fd := Function.update s.sh2Fd s.idx (some fd)
    idx := s.idx + 1 })

/-- `socket_manager::del_clinet_info`. -/
def delClinetInfo (p : ℕ) : DataChannelServer :=
  match s.shFd2SocketInfo (s.socket p).shFd with
  | none => s.useSocket p
  | some _ =>
    { s with
      shFd2SocketInfo := Function.update s.shFd2SocketInfo (s.socket p).shFd none
      sh2Fd := Function.update s.sh2Fd (s.socket p).shFd none
      sockets := s.sockets.delete p }

/-- `close_socket`. -/
def closeSocket (p : ℕ) : DataChannelServer :=
  { s with
    kernel := s.kernel.epollMod (s.socket p).epfd (s.socket p).fd ⟨.epollOut, .socket p⟩
    sockets := s.sockets.use p
    trace := { s.trace with
      closed := s.trace.closed ++
        [⟨p, s.sockets.live p, (s.kernel.epoll (s.socket p).epfd (s.socket p).fd).isSome⟩] } }

/-- `socket_client::add_eool`; `on_connected` of the data channel server does nothing. -/
def addEool (p : ℕ) : DataChannelServer :=
  { s with
    kernel := s.kernel.epollAdd s.epfd (s.socket p).fd ⟨.epollIn, .socket p⟩
    sockets := s.sockets.modify p fun info => { info with epfd := s.epfd }
    trace := { s.trace with
      eool := s.trace.eool ++
        [⟨p, (s.socket p).data.ptr, (s.socket p).data.ptr.bind fun q => (s.socket q).data.ptr⟩] } }

/-- `m_data.m_ptr = ptr`. -/
def setPtr (p : ℕ) (ptr : Option ℕ) : DataChannelServer :=
  { s with sockets := s.sockets.modify p fun info => { info with data := { info.data with ptr := ptr } } }

/-- The same server with another state of the system and of the listeners. -/
def withSystem (kernel : Kernel EventPtr) (servers : Heap ServerSocketInfo) : DataChannelServer :=
  { s with kernel := kernel, servers := servers }

@[simp] theorem kernel_withSystem (kernel : Kernel EventPtr) (servers : Heap ServerSocketInfo) :
    (s.withSystem kernel servers).kernel = kernel := rfl

@[simp] theorem servers_withSystem (kernel : Kernel EventPtr) (servers : Heap ServerSocketInfo) :
    (s.withSystem kernel servers).servers = servers := rfl

/-- The listener `p` is accessed. -/
def useServer (p : ℕ) : DataChannelServer := { s with servers := s.servers.use p }

def modifyServer (p : ℕ) (f : ServerSocketInfo → ServerSocketInfo) : DataChannelServer :=
  { s with servers := s.servers.modify p f }

/-- `m_free_socket.push` of the listener `w`. -/
def pushFree (w : ℕ) (p : ℕ) : DataChannelServer :=
  s.modifyServer w fun info => { info with freeSocket := info.freeSocket ++ [p] }

/-- `m_busy_socket.push` of the listener `w`. -/
def pushBusy (w : ℕ) (p : ℕ) : DataChannelServer :=
  s.modifyServer w fun info => { info with busySocket := info.busySocket ++ [p] }

/-- `m_free_socket.pop` of the listener `w`. -/
def popFree (w : ℕ) : DataChannelServer :=
  s.modifyServer w fun info => { info with freeSocket := info.freeSocket.tail }

/-- The call of `send_create_channel_msg`, whose result is ignored. -/
def sendCreateChannelMsg (clientId channelId : ℤ) : DataChannelServer :=
  { s with trace := { s.trace with createMsgs := s.trace.createMsgs ++ [(clientId, channelId)] } }

/-- `date_socket_accept` up to its test of the other queue: the message on the out side, and the
accesses to both listeners. -/
def announce (w : ℕ) : DataChannelServer :=
  let s := s.useServer w
  let s := if (s.server w).type = 1 then
      s.sendCreateChannelMsg (s.server w).clientId (s.server w).channelId
    else s
  s.useServer (s.server w).removte

/-- The pairing branch of `date_socket_accept`: `reInfo` is the front of the other queue. -/
def pairSockets (w : ℕ) (info reInfo : ℕ) : DataChannelServer :=
  let removte := (s.server w).removte
  let paired := ((((s.popFree removte).setPtr info (some reInfo)).setPtr reInfo (some info)).pushBusy w
    info).pushBusy removte reInfo
  if (s.server w).type = 1 then (paired.addEool reInfo).addEool info
  else (paired.addEool info).addEool reInfo

/-- `date_socket_accept`. -/
def dateSocketAccept (w : ℕ) (info : ℕ) : DataChannelServer :=
  let s := s.announce w
  match (s.server (s.server w).removte).freeSocket with
  | [] => s.pushFree w info
  | reInfo :: _ => s.pairSockets w info reInfo

/-- One round of `run_accept` for the listener `w`; `fd` is the descriptor `accept` may return. -/
def runAccept (w : ℕ) (fd : ℤ) : DataChannelServer :=
  let s := s.useServer w
  let (newSocket, kernel) := s.kernel.accept (s.server w).fd fd
  let s := { s with kernel := kernel }
  if newSocket < 0 then s
  else
    let (info, s) := s.getClinetInfo newSocket
    { s with trace := { s.trace with
        accepted := Function.update s.trace.accepted w (s.trace.accepted w ++ [info]) } }.dateSocketAccept
      w info

/-- `on_disconnected`. -/
def onDisconnected (p : ℕ) : DataChannelServer :=
  let s := s.useSocket p
  match (s.socket p).data.ptr with
  | none => s
  | some remoteInfo => (s.setPtr remoteInfo none).closeSocket remoteInfo

/-- `on_a_disconnected`. -/
def onADisconnected (_ : ℕ) : DataChannelServer := s

/-- `on_recv_data`; `result` is what `send` may return. -/
def onRecvData (p : ℕ) (result : ℤ) : ℤ × DataChannelServer :=
  let s := s.useSocket p
  match (s.socket p).data.ptr with
  | none => ((s.socket p).data.buffLen, s.closeSocket p)
  | some remoteInfo =>
    let s := s.useSocket remoteInfo
    let (len, kernel) := s.kernel.send (s.socket remoteInfo).fd (s.socket p).data.content result
    if 0 < len then (len, { s with kernel := kernel })
    else ((s.socket p).data.buffLen, { s with kernel := kernel })

/-- `::close(sock)`, `epoll_ctl(.., EPOLL_CTL_DEL, ..)` and `del_clinet_info`, as at the end of every
branch of `run_epoll` that ends a connection. -/
def endConnection (p : ℕ) (sock : ℤ) : DataChannelServer :=
  { s with kernel := (s.kernel.close sock).epollDel s.epfd sock }.delClinetInfo p

/-- Replace the receive buffer of a socket. -/
def setData (p : ℕ) (f : SocketData ℕ → SocketData ℕ) : DataChannelServer :=
  { s with sockets := s.sockets.modify p fun info => { info with data := f info.data } }

/-- `recv` has stored these bytes in the receive buffer. -/
def recvInto (p : ℕ) (bytes : List UInt8) : DataChannelServer :=
  { s with kernel := s.kernel.recv (s.socket p).fd bytes }.setData p fun d => d.received bytes

/-- One event of `socket_client::run_epoll`. -/
def runEpoll (p : ℕ) (event : EpollEvent) : DataChannelServer :=
  let s := s.useSocket p
  let sock := (s.socket p).fd
  match event with
  | .out => (s.onADisconnected p).endConnection p sock
  | .again => s
  | .error => (s.onADisconnected p).endConnection p sock
  | .eof => (s.onDisconnected p).endConnection p sock
  | .data bytes result =>
    let (useLen, s) := (s.recvInto p bytes).onRecvData p result
    s.setData p fun d => d.consume useLen

/-- `server_sock_init`. -/
def serverSockInit (calls : ListenerCalls) : ℤ × DataChannelServer :=
  let (serverFd, kernel) := s.kernel.socket calls.socket
  if serverFd = 0 then (-1, { s with kernel := kernel })
  else if ¬ (kernel.files serverFd ≠ none ∧ calls.setsockopt = true) then
    (-1, { s with kernel := kernel.close serverFd })
  else if calls.bind = false then (-1, { s with kernel := kernel.close serverFd })
  else (serverFd, { s with kernel := kernel })

/-- The two objects that `init_server_socket` allocates; the in side is the second. -/
def newServerInfos (outSocket inSocket : ℤ) : DataChannelServer :=
  let outServerInfo := s.servers.next
  let inServerInfo := s.servers.next + 1
  { s with servers := ((s.servers.new {}).new {}) }.modifyServer outServerInfo
    (fun info => { info with removte := inServerInfo, fd := outSocket, type := 1 }) |>.modifyServer
    inServerInfo fun info => { info with removte := outServerInfo, fd := inSocket }

/-- `init_server_socket`. -/
def initServerSocket (calls : ChannelCalls) : Option ℕ × DataChannelServer :=
  let (outSocket, s) := s.serverSockInit calls.outCalls
  if outSocket = -1 then (none, s)
  else
    let (inSocket, s) := s.serverSockInit calls.inCalls
    if inSocket = -1 then (none, { s with kernel := s.kernel.close outSocket })
    else (some (s.servers.next + 1), s.newServerInfos outSocket inSocket)

/-- `server_add_eool`. -/
def serverAddEool (w : ℕ) (granted : Bool) : Bool × DataChannelServer :=
  let s := s.useServer w
  let (listening, kernel) := s.kernel.listen (s.server w).fd granted
  if listening then
    (true, { s with
      kernel := kernel.epollAdd s.acceptEpfd (s.server w).fd ⟨.epollIn, .server w⟩ }.modifyServer w
      fun info => { info with epfd := s.acceptEpfd })
  else (false, { s with kernel := kernel.close (s.server w).fd })

/-- The client and channel numbers that `create_channel_server` enters on both sides. -/
def setChannel (w : ℕ) (channelInfo : VpnChannelInfo) : DataChannelServer :=
  let enter := fun info : ServerSocketInfo =>
    { info with clientId := channelInfo.clientId, channelId := channelInfo.channelId }
  (s.modifyServer w enter).modifyServer (s.server w).removte enter

/-- `delete server_info; delete server_info->m_p_removte;` -/
def deleteServerInfos (w : ℕ) : DataChannelServer :=
  { s with servers := ((s.servers.delete w).use w).delete (s.server w).removte }

/-- `m_channel_map.insert`, which keeps an entry that is there. -/
def insertChannel (key : ℤ) (w : ℕ) : DataChannelServer :=
  match s.channelMap key with
  | none => { s with channelMap := Function.update s.channelMap key (some w) }
  | some _ => s

/-- `create_channel_server`. -/
def createChannelServer (channelInfo : VpnChannelInfo) (calls : ChannelCalls) :
    Bool × DataChannelServer :=
  match s.initServerSocket calls with
  | (none, s) => (false, s)
  | (some serverInfo, s) =>
    let s := s.setChannel serverInfo channelInfo
    let key := channelKey channelInfo.clientId channelInfo.channelId
    match s.serverAddEool (s.server serverInfo).removte calls.outCalls.listen with
    | (false, s) => (false, s.deleteServerInfos serverInfo)
    | (true, s) =>
      match s.serverAddEool serverInfo calls.inCalls.listen with
      | (false, s) => (false, s.deleteServerInfos serverInfo)
      | (true, s) => (true, s.insertChannel key serverInfo)

/-- `server_delete_eool`. -/
def serverDeleteEool (w : ℕ) : DataChannelServer :=
  { s with
    kernel := (s.kernel.epollDel s.acceptEpfd (s.server w).fd).close (s.server w).fd
    servers := s.servers.use w }

/-- `close_queue`. -/
def closeQueue : List ℕ → DataChannelServer → DataChannelServer
  | [], s => s
  | p :: rest, s => closeQueue rest (s.closeSocket p)

/-- The two queues of a listener, emptied into `close_socket`. -/
def closeQueues (w : ℕ) : DataChannelServer :=
  let closed := closeQueue (s.server w).busySocket (closeQueue (s.server w).freeSocket (s.useServer w))
  closed.modifyServer w fun info => { info with freeSocket := [], busySocket := [] }

/-- `delete_channel_server`. -/
def deleteChannelServer (clientId channelId : ℤ) : Bool × DataChannelServer :=
  match s.channelMap (channelKey clientId channelId) with
  | none => (false, s)
  | some serverInfo =>
    let s := (s.serverDeleteEool serverInfo).serverDeleteEool (s.server serverInfo).removte
    (true, (s.closeQueues serverInfo).closeQueues (s.server serverInfo).removte)

end DataChannelServer

end LinuxZero.Vpn
