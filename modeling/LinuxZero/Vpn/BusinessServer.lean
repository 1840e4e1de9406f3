import LinuxZero.Vpn.DataChannel
import Mathlib.Tactic.Common

/-! # The business server

`business_server` with the `socket_server` that owns the connections of its clients, next to the data
channel server in one program. The kernel and the number counter of the data channel server are those
of the whole program. A client record is named by a natural number `c`, a connection by `p`.
`std::map` is the ordered map of the standard library, whose `insertIfNew` is `std::map::insert`.
`messages` records what was sent and is never read by the code.
-/

namespace LinuxZero.Vpn

/-- `vpn_client_info`. -/
structure VpnClientInfo where
  clinetId : ℤ := 0
  info : ℕ := 0
  channelMap : Std.TreeMap ℤ VpnChannelInfo := ∅

/-- `vpn_creace_tcp_channel`, without its constant head. -/
structure VpnCreaceTcpChannel where
  serverIp : String
  serverPort : ℤ
  clientIp : String
  clientPort : ℤ
  flag : ℤ
deriving DecidableEq, Repr

/-- A message and the descriptor that it was sent to. -/
structure SentMsg where
  fd : ℤ
  msg : VpnCreaceTcpChannel
deriving DecidableEq, Repr

structure BusinessServer where
  data : DataChannelServer
  serverFd : ℤ
  epfd : ℤ
  clinetMap : ℤ → Option ℕ
  clients : Heap VpnClientInfo
  sockets : Heap (SocketInfo ℕ)
  shFd2SocketInfo : UInt32 → Option ℕ
  sh2Fd : UInt32 → Option ℤ
  messages : List SentMsg

/-- The conversion of `sh_fd` to `int`. -/
def clientIdOf (shFd : UInt32) : ℤ := shFd.toInt32.toInt

namespace BusinessServer

variable (b : BusinessServer)

abbrev client (c : ℕ) : VpnClientInfo := b.clients.content c
abbrev socket (p : ℕ) : SocketInfo ℕ := b.sockets.content p

/-- A fresh server, listening on `serverFd`. -/
def initial (data : DataChannelServer) (serverFd epfd : ℤ) : BusinessServer where
  data := data
  serverFd := serverFd
  epfd := epfd
  clinetMap _ := none
  clients := .empty {}
  sockets := .empty {}
  shFd2SocketInfo _ := none
  sh2Fd _ := none
  messages := []

def withKernel (kernel : Kernel EventPtr) : BusinessServer :=
  { b with data := { b.data with kernel := kernel } }

/-- `socket_manager::get_clinet_info`. -/
def getClinetInfo (fd : ℤ) : ℕ × BusinessServer :=
  (b.sockets.next, { b with
    sockets := b.sockets.new { fd := fd, shFd := b.data.idx }
    shFd2SocketInfo := Function.update b.shFd2SocketInfo b.data.idx (some b.sockets.next)
    sh2Fd := Function.update b.sh2Fd b.data.idx (some fd)
    data := { b.data with idx := b.data.idx + 1 } })

/-- `socket_manager::del_clinet_info`. -/
def delClinetInfo (p : ℕ) : BusinessServer :=
  match b.shFd2SocketInfo (b.socket p).shFd with
  | none => { b with sockets := b.sockets.use p }
  | some _ =>
    { b with
      shFd2SocketInfo := Function.update b.shFd2SocketInfo (b.socket p).shFd none
      sh2Fd := Function.update b.sh2Fd (b.socket p).shFd none
      sockets := b.sockets.delete p }

/-- `m_clinet_map.insert`, which keeps an entry that is there. -/
def insertClient (clientId : ℤ) (c : ℕ) : BusinessServer :=
  match b.clinetMap clientId with
  | none => { b with clinetMap := Function.update b.clinetMap clientId (some c) }
  | some _ => b

/-- `on_connected`. -/
def onConnected (p : ℕ) : BusinessServer :=
  let c := b.clients.next
  { b with
    clients := b.clients.new { clinetId := clientIdOf (b.socket p).shFd, info := p }
    sockets := b.sockets.modify p fun info => { info with data := { info.data with ptr := some c } }
  }.insertClient (clientIdOf (b.socket p).shFd) c

/-- The calls of `delete_channel_server` for all channels of a client. -/
def deleteChannels (c : ℕ) : BusinessServer :=
  { b with
    clients := b.clients.use c
    data := (b.client c).channelMap.foldl
      (fun data _ channelInfo =>
      (data.deleteChannelServer (b.client c).clinetId channelInfo.channelId).2) b.data }

/-- `on_disconnected`, and `on_a_disconnected`, which calls it. -/
def onDisconnected (p : ℕ) : BusinessServer :=
  let clientInfo := (b.socket p).data.ptr
  let clientId := clientIdOf (b.socket p).shFd
  let b := match b.clinetMap clientId with
    | none => b
    | some c =>
      let b := b.deleteChannels c
      { b with clinetMap := Function.update b.clinetMap clientId none }
  let b := match clientInfo with
    | none => b
    | some c => { b with clients := b.clients.delete c }
  { b with sockets := b.sockets.modify p fun info => { info with
  data := { info.data with ptr := none } } }

/-- The branch of `socket_server::run_epoll` for its listening socket; `fd` is the descriptor `accept`
may return. -/
def connect (fd : ℤ) : BusinessServer :=
  let (newSocket, kernel) := b.data.kernel.accept b.serverFd fd
  let b := b.withKernel kernel
  if newSocket < 0 then b
  else
    let (p, b) := b.getClinetInfo newSocket
    let b := { b with sockets := b.sockets.modify p fun info => { info with epfd := b.epfd } }
    (b.withKernel (b.data.kernel.epollAdd b.epfd newSocket ⟨.epollIn, .client p⟩)).onConnected p

/-- The branches of `socket_server::run_epoll` that end a connection. -/
def disconnect (p : ℕ) : BusinessServer :=
  let sock := (b.socket p).fd
  let b := b.onDisconnected p
  (b.withKernel ((b.data.kernel.close sock).epollDel b.epfd sock)).delClinetInfo p

/-- The message of `send_msg_tcp_channel`. -/
def msgTcpChannel (channelInfo : VpnChannelInfo) : VpnCreaceTcpChannel where
  serverIp := channelInfo.addresses.inIp1
  serverPort := channelInfo.addresses.inPort
  clientIp := channelInfo.addresses.localIp
  clientPort := channelInfo.addresses.localPort
  flag := 0

/-- `send_create_channel_msg`. -/
def sendCreateChannelMsg (clientId channelId : ℤ) : Bool × BusinessServer :=
  match b.clinetMap clientId with
  | none => (false, b)
  | some c =>
    match (b.client c).channelMap[channelId]? with
    | none => (false, b)
    | some channelInfo =>
      (true, { b with
        messages := b.messages ++ [⟨(b.socket (b.client c).info).fd, msgTcpChannel channelInfo⟩] })

/-- The largest channel number of a client, or zero. -/
def maxChannelId (c : ℕ) : ℤ :=
  (b.client c).channelMap.foldl
    (fun max _ channelInfo => if max < channelInfo.channelId then channelInfo.channelId else max) 0

/-- The `vpn_channel_info` that `create_channel_server` fills. -/
def newChannelInfo (c : ℕ) (clientId : ℤ) (addresses : ChannelAddresses) : VpnChannelInfo where
  clientId := clientId
  channelId := b.maxChannelId c + 1
  addresses := addresses

/-- `m_channel_map.insert` of the client `c`. -/
def enterChannel (c : ℕ) (channelInfo : VpnChannelInfo) : BusinessServer :=
  { b with clients := b.clients.modify c fun client =>
      { client with channelMap := client.channelMap.insertIfNew channelInfo.channelId channelInfo } }

/-- `create_channel_server`. -/
def createChannelServer (clientId : ℤ) (addresses : ChannelAddresses) (calls : ChannelCalls) :
    Option VpnChannelInfo × BusinessServer :=
  match b.clinetMap clientId with
  | none => (none, b)
  | some c =>
    let channelInfo := b.newChannelInfo c clientId addresses
    match b.data.createChannelServer channelInfo calls with
    | (false, data) => (none, { b with data := data })
    | (true, data) => (some channelInfo, { b with data := data }.enterChannel c channelInfo)

/-! What `connect` and `disconnect` change. -/

/-- The connection of a new client, before it is entered in `m_clinet_map`. -/
def joined (fd : ℤ) (available : b.data.kernel.Available fd) : BusinessServer :=
  { b with
    data := { b.data with
      kernel := (b.data.kernel.openAt fd .connection available).epollAdd b.epfd fd
        ⟨.epollIn, .client b.sockets.next⟩
      idx := b.data.idx + 1 }
    clients := b.clients.new { clinetId := clientIdOf b.data.idx, info := b.sockets.next }
    sockets := ((b.sockets.new { fd := fd, shFd := b.data.idx }).modify b.sockets.next
      fun info => { info with epfd := b.epfd }).modify b.sockets.next
        fun info => { info with data := { info.data with ptr := some b.clients.next } }
    shFd2SocketInfo := Function.update b.shFd2SocketInfo b.data.idx (some b.sockets.next)
    sh2Fd := Function.update b.sh2Fd b.data.idx (some fd) }

theorem connect_cases (fd : ℤ) : b.connect fd = b ∨
    ∃ available, b.connect fd =
    (b.joined fd available).insertClient (clientIdOf b.data.idx) b.clients.next := by
  by_cases listening : b.data.kernel.files b.serverFd = some .listening ∧ b.data.kernel.Available fd
  · right
    have accepts : b.data.kernel.accept b.serverFd fd =
        (fd, b.data.kernel.openAt fd .connection listening.2) := dif_pos listening
    refine ⟨listening.2, ?_⟩
    rw [connect, accepts]
    dsimp only
    rw [if_neg (not_lt_of_ge listening.2.1)]
    simp [joined, onConnected, getClinetInfo, withKernel, socket]
  · left
    have refuses : b.data.kernel.accept b.serverFd fd = (-1, b.data.kernel) := dif_neg listening
    rw [connect, refuses]
    exact if_pos (show (-1 : ℤ) < 0 by decide)

theorem socket_joined {fd : ℤ} (available : b.data.kernel.Available fd) :
    (b.joined fd available).socket b.sockets.next =
      { fd := fd, epfd := b.epfd, shFd := b.data.idx, data := { ptr := some b.clients.next } } ∧
    ∀ p, p ≠ b.sockets.next → (b.joined fd available).socket p = b.socket p := by
  constructor
  · simp [joined, socket]
  · intro p apart
    simp [joined, socket, apart]

/-- The data channel server when the client of `p` has left and its channels have been deleted. -/
def departed (p : ℕ) : DataChannelServer :=
  match b.clinetMap (clientIdOf (b.socket p).shFd) with
  | none => b.data
  | some c => (b.deleteChannels c).data

/-- What the end of a connection changes. -/
structure Departs (b : BusinessServer) (p : ℕ) (d : BusinessServer) : Prop where
  kernel : d.data.kernel = ((b.departed p).kernel.close (b.socket p).fd).epollDel b.epfd (b.socket p).fd
  data : d.data = { b.departed p with kernel := d.data.kernel }
  epfd : d.epfd = b.epfd
  serverFd : d.serverFd = b.serverFd
  clinetMap : d.clinetMap = Function.update b.clinetMap (clientIdOf (b.socket p).shFd) none
  content : d.clients.content = b.clients.content
  clientsNext : d.clients.next = b.clients.next
  live : ∀ c, d.clients.live c = true ↔ b.clients.live c = true ∧ (b.socket p).data.ptr ≠ some c
  socketsNext : d.sockets.next = b.sockets.next
  sockets : ∀ q, (d.socket q).fd = (b.socket q).fd ∧ (d.socket q).shFd = (b.socket q).shFd
  ptr : ∀ q, q ≠ p → (d.socket q).data.ptr = (b.socket q).data.ptr
  messages : d.messages = b.messages

variable {b}

private theorem Departs.delClinetInfo {d : BusinessServer} {p : ℕ} (departs : Departs b p d) :
    Departs b p (d.delClinetInfo p) := by
  rw [BusinessServer.delClinetInfo]
  split <;> exact { departs with }

/-- The client records after the deletion of channels, and after `on_disconnected`. -/
private def used (b : BusinessServer) (p : ℕ) : Heap VpnClientInfo :=
  match b.clinetMap (clientIdOf (b.socket p).shFd) with
  | none => b.clients
  | some c => b.clients.use c

private def remaining (b : BusinessServer) (p : ℕ) : Heap VpnClientInfo :=
  match (b.socket p).data.ptr with
  | none => b.used p
  | some c => (b.used p).delete c

private theorem onDisconnected_eq (b : BusinessServer) (p : ℕ) :
    b.onDisconnected p =
      { b with
        data := b.departed p
        clinetMap := Function.update b.clinetMap (clientIdOf (b.socket p).shFd) none
        clients := b.remaining p
        sockets := b.sockets.modify p fun info =>
          { info with data := { info.data with ptr := none } } } := by
  cases entry : b.clinetMap (clientIdOf (b.socket p).shFd) with
  | none =>
    have kept : Function.update b.clinetMap (clientIdOf (b.socket p).shFd) none = b.clinetMap := by
      rw [← entry, Function.update_eq_self]
    cases ptr : (b.socket p).data.ptr <;> simp only [onDisconnected, departed, remaining, used,
      entry, ptr, kept]
  | some c =>
    cases ptr : (b.socket p).data.ptr <;> simp only [onDisconnected, departed, remaining, used,
      entry, ptr] <;> rfl

private theorem used_fields (b : BusinessServer) (p : ℕ) : (b.used p).content = b.clients.content ∧
    (b.used p).next = b.clients.next ∧ (b.used p).live = b.clients.live := by
  rw [used]
  split <;> exact ⟨rfl, rfl, rfl⟩

private theorem remaining_fields (b : BusinessServer) (p : ℕ) :
    (b.remaining p).content = b.clients.content ∧ (b.remaining p).next = b.clients.next ∧
      ∀ c, (b.remaining p).live c = true ↔ b.clients.live c = true ∧ (b.socket p).data.ptr ≠ some c := by
  obtain ⟨content, next, live⟩ := b.used_fields p
  cases ptr : (b.socket p).data.ptr with
  | none =>
    simp only [remaining, ptr]
    exact ⟨content, next, fun c => by simp [live]⟩
  | some own =>
    simp only [remaining, ptr]
    refine ⟨content, next, fun c => ?_⟩
    rw [Heap.live_delete_iff, live, and_comm, ne_comm]
    simp

theorem disconnect_departs (b : BusinessServer) (p : ℕ) : Departs b p (b.disconnect p) := by
  have own : (b.sockets.modify p fun info =>
    { info with data := { info.data with ptr := none } }).content p =
      { b.socket p with data := { (b.socket p).data with ptr := none } } := Function.update_self ..
  have other : ∀ q, q ≠ p → (b.sockets.modify p fun info =>
      { info with data := { info.data with ptr := none } }).content q = b.socket q :=
    fun q apart => Function.update_of_ne apart ..
  obtain ⟨content, next, live⟩ := b.remaining_fields p
  apply Departs.delClinetInfo
  rw [onDisconnected_eq]
  refine ⟨rfl, rfl, rfl, rfl, rfl, content, next, live, rfl, fun q => ?_, fun q apart => ?_, rfl⟩
  · dsimp only [withKernel, socket]
    rcases eq_or_ne q p with rfl | apart
    · rw [own]
      exact ⟨rfl, rfl⟩
    · rw [other q apart]
      exact ⟨rfl, rfl⟩
  · dsimp only [withKernel, socket]
    rw [other q apart]

end BusinessServer

end LinuxZero.Vpn
