import LinuxZero.Lib.CString
import LinuxZero.Vpn.CommandSplit
import Mathlib.Algebra.Group.Int.Defs
import Mathlib.Data.Int.Order.Basic

/-! # The addresses of a channel from the console to its listeners

`vpn_core::exec` takes the fields of a typed line as they are, `business_server::create_channel_server` copies
five of them into a `vpn_channel_info`, and `init_server_socket` copies two of these into the two
`server_socket_info`. Each copy is a `strcpy` into a field of 32 bytes and stores as many bytes as it finds. The
objects are bytes from their own offset zero on, and bytes behind an object exist.
-/

namespace LinuxZero.Vpn

open Memory

section Numbers

def isspace (c : UInt8) : Bool := c = 32 || (9 ≤ c && c ≤ 13)

def isdigit (c : UInt8) : Bool := 48 ≤ c && c ≤ 57

/-- The number of decimal digits from the first one on. -/
def digits (s : List UInt8) : ℕ := (s.takeWhile isdigit).foldl (fun n c => n * 10 + (c.toNat - 48)) 0

/-- `strtol` with base ten: a number that does not fit is the nearest one that does. -/
def strtol (s : List UInt8) : ℤ :=
  match s.dropWhile isspace with
  | 45 :: rest => max (-2 ^ 63) (-digits rest)
  | 43 :: rest => min (2 ^ 63 - 1) (digits rest)
  | rest => min (2 ^ 63 - 1) (digits rest)

def atoi (s : List UInt8) : Int32 := Int32.ofInt (strtol s)

end Numbers

/-- The arguments of `business_server::create_channel_server`. -/
structure ChannelRequest where
  clientId : Int32
  outIp : List UInt8
  outIp1 : List UInt8
  outPort : Int32
  inIp : List UInt8
  inIp1 : List UInt8
  inPort : Int32
  localIp : List UInt8
  localPort : Int32
deriving DecidableEq, Repr

def ChannelRequest.addresses (r : ChannelRequest) : List (List UInt8) :=
  [r.outIp, r.outIp1, r.inIp, r.inIp1, r.localIp]

/-- The request of a typed line. -/
def ChannelRequest.typed
    (id outIp outIp1 outPort inIp inIp1 inPort localIp localPort : List UInt8) :
    ChannelRequest where
  clientId := atoi id
  outIp := outIp
  outIp1 := outIp1
  outPort := atoi outPort
  inIp := inIp
  inIp1 := inIp1
  inPort := atoi inPort
  localIp := localIp
  localPort := atoi localPort

/-- What a line of the console asks for. -/
inductive Command where
  | quit
  | create (r : ChannelRequest)
  /-- The command `c` with too few fields. -/
  | usage
  | help
  | other
deriving DecidableEq, Repr

/-- The channel of the command `d`, between fixed addresses. -/
def fixedChannel (clientId : Int32) : ChannelRequest where
  clientId := clientId
  outIp := "172.31.11.200".toUTF8.toList
  outIp1 := "120.16.8.198".toUTF8.toList
  outPort := 9424
  inIp := "172.31.11.200".toUTF8.toList
  inIp1 := "120.16.8.198".toUTF8.toList
  inPort := 9525
  localIp := "127.0.0.1".toUTF8.toList
  localPort := 3396

/-- The branches of `exec` for the fields of a line. -/
def command : List (List UInt8) → Command
  | [99] :: id :: outIp :: outIp1 :: outPort :: inIp :: inIp1 :: inPort :: localIp :: localPort :: _ =>
    .create (.typed id outIp outIp1 outPort inIp inIp1 inPort localIp localPort)
  | [99] :: _ => .usage
  | [100] :: id :: _ => .create (fixedChannel (atoi id))
  | [104] :: _ => .help
  | _ => .other

/-- One round of `exec`; there is no result while the splitter goes on, and none when it throws. -/
def exec (line : StdString) (fuel : ℕ) : Option (Option Command) :=
  if line.chars = [113] then some (some .quit) else (lambdaSplit line fuel).map fun cmds =>
    cmds.map command

namespace ChannelInfo

-- The offsets of the fields of `vpn_channel_info`.

abbrev clientId : ℕ := 0
abbrev channelId : ℕ := 4
abbrev outIp : ℕ := 8
abbrev outIp1 : ℕ := 40
abbrev outPort : ℕ := 72
abbrev inIp : ℕ := 76
abbrev inIp1 : ℕ := 108
abbrev inPort : ℕ := 140
abbrev localIp : ℕ := 144
abbrev localPort : ℕ := 176

abbrev size : ℕ := 180

end ChannelInfo

namespace ServerInfo

-- The offsets of fields of `server_socket_info`; the queues are between the port and the last pointer.

abbrev fd : ℕ := 0
abbrev type : ℕ := 8
abbrev localIp : ℕ := 20
abbrev localPort : ℕ := 52
abbrev removte : ℕ := 216

end ServerInfo

/-- The size of every address field. -/
abbrev addressSize : ℕ := 32

/-- An assignment to a field of an object. -/
inductive Assign where
  | strcpy (field : ℕ) (src : Memory) (off : ℕ)
  | int (field : ℕ) (value : Int32)
  | pointer (field : ℕ) (value : ℕ)

def Assign.run (m : Memory) : Assign → Memory
  | .strcpy field src off => m.strcpy field src off
  | .int field value => m.write field (intBytes value)
  | .pointer field value => m.storeWord field value

/-- A copy stays in its address field. -/
def Assign.Inside : Assign → Prop
  | .strcpy _ src off => ∀ i ∈ src.cstring off, i < off + addressSize
  | .int _ _ => True
  | .pointer _ _ => True

/-- The assignments of `business_server::create_channel_server`. -/
def channelAssigns (r : ChannelRequest) (channelId : Int32) : List Assign :=
  [.int ChannelInfo.clientId r.clientId, .int ChannelInfo.channelId channelId,
    .strcpy ChannelInfo.outIp (ofString r.outIp) 0, .strcpy ChannelInfo.outIp1 (ofString r.outIp1) 0,
    .int ChannelInfo.outPort r.outPort,
    .strcpy ChannelInfo.inIp (ofString r.inIp) 0, .strcpy ChannelInfo.inIp1 (ofString r.inIp1) 0,
    .int ChannelInfo.inPort r.inPort,
    .strcpy ChannelInfo.localIp (ofString r.localIp) 0, .int ChannelInfo.localPort r.localPort]

/-- The assignments of `init_server_socket`, given the addresses of the two objects and their sockets. -/
def outAssigns (channel : Memory) (removte : ℕ) (fd : Int32) : List Assign :=
  [.pointer ServerInfo.removte removte, .strcpy ServerInfo.localIp channel ChannelInfo.outIp,
    .int ServerInfo.localPort (channel.int32 ChannelInfo.outPort), .int ServerInfo.fd fd,
    .int ServerInfo.type 1]

def inAssigns (channel : Memory) (removte : ℕ) (fd : Int32) : List Assign :=
  [.pointer ServerInfo.removte removte, .strcpy ServerInfo.localIp channel ChannelInfo.inIp,
    .int ServerInfo.localPort (channel.int32 ChannelInfo.inPort), .int ServerInfo.fd fd]

/-- What the system provides: the memory of the three new objects, the addresses of two of them, and the two bound
sockets if there are two. -/
structure Allocation where
  channel : Memory
  out : Memory
  inside : Memory
  outPtr : ℕ
  inPtr : ℕ
  sockets : Option (Int32 × Int32)

/-- The objects that are built, and the assignments that have built them. -/
structure Construction where
  channel : Memory
  servers : Option (Memory × Memory)
  assigns : List Assign

/-- A new `vpn_channel_info` is cleared. -/
def newChannelInfo (raw : Memory) : Memory := fun i => if i < ChannelInfo.size then 0 else raw i

/-- A new `server_socket_info` is cleared but for the queues and two numbers. -/
def newServerInfo (raw : Memory) : Memory := fun i =>
  if i < 12 ∨ 20 ≤ i ∧ i < 56 ∨ 216 ≤ i ∧ i < 224 then 0 else raw i

/-- `init_server_socket`. -/
def initServerSocket (a : Allocation) (channel : Memory) : Option (Memory × Memory) × List Assign :=
  match a.sockets with
  | none => (none, [])
  | some (outSocket, inSocket) =>
    let out := outAssigns channel a.inPtr outSocket
    let inside := inAssigns channel a.outPtr inSocket
    (some (out.foldl Assign.run (newServerInfo a.out),
      inside.foldl Assign.run (newServerInfo a.inside)), out ++ inside)

/-- The number after the largest one of the channels of a client. -/
def nextChannelId (ids : List Int32) : Int32 :=
  ids.foldl (fun max id => if id > max then id else max) 0 + 1

def newChannel (a : Allocation) (r : ChannelRequest) (channelId : Int32) : Memory :=
  (channelAssigns r channelId).foldl Assign.run (newChannelInfo a.channel)

def construct (a : Allocation) (r : ChannelRequest) (channelId : Int32) : Construction where
  channel := newChannel a r channelId
  servers := (initServerSocket a (newChannel a r channelId)).1
  assigns := channelAssigns r channelId ++ (initServerSocket a (newChannel a r channelId)).2

/-- `business_server::create_channel_server` up to the two `server_socket_info`; `clients` gives the numbers of the
channels of every connected client. -/
def buildChannel (clients : Int32 → Option (List Int32)) (a : Allocation) (r : ChannelRequest) :
    Option Construction :=
  (clients r.clientId).map fun ids => construct a r (nextChannelId ids)

/-- The objects hold what has been typed, and no copy has left its field. -/
structure Construction.Holds (c : Construction) (r : ChannelRequest) : Prop where
  inside : ∀ a ∈ c.assigns, a.Inside
  clientId : c.channel.int32 ChannelInfo.clientId = r.clientId
  outIp : c.channel.HoldsString ChannelInfo.outIp r.outIp
  outIp1 : c.channel.HoldsString ChannelInfo.outIp1 r.outIp1
  outPort : c.channel.int32 ChannelInfo.outPort = r.outPort
  inIp : c.channel.HoldsString ChannelInfo.inIp r.inIp
  inIp1 : c.channel.HoldsString ChannelInfo.inIp1 r.inIp1
  inPort : c.channel.int32 ChannelInfo.inPort = r.inPort
  localIp : c.channel.HoldsString ChannelInfo.localIp r.localIp
  localPort : c.channel.int32 ChannelInfo.localPort = r.localPort
  outServer : ∀ servers, c.servers = some servers →
    servers.1.HoldsString ServerInfo.localIp r.outIp ∧ servers.1.int32 ServerInfo.localPort = r.outPort
  inServer : ∀ servers, c.servers = some servers →
    servers.2.HoldsString ServerInfo.localIp r.inIp ∧ servers.2.int32 ServerInfo.localPort = r.inPort

/-- The address and its terminator fit into a field, and the address has no terminator inside. -/
def FitsField (address : List UInt8) : Prop := address.length < addressSize ∧ 0 ∉ address

instance (address : List UInt8) : Decidable (FitsField address) := inferInstanceAs (Decidable (_ ∧ _))

section Build

variable {r : ChannelRequest} {channelId : Int32} {m : Memory}

/-- The writes that the assignments to a channel are when its addresses have no terminator inside. -/
def channelStores (r : ChannelRequest) (channelId : Int32) : List (ℕ × List UInt8) :=
  [(ChannelInfo.clientId, intBytes r.clientId), (ChannelInfo.channelId, intBytes channelId),
    (ChannelInfo.outIp, r.outIp ++ [0]), (ChannelInfo.outIp1, r.outIp1 ++ [0]),
    (ChannelInfo.outPort, intBytes r.outPort), (ChannelInfo.inIp, r.inIp ++ [0]),
    (ChannelInfo.inIp1, r.inIp1 ++ [0]), (ChannelInfo.inPort, intBytes r.inPort),
    (ChannelInfo.localIp, r.localIp ++ [0]), (ChannelInfo.localPort, intBytes r.localPort)]

/-- The writes of one listener, up to its socket. -/
def serverStores (ptr : ℕ) (address : List UInt8) (port : Int32) (more : List (ℕ × List UInt8)) :
    List (ℕ × List UInt8) :=
  (ServerInfo.removte, littleEndian 8 ptr) :: (ServerInfo.localIp, address ++ [0]) ::
    (ServerInfo.localPort, intBytes port) :: more

theorem channelAssigns_run (free : ∀ a ∈ r.addresses, 0 ∉ a) :
    (channelAssigns r channelId).foldl Assign.run m = m.writes (channelStores r channelId) := by
  simp only [ChannelRequest.addresses, List.forall_mem_cons] at free
  obtain ⟨outIp, outIp1, inIp, inIp1, localIp, _⟩ := free
  simp only [channelAssigns, channelStores, List.foldl_cons, List.foldl_nil, Assign.run, writes,
    strcpy_eq_write (ofString_holds outIp), strcpy_eq_write (ofString_holds outIp1),
    strcpy_eq_write (ofString_holds inIp), strcpy_eq_write (ofString_holds inIp1),
    strcpy_eq_write (ofString_holds localIp)]

theorem channelStores_apart (fits : ∀ a ∈ r.addresses, FitsField a) :
    Apart (channelStores r channelId) := by
  simp only [ChannelRequest.addresses, List.forall_mem_cons, FitsField] at fits
  simp only [Apart, channelStores, List.pairwise_cons, List.forall_mem_cons, List.length_append,
    List.length_singleton, length_intBytes]
  grind

theorem serverStores_apart {ptr : ℕ} {address : List UInt8} {port : Int32} {more : List (ℕ × List UInt8)}
    (fits : FitsField address)
    (below : ∀ store ∈ more, store.1 + store.2.length ≤ ServerInfo.localIp) (apart : Apart more) :
    Apart (serverStores ptr address port more) := by
  have short := fits.1
  simp only [addressSize, ServerInfo.localIp] at short below
  simp only [Apart, serverStores, List.pairwise_cons, List.forall_mem_cons, List.length_append,
    List.length_singleton, length_intBytes, length_littleEndian, ServerInfo.localIp,
    ServerInfo.localPort, ServerInfo.removte]
  refine ⟨⟨by omega, by omega, fun store member => ?_⟩, ⟨by omega, fun store member => ?_⟩,
    fun store member => ?_, apart⟩
  · have bound := below store member
    omega
  · have bound := below store member
    omega
  · have bound := below store member
    omega

section Fits

variable (fits : ∀ a ∈ r.addresses, FitsField a) {a : Allocation} {field : ℕ}
include fits

/-- A number that is assigned to a channel is there when every address fits. -/
theorem newChannel_int32 {value : Int32} (member : (field, intBytes value) ∈ channelStores r channelId) :
    (newChannel a r channelId).int32 field = value := by
  rw [newChannel, channelAssigns_run fun a member => (fits a member).2]
  exact int32_writes (channelStores_apart fits) member

/-- An address that is copied to a channel is there when every address fits. -/
theorem newChannel_holdsString {address : List UInt8} (isAddress : address ∈ r.addresses)
    (member : (field, address ++ [0]) ∈ channelStores r channelId) :
    (newChannel a r channelId).HoldsString field address := by
  rw [newChannel, channelAssigns_run fun a member => (fits a member).2]
  exact holdsString_writes (channelStores_apart fits) member (fits address isAddress).2

end Fits

/-- What the assignments to a listener leave when its address fits. -/
theorem serverStores_hold {ptr : ℕ} {address : List UInt8} {port : Int32} {more : List (ℕ × List UInt8)}
    (fits : FitsField address)
    (below : ∀ store ∈ more, store.1 + store.2.length ≤ ServerInfo.localIp) (apart : Apart more) :
    (m.writes (serverStores ptr address port more)).HoldsString ServerInfo.localIp address ∧
      (m.writes (serverStores ptr address port more)).int32 ServerInfo.localPort = port := by
  have all : Apart (serverStores ptr address port more) := serverStores_apart fits below apart
  refine ⟨holdsString_writes all ?_ fits.2, int32_writes all ?_⟩
  · exact List.mem_cons_of_mem _ List.mem_cons_self
  · exact List.mem_cons_of_mem _ (List.mem_cons_of_mem _ List.mem_cons_self)

/-- The two listeners hold the addresses and ports that their channel holds. -/
theorem initServerSocket_hold {a : Allocation} {channel : Memory} {servers : Memory × Memory}
    {outIp inIp : List UInt8} (out : channel.HoldsString ChannelInfo.outIp outIp)
    (outFits : FitsField outIp) (inside : channel.HoldsString ChannelInfo.inIp inIp)
    (insideFits : FitsField inIp) (built : (initServerSocket a channel).1 = some servers) :
    (servers.1.HoldsString ServerInfo.localIp outIp ∧
      servers.1.int32 ServerInfo.localPort = channel.int32 ChannelInfo.outPort) ∧
    servers.2.HoldsString ServerInfo.localIp inIp ∧ servers.2.int32 ServerInfo.localPort =
    channel.int32 ChannelInfo.inPort := by
  rw [initServerSocket] at built
  cases sockets : a.sockets with
  | none =>
    rw [sockets] at built
    exact nomatch built
  | some sockets' =>
    rw [sockets] at built
    obtain rfl := Option.some.inj built
    constructor
    · have run : (outAssigns channel a.inPtr sockets'.1).foldl Assign.run (newServerInfo a.out) =
          (newServerInfo a.out).writes (serverStores a.inPtr outIp (channel.int32 ChannelInfo.outPort)
            [(ServerInfo.fd, intBytes sockets'.1), (ServerInfo.type, intBytes 1)]) := by
        simp only [outAssigns, serverStores, List.foldl_cons, List.foldl_nil, Assign.run, writes,
          strcpy_eq_write out, storeWord]
      dsimp only
      rw [run]
      refine serverStores_hold outFits ?_ ?_
      · simp [ServerInfo.fd, ServerInfo.type, ServerInfo.localIp]
      · simp [Apart, ServerInfo.fd, ServerInfo.type]
    · have run : (inAssigns channel a.outPtr sockets'.2).foldl Assign.run (newServerInfo a.inside) =
          (newServerInfo a.inside).writes (serverStores a.outPtr inIp (channel.int32 ChannelInfo.inPort)
            [(ServerInfo.fd, intBytes sockets'.2)]) := by
        simp only [inAssigns, serverStores, List.foldl_cons, List.foldl_nil, Assign.run, writes,
          strcpy_eq_write inside, storeWord]
      dsimp only
      rw [run]
      refine serverStores_hold insideFits ?_ (List.pairwise_singleton ..)
      simp [ServerInfo.fd, ServerInfo.localIp]

/-- Every copy of a construction stays in its field if the addresses fit. -/
theorem construct_inside {a : Allocation} (fits : ∀ address ∈ r.addresses, FitsField address)
    (out : (newChannel a r channelId).HoldsString ChannelInfo.outIp r.outIp)
    (inside : (newChannel a r channelId).HoldsString ChannelInfo.inIp r.inIp) :
    ∀ assign ∈ (construct a r channelId).assigns, assign.Inside := by
  simp only [ChannelRequest.addresses, List.forall_mem_cons] at fits
  obtain ⟨outIp, outIp1, inIp, inIp1, localIp, _⟩ := fits
  have copied : ∀ {address : List UInt8} (field : ℕ), FitsField address →
    (Assign.strcpy field (ofString address) 0).Inside :=
    fun field fits => (ofString_holds fits.2).fits_iff.mpr fits.1
  intro assign member
  rcases List.mem_append.mp member with channel | server
  · simp only [channelAssigns, List.mem_cons, List.not_mem_nil, or_false] at channel
    rcases channel with rfl | rfl | rfl | rfl | rfl | rfl | rfl | rfl | rfl | rfl
    · trivial
    · trivial
    · exact copied _ outIp
    · exact copied _ outIp1
    · trivial
    · exact copied _ inIp
    · exact copied _ inIp1
    · trivial
    · exact copied _ localIp
    · trivial
  · rw [initServerSocket] at server
    cases sockets : a.sockets with
    | none =>
      rw [sockets] at server
      exact absurd server List.not_mem_nil
    | some sockets' =>
      rw [sockets] at server
      rcases List.mem_append.mp server with server | server
      · simp only [outAssigns, List.mem_cons, List.not_mem_nil, or_false] at server
        rcases server with rfl | rfl | rfl | rfl | rfl
        · trivial
        · exact out.fits_iff.mpr outIp.1
        · trivial
        · trivial
        · trivial
      · simp only [inAssigns, List.mem_cons, List.not_mem_nil, or_false] at server
        rcases server with rfl | rfl | rfl | rfl
        · trivial
        · exact inside.fits_iff.mpr inIp.1
        · trivial
        · trivial

/-- What has been typed is kept exactly when every address fits into its field. -/
theorem construct_holds_iff (a : Allocation) :
    (construct a r channelId).Holds r ↔ ∀ address ∈ r.addresses, FitsField address := by
  constructor
  · intro holds
    have copied : ∀ (field : ℕ) {address : List UInt8}, 0 ∉ address →
        .strcpy field (ofString address) 0 ∈ channelAssigns r channelId → FitsField address := by
      intro field address free member
      have inside := holds.inside _ (List.mem_append_left _ member)
      rw [Assign.Inside, (ofString_holds free).fits_iff] at inside
      exact ⟨inside, free⟩
    simp only [ChannelRequest.addresses, List.forall_mem_cons]
    refine ⟨copied ChannelInfo.outIp holds.outIp.2 ?_, copied ChannelInfo.outIp1 holds.outIp1.2 ?_,
      copied ChannelInfo.inIp holds.inIp.2 ?_, copied ChannelInfo.inIp1 holds.inIp1.2 ?_,
      copied ChannelInfo.localIp holds.localIp.2 ?_, fun address member => absurd member List.not_mem_nil⟩
    all_goals simp only [channelAssigns, List.mem_cons, true_or, or_true]
  · intro fits
    have isOut : r.outIp ∈ r.addresses := List.mem_cons_self
    have isIn : r.inIp ∈ r.addresses := List.mem_cons_of_mem _ (List.mem_cons_of_mem _ List.mem_cons_self)
    have outIp : (newChannel a r channelId).HoldsString ChannelInfo.outIp r.outIp :=
      newChannel_holdsString fits isOut (by simp [channelStores])
    have inIp : (newChannel a r channelId).HoldsString ChannelInfo.inIp r.inIp :=
      newChannel_holdsString fits isIn (by simp [channelStores])
    have outPort : (newChannel a r channelId).int32 ChannelInfo.outPort = r.outPort :=
      newChannel_int32 fits (by simp [channelStores])
    have inPort : (newChannel a r channelId).int32 ChannelInfo.inPort = r.inPort :=
      newChannel_int32 fits (by simp [channelStores])
    exact {
      inside := construct_inside fits outIp inIp
      clientId := newChannel_int32 fits (by simp [channelStores])
      outIp := outIp
      outIp1 := newChannel_holdsString fits (by simp [ChannelRequest.addresses]) (by simp [channelStores])
      outPort := outPort
      inIp := inIp
      inIp1 := newChannel_holdsString fits (by simp [ChannelRequest.addresses]) (by simp [channelStores])
      inPort := inPort
      localIp := newChannel_holdsString fits (by simp [ChannelRequest.addresses])
        (by simp [channelStores])
      localPort := newChannel_int32 fits (by simp [channelStores])
      outServer := fun servers built => by
        obtain ⟨address, port⟩ := (initServerSocket_hold outIp (fits _ isOut) inIp (fits _ isIn) built).1
        exact ⟨address, port.trans outPort⟩
      inServer := fun servers built => by
        obtain ⟨address, port⟩ := (initServerSocket_hold outIp (fits _ isOut) inIp (fits _ isIn) built).2
        exact ⟨address, port.trans inPort⟩ }

/-- A line with at least ten fields, of which the first one is `c`, asks for the typed channel. -/
theorem exec_typed {line : StdString}
    {id outIp outIp1 outPort inIp inIp1 inPort localIp localPort : List UInt8}
    {rest : List (List UInt8)} (typed : line.chars.splitOn space =
      [99] :: id :: outIp :: outIp1 :: outPort :: inIp :: inIp1 :: inPort :: localIp ::
        localPort :: rest) :
    Computes (exec line)
      (some (.create (.typed id outIp outIp1 outPort inIp inIp1 inPort localIp localPort))) := by
  have other : line.chars ≠ [113] := by
    intro same
    have single : [113].splitOn space = [[113]] := rfl
    rw [same, single] at typed
    exact nomatch typed
  have split := lambdaSplit_computes line
  rw [typed] at split
  exact Computes.congr (fun fuel => if_neg other) (split.map (g := fun cmds => cmds.map command))

/-- A typed channel is built as it was typed exactly when every address is shorter than its field. -/
theorem exec_create_holds_iff {line : StdString}
    {id outIp outIp1 outPort inIp inIp1 inPort localIp localPort : List UInt8}
    {rest : List (List UInt8)} {clients : Int32 → Option (List Int32)} {ids : List Int32}
    (typed : line.chars.splitOn space =
      [99] :: id :: outIp :: outIp1 :: outPort :: inIp :: inIp1 :: inPort :: localIp :: localPort :: rest)
    (connected : clients (atoi id) = some ids) (a : Allocation) :
    let r := ChannelRequest.typed id outIp outIp1 outPort inIp inIp1 inPort localIp localPort
    Computes (exec line) (some (.create r)) ∧
      ∃ c, buildChannel clients a r = some c ∧
      (c.Holds r ↔ ∀ address ∈ [outIp, outIp1, inIp, inIp1, localIp], FitsField address) := by
  intro r
  have built : buildChannel clients a r = some (construct a r (nextChannelId ids)) := by
    rw [buildChannel, show clients r.clientId = some ids from connected]
    rfl
  exact ⟨exec_typed typed, _, built, construct_holds_iff a⟩

/-- A line with addresses of usual length. -/
private def usualLine : StdString where
  chars :=
    "c 2 172.31.11.200 120.46.8.198 17522 172.31.11.200 120.46.8.198 17523 127.0.0.1 22".toUTF8.toList
  bound := by decide +kernel

/-- A line whose local address has 36 characters, as many as are left in the object. -/
private def longLine : StdString where
  chars :=
    "c 2 10.0.0.1 10.0.0.2 17522 10.0.0.1 10.0.0.2 17523 127.000.000.000.000.000.000.00000001 22".toUTF8.toList
  bound := by decide +kernel

private def someMemory : Allocation := ⟨fun _ => 0, fun _ => 0, fun _ => 0, 4096, 8192, some (7, 8)⟩

private def clientTwo (id : Int32) : Option (List Int32) := if id = 2 then some [] else none

theorem exec_create_holds_usual : ∃ c, buildChannel clientTwo someMemory
    (.typed [50] "172.31.11.200".toUTF8.toList "120.46.8.198".toUTF8.toList "17522".toUTF8.toList
      "172.31.11.200".toUTF8.toList "120.46.8.198".toUTF8.toList "17523".toUTF8.toList
      "127.0.0.1".toUTF8.toList "22".toUTF8.toList) = some c ∧
    c.channel.HoldsString ChannelInfo.localIp "127.0.0.1".toUTF8.toList := by
  have typed : usualLine.chars.splitOn space = [[99], [50], "172.31.11.200".toUTF8.toList,
    "120.46.8.198".toUTF8.toList,
      "17522".toUTF8.toList, "172.31.11.200".toUTF8.toList, "120.46.8.198".toUTF8.toList,
      "17523".toUTF8.toList, "127.0.0.1".toUTF8.toList, "22".toUTF8.toList] := by decide +kernel
  obtain ⟨_, c, built, holds⟩ := exec_create_holds_iff typed
    (by decide +kernel : clientTwo (atoi [50]) = some []) someMemory
  exact ⟨c, built, (holds.mpr (by decide +kernel)).localIp⟩

/-- The copy of the long address leaves its field. -/
theorem exec_create_overruns : ∃ r c, Computes (exec longLine) (some (.create r)) ∧
    buildChannel clientTwo someMemory r = some c ∧ ¬ c.Holds r := by
  have typed : longLine.chars.splitOn space = [[99], [50], "10.0.0.1".toUTF8.toList,
    "10.0.0.2".toUTF8.toList,
      "17522".toUTF8.toList, "10.0.0.1".toUTF8.toList, "10.0.0.2".toUTF8.toList, "17523".toUTF8.toList,
      "127.000.000.000.000.000.000.00000001".toUTF8.toList, "22".toUTF8.toList] := by decide +kernel
  have built : buildChannel clientTwo someMemory
    (.typed [50] "10.0.0.1".toUTF8.toList "10.0.0.2".toUTF8.toList
      "17522".toUTF8.toList "10.0.0.1".toUTF8.toList "10.0.0.2".toUTF8.toList "17523".toUTF8.toList
      "127.000.000.000.000.000.000.00000001".toUTF8.toList "22".toUTF8.toList) =
      some (construct someMemory _ 1) := rfl
  refine ⟨_, _, exec_typed typed, built, fun holds => ?_⟩
  rw [construct_holds_iff] at holds
  revert holds
  decide +kernel

/-- The channel of the command `d` is always built as it is written. -/
theorem fixedChannel_holds {clients : Int32 → Option (List Int32)} {a : Allocation}
    {c : Construction} {clientId : Int32}
    (built : buildChannel clients a (fixedChannel clientId) = some c) :
    c.Holds (fixedChannel clientId) := by
  obtain ⟨ids, _, rfl⟩ := Option.map_eq_some_iff.mp built
  rw [construct_holds_iff]
  change ∀ address ∈ (fixedChannel 0).addresses, FitsField address
  decide +kernel

end Build

end LinuxZero.Vpn
