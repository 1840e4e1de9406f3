import LinuxZero.Lib.Run
import Mathlib.Data.List.Nodup
import Mathlib.Data.Int.Order.Basic
import Mathlib.Logic.Function.Basic

/-! # Creating the servers of a channel

`create_channel_server` registers a channel with its client before the two servers of the channel are initialised
and started, and leaves it registered when one of these four steps fails. When the client disconnects, every
registered channel is closed, and stopping a server joins its threads: for a server that was not started there are
none, and the exception that `join` throws ends the program.
-/

namespace LinuxZero.Svpn

/-- The threads of a `socket_server_accept`: whether they can be joined. -/
structure SocketServerAccept where
  m_epoll_thread : Bool
  m_accept_thread : Bool
deriving DecidableEq, Repr

namespace SocketServerAccept

def idle : SocketServerAccept := ⟨false, false⟩

/-- `listen` succeeds or fails. -/
def start (server : SocketServerAccept) (listen : Bool) : SocketServerAccept × Bool :=
  if listen then (⟨true, true⟩, true) else (server, false)

/-- `none` is the exception. -/
def stop (server : SocketServerAccept) : Option SocketServerAccept :=
  if server.m_epoll_thread && server.m_accept_thread then some idle else none

end SocketServerAccept

/-- What the kernel answers on the way through `vpn_server_oi::init`. -/
structure InitCalls where
  outInit : Bool
  inInit : Bool
  outListen : Bool
  inListen : Bool
deriving DecidableEq, Repr

def InitCalls.all (calls : InitCalls) : Bool :=
  calls.outInit && calls.inInit && calls.outListen && calls.inListen

/-- The two servers of a `vpn_server_oi`. -/
structure ChannelServers where
  m_out_server : SocketServerAccept
  m_in_server : SocketServerAccept
deriving DecidableEq, Repr

namespace ChannelServers

def idle : ChannelServers := ⟨.idle, .idle⟩

def started : ChannelServers := ⟨⟨true, true⟩, ⟨true, true⟩⟩

def init (channel : ChannelServers) (calls : InitCalls) : ChannelServers × Bool :=
  if !calls.outInit then (channel, false)
  else if !calls.inInit then (channel, false)
  else
    let (m_out_server, ret) := channel.m_out_server.start calls.outListen
    let channel := { channel with m_out_server := m_out_server }
    if !ret then (channel, false)
    else
      let (m_in_server, ret) := channel.m_in_server.start calls.inListen
      ({ channel with m_in_server := m_in_server }, ret)

/-- `none` when one of the servers has no threads to join. -/
def close (channel : ChannelServers) : Option ChannelServers := do
  let m_out_server ← channel.m_out_server.stop
  let m_in_server ← channel.m_in_server.stop
  return ⟨m_out_server, m_in_server⟩

/-- A thread of one of the servers runs. -/
def Running (channel : ChannelServers) : Prop :=
  channel.m_out_server ≠ .idle ∨ channel.m_in_server ≠ .idle

end ChannelServers

/-- The channels of each client, in the order of the keys: the channel's id and the address of its `vpn_server_oi`. -/
abbrev ClientMap := ℕ → Option (List (ℤ × ℕ))

/-- Every id in the maps is smaller than the next one. -/
def HandedOut (clients : ClientMap) (m_channel_id : ℤ) : Prop :=
  ∀ client channels, clients client = some channels → ∀ channel ∈ channels, channel.1 < m_channel_id

theorem HandedOut.update {clients : ClientMap} {m_channel_id later : ℤ}
    (handedOut : HandedOut clients m_channel_id) (le : m_channel_id ≤ later) (client : ℕ)
    {entry : Option (List (ℤ × ℕ))}
    (new : ∀ channels, entry = some channels → ∀ channel ∈ channels, channel.1 < later) :
    HandedOut (Function.update clients client entry) later := by
  intro other channels listed channel member
  rcases eq_or_ne other client with rfl | differ
  · rw [Function.update_self] at listed
    exact new channels listed channel member
  · rw [Function.update_of_ne differ] at listed
    exact lt_of_lt_of_le (handedOut other channels listed channel member) le

structure VpnServer where
  m_channel_id : ℤ
  m_vpn_client_map : ClientMap
  heap : ℕ → Option ChannelServers
  next : ℕ
  /-- An exception has ended the program. -/
  terminated : Bool
  handedOut : HandedOut m_vpn_client_map m_channel_id

namespace VpnServer

def initial : VpnServer where
  m_channel_id := 1
  m_vpn_client_map _ := none
  heap _ := none
  next := 0
  terminated := false
  handedOut _ _ nobody := nomatch nobody

/-- Close and delete the channels one after the other. -/
def closeAll : List (ℤ × ℕ) → (ℕ → Option ChannelServers) → Option (ℕ → Option ChannelServers)
  | [], heap => some heap
  | (_, address) :: rest, heap =>
    match (heap address).bind ChannelServers.close with
    | some _ => closeAll rest (Function.update heap address none)
    | none => none

variable (s : VpnServer)

/-- `insert` leaves a client alone that is in the map. -/
def add_client (client : ℕ) : VpnServer :=
  match s.m_vpn_client_map client with
  | some _ => s
  | none => { s with
      m_vpn_client_map := Function.update s.m_vpn_client_map client (some [])
      handedOut := s.handedOut.update le_rfl client (by rintro _ ⟨⟩ _ ⟨⟩) }

def del_client (client : ℕ) : VpnServer :=
  match s.m_vpn_client_map client with
  | none => s
  | some channels =>
    match closeAll channels s.heap with
    | none => { s with terminated := true }
    | some heap => { s with
        m_vpn_client_map := Function.update s.m_vpn_client_map client none
        heap := heap
        handedOut := s.handedOut.update le_rfl client (by rintro _ ⟨⟩) }

theorem handedOut_append {client : ℕ} {channels : List (ℤ × ℕ)}
    (here : s.m_vpn_client_map client = some channels) :
    HandedOut (Function.update s.m_vpn_client_map client
      (some (channels ++ [(s.m_channel_id, s.next)]))) (s.m_channel_id + 1) := by
  refine s.handedOut.update (Int.le_add_one le_rfl) client ?_
  rintro _ ⟨⟩ channel member
  rcases List.mem_append.mp member with old | new
  · exact Int.lt_add_one_of_le (le_of_lt (s.handedOut client channels here channel old))
  · obtain rfl := List.mem_singleton.mp new
    exact Int.lt_succ s.m_channel_id

/-- The address of the new channel, which is registered with a new and so with the largest id. -/
def add_channel (client : ℕ) : VpnServer × Option ℕ :=
  match here : s.m_vpn_client_map client with
  | none => (s, none)
  | some channels =>
    ({ s with
        m_channel_id := s.m_channel_id + 1
        m_vpn_client_map := Function.update s.m_vpn_client_map client
          (some (channels ++ [(s.m_channel_id, s.next)]))
        heap := Function.update s.heap s.next (some .idle)
        next := s.next + 1
        handedOut := s.handedOut_append here },
      some s.next)

def create_channel_server (client : ℕ) (calls : InitCalls) : VpnServer × Bool :=
  match s.add_channel client with
  | (s, none) => (s, false)
  | (s, some address) =>
    let (channel, ret) := ChannelServers.idle.init calls
    ({ s with heap := Function.update s.heap address (some channel) }, ret)

/-- A failed creation leaves the channels of all clients as they were, and no server running that was not running. -/
def Restores (client : ℕ) (calls : InitCalls) : Prop :=
  (s.create_channel_server client calls).2 = false →
    (s.create_channel_server client calls).1.m_vpn_client_map = s.m_vpn_client_map ∧
      ∀ address channel, (s.create_channel_server client calls).1.heap address = some channel →
      channel.Running →
        s.heap address = some channel

end VpnServer

theorem ChannelServers.init_snd (calls : InitCalls) : (idle.init calls).2 = calls.all := by
  obtain ⟨outInit, inInit, outListen, inListen⟩ := calls
  revert outInit inInit outListen inListen
  decide

theorem ChannelServers.init_fst {calls : InitCalls} (all : calls.all = true) : (idle.init calls).1 =
    started := by
  obtain ⟨outInit, inInit, outListen, inListen⟩ := calls
  revert outInit inInit outListen inListen
  decide

namespace VpnServer

section Creation

variable {s : VpnServer} {client : ℕ} {calls : InitCalls}

theorem create_absent (absent : s.m_vpn_client_map client = none) :
    s.create_channel_server client calls = (s, false) := by
  have nothing : s.add_channel client = (s, none) := by
    rw [add_channel]
    split
    · rfl
    · next channels here => exact nomatch absent.symm.trans here
  rw [create_channel_server, nothing]

/-- The channel is registered whatever the steps of its initialisation do. -/
structure Creates (s : VpnServer) (client : ℕ) (channels : List (ℤ × ℕ)) (calls : InitCalls)
    (t : VpnServer) (ret : Bool) :
    Prop where
  clients : t.m_vpn_client_map =
    Function.update s.m_vpn_client_map client (some (channels ++ [(s.m_channel_id, s.next)]))
  heap : t.heap = Function.update s.heap s.next (some (ChannelServers.idle.init calls).1)
  next : t.next = s.next + 1
  terminated : t.terminated = s.terminated
  ret : ret = calls.all

variable (calls) in
theorem create_connected {channels : List (ℤ × ℕ)} (here : s.m_vpn_client_map client = some channels) :
    s.Creates client channels calls (s.create_channel_server client calls).1
      (s.create_channel_server client calls).2 := by
  obtain ⟨t, added, clients, heap, next, terminated⟩ : ∃ t, s.add_channel client = (t, some s.next) ∧
      t.m_vpn_client_map = Function.update s.m_vpn_client_map client
        (some (channels ++ [(s.m_channel_id, s.next)])) ∧
      t.heap = Function.update s.heap s.next (some .idle) ∧ t.next = s.next + 1 ∧
      t.terminated = s.terminated := by
    rw [add_channel]
    split
    · next absent => exact nomatch absent.symm.trans here
    · next channels' here' =>
      obtain rfl := Option.some.inj (here.symm.trans here')
      exact ⟨_, rfl, rfl, rfl, rfl, rfl⟩
  rw [create_channel_server, added]
  refine ⟨clients, ?_, next, terminated, ChannelServers.init_snd calls⟩
  change Function.update t.heap s.next _ = _
  rw [heap, Function.update_idem]

/-- A failed creation leaves everything as it was exactly when the client is not connected; a creation for a client
that is has to succeed. -/
theorem restores_iff (s : VpnServer) (client : ℕ) (calls : InitCalls) :
    s.Restores client calls ↔ s.m_vpn_client_map client = none ∨ calls.all = true := by
  cases here : s.m_vpn_client_map client with
  | none =>
    refine iff_of_true (fun _ => ?_) (.inl rfl)
    rw [create_absent here]
    exact ⟨rfl, fun _ _ same _ => same⟩
  | some channels =>
    have creates := create_connected calls here
    constructor
    · intro restores
      by_contra fails
      have failed : calls.all = false := Bool.eq_false_iff.mpr fun all => fails (.inr all)
      have same := (restores (creates.ret.trans failed)).1
      rw [creates.clients] at same
      have listed := (Function.update_self ..).symm.trans (congrFun same client)
      have longer := congrArg List.length (Option.some.inj (listed.trans here))
      rw [List.length_append] at longer
      exact absurd longer (by simp)
    · rintro (absent | all) failed
      · contradiction
      · exact nomatch all.symm.trans (creates.ret.symm.trans failed)

end Creation

inductive Event where
  /-- `on_connected`. -/
  | connect (client : ℕ)
  /-- `on_disconnected` and `on_a_disconnected`. -/
  | disconnect (client : ℕ)
  | create (client : ℕ) (calls : InitCalls)
deriving DecidableEq, Repr

def apply (s : VpnServer) : Event → VpnServer
  | .connect client => s.add_client client
  | .disconnect client => s.del_client client
  | .create client calls => (s.create_channel_server client calls).1

/-- A channel is created for a client that is connected only if its servers can be started. -/
def Meets (s : VpnServer) : Event → Prop
  | .create client calls => s.m_vpn_client_map client = none ∨ calls.all = true
  | _ => True

def Step (s : VpnServer) (event : Event) (t : VpnServer) : Prop :=
  s.terminated = false ∧ t = s.apply event

def MetStep (s : VpnServer) (event : Event) (t : VpnServer) : Prop := Step s event t ∧ s.Meets event

/-- No thread was joined that was not created, the servers of every registered channel are started, and no server runs
without an owner. -/
structure Sound (s : VpnServer) : Prop where
  alive : s.terminated = false
  started : ∀ client channels, s.m_vpn_client_map client = some channels →
    ∀ channel ∈ channels, s.heap channel.2 = some .started
  owned : ∀ address channel, s.heap address = some channel → channel.Running →
    ∃ client channels, s.m_vpn_client_map client = some channels ∧ address ∈ channels.map Prod.snd

/-- What holds as long as creations succeed: each `vpn_server_oi` belongs to one channel. -/
structure Kept (s : VpnServer) : Prop where
  alive : s.terminated = false
  started : ∀ client channels, s.m_vpn_client_map client = some channels →
    ∀ channel ∈ channels, s.heap channel.2 = some .started
  owned : ∀ address channel, s.heap address = some channel →
    ∃ client channels, s.m_vpn_client_map client = some channels ∧ address ∈ channels.map Prod.snd
  below : ∀ address channel, s.heap address = some channel → address < s.next
  once : ∀ client client' channels channels' address, s.m_vpn_client_map client = some channels →
    s.m_vpn_client_map client' = some channels' → address ∈ channels.map Prod.snd →
    address ∈ channels'.map Prod.snd →
    client = client'
  nodup : ∀ client channels, s.m_vpn_client_map client = some channels → (channels.map Prod.snd).Nodup

theorem kept_initial : Kept initial where
  alive := rfl
  started _ _ nobody := nomatch nobody
  owned _ _ nothing := nomatch nothing
  below _ _ nothing := nomatch nothing
  once _ _ _ _ _ nobody := nomatch nobody
  nodup _ _ nobody := nomatch nobody

section Runs

variable {s t : VpnServer} {event : Event}

theorem Kept.sound (kept : Kept s) : s.Sound :=
  ⟨kept.alive, kept.started, fun address channel here _ => kept.owned address channel here⟩

/-- Started servers can be closed one after the other. -/
theorem closeAll_started {channels : List (ℤ × ℕ)} {heap : ℕ → Option ChannelServers}
    (started : ∀ channel ∈ channels, heap channel.2 = some .started)
    (nodup : (channels.map Prod.snd).Nodup) :
    closeAll channels heap = some fun address =>
    if address ∈ channels.map Prod.snd then none else heap address := by
  induction channels generalizing heap with
  | nil => simp [closeAll]
  | cons channel rest ih =>
    obtain ⟨apart, nodup⟩ := List.nodup_cons.mp nodup
    have others : ∀ other ∈ rest, Function.update heap channel.2 none other.2 = some .started := by
      intro other member
      have differ : other.2 ≠ channel.2 := fun same => apart (same ▸ List.mem_map_of_mem member)
      rw [Function.update_of_ne differ]
      exact started other (List.mem_cons_of_mem channel member)
    have closes : (heap channel.2).bind ChannelServers.close = some .idle := by
      rw [started channel List.mem_cons_self]
      rfl
    simp only [closeAll, closes, ih others nodup]
    congr 1
    funext address
    by_cases same : address = channel.2
    · simp [same]
    · rw [Function.update_of_ne same]
      refine if_congr ?_ rfl rfl
      rw [List.map_cons, List.mem_cons]
      exact (or_iff_right same).symm

/-- The addresses of registered channels have been allocated. -/
theorem Kept.registered_lt (kept : Kept s) {client : ℕ} {channels : List (ℤ × ℕ)}
    (here : s.m_vpn_client_map client = some channels) {address : ℕ}
    (member : address ∈ channels.map Prod.snd) :
    address < s.next := by
  obtain ⟨channel, inChannels, rfl⟩ := List.mem_map.mp member
  exact kept.below _ _ (kept.started client channels here channel inChannels)

/-- A new client has no channels. -/
theorem Kept.connect (kept : Kept s) (client : ℕ) : Kept (s.add_client client) := by
  cases here : s.m_vpn_client_map client with
  | some channels => simpa only [add_client, here] using kept
  | none =>
    have listed : ∀ other channels, Function.update s.m_vpn_client_map client (some []) other =
      some channels →
        other = client ∧ channels = [] ∨ s.m_vpn_client_map other = some channels := by
      intro other channels entry
      rcases eq_or_ne other client with rfl | differ
      · rw [Function.update_self] at entry
        exact .inl ⟨rfl, (Option.some.inj entry).symm⟩
      · exact .inr (by rwa [Function.update_of_ne differ] at entry)
    simp only [add_client, here]
    refine ⟨kept.alive, ?_, ?_, kept.below, ?_, ?_⟩
    · intro other channels entry
      rcases listed other channels entry with ⟨_, rfl⟩ | old
      · exact fun channel member => nomatch member
      · exact kept.started other channels old
    · intro address channel inHeap
      obtain ⟨other, channels, entry, member⟩ := kept.owned address channel inHeap
      have differ : other ≠ client := by
        rintro rfl
        exact nomatch here.symm.trans entry
      exact ⟨other, channels, (Function.update_of_ne differ ..).trans entry, member⟩
    · intro first second channels channels' address entry entry' member member'
      rcases listed first channels entry with ⟨_, rfl⟩ | old
      · exact nomatch member
      · rcases listed second channels' entry' with ⟨_, rfl⟩ | old'
        · exact nomatch member'
        · exact kept.once first second channels channels' address old old' member member'
    · intro other channels entry
      rcases listed other channels entry with ⟨_, rfl⟩ | old
      · exact List.nodup_nil
      · exact kept.nodup other channels old

/-- The servers of a client that leaves are started, so their threads can be joined. -/
theorem Kept.disconnect (kept : Kept s) (client : ℕ) : Kept (s.del_client client) := by
  cases here : s.m_vpn_client_map client with
  | none => simpa only [del_client, here] using kept
  | some channels =>
    have closed := closeAll_started (kept.started client channels here) (kept.nodup client channels here)
    have listed : ∀ other channels', Function.update s.m_vpn_client_map client none other =
      some channels' →
        other ≠ client ∧ s.m_vpn_client_map other = some channels' := by
      intro other channels' entry
      rcases eq_or_ne other client with rfl | differ
      · rw [Function.update_self] at entry
        contradiction
      · exact ⟨differ, by rwa [Function.update_of_ne differ] at entry⟩
    simp only [del_client, here, closed]
    refine ⟨kept.alive, ?_, ?_, ?_, ?_, ?_⟩
    · intro other channels' entry channel member
      obtain ⟨differ, old⟩ := listed other channels' entry
      refine (if_neg fun own => differ ?_).trans (kept.started other channels' old channel member)
      exact kept.once other client channels' channels channel.2 old here (List.mem_map_of_mem member) own
    · intro address channel inHeap
      obtain ⟨apart, inHeap⟩ := Option.ite_none_left_eq_some.mp inHeap
      obtain ⟨other, channels', entry, member⟩ := kept.owned address channel inHeap
      have differ : other ≠ client := by
        rintro rfl
        obtain rfl := Option.some.inj (here.symm.trans entry)
        exact apart member
      exact ⟨other, channels', (Function.update_of_ne differ ..).trans entry, member⟩
    · intro address channel inHeap
      exact kept.below address channel (Option.ite_none_left_eq_some.mp inHeap).2
    · intro first second channels' channels'' address entry entry'
      exact kept.once first second channels' channels'' address (listed first channels' entry).2
        (listed second channels'' entry').2
    · intro other channels' entry
      exact kept.nodup other channels' (listed other channels' entry).2

namespace Creates

variable {client : ℕ} {channels : List (ℤ × ℕ)} {calls : InitCalls} {ret : Bool}

/-- A client's channels are those it had, with the new one behind them for the client of the call. -/
theorem listed (creates : s.Creates client channels calls t ret)
    (here : s.m_vpn_client_map client = some channels) {other : ℕ} {channels' : List (ℤ × ℕ)}
    (entry : t.m_vpn_client_map other = some channels') : ∃ old,
      s.m_vpn_client_map other = some old ∧
        (channels' = old ∧ other ≠ client ∨
          channels' = old ++ [(s.m_channel_id, s.next)] ∧ other = client) := by
  rw [creates.clients] at entry
  rcases eq_or_ne other client with rfl | differ
  · rw [Function.update_self] at entry
    exact ⟨channels, here, .inr ⟨(Option.some.inj entry).symm, rfl⟩⟩
  · rw [Function.update_of_ne differ] at entry
    exact ⟨channels', entry, .inl ⟨rfl, differ⟩⟩

/-- The address of a channel is the new one or one that was registered. -/
theorem addresses (creates : s.Creates client channels calls t ret)
    (here : s.m_vpn_client_map client = some channels) {other : ℕ} {channels' : List (ℤ × ℕ)}
    (entry : t.m_vpn_client_map other = some channels') {address : ℕ}
    (member : address ∈ channels'.map Prod.snd) : address = s.next ∧ other = client ∨
      ∃ old, s.m_vpn_client_map other = some old ∧ address ∈ old.map Prod.snd := by
  obtain ⟨old, known, ⟨rfl, _⟩ | ⟨rfl, own⟩⟩ := creates.listed here entry
  · exact .inr ⟨channels', known, member⟩
  · rw [List.map_append, List.map_singleton, List.mem_append, List.mem_singleton] at member
    rcases member with inOld | new
    · exact .inr ⟨old, known, inOld⟩
    · exact .inl ⟨new, own⟩

/-- A registered channel stays registered. -/
theorem keeps_owner (creates : s.Creates client channels calls t ret)
    (here : s.m_vpn_client_map client = some channels) {other address : ℕ} {old : List (ℤ × ℕ)}
    (known : s.m_vpn_client_map other = some old) (member : address ∈ old.map Prod.snd) :
    ∃ channels', t.m_vpn_client_map other = some channels' ∧ address ∈ channels'.map Prod.snd := by
  rw [creates.clients]
  rcases eq_or_ne other client with rfl | apart
  · obtain rfl := Option.some.inj (here.symm.trans known)
    refine ⟨_, Function.update_self .., ?_⟩
    rw [List.map_append]
    exact List.mem_append_left _ member
  · exact ⟨old, (Function.update_of_ne apart ..).trans known, member⟩

end Creates

/-- A channel whose servers are started is registered with its client. -/
theorem Kept.create (kept : Kept s) {client : ℕ} {channels : List (ℤ × ℕ)} {calls : InitCalls}
    (all : calls.all = true) (here : s.m_vpn_client_map client = some channels) :
    Kept (s.create_channel_server client calls).1 := by
  have creates := create_connected calls here
  generalize (s.create_channel_server client calls).1 = t at creates
  have heap : t.heap = Function.update s.heap s.next (some .started) :=
    ChannelServers.init_fst all ▸ creates.heap
  have old_started : ∀ other old, s.m_vpn_client_map other = some old →
    ∀ channel ∈ old, t.heap channel.2 = some .started := by
    intro other old known channel member
    have allocated := kept.registered_lt known (List.mem_map_of_mem member)
    rw [heap, Function.update_of_ne (Nat.ne_of_lt allocated)]
    exact kept.started other old known channel member
  refine ⟨creates.terminated.trans kept.alive, ?_, ?_, ?_, ?_, ?_⟩
  · intro other channels' entry channel member
    obtain ⟨old, known, ⟨rfl, _⟩ | ⟨rfl, _⟩⟩ := creates.listed here entry
    · exact old_started other channels' known channel member
    · rcases List.mem_append.mp member with inOld | new
      · exact old_started other old known channel inOld
      · obtain rfl := List.mem_singleton.mp new
        rw [heap, Function.update_self]
  · intro address channel inHeap
    rw [heap] at inHeap
    rcases eq_or_ne address s.next with rfl | differ
    · exact ⟨client, _, (congrFun creates.clients client).trans (Function.update_self ..), by simp⟩
    · rw [Function.update_of_ne differ] at inHeap
      obtain ⟨other, old, known, member⟩ := kept.owned address channel inHeap
      exact ⟨other, creates.keeps_owner here known member⟩
  · intro address channel inHeap
    rw [heap] at inHeap
    rw [creates.next]
    rcases eq_or_ne address s.next with rfl | differ
    · exact Nat.lt_succ_self _
    · rw [Function.update_of_ne differ] at inHeap
      exact Nat.lt_succ_of_lt (kept.below address channel inHeap)
  · intro first second channels' channels'' address entry entry' member member'
    rcases creates.addresses here entry member with ⟨new, own⟩ | ⟨old, known, inOld⟩ <;>
      rcases creates.addresses here entry' member' with ⟨new', own'⟩ | ⟨old', known', inOld'⟩
    · exact own.trans own'.symm
    · exact absurd new (Nat.ne_of_lt (kept.registered_lt known' inOld'))
    · exact absurd new' (Nat.ne_of_lt (kept.registered_lt known inOld))
    · exact kept.once first second old old' address known known' inOld inOld'
  · intro other channels' entry
    obtain ⟨old, known, ⟨rfl, _⟩ | ⟨rfl, _⟩⟩ := creates.listed here entry
    · exact kept.nodup other channels' known
    · rw [List.map_append, List.map_singleton, ← List.concat_eq_append]
      refine (kept.nodup other old known).concat fun member => ?_
      exact Nat.lt_irrefl s.next (kept.registered_lt known member)

theorem Kept.step (kept : Kept s) (step : MetStep s event t) : Kept t := by
  obtain ⟨⟨_, rfl⟩, meets⟩ := step
  cases event with
  | connect client => exact kept.connect client
  | disconnect client => exact kept.disconnect client
  | create client calls =>
    change Kept (s.create_channel_server client calls).1
    cases here : s.m_vpn_client_map client with
    | none => rwa [create_absent here]
    | some channels =>
      rcases meets with absent | all
      · exact nomatch here.symm.trans absent
      · exact kept.create all here

/-- In every state a failed creation has to leave things as they were, which it does exactly for a client that is not
connected; and in every run in which the other creations succeed, threads are joined only if they were created, and no
server is left running without an owner. -/
theorem create_channel_server_restores {events : List Event} (run : Run MetStep initial events s) :
    s.Sound ∧ ∀ (u : VpnServer) (client : ℕ) (calls : InitCalls), u.Restores client calls ↔
    u.Meets (.create client calls) := by
  have kept : Kept s := run.invariant Kept (fun _ _ _ kept step => kept.step step) kept_initial
  exact ⟨kept.sound, restores_iff⟩

/-- A client connects, gets a channel and leaves. -/
theorem create_channel_server_restores_one :
    (((initial.add_client 7).create_channel_server 7 ⟨true, true, true, true⟩).1.del_client
      7).Sound := by
  have run : Run MetStep initial [.connect 7, .create 7 ⟨true, true, true, true⟩, .disconnect 7] _ :=
    .cons ⟨⟨rfl, rfl⟩, trivial⟩ (.cons ⟨⟨rfl, rfl⟩, .inr rfl⟩ (.cons ⟨⟨rfl, rfl⟩, trivial⟩ .start))
  exact (create_channel_server_restores run).1

/-- The port of the out server is in use: the client's channel stays, and the program ends when the client leaves. -/
theorem create_channel_server_keeps_channel :
    ¬ (initial.add_client 7).Restores 7 ⟨false, true, true, true⟩ ∧
    (((initial.add_client 7).create_channel_server 7 ⟨false, true, true, true⟩).1.del_client
      7).terminated = true := by
  refine ⟨fun restores => ?_, rfl⟩
  have meets := (restores_iff ..).mp restores
  exact absurd meets (by decide)

end Runs

end VpnServer

end LinuxZero.Svpn
