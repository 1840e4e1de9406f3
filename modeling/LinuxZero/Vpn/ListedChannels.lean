import LinuxZero.Vpn.ListenerFrame

/-! # What holds while the threads run

A channel is listed when the record of its client has it: only then can `send_create_channel_msg` find
it. The invariants say which client records and listeners there are, which connection belongs to which
listener, and that every channel is listed apart from the one that the console thread is making.
-/

namespace LinuxZero.Vpn

/-! What no piece of the program takes back. -/

/-- What an earlier state says about the listeners and the clients that it has. -/
structure Persists (b d : BusinessServer) : Prop where
  clients : b.clients.next ≤ d.clients.next
  servers : b.data.servers.next ≤ d.data.servers.next
  clientLive : ∀ c < b.clients.next, d.clients.live c = true → b.clients.live c = true
  serverLive : ∀ w < b.data.servers.next, d.data.servers.live w = true → b.data.servers.live w = true
  client : ∀ c < b.clients.next,
    (d.client c).clinetId = (b.client c).clinetId ∧ (d.client c).info = (b.client c).info
  channel : ∀ c < b.clients.next, ∀ (n : ℤ) channelInfo,
    (b.client c).channelMap[n]? = some channelInfo → (d.client c).channelMap[n]? = some channelInfo
  fd : ∀ p < b.sockets.next, (d.socket p).fd = (b.socket p).fd
  server : ∀ w < b.data.servers.next, (d.data.server w).type = (b.data.server w).type ∧
    (d.data.server w).clientId = (b.data.server w).clientId ∧
    (d.data.server w).channelId = (b.data.server w).channelId ∧
    (d.data.server w).removte = (b.data.server w).removte

/-- Moreover there is no new listener, no new connection on one, and no new message. -/
structure Quiet (b d : BusinessServer) : Prop extends Persists b d where
  next : d.data.servers.next = b.data.servers.next
  accepted : d.data.trace.accepted = b.data.trace.accepted
  sockets : d.data.sockets.next = b.data.sockets.next
  messages : d.messages = b.messages

variable {b d : BusinessServer} {data : DataChannelServer}

/-- Only the data channel server changes. -/
theorem persists_data (next : b.data.servers.next ≤ data.servers.next)
    (live : ∀ w < b.data.servers.next, data.servers.live w = true → b.data.servers.live w = true)
    (server : ∀ w < b.data.servers.next, (data.server w).type = (b.data.server w).type ∧
      (data.server w).clientId = (b.data.server w).clientId ∧
      (data.server w).channelId = (b.data.server w).channelId ∧
      (data.server w).removte = (b.data.server w).removte) : Persists b { b with data := data } :=
  ⟨le_rfl, next, fun _ _ => id, live, fun _ _ => ⟨rfl, rfl⟩, fun _ _ _ _ => id, fun _ _ => rfl, server⟩

theorem quiet_data (keeps : b.data.Keeps data) : Quiet b { b with data := data } where
  toPersists := persists_data keeps.next.ge (fun w _ => keeps.live w)
    fun w _ => ⟨keeps.type w, keeps.clientId w, keeps.channelId w, keeps.removte w⟩
  next := keeps.next
  accepted := keeps.accepted
  sockets := keeps.sockets
  messages := rfl

theorem quiet_joined (fd : ℤ) (available : b.data.kernel.Available fd) :
    Quiet b (b.joined fd available) where
  clients := Nat.le_succ _
  servers := le_rfl
  clientLive c below alive := by
    have isNew : Function.update b.clients.live b.clients.next true c = true := alive
    rwa [Function.update_of_ne below.ne] at isNew
  serverLive _ _ alive := alive
  client c below := by
    have old : (b.joined fd available).client c = b.client c := Function.update_of_ne below.ne ..
    rw [old]
    exact ⟨rfl, rfl⟩
  channel c below n channelInfo found := by
    have old : (b.joined fd available).client c = b.client c := Function.update_of_ne below.ne ..
    rwa [old]
  fd p below := by rw [(b.socket_joined available).2 p below.ne]
  server _ _ := ⟨rfl, rfl, rfl, rfl⟩
  next := rfl
  accepted := rfl
  sockets := rfl
  messages := rfl

theorem quiet_connect (b : BusinessServer) (fd : ℤ) : Quiet b (b.connect fd) := by
  rcases b.connect_cases fd with same | ⟨available, same⟩
  · rw [same]
    exact quiet_data (.refl _)
  · rw [same, BusinessServer.insertClient]
    split
    · exact { quiet_joined fd available with }
    · exact quiet_joined fd available

theorem BusinessServer.Departs.quiet {p : ℕ} (departs : Departs b p d) : Quiet b d where
  clients := departs.clientsNext.ge
  servers := departs.keeps.next.ge
  clientLive c _ alive := ((departs.live c).mp alive).1
  serverLive w _ := departs.keeps.live w
  client c _ := by
    have same : d.client c = b.client c := congrFun departs.content c
    rw [same]
    exact ⟨rfl, rfl⟩
  channel c _ n channelInfo found := by
    have same : d.client c = b.client c := congrFun departs.content c
    rwa [same]
  fd q _ := (departs.sockets q).1
  server w _ :=
    ⟨departs.keeps.type w, departs.keeps.clientId w, departs.keeps.channelId w, departs.keeps.removte w⟩
  next := departs.keeps.next
  accepted := departs.keeps.accepted
  sockets := departs.keeps.sockets
  messages := departs.messages

theorem client_enterChannel (b : BusinessServer) (c : ℕ) (channelInfo : VpnChannelInfo) :
    (b.enterChannel c channelInfo).client c = { b.client c with
      channelMap := (b.client c).channelMap.insertIfNew channelInfo.channelId channelInfo } ∧
    ∀ c', c' ≠ c → (b.enterChannel c channelInfo).client c' = b.client c' :=
  ⟨Function.update_self .., fun _ apart => Function.update_of_ne apart ..⟩

/-- `std::map::insert` keeps the entries that are there. -/
theorem quiet_enterChannel (b : BusinessServer) (c : ℕ) (channelInfo : VpnChannelInfo) :
    Quiet b (b.enterChannel c channelInfo) := by
  obtain ⟨own, other⟩ := client_enterChannel b c channelInfo
  refine { quiet_data (.refl b.data) with
    client := fun c' _ => ?_, channel := fun c' _ n found isEntry => ?_ }
  · rcases eq_or_ne c' c with rfl | apart
    · rw [own]
      exact ⟨rfl, rfl⟩
    · rw [other c' apart]
      exact ⟨rfl, rfl⟩
  · rcases eq_or_ne c' c with rfl | apart
    · rw [own, Std.TreeMap.getElem?_insertIfNew, if_neg, isEntry]
      rintro ⟨same, missing⟩
      obtain rfl := Std.compare_eq_iff_eq.mp same
      exact missing (Std.TreeMap.mem_iff_isSome_getElem?.mpr (by rw [isEntry]; rfl))
    · rwa [other c' apart]

/-! The clients of the business server. -/

/-- A client record that is alive is the entry under its number, and the registered connections point
at such records. -/
structure Clients (b : BusinessServer) : Prop where
  records : ∀ clientId c, b.clinetMap clientId = some c →
    b.clients.live c = true ∧ (b.client c).clinetId = clientId
  found : ∀ c, b.clients.live c = true → b.clinetMap (b.client c).clinetId = some c
  info : ∀ c, b.clients.live c = true → (b.client c).info < b.sockets.next
  served : ∀ fd interest p, b.data.kernel.epoll b.epfd fd = some ⟨interest, .client p⟩ →
    (b.socket p).fd = fd ∧ p < b.sockets.next ∧
      ∃ c, (b.socket p).data.ptr = some c ∧ b.clients.live c = true ∧
        (b.client c).clinetId = clientIdOf (b.socket p).shFd ∧ (b.client c).info = p

theorem BusinessServer.Started.clients (started : Started b) : Clients b := by
  refine ⟨fun clientId c present => ?_, fun c alive => ?_, fun c alive => ?_,
    fun fd interest p present => ?_⟩
  · rw [started.state] at present
    exact nomatch present
  · rw [started.state] at alive
    exact nomatch alive
  · rw [started.state] at alive
    exact nomatch alive
  · rw [started.empty] at present
    exact nomatch present

theorem Clients.withData (clients : Clients b) (registrations : ∀ fd interest p,
    data.kernel.epoll b.epfd fd = some ⟨interest, .client p⟩ →
      b.data.kernel.epoll b.epfd fd = some ⟨interest, .client p⟩) : Clients { b with data := data } where
  records := clients.records
  found := clients.found
  info := clients.info
  served fd interest p present := clients.served fd interest p (registrations fd interest p present)

theorem Clients.keeps (clients : Clients b) (keeps : b.data.Keeps data) :
    Clients { b with data := data } := by
  refine clients.withData fun fd interest p present => ?_
  rcases keeps.registrations _ fd _ present with before | ⟨_, other⟩ | ⟨_, other, _⟩
  · exact before
  · exact nomatch other
  · exact nomatch other

theorem Clients.enterChannel (clients : Clients b) (c : ℕ) (channelInfo : VpnChannelInfo) :
    Clients (b.enterChannel c channelInfo) := by
  obtain ⟨own, other⟩ := client_enterChannel b c channelInfo
  have kept : ∀ c', ((b.enterChannel c channelInfo).client c').clinetId = (b.client c').clinetId ∧
      ((b.enterChannel c channelInfo).client c').info = (b.client c').info := by
    intro c'
    rcases eq_or_ne c' c with rfl | apart
    · rw [own]
      exact ⟨rfl, rfl⟩
    · rw [other c' apart]
      exact ⟨rfl, rfl⟩
  refine ⟨fun clientId c' present => ?_, fun c' alive => ?_, fun c' alive => ?_,
    fun fd interest p present => ?_⟩
  · rw [(kept c').1]
    exact clients.records clientId c' present
  · rw [(kept c').1]
    exact clients.found c' alive
  · rw [(kept c').2]
    exact clients.info c' alive
  · obtain ⟨isFd, below, c', ptr, alive, isId, isInfo⟩ := clients.served fd interest p present
    exact ⟨isFd, below, c', ptr, alive, (kept c').1.trans isId, (kept c').2.trans isInfo⟩

/-- A client that gets a number which is not in use. -/
theorem Clients.connect (clients : Clients b) {fd : ℤ}
    (unused : b.data.kernel.Available fd → b.clinetMap (clientIdOf b.data.idx) = none) :
    Clients (b.connect fd) := by
  rcases b.connect_cases fd with same | ⟨available, same⟩
  · rw [same]
    exact clients
  have absent := unused available
  have inserted : (b.joined fd available).insertClient (clientIdOf b.data.idx) b.clients.next =
      { b.joined fd available with
        clinetMap := Function.update b.clinetMap (clientIdOf b.data.idx) (some b.clients.next) } := by
    rw [BusinessServer.insertClient]
    simp only [BusinessServer.joined, absent]
  rw [same, inserted]
  obtain ⟨own, other⟩ := b.socket_joined available
  have newClient : (b.joined fd available).clients.content b.clients.next =
      { clinetId := clientIdOf b.data.idx, info := b.sockets.next } := Function.update_self ..
  have oldClient : ∀ c, c ≠ b.clients.next → (b.joined fd available).clients.content c = b.client c :=
    fun c apart => Function.update_of_ne apart ..
  have newLive : (b.joined fd available).clients.live b.clients.next = true := Function.update_self ..
  have oldLive : ∀ c, c ≠ b.clients.next → (b.joined fd available).clients.live c = b.clients.live c :=
    fun c apart => Function.update_of_ne apart ..
  refine ⟨fun clientId c present => ?_, fun c alive => ?_, fun c alive => ?_,
    fun fd' interest p present => ?_⟩
  · dsimp only [BusinessServer.client] at present ⊢
    rcases eq_or_ne clientId (clientIdOf b.data.idx) with rfl | apart
    · rw [Function.update_self] at present
      obtain rfl := Option.some.inj present
      exact ⟨newLive, by rw [newClient]⟩
    · rw [Function.update_of_ne apart] at present
      obtain ⟨alive, isId⟩ := clients.records clientId c present
      have older := Heap.ne_next alive
      rw [oldLive c older, oldClient c older]
      exact ⟨alive, isId⟩
  · dsimp only [BusinessServer.client] at alive ⊢
    rcases eq_or_ne c b.clients.next with rfl | older
    · rw [newClient]
      exact Function.update_self ..
    · rw [oldLive c older] at alive
      have present := clients.found c alive
      rw [oldClient c older, Function.update_of_ne, present]
      intro same
      rw [same, absent] at present
      contradiction
  · dsimp only [BusinessServer.client] at alive ⊢
    rcases eq_or_ne c b.clients.next with rfl | older
    · rw [newClient]
      exact Nat.lt_succ_self _
    · rw [oldLive c older] at alive
      rw [oldClient c older]
      exact Nat.lt_succ_of_lt (clients.info c alive)
  · rcases Kernel.epollAdd_some present with ⟨_, rfl, isEvent, _⟩ | before
    · obtain rfl : p = b.sockets.next := by injection isEvent with _ isPtr; injection isPtr
      dsimp only [BusinessServer.client] at own ⊢
      rw [own]
      exact ⟨rfl, Nat.lt_succ_self _, b.clients.next, rfl, newLive, by rw [newClient], by rw [newClient]⟩
    · obtain ⟨isFd, below, c, ptr, alive, isId, isInfo⟩ := clients.served fd' interest p before
      have older := Heap.ne_next alive
      have old := other p below.ne
      dsimp only [BusinessServer.client, BusinessServer.socket] at old ⊢
      rw [old]
      exact ⟨isFd, Nat.lt_succ_of_lt below, c, ptr, by rwa [oldLive c older], by rwa [oldClient c older],
        by rwa [oldClient c older]⟩

/-- The record of a client that leaves was the entry under its number. -/
theorem Clients.disconnect (clients : Clients b) {p : ℕ} {fd : ℤ} {interest : Interest}
    (present : b.data.kernel.epoll b.epfd fd = some ⟨interest, .client p⟩) :
    Clients (b.disconnect p) := by
  have departs := b.disconnect_departs p
  obtain ⟨rfl, _, own, ptr, alive, isId, isInfo⟩ := clients.served _ _ _ present
  have client : ∀ c, (b.disconnect p).client c = b.client c := fun c => congrFun departs.content c
  refine ⟨fun clientId c isEntry => ?_, fun c stays => ?_, fun c stays => ?_,
    fun fd' interest' q isEntry => ?_⟩
  · rw [departs.clinetMap] at isEntry
    rcases eq_or_ne clientId (clientIdOf (b.socket p).shFd) with rfl | apart
    · rw [Function.update_self] at isEntry
      exact nomatch isEntry
    · rw [Function.update_of_ne apart] at isEntry
      obtain ⟨alive', isId'⟩ := clients.records clientId c isEntry
      rw [client c, departs.live, ptr]
      refine ⟨⟨alive', ?_⟩, isId'⟩
      rintro ⟨rfl⟩
      exact apart (isId'.symm.trans isId)
  · obtain ⟨alive', apart⟩ := (departs.live c).mp stays
    have isEntry := clients.found c alive'
    rw [client c, departs.clinetMap, Function.update_of_ne, isEntry]
    intro same
    have ownEntry := clients.found own alive
    rw [isId, ← same, isEntry] at ownEntry
    exact apart (ptr.trans ownEntry.symm)
  · obtain ⟨alive', _⟩ := (departs.live c).mp stays
    rw [client c, departs.socketsNext]
    exact clients.info c alive'
  · rw [departs.epfd] at isEntry
    have before : b.data.kernel.epoll b.epfd fd' = some ⟨interest', .client q⟩ := by
      rcases departs.keeps.registrations _ fd' _ isEntry with before | ⟨_, other⟩ | ⟨_, other, _⟩
      · exact before
      · exact nomatch other
      · exact nomatch other
    obtain ⟨isFd, below, c, ptr', alive', isId', isInfo'⟩ := clients.served fd' interest' q before
    have apart : q ≠ p := by
      rintro rfl
      rw [departs.kernel, Kernel.epoll_epollDel, if_pos ⟨rfl, isFd.symm⟩] at isEntry
      exact nomatch isEntry
    rw [departs.socketsNext, departs.ptr q apart, (departs.sockets q).1, (departs.sockets q).2]
    refine ⟨isFd, below, c, ptr', (departs.live c).mpr ⟨alive', ?_⟩, by rwa [client c], by rwa [client c]⟩
    rw [ptr]
    rintro ⟨rfl⟩
    exact apart (isInfo'.symm.trans isInfo)

/-! The connections accepted on the listeners. -/

/-- Every accepted connection is one of a single listener. -/
structure Connections (s : DataChannelServer) : Prop where
  registered : ∀ fd interest w, s.kernel.epoll s.acceptEpfd fd = some ⟨interest, .server w⟩ →
    w < s.servers.next
  untouched : ∀ w, s.servers.next ≤ w → s.trace.accepted w = []
  bounded : ∀ w, ∀ p ∈ s.trace.accepted w, p < s.sockets.next
  one : ∀ w v p, p ∈ s.trace.accepted w → p ∈ s.trace.accepted v → w = v

variable {s t : DataChannelServer}

theorem Connections.below (connections : Connections s) {w p : ℕ} (member : p ∈ s.trace.accepted w) :
    w < s.servers.next := by
  by_contra beyond
  rw [connections.untouched w (by omega)] at member
  exact nomatch member

theorem DataChannelServer.Started.connections (started : s.Started) : Connections s := by
  have nothing : ∀ w, s.trace.accepted w = [] := by
    intro w
    rw [started.state]
    rfl
  refine ⟨fun fd interest w present => ?_, fun w _ => nothing w, fun w p member => ?_,
    fun w v p member => ?_⟩
  · rw [started.acceptEmpty] at present
    exact nomatch present
  · rw [nothing w] at member
    exact nomatch member
  · rw [nothing w] at member
    exact nomatch member

theorem Connections.keeps (connections : Connections s) (keeps : s.Keeps t) : Connections t where
  registered fd interest w present := by
    rw [keeps.acceptEpfd] at present
    rw [keeps.next]
    rcases keeps.registrations _ fd _ present with before | ⟨_, other⟩ | ⟨v, same, below⟩
    · exact connections.registered fd interest w before
    · exact nomatch other
    · injection same with same
      rwa [same]
  untouched w beyond := by
    rw [keeps.next] at beyond
    rw [keeps.accepted]
    exact connections.untouched w beyond
  bounded w p member := by
    rw [keeps.accepted] at member
    rw [keeps.sockets]
    exact connections.bounded w p member
  one w v p member member' := by
    rw [keeps.accepted] at member member'
    exact connections.one w v p member member'

theorem Connections.binds (connections : Connections s) {channelInfo : VpnChannelInfo}
    (binds : s.Binds channelInfo t) : Connections t where
  registered fd interest w present := by
    rw [binds.epoll, binds.acceptEpfd] at present
    rw [binds.next]
    exact Nat.lt_add_right 2 (connections.registered fd interest w present)
  untouched w beyond := by
    rw [binds.next] at beyond
    rw [binds.accepted]
    exact connections.untouched w (by omega)
  bounded w p member := by
    rw [binds.accepted] at member
    rw [binds.sockets]
    exact connections.bounded w p member
  one w v p member member' := by
    rw [binds.accepted] at member member'
    exact connections.one w v p member member'

theorem DataChannelServer.Arrives.mem_iff {w : ℕ} (arrives : s.Arrives w t) (v p : ℕ) :
    p ∈ t.trace.accepted v ↔ p ∈ s.trace.accepted v ∨ v = w ∧ p = s.sockets.next := by
  rw [arrives.accepted]
  rcases eq_or_ne v w with rfl | apart
  · simp
  · simp [apart]

/-- A connection is accepted on a listener that there is. -/
theorem Connections.arrives (connections : Connections s) {w : ℕ} (arrives : s.Arrives w t)
    (known : w < s.servers.next) : Connections t where
  registered fd interest v present := by
    rw [arrives.epoll, arrives.acceptEpfd] at present
    rw [arrives.next]
    exact connections.registered fd interest v present
  untouched v beyond := by
    rw [arrives.next] at beyond
    rw [arrives.accepted, Function.update_of_ne (by omega)]
    exact connections.untouched v beyond
  bounded v p member := by
    rw [arrives.sockets]
    rcases (arrives.mem_iff v p).mp member with before | ⟨_, rfl⟩
    · exact Nat.lt_succ_of_lt (connections.bounded v p before)
    · exact Nat.lt_succ_self _
  one v u p member member' := by
    rcases (arrives.mem_iff v p).mp member with before | ⟨rfl, rfl⟩
    · rcases (arrives.mem_iff u p).mp member' with before' | ⟨_, rfl⟩
      · exact connections.one v u p before before'
      · exact absurd (connections.bounded v _ before) (Nat.lt_irrefl _)
    · rcases (arrives.mem_iff u _).mp member' with before' | ⟨rfl, _⟩
      · exact absurd (connections.bounded u _ before') (Nat.lt_irrefl _)
      · rfl

theorem Connections.connect (connections : Connections b.data)
    (fd : ℤ) : Connections (b.connect fd).data := by
  rcases b.connect_cases fd with same | ⟨available, same⟩
  · rw [same]
    exact connections
  · have unchanged : ((b.joined fd available).insertClient (clientIdOf b.data.idx) b.clients.next).data =
        (b.joined fd available).data := by
      rw [BusinessServer.insertClient]
      split <;> rfl
    rw [same, unchanged]
    refine { connections with registered := fun fd' interest w present => ?_ }
    rcases Kernel.epollAdd_some present with ⟨_, _, isEvent, _⟩ | before
    · injection isEvent with _ other
      cases other
    · exact connections.registered fd' interest w before

/-! The messages and what caused them. -/

structure Caused (b : BusinessServer) (acceptor : Acceptor) (informed : List (ℕ × SentMsg)) : Prop where
  messages : b.messages = informed.map Prod.snd
  bounded : ∀ cause ∈ informed, cause.1 < b.data.sockets.next
  pending : ∀ w p, acceptor = .accepted w p →
    p ∈ b.data.trace.accepted w ∧ ∀ cause ∈ informed, cause.1 ≠ p

variable {console : Console} {acceptor : Acceptor} {madeFor : ℕ → ℕ} {informed : List (ℕ × SentMsg)}

theorem Caused.quiet (caused : Caused b acceptor informed) (quiet : Quiet b d) :
    Caused d acceptor informed where
  messages := quiet.messages.trans caused.messages
  bounded := by
    rw [quiet.sockets]
    exact caused.bounded
  pending := by
    rw [quiet.accepted]
    exact caused.pending

/-! The channels that the console thread has made, and the one that it is making. -/

/-- The channel of the listener `w` is in the record of the client `c`. -/
structure Listed (b : BusinessServer) (w c : ℕ) : Prop where
  clientId : (b.data.server w).clientId = (b.client c).clinetId
  channel : ∃ channelInfo, (b.client c).channelMap[(b.data.server w).channelId]? = some channelInfo

/-- The console thread has not yet finished with the channel of the out side `w`. -/
def Creates (b : BusinessServer) (console : Console) (w : ℕ) : Prop :=
  ∃ creation, console.creation = some creation ∧ w = (b.data.server creation.w).removte

def IsClients (b : BusinessServer) (c : ℕ) (channelInfo : VpnChannelInfo) : Prop :=
  c < b.clients.next ∧ channelInfo.clientId = (b.client c).clinetId

/-- The out side of a creation, which has its numbers already. -/
structure Bound (b : BusinessServer) (madeFor : ℕ → ℕ) (creation : Creation) : Prop where
  client : IsClients b creation.client creation.channelInfo
  below : creation.w < b.data.servers.next
  outBelow : (b.data.server creation.w).removte < b.data.servers.next
  clientId : (b.data.server (b.data.server creation.w).removte).clientId = creation.channelInfo.clientId
  channelId : (b.data.server (b.data.server creation.w).removte).channelId =
    creation.channelInfo.channelId
  madeFor : madeFor (b.data.server creation.w).removte = creation.client

structure Channels (b : BusinessServer) (console : Console) (madeFor : ℕ → ℕ) : Prop where
  made : ∀ w < b.data.servers.next, madeFor w < b.clients.next
  chosen : ∀ c channelInfo calls, console = .chosen c channelInfo calls → IsClients b c channelInfo
  bound : ∀ creation, console.creation = some creation → Bound b madeFor creation
  listed : ∀ w, b.data.servers.live w = true → (b.data.server w).type = 1 →
    b.clients.live (madeFor w) = true → ¬ Creates b console w → Listed b w (madeFor w)

theorem IsClients.persists {c : ℕ} {channelInfo : VpnChannelInfo} (isClients : IsClients b c channelInfo)
    (persists : Persists b d) : IsClients d c channelInfo :=
  ⟨isClients.1.trans_le persists.clients, isClients.2.trans (persists.client c isClients.1).1.symm⟩

theorem Listed.persists {w c : ℕ} (listed : Listed b w c) (persists : Persists b d)
    (below : w < b.data.servers.next) (clientBelow : c < b.clients.next) : Listed d w c := by
  obtain ⟨_, clientId, channelId, _⟩ := persists.server w below
  obtain ⟨channelInfo, isEntry⟩ := listed.channel
  refine ⟨?_, channelInfo, ?_⟩
  · rw [clientId, (persists.client c clientBelow).1, listed.clientId]
  · rw [channelId]
    exact persists.channel c clientBelow _ channelInfo isEntry

theorem Bound.persists {creation : Creation} (bound : Bound b madeFor creation)
    (persists : Persists b d) :
    Bound d madeFor creation := by
  obtain ⟨_, _, _, removte⟩ := persists.server _ bound.below
  obtain ⟨_, clientId, channelId, _⟩ := persists.server _ bound.outBelow
  refine ⟨bound.client.persists persists, bound.below.trans_le persists.servers, ?_, ?_, ?_, ?_⟩ <;>
    rw [removte]
  · exact bound.outBelow.trans_le persists.servers
  · rw [clientId]
    exact bound.clientId
  · rw [channelId]
    exact bound.channelId
  · exact bound.madeFor

theorem Channels.creates_iff (channels : Channels b console madeFor) (persists : Persists b d) (w : ℕ) :
    Creates d console w ↔ Creates b console w := by
  have same : ∀ creation, console.creation = some creation →
      (d.data.server creation.w).removte = (b.data.server creation.w).removte :=
    fun creation isCreation => (persists.server _ (channels.bound creation isCreation).below).2.2.2
  constructor
  · rintro ⟨creation, isCreation, rfl⟩
    exact ⟨creation, isCreation, same creation isCreation⟩
  · rintro ⟨creation, isCreation, rfl⟩
    exact ⟨creation, isCreation, (same creation isCreation).symm⟩

theorem Channels.persists (channels : Channels b console madeFor) (persists : Persists b d)
    (next : d.data.servers.next = b.data.servers.next) : Channels d console madeFor where
  made w below := by
    rw [next] at below
    exact (channels.made w below).trans_le persists.clients
  chosen c channelInfo calls isChosen := (channels.chosen c channelInfo calls isChosen).persists persists
  bound creation isCreation := (channels.bound creation isCreation).persists persists
  listed w live isOut clientLive finished := by
    have below : w < b.data.servers.next := next ▸ Heap.lt_next live
    have clientBelow := channels.made w below
    rw [(persists.server w below).1] at isOut
    rw [channels.creates_iff persists] at finished
    exact (channels.listed w (persists.serverLive w below live) isOut
      (persists.clientLive _ clientBelow clientLive)
      finished).persists persists below clientBelow

/-- The next piece of the same creation. -/
theorem Channels.advance {console' : Console} (channels : Channels b console madeFor)
    (same : console'.creation = console.creation)
    (chosen : ∀ c channelInfo calls, console' ≠ .chosen c channelInfo calls) :
    Channels b console' madeFor where
  made := channels.made
  chosen c channelInfo calls isChosen := absurd isChosen (chosen c channelInfo calls)
  bound := by
    rw [same]
    exact channels.bound
  listed := by
    rw [show Creates b console' = Creates b console by funext w; simp only [Creates, same]]
    exact channels.listed

/-- The end of a creation, with its out side deleted or its channel in the record of the client. -/
theorem Channels.finish {creation : Creation} (channels : Channels b console madeFor)
    (isCreation : console.creation = some creation)
    (ends : b.data.servers.live (b.data.server creation.w).removte = true →
      Listed b (b.data.server creation.w).removte creation.client) : Channels b .idle madeFor where
  made := channels.made
  chosen _ _ _ impossible := nomatch impossible
  bound _ impossible := nomatch impossible
  listed w live isOut clientLive _ := by
    by_cases own : w = (b.data.server creation.w).removte
    · rw [own, (channels.bound creation isCreation).madeFor]
      exact ends (own ▸ live)
    · refine channels.listed w live isOut clientLive ?_
      rintro ⟨other, isOther, same⟩
      obtain rfl := Option.some.inj (isCreation.symm.trans isOther)
      exact own same

theorem persists_binds {channelInfo : VpnChannelInfo} (binds : b.data.Binds channelInfo data) :
    Persists b { b with data := data } := by
  refine persists_data ?_ (fun w below live => ?_) fun w below => ?_
  · rw [binds.next]
    exact Nat.le_add_right _ 2
  · rwa [← (binds.old w below).2]
  · rw [(binds.old w below).1]
    exact ⟨rfl, rfl, rfl, rfl⟩

/-- A creation that has bound its sockets. -/
theorem Channels.binds {c : ℕ} {channelInfo : VpnChannelInfo} {calls : ChannelCalls}
    (channels : Channels b (.chosen c channelInfo calls) madeFor)
    (binds : b.data.Binds channelInfo data) :
    Channels { b with data := data } (.bound ⟨c, channelInfo, calls, b.data.servers.next + 1⟩)
      (Function.update (Function.update madeFor (b.data.servers.next + 1) c)
        (data.server (b.data.servers.next + 1)).removte c) := by
  have persists := persists_binds binds
  have isClients := channels.chosen c channelInfo calls rfl
  obtain ⟨_, out⟩ := binds.out
  obtain ⟨_, in_⟩ := binds.in_
  have removte : (data.server (b.data.servers.next + 1)).removte = b.data.servers.next := by rw [in_]; rfl
  rw [removte]
  have made : ∀ w < b.data.servers.next, Function.update
    (Function.update madeFor (b.data.servers.next + 1) c)
      b.data.servers.next c w = madeFor w := by
    intro w below
    rw [Function.update_of_ne below.ne, Function.update_of_ne (by omega)]
  refine ⟨fun w below => ?_, fun _ _ _ impossible => (nomatch impossible), fun creation isCreation => ?_,
    fun w live isOut clientLive finished => ?_⟩
  · dsimp only at below ⊢
    rcases Nat.lt_or_ge w b.data.servers.next with old | new
    · rw [made w old]
      exact channels.made w old
    · rw [binds.next] at below
      obtain rfl | rfl : w = b.data.servers.next ∨ w = b.data.servers.next + 1 := by omega
      · rw [Function.update_self]
        exact isClients.1
      · rw [Function.update_of_ne (by omega), Function.update_self]
        exact isClients.1
  · obtain rfl := Option.some.inj isCreation
    refine ⟨isClients.persists persists, ?_, ?_, ?_, ?_, ?_⟩ <;> dsimp only <;> try rw [removte]
    · rw [binds.next]
      omega
    · rw [binds.next]
      omega
    · rw [out]
      rfl
    · rw [out]
      rfl
    · exact Function.update_self ..
  · rcases Nat.lt_or_ge w b.data.servers.next with old | new
    · rw [made w old] at clientLive ⊢
      rw [(persists.server w old).1] at isOut
      refine (channels.listed w (persists.serverLive w old live) isOut clientLive ?_).persists
        persists old
        (channels.made w old)
      rintro ⟨_, impossible, _⟩
      exact nomatch impossible
    · have below := Heap.lt_next live
      rw [binds.next] at below
      obtain rfl | rfl : w = b.data.servers.next ∨ w = b.data.servers.next + 1 := by omega
      · exact absurd ⟨_, rfl, removte.symm⟩ finished
      · dsimp only at isOut
        rw [in_] at isOut
        exact nomatch (show (0 : ℤ) = 1 from isOut)

end LinuxZero.Vpn
