import LinuxZero.Vpn.ListedChannels

/-! # The message for an accepted connection

`send_create_channel_msg` finds the channel of an accepted connection in the record of the client. The
listeners of a channel are live before the channel is entered there, and a connection accepted in
between is announced to nobody. If the accept thread never gets to its message in that window, every
connection of the out side causes exactly one message to its client.
-/

namespace LinuxZero.Vpn

/-- The connection `p` of the listener `w` has caused one message, to the client `c`. -/
structure InformedOnce (b : BusinessServer) (informed : List (ℕ × SentMsg)) (c w p : ℕ) : Prop where
  clientId : (b.data.server w).clientId = (b.client c).clinetId
  message : ∃ channelInfo, (b.client c).channelMap[(b.data.server w).channelId]? = some channelInfo ∧
    (informed.filter fun cause => cause.1 = p) =
      [(p, ⟨(b.socket (b.client c).info).fd, BusinessServer.msgTcpChannel channelInfo⟩)]

/-- Every connection on the out side of a channel has, apart from the one that the accept thread is
about to announce, while the client is connected. -/
def AllInformed (b : BusinessServer) (acceptor : Acceptor) (madeFor : ℕ → ℕ)
    (informed : List (ℕ × SentMsg)) : Prop :=
  ∀ w, b.data.servers.live w = true → (b.data.server w).type = 1 → b.clients.live (madeFor w) = true →
    ∀ p ∈ b.data.trace.accepted w, acceptor ≠ .accepted w p → InformedOnce b informed (madeFor w) w p

/-- The invariant of the runs in which no message is sent for a channel that is not yet listed. -/
structure Announcing (t : Threads) : Prop where
  clients : Clients t.server
  connections : Connections t.server.data
  caused : Caused t.server t.acceptor t.informed
  channels : Channels t.server t.console t.madeFor
  informs : AllInformed t.server t.acceptor t.madeFor t.informed

variable {b d : BusinessServer} {data : DataChannelServer} {t u : Threads} {acceptor : Acceptor}
  {console : Console} {madeFor : ℕ → ℕ} {informed : List (ℕ × SentMsg)}

theorem InformedOnce.persists {c w p : ℕ} (once : InformedOnce b informed c w p) (persists : Persists b d)
    (below : w < b.data.servers.next) (clientBelow : c < b.clients.next)
    (infoBelow : (b.client c).info < b.sockets.next) : InformedOnce d informed c w p := by
  obtain ⟨_, clientId, channelId, _⟩ := persists.server w below
  obtain ⟨isId, isInfo⟩ := persists.client c clientBelow
  obtain ⟨channelInfo, isEntry, sent⟩ := once.message
  refine ⟨?_, channelInfo, ?_, ?_⟩
  · rw [clientId, isId, once.clientId]
  · rw [channelId]
    exact persists.channel c clientBelow _ channelInfo isEntry
  · rw [isInfo, persists.fd _ infoBelow, sent]

theorem AllInformed.persists (informs : AllInformed b acceptor madeFor informed) (persists : Persists b d)
    (clients : Clients b) (channels : Channels b console madeFor) {w p : ℕ}
    (below : w < b.data.servers.next) (live : d.data.servers.live w = true)
    (isOut : (d.data.server w).type = 1) (clientLive : d.clients.live (madeFor w) = true)
    (member : p ∈ b.data.trace.accepted w) (sent : acceptor ≠ .accepted w p) :
    InformedOnce d informed (madeFor w) w p := by
  have clientBelow := channels.made w below
  have clientLive' := persists.clientLive _ clientBelow clientLive
  rw [(persists.server w below).1] at isOut
  exact (informs w (persists.serverLive w below live) isOut clientLive' p member sent).persists
    persists below
    clientBelow (clients.info _ clientLive')

/-- A step that makes no listener, accepts nothing and sends nothing. -/
theorem Announcing.quiet (announcing : Announcing t) (quiet : Quiet t.server d) (clients : Clients d)
    (connections : Connections d.data) : Announcing { t with server := d } where
  clients := clients
  connections := connections
  caused := announcing.caused.quiet quiet
  channels := announcing.channels.persists quiet.toPersists quiet.next
  informs w live isOut clientLive p member sent := by
    dsimp only at member
    rw [quiet.accepted] at member
    exact announcing.informs.persists quiet.toPersists announcing.clients announcing.channels
      (announcing.connections.below member) live isOut clientLive member sent

theorem Announcing.keeps (announcing : Announcing t) (keeps : t.server.data.Keeps data) :
    Announcing (t.withData data) :=
  announcing.quiet (quiet_data keeps) (announcing.clients.keeps keeps)
    (announcing.connections.keeps keeps)

theorem Announcing.withConsole (announcing : Announcing t)
    (channels : Channels t.server console t.madeFor) :
    Announcing { t with console := console } :=
  { announcing with channels := channels }

/-! The steps of the thread that serves the clients. -/

theorem Announcing.connect (announcing : Announcing t) {fd : ℤ}
    (unused : t.server.data.kernel.Available fd →
    t.server.clinetMap (clientIdOf t.server.data.idx) = none) :
    Announcing { t with server := t.server.connect fd } :=
  announcing.quiet (quiet_connect t.server fd) (announcing.clients.connect unused)
    (announcing.connections.connect fd)

theorem Announcing.disconnect (announcing : Announcing t) {p : ℕ} {fd : ℤ} {interest : Interest}
    (present : t.server.data.kernel.epoll t.server.epfd fd = some ⟨interest, .client p⟩) :
    Announcing { t with server := t.server.disconnect p } := by
  have departs := t.server.disconnect_departs p
  exact announcing.quiet departs.quiet (announcing.clients.disconnect present)
    (announcing.connections.keeps departs.keeps)

/-! The steps of the console thread. -/

theorem Announcing.choose (announcing : Announcing t) (clientId : ℤ) (addresses : ChannelAddresses)
    (calls : ChannelCalls) : Announcing (t.choose clientId addresses calls) := by
  rw [Threads.choose]
  split
  · next c idle present =>
    obtain ⟨clientLive, isId⟩ := announcing.clients.records clientId c present
    refine announcing.withConsole ⟨announcing.channels.made, ?_, by rintro _ ⟨⟩, ?_⟩
    · rintro _ _ _ ⟨rfl, rfl, rfl⟩
      exact ⟨Heap.lt_next clientLive, isId.symm⟩
    · intro w live isOut clientLive finished
      refine announcing.channels.listed w live isOut clientLive ?_
      rintro ⟨_, impossible, _⟩
      rw [idle] at impossible
      cases impossible
  · exact announcing

/-- `listen` on one side of the channel, or the end of the creation. -/
theorem Announcing.listens (announcing : Announcing t) {creation : Creation}
    (isCreation : t.console.creation = some creation) {v : ℕ} (below : v < t.server.data.servers.next)
    (granted : Bool) (console : Console) (same : console.creation = some creation)
    (chosen : ∀ c channelInfo calls, console ≠ .chosen c channelInfo calls) :
    Announcing (match t.server.data.listenChannel creation.w v granted with
      | (false, data) => { t.withData data with console := .idle }
      | (true, data) => { t.withData data with console := console }) := by
  have keeps := DataChannelServer.keeps_listenChannel (w := creation.w) below granted
  have dead := t.server.data.listenChannel_refused creation.w v granted
  rcases listened : t.server.data.listenChannel creation.w v granted with ⟨_ | _, data⟩
  · rw [listened] at keeps dead
    have kept := announcing.keeps keeps
    refine kept.withConsole (kept.channels.finish isCreation fun live => ?_)
    exact absurd (live.symm.trans (dead rfl)) (by decide)
  · rw [listened] at keeps
    have kept := announcing.keeps keeps
    exact kept.withConsole (kept.channels.advance (same.trans isCreation.symm) chosen)

theorem Announcing.bind {c : ℕ} {channelInfo : VpnChannelInfo} {calls : ChannelCalls}
    (announcing : Announcing t) (chosen : t.console = .chosen c channelInfo calls) :
    Announcing t.advanceConsole := by
  rw [Threads.advanceConsole, chosen]
  dsimp only
  have channels := announcing.channels
  rw [chosen] at channels
  rcases t.server.data.bindChannel_cases channelInfo calls with ⟨data, keeps, binds⟩ | ⟨data, made, binds⟩
  · rw [binds]
    have kept := announcing.keeps keeps
    refine kept.withConsole (kept.channels.advance ?_ (by rintro _ _ _ ⟨⟩))
    rw [Threads.withData, chosen]
    rfl
  · rw [binds]
    dsimp only [Threads.withData]
    have persists := persists_binds (b := t.server) made
    have connections := announcing.connections.binds made
    refine ⟨announcing.clients.withData ?_, connections, ?_, channels.binds made, ?_⟩
    · intro fd interest p present
      rwa [made.epoll] at present
    · refine ⟨announcing.caused.messages, ?_, ?_⟩
      · rw [made.sockets]
        exact announcing.caused.bounded
      · rw [made.accepted]
        exact announcing.caused.pending
    · intro w live isOut clientLive p member sent
      dsimp only at member
      rw [made.accepted] at member
      have below := announcing.connections.below member
      obtain ⟨_, in_⟩ := made.in_
      have same : Function.update (Function.update t.madeFor (t.server.data.servers.next + 1) c)
          (data.server (t.server.data.servers.next + 1)).removte c w = t.madeFor w := by
        rw [in_, Function.update_of_ne, Function.update_of_ne (by omega)]
        exact below.ne
      dsimp only at clientLive ⊢
      rw [same] at clientLive ⊢
      exact announcing.informs.persists persists announcing.clients announcing.channels below live
        isOut clientLive
        member sent

/-- The channel is entered in the record of the client, and now its out side is listed. -/
theorem Announcing.enter {creation : Creation} (announcing : Announcing t)
    (inDataMap : t.console = .inDataMap creation) : Announcing t.advanceConsole := by
  rw [Threads.advanceConsole, inDataMap]
  dsimp only
  have isCreation : t.console.creation = some creation := by rw [inDataMap]; rfl
  have entered := announcing.quiet (quiet_enterChannel t.server creation.client creation.channelInfo)
    (announcing.clients.enterChannel creation.client creation.channelInfo) announcing.connections
  refine entered.withConsole (entered.channels.finish isCreation fun _ => ?_)
  have bound := entered.channels.bound creation isCreation
  obtain ⟨own, _⟩ := client_enterChannel t.server creation.client creation.channelInfo
  refine ⟨bound.clientId.trans bound.client.2, ?_⟩
  rw [bound.channelId]
  dsimp only
  rw [own]
  exact Option.isSome_iff_exists.mp
    (Std.TreeMap.mem_iff_isSome_getElem?.mp (Std.TreeMap.mem_insertIfNew.mpr (Or.inl Std.compare_self)))

theorem Announcing.advanceConsole (announcing : Announcing t) : Announcing t.advanceConsole := by
  cases isConsole : t.console with
  | idle =>
    rw [Threads.advanceConsole, isConsole]
    exact announcing
  | chosen c channelInfo calls => exact announcing.bind isConsole
  | bound creation =>
    have isCreation : t.console.creation = some creation := by rw [isConsole]; rfl
    rw [Threads.advanceConsole, isConsole]
    exact announcing.listens isCreation (announcing.channels.bound creation isCreation).outBelow _
      (.outListens creation) rfl (by rintro _ _ _ ⟨⟩)
  | outListens creation =>
    have isCreation : t.console.creation = some creation := by rw [isConsole]; rfl
    rw [Threads.advanceConsole, isConsole]
    exact announcing.listens isCreation (announcing.channels.bound creation isCreation).below _
      (.bothListen creation) rfl (by rintro _ _ _ ⟨⟩)
  | bothListen creation =>
    rw [Threads.advanceConsole, isConsole]
    dsimp only
    have kept := announcing.keeps (t.server.data.keeps_insertChannel
      (channelKey creation.channelInfo.clientId creation.channelInfo.channelId) creation.w)
    refine kept.withConsole (kept.channels.advance ?_ (by rintro _ _ _ ⟨⟩))
    rw [Threads.withData, isConsole]
    rfl
  | inDataMap creation => exact announcing.enter isConsole

/-! The steps of the accept thread. -/

theorem Announcing.accept (announcing : Announcing t) {w : ℕ} {fd : ℤ} {interest : Interest}
    (present : t.server.data.kernel.epoll t.server.data.acceptEpfd fd = some ⟨interest, .server w⟩)
    (newFd : ℤ) :
    Announcing (t.accept w newFd) := by
  rw [Threads.accept]
  split
  · next idle =>
    rcases t.server.data.acceptConnection_cases w newFd with ⟨data, keeps, accepts⟩ |
        ⟨data, arrives, accepts⟩
    · rw [accepts]
      exact announcing.keeps keeps
    · rw [accepts]
      dsimp only [Threads.withData]
      have persists : Persists t.server { t.server with data := data } := by
        refine persists_data arrives.next.ge (fun w _ live => ?_) fun w _ => ?_
        · rwa [← arrives.live]
        · have same : data.server w = t.server.data.server w := congrFun arrives.content w
          rw [same]
          exact ⟨rfl, rfl, rfl, rfl⟩
      have known := announcing.connections.registered fd interest w present
      refine ⟨announcing.clients.withData ?_, announcing.connections.arrives arrives known,
        ⟨announcing.caused.messages, fun cause member => ?_, ?_⟩,
        announcing.channels.persists persists arrives.next, ?_⟩
      · intro fd interest p isEntry
        rwa [arrives.epoll] at isEntry
      · rw [arrives.sockets]
        exact Nat.lt_succ_of_lt (announcing.caused.bounded cause member)
      · rintro _ _ ⟨rfl, rfl⟩
        refine ⟨(arrives.mem_iff _ _).mpr (Or.inr ⟨rfl, rfl⟩), fun cause member => ?_⟩
        exact (announcing.caused.bounded cause member).ne
      · intro v live isOut clientLive p member sent
        rcases (arrives.mem_iff v p).mp member with before | ⟨rfl, rfl⟩
        · refine announcing.informs.persists persists announcing.clients announcing.channels
            (announcing.connections.below before) live isOut clientLive before ?_
          rw [idle]
          exact nofun
        · exact absurd rfl sent
  · exact announcing

/-- The accept thread sends the messages `sent` for its connection: the right one, if the connection is
one of the out side. -/
theorem Announcing.sends (announcing : Announcing t) {w p : ℕ} (accepted : t.acceptor = .accepted w p)
    (sent : List SentMsg)
    (right : t.server.data.servers.live w = true → (t.server.data.server w).type = 1 →
      t.server.clients.live (t.madeFor w) = true →
      (t.server.data.server w).clientId = (t.server.client (t.madeFor w)).clinetId ∧
      ∃ channelInfo,
        (t.server.client (t.madeFor w)).channelMap[(t.server.data.server w).channelId]? = some channelInfo ∧
        sent = [⟨(t.server.socket (t.server.client (t.madeFor w)).info).fd,
          BusinessServer.msgTcpChannel channelInfo⟩]) :
    Announcing { t with
      server := { t.server with messages := t.server.messages ++ sent }
      acceptor := .announced w p
      informed := t.informed ++ sent.map fun message => (p, message) } := by
  obtain ⟨member, unannounced⟩ := announcing.caused.pending w p accepted
  have own : (t.informed.filter fun cause => cause.1 = p) = [] :=
    List.filter_eq_nil_iff.mpr fun cause isCause => by simpa using unannounced cause isCause
  refine ⟨{ announcing.clients with }, announcing.connections, ⟨?_, fun cause isCause => ?_, ?_⟩,
    announcing.channels.persists { (quiet_data (.refl t.server.data)).toPersists with } rfl, ?_⟩
  · rw [announcing.caused.messages, List.map_append, List.map_map]
    exact congrArg _ (List.map_id' sent).symm
  · rcases List.mem_append.mp isCause with before | new
    · exact announcing.caused.bounded cause before
    · obtain ⟨_, _, rfl⟩ := List.mem_map.mp new
      exact announcing.connections.bounded w p member
  · exact nofun
  · intro v live isOut clientLive q member' _
    by_cases same : q = p
    · subst same
      obtain rfl := announcing.connections.one v w q member' member
      obtain ⟨clientId, channelInfo, isEntry, rfl⟩ := right live isOut clientLive
      refine ⟨clientId, channelInfo, isEntry, ?_⟩
      rw [List.filter_append, own]
      simp
    · have before : t.acceptor ≠ .accepted v q := by
        rw [accepted]
        rintro ⟨rfl, rfl⟩
        exact same rfl
      obtain ⟨clientId, channelInfo, isEntry, once⟩ := announcing.informs v live isOut clientLive q
        member' before
      refine ⟨clientId, channelInfo, isEntry, ?_⟩
      have others : ((sent.map fun message => (p, message)).filter fun cause => cause.1 = q) = [] :=
        List.filter_eq_nil_iff.mpr fun cause isCause => by
          obtain ⟨_, _, rfl⟩ := List.mem_map.mp isCause
          simpa using Ne.symm same
      rw [List.filter_append, others, List.append_nil, once]

/-- What `send_create_channel_msg` finds for the listener `w`. -/
def Finds (b : BusinessServer) (w : ℕ) (sent : SentMsg) : Prop :=
  (b.data.server w).type = 1 ∧ ∃ c channelInfo, b.clinetMap (b.data.server w).clientId = some c ∧
    (b.client c).channelMap[(b.data.server w).channelId]? = some channelInfo ∧
    sent = ⟨(b.socket (b.client c).info).fd, BusinessServer.msgTcpChannel channelInfo⟩

theorem Threads.announce_cases (t : Threads) (w : ℕ) : ∃ sent : List SentMsg,
    t.announce w = { t.server with
      data := t.server.data.announce w, messages := t.server.messages ++ sent } ∧
    ((∃ message, Finds t.server w message ∧ sent = [message]) ∨
      (∀ message, ¬ Finds t.server w message) ∧ sent = []) := by
  rw [Threads.announce]
  dsimp only
  split
  · next isOut =>
    rw [BusinessServer.sendCreateChannelMsg]
    dsimp only
    split
    · next absent =>
      refine ⟨[], by rw [List.append_nil], Or.inr ⟨?_, rfl⟩⟩
      rintro _ ⟨_, c, _, present, _⟩
      exact nomatch absent.symm.trans present
    · next c present =>
      split
      · next absent =>
        refine ⟨[], by rw [List.append_nil], Or.inr ⟨?_, rfl⟩⟩
        rintro _ ⟨_, c', channelInfo, present', isEntry, _⟩
        obtain rfl := Option.some.inj (present.symm.trans present')
        exact nomatch absent.symm.trans isEntry
      · next channelInfo isEntry =>
        exact ⟨[_], rfl, Or.inl ⟨_, ⟨isOut, c, channelInfo, present, isEntry, rfl⟩, rfl⟩⟩
  · next isIn =>
    exact ⟨[], by rw [List.append_nil], Or.inr ⟨fun _ finds => isIn finds.1, rfl⟩⟩

/-- The message for a connection whose channel is not being made. -/
theorem Announcing.announce (announcing : Announcing t) {w p : ℕ} (accepted : t.acceptor = .accepted w p)
    (entered : (t.server.data.server w).type = 1 → ¬ Creates t.server t.console w) :
    Announcing t.advanceAcceptor := by
  obtain ⟨sent, announced, which⟩ := t.announce_cases w
  have keeps := t.server.data.keeps_announce w
  have sends := (announcing.keeps keeps).sends accepted sent
  rw [Threads.advanceAcceptor, accepted]
  dsimp only
  rw [announced]
  dsimp only
  rw [List.drop_left]
  refine sends fun live isOut clientLive => ?_
  dsimp only [Threads.withData] at live isOut clientLive ⊢
  rw [keeps.type] at isOut
  have listed := announcing.channels.listed w (keeps.live w live) isOut clientLive (entered isOut)
  obtain ⟨channelInfo, isEntry⟩ := listed.channel
  have present := announcing.clients.found _ clientLive
  rw [← listed.clientId] at present
  rw [keeps.clientId, keeps.channelId]
  refine ⟨listed.clientId, channelInfo, isEntry, ?_⟩
  rcases which with ⟨message, ⟨_, c, channelInfo', present', isEntry', rfl⟩, isSent⟩ | ⟨nothing, _⟩
  · obtain rfl := Option.some.inj (present.symm.trans present')
    obtain rfl := Option.some.inj (isEntry.symm.trans isEntry')
    exact isSent
  · exact absurd ⟨isOut, _, channelInfo, present, isEntry, rfl⟩ (nothing _)

theorem Announcing.meet (announcing : Announcing t) {w p : ℕ} (announced : t.acceptor = .announced w p) :
    Announcing t.advanceAcceptor := by
  rw [Threads.advanceAcceptor, announced]
  have kept := announcing.keeps (t.server.data.keeps_meet w p)
  refine { kept with caused := { kept.caused with pending := nofun }, informs := ?_ }
  intro v live isOut clientLive q member _
  refine kept.informs v live isOut clientLive q member ?_
  rw [Threads.withData, announced]
  exact nofun

/-! The runs. -/

/-- The accept thread sends its message for the out side of a channel only when the console thread has
finished with this channel, and a new client gets a number that no other client has. -/
def Threads.AnnouncesListed (t : Threads) : ThreadEvent → Prop
  | .acceptor => ∀ w p, t.acceptor = .accepted w p → (t.server.data.server w).type = 1 →
      ¬ Creates t.server t.console w
  | .connect fd => t.server.data.kernel.Available fd →
      t.server.clinetMap (clientIdOf t.server.data.idx) = none
  | _ => True

def ListedStep (t : Threads) (event : ThreadEvent) (u : Threads) : Prop :=
  ThreadStep t event u ∧ t.AnnouncesListed event

theorem Announcing.step {event : ThreadEvent} (announcing : Announcing t) (step : ListedStep t event u) :
    Announcing u := by
  obtain ⟨⟨enabled, rfl⟩, listed⟩ := step
  cases event with
  | takeIdx =>
    have taken : t.server.data.Keeps { t.server.data with idx := t.server.data.idx + 1 } :=
      { DataChannelServer.Keeps.refl t.server.data with }
    exact announcing.keeps taken
  | connect fd => exact announcing.connect listed
  | disconnect p =>
    obtain ⟨_, _, present⟩ := enabled
    exact announcing.disconnect present
  | command clientId addresses calls => exact announcing.choose clientId addresses calls
  | console => exact announcing.advanceConsole
  | accept w fd =>
    obtain ⟨_, _, present⟩ := enabled
    exact announcing.accept present fd
  | acceptor =>
    cases isAcceptor : t.acceptor with
    | idle =>
      rw [Threads.apply, Threads.advanceAcceptor, isAcceptor]
      exact announcing
    | accepted w p => exact announcing.announce isAcceptor (listed w p isAcceptor)
    | announced w p => exact announcing.meet isAcceptor

theorem BusinessServer.Started.announcing (started : b.Started) : Announcing (.initial b) := by
  have nothing : ∀ w, b.data.trace.accepted w = [] := by
    intro w
    rw [started.data.state]
    rfl
  have silent : b.messages = [] := by
    rw [started.state]
    rfl
  refine ⟨started.clients, started.data.connections,
    ⟨silent, fun _ member => ?_, fun _ _ impossible => ?_⟩,
    ⟨?_, fun _ _ _ impossible => ?_, fun _ impossible => ?_, ?_⟩, ?_⟩
  · exact absurd member List.not_mem_nil
  · exact Acceptor.noConfusion impossible
  · intro w _
    exact b.clients.positive
  · exact Console.noConfusion impossible
  · exact absurd impossible (Option.some_ne_none _).symm
  · intro w live
    dsimp only [Threads.initial] at live
    rw [started.data.state] at live
    exact nomatch live
  · intro w _ _ _ p member
    dsimp only [Threads.initial] at member
    rw [nothing w] at member
    exact nomatch member

/-- Every connection accepted on the out side of a channel, and no longer waiting for the accept thread,
has caused exactly one message while the client of the channel is connected, and that to this client. -/
def EveryConnectionInformed (t : Threads) : Prop :=
  t.server.messages = t.informed.map Prod.snd ∧
  ∀ w p, p ∈ t.server.data.trace.accepted w → t.server.data.servers.live w = true →
    (t.server.data.server w).type = 1 → t.server.clients.live (t.madeFor w) = true →
    t.acceptor ≠ .accepted w p →
      t.server.clinetMap (t.server.data.server w).clientId = some (t.madeFor w) ∧
      ∃ channelInfo,
        (t.server.client (t.madeFor w)).channelMap[(t.server.data.server w).channelId]? =
        some channelInfo ∧
        (t.informed.filter fun cause => cause.1 = p) =
        [(p, ⟨(t.server.socket (t.server.client (t.madeFor w)).info).fd,
          BusinessServer.msgTcpChannel channelInfo⟩)]

theorem every_connection_informed {events : List ThreadEvent} (started : b.Started)
    (run : Run ListedStep (.initial b) events t) : EveryConnectionInformed t := by
  have announcing : Announcing t :=
    run.invariant Announcing (fun _ _ _ announcing step => announcing.step step) started.announcing
  refine ⟨announcing.caused.messages, fun w p member live isOut clientLive sent => ?_⟩
  have once := announcing.informs w live isOut clientLive p member sent
  refine ⟨?_, once.message⟩
  rw [once.clientId]
  exact announcing.clients.found _ clientLive

/-- A client, its channel, and a connection on the out side once the channel is listed. -/
def listedEvents : List ThreadEvent :=
  [.connect 12, .command 2 {} ⟨⟨5, true, true, true⟩, ⟨6, true, true, true⟩⟩, .console,
    .console, .console, .console, .console, .accept 1 7, .acceptor, .acceptor]

def listed : Threads := listedEvents.foldl Threads.apply (.initial BusinessServer.freshProgram)

/-- The client is entered, its channel is made, and the connection has been accepted. -/
private theorem listed_stages :
    let accepts := (listedEvents.take 8).foldl Threads.apply (.initial BusinessServer.freshProgram)
    accepts.acceptor = .accepted 1 1 ∧ accepts.console.creation.isNone = true ∧
      (accepts.apply .acceptor).acceptor = .announced 1 1 := by
  decide +kernel

theorem run_listed : Run ListedStep (.initial BusinessServer.freshProgram) listedEvents listed := by
  obtain ⟨_, finished, announced⟩ := listed_stages
  refine .cons ⟨⟨trivial, rfl⟩, fun _ => rfl⟩
    (.cons ⟨⟨trivial, rfl⟩, trivial⟩ (.cons ⟨⟨trivial, rfl⟩, trivial⟩
    (.cons ⟨⟨trivial, rfl⟩, trivial⟩ (.cons ⟨⟨trivial, rfl⟩, trivial⟩ (.cons ⟨⟨trivial, rfl⟩, trivial⟩
      (.cons ⟨⟨trivial, rfl⟩, trivial⟩ (.cons ⟨⟨⟨5, .epollIn, by decide +kernel⟩, rfl⟩, trivial⟩
        (.cons ⟨⟨trivial, rfl⟩, ?_⟩ (.cons ⟨⟨trivial, rfl⟩, ?_⟩ .start)))))))))
  · rintro w p _ _ ⟨creation, isCreation, _⟩
    exact nomatch (Option.isNone_iff_eq_none.mp finished).symm.trans isCreation
  · intro w p accepts
    exact nomatch announced.symm.trans accepts

theorem listed_informed : EveryConnectionInformed listed :=
  every_connection_informed BusinessServer.started_freshProgram run_listed

/-- The same with the connection accepted and announced before the in side listens. -/
def overtakingEvents : List ThreadEvent :=
  [.connect 12, .command 2 {} ⟨⟨5, true, true, true⟩, ⟨6, true, true, true⟩⟩, .console, .console,
    .accept 1 7, .acceptor, .console, .console, .console, .acceptor]

/-- The connection is announced to nobody, although its client is connected. -/
theorem overtaking_connection_uninformed : ¬ ∀ (events : List ThreadEvent) (t : Threads),
    Run ThreadStep (.initial BusinessServer.freshProgram) events t → EveryConnectionInformed t := by
  intro claimed
  let overtaken := overtakingEvents.foldl Threads.apply (.initial BusinessServer.freshProgram)
  have run : Run ThreadStep (.initial BusinessServer.freshProgram) overtakingEvents overtaken :=
    .cons ⟨trivial, rfl⟩ (.cons ⟨trivial, rfl⟩ (.cons ⟨trivial, rfl⟩ (.cons ⟨trivial, rfl⟩
      (.cons ⟨⟨5, .epollIn, by decide +kernel⟩, rfl⟩ (.cons ⟨trivial, rfl⟩ (.cons ⟨trivial, rfl⟩
        (.cons ⟨trivial, rfl⟩ (.cons ⟨trivial, rfl⟩ (.cons ⟨trivial, rfl⟩ .start)))))))))
  have stands : 1 ∈ overtaken.server.data.trace.accepted 1 ∧ overtaken.server.data.servers.live 1 = true ∧
      (overtaken.server.data.server 1).type = 1 ∧
      overtaken.server.clients.live (overtaken.madeFor 1) = true ∧
      overtaken.acceptor = .idle ∧ overtaken.informed = [] := by
    decide +kernel
  obtain ⟨member, live, isOut, clientLive, idle, nobody⟩ := stands
  obtain ⟨_, _, _, once⟩ := (claimed _ _ run).2 1 1 member live isOut clientLive (by rw [idle]; decide)
  rw [nobody] at once
  exact nomatch once

end LinuxZero.Vpn
