import LinuxZero.Vpn.ServerThreads

/-! # What the pieces of the program leave of the listeners

Few of the pieces that the threads are cut into make a listener or take a connection: the one that
binds the sockets of a channel, and the one that accepts. All others keep what a listener says about
its channel, and delete listeners at most.
-/

namespace LinuxZero.Vpn

namespace DataChannelServer

variable {s t : DataChannelServer} {w v : ℕ}

/-- What most functions leave of the listeners: no new object, no new number, no new connection. -/
structure Keeps (s t : DataChannelServer) : Prop where
  acceptEpfd : t.acceptEpfd = s.acceptEpfd
  next : t.servers.next = s.servers.next
  live : ∀ v, t.servers.live v = true → s.servers.live v = true
  type : ∀ v, (t.server v).type = (s.server v).type
  clientId : ∀ v, (t.server v).clientId = (s.server v).clientId
  channelId : ∀ v, (t.server v).channelId = (s.server v).channelId
  removte : ∀ v, (t.server v).removte = (s.server v).removte
  accepted : t.trace.accepted = s.trace.accepted
  sockets : t.sockets.next = s.sockets.next
  registrations : ∀ e fd event, t.kernel.epoll e fd = some event → s.kernel.epoll e fd = some event ∨
    (∃ p, event.data = .socket p) ∨ ∃ v, event.data = .server v ∧ v < s.servers.next

theorem Keeps.refl (s : DataChannelServer) : Keeps s s :=
  ⟨rfl, rfl, fun _ => id, fun _ => rfl, fun _ => rfl, fun _ => rfl, fun _ => rfl, rfl, rfl,
    fun _ _ _ => Or.inl⟩

theorem Keeps.trans {u : DataChannelServer} (first : Keeps s t) (second : Keeps t u) : Keeps s u where
  acceptEpfd := second.acceptEpfd.trans first.acceptEpfd
  next := second.next.trans first.next
  live v alive := first.live v (second.live v alive)
  type v := (second.type v).trans (first.type v)
  clientId v := (second.clientId v).trans (first.clientId v)
  channelId v := (second.channelId v).trans (first.channelId v)
  removte v := (second.removte v).trans (first.removte v)
  accepted := second.accepted.trans first.accepted
  sockets := second.sockets.trans first.sockets
  registrations e fd event present := by
    rcases second.registrations e fd event present with before | socket | ⟨v, data, below⟩
    · exact first.registrations e fd event before
    · exact Or.inr (Or.inl socket)
    · exact Or.inr (Or.inr ⟨v, data, first.next ▸ below⟩)

theorem keeps_modifyServer (w : ℕ) {f : ServerSocketInfo → ServerSocketInfo}
    (same : ∀ info, (f info).type = info.type ∧ (f info).clientId = info.clientId ∧
      (f info).channelId = info.channelId ∧ (f info).removte = info.removte) :
    Keeps s (s.modifyServer w f) := by
  have fields : ∀ v, ((s.modifyServer w f).server v).type = (s.server v).type ∧
      ((s.modifyServer w f).server v).clientId = (s.server v).clientId ∧
      ((s.modifyServer w f).server v).channelId = (s.server v).channelId ∧
      ((s.modifyServer w f).server v).removte = (s.server v).removte := by
    intro v
    rcases eq_or_ne v w with rfl | apart
    · have own : (s.modifyServer v f).server v = f (s.server v) := Function.update_self ..
      rw [own]
      exact same _
    · have other : (s.modifyServer w f).server v = s.server v := Function.update_of_ne apart ..
      rw [other]
      exact ⟨rfl, rfl, rfl, rfl⟩
  exact { Keeps.refl s with
    type := fun v => (fields v).1
    clientId := fun v => (fields v).2.1
    channelId := fun v => (fields v).2.2.1
    removte := fun v => (fields v).2.2.2 }

/-! The functions of the console thread. -/

theorem keeps_deleteServerInfos (s : DataChannelServer) (w : ℕ) : Keeps s (s.deleteServerInfos w) :=
  { Keeps.refl s with
    live := fun v alive =>
      (s.servers.live_delete_iff w v |>.mp
        ((((s.servers.delete w).use w).live_delete_iff _ v).mp alive).2).2 }

theorem keeps_serverAddEool (below : w < s.servers.next) (granted : Bool) :
    Keeps s (s.serverAddEool w granted).2 := by
  have listens : ((s.useServer w).kernel.listen ((s.useServer w).server w).fd granted).2.epoll =
    s.kernel.epoll := by
    rw [Kernel.listen]
    split <;> rfl
  rw [serverAddEool]
  dsimp only
  split_ifs
  · let heard := ((s.useServer w).kernel.listen ((s.useServer w).server w).fd granted).2
    let kernel := heard.epollAdd s.acceptEpfd ((s.useServer w).server w).fd ⟨.epollIn, .server w⟩
    have registers : Keeps s { s.useServer w with kernel := kernel } := by
      refine { Keeps.refl s with registrations := ?_ }
      intro e fd event present
      rcases Kernel.epollAdd_some present with ⟨_, _, rfl, _⟩ | before
      · exact Or.inr (Or.inr ⟨w, rfl, below⟩)
      · rw [listens] at before
        exact Or.inl before
    exact registers.trans (keeps_modifyServer w fun _ => ⟨rfl, rfl, rfl, rfl⟩)
  · refine { Keeps.refl s with registrations := fun e fd event present => Or.inl ?_ }
    rw [Kernel.epoll_close, listens] at present
    split_ifs at present
    exact present

theorem keeps_listenChannel (below : v < s.servers.next) (granted : Bool) :
    Keeps s (s.listenChannel w v granted).2 := by
  have keeps := keeps_serverAddEool below granted
  rw [listenChannel]
  rcases added : s.serverAddEool v granted with ⟨_ | _, u⟩
  · rw [added] at keeps
    exact keeps.trans (u.keeps_deleteServerInfos w)
  · rw [added] at keeps
    exact keeps

/-- A refused listener takes its channel along. -/
theorem listenChannel_refused (s : DataChannelServer) (w v : ℕ) (granted : Bool)
    (refused : (s.listenChannel w v granted).1 = false) :
    (s.listenChannel w v granted).2.servers.live
      ((s.listenChannel w v granted).2.server w).removte = false := by
  rw [listenChannel] at refused ⊢
  rcases added : s.serverAddEool v granted with ⟨_ | _, u⟩
  · exact Function.update_self ..
  · rw [added] at refused
    contradiction

theorem keeps_insertChannel (s : DataChannelServer) (key : ℤ)
    (w : ℕ) : Keeps s (s.insertChannel key w) := by
  rw [insertChannel]
  split
  · exact { Keeps.refl s with }
  · exact Keeps.refl s

/-! The functions of the accept thread. -/

theorem keeps_announce (s : DataChannelServer) (w : ℕ) : Keeps s (s.announce w) := by
  rw [announce]
  split <;> exact { Keeps.refl s with }

theorem keeps_addEool (s : DataChannelServer) (p : ℕ) : Keeps s (s.addEool p) := by
  refine { Keeps.refl s with registrations := ?_ }
  intro e fd event present
  rcases Kernel.epollAdd_some present with ⟨_, _, rfl, _⟩ | before
  · exact Or.inr (Or.inl ⟨p, rfl⟩)
  · exact Or.inl before

theorem keeps_pairSockets (s : DataChannelServer) (w p reInfo : ℕ) :
    Keeps s (s.pairSockets w p reInfo) := by
  let removte := (s.server w).removte
  let popped := s.popFree removte
  let pointed := (popped.setPtr p (some reInfo)).setPtr reInfo (some p)
  let pushed := pointed.pushBusy w p
  let paired := pushed.pushBusy removte reInfo
  have pops : Keeps s popped := keeps_modifyServer removte fun _ => ⟨rfl, rfl, rfl, rfl⟩
  have points : Keeps popped pointed := { Keeps.refl popped with }
  have pushes : Keeps pointed pushed := keeps_modifyServer w fun _ => ⟨rfl, rfl, rfl, rfl⟩
  have pairs : Keeps pushed paired := keeps_modifyServer removte fun _ => ⟨rfl, rfl, rfl, rfl⟩
  have queues : Keeps s paired := ((pops.trans points).trans pushes).trans pairs
  rw [pairSockets]
  split
  · exact (queues.trans (paired.keeps_addEool reInfo)).trans (keeps_addEool _ p)
  · exact (queues.trans (paired.keeps_addEool p)).trans (keeps_addEool _ reInfo)

theorem keeps_meet (s : DataChannelServer) (w p : ℕ) : Keeps s (s.meet w p) := by
  rw [meet]
  split
  · exact keeps_modifyServer w fun _ => ⟨rfl, rfl, rfl, rfl⟩
  · exact s.keeps_pairSockets w p _

/-! The functions of the thread that serves the clients. -/

theorem keeps_closeQueue (queue : List ℕ) (s : DataChannelServer) : Keeps s (closeQueue queue s) := by
  induction queue generalizing s with
  | nil => exact Keeps.refl s
  | cons p rest ih =>
    have closed : Keeps s (s.closeSocket p) := by
      refine { Keeps.refl s with registrations := ?_ }
      intro e fd event present
      rcases Kernel.epollMod_some present with ⟨_, _, rfl, _⟩ | before
      · exact Or.inr (Or.inl ⟨p, rfl⟩)
      · exact Or.inl before
    exact closed.trans (ih _)

theorem keeps_closeQueues (s : DataChannelServer) (w : ℕ) : Keeps s (s.closeQueues w) := by
  have used : Keeps s (s.useServer w) := { Keeps.refl s with }
  exact ((used.trans (keeps_closeQueue _ _)).trans (keeps_closeQueue _ _)).trans
    (keeps_modifyServer w fun _ => ⟨rfl, rfl, rfl, rfl⟩)

theorem keeps_serverDeleteEool (s : DataChannelServer) (w : ℕ) : Keeps s (s.serverDeleteEool w) := by
  refine { Keeps.refl s with registrations := fun e fd event present => Or.inl ?_ }
  have left : ((s.kernel.epollDel s.acceptEpfd (s.server w).fd).close (s.server w).fd).epoll e fd =
    some event :=
    present
  rw [Kernel.epoll_close, Kernel.epoll_epollDel] at left
  split_ifs at left
  exact left

theorem keeps_deleteChannelServer (s : DataChannelServer) (clientId channelId : ℤ) :
    Keeps s (s.deleteChannelServer clientId channelId).2 := by
  rw [deleteChannelServer]
  split
  · exact Keeps.refl s
  · exact (((s.keeps_serverDeleteEool _).trans (keeps_serverDeleteEool _ _)).trans
      (keeps_closeQueues _ _)).trans
      (keeps_closeQueues _ _)

/-! The two functions that make something. -/

/-- The two new objects of a channel. -/
structure Binds (s : DataChannelServer) (channelInfo : VpnChannelInfo)
    (t : DataChannelServer) : Prop where
  acceptEpfd : t.acceptEpfd = s.acceptEpfd
  next : t.servers.next = s.servers.next + 2
  out : ∃ fd, t.server s.servers.next = s.outInfo channelInfo fd 0
  in_ : ∃ fd, t.server (s.servers.next + 1) = s.inInfo channelInfo fd 0
  old : ∀ v < s.servers.next, t.server v = s.server v ∧ t.servers.live v = s.servers.live v
  accepted : t.trace.accepted = s.trace.accepted
  sockets : t.sockets.next = s.sockets.next
  epoll : t.kernel.epoll = s.kernel.epoll

theorem bindChannel_cases (s : DataChannelServer) (channelInfo : VpnChannelInfo) (calls : ChannelCalls) :
    (∃ t, Keeps s t ∧ s.bindChannel channelInfo calls = (none, t)) ∨
    ∃ t, Binds s channelInfo t ∧ s.bindChannel channelInfo calls = (some (s.servers.next + 1), t) := by
  rcases s.initServerSocket_cases calls with ⟨k, bound, init⟩ | ⟨k, notBound, init⟩
  · right
    obtain ⟨out, in_, old⟩ := s.server_listeners channelInfo calls k
    refine ⟨s.listeners channelInfo calls k,
      ⟨rfl, rfl, ⟨_, out⟩, ⟨_, in_⟩, fun v below => ⟨old v below, ?_⟩, rfl, rfl, bound.epoll⟩, ?_⟩
    · have live : (s.listeners channelInfo calls k).servers.live =
          Function.update (Function.update s.servers.live s.servers.next true)
            (s.servers.next + 1) true := rfl
      rw [live, Function.update_of_ne (by omega), Function.update_of_ne (by omega)]
    · rw [bindChannel, init]
      rfl
  · left
    refine ⟨s.withSystem k s.servers, { Keeps.refl s with registrations := ?_ }, ?_⟩
    · intro e fd event present
      rw [kernel_withSystem, notBound.epoll] at present
      exact Or.inl present
    · rw [bindChannel, init]

/-- A new connection on the listener `w`. -/
structure Arrives (s : DataChannelServer) (w : ℕ) (t : DataChannelServer) : Prop where
  acceptEpfd : t.acceptEpfd = s.acceptEpfd
  content : t.servers.content = s.servers.content
  live : t.servers.live = s.servers.live
  next : t.servers.next = s.servers.next
  sockets : t.sockets.next = s.sockets.next + 1
  accepted : t.trace.accepted =
    Function.update s.trace.accepted w (s.trace.accepted w ++ [s.sockets.next])
  epoll : t.kernel.epoll = s.kernel.epoll

theorem acceptConnection_cases (s : DataChannelServer) (w : ℕ) (fd : ℤ) :
    (∃ t, Keeps s t ∧ s.acceptConnection w fd = (none, t)) ∨
    ∃ t, Arrives s w t ∧ s.acceptConnection w fd = (some s.sockets.next, t) := by
  have epoll : ((s.useServer w).kernel.accept ((s.useServer w).server w).fd fd).2.epoll =
    s.kernel.epoll := by
    rw [Kernel.accept]
    split <;> rfl
  let kernel := ((s.useServer w).kernel.accept ((s.useServer w).server w).fd fd).2
  rw [acceptConnection]
  dsimp only
  split
  · refine Or.inl ⟨{ s.useServer w with kernel := kernel },
      { Keeps.refl s with registrations := ?_ }, rfl⟩
    intro e fd' event present
    rw [epoll] at present
    exact Or.inl present
  · refine Or.inr ⟨_, ?_, rfl⟩
    exact ⟨rfl, rfl, rfl, rfl, rfl, rfl, epoll⟩

end DataChannelServer

/-- The deletion of a client's channels. -/
theorem BusinessServer.keeps_departed (b : BusinessServer) (p : ℕ) : b.data.Keeps (b.departed p) := by
  have deletes : ∀ (entries : List (ℤ × VpnChannelInfo)) (clientId : ℤ) (s : DataChannelServer), s.Keeps
      (entries.foldl (fun data entry => (data.deleteChannelServer clientId entry.2.channelId).2) s) := by
    intro entries clientId
    induction entries with
    | nil => exact .refl
    | cons entry rest ih => exact fun s =>
        (s.keeps_deleteChannelServer clientId entry.2.channelId).trans (ih _)
  rw [departed]
  split
  · exact .refl _
  · rw [deleteChannels]
    dsimp only
    rw [Std.TreeMap.foldl_eq_foldl_toList]
    exact deletes _ _ _

/-- The end of a client's connection. -/
theorem BusinessServer.Departs.keeps {b d : BusinessServer} {p : ℕ} (departs : Departs b p d) :
    b.data.Keeps d.data := by
  have closes : (b.departed p).Keeps { b.departed p with kernel := d.data.kernel } := by
    refine { DataChannelServer.Keeps.refl (b.departed p) with
      registrations := fun e fd event present => Or.inl ?_ }
    rw [departs.kernel, Kernel.epoll_epollDel] at present
    split_ifs at present
    rw [Kernel.epoll_close] at present
    split_ifs at present
    exact present
  rw [departs.data]
  exact (b.keeps_departed p).trans closes

end LinuxZero.Vpn
