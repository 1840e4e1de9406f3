import LinuxZero.Vpn.DataChannel

/-! # Creating a channel and failing to

`create_channel_server` opens, binds, listens on and registers two sockets. A failure before the first
`listen` is undone completely, unless `socket` returned descriptor zero, which the code takes for an
error and never closes. A failing `listen` is not undone: its own descriptor is closed, the other
side's is not, the out side may stay registered, and the clean-up reads the object that it has just
deleted.
-/

namespace LinuxZero.Vpn

/-- The calls up to `bind` succeed, so that `listen` is reached. -/
def ListenerCalls.Binds (calls : ListenerCalls) (k : Kernel EventPtr) : Prop :=
  k.Available calls.socket ∧ calls.socket ≠ 0 ∧ calls.setsockopt = true ∧ calls.bind = true

instance (calls : ListenerCalls) (k : Kernel EventPtr) : Decidable (calls.Binds k) :=
  inferInstanceAs (Decidable (_ ∧ _ ∧ _ ∧ _))

/-- `socket` returns descriptor zero. -/
def ListenerCalls.SocketIsZero (calls : ListenerCalls) (k : Kernel EventPtr) : Prop :=
  k.Available 0 ∧ calls.socket = 0

instance (calls : ListenerCalls) (k : Kernel EventPtr) : Decidable (calls.SocketIsZero k) :=
  inferInstanceAs (Decidable (_ ∧ _))

namespace ChannelCalls

/-- Both sides reach `listen`; the second descriptor is chosen after the first. -/
def Bind (calls : ChannelCalls) (k : Kernel EventPtr) : Prop :=
  calls.outCalls.Binds k ∧ calls.inCalls.Binds (k.socket calls.outCalls.socket).2

instance (calls : ChannelCalls) (k : Kernel EventPtr) : Decidable (calls.Bind k) :=
  inferInstanceAs (Decidable (_ ∧ _))

/-- One of the two calls of `listen` is reached and fails. -/
def ListenFails (calls : ChannelCalls) (k : Kernel EventPtr) : Prop :=
  calls.Bind k ∧ (calls.outCalls.listen && calls.inCalls.listen) = false

/-- One of the two calls of `socket` is reached and returns descriptor zero. -/
def SocketReturnsZero (calls : ChannelCalls) (k : Kernel EventPtr) : Prop :=
  calls.outCalls.SocketIsZero k ∨
    calls.outCalls.Binds k ∧ calls.inCalls.SocketIsZero (k.socket calls.outCalls.socket).2

end ChannelCalls

namespace DataChannelServer

variable {s : DataChannelServer}

/-- The steps of `server_sock_init`: bound, undone, or a descriptor zero left open. -/
theorem serverSockInit_cases (s : DataChannelServer) (calls : ListenerCalls) :
    (∃ available : s.kernel.Available calls.socket, calls.Binds s.kernel ∧
      s.serverSockInit calls =
        (calls.socket, s.withSystem (s.kernel.openAt calls.socket .stream available) s.servers)) ∨
    ∃ k, s.serverSockInit calls = (-1, s.withSystem k s.servers) ∧ ¬ calls.Binds s.kernel ∧
      s.kernel.Extends k ∧ k.epoll = s.kernel.epoll ∧
      (¬ calls.SocketIsZero s.kernel → k.files = s.kernel.files) ∧
      (calls.SocketIsZero s.kernel → k.files 0 ≠ none) := by
  by_cases available : s.kernel.Available calls.socket
  · have opened : s.kernel.socket calls.socket =
        (calls.socket, s.kernel.openAt calls.socket .stream available) := dif_pos available
    have undone := Kernel.close_openAt .stream available
    have extension := (Kernel.Extends.refl s.kernel).openAt .stream available
    by_cases zero : calls.socket = 0
    · right
      refine ⟨_, by rw [serverSockInit, opened]; exact if_pos zero, fun binds => binds.2.1 zero,
        extension, rfl, fun other => absurd ⟨zero ▸ available, zero⟩ other, fun _ => ?_⟩
      rw [Kernel.files_openAt, zero, Function.update_self]
      simp
    · have nonzero : ¬ calls.SocketIsZero s.kernel := fun isZero => zero isZero.2
      have closes : s.kernel.Extends
        ((s.kernel.openAt calls.socket .stream available).close calls.socket) :=
        extension.close available.2.2
      by_cases setsockopt : calls.setsockopt = true
      · by_cases bind : calls.bind = true
        · left
          refine ⟨available, ⟨available, zero, setsockopt, bind⟩, ?_⟩
          rw [serverSockInit, opened]
          simp [withSystem, zero, setsockopt, bind]
        · right
          refine ⟨_, ?_, fun binds => bind binds.2.2.2, closes, undone.2, fun _ => undone.1,
            fun isZero => absurd isZero nonzero⟩
          rw [serverSockInit, opened]
          simp [withSystem, zero, setsockopt, bind]
      · right
        refine ⟨_, ?_, fun binds => setsockopt binds.2.2.1, closes, undone.2, fun _ => undone.1,
          fun isZero => absurd isZero nonzero⟩
        rw [serverSockInit, opened]
        simp [withSystem, zero, setsockopt]
  · have refused : s.kernel.socket calls.socket = (-1, s.kernel) := dif_neg available
    have invalid : s.kernel.files (-1) = none := by
      by_contra isOpen
      have bounds := s.kernel.bounded (-1) isOpen
      omega
    have unchanged := Kernel.close_closed invalid
    right
    refine ⟨s.kernel.close (-1), ?_, fun binds => available binds.1,
      (Kernel.Extends.refl s.kernel).close invalid, unchanged.2, fun _ => unchanged.1,
      fun isZero => absurd (isZero.2 ▸ isZero.1) available⟩
    rw [serverSockInit, refused]
    simp [withSystem, invalid]

/-- Both sides are bound: two fresh descriptors, nothing else of the system changed. -/
structure BothBound (s : DataChannelServer) (calls : ChannelCalls) (k : Kernel EventPtr) : Prop where
  bind : calls.Bind s.kernel
  extension : s.kernel.Extends k
  epoll : k.epoll = s.kernel.epoll
  outFresh : s.kernel.files calls.outCalls.socket = none
  inFresh : s.kernel.files calls.inCalls.socket = none
  apart : calls.inCalls.socket ≠ calls.outCalls.socket
  outStream : k.files calls.outCalls.socket = some .stream
  inStream : k.files calls.inCalls.socket = some .stream

/-- One side failed: nothing of the system changed but for a descriptor zero left open. -/
structure NotBound (s : DataChannelServer) (calls : ChannelCalls) (k : Kernel EventPtr) : Prop where
  unbound : ¬ calls.Bind s.kernel
  extension : s.kernel.Extends k
  epoll : k.epoll = s.kernel.epoll
  undone : ¬ calls.SocketReturnsZero s.kernel → k.files = s.kernel.files
  leaked : calls.SocketReturnsZero s.kernel → s.kernel.files 0 = none ∧ k.files 0 ≠ none

/-- `init_server_socket` allocates its two objects exactly if both sides bind. -/
theorem initServerSocket_cases (s : DataChannelServer) (calls : ChannelCalls) :
    (∃ k, BothBound s calls k ∧ s.initServerSocket calls =
      (some (s.servers.next + 1),
        (s.withSystem k s.servers).newServerInfos calls.outCalls.socket calls.inCalls.socket)) ∨
    ∃ k, NotBound s calls k ∧ s.initServerSocket calls = (none, s.withSystem k s.servers) := by
  rcases s.serverSockInit_cases calls.outCalls with
    ⟨available, binds, init⟩ | ⟨k, init, unbound, extension, epoll, nonzero, zero⟩
  · have opened : s.kernel.socket calls.outCalls.socket =
        (calls.outCalls.socket, s.kernel.openAt calls.outCalls.socket .stream available) := dif_pos
          available
    have valid : calls.outCalls.socket ≠ -1 := by
      have nonneg := available.1
      omega
    have outExtension := (Kernel.Extends.refl s.kernel).openAt .stream available
    have notZero : ¬ calls.outCalls.SocketIsZero s.kernel := fun isZero => binds.2.1 isZero.2
    rcases serverSockInit_cases
        (s.withSystem (s.kernel.openAt calls.outCalls.socket .stream available) s.servers)
        calls.inCalls with ⟨inAvailable, inBinds, inInit⟩ | ⟨k, inInit, unbound, extension, epoll,
        nonzero, zero⟩
    · have available2 : (s.kernel.openAt calls.outCalls.socket .stream available).Available
          calls.inCalls.socket := inAvailable
      have apart : calls.inCalls.socket ≠ calls.outCalls.socket :=
        (inAvailable.ne (show (s.kernel.openAt calls.outCalls.socket .stream available).files
          calls.outCalls.socket ≠ none by simp)).symm
      have inValid : calls.inCalls.socket ≠ -1 := by
        have nonneg := inAvailable.1
        omega
      have inFresh := inAvailable.2.2
      rw [kernel_withSystem, Kernel.files_openAt, Function.update_of_ne apart] at inFresh
      refine Or.inl ⟨(s.kernel.openAt calls.outCalls.socket .stream available).openAt calls.inCalls.socket
        .stream available2, ⟨⟨binds, by rwa [opened]⟩, outExtension.openAt .stream available2, rfl,
        available.2.2, inFresh, apart, ?_, ?_⟩, ?_⟩
      · rw [Kernel.files_openAt, Function.update_of_ne apart.symm, Kernel.files_openAt,
          Function.update_self]
      · rw [Kernel.files_openAt, Function.update_self]
      · rw [initServerSocket, init]
        simp only [if_neg valid, inInit, if_neg inValid]
        rfl
    · refine Or.inr ⟨k.close calls.outCalls.socket, ⟨?_, ?_, ?_, ?_, ?_⟩, ?_⟩
      · rintro ⟨_, inBinds⟩
        rw [opened] at inBinds
        exact unbound inBinds
      · exact Kernel.Extends.close (outExtension.trans extension) available.2.2
      · funext e f
        rw [Kernel.epoll_close, epoll]
        exact congrFun (congrFun (Kernel.close_openAt .stream available).2 e) f
      · intro neither
        have inNonzero : ¬ calls.inCalls.SocketIsZero
          (s.kernel.openAt calls.outCalls.socket .stream available) :=
          fun isZero => neither (Or.inr ⟨binds, by rwa [opened]⟩)
        rw [Kernel.files_close, nonzero inNonzero]
        exact (Kernel.close_openAt .stream available).1
      · rintro (isZero | ⟨_, isZero⟩)
        · exact absurd isZero notZero
        · rw [opened] at isZero
          have apart : (0 : ℤ) ≠ calls.outCalls.socket := Ne.symm binds.2.1
          have closed := isZero.1.2.2
          rw [Kernel.files_openAt, Function.update_of_ne apart] at closed
          refine ⟨closed, ?_⟩
          rw [Kernel.files_close, Function.update_of_ne apart]
          exact zero isZero
      · rw [initServerSocket, init]
        simp only [if_neg valid, inInit, if_true]
        rfl
  · refine Or.inr ⟨k, ⟨fun bind => unbound bind.1, extension, epoll, ?_, ?_⟩, ?_⟩
    · intro neither
      exact nonzero fun isZero => neither (Or.inl isZero)
    · rintro (isZero | ⟨binds, _⟩)
      · exact ⟨isZero.1.2.2, zero isZero⟩
      · exact absurd binds unbound
    · rw [initServerSocket, init]
      exact if_pos rfl

/-- `server_add_eool` on a bound listener: what the system and the objects are afterwards. -/
structure Listened (s : DataChannelServer) (w : ℕ) (granted : Bool) (k : Kernel EventPtr)
    (h : Heap ServerSocketInfo) : Prop where
  others : ∀ p, p ≠ w → h.content p = s.server p
  own : h.content w = { s.server w with epfd := if granted then s.acceptEpfd else (s.server w).epfd }
  live : h.live = s.servers.live
  next : h.next = s.servers.next
  fault : s.servers.live w = true → h.fault = s.servers.fault
  files : k.files = Function.update s.kernel.files (s.server w).fd
    (if granted then some .listening else none)
  extension : ∀ before : Kernel EventPtr, before.Extends s.kernel → before.files (s.server w).fd = none →
    before.Extends k
  registrations : ∀ e f event, k.epoll e f = some event → s.kernel.epoll e f = some event ∨
    e = s.acceptEpfd ∧ f = (s.server w).fd ∧ event = ⟨.epollIn, .server w⟩
  registered : granted = true → s.kernel.files s.acceptEpfd = some .epoll →
    s.kernel.epoll s.acceptEpfd (s.server w).fd = none →
    k.epoll s.acceptEpfd (s.server w).fd = some ⟨.epollIn, .server w⟩

theorem serverAddEool_spec {w : ℕ} (stream : s.kernel.files (s.server w).fd = some .stream)
    (granted : Bool) :
    ∃ k h, Listened s w granted k h ∧
      s.serverAddEool w granted = (granted, s.withSystem k h) := by
  obtain ⟨answer, epoll, files⟩ := Kernel.listen_stream stream granted
  have extension : ∀ before : Kernel EventPtr, before.Extends s.kernel →
      before.files (s.server w).fd = none → before.Extends (s.kernel.listen (s.server w).fd granted).2 :=
    fun before extends_ closed => extends_.listen closed granted
  cases granted with
  | true =>
    refine ⟨(s.kernel.listen (s.server w).fd true).2.epollAdd s.acceptEpfd (s.server w).fd
      ⟨.epollIn, .server w⟩, (s.servers.use w).modify w fun info => { info with epfd := s.acceptEpfd },
      ⟨?_, ?_, rfl, rfl, ?_, ?_, ?_, ?_, ?_⟩, ?_⟩
    · intro p apart
      exact Function.update_of_ne apart ..
    · exact Function.update_self ..
    · intro live
      simp [live]
    · rw [Kernel.files_epollAdd, files]
      simp
    · intro before extends_ closed
      exact (extension before extends_ closed).epollAdd closed
    · intro e f event present
      rcases Kernel.epollAdd_some present with ⟨rfl, rfl, rfl, _⟩ | old
      · exact Or.inr ⟨rfl, rfl, rfl⟩
      · rw [epoll] at old
        exact Or.inl old
    · intro _ instance_ absent
      have apart : s.acceptEpfd ≠ (s.server w).fd := by
        intro same
        rw [same, stream] at instance_
        contradiction
      apply Kernel.epollAdd_self
      · simpa [files, Function.update_of_ne apart] using instance_
      · simp [files]
      · exact apart
      · rwa [epoll]
    · rw [serverAddEool]
      exact if_pos answer
  | false =>
    refine ⟨(s.kernel.listen (s.server w).fd false).2.close (s.server w).fd, s.servers.use w,
      ⟨fun _ _ => rfl, rfl, rfl, rfl, ?_, ?_, ?_, ?_, fun impossible => nomatch impossible⟩, ?_⟩
    · intro live
      simp [live]
    · rw [Kernel.files_close, files]
      simp
    · intro before extends_ closed
      exact (extension before extends_ closed).close closed
    · intro e f event present
      rw [Kernel.epoll_close, epoll] at present
      split_ifs at present
      exact Or.inl present
    · rw [serverAddEool]
      exact if_neg (show ¬ (s.kernel.listen (s.server w).fd false).1 = true by simp [answer])

/-- The state in which `create_channel_server` starts to listen. -/
def listeners (s : DataChannelServer) (channelInfo : VpnChannelInfo) (calls : ChannelCalls)
    (k : Kernel EventPtr) : DataChannelServer :=
  ((s.withSystem k s.servers).newServerInfos calls.outCalls.socket calls.inCalls.socket).setChannel
    (s.servers.next + 1) channelInfo

/-- The two objects of a channel, each pointing at the other. -/
def outInfo (s : DataChannelServer) (channelInfo : VpnChannelInfo) (fd epfd : ℤ) : ServerSocketInfo :=
  { fd := fd, epfd := epfd, type := 1, clientId := channelInfo.clientId, channelId := channelInfo.channelId,
    removte := s.servers.next + 1 }

def inInfo (s : DataChannelServer) (channelInfo : VpnChannelInfo) (fd epfd : ℤ) : ServerSocketInfo :=
  { fd := fd, epfd := epfd, clientId := channelInfo.clientId, channelId := channelInfo.channelId,
    removte := s.servers.next }

theorem server_listeners (s : DataChannelServer) (channelInfo : VpnChannelInfo) (calls : ChannelCalls)
    (k : Kernel EventPtr) :
    (s.listeners channelInfo calls k).server s.servers.next =
        s.outInfo channelInfo calls.outCalls.socket 0 ∧
      (s.listeners channelInfo calls k).server (s.servers.next + 1) =
        s.inInfo channelInfo calls.inCalls.socket 0 ∧
      ∀ p < s.servers.next, (s.listeners channelInfo calls k).server p = s.server p := by
  have apart : s.servers.next ≠ s.servers.next + 1 := by omega
  refine ⟨?_, ?_, fun p old => ?_⟩
  · simp [server, withSystem, listeners, setChannel, newServerInfos, modifyServer, outInfo]
  · simp [server, withSystem, listeners, setChannel, newServerInfos, modifyServer, inInfo]
  · have first : p ≠ s.servers.next := by omega
    have second : p ≠ s.servers.next + 1 := by omega
    simp [server, withSystem, listeners, setChannel, newServerInfos, modifyServer, first, second]

/-- What a creation that reaches `listen` leaves of the rest of the system and of the objects. -/
structure Reached (s : DataChannelServer) (channelInfo : VpnChannelInfo) (calls : ChannelCalls)
    (k : Kernel EventPtr) (h : Heap ServerSocketInfo) : Prop where
  extension : s.kernel.Extends k
  registrations : ∀ e f event, k.epoll e f = some event → s.kernel.epoll e f = some event ∨
    e = s.acceptEpfd ∧ (f = calls.outCalls.socket ∧ event = ⟨.epollIn, .server s.servers.next⟩ ∨
      f = calls.inCalls.socket ∧ event = ⟨.epollIn, .server (s.servers.next + 1)⟩)
  next : h.next = s.servers.next + 2
  old : ∀ p < s.servers.next, h.content p = s.server p ∧ h.live p = s.servers.live p
  out : ∃ epfd, h.content s.servers.next = s.outInfo channelInfo calls.outCalls.socket epfd
  in_ : ∃ epfd, h.content (s.servers.next + 1) = s.inInfo channelInfo calls.inCalls.socket epfd

/-- A listener refused: one descriptor too many is open, both objects are deleted, and one of them was
read in between. -/
structure Refused (s : DataChannelServer) (k : Kernel EventPtr) (h : Heap ServerSocketInfo) : Prop where
  leaked : ∃ fd, s.kernel.files fd = none ∧ k.files fd ≠ none
  fault : h.fault = true

/-- Both listeners are live: open, allocated and registered. -/
structure Listening (s : DataChannelServer) (calls : ChannelCalls) (k : Kernel EventPtr)
    (h : Heap ServerSocketInfo) : Prop where
  outListening : k.files calls.outCalls.socket = some .listening
  inListening : k.files calls.inCalls.socket = some .listening
  outLive : h.live s.servers.next = true
  inLive : h.live (s.servers.next + 1) = true
  fault : h.fault = s.servers.fault

/-- The objects before the first call of `listen`. -/
private theorem reached_listeners {calls : ChannelCalls} {k : Kernel EventPtr}
    (bound : BothBound s calls k) (channelInfo : VpnChannelInfo) :
    Reached s channelInfo calls k (s.listeners channelInfo calls k).servers ∧
      (s.listeners channelInfo calls k).servers.live s.servers.next = true ∧
      (s.listeners channelInfo calls k).servers.live (s.servers.next + 1) = true ∧
      (s.listeners channelInfo calls k).servers.fault = s.servers.fault := by
  obtain ⟨out, in_, old⟩ := s.server_listeners channelInfo calls k
  have live : (s.listeners channelInfo calls k).servers.live =
      Function.update (Function.update s.servers.live s.servers.next true)
        (s.servers.next + 1) true := rfl
  have apart : s.servers.next ≠ s.servers.next + 1 := by omega
  refine ⟨⟨bound.extension, ?_, rfl, ?_, ⟨0, out⟩, ⟨0, in_⟩⟩, ?_, ?_, ?_⟩
  · intro e f event present
    rw [bound.epoll] at present
    exact Or.inl present
  · intro p below
    refine ⟨old p below, ?_⟩
    rw [live, Function.update_of_ne (by omega), Function.update_of_ne (by omega)]
  · rw [live, Function.update_of_ne apart, Function.update_self]
  · rw [live, Function.update_self]
  · simp [withSystem, listeners, setChannel, newServerInfos, modifyServer, server]

/-- Listening on one of the two new sockets. -/
private theorem Reached.listened {channelInfo : VpnChannelInfo} {calls : ChannelCalls}
    {bound k k' : Kernel EventPtr} {h h' : Heap ServerSocketInfo} {w : ℕ} {granted : Bool}
    (bothBound : BothBound s calls bound) (reached : Reached s channelInfo calls k h)
    (isNew : w = s.servers.next ∨ w = s.servers.next + 1)
    (listened : Listened (s.withSystem k h) w granted k' h') :
    Reached s channelInfo calls k' h' := by
  obtain ⟨outEpfd, out⟩ := reached.out
  obtain ⟨inEpfd, in_⟩ := reached.in_
  have own := listened.own
  have registrations := listened.registrations
  have fresh : s.kernel.files (h.content w).fd = none := by
    rcases isNew with rfl | rfl
    · rw [out]
      exact bothBound.outFresh
    · rw [in_]
      exact bothBound.inFresh
  refine ⟨listened.extension _ reached.extension fresh, ?_, listened.next.trans reached.next, ?_, ?_, ?_⟩
  · intro e f event present
    rcases registrations e f event present with before | ⟨rfl, rfl, rfl⟩
    · exact reached.registrations e f event before
    · right
      refine ⟨rfl, ?_⟩
      dsimp only [server, withSystem]
      rcases isNew with rfl | rfl
      · rw [out]
        exact Or.inl ⟨rfl, rfl⟩
      · rw [in_]
        exact Or.inr ⟨rfl, rfl⟩
  · intro p below
    obtain ⟨content, live⟩ := reached.old p below
    rw [listened.others p (by omega), listened.live]
    exact ⟨content, live⟩
  · by_cases same : s.servers.next = w
    · rw [← same] at own
      exact ⟨_, own.trans (by dsimp only [server, withSystem]; rw [out]; rfl)⟩
    · rw [listened.others _ same]
      exact ⟨outEpfd, out⟩
  · by_cases same : s.servers.next + 1 = w
    · rw [← same] at own
      exact ⟨_, own.trans (by dsimp only [server, withSystem]; rw [in_]; rfl)⟩
    · rw [listened.others _ same]
      exact ⟨inEpfd, in_⟩

/-- Deleting both objects after a refusal. -/
private theorem Reached.deleted {channelInfo : VpnChannelInfo} {calls : ChannelCalls}
    {k : Kernel EventPtr} {h : Heap ServerSocketInfo} (reached : Reached s channelInfo calls k h) :
    Reached s channelInfo calls k
      (((h.delete (s.servers.next + 1)).use (s.servers.next + 1)).delete s.servers.next) where
  extension := reached.extension
  registrations := reached.registrations
  next := reached.next
  old p below := by
    obtain ⟨content, live⟩ := reached.old p below
    refine ⟨content, ?_⟩
    rw [Heap.live_delete, Function.update_of_ne (by omega), Heap.live_use, Heap.live_delete,
      Function.update_of_ne (by omega), live]
  out := reached.out
  in_ := reached.in_

/-- After a refusal the removte of the deleted in side is still the out side. -/
private theorem Reached.deleteServerInfos_eq {channelInfo : VpnChannelInfo} {calls : ChannelCalls}
    {k : Kernel EventPtr} {h : Heap ServerSocketInfo} (reached : Reached s channelInfo calls k h) :
    (s.withSystem k h).deleteServerInfos (s.servers.next + 1) =
      s.withSystem k (((h.delete (s.servers.next + 1)).use (s.servers.next + 1)).delete
      s.servers.next) := by
  obtain ⟨epfd, in_⟩ := reached.in_
  rw [deleteServerInfos]
  dsimp only [server, withSystem]
  rw [in_]
  rfl

/-- With both sockets bound, the rest of the creation listens on them. -/
private theorem createChannelServer_listens {calls : ChannelCalls} {k : Kernel EventPtr}
    (channelInfo : VpnChannelInfo) (init : s.initServerSocket calls = (some (s.servers.next + 1),
      (s.withSystem k s.servers).newServerInfos calls.outCalls.socket calls.inCalls.socket)) :
    s.createChannelServer channelInfo calls =
      match (s.listeners channelInfo calls k).serverAddEool s.servers.next calls.outCalls.listen with
      | (false, t) => (false, t.deleteServerInfos (s.servers.next + 1))
      | (true, t) =>
        match t.serverAddEool (s.servers.next + 1) calls.inCalls.listen with
        | (false, t) => (false, t.deleteServerInfos (s.servers.next + 1))
        | (true, t) => (true, t.insertChannel (channelKey channelInfo.clientId channelInfo.channelId)
            (s.servers.next + 1)) := by
  obtain ⟨-, in_, -⟩ := s.server_listeners channelInfo calls k
  rw [createChannelServer, init]
  dsimp only
  rw [← listeners, in_]
  rfl

/-- The three ways through `create_channel_server`. -/
theorem createChannelServer_cases (s : DataChannelServer) (channelInfo : VpnChannelInfo)
    (calls : ChannelCalls) :
    (∃ k, NotBound s calls k ∧ s.createChannelServer channelInfo calls =
      (false, s.withSystem k s.servers)) ∨
    (∃ k h, calls.ListenFails s.kernel ∧ Reached s channelInfo calls k h ∧ Refused s k h ∧
      s.createChannelServer channelInfo calls = (false, s.withSystem k h)) ∨
    ∃ k h, (∃ bound, BothBound s calls bound) ∧ calls.outCalls.listen = true ∧
    calls.inCalls.listen = true ∧
      Reached s channelInfo calls k h ∧ Listening s calls k h ∧
      s.createChannelServer channelInfo calls =
        (true, (s.withSystem k h).insertChannel
          (channelKey channelInfo.clientId channelInfo.channelId) (s.servers.next + 1)) := by
  rcases s.initServerSocket_cases calls with ⟨k, bound, init⟩ | ⟨k, notBound, init⟩
  · obtain ⟨out, in_, old⟩ := s.server_listeners channelInfo calls k
    have created := createChannelServer_listens channelInfo init
    have outStream : (s.listeners channelInfo calls k).kernel.files
        ((s.listeners channelInfo calls k).server s.servers.next).fd = some .stream := by
      rw [out]
      exact bound.outStream
    obtain ⟨reached, outLive, inLive, noFault⟩ := reached_listeners bound channelInfo
    obtain ⟨k1, h1, listened, added⟩ := serverAddEool_spec outStream calls.outCalls.listen
    have reached1 := reached.listened bound (Or.inl rfl) listened
    obtain ⟨inEpfd, in1⟩ := reached1.in_
    have files1 := listened.files
    rw [out] at files1
    rw [added] at created
    cases outGranted : calls.outCalls.listen with
    | false =>
      rw [outGranted] at created files1
      refine Or.inr (Or.inl ⟨k1, _, ⟨bound.bind, by simp [outGranted]⟩, reached1.deleted,
        ⟨⟨_, bound.inFresh, ?_⟩, by simp⟩, created.trans (congrArg _ reached1.deleteServerInfos_eq)⟩)
      rw [files1]
      simp [withSystem, outInfo, Function.update_of_ne bound.apart, listeners, setChannel,
        modifyServer, newServerInfos, bound.inStream]
    | true =>
      rw [outGranted] at created files1
      have inStream : (s.withSystem k1 h1).kernel.files
        ((s.withSystem k1 h1).server (s.servers.next + 1)).fd =
          some .stream := by
        dsimp only [withSystem, server]
        rw [in1, files1]
        simp [withSystem, outInfo, inInfo, Function.update_of_ne bound.apart, listeners, setChannel,
          modifyServer, newServerInfos, bound.inStream]
      obtain ⟨k2, h2, listened2, added2⟩ := serverAddEool_spec inStream calls.inCalls.listen
      have reached2 := reached1.listened bound (Or.inr rfl) listened2
      have files2 := listened2.files
      dsimp only [server, withSystem] at files2
      rw [in1] at files2
      have outListening : k2.files calls.outCalls.socket = some .listening := by
        rw [files2, inInfo, Function.update_of_ne bound.apart.symm, files1]
        exact Function.update_self ..
      change s.createChannelServer channelInfo calls =
        match (s.withSystem k1 h1).serverAddEool (s.servers.next + 1) calls.inCalls.listen with
        | (false, t) => (false, t.deleteServerInfos (s.servers.next + 1))
        | (true, t) => (true, t.insertChannel (channelKey channelInfo.clientId channelInfo.channelId)
            (s.servers.next + 1)) at created
      rw [added2] at created
      cases inGranted : calls.inCalls.listen with
      | false =>
        rw [inGranted] at created
        exact Or.inr (Or.inl ⟨k2, _, ⟨bound.bind, by simp [inGranted]⟩, reached2.deleted,
          ⟨⟨_, bound.outFresh, by rw [outListening]; simp⟩, by simp⟩,
          created.trans (congrArg _ reached2.deleteServerInfos_eq)⟩)
      | true =>
        rw [inGranted] at created files2
        refine Or.inr (Or.inr ⟨k2, h2, ⟨k, bound⟩, rfl, rfl, reached2,
          ⟨outListening, ?_, ?_, ?_, ?_⟩, created⟩)
        · rw [files2]
          exact Function.update_self ..
        · rw [listened2.live]
          exact (congrFun listened.live _).trans outLive
        · rw [listened2.live]
          exact (congrFun listened.live _).trans inLive
        · rw [listened2.fault ((congrFun listened.live _).trans inLive)]
          exact (listened.fault outLive).trans noFault
  · refine Or.inl ⟨k, notBound, ?_⟩
    rw [createChannelServer, init]

/-- No epoll registration refers to a deleted listener object. -/
def NoDangling (s : DataChannelServer) : Prop :=
  ∀ e f interest w, s.kernel.epoll e f = some ⟨interest, .server w⟩ → s.servers.live w = true

/-- A creation from `s` to `t` has left no trace: the open descriptors, the registrations of the accept
thread and the channels are the same, no registration has become dangling, and the objects allocated
on the way have been deleted once each and not used afterwards. -/
structure Undone (s t : DataChannelServer) : Prop where
  files : ∀ fd, t.kernel.files fd ≠ none ↔ s.kernel.files fd ≠ none
  registrations : t.kernel.epoll t.acceptEpfd = s.kernel.epoll s.acceptEpfd
  channelMap : t.channelMap = s.channelMap
  noDangling : s.NoDangling → t.NoDangling
  freed : t.servers.live = s.servers.live
  noFault : s.servers.fault = false → t.servers.fault = false

/-- From every state and whatever the system answers: a creation that returns false leaves no trace if
and only if it did not fail in a `listen` and no call of `socket` returned descriptor zero. -/
theorem failed_creation_undone_iff (s : DataChannelServer) (channelInfo : VpnChannelInfo)
    (calls : ChannelCalls) :
    ((s.createChannelServer channelInfo calls).1 = false →
        Undone s (s.createChannelServer channelInfo calls).2) ↔
      ¬ calls.ListenFails s.kernel ∧ ¬ calls.SocketReturnsZero s.kernel := by
  rcases s.createChannelServer_cases channelInfo calls with ⟨k, notBound, created⟩ |
    ⟨k, h, fails, reached, refused, created⟩ | ⟨k, h, ⟨bound, bothBound⟩, outGranted, inGranted,
    _, _, created⟩
  · rw [created]
    have noListen : ¬ calls.ListenFails s.kernel := fun fails => notBound.unbound fails.1
    constructor
    · intro undone
      refine ⟨noListen, fun zero => ?_⟩
      obtain ⟨closed, isOpen⟩ := notBound.leaked zero
      exact ((undone rfl).files 0).mp isOpen closed
    · rintro ⟨_, nonzero⟩ _
      have files := notBound.undone nonzero
      refine ⟨fun fd => ?_, ?_, rfl, ?_, rfl, id⟩
      · rw [kernel_withSystem, files]
      · exact congrFun notBound.epoll s.acceptEpfd
      · intro noDangling e f interest w present
        rw [kernel_withSystem, notBound.epoll] at present
        exact noDangling e f interest w present
  · rw [created]
    constructor
    · intro undone
      obtain ⟨fd, closed, isOpen⟩ := refused.leaked
      exact absurd closed (((undone rfl).files fd).mp isOpen)
    · rintro ⟨noListen, _⟩
      exact absurd fails noListen
  · rw [created]
    have succeeds : ¬ calls.ListenFails s.kernel := by
      rintro ⟨_, refused⟩
      simp [outGranted, inGranted] at refused
    have nonzero : ¬ calls.SocketReturnsZero s.kernel := by
      rintro (zero | ⟨_, zero⟩)
      · exact bothBound.bind.1.2.1 zero.2
      · exact bothBound.bind.2.2.1 zero.2
    exact ⟨fun _ => ⟨succeeds, nonzero⟩, fun _ impossible => nomatch impossible⟩

end DataChannelServer

/-- A system in which the accept thread's epoll set is descriptor 4 and the relay's is 3. -/
def freshKernel : Kernel EventPtr where
  files fd := if fd = 3 ∨ fd = 4 then some .epoll else none
  epoll _ _ := none
  received _ := []
  sent _ := []
  bounded fd isOpen := by
    by_cases known : fd = 3 ∨ fd = 4
    · omega
    · simp [known] at isOpen
  registered _ _ present := absurd rfl present

/-- A server that has just been started. -/
def freshServer : DataChannelServer := .initial freshKernel 4 3 1

/-- Both sockets are made, the out side listens and the in side does not. -/
def inListenFails : ChannelCalls := ⟨⟨5, true, true, true⟩, ⟨6, true, true, false⟩⟩

/-- The creation fails, but the out socket stays open and registered, its object is deleted, and the
object of the in side was read after it had been deleted. -/
theorem refused_listen_not_undone :
    let t := (freshServer.createChannelServer ⟨1, 1, {}⟩ inListenFails).2
    (freshServer.createChannelServer ⟨1, 1, {}⟩ inListenFails).1 = false ∧ ¬ freshServer.Undone t ∧
      t.kernel.files 5 = some .listening ∧ t.kernel.epoll 4 5 = some ⟨.epollIn, .server 1⟩ ∧
      t.servers.live 1 = false ∧ t.servers.fault = true := by
  refine ⟨by decide, ?_, by decide⟩
  intro undone
  have leaked : freshServer.kernel.files 5 ≠ none := (undone.files 5).mp (by decide)
  exact absurd leaked (by decide)

end LinuxZero.Vpn
