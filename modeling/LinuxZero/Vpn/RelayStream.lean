import LinuxZero.Vpn.RelayPeers

/-! # The byte stream of a relayed connection

What `recv` returns on a connection is buffered, offered to `send` on its peer, and kept as far as
`send` did not take it. A refused send is the exception: `on_recv_data` then reports the whole buffer
as used, so that the stream loses the buffered bytes. Without one, the bytes sent to the peer
followed by the buffered ones are the bytes received.
-/

namespace LinuxZero.Vpn

namespace DataChannelServer

variable {s t : DataChannelServer} {events : List RelayEvent} {a b : ℕ}

/-- Every chunk of the connection was followed by a send that took something. -/
def EachSent (events : List RelayEvent) (a : ℕ) : Prop :=
  ∀ bytes result, .epoll a (.data bytes result) ∈ events → 0 < result

/-- What the stream from `a` to `b` has carried. -/
structure Carries (events : List RelayEvent) (s : DataChannelServer) (a b : ℕ) : Prop where
  whole : EachSent events a → s.kernel.received (s.socket a).fd =
    s.kernel.sent (s.socket b).fd ++ (s.socket a).data.content
  hole : ¬ EachSent events a → (s.kernel.sent (s.socket b).fd).length + (s.socket a).data.content.length <
    (s.kernel.received (s.socket a).fd).length

/-- Allocated connections have descriptors of their own, and every peer gets the stream. -/
structure Streams (events : List RelayEvent) (s : DataChannelServer) : Prop where
  opened : ∀ p, s.sockets.live p = true → s.kernel.files (s.socket p).fd = some .connection
  apart : ∀ p q, s.sockets.live p = true → s.sockets.live q = true →
    (s.socket p).fd = (s.socket q).fd → p = q
  seen : ∀ p event, .epoll p event ∈ events → p < s.sockets.next
  buffered : ∀ p q, s.sockets.live p = true → (s.socket p).data.ptr = some q →
    0 ≤ (s.socket p).data.buffLen
  waiting : ∀ p, s.Queued p → (∀ event, .epoll p event ∉ events) ∧
    s.kernel.received (s.socket p).fd = [] ∧ s.kernel.sent (s.socket p).fd = []
  carries : ∀ a b, s.sockets.live a = true → (s.socket a).data.ptr = some b → Carries events s a b

/-- Only a chunk of the connection itself tells something about its sends. -/
theorem eachSent_append {event : RelayEvent}
    (other : ∀ bytes result, event ≠ .epoll a (.data bytes result)) :
    EachSent (events ++ [event]) a ↔ EachSent events a := by
  constructor
  · intro sent bytes result member
    exact sent bytes result (List.mem_append_left _ member)
  · intro sent bytes result member
    rcases List.mem_append.mp member with before | last
    · exact sent bytes result before
    · exact absurd (List.mem_singleton.mp last).symm (other bytes result)

theorem eachSent_append_data {bytes : List UInt8} {result : ℤ} :
    EachSent (events ++ [.epoll a (.data bytes result)]) a ↔ EachSent events a ∧ 0 < result := by
  constructor
  · intro sent
    exact ⟨fun more r member => sent more r (List.mem_append_left _ member),
      sent bytes result (List.mem_append_right _ (List.mem_singleton.mpr rfl))⟩
  · rintro ⟨sent, positive⟩ more r member
    rcases List.mem_append.mp member with before | last
    · exact sent more r before
    · cases List.mem_singleton.mp last
      exact positive

theorem Carries.length_le (carries : Carries events s a b) :
    (s.kernel.sent (s.socket b).fd).length + (s.socket a).data.content.length ≤
      (s.kernel.received (s.socket a).fd).length := by
  by_cases sent : EachSent events a
  · rw [carries.whole sent, List.length_append]
  · exact (carries.hole sent).le

/-- One chunk, with the send that follows it. -/
theorem Carries.relays {bytes : List UInt8} {result : ℤ} (carries : Carries events s a b)
    (relays : Relays s a b bytes result t) (opened : s.kernel.files (s.socket b).fd = some .connection)
    (peer : (t.socket b).fd = (s.socket b).fd) (buffered : 0 ≤ (s.socket a).data.buffLen)
    (possible : 0 < bytes.length ∧ result ≤ (s.socket a).data.buffLen + bytes.length) :
    Carries (events ++ [.epoll a (.data bytes result)]) t a b := by
  have content := SocketData.content_received buffered bytes
  have stored : 0 ≤ ((s.socket a).data.received bytes).buffLen := by
    rw [SocketData.buffLen_received]
    omega
  have length : (((s.socket a).data.received bytes).content.length : ℤ) =
      (s.socket a).data.buffLen + bytes.length := by
    rw [SocketData.length_content, SocketData.buffLen_received]
    omega
  have received : t.kernel.received (t.socket a).fd = s.kernel.received (s.socket a).fd ++ bytes := by
    rw [relays.handles.fd, relays.received, Function.update_self]
  rcases lt_or_ge 0 result with positive | refused
  · -- `send` took the first `result` bytes, and the rest stays in the buffer.
    have accepted : s.kernel.files (s.socket b).fd = some .connection ∧ 0 ≤ result ∧
        result ≤ ((s.socket a).data.received bytes).content.length :=
      ⟨opened, positive.le, by rw [length]; exact possible.2⟩
    have send := Kernel.send_of accepted
    have sent : t.kernel.sent (t.socket b).fd = s.kernel.sent (s.socket b).fd ++
        ((s.socket a).data.content ++ bytes).take result.toNat := by
      rw [peer, relays.sent, send, content]
      exact Function.update_self ..
    have rest : (t.socket a).data.content = ((s.socket a).data.content ++ bytes).drop result.toNat := by
      rw [relays.data, send, if_pos positive, SocketData.content_consume stored, content]
    refine ⟨fun each => ?_, fun some_ => ?_⟩
    · rw [received, sent, rest, carries.whole (eachSent_append_data.mp each).1, List.append_assoc,
        List.append_assoc, List.take_append_drop]
    · have hole := carries.hole fun each => some_ (eachSent_append_data.mpr ⟨each, positive⟩)
      have total := congrArg List.length
        (List.take_append_drop result.toNat ((s.socket a).data.content ++ bytes))
      rw [List.length_append, List.length_append] at total
      rw [received, sent, rest, List.length_append, List.length_append]
      omega
  · -- Nothing was taken, and the buffer is emptied all the same.
    have send := s.kernel.send_refused refused (s.socket b).fd ((s.socket a).data.received bytes).content
    have sent : t.kernel.sent (t.socket b).fd = s.kernel.sent (s.socket b).fd := by
      rw [peer, relays.sent]
      exact send.2
    have rest : (t.socket a).data.content = [] := by
      rw [relays.data, if_neg send.1, SocketData.content_consume stored]
      exact List.drop_eq_nil_of_le (by rw [SocketData.length_content])
    have before := carries.length_le
    refine ⟨fun each => absurd (eachSent_append_data.mp each).2 (not_lt.mpr refused), fun _ => ?_⟩
    rw [received, sent, rest, List.length_append, List.length_nil]
    omega

theorem Carries.same {later : List RelayEvent} (carries : Carries events s a b)
    (each : EachSent later a ↔ EachSent events a)
    (received : t.kernel.received (t.socket a).fd = s.kernel.received (s.socket a).fd)
    (sent : t.kernel.sent (t.socket b).fd = s.kernel.sent (s.socket b).fd)
    (content : (t.socket a).data.content = (s.socket a).data.content) : Carries later t a b where
  whole isEach := by
    rw [received, sent, content]
    exact carries.whole (each.mp isEach)
  hole notEach := by
    rw [received, sent, content]
    exact carries.hole fun isEach => notEach (each.mpr isEach)

/-- Connections that keep a peer keep their buffer and both streams. -/
structure Quiet (s t : DataChannelServer) : Prop where
  next : s.sockets.next ≤ t.sockets.next
  live : ∀ p, t.sockets.live p = true → s.sockets.live p = true
  fd : ∀ p, (t.socket p).fd = (s.socket p).fd
  ptr : ∀ p q, (t.socket p).data.ptr = some q → (s.socket p).data.ptr = some q
  queued : ∀ p, t.Queued p → s.Queued p
  files : ∀ p, t.sockets.live p = true → t.kernel.files (s.socket p).fd = s.kernel.files (s.socket p).fd
  content : ∀ p q, t.sockets.live p = true → (t.socket p).data.ptr = some q →
    (t.socket p).data.content = (s.socket p).data.content ∧
    (t.socket p).data.buffLen = (s.socket p).data.buffLen
  streams : ∀ p q, t.sockets.live p = true → (t.socket p).data.ptr = some q →
    t.kernel.received (s.socket p).fd = s.kernel.received (s.socket p).fd ∧
      t.kernel.sent (s.socket p).fd = s.kernel.sent (s.socket p).fd

theorem Quiet.refl (s : DataChannelServer) : Quiet s s :=
  ⟨le_rfl, fun _ => id, fun _ => rfl, fun _ _ => id, fun _ => id, fun _ _ => rfl,
    fun _ _ _ _ => ⟨rfl, rfl⟩, fun _ _ _ _ => ⟨rfl, rfl⟩⟩

theorem Quiet.trans {u : DataChannelServer} (first : Quiet s t) (second : Quiet t u) : Quiet s u where
  next := first.next.trans second.next
  live p alive := first.live p (second.live p alive)
  fd p := (second.fd p).trans (first.fd p)
  ptr p q points := first.ptr p q (second.ptr p q points)
  queued p queued := first.queued p (second.queued p queued)
  files p alive := by
    have files := second.files p alive
    rw [first.fd] at files
    exact files.trans (first.files p (second.live p alive))
  content p q alive points := by
    obtain ⟨content, buffLen⟩ := first.content p q (second.live p alive) (second.ptr p q points)
    obtain ⟨content', buffLen'⟩ := second.content p q alive points
    exact ⟨content'.trans content, buffLen'.trans buffLen⟩
  streams p q alive points := by
    obtain ⟨received, sent⟩ := first.streams p q (second.live p alive) (second.ptr p q points)
    obtain ⟨received', sent'⟩ := second.streams p q alive points
    rw [first.fd] at received' sent'
    exact ⟨received'.trans received, sent'.trans sent⟩

/-- The events of a connection that has been seen are about one that does not wait. -/
theorem Streams.quiet {event : RelayEvent} (streams : Streams events s) (quiet : Quiet s t)
    (layout : Layout t) (coupled : Coupled t 0)
    (other : ∀ p e, event = .epoll p e → p < s.sockets.next ∧ ¬ s.Queued p)
    (dropped : ∀ p bytes result, event = .epoll p (.data bytes result) →
      (t.socket p).data.ptr = none) :
    Streams (events ++ [event]) t := by
  constructor
  case opened =>
    intro p alive
    rw [quiet.fd, quiet.files p alive]
    exact streams.opened p (quiet.live p alive)
  case apart =>
    intro p q alive aliveQ
    rw [quiet.fd, quiet.fd]
    exact streams.apart p q (quiet.live p alive) (quiet.live q aliveQ)
  case seen =>
    intro p e member
    rcases List.mem_append.mp member with before | last
    · exact (streams.seen p e before).trans_le quiet.next
    · exact (other p e (List.mem_singleton.mp last).symm).1.trans_le quiet.next
  case buffered =>
    intro p q alive points
    rw [(quiet.content p q alive points).2]
    exact streams.buffered p q (quiet.live p alive) (quiet.ptr p q points)
  case waiting =>
    intro p queued
    have waiting := layout.waiting p queued
    obtain ⟨unseen, received, sent⟩ := streams.waiting p (quiet.queued p queued)
    obtain ⟨received', sent'⟩ := quiet.streams p p waiting.live waiting.ptr
    rw [quiet.fd]
    refine ⟨fun e member => ?_, received'.trans received, sent'.trans sent⟩
    rcases List.mem_append.mp member with before | last
    · exact unseen e before
    · exact (other p e (List.mem_singleton.mp last).symm).2 (quiet.queued p queued)
  case carries =>
    intro p q alive points
    obtain ⟨aliveQ, back⟩ := coupled.mutual_ p q alive (Heap.ne_null alive) points
    refine (streams.carries p q (quiet.live p alive) (quiet.ptr p q points)).same
      (eachSent_append ?_) ?_ ?_
      (quiet.content p q alive points).1
    · intro bytes result isData
      have lost := dropped p bytes result isData
      rw [points] at lost
      contradiction
    · rw [quiet.fd]
      exact (quiet.streams p q alive points).1
    · rw [quiet.fd]
      exact (quiet.streams q p aliveQ back).2

/-- Deleting a connection under its number closes nobody else's descriptor. -/
theorem quiet_endConnection {p : ℕ} (number : s.shFd2SocketInfo (s.socket p).shFd = some p)
    (apart : ∀ q, s.sockets.live q = true → (s.socket q).fd = (s.socket p).fd → q = p) :
    Quiet s (s.endConnection p (s.socket p).fd) := by
  have others := fun q => (s.sockets.live_delete_iff p q).mp
  rw [endConnection_eq number]
  refine { Quiet.refl s with
    live := fun q alive => (others q alive).2
    files := fun q alive => ?_
    content := fun _ _ _ _ => ⟨rfl, rfl⟩
    streams := fun _ _ _ _ => ⟨rfl, rfl⟩ }
  obtain ⟨apartQ, before⟩ := others q alive
  exact Function.update_of_ne (fun same => apartQ (apart q before same)) ..

/-- Scheduling a connection for closing touches no stream. -/
theorem quiet_closeSocket (s : DataChannelServer) (p : ℕ) : Quiet s (s.closeSocket p) :=
  { Quiet.refl s with
    files := fun _ _ => congrFun (Kernel.files_epollMod ..) _
    content := fun _ _ _ _ => ⟨rfl, rfl⟩
    streams := fun _ _ _ _ =>
      ⟨congrFun (Kernel.received_epollMod ..) _, congrFun (Kernel.sent_epollMod ..) _⟩ }

theorem quiet_onDisconnected (s : DataChannelServer) (p : ℕ) : Quiet s (s.onDisconnected p) := by
  cases ptr : (s.socket p).data.ptr with
  | none =>
    rw [onDisconnected_none ptr]
    exact { Quiet.refl s with }
  | some q =>
    rw [onDisconnected_some ptr]
    have own := s.socket_detached_self p q
    have other := fun r (apart : r ≠ q) => s.socket_detached_other p apart
    have kept : ∀ r u, ((((s.useSocket p).setPtr q none).closeSocket q).socket r).data.ptr =
      some u → r ≠ q := by
      rintro r u points rfl
      rw [own] at points
      contradiction
    refine { Quiet.refl s with
      fd := fun r => ?_
      ptr := fun r u points => ?_
      files := fun r _ => ?_
      content := fun r u _ points => ?_
      streams := fun r _ _ _ => ?_ }
    · rcases eq_or_ne r q with rfl | apart
      · rw [own]
      · rw [other r apart]
    · rwa [other r (kept r u points)] at points
    · exact congrFun (Kernel.files_epollMod ..) _
    · rw [other r (kept r u points)]
      exact ⟨rfl, rfl⟩
    · exact ⟨congrFun (Kernel.received_epollMod ..) _, congrFun (Kernel.sent_epollMod ..) _⟩

theorem quiet_drops {p : ℕ} {bytes : List UInt8} (streams : Streams events s) (drops : Drops s p bytes t)
    (alive : s.sockets.live p = true) (ptr : (s.socket p).data.ptr = none)
    (queued : ∀ q, t.Queued q → s.Queued q) (next : t.sockets.next = s.sockets.next) :
    Quiet s t := by
  have handles := drops.handles
  have kept : ∀ r u, (t.socket r).data.ptr = some u → r ≠ p := by
    rintro r u points rfl
    rw [handles.ptr, ptr] at points
    contradiction
  refine ⟨next.ge, fun r aliveR => ?_, fun r => ?_, fun r u points => ?_, queued, fun r _ => ?_,
    fun r u _ points => ?_, fun r u aliveR points => ?_⟩
  · rwa [handles.live] at aliveR
  · exact handles.fd_eq r
  · rwa [handles.sockets r (kept r u points)] at points
  · rw [drops.files]
  · rw [handles.sockets r (kept r u points)]
    exact ⟨rfl, rfl⟩
  · rw [handles.live] at aliveR
    have apart : (s.socket r).fd ≠ (s.socket p).fd := fun same =>
      kept r u points (streams.apart r p aliveR alive same)
    rw [drops.received, drops.sent, Function.update_of_ne apart]
    exact ⟨rfl, rfl⟩

section Chunk

variable {p q : ℕ} {bytes : List UInt8} {result : ℤ}

/-- A chunk of `p` comes from no other connection, -/
theorem Streams.received_other (streams : Streams events s) (relays : Relays s p q bytes result t)
    (alive : s.sockets.live p = true) {r : ℕ} (aliveR : s.sockets.live r = true) (apart : r ≠ p) :
    t.kernel.received (t.socket r).fd = s.kernel.received (s.socket r).fd := by
  rw [relays.handles.fd_eq, relays.received,
    Function.update_of_ne fun same => apart (streams.apart r p aliveR alive same)]

/-- and goes to no other connection than its peer. -/
theorem Streams.sent_other (streams : Streams events s) (relays : Relays s p q bytes result t)
    (aliveQ : s.sockets.live q = true) {r : ℕ} (aliveR : s.sockets.live r = true) (apart : r ≠ q) :
    t.kernel.sent (t.socket r).fd = s.kernel.sent (s.socket r).fd := by
  rw [relays.handles.fd_eq, relays.sent]
  exact Kernel.sent_send_other _ (fun same => apart (streams.apart r q aliveR aliveQ same)) _ _

/-- What the relay drops from a buffer was in it. -/
theorem Streams.relays_buffered (streams : Streams events s) (relays : Relays s p q bytes result t)
    {r u : ℕ} (aliveR : s.sockets.live r = true) (points : (s.socket r).data.ptr = some u) :
    0 ≤ (t.socket r).data.buffLen := by
  have before := streams.buffered r u aliveR points
  rcases eq_or_ne r p with rfl | apart
  · rw [relays.data]
    apply SocketData.buffLen_consume_nonneg
    rw [SocketData.buffLen_received]
    omega
  · rwa [relays.handles.sockets r apart]

/-- A waiting connection points at itself, so it is neither the connection of the chunk nor its peer. -/
theorem Streams.relays_waiting (streams : Streams events s) (coupled : Coupled s 0) (layout : Layout s)
    (relays : Relays s p q bytes result t) (alive : s.sockets.live p = true) (unqueued : ¬ s.Queued p)
    (ptr : (s.socket p).data.ptr = some q) {r : ℕ} (queued : s.Queued r) :
    (∀ event, .epoll r event ∉ events ++ [.epoll p (.data bytes result)]) ∧
      t.kernel.received (t.socket r).fd = [] ∧ t.kernel.sent (t.socket r).fd = [] := by
  obtain ⟨aliveQ, back⟩ := coupled.mutual_ p q alive (Heap.ne_null alive) ptr
  have waiting := layout.waiting r queued
  obtain ⟨unseen, received, sent⟩ := streams.waiting r queued
  have apart : r ≠ p := by
    rintro rfl
    exact unqueued queued
  have apartQ : r ≠ q := by
    rintro rfl
    exact apart (Option.some.inj (waiting.ptr.symm.trans back))
  rw [streams.received_other relays alive waiting.live apart,
    streams.sent_other relays aliveQ waiting.live apartQ]
  refine ⟨fun e member => ?_, received, sent⟩
  rcases List.mem_append.mp member with before | last
  · exact unseen e before
  · cases List.mem_singleton.mp last
    exact apart rfl

/-- The stream of the chunk's connection goes on, and the other streams stay as they are. -/
theorem Streams.relays_carries (streams : Streams events s) (coupled : Coupled s 0)
    (relays : Relays s p q bytes result t) (alive : s.sockets.live p = true)
    (ptr : (s.socket p).data.ptr = some q)
    (possible : 0 < bytes.length ∧ result ≤ (s.socket p).data.buffLen + bytes.length) {r u : ℕ}
    (aliveR : s.sockets.live r = true) (points : (s.socket r).data.ptr = some u) :
    Carries (events ++ [.epoll p (.data bytes result)]) t r u := by
  obtain ⟨aliveQ, back⟩ := coupled.mutual_ p q alive (Heap.ne_null alive) ptr
  have carries := streams.carries r u aliveR points
  rcases eq_or_ne r p with rfl | apart
  · obtain rfl := Option.some.inj (ptr.symm.trans points)
    exact carries.relays relays (streams.opened q aliveQ) (relays.handles.fd_eq q)
      (streams.buffered r q alive ptr) possible
  · obtain ⟨aliveU, backU⟩ := coupled.mutual_ r u aliveR (Heap.ne_null aliveR) points
    have apartQ : u ≠ q := by
      rintro rfl
      exact apart (Option.some.inj (backU.symm.trans back))
    refine carries.same (eachSent_append ?_) (streams.received_other relays alive aliveR apart)
      (streams.sent_other relays aliveQ aliveU apartQ) ?_
    · rintro more r' isData
      cases isData
      exact apart rfl
    · rw [relays.handles.sockets r apart]

/-- A chunk touches the stream of its own connection only. -/
theorem Streams.relays (streams : Streams events s) (coupled : Coupled s 0) (layout : Layout s)
    (relays : Relays s p q bytes result t) (alive : s.sockets.live p = true) (unqueued : ¬ s.Queued p)
    (ptr : (s.socket p).data.ptr = some q) (queued : ∀ r, t.Queued r → s.Queued r)
    (next : t.sockets.next = s.sockets.next)
    (possible : 0 < bytes.length ∧ result ≤ (s.socket p).data.buffLen + bytes.length) :
    Streams (events ++ [.epoll p (.data bytes result)]) t := by
  have handles := relays.handles
  constructor
  case opened =>
    intro r aliveR
    rw [handles.live] at aliveR
    rw [handles.fd_eq, relays.files]
    exact streams.opened r aliveR
  case apart =>
    intro r u aliveR aliveU
    rw [handles.live] at aliveR aliveU
    rw [handles.fd_eq, handles.fd_eq]
    exact streams.apart r u aliveR aliveU
  case seen =>
    intro r e member
    rw [next]
    rcases List.mem_append.mp member with before | last
    · exact streams.seen r e before
    · cases List.mem_singleton.mp last
      exact Heap.lt_next alive
  case buffered =>
    intro r u aliveR points
    rw [handles.live] at aliveR
    rw [handles.ptr_eq] at points
    exact streams.relays_buffered relays aliveR points
  case waiting =>
    intro r queuedR
    exact streams.relays_waiting coupled layout relays alive unqueued ptr (queued r queuedR)
  case carries =>
    intro r u aliveR points
    rw [handles.live] at aliveR
    rw [handles.ptr_eq] at points
    exact streams.relays_carries coupled relays alive ptr possible aliveR points

end Chunk

/-- Nothing has happened on the connection. -/
structure Blank (events : List RelayEvent) (s : DataChannelServer) (p : ℕ) : Prop where
  unseen : ∀ event, .epoll p event ∉ events
  received : s.kernel.received (s.socket p).fd = []
  sent : s.kernel.sent (s.socket p).fd = []
  buffLen : (s.socket p).data.buffLen = 0

theorem Blank.carries (blank : Blank events s a) (peer : Blank events s b) : Carries events s a b where
  whole _ := by
    have content : (s.socket a).data.content = [] :=
      List.length_eq_zero_iff.mp (by rw [SocketData.length_content, blank.buffLen]; rfl)
    rw [blank.received, peer.sent, content, List.append_nil]
  hole seen := absurd (fun bytes result member => absurd member (blank.unseen _)) seen

/-- Accepting a connection leaves every stream as it is and may start new ones, between the new
connection and one that has waited. -/
theorem Streams.accepts {w : ℕ} {fd : ℤ} (streams : Streams events s) (layout : Layout s)
    (accepts : Accepts s w fd t) (newFd : (t.socket s.sockets.next).fd = fd)
    (newBuffLen : (t.socket s.sockets.next).data.buffLen = 0)
    (old : ∀ p, p ≠ s.sockets.next → (t.socket p).fd = (s.socket p).fd ∧
      (t.socket p).data.content = (s.socket p).data.content ∧
      (t.socket p).data.buffLen = (s.socket p).data.buffLen)
    (queued : ∀ p, t.Queued p → s.Queued p ∨ p = s.sockets.next)
    (peers : ∀ p q, t.sockets.live p = true → (t.socket p).data.ptr = some q →
      (s.sockets.live p = true ∧ s.sockets.live q = true ∧ (s.socket p).data.ptr = some q) ∨
      (s.Queued p ∨ p = s.sockets.next) ∧ (s.Queued q ∨ q = s.sockets.next)) :
    Streams (events ++ [.accept w fd]) t := by
  have live := accepts.live_iff
  have fdOld : ∀ p, s.sockets.live p = true → (t.socket p).fd = (s.socket p).fd ∧ (s.socket p).fd ≠ fd :=
    fun p alive => ⟨(old p (Heap.ne_next alive)).1,
      accepts.available.ne (by rw [streams.opened p alive]; simp)⟩
  have seen : ∀ p e, .epoll p e ∈ events ++ [.accept w fd] → .epoll p e ∈ events := by
    intro p e member
    exact (List.mem_append.mp member).resolve_right fun last => nomatch List.mem_singleton.mp last
  have received : ∀ p, s.sockets.live p = true →
      t.kernel.received (t.socket p).fd = s.kernel.received (s.socket p).fd := by
    intro p alive
    obtain ⟨same, apart⟩ := fdOld p alive
    rw [accepts.received, same, Function.update_of_ne apart]
  have sent : ∀ p, s.sockets.live p = true →
      t.kernel.sent (t.socket p).fd = s.kernel.sent (s.socket p).fd := by
    intro p alive
    obtain ⟨same, apart⟩ := fdOld p alive
    rw [accepts.sent, same, Function.update_of_ne apart]
  have blank : ∀ p, s.Queued p ∨ p = s.sockets.next → Blank (events ++ [.accept w fd]) t p := by
    rintro p (before | rfl)
    · have waiting := layout.waiting p before
      obtain ⟨unseen, received_, sent_⟩ := streams.waiting p before
      exact ⟨fun e member => unseen e (seen p e member), (received p waiting.live).trans received_,
        (sent p waiting.live).trans sent_, (old p (Heap.ne_next waiting.live)).2.2.trans waiting.buffLen⟩
    · refine ⟨fun e member => (streams.seen _ e (seen _ e member)).false, ?_, ?_, newBuffLen⟩
      · rw [accepts.received, newFd, Function.update_self]
      · rw [accepts.sent, newFd, Function.update_self]
  constructor
  case opened =>
    intro p alive
    rw [accepts.files]
    rcases (live p).mp alive with rfl | before
    · rw [newFd, Function.update_self]
    · obtain ⟨same, apart⟩ := fdOld p before
      rw [same, Function.update_of_ne apart]
      exact streams.opened p before
  case apart =>
    intro p q alive aliveQ same
    rcases (live p).mp alive with rfl | before <;> rcases (live q).mp aliveQ with rfl | beforeQ
    · rfl
    · rw [newFd, (fdOld q beforeQ).1] at same
      exact absurd same.symm (fdOld q beforeQ).2
    · rw [newFd, (fdOld p before).1] at same
      exact absurd same (fdOld p before).2
    · rw [(fdOld p before).1, (fdOld q beforeQ).1] at same
      exact streams.apart p q before beforeQ same
  case seen =>
    intro p e member
    rw [accepts.next]
    exact (streams.seen p e (seen p e member)).trans (Nat.lt_succ_self _)
  case buffered =>
    intro p q alive points
    rcases peers p q alive points with ⟨before, _, points'⟩ | ⟨isBlank, _⟩
    · rw [(old p (Heap.ne_next before)).2.2]
      exact streams.buffered p q before points'
    · rw [(blank p isBlank).buffLen]
  case waiting =>
    intro p queuedP
    have isBlank := blank p (queued p queuedP)
    exact ⟨isBlank.unseen, isBlank.received, isBlank.sent⟩
  case carries =>
    intro p q alive points
    rcases peers p q alive points with ⟨before, beforeQ, points'⟩ | ⟨isBlank, isBlankQ⟩
    · exact (streams.carries p q before points').same (eachSent_append fun _ _ isData => nomatch isData)
        (received p before) (sent q beforeQ) (old p (Heap.ne_next before)).2.1
    · exact (blank p isBlank).carries (blank q isBlankQ)

theorem Streams.waits {w : ℕ} {fd : ℤ} (streams : Streams events s) (coupled : Coupled s 0)
    (layout : Layout s) (known : s.Known w) (waits : Waits s w fd t) :
    Streams (events ++ [.accept w fd]) t := by
  refine streams.accepts layout waits.accepts (by rw [waits.socket]) (by rw [waits.socket])
    (fun p apart => by rw [waits.sockets p apart]; exact ⟨rfl, rfl, rfl⟩) (fun p => waits.queued known) ?_
  intro p q alive points
  rcases (waits.accepts.live_iff p).mp alive with rfl | before
  · rw [waits.socket] at points
    obtain rfl := Option.some.inj points
    exact Or.inr ⟨Or.inr rfl, Or.inr rfl⟩
  · rw [waits.sockets p (Heap.ne_next before)] at points
    exact Or.inl ⟨before, (coupled.mutual_ p q before (Heap.ne_null before) points).1, points⟩

theorem Streams.pairs {w reInfo : ℕ} {fd : ℤ} (streams : Streams events s) (coupled : Coupled s 0)
    (layout : Layout s) (pairs : Pairs s w reInfo fd t) (queued : s.Queued reInfo) :
    Streams (events ++ [.accept w fd]) t := by
  refine streams.accepts layout pairs.accepts (by rw [pairs.socket]) (by rw [pairs.socket])
    (fun p apart => ?_) (fun p queuedP => Or.inl (pairs.queued queuedP)) ?_
  · rcases eq_or_ne p reInfo with rfl | apartPeer
    · rw [pairs.peer]
      exact ⟨rfl, rfl, rfl⟩
    · rw [pairs.sockets p apart apartPeer]
      exact ⟨rfl, rfl, rfl⟩
  · intro p q alive points
    rcases (pairs.accepts.live_iff p).mp alive with rfl | before
    · rw [pairs.socket] at points
      obtain rfl := Option.some.inj points
      exact Or.inr ⟨Or.inr rfl, Or.inl queued⟩
    · rcases eq_or_ne p reInfo with rfl | apartPeer
      · rw [pairs.peer] at points
        obtain rfl := Option.some.inj points
        exact Or.inr ⟨Or.inl queued, Or.inr rfl⟩
      · rw [pairs.sockets p (Heap.ne_next before) apartPeer] at points
        exact Or.inl ⟨before, (coupled.mutual_ p q before (Heap.ne_null before) points).1, points⟩

/-- Creating a channel leaves the descriptors of connections alone. -/
theorem quiet_createChannelServer (streams : Streams events s) (channelInfo : VpnChannelInfo)
    (calls : ChannelCalls) :
    Quiet s (s.createChannelServer channelInfo calls).2 := by
  have system : ∀ k h, Grows s k h → Quiet s (s.withSystem k h) := by
    intro k h grows
    have kept : ∀ p, s.sockets.live p = true → k.files (s.socket p).fd = s.kernel.files (s.socket p).fd ∧
        k.received (s.socket p).fd = s.kernel.received (s.socket p).fd ∧
        k.sent (s.socket p).fd = s.kernel.sent (s.socket p).fd := by
      intro p alive
      obtain ⟨files, _, received, sent⟩ := grows.extension (s.socket p).fd
        (by rw [streams.opened p alive]; simp)
      exact ⟨files, received, sent⟩
    exact { Quiet.refl s with
      queued := fun p => grows.queued
      files := fun p alive => (kept p alive).1
      content := fun _ _ _ _ => ⟨rfl, rfl⟩
      streams := fun p _ alive _ => (kept p alive).2 }
  refine createChannelServer_keeps (P := fun t => Quiet s t) channelInfo calls system
    fun t key w grown => ?_
  rw [insertChannel]
  split
  · exact { grown with }
  · exact grown

theorem Streams.runEpoll {p : ℕ} {fd : ℤ} {interest : Interest} {event : EpollEvent}
    (streams : Streams events s) (coupled : Coupled s 0) (layout : Layout s)
    (later : Coupled (s.runEpoll p event) 0)
    (present : s.kernel.epoll s.epfd fd = some ⟨interest, .socket p⟩)
    (possible : event.Possible interest (s.socket p).data) :
    Streams (events ++ [.epoll p event]) (s.runEpoll p event) := by
  have alive := coupled.served fd interest p present
  obtain ⟨_, below, unqueued⟩ := layout.connection present
  have shrinks := shrinks_runEpoll layout event present
  have use : Quiet s (s.useSocket p) := { Quiet.refl s with }
  have ends : Quiet s ((s.useSocket p).endConnection p (s.socket p).fd) :=
    use.trans (quiet_endConnection (coupled.numbered p alive) fun q aliveQ =>
      streams.apart q p aliveQ alive)
  have other : ∀ q e, RelayEvent.epoll p event = .epoll q e → q < s.sockets.next ∧ ¬ s.Queued q := by
    rintro q e ⟨⟩
    exact ⟨below, unqueued⟩
  have layoutT := layout.shrinks shrinks
  cases event with
  | out => exact streams.quiet ends layoutT later other fun _ _ _ isData => nomatch isData
  | again => exact streams.quiet use layoutT later other fun _ _ _ isData => nomatch isData
  | error => exact streams.quiet ends layoutT later other fun _ _ _ isData => nomatch isData
  | eof =>
    have coupledUse := coupled.useSocket alive
    obtain ⟨detached, aliveP, _⟩ := coupledUse.onDisconnected alive
    have quiet := use.trans (quiet_onDisconnected (s.useSocket p) p)
    have closed := quiet.trans (quiet_endConnection (detached.numbered p aliveP) fun q aliveQ same => by
      rw [quiet.fd, quiet.fd] at same
      exact streams.apart q p (quiet.live q aliveQ) alive same)
    rw [quiet.fd] at closed
    exact streams.quiet closed layoutT later other fun _ _ _ isData => nomatch isData
  | data bytes result =>
    have queued := fun q => (shrinks.queued_iff q).mp
    cases ptr : (s.socket p).data.ptr with
    | none =>
      have drops := runEpoll_drops ptr bytes result
      refine streams.quiet (quiet_drops streams drops alive ptr queued shrinks.next) layoutT
        later other ?_
      rintro q more r ⟨⟩
      rw [drops.handles.ptr, ptr]
    | some q =>
      exact streams.relays coupled layout (runEpoll_relays ptr bytes result) alive unqueued ptr queued
        shrinks.next ⟨possible.1, possible.2.2.2⟩

/-- One step of the relay, with what is known about the state that it leads to. -/
theorem Streams.step {event : RelayEvent} (streams : Streams events s) (coupled : Coupled s 0)
    (layout : Layout s) (step : UnlinkingStep s event t) : Streams (events ++ [event]) t := by
  have layoutT := layout.step event step.1
  have coupledT := coupled.step layout step
  obtain ⟨⟨enabled, rfl⟩, _⟩ := step
  cases event with
  | takeIdx =>
    exact streams.quiet { Quiet.refl s with } layoutT coupledT (fun _ _ isEpoll => nomatch isEpoll)
      fun _ _ _ isData => nomatch isData
  | create channelInfo calls =>
    exact streams.quiet (quiet_createChannelServer streams channelInfo calls) layoutT coupledT
      (fun _ _ isEpoll => nomatch isEpoll) fun _ _ _ isData => nomatch isData
  | accept w fd =>
    obtain ⟨_, _, present⟩ := enabled
    have known := layout.listeners _ _ _ present
    rcases layout.runAccept_cases known fd with same | ⟨waits, _⟩ | ⟨reInfo, rest, pairs, front⟩
    · refine streams.quiet ?_ layoutT coupledT (fun _ _ isEpoll => nomatch isEpoll)
        fun _ _ _ isData => nomatch isData
      have outcome : s.apply (.accept w fd) = s.useServer w := same
      rw [outcome]
      exact { Quiet.refl s with }
    · exact streams.waits coupled layout known waits
    · exact streams.pairs coupled layout pairs ⟨_, (layout.removte w known).1,
        front ▸ List.mem_cons_self ..⟩
  | epoll p event =>
    obtain ⟨_, _, present, possible⟩ := enabled
    exact streams.runEpoll coupled layout coupledT present possible
  | close p =>
    exact streams.quiet (s.quiet_closeSocket p) layoutT coupledT (fun _ _ isEpoll => nomatch isEpoll)
      fun _ _ _ isData => nomatch isData

theorem Started.streams (started : Started s) : Streams [] s where
  opened p alive := absurd alive (started.not_live p)
  apart p _ alive := absurd alive (started.not_live p)
  seen _ _ member := nomatch member
  buffered p _ alive := absurd alive (started.not_live p)
  waiting p queued := absurd (started.layout.waiting p queued).live (started.not_live p)
  carries a _ alive := absurd alive (started.not_live a)

/-- In every state of a run that unlinks whom it deletes, and for every connection `a` that still has
its peer `b`: what was sent to `b`, followed by what is buffered, is what was received from `a`, if
and only if every chunk of `a` was followed by a send that took something. A connection that is
closed or scheduled for it has lost its peer. -/
theorem stream_whole_iff {s₀ : DataChannelServer} (started : Started s₀)
    (run : Run UnlinkingStep s₀ events s) (alive : s.sockets.live a = true)
    (peer : (s.socket a).data.ptr = some b) :
    s.kernel.received (s.socket a).fd = s.kernel.sent (s.socket b).fd ++ (s.socket a).data.content ↔
      EachSent events a := by
  have all : Layout s ∧ Coupled s 0 ∧ Streams events s :=
    run.history (fun events s => Layout s ∧ Coupled s 0 ∧ Streams events s)
      (fun _ _ event _ ⟨layout, coupled, streams⟩ step => ⟨layout.step event step.1,
      coupled.step layout step,
        streams.step coupled layout step⟩) ⟨started.layout, started.coupled, started.streams⟩
  have carries := all.2.2.carries a b alive peer
  constructor
  · intro whole
    by_contra missed
    have hole := carries.hole missed
    rw [whole, List.length_append] at hole
    exact hole.false
  · exact carries.whole

/-- The first of two bytes is sent on. -/
def partlySent : DataChannelServer := bothRelayed.apply (.epoll 1 (.data [10, 20] 1))

theorem partlySent_whole : partlySent.kernel.received (partlySent.socket 1).fd =
    partlySent.kernel.sent (partlySent.socket 2).fd ++ (partlySent.socket 1).data.content := by
  have run : Run UnlinkingStep freshServer
      ((([serveOne] ++ [.accept 1 7]) ++ [.accept 2 8]) ++ [.epoll 1 (.data [10, 20] 1)]) partlySent :=
    .next bothRelayed_unlinking ⟨⟨⟨7, .epollIn, by decide +kernel, by decide +kernel, by decide +kernel,
      by decide +kernel, by decide +kernel⟩, rfl⟩, trivial⟩
  refine (stream_whole_iff started_freshServer run (by decide +kernel) (by decide +kernel)).mpr ?_
  intro bytes result member
  rcases List.mem_append.mp member with before | last
  · simp [serveOne] at before
  · cases List.mem_singleton.mp last
    decide

/-- A send that fails leaves a hole: both bytes are gone, and neither connection is closed for it. -/
theorem refused_send_loses_bytes :
    ¬ ∀ (events : List RelayEvent) (s : DataChannelServer) (a b : ℕ), Run RelayStep freshServer events s →
      s.kernel.epoll s.epfd (s.socket a).fd = some ⟨.epollIn, .socket a⟩ →
      s.kernel.epoll s.epfd (s.socket b).fd = some ⟨.epollIn, .socket b⟩ →
      (s.socket a).data.ptr = some b → (s.socket b).data.ptr = some a →
      s.kernel.received (s.socket a).fd = s.kernel.sent (s.socket b).fd ++ (s.socket a).data.content := by
  intro claimed
  have enabled : bothRelayed.Enabled (.epoll 1 (.data [10, 20] (-1))) :=
    ⟨7, .epollIn, by decide +kernel, by decide +kernel, by decide +kernel, by decide +kernel,
      by decide +kernel⟩
  have whole := claimed _ (bothRelayed.apply (.epoll 1 (.data [10, 20] (-1)))) 1 2
    (.next run_bothRelayed ⟨enabled, rfl⟩) (by decide +kernel) (by decide +kernel) (by decide +kernel)
    (by decide +kernel)
  revert whole
  decide +kernel

end DataChannelServer

end LinuxZero.Vpn
