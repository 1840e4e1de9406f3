import LinuxZero.Vpn.RelayRuns

/-! # What deleting a channel closes

`delete_channel_server` hands every connection in the four queues of a channel to `close_socket`. The
queues keep all connections ever accepted. A waiting one is registered nowhere, so that closing it
has no effect, and one that has ended is handed over although it has been deleted. The deletion is
right exactly if there is neither.
-/

namespace LinuxZero.Vpn

namespace DataChannelServer

variable {s t : DataChannelServer}

/-- What `close_socket` would find. -/
def closeCall (s : DataChannelServer) (p : ℕ) : CloseCall :=
  ⟨p, s.sockets.live p, (s.kernel.epoll (s.socket p).epfd (s.socket p).fd).isSome⟩

/-- Closing connections changes nothing that later calls look at. -/
structure Closes (s t : DataChannelServer) (queue : List ℕ) : Prop where
  closed : t.trace.closed = s.trace.closed ++ queue.map s.closeCall
  found : t.closeCall = s.closeCall
  servers : t.servers.content = s.servers.content

theorem Closes.trans {u : DataChannelServer} {queue more : List ℕ} (first : Closes s t queue)
    (second : Closes t u more) : Closes s u (queue ++ more) where
  closed := by rw [second.closed, first.closed, first.found, List.append_assoc, List.map_append]
  found := second.found.trans first.found
  servers := second.servers.trans first.servers

end DataChannelServer

end LinuxZero.Vpn
