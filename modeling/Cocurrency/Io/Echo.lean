/-
# Byte-stream integrity of the echo servers

All four reactor servers are relays, whatever order their handlers are called in and
whatever the kernel answers, so the byte stream of every connection is kept
(`echo_integrity`).
-/
import Cocurrency.Io.Select
import Cocurrency.Io.Poll
import Cocurrency.Io.Epoll
import Cocurrency.Io.Nio

namespace Io

/-- **Byte-stream integrity.**  After any sequence of handler calls of any of the servers:
on an open connection the bytes sent, followed by the send buffer, are the upper-casing of
the bytes received; on any connection, open or closed, the bytes sent are a prefix of the
upper-casing of what the client has sent. -/
theorem echo_integrity :
    (∀ serverFd h s, Run SelectEchoServer.callStep anyStep (.start serverFd) h s →
      s.toClients.Echoes) ∧
    (∀ serverFd h l, Run PollEchoServer.step anyStep ⟨.start serverFd, true⟩ h l →
      l.server.toClients.Echoes) ∧
    (∀ mode useOneshot serverFd h l,
      Run EpollEchoServer.step anyStep ⟨.start mode useOneshot serverFd, [], true⟩ h l →
        l.server.toClients.Echoes) ∧
    ∀ serverFd h s, Run NioReactorServer.step anyStep (.start serverFd) h s → s.Echoes := by
  refine ⟨fun serverFd h s hr => ?_, fun serverFd h l hr => ?_,
    fun mode useOneshot serverFd h l hr => ?_, fun serverFd h s hr => ?_⟩
  · exact (Clients.run_echoes SelectEchoServer.toClients serverFd rfl
      (fun _ _ _ _ => SelectEchoServer.relays_callStep) hr).2.2
  · exact (Clients.run_echoes (fun l => l.server.toClients) serverFd rfl
      (fun _ _ _ _ => PollEchoServer.relays_step) hr).2.2
  · exact (Clients.run_echoes (fun l => l.server.toClients) serverFd rfl
      (fun _ _ _ _ => EpollEchoServer.relays_step) hr).2.2
  · exact NioReactorServer.run_echoes hr

/-- A client gets one of its two bytes back and disconnects; the next one is given the
same fd number. -/
def reusedFdCalls : List SelectEchoServer.Call :=
  [.accept (.ok (7, [97, 98])), .read 7 (.ok 2), .write 7 (.ok 1), .read 7 (.ok 0),
    .accept (.ok (7, [])), .clientSend 1 [99], .read 7 (.ok 1)]

theorem echo_integrity_reusedFd :
    ∃ s : SelectEchoServer, (s.net.stream 0).sent = [65] ∧ s.sendBuf 7 = [67] ∧
      s.toClients.Echoes := by
  have hr := run_of_replay SelectEchoServer.callStep (s := .start 3) reusedFdCalls rfl
  exact ⟨_, rfl, rfl, echo_integrity.1 3 _ _ hr⟩

end Io
