import JQServer.Native.Server

/-!
# Shutting down (`server/g_net_update.c`)

SIGTERM runs `signal_handler_reboot`, which closes the listening socket, sets the exit flags and
closes the descriptor of every occupied slot, without freeing the slots. The other threads go on
meanwhile; `main` and `accept_thread` test their flags in front of every round of their loops.
A `Running` server is the server with the listening socket, the flags and these tests. The
model ends where `main` calls `thpool_destroy`.

A step of the handler can come between any two steps of any thread, whichever thread the signal
interrupts. SIGTERM comes once. The pool of database connections is not compiled in.
-/

namespace JQServer

/-- Program counter of `signal_handler_reboot` for SIGTERM. -/
inductive SignalPc where
  /-- The signal has not come. -/
  | idle
  /-- At `closesocket(listen_fd)`. -/
  | entered
  /-- At `exit_flag = 1`. -/
  | listenClosed
  /-- At `exit_accept_flag = 1`. -/
  | exitFlagSet
  /-- At `get_fd_by_event_index(i)`. -/
  | slots (i : Nat)
  /-- At `closesocket(sockfd)`. -/
  | closing (i : Fin maxEvents) (sockfd : Int)
  | done

/-- Where a thread is with the `while` of its loop. -/
inductive LoopTest where
  /-- It has not tested the flag for its next round. -/
  | untested
  /-- The flag was 0. -/
  | passed
  /-- The flag was 1, and it has left the loop. -/
  | left
  /-- It has closed the listening socket, if it was open. -/
  | closed
  | done
  deriving DecidableEq

/-- The server until it shuts down. -/
structure Running where
  server : Server
  /-- `listen_fd` is not -1. -/
  listening : Bool
  exitFlag : Bool
  exitAcceptFlag : Bool
  signal : SignalPc
  /-- `main` at `while (!exit_flag)`. -/
  main : LoopTest
  /-- `accept_thread` at `while (!exit_accept_flag)`. -/
  acceptThread : LoopTest

namespace Server

/-- `closesocket` by the signal handler. -/
def signalClose (s : Server) (sockfd : Int) : Server :=
  { s with
    fds := Function.update s.fds sockfd none
    epoll := Function.update s.epoll sockfd false }

end Server

namespace Running

/-- Steps of a server that may be shut down. -/
inductive Action where
  /-- A thread makes a step of its loop. -/
  | server (a : JQServer.Action)
  /-- `main` tests `exit_flag`. -/
  | testExit
  /-- `accept_thread` tests `exit_accept_flag`. -/
  | testExitAccept
  /-- SIGTERM is delivered. -/
  | sigterm
  /-- The signal handler goes on. -/
  | signal
  /-- `main` goes on behind its loop. -/
  | mainExit
  /-- `accept_thread` goes on behind its loop. -/
  | acceptExit

/-- The server at the start of the event loop, the accept thread listening. -/
def start (prevTime : Int) (threadPoolNumbers : Int := 15) : Running where
  server := Server.start prevTime threadPoolNumbers
  listening := true
  exitFlag := false
  exitAcceptFlag := false
  signal := .idle
  main := .untested
  acceptThread := .untested

/-- A round of a loop starts behind the test, and `accept` returns a client only while the
    socket listens. -/
def permits (p : Running) : JQServer.Action → Bool
  -- `main` reads the time first in each round
  | .tick _ => p.main = .passed
  | .gate => p.acceptThread = .passed
  | .accept (some _) => p.listening
  | _ => true

/-- `main` after a step of a thread. -/
def mainAfter (p : Running) : JQServer.Action → LoopTest
  | .tick _ => .untested
  | _ => p.main

/-- `accept_thread` after a step of a thread. -/
def acceptThreadAfter (p : Running) : JQServer.Action → LoopTest
  | .gate => .untested
  | _ => p.acceptThread

/-- The next statement of `signal_handler_reboot`. -/
def signalStep (p : Running) : Option Running :=
  match p.signal with
  | .idle | .done => none
  | .entered => some { p with listening := false, signal := .listenClosed }
  | .listenClosed => some { p with exitFlag := true, signal := .exitFlagSet }
  | .exitFlagSet => some { p with exitAcceptFlag := true, signal := .slots 0 }
  | .slots i =>
    if h : i < maxEvents then
      let sockfd := (p.server.table ⟨i, h⟩).connectFd
      some { p with signal := if sockfd ≠ -1 then .closing ⟨i, h⟩ sockfd else .slots (i + 1) }
    else some { p with signal := .done }
  -- The slot is not freed
  | .closing i sockfd =>
    some { p with server := p.server.signalClose sockfd, signal := .slots (i + 1) }

/-- One step. -/
def step (p : Running) : Action → Option Running
  | .server a =>
    if p.permits a then
      (p.server.step a).map fun s =>
        { p with
          server := s
          main := p.mainAfter a
          acceptThread := p.acceptThreadAfter a }
    else none
  | .testExit =>
    match p.main, p.server.loop, p.server.ops with
    | .untested, .top, [] => some { p with main := if p.exitFlag then .left else .passed }
    | _, _, _ => none
  | .testExitAccept =>
    match p.acceptThread, p.server.accept with
    | .untested, .gate =>
      some { p with acceptThread := if p.exitAcceptFlag then .left else .passed }
    | _, _ => none
  | .sigterm =>
    match p.signal with
    | .idle => some { p with signal := .entered }
    | _ => none
  | .signal => p.signalStep
  | .mainExit =>
    match p.main with
    | .left => some { p with listening := false, main := .closed }
    | .closed => some { p with exitAcceptFlag := true, main := .done }
    | _ => none
  | .acceptExit =>
    match p.acceptThread with
    | .left => some { p with listening := false, acceptThread := .closed }
    | _ => none

/-- The running server as a transition system. -/
def system : Transition.System Running Action where
  init p := ∃ prevTime threadPoolNumbers, p = start prevTime threadPoolNumbers
  step := step

end Running

end JQServer
