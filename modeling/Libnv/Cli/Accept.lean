import Libnv.Cli.Connections
import Libnv.Lib.AcceptLoop

/-!
# The accept handlers

`nv_core_telnet_init` and `nv_core_ctl_init` open the sockets that the process
listens on and register their accept handlers with the event loop.  Both handlers
accept until `accept` fails.  `nv_core_telnet_init` makes its socket non-blocking,
unless `fcntl` fails; `nv_core_ctl_init` leaves its socket blocking, so that its
handler stays in `accept` once the last client has been served, and `nv_loop_run`
gets neither to its timers nor to its signals.

`accept` returns the connections in the order of the backlog, and fails only when
there is none.
-/

namespace Libnv.Cli

open Transition CText Libnv.Core Resources AcceptLoop

/-- The fields of `nv_core_ctx_t` for one of the listening sockets. -/
structure ListenSlot where
  /-- `ctl_inited`, `telnet_inited`. -/
  inited : Bool
  /-- The descriptor in `ctl_listen_ev`, `telnet_listen_ev`. -/
  evFd : Int
  /-- `ctl_listen_fd`, `telnet_listen_fd`. -/
  listenFd : Int

/-- The part of `nv_core_ctx_t` that the two functions use, and the kernel's sockets. -/
structure ListenCtx where
  opts : CoreOpts
  ctl : ListenSlot
  telnet : ListenSlot
  /-- The sockets that `O_NONBLOCK` is set for. -/
  nonblock : Int → Bool

/-- What the system calls do. -/
structure ListenOs where
  /-- The descriptor that `socket` returns. -/
  socket : Option Nat
  inetPton : Bool
  bind : Bool
  listen : Bool
  /-- `fcntl(sfd, F_GETFL, 0)`. -/
  getFlags : Bool
  /-- `fcntl(sfd, F_SETFL, flags | O_NONBLOCK)`. -/
  setFlags : Bool
  /-- `nv_loop_add_event`. -/
  addEvent : Bool

/-- `socket(domain, SOCK_STREAM | SOCK_CLOEXEC, 0)` has returned `sfd`. -/
def ListenCtx.opened (ctx : ListenCtx) (sfd : Nat) : ListenCtx :=
  { ctx with nonblock := Function.update ctx.nonblock sfd false }

/-- A string option that is `NULL` or empty. -/
def unset (s : Option CString) : Bool := s.all fun text => text = CString.empty

def nvCoreCtlInit (os : ListenOs) (ctx : ListenCtx) : ListenCtx × NvRc :=
  if unset ctx.opts.ctlSocket then (ctx, .ok)
  else if ctx.ctl.inited then (ctx, .ok)
  else
    match os.socket with
    | none => (ctx, .error)
    | some sfd =>
        let ctx := ctx.opened sfd
        if ¬ os.bind then (ctx, .error)
        else if ¬ os.listen then (ctx, .error)
        else if ¬ os.addEvent then
          ({ ctx with ctl := { ctx.ctl with evFd := sfd, listenFd := -1 } }, .error)
        else ({ ctx with ctl := { inited := true, evFd := sfd, listenFd := sfd } }, .ok)

/-- The address that telnet binds to is any, or one that `inet_pton` understands. -/
def bindAddress (os : ListenOs) (telnetBind : Option CString) : Bool :=
  unset telnetBind ∨ telnetBind = some (lit "0.0.0.0") ∨ os.inetPton

def nvCoreTelnetInit (os : ListenOs) (ctx : ListenCtx) : ListenCtx × NvRc :=
  if ctx.opts.telnetEnable = 0 then (ctx, .ok)
  else if ctx.telnet.inited then (ctx, .ok)
  else
    match os.socket with
    | none => (ctx, .error)
    | some sfd =>
        let ctx := ctx.opened sfd
        if ¬ bindAddress os ctx.opts.telnetBind then (ctx, .error)
        else if ¬ os.bind then (ctx, .error)
        else if ¬ os.listen then (ctx, .error)
        else
          let ctx :=
            if os.getFlags ∧ os.setFlags then
              { ctx with nonblock := Function.update ctx.nonblock sfd true }
            else ctx
          if ¬ os.addEvent then
            ({ ctx with telnet := { ctx.telnet with evFd := sfd, listenFd := -1 } }, .error)
          else ({ ctx with telnet := { inited := true, evFd := sfd, listenFd := sfd } }, .ok)

/-- A client that waits to be accepted. -/
structure Client where
  /-- The descriptor that `accept` returns for it. -/
  cfd : Int
  /--
  What `read` returns on a control connection, the empty list for a failure or
  the end of the input.  It does not return for a client that neither writes nor
  closes the connection.
  -/
  request : Option (List UInt8)
  /-- What `calloc` returns for a telnet session. -/
  block : Option Nat
  /-- `nv_loop_add_event` succeeds for the telnet session. -/
  added : Bool

/-- The buffer has room for 511 bytes and a NUL. -/
def nvCoreCtlHandleClient (env : TelnetEnv) (srv : TelnetServer) (client : Client) :
    Option TelnetServer :=
  match client.request with
  | none => none
  | some [] => some srv
  | some (b :: bytes) =>
      let line := CString.ofBuffer ((b :: bytes).take 511)
      some { srv with cli := (nvCoreCliExecuteLine env.cli srv.cli client.cfd line false).1 }

/-- The two sockets that the process listens on. -/
inductive Listener where
  | ctl
  | telnet
deriving DecidableEq

namespace Listener

/-- The function that opens the socket. -/
def init : Listener → ListenOs → ListenCtx → ListenCtx × NvRc
  | .ctl => nvCoreCtlInit
  | .telnet => nvCoreTelnetInit

/-- The fields of the socket in the context. -/
def slot (ctx : ListenCtx) : Listener → ListenSlot
  | .ctl => ctx.ctl
  | .telnet => ctx.telnet

/-- The configuration asks for the socket, and it has not been opened. -/
def Wanted (ctx : ListenCtx) : Listener → Prop
  | .ctl => unset ctx.opts.ctlSocket = false ∧ ctx.ctl.inited = false
  | .telnet => ctx.opts.telnetEnable ≠ 0 ∧ ctx.telnet.inited = false

instance decidableWanted (ctx : ListenCtx) : ∀ l : Listener, Decidable (l.Wanted ctx)
  | .ctl => inferInstanceAs (Decidable (_ ∧ _))
  | .telnet => inferInstanceAs (Decidable (_ ∧ _))

/-- A turn of the loop of the handler in which `accept` returns the client's descriptor. -/
def serve (env : TelnetEnv) : Listener → TelnetServer → Client → Option TelnetServer
  | .ctl, srv, client =>
      let srv := { srv with conns := acquire client.cfd srv.conns }
      (nvCoreCtlHandleClient env srv client).map fun srv => srv.close client.cfd
  | .telnet, srv, client => some (srv.accept env client.cfd client.block client.added)

/-- The loop calls `nv_core_ctl_accept_handler` or `nv_telnet_accept_handler`. -/
def handlerCall (l : Listener) (ctx : ListenCtx) (srv : TelnetServer) (backlog : List Client) :
    Loop TelnetServer Client where
  pc := if (l.slot ctx).evFd < 0 then .returned else .accepting
  nonblock := ctx.nonblock (l.slot ctx).evFd
  backlog := backlog
  state := srv

/-- The handler returns, and it has served each client of the backlog once. -/
def ServesBacklog (env : TelnetEnv) (l : Listener) (ctx : ListenCtx) (srv : TelnetServer)
    (backlog : List Client) : Prop :=
  ∃ n : Nat,
    let final := run (step (l.serve env)) (l.handlerCall ctx srv backlog)
      (List.replicate n .turn)
    final.pc = .returned ∧ final.backlog = [] ∧
      backlog.foldlM (l.serve env) srv = some final.state

end Listener

section Flags

variable {os : ListenOs} {ctx : ListenCtx}

theorem nvCoreCtlInit_blocking (hwanted : Listener.ctl.Wanted ctx)
    (hok : (nvCoreCtlInit os ctx).2 = .ok) :
    0 ≤ (nvCoreCtlInit os ctx).1.ctl.evFd ∧
      (nvCoreCtlInit os ctx).1.nonblock (nvCoreCtlInit os ctx).1.ctl.evFd = false := by
  obtain ⟨hset, hnew⟩ := hwanted
  unfold nvCoreCtlInit at hok ⊢
  simp only [hset, hnew, Bool.false_eq_true, if_false] at hok ⊢
  cases hsocket : os.socket with
  | none => simp [hsocket] at hok
  | some sfd =>
      simp only [hsocket] at hok ⊢
      split_ifs at hok ⊢
      simp [ListenCtx.opened]

theorem nvCoreTelnetInit_nonblock (hwanted : Listener.telnet.Wanted ctx)
    (hok : (nvCoreTelnetInit os ctx).2 = .ok) :
    0 ≤ (nvCoreTelnetInit os ctx).1.telnet.evFd ∧
      (nvCoreTelnetInit os ctx).1.nonblock (nvCoreTelnetInit os ctx).1.telnet.evFd =
        (os.getFlags && os.setFlags) := by
  obtain ⟨hset, hnew⟩ := hwanted
  unfold nvCoreTelnetInit at hok ⊢
  simp only [hset, hnew, Bool.false_eq_true, if_false] at hok ⊢
  cases hsocket : os.socket with
  | none => simp [hsocket] at hok
  | some sfd =>
      simp only [hsocket] at hok ⊢
      by_cases hflags : os.getFlags ∧ os.setFlags
      · simp only [if_pos hflags] at hok ⊢
        split_ifs at hok ⊢
        simp [hflags]
      · simp only [if_neg hflags] at hok ⊢
        split_ifs at hok ⊢
        simpa [ListenCtx.opened] using hflags

theorem Listener.handlerCall_init {l : Listener} (hwanted : l.Wanted ctx)
    (hok : (l.init os ctx).2 = .ok) (srv : TelnetServer) (backlog : List Client) :
    l.handlerCall (l.init os ctx).1 srv backlog =
      ⟨.accepting, decide (l = .telnet ∧ os.getFlags ∧ os.setFlags), backlog, srv⟩ := by
  cases l with
  | ctl =>
      obtain ⟨hfd, hblock⟩ := nvCoreCtlInit_blocking hwanted hok
      simp [handlerCall, slot, init, Int.not_lt.mpr hfd, hblock]
  | telnet =>
      obtain ⟨hfd, hnonblock⟩ := nvCoreTelnetInit_nonblock hwanted hok
      simp [handlerCall, slot, init, Int.not_lt.mpr hfd, hnonblock]

end Flags

/--
For every state of the server and every backlog: the accept handler of a socket
that was opened with `NV_OK` returns after serving each pending client once exactly
if it is the telnet socket and `fcntl` has made it non-blocking.
-/
theorem acceptHandler_servesBacklog_iff
    (env : TelnetEnv)
    (l : Listener)
    (os : ListenOs)
    (ctx : ListenCtx)
    (hwanted : l.Wanted ctx)
    (hok : (l.init os ctx).2 = .ok)
    (srv : TelnetServer)
    (backlog : List Client) :
    l.ServesBacklog env (l.init os ctx).1 srv backlog ↔
      l = .telnet ∧ os.getFlags = true ∧ os.setFlags = true := by
  unfold Listener.ServesBacklog
  rw [Listener.handlerCall_init hwanted hok]
  constructor
  · rintro ⟨n, hreturned, -⟩
    by_contra hblock
    exact not_returned (decide_eq_false hblock) rfl _ hreturned
  · intro hnonblock
    have hl : l = .telnet := hnonblock.1
    subst hl
    have hserve : backlog.foldlM (Listener.telnet.serve env) srv =
        some (backlog.foldl (fun srv c => srv.accept env c.cfd c.block c.added) srv) :=
      List.foldlM_pure
    refine ⟨backlog.length + 1, ?_⟩
    rw [decide_eq_true hnonblock, run_turns hserve]
    exact ⟨rfl, rfl, hserve⟩

theorem nvCoreCtlAcceptHandler_never_returns (env : TelnetEnv) {os : ListenOs} {ctx : ListenCtx}
    (hwanted : Listener.ctl.Wanted ctx) (hok : (nvCoreCtlInit os ctx).2 = .ok) (srv : TelnetServer)
    (backlog : List Client) (as : List (Action Client)) :
    (run (step (Listener.ctl.serve env))
      (Listener.ctl.handlerCall (nvCoreCtlInit os ctx).1 srv backlog) as).pc ≠ .returned := by
  obtain ⟨hfd, hblock⟩ := nvCoreCtlInit_blocking hwanted hok
  refine not_returned hblock ?_ as
  simp [Listener.handlerCall, Listener.slot, Int.not_lt.mpr hfd]

/-- The default configuration with the telnet console, before the sockets are opened. -/
def beforeListening : ListenCtx where
  opts := { defaultOpts with telnetEnable := 1 }
  ctl := ⟨false, 0, -1⟩
  telnet := ⟨false, 0, -1⟩
  nonblock := fun _ => false

/-- Every system call works, and `socket` returns 7. -/
def listenOk : ListenOs where
  socket := some 7
  inetPton := true
  bind := true
  listen := true
  getFlags := true
  setFlags := true
  addEvent := true

def pingClient : Client where
  cfd := 8
  request := some (lit "ping\n").bytes
  block := some 1
  added := true

/-- The telnet handler returns when it has accepted two clients. -/
theorem two_telnet_clients :
    Listener.telnet.ServesBacklog plainEnv (nvCoreTelnetInit listenOk beforeListening).1
      (serverInit plainCli fun self => newSess self (-1))
      [pingClient, { cfd := 9, request := none, block := some 2, added := true }] :=
  (acceptHandler_servesBacklog_iff plainEnv .telnet listenOk beforeListening (by decide) (by decide)
    _ _).mpr (by decide)

/-- The control handler serves `ping` and stays in `accept`. -/
theorem ping_blocks_the_loop :
    (∀ n : Nat,
      (Transition.run (step (Listener.ctl.serve plainEnv))
        (Listener.ctl.handlerCall (nvCoreCtlInit listenOk beforeListening).1
          (serverInit plainCli fun self => newSess self (-1)) [pingClient])
        (List.replicate n .turn)).pc ≠ .returned) ∧
      ¬ Listener.ctl.ServesBacklog plainEnv (nvCoreCtlInit listenOk beforeListening).1
        (serverInit plainCli fun self => newSess self (-1)) [pingClient] := by
  have hnever : ∀ n : Nat,
      (run (step (Listener.ctl.serve plainEnv))
        (Listener.ctl.handlerCall (nvCoreCtlInit listenOk beforeListening).1
          (serverInit plainCli fun self => newSess self (-1)) [pingClient])
        (List.replicate n .turn)).pc ≠ .returned :=
    fun n => nvCoreCtlAcceptHandler_never_returns plainEnv (by decide) (by decide) _ _ _
  refine ⟨hnever, ?_⟩
  rintro ⟨n, hreturned, -⟩
  exact hnever n hreturned

end Libnv.Cli
