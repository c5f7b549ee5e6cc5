import Mathlib.Logic.Function.Basic
import Libnv.Lib.CString
import Libnv.Lib.Resources
import Libnv.Lib.Transition

/-!
# Descriptors and connection objects of `nv_tcp.c`

`nv_tcp_bind`, `nv_tcp_listen` and `nv_tcp_connect` close the socket when the
system call fails, and leave its number in the object.  `nv_tcp_client_connect`
frees the connection object when a call after the allocation fails, and leaves its
address in the client.

A descriptor is named by the call of `socket` that returned it, and an object by
the call of `malloc`: what is released again is seen to be so even if the system
has given the number or the address out once more.  Freed memory keeps its
contents.  `loop` pointers are left out, since nothing here reads them.
-/

namespace Libnv.Tcp

open Resources Transition

/-- `nv_tcp_state_t`. -/
inductive TcpState where
  | closed
  | listening
  | connecting
  | connected
  | closing
deriving DecidableEq

/-- `nv_tcp_t`. -/
structure NvTcp where
  /-- The descriptor, or `none` for -1. -/
  socketfd : Option Nat
  port : Nat
  state : TcpState
deriving DecidableEq

/-- `nv_tcp_client_t`. -/
structure NvTcpClient where
  /-- The connection object, or `none` for `NULL`. -/
  connection : Option Nat
  serverIp : Option CString
  serverPort : Int
  timeoutMs : Int
deriving DecidableEq

/-- One `nv_tcp_t` and one `nv_tcp_client_t`, with what the system has given out for them. -/
structure TcpWorld where
  tcp : NvTcp
  client : NvTcpClient
  /-- The connection objects in memory. -/
  objects : Nat → NvTcp
  /-- The descriptors that `socket` has returned. -/
  fds : List (Resource Nat)
  /-- The connection objects that `malloc` has returned. -/
  blocks : List (Resource Nat)
  /-- A connection object was read or written after it had been freed. -/
  usedFreed : Bool

/-- What the system calls of `nv_tcp_client_connect` do. -/
structure ConnectOs where
  malloc : Bool
  socket : Bool
  inetPton : Bool
  connect : Bool
  strdup : Bool
deriving DecidableEq

/-- `memset` to zero and then the result of `socket`. -/
def newConnection (socketfd : Option Nat) : NvTcp where
  socketfd := socketfd
  port := 0
  state := .closed

namespace TcpWorld

variable (w : TcpWorld)

/-- `close`, which fails for -1. -/
def close (fd : Option Nat) : TcpWorld :=
  match fd with
  | none => w
  | some fd => { w with fds := release fd w.fds }

@[simp] theorem close_tcp (fd : Option Nat) : (w.close fd).tcp = w.tcp := by
  cases fd <;> rfl

/-- `free` of a connection object. -/
def free (o : Nat) : TcpWorld :=
  { w with blocks := release o w.blocks }

/-- The connection object `o` is read or written. -/
def use (o : Nat) : TcpWorld :=
  { w with usedFreed := w.usedFreed || !decide (Live o w.blocks) }

/-- Writes the connection object `o`. -/
def putObject (o : Nat) (tcp : NvTcp) : TcpWorld :=
  { w.use o with objects := Function.update w.objects o tcp }

end TcpWorld

section Functions

variable (w : TcpWorld)

/-- `socket` says whether `nv_tcp_socket_create` succeeds. -/
def nvTcpInit (socket : Bool) : TcpWorld × Int :=
  if socket then
    ({ w with
        tcp := { w.tcp with socketfd := some w.fds.length, state := .closed }
        fds := acquire w.fds.length w.fds }, 0)
  else ({ w with tcp := { w.tcp with socketfd := none } }, -1)

/-- `ok` says whether `bind` succeeds. -/
def nvTcpBind (port : Nat) (ok : Bool) : TcpWorld × Int :=
  if ok then ({ w with tcp := { w.tcp with port := port } }, 0)
  else (w.close w.tcp.socketfd, -1)

/-- `ok` says whether `listen` succeeds. -/
def nvTcpListen (ok : Bool) : TcpWorld × Int :=
  if ok then ({ w with tcp := { w.tcp with state := .listening } }, 0)
  else (w.close w.tcp.socketfd, -1)

/-- `ok` says whether `connect` succeeds. -/
def nvTcpConnect (ok : Bool) : TcpWorld × Int :=
  if ok then ({ w with tcp := { w.tcp with state := .connected } }, 0)
  else ({ w.close w.tcp.socketfd with tcp := { w.tcp with state := .closed } }, -1)

def nvTcpClose : TcpWorld × Int :=
  ({ w.close w.tcp.socketfd with tcp := { w.tcp with socketfd := none, state := .closed } }, 0)

/-- `loop` says whether the loop is not `NULL`. -/
def nvTcpClientCreate (loop : Bool) : TcpWorld × Int :=
  if loop then
    ({ w with
        client := { connection := none, serverIp := none, serverPort := 0, timeoutMs := 5000 } }, 0)
  else (w, -1)

def nvTcpClientConnect (ip : Option CString) (port : Int) (os : ConnectOs) : TcpWorld × Int :=
  match ip with
  | none => (w, -1)
  | some ip =>
      if !os.malloc then ({ w with client := { w.client with connection := none } }, -1)
      else
        let o := w.blocks.length
        let w :=
          { w with
            client := { w.client with connection := some o }
            blocks := acquire o w.blocks }
        if !os.socket then ((w.putObject o (newConnection none)).free o, -1)
        else
          let fd := w.fds.length
          let w := { w with fds := acquire fd w.fds }.putObject o (newConnection (some fd))
          if !os.inetPton then ((w.close (some fd)).free o, -1)
          else if !os.connect then ((w.close (some fd)).free o, -1)
          else
            let w := w.putObject o { newConnection (some fd) with state := .connected }
            ({ w with
                client := { w.client with
                  serverIp := if os.strdup then some ip else none
                  serverPort := port } }, 0)

def nvTcpClientDisconnect : TcpWorld × Int :=
  let w :=
    match w.client.connection with
    | none => w
    | some o =>
        let object := (w.use o).objects o
        let w := ((w.use o).close object.socketfd).putObject o
          { object with socketfd := none, state := .closed }
        { w.free o with client := { w.client with connection := none } }
  ({ w with client := { w.client with serverIp := none } }, 0)

/-- The calls on the two objects, with what the system does in them. -/
inductive TcpCall where
  | init (socket : Bool)
  | bind (port : Nat) (ok : Bool)
  | listen (ok : Bool)
  | connect (ok : Bool)
  | close
  | clientCreate (loop : Bool)
  | clientConnect (ip : Option CString) (port : Int) (os : ConnectOs)
  | clientDisconnect
deriving DecidableEq

def TcpCall.result : TcpCall → TcpWorld × Int
  | .init socket => nvTcpInit w socket
  | .bind port ok => nvTcpBind w port ok
  | .listen ok => nvTcpListen w ok
  | .connect ok => nvTcpConnect w ok
  | .close => nvTcpClose w
  | .clientCreate loop => nvTcpClientCreate w loop
  | .clientConnect ip port os => nvTcpClientConnect w ip port os
  | .clientDisconnect => nvTcpClientDisconnect w

/-- One call. -/
def tcpStep (a : TcpCall) : TcpWorld :=
  (a.result w).1

/-- Two objects that hold nothing yet. -/
def tcpWorld (tcp : NvTcp) (client : NvTcpClient) (objects : Nat → NvTcp) : TcpWorld where
  tcp := { tcp with socketfd := none }
  client := { client with connection := none }
  objects := objects
  fds := []
  blocks := []
  usedFreed := false

end Functions

/-- Nothing was released twice, and no connection object used after it was freed. -/
structure Released (w : TcpWorld) : Prop where
  fds : OnceReleased w.fds
  blocks : OnceReleased w.blocks
  used : w.usedFreed = false

/-- A client that failed to connect holds `NULL` or a live object. -/
def FailedConnect (w : TcpWorld) (a : TcpCall) : Prop :=
  match a with
  | .clientConnect .. =>
      (a.result w).2 = -1 → ∀ o ∈ (tcpStep w a).client.connection, Live o (tcpStep w a).blocks
  | .init _ | .bind .. | .listen _ | .connect _ | .close | .clientCreate _ | .clientDisconnect =>
      True

/-- What is asked of every call. -/
def CallSound (w : TcpWorld) (a : TcpCall) : Prop :=
  Released (tcpStep w a) ∧ FailedConnect w a

/-- What the calls so far have left in the `nv_tcp_t`. -/
inductive Holding where
  /-- No socket. -/
  | nothing
  /-- The socket of the last `nv_tcp_init`. -/
  | held
  /-- The number of a socket that a failed call has closed. -/
  | stale
deriving DecidableEq

/-- The call is a `nv_tcp_bind`, `nv_tcp_listen` or `nv_tcp_connect` that fails. -/
def TcpCall.fails : TcpCall → Bool
  | .bind _ ok | .listen ok | .connect ok => !ok
  | .init _ | .close | .clientCreate _ | .clientConnect .. | .clientDisconnect => false

/-- What a call makes of it. -/
def holdingStep (h : Holding) (a : TcpCall) : Holding :=
  match a with
  | .init socket => if socket then .held else .nothing
  | .close => .nothing
  | .bind .. | .listen _ | .connect _ | .clientCreate _ | .clientConnect .. | .clientDisconnect =>
      if a.fails ∧ h = .held then .stale else h

/--
No `nv_tcp_close` and no failure on a socket that a failed call has closed, and no
failure of `nv_tcp_client_connect` after its `malloc`.
-/
def CallApart (h : Holding) (a : TcpCall) : Prop :=
  match a with
  | .bind .. | .listen _ | .connect _ => a.fails → h ≠ .stale
  | .close => h ≠ .stale
  | .clientConnect (some _) _ os => os.malloc → os.socket ∧ os.inetPton ∧ os.connect
  | .clientConnect none .. | .init _ | .clientCreate _ | .clientDisconnect => True

section Relation

/-- What `h` says about the `nv_tcp_t`. -/
def Holding.Describes (h : Holding) (w : TcpWorld) : Prop :=
  match h with
  | .nothing => w.tcp.socketfd = none
  | .held => ∃ fd, w.tcp.socketfd = some fd ∧ Live fd w.fds
  | .stale =>
      ∃ fd, w.tcp.socketfd = some fd ∧ fd ∈ w.fds.map Resource.name ∧ ¬ Live fd w.fds

/-- The client's connection object is live and has a live socket of its own. -/
def ClientLive (w : TcpWorld) : Prop :=
  ∀ o, w.client.connection = some o → Live o w.blocks ∧
    ∃ fd, (w.objects o).socketfd = some fd ∧ Live fd w.fds ∧ w.tcp.socketfd ≠ some fd

/-- The calls so far have been kept apart and have left `h`. -/
structure TcpRel (w : TcpWorld) (h : Holding) : Prop where
  fds : Tidy w.fds
  blocks : Tidy w.blocks
  used : w.usedFreed = false
  holding : h.Describes w
  client : ClientLive w

variable {w : TcpWorld} {h : Holding}

theorem TcpRel.closeStale (hrel : TcpRel w .stale) :
    ¬ OnceReleased (w.close w.tcp.socketfd).fds := by
  obtain ⟨fd, hfd, hknown, hclosed⟩ := hrel.holding
  rw [hfd]
  exact fun honce =>
    hclosed ((onceReleased_release_iff hrel.fds.well hrel.fds.once hknown).mp honce)

variable (hrel : TcpRel w h)
include hrel

theorem TcpRel.released : Released w where
  fds := hrel.fds.once
  blocks := hrel.blocks.once
  used := hrel.used

/-- Fields other than the socket are written. -/
theorem TcpRel.setTcp {tcp : NvTcp} (hfd : tcp.socketfd = w.tcp.socketfd) :
    TcpRel { w with tcp := tcp } h := by
  refine ⟨hrel.fds, hrel.blocks, hrel.used, ?_, ?_⟩
  · have hholding := hrel.holding
    cases h with
    | nothing | held | stale =>
        simp only [Holding.Describes, hfd] at hholding ⊢
        exact hholding
  · intro o ho
    obtain ⟨hlive, fd, hsocket, hopen, hother⟩ := hrel.client o ho
    refine ⟨hlive, fd, hsocket, hopen, ?_⟩
    dsimp only
    rw [hfd]
    exact hother

theorem TcpRel.clearSocket {tcp : NvTcp} (hfd : tcp.socketfd = none) :
    TcpRel { w with tcp := tcp } .nothing := by
  refine ⟨hrel.fds, hrel.blocks, hrel.used, hfd, ?_⟩
  intro o ho
  obtain ⟨hlive, fd, hsocket, hopen, -⟩ := hrel.client o ho
  refine ⟨hlive, fd, hsocket, hopen, ?_⟩
  dsimp only
  rw [hfd]
  exact (Option.some_ne_none fd).symm

theorem TcpRel.newSocket (tcp : NvTcp) :
    TcpRel
      { w with
        tcp := { tcp with socketfd := some w.fds.length }
        fds := acquire w.fds.length w.fds } .held := by
  refine ⟨hrel.fds.acquire, hrel.blocks, hrel.used, ⟨_, rfl, live_acquire_iff.mpr (.inl rfl)⟩, ?_⟩
  intro o ho
  obtain ⟨hlive, fd, hsocket, hopen, -⟩ := hrel.client o ho
  refine ⟨hlive, fd, hsocket, live_acquire_iff.mpr (.inr hopen), ?_⟩
  have hlt : fd < w.fds.length := hrel.fds.lt_of_live hopen
  exact fun heq => hlt.ne' (Option.some.inj heq)

theorem TcpRel.closeSocket (hapart : h ≠ .stale) :
    TcpRel (w.close w.tcp.socketfd) (if h = .held then .stale else h) := by
  cases h with
  | nothing =>
      have hnone : w.tcp.socketfd = none := hrel.holding
      rw [hnone]
      exact hrel
  | held =>
      obtain ⟨fd, hfd, hlive⟩ := hrel.holding
      rw [hfd]
      have hclosed : ∀ {x}, Live x (release fd w.fds) ↔ Live x w.fds ∧ x ≠ fd :=
        live_release_iff hrel.fds.well
      refine ⟨hrel.fds.release hlive, hrel.blocks, hrel.used, ⟨fd, hfd, ?_, ?_⟩, ?_⟩
      · change fd ∈ (release fd w.fds).map Resource.name
        rw [map_name_release]
        exact List.mem_map_of_mem hlive
      · exact fun hopen => (hclosed.mp hopen).2 rfl
      · intro o ho
        obtain ⟨hobject, fd', hsocket, hopen, hother⟩ := hrel.client o ho
        refine ⟨hobject, fd', hsocket, hclosed.mpr ⟨hopen, ?_⟩, hother⟩
        rintro rfl
        exact hother hfd
  | stale => exact absurd rfl hapart

theorem TcpRel.socket_lt {fd : Nat} (hfd : w.tcp.socketfd = some fd) : fd < w.fds.length := by
  have hholding := hrel.holding
  cases h with
  | nothing => exact absurd (hfd.symm.trans hholding) (Option.some_ne_none fd)
  | held =>
      obtain ⟨fd', hfd', hlive⟩ := hholding
      obtain rfl := Option.some.inj (hfd.symm.trans hfd')
      exact hrel.fds.lt_of_live hlive
  | stale =>
      obtain ⟨fd', hfd', hknown, -⟩ := hholding
      obtain rfl := Option.some.inj (hfd.symm.trans hfd')
      exact hrel.fds.numbered _ hknown

end Relation

section Client

variable {w : TcpWorld} {h : Holding} (hrel : TcpRel w h)
include hrel

theorem TcpRel.clearClient
    {client : NvTcpClient} (hnone : client.connection = none) :
    TcpRel { w with client := client } h := by
  refine ⟨hrel.fds, hrel.blocks, hrel.used, hrel.holding, ?_⟩
  intro o ho
  rw [hnone] at ho
  exact absurd ho.symm (Option.some_ne_none o)

theorem TcpRel.clientConnected (ip : CString) (port : Int) {os : ConnectOs}
    (hmalloc : os.malloc = true)
    (hall : os.socket = true ∧ os.inetPton = true ∧ os.connect = true) :
    TcpRel (nvTcpClientConnect w (some ip) port os).1 h := by
  obtain ⟨hsocket, hinet, hconnect⟩ := hall
  have hblock : Live w.blocks.length (acquire w.blocks.length w.blocks) :=
    live_acquire_iff.mpr (.inl rfl)
  have hfd : Live w.fds.length (acquire w.fds.length w.fds) := live_acquire_iff.mpr (.inl rfl)
  simp only [nvTcpClientConnect, hmalloc, hsocket, hinet, hconnect, Bool.not_true,
    Bool.false_eq_true, if_false, TcpWorld.putObject, TcpWorld.use, hblock, decide_true,
    Bool.or_false]
  refine ⟨hrel.fds.acquire, hrel.blocks.acquire, hrel.used, ?_, ?_⟩
  · have hholding := hrel.holding
    cases h with
    | nothing => exact hholding
    | held =>
        obtain ⟨fd, hsocketfd, hlive⟩ := hholding
        exact ⟨fd, hsocketfd, live_acquire_iff.mpr (.inr hlive)⟩
    | stale =>
        obtain ⟨fd, hsocketfd, hknown, hclosed⟩ := hholding
        refine ⟨fd, hsocketfd, List.mem_cons_of_mem _ hknown, ?_⟩
        rw [live_acquire_iff]
        rintro (rfl | hlive)
        · exact Nat.lt_irrefl _ (hrel.fds.numbered _ hknown)
        · exact hclosed hlive
  · intro o ho
    obtain rfl := Option.some.inj ho
    refine ⟨hblock, w.fds.length, ?_, hfd, ?_⟩
    · dsimp only
      rw [Function.update_self]
      rfl
    · intro heq
      exact Nat.lt_irrefl _ (hrel.socket_lt heq)

/-- A connection that breaks after the allocation leaves its freed object behind. -/
theorem TcpRel.clientBroken (ip : CString) (port : Int) {os : ConnectOs}
    (hmalloc : os.malloc = true)
    (hsome : ¬ (os.socket = true ∧ os.inetPton = true ∧ os.connect = true)) :
    ¬ FailedConnect w (.clientConnect (some ip) port os) := by
  have hdead : ¬ Live w.blocks.length
      (release w.blocks.length (acquire w.blocks.length w.blocks)) :=
    fun hlive => ((live_release_iff hrel.blocks.acquire.well).mp hlive).2 rfl
  intro hfailed
  simp only [FailedConnect, tcpStep, TcpCall.result, nvTcpClientConnect, hmalloc] at hfailed
  cases hsocket : os.socket with
  | false =>
      simp only [hsocket] at hfailed
      exact hdead (hfailed rfl _ rfl)
  | true =>
      cases hinet : os.inetPton with
      | false =>
          simp only [hsocket, hinet] at hfailed
          exact hdead (hfailed rfl _ rfl)
      | true =>
          have hconnect : os.connect = false :=
            Bool.eq_false_iff.mpr fun hconnect => hsome ⟨hsocket, hinet, hconnect⟩
          simp only [hsocket, hinet, hconnect] at hfailed
          exact hdead (hfailed rfl _ rfl)

theorem TcpRel.clientDisconnect : TcpRel (nvTcpClientDisconnect w).1 h := by
  cases hconnection : w.client.connection with
  | none =>
      simp only [nvTcpClientDisconnect, hconnection]
      exact hrel.clearClient rfl
  | some o =>
      obtain ⟨hobject, fd, hsocket, hopen, hother⟩ := hrel.client o hconnection
      have hclosed : ∀ {x}, Live x (release fd w.fds) ↔ Live x w.fds ∧ x ≠ fd :=
        live_release_iff hrel.fds.well
      simp only [nvTcpClientDisconnect, hconnection, TcpWorld.use, hobject, decide_true,
        Bool.not_true, Bool.or_false, hsocket, TcpWorld.close, TcpWorld.putObject, TcpWorld.free]
      refine ⟨hrel.fds.release hopen, hrel.blocks.release hobject, hrel.used, ?_, ?_⟩
      · have hholding := hrel.holding
        cases h with
        | nothing => exact hholding
        | held =>
            obtain ⟨fd', hfd', hlive⟩ := hholding
            refine ⟨fd', hfd', hclosed.mpr ⟨hlive, ?_⟩⟩
            rintro rfl
            exact hother hfd'
        | stale =>
            obtain ⟨fd', hfd', hknown, hdead⟩ := hholding
            refine ⟨fd', hfd', ?_, fun hlive => hdead (hclosed.mp hlive).1⟩
            dsimp only
            rwa [map_name_release]
      · intro o' ho'
        exact absurd ho'.symm (Option.some_ne_none o')

end Client

section Step

variable {w : TcpWorld} {h : Holding}

theorem TcpRel.attempt (hrel : TcpRel w h) {a : TcpCall}
    (hfailed : a.fails = true →
      tcpStep w a = { w.close w.tcp.socketfd with tcp := (tcpStep w a).tcp })
    (hdone : a.fails = false → tcpStep w a = { w with tcp := (tcpStep w a).tcp })
    (hsocket : (tcpStep w a).tcp.socketfd = w.tcp.socketfd)
    (hapart : a.fails → h ≠ .stale) :
    TcpRel (tcpStep w a) (if a.fails ∧ h = .held then .stale else h) := by
  cases hfails : a.fails with
  | true =>
      have hclosed := hrel.closeSocket (hapart hfails)
      rw [hfailed hfails]
      simp only [true_and]
      exact hclosed.setTcp (by rw [TcpWorld.close_tcp, hsocket])
  | false =>
      rw [hdone hfails]
      simp only [Bool.false_eq_true, false_and, if_false]
      exact hrel.setTcp hsocket

theorem TcpRel.step (hrel : TcpRel w h) {a : TcpCall} (hapart : CallApart h a) :
    TcpRel (tcpStep w a) (holdingStep h a) := by
  have hsocket : (w.close w.tcp.socketfd).tcp.socketfd = w.tcp.socketfd := by
    rw [TcpWorld.close_tcp]
  cases a with
  | init socket =>
      cases socket with
      | true => exact hrel.newSocket { w.tcp with state := .closed }
      | false => exact hrel.clearSocket rfl
  | bind port ok =>
      cases ok with
      | true => exact hrel.attempt Bool.noConfusion (fun _ => rfl) rfl hapart
      | false => exact hrel.attempt (fun _ => rfl) Bool.noConfusion hsocket hapart
  | listen ok =>
      cases ok with
      | true => exact hrel.attempt Bool.noConfusion (fun _ => rfl) rfl hapart
      | false => exact hrel.attempt (fun _ => rfl) Bool.noConfusion hsocket hapart
  | connect ok =>
      cases ok with
      | true => exact hrel.attempt Bool.noConfusion (fun _ => rfl) rfl hapart
      | false => exact hrel.attempt (fun _ => rfl) Bool.noConfusion rfl hapart
  | close => exact (hrel.closeSocket hapart).clearSocket rfl
  | clientCreate loop =>
      cases loop with
      | true => exact hrel.clearClient rfl
      | false => exact hrel
  | clientConnect ip port os =>
      cases ip with
      | none => exact hrel
      | some ip =>
          cases hmalloc : os.malloc with
          | true => exact hrel.clientConnected ip port hmalloc (hapart hmalloc)
          | false =>
              have hnone : (tcpStep w (.clientConnect (some ip) port os)) =
                  { w with client := { w.client with connection := none } } := by
                simp [tcpStep, TcpCall.result, nvTcpClientConnect, hmalloc]
              rw [hnone]
              exact hrel.clearClient rfl
  | clientDisconnect => exact hrel.clientDisconnect

theorem TcpRel.callSound_iff (hrel : TcpRel w h) (a : TcpCall) : CallSound w a ↔ CallApart h a := by
  constructor
  · rintro ⟨hreleased, hfailed⟩
    -- A call that closes a stale number closes it twice.
    have hstale : (tcpStep w a).fds = (w.close w.tcp.socketfd).fds → h ≠ .stale := by
      rintro heq rfl
      exact hrel.closeStale (heq ▸ hreleased.fds)
    cases a with
    | bind port ok =>
        intro hfails
        obtain rfl : ok = false := by simpa [TcpCall.fails] using hfails
        exact hstale rfl
    | listen ok =>
        intro hfails
        obtain rfl : ok = false := by simpa [TcpCall.fails] using hfails
        exact hstale rfl
    | connect ok =>
        intro hfails
        obtain rfl : ok = false := by simpa [TcpCall.fails] using hfails
        exact hstale rfl
    | close => exact hstale rfl
    | clientConnect ip port os =>
        cases ip with
        | none => trivial
        | some ip =>
            intro hmalloc
            by_contra hsome
            exact hrel.clientBroken ip port hmalloc hsome hfailed
    | init _ | clientCreate _ | clientDisconnect => trivial
  · intro hapart
    have hstep := hrel.step hapart
    refine ⟨hstep.released, ?_⟩
    cases a with
    | clientConnect ip port os => exact fun _ o ho => (hstep.client o ho).1
    | init _ | bind _ _ | listen _ | connect _ | close | clientCreate _ | clientDisconnect =>
        trivial

theorem tcpWorld_rel (tcp : NvTcp) (client : NvTcpClient) (objects : Nat → NvTcp) :
    TcpRel (tcpWorld tcp client objects) .nothing where
  fds := tidy_nil
  blocks := tidy_nil
  used := rfl
  holding := rfl
  client o ho := absurd ho.symm (Option.some_ne_none o)

end Step

/--
In a sequence of calls on a `nv_tcp_t` and a `nv_tcp_client_t`, whatever fails in
them, nothing is released twice, no freed connection object is used and a failed
`nv_tcp_client_connect` leaves `NULL` or a live object, exactly if

* no `nv_tcp_close`, and no `nv_tcp_bind`, `nv_tcp_listen` or `nv_tcp_connect` that
  fails, comes after one of the latter that failed without a `nv_tcp_init` between;
* no `nv_tcp_client_connect` fails after its `malloc` has succeeded.
-/
theorem nvTcp_releases_once_iff
    (tcp : NvTcp)
    (client : NvTcpClient)
    (objects : Nat → NvTcp)
    (as : List TcpCall) :
    Along tcpStep CallSound (tcpWorld tcp client objects) as ↔
      Along holdingStep CallApart .nothing as := by
  have hall : Along tcpStep (fun _ _ => True) (tcpWorld tcp client objects) as :=
    (along_iff_forall_mem _ as).mpr fun _ _ => trivial
  refine along_iff_along_of_rel ?_ ?_ (tcpWorld_rel tcp client objects) hall
  · exact fun w h a hrel _ hapart => hrel.step hapart
  · exact fun w h a hrel _ => hrel.callSound_iff a

/-- An object with nothing in it. -/
def zeroTcp : NvTcp :=
  newConnection none

def zeroClient : NvTcpClient where
  connection := none
  serverIp := none
  serverPort := 0
  timeoutMs := 0

/--
A port that is in use: `nv_tcp_bind` closes the socket, and `nv_tcp_close` closes it
again.  A server that does not answer: the freed object is used, closed and freed
again by `nv_tcp_client_disconnect`.
-/
theorem failed_calls_release_twice :
    let busy := run tcpStep (tcpWorld zeroTcp zeroClient fun _ => zeroTcp)
      [.init true, .bind 80 false, .close]
    let refused := run tcpStep (tcpWorld zeroTcp zeroClient fun _ => zeroTcp)
      [.clientCreate true,
        .clientConnect (some CString.empty) 80
          { malloc := true, socket := true, inetPton := true, connect := false, strdup := true },
        .clientDisconnect]
    busy.fds = [⟨0, 2⟩] ∧
      refused.fds = [⟨0, 2⟩] ∧ refused.blocks = [⟨0, 2⟩] ∧ refused.usedFreed = true ∧
      ¬ Along tcpStep CallSound (tcpWorld zeroTcp zeroClient fun _ => zeroTcp)
        [.init true, .bind 80 false, .close] := by
  refine ⟨by decide, by decide, by decide, by decide, ?_⟩
  rintro ⟨-, -, hsound, -⟩
  have honce := hsound.1.fds
  exact absurd honce (by decide)

end Libnv.Tcp
