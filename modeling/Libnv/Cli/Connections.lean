import Libnv.Cli.History
import Libnv.Lib.Resources

/-!
# Descriptors of the telnet server

The accept handler owns a descriptor until `nv_telnet_sess_start` has made a
session of it; from then on `nv_telnet_sess_remove` closes it, at the end of the
input, when the process quits or in `nv_core_telnet_cleanup`.  A start that fails
is cleaned up by the accept handler, and, where the registration with the loop
fails, by `nv_telnet_sess_start` too.

The server is the list of sessions, the memory they lie in and the history of the
descriptors that `accept` has returned.  The kernel may return a number again
once it has been closed.
-/

namespace Libnv.Cli

open Transition CText Resources

/-- The telnet server of a process. -/
structure TelnetServer where
  cli : CliState
  /-- `g_telnet_sessions`, by address. -/
  sessions : List Nat
  /-- The sessions in memory. -/
  heap : Nat → TelnetSess
  /-- The descriptors that `accept` has returned. -/
  conns : List (Resource Int)

namespace TelnetServer

/-- Changes the session at the address `self`. -/
def putSess (srv : TelnetServer) (self : Nat) (sess : TelnetSess) : TelnetServer :=
  { srv with heap := Function.update srv.heap self sess }

def close (srv : TelnetServer) (fd : Int) : TelnetServer :=
  { srv with conns := release fd srv.conns }

/-- `nv_telnet_sess_free`. -/
def sessFree (srv : TelnetServer) (sess : TelnetSess) : TelnetServer :=
  if 0 ≤ sess.fd then srv.close sess.fd else srv

/-- `nv_telnet_sess_remove`. -/
def sessRemove (srv : TelnetServer) (self : Nat) : TelnetServer :=
  { srv with sessions := srv.sessions.erase self }.sessFree (srv.heap self)

/--
`nv_telnet_sess_start`: `block` is what `calloc` returns, and `added` says whether
`nv_loop_add_event` succeeds.
-/
def sessStart (env : TelnetEnv) (srv : TelnetServer) (cfd : Int) (block : Option Nat)
    (added : Bool) : TelnetServer × NvRc :=
  match block with
  | none => (srv, .error)
  | some self =>
      if added then
        let st := nvTelnetSessStart env srv.cli srv.sessions self cfd
        ({ srv with sessions := st.sessions }.putSess self st.sess, .ok)
      else (srv.sessFree (newSess self cfd), .error)

/-- A turn of the loop of `nv_telnet_accept_handler` in which `accept` returns `cfd`. -/
def accept (env : TelnetEnv) (srv : TelnetServer) (cfd : Int) (block : Option Nat)
    (added : Bool) : TelnetServer :=
  let srv := { srv with conns := acquire cfd srv.conns }
  match srv.sessStart env cfd block added with
  | (srv, .ok) => srv
  | (srv, _) => srv.close cfd

/-- The state in which the handler of the session at `self` is called. -/
def view (srv : TelnetServer) (self : Nat) : TelnetState where
  cli := srv.cli
  sessions := srv.sessions
  sess := srv.heap self
  freed := false
  trace := []

/-- `nv_telnet_client_handler`; a session that it removes has its descriptor closed. -/
def clientHandler (env : TelnetEnv) (srv : TelnetServer) (self : Nat)
    (input : Option (List UInt8)) : TelnetServer :=
  let st := nvTelnetClientHandler env (srv.view self) input
  let srv' := { srv with cli := st.cli, sessions := st.sessions }.putSess self st.sess
  if st.freed then srv'.sessFree (srv.heap self) else srv'

/--
`nv_core_telnet_cleanup`, whose loop removes the first session until there is
none; the descriptor that the server listens on is not one of `accept`'s.
-/
def cleanup (srv : TelnetServer) : TelnetServer :=
  srv.sessions.foldl sessRemove srv

end TelnetServer

inductive ServerAction where
  /-- `accept` returns `cfd`, with what `calloc` and `nv_loop_add_event` then do. -/
  | accept (cfd : Int) (block : Option Nat) (added : Bool)
  /-- The loop finds the session at `self` readable. -/
  | client (self : Nat) (input : Option (List UInt8))
  /-- `ctx->quit` is set, or other code changes the state of the console. -/
  | others (cli : CliState)
  /-- `nv_core_telnet_cleanup`. -/
  | cleanup

def serverStep (env : TelnetEnv) (srv : TelnetServer) : ServerAction → TelnetServer
  | .accept cfd block added => srv.accept env cfd block added
  | .client self input => srv.clientHandler env self input
  | .others cli => { srv with cli := cli }
  | .cleanup => srv.cleanup

/-- The server after `nv_core_telnet_init`. -/
def serverInit (cli : CliState) (heap : Nat → TelnetSess) : TelnetServer where
  cli := cli
  sessions := []
  heap := heap
  conns := []

/--
What the system does and the clients send: `accept` returns a number that is not
in use, `calloc` a block that is not in use, only sessions in the list are
registered with the loop, and no input runs a command that closes its session.
-/
def Happens (env : TelnetEnv) (srv : TelnetServer) : ServerAction → Prop
  | .accept cfd block _ =>
      (0 ≤ cfd ∧ ¬ Live cfd srv.conns) ∧ ∀ self ∈ block, self ∉ srv.sessions
  | .client self input => self ∈ srv.sessions ∧ InputKeepsOpen env (srv.view self) input
  | .others _ => True
  | .cleanup => True

/-- No descriptor is closed twice, and the sessions are distinct and have open descriptors. -/
structure ConnectionsSound (srv : TelnetServer) : Prop where
  once : OnceReleased srv.conns
  distinct : srv.sessions.Nodup
  live : ∀ self ∈ srv.sessions, Live (srv.heap self).fd srv.conns

/-- The step leaves the connections sound; a cleanup leaves every descriptor closed once. -/
def StepSound (env : TelnetEnv) (srv : TelnetServer) (a : ServerAction) : Prop :=
  ConnectionsSound (serverStep env srv a) ∧
    (a = .cleanup → ∀ r ∈ (serverStep env srv a).conns, r.releases = 1)

/-- A session that was allocated is registered with the loop. -/
def Registers : ServerAction → Prop
  | .accept _ (some _) added => added = true
  | .accept _ none _ | .client .. | .others _ | .cleanup => True

instance decidableRegisters : ∀ a, Decidable (Registers a)
  | .accept _ (some _) added => inferInstanceAs (Decidable (added = true))
  | .accept _ none _ | .client .. | .others _ | .cleanup => inferInstanceAs (Decidable True)

section Link

/-- What ties a session to the server: the list, its address and its descriptor. -/
def TelnetState.link (st : TelnetState) : List Nat × Nat × Int :=
  (st.sessions, st.sess.self, st.sess.fd)

theorem link_unedited : Unedited TelnetState.link where
  log _ _ := rfl
  shared _ _ := rfl
  edit _ _ _ _ _ _ _ := rfl

variable {st : TelnetState}

theorem link_sendLoginUser (env : TelnetEnv) : (nvTelnetSendLoginUser env st).link = st.link :=
  (link_unedited.write _ _).trans (link_unedited.write _ _)

theorem link_kept (env : TelnetEnv) (link : List Nat × Nat × Int) :
    Kept env fun st => st.freed = true ∨ st.link = link where
  log _ h := h
  terminate h := h
  recallUp h := by
    unfold TelnetState.upd TelnetSess.recallUp
    split_ifs <;> exact h
  recallDown h := by
    unfold TelnetState.upd TelnetSess.recallDown
    split_ifs <;> exact h
  atTab h := h
  complete _ _ h := h
  takeByte _ h := h
  endEscape h := h
  typed _ h := by
    simp only [TelnetState.upd, TelnetSess.typed]
    split_ifs <;> exact h
  backspace h := h
  clearLine h := h
  setUser _ h := h
  setState _ h := h
  clearHistory h := h
  leaveHistory h := h
  historyAdd _ h := by
    unfold nvTelnetHistoryAdd
    split_ifs <;> exact h
  execute _ _ h := h
  remove _ := Or.inl rfl

/-- Input that does not close the session leaves its link alone. -/
theorem link_feed (env : TelnetEnv) (bs : List UInt8)
    (hopen : (nvTelnetFeed env st bs).freed = false) : (nvTelnetFeed env st bs).link = st.link :=
  ((link_kept env st.link).feed bs (Or.inr rfl)).resolve_left (by simp [hopen])

/-- Input that runs no exit command does not close the session. -/
theorem open_of_keepsOpen (env : TelnetEnv) (bs : List UInt8) (hopen : st.freed = false)
    (htrace : st.trace = []) (hkeeps : FeedAlong env (fun st c => ¬ ClosesAt env st c) st bs) :
    (nvTelnetFeed env st bs).freed = false := by
  have hstart : FreedIffRemoved st := by
    simp [FreedIffRemoved, hopen, htrace]
  have hremoved : .remove ∉ (nvTelnetFeed env st bs).trace := by
    rw [nvTelnetFeed_remove_iff, htrace]
    simpa using hkeeps
  exact Bool.eq_false_iff.mpr (fun hfreed => hremoved ((hstart.feed env bs).mp hfreed))

/--
A call of the handler removes the session or leaves its link alone, if the input
runs no exit command.
-/
theorem nvTelnetClientHandler_link (env : TelnetEnv) (input : Option (List UInt8))
    (hopen : st.freed = false) (htrace : st.trace = []) (hkeeps : InputKeepsOpen env st input) :
    ((nvTelnetClientHandler env st input).freed = true ∧
        (nvTelnetClientHandler env st input).sessions = st.sessions.erase st.sess.self) ∨
      ((nvTelnetClientHandler env st input).freed = false ∧
        (nvTelnetClientHandler env st input).link = st.link) := by
  unfold nvTelnetClientHandler
  split_ifs with hfd
  · exact Or.inr ⟨hopen, rfl⟩
  · rcases input with _ | _ | ⟨c, rest⟩
    · exact Or.inl ⟨rfl, rfl⟩
    · exact Or.inl ⟨rfl, rfl⟩
    · have hfed : (nvTelnetFeed env st (c :: rest)).freed = false :=
        open_of_keepsOpen env _ hopen htrace (hkeeps (not_lt.mp hfd))
      have hlink := link_feed env _ hfed
      dsimp only
      split_ifs
      · refine Or.inl ⟨rfl, ?_⟩
        have hsessions := congrArg Prod.fst hlink
        have hself := congrArg (fun link => link.2.1) hlink
        exact congrArg₂ List.erase hsessions hself
      · exact Or.inr ⟨hfed, hlink⟩

end Link

section Invariant

variable {self : Nat} {srv' : TelnetServer}

/-- The open descriptors are those of the sessions, one each. -/
structure ServerInv (srv : TelnetServer) : Prop where
  well : WellNamed srv.conns
  once : OnceReleased srv.conns
  distinct : srv.sessions.Nodup
  addressed : ∀ self ∈ srv.sessions, (srv.heap self).self = self
  valid : ∀ self ∈ srv.sessions, 0 ≤ (srv.heap self).fd
  own : ∀ self ∈ srv.sessions, ∀ other ∈ srv.sessions,
    (srv.heap self).fd = (srv.heap other).fd → self = other
  live : ∀ fd, Live fd srv.conns ↔ ∃ self ∈ srv.sessions, (srv.heap self).fd = fd

variable {env : TelnetEnv} {srv : TelnetServer}

theorem link_sessStart (cli : CliState) (sessions : List Nat) (self : Nat) (cfd : Int) :
    (nvTelnetSessStart env cli sessions self cfd).link = (self :: sessions, self, cfd) := by
  unfold nvTelnetSessStart
  rw [link_sendLoginUser]
  have hwrite := link_unedited.writeRaw
    { cli := cli, sessions := sessions, sess := newSess self cfd, freed := false, trace := [] }
    gTelnetInit
  have hsessions := congrArg Prod.fst hwrite
  have hsess := congrArg Prod.snd hwrite
  exact Prod.ext (congrArg (self :: ·) hsessions) hsess

variable (h : ServerInv srv)
include h

theorem ServerInv.sound : ConnectionsSound srv where
  once := h.once
  distinct := h.distinct
  live self hself := (h.live _).mpr ⟨self, hself, rfl⟩

/-- Nothing happens to the list and the descriptors. -/
theorem ServerInv.frame (hsessions : srv'.sessions = srv.sessions) (hconns : srv'.conns = srv.conns)
    (haddr : ∀ self ∈ srv.sessions, (srv'.heap self).self = (srv.heap self).self)
    (hfd : ∀ self ∈ srv.sessions, (srv'.heap self).fd = (srv.heap self).fd) : ServerInv srv' := by
  have hmem : ∀ {self}, self ∈ srv'.sessions → self ∈ srv.sessions :=
    fun hself => hsessions ▸ hself
  constructor
  · rw [hconns]
    exact h.well
  · rw [hconns]
    exact h.once
  · rw [hsessions]
    exact h.distinct
  · intro self hself
    rw [haddr self (hmem hself)]
    exact h.addressed self (hmem hself)
  · intro self hself
    rw [hfd self (hmem hself)]
    exact h.valid self (hmem hself)
  · intro self hself other hother
    rw [hfd self (hmem hself), hfd other (hmem hother)]
    exact h.own self (hmem hself) other (hmem hother)
  · intro fd
    rw [hconns, h.live fd, hsessions]
    refine exists_congr fun self => and_congr_right fun hself => ?_
    rw [hfd self hself]

/-- A session leaves the list and its descriptor is closed; its memory may change. -/
theorem ServerInv.drop
    (hself : self ∈ srv.sessions) (hsessions : srv'.sessions = srv.sessions.erase self)
    (hconns : srv'.conns = release (srv.heap self).fd srv.conns)
    (hheap : ∀ other, other ≠ self → srv'.heap other = srv.heap other) : ServerInv srv' := by
  have hmem : ∀ {other}, other ∈ srv'.sessions ↔ other ≠ self ∧ other ∈ srv.sessions := by
    intro other
    rw [hsessions]
    exact h.distinct.mem_erase_iff
  have hlive : Live (srv.heap self).fd srv.conns := (h.live _).mpr ⟨self, hself, rfl⟩
  constructor
  · rw [hconns]
    exact h.well.release
  · rw [hconns]
    exact (onceReleased_release_iff h.well h.once (List.mem_map_of_mem hlive)).mpr hlive
  · rw [hsessions]
    exact h.distinct.erase self
  · intro other hother
    obtain ⟨hne, hother⟩ := hmem.mp hother
    rw [hheap other hne]
    exact h.addressed other hother
  · intro other hother
    obtain ⟨hne, hother⟩ := hmem.mp hother
    rw [hheap other hne]
    exact h.valid other hother
  · intro other hother third hthird
    obtain ⟨hne, hother⟩ := hmem.mp hother
    obtain ⟨hne', hthird⟩ := hmem.mp hthird
    rw [hheap other hne, hheap third hne']
    exact h.own other hother third hthird
  · intro fd
    rw [hconns, live_release_iff h.well, h.live]
    constructor
    · rintro ⟨⟨other, hother, rfl⟩, hfd⟩
      have hne : other ≠ self := by
        rintro rfl
        exact hfd rfl
      exact ⟨other, hmem.mpr ⟨hne, hother⟩, by rw [hheap other hne]⟩
    · rintro ⟨other, hother, rfl⟩
      obtain ⟨hne, hother⟩ := hmem.mp hother
      rw [hheap other hne]
      exact ⟨⟨other, hother, rfl⟩, fun hfd => hne (h.own other hother self hself hfd)⟩

theorem ServerInv.sessRemove (hself : self ∈ srv.sessions) : ServerInv (srv.sessRemove self) := by
  have heq : srv.sessRemove self =
      { srv with
        sessions := srv.sessions.erase self
        conns := release (srv.heap self).fd srv.conns } :=
    if_pos (h.valid self hself)
  rw [heq]
  exact h.drop hself rfl rfl (fun _ _ => rfl)

/-- The loop of `nv_core_telnet_cleanup` ends with an empty list. -/
theorem ServerInv.cleanup : ServerInv srv.cleanup ∧ srv.cleanup.sessions = [] := by
  suffices hloop : ∀ sessions srv, srv.sessions = sessions → ServerInv srv →
      ServerInv (sessions.foldl TelnetServer.sessRemove srv) ∧
        (sessions.foldl TelnetServer.sessRemove srv).sessions = [] from
    hloop srv.sessions srv rfl h
  intro sessions
  induction sessions with
  | nil => exact fun srv hsessions h => ⟨h, hsessions⟩
  | cons self sessions ih =>
      intro srv hsessions h
      have hself : self ∈ srv.sessions := hsessions ▸ List.mem_cons_self
      have hrest : (srv.sessRemove self).sessions = sessions := by
        have herase : (srv.sessRemove self).sessions = srv.sessions.erase self := by
          unfold TelnetServer.sessRemove TelnetServer.sessFree
          split <;> rfl
        rw [herase, hsessions, List.erase_cons_head]
      exact ih _ hrest (h.sessRemove hself)

theorem ServerInv.clientHandler (hself : self ∈ srv.sessions)
    {input : Option (List UInt8)} (hkeeps : InputKeepsOpen env (srv.view self) input) :
    ServerInv (srv.clientHandler env self input) := by
  obtain ⟨hfreed, hsessions⟩ | ⟨hfreed, hlink⟩ :=
    @nvTelnetClientHandler_link (srv.view self) env input rfl rfl hkeeps
  · have haddr : (srv.view self).sess.self = self := h.addressed self hself
    rw [haddr] at hsessions
    have heq : srv.clientHandler env self input =
        { cli := (nvTelnetClientHandler env (srv.view self) input).cli
          sessions := srv.sessions.erase self
          heap := Function.update srv.heap self
            (nvTelnetClientHandler env (srv.view self) input).sess
          conns := release (srv.heap self).fd srv.conns } := by
      simp only [TelnetServer.clientHandler, hfreed, hsessions, if_true, TelnetServer.sessFree,
        TelnetServer.putSess, TelnetServer.close, if_pos (h.valid self hself)]
      rfl
    rw [heq]
    exact h.drop hself rfl rfl (fun other hne => Function.update_of_ne hne _ srv.heap)
  · have hheap : ∀ {β : Type} (field : TelnetSess → β),
        field (nvTelnetClientHandler env (srv.view self) input).sess = field (srv.heap self) →
        ∀ other, field ((srv.clientHandler env self input).heap other) =
          field (srv.heap other) := by
      intro β field hfield other
      simp only [TelnetServer.clientHandler, hfreed, Bool.false_eq_true, if_false,
        TelnetServer.putSess]
      by_cases hother : other = self
      · rw [hother, Function.update_self, hfield]
      · rw [Function.update_of_ne hother]
    have hsessions : (srv.clientHandler env self input).sessions = srv.sessions := by
      simp only [TelnetServer.clientHandler, hfreed, Bool.false_eq_true, if_false,
        TelnetServer.putSess]
      exact congrArg Prod.fst hlink
    have hconns : (srv.clientHandler env self input).conns = srv.conns := by
      simp only [TelnetServer.clientHandler, hfreed, Bool.false_eq_true, if_false,
        TelnetServer.putSess]
    have haddr := hheap TelnetSess.self (congrArg (fun link => link.2.1) hlink)
    have hfd := hheap TelnetSess.fd (congrArg (fun link => link.2.2) hlink)
    exact h.frame hsessions hconns (fun other _ => haddr other) (fun other _ => hfd other)

/-- A connection that gets no session is closed by the accept handler. -/
theorem ServerInv.refuse {cfd : Int} (hcfd : ¬ Live cfd srv.conns) :
    ServerInv { srv with conns := release cfd (acquire cfd srv.conns) } := by
  have hwell : WellNamed (acquire cfd srv.conns) := h.well.acquire hcfd
  have hnew : Live cfd (acquire cfd srv.conns) := live_acquire_iff.mpr (Or.inl rfl)
  refine ⟨hwell.release, ?_, h.distinct, h.addressed, h.valid, h.own, ?_⟩
  · have honce : OnceReleased (acquire cfd srv.conns) := onceReleased_acquire_iff.mpr h.once
    exact (onceReleased_release_iff hwell honce (List.mem_map_of_mem hnew)).mpr hnew
  · intro fd
    rw [live_release_iff hwell, live_acquire_iff, ← h.live fd]
    constructor
    · rintro ⟨rfl | hlive, hne⟩
      · exact absurd rfl hne
      · exact hlive
    · intro hlive
      refine ⟨Or.inr hlive, ?_⟩
      rintro rfl
      exact hcfd hlive

/-- A session that is registered with the loop takes the connection over. -/
theorem ServerInv.start {cfd : Int}
    (hvalid : 0 ≤ cfd) (hnew : ¬ Live cfd srv.conns) (hself : self ∉ srv.sessions)
    (hsessions : srv'.sessions = self :: srv.sessions) (hconns : srv'.conns = acquire cfd srv.conns)
    (hheap : ∀ other ∈ srv.sessions, srv'.heap other = srv.heap other)
    (haddr : (srv'.heap self).self = self) (hfd : (srv'.heap self).fd = cfd) : ServerInv srv' := by
  have hunused : ∀ other ∈ srv.sessions, (srv.heap other).fd ≠ cfd := by
    rintro other hother rfl
    exact hnew ((h.live _).mpr ⟨other, hother, rfl⟩)
  constructor
  · rw [hconns]
    exact h.well.acquire hnew
  · rw [hconns]
    exact onceReleased_acquire_iff.mpr h.once
  · rw [hsessions]
    exact List.nodup_cons.mpr ⟨hself, h.distinct⟩
  · rw [hsessions]
    refine List.forall_mem_cons.mpr ⟨haddr, fun other hother => ?_⟩
    rw [hheap other hother]
    exact h.addressed other hother
  · rw [hsessions]
    refine List.forall_mem_cons.mpr ⟨hfd ▸ hvalid, fun other hother => ?_⟩
    rw [hheap other hother]
    exact h.valid other hother
  · rw [hsessions]
    refine List.forall_mem_cons.mpr ⟨?_, fun other hother => ?_⟩
    · refine List.forall_mem_cons.mpr ⟨fun _ => rfl, fun other hother => ?_⟩
      rw [hheap other hother, hfd]
      exact fun heq => absurd heq.symm (hunused other hother)
    · refine List.forall_mem_cons.mpr ⟨?_, fun third hthird => ?_⟩
      · rw [hheap other hother, hfd]
        exact fun heq => absurd heq (hunused other hother)
      · rw [hheap other hother, hheap third hthird]
        exact h.own other hother third hthird
  · intro fd
    rw [hconns, live_acquire_iff, h.live, hsessions]
    constructor
    · rintro (rfl | ⟨other, hother, rfl⟩)
      · exact ⟨self, List.mem_cons_self, hfd⟩
      · exact ⟨other, List.mem_cons_of_mem self hother, by rw [hheap other hother]⟩
    · rintro ⟨other, hother, rfl⟩
      rcases List.mem_cons.mp hother with rfl | hother
      · exact Or.inl hfd
      · exact Or.inr ⟨other, hother, by rw [hheap other hother]⟩

end Invariant

section Step

variable {env : TelnetEnv} {srv : TelnetServer}

/-- A registration that fails closes the descriptor in two functions. -/
theorem accept_unregistered
    (env : TelnetEnv) (h : ServerInv srv) {cfd : Int} (hcfd : 0 ≤ cfd ∧ ¬ Live cfd srv.conns) (self : Nat) :
    ¬ OnceReleased (srv.accept env cfd (some self) false).conns := by
  have hwell : WellNamed (acquire cfd srv.conns) := h.well.acquire hcfd.2
  have honce : OnceReleased (release cfd (acquire cfd srv.conns)) := (h.refuse hcfd.2).once
  have hclosed : ¬ Live cfd (release cfd (acquire cfd srv.conns)) :=
    fun hlive => ((live_release_iff hwell).mp hlive).2 rfl
  have hfree : (newSess self cfd).fd = cfd := rfl
  simp only [TelnetServer.accept, TelnetServer.sessStart, TelnetServer.sessFree, hfree,
    if_pos hcfd.1, TelnetServer.close, Bool.false_eq_true, if_false]
  rw [onceReleased_release_iff hwell.release honce (by simp [acquire, release])]
  exact hclosed

theorem ServerInv.accept (h : ServerInv srv) {cfd : Int} {block : Option Nat} {added : Bool}
    (hhappens : Happens env srv (.accept cfd block added))
    (hregisters : Registers (.accept cfd block added)) :
    ServerInv (srv.accept env cfd block added) := by
  obtain ⟨⟨hcfd, hnew⟩, hblock⟩ := hhappens
  cases block with
  | none => exact h.refuse hnew
  | some self =>
      have hadded : added = true := hregisters
      have hself : self ∉ srv.sessions := hblock self rfl
      have heq : srv.accept env cfd (some self) added =
          { srv with
            sessions := (nvTelnetSessStart env srv.cli srv.sessions self cfd).sessions
            heap := Function.update srv.heap self
              (nvTelnetSessStart env srv.cli srv.sessions self cfd).sess
            conns := acquire cfd srv.conns } := by
        simp only [TelnetServer.accept, TelnetServer.sessStart, hadded, if_true]
        rfl
      have hlink := @link_sessStart env srv.cli srv.sessions self cfd
      rw [heq]
      refine h.start hcfd hnew hself (congrArg Prod.fst hlink) rfl ?_ ?_ ?_
      · intro other hother
        refine Function.update_of_ne ?_ _ _
        rintro rfl
        exact hself hother
      · dsimp only
        rw [Function.update_self]
        exact congrArg (fun link => link.2.1) hlink
      · dsimp only
        rw [Function.update_self]
        exact congrArg (fun link => link.2.2) hlink

theorem ServerInv.step (h : ServerInv srv) {a : ServerAction} (hhappens : Happens env srv a)
    (hregisters : Registers a) : ServerInv (serverStep env srv a) := by
  cases a with
  | accept cfd block added => exact h.accept hhappens hregisters
  | client self input => exact h.clientHandler hhappens.1 hhappens.2
  | others cli => exact h.frame rfl rfl (fun _ _ => rfl) (fun _ _ => rfl)
  | cleanup => exact h.cleanup.1

theorem ServerInv.stepSound_iff (h : ServerInv srv) {a : ServerAction}
    (hhappens : Happens env srv a) : StepSound env srv a ↔ Registers a := by
  constructor
  · intro hsound
    cases a with
    | accept cfd block added =>
        cases block with
        | none => trivial
        | some self =>
            cases added with
            | true => exact rfl
            | false => exact absurd hsound.1.once (accept_unregistered env h hhappens.1 self)
    | client self input => trivial
    | others cli => trivial
    | cleanup => trivial
  · intro hregisters
    have hstep := h.step hhappens hregisters
    refine ⟨hstep.sound, ?_⟩
    rintro rfl
    -- No session is left, and only sessions have open descriptors.
    have hempty : (serverStep env srv .cleanup).sessions = [] := h.cleanup.2
    refine hstep.once.released_once fun fd hlive => ?_
    obtain ⟨self, hself, -⟩ := (hstep.live fd).mp hlive
    rw [hempty] at hself
    exact List.not_mem_nil hself

theorem serverInit_inv (cli : CliState) (heap : Nat → TelnetSess) :
    ServerInv (serverInit cli heap) where
  well := List.Pairwise.nil
  once := by simp [serverInit, OnceReleased]
  distinct := List.nodup_nil
  addressed := by simp [serverInit]
  valid := by simp [serverInit]
  own := by simp [serverInit]
  live := by simp [serverInit, Live]

end Step

/--
In every run of the telnet server in which no client runs an exit command, no
descriptor is closed twice, every cleanup leaves each descriptor that `accept` has
returned closed once, and the sessions are distinct and have open descriptors,
exactly if `nv_loop_add_event` succeeds for every session that was allocated.
-/
theorem nvTelnet_connections_closed_once_iff
    (env : TelnetEnv)
    (cli : CliState)
    (heap : Nat → TelnetSess)
    (as : List ServerAction)
    (hhappens : Transition.Along (serverStep env) (Happens env) (serverInit cli heap) as) :
    Transition.Along (serverStep env) (StepSound env) (serverInit cli heap) as ↔
      ∀ a ∈ as, Registers a := by
  rw [← @along_iff_forall_mem _ _ (serverStep env) Registers (serverInit cli heap) as]
  have hinit : ServerInv (serverInit cli heap) := serverInit_inv cli heap
  refine along_iff_along_of_along ?_ ?_ hinit hhappens
  · exact fun srv a h ha hregisters => h.step ha hregisters
  · exact fun srv a h ha => h.stepSound_iff ha

/-- Connections of the server below: descriptor 5 is used three times, once without a session. -/
def visitsRun : List ServerAction :=
  [.accept 5 none true, .accept 5 (some 1) true, .accept 6 (some 2) true, .client 1 none,
    .accept 5 (some 1) true, .others { plainCli with quit := true }, .client 2 (some [13]),
    .cleanup]

def plainServer : TelnetServer :=
  serverInit plainCli fun self => newSess self (-1)

theorem nvTelnet_connections_closed_once_visits :
    Transition.Along (serverStep plainEnv) (StepSound plainEnv) plainServer visitsRun := by
  refine (nvTelnet_connections_closed_once_iff plainEnv plainCli _ visitsRun ?_).mpr ?_
  · refine ⟨⟨by decide +kernel, by decide⟩, ⟨by decide +kernel, by decide +kernel⟩,
      ⟨by decide +kernel, by decide +kernel⟩, ⟨by decide +kernel, trivial⟩,
      ⟨by decide +kernel, by decide +kernel⟩, trivial, ⟨by decide +kernel, ?_⟩, trivial, trivial⟩
    intro _
    have hremove : .remove ∉ (nvTelnetFeed plainEnv (TelnetServer.view
        (run (serverStep plainEnv) plainServer (visitsRun.take 6)) 2) [13]).trace := by
      decide +kernel
    rw [nvTelnetFeed_remove_iff] at hremove
    exact not_not.mp (not_or.mp hremove).2
  · decide

/-- A registration with the loop that fails: descriptor 5 is closed twice. -/
theorem unregistered_session_closed_twice :
    Transition.Along (serverStep plainEnv) (Happens plainEnv) plainServer
        [.accept 5 (some 1) false] ∧
      (serverStep plainEnv plainServer (.accept 5 (some 1) false)).conns = [⟨5, 2⟩] ∧
      ¬ Transition.Along (serverStep plainEnv) (StepSound plainEnv) plainServer
        [.accept 5 (some 1) false] := by
  have hconns :
      (serverStep plainEnv plainServer (.accept 5 (some 1) false)).conns = [⟨5, 2⟩] := by
    decide +kernel
  refine ⟨⟨⟨by decide, by decide⟩, trivial⟩, hconns, ?_⟩
  rintro ⟨hsound, -⟩
  have honce := hsound.1.once
  rw [hconns] at honce
  exact absurd honce (by decide)

end Libnv.Cli
