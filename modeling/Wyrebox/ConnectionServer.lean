import Mathlib.Algebra.Order.BigOperators.Group.List
import Mathlib.Data.List.Nodup
import Mathlib.Data.List.Perm.Basic
import Mathlib.Tactic.Linarith

set_option autoImplicit false

/-!
# Starting and stopping the connection server

The main thread accepts connections and stops the server; each connection has a worker thread. The
workers go on while the main thread waits for them, and their steps interleave in any order.
-/
namespace Wyrebox.ConnectionServer

/-! ## The model -/

/-- How far `wyrebox_daemon_connection_server_run_session` is. A session that is `ended` has cleared its
    session object, one that is `released` its reference to the shared state. -/
inductive Phase where
  | queued
  | running
  | ended
  | closed
  | removed
  | released
  | reported
  deriving DecidableEq

/-- The references to the shared state that a worker holds. -/
def Phase.references : Phase → ℕ
  | .queued => 1
  | .running => 2
  | .ended => 1
  | .closed => 1
  | .removed => 1
  | .released => 0
  | .reported => 0

/-- Its connection is in `connections`. -/
def Phase.listed : Phase → Bool
  | .queued => true
  | .running => true
  | .ended => true
  | .closed => true
  | .removed => false
  | .released => false
  | .reported => false

/-- Where the main thread is: in its loop, in `wyrebox_daemon_connection_server_stop` with the connections
    it has still to shut down, or past the end of the server object. -/
inductive Main where
  | idle
  | stopping
  | shutting (left : List ℕ)
  | waiting
  | gone
  deriving DecidableEq

/-- The server, its listener, the shared state and the tracker. `abandoned` is what the last wait returned,
    since the last start. -/
structure Server where
  started : Bool
  generation : UInt32
  accepts : List UInt32
  retry : Option UInt32
  sessions : List (ℕ × Phase)
  connections : List ℕ
  shutDown : List ℕ
  inFlight : ℕ
  references : ℕ
  freed : Bool
  main : Main
  abandoned : Option ℕ

/-- `wyrebox_daemon_connection_server_new`: the server and the accept context share the state. -/
def Server.new : Server where
  started := false
  generation := 0
  accepts := []
  retry := none
  sessions := []
  connections := []
  shutDown := []
  inFlight := 0
  references := 2
  freed := false
  main := .idle
  abandoned := none

namespace Server

/-- `wyrebox_daemon_connection_server_shared_state_unref`. -/
def unref (s : Server) : Server :=
  { s with references := s.references - 1, freed := s.freed || s.references == 1 }

/-- `arm_accept_loop`. -/
def arm (s : Server) : Server := if s.started then { s with accepts := s.generation :: s.accepts } else s

/-- `wyrebox_daemon_socket_listener_start`, where the socket can be bound. -/
def start (s : Server) : Server :=
  arm { s with started := true, generation := s.generation + 1, abandoned := none }

/-- `wyrebox_daemon_connection_server_handle_connection`. -/
def handleConnection (s : Server) (connection : ℕ) : Server :=
  { s with
    sessions := (connection, .queued) :: s.sessions
    connections := s.connections ++ [connection]
    inFlight := s.inFlight + 1
    references := s.references + 1 }

/-- `accepted_connection_ready` with a connection, or without peer credentials. -/
def accepted (s : Server) (generation : UInt32) (connection : ℕ) (credentials : Bool) : Server :=
  let s := { s with accepts := s.accepts.erase generation }
  if s.started = false ∨ s.generation ≠ generation then s
  else (if credentials then s.handleConnection connection else s).arm

/-- `accepted_connection_ready` with an error. -/
def acceptFailed (s : Server) (generation : UInt32) (isExpected : Bool) : Server :=
  let s := { s with accepts := s.accepts.erase generation }
  if isExpected = false ∧ s.started ∧ s.generation = generation ∧ s.retry = none then { s with retry := some generation }
  else s

/-- `retry_accept_loop`. -/
def retryAccept (s : Server) (generation : UInt32) : Server :=
  let s := { s with retry := none }
  if s.started ∧ s.generation = generation then s.arm else s

/-- `wyrebox_daemon_socket_listener_stop`. -/
def stopListener (s : Server) : Server :=
  if s.started then { s with started := false, generation := s.generation + 1, retry := none }
  else { s with retry := none }

/-- One step of the worker of `connection`, between the sessions `before` and `after` it. -/
def advance (s : Server) (before after : List (ℕ × Phase)) (connection : ℕ) : Phase → Server
  | .queued => { s with sessions := before ++ (connection, .running) :: after, references := s.references + 1 }
  | .running => unref { s with sessions := before ++ (connection, .ended) :: after }
  | .ended => { s with sessions := before ++ (connection, .closed) :: after }
  | .closed =>
    { s with sessions := before ++ (connection, .removed) :: after, connections := s.connections.erase connection }
  | .removed => unref { s with sessions := before ++ (connection, .released) :: after }
  | .released => { s with sessions := before ++ (connection, .reported) :: after, inFlight := s.inFlight - 1 }
  | .reported => s

/-- `wyrebox_daemon_connection_server_finalize`. The accept context goes with the handler. -/
def finalize (s : Server) : Server := { s.stopListener.unref.unref with main := .gone }

end Server

/-- Accepts and retries run in the main loop; a stop keeps the main thread until its wait ends, by the last
    report or by the timeout. -/
inductive Step : Server → Server → Prop
  | start {s : Server} : s.main = .idle → s.started = false → Step s s.start
  | accepted {s : Server} {generation : UInt32} {connection : ℕ} (credentials : Bool) : s.main = .idle →
    generation ∈ s.accepts → connection ∉ s.sessions.map Prod.fst → Step s (s.accepted generation connection credentials)
  | acceptFailed {s : Server} {generation : UInt32} (isExpected : Bool) : s.main = .idle → generation ∈ s.accepts →
    Step s (s.acceptFailed generation isExpected)
  | retry {s : Server} {generation : UInt32} : s.main = .idle → s.retry = some generation → Step s (s.retryAccept generation)
  | worker {s : Server} {before after : List (ℕ × Phase)} {connection : ℕ} {phase : Phase} :
    s.sessions = before ++ (connection, phase) :: after → phase ≠ .reported →
    Step s (s.advance before after connection phase)
  | stop {s : Server} : s.main = .idle → Step s { s.stopListener with main := .stopping, abandoned := none }
  | snapshot {s : Server} : s.main = .stopping → Step s { s with main := .shutting s.connections }
  | shutdown {s : Server} {connection : ℕ} {left : List ℕ} : s.main = .shutting (connection :: left) →
    Step s { s with main := .shutting left, shutDown := connection :: s.shutDown }
  | wait {s : Server} : s.main = .shutting [] → Step s { s with main := .waiting }
  | waited {s : Server} : s.main = .waiting → Step s { s with main := .idle, abandoned := some s.inFlight }
  | finalize {s : Server} : s.main = .idle → Step s s.finalize

inductive Reachable : Server → Prop
  | new : Reachable .new
  | step {s s' : Server} : Reachable s → Step s s' → Reachable s'

/-! ## The invariant -/

/-- What the server and its accept context hold. -/
def Main.references : Main → ℕ
  | .gone => 0
  | _ => 2

/-- Every connection there is has been shut down, or is among those `left`. -/
def ShutDown (s : Server) (left : List ℕ) : Prop :=
  ∀ session ∈ s.sessions, session.2.listed = true → session.1 ∈ left ∨ session.1 ∈ s.shutDown

/-- How far the current stop has got with the connections. -/
def Covered (s : Server) : Prop :=
  match s.main with
  | .shutting left => ShutDown s left
  | .waiting => ShutDown s []
  | _ => True

structure Inv (s : Server) : Prop where
  inFlight : s.inFlight = s.sessions.countP fun session => session.2 ≠ .reported
  references : s.references = s.main.references + (s.sessions.map fun session => session.2.references).sum
  freed : s.freed = (s.references == 0)
  connections : s.connections.Perm ((s.sessions.filter fun session => session.2.listed).map Prod.fst)
  stopped : s.main ≠ .idle → s.started = false
  waited : ∀ left, s.abandoned = some left → s.started = false ∧ s.inFlight ≤ left ∧ ShutDown s []
  covered : Covered s

theorem inv_new : Inv .new where
  inFlight := rfl
  references := rfl
  freed := rfl
  connections := .nil
  stopped := fun _ => rfl
  waited := by
    intro left h
    cases h
  covered := trivial

section
variable {s s' : Server} {before after : List (ℕ × Phase)} {connection : ℕ} {phase : Phase}

/-- The accept loop has no part in it. -/
theorem Inv.accept (h : Inv s) (generation : UInt32) (accepts : List UInt32) (retry : Option UInt32) :
    Inv { s with generation := generation, accepts := accepts, retry := retry } :=
  ⟨h.inFlight, h.references, h.freed, h.connections, h.stopped, h.waited, h.covered⟩

theorem Inv.arm (h : Inv s) : Inv s.arm := by
  rw [Server.arm]
  split
  · exact h.accept s.generation _ s.retry
  · exact h

/-- No other connection has come. -/
def Fewer (s s' : Server) : Prop :=
  s'.shutDown = s.shutDown ∧ ∀ session ∈ s'.sessions, session.2.listed = true →
    ∃ old ∈ s.sessions, old.2.listed = true ∧ old.1 = session.1

theorem ShutDown.fewer {left : List ℕ} (h : ShutDown s left) (hfewer : Fewer s s') : ShutDown s' left := by
  intro session hmem hlisted
  obtain ⟨old, hold, holdlisted, heq⟩ := hfewer.2 session hmem hlisted
  rw [← heq, hfewer.1]
  exact h old hold holdlisted

theorem Covered.fewer (h : Covered s) (hmain : s'.main = s.main) (hfewer : Fewer s s') : Covered s' := by
  rw [Covered] at h ⊢
  rw [hmain]
  cases hcase : s.main with
  | idle | stopping | gone => trivial
  | shutting left =>
    rw [hcase] at h
    exact h.fewer hfewer
  | waiting =>
    rw [hcase] at h
    exact h.fewer hfewer

theorem freed_unref (hfreed : s.freed = (s.references == 0)) (hpos : 0 < s.references) :
    s.unref.freed = (s.unref.references == 0) := by
  have hcases : s.references = 1 ∨ 2 ≤ s.references := by omega
  rw [Server.unref, hfreed]
  rcases hcases with hone | htwo
  · simp [hone]
  · have hzero : s.references ≠ 0 := by omega
    have hone : s.references ≠ 1 := by omega
    have hleft : s.references - 1 ≠ 0 := by omega
    rw [beq_eq_false_iff_ne.mpr hzero, beq_eq_false_iff_ne.mpr hone, beq_eq_false_iff_ne.mpr hleft]
    rfl

theorem inv_handleConnection (h : Inv s) (hmain : s.main = .idle) (hstarted : s.started = true) :
    Inv (s.handleConnection connection) where
  inFlight := by
    simp only [Server.handleConnection, List.countP_cons, h.inFlight]
    rfl
  references := by
    simp only [Server.handleConnection, List.map_cons, List.sum_cons, h.references]
    change _ = _ + (1 + _)
    omega
  freed := by
    have hreferences := h.references
    rw [hmain] at hreferences
    change s.references = 2 + _ at hreferences
    have hpos : s.references ≠ 0 := by omega
    rw [Server.handleConnection, h.freed]
    simp [hpos]
  connections := by
    simp only [Server.handleConnection, List.filter_cons, Phase.listed, if_true, List.map_cons]
    exact (List.perm_append_singleton _ _).trans (h.connections.cons connection)
  stopped := fun hne => absurd hmain hne
  waited := by
    intro left hleft
    have hstopped := (h.waited left hleft).1
    rw [hstarted] at hstopped
    cases hstopped
  covered := by
    rw [Covered, Server.handleConnection, hmain]
    trivial

/-- A worker's step changes one session, and what it holds. -/
theorem inv_advance (h : Inv s) (hsessions : s.sessions = before ++ (connection, phase) :: after)
    (hphase : phase ≠ .reported) : Inv (s.advance before after connection phase) := by
  have hinFlight := h.inFlight
  have hreferences := h.references
  have hconnections := h.connections
  simp only [hsessions, List.countP_append, List.countP_cons, List.map_append, List.map_cons, List.sum_append,
    List.sum_cons, List.filter_append, List.filter_cons] at hinFlight hreferences hconnections
  have hfewer : ∀ phase', (phase'.listed = true → phase.listed = true) →
      ∀ session ∈ before ++ (connection, phase') :: after, session.2.listed = true →
        ∃ old ∈ s.sessions, old.2.listed = true ∧ old.1 = session.1 := by
    intro phase' hlisted session hmem hlist
    rw [hsessions]
    rcases List.mem_append.mp hmem with hbefore | hrest
    · exact ⟨session, List.mem_append_left _ hbefore, hlist, rfl⟩
    · rcases List.mem_cons.mp hrest with rfl | hafter
      · exact ⟨(connection, phase), List.mem_append_right _ List.mem_cons_self, hlisted hlist, rfl⟩
      · exact ⟨session, List.mem_append_right _ (List.mem_cons_of_mem _ hafter), hlist, rfl⟩
  cases phase with
  | queued =>
    change s.inFlight = _ + (_ + 1) at hinFlight
    change s.references = _ + (_ + (1 + _)) at hreferences
    have hfreed := h.freed
    refine ⟨?_, ?_, ?_, ?_, h.stopped, ?_, h.covered.fewer rfl ⟨rfl, hfewer .running fun _ => rfl⟩⟩
    · simp only [Server.advance, List.countP_append, List.countP_cons, hinFlight]
      rfl
    · simp only [Server.advance, List.map_append, List.map_cons, List.sum_append, List.sum_cons, hreferences]
      change _ = _ + (_ + (2 + _))
      omega
    · have hpos : s.references ≠ 0 := by omega
      have hnext : s.references + 1 ≠ 0 := by omega
      rw [beq_eq_false_iff_ne.mpr hpos] at hfreed
      simp only [Server.advance, hfreed, beq_eq_false_iff_ne.mpr hnext]
    · simp only [Server.advance, List.filter_append, List.filter_cons, List.map_append]
      exact hconnections
    · intro left hleft
      obtain ⟨hstopped, hle, hshut⟩ := h.waited left hleft
      exact ⟨hstopped, hle, hshut.fewer ⟨rfl, hfewer .running fun _ => rfl⟩⟩
  | running =>
    change s.inFlight = _ + (_ + 1) at hinFlight
    change s.references = _ + (_ + (2 + _)) at hreferences
    refine ⟨?_, ?_, ?_, ?_, h.stopped, ?_, h.covered.fewer rfl ⟨rfl, hfewer .ended fun _ => rfl⟩⟩
    · simp only [Server.advance, Server.unref, List.countP_append, List.countP_cons, hinFlight]
      rfl
    · simp only [Server.advance, Server.unref, List.map_append, List.map_cons, List.sum_append, List.sum_cons, hreferences]
      change _ = _ + (_ + (1 + _))
      omega
    · exact freed_unref h.freed (by simp only; omega)
    · simp only [Server.advance, Server.unref, List.filter_append, List.filter_cons, List.map_append]
      exact hconnections
    · intro left hleft
      obtain ⟨hstopped, hle, hshut⟩ := h.waited left hleft
      exact ⟨hstopped, hle, hshut.fewer ⟨rfl, hfewer .ended fun _ => rfl⟩⟩
  | ended =>
    refine ⟨?_, ?_, h.freed, ?_, h.stopped, ?_, h.covered.fewer rfl ⟨rfl, hfewer .closed fun _ => rfl⟩⟩
    · simp only [Server.advance, List.countP_append, List.countP_cons, hinFlight]
      rfl
    · simp only [Server.advance, List.map_append, List.map_cons, List.sum_append, List.sum_cons, hreferences]
      rfl
    · simp only [Server.advance, List.filter_append, List.filter_cons, List.map_append]
      exact hconnections
    · intro left hleft
      obtain ⟨hstopped, hle, hshut⟩ := h.waited left hleft
      exact ⟨hstopped, hle, hshut.fewer ⟨rfl, hfewer .closed fun _ => rfl⟩⟩
  | closed =>
    refine ⟨?_, ?_, h.freed, ?_, h.stopped, ?_, h.covered.fewer rfl ⟨rfl, hfewer .removed fun _ => rfl⟩⟩
    · simp only [Server.advance, List.countP_append, List.countP_cons, hinFlight]
      rfl
    · simp only [Server.advance, List.map_append, List.map_cons, List.sum_append, List.sum_cons, hreferences]
      rfl
    · simp only [Server.advance, List.filter_append, List.filter_cons, List.map_append]
      change s.connections.Perm (_ ++ connection :: _) at hconnections
      have herased := (hconnections.trans List.perm_middle).erase connection
      rw [List.erase_cons_head] at herased
      exact herased
    · intro left hleft
      obtain ⟨hstopped, hle, hshut⟩ := h.waited left hleft
      exact ⟨hstopped, hle, hshut.fewer ⟨rfl, hfewer .removed fun _ => rfl⟩⟩
  | removed =>
    change s.inFlight = _ + (_ + 1) at hinFlight
    change s.references = _ + (_ + (1 + _)) at hreferences
    refine ⟨?_, ?_, ?_, ?_, h.stopped, ?_, h.covered.fewer rfl ⟨rfl, hfewer .released fun h => h⟩⟩
    · simp only [Server.advance, Server.unref, List.countP_append, List.countP_cons, hinFlight]
      rfl
    · simp only [Server.advance, Server.unref, List.map_append, List.map_cons, List.sum_append, List.sum_cons, hreferences]
      change _ = _ + (_ + (0 + _))
      omega
    · exact freed_unref h.freed (by simp only; omega)
    · simp only [Server.advance, Server.unref, List.filter_append, List.filter_cons, List.map_append]
      exact hconnections
    · intro left hleft
      obtain ⟨hstopped, hle, hshut⟩ := h.waited left hleft
      exact ⟨hstopped, hle, hshut.fewer ⟨rfl, hfewer .released fun h => h⟩⟩
  | released =>
    change s.inFlight = _ + (_ + 1) at hinFlight
    refine ⟨?_, ?_, h.freed, ?_, h.stopped, ?_, h.covered.fewer rfl ⟨rfl, hfewer .reported fun h => h⟩⟩
    · simp only [Server.advance, List.countP_append, List.countP_cons, hinFlight]
      rfl
    · simp only [Server.advance, List.map_append, List.map_cons, List.sum_append, List.sum_cons, hreferences]
      rfl
    · simp only [Server.advance, List.filter_append, List.filter_cons, List.map_append]
      exact hconnections
    · intro left hleft
      obtain ⟨hstopped, hle, hshut⟩ := h.waited left hleft
      exact ⟨hstopped, (Nat.sub_le _ _).trans hle, hshut.fewer ⟨rfl, hfewer .reported fun h => h⟩⟩
  | reported => exact absurd rfl hphase

theorem inv_stopListener (h : Inv s) : Inv s.stopListener := by
  rw [Server.stopListener]
  split
  · exact ⟨h.inFlight, h.references, h.freed, h.connections, fun _ => rfl, fun left hleft => ⟨rfl, (h.waited left hleft).2⟩,
      h.covered⟩
  · exact h.accept s.generation s.accepts none

theorem stopListener_started (s : Server) : s.stopListener.started = false := by
  rw [Server.stopListener]
  split
  · rfl
  · rename_i h
    exact Bool.not_eq_true _ ▸ h

theorem stopListener_main (s : Server) : s.stopListener.main = s.main := by
  rw [Server.stopListener]
  split <;> rfl

theorem inv_finalize (h : Inv s) (hmain : s.main = .idle) : Inv s.finalize := by
  have hstop := inv_stopListener h
  have hstopped := stopListener_started s
  have hreferences := hstop.references
  rw [stopListener_main, hmain] at hreferences
  change _ = 2 + _ at hreferences
  have hfirst := freed_unref hstop.freed (by omega)
  have hsecond := @freed_unref s.stopListener.unref hfirst (by
    change 0 < s.stopListener.references - 1
    omega)
  refine ⟨hstop.inFlight, ?_, hsecond, hstop.connections, fun _ => hstopped, hstop.waited, trivial⟩
  change s.stopListener.references - 1 - 1 = 0 + (s.stopListener.sessions.map fun session => session.2.references).sum
  omega

theorem inv_step (h : Inv s) (hstep : Step s s') : Inv s' := by
  cases hstep with
  | start hmain hstarted =>
    refine Inv.arm ⟨h.inFlight, h.references, h.freed, h.connections, fun hne => absurd hmain hne, ?_, ?_⟩
    · intro left hleft
      cases hleft
    · rw [Covered]
      simp only [hmain]
  | @accepted generation connection credentials hmain hmem hfresh =>
    rw [Server.accepted]
    dsimp only
    split
    · exact h.accept s.generation _ s.retry
    · rename_i hcurrent
      have hstarted : s.started = true := by
        rw [not_or] at hcurrent
        exact Bool.not_eq_false _ ▸ hcurrent.1
      have hkept := h.accept s.generation (s.accepts.erase generation) s.retry
      cases credentials with
      | true => exact (inv_handleConnection hkept hmain hstarted).arm
      | false => exact hkept.arm
  | acceptFailed isExpected hmain hmem =>
    rw [Server.acceptFailed]
    dsimp only
    split
    · exact h.accept s.generation _ _
    · exact h.accept s.generation _ s.retry
  | retry hmain hretry =>
    rw [Server.retryAccept]
    dsimp only
    split
    · exact (h.accept s.generation s.accepts none).arm
    · exact h.accept s.generation s.accepts none
  | worker hsessions hphase => exact inv_advance h hsessions hphase
  | stop hmain =>
    have hstop := inv_stopListener h
    have hreferences := hstop.references
    rw [stopListener_main, hmain] at hreferences
    refine ⟨hstop.inFlight, hreferences, hstop.freed, hstop.connections, fun _ => stopListener_started s, ?_, trivial⟩
    intro left hleft
    cases hleft
  | snapshot hmain =>
    have hreferences := h.references
    rw [hmain] at hreferences
    refine ⟨h.inFlight, hreferences, h.freed, h.connections, fun _ => h.stopped (by rw [hmain]; simp), h.waited, ?_⟩
    intro session hmem hlisted
    refine .inl ((h.connections.mem_iff).mpr (List.mem_map.mpr ⟨session, List.mem_filter.mpr ⟨hmem, hlisted⟩, rfl⟩))
  | shutdown hmain =>
    have hreferences := h.references
    have hcovered := h.covered
    rw [hmain] at hreferences
    rw [Covered, hmain] at hcovered
    refine ⟨h.inFlight, hreferences, h.freed, h.connections, fun _ => h.stopped (by rw [hmain]; simp), ?_, ?_⟩
    · intro left hleft
      obtain ⟨hstopped, hle, hshut⟩ := h.waited left hleft
      refine ⟨hstopped, hle, fun session hmem hlisted => .inr (List.mem_cons_of_mem _ ?_)⟩
      exact (hshut session hmem hlisted).resolve_left List.not_mem_nil
    intro session hmem hlisted
    rcases hcovered session hmem hlisted with hleft | hdone
    · rcases List.mem_cons.mp hleft with heq | hleft
      · exact .inr (heq ▸ List.mem_cons_self)
      · exact .inl hleft
    · exact .inr (List.mem_cons_of_mem _ hdone)
  | wait hmain =>
    have hreferences := h.references
    have hcovered := h.covered
    rw [hmain] at hreferences
    rw [Covered, hmain] at hcovered
    exact ⟨h.inFlight, hreferences, h.freed, h.connections, fun _ => h.stopped (by rw [hmain]; simp), h.waited, hcovered⟩
  | waited hmain =>
    have hreferences := h.references
    have hcovered := h.covered
    have hstopped := h.stopped (by rw [hmain]; simp)
    rw [hmain] at hreferences
    rw [Covered, hmain] at hcovered
    refine ⟨h.inFlight, hreferences, h.freed, h.connections, fun hne => absurd rfl hne, ?_, trivial⟩
    intro left hleft
    cases hleft
    exact ⟨hstopped, le_refl _, hcovered⟩
  | finalize hmain => exact inv_finalize h hmain

theorem inv_reachable (h : Reachable s) : Inv s := by
  induction h with
  | new => exact inv_new
  | step _ hstep ih => exact inv_step ih hstep

/-! ## What a stop leaves -/

/-- Nobody uses the state behind its end, nothing is counted or released twice, and after a stop that
    abandons nobody no worker is left that could touch the request adapter. -/
structure Safe (s : Server) : Prop where
  held : ∀ session ∈ s.sessions, 0 < session.2.references → 0 < s.references ∧ s.freed = false
  freed : s.freed = true ↔ s.main = .gone ∧ ∀ session ∈ s.sessions, session.2.references = 0
  reporting : ∀ session ∈ s.sessions, session.2 ≠ .reported → 0 < s.inFlight
  shutDown : s.main = .waiting ∨ s.abandoned.isSome = true → ∀ session ∈ s.sessions, session.2.listed = true →
    session.1 ∈ s.shutDown
  abandoned : ∀ left, s.abandoned = some left → (s.sessions.countP fun session => session.2 ≠ .reported) ≤ left
  drained : s.abandoned = some 0 → ∀ session ∈ s.sessions, session.2 = .reported

theorem references_le_sum {sessions : List (ℕ × Phase)} {session : ℕ × Phase} (hmem : session ∈ sessions) :
    session.2.references ≤ (sessions.map fun session => session.2.references).sum :=
  List.single_le_sum (fun _ _ => Nat.zero_le _) _ (List.mem_map_of_mem hmem)

/-- The steps a worker has before it. -/
def Phase.stepsLeft : Phase → ℕ
  | .queued => 6
  | .running => 5
  | .ended => 4
  | .closed => 3
  | .removed => 2
  | .released => 1
  | .reported => 0

def Server.stepsLeft (s : Server) : ℕ := (s.sessions.map fun session => session.2.stepsLeft).sum

/-- `n` steps of workers, of the same or of different ones. -/
inductive Workers : ℕ → Server → Server → Prop
  | refl (s : Server) : Workers 0 s s
  | step {n : ℕ} {s s' : Server} {before after : List (ℕ × Phase)} {connection : ℕ} {phase : Phase} :
    s.sessions = before ++ (connection, phase) :: after → phase ≠ .reported →
    Workers n (s.advance before after connection phase) s' → Workers (n + 1) s s'

theorem stepsLeft_advance (hsessions : s.sessions = before ++ (connection, phase) :: after) (hphase : phase ≠ .reported) :
    (s.advance before after connection phase).stepsLeft + 1 = s.stepsLeft := by
  simp only [Server.stepsLeft, hsessions]
  cases phase with
  | reported => exact absurd rfl hphase
  | queued | running | ended | closed | removed | released =>
    simp only [Server.advance, Server.unref, List.map_append, List.map_cons, List.sum_append, List.sum_cons,
      Phase.stepsLeft]
    omega

theorem inFlight_eq_zero (h : Inv s) : s.inFlight = 0 ↔ s.stepsLeft = 0 := by
  rw [h.inFlight, List.countP_eq_zero, Server.stepsLeft, List.sum_eq_zero_iff]
  constructor
  · intro hall n hn
    obtain ⟨session, hmem, rfl⟩ := List.mem_map.mp hn
    have hreported : session.2 = .reported := by simpa using hall session hmem
    rw [hreported]
    rfl
  · intro hall session hmem
    have hzero := hall session.2.stepsLeft (List.mem_map_of_mem hmem)
    cases hphase : session.2 with
    | reported => simp
    | queued | running | ended | closed | removed | released => simp [hphase, Phase.stepsLeft] at hzero

end

/-- A connection comes, and the server is stopped while its worker runs. -/
def stoppedServer : Server :=
  let s := Server.new.start.accepted 1 7 true
  let s := s.advance [] [] 7 .queued
  { s.stopListener with main := .waiting, abandoned := none, shutDown := [7] }

theorem stoppedServer_reachable : Reachable stoppedServer := by
  have hstart : Reachable Server.new.start := .step .new (.start rfl rfl)
  have haccepted : Reachable (Server.new.start.accepted 1 7 true) := hstart.step (.accepted true rfl (by decide) (by decide))
  have hrunning : Reachable ((Server.new.start.accepted 1 7 true).advance [] [] 7 .queued) :=
    haccepted.step (.worker rfl (by decide))
  have hstopping := hrunning.step (.stop rfl)
  have hsnapshot := hstopping.step (.snapshot rfl)
  have hshutdown := hsnapshot.step (.shutdown rfl)
  exact hshutdown.step (.wait rfl)

/-- What its worker leaves. -/
def drainedServer : Server :=
  [Phase.running, .ended, .closed, .removed, .released].foldl (fun s phase => s.advance [] [] 7 phase) stoppedServer

theorem stoppedServer_drains : Workers 5 stoppedServer drainedServer :=
  @Workers.step _ _ _ [] [] 7 .running rfl (by decide) <| @Workers.step _ _ _ [] [] 7 .ended rfl (by decide) <|
    @Workers.step _ _ _ [] [] 7 .closed rfl (by decide) <| @Workers.step _ _ _ [] [] 7 .removed rfl (by decide) <|
    @Workers.step _ _ _ [] [] 7 .released rfl (by decide) <| .refl _

end Wyrebox.ConnectionServer
