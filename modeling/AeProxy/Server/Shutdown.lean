import AeProxy.Lib.Log
import AeProxy.Server.WatchedServer
import Mathlib.Data.List.Count

/-! What a server has closed when it tells its user that it has. -/
namespace AeProxy.TcpServer
open Lib

/-- A server from its construction on: with its wheel, whether `listen` has made `accetper_`, and
has succeeded, whether `close` has been called, and whether the timer of the wheel has gone off
behind the report of that. -/
structure Service where
  watched : WatchedServer
  accetper_ : Bool
  listened : Bool
  closed : Bool
  late : Bool

namespace Service

inductive Event where
  | setTimeout (seconds : UInt32)
  | listen (bound success : Bool)
  | close
  | closed (connection : Nat) (closes : Bool)
  | other (event : WatchedServer.Event)

def new (now : Nat) (onMessage onConnectClose : Bool) : Service :=
  ⟨.new now onMessage onConnectClose, false, false, false, false⟩

abbrev server (self : Service) : TcpServer := self.watched.server

def setServer (self : Service) (server : TcpServer) : Service :=
  { self with watched := { self.watched with server := server } }

end Service

/-- The user hears that the connection is closed. -/
def Notifies (s : TcpServer) (c : Nat) : Prop :=
  (s.connection c).closeCompleteCallback = some .closeConnection ∧
    s.getConnection (s.connection c).name ≠ none ∧ s.onConnectCloseCallback = true

instance (s : TcpServer) (c : Nat) : Decidable (s.Notifies c) :=
  inferInstanceAs (Decidable (_ ∧ _ ∧ _))

namespace Service

/-- What else happens, or is called; only an acceptor that listens accepts. -/
def allows (self : Service) : WatchedServer.Event → Bool
  | .server (.accept _) => self.listened
  | .server (.closed _ _) => false
  | .server .close => false
  | _ => true

/-- The wheel's timer goes off behind the report that the server is closed. -/
def overdue (self : Service) : WatchedServer.Event → Bool
  | .tick _ => self.server.accetper.handle = .closed
  | _ => false

/-- `listen` is called at most once, and `close`, which the callback for a closed connection may
call as well. The timer, which `listen` starts where there is a timeout, is never stopped. -/
def step : Step Service Event := fun self event =>
  match event with
  | .setTimeout seconds => some { self with watched := self.watched.setTimeout seconds }
  | .listen bound success =>
    if self.accetper_ then none
    else some { self with
      accetper_ := true
      listened := bound && success
      watched := if bound then self.watched.start else self.watched }
  | .close =>
    if self.closed then none
    else some { self.setServer (if self.accetper_ then self.server.close else self.server) with
      closed := true }
  | .closed c closes =>
    if closes = true → self.closed = false ∧ self.server.Notifies c then
      (TcpServer.step self.server (.closed c (closes && self.accetper_).toNat)).map fun server =>
        { self.setServer server with closed := self.closed || closes }
    else none
  | .other event =>
    if self.allows event then
      (WatchedServer.step self.watched event).map fun watched =>
        { self with watched := watched, late := self.late || self.overdue event }
    else none

theorem other_of_step {s t : Service} {event : WatchedServer.Event}
    (ht : step s (.other event) = some t) : s.allows event = true ∧
      ∃ watched, WatchedServer.step s.watched event = some watched ∧
        { s with watched := watched, late := s.late || s.overdue event } = t := by
  obtain ⟨hallows, ht⟩ := Option.ite_none_right_eq_some.mp ht
  exact ⟨hallows, Option.map_eq_some_iff.mp ht⟩

end Service

/-- Nothing is left of any connection. -/
structure Drained (s : TcpServer) : Prop where
  empty : s.connnections = ∅
  closed : ∀ c, c < s.accepted → (s.connection c).handle = .closed

/-- Once the shutdown has been reported only what users passed to connections runs. -/
def Last (before : List Action) (a : Action) : Prop :=
  .serverClosed ∈ before → ∃ callback, a = .userClosed callback

/-- Once libuv has closed the acceptor the callback has run, on a drained server, and is the last. -/
structure Complete (s : TcpServer) : Prop where
  once : s.log.count .serverClosed = if s.accetper.handle = .closing then 0 else 1
  drained : .serverClosed ∈ s.log → Drained s
  last : Each Last s.log

/-- The shutdown is complete, and the timer of the wheel has not gone off behind it. -/
structure Service.Complete (s : Service) : Prop where
  server : TcpServer.Complete s.server
  silent : s.late = false

/-- `close` finds an acceptor, its completion a drained server, and the timer of the wheel does not
go off behind that. -/
def Service.Ready (s : Service) : Service.Event → Prop
  | .close => s.accetper_ = true
  | .closed _ closes => closes = true → s.accetper_ = true
  | .other (.server .acceptorClosed) => Drained s.server
  | .other (.tick _) => s.server.accetper.handle ≠ .closed
  | _ => True

/-- The server goes on keeping the connections that libuv serves. -/
def Service.Clear (s : Service) : Service.Event → Prop
  | .other (.server event) => TcpServer.Clear s.server event
  | _ => True

/-- The acceptor is left alone, and the shutdown not reported. -/
structure Aside (s t : TcpServer) : Prop where
  accetper : t.accetper = s.accetper
  reported : t.log.count .serverClosed = s.log.count .serverClosed

namespace Aside
variable {s t : TcpServer}

theorem refl (s : TcpServer) : Aside s s := ⟨rfl, rfl⟩

theorem emit (h : Aside s t) {action : Action} (ha : action ≠ .serverClosed) :
    Aside s (t.emit action) := by
  refine ⟨h.accetper, ?_⟩
  have hnone : [action].count .serverClosed = 0 :=
    List.count_eq_zero.mpr fun hm => ha (List.mem_singleton.mp hm).symm
  show (t.log ++ [action]).count .serverClosed = _
  rw [List.count_append, hnone]
  exact h.reported

theorem stable (s : TcpServer) : Stable (Aside s) where
  emit _ _ ha h := h.emit ha
  remove t name h := by
    have herase : Aside s { t with connnections := t.connnections.erase name } := ⟨h.1, h.2⟩
    exact herase.emit Action.noConfusion
  request _ _ _ h := ⟨h.1, h.2⟩
  gone _ _ h := ⟨h.1, h.2⟩
  shutdowns _ _ h := ⟨h.1, h.2⟩

theorem step {event : Event} (ht : TcpServer.step s event = some t) (hclose : event ≠ .close)
    (ha : event ≠ .acceptorClosed) (hc : ∀ c closes, event = .closed c closes → closes = 0) :
    Aside s t := by
  cases event with
  | accept name =>
    obtain ⟨-, ht⟩ := Option.ite_none_right_eq_some.mp ht
    rw [← Option.some.inj ht]
    exact ⟨onAccept_accetper s name, by rw [onAccept_log]⟩
  | read c input =>
    obtain ⟨-, ht⟩ := Option.ite_none_right_eq_some.mp ht
    exact Option.some.inj ht ▸ (stable s).onMesageReceive (refl s) c input
  | shutdownDone c =>
    obtain ⟨-, ht⟩ := Option.ite_none_right_eq_some.mp ht
    exact Option.some.inj ht ▸ (stable s).shutdownDone (refl s) c _
  | expire c =>
    obtain ⟨-, ht⟩ := Option.ite_none_right_eq_some.mp ht
    exact Option.some.inj ht ▸ (stable s).onSocketClose (refl s) c
  | acceptorClosed => exact absurd rfl ha
  | closed c closes =>
    obtain ⟨-, ht⟩ := Option.ite_none_right_eq_some.mp ht
    obtain rfl := hc c closes rfl
    rw [← Option.some.inj ht, onClosed_eq]
    exact (stable s).closeComplete (s := s.setConnection c _) ⟨rfl, rfl⟩ c (fun _ hu => hu) _
  | close => exact absurd rfl hclose
  | closeConnection name => exact Option.some.inj ht ▸ (stable s).closeConnection (refl s) name
  | closeByUser c callback =>
    obtain ⟨-, ht⟩ := Option.ite_none_right_eq_some.mp ht
    exact Option.some.inj ht ▸ (stable s).closeHandle (refl s) c _

end Aside

theorem Aside.expire {s : TcpServer} (hs : Sound s) (order : List Nat) :
    Aside s (order.foldl onSocketClose s) ∧ Sound (order.foldl onSocketClose s) :=
  ⟨WatchedServer.foldl_expired (Aside.stable s) (.refl s) order,
    WatchedServer.foldl_expired stable_sound hs order⟩

section sweep
variable {s t u : TcpServer}

/-- The sweep asks a connection to close that is open, and leaves its entry. -/
theorem connnections_onSocketClose (hs : Sound u) {name : String} {c : Nat}
    (hf : u.getConnection name = some c) : (u.onSocketClose c).connnections = u.connnections := by
  unfold onSocketClose
  split
  next hcb =>
    have hfind : u.getConnection (u.connection c).name = some c := by
      rw [(hs.entry name c hf).2]
      exact hf
    simp only [closeConnection, hfind, closeHandle_opened (hs.callback c hcb)]
    rfl
  next => rfl

theorem sweep_spec (hs : Sound s) : ∃ u, Aside s u ∧ u.connnections = s.connnections ∧
    s.sweep = { u with sweeping := s.sweeping }.emit .serverClosed := by
  have hstart : Sound { s with sweeping := true } := hs.congr rfl rfl rfl
  obtain ⟨-, haside, hmap⟩ := List.foldlRecOn (motive := fun u => Sound u ∧ Aside s u ∧
    u.connnections = s.connnections) s.connnections.entries
    (fun server entry => server.onSocketClose entry.2) ⟨hstart, ⟨rfl, rfl⟩, rfl⟩
    fun u ⟨hu, haside, hmap⟩ entry he => by
      have hf : u.getConnection entry.1 = some entry.2 := by
        rw [getConnection, hmap]
        exact AList.mem_lookup_iff.mpr he
      exact ⟨stable_sound.onSocketClose hu _, (Aside.stable s).onSocketClose haside _,
        (connnections_onSocketClose hu hf).trans hmap⟩
  exact ⟨_, haside, hmap, rfl⟩

theorem drained_sweep_iff (hs : Sound s) : Drained s.sweep ↔ Drained s := by
  by_cases hempty : s.connnections = ∅
  · have hentries : s.connnections.entries = [] := by rw [hempty, AList.empty_entries]
    have hsweep : s.sweep = s.emit .serverClosed := by
      rw [sweep, hentries]
      rfl
    rw [hsweep]
    exact ⟨fun h => ⟨h.empty, h.closed⟩, fun h => ⟨h.empty, h.closed⟩⟩
  · obtain ⟨u, -, hmap, hsweep⟩ := sweep_spec hs
    refine iff_of_false (fun h => hempty ?_) fun h => hempty h.empty
    rw [hsweep] at h
    exact hmap.symm.trans h.empty

theorem count_sweep (hs : Sound s) : s.sweep.accetper = s.accetper ∧
    s.sweep.log.count Action.serverClosed = s.log.count Action.serverClosed + 1 := by
  obtain ⟨u, haside, -, hsweep⟩ := sweep_spec hs
  rw [hsweep]
  refine ⟨haside.accetper, ?_⟩
  show (u.log ++ [Action.serverClosed]).count Action.serverClosed = _
  rw [List.count_append, haside.reported]
  rfl

end sweep

section drained
variable {s t : TcpServer} {event : Event}

theorem Drained.getConnection (h : Drained s) (name : String) : s.getConnection name = none := by
  rw [TcpServer.getConnection, h.empty]
  exact AList.lookup_empty name

theorem Drained.onSocketClose (h : Drained s) (c : Nat) : s.onSocketClose c = s := by
  unfold TcpServer.onSocketClose closeConnection
  split
  next => simp only [h.getConnection]
  next => rfl

/-- A drained server that has stopped listening stays drained, and only users of connections hear of
it. -/
theorem Drained.step (h : Drained s) (hs : Sound s) (ha : s.accetper.handle = .closed)
    (hclose : event ≠ .close) (ht : TcpServer.step s event = some t) :
    Drained t ∧ t.accetper = s.accetper ∧
      ∃ out, t.log = s.log ++ out ∧ ∀ a ∈ out, ∃ callback, a = .userClosed callback := by
  have hclosed (c : Nat) : (s.connection c).handle = .closed := by
    by_cases hc : c < s.accepted
    · exact h.closed c hc
    · exact hs.unseen c (Nat.le_of_not_lt hc)
  have hsame : Drained s ∧ s.accetper = s.accetper ∧
      ∃ out, s.log = s.log ++ out ∧ ∀ a ∈ out, ∃ callback, a = .userClosed callback :=
    ⟨h, rfl, [], (List.append_nil _).symm, nofun⟩
  cases event with
  | accept name =>
    obtain ⟨ho, -⟩ := Option.ite_none_right_eq_some.mp ht
    exact Phase.noConfusion (ha.symm.trans ho)
  | read c input =>
    obtain ⟨ho, -⟩ := Option.ite_none_right_eq_some.mp ht
    exact absurd (hclosed c) ho
  | shutdownDone c =>
    obtain ⟨-, ht⟩ := Option.ite_none_right_eq_some.mp ht
    have hdone : Drained { s with shutdowns := Function.update s.shutdowns c (s.shutdowns c - 1) } :=
      ⟨h.empty, h.closed⟩
    obtain rfl := (hdone.onSocketClose c).symm.trans (Option.some.inj ht)
    exact ⟨hdone, rfl, [], (List.append_nil _).symm, nofun⟩
  | expire c =>
    obtain ⟨-, ht⟩ := Option.ite_none_right_eq_some.mp ht
    obtain rfl := (h.onSocketClose c).symm.trans (Option.some.inj ht)
    exact hsame
  | acceptorClosed =>
    obtain ⟨ho, -⟩ := Option.ite_none_right_eq_some.mp ht
    exact Phase.noConfusion (ha.symm.trans ho)
  | closed c closes =>
    obtain ⟨⟨hc, -⟩, -⟩ := Option.ite_none_right_eq_some.mp ht
    exact Phase.noConfusion ((hclosed c).symm.trans hc)
  | close => exact absurd rfl hclose
  | closeConnection name =>
    have hnone : s.closeConnection name = s := by
      unfold closeConnection
      simp only [h.getConnection]
    obtain rfl := hnone.symm.trans (Option.some.inj ht)
    exact hsame
  | closeByUser c callback =>
    obtain ⟨-, ht⟩ := Option.ite_none_right_eq_some.mp ht
    have hquiet := (quiet_closeByUser hs c callback).1
    have hdrained : Drained (s.closeHandle c (callback.map .user)) :=
      ⟨hquiet.connnections.trans h.empty, fun d hd =>
        (hquiet.closed d).mpr (h.closed d (hquiet.accepted ▸ hd))⟩
    have hlog : (s.closeHandle c (callback.map .user)).log =
        s.log ++ (callback.map Action.userClosed).toList := by
      rw [closeHandle_closing fun ho => Phase.noConfusion ((hclosed c).symm.trans ho)]
      cases callback with
      | none => exact (List.append_nil _).symm
      | some callback => rfl
    rw [← Option.some.inj ht]
    refine ⟨hdrained, ((Aside.stable s).closeHandle (.refl s) c _).accetper, _, hlog, fun a hm => ?_⟩
    cases callback with
    | none => cases hm
    | some callback => exact ⟨callback, List.mem_singleton.mp hm⟩

end drained

theorem close_of_opened {s : TcpServer} (h : s.accetper.handle = .opened) :
    s.close = { s with accetper := ⟨some (), .closing⟩ }.emit .uvCloseAcceptor := by
  have hnot : s.accetper.handle.isClosing = false := Phase.isClosing_eq_false.mpr h
  have hclose : s.accetper.close (some ()) = (⟨some (), .closing⟩, .uvClose) := if_pos hnot
  simp only [close, hclose]

/-- What holds of a server until `close` is called without an acceptor. -/
structure Steady (s : Service) : Prop where
  sound : Sound s.server
  called : s.closed = true → s.accetper_ = true
  handle : s.server.accetper.handle ≠ .opened ↔ s.closed = true
  slot : s.server.accetper.handle = .closing → s.server.accetper.onCloseCompletCallback = some ()
  count : s.server.log.count .serverClosed = if s.server.accetper.handle = .closed then 1 else 0
  punctual : s.closed = false → s.late = false

section steady
variable {s : Service} {t : TcpServer}

theorem steady_new (now : Nat) (onMessage onConnectClose : Bool) :
    Steady (.new now onMessage onConnectClose) where
  sound := sound_listening onMessage onConnectClose
  called h := Bool.noConfusion h
  handle := iff_of_false (fun h => h rfl) Bool.noConfusion
  slot h := Phase.noConfusion h
  count := rfl
  punctual _ := rfl

/-- The wheel does not matter. -/
theorem Steady.congr {u : Service} (h : Steady s) (hserver : u.server = s.server)
    (hmade : u.accetper_ = s.accetper_) (hclosed : u.closed = s.closed)
    (hlate : u.closed = false → u.late = false) : Steady u where
  sound := hserver ▸ h.sound
  called := by
    rw [hclosed, hmade]
    exact h.called
  handle := by
    rw [hserver, hclosed]
    exact h.handle
  slot := by
    rw [hserver]
    exact h.slot
  count := by
    rw [hserver]
    exact h.count
  punctual := hlate

theorem Steady.aside (h : Steady s) (ht : Aside s.server t) (hsound : Sound t) :
    Steady (s.setServer t) where
  sound := hsound
  called := h.called
  handle := by
    show t.accetper.handle ≠ .opened ↔ _
    rw [ht.accetper]
    exact h.handle
  slot := by
    show t.accetper.handle = .closing → t.accetper.onCloseCompletCallback = some ()
    rw [ht.accetper]
    exact h.slot
  count := by
    show t.log.count .serverClosed = if t.accetper.handle = .closed then 1 else 0
    rw [ht.accetper, ht.reported]
    exact h.count
  punctual := h.punctual

theorem each_last_of_not_mem {log : List Action} (hm : .serverClosed ∉ log) : Each Last log := by
  rintro before a later rfl hr
  exact absurd (List.mem_append_left _ hr) hm

/-- Until the report nothing of the shutdown can be missing. -/
theorem complete_of_not_reported (h : t.log.count .serverClosed = 0)
    (hc : t.accetper.handle = .closing) : Complete t := by
  have hm : .serverClosed ∉ t.log := List.count_eq_zero.mp h
  exact ⟨by rw [h, if_pos hc], fun hr => absurd hr hm, each_last_of_not_mem hm⟩

theorem Steady.opened (h : Steady s) (hc : s.closed = false) :
    s.server.accetper.handle = .opened := by
  by_contra hne
  exact Bool.noConfusion (hc.symm.trans (h.handle.mp hne))

theorem Steady.zero (h : Steady s) (hc : s.closed = false) :
    s.server.log.count .serverClosed = 0 := by
  rw [h.count, h.opened hc]
  rfl

/-- A shutdown that never started is not complete. -/
theorem Steady.not_complete (h : Steady s) (ht : Aside s.server t) (hc : s.closed = false) :
    ¬ Complete t := by
  intro hcomplete
  have hcount := hcomplete.once
  rw [ht.reported, ht.accetper, h.zero hc, h.opened hc] at hcount
  exact absurd hcount (by decide)

theorem Steady.complete (h : Steady s) (hc : s.closed = true) (hp : Complete s.server)
    {event : TcpServer.Event} (ht : TcpServer.step s.server event = some t)
    (haside : Aside s.server t) (hclose : event ≠ .close) : Complete t := by
  have hne := h.handle.mpr hc
  cases hh : s.server.accetper.handle with
  | opened => exact absurd hh hne
  | closing =>
    refine complete_of_not_reported ?_ (by rw [haside.accetper, hh])
    rw [haside.reported, h.count, hh]
    rfl
  | closed =>
    have hone : s.server.log.count .serverClosed = 1 := by
      rw [h.count, hh]
      rfl
    have hm : .serverClosed ∈ s.server.log := List.count_pos_iff.mp (hone ▸ Nat.one_pos)
    obtain ⟨hdrained, haccetper, out, hlog, hout⟩ :=
      (hp.drained hm).step h.sound hh hclose ht
    refine ⟨?_, fun _ => hdrained, ?_⟩
    · rw [haside.reported, hone, haccetper, hh]
      rfl
    · rw [hlog]
      refine each_append.mpr ⟨hp.last, ?_⟩
      rintro before a later rfl -
      exact hout a (List.mem_append_right _ List.mem_cons_self)

theorem Steady.closing (h : Steady s) (hc : s.closed = true)
    (hn : s.server.accetper.handle ≠ .closed) : s.server.accetper.handle = .closing := by
  cases hh : s.server.accetper.handle with
  | opened => exact absurd hh (h.handle.mpr hc)
  | closing => rfl
  | closed => exact absurd hh hn

/-- `close` has been called on an acceptor. -/
theorem Steady.asked (h : Steady s) (hc : s.closed = false) (ha : s.accetper_ = true)
    (haccetper : t.accetper = ⟨some (), .closing⟩)
    (hcount : t.log.count .serverClosed = s.server.log.count .serverClosed) (hsound : Sound t) :
    Steady { s.setServer t with closed := true } ∧ Complete t := by
  have hzero : t.log.count .serverClosed = 0 := hcount.trans (h.zero hc)
  refine ⟨⟨hsound, fun _ => ha, iff_of_true ?_ rfl, ?_, ?_, nofun⟩,
    complete_of_not_reported hzero ?_⟩
  · show t.accetper.handle ≠ .opened
    rw [haccetper]
    exact nofun
  · show _ → t.accetper.onCloseCompletCallback = some ()
    rw [haccetper]
    exact fun _ => rfl
  · show t.log.count .serverClosed = if t.accetper.handle = .closed then 1 else 0
    rw [hzero, haccetper]
    rfl
  · rw [haccetper]

theorem onClosed_notifies {s : TcpServer} {c : Nat} (hn : s.Notifies c)
    (ho : s.accetper.handle = .opened) : (s.onClosed c 1).accetper = ⟨some (), .closing⟩ ∧
      (s.onClosed c 1).log.count Action.serverClosed = s.log.count Action.serverClosed := by
  obtain ⟨hslot, hentry, hcallback⟩ := hn
  obtain ⟨d, hd⟩ := Option.ne_none_iff_exists'.mp hentry
  have hfind : (s.setConnection c (s.connection c).onClosed.1).getConnection
      ((s.setConnection c (s.connection c).onClosed.1).connection c).name = some d := by
    rw [setConnection_self]
    exact hd
  have htold : ((s.setConnection c (s.connection c).onClosed.1).emit
      (.connectClose d)).accetper.handle = .opened := ho
  have hclosed : s.onClosed c 1 = TcpServer.removeConnection (((s.setConnection c
      (s.connection c).onClosed.1).emit (.connectClose d)).close)
      ((s.setConnection c (s.connection c).onClosed.1).connection c).name := by
    rw [onClosed_eq, hslot]
    have huser : (s.setConnection c (s.connection c).onClosed.1).onConnectCloseCallback = true :=
      hcallback
    simp only [closeComplete, connectionClosed, hfind, huser, if_true, Function.iterate_one]
  rw [hclosed, close_of_opened htold]
  refine ⟨rfl, ?_⟩
  show (s.log ++ [Action.connectClose d] ++ [Action.uvCloseAcceptor] ++
    [Action.erase _ _]).count Action.serverClosed = _
  simp

theorem Steady.acceptorClosed (h : Steady s)
    (ht : TcpServer.step s.server .acceptorClosed = some t) :
    Steady (s.setServer t) ∧ (Complete t ↔ Drained s.server) := by
  obtain ⟨hclosing, ht⟩ := Option.ite_none_right_eq_some.mp ht
  have hasked : s.server.accetper = ⟨some (), .closing⟩ := by rw [← h.slot hclosing, ← hclosing]
  rw [hasked] at ht
  have ht : TcpServer.sweep { s.server with accetper := ⟨some (), .closed⟩ } = t :=
    Option.some.inj ht
  have hsound : Sound { s.server with accetper := ⟨some (), .closed⟩ } := h.sound.congr rfl rfl rfl
  obtain ⟨haccetper, hcount⟩ := count_sweep hsound
  have hdrained := drained_sweep_iff hsound
  obtain ⟨u, haside, -, hsweep⟩ := sweep_spec hsound
  have hsound' := hsound.sweep
  rw [ht] at haccetper hcount hdrained hsweep hsound'
  have hnone : s.server.log.count .serverClosed = 0 := by
    rw [h.count, hclosing]
    rfl
  have hone : t.log.count .serverClosed = 1 := by
    rw [hcount]
    exact congrArg (· + 1) hnone
  have hcalled : s.closed = true := h.handle.mp (by rw [hclosing]; exact nofun)
  refine ⟨⟨hsound', h.called, iff_of_true ?_ hcalled, ?_, ?_, h.punctual⟩, ?_⟩
  · show t.accetper.handle ≠ .opened
    rw [haccetper]
    exact nofun
  · show t.accetper.handle = .closing → _
    rw [haccetper]
    exact nofun
  · show t.log.count .serverClosed = if t.accetper.handle = .closed then 1 else 0
    rw [haccetper]
    exact hone
  · have hiff : Drained t ↔ Drained s.server :=
      hdrained.trans ⟨fun h => ⟨h.empty, h.closed⟩, fun h => ⟨h.empty, h.closed⟩⟩
    rw [← hiff]
    refine ⟨fun hc => hc.drained (List.count_pos_iff.mp (hone ▸ Nat.one_pos)), fun hd =>
      ⟨by rw [hone, haccetper]; rfl, fun _ => hd, ?_⟩⟩
    have hm : .serverClosed ∉ u.log := List.count_eq_zero.mp (haside.reported.trans hnone)
    rw [hsweep]
    exact each_concat.mpr ⟨each_last_of_not_mem hm, fun hr => absurd hr hm⟩

end steady

section run
variable {s t : Service} {event : Service.Event}

/-- Wrappers that expire behind the report do no harm, the callback that drops them does. -/
theorem Steady.tick {order : List Nat} (h : Steady s) (hp : s.closed = true → s.Complete)
    (ht : Service.step s (.other (.tick order)) = some t) :
    Steady t ∧ ((t.closed = true → t.Complete) ↔ s.Ready (.other (.tick order))) := by
  obtain ⟨-, watched, hw, rfl⟩ := Service.other_of_step ht
  obtain ⟨haside, hsound⟩ := Aside.expire h.sound order
  have hserver : watched.server = order.foldl onSocketClose s.server := by
    cases WatchedServer.does_of_step hw
    rfl
  have hsteady := (h.aside haside hsound).congr
    (u := ⟨watched, s.accetper_, s.listened, s.closed, s.late || s.overdue (.tick order)⟩)
    hserver rfl rfl
  rcases Bool.eq_false_or_eq_true s.closed with hc | hc
  · refine ⟨hsteady fun ht => Bool.noConfusion (hc.symm.trans ht), fun hcomplete hh => ?_,
      fun hh _ => ⟨?_, ?_⟩⟩
    · have hlate : (s.late || decide (s.server.accetper.handle = .closed)) = false :=
        (hcomplete hc).silent
      rw [decide_eq_true hh, Bool.or_true] at hlate
      cases hlate
    · show TcpServer.Complete watched.server
      rw [hserver]
      refine complete_of_not_reported ?_ (haside.accetper ▸ h.closing hc hh)
      rw [haside.reported, h.count, if_neg hh]
    · show (s.late || decide (s.server.accetper.handle = .closed)) = false
      rw [(hp hc).silent, decide_eq_false hh]
      rfl
  · have hne : s.server.accetper.handle ≠ .closed := by
      rw [h.opened hc]
      exact nofun
    refine ⟨hsteady fun _ => ?_, iff_of_true (fun ht => Bool.noConfusion (hc.symm.trans ht)) hne⟩
    show (s.late || decide (s.server.accetper.handle = .closed)) = false
    rw [h.punctual hc, decide_eq_false hne]
    rfl

/-- What happens to the server leaves nothing of the shutdown missing exactly if it finds the server
ready. -/
theorem Steady.server {event : TcpServer.Event} (h : Steady s)
    (hp : s.closed = true → Complete s.server)
    (ht : Service.step s (.other (.server event)) = some t) :
    t.late = s.late ∧ (s.Ready (.other (.server event)) → Steady t) ∧
      ((t.closed = true → Complete t.server) ↔ s.Ready (.other (.server event))) := by
  obtain ⟨hallows, watched, hw, rfl⟩ := Service.other_of_step ht
  rcases WatchedServer.does_of_step hw with @⟨_, u, idle, -, hu, -⟩
  have hlate : (s.late || s.overdue (.server event)) = s.late := Bool.or_false s.late
  have hcongr (hsteady : Steady (s.setServer u)) : Steady ⟨{ s.watched with server := u, idle := idle },
      s.accetper_, s.listened, s.closed, s.late || s.overdue (.server event)⟩ :=
    hsteady.congr rfl rfl rfl fun hc => hlate.trans (h.punctual hc)
  by_cases he : event = .acceptorClosed
  · subst he
    obtain ⟨hsteady, hiff⟩ := h.acceptorClosed hu
    obtain ⟨hclosing, -⟩ := Option.ite_none_right_eq_some.mp hu
    have hcalled : s.closed = true := h.handle.mp (by rw [hclosing]; exact nofun)
    refine ⟨hlate, fun _ => hcongr hsteady, Iff.trans ?_ hiff⟩
    exact ⟨fun hc => hc hcalled, fun hc _ => hc⟩
  · have hclose : event ≠ .close := by
      rintro rfl
      exact Bool.noConfusion hallows
    have haside : Aside s.server u := .step hu hclose he fun c closes hclosed => by
      subst hclosed
      exact Bool.noConfusion hallows
    have hready : s.Ready (.other (.server event)) := by
      cases event with
      | acceptorClosed => exact absurd rfl he
      | _ => exact trivial
    exact ⟨hlate, fun _ => hcongr (h.aside haside (h.sound.step hu)),
      iff_of_true (fun hc => h.complete hc (hp hc) hu haside hclose) hready⟩

/-- Any other event leaves nothing of the shutdown missing exactly if it finds the server ready. -/
theorem Steady.otherwise (h : Steady s) (hp : s.closed = true → Complete s.server)
    (htick : ∀ order, event ≠ .other (.tick order)) (ht : Service.step s event = some t) :
    t.late = s.late ∧ (s.Ready event → Steady t) ∧
      ((t.closed = true → Complete t.server) ↔ s.Ready event) := by
  cases event with
  | setTimeout seconds =>
    obtain rfl := Option.some.inj ht
    exact ⟨rfl, fun _ => h.congr rfl rfl rfl h.punctual, iff_of_true hp trivial⟩
  | listen bound success =>
    obtain ⟨-, ht⟩ := Option.ite_none_left_eq_some.mp ht
    obtain rfl := Option.some.inj ht
    cases bound <;>
    exact ⟨rfl, fun _ => ⟨h.sound, fun _ => rfl, h.handle, h.slot, h.count, h.punctual⟩,
      iff_of_true hp trivial⟩
  | close =>
    obtain ⟨hc, ht⟩ := Option.ite_none_left_eq_some.mp ht
    obtain rfl := Option.some.inj ht
    have hc' : s.closed = false := Bool.eq_false_iff.mpr hc
    by_cases ha : s.accetper_ = true
    · have hopened := h.opened hc'
      have hcount : s.server.close.log.count .serverClosed =
          s.server.log.count .serverClosed := by
        rw [close_of_opened hopened]
        have hne : Action.uvCloseAcceptor ≠ .serverClosed := nofun
        exact ((Aside.refl s.server).emit hne).reported
      obtain ⟨hsteady, hcomplete⟩ :=
        h.asked hc' ha (close_of_opened hopened ▸ rfl) hcount h.sound.close
      rw [if_pos ha]
      exact ⟨rfl, fun _ => hsteady, iff_of_true (fun _ => hcomplete) ha⟩
    · rw [if_neg ha]
      exact ⟨rfl, fun hready => absurd hready ha,
        iff_of_false (fun hp => h.not_complete (.refl _) hc' (hp rfl)) ha⟩
  | closed c closes =>
    obtain ⟨hguard, ht⟩ := Option.ite_none_right_eq_some.mp ht
    obtain ⟨u, hu, rfl⟩ := Option.map_eq_some_iff.mp ht
    have hsound := h.sound.step hu
    have haside (hzero : (closes && s.accetper_).toNat = 0) : Aside s.server u :=
      .step hu nofun nofun fun _ _ he => by cases he; exact hzero
    cases closes with
    | false =>
      have haside := haside rfl
      rw [Bool.or_false]
      exact ⟨rfl, fun _ => h.aside haside hsound,
        iff_of_true (fun hc => h.complete hc (hp hc) hu haside nofun) nofun⟩
    | true =>
      obtain ⟨hc, hn⟩ := hguard rfl
      rw [Bool.or_true]
      by_cases ha : s.accetper_ = true
      · have hopened := h.opened hc
        obtain ⟨-, hu⟩ := Option.ite_none_right_eq_some.mp hu
        obtain rfl := Option.some.inj hu
        have hcloses : (true && s.accetper_).toNat = 1 := by rw [ha]; rfl
        rw [hcloses] at hsound ⊢
        obtain ⟨haccetper, hcount⟩ := onClosed_notifies hn hopened
        obtain ⟨hsteady, hcomplete⟩ := h.asked hc ha haccetper hcount hsound
        exact ⟨rfl, fun _ => hsteady, iff_of_true (fun _ => hcomplete) fun _ => ha⟩
      · have hnot (hready : s.Ready (.closed c true)) : False := ha (hready rfl)
        refine ⟨rfl, fun hready => (hnot hready).elim, iff_of_false (fun hp => ?_) hnot⟩
        exact h.not_complete (haside (by rw [Bool.eq_false_iff.mpr ha]; rfl)) hc (hp rfl)
  | other event =>
    cases event with
    | server event => exact h.server hp ht
    | pass ms =>
      obtain ⟨-, watched, hw, rfl⟩ := Service.other_of_step ht
      obtain rfl := Option.some.inj hw
      have hlate : (s.late || s.overdue (.pass ms)) = s.late := Bool.or_false s.late
      exact ⟨hlate, fun _ => h.congr rfl rfl rfl fun hc => hlate.trans (h.punctual hc),
        iff_of_true hp trivial⟩
    | tick order => exact absurd rfl (htick order)

/-- An event leaves nothing of the shutdown missing exactly if it finds the server ready. -/
theorem Steady.step (h : Steady s) (hp : s.closed = true → s.Complete)
    (ht : Service.step s event = some t) :
    (s.Ready event → Steady t) ∧ ((t.closed = true → t.Complete) ↔ s.Ready event) := by
  have hlate : s.late = false := by
    cases hc : s.closed with
    | false => exact h.punctual hc
    | true => exact (hp hc).silent
  by_cases htick : ∃ order, event = .other (.tick order)
  · obtain ⟨order, rfl⟩ := htick
    obtain ⟨hsteady, hiff⟩ := h.tick hp ht
    exact ⟨fun _ => hsteady, hiff⟩
  · obtain ⟨hsame, hsteady, hiff⟩ := h.otherwise (fun hc => (hp hc).server)
      (fun order he => htick ⟨order, he⟩) ht
    refine ⟨hsteady, Iff.trans ?_ hiff⟩
    exact ⟨fun h hc => (h hc).server, fun h hc => ⟨h hc, hsame.trans hlate⟩⟩

theorem registered_expired (hs : Sound s.server) (hr : Registered s.server) (order : List Nat) :
    Registered (order.foldl onSocketClose s.server) :=
  (List.foldlRecOn (motive := fun u => Sound u ∧ Registered u) order onSocketClose ⟨hs, hr⟩
    fun _ ⟨hu, hru⟩ c _ => by
      obtain ⟨hq, hu'⟩ := quiet_onSocketClose hu hru c
      exact ⟨hu', hq.registered hru⟩).2

theorem Service.registered (hs : Sound s.server) (hr : Registered s.server)
    (ht : Service.step s event = some t) : Registered t.server ↔ s.Clear event := by
  cases event with
  | setTimeout seconds =>
    obtain rfl := Option.some.inj ht
    exact iff_of_true hr trivial
  | listen bound success =>
    obtain ⟨-, ht⟩ := Option.ite_none_left_eq_some.mp ht
    obtain rfl := Option.some.inj ht
    cases bound <;> exact iff_of_true hr trivial
  | close =>
    obtain ⟨-, ht⟩ := Option.ite_none_left_eq_some.mp ht
    obtain rfl := Option.some.inj ht
    refine iff_of_true ?_ trivial
    show Registered (if s.accetper_ then s.server.close else s.server)
    split
    · exact (quiet_close hs hr).1.registered hr
    · exact hr
  | closed c closes =>
    obtain ⟨-, ht⟩ := Option.ite_none_right_eq_some.mp ht
    obtain ⟨u, hu, rfl⟩ := Option.map_eq_some_iff.mp ht
    exact (step_registry hs hr hu).2
  | other event =>
    obtain ⟨-, watched, hw, rfl⟩ := Service.other_of_step ht
    cases WatchedServer.does_of_step hw with
    | server _ hu => exact (step_registry hs hr hu).2
    | pass => exact iff_of_true hr trivial
    | tick => exact iff_of_true (registered_expired hs hr _) trivial

/-- In every run: in all states along it the shutdown is complete wherever libuv has closed the
acceptor, its report true and nothing behind it, and the connections not closed are those their names
find, exactly if no name is accepted that still has an entry, none closed by name that is closing,
`close` finds an acceptor, the completion a drained server, and the timer of the wheel does not go
off behind that. -/
theorem complete_iff_ready {now : Nat} {onMessage onConnectClose : Bool} {events : List Service.Event}
    (hr : Service.step.run (.new now onMessage onConnectClose) events = some t) :
    (∀ before later u, events = before ++ later →
        Service.step.run (.new now onMessage onConnectClose) before = some u →
        (u.closed = true → u.Complete) ∧ Registered u.server) ↔
      Service.step.Throughout (fun s event => s.Ready event ∧ s.Clear event)
        (.new now onMessage onConnectClose) events :=
  Step.prefixes_iff_throughout (I := Steady)
    (fun _ _ _ h hp hc ht => (h.step hp.1 ht).1 hc.1)
    (fun _ _ _ h hp ht => and_congr (h.step hp.1 ht).2 (Service.registered h.sound hp.2 ht))
    (steady_new _ _ _) ⟨fun h => Bool.noConfusion h, registered_listening _ _⟩ hr

end run

theorem drained_single {s : TcpServer} (hempty : s.connnections = ∅) (haccepted : s.accepted = 1)
    (hclosed : (s.connection 0).handle = .closed) : Drained s where
  empty := hempty
  closed c hc := by
    obtain rfl : c = 0 := Nat.lt_one_iff.mp (haccepted ▸ hc)
    exact hclosed

theorem complete_iff_ready_idle :
    let events := [Service.Event.setTimeout 1, .listen true true,
      .other (.server (.accept "10.0.0.1:4000")), .other (.pass 1000), .other (.tick [0]), .close,
      .closed 0 false, .other (.server .acceptorClosed)]
    ∃ u, Service.step.run (.new 0 true true) events = some u ∧ u.Complete := by
  intro events
  have hready : Service.step.Throughout (fun s event => s.Ready event ∧ s.Clear event)
      (.new 0 true true) events :=
    .cons ⟨trivial, trivial⟩ rfl <| .cons ⟨trivial, trivial⟩ rfl <| .cons ⟨trivial, rfl⟩ rfl <|
      .cons ⟨trivial, trivial⟩ rfl <| .cons ⟨nofun, trivial⟩ rfl <| .cons ⟨rfl, trivial⟩ rfl <|
        .cons ⟨nofun, trivial⟩ rfl <| .cons ⟨drained_single rfl rfl rfl, trivial⟩ rfl trivial
  have hall := (@complete_iff_ready _ 0 true true events rfl).mpr hready
  exact ⟨_, rfl, (hall events [] _ (List.append_nil _).symm rfl).1 rfl⟩

/-- A connection is open when the server is closed; the timer of the wheel goes off afterwards;
`close` comes before `listen`. -/
theorem not_complete_open :
    (∃ u, Service.step.run (.new 0 true true) [.listen true true,
      .other (.server (.accept "10.0.0.1:4000")), .close, .other (.server .acceptorClosed)] = some u ∧
      u.closed = true ∧ ¬ u.Complete) ∧
    (∃ u, Service.step.run (.new 0 true true) [.setTimeout 1, .listen true true, .close,
      .other (.server .acceptorClosed), .other (.pass 1000), .other (.tick [])] = some u ∧
      u.closed = true ∧ ¬ u.Complete) ∧
    ∃ u, Service.step.run (.new 0 true true) [.close] = some u ∧ u.closed = true ∧ ¬ u.Complete := by
  refine ⟨⟨_, rfl, rfl, fun h => ?_⟩, ⟨_, rfl, rfl, fun h => ?_⟩, _, rfl, rfl, fun h => ?_⟩
  · have hclosed := (h.server.drained (by decide)).closed 0 (by decide)
    exact Phase.noConfusion hclosed
  · exact Bool.noConfusion h.silent
  · exact Nat.zero_ne_one h.server.once

end AeProxy.TcpServer
