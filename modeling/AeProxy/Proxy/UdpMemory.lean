import AeProxy.Lib.Heap
import AeProxy.Lib.Simulation
import AeProxy.Proxy.Sessions
import Mathlib.Algebra.Order.Group.Multiset
import Mathlib.Tactic.Abel

/-! `UdpProxy` as it lies in memory: its agents, and the buffers and requests it hands to libuv, which
reads a buffer when the datagram goes out, at once or later. The lines logged are left out, with what
`%s` reads behind the bytes received. -/
namespace AeProxy.Proxy.UdpProxy
open Lib

/-- A datagram at the socket of the proxy, or at that of an agent, which takes it from any sender. -/
inductive Arrival where
  | client (peer : SockaddrIn) (mem : Memory) (data : List UInt8)
  | agent (agent : Nat) (sender : SockaddrIn) (data : List UInt8)

/-- What the callbacks look at: the sender of a reply is only logged. -/
def Arrival.event : Arrival → Event
  | .client peer mem data => .datagram peer mem data
  | .agent handle _ data => .reply handle data

/-- What an agent has received and passes on, with the sender it came from. -/
structure Answer where
  sender : SockaddrIn
  data : List UInt8

/-- An agent with its socket, the bytes of a buffer or of a string, or a `uv_udp_send_t`. -/
inductive Cell where
  | agent (agent : UdpAgent)
  | bytes (data : Text)
  | request

/-- A datagram that libuv has yet to send: the request, where the bytes are, the call, and the answer
if it is one. -/
structure Loan where
  request : Nat
  base : Nat
  send : Send
  answer : Option Answer

/-- A datagram that has gone out: the call, the answer if it was one, whether the call had returned
before, and the bytes; `none` when they were not there any more. -/
structure Departure where
  send : Send
  answer : Option Answer
  late : Bool
  data : Option Text

/-- What becomes of a call of `uv_udp_send`. -/
inductive Outcome where
  | refused
  | atOnce
  | queued

/-- The pointers the proxy and libuv hold, and the calls of `uv_udp_send` made so far. -/
structure Process where
  heap : Heap Cell
  session : AList fun _ : Text => Nat
  agents : List Nat
  calls : List Send
  refused : List (Nat × Send)
  queued : List Loan
  unreported : List Nat
  departed : List Departure

namespace Process

/-- A datagram arrives, with what libuv does with the call it leads to; a queued one goes out; the
request of one that has gone out is reported. -/
inductive Event where
  | arrive (arrival : Arrival) (outcome : Outcome)
  | flush (loan : Nat)
  | report (request : Nat)

def new : Process := ⟨.empty, ∅, [], [], [], [], [], []⟩

def agentAt (self : Process) (a : Nat) : Option UdpAgent :=
  match self.heap.read a with
  | some (.agent agent) => some agent
  | _ => none

def bytesAt (self : Process) (a : Nat) : Option Text :=
  match self.heap.read a with
  | some (.bytes data) => some data
  | _ => none

def allocate (self : Process) (cell : Cell) : Process × Nat :=
  let (heap, a) := self.heap.new cell
  ({ self with heap := heap }, a)

/-- Here and below `none` is an access to memory that is not there. -/
def release (self : Process) (a : Nat) : Option Process :=
  (self.heap.delete a).map fun heap => { self with heap := heap }

def uvUdpSend (self : Process) (request base : Nat) (send : Send) (answer : Option Answer) :
    Outcome → Process
  | .refused => { self with refused := self.refused ++ [(request, send)] }
  | .atOnce => { self with
      unreported := self.unreported ++ [request]
      departed := self.departed ++ [⟨send, answer, false, self.bytesAt base⟩] }
  | .queued => { self with queued := self.queued ++ [⟨request, base, send, answer⟩] }

/-- `UdpSocket::send` on the socket of an agent. -/
def send (self : Process) (agent : UdpAgent) (addr : SockaddrIn) (base : Nat)
    (answer : Option Answer) (outcome : Outcome) : Option Process :=
  (self.bytesAt base).map fun buf =>
    let send : Send := ⟨agent, addr, buf⟩
    let (self, request) := self.allocate .request
    { self with calls := self.calls ++ [send] }.uvUdpSend request base send answer outcome

def sendToServer (inet : Inet) (self : Process) (agent base : Nat) (outcome : Outcome) :
    Option Process :=
  (self.agentAt agent).bind fun a => self.send a (a.sa inet).ipv4 base none outcome

def sendToClient (inet : Inet) (self : Process) (agent base : Nat) (answer : Answer)
    (outcome : Outcome) : Option Process :=
  (self.agentAt agent).bind fun a => self.send a (a.ca inet).ipv4 base (some answer) outcome

def getAgent (self : Process) (cip : Text) (cport : Int32) (sip : Text) (sport : Int32) :
    Process × Nat :=
  match self.session.lookup (key cip cport sip sport) with
  | some agent => (self, agent)
  | none =>
    let (self, agent) := self.allocate (.agent ⟨self.agents.length, cip, cport, sip, sport⟩)
    ({ self with
        session := self.session.insert (key cip cport sip sport) agent
        agents := self.agents ++ [agent] }, agent)

/-- The string with the message goes with the call. -/
def forward (inet : Inet) (self : Process) (peer : SocketAddr) (request : Request)
    (outcome : Outcome) : Option Process :=
  let (self, message) := self.allocate (.bytes request.message)
  let (self, agent) := self.getAgent (cStr peer.ip) (Int32.ofNat peer.port.toNat) (cStr request.ip)
    request.port
  (self.sendToServer inet agent message outcome).bind fun self => self.release message

/-- `UdpSocket::on_mesage_receive`, behind the buffer made for it. -/
def onMesageReceive (self : Process) (data : List UInt8)
    (onMessage : Process → Nat → Option Process) : Option Process :=
  let (self, base) := self.allocate (.bytes data)
  (if data = [] then some self else onMessage self base).bind fun self => self.release base

def step (inet : Inet) (unpacker : Unpacker) : Step Process Event := fun self event =>
  match event with
  | .arrive (.client peer mem data) outcome =>
    self.onMesageReceive data fun self base => (self.bytesAt base).bind fun data =>
      self.forward inet (.ofSockaddr inet peer) (unpack mem (unpacker.objects data)) outcome
  | .arrive (.agent agent sender data) outcome =>
    self.agents[agent]?.bind fun agent =>
      self.onMesageReceive data fun self base =>
        self.sendToClient inet agent base ⟨sender, data⟩ outcome
  | .flush loan =>
    self.queued[loan]?.map fun loan' => { self with
      queued := self.queued.eraseIdx loan
      unreported := self.unreported ++ [loan'.request]
      departed := self.departed ++ [⟨loan'.send, loan'.answer, true, self.bytesAt loan'.base⟩] }
  | .report request =>
    self.unreported[request]?.bind fun request' =>
      { self with unreported := self.unreported.eraseIdx request }.release request'

/-- libuv has this socket, this datagram or this request. -/
def Possible (self : Process) : Event → Prop
  | .arrive (.client _ _ _) _ => True
  | .arrive (.agent agent _ _) _ => agent < self.agents.length
  | .flush loan => loan < self.queued.length
  | .report request => request < self.unreported.length

instance (s : Process) : ∀ e, Decidable (s.Possible e)
  | .arrive (.client _ _ _) _ => .isTrue trivial
  | .arrive (.agent agent _ _) _ => Nat.decLt agent s.agents.length
  | .flush loan => Nat.decLt loan s.queued.length
  | .report request => Nat.decLt request s.unreported.length

/-- The cells of the agents, of the requests under way, and of those refused. -/
def owned (self : Process) : Multiset Nat :=
  self.agents + self.queued.map Loan.request + self.unreported + self.refused.map Prod.fst

/-- The calls whose datagram has gone out, is still to go out, or was refused. -/
def issued (self : Process) : Multiset Send :=
  self.departed.map Departure.send + self.queued.map Loan.send + self.refused.map Prod.snd

/-- The proxy of the values, while a call has made `temps`: the pointers lead to its agents, every
cell is accounted for, and of a datagram still to go out the bytes are the running call's, or gone. -/
structure Represents (s : Process) (u : State) (temps : Multiset Nat) : Prop where
  cells : s.heap.Exactly (temps + s.owned)
  agents : s.agents.map s.agentAt = u.agents.map some
  known : ∀ a agent, s.agentAt a = some agent → a ∈ temps ∨ a ∈ s.agents
  session : ∀ k, (s.session.lookup k).map s.agentAt = (u.session.lookup k).map some
  calls : s.calls = u.sent
  lent : ∀ loan ∈ s.queued, loan.base < s.heap.next ∧
    (loan.base ∈ temps ∨ s.heap.read loan.base = none)
  departed : ∀ d ∈ s.departed, d.data = if d.late then none else some d.send.buf
  conserved : s.issued = s.calls

/-- Bytes that are there stay. -/
def KeepsBytes (s t : Process) : Prop :=
  ∀ a data, s.bytesAt a = some data → t.bytesAt a = some data

section represents
variable (inet : Inet) (unpacker : Unpacker) {s t : Process} {u : State} {temps temps' : Multiset Nat}
  {a : Nat} {agent : UdpAgent} {data : Text}

theorem agentAt_eq_some : s.agentAt a = some agent ↔ s.heap.read a = some (.agent agent) := by
  rw [agentAt]
  cases s.heap.read a with
  | none => exact iff_of_false nofun nofun
  | some cell => cases cell <;> simp

theorem bytesAt_eq_some : s.bytesAt a = some data ↔ s.heap.read a = some (.bytes data) := by
  rw [bytesAt]
  cases s.heap.read a with
  | none => exact iff_of_false nofun nofun
  | some cell => cases cell <;> simp

theorem represents_new : Represents new .new 0 where
  cells := Heap.exactly_empty
  agents := rfl
  known _ _ h := by cases h
  session _ := rfl
  calls := rfl
  lent _ h := absurd h List.not_mem_nil
  departed _ h := absurd h List.not_mem_nil
  conserved := rfl

/-- Cells that are no agents come and go. -/
theorem Represents.moves {heap : Heap Cell} {S S' : Finset Nat} (h : Represents s u temps)
    (hm : Heap.Moves S S' s.heap heap)
    (hS : ∀ a ∈ S, a ∉ S' ∧ ∀ agent, s.heap.read a ≠ some (.agent agent))
    (hcells : heap.Exactly (temps' + s.owned)) (hS' : ∀ a ∈ S', a ∈ temps')
    (htemps : ∀ a ∈ temps, a ∈ temps' ∨ a ∈ S) :
    Represents { s with heap := heap } u temps' := by
  have hkept {p : Nat} {agent : UdpAgent} (hp : s.agentAt p = some agent) :
      { s with heap := heap }.agentAt p = some agent := by
    rw [agentAt_eq_some] at hp ⊢
    exact (hm.read_eq hp fun hpS => (hS p hpS).2 agent hp).2
  have hfreed {a : Nat} (ha : a ∈ S) : heap.read a = none := hm.freed a ha (hS a ha).1
  refine ⟨hcells, ?_, fun a agent ha => ?_, fun k => ?_, h.calls, fun loan hl => ?_, h.departed,
    h.conserved⟩
  · rw [← h.agents]
    apply List.map_congr_left
    intro p hp
    have hsome := List.mem_map_of_mem (f := s.agentAt) hp
    rw [h.agents] at hsome
    obtain ⟨agent, -, hagent⟩ := List.mem_map.mp hsome
    rw [← hagent, hkept hagent.symm]
  · by_cases haS' : a ∈ S'
    · exact .inl (hS' a haS')
    · rw [agentAt_eq_some] at ha
      have hna : a ∉ S := by
        intro haS
        rw [hfreed haS] at ha
        cases ha
      have hk := h.known a agent (agentAt_eq_some.mpr ((hm.others a hna haS').symm.trans ha))
      exact hk.imp_left fun ht => (htemps a ht).resolve_right hna
  · have hk := h.session k
    rw [← hk]
    cases hp : s.session.lookup k with
    | none => rfl
    | some p =>
      rw [hp] at hk
      obtain ⟨agent, -, hagent⟩ := Option.map_eq_some_iff.mp hk.symm
      exact congrArg some ((hkept hagent.symm).trans hagent)
  · obtain ⟨hnext, hlent⟩ := h.lent loan hl
    refine ⟨Nat.lt_of_lt_of_le hnext hm.next_le, ?_⟩
    rcases hlent with ht | hgone
    · exact (htemps _ ht).imp_right hfreed
    · by_cases hb : loan.base ∈ S
      · exact .inr (hfreed hb)
      · exact .inr (hm.read_none hgone hnext hb)

theorem Represents.allocate (h : Represents s u temps) (cell : Cell) :
    Represents (s.allocate cell).1 u (s.heap.next ::ₘ temps) := by
  apply h.moves (Heap.moves_new s.heap cell) (fun a ha => absurd ha (Finset.notMem_empty a))
  · rw [Multiset.cons_add]
    exact h.cells.new cell
  · exact fun a ha => Multiset.mem_cons.mpr (.inl (Finset.mem_singleton.mp ha))
  · exact fun a ha => .inl (Multiset.mem_cons_of_mem ha)

theorem keepsBytes_allocate (s : Process) (cell : Cell) : s.KeepsBytes (s.allocate cell).1 := by
  intro a data h
  rw [bytesAt_eq_some] at h ⊢
  exact ((Heap.moves_new s.heap cell).read_eq h (Finset.notMem_empty a)).2

theorem Represents.release (h : Represents s u (a ::ₘ temps))
    (ha : ∀ agent, s.heap.read a ≠ some (.agent agent)) :
    ∃ t, s.release a = some t ∧ Represents t u temps ∧
      ∀ b data, b ≠ a → s.bytesAt b = some data → t.bytesAt b = some data := by
  have hcells := h.cells
  rw [Multiset.cons_add] at hcells
  obtain ⟨heap, hd, hm, hcells⟩ := hcells.delete
  refine ⟨_, congrArg (Option.map _) hd, h.moves hm (fun b hb => ?_) hcells
    (fun b hb => absurd hb (Finset.notMem_empty b)) fun b hb => ?_, fun b data hb hdata => ?_⟩
  · rw [Finset.mem_singleton.mp hb]
    exact ⟨Finset.notMem_empty a, ha⟩
  · exact (Multiset.mem_cons.mp hb).symm.imp_right Finset.mem_singleton.mpr
  · rw [bytesAt_eq_some] at hdata ⊢
    exact (hm.read_eq hdata (mt Finset.mem_singleton.mp hb)).2

theorem coe_map_concat {α β : Type*} (f : α → β) (l : List α) (x : α) :
    (((l ++ [x]).map f : List β) : Multiset β) = (l.map f : List β) + {f x} := by
  rw [List.map_append, ← Multiset.coe_add]
  rfl

/-- Whatever libuv does with a call, the request is one of those accounted for. -/
theorem owned_uvUdpSend (s : Process) (request base : Nat) (send : Send) (answer : Option Answer)
    (outcome : Outcome) :
    (s.uvUdpSend request base send answer outcome).owned = request ::ₘ s.owned := by
  rw [← Multiset.singleton_add]
  cases outcome with
  | refused =>
    simp only [uvUdpSend, owned, coe_map_concat]
    abel
  | atOnce =>
    simp only [uvUdpSend, owned, ← Multiset.coe_add, Multiset.coe_singleton]
    abel
  | queued =>
    simp only [uvUdpSend, owned, coe_map_concat]
    abel

theorem issued_uvUdpSend (s : Process) (request base : Nat) (send : Send) (answer : Option Answer)
    (outcome : Outcome) :
    (s.uvUdpSend request base send answer outcome).issued = s.issued + {send} := by
  cases outcome <;>
  · simp only [uvUdpSend, issued, coe_map_concat]
    abel

/-- The allocation leaves alone what is lent. -/
theorem Represents.lent_allocate (h : Represents s u temps) (cell : Cell) (loan : Loan)
    (hl : loan ∈ s.queued) : loan.base < (s.allocate cell).1.heap.next ∧
      (loan.base ∈ temps ∨ (s.allocate cell).1.heap.read loan.base = none) := by
  obtain ⟨hnext, hlent⟩ := (h.allocate cell).lent loan hl
  exact ⟨hnext, hlent.imp_left fun hm =>
    (Multiset.mem_cons.mp hm).resolve_left (Nat.ne_of_lt (h.lent loan hl).1)⟩

theorem Represents.known_allocate (h : Represents s u temps) (cell : Cell)
    (hc : ∀ agent, cell ≠ .agent agent) (a : Nat) (agent : UdpAgent)
    (ha : (s.allocate cell).1.agentAt a = some agent) : a ∈ temps ∨ a ∈ s.agents := by
  refine ((h.allocate cell).known a agent ha).imp_left fun hm => ?_
  refine (Multiset.mem_cons.mp hm).resolve_left fun he => ?_
  rw [he, agentAt_eq_some] at ha
  exact hc agent (Option.some.inj ((Heap.read_new s.heap cell).symm.trans ha))

/-- A cell of the running call is handed over. -/
theorem hand {heap : Heap Cell} {cells cells' : Multiset Nat} (h : heap.Exactly (a ::ₘ temps + cells))
    (hc : cells' = a ::ₘ cells) : heap.Exactly (temps + cells') := by
  rwa [hc, Multiset.add_cons, ← Multiset.cons_add]

/-- The same agent on both sides, found or made. -/
theorem Represents.getAgent (h : Represents s u temps) (cip : Text) (cport : Int32) (sip : Text)
    (sport : Int32) :
    let got := s.getAgent cip cport sip sport
    let got' := u.getAgent cip cport sip sport
    Represents got.1 got'.1 temps ∧ got.1.agentAt got.2 = some got'.2 ∧ s.KeepsBytes got.1 := by
  have hk := h.session (key cip cport sip sport)
  rw [Process.getAgent, State.getAgent]
  cases hs : s.session.lookup (key cip cport sip sport) with
  | some a =>
    rw [hs] at hk
    obtain ⟨agent, hu, hagent⟩ := Option.map_eq_some_iff.mp hk.symm
    rw [hu]
    exact ⟨h, hagent.symm, fun _ _ hb => hb⟩
  | none =>
    rw [hs] at hk
    rw [Option.map_eq_none_iff.mp hk.symm]
    have hlen : s.agents.length = u.agents.length := by
      rw [← List.length_map s.agentAt, h.agents, List.length_map]
    have ha := h.allocate (.agent ⟨u.agents.length, cip, cport, sip, sport⟩)
    have hread : (s.allocate (.agent ⟨u.agents.length, cip, cport, sip, sport⟩)).1.agentAt
        s.heap.next = some ⟨u.agents.length, cip, cport, sip, sport⟩ :=
      agentAt_eq_some.mpr (Heap.read_new ..)
    rw [hlen]
    refine ⟨⟨?_, ?_, fun a agent hm => ?_, fun k => ?_, ha.calls, h.lent_allocate _, ha.departed,
      ha.conserved⟩, hread, keepsBytes_allocate s _⟩
    · apply hand ha.cells
      show ((s.agents ++ [s.heap.next] : List Nat) : Multiset Nat) + _ + _ + _ = s.heap.next ::ₘ s.owned
      rw [owned, ← Multiset.coe_add, Multiset.coe_singleton, ← Multiset.singleton_add]
      abel
    · show (s.agents ++ [s.heap.next]).map _ = _
      rw [List.map_append, List.map_append]
      exact congrArg₂ (· ++ ·) ha.agents (congrArg (fun agent => [agent]) hread)
    · rcases ha.known a agent hm with hm | hm
      · refine (Multiset.mem_cons.mp hm).symm.imp_right fun he => ?_
        exact List.mem_append_right _ (List.mem_singleton.mpr he)
      · exact .inr (List.mem_append_left _ hm)
    · show ((s.session.insert _ _).lookup k).map _ = _
      by_cases he : k = key cip cport sip sport
      · rw [he, AList.lookup_insert, AList.lookup_insert]
        exact congrArg some hread
      · rw [AList.lookup_insert_ne he, AList.lookup_insert_ne he]
        exact ha.session k

theorem Represents.send {base : Nat} {buf : Text} (h : Represents s u temps) (hb : base ∈ temps)
    (hd : s.bytesAt base = some buf) (agent : UdpAgent) (addr : SockaddrIn)
    (answer : Option Answer) (outcome : Outcome) :
    ∃ t, s.send agent addr base answer outcome = some t ∧
      Represents t { u with sent := u.sent ++ [⟨agent, addr, buf⟩] } temps ∧ s.KeepsBytes t := by
  have ha := h.allocate .request
  have hkeep := keepsBytes_allocate s .request
  have hd' := hkeep base buf hd
  have hknown := h.known_allocate .request fun _ => nofun
  have hcalls : s.calls ++ [(⟨agent, addr, buf⟩ : Send)] = u.sent ++ [⟨agent, addr, buf⟩] := by
    rw [h.calls]
  have hissued : s.issued + {(⟨agent, addr, buf⟩ : Send)} =
      ((s.calls ++ [(⟨agent, addr, buf⟩ : Send)] : List Send) : Multiset Send) := by
    rw [h.conserved, ← Multiset.coe_add, Multiset.coe_singleton]
  refine ⟨_, by rw [Process.send, hd]; rfl, ?_, by cases outcome <;> exact hkeep⟩
  cases outcome with
  | refused =>
    exact ⟨hand ha.cells (owned_uvUdpSend ..), ha.agents, hknown, ha.session, hcalls,
      h.lent_allocate _, ha.departed, (issued_uvUdpSend ..).trans hissued⟩
  | atOnce =>
    refine ⟨hand ha.cells (owned_uvUdpSend ..), ha.agents, hknown, ha.session, hcalls,
      h.lent_allocate _, fun d hm => ?_, (issued_uvUdpSend ..).trans hissued⟩
    rcases List.mem_append.mp hm with hm | hm
    · exact h.departed d hm
    · obtain rfl := List.mem_singleton.mp hm
      exact hd'
  | queued =>
    refine ⟨hand ha.cells (owned_uvUdpSend ..), ha.agents, hknown, ha.session, hcalls,
      fun loan hl => ?_, ha.departed, (issued_uvUdpSend ..).trans hissued⟩
    rcases List.mem_append.mp hl with hl | hl
    · exact h.lent_allocate _ loan hl
    · obtain rfl := List.mem_singleton.mp hl
      exact ⟨Heap.lt_next (bytesAt_eq_some.mp hd'), .inl hb⟩

theorem not_agent_of_bytesAt (h : s.bytesAt a = some data) (agent : UdpAgent) :
    s.heap.read a ≠ some (.agent agent) := by
  rw [bytesAt_eq_some.mp h]
  exact nofun

/-- The call of a client's datagram, from a buffer that is there. -/
theorem Represents.forward (h : Represents s u temps) (peer : SocketAddr) (request : Request)
    (outcome : Outcome) (hb : s.bytesAt a = some data) :
    ∃ t, s.forward inet peer request outcome = some t ∧
      Represents t (u.forward inet peer request) temps ∧ t.bytesAt a = some data := by
  have ha := h.allocate (.bytes request.message)
  have hm : (s.allocate (.bytes request.message)).1.bytesAt s.heap.next = some request.message :=
    bytesAt_eq_some.mpr (Heap.read_new ..)
  have hb' := keepsBytes_allocate s (.bytes request.message) a data hb
  have hne : a ≠ s.heap.next := Nat.ne_of_lt (Heap.lt_next (bytesAt_eq_some.mp hb))
  obtain ⟨hg, hagent, hkeep⟩ := ha.getAgent (cStr peer.ip) (Int32.ofNat peer.port.toNat)
    (cStr request.ip) request.port
  obtain ⟨t, ht, hs, hkeep'⟩ := hg.send (Multiset.mem_cons_self ..) (hkeep _ _ hm) _ _ none
    outcome
  obtain ⟨t', ht', hr, hother⟩ := hs.release (not_agent_of_bytesAt (hkeep' _ _ (hkeep _ _ hm)))
  refine ⟨t', ?_, hr, hother a data hne (hkeep' a data (hkeep a data hb'))⟩
  exact Option.bind_eq_some_iff.mpr ⟨t, Option.bind_eq_some_iff.mpr ⟨_, hagent, ht⟩, ht'⟩

/-- The buffer made for a datagram goes behind the call. -/
theorem Represents.onMesageReceive {v : State} (h : Represents s u temps) (data : List UInt8)
    (onMessage : Process → Nat → Option Process)
    (hcall : data ≠ [] → ∃ t, onMessage (s.allocate (.bytes data)).1 s.heap.next = some t ∧
      Represents t v (s.heap.next ::ₘ temps) ∧ t.bytesAt s.heap.next = some data) :
    ∃ t, s.onMesageReceive data onMessage = some t ∧
      Represents t (if data = [] then u else v) temps := by
  have hm : (s.allocate (.bytes data)).1.bytesAt s.heap.next = some data :=
    bytesAt_eq_some.mpr (Heap.read_new ..)
  by_cases hd : data = []
  · obtain ⟨t, ht, hr, -⟩ := (h.allocate (.bytes data)).release (not_agent_of_bytesAt hm)
    rw [if_pos hd]
    exact ⟨t, Option.bind_eq_some_iff.mpr ⟨_, if_pos hd, ht⟩, hr⟩
  · obtain ⟨t, ht, hr, hb⟩ := hcall hd
    obtain ⟨t', ht', hr, -⟩ := hr.release (not_agent_of_bytesAt hb)
    rw [if_neg hd]
    exact ⟨t', Option.bind_eq_some_iff.mpr ⟨t, (if_neg hd).trans ht, ht'⟩, hr⟩

theorem Represents.arriveClient (h : Represents s u 0) (peer : SockaddrIn) (mem : Memory)
    (data : List UInt8) (outcome : Outcome) :
    ∃ t v, Process.step inet unpacker s (.arrive (.client peer mem data) outcome) = some t ∧
      UdpProxy.step inet unpacker u (.datagram peer mem data) = some v ∧ Represents t v 0 := by
  have hb : (s.allocate (.bytes data)).1.bytesAt s.heap.next = some data :=
    bytesAt_eq_some.mpr (Heap.read_new ..)
  obtain ⟨t, ht, hr, hdata⟩ := (h.allocate (.bytes data)).forward inet
    (.ofSockaddr inet peer) (unpack mem (unpacker.objects data)) outcome hb
  obtain ⟨t', ht', hr'⟩ := h.onMesageReceive data
    (fun self base => (self.bytesAt base).bind fun data =>
      self.forward inet (.ofSockaddr inet peer) (unpack mem (unpacker.objects data)) outcome)
    fun _ => ⟨t, Option.bind_eq_some_iff.mpr ⟨data, hb, ht⟩, hr, hdata⟩
  exact ⟨t', _, ht', rfl, hr'⟩

theorem Represents.arriveAgent (h : Represents s u 0) {i : Nat} (hi : i < s.agents.length)
    (sender : SockaddrIn) (data : List UInt8) (outcome : Outcome) :
    ∃ t v, Process.step inet unpacker s (.arrive (.agent i sender data) outcome) = some t ∧
      UdpProxy.step inet unpacker u (.reply i data) = some v ∧ Represents t v 0 := by
  have ha := h.allocate (.bytes data)
  have hb : (s.allocate (.bytes data)).1.bytesAt s.heap.next = some data :=
    bytesAt_eq_some.mpr (Heap.read_new ..)
  have hget := congrArg (·[i]?) ha.agents
  simp only [List.getElem?_map] at hget
  have hp : (s.allocate (.bytes data)).1.agents[i]? = some s.agents[i] := List.getElem?_eq_getElem hi
  rw [hp] at hget
  obtain ⟨agent, hu, hagent⟩ := Option.map_eq_some_iff.mp hget.symm
  obtain ⟨t, ht, hr, hkeep⟩ := ha.send (Multiset.mem_cons_self ..) hb agent (agent.ca inet).ipv4
    (some ⟨sender, data⟩) outcome
  have hcall : (s.allocate (.bytes data)).1.sendToClient inet s.agents[i] s.heap.next ⟨sender, data⟩
      outcome = some t := Option.bind_eq_some_iff.mpr ⟨agent, hagent.symm, ht⟩
  obtain ⟨t', ht', hr'⟩ := h.onMesageReceive (v := u.sendToClient inet agent data) data
    (fun self base => self.sendToClient inet s.agents[i] base ⟨sender, data⟩ outcome)
    fun _ => ⟨t, hcall, hr, hkeep _ _ hb⟩
  exact ⟨t', _, Option.bind_eq_some_iff.mpr ⟨_, hp, ht'⟩, congrArg (Option.map _) hu, hr'⟩

theorem coe_map_eraseIdx {α β : Type*} (f : α → β) (l : List α) {i : Nat} (hi : i < l.length) :
    ((l.map f : List β) : Multiset β) = ((l.eraseIdx i).map f : List β) + {f l[i]} := by
  have hp := (List.getElem_cons_eraseIdx_perm hi).map f
  rw [← Multiset.coe_eq_coe.mpr hp, List.map_cons, ← Multiset.cons_coe, ← Multiset.singleton_add,
    add_comm]

/-- The bytes of a queued datagram are gone when it goes out. -/
theorem Represents.flush (h : Represents s u 0) {k : Nat} (hk : k < s.queued.length) :
    ∃ t, Process.step inet unpacker s (.flush k) = some t ∧ Represents t u 0 := by
  refine ⟨_, congrArg (Option.map _) (List.getElem?_eq_getElem hk), ?_⟩
  have hgone : s.bytesAt s.queued[k].base = none := by
    rw [bytesAt, (h.lent _ (List.getElem_mem hk)).2.resolve_left (Multiset.notMem_zero _)]
  refine ⟨?_, h.agents, h.known, h.session, h.calls,
    fun loan hl => h.lent loan (List.mem_of_mem_eraseIdx hl), fun d hd => ?_, ?_⟩
  · convert h.cells using 2
    simp only [owned, coe_map_eraseIdx _ _ hk, ← Multiset.coe_add, Multiset.coe_singleton]
    abel
  · rcases List.mem_append.mp hd with hd | hd
    · exact h.departed d hd
    · obtain rfl := List.mem_singleton.mp hd
      exact hgone
  · rw [← h.conserved]
    simp only [issued, coe_map_concat, coe_map_eraseIdx _ _ hk]
    abel

theorem Represents.report (h : Represents s u 0) {k : Nat} (hk : k < s.unreported.length) :
    ∃ t, Process.step inet unpacker s (.report k) = some t ∧ Represents t u 0 := by
  have howned : s.owned =
      s.unreported[k] ::ₘ { s with unreported := s.unreported.eraseIdx k }.owned := by
    have hmap := coe_map_eraseIdx id s.unreported hk
    rw [List.map_id, List.map_id, id_eq] at hmap
    rw [owned, hmap, ← Multiset.singleton_add]
    show _ = {s.unreported[k]} + (_ + _ + _ + _)
    abel
  have hcells := h.cells
  rw [howned, zero_add] at hcells
  have hr : Represents { s with unreported := s.unreported.eraseIdx k } u (s.unreported[k] ::ₘ 0) :=
    ⟨by rwa [Multiset.cons_add, zero_add], h.agents, fun a agent ha =>
      .inr ((h.known a agent ha).resolve_left (Multiset.notMem_zero a)), h.session, h.calls,
      fun loan hl => (h.lent loan hl).imp_right fun hlent =>
        .inr (hlent.resolve_left (Multiset.notMem_zero _)), h.departed, h.conserved⟩
  obtain ⟨t, ht, hr, -⟩ := hr.release fun agent ha => by
    -- An agent is owned as such, and so as nothing else.
    have hk := (h.known _ agent (agentAt_eq_some.mpr ha)).resolve_left (Multiset.notMem_zero _)
    refine (Multiset.nodup_cons.mp hcells.nodup).1 ?_
    simp only [owned, Multiset.mem_add, Multiset.mem_coe]
    exact .inl (.inl (.inl hk))
  exact ⟨t, Option.bind_eq_some_iff.mpr ⟨_, List.getElem?_eq_getElem hk, ht⟩, hr⟩

/-- What the proxy of the values sees. -/
def Event.seen : Event → List UdpProxy.Event
  | .arrive arrival _ => [arrival.event]
  | .flush _ => []
  | .report _ => []

/-- Every step libuv can take is taken, and keeps to the proxy of the values. -/
theorem Represents.step {event : Event} (h : Represents s u 0) (hp : s.Possible event) :
    ∃ t v, Process.step inet unpacker s event = some t ∧
      (UdpProxy.step inet unpacker).run u event.seen = some v ∧ Represents t v 0 := by
  cases event with
  | arrive arrival outcome =>
    cases arrival with
    | client peer mem data =>
      obtain ⟨t, v, ht, hv, hr⟩ := h.arriveClient inet unpacker peer mem data outcome
      exact ⟨t, v, ht, Step.run_cons_eq_some.mpr ⟨v, hv, rfl⟩, hr⟩
    | agent i sender data =>
      obtain ⟨t, v, ht, hv, hr⟩ := h.arriveAgent inet unpacker hp sender data outcome
      exact ⟨t, v, ht, Step.run_cons_eq_some.mpr ⟨v, hv, rfl⟩, hr⟩
  | flush k =>
    obtain ⟨t, ht, hr⟩ := h.flush inet unpacker hp
    exact ⟨t, u, ht, rfl, hr⟩
  | report k =>
    obtain ⟨t, ht, hr⟩ := h.report inet unpacker hp
    exact ⟨t, u, ht, rfl, hr⟩

end represents

/-- However libuv goes on: the proxy reads and gives back only what is there, and calls
`uv_udp_send` as the proxy of the values does. The datagram of each call has gone out, is still to go
out, or was refused; and in memory are the agents, the requests under way, and those refused, which
nobody gives back. A datagram goes out with the bytes of its call exactly if it does so during the
call: later they are gone. -/
theorem sends_run (inet : Inet) (unpacker : Unpacker) (events : List Event)
    (hp : (step inet unpacker).Throughout Possible new events) :
    ∃ t u, (step inet unpacker).run new events = some t ∧
      (UdpProxy.step inet unpacker).run .new (events.flatMap Event.seen) = some u ∧
      t.calls = u.sent ∧ t.issued = t.calls ∧ t.heap.Exactly t.owned ∧
      ∀ d ∈ t.departed, (d.data = some d.send.buf ↔ d.late = false) ∧
        (d.data = none ↔ d.late = true) := by
  have hstep (s : Process) (u : State) (e : Event) (h : s.Represents u 0) (hp : s.Possible e) :=
    h.step inet unpacker hp
  obtain ⟨t, u, ht, hu, hr⟩ := Step.run_simulated hstep represents_new hp
  refine ⟨t, u, ht, hu, hr.calls, hr.conserved, zero_add t.owned ▸ hr.cells, fun d hd => ?_⟩
  rw [hr.departed d hd]
  cases d.late with
  | false => exact ⟨iff_of_true rfl rfl, iff_of_false nofun nofun⟩
  | true => exact ⟨iff_of_false nofun nofun, iff_of_true rfl rfl⟩

/-- A client asks twice before libuv is through with the first datagram, and the second goes out
without its bytes. -/
theorem sends_run_queued :
    let mem : Memory := ⟨0, 0, fun _ => 0, fun _ => []⟩
    let client : Arrival := .client ⟨0x0100007f, 4444⟩ mem [167, 49, 46, 50, 46, 51, 46, 52, 80, 161, 97]
    let events : List Event :=
      [.arrive client .atOnce, .arrive client .queued, .flush 0, .report 0, .report 0]
    ∃ t u, (step .dotted Format.msgpack.toReader).run new events = some t ∧
      (UdpProxy.step .dotted Format.msgpack.toReader).run .new [client.event, client.event] = some u ∧
      t.departed.map Departure.data = [some [97], none] ∧ t.heap.Exactly {2} := by
  intro mem client events
  have hp : (step .dotted Format.msgpack.toReader).Throughout Possible new events := by
    decide +kernel
  have hs : ((step .dotted Format.msgpack.toReader).run new events).map (fun t =>
      (t.departed.map Departure.data, t.agents ++ t.queued.map Loan.request ++ t.unreported ++
        t.refused.map Prod.fst)) = some ([some [97], none], [2]) := by
    decide +kernel
  obtain ⟨t, u, ht, hu, -, -, hcells, -⟩ := sends_run .dotted Format.msgpack.toReader events hp
  rw [ht, Option.map_some, Option.some.injEq, Prod.mk.injEq] at hs
  refine ⟨t, u, ht, hu, hs.1, ?_⟩
  rw [owned, Multiset.coe_add, Multiset.coe_add, Multiset.coe_add, hs.2] at hcells
  exact hcells

end Process
end AeProxy.Proxy.UdpProxy
