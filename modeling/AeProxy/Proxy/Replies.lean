import AeProxy.Proxy.UdpMemory

/-! Who can answer a client: an agent's socket takes a datagram from any sender, the callback looks
only at its bytes, and these are lent to libuv for as long as the callback runs. -/
namespace AeProxy.Proxy.UdpProxy.Process
open Lib

/-- Of an answer that has gone out, the bytes are what the agent's real server has sent it. -/
def Genuine (inet : Inet) (departure : Departure) : Prop :=
  ∀ answer, departure.answer = some answer →
    answer.sender = (departure.send.agent.sa inet).ipv4 ∧ departure.data = some answer.data

/-- An answer goes out during the call only if it is from the agent's real server, and later not at
all. -/
def FromServer (inet : Inet) (self : Process) : Event → Prop
  | .arrive (.agent agent sender data) .atOnce => data ≠ [] → ∀ a,
    self.agents[agent]?.bind self.agentAt = some a → sender = (a.sa inet).ipv4
  | .flush loan => ∀ loan', self.queued[loan]? = some loan' → loan'.answer = none
  | _ => True

/-- What a call leads to while it runs. -/
def Outcome.departs (departure : Departure) : Outcome → List Departure
  | .atOnce => [departure]
  | _ => []

section departed
variable {inet : Inet} {unpacker : Unpacker} {s t : Process} {u : State} {a base : Nat}
  {agent : UdpAgent} {addr : SockaddrIn} {answer : Option Answer} {outcome : Outcome}

theorem departed_release (h : s.release a = some t) : t.departed = s.departed := by
  obtain ⟨heap, -, rfl⟩ := Option.map_eq_some_iff.mp h
  rfl

theorem departed_getAgent (s : Process) (cip : Text) (cport : Int32) (sip : Text) (sport : Int32) :
    (s.getAgent cip cport sip sport).1.departed = s.departed := by
  unfold getAgent
  split
  · rfl
  · rfl

theorem departed_send (h : s.send agent addr base answer outcome = some t) :
    ∃ buf, s.bytesAt base = some buf ∧ t.departed =
      s.departed ++ Outcome.departs ⟨⟨agent, addr, buf⟩, answer, false, some buf⟩ outcome := by
  obtain ⟨buf, hb, rfl⟩ := Option.map_eq_some_iff.mp h
  refine ⟨buf, hb, ?_⟩
  cases outcome with
  | atOnce =>
    have hkept := keepsBytes_allocate s .request base buf hb
    exact congrArg (fun data => s.departed ++ [⟨⟨agent, addr, buf⟩, answer, false, data⟩]) hkept
  | refused => exact (List.append_nil _).symm
  | queued => exact (List.append_nil _).symm

/-- A request is no answer. -/
theorem departed_forward {peer : SocketAddr} {request : Request}
    (h : s.forward inet peer request outcome = some t) :
    ∃ departure : Departure, departure.answer = none ∧
      t.departed = s.departed ++ Outcome.departs departure outcome := by
  obtain ⟨u, hu, ht⟩ := Option.bind_eq_some_iff.mp h
  obtain ⟨agent, -, hu⟩ := Option.bind_eq_some_iff.mp hu
  obtain ⟨buf, -, hd⟩ := departed_send hu
  have hg := departed_getAgent (s.allocate (.bytes request.message)).1 (cStr peer.ip)
    (Int32.ofNat peer.port.toNat) (cStr request.ip) request.port
  exact ⟨⟨⟨agent, _, buf⟩, none, false, some buf⟩, rfl,
    (departed_release ht).trans (hd.trans (congrArg (· ++ _) hg))⟩

theorem departed_onMesageReceive {data : List UInt8} {onMessage : Process → Nat → Option Process}
    (h : s.onMesageReceive data onMessage = some t) :
    data = [] ∧ t.departed = s.departed ∨ data ≠ [] ∧
      ∃ u, onMessage (s.allocate (.bytes data)).1 s.heap.next = some u ∧ t.departed = u.departed := by
  obtain ⟨u, hu, ht⟩ := Option.bind_eq_some_iff.mp h
  rw [departed_release ht]
  split at hu
  · rename_i hd
    obtain rfl := Option.some.inj hu
    exact .inl ⟨hd, rfl⟩
  · rename_i hd
    exact .inr ⟨hd, u, hu, rfl⟩

theorem possible_of_step {event : Event} (h : step inet unpacker s event = some t) :
    s.Possible event := by
  match event with
  | .arrive (.client _ _ _) _ => exact trivial
  | .arrive (.agent _ _ _) _ =>
    obtain ⟨_, hi, -⟩ := Option.bind_eq_some_iff.mp h
    exact (List.getElem?_eq_some_iff.mp hi).1
  | .flush _ =>
    obtain ⟨_, hi, -⟩ := Option.map_eq_some_iff.mp h
    exact (List.getElem?_eq_some_iff.mp hi).1
  | .report _ =>
    obtain ⟨_, hi, -⟩ := Option.bind_eq_some_iff.mp h
    exact (List.getElem?_eq_some_iff.mp hi).1

theorem Represents.agent_of_getElem? (h : Represents s u 0) {i : Nat} (hi : s.agents[i]? = some a) :
    ∃ agent, s.agentAt a = some agent := by
  have hm := List.mem_map_of_mem (f := s.agentAt) (List.mem_of_getElem? hi)
  rw [h.agents] at hm
  obtain ⟨agent, -, ha⟩ := List.mem_map.mp hm
  exact ⟨agent, ha.symm⟩

theorem agentAt_allocate (h : s.agentAt a = some agent) (cell : Cell) :
    (s.allocate cell).1.agentAt a = some agent := by
  rw [agentAt_eq_some] at h ⊢
  exact ((Heap.moves_new s.heap cell).read_eq h (Finset.notMem_empty a)).2

theorem genuine_of_request {departure : Departure} (h : departure.answer = none) :
    Genuine inet departure := by
  intro answer ha
  rw [h] at ha
  cases ha

/-- What goes out with a step is genuine exactly if the step meets the condition. -/
theorem step_departed {event : Event} (hr : Represents s u 0)
    (h : step inet unpacker s event = some t) : ∃ departures, t.departed = s.departed ++ departures ∧
      ((∀ departure ∈ departures, Genuine inet departure) ↔ FromServer inet s event) := by
  have hnone : ∀ departure ∈ ([] : List Departure), Genuine inet departure :=
    fun _ hm => absurd hm List.not_mem_nil
  match event with
  | .arrive (.client peer mem data) outcome =>
    replace h : s.onMesageReceive data (fun self base => (self.bytesAt base).bind fun data =>
      self.forward inet (.ofSockaddr inet peer) (unpack mem (unpacker.objects data)) outcome) =
        some t := h
    rcases departed_onMesageReceive h with ⟨-, hd⟩ | ⟨-, v, hv, hd⟩
    · exact ⟨[], hd.trans (List.append_nil _).symm, iff_of_true hnone trivial⟩
    · obtain ⟨_, -, hv⟩ := Option.bind_eq_some_iff.mp hv
      obtain ⟨departure, hanswer, hv⟩ := departed_forward hv
      refine ⟨_, hd.trans hv, iff_of_true (fun d hm => ?_) trivial⟩
      cases outcome with
      | atOnce =>
        obtain rfl := List.mem_singleton.mp hm
        exact genuine_of_request hanswer
      | refused => cases hm
      | queued => cases hm
  | .arrive (.agent i sender data) outcome =>
    obtain ⟨a, hi, h⟩ := Option.bind_eq_some_iff.mp h
    rcases departed_onMesageReceive h with ⟨hnil, hd⟩ | ⟨hne, v, hv, hd⟩
    · refine ⟨[], hd.trans (List.append_nil _).symm, iff_of_true hnone ?_⟩
      cases outcome with
      | atOnce => exact fun hne => absurd hnil hne
      | refused => exact trivial
      | queued => exact trivial
    · obtain ⟨agent, hagent, hv⟩ := Option.bind_eq_some_iff.mp hv
      obtain ⟨buf, hbuf, hv⟩ := departed_send hv
      have hb : (s.allocate (.bytes data)).1.bytesAt s.heap.next = some data :=
        bytesAt_eq_some.mpr (Heap.read_new ..)
      obtain rfl : data = buf := Option.some.inj (hb.symm.trans hbuf)
      obtain ⟨agent', hagent'⟩ := hr.agent_of_getElem? hi
      obtain rfl : agent = agent' :=
        Option.some.inj (hagent.symm.trans (agentAt_allocate hagent' (.bytes data)))
      refine ⟨_, hd.trans hv, ?_⟩
      cases outcome with
      | atOnce =>
        rw [Outcome.departs, List.forall_mem_singleton, FromServer, hi, Option.bind_some, hagent']
        simp only [Genuine, Option.some.injEq, forall_eq', and_true]
        exact ⟨fun hg _ => hg, fun hf => hf hne⟩
      | refused => exact iff_of_true hnone trivial
      | queued => exact iff_of_true hnone trivial
  | .flush k =>
    obtain ⟨loan, hl, rfl⟩ := Option.map_eq_some_iff.mp h
    have hgone : s.bytesAt loan.base = none := by
      rw [bytesAt, (hr.lent loan (List.mem_of_getElem? hl)).2.resolve_left (Multiset.notMem_zero _)]
    refine ⟨_, rfl, List.forall_mem_singleton.trans ?_⟩
    simp only [FromServer, hl, Option.some.injEq, forall_eq', hgone]
    constructor
    · intro hg
      cases hanswer : loan.answer with
      | none => rfl
      | some answer => cases (hg answer hanswer).2
    · exact fun hanswer => genuine_of_request hanswer
  | .report k =>
    obtain ⟨request, -, h⟩ := Option.bind_eq_some_iff.mp h
    exact ⟨[], (departed_release h).trans (List.append_nil _).symm, iff_of_true hnone trivial⟩

end departed

/-- In every run: in all states along it the answers that have gone out are what the agents' real
servers have sent, exactly if libuv sends an answer during the call only where it is from the agent's
real server, and sends none that it has queued. -/
theorem genuine_iff_fromServer (inet : Inet) (unpacker : Unpacker) (events : List Event)
    {t : Process} (ht : (step inet unpacker).run new events = some t) :
    (∀ before later s, events = before ++ later → (step inet unpacker).run new before = some s →
      ∀ departure ∈ s.departed, Genuine inet departure) ↔
    (step inet unpacker).Throughout (FromServer inet) new events := by
  apply Step.prefixes_iff_throughout (I := fun s => ∃ u, Represents s u 0) ?_ ?_
    ⟨_, represents_new⟩ (fun _ hm => absurd hm List.not_mem_nil) ht
  · rintro s event t ⟨u, hr⟩ - - hst
    obtain ⟨t', v, ht', -, hr'⟩ := hr.step inet unpacker (possible_of_step hst)
    obtain rfl := Option.some.inj (ht'.symm.trans hst)
    exact ⟨v, hr'⟩
  · rintro s event t ⟨u, hr⟩ hs hst
    obtain ⟨departures, hd, hf⟩ := step_departed hr hst
    rw [hd, ← hf]
    constructor
    · exact fun h departure hm => h departure (List.mem_append_right _ hm)
    · intro h departure hm
      rcases List.mem_append.mp hm with hm | hm
      · exact hs departure hm
      · exact h departure hm

/-- `127.0.0.1:4444` asks for port 80 of `1.2.3.4`, which answers; the call for what a stranger sends
is refused. -/
theorem genuine_iff_fromServer_answer :
    let mem : Memory := ⟨0, 0, fun _ => 0, fun _ => []⟩
    let events : List Event := [.arrive (.client ⟨0x0100007f, 4444⟩ mem
      [167, 49, 46, 50, 46, 51, 46, 52, 80, 161, 97]) .queued, .flush 0,
      .arrive (.agent 0 ⟨0x04030201, 80⟩ [98]) .atOnce,
      .arrive (.agent 0 ⟨0x06060606, 6666⟩ [99]) .refused, .report 0]
    (∀ before later s, events = before ++ later →
      (step .dotted Format.msgpack.toReader).run new before = some s →
        ∀ departure ∈ s.departed, Genuine .dotted departure) ↔
    (step .dotted Format.msgpack.toReader).Throughout (FromServer .dotted) new events := by
  intro mem events
  have hs : ((step .dotted Format.msgpack.toReader).run new events).isSome = true := by
    decide +kernel
  obtain ⟨t, ht⟩ := Option.isSome_iff_exists.mp hs
  exact genuine_iff_fromServer _ _ _ ht

/-- The same request, answered by port 6666 of `6.6.6.6`. -/
theorem not_genuine_stranger :
    let mem : Memory := ⟨0, 0, fun _ => 0, fun _ => []⟩
    ∃ t, (step .dotted Format.msgpack.toReader).run new
      [.arrive (.client ⟨0x0100007f, 4444⟩ mem [167, 49, 46, 50, 46, 51, 46, 52, 80, 161, 97]) .atOnce,
        .arrive (.agent 0 ⟨0x06060606, 6666⟩ [98]) .atOnce] = some t ∧
      ∃ departure ∈ t.departed, ¬ Genuine .dotted departure := by
  refine ⟨_, rfl, _, List.mem_cons_of_mem _ (List.mem_singleton.mpr rfl), ?_⟩
  intro h
  have hport := congrArg SockaddrIn.sinPort (h _ rfl).1
  exact absurd hport (by decide)

end AeProxy.Proxy.UdpProxy.Process
