import AeProxy.Proxy.Framing
import AeProxy.Proxy.Symmetry

/-! The proxy between the bytes of its clients and what it writes to them: the message of a bind,
once its server is reached. To a server it writes nothing. -/
namespace AeProxy.Proxy.TcpProxy
open Lib

/-- A chunk that binds, what the callback of its agent has captured of it, and what
`uv_tcp_connect` then returned. -/
structure Binding where
  client : Nat
  data : List UInt8
  request : Request
  accepted : Bool

/-- A call of `uv_write`, from the callback of an agent. -/
structure Answer where
  agent : Nat
  client : Nat
  message : Text
  deriving DecidableEq

structure Service where
  relay : Relay
  bindings : List Binding
  answers : List Answer

namespace Service

inductive Event where
  | message (client : Nat) (mem : Memory) (data : List UInt8) (accepted : Bool)
  | server (event : TcpServer.Event)
  | agent (agent : Nat) (event : TcpClient.Event)

def new (onConnectClose : Bool) : Service := ⟨.new onConnectClose, [], []⟩

/-- A chunk is an event of its own. -/
def speaks : TcpServer.Event → Bool
  | .read _ .data => true
  | _ => false

def setRelay (self : Service) (relay : Relay) : Service := { self with relay := relay }

/-- The message callback. -/
def onMessage (self : Service) (c : Nat) (data : List UInt8) (request : Request)
    (accepted : Bool) : Option Service :=
  if request.command = 0 then
    (Relay.step self.relay (.bind c accepted)).map fun relay =>
      { self with relay := relay, bindings := self.bindings ++ [⟨c, data, request, accepted⟩] }
  else (Relay.step self.relay (.server (.read c .data))).map self.setRelay

/-- What the callback of an agent writes; the agent keeps it, and with it the message. -/
def onConnectStatus (self : Service) (i : Nat) : TcpClient.ConnectStatus → List Answer
  | .connectSuccess =>
    match self.bindings[i]? with
    | some binding =>
      if (self.relay.client i).connected then
        [⟨i, (self.relay.agent i).client, binding.request.message⟩]
      else []
    | none => []
  | _ => []

def onAction (self : Service) (i : Nat) : TcpClient.Action → List Answer
  | .status _ status => self.onConnectStatus i status
  | _ => []

def step (unpacker : Unpacker) : Step Service Event := fun self event =>
  match event with
  | .message c mem data accepted =>
    if (self.relay.server.connection c).onMessageCallback && self.relay.server.onMessageCallback then
      self.onMessage c data (unpack mem (unpacker.objects data)) accepted
    else (Relay.step self.relay (.server (.read c .data))).map self.setRelay
  | .server event =>
    if speaks event then none else (Relay.step self.relay (.server event)).map self.setRelay
  | .agent i event =>
    (Relay.step self.relay (.agent i event)).bind fun relay =>
      (TcpClient.step (self.relay.agent i).link event).map fun (_, out) =>
        { self with relay := relay, answers := self.answers ++ out.flatMap (self.onAction i) }

/-- No name is accepted that still has an entry. -/
def Clear (s : Service) : Event → Prop
  | .server (.accept name) => s.relay.server.getConnection name = none
  | _ => True

/-- The client of a connection has gone, or is being closed. -/
structure Fades (s t : TcpServer) (c : Nat) : Prop where
  connected : (s.connection c).connected = false → (t.connection c).connected = false
  shut : (s.connection c).handle ≠ .opened → (t.connection c).handle ≠ .opened

theorem preserved_gone (c : Nat) : TcpServer.Preserved
    (TcpServer.Every fun d connection => d = c → connection.connected = false) := by
  apply TcpServer.preserved_every
  · intro d connection callback h hd
    by_cases ho : connection.handle = .opened
    · rw [TcpConnection.close_of_opened ho]
      exact h hd
    · rw [TcpConnection.close_of_not_opened ho]
      exact h hd
  · exact fun _ _ _ _ => rfl
  · exact fun _ _ _ h => h

theorem fades_of_step {s t : TcpServer} {event : TcpServer.Event} {c : Nat} (hc : c < s.accepted)
    (h : TcpServer.step s event = some t) : Fades s t c := by
  have hne : s.accepted ≠ c := Nat.ne_of_gt hc
  constructor
  · intro hgone
    have hs : TcpServer.Every (fun d connection => d = c → connection.connected = false) s :=
      fun d hd => hd ▸ hgone
    exact (preserved_gone c).step hs (fun _ _ => hs.accept fun hd => absurd hd hne) h c rfl
  · intro hshut
    have hs : TcpServer.Every (fun d connection => d = c → connection.handle ≠ .opened) s :=
      fun d hd => hd ▸ hshut
    exact (TcpServer.preserved_shut c).step hs (fun _ _ => hs.accept fun hd => absurd hd hne) h c rfl

theorem fades_closeHandle (s : TcpServer) (c d : Nat) (callback : Option TcpServer.CloseCallback) :
    Fades s (s.closeHandle d callback) c := by
  constructor
  · intro hgone
    have hs : TcpServer.Every (fun d connection => d = c → connection.connected = false) s :=
      fun d hd => hd ▸ hgone
    exact (preserved_gone c).closeHandle hs d callback c rfl
  · intro hshut
    have hs : TcpServer.Every (fun d connection => d = c → connection.handle ≠ .opened) s :=
      fun d hd => hd ▸ hshut
    exact (TcpServer.preserved_shut c).closeHandle hs d callback c rfl

/-- The callback of an agent has written to its client. -/
def Answered (s : Service) (i : Nat) : Prop := ∃ answer ∈ s.answers, answer.agent = i

/-- How far the answer to a bind has come, by how far its agent has. -/
inductive Fate (s : Service) (i : Nat) (accepted : Bool) : TcpClient.Stage → Prop
  | refused (ha : accepted = false) (hn : ¬ s.Answered i) : Fate s i accepted .refused
  | waiting (ha : accepted = true) (hn : ¬ s.Answered i) : Fate s i accepted .waiting
  | failing (ha : accepted = true) (hn : ¬ s.Answered i) : Fate s i accepted .failing
  | linked {stage : TcpClient.Stage} (hs : stage = .up ∨ stage = .closing .onClose)
      (ha : accepted = true) (hw : (s.relay.client i).connected = true → s.Answered i) :
      Fate s i accepted stage
  | parted (hc : (s.relay.client i).handle ≠ .opened) : Fate s i accepted .ended

/-- What is recorded of the binds is what has been made of them. -/
structure Kept (unpacker : Unpacker) (s : Service) : Prop where
  length : s.bindings.length = s.relay.agents
  binding : ∀ i binding, s.bindings[i]? = some binding →
    binding.client = (s.relay.agent i).client ∧ binding.request.command = 0 ∧
      ∃ mem, unpack mem (unpacker.objects binding.data) = binding.request
  fate : ∀ i binding, s.bindings[i]? = some binding → ∃ stage,
    TcpClient.Live (s.relay.agent i).link stage ∧ Fate s i binding.accepted stage
  nodup : (s.answers.map Answer.agent).Nodup
  answer : ∀ answer ∈ s.answers, ∃ binding, s.bindings[answer.agent]? = some binding ∧
    binding.accepted = true ∧ answer.client = binding.client ∧
      answer.message = binding.request.message

section kept
variable {unpacker : Unpacker} {s t : Service} {i : Nat} {accepted : Bool}
  {stage : TcpClient.Stage}

/-- Of the client and the answers of the agent, nothing has got better. -/
theorem Fate.mono (h : Fate s i accepted stage) (ha : t.Answered i ↔ s.Answered i)
    (hc : (t.relay.agent i).client = (s.relay.agent i).client)
    (hf : Fades s.relay.server t.relay.server (s.relay.agent i).client) :
    Fate t i accepted stage := by
  have hclient : t.relay.client i = t.relay.server.connection (s.relay.agent i).client :=
    congrArg t.relay.server.connection hc
  cases h with
  | refused haccepted hn => exact .refused haccepted fun h => hn (ha.mp h)
  | waiting haccepted hn => exact .waiting haccepted fun h => hn (ha.mp h)
  | failing haccepted hn => exact .failing haccepted fun h => hn (ha.mp h)
  | linked hs haccepted hw =>
    refine .linked hs haccepted fun hconnected => ha.mpr (hw ?_)
    rw [hclient] at hconnected
    by_contra hgone
    rw [hf.connected (Bool.eq_false_iff.mpr hgone)] at hconnected
    cases hconnected
  | parted hshut =>
    refine .parted ?_
    rw [hclient]
    exact hf.shut hshut

theorem Kept.lt (h : Kept unpacker s) {binding : Binding} (hb : s.bindings[i]? = some binding) :
    i < s.relay.agents := by
  obtain ⟨hlt, -⟩ := List.getElem?_eq_some_iff.mp hb
  exact h.length ▸ hlt

/-- No bind is made, and one is answered at most. -/
theorem Kept.next (h : Kept unpacker s) {out : List Answer} (hb : t.bindings = s.bindings)
    (ha : t.relay.agents = s.relay.agents)
    (hc : ∀ i, i < s.relay.agents → (t.relay.agent i).client = (s.relay.agent i).client)
    (hanswers : t.answers = s.answers ++ out)
    (hout : out = [] ∨ ∃ answer binding, out = [answer] ∧ ¬ s.Answered answer.agent ∧
      s.bindings[answer.agent]? = some binding ∧ binding.accepted = true ∧
      answer.client = binding.client ∧ answer.message = binding.request.message)
    (hfate : ∀ i binding, s.bindings[i]? = some binding → ∃ stage,
      TcpClient.Live (t.relay.agent i).link stage ∧ Fate t i binding.accepted stage) :
    Kept unpacker t := by
  refine ⟨by rw [hb, ha, h.length], fun i binding hi => ?_, hb ▸ hfate, ?_, ?_⟩
  · rw [hb] at hi
    rw [hc i (h.lt hi)]
    exact h.binding i binding hi
  · rcases hout with rfl | ⟨answer, binding, rfl, hn, -⟩
    · rw [hanswers, List.append_nil]
      exact h.nodup
    · rw [hanswers, List.map_append, List.map_singleton, List.nodup_append]
      refine ⟨h.nodup, List.nodup_singleton _, fun i hi j hj => ?_⟩
      obtain rfl := List.mem_singleton.mp hj
      rintro rfl
      exact hn (List.mem_map.mp hi)
  · rw [hb]
    rcases hout with rfl | ⟨answer, binding, rfl, -, hanswer⟩
    · rw [hanswers, List.append_nil]
      exact h.answer
    · intro answer' hm
      rw [hanswers] at hm
      rcases List.mem_append.mp hm with hm | hm
      · exact h.answer answer' hm
      · obtain rfl := List.mem_singleton.mp hm
        exact ⟨binding, hanswer⟩

theorem Kept.server (h : Kept unpacker s) (hw : s.relay.Wired) {event : TcpServer.Event}
    {server : TcpServer} (hs : TcpServer.step s.relay.server event = some server) :
    Kept unpacker (s.setRelay { s.relay with server := server }) := by
  refine h.next rfl rfl (fun _ _ => rfl) (List.append_nil _).symm (.inl rfl) fun i binding hi => ?_
  obtain ⟨stage, hl, hfate⟩ := h.fate i binding hi
  exact ⟨stage, hl, hfate.mono Iff.rfl rfl (fades_of_step (hw.client i (h.lt hi)) hs)⟩

/-- The next agent has answered nothing yet. -/
theorem Kept.bind (h : Kept unpacker s) {c : Nat} {data : List UInt8} {request : Request}
    (hr : request.command = 0) (hu : ∃ mem, unpack mem (unpacker.objects data) = request)
    (action : TcpServer.Action) (accepted : Bool) :
    Kept unpacker { s with
      relay := { s.relay with server := s.relay.server.emit action }.connectRealServer c accepted
      bindings := s.bindings ++ [⟨c, data, request, accepted⟩] } := by
  have hnew : ({ s.relay with server := s.relay.server.emit action }.connectRealServer c
      accepted).agent s.relay.agents = ⟨c, ((TcpClient.new true false).connect accepted).1⟩ :=
    Function.update_self ..
  have hold {i : Nat} (hi : i < s.relay.agents) :
      ({ s.relay with server := s.relay.server.emit action }.connectRealServer c accepted).agent i =
        s.relay.agent i := Function.update_of_ne (Nat.ne_of_lt hi) ..
  have hcases {i : Nat} {binding : Binding}
      (hi : (s.bindings ++ [⟨c, data, request, accepted⟩])[i]? = some binding) :
      s.bindings[i]? = some binding ∨ i = s.relay.agents ∧ binding = ⟨c, data, request, accepted⟩ := by
    rcases Nat.lt_or_ge i s.bindings.length with hlt | hge
    · rw [List.getElem?_append_left hlt] at hi
      exact .inl hi
    · rw [List.getElem?_append_right hge, List.getElem?_singleton] at hi
      obtain ⟨hzero, hb⟩ := Option.ite_none_right_eq_some.mp hi
      have hlen := h.length
      exact .inr ⟨by omega, (Option.some.inj hb).symm⟩
  have hanswered : ¬ s.Answered s.relay.agents := by
    rintro ⟨answer, hm, ha⟩
    obtain ⟨binding, hb, -⟩ := h.answer answer hm
    exact Nat.lt_irrefl _ (h.lt (ha ▸ hb))
  refine ⟨?_, fun i binding hi => ?_, fun i binding hi => ?_, h.nodup, fun answer hm => ?_⟩
  · rw [List.length_append, h.length]
    rfl
  · rcases hcases hi with hi | ⟨rfl, rfl⟩
    · rw [hold (h.lt hi)]
      exact h.binding i binding hi
    · rw [hnew]
      exact ⟨rfl, hr, hu⟩
  · rcases hcases hi with hi | ⟨rfl, rfl⟩
    · obtain ⟨stage, hl, hfate⟩ := h.fate i binding hi
      rw [hold (h.lt hi)]
      refine ⟨stage, hl, hfate.mono Iff.rfl (congrArg Agent.client (hold (h.lt hi))) ?_⟩
      exact ⟨fun h => h, fun h => h⟩
    · rw [hnew]
      refine ⟨_, (TcpClient.live_new false).connect accepted, ?_⟩
      cases accepted with
      | true => exact .waiting rfl hanswered
      | false => exact .refused rfl hanswered
  · obtain ⟨binding, hb, hanswer⟩ := h.answer answer hm
    obtain ⟨hlt, -⟩ := List.getElem?_eq_some_iff.mp hb
    exact ⟨binding, (List.getElem?_append_left hlt).trans hb, hanswer⟩

/-- Only the link of one agent moves, and the client of that agent may be closed. -/
theorem Kept.agent (h : Kept unpacker s) {i : Nat} {binding : Binding}
    (hi : s.bindings[i]? = some binding) {out : List Answer} (hb : t.bindings = s.bindings)
    (ha : t.relay.agents = s.relay.agents)
    (hc : ∀ j, (t.relay.agent j).client = (s.relay.agent j).client)
    (hlink : ∀ j, j ≠ i → (t.relay.agent j).link = (s.relay.agent j).link)
    (hf : ∀ c, Fades s.relay.server t.relay.server c)
    (hanswers : t.answers = s.answers ++ out)
    (hout : out = [] ∨ ¬ s.Answered i ∧ binding.accepted = true ∧
      out = [⟨i, binding.client, binding.request.message⟩])
    (hl : TcpClient.Live (t.relay.agent i).link stage) (hfate : Fate t i binding.accepted stage) :
    Kept unpacker t := by
  refine h.next hb ha (fun j _ => hc j) hanswers ?_ fun j other hj => ?_
  · refine hout.imp_right ?_
    rintro ⟨hn, haccepted, rfl⟩
    exact ⟨_, binding, rfl, hn, hi, haccepted, rfl, rfl⟩
  · by_cases hji : j = i
    · subst hji
      obtain rfl : binding = other := Option.some.inj (hi.symm.trans hj)
      exact ⟨stage, hl, hfate⟩
    · obtain ⟨stage, hl, hfate⟩ := h.fate j other hj
      rw [hlink j hji]
      refine ⟨stage, hl, hfate.mono ?_ (hc j) (hf _)⟩
      rw [Answered, Answered, hanswers]
      constructor
      · rintro ⟨answer, hm, he⟩
        rcases List.mem_append.mp hm with hm | hm
        · exact ⟨answer, hm, he⟩
        · rcases hout with rfl | ⟨-, -, rfl⟩
          · cases hm
          · obtain rfl := List.mem_singleton.mp hm
            exact absurd he.symm hji
      · rintro ⟨answer, hm, he⟩
        exact ⟨answer, List.mem_append_left _ hm, he⟩

theorem answered_of_append_nil (h : t.answers = s.answers ++ []) : t.Answered i ↔ s.Answered i := by
  rw [Answered, Answered, h, List.append_nil]

/-- The link moves, and nothing is reported. -/
theorem Kept.setLink (h : Kept unpacker s) {binding : Binding} (hi : s.bindings[i]? = some binding)
    {link : TcpClient} (hl : TcpClient.Live link stage) (hfate : Fate s i binding.accepted stage) :
    Kept unpacker { s with relay := s.relay.setLink i link, answers := s.answers ++ [] } := by
  have hsame (c : Nat) : Fades s.relay.server s.relay.server c := ⟨fun h => h, fun h => h⟩
  refine h.agent hi rfl rfl (fun j => Relay.setLink_client ..) (fun j hj => ?_) hsame rfl (.inl rfl)
    ?_ (hfate.mono (answered_of_append_nil rfl) (Relay.setLink_client ..) (hsame _))
  · exact congrArg Agent.link (Relay.setLink_of_ne _ hj _)
  · rwa [Relay.setLink_self]

/-- The server is reached. -/
theorem Kept.linked (h : Kept unpacker s) {binding : Binding} (hi : s.bindings[i]? = some binding)
    {link : TcpClient} (hl : TcpClient.Live link .up) (hfate : Fate s i binding.accepted .waiting) :
    Kept unpacker { s with
      relay := (s.relay.setLink i link).onConnectStatus i .connectSuccess
      answers := s.answers ++ s.onConnectStatus i .connectSuccess } := by
  have hsame (c : Nat) : Fades s.relay.server s.relay.server c := ⟨fun h => h, fun h => h⟩
  obtain ⟨haccepted, hn⟩ : binding.accepted = true ∧ ¬ s.Answered i := by
    cases hfate with
    | waiting haccepted hn => exact ⟨haccepted, hn⟩
    | linked hs => exact absurd hs (by simp)
  have hout : s.onConnectStatus i .connectSuccess = if (s.relay.client i).connected then
      [⟨i, binding.client, binding.request.message⟩] else [] := by
    rw [onConnectStatus, hi, (h.binding i binding hi).1]
  refine h.agent hi rfl rfl (fun j => Relay.setLink_client ..) (fun j hj => ?_) hsame rfl ?_ ?_
    (.linked (.inl rfl) haccepted fun hconnected => ?_)
  · exact congrArg Agent.link (Relay.setLink_of_ne _ hj _)
  · rw [hout]
    split
    next => exact .inr ⟨hn, haccepted, rfl⟩
    next => exact .inl rfl
  · exact (Relay.setLink_self s.relay i link).symm ▸ hl
  · have hclient : (s.relay.client i).connected = true := Relay.client_setLink s.relay i link i ▸ hconnected
    rw [Answered, hout, if_pos hclient]
    exact ⟨_, List.mem_append_right _ (List.mem_singleton.mpr rfl), rfl⟩

/-- The server is not reached, or is gone. -/
theorem Kept.parted (h : Kept unpacker s) {binding : Binding} (hi : s.bindings[i]? = some binding)
    {link : TcpClient} (hl : TcpClient.Live link .ended) (status : TcpClient.ConnectStatus)
    (hs : status ≠ .connectSuccess) :
    Kept unpacker { s with
      relay := (s.relay.setLink i link).onConnectStatus i status, answers := s.answers ++ [] } := by
  rw [Relay.onConnectStatus_of_ne hs, Relay.setLink_client]
  refine h.agent hi rfl rfl (fun j => Relay.setLink_client ..) (fun j hj => ?_)
    (fun c => fades_closeHandle ..) rfl (.inl rfl) ?_ (.parted ?_)
  · exact congrArg Agent.link (Relay.setLink_of_ne _ hj _)
  · exact (Relay.setLink_self s.relay i link).symm ▸ hl
  · have hshuts := TcpServer.Shuts.closeHandle s.relay.server (s.relay.agent i).client none
    show ((s.relay.server.closeHandle (s.relay.agent i).client none).connection
      ((s.relay.setLink i link).agent i).client).handle ≠ .opened
    rw [Relay.setLink_client, Ne, hshuts.opened]
    exact fun ho => ho.2 rfl

theorem Kept.step_agent (h : Kept unpacker s) {event : TcpClient.Event}
    (ht : step unpacker s (.agent i event) = some t) : Kept unpacker t := by
  obtain ⟨relay, hrelay, ht⟩ := Option.bind_eq_some_iff.mp ht
  obtain ⟨⟨link, out⟩, hs, rfl⟩ := Option.map_eq_some_iff.mp ht
  obtain ⟨⟨hi, hlinks⟩, hrelay⟩ := Option.ite_none_right_eq_some.mp hrelay
  rw [hs] at hrelay
  obtain rfl := Option.some.inj hrelay
  obtain ⟨binding, hb⟩ : ∃ binding, s.bindings[i]? = some binding :=
    ⟨_, List.getElem?_eq_getElem (h.length ▸ hi)⟩
  obtain ⟨stage, hl, hfate⟩ := h.fate i binding hb
  have hconnect (accepted : Bool) : event ≠ .connect accepted := by
    rintro rfl
    exact Bool.noConfusion hlinks
  obtain ⟨stage', hm, hl'⟩ := hl.step hconnect hs
  have hl' : TcpClient.Live link stage' := hl'
  cases hm with
  | connected =>
    show Kept unpacker { s with
      relay := (s.relay.setLink i link).onConnectStatus i .connectSuccess
      answers := s.answers ++ (s.onConnectStatus i .connectSuccess ++ []) }
    rw [List.append_nil]
    exact h.linked hb hl' hfate
  | failed =>
    cases hfate with
    | waiting haccepted hn => exact h.setLink hb hl' (.failing haccepted hn)
    | linked hstage => exact absurd hstage (by simp)
  | reported => exact h.parted hb hl' .connectFail nofun
  | message => exact h.setLink hb hl' hfate
  | lost he =>
    cases hfate with
    | linked hstage haccepted hw => exact h.setLink hb hl' (.linked (.inr rfl) haccepted hw)
  | close | closeAgain | closeIdle => exact Bool.noConfusion hlinks
  | closedByPeer => exact h.parted hb hl' .connectClose nofun
  | closedByUser callback =>
    cases hfate with
    | linked hstage => exact absurd hstage (by simp)
  | silent stage he => exact h.setLink hb hl' hfate

/-- The event of the proxy that an event of its service is. -/
theorem relay_of_step {event : Event} (ht : step unpacker s event = some t) :
    ∃ event', Relay.step s.relay event' = some t.relay ∧ (Clear s event → s.relay.Clear event') := by
  have hmap {event' : Relay.Event} (h : (Relay.step s.relay event').map s.setRelay = some t)
      (hc : Clear s event → s.relay.Clear event') :
      ∃ event', Relay.step s.relay event' = some t.relay ∧
        (Clear s event → s.relay.Clear event') := by
    obtain ⟨relay, hrelay, rfl⟩ := Option.map_eq_some_iff.mp h
    exact ⟨event', hrelay, hc⟩
  cases event with
  | message c mem data accepted =>
    rw [step, onMessage] at ht
    split at ht
    · split at ht
      · obtain ⟨relay, hrelay, rfl⟩ := Option.map_eq_some_iff.mp ht
        exact ⟨_, hrelay, fun _ => trivial⟩
      · exact hmap ht fun _ => trivial
    · exact hmap ht fun _ => trivial
  | server event =>
    obtain ⟨-, ht⟩ := Option.ite_none_left_eq_some.mp ht
    refine hmap ht fun hc => ?_
    cases event with
    | accept name => exact hc
    | _ => exact trivial
  | agent i event =>
    obtain ⟨relay, hrelay, ht⟩ := Option.bind_eq_some_iff.mp ht
    obtain ⟨⟨link, out⟩, -, rfl⟩ := Option.map_eq_some_iff.mp ht
    exact ⟨_, hrelay, fun _ => trivial⟩

theorem Kept.step_server (h : Kept unpacker s) (hw : s.relay.Wired) {event : TcpServer.Event}
    (ht : (Relay.step s.relay (.server event)).map s.setRelay = some t) : Kept unpacker t := by
  obtain ⟨relay, hrelay, rfl⟩ := Option.map_eq_some_iff.mp ht
  cases hw.does_of_step hrelay with
  | server hserves hs => exact h.server hw hs

theorem Kept.step (h : Kept unpacker s) (hw : s.relay.Wired) {event : Event}
    (ht : Service.step unpacker s event = some t) : Kept unpacker t := by
  cases event with
  | message c mem data accepted =>
    rw [Service.step, onMessage] at ht
    split at ht
    · split at ht
      next hr =>
        obtain ⟨relay, hrelay, rfl⟩ := Option.map_eq_some_iff.mp ht
        cases hw.does_of_step hrelay with
        | bind accepted hc ho => exact h.bind hr ⟨mem, rfl⟩ _ accepted
      next => exact h.step_server hw ht
    · exact h.step_server hw ht
  | server event =>
    obtain ⟨-, ht⟩ := Option.ite_none_left_eq_some.mp ht
    exact h.step_server hw ht
  | agent i event => exact h.step_agent ht

theorem kept_new (onConnectClose : Bool) : Kept unpacker (new onConnectClose) :=
  ⟨rfl, nofun, nofun, List.nodup_nil, nofun⟩

/-- Where libuv has nothing left to complete, a client that is still connected has its answer. -/
theorem Kept.answered_iff (h : Kept unpacker s) (hs : s.relay.Settled) {binding : Binding}
    (hi : s.bindings[i]? = some binding)
    (ho : (s.relay.server.connection binding.client).handle = .opened)
    (hc : (s.relay.server.connection binding.client).connected = true) :
    s.Answered i ↔ binding.accepted = true := by
  obtain ⟨stage, hl, hfate⟩ := h.fate i binding hi
  obtain ⟨hconnecting, hclosing, -⟩ := hs.links i (h.lt hi) (s.relay.agent i).link.socket_
  rw [(h.binding i binding hi).1] at ho hc
  cases hfate with
  | refused ha hn => exact iff_of_false hn (Bool.eq_false_iff.mp ha)
  | waiting => exact Bool.noConfusion (hconnecting.symm.trans hl.shape.1)
  | failing => exact absurd hl.handle_eq hclosing
  | linked hstage ha hw => exact iff_of_true (hw hc) ha
  | parted hshut => exact absurd ho hshut

end kept

/-- Where the fourth object is a string, it is the message. -/
theorem unpack_message {mem : Memory} {objs : List Object} {message : Text}
    (h : objs[3]? = some (.str message)) : (unpack mem objs).message = message := by
  obtain ⟨a, b, c, d, rest, rfl⟩ : ∃ a b c d rest, objs = a :: b :: c :: d :: rest := by
    match objs with
    | a :: b :: c :: d :: rest => exact ⟨a, b, c, d, rest, rfl⟩
    | [] | [_] | [_, _] | [_, _, _] => cases h
  obtain rfl : d = .str message := Option.some.inj h
  rw [unpack_four]
  rfl

theorem run_kept (unpacker : Unpacker) (onConnectClose : Bool) (events : List Event) {t : Service}
    (hc : (step unpacker).Throughout Clear (new onConnectClose) events)
    (ht : (step unpacker).run (new onConnectClose) events = some t) :
    Kept unpacker t ∧ t.relay.Wired ∧ t.relay.server.Registered := by
  refine Step.run_invariant_of
    (I := fun s => Kept unpacker s ∧ s.relay.Wired ∧ s.relay.server.Registered) ?_
    ⟨kept_new onConnectClose, Relay.wired_new onConnectClose,
      TcpServer.registered_listening _ _⟩ hc ht
  rintro s event t ⟨h, hw, hr⟩ hc ht
  obtain ⟨event', hrelay, hclear⟩ := relay_of_step ht
  exact ⟨h.step hw ht, hw.step hrelay, (hw.registered hr hrelay).mpr (hclear hc)⟩

/-- While no name is accepted that still has an entry: whatever the clients send and however the
servers behave, all that is written to a client is for a bind of its own, once for each at most: the
fourth object of the bind, if that is a string. A client that is not closed is what its name finds.
When libuv has nothing left to complete, of the binds of a client that is still connected those are
answered whose connecting `uv_tcp_connect` took on. -/
theorem bind_answered (unpacker : Unpacker) (onConnectClose : Bool) (events : List Event)
    {t : Service} (hc : (step unpacker).Throughout Clear (new onConnectClose) events)
    (ht : (step unpacker).run (new onConnectClose) events = some t) :
    (t.answers.map Answer.agent).Nodup ∧
    (∀ answer ∈ t.answers, ∃ binding, t.bindings[answer.agent]? = some binding ∧
      answer.client = binding.client ∧ binding.request.command = 0 ∧
      (∃ mem, unpack mem (unpacker.objects binding.data) = binding.request) ∧
      ∀ message, (unpacker.objects binding.data)[3]? = some (.str message) →
        answer.message = message) ∧
    (∀ binding ∈ t.bindings, (t.relay.server.connection binding.client).handle ≠ .closed →
      t.relay.server.getConnection (t.relay.server.connection binding.client).name =
        some binding.client) ∧
    (t.relay.Settled → ∀ i binding, t.bindings[i]? = some binding →
      (t.relay.server.connection binding.client).handle = .opened →
      (t.relay.server.connection binding.client).connected = true →
      ((∃ answer ∈ t.answers, answer.agent = i) ↔ binding.accepted = true)) := by
  obtain ⟨h, -, hr⟩ := run_kept unpacker onConnectClose events hc ht
  refine ⟨h.nodup, fun answer hm => ?_, fun binding _ => hr binding.client,
    fun hs i binding hi ho hc => h.answered_iff hs hi ho hc⟩
  obtain ⟨binding, hb, -, hclient, hmessage⟩ := h.answer answer hm
  obtain ⟨-, hcommand, hread⟩ := h.binding _ _ hb
  refine ⟨binding, hb, hclient, hcommand, hread, fun message hobj => ?_⟩
  obtain ⟨mem, hread⟩ := hread
  rw [hmessage, ← hread, unpack_message hobj]

/-- A client binds twice, and the second server is not reached yet. -/
theorem bind_answered_hello :
    let bind : Event :=
      .message 0 ⟨0, 0, fun _ => 0, fun _ => []⟩ (Framing.hello.encode Format.msgpack) true
    let events : List Event :=
      [.server (.accept "client"), bind, bind, .agent 0 (.connectDone 0 true)]
    ∃ t, (step Format.msgpack.toReader).run (new true) events = some t ∧
      t.answers = [⟨0, 0, Framing.hello.message⟩] ∧ (t.answers.map Answer.agent).Nodup := by
  intro bind events
  have hs : ((step Format.msgpack.toReader).run (new true) events).map Service.answers =
      some [⟨0, 0, Framing.hello.message⟩] := by decide +kernel
  obtain ⟨t, ht, hanswers⟩ := Option.map_eq_some_iff.mp hs
  have hc : (step Format.msgpack.toReader).Throughout Clear (new true) events :=
    .cons rfl rfl (Step.throughout_of_forall fun event hm s => by
      simp only [List.mem_cons, List.not_mem_nil, or_false] at hm
      rcases hm with rfl | rfl | rfl <;> exact trivial)
  exact ⟨t, ht, hanswers, (bind_answered Format.msgpack.toReader true events hc ht).1⟩

end Service

end AeProxy.Proxy.TcpProxy
