import Husarnet.Config.UserWhitelist
import Husarnet.NgSocket.PeriodicCalls
import Mathlib.Data.List.TakeWhile

/-! # Connections to the base server

Where a redirect leads, and what is written on a connection. A connection begins with the connect
that gives it and ends with the next close or connect; the HELLO frames that come on it count to it.
-/

namespace Husarnet
open Octets Runs
set_option autoImplicit false

namespace Node
variable (S : Sodium) (now : Time)

/-! ## Redirects -/

/-- There is a frame for the redirect, and the next connect after the message goes to its address. -/
def RedirectTakesEffect (n : Node) (address : InetAddress) : Prop :=
  (∃ frame, parseBaseToPeerMessage frame = .ok (.REDIRECT address)) ∧
    ∃ sent, (n.baseMessageReceivedTcp S now (.REDIRECT address)).1.sent = n.sent ++ sent ∧
      (connects sent).head? = some address

theorem parse_ne_redirect (frame : Bytes) (address : InetAddress) :
    parseBaseToPeerMessage frame ≠ .ok (.REDIRECT address) := by
  intro h
  cases BaseParsed.of_parse h

/-- A redirect connects to the first address of the list, on the port of the base server. -/
theorem redirect_connects (n : Node) (address : InetAddress) :
    ∃ sent, (n.baseMessageReceivedTcp S now (.REDIRECT address)).1.sent = n.sent ++ sent ∧
      connects sent = [⟨n.configManager.getBaseAddresses.headD default, BASESERVER_PORT⟩] := by
  refine ⟨_, congrArg Node.sent (connectToBase_eq S now _), ?_⟩
  have hfirst (addresses : List InternetAddress) :
      addresses.getD (0 % addresses.length) default = addresses.headD default := by
    rw [Nat.zero_mod]
    cases addresses with
    | nil => rfl
    | cons a addresses => rfl
  have htarget : ({ n with
      lastBaseTcpMessage := now
      lastBaseTcpAction := now
      baseConnectRetries := 0
      baseAddress := address } : Node).connectTarget =
        ⟨n.configManager.getBaseAddresses.headD default, BASESERVER_PORT⟩ := by
    rw [connectTarget, ← hfirst n.configManager.getBaseAddresses]
    rfl
  rw [connectSends, htarget]
  split
  · split
    · rfl
    · rfl
  · split
    · rfl
    · rfl

end Node

/-- **A redirect never takes effect.** No frame is parsed as one, and if there were one the connect would go
to the first configured address. -/
theorem redirect_without_effect (S : Sodium) (now : Time) (n : Node) (address : InetAddress) :
    ¬ n.RedirectTakesEffect S now address ∧ (∀ frame, parseBaseToPeerMessage frame ≠ .ok (.REDIRECT address)) ∧
      ∃ sent, (n.baseMessageReceivedTcp S now (.REDIRECT address)).1.sent = n.sent ++ sent ∧
        Node.connects sent = [⟨n.configManager.getBaseAddresses.headD default, BASESERVER_PORT⟩] := by
  refine ⟨?_, fun frame => Node.parse_ne_redirect frame address, Node.redirect_connects S now n address⟩
  rintro ⟨⟨frame, hframe⟩, -⟩
  exact Node.parse_ne_redirect frame address hframe

/-- A redirect to a base server that the configuration does not name. -/
theorem redirect_ignored : ¬ (openNode (clearIdentity 1)).RedirectTakesEffect clearSodium 0
    ⟨.parse (ascii "::ffff:0a00:0001"), 443⟩ := by
  rintro ⟨⟨frame, hframe⟩, -⟩
  exact Node.parse_ne_redirect frame _ hframe

/-! ## What is on a connection -/

/-- What happens to the connections of a node: one begins or ends, or a frame is on it. Of the frames of the
base only HELLO matters. -/
inductive LinkItem where
  | established
  | ended
  | hello (cookie : Bytes)
  | wrote (frame : Bytes)
  deriving DecidableEq

def LinkItem.OnConnection : LinkItem → Bool
  | .established | .ended => false
  | .hello _ | .wrote _ => true

/-- A connect gives a connection only when the base server is reached. -/
def sentItem (reachable : Bool) : Transmission → Option LinkItem
  | .tcpConnect _ => if reachable then some .established else none
  | .tcpClose => some .ended
  | .tcp frame => some (.wrote frame)
  | _ => none

def sentItems (reachable : Bool) (sent : List Transmission) : List LinkItem := sent.filterMap (sentItem reachable)

def helloItems : NodeEvent → List LinkItem
  | .tcpFrame data =>
    match parseBaseToPeerMessage data with
    | .ok (.HELLO cookie) => [.hello cookie.bytes]
    | _ => []
  | _ => []

/-- The items of an event: a HELLO comes before all that is sent for it. -/
def eventItems (x : Node × (Time × NodeEvent) × Node) : List LinkItem :=
  helloItems x.2.1.2 ++ sentItems x.1.baseReachable x.2.2.sent

def runItems (n₀ : Node) (run : List ((Time × NodeEvent) × Node)) : List LinkItem :=
  (transitions n₀ run).flatMap eventItems

/-- The connections, each with the frames on it. -/
def connectionsOf : List LinkItem → List (List LinkItem)
  | [] => []
  | .established :: items => items.takeWhile LinkItem.OnConnection :: connectionsOf items
  | _ :: items => connectionsOf items

def IsUserAgent (frame : Bytes) : Prop := frame.getD 0 0 = 4

/-- The cookie of a signed frame is behind its kind, the id and the key; DATA and USER_AGENT have none. -/
def frameCookie (frame : Bytes) : Option Bytes :=
  if frame.getD 0 0 = 1 ∨ frame.getD 0 0 = 4 then none else some (slice frame 49 16)

/-- A USER_AGENT frame is written, and every other frame has the cookie of a HELLO that came before it. -/
structure ProperConnection (c : List LinkItem) : Prop where
  agent : ∃ frame, .wrote frame ∈ c ∧ IsUserAgent frame
  cookies : ∀ pre frame post, c = pre ++ .wrote frame :: post → ¬ IsUserAgent frame →
    ∃ cookie, .hello cookie ∈ pre ∧ frameCookie frame = some cookie

/-- Frames come on the connection that there is. -/
def FramesOnConnections (n₀ : Node) (run : List ((Time × NodeEvent) × Node)) : Prop :=
  ∀ x ∈ transitions n₀ run, ∀ data, x.2.1.2 = .tcpFrame data → x.1.baseConnection = true

/-- Every USER_AGENT frame comes right behind the begin of its connection. -/
def AgentsFollow (items : List LinkItem) : Prop :=
  ∀ pre frame post, items = pre ++ .wrote frame :: post → IsUserAgent frame → ∃ before, pre = before ++ [.established]

namespace AgentsFollow

theorem of_none {items : List LinkItem} (h : ∀ frame, .wrote frame ∈ items → ¬ IsUserAgent frame) : AgentsFollow items := by
  rintro pre frame post rfl hf
  exact absurd hf (h frame (by simp))

theorem append {items more : List LinkItem} (h : AgentsFollow items) (h' : AgentsFollow more) :
    AgentsFollow (items ++ more) := by
  intro pre frame post he hf
  obtain ⟨mid, rfl, hm⟩ | ⟨mid, rfl, hm⟩ := List.append_eq_append_iff.mp he
  · obtain ⟨before, rfl⟩ := h' mid frame post hm hf
    exact ⟨items ++ before, by rw [List.append_assoc]⟩
  · cases mid with
    | nil =>
      obtain ⟨before, hb⟩ := h' [] frame post hm.symm hf
      exact absurd hb.symm (List.append_ne_nil_of_right_ne_nil before (List.cons_ne_nil _ []))
    | cons item mid =>
      obtain ⟨rfl, -⟩ := List.cons.inj hm
      exact h pre frame mid rfl hf

theorem begun (frame : Bytes) : AgentsFollow [.established, .wrote frame] := by
  intro pre frame' post he hf
  cases pre with
  | nil => cases he
  | cons item pre =>
    obtain ⟨rfl, he⟩ := List.cons.inj he
    cases pre with
    | nil => exact ⟨[], rfl⟩
    | cons item pre =>
      obtain ⟨-, he⟩ := List.cons.inj he
      cases pre with
      | nil => cases he
      | cons item pre => cases he

/-- On what is left of a connection there is no USER_AGENT frame. -/
theorem takeWhile {items : List LinkItem} (h : AgentsFollow items) {frame : Bytes}
    (hm : .wrote frame ∈ items.takeWhile LinkItem.OnConnection) : ¬ IsUserAgent frame := by
  intro hf
  obtain ⟨pre, post, hsplit⟩ := List.append_of_mem hm
  have hitems : items = pre ++ .wrote frame :: (post ++ items.dropWhile LinkItem.OnConnection) := by
    rw [← List.cons_append, ← List.append_assoc, ← hsplit, List.takeWhile_append_dropWhile]
  obtain ⟨before, rfl⟩ := h pre frame _ hitems hf
  have hbegin : LinkItem.established ∈ items.takeWhile LinkItem.OnConnection := by
    rw [hsplit]
    simp
  have hon := List.mem_takeWhile_imp hbegin
  cases hon

end AgentsFollow

/-! ## What a step writes -/

/-- What every step of a node does to its link: it sends, each USER_AGENT frame right behind its connect, and
without a cookie it writes no frame. -/
structure LinkStep (n n' : Node) : Prop where
  reachable : n'.baseReachable = n.baseReachable
  sends : ∃ added, n'.sent = n.sent ++ added ∧ AgentsFollow (sentItems n.baseReachable added) ∧
    (n'.cookie = [] → n.cookie = [] ∧ ∀ frame, .tcp frame ∉ added) ∧
    (n.baseConnection = false → .established ∉ sentItems n.baseReachable added → n'.baseConnection = false)

namespace LinkStep
variable {S : Sodium}

theorem of_link {n n' : Node} (h : n'.link = n.link) : LinkStep n n' := by
  have hsent : n'.sent = n.sent := congrArg LinkState.sent h
  have hcookie : n'.cookie = n.cookie := congrArg LinkState.cookie h
  have hconnection : n'.baseConnection = n.baseConnection := congrArg LinkState.baseConnection h
  refine ⟨congrArg LinkState.baseReachable h, [], by rw [hsent, List.append_nil], .of_none (by simp [sentItems]), ?_, ?_⟩
  · intro hk
    exact ⟨hcookie ▸ hk, by simp⟩
  · intro hc _
    rw [hconnection, hc]

/-- What does not go over TCP leaves the link alone. -/
theorem sends_other {n n' : Node} (added : List Transmission) (hs : n'.sent = n.sent ++ added)
    (h : { n'.link with sent := n.sent, calls := n.calls } = n.link)
    (hi : ∀ t ∈ added, sentItem n.baseReachable t = none) (hf : ∀ frame, .tcp frame ∉ added) : LinkStep n n' := by
  have hcookie : n'.cookie = n.cookie := congrArg LinkState.cookie h
  have hconnection : n'.baseConnection = n.baseConnection := congrArg LinkState.baseConnection h
  have hitems : sentItems n.baseReachable added = [] := List.filterMap_eq_nil_iff.mpr hi
  refine ⟨congrArg LinkState.baseReachable h, added, hs, ?_, fun hk => ⟨hcookie ▸ hk, hf⟩, fun hc _ => ?_⟩
  · rw [hitems]
    exact .of_none (by simp)
  · rw [hconnection, hc]

theorem refl (n : Node) : LinkStep n n := .of_link rfl

theorem trans {n n' n'' : Node} (h : LinkStep n n') (h' : LinkStep n' n'') : LinkStep n n'' := by
  obtain ⟨hr, added, hs, ha, hk, hc⟩ := h
  obtain ⟨hr', added', hs', ha', hk', hc'⟩ := h'
  rw [hr] at ha' hc'
  refine ⟨hr'.trans hr, added ++ added', by rw [hs', hs, List.append_assoc], ?_, ?_, ?_⟩
  · rw [sentItems, List.filterMap_append]
    exact ha.append ha'
  · intro hempty
    obtain ⟨hmid, hnone'⟩ := hk' hempty
    obtain ⟨hfirst, hnone⟩ := hk hmid
    refine ⟨hfirst, fun frame hm => ?_⟩
    exact (List.mem_append.mp hm).elim (hnone frame) (hnone' frame)
  · intro hclosed hb
    rw [sentItems, List.filterMap_append, List.mem_append, not_or] at hb
    exact hc' (hc hclosed hb.1) hb.2

theorem serialized_kind (b : BaseSession) {msg : PeerToBaseMessage} (hm : ∀ userAgent, msg ≠ .USER_AGENT userAgent) :
    ¬ IsUserAgent (serializePeerToBaseMessage S b msg) := by
  unfold IsUserAgent
  cases msg with
  | REQUEST_INFO _ => simp [serializePeerToBaseMessage, signedToBase]
  | DATA _ _ => simp [serializePeerToBaseMessage]
  | INFO => simp [serializePeerToBaseMessage, signedToBase]
  | NAT_INIT => simp [serializePeerToBaseMessage, signedToBase]
  | NAT_OK_CONFIRM => simp [serializePeerToBaseMessage, signedToBase]
  | NAT_INIT_TRANSIENT => simp [serializePeerToBaseMessage, signedToBase]
  | USER_AGENT userAgent => exact absurd rfl (hm userAgent)

theorem connectSends_agents (n : Node) : AgentsFollow (sentItems n.baseReachable n.connectSends) := by
  have hclose : AgentsFollow (sentItems n.baseReachable (if n.baseConnection then [.tcpClose] else [])) := by
    split
    · exact .of_none (by simp [sentItems, sentItem])
    · exact .of_none (by simp [sentItems])
  rw [Node.connectSends, sentItems, List.filterMap_append]
  refine hclose.append ?_
  cases hr : n.baseReachable with
  | true =>
    by_cases hk : n.cookie = []
    · rw [if_neg (by simp [hk])]
      exact .of_none (by simp [sentItem])
    · rw [if_pos ⟨rfl, hk⟩]
      exact .begun (Node.userAgentFrame n.userAgent)
  | false => exact .of_none (by simp [sentItem])

theorem of_connect (now : Time) (n : Node) : LinkStep n (n.connectToBase S now) := by
  rw [Node.connectToBase_eq]
  refine ⟨rfl, n.connectSends, rfl, connectSends_agents n, ?_, ?_⟩
  · intro hk
    have hempty : n.cookie = [] := hk
    have hsends : n.connectSends = (if n.baseConnection then [.tcpClose] else []) ++ [.tcpConnect n.connectTarget] := by
      simp [Node.connectSends, hempty]
    refine ⟨hk, fun frame hm => ?_⟩
    rw [hsends] at hm
    split at hm
    · simp at hm
    · simp at hm
  · intro _ hb
    cases hr : n.baseReachable with
    | true =>
      refine absurd ?_ hb
      rw [Node.connectSends, sentItems, List.filterMap_append, List.mem_append]
      exact Or.inr (by simp [hr, sentItem])
    | false => rfl

theorem of_socketMove {n n' : Node} {m : Move} (h : SocketMove S n m n') : LinkStep n n' := by
  cases h with
  | note h _ => exact .of_link (congrArg Lasting.link h)
  | udp _ dest data => exact .sends_other [.udp dest data] rfl rfl (by simp [sentItem]) (by simp)
  | multicast _ dest data => exact .sends_other [.multicast dest data] rfl rfl (by simp [sentItem]) (by simp)
  | toPeer _ dest msg _ => exact .sends_other [_] rfl rfl (by simp [sentItem]) (by simp)
  | answered _ source msg => exact .sends_other [_] rfl rfl (by simp [sentItem]) (by simp)
  | tcp _ msg hc hk hm =>
    refine ⟨rfl, [.tcp (serializePeerToBaseMessage S n.baseSession msg)], rfl, ?_, fun h => absurd h hk, ?_⟩
    · refine .of_none fun frame hf => ?_
      have hframe : frame = serializePeerToBaseMessage S n.baseSession msg := by simpa [sentItems, sentItem] using hf
      exact hframe ▸ serialized_kind n.baseSession hm
    · intro hclosed
      rw [hc] at hclosed
      cases hclosed
  | connected now _ => exact of_connect now n
  | disconnected now _ hc =>
    rw [Node.tcpClosed, if_pos hc]
    exact ⟨rfl, [.tcpClose], rfl, .of_none (by simp [sentItems, sentItem]), fun hk => ⟨hk, by simp⟩, fun _ _ => rfl⟩
  | container _ _ _ => exact .of_link rfl
  | sentData _ peer now _ => exact .sends_other [] (List.append_nil _).symm rfl (by simp) (by simp)
  | queued _ _ _ _ => exact .of_link rfl
  | claimed _ peer source _ => exact .of_link (Node.addSourceAddress_onlyPeers n peer source).link
  | attempted now _ peer =>
    obtain ⟨added, records, hn, hudp, -⟩ := Node.attemptReestablish_sent S now n peer
    rw [hn]
    refine .sends_other added rfl rfl (fun t ht => ?_) fun frame hm => ?_
    · obtain ⟨dest, data, rfl⟩ := hudp t ht
      rfl
    · obtain ⟨dest, data, he⟩ := hudp _ hm
      cases he
  | replied _ source myId yourId helloCookie =>
    exact .of_link (Node.helloReplyReceived_onlyPeers n source myId yourId helloCookie).link
  | confirmed now _ => exact ⟨rfl, [], (List.append_nil _).symm, .of_none (by simp [sentItems]), fun hk => ⟨hk, by simp⟩, fun hc _ => hc⟩
  | greeted _ cookie =>
    refine ⟨rfl, [], (List.append_nil _).symm, .of_none (by simp [sentItems]), fun hk => ?_, fun hc _ => hc⟩
    have hlength := cookie.size_eq
    have hempty : cookie.bytes = [] := hk
    rw [hempty] at hlength
    cases hlength
  | expired now _ peer _ => exact .of_link rfl

theorem of_nodeMove {n n' : Node} {m : NodeMove} (h : NodeMoves S n m n') (hm : m ≠ .outside) : LinkStep n n' := by
  cases h with
  | socket h => exact .of_socketMove h
  | layer _ => exact .of_link rfl
  | opened _ _ => exact .of_link rfl
  | tun packets => exact .sends_other (packets.map .tun) rfl rfl (by simp [sentItem]) (by simp)
  | reachable _ => exact absurd rfl hm

end LinkStep

/-! ## Runs -/

section Runs
variable {S : Sodium} {T : JsonText} {n n' : Node} {now : Time} {e : NodeEvent}

/-- **One event**, from a node that has sent nothing yet. -/
theorem act_linkStep (h : n.act S T now e = .ok n') (he : ∀ reachable, e ≠ .baseReachable reachable) : LinkStep n n' := by
  refine (Node.act_moves S T h).relates (R := LinkStep) .refl (fun _ _ _ => .trans) fun n₁ m n₂ hm hstep => ?_
  refine LinkStep.of_nodeMove hstep fun hout => ?_
  subst hout
  obtain ⟨reachable, rfl⟩ := hm
  exact he reachable rfl

/-- Only a frame of the base brings a cookie. -/
theorem act_cookie (h : n.act S T now e = .ok n') (he : ∀ data, e ≠ .tcpFrame data) : n'.cookie = n.cookie := by
  refine (Node.act_moves S T h).relates (R := fun n n' : Node => n'.cookie = n.cookie) (fun _ => rfl)
    (fun _ _ _ h₁ h₂ => h₂.trans h₁) fun n₁ m n₂ hm hstep => ?_
  cases hstep with
  | socket hsocket =>
    have hlink := hsocket.link
    generalize hl : n₂.link = l at hlink
    cases hlink with
    | rest _ _ _ _ => exact congrArg LinkState.cookie hl
    | greeted cookie =>
      obtain ⟨data, rfl, -⟩ := NodeMove.SocketExpected.origin hm
      exact absurd rfl (he data)
    | confirmed _ => exact congrArg LinkState.cookie hl
  | layer _ => rfl
  | opened _ _ => rfl
  | tun _ => rfl
  | reachable _ => rfl

/-- The items of an event of a node without a cookie and a connection, when no connection begins. -/
theorem act_unconnected (h : { n with sent := [] }.act S T now e = .ok n') (he : ∀ data, e ≠ .tcpFrame data)
    (hk : n.cookie = []) : n'.cookie = [] ∧ (∀ frame, .wrote frame ∉ sentItems n.baseReachable n'.sent) ∧
      (n.baseConnection = false → .established ∉ sentItems n.baseReachable n'.sent → n'.baseConnection = false) := by
  have hcookie : n'.cookie = [] := (act_cookie h he).trans hk
  refine ⟨hcookie, ?_⟩
  by_cases hr : ∃ reachable, e = .baseReachable reachable
  · obtain ⟨reachable, rfl⟩ := hr
    cases h
    exact ⟨by simp [sentItems], fun hc _ => hc⟩
  · obtain ⟨-, added, hsent, -, hnone, hclosed⟩ := act_linkStep h (not_exists.mp hr)
    have hadded : n'.sent = added := hsent
    rw [hadded]
    refine ⟨fun frame hm => ?_, hclosed⟩
    obtain ⟨t, ht, hitem⟩ := List.mem_filterMap.mp hm
    cases t with
    | tcp frame' => exact (hnone hcookie).2 frame' ht
    | udp _ _ => cases hitem
    | multicast _ _ => cases hitem
    | tcpConnect _ =>
      rw [sentItem] at hitem
      split at hitem
      · cases hitem
      · cases hitem
    | tcpClose => cases hitem
    | tun _ => cases hitem

theorem eventItems_agents {x : Node × (Time × NodeEvent) × Node}
    (h : { x.1 with sent := [] }.act S T x.2.1.1 x.2.1.2 = .ok x.2.2) : AgentsFollow (eventItems x) := by
  have hhello (e : NodeEvent) : AgentsFollow (helloItems e) := by
    refine .of_none fun frame hm => ?_
    unfold helloItems at hm
    split at hm
    · split at hm
      · cases List.mem_singleton.mp hm
      · cases hm
    · cases hm
  refine (hhello _).append ?_
  obtain ⟨n, ⟨now, e⟩, n'⟩ := x
  by_cases hr : ∃ reachable, e = .baseReachable reachable
  · obtain ⟨reachable, rfl⟩ := hr
    have hsent : n'.sent = [] := congrArg Node.sent (Except.ok.inj h).symm
    rw [hsent]
    exact .of_none (by simp [sentItems])
  · obtain ⟨-, added, hsent, hagents, -⟩ := act_linkStep h (not_exists.mp hr)
    have hadded : n'.sent = added := hsent
    rw [hadded]
    exact hagents

theorem runItems_agents {n₀ : Node} {run : List ((Time × NodeEvent) × Node)} (hr : IsRun (Node.RunStep S T) n₀ run) :
    AgentsFollow (runItems n₀ run) := by
  induction run generalizing n₀ with
  | nil => exact .of_none (by simp [runItems, transitions])
  | cons x run ih =>
    have hfirst : AgentsFollow (eventItems (n₀, x)) := eventItems_agents hr.1
    exact hfirst.append (ih hr.2)

theorem connectionsOf_append {items : List LinkItem} (h : .established ∉ items) (more : List LinkItem) :
    connectionsOf (items ++ more) = connectionsOf more := by
  induction items with
  | nil => rfl
  | cons item items ih =>
    have hrest := ih fun hm => h (List.mem_cons_of_mem _ hm)
    cases item with
    | established => exact absurd (List.mem_cons_self ..) h
    | ended => exact hrest
    | hello _ => exact hrest
    | wrote _ => exact hrest

theorem mem_connectionsOf (items more : List LinkItem) :
    more.takeWhile LinkItem.OnConnection ∈ connectionsOf (items ++ .established :: more) := by
  induction items with
  | nil => exact List.mem_cons_self ..
  | cons item items ih =>
    cases item with
    | established => exact List.mem_cons_of_mem _ ih
    | ended => exact ih
    | hello _ => exact ih
    | wrote _ => exact ih

/-- The first connection of a run, which comes to a node without a cookie, has no USER_AGENT frame. -/
theorem first_connection {n₀ : Node} {run : List ((Time × NodeEvent) × Node)} (hr : IsRun (Node.RunStep S T) n₀ run)
    (hf : FramesOnConnections n₀ run) (hk : n₀.cookie = []) (hc : n₀.baseConnection = false) :
    connectionsOf (runItems n₀ run) = [] ∨
      ∃ c ∈ connectionsOf (runItems n₀ run), ∀ frame, .wrote frame ∈ c → ¬ IsUserAgent frame := by
  induction run generalizing n₀ with
  | nil => exact Or.inl rfl
  | cons x run ih =>
    obtain ⟨⟨now, e⟩, n₁⟩ := x
    have hframe (data : Bytes) : e ≠ .tcpFrame data := by
      rintro rfl
      have hopen : n₀.baseConnection = true := hf _ (List.mem_cons_self ..) data rfl
      rw [hc] at hopen
      cases hopen
    have hhello : helloItems e = [] := by
      unfold helloItems
      split
      · rename_i data
        exact absurd rfl (hframe data)
      · rfl
    obtain ⟨hk₁, hnone, hclosed⟩ := act_unconnected hr.1 hframe hk
    have hitems : runItems n₀ (((now, e), n₁) :: run) =
        sentItems n₀.baseReachable n₁.sent ++ runItems n₁ run := by
      show (helloItems e ++ sentItems n₀.baseReachable n₁.sent) ++ runItems n₁ run = _
      rw [hhello, List.nil_append]
    rw [hitems]
    by_cases hb : .established ∈ sentItems n₀.baseReachable n₁.sent
    · obtain ⟨before, after, hsplit⟩ := List.append_of_mem hb
      rw [hsplit] at hnone ⊢
      have hagents : AgentsFollow (after ++ runItems n₁ run) :=
        AgentsFollow.append (.of_none fun frame hm => absurd hm fun hm => hnone frame (by simp [hm])) (runItems_agents hr.2)
      refine Or.inr ⟨_, ?_, fun frame hm => hagents.takeWhile hm⟩
      rw [List.append_assoc]
      exact mem_connectionsOf before _
    · rw [connectionsOf_append hb]
      exact ih hr.2 (fun y hy => hf y (List.mem_cons_of_mem _ hy)) hk₁ (hclosed hc hb)

end Runs

/-- **Base connections do not start properly.** In a run of a node from its start all connections are proper if
and only if there is none: the first one never gets its USER_AGENT frame. -/
theorem base_connections_iff (S : Sodium) (T : JsonText) (configManager : ConfigManager) (identity : Identity)
    (tape : Tape) (myFlags : PeerFlags) (boot : UInt64) (userAgent : Bytes) (workerQueueSize : ℕ) (sourcePort : UInt16)
    (events : List (Time × NodeEvent)) :
    let n₀ := Node.new configManager identity tape myFlags boot userAgent workerQueueSize sourcePort
    FramesOnConnections n₀ (n₀.run S T events) →
      ((∀ c ∈ connectionsOf (runItems n₀ (n₀.run S T events)), ProperConnection c) ↔
        connectionsOf (runItems n₀ (n₀.run S T events)) = []) := by
  intro n₀ hf
  constructor
  · intro hproper
    obtain hnone | ⟨c, hm, hno⟩ := first_connection (n₀.isRun_run S T events) hf rfl rfl
    · exact hnone
    · obtain ⟨frame, hframe, hagent⟩ := (hproper c hm).agent
      exact absurd hagent (hno frame hframe)
  · intro hnone c hm
    rw [hnone] at hm
    cases hm

/-- The node connects, gets its cookie, loses the connection, connects again and does its refresh. -/
def reconnect : List (Time × NodeEvent) :=
  [(40000, .periodic []), (40001, .tcpFrame ([0] ++ List.replicate 16 7)), (40002, .tcpClosed), (43500, .periodic []),
    (43501, .worker)]

def baseRun : List ((Time × NodeEvent) × Node) := baseNode.run clearSodium ConfigManager.plainText reconnect

theorem framesOnConnections_baseRun : FramesOnConnections baseNode baseRun := by
  have hall : ((transitions baseNode baseRun).all fun x => match x.2.1.2 with
      | .tcpFrame _ => x.1.baseConnection
      | _ => true) = true := by decide +kernel
  intro x hx data he
  have hconnected := List.all_eq_true.mp hall x hx
  rw [he] at hconnected
  exact hconnected

theorem base_connections_iff_reconnect : (∀ c ∈ connectionsOf (runItems baseNode baseRun), ProperConnection c) ↔
    connectionsOf (runItems baseNode baseRun) = [] :=
  base_connections_iff clearSodium ConfigManager.plainText
    { (openNode (clearIdentity 1)).configManager with baseAddresses := ⟨[.parse (ascii "::ffff:0a00:0001")], by decide⟩ }
    (clearIdentity 1) countingTape .new 0 [] 4 5000 reconnect framesOnConnections_baseRun

def infoFrame : Bytes :=
  serializePeerToBaseMessage clearSodium ⟨clearIdentity 1, List.replicate 16 7, [], 0⟩ .INFO

/-- The first connection has no USER_AGENT frame, and the second a frame with the cookie of the first. -/
theorem connections_improper : FramesOnConnections baseNode baseRun ∧
    ∃ c₁ c₂, connectionsOf (runItems baseNode baseRun) = [c₁, c₂] ∧ ¬ ProperConnection c₁ ∧ ¬ ProperConnection c₂ := by
  refine ⟨framesOnConnections_baseRun, [.hello (List.replicate 16 7), .wrote infoFrame],
    [.wrote [4], .wrote infoFrame], by decide +kernel, fun h => ?_, fun h => ?_⟩
  · obtain ⟨frame, hm, hagent⟩ := h.agent
    have hframe : frame = infoFrame := by simpa using hm
    have hkind : infoFrame.getD 0 0 = 2 := by decide +kernel
    rw [IsUserAgent, hframe, hkind] at hagent
    cases hagent
  · have hkind : ¬ IsUserAgent infoFrame := by
      unfold IsUserAgent
      decide +kernel
    obtain ⟨cookie, hm, -⟩ := h.cookies [.wrote [4]] infoFrame [] rfl hkind
    simp at hm

end Husarnet
