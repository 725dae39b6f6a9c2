import Husarnet.NodeHistory
import Husarnet.PeerIdentity

/-! # The direct path

A peer is reached at the address that a reply to a hello came from. The timer, the data of both
sides, three kinds of messages and multicast packets start attempts or give the path up, in any
order; one call sets the target, for a reply that has the cookie of the last attempt.
-/

namespace Husarnet
open Octets Containers PeerContainer Runs
set_option autoImplicit false

def NodeAction.attempts (peer : PeerRef) : NodeAction → Bool
  | .call (.attempted ref _) => ref = peer
  | _ => false

def retargets (peer : PeerRef) (x : Node × NodeAction × Node) : Bool :=
  (x.2.2.deref peer).targetAddress ≠ (x.1.deref peer).targetAddress

/-! ## One step -/

/-- What a step does to a peer: it keeps the target, begins an attempt or ends it at a new target. -/
inductive PathEffect (n : Node) (peer : PeerRef) (n' : Node) : NodeAction → Prop where
  | kept {a : NodeAction} (h : TargetKept (n.deref peer) (n'.deref peer))
      (ha : a.attempts peer = true → (n'.deref peer).reestablishing = false) : PathEffect n peer n' a
  | attempted (now : Time) (h : n'.deref peer = (n.deref peer).update (Node.attempted now n.nextCookie)) :
      PathEffect n peer n' (.call (.attempted peer n.nextCookie))
  | reached (source : InetAddress) {myId yourId : HusarnetAddress} {helloCookie : Bytes}
      (ha : n.Accepts myId yourId helloCookie peer) (h : n'.deref peer = (n.deref peer).update (Node.reached source)) :
      PathEffect n peer n' (.call (.replied source myId yourId helloCookie))

namespace PathEffect
variable {n n' : Node} {peer : PeerRef} {a : NodeAction}

theorem of_eq (h : n'.deref peer = n.deref peer) (ha : a.attempts peer = true → (n.deref peer).reestablishing = false) :
    PathEffect n peer n' a := .kept (h ▸ .refl _) (h ▸ ha)

theorem attempt (S : Sodium) (now : Time) (n : Node) (ref peer : PeerRef) :
    PathEffect n peer (n.attemptReestablish S now ref) (.call (.attempted ref n.nextCookie)) := by
  by_cases ha : n.peerContainer.Allocated ref
  · have hderef := Node.deref_attemptReestablish S now n ha peer
    by_cases hr : ref = peer
    · subst hr
      rw [if_pos rfl] at hderef
      exact .attempted now hderef
    · rw [if_neg hr] at hderef
      exact .of_eq hderef fun h => absurd (of_decide_eq_true h) hr
  · have hc := (Node.attemptReestablish_frame S now n ref).1
    have hderef : (n.attemptReestablish S now ref).deref peer = n.deref peer := by
      rw [Node.deref, hc]
      exact deref_modify_of_not_allocated (c := n.peerContainer.draw) ha _ peer
    refine .of_eq hderef fun h => ?_
    have hr : ref = peer := of_decide_eq_true h
    rw [Node.deref, deref_of_not_allocated (hr ▸ ha)]
    rfl

theorem reply (n : Node) (source : InetAddress) (myId yourId : HusarnetAddress) (helloCookie : Bytes)
    (peer : PeerRef) : PathEffect n peer (n.helloReplyReceived source myId yourId helloCookie)
      (.call (.replied source myId yourId helloCookie)) := by
  have h := Node.helloReplyReceived_handling n source myId yourId helloCookie
  generalize n.helloReplyReceived source myId yourId helloCookie = n' at h ⊢
  cases h with
  | foreign _ => exact .of_eq rfl fun h => by cases h
  | ignored _ => exact .of_eq (n.deref_getPeer myId peer) fun h => by cases h
  | accepted ref hacc =>
    have hpoints : PointsTo (n.getPeer myId).1.peerContainer.heap ref myId :=
      (PathsKept.getPeer n.peerContainer myId).pointsTo ref myId (getPeer_pointsTo hacc.found)
    by_cases hr : ref = peer
    · subst hr
      refine .reached source hacc ?_
      have hself := deref_modify_self (allocated_of_pointsTo hpoints) (Node.reached source)
      rw [← n.deref_getPeer myId ref]
      exact hself
    · refine .of_eq ?_ fun h => by cases h
      have hother := deref_modify_ne (n.getPeer myId).1.peerContainer hr (Node.reached source)
      rw [← n.deref_getPeer myId peer]
      exact hother

end PathEffect

/-- **What one step does to a peer.** -/
theorem NodeStep.pathEffect {S : Sodium} {n n' : Node} {a : NodeAction} (h : NodeStep S n a n') (peer : PeerRef) :
    PathEffect n peer n' a := by
  cases h with
  | began _ _ => exact .of_eq rfl fun h => by cases h
  | above hp _ _ => exact .kept (hp.peer peer).toTargetKept fun h => by cases h
  | call hs =>
    cases hs with
    | note hs _ _ _ =>
      have hsame : n'.peerContainer = n.peerContainer := congrArg SecurityLayer.peerContainer hs
      exact .of_eq (congrArg (fun c => c.deref peer) hsame) fun h => by cases h
    | transmit _ _ => exact .of_eq rfl fun h => by cases h
    | container _ _ hp => exact .kept (hp.peer peer).toTargetKept fun h => by cases h
    | queued _ _ _ _ => exact .of_eq rfl fun h => by cases h
    | claimed _ ref source _ =>
      exact .kept ((Node.addSourceAddress_targets n ref source).targets.peer peer) fun h => by cases h
    | attempted now _ ref => exact .attempt S now n ref peer
    | replied _ source myId yourId helloCookie => exact .reply n source myId yourId helloCookie peer

/-- The node stays who it is, and a peer is found where it was. -/
theorem NodeStep.ids {S : Sodium} {n n' : Node} {a : NodeAction} (h : NodeStep S n a n') :
    Kept (fun _ _ => True) n.peerContainer n'.peerContainer := by
  have hsame {c c' : PeerContainer} (hi : c'.identity = c.identity) (hh : c'.heap = c.heap) :
      Kept (fun _ _ => True) c c' := .of_heap_eq (fun _ => trivial) hi hh
  cases h with
  | began _ _ => exact hsame rfl rfl
  | above hp _ _ => exact hp.mono fun _ => trivial
  | call hs =>
    cases hs with
    | note hs _ _ _ =>
      have hc : n'.peerContainer = n.peerContainer := congrArg SecurityLayer.peerContainer hs
      exact hsame (congrArg PeerContainer.identity hc) (congrArg PeerContainer.heap hc)
    | transmit _ _ => exact hsame rfl rfl
    | container _ _ hp => exact hp.mono fun _ => trivial
    | queued _ _ _ _ => exact hsame rfl rfl
    | claimed _ ref source _ => exact (Node.addSourceAddress_targets n ref source).targets.mono fun _ => trivial
    | attempted now _ ref =>
      have hdraw : Kept (fun _ _ => True) n.peerContainer n.peerContainer.draw := hsame rfl rfl
      rw [(Node.attemptReestablish_frame S now n ref).1]
      exact hdraw.trans (.modify (fun _ => trivial) _ ref fun _ => trivial) fun _ _ => trivial
    | replied _ source myId yourId helloCookie =>
      have hget : Kept (fun _ _ => True) n.peerContainer (n.getPeer myId).1.peerContainer :=
        (PathsKept.getPeer n.peerContainer myId).mono fun _ => trivial
      have hr := Node.helloReplyReceived_handling n source myId yourId helloCookie
      generalize n.helloReplyReceived source myId yourId helloCookie = n' at hr ⊢
      cases hr with
      | foreign _ => exact hsame rfl rfl
      | ignored _ => exact hget
      | accepted ref _ => exact hget.trans (.modify (fun _ => trivial) _ ref fun _ => trivial) fun _ _ => trivial

/-! ## Changes of the target -/

/-- A step that changes the target ends an attempt with its cookie. -/
theorem PathEffect.of_retargets {n n' : Node} {peer : PeerRef} {a : NodeAction} (h : PathEffect n peer n' a)
    (hr : retargets peer (n, a, n') = true) : ∃ source myId yourId helloCookie,
      a = .call (.replied source myId yourId helloCookie) ∧ n.Accepts myId yourId helloCookie peer ∧
      (n'.deref peer).targetAddress = source ∧ (n'.deref peer).reestablishing = false := by
  have hne : (n'.deref peer).targetAddress ≠ (n.deref peer).targetAddress := of_decide_eq_true hr
  cases h with
  | kept h _ => exact absurd h.targetAddress hne
  | attempted now h => exact absurd (congrArg Peer.targetAddress h) hne
  | reached source hacc h =>
    exact ⟨source, _, _, _, rfl, hacc, congrArg Peer.targetAddress h, congrArg Peer.reestablishing h⟩

theorem PathEffect.rests {n n' : Node} {peer : PeerRef} {a : NodeAction} (h : PathEffect n peer n' a)
    (ha : a.attempts peer = false) (hn : (n.deref peer).reestablishing = false) :
    (n'.deref peer).reestablishing = false := by
  cases h with
  | kept h _ => exact h.reestablishing.trans hn
  | attempted now h =>
    rw [NodeAction.attempts, decide_eq_false_iff_not] at ha
    exact absurd rfl ha
  | reached source _ h => exact congrArg Peer.reestablishing h

section Runs
variable {S : Sodium} {peer : PeerRef}

/-- The changes of the target up to the next attempt. -/
def changes (peer : PeerRef) (ts : List (Node × NodeAction × Node)) : ℕ :=
  (ts.takeWhile fun y => !y.2.1.attempts peer).countP (retargets peer)

theorem changes_of_resting {n : Node} {tr : List (NodeAction × Node)} (hr : IsRun (NodeStep S) n tr)
    (hn : (n.deref peer).reestablishing = false) : changes peer (transitions n tr) = 0 := by
  induction tr generalizing n with
  | nil => rfl
  | cons x tr ih =>
    obtain ⟨a, n'⟩ := x
    have heffect := hr.1.pathEffect peer
    rw [changes, transitions, List.takeWhile_cons]
    cases ha : a.attempts peer with
    | true => rfl
    | false =>
      have hkept : retargets peer (n, a, n') = false := by
        by_contra hchange
        obtain ⟨_, _, _, _, -, hacc, -⟩ := heffect.of_retargets (Bool.not_eq_false _ ▸ hchange)
        rw [hacc.reestablishing] at hn
        cases hn
      have hrest := ih hr.2 (heffect.rests ha hn)
      rw [changes] at hrest
      simp only [Bool.not_false, if_true]
      rw [List.countP_cons_of_neg (by simp [hkept]), hrest]

/-- **Up to the next attempt the target changes once at most.** -/
theorem changes_le_one {n : Node} {tr : List (NodeAction × Node)} (hr : IsRun (NodeStep S) n tr) :
    changes peer (transitions n tr) ≤ 1 := by
  induction tr generalizing n with
  | nil => exact Nat.zero_le 1
  | cons x tr ih =>
    obtain ⟨a, n'⟩ := x
    have heffect := hr.1.pathEffect peer
    have hrest := ih hr.2
    rw [changes] at hrest
    rw [changes, transitions, List.takeWhile_cons]
    cases ha : a.attempts peer with
    | true => exact Nat.zero_le 1
    | false =>
      simp only [Bool.not_false, if_true]
      cases hchange : retargets peer (n, a, n') with
      | false =>
        rw [List.countP_cons_of_neg (by simp [hchange])]
        exact hrest
      | true =>
        -- behind the change the peer rests
        obtain ⟨_, _, _, _, -, -, -, hrests⟩ := heffect.of_retargets hchange
        have hnone := changes_of_resting hr.2 hrests
        rw [changes] at hnone
        rw [List.countP_cons_of_pos hchange, hnone]

/-- The last attempt to reach the peer, with the target unchanged since, for a peer that is sought. -/
def Sought (ts : List (Node × NodeAction × Node)) (n : Node) (peer : PeerRef) : Prop :=
  (n.deref peer).reestablishing = true → ∃ earlier y between, ts = earlier ++ y :: between ∧
    y.2.1 = .call (.attempted peer (n.deref peer).helloCookie) ∧
    ∀ z ∈ between, z.2.1.attempts peer = false ∧ retargets peer z = false

theorem sought_step {n n' : Node} {a : NodeAction} (h : NodeStep S n a n') {ts : List (Node × NodeAction × Node)}
    (hs : Sought ts n peer) : Sought (ts ++ [(n, a, n')]) n' peer := by
  intro hr
  cases h.pathEffect peer with
  | kept hk ha =>
    rw [hk.reestablishing] at hr
    obtain ⟨earlier, y, between, rfl, hy, hbetween⟩ := hs hr
    refine ⟨earlier, y, between ++ [(n, a, n')], by simp, ?_, ?_⟩
    · rw [hk.helloCookie]
      exact hy
    · have hquiet : a.attempts peer = false ∧ retargets peer (n, a, n') = false := by
        refine ⟨?_, decide_eq_false (not_not.mpr hk.targetAddress)⟩
        by_contra hat
        rw [← hk.reestablishing, ha (by simpa using hat)] at hr
        cases hr
      exact List.forall_mem_append.mpr ⟨hbetween, List.forall_mem_singleton.mpr hquiet⟩
  | attempted now hw =>
    have hcookie : (n'.deref peer).helloCookie = n.nextCookie := congrArg Peer.helloCookie hw
    exact ⟨ts, _, [], rfl, by rw [hcookie], List.forall_mem_nil _⟩
  | reached source _ hw =>
    have hrests : (n'.deref peer).reestablishing = false := congrArg Peer.reestablishing hw
    rw [hrests] at hr
    cases hr

theorem sought_run {n : Node} {tr : List (NodeAction × Node)} (hr : IsRun (NodeStep S) n tr)
    {ts : List (Node × NodeAction × Node)} (hs : Sought ts n peer) :
    Sought (ts ++ transitions n tr) (last n tr) peer := by
  induction tr generalizing n ts with
  | nil =>
    rw [transitions, List.append_nil]
    exact hs
  | cons x tr ih =>
    have hrest := ih hr.2 (sought_step hr.1 hs)
    rw [List.append_assoc] at hrest
    exact hrest

/-! ## The proof of a path -/

/-- What the past has for the path of a peer: the attempt under way, and, for a peer that is
connected, a reply from its target with the cookie of an attempt. -/
structure PathProven (S : Sodium) (past : List NodeAction) (n : Node) (peer : PeerRef) : Prop where
  sought : (n.deref peer).reestablishing = true → .call (.attempted peer (n.deref peer).helloCookie) ∈ past
  reached : (n.deref peer).connected = true → ∃ id data helloCookie, PointsTo n.peerContainer.heap peer id ∧
    History.Received past (n.deref peer).targetAddress data ∧
    parsePeerToPeerMessage S data = .ok (.HELLO_REPLY id n.myIdentity.deviceId helloCookie) ∧
    .call (.attempted peer helloCookie) ∈ past

/-- The datagram of a reply was received before. -/
def Answers (S : Sodium) (past : List NodeAction) (a : NodeAction) : Prop :=
  ∀ source myId yourId helloCookie, a = .call (.replied source myId yourId helloCookie) → ∃ data,
    History.Received past source data ∧ parsePeerToPeerMessage S data = .ok (.HELLO_REPLY myId yourId helloCookie)

theorem pathProven_step {n n' : Node} {a : NodeAction} (h : NodeStep S n a n') {past : List NodeAction}
    (ha : Answers S past a) (hp : PathProven S past n peer) : PathProven S (past ++ [a]) n' peer := by
  have hself : n'.myIdentity = n.myIdentity := h.ids.identity
  -- a proof stays one as long as the target does
  have hkeep (htarget : (n'.deref peer).targetAddress = (n.deref peer).targetAddress)
      (hc : (n.deref peer).connected = true) : ∃ id data helloCookie, PointsTo n'.peerContainer.heap peer id ∧
        History.Received (past ++ [a]) (n'.deref peer).targetAddress data ∧
        parsePeerToPeerMessage S data = .ok (.HELLO_REPLY id n'.myIdentity.deviceId helloCookie) ∧
        .call (.attempted peer helloCookie) ∈ past ++ [a] := by
    obtain ⟨id, data, helloCookie, hid, hd, hm, hat⟩ := hp.reached hc
    refine ⟨id, data, helloCookie, h.ids.pointsTo peer id hid, ?_, ?_, List.mem_append_left _ hat⟩
    · rw [htarget]
      exact hd.append _
    · rw [hself]
      exact hm
  cases h.pathEffect peer with
  | kept hk _ =>
    refine ⟨fun hr => ?_, fun hc => hkeep hk.targetAddress (hk.connected hc)⟩
    rw [hk.helloCookie]
    exact List.mem_append_left _ (hp.sought (hk.reestablishing ▸ hr))
  | attempted now hw =>
    have hcookie : (n'.deref peer).helloCookie = n.nextCookie := congrArg Peer.helloCookie hw
    have hconnected : (n'.deref peer).connected = (n.deref peer).connected := (congrArg Peer.connected hw).trans rfl
    have htarget : (n'.deref peer).targetAddress = (n.deref peer).targetAddress :=
      (congrArg Peer.targetAddress hw).trans rfl
    refine ⟨fun _ => ?_, fun hc => hkeep htarget (hconnected ▸ hc)⟩
    rw [hcookie]
    exact List.mem_append_right _ (List.mem_singleton_self _)
  | reached source hacc hw =>
    rename_i myId yourId helloCookie
    have hrests : (n'.deref peer).reestablishing = false := congrArg Peer.reestablishing hw
    have htarget : (n'.deref peer).targetAddress = source := congrArg Peer.targetAddress hw
    refine ⟨fun hr => ?_, fun _ => ?_⟩
    · rw [hrests] at hr
      cases hr
    · obtain ⟨data, hd, hm⟩ := ha source myId yourId helloCookie rfl
      refine ⟨myId, data, helloCookie, h.ids.pointsTo peer myId (getPeer_pointsTo hacc.found), ?_, ?_, ?_⟩
      · rw [htarget]
        exact hd.append _
      · rw [hself, ← hacc.own]
        exact hm
      · rw [← hacc.cookie]
        exact List.mem_append_left _ (hp.sought hacc.reestablishing)

theorem pathProven_run {n : Node} {tr : List (NodeAction × Node)} (hr : IsRun (NodeStep S) n tr)
    {past : List NodeAction}
    (ha : ∀ before x after, tr = before ++ x :: after → Answers S (past ++ before.map Prod.fst) x.1)
    (hp : PathProven S past n peer) : PathProven S (past ++ tr.map Prod.fst) (last n tr) peer := by
  induction tr generalizing n past with
  | nil =>
    rw [List.map_nil, List.append_nil]
    exact hp
  | cons x tr ih =>
    have hfirst := ha [] x tr rfl
    rw [List.map_nil, List.append_nil] at hfirst
    have hlater : ∀ before y after, tr = before ++ y :: after →
        Answers S (past ++ [x.1] ++ before.map Prod.fst) y.1 := by
      intro before y after he
      have hy := ha (x :: before) y after (congrArg (x :: ·) he)
      rw [List.append_assoc]
      exact hy
    have hrest := ih hr.2 hlater (pathProven_step hr.1 hfirst hp)
    rw [List.append_assoc] at hrest
    exact hrest

end Runs

/-- **The direct path is proven before it is used.** In a history of any run of a new node, at every
step: a peer that is connected has for its target the source of a reply that was received, is
signed under a key of the peer's id, names the node itself and has the cookie of an attempt to reach
the peer. The target changes only by a reply with the cookie of the last attempt, as the first
change since, so that an attempt leads to one change at most. -/
theorem direct_path_proven (S : Sodium) (T : JsonText) (configManager : ConfigManager) (identity : Identity)
    (tape : Tape) (myFlags : PeerFlags) (boot : UInt64) (userAgent : Bytes) (workerQueueSize : ℕ)
    (sourcePort : UInt16) (events : List (Time × NodeEvent)) :
    let n₀ := Node.new configManager identity tape myFlags boot userAgent workerQueueSize sourcePort
    let run := n₀.run S T events
    (∃ steps, History S n₀ run steps) ∧ ∀ steps, History S n₀ run steps →
      (∀ before after, steps = before ++ after → ∀ peer p,
        (last n₀ before).peerContainer.heap[peer]? = some p → p.connected = true →
        ∃ data helloCookie, ∃ h : data.length = 145,
          History.Received (before.map Prod.fst) p.targetAddress data ∧
          parsePeerToPeerMessage S data = .ok (.HELLO_REPLY p.id identity.deviceId helloCookie) ∧
          SignedHello S data h ∧
          NgSocketCrypto.pubkeyToDeviceId S (sliceF data 17 32 (helloKey_within h)) = p.id ∧
          .call (.attempted peer helloCookie) ∈ before.map Prod.fst) ∧
      (∀ peer before x later, transitions n₀ steps = before ++ x :: later → retargets peer x = true →
        ∃ earlier y between source myId helloCookie, before = earlier ++ y :: between ∧
          y.2.1 = .call (.attempted peer helloCookie) ∧
          x.2.1 = .call (.replied source myId identity.deviceId helloCookie) ∧
          (x.2.2.deref peer).targetAddress = source ∧
          ∀ z ∈ between, z.2.1.attempts peer = false ∧ retargets peer z = false) ∧
      ∀ peer before x later, transitions n₀ steps = before ++ x :: later → x.2.1.attempts peer = true →
        changes peer later ≤ 1 := by
  intro n₀ run
  refine ⟨History.exists_of_run T n₀ events, fun steps h => ?_⟩
  obtain ⟨hr, -⟩ := h.isRun
  have hself : ∀ n ∈ states n₀ steps, n.myIdentity = identity :=
    hr.keeps rfl fun n a n' hn hstep => hstep.ids.identity.trans hn
  refine ⟨fun before after he peer p hentry hc => ?_, fun peer before x later he hchange => ?_,
    fun peer before x later he _ => ?_⟩
  · subst he
    have hbefore := ((isRun_append n₀ before after).mp hr).1
    have hanswers : ∀ pre x post, before = pre ++ x :: post → Answers S ([] ++ pre.map Prod.fst) x.1 := by
      intro pre x post he source myId yourId helloCookie hx
      have he' : before ++ after = pre ++ x :: (post ++ after) := by rw [he, List.append_assoc, List.cons_append]
      exact h.replied_received (fun _ _ _ hm => by cases hm) he' hx
    have hstart : PathProven S [] n₀ peer := by
      constructor
      · intro hr
        cases hr
      · intro hc
        cases hc
    have hproven := pathProven_run hbefore hanswers hstart
    have hderef : (last n₀ before).deref peer = p := deref_of_entry hentry
    rw [List.nil_append] at hproven
    obtain ⟨id, data, helloCookie, hid, hd, hm, hat⟩ := hproven.reached (hderef ▸ hc)
    have hpid : p.id = id := by
      rw [PointsTo, hentry] at hid
      exact Option.some.inj hid
    have hown : (last n₀ before).myIdentity = identity := hself _ (last_mem_states n₀ before after)
    rw [hown, ← hpid] at hm
    rw [hderef] at hd
    obtain ⟨hl, hsigned, hkey, -⟩ := parsesAsHello_iff.mp ⟨_, _, Or.inr hm⟩
    exact ⟨data, helloCookie, hl, hd, hm, hsigned, hkey, hat⟩
  · obtain ⟨tr₁, y, tr₂, rfl, rfl, rfl, -⟩ := transitions_eq_append_cons he
    obtain ⟨hr₁, hr₂⟩ := (isRun_append n₀ tr₁ (y :: tr₂)).mp hr
    obtain ⟨source, myId, yourId, helloCookie, ha, hacc, htarget, -⟩ := (hr₂.1.pathEffect peer).of_retargets hchange
    have hstart : Sought [] n₀ peer := fun h => by cases h
    obtain ⟨earlier, z, between, hbefore, hz, hbetween⟩ := sought_run hr₁ hstart hacc.reestablishing
    have hown : (last n₀ tr₁).myIdentity = identity := hself _ (last_mem_states n₀ tr₁ (y :: tr₂))
    refine ⟨earlier, z, between, source, myId, helloCookie, hbefore, ?_, ?_, htarget, hbetween⟩
    · rw [← hacc.cookie]
      exact hz
    · rw [← hown, ← hacc.own]
      exact ha
  · obtain ⟨tr₁, y, tr₂, rfl, -, -, rfl⟩ := transitions_eq_append_cons he
    exact changes_le_one ((isRun_append n₀ tr₁ (y :: tr₂)).mp hr).2.2

/-- A status query starts an attempt to reach a new peer, and its reply comes. -/
def queryAndReply : List (Time × NodeEvent) :=
  [(0, .getLatency (clearIdentity 2).deviceId),
    (1, .udpPacket ⟨MULTICAST_ADDR_4, 7⟩ (serializePeerToPeerMessage clearSodium (clearIdentity 2)
      (.HELLO_REPLY .invalid (clearIdentity 1).deviceId (countingTape.cookie 2).bytes))),
    (2, .worker)]

theorem direct_path_proven_reply :
    let n := last (openNode (clearIdentity 1))
      ((openNode (clearIdentity 1)).run clearSodium ⟨fun _ => none, fun _ => []⟩ queryAndReply)
    ∃ p data helloCookie, n.peerContainer.heap[0]? = some p ∧ p.connected = true ∧
      parsePeerToPeerMessage clearSodium data = .ok (.HELLO_REPLY p.id (clearIdentity 1).deviceId helloCookie) := by
  intro n
  obtain ⟨⟨steps, h⟩, hall⟩ := direct_path_proven clearSodium ⟨fun _ => none, fun _ => []⟩
    (.new false (clearIdentity 1).deviceId 0 [] []) (clearIdentity 1) countingTape .new 0 [] 4 5000 queryAndReply
  have hconnected : (n.peerContainer.heap[0]?).any Peer.connected = true := by decide +kernel
  obtain ⟨p, hentry, hc⟩ := (Option.any_eq_true Peer.connected _).mp hconnected
  have hend : last _ steps = n := h.isRun.2
  obtain ⟨data, helloCookie, _, -, hm, -⟩ :=
    (hall steps h).1 steps [] (List.append_nil steps).symm 0 p (hend ▸ hentry) hc
  exact ⟨p, data, helloCookie, hentry, hc, hm⟩

end Husarnet
