import Husarnet.Config.AddressLists
import Husarnet.Lib.CyclicCounter
import Husarnet.NgSocket.PeriodicCalls

/-! # Base servers are tried in turn

The socket layer is made once `waitInit` has seen a base address. The list of base addresses is filled by
`updateLicenseData`, which the configuration thread calls once, before its loop; so from then on there is
an address to try, and a count of attempts that goes up by one leads through all of them.
-/

namespace Husarnet
open Octets JsonDoc Containers StateProgram Runs
set_option autoImplicit false

/-- The loop of `waitInit` ends. It reads without the lock, maybe in the middle of the update: what it sees
then stays, and `getBaseAddresses` waits for the end of the update. -/
def ConfigManager.waitInit (cm : ConfigManager) : Prop := cm.getBaseAddresses ≠ []

/-- What a node is made of besides its configuration. -/
structure NodeParts where
  identity : Identity
  tape : Tape
  myFlags : PeerFlags
  boot : UInt64
  userAgent : Bytes
  workerQueueSize : ℕ
  sourcePort : UInt16

def NodeParts.node (parts : NodeParts) (cm : ConfigManager) : Node :=
  .new cm parts.identity parts.tape parts.myFlags parts.boot parts.userAgent parts.workerQueueSize parts.sourcePort

/-- The configuration with its thread, and the node once it is made. -/
structure Daemon where
  config : ConfigSystem
  node : Option Node := none

inductive DaemonEvent where
  | config (e : ConfigSystem.Event)
  | start (parts : NodeParts)
  | node (now : Time) (e : NodeEvent)

namespace Daemon
variable (T : JsonText) (S : Sodium)

/-- The node has a pointer to the configuration, which is what it is now. -/
def seeing (n : Node) (cm : ConfigManager) : Node :=
  { n.withContainer (n.peerContainer.reconfigure cm) with sent := [] }

inductive Step (d : Daemon) : DaemonEvent → Daemon → Prop where
  | config (e : ConfigSystem.Event) : Step d (.config e) { d with config := d.config.step T S e }
  | start (parts : NodeParts) (hwait : d.config.cm.waitInit) (hnone : d.node = none) :
      Step d (.start parts) { d with node := some (parts.node d.config.cm) }
  | node {n n' : Node} (now : Time) (e : NodeEvent) (hn : d.node = some n) (he : ∀ change, e ≠ .configChange change)
      (hact : (seeing n d.config.cm).act S T now e = .ok n') : Step d (.node now e) { d with node := some n' }

def start (enableControlplane : Bool) (ourIp : HusarnetAddress) (clock : ℤ) (configFile cacheFile : Bytes) : Daemon where
  config := .start enableControlplane ourIp clock configFile cacheFile

/-! ## Attempts -/

/-- A call of `connectToBase`: the count and the addresses it found, and where it connected to. -/
structure Attempt where
  baseConnectRetries : ℕ
  addresses : List InternetAddress
  target : InetAddress

/-- `baseConnectRetries % addresses.size()`, where the `int` is made a `size_t`. -/
def Attempt.position (a : Attempt) : ℕ :=
  (BitVec.signExtend 64 (BitVec.ofNat 32 a.baseConnectRetries)).toNat % a.addresses.length

abbrev DaemonTransition := Daemon × DaemonEvent × Daemon

def attempts : DaemonTransition → List Attempt
  | (d, .node _ _, d') =>
    match d.node, d'.node with
    | some n, some n' =>
      (Node.connects n'.sent).map fun target => ⟨n.baseConnectRetries, d.config.cm.getBaseAddresses, target⟩
    | _, _ => []
  | _ => []

/-- The event is no message of the base on the TCP connection. -/
def NoFrame (x : DaemonTransition) : Prop := ∀ now data, x.2.1 ≠ .node now (.tcpFrame data)

def baseConnectRetries (d : Daemon) : ℕ := (d.node.map Node.baseConnectRetries).getD 0

def attempt (d : Daemon) : Attempt :=
  let addresses := d.config.cm.getBaseAddresses
  ⟨d.baseConnectRetries, addresses, ⟨addresses.getD (d.baseConnectRetries % addresses.length) default, BASESERVER_PORT⟩⟩

/-! ## One step -/

section Step
variable {T S} {d d' : Daemon} {e : DaemonEvent}

/-- What a step does to the count of attempts. -/
inductive CountStep (x : DaemonTransition) : Prop where
  | kept (h : attempts x = []) (hcount : x.2.2.baseConnectRetries = x.1.baseConnectRetries)
  | frame (hf : ¬ NoFrame x) (h : attempts x = []) (hcount : x.2.2.baseConnectRetries = 0)
  | attempted (hnode : x.1.node ≠ none) (h : attempts x = [x.1.attempt])
      (hcount : x.2.2.baseConnectRetries = x.1.baseConnectRetries + 1)

theorem step_count (h : Step T S d e d') : CountStep (d, e, d') := by
  cases h with
  | config e => exact .kept rfl rfl
  | start parts hwait hnone =>
    have hbefore : d.baseConnectRetries = 0 := by rw [baseConnectRetries, hnone]; rfl
    exact .kept rfl hbefore.symm
  | @node n n' now e hn he hact =>
    have hretries : d.baseConnectRetries = n.baseConnectRetries := by rw [baseConnectRetries, hn]; rfl
    have hattempts : attempts (d, .node now e, { d with node := some n' }) =
        (Node.connects n'.sent).map fun target => ⟨n.baseConnectRetries, d.config.cm.getBaseAddresses, target⟩ := by
      simp only [attempts, hn]
    have hcount {c : ℕ} {sent : List InetAddress} {t : Time} (ha : n'.aside = (t, c, sent)) :
        ({ d with node := some n' } : Daemon).baseConnectRetries = c := congrArg (fun a => a.2.1) ha
    have hsent {c : ℕ} {sent : List InetAddress} {t : Time} (ha : n'.aside = (t, c, sent)) :
        Node.connects n'.sent = sent := congrArg (fun a => a.2.2) ha
    cases Node.act_aside T hact with
    | kept _ _ ha =>
      refine .kept ?_ ((hcount ha).trans hretries.symm)
      rw [hattempts, hsent ha]
      rfl
    | frame data hdata ha =>
      refine .frame (fun hno => hno now data (by rw [hdata])) ?_ (hcount ha)
      rw [hattempts, hsent ha]
      rfl
    | waited _ ha =>
      refine .kept ?_ ((hcount ha).trans hretries.symm)
      rw [hattempts, hsent ha]
      rfl
    | attempted _ ha =>
      refine .attempted (by simp [hn]) ?_ ((hcount ha).trans (congrArg (· + 1) hretries.symm))
      rw [hattempts, hsent ha, attempt, hretries]
      rfl

/-- An attempt of a step is the one that its state calls for. -/
theorem step_attempts (h : Step T S d e d') : ∀ a ∈ attempts (d, e, d'), d.node ≠ none ∧ a = d.attempt := by
  intro a ha
  cases step_count h with
  | kept h _ => simp [h] at ha
  | frame _ h _ => simp [h] at ha
  | attempted hnode h _ =>
    rw [h] at ha
    exact ⟨hnode, List.mem_singleton.mp ha⟩

/-- The lists are empty until the update, and the node is made only behind it. -/
structure AddressInv (d : Daemon) : Prop where
  starting : d.config.pc.phase = .starting → d.config.cm.addressLists = ([], [], [])
  waited : d.node ≠ none → d.config.cm.waitInit

theorem AddressInv.not_starting (hi : d.AddressInv) (hwait : d.config.cm.waitInit) : d.config.pc.phase ≠ .starting := by
  intro hs
  have hempty : d.config.cm.getBaseAddresses = [] := congrArg Prod.fst (hi.starting hs)
  exact hwait hempty

theorem AddressInv.step (hi : d.AddressInv) (h : Step T S d e d') : d'.AddressInv := by
  cases h with
  | config e =>
    refine ⟨ConfigSystem.step_starting hi.starting rfl, fun hnode => ?_⟩
    have hwait := hi.waited hnode
    have hlists : (d.config.step T S e).cm.addressLists = d.config.cm.addressLists :=
      ConfigSystem.step_addressLists (hi.not_starting hwait) rfl
    have hbase : (d.config.step T S e).cm.getBaseAddresses = d.config.cm.getBaseAddresses := congrArg Prod.fst hlists
    exact hbase.trans_ne hwait
  | start parts hwait _ => exact ⟨hi.starting, fun _ => hwait⟩
  | node now e hn _ _ => exact ⟨hi.starting, fun _ => hi.waited (by simp [hn])⟩

end Step

/-! ## Runs -/

section Run
variable {T S} {d : Daemon} {tr : List (DaemonEvent × Daemon)}

def allAttempts (run : List DaemonTransition) : List Attempt := run.flatMap attempts

/-- The counts stay below the number of all attempts. -/
theorem baseConnectRetries_lt (hr : IsRun (Step T S) d tr) : ∀ a ∈ allAttempts (transitions d tr),
    a.baseConnectRetries < d.baseConnectRetries + (allAttempts (transitions d tr)).length := by
  induction tr generalizing d with
  | nil =>
    intro a ha
    cases ha
  | cons y tr ih =>
    obtain ⟨e, d'⟩ := y
    have hrest := ih hr.2
    simp only [allAttempts, transitions, List.flatMap_cons] at hrest ⊢
    intro a ha
    cases step_count hr.1 with
    | kept h hcount =>
      rw [h] at ha ⊢
      rw [← hcount]
      exact hrest a ha
    | frame _ h hcount =>
      rw [h] at ha ⊢
      have hlt := hrest a ha
      rw [hcount] at hlt
      exact hlt.trans_le (Nat.add_le_add_right (Nat.zero_le _) _)
    | attempted _ h hcount =>
      rw [h] at ha ⊢
      have hnext : d'.baseConnectRetries = d.baseConnectRetries + 1 := hcount
      rw [List.singleton_append, List.length_cons]
      obtain rfl | ha := List.mem_cons.mp ha
      · show d.baseConnectRetries < _
        omega
      · have hlt := hrest a ha
        omega

/-- Without a message of the base, the counts are numbers in a row. -/
theorem map_baseConnectRetries (hr : IsRun (Step T S) d tr) (hno : ∀ x ∈ transitions d tr, NoFrame x) :
    (allAttempts (transitions d tr)).map Attempt.baseConnectRetries =
      List.range' d.baseConnectRetries (allAttempts (transitions d tr)).length := by
  induction tr generalizing d with
  | nil => rfl
  | cons y tr ih =>
    obtain ⟨e, d'⟩ := y
    obtain ⟨hfirst, hno⟩ := List.forall_mem_cons.mp hno
    have hrest := ih hr.2 hno
    simp only [allAttempts, transitions, List.flatMap_cons] at hrest ⊢
    cases step_count hr.1 with
    | kept h hcount =>
      rw [h, List.nil_append, hrest, hcount]
    | frame hf => exact absurd hfirst hf
    | attempted _ h hcount =>
      rw [h, List.singleton_append, List.map_cons, List.length_cons, List.range'_succ, hrest, hcount]
      rfl

/-- Below the sign bit the `size_t` is the count. -/
theorem Attempt.position_eq {a : Attempt} (h : a.baseConnectRetries < 2 ^ 31) :
    a.position = a.baseConnectRetries % a.addresses.length := by
  have hmsb : (BitVec.ofNat 32 a.baseConnectRetries).msb = false := by
    rw [BitVec.msb_eq_decide, decide_eq_false_iff_not, BitVec.toNat_ofNat]
    omega
  rw [position, BitVec.signExtend_eq_setWidth_of_msb_false hmsb, BitVec.toNat_setWidth, BitVec.toNat_ofNat]
  congr 1
  omega

theorem mem_allAttempts (hr : IsRun (Step T S) d tr) (hi : d.AddressInv) :
    ∀ a ∈ allAttempts (transitions d tr), ∃ d' : Daemon, d'.AddressInv ∧ d'.node ≠ none ∧ a = d'.attempt := by
  intro a ha
  obtain ⟨x, hx, ha⟩ := List.mem_flatMap.mp ha
  obtain ⟨hstate, hstep⟩ := hr.of_mem hx
  obtain ⟨hnode, hattempt⟩ := step_attempts hstep a ha
  exact ⟨x.1, hr.keeps hi (fun _ _ _ hi h => hi.step h) x.1 hstate, hnode, hattempt⟩

theorem addressInv_start (enableControlplane : Bool) (ourIp : HusarnetAddress) (clock : ℤ)
    (configFile cacheFile : Bytes) : (start enableControlplane ourIp clock configFile cacheFile).AddressInv :=
  ⟨fun _ => rfl, fun h => absurd rfl h⟩

/-- **Base servers are tried in turn.** No call of `connectToBase` finds an empty list; and while the counts fit
an `int`, as many calls in a row as the list they find is long, without a message of the base between them,
take each of its positions once. -/
theorem base_servers_in_turn (T : JsonText) (S : Sodium) (enableControlplane : Bool) (ourIp : HusarnetAddress)
    (clock : ℤ) (configFile cacheFile : Bytes) {tr : List (DaemonEvent × Daemon)}
    (hr : IsRun (Step T S) (start enableControlplane ourIp clock configFile cacheFile) tr) :
    let run := transitions (start enableControlplane ourIp clock configFile cacheFile) tr
    (∀ a ∈ allAttempts run, a.addresses ≠ []) ∧
      ((allAttempts run).length < 2 ^ 31 → ∀ before round after addresses, run = before ++ round ++ after →
        (∀ x ∈ round, NoFrame x) → (∀ a ∈ allAttempts round, a.addresses = addresses) →
        (allAttempts round).length = addresses.length →
        ((allAttempts round).map Attempt.position).Perm (List.range addresses.length) ∧
          ∀ a ∈ allAttempts round, a.target = ⟨addresses.getD a.position default, BASESERVER_PORT⟩) := by
  intro run
  have hinv := addressInv_start enableControlplane ourIp clock configFile cacheFile
  refine ⟨fun a ha => ?_, fun hfew before round after addresses hrun hno hsame hlength => ?_⟩
  · obtain ⟨d, hi, hnode, rfl⟩ := mem_allAttempts hr hinv a ha
    exact hi.waited hnode
  -- the round is a run of its own
  obtain ⟨tr₁, tr₂, rfl, hfront, -⟩ := transitions_eq_append hrun
  obtain ⟨tr₀, tr₁, rfl, -, hround⟩ := transitions_eq_append hfront
  have hpart := ((isRun_append _ tr₀ tr₁).mp ((isRun_append _ _ tr₂).mp hr).1).2
  have hmem (a : Attempt) (ha : a ∈ allAttempts round) : a ∈ allAttempts run := by
    rw [hrun, allAttempts, List.flatMap_append, List.flatMap_append]
    exact List.mem_append_left _ (List.mem_append_right _ ha)
  have hposition (a : Attempt) (ha : a ∈ allAttempts round) :
      a.position = a.baseConnectRetries % addresses.length := by
    have hlt := baseConnectRetries_lt hr a (hmem a ha)
    have hzero : (start enableControlplane ourIp clock configFile cacheFile).baseConnectRetries = 0 := rfl
    rw [hzero, Nat.zero_add] at hlt
    rw [Attempt.position_eq (hlt.trans hfew), hsame a ha]
  constructor
  · have hcounts := map_baseConnectRetries hpart (hround.symm ▸ hno)
    rw [hround, hlength] at hcounts
    have hmap : (allAttempts round).map Attempt.position =
        ((allAttempts round).map Attempt.baseConnectRetries).map (· % addresses.length) := by
      rw [List.map_map]
      exact List.map_congr_left hposition
    rw [hmap, hcounts]
    exact CyclicCounter.map_mod_perm ..
  · intro a ha
    obtain ⟨d, -, -, rfl⟩ := mem_allAttempts hr hinv a (hmem a ha)
    rw [hposition _ ha, ← hsame _ ha]
    rfl

end Run

/-! ## Two base servers -/

/-- The daemon after an event, when that can happen. -/
def react (d : Daemon) : DaemonEvent → Except Unit Daemon
  | .config e => .ok { d with config := d.config.step T S e }
  | .start parts =>
    if d.config.cm.getBaseAddresses ≠ [] ∧ d.node.isNone then .ok { d with node := some (parts.node d.config.cm) }
    else .error ()
  | .node now e =>
    match d.node, e with
    | none, _ | _, .configChange _ => .error ()
    | some n, e =>
      match (seeing n d.config.cm).act S T now e with
      | .ok n' => .ok { d with node := some n' }
      | .error _ => .error ()

variable {T S} in
theorem Step.of_react {d d' : Daemon} {e : DaemonEvent} (h : d.react T S e = .ok d') : Step T S d e d' := by
  cases e with
  | config e =>
    cases h
    exact .config e
  | start parts =>
    rw [react] at h
    split at h
    · rename_i hcan
      cases h
      exact .start parts hcan.1 (Option.isNone_iff_eq_none.mp hcan.2)
    · cases h
  | node now e =>
    simp only [react] at h
    split at h
    · cases h
    · cases h
    · rename_i n hn hchange
      split at h
      · rename_i n' hact
        cases h
        exact .node now _ hn hchange hact
      · cases h

def twoServers : Json :=
  ConfigSystem.lateLicense.setMember LICENSE_BASE_SERVER_ADDRESSES_KEY
    (.array [.string (ascii "10.0.0.1"), .string (ascii "10.0.0.2")])

def twoServersText : JsonText where
  parse s := if s = ascii "license" then some twoServers else none
  dump _ := []

def trustingSodium : Sodium := { clearSodium with verifyDetached := fun _ _ _ => true }

def oneNode : NodeParts where
  identity := clearIdentity 1
  tape := countingTape
  myFlags := .new
  boot := 0
  userAgent := []
  workerQueueSize := 16
  sourcePort := 5582

/-- The thread downloads the licence, `waitInit` returns, and the base does not answer twice. -/
def unanswered : List DaemonEvent :=
  List.replicate 5 (.config (.thread ⟨200, ascii "license"⟩)) ++
    [.start oneNode, .node 10000 (.periodic []), .node 50000 (.periodic [])]

def unansweredRun : List (DaemonEvent × Daemon) :=
  Runs.attempts (react twoServersText trustingSodium) (start true .invalid 0 [] []) unanswered

theorem isRun_unansweredRun :
    IsRun (Step twoServersText trustingSodium) (start true .invalid 0 [] []) unansweredRun :=
  (isRun_attempts _ _ unanswered).imp fun _ _ h => .of_react h

theorem noFrame_unanswered : ∀ x ∈ transitions (start true .invalid 0 [] []) unansweredRun, NoFrame x := by
  intro x hx now data he
  have hlabel := label_mem_of_attempts hx
  rw [he] at hlabel
  simp [unanswered] at hlabel

theorem base_servers_in_turn_two :
    let round := (transitions (start true .invalid 0 [] []) unansweredRun).drop 6
    ((allAttempts round).map Attempt.position).Perm [0, 1] ∧
      ∀ a ∈ allAttempts round, a.addresses ≠ [] := by
  intro round
  obtain ⟨hfound, hturn⟩ := base_servers_in_turn _ _ _ _ _ _ _ isRun_unansweredRun
  have hrun : transitions (start true .invalid 0 [] []) unansweredRun =
      (transitions (start true .invalid 0 [] []) unansweredRun).take 6 ++ round ++ [] := by
    rw [List.append_nil, List.take_append_drop]
  have hround := hturn (by decide +kernel) _ round [] [.parse (ascii "10.0.0.1"), .parse (ascii "10.0.0.2")] hrun
    (fun x hx => noFrame_unanswered x (List.mem_of_mem_drop hx)) (by decide +kernel) (by decide +kernel)
  refine ⟨hround.1, fun a ha => ?_⟩
  refine hfound a ?_
  rw [hrun, allAttempts, List.append_nil, List.flatMap_append]
  exact List.mem_append_right _ ha

end Daemon
end Husarnet
