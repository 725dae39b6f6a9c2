import Husarnet.Config.AccessDecisions
import Husarnet.Config.FetchGetConfig

/-! # Names in the hosts file

An update inserts the names of the peers in the order of the payload, and its own name at last. An
insertion keeps the entry that is there, so the first peer with a name gets it, the name
`husarnet-local` included.
-/

namespace Husarnet
open Octets JsonDoc Containers StateProgram
set_option autoImplicit false

def LOCAL_NAME : Bytes := ascii "husarnet-local"

namespace PeerInfo

/-- The names that a peer declares. -/
def names (info : PeerInfo) : List Bytes := info.hostname :: info.aliases

def firstWith (infos : List PeerInfo) (name : Bytes) : Option PeerInfo := infos.find? fun info => name ∈ info.names

def hostsEntries (infos : List PeerInfo) : List (Bytes × HusarnetAddress) :=
  infos.foldl (fun entries info => info.addNames entries) []

theorem get?_addNames (info : PeerInfo) (entries : List (Bytes × HusarnetAddress)) (name : Bytes) :
    get? (info.addNames entries) name =
      (get? entries name).or (if name ∈ info.names then some info.addr else none) := by
  have hall := get?_foldl_insertNew entries info.names name info.addr
  by_cases hname : name ∈ info.names
  · rw [if_pos hname] at hall ⊢
    exact hall
  · rw [if_neg hname] at hall ⊢
    exact hall

/-- A name is that of the first peer that declares it. -/
theorem get?_foldl_addNames (infos : List PeerInfo) (entries : List (Bytes × HusarnetAddress)) (name : Bytes) :
    get? (infos.foldl (fun entries info => info.addNames entries) entries) name =
      (get? entries name).or ((firstWith infos name).map addr) := by
  induction infos generalizing entries with
  | nil => simp [firstWith]
  | cons info infos ih =>
    rw [List.foldl_cons, ih, get?_addNames, Option.or_assoc]
    by_cases hname : name ∈ info.names
    · rw [if_pos hname, Option.some_or, firstWith, List.find?_cons_of_pos (by simpa using hname), Option.map_some]
    · rw [if_neg hname, Option.none_or, firstWith, firstWith, List.find?_cons_of_neg (by simpa using hname)]

theorem get?_hostsEntries (infos : List PeerInfo) (name : Bytes) :
    get? (hostsEntries infos) name = (firstWith infos name).map addr := get?_foldl_addNames infos [] name

end PeerInfo

/-- The peers of a payload, as far as they are read. -/
def declaredPeers (latestConfig : Json) : List PeerInfo := PeerInfo.readPrefix ((peerEntries latestConfig).getD [])

namespace ConfigManager

theorem updatePeerInfos_entries {hostsEntries entries : List (Bytes × HusarnetAddress)} {peerInfos : List Json}
    {cm cm' : ConfigManager} (h : updatePeerInfos hostsEntries peerInfos cm = .ok entries cm') :
    entries = (PeerInfo.readPrefix peerInfos).foldl (fun entries info => info.addNames entries) hostsEntries := by
  induction peerInfos generalizing hostsEntries cm with
  | nil =>
    cases h
    rfl
  | cons peerInfo peerInfos ih =>
    obtain ⟨entries₁, cm₁, hone, hrest⟩ := bind_eq_ok.mp h
    rw [PeerInfo.readPrefix]
    cases hread : PeerInfo.read peerInfo with
    | ok info =>
      rw [updatePeerInfo_ok hread] at hone
      cases hone
      exact ih hrest
    | error fault =>
      rw [updatePeerInfo_error hread] at hone
      cases hone

/-- The entries that an update makes of the peers, and the own address, which it leaves alone. -/
theorem updateHostsEntries_ok {latestConfig : Json} {entries : List (Bytes × HusarnetAddress)}
    {cm cm' : ConfigManager} (h : updateHostsEntries latestConfig cm = .ok entries cm') :
    entries = PeerInfo.hostsEntries (declaredPeers latestConfig) := by
  rw [updateHostsEntries_eq] at h
  rw [declaredPeers]
  cases hpeers : peerEntries latestConfig with
  | none =>
    rw [hpeers] at h
    cases h
    rfl
  | some peers =>
    rw [hpeers] at h
    dsimp only at h
    rw [updateFromPeers_eq] at h
    obtain ⟨_, cm₁, -, hinfos⟩ := bind_eq_ok.mp h
    exact updatePeerInfos_entries hinfos

/-- The map that an update hands to `updateHostsFile`, when it gets there. -/
def handedHosts (cm : ConfigManager) : Option (List (Bytes × HusarnetAddress)) :=
  match updateGetConfigData cm with
  | .ok _ cm' => cm'.hostsFile
  | .error _ _ => none

/-- An update gets there for every payload that it reads to its end. -/
theorem handedHosts_eq (cm : ConfigManager) :
    cm.handedHosts =
      if peerEntries cm.cachedPayload = none ∨ wellFormedPayload cm.cachedPayload = true then
        some (insertNew (PeerInfo.hostsEntries (declaredPeers cm.cachedPayload)) LOCAL_NAME cm.ourIp)
      else none := by
  have hreturns := (updateGetConfigData_spec cm).2
  by_cases hread : peerEntries cm.cachedPayload = none ∨ wellFormedPayload cm.cachedPayload = true
  · obtain ⟨cm', hrun⟩ := hreturns.mpr hread
    rw [if_pos hread, handedHosts, hrun]
    obtain ⟨j, hmember⟩ := cacheMember_eq CACHE_KEY_GETCONFIG cm
    obtain ⟨_, _, hcache, hrest⟩ := bind_eq_ok.mp hrun
    rw [hmember] at hcache
    cases hcache
    obtain ⟨entries, cm₁, hentries, hlast⟩ := bind_eq_ok.mp hrest
    have hframe := frame_updateHostsEntries ((cm.cacheJson.find? CACHE_KEY_GETCONFIG).getD .null)
      { cm with cacheJson := j }
    have hip : cm₁.ourIp = cm.ourIp := by
      rw [after_ok hentries] at hframe
      exact congrArg (fun v => v.2.2.1) hframe
    have hmap := updateHostsEntries_ok hentries
    rw [← cachedPayload] at hmap
    cases hlast
    rw [← hmap, ← hip]
    simp [hostsFile, hostsData, List.filterMap_append, LOCAL_NAME]
  · rw [if_neg hread, handedHosts]
    cases hrun : updateGetConfigData cm with
    | ok u cm' => exact absurd (hreturns.mp ⟨cm', hrun⟩) hread
    | error fault cm' => rfl

/-- Where a name should point: the reserved one to the node, every other one to the first peer that
declares it. -/
def hostsTarget (ourIp : HusarnetAddress) (infos : List PeerInfo) (name : Bytes) : Option HusarnetAddress :=
  if name = LOCAL_NAME then some ourIp else (PeerInfo.firstWith infos name).map PeerInfo.addr

/-- Every name of the map that an update hands to `updateHostsFile` points where it should. -/
def HostsPointRight (cm : ConfigManager) : Prop :=
  ∀ data, cm.handedHosts = some data →
    ∀ name, get? data name = hostsTarget cm.ourIp (declaredPeers cm.cachedPayload) name

theorem get?_handed (ourIp : HusarnetAddress) (infos : List PeerInfo) (name : Bytes) :
    get? (insertNew (PeerInfo.hostsEntries infos) LOCAL_NAME ourIp) name =
      ((PeerInfo.firstWith infos name).map PeerInfo.addr).or (if name = LOCAL_NAME then some ourIp else none) := by
  rw [get?_insertNew, PeerInfo.get?_hostsEntries]

/-- **Names in the hosts file.** For every payload: a name other than the reserved one points to the
first peer that declares it, and all names point where they should if and only if the first peer that
declares the reserved name, if there is one, has the node's own address. -/
theorem hosts_point_right_iff (cm : ConfigManager) :
    (∀ data, cm.handedHosts = some data → ∀ name, name ≠ LOCAL_NAME →
      get? data name = hostsTarget cm.ourIp (declaredPeers cm.cachedPayload) name) ∧
    (cm.HostsPointRight ↔ (wellFormedPayload cm.cachedPayload = true →
      ∀ info, PeerInfo.firstWith (declaredPeers cm.cachedPayload) LOCAL_NAME = some info → info.addr = cm.ourIp)) := by
  have hother : ∀ data, cm.handedHosts = some data → ∀ name, name ≠ LOCAL_NAME →
      get? data name = hostsTarget cm.ourIp (declaredPeers cm.cachedPayload) name := by
    intro data hdata name hname
    rw [handedHosts_eq] at hdata
    split at hdata
    · cases hdata
      rw [get?_handed, hostsTarget, if_neg hname, if_neg hname, Option.or_none]
    · cases hdata
  refine ⟨hother, fun h hwell info hinfo => ?_, fun h data hdata name => ?_⟩
  · have hhanded := cm.handedHosts_eq
    rw [if_pos (Or.inr hwell)] at hhanded
    have hlocal := h _ hhanded LOCAL_NAME
    rw [get?_handed, hostsTarget, hinfo, if_pos rfl, if_pos rfl, Option.map_some, Option.some_or] at hlocal
    exact Option.some.inj hlocal
  · by_cases hname : name = LOCAL_NAME
    · subst hname
      rw [handedHosts_eq] at hdata
      split at hdata
      · rename_i hread
        cases hdata
        rw [get?_handed, hostsTarget, if_pos rfl, if_pos rfl]
        cases hfirst : PeerInfo.firstWith (declaredPeers cm.cachedPayload) LOCAL_NAME with
        | none => rfl
        | some info =>
          -- a payload without a peer list declares no name
          have hwell : wellFormedPayload cm.cachedPayload = true := by
            refine hread.resolve_left fun hnone => ?_
            rw [declaredPeers, hnone] at hfirst
            cases hfirst
          rw [Option.map_some, Option.some_or, h hwell info hfirst]
      · cases hdata
    · exact hother data hdata name hname

/-- A peer with the reserved name gets it. -/
theorem local_name_taken :
    ¬ ((ConfigManager.new true (.parse (ascii "fc94::1")) 0 [] []).withPayload
      (AccessUpdate.payloadOf [⟨ascii "fc94::2", LOCAL_NAME, []⟩]).json).HostsPointRight := by
  intro h
  have htaken := h [(LOCAL_NAME, .parse (ascii "fc94::2"))] (by decide +kernel) LOCAL_NAME
  revert htaken
  decide +kernel

end ConfigManager
end Husarnet
