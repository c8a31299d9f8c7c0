import Mathlib.Data.List.AList
import Mathlib.Data.List.Sort
import AetherX.ConfigBuilder
import AetherX.Machine

/-! The catalog of the published nodes: the documents that it is made of, and the nodes that a client is
given. -/
namespace AetherX.Catalog
open ByteText ConfigBuilder List

structure CatalogNode extends NodeConfig where
  enabled : Bool
  clientCores : List Text

structure CatalogDocument where
  version : Text
  nodes : List CatalogNode

structure SubscriptionData where
  userId : Text

/- The types of the entries that the libraries find in a file, before it is printed. -/
structure Decoders (ε : Type) where
  yaml : List Doc × List Text → Except ε (List Text)
  json : List Doc → Except ε (List Text)

inductive CatalogError (ε : Type) where
  | versionRequired
  | noNodes
  | duplicateId (id : Text)
  | idRequired
  | invalid (id : Text) (err : NodeError)
  | allowListRequired (id : Text) (p : Protocol)
  | unsupportedCore (id core : Text)
  | unsupportedProtocol (id : Text) (p : Protocol) (core : Text)
  | noShareLink (id : Text)
  | invalidClash (id : Text) (err : ε)
  | clashProxies (id : Text) (count : Nat)
  | clashType (id found wanted : Text)
  | invalidSingbox (id : Text) (err : ε)
  | singboxOutbounds (id : Text) (count : Nat)
  | singboxType (id found wanted : Text)
  | noCompatibleNodes
  | identityRequired (id : Text)

variable {ε : Type}

def knownClientCore (core : Text) : Bool :=
  [text "sing-box",text "xray-core",text "clash-meta",text "shadowrocket",text "nekobox"].contains core

def coreSupportsProtocol (core : Text) (p : Protocol) : Bool :=
  !p.isNativeQuic || [text "sing-box",text "clash-meta",text "nekobox"].contains core

def coreFault (node : CatalogNode) (core : Text) : Option (CatalogError ε) :=
  if !knownClientCore core then some (.unsupportedCore node.id core)
  else if !coreSupportsProtocol core node.protocol then some (.unsupportedProtocol node.id node.protocol core)
  else none

/- One entry of the wanted type. -/
def checkEntry (invalid : ε → CatalogError ε) (count : Nat → CatalogError ε)
    (mismatch : Text → Text → CatalogError ε) (wanted : Text) : Except ε (List Text) → Except (CatalogError ε) Unit
  | .error err => .error (invalid err)
  | .ok [found] => if found=wanted then .ok () else .error (mismatch found wanted)
  | .ok found => .error (count found.length)

def validateNodeRenderability (d : Decoders ε) (node : CatalogNode) : Except (CatalogError ε) Unit :=
  let config : ProxyLinkConfig := ⟨text "catalog-validation",[],node.toNodeConfig⟩
  match buildProxyLink config with
  | .none => .error (.noShareLink node.id)
  | _ => do
    checkEntry (.invalidClash node.id) (.clashProxies node.id) (.clashType node.id) (clashProtocol node.protocol)
      (d.yaml (buildClashFromNodes [config]))
    checkEntry (.invalidSingbox node.id) (.singboxOutbounds node.id) (.singboxType node.id) node.protocol.id
      (d.json (buildSingboxFromNodes [config]))

def validateCatalogNode (d : Decoders ε) (node : CatalogNode) : Except (CatalogError ε) Unit :=
  if trimSpace node.id=[] then .error .idRequired
  else match validateNodeConfig node.toNodeConfig with
  | .error err => .error (.invalid node.id err)
  | .ok () =>
    if node.protocol.isNativeQuic ∧ node.clientCores=[] then .error (.allowListRequired node.id node.protocol)
    else match node.clientCores.findSome? (coreFault node) with
    | some err => .error err
    | none => validateNodeRenderability d node

/- The cores of a native protocol are named, and support it. -/
def CatalogNode.Compatible (node : CatalogNode) : Prop :=
  node.protocol.isNativeQuic=true →
    node.clientCores≠[] ∧ ∀ core∈node.clientCores, coreSupportsProtocol core node.protocol=true

theorem compatible_of_ok {d : Decoders ε} {node : CatalogNode} (h : validateCatalogNode d node = .ok ()) :
    node.Compatible := by
  intro hnative
  rw [validateCatalogNode] at h
  split at h
  · cases h
  split at h
  · cases h
  split_ifs at h with hallow
  split at h
  · cases h
  · rename_i hfault
    refine ⟨fun hnil => hallow ⟨hnative,hnil⟩,fun core hcore => ?_⟩
    have hnone := findSome?_eq_none_iff.mp hfault core hcore
    rw [coreFault] at hnone
    split_ifs at hnone with _ hsupports
    simpa using hsupports

/- Every node is under its own identifier. -/
structure NodeCatalog where
  version : Text
  nodes : AList fun _ : Text => CatalogNode
  published : ∀ id node, nodes.lookup id=some node → node.id=id ∧ node.Compatible

/- A map may be walked in any order. -/
structure KeyOrder where
  arrange : List Text → List Text
  perm : ∀ ids, (arrange ids).Perm ids

def allowsClientCore (allowed : List Text) (clientCore : Text) : Bool :=
  allowed=[] || allowed.contains clientCore

namespace NodeCatalog
variable {catalog : NodeCatalog}

theorem published_insert {node : CatalogNode} (h : node.Compatible) (id : Text) (node' : CatalogNode)
    (hlookup : (catalog.nodes.insert node.id node).lookup id=some node') : node'.id=id ∧ node'.Compatible := by
  by_cases hid : id=node.id
  · rw [hid,AList.lookup_insert,Option.some.injEq] at hlookup
    rw [hid,← hlookup]
    exact ⟨rfl,h⟩
  · rw [AList.lookup_insert_ne hid] at hlookup
    exact catalog.published id node' hlookup

def add (d : Decoders ε) (catalog : NodeCatalog) (node : CatalogNode) : Except (CatalogError ε) NodeCatalog :=
  match h : validateCatalogNode d node with
  | .error err => .error err
  | .ok () =>
    if node.id∈catalog.nodes then .error (.duplicateId node.id)
    else .ok ⟨catalog.version,catalog.nodes.insert node.id node,published_insert (compatible_of_ok h)⟩

def resolve (catalog : NodeCatalog) (nodeId clientCore : Text) : Except (CatalogError ε) NodeConfig :=
  match catalog.nodes.lookup nodeId with
  | some node =>
    if !node.enabled || !allowsClientCore node.clientCores clientCore then .error .noCompatibleNodes
    else .ok node.toNodeConfig
  | none => .error .noCompatibleNodes

end NodeCatalog

def newNodeCatalog (d : Decoders ε) (document : CatalogDocument) : Except (CatalogError ε) NodeCatalog :=
  if trimSpace document.version=[] then .error .versionRequired
  else if document.nodes=[] then .error .noNodes
  else document.nodes.foldlM (NodeCatalog.add d) ⟨document.version,∅,by simp⟩

def applySubscriptionIdentity (id : Text) (node : NodeConfig) (sub : Option SubscriptionData) :
    Except (CatalogError ε) NodeConfig :=
  if sub.all fun sub => trimSpace sub.userId=[] then .error (.identityRequired id) else .ok node

def appendConfig (catalog : NodeCatalog) (sub : Option SubscriptionData) (clientCore : Text)
    (configs : List ProxyLinkConfig) (id : Text) : Except (CatalogError ε) (List ProxyLinkConfig) :=
  match (catalog.resolve id clientCore : Except (CatalogError ε) NodeConfig) with
  | .error _ => .ok configs
  | .ok node => do
    let identity ← applySubscriptionIdentity id node sub
    .ok (configs++[⟨text "Aether-X " ++ id,text "sub",identity⟩])

def catalogConfigsFor (catalog : NodeCatalog) (order : KeyOrder) (sub : Option SubscriptionData) (clientCore : Text) :
    Except (CatalogError ε) (List ProxyLinkConfig) := do
  let ids := (order.arrange catalog.nodes.keys).insertionSort (· ≤ ·)
  let configs ← ids.foldlM (appendConfig catalog sub clientCore) []
  if configs.isEmpty then .error .noCompatibleNodes else .ok configs

section
variable {catalog : NodeCatalog} {sub : SubscriptionData} {clientCore : Text}

/- The nodes that a client may have. -/
def CatalogNode.Admits (clientCore : Text) (node : CatalogNode) : Prop :=
  node.enabled=true ∧ (node.clientCores=[] ∨ clientCore∈node.clientCores)

instance (node : CatalogNode) : Decidable (node.Admits clientCore) :=
  decidable_of_iff ((node.enabled && allowsClientCore node.clientCores clientCore)=true) (by
    simp [allowsClientCore,CatalogNode.Admits])

/-- The catalog of an accepted document holds its nodes, the last one first. -/
theorem entries_add {d : Decoders ε} {nodes : List CatalogNode} {start : NodeCatalog}
    (h : nodes.foldlM (NodeCatalog.add d) start = .ok catalog) :
    catalog.nodes.entries.map Sigma.snd=nodes.reverse++start.nodes.entries.map Sigma.snd := by
  induction nodes generalizing start with
  | nil =>
    cases h
    rfl
  | cons node nodes ih =>
    rw [foldlM_cons,Machine.bind_eq_ok] at h
    obtain ⟨next,hadd,h⟩ := h
    rw [ih h,reverse_cons,append_assoc]
    rw [NodeCatalog.add] at hadd
    split at hadd
    · cases hadd
    · split_ifs at hadd with hnew
      cases hadd
      rw [AList.entries_insert_of_notMem hnew]
      rfl

/- What a client is given of an entry. -/
def entryFor (clientCore : Text) (id : Text) (node : CatalogNode) : Option ProxyLinkConfig :=
  if node.Admits clientCore then some ⟨text "Aether-X " ++ id,text "sub",node.toNodeConfig⟩ else none

def configFor (catalog : NodeCatalog) (clientCore : Text) (id : Text) : Option ProxyLinkConfig :=
  (catalog.nodes.lookup id).bind (entryFor clientCore id)

theorem appendConfig_eq (huser : trimSpace sub.userId≠[]) (configs : List ProxyLinkConfig) (id : Text) :
    (appendConfig catalog (some sub) clientCore configs id : Except (CatalogError ε) _) =
      .ok (configs++(configFor catalog clientCore id).toList) := by
  rw [appendConfig,NodeCatalog.resolve,configFor]
  cases catalog.nodes.lookup id with
  | none => simp
  | some node =>
    have hrefuse : (!node.enabled || !allowsClientCore node.clientCores clientCore)=decide ¬node.Admits clientCore := by
      simp [allowsClientCore,CatalogNode.Admits]
    dsimp only [Option.bind_some]
    rw [hrefuse,entryFor]
    by_cases hadmits : node.Admits clientCore
    · rw [if_neg (by simpa using hadmits),if_pos hadmits]
      simp [applySubscriptionIdentity,huser,Bind.bind,Except.bind]
    · rw [if_pos (by simpa using hadmits),if_neg hadmits]
      simp

theorem foldlM_appendConfig (huser : trimSpace sub.userId≠[]) (ids : List Text) (configs : List ProxyLinkConfig) :
    (ids.foldlM (appendConfig catalog (some sub) clientCore) configs : Except (CatalogError ε) _) =
      .ok (configs++ids.filterMap (configFor catalog clientCore)) := by
  induction ids generalizing configs with
  | nil => simp [pure,Except.pure]
  | cons id ids ih =>
    rw [foldlM_cons,appendConfig_eq huser]
    exact (ih _).trans (by rw [append_assoc,filterMap_cons]; cases configFor catalog clientCore id <;> rfl)

theorem configFor_entries (catalog : NodeCatalog) (clientCore : Text) :
    catalog.nodes.keys.filterMap (configFor catalog clientCore) =
      catalog.nodes.entries.filterMap fun e => entryFor clientCore e.1 e.2 := by
  rw [AList.keys,List.keys,filterMap_map]
  refine filterMap_congr fun e he => ?_
  have hlookup := AList.mem_lookup_iff.mpr he
  rw [Function.comp_apply,configFor,hlookup,Option.bind_some]

theorem map_node_entries (clientCore : Text) (entries : List (Sigma fun _ : Text => CatalogNode)) :
    (entries.filterMap fun e => entryFor clientCore e.1 e.2).map ProxyLinkConfig.node =
      ((entries.map Sigma.snd).filter (CatalogNode.Admits clientCore)).map CatalogNode.toNodeConfig := by
  induction entries with
  | nil => rfl
  | cons e entries ih =>
    rw [map_cons,filterMap_cons,filter_cons,entryFor]
    by_cases hadmits : e.2.Admits clientCore <;> simp [hadmits,ih]

theorem configFor_eq_some {id : Text} {cfg : ProxyLinkConfig} (h : configFor catalog clientCore id=some cfg) :
    ∃ node, cfg.node=CatalogNode.toNodeConfig node ∧ node.id=id ∧ node.Compatible ∧ node.Admits clientCore := by
  obtain ⟨node,hlookup,hentry⟩ := Option.bind_eq_some_iff.mp h
  obtain ⟨hid,hcompatible⟩ := catalog.published id node hlookup
  rw [entryFor] at hentry
  split_ifs at hentry with hadmits
  cases hentry
  exact ⟨node,rfl,hid,hcompatible,hadmits⟩

theorem pairwise_configFor {ids : List Text} (h : ids.Pairwise (· < ·)) :
    ((ids.filterMap (configFor catalog clientCore)).map fun cfg => cfg.node.id).Pairwise (· < ·) := by
  rw [pairwise_map]
  refine h.filterMap _ fun id id' hlt cfg hcfg cfg' hcfg' => ?_
  obtain ⟨node,hnode,hid,_,_⟩ := configFor_eq_some hcfg
  obtain ⟨node',hnode',hid',_,_⟩ := configFor_eq_some hcfg'
  rwa [hnode,hnode',hid,hid']

theorem CatalogNode.Compatible.supports {node : CatalogNode} (h : node.Compatible) (hadmits : node.Admits clientCore)
    (hnative : node.protocol.isNativeQuic=true) :
    clientCore∈[text "sing-box",text "clash-meta",text "nekobox"] := by
  obtain ⟨hne,hcores⟩ := h hnative
  have hcore := hcores clientCore (hadmits.2.resolve_left hne)
  rw [coreSupportsProtocol,hnative] at hcore
  exact contains_iff_mem.mp hcore

theorem pairwise_sorted {ids : List Text} (h : ids.Nodup) : (ids.insertionSort (· ≤ ·)).Pairwise (· < ·) := by
  have hle := pairwise_insertionSort (· ≤ ·) ids
  have hne : (ids.insertionSort (· ≤ ·)).Nodup := (perm_insertionSort _ ids).nodup_iff.mpr h
  exact (hle.and hne).imp fun h => Std.lt_of_le_of_ne h.1 h.2

/-- A client is given the enabled nodes of the document that its core is allowed, in the order of their identifiers. -/
theorem catalog_policy {d : Decoders ε} {document : CatalogDocument} (haccepted : newNodeCatalog d document = .ok catalog)
    (order : KeyOrder) (sub : SubscriptionData) (huser : trimSpace sub.userId≠[]) (clientCore : Text) :
    let admitted := document.nodes.filter fun node =>
      node.enabled ∧ (node.clientCores=[] ∨ clientCore∈node.clientCores)
    match (catalogConfigsFor catalog order (some sub) clientCore : Except (CatalogError ε) _) with
    | .ok configs =>
      (configs.map ProxyLinkConfig.node).Perm (admitted.map CatalogNode.toNodeConfig) ∧
        (configs.map fun cfg => cfg.node.id).Pairwise (· < ·) ∧
        ∀ cfg∈configs, cfg.node.protocol = .hysteria2 ∨ cfg.node.protocol = .tuic →
          clientCore∈[text "sing-box",text "clash-meta",text "nekobox"]
    | .error err => err = .noCompatibleNodes ∧ admitted=[] := by
  intro admitted
  have hentries : catalog.nodes.entries.map Sigma.snd=document.nodes.reverse := by
    rw [newNodeCatalog] at haccepted
    split_ifs at haccepted
    rw [entries_add haccepted]
    exact append_nil _
  have hids := (perm_insertionSort (· ≤ ·) (order.arrange catalog.nodes.keys)).trans (order.perm _)
  have hlt := pairwise_sorted ((order.perm _).nodup_iff.mpr catalog.nodes.keys_nodup)
  rw [catalogConfigsFor,foldlM_appendConfig huser,nil_append]
  generalize (order.arrange catalog.nodes.keys).insertionSort (· ≤ ·)=ids at hids hlt ⊢
  have hperm : ((ids.filterMap (configFor catalog clientCore)).map ProxyLinkConfig.node).Perm
      (admitted.map CatalogNode.toNodeConfig) := by
    have hconfigs := (hids.filterMap (configFor catalog clientCore)).map ProxyLinkConfig.node
    rw [configFor_entries,map_node_entries,hentries] at hconfigs
    have hadmitted : document.nodes.filter (CatalogNode.Admits clientCore)=admitted :=
      filter_congr fun node _ => decide_eq_decide.mpr Iff.rfl
    rw [← hadmitted]
    exact hconfigs.trans (((reverse_perm _).filter _).map _)
  rw [Machine.bind_ok]
  split_ifs with hempty
  · rw [isEmpty_iff.mp hempty,map_nil] at hperm
    exact ⟨rfl,map_eq_nil_iff.mp hperm.nil_eq.symm⟩
  · refine ⟨hperm,pairwise_configFor hlt,fun cfg hcfg hnative => ?_⟩
    obtain ⟨id,_,hid⟩ := mem_filterMap.mp hcfg
    obtain ⟨node,hnode,_,hcompatible,hadmits⟩ := configFor_eq_some hid
    refine hcompatible.supports hadmits ?_
    rw [hnode] at hnative
    simpa [Protocol.isNativeQuic] using hnative

def entryType (doc : Doc) : Option Text :=
  doc.findSome? fun field => match field with
    | ("type", .str s) => some s
    | _ => none

def declaredTypes : Decoders Empty where
  yaml file := .ok (file.1.filterMap entryType)
  json docs := .ok (docs.filterMap entryType)

def twoNodes : CatalogDocument where
  version := text "1"
  nodes := [
    { id := text "b", address := text "b.net", port := 443, protocol := .hysteria2, password := text "secret",
      transport := .quic, upMbps := 10, downMbps := 10, enabled := true, clientCores := [text "sing-box"] },
    { id := text "a", address := text "a.net", port := 443, protocol := .trojan, password := text "secret",
      transport := .tcp, enabled := true, clientCores := [] }]

theorem isOk_twoNodes : (newNodeCatalog declaredTypes twoNodes).isOk=true := by
  decide +kernel

/-- A core that no native node names gets the other node alone. -/
theorem catalog_policy_two_nodes : ∃ catalog : NodeCatalog, newNodeCatalog declaredTypes twoNodes = .ok catalog ∧
    match (catalogConfigsFor catalog ⟨id,Perm.refl⟩ (some ⟨text "user"⟩) (text "unknown") :
      Except (CatalogError Empty) _) with
    | .ok configs => configs.map (fun cfg => cfg.node.id)=[text "a"]
    | .error _ => False := by
  have hok := isOk_twoNodes
  cases hcatalog : newNodeCatalog declaredTypes twoNodes with
  | error err =>
    rw [hcatalog] at hok
    cases hok
  | ok catalog =>
    refine ⟨catalog,rfl,?_⟩
    have hpolicy := catalog_policy hcatalog ⟨id,Perm.refl⟩ ⟨text "user"⟩ (by decide) (text "unknown")
    generalize (catalogConfigsFor catalog _ _ _ : Except (CatalogError Empty) _)=result at hpolicy ⊢
    cases result with
    | error err => exact absurd hpolicy.2 (by decide)
    | ok configs =>
      have hperm := hpolicy.1.map NodeConfig.id
      rw [map_map] at hperm
      exact perm_singleton.mp hperm
end

end AetherX.Catalog
