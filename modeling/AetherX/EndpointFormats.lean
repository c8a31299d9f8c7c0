import AetherX.ShareLink

/-! Whether the three renderings of a node lead a client to the same endpoint. A rendering is read
as its format defines it: the type http of a link and of sing-box stands for HTTP/2, the network http
of Clash for HTTP/1.1, and an outbound without a transport is a plain stream. -/
namespace AetherX.EndpointFormats
open ByteText NetAddr Url ConfigBuilder ShareLink List

/- No kind is given where the protocol brings its own transport. -/
structure Stream where
  kind : Option Transport
  path : Text
  host : Text
  serviceName : Text
  deriving DecidableEq

structure Endpoint where
  server : Text
  port : Int
  credential : Credential
  serverName : Option Text
  stream : Stream
  deriving DecidableEq

def Stream.native : Stream := ⟨none,[],[],[]⟩

/- Of a path, a host and a service only what the transport carries counts. -/
def carried (kind : Transport) (path host serviceName : Text) : Stream where
  kind := some kind
  path := if kind.needsPath then path else []
  host := if kind.needsHost then host else []
  serviceName := if kind.needsService then serviceName else []

def transports : List Transport := [.xhttp,.httpupgrade,.quic,.grpc,.h2,.ws,.kcp,.http,.tcp,.raw,.meek]

def ofId (s : Text) : Transport := (transports.find? fun t => t.id=s).getD (.other s)

/- The names that links and sing-box use. -/
def wireKind (s : Text) : Transport := if s=[] then .tcp else if s=text "http" then .h2 else ofId s

def isNative (type : Text) : Bool := type=text "hysteria2" || type=text "tuic"

def uriServerName (scheme : Text) (values : Values) : Option Text :=
  if isNative scheme ∨ values.get (text "security")=text "tls" then some (values.get (text "sni")) else none

def uriStream (scheme : Text) (values : Values) : Stream :=
  if isNative scheme then .native
  else carried (wireKind (values.get (text "type"))) (values.get (text "path")) (values.get (text "host"))
    (values.get (text "serviceName"))

def readUriEndpoint (s : Text) : Option Endpoint := do
  let uri ← parse s
  let userinfo ← uri.userinfo
  let cred ← readCredential uri.scheme userinfo
  let port ← uri.port
  let values ← parseQuery (uri.query.getD [])
  some ⟨uri.host.text,port,cred,uriServerName uri.scheme values,uriStream uri.scheme values⟩

def findText (doc : Doc) (key : String) : Option Text :=
  match doc.lookup key with
  | some (.str s) => some s
  | some (.seq (s::_)) => some s
  | _ => none

def findInt (doc : Doc) (key : String) : Option Int :=
  match doc.lookup key with
  | some (.int n) => some n
  | _ => none

def findMap (doc : Doc) (key : String) : Doc :=
  match doc.lookup key with
  | some (.map fields) => fields
  | _ => []

def isSet (doc : Doc) (key : String) : Bool :=
  match doc.lookup key with
  | some (.bool b) => b
  | _ => false

/- The service name of a vmess object stands in place of its path. -/
def readVmess (doc : Doc) : Option Endpoint := do
  let server ← findText doc "add"
  let port ← (findText doc "port").bind parseDecimal
  let uuid ← findText doc "id"
  let net ← findText doc "net"
  let path := (findText doc "path").getD []
  let serverName := if findText doc "tls" = some (text "tls") then findText doc "sni" else none
  some ⟨server,port,.uuid uuid,serverName,
    carried (wireKind net) path ((findText doc "host").getD []) path⟩

def readShared : Link → Option Endpoint
  | .none => none
  | .uri s => readUriEndpoint s
  | .vmess doc => readVmess doc

def docCredential (type : Text) (cipher : String) (doc : Doc) : Option Credential :=
  if type=text "vless" ∨ type=text "vmess" then (findText doc "uuid").map .uuid
  else if type=text "trojan" ∨ type=text "hysteria2" then (findText doc "password").map .password
  else if type=text "ss" ∨ type=text "shadowsocks" then do
    let method ← findText doc cipher
    let password ← findText doc "password"
    some (.cipher method password)
  else if type=text "tuic" then do
    let uuid ← findText doc "uuid"
    let password ← findText doc "password"
    some (.account uuid password)
  else none

/- The options of a transport: a host stands among the headers of ws and http. -/
def optionStream (kind : Transport) (service : String) (options : Doc) : Stream :=
  let host := match kind with
    | .ws | .http => findText (findMap options "headers") "Host"
    | _ => findText options "host"
  carried kind ((findText options "path").getD []) (host.getD []) ((findText options service).getD [])

def clashOptions (kind : Transport) (doc : Doc) : Doc :=
  match kind with
  | .ws => findMap doc "ws-opts"
  | .grpc => findMap doc "grpc-opts"
  | .h2 => findMap doc "h2-opts"
  | .http => findMap doc "http-opts"
  | .kcp => findMap doc "kcp-opts"
  | .httpupgrade => findMap doc "httpupgrade-opts"
  | .xhttp => findMap doc "xhttp-opts"
  | .quic => findMap doc "quic-opts"
  | _ => []

def readClash (doc : Doc) : Option Endpoint := do
  let type ← findText doc "type"
  let server ← findText doc "server"
  let port ← findInt doc "port"
  let cred ← docCredential type "cipher" doc
  if isNative type then some ⟨server,port,cred,findText doc "sni",.native⟩
  else
    let network ← findText doc "network"
    let kind := ofId network
    some ⟨server,port,cred,if isSet doc "tls" then findText doc "server-name" else none,
      optionStream kind "grpc-service-name" (clashOptions kind doc)⟩

def transportStream (transport : Doc) : Stream :=
  optionStream (wireKind ((findText transport "type").getD [])) "service_name" transport

def readSingbox (doc : Doc) : Option Endpoint := do
  let type ← findText doc "type"
  let server ← findText doc "server"
  let port ← findInt doc "server_port"
  let cred ← docCredential type "method" doc
  let tls := findMap doc "tls"
  some ⟨server,port,cred,if isSet tls "enabled" then findText tls "server_name" else none,
    if isNative type then .native else transportStream (findMap doc "transport")⟩

section
variable {n : NodeConfig}

def defaultService (n : NodeConfig) : Text := ifEmpty n.serviceName (text "GunService")

/- What the readers of Clash and of sing-box find, unless the protocol is its own transport. -/
def clashStream (n : NodeConfig) : Stream :=
  match n.transport with
  | .meek => carried .meek [] [] []
  | .raw => carried .tcp [] [] []
  | t => carried t (ifEmpty n.path (text "/sub")) (ifEmpty n.host n.sni) (defaultService n)

def singboxStream (n : NodeConfig) : Stream :=
  match n.transport with
  | .raw | .meek => carried .tcp [] [] []
  | .quic => carried .quic [] [] []
  | .http => carried .h2 (ifEmpty n.path (text "/sub")) (ifEmpty n.host n.sni) []
  | t => carried t (ifEmpty n.path (text "/sub")) (ifEmpty n.host n.sni) (defaultService n)

variable {key : String}

theorem lookup_append_of_not_mem {head doc : Doc} (h : key∉head.map Prod.fst) :
    (head++doc).lookup key=doc.lookup key := by
  have hnone : head.lookup key=none := by
    rw [lookup_eq_none_iff]
    intro kv hkv
    rw [bne_iff_ne]
    rintro rfl
    exact h (mem_map_of_mem hkv)
  rw [lookup_append,hnone,Option.none_or]

def clashKeys : List String :=
  ["name", "type", "server", "port", "uuid", "flow", "password", "cipher", "network", "tls", "server-name", "udp"]

theorem clashProxy_eq_append (hnative : n.protocol.isNativeQuic=false) (name : Text) :
    ∃ head : Doc, clashProxy name n=head++clashTransport n ∧ head.map Prod.fst ⊆ clashKeys := by
  have hcredential : (clashCredential n).map Prod.fst ⊆ clashKeys := by
    rw [clashCredential]
    split
    · split_ifs <;> simp [clashKeys]
    all_goals simp [clashKeys]
  refine ⟨_,by rw [clashProxy,hnative,if_neg (by decide),← cons_append],?_⟩
  simp only [map_cons,map_append,map_nil,cons_append,nil_append,cons_subset,
    append_subset]
  exact ⟨by decide,by decide,by decide,by decide,hcredential,by decide⟩

theorem clashOptions_clashProxy (hnative : n.protocol.isNativeQuic=false) (name : Text) (kind : Transport) :
    clashOptions kind (clashProxy name n)=clashOptions kind (clashTransport n) := by
  obtain ⟨head,hproxy,hkeys⟩ := clashProxy_eq_append hnative name
  have hfind : ∀ key, key∉clashKeys → findMap (clashProxy name n) key=findMap (clashTransport n) key := by
    intro key hkey
    rw [findMap,hproxy,lookup_append_of_not_mem fun hmem => hkey (hkeys hmem),findMap]
  cases kind <;> first | rfl | exact hfind _ (by decide)

theorem ofId_clashNetwork {t : Transport} (h : t.isValid=true) :
    ofId (clashNetwork t)=if t = .raw then .tcp else t := by
  cases t <;> first | rfl | cases h

theorem wireKind_transportShareType {t : Transport} (h : t.isValid=true) :
    wireKind (transportShareType t)=if t = .raw then .tcp else if t = .http then .h2 else t := by
  cases t <;> first | rfl | cases h

theorem optionStream_clashTransport (htransport : n.transport.isValid=true) :
    optionStream (ofId (clashNetwork n.transport)) "grpc-service-name"
      (clashOptions (ofId (clashNetwork n.transport)) (clashTransport n))=clashStream n := by
  rw [ofId_clashNetwork htransport]
  cases h : n.transport <;>
    simp [h,optionStream,clashOptions,clashTransport,clashStream,findMap,findText,lookup_cons,carried,
      Transport.needsPath,Transport.needsHost,Transport.needsService,defaultService]

theorem readClash_clashProxy (haccepted : Accepted n) (name : Text) :
    readClash (clashProxy name n)=(credential n).map fun cred =>
      ⟨n.address,n.port,cred,some (serverName n),if n.protocol.isNativeQuic then .native else clashStream n⟩ := by
  cases hnative : n.protocol.isNativeQuic with
  | false =>
    simp only [readClash,clashOptions_clashProxy hnative]
    have hprotocol := haccepted.protocol
    have hstream := optionStream_clashTransport haccepted.transport
    cases h : n.protocol with
    | vless =>
      by_cases hflow : n.flow=[] <;>
        simp +decide [clashProxy,clashCredential,clashProtocol,credential,docCredential,isNative,findText,findInt,
          isSet,lookup_cons,Protocol.id,Protocol.isNativeQuic,h,hflow,hstream]
    | vmess | trojan | shadowsocks =>
      simp +decide [clashProxy,clashCredential,clashProtocol,credential,docCredential,isNative,findText,findInt,
        isSet,lookup_cons,Protocol.id,Protocol.isNativeQuic,h,hstream]
    | hysteria2 | tuic | other =>
      rw [h] at hnative hprotocol
      cases hnative <;> cases hprotocol
  | true =>
    cases h : n.protocol with
    | hysteria2 | tuic =>
      simp +decide [readClash,clashProxy,clashNativeQuicProxy,credential,docCredential,isNative,findText,findInt,
        lookup_cons,Protocol.id,Protocol.isNativeQuic,h]
    | vless | vmess | trojan | shadowsocks | other =>
      rw [h] at hnative
      cases hnative

def singboxKeys : List String :=
  ["type", "tag", "server", "server_port", "uuid", "password", "method", "flow", "up_mbps", "down_mbps",
    "congestion_control", "udp_relay_mode"]

variable {keys : List String}

theorem keys_ite {p : Prop} [Decidable p] {doc : Doc} (h : doc.map Prod.fst ⊆ keys) :
    (if p then doc else []).map Prod.fst ⊆ keys := by
  split_ifs
  · exact h
  · exact nil_subset keys

theorem keys_omitEmpty (h : key∈keys) (s : Text) : (omitEmpty key s).map Prod.fst ⊆ keys := by
  rw [omitEmpty]
  split_ifs <;> simp [h]

theorem keys_omitZero (h : key∈keys) (v : Int) : (omitZero key v).map Prod.fst ⊆ keys := by
  rw [omitZero]
  split_ifs <;> simp [h]

theorem singboxOutbound_eq_append (tag : Text) :
    ∃ head : Doc, singboxOutbound tag n=head ++
        (((singboxTransport n).map fun doc => [("transport", Value.map doc)]).getD [] ++
          [("tls", Value.map (singboxTls n))]) ∧
      head.map Prod.fst ⊆ singboxKeys := by
  refine ⟨_,by rw [singboxOutbound,append_assoc],?_⟩
  simp only [map_append,append_subset]
  refine ⟨⟨⟨⟨⟨⟨?_,?_⟩,?_⟩,?_⟩,?_⟩,?_⟩,?_⟩
  · simp [singboxKeys]
  · exact keys_ite (keys_omitEmpty (by decide) _)
  · exact keys_ite (keys_omitEmpty (by decide) _)
  · exact keys_ite (keys_omitEmpty (by decide) _)
  · exact keys_ite (keys_omitEmpty (by decide) _)
  · refine keys_ite ?_
    rw [map_append,append_subset]
    exact ⟨keys_omitZero (by decide) _,keys_omitZero (by decide) _⟩
  · refine keys_ite ?_
    rw [map_append,append_subset]
    exact ⟨keys_omitEmpty (by decide) _,keys_omitEmpty (by decide) _⟩

theorem findMap_transport (tag : Text) :
    findMap (singboxOutbound tag n) "transport" = (singboxTransport n).getD [] := by
  obtain ⟨head,houtbound,hkeys⟩ := singboxOutbound_eq_append tag
  rw [findMap,houtbound,lookup_append_of_not_mem fun hmem => absurd (hkeys hmem) (by decide)]
  cases singboxTransport n with
  | none => simp [lookup_cons]
  | some doc => simp

theorem findMap_tls (tag : Text) : findMap (singboxOutbound tag n) "tls" = singboxTls n := by
  obtain ⟨head,houtbound,hkeys⟩ := singboxOutbound_eq_append tag
  rw [findMap,houtbound,lookup_append_of_not_mem fun hmem => absurd (hkeys hmem) (by decide)]
  cases singboxTransport n with
  | none => simp
  | some doc => simp [lookup_cons]

theorem transportStream_singboxTransport (htransport : n.transport.isValid=true)
    (hnative : n.protocol.isNativeQuic=false) :
    transportStream ((singboxTransport n).getD [])=singboxStream n := by
  cases h : n.transport with
  | other name =>
    rw [h] at htransport
    cases htransport
  | _ =>
    simp +decide [h,hnative,transportStream,optionStream,singboxTransport,singboxStream,findMap,findText,
      lookup_cons,carried,wireKind,ofId,transports,Transport.id,Transport.needsPath,Transport.needsHost,Transport.needsService,
      defaultService]

theorem shadowsocksMethod_ne_nil : shadowsocksMethod n≠[] := by
  rw [shadowsocksMethod,ifEmpty]
  split_ifs with h
  · decide
  · exact h

theorem readSingbox_singboxOutbound (haccepted : Accepted n) (tag : Text) :
    readSingbox (singboxOutbound tag n)=(credential n).map fun cred =>
      ⟨n.address,n.port,cred,some (serverName n),if n.protocol.isNativeQuic then .native else singboxStream n⟩ := by
  have hprotocol := haccepted.protocol
  have huuid := haccepted.uuid
  have hpassword := haccepted.password
  have hstream := transportStream_singboxTransport haccepted.transport
  simp only [readSingbox,findMap_transport,findMap_tls]
  cases h : n.protocol with
  | other name =>
    rw [h] at hprotocol
    cases hprotocol
  | _ =>
    simp only [h] at huuid hpassword hstream
    simp +decide [singboxOutbound,singboxTls,credential,docCredential,isNative,findText,findInt,isSet,lookup_cons,
      Protocol.id,Protocol.isNativeQuic,omitEmpty,h,hstream,huuid,hpassword,shadowsocksMethod_ne_nil]
end

section
variable {cfg : ProxyLinkConfig} {n : NodeConfig} {values : Values}

/- What stands for an empty path in a link. -/
def defaultPath (cfg : ProxyLinkConfig) : Text :=
  ch '/' :: if cfg.node.protocol = .vmess then cfg.fragPath else cfg.node.id

def linkStream (cfg : ProxyLinkConfig) : Stream :=
  carried (wireKind (transportShareType cfg.node.transport)) (ifEmpty cfg.node.path (defaultPath cfg))
    (ifEmpty cfg.node.host cfg.node.sni) (defaultService cfg.node)

theorem readVmess_buildVmessLink (haccepted : Accepted cfg.node) (hvmess : cfg.node.protocol = .vmess) :
    readVmess (buildVmessLink cfg)=some
      ⟨cfg.node.address,cfg.node.port,.uuid cfg.node.uuid,some (serverName cfg.node),linkStream cfg⟩ := by
  have hport := haccepted.port
  have hnumber : ((cfg.node.port.toNat : Nat) : Int)=cfg.node.port := Int.toNat_of_nonneg (by omega)
  have hformat : parseDecimal (formatInt cfg.node.port)=some cfg.node.port.toNat := by
    rw [formatInt_of_nonneg (by omega),parseDecimal_decimal]
  by_cases hgrpc : cfg.node.transport = .grpc
  · simp +decide [readVmess,buildVmessLink,findText,lookup_cons,hformat,hnumber,linkStream,defaultService,
      shareTransportParams,hgrpc,carried,wireKind]
  · have hservice : (wireKind (transportShareType cfg.node.transport)).needsService=false := by
      rw [wireKind_transportShareType haccepted.transport]
      cases h : cfg.node.transport <;> first | rfl | exact absurd h hgrpc
    simp [readVmess,buildVmessLink,findText,lookup_cons,hformat,hnumber,linkStream,defaultPath,hvmess,
      shareTransportParams,hgrpc,carried,hservice]

structure StreamValues (n : NodeConfig) (values : Values) : Prop where
  type : values.get (text "type")=transportShareType n.transport
  security : values.get (text "security")=text "tls"
  path : n.transport.needsPath=true → values.get (text "path")=ifEmpty n.path (ch '/' :: n.id)
  host : n.transport.needsHost=true → values.get (text "host")=ifEmpty n.host n.sni
  serviceName : n.transport.needsService=true → values.get (text "serviceName")=defaultService n

theorem StreamValues.set (h : StreamValues n values) {key : Text}
    (hkey : key∉[text "type",text "security",text "path",text "host",text "serviceName"]) (value : Text) :
    StreamValues n (values.set key value) := by
  have hget : ∀ key'∈[text "type",text "security",text "path",text "host",text "serviceName"],
      (values.set key value).get key'=values.get key' := by
    intro key' hkey'
    rw [get_set,if_neg]
    rintro rfl
    exact hkey hkey'
  constructor
  · rw [hget _ (by decide),h.type]
  · rw [hget _ (by decide),h.security]
  · intro hneeds
    rw [hget _ (by decide),h.path hneeds]
  · intro hneeds
    rw [hget _ (by decide),h.host hneeds]
  · intro hneeds
    rw [hget _ (by decide),h.serviceName hneeds]

theorem StreamValues.setUnless (h : StreamValues n values) {key : Text}
    (hkey : key∉[text "type",text "security",text "path",text "host",text "serviceName"]) (value : Text) :
    StreamValues n (setUnless key value values) := by
  rw [ConfigBuilder.setUnless]
  split_ifs
  · exact h
  · exact h.set hkey value

theorem StreamValues.setHost (h : StreamValues n values) :
    StreamValues n (values.set (text "host") (ifEmpty n.host n.sni)) := by
  constructor
  · rw [get_set,if_neg (by decide),h.type]
  · rw [get_set,if_neg (by decide),h.security]
  · intro hneeds
    rw [get_set,if_neg (by decide),h.path hneeds]
  · intro _
    rw [get_set,if_pos rfl]
  · intro hneeds
    rw [get_set,if_neg (by decide),h.serviceName hneeds]

theorem ifEmpty_ne_nil {s fallback : Text} (h : fallback≠[]) : ifEmpty s fallback≠[] := by
  rw [ifEmpty]
  split_ifs with hs
  · exact h
  · exact hs

/-- The path is set by then, so that its default in the link never takes effect. -/
theorem StreamValues.pathHostDefaults (h : StreamValues cfg.node values) :
    StreamValues cfg.node (pathHostDefaults cfg values) := by
  rw [ConfigBuilder.pathHostDefaults]
  by_cases hneeds : cfg.node.transport.needsPathHost=true
  · have hpath : cfg.node.transport.needsPath=true := by
      cases ht : cfg.node.transport <;> rw [ht] at hneeds <;> first | rfl | cases hneeds
    have hset : values.get (text "path")≠[] := by
      rw [h.path hpath]
      exact ifEmpty_ne_nil (cons_ne_nil _ _)
    rw [if_pos hneeds,if_neg hset]
    dsimp only
    split_ifs
    · exact h.setHost
    · exact h
  · rw [if_neg hneeds]
    exact h

theorem streamValues_mergeValues (htransport : n.transport.isValid=true) (params : Values) :
    StreamValues n (mergeValues (shareTransportParams n).2
      ((params.set (text "type") (transportShareType n.transport)).set (text "security") (text "tls"))) := by
  cases h : n.transport with
  | other name =>
    rw [h] at htransport
    cases htransport
  | tcp | ws | http | h2 | httpupgrade | meek =>
    constructor <;>
      simp +decide [shareTransportParams,h,mergeValues,pathAndHost,Values.set,Transport.needsPath,
        Transport.needsHost,Transport.needsService]
  | raw =>
    by_cases hheader : n.headerType=[] <;> constructor <;>
      simp +decide [shareTransportParams,h,mergeValues,setUnless,Values.set,Transport.needsPath,
        Transport.needsHost,Transport.needsService,hheader]
  | kcp | quic =>
    by_cases hseed : n.seed=[] <;> constructor <;>
      simp +decide [shareTransportParams,h,mergeValues,setUnless,Values.set,Transport.needsPath,
        Transport.needsHost,Transport.needsService,hseed]
  | grpc =>
    by_cases hmulti : n.grpcMultiMode=true <;> constructor <;>
      simp +decide [shareTransportParams,h,mergeValues,defaultService,Values.set,Transport.needsPath,
        Transport.needsHost,Transport.needsService,hmulti]
  | xhttp =>
    by_cases hextra : n.extra=[] <;> constructor <;>
      simp +decide [shareTransportParams,h,mergeValues,setUnless,pathAndHost,Values.set,Transport.needsPath,
        Transport.needsHost,Transport.needsService,hextra]

theorem streamValues_streamParams (htransport : cfg.node.transport.isValid=true) (params : Values) :
    StreamValues cfg.node (streamParams cfg params) :=
  (streamValues_mergeValues htransport params).pathHostDefaults

theorem streamValues_vlessParams (htransport : cfg.node.transport.isValid=true) :
    StreamValues cfg.node (vlessParams cfg) :=
  ((((streamValues_streamParams htransport _).set (by decide) _).setUnless (by decide) _).set (by decide) _).setUnless
    (by decide) _

theorem streamValues_trojanParams (htransport : cfg.node.transport.isValid=true) :
    StreamValues cfg.node (trojanParams cfg) :=
  (((streamValues_streamParams htransport _).set (by decide) _).setHost).set (by decide) _

theorem get_setUnless_of_ne {key key' : Text} (h : key'≠key) (value : Text) :
    (setUnless key value values).get key'=values.get key' := by
  rw [setUnless]
  split_ifs
  · rfl
  · rw [get_set,if_neg h]

theorem get_sni_vlessParams : (vlessParams cfg).get (text "sni")=serverName cfg.node := by
  rw [vlessParams,get_setUnless_of_ne (by decide),get_set,if_neg (by decide),get_setUnless_of_ne (by decide),
    get_set,if_pos rfl]

theorem get_sni_trojanParams : (trojanParams cfg).get (text "sni")=serverName cfg.node := by
  rw [trojanParams,get_set,if_neg (by decide),get_set,if_neg (by decide),get_set,if_pos rfl]

theorem get_sni_nativeQuicParams : (nativeQuicParams n).get (text "sni")=serverName n := by
  rw [nativeQuicParams,get_setUnless_of_ne (by decide),get_set,if_pos rfl]

theorem uriStream_of_streamValues (hprotocol : cfg.node.protocol ≠ .vmess)
    (htransport : cfg.node.transport.isValid=true) (h : StreamValues cfg.node values) {scheme : Text} (hscheme : isNative scheme=false) :
    uriStream scheme values=linkStream cfg := by
  rw [uriStream,if_neg (by rw [hscheme]; decide),linkStream,h.type,wireKind_transportShareType htransport,
    defaultPath,if_neg hprotocol]
  cases ht : cfg.node.transport with
  | other name =>
    rw [ht] at htransport
    cases htransport
  | _ =>
    have hpath := h.path
    have hhost := h.host
    have hservice := h.serviceName
    simp only [ht,Transport.needsPath,Transport.needsHost,Transport.needsService,true_implies] at hpath hhost hservice
    simp [carried,Transport.needsPath,Transport.needsHost,Transport.needsService, *]

/-- What a reader of URIs finds in a link, as far as its host can be read. -/
theorem readUriEndpoint_shareLink (haccepted : Accepted cfg.node) {scheme : String} {userinfo : Text}
    (params : Option Values) (hscheme : isScheme (text scheme)=true)
    (huserinfo : wellFormed userinfoChar userinfo=true) :
    readUriEndpoint (shareLink scheme userinfo cfg params) =
      (parseHost (cfg.node.address++ch ':' :: decimal cfg.node.port.toNat)).bind fun (host, port) =>
        (readCredential (text scheme) userinfo).bind fun cred => port.map fun port =>
          ⟨host.text,port,cred,uriServerName (text scheme) (params.getD []),
            uriStream (text scheme) (params.getD [])⟩ := by
  have hquery : parseQuery ((params.map Values.encode).getD [])=some (params.getD []) := by
    cases params with
    | none => rfl
    | some params => exact parseQuery_encode params
  rw [readUriEndpoint,parse_shareLink haccepted hscheme huserinfo]
  cases parseHost (cfg.node.address++ch ':' :: decimal cfg.node.port.toNat) with
  | none => rfl
  | some found =>
    obtain ⟨host,port⟩ := found
    cases hread : readCredential (text scheme) userinfo with
    | none => simp [hread]
    | some cred => cases port <;> simp [hread,hquery]
end

section
variable {cfg : ProxyLinkConfig}

/- The link, and the entries at place i of the two files, are read as one endpoint. -/
def Agree (i : Nat) (cfg : ProxyLinkConfig) : Prop :=
  ∃ e∈readShared (buildProxyLink cfg), readClash (clashProxy (entryName i cfg) cfg.node)=some e ∧
    readSingbox (singboxOutbound (entryName i cfg) cfg.node)=some e

instance (i : Nat) (cfg : ProxyLinkConfig) : Decidable (Agree i cfg) := inferInstanceAs (Decidable (∃ e∈_, _))

/- The streams that have one meaning in the three formats: sing-box has no host for quic, and an empty
path has to stand for the same path everywhere. -/
def OneStream (cfg : ProxyLinkConfig) : Prop :=
  cfg.node.transport ≠ .http ∧ cfg.node.transport ≠ .meek ∧
    (cfg.node.transport = .quic → cfg.node.host=[] ∧ cfg.node.sni=[]) ∧
    (cfg.node.transport.needsPath=true → cfg.node.path=[] → defaultPath cfg=text "/sub")

theorem ifEmpty_eq_nil_iff {s fallback : Text} : ifEmpty s fallback=[] ↔ s=[] ∧ fallback=[] := by
  rw [ifEmpty]
  split_ifs with h <;> simp [h]

theorem ifEmpty_eq_ifEmpty_iff {s a b : Text} : ifEmpty s a=ifEmpty s b ↔ (s=[] → a=b) := by
  rw [ifEmpty,ifEmpty]
  split_ifs with h <;> simp [h]

theorem streams_eq_iff (htransport : cfg.node.transport.isValid=true) :
    linkStream cfg=clashStream cfg.node ∧ linkStream cfg=singboxStream cfg.node ↔ OneStream cfg := by
  rw [linkStream,wireKind_transportShareType htransport,clashStream,singboxStream,OneStream]
  cases h : cfg.node.transport with
  | other name =>
    rw [h] at htransport
    cases htransport
  | _ =>
    simp [carried,Transport.needsPath,Transport.needsHost,Transport.needsService,ifEmpty_eq_ifEmpty_iff,
      ifEmpty_eq_nil_iff]

variable {scheme : String} {userinfo : Text} {params : Option Values} {cred : Credential} {i : Nat}

theorem agree_iff_of_endpoint (haccepted : Accepted cfg.node) (hcred : credential cfg.node=some cred) :
    Agree i cfg ↔ ∃ e∈readShared (buildProxyLink cfg),
      e=⟨cfg.node.address,cfg.node.port,cred,some (serverName cfg.node),
        if cfg.node.protocol.isNativeQuic then .native else clashStream cfg.node⟩ ∧
      e=⟨cfg.node.address,cfg.node.port,cred,some (serverName cfg.node),
        if cfg.node.protocol.isNativeQuic then .native else singboxStream cfg.node⟩ := by
  rw [Agree,readClash_clashProxy haccepted,readSingbox_singboxOutbound haccepted,hcred]
  simp only [Option.map_some,Option.some.injEq,eq_comm]

theorem agree_iff_of_readShared {stream : Stream} (haccepted : Accepted cfg.node)
    (hcred : credential cfg.node=some cred)
    (hshared : readShared (buildProxyLink cfg) =
      some ⟨cfg.node.address,cfg.node.port,cred,some (serverName cfg.node),stream⟩) :
    Agree i cfg ↔
      stream=(if cfg.node.protocol.isNativeQuic then .native else clashStream cfg.node) ∧
      stream=(if cfg.node.protocol.isNativeQuic then .native else singboxStream cfg.node) := by
  rw [agree_iff_of_endpoint haccepted hcred,hshared]
  constructor
  · rintro ⟨e,he,hclash,hsingbox⟩
    cases he
    simp only [Endpoint.mk.injEq,true_and] at hclash hsingbox
    exact ⟨hclash,hsingbox⟩
  · rintro ⟨hclash,hsingbox⟩
    exact ⟨_,rfl,by rw [← hclash],by rw [← hsingbox]⟩

theorem agree_uri_iff (haccepted : Accepted cfg.node) (hcred : credential cfg.node=some cred)
    (hlink : buildProxyLink cfg = .uri (shareLink scheme userinfo cfg params)) (hscheme : isScheme (text scheme)=true)
    (huserinfo : wellFormed userinfoChar userinfo=true) (hread : readCredential (text scheme) userinfo=some cred)
    (hname : uriServerName (text scheme) (params.getD [])=some (serverName cfg.node)) :
    Agree i cfg ↔ Plainly cfg.node.address ∧
      uriStream (text scheme) (params.getD []) =
        (if cfg.node.protocol.isNativeQuic then .native else clashStream cfg.node) ∧
      uriStream (text scheme) (params.getD []) =
        (if cfg.node.protocol.isNativeQuic then .native else singboxStream cfg.node) := by
  have hport := haccepted.port
  have hnumber : ((cfg.node.port.toNat : Nat) : Int)=cfg.node.port := Int.toNat_of_nonneg (by omega)
  have hfound : Plainly cfg.node.address → readShared (buildProxyLink cfg) =
      some ⟨cfg.node.address,cfg.node.port,cred,some (serverName cfg.node),
        uriStream (text scheme) (params.getD [])⟩ := by
    intro hplain
    rw [hlink,readShared,readUriEndpoint_shareLink haccepted params hscheme huserinfo,
      parseHost_of_plainly haccepted.address hplain,hread,hname]
    simp [Host.text,hnumber]
  constructor
  · intro hagree
    obtain ⟨e,he,hclash,-⟩ := (agree_iff_of_endpoint haccepted hcred).mp hagree
    rw [hlink,readShared,readUriEndpoint_shareLink haccepted params hscheme huserinfo,hread] at he
    obtain ⟨⟨host,port⟩,hparse,he⟩ := Option.bind_eq_some_iff.mp he
    obtain ⟨port',-,rfl⟩ := Option.map_eq_some_iff.mp he
    rw [Endpoint.mk.injEq] at hclash
    have hplain := plainly_of_parseHost haccepted.address hparse hclash.1
    exact ⟨hplain,(agree_iff_of_readShared haccepted hcred (hfound hplain)).mp hagree⟩
  · rintro ⟨hplain,hstreams⟩
    exact (agree_iff_of_readShared haccepted hcred (hfound hplain)).mpr hstreams

/-- The link of Shadowsocks has no server name for TLS, which the two files give. -/
theorem not_agree_shadowsocks (haccepted : Accepted cfg.node) (h : cfg.node.protocol = .shadowsocks) :
    ¬ Agree i cfg := by
  rw [agree_iff_of_endpoint haccepted (by rw [credential,h]),buildProxyLink,h]
  rintro ⟨e,he,hclash,-⟩
  rw [readShared,buildSSLink,
    readUriEndpoint_shareLink haccepted none (by decide) (wellFormed_shadowsocksUser _)] at he
  obtain ⟨⟨host,port⟩,-,he⟩ := Option.bind_eq_some_iff.mp he
  obtain ⟨cred,-,he⟩ := Option.bind_eq_some_iff.mp he
  obtain ⟨port',-,rfl⟩ := Option.map_eq_some_iff.mp he
  rw [Endpoint.mk.injEq] at hclash
  have hnone : uriServerName (text "ss") (Option.getD none [])=none := by decide
  have hname := hclash.2.2.2.1
  rw [hnone] at hname
  cases hname

theorem uriServerName_of_tls {values : Values} {name : Text} (hsecurity : values.get (text "security")=text "tls")
    (hsni : values.get (text "sni")=name) (scheme : Text) : uriServerName scheme values=some name := by
  rw [uriServerName,if_pos (.inr hsecurity),hsni]

theorem uriServerName_of_native {values : Values} {name scheme : Text} (hscheme : isNative scheme=true)
    (hsni : values.get (text "sni")=name) : uriServerName scheme values=some name := by
  rw [uriServerName,if_pos (.inl hscheme),hsni]

/-- The three formats describe one endpoint exactly if the link can hold the address, the protocol is
not Shadowsocks, and the stream has one meaning. -/
theorem agree_iff (i : Nat) (cfg : ProxyLinkConfig) (hvalid : validateNodeConfig cfg.node = .ok ()) :
    Agree i cfg ↔
      cfg.node.protocol ≠ .shadowsocks ∧ (cfg.node.protocol ≠ .vmess → Plainly cfg.node.address) ∧
        (cfg.node.protocol.isNativeQuic=false → OneStream cfg) := by
  have haccepted := accepted_of_ok hvalid
  have hstreams := streams_eq_iff haccepted.transport
  cases h : cfg.node.protocol with
  | vless =>
    have hvalues := streamValues_vlessParams haccepted.transport
    rw [agree_uri_iff haccepted (by rw [credential,h]) (by rw [buildProxyLink,h,buildVlessLink]) (by decide)
      (wellFormed_user _) (readCredential_uuid _)
      (uriServerName_of_tls hvalues.security get_sni_vlessParams _),Option.getD_some,
      uriStream_of_streamValues (by simp [h]) haccepted.transport hvalues (by decide),h]
    simpa [Protocol.isNativeQuic] using fun _ => hstreams
  | trojan =>
    have hvalues := streamValues_trojanParams haccepted.transport
    rw [agree_uri_iff haccepted (by rw [credential,h]) (by rw [buildProxyLink,h,buildTrojanLink]) (by decide)
      (wellFormed_user _) (readCredential_password (.inl rfl) _)
      (uriServerName_of_tls hvalues.security get_sni_trojanParams _),Option.getD_some,
      uriStream_of_streamValues (by simp [h]) haccepted.transport hvalues (by decide),h]
    simpa [Protocol.isNativeQuic] using fun _ => hstreams
  | vmess =>
    have hshared : readShared (buildProxyLink cfg)=readVmess (buildVmessLink cfg) := by
      rw [buildProxyLink,h,readShared]
    rw [readVmess_buildVmessLink haccepted h] at hshared
    rw [agree_iff_of_readShared haccepted (by rw [credential,h]) hshared,h]
    simpa [Protocol.isNativeQuic] using hstreams
  | shadowsocks => simp [not_agree_shadowsocks haccepted h]
  | hysteria2 =>
    have hsni : (hysteria2Params cfg.node).get (text "sni")=serverName cfg.node := by
      rw [hysteria2Params,get_set,if_neg (by decide),get_set,if_neg (by decide),get_sni_nativeQuicParams]
    have hlink : buildProxyLink cfg =
        .uri (shareLink "hysteria2" (user cfg.node.password) cfg (some (hysteria2Params cfg.node))) := by
      rw [buildProxyLink,h,buildHysteria2Link]
    rw [agree_uri_iff haccepted (by rw [credential,h]) hlink (by decide)
      (wellFormed_user _) (readCredential_password (.inr rfl) _) (uriServerName_of_native (by decide) hsni),h]
    simp +decide [uriStream]
  | tuic =>
    have hsni : (tuicParams cfg.node).get (text "sni")=serverName cfg.node := by
      rw [tuicParams,get_set,if_neg (by decide),get_set,if_neg (by decide),get_sni_nativeQuicParams]
    have hlink : buildProxyLink cfg =
        .uri (shareLink "tuic" (userPassword cfg.node.uuid cfg.node.password) cfg (some (tuicParams cfg.node))) := by
      rw [buildProxyLink,h,buildTuicLink]
    rw [agree_uri_iff haccepted (by rw [credential,h]) hlink (by decide)
      (wellFormed_userPassword _ _) (readCredential_account _ _) (uriServerName_of_native (by decide) hsni),h]
    simp +decide [uriStream]
  | other name =>
    have hprotocol := haccepted.protocol
    rw [h] at hprotocol
    cases hprotocol

def sample (protocol : Protocol) (transport : Transport) (path : String) : ProxyLinkConfig where
  remark := text "Aether-X node-1"
  fragPath := text "sub"
  node := { id := text "node-1", address := text "edge.aether.net", port := 443, protocol := protocol,
            uuid := text "2f1b6f0e", password := text "p@ss:word", transport := transport, path := text path,
            sni := text "cdn.aether.net" }

theorem agree_iff_websocket : Agree 0 (sample .vless .ws "/stream") := by
  refine (agree_iff 0 (sample .vless .ws "/stream") (by decide +kernel)).mpr ⟨by decide,fun _ => ?_,fun _ => ?_⟩
  · exact ⟨by decide,by decide +kernel⟩
  · exact ⟨by decide,by decide,by decide,by decide⟩

/-- Accepted nodes whose renderings part: an empty path is /node-1 in the link and /sub in the files,
the host of quic is missing in sing-box, TLS in the link of Shadowsocks. -/
theorem formats_part :
    (¬ ∀ (i : Nat) (cfg : ProxyLinkConfig), validateNodeConfig cfg.node = .ok () → cfg.node.protocol = .vless →
      cfg.node.transport = .ws → Agree i cfg) ∧
    (¬ ∀ (i : Nat) (cfg : ProxyLinkConfig), validateNodeConfig cfg.node = .ok () → cfg.node.protocol = .trojan →
      cfg.node.transport = .quic → Agree i cfg) ∧
    ¬ ∀ (i : Nat) (cfg : ProxyLinkConfig), validateNodeConfig cfg.node = .ok () →
      cfg.node.protocol = .shadowsocks → Agree i cfg := by
  refine ⟨fun h => ?_,fun h => ?_,fun h => ?_⟩
  · have hagree := h 0 (sample .vless .ws "") (by decide +kernel) rfl rfl
    revert hagree
    decide +kernel
  · have hagree := h 0 (sample .trojan .quic "") (by decide +kernel) rfl rfl
    revert hagree
    decide +kernel
  · have hagree := h 0 (sample .shadowsocks .tcp "") (by decide +kernel) rfl
    revert hagree
    decide +kernel

variable {cfgs : List ProxyLinkConfig}
end

end AetherX.EndpointFormats
