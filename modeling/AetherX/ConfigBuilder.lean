import AetherX.Token
import AetherX.Url

/-! What the control plane publishes of a proxy node: the check of its parameters, and their
rendering as a share link, as an entry of a Clash file and as an outbound of sing-box. Documents are
given by their keys and values, before they are printed as YAML or JSON. -/
namespace AetherX.ConfigBuilder
open ByteText NetAddr Url

inductive Protocol where
  | vless
  | vmess
  | trojan
  | shadowsocks
  | hysteria2
  | tuic
  | other (name : Text)
  deriving DecidableEq

def Protocol.id : Protocol → Text
  | .vless => text "vless"
  | .vmess => text "vmess"
  | .trojan => text "trojan"
  | .shadowsocks => text "shadowsocks"
  | .hysteria2 => text "hysteria2"
  | .tuic => text "tuic"
  | .other name => name

def Protocol.supported : Protocol → Bool
  | .other _ => false
  | _ => true

def Protocol.isNativeQuic (p : Protocol) : Bool := p = .hysteria2 || p = .tuic

inductive Transport where
  | tcp
  | raw
  | kcp
  | ws
  | http
  | h2
  | grpc
  | httpupgrade
  | xhttp
  | quic
  | meek
  | other (name : Text)
  deriving DecidableEq

namespace Transport
def id : Transport → Text
  | tcp => text "tcp"
  | raw => text "raw"
  | kcp => text "kcp"
  | ws => text "ws"
  | http => text "http"
  | h2 => text "h2"
  | grpc => text "grpc"
  | httpupgrade => text "httpupgrade"
  | xhttp => text "xhttp"
  | quic => text "quic"
  | meek => text "meek"
  | other name => name

def isValid : Transport → Bool
  | other _ => false
  | _ => true

/- What the catalog says that a transport uses. -/
def needsPath : Transport → Bool
  | xhttp | httpupgrade | h2 | ws | http | meek => true
  | _ => false

def needsHost : Transport → Bool
  | xhttp | httpupgrade | quic | h2 | ws | http | meek => true
  | _ => false

def needsService : Transport → Bool
  | grpc => true
  | _ => false

def needsPathHost : Transport → Bool
  | ws | http | h2 | httpupgrade | xhttp | meek => true
  | _ => false

end Transport

structure NodeConfig where
  id : Text
  address : Text
  port : Int
  protocol : Protocol
  uuid : Text := []
  password : Text := []
  encryption : Text := []
  transport : Transport
  path : Text := []
  host : Text := []
  sni : Text := []
  alpn : Text := []
  insecure : Bool := false
  serviceName : Text := []
  mode : Text := []
  headerType : Text := []
  seed : Text := []
  grpcMultiMode : Bool := false
  extra : Text := []
  flow : Text := []
  upMbps : Int := 0
  downMbps : Int := 0
  congestionControl : Text := []
  udpRelayMode : Text := []

structure ProxyLinkConfig where
  remark : Text
  fragPath : Text
  node : NodeConfig

def ifEmpty (s fallback : Text) : Text := if s=[] then fallback else s

section
def lowerCase (s : Text) : Text := s.map fun c => if isUpper c then c+32 else c

def validLabel (label : Text) : Bool :=
  label≠[] && label.length≤63 && label.head? ≠ some (ch '-') && label.getLast? ≠ some (ch '-') &&
    label.all fun c => isLower c || isUpper c || isDigit c || c=ch '-'

/- A text that is not ASCII is refused whatever its lower case is, so that of ASCII will do. -/
def validPublishedHost (value : Text) : Bool :=
  let value := trimSpace value
  if value=[] || value.any fun c => c∈text " \t\r\n/@" then false
  else if text ".example" <:+ lowerCase value ∨ value=text "localhost" then false
  else if (parseIp value).isSome then true
  else if 253 < value.length ∨ ch '.' ∉ value then false
  else (value.splitOn (ch '.')).all validLabel

inductive NodeError where
  | unsupportedProtocol (p : Protocol)
  | unsupportedTransport (t : Transport)
  | invalidAddress
  | invalidPort
  | insecureTls
  | invalidSni
  | invalidHost
  | requiresUuid (p : Protocol)
  | requiresPassword (p : Protocol)
  | requiresQuic (p : Protocol)
  | requiresBandwidth
  | flowWithoutVless
  | unsupportedShadowsocksTransport (t : Transport)
  deriving DecidableEq

/- What is wrong with a node, in the order in which it is looked for. -/
def faults (node : NodeConfig) : List (Bool × NodeError) :=
  [(!node.protocol.supported, .unsupportedProtocol node.protocol),
    (!node.transport.isValid, .unsupportedTransport node.transport),
    (!validPublishedHost node.address, .invalidAddress),
    (node.port<1 || 65535 < node.port, .invalidPort),
    (node.insecure, .insecureTls),
    (node.sni≠[] && !validPublishedHost node.sni, .invalidSni),
    (node.host≠[] && !validPublishedHost node.host, .invalidHost),
    (node.protocol∈[.vless,.vmess,.tuic] && trimSpace node.uuid=[], .requiresUuid node.protocol),
    (node.protocol∈[.trojan,.shadowsocks,.hysteria2,.tuic] && trimSpace node.password=[],
      .requiresPassword node.protocol),
    (node.protocol.isNativeQuic && node.transport ≠ .quic, .requiresQuic node.protocol),
    (node.protocol = .hysteria2 && (node.upMbps≤0 || node.downMbps≤0), .requiresBandwidth),
    (node.flow≠[] && node.protocol ≠ .vless, .flowWithoutVless),
    (node.protocol = .shadowsocks && node.transport ≠ .tcp && node.transport ≠ .raw,
      .unsupportedShadowsocksTransport node.transport)]

def validateNodeConfig (node : NodeConfig) : Except NodeError Unit :=
  match (faults node).find? Prod.fst with
  | some (_, err) => .error err
  | none => .ok ()

variable {node : NodeConfig}

theorem validateNodeConfig_ok_iff :
    validateNodeConfig node = .ok () ↔ ∀ fault∈faults node, fault.1=false := by
  rw [validateNodeConfig]
  split
  · rename_i fault err hfind
    have hfault : fault=true := List.find?_some hfind
    refine ⟨by rintro ⟨⟩,fun h => ?_⟩
    have hfalse := h _ (List.mem_of_find?_eq_some hfind)
    rw [hfault] at hfalse
    cases hfalse
  · rename_i hfind
    simpa using List.find?_eq_none.mp hfind

/- What an accepted node is known to be. -/
structure Accepted (node : NodeConfig) : Prop where
  protocol : node.protocol.supported=true
  transport : node.transport.isValid=true
  address : validPublishedHost node.address=true
  port : 1 ≤ node.port
  uuid : node.protocol∈[.vless,.vmess,.tuic] → node.uuid≠[]
  password : node.protocol∈[.trojan,.shadowsocks,.hysteria2,.tuic] → node.password≠[]
  native : node.protocol.isNativeQuic=true → node.transport = .quic
  shadowsocks : node.protocol = .shadowsocks → node.transport = .tcp ∨ node.transport = .raw

theorem accepted_of_ok (h : validateNodeConfig node = .ok ()) : Accepted node := by
  have hfaults := validateNodeConfig_ok_iff.mp h
  simp only [faults,List.forall_mem_cons,Bool.not_eq_false',Bool.and_eq_false_iff,Bool.or_eq_false_iff,
    decide_eq_false_iff_not] at hfaults
  obtain ⟨hprotocol,htransport,haddress,hport,-,-,-,huuid,hpassword,hnative,-,-,hshadowsocks,-⟩ := hfaults
  refine ⟨hprotocol,htransport,haddress,by omega,fun hmem hempty => ?_,fun hmem hempty => ?_,fun hquic => ?_,
    fun hss => ?_⟩
  · rw [hempty] at huuid
    exact huuid.elim (· hmem) (· rfl)
  · rw [hempty] at hpassword
    exact hpassword.elim (· hmem) (· rfl)
  · obtain hquic' | hquic' := hnative
    · rw [hquic] at hquic'
      cases hquic'
    · exact not_not.mp hquic'
  · tauto

def hostChar (c : UInt8) : Bool := isAlnum c || c=ch '-' || c=ch '.' || c=ch ':'

theorem hostChar_of_plain {c : UInt8} (h : Plain c) : hostChar c=true := by
  have hall : ∀ n<256, Plain (UInt8.ofNat n) → hostChar (UInt8.ofNat n)=true := by decide +kernel
  exact forall_byte (P := fun c => Plain c → hostChar c=true) hall c h

theorem hostChar_of_validLabel {label : Text} (h : validLabel label=true) {c : UInt8} (hc : c∈label) :
    hostChar c=true := by
  rw [validLabel,Bool.and_eq_true,List.all_eq_true] at h
  have hchar := h.2 c hc
  simp only [Bool.or_eq_true,decide_eq_true_eq] at hchar
  simp only [hostChar,isAlnum,isAlpha,Bool.or_eq_true,decide_eq_true_eq]
  tauto

/-- A published host has the characters of names and addresses, up to white space around it. -/
theorem hostChar_of_valid {value : Text} (h : validPublishedHost value=true) {c : UInt8}
    (hc : c∈trimSpace value) : hostChar c=true := by
  rw [validPublishedHost] at h
  split_ifs at h with _ _ hip
  · obtain ⟨ip,hip⟩ := Option.isSome_iff_exists.mp hip
    exact hostChar_of_plain ((chars_of_parseIp hip).1 c hc)
  · have hjoin : [ch '.'].intercalate ((trimSpace value).splitOn (ch '.'))=trimSpace value :=
      List.intercalate_splitOn (ch '.')
    rw [← hjoin] at hc
    obtain rfl | ⟨label,hlabel,hc⟩ := mem_intercalate hc
    · rfl
    · exact hostChar_of_validLabel (List.all_eq_true.mp h label hlabel) hc
end

inductive Value where
  | str (s : Text)
  | int (n : Int)
  | bool (b : Bool)
  | seq (items : List Text)
  | map (fields : List (String × Value))

abbrev Doc := List (String × Value)

def formatInt (n : Int) : Text := if n<0 then ch '-' :: decimal n.natAbs else decimal n.natAbs

/- A text, or the object that is printed behind vmess:// as JSON in base64. -/
inductive Link where
  | none
  | uri (s : Text)
  | vmess (doc : Doc)

def transportShareType : Transport → Text
  | .tcp | .raw | .other [] => text "tcp"
  | .h2 => text "http"
  | t => t.id

def pathAndHost (n : NodeConfig) : Values :=
  Values.set (text "host") (ifEmpty n.host n.sni)
    (Values.set (text "path") (ifEmpty n.path (ch '/' :: n.id)) [])

def setUnless (key value : Text) (values : Values) : Values := if value=[] then values else values.set key value

def shareTransportParams (n : NodeConfig) : Text × Values :=
  (transportShareType n.transport,
    match n.transport with
    | .tcp | .other [] => []
    | .raw => setUnless (text "headerType") n.headerType []
    | .kcp =>
      setUnless (text "seed") n.seed (Values.set (text "headerType") (ifEmpty n.headerType (text "none")) [])
    | .ws | .http | .h2 | .httpupgrade | .meek | .other _ => pathAndHost n
    | .grpc =>
      let values := Values.set (text "serviceName") (ifEmpty n.serviceName (text "GunService")) []
      if n.grpcMultiMode then values.set (text "mode") (text "gun") else values
    | .xhttp =>
      setUnless (text "extra") n.extra ((pathAndHost n).set (text "mode") (ifEmpty n.mode (text "auto")))
    | .quic => setUnless (text "key") n.seed (Values.set (text "host") (ifEmpty n.host n.sni) []))

def mergeValues (extra params : Values) : Values :=
  extra.foldl (fun params kv => params.set kv.1 kv.2) params

def pathHostDefaults (cfg : ProxyLinkConfig) (params : Values) : Values :=
  if cfg.node.transport.needsPathHost then
    let params := if params.get (text "path")=[] then
      params.set (text "path") (ch '/' :: ifEmpty cfg.fragPath (text "sub")) else params
    if params.get (text "host")=[] then
      params.set (text "host") (ifEmpty cfg.node.host cfg.node.sni) else params
  else params

def streamParams (cfg : ProxyLinkConfig) (params : Values) : Values :=
  let (ttype, textra) := shareTransportParams cfg.node
  pathHostDefaults cfg
    (mergeValues textra ((params.set (text "type") ttype).set (text "security") (text "tls")))

def serverName (n : NodeConfig) : Text := ifEmpty n.sni n.address

def vlessParams (cfg : ProxyLinkConfig) : Values :=
  let n := cfg.node
  let params := streamParams cfg (Values.set (text "encryption") (ifEmpty n.encryption (text "none")) [])
  setUnless (text "alpn") n.alpn
    (Values.set (text "fp") (text "chrome")
      (setUnless (text "flow") n.flow (params.set (text "sni") (serverName n))))

def trojanParams (cfg : ProxyLinkConfig) : Values :=
  (((streamParams cfg []).set (text "sni") (serverName cfg.node)).set (text "host")
    (ifEmpty cfg.node.host cfg.node.sni)).set (text "fp") (text "chrome")

def nativeQuicParams (n : NodeConfig) : Values :=
  setUnless (text "alpn") n.alpn (Values.set (text "sni") (serverName n) [])

def hysteria2Params (n : NodeConfig) : Values :=
  ((nativeQuicParams n).set (text "upmbps") (formatInt n.upMbps)).set (text "downmbps") (formatInt n.downMbps)

def tuicParams (n : NodeConfig) : Values :=
  ((nativeQuicParams n).set (text "congestion_control") (ifEmpty n.congestionControl (text "bbr"))).set
    (text "udp_relay_mode") (ifEmpty n.udpRelayMode (text "native"))

/- The characters that the url package leaves as they are in a user name or a password. -/
def userinfoKept (c : UInt8) : Bool := unreserved c || c∈text "$&+,;="

def user (name : Text) : Text := escape userinfoKept name

def userPassword (name password : Text) : Text := user name++ch ':' :: user password

def shadowsocksMethod (n : NodeConfig) : Text := ifEmpty n.encryption (text "chacha20-ietf-poly1305")

def shadowsocksUser (n : NodeConfig) : Text :=
  (Base64.encode Token.urlSafe (shadowsocksMethod n++ch ':' :: n.password)).map ch

def shareLink (scheme : String) (userinfo : Text) (cfg : ProxyLinkConfig) (params : Option Values) : Text :=
  link (text scheme) userinfo (cfg.node.address++ch ':' :: formatInt cfg.node.port) (params.map Values.encode)
    (queryEscape cfg.remark)

def buildVlessLink (cfg : ProxyLinkConfig) : Text := shareLink "vless" (user cfg.node.uuid) cfg (some (vlessParams cfg))

def buildTrojanLink (cfg : ProxyLinkConfig) : Text :=
  shareLink "trojan" (user cfg.node.password) cfg (some (trojanParams cfg))

def buildSSLink (cfg : ProxyLinkConfig) : Text := shareLink "ss" (shadowsocksUser cfg.node) cfg none

def buildHysteria2Link (cfg : ProxyLinkConfig) : Text :=
  shareLink "hysteria2" (user cfg.node.password) cfg (some (hysteria2Params cfg.node))

def buildTuicLink (cfg : ProxyLinkConfig) : Text :=
  shareLink "tuic" (userPassword cfg.node.uuid cfg.node.password) cfg (some (tuicParams cfg.node))

def buildVmessLink (cfg : ProxyLinkConfig) : Doc :=
  let n := cfg.node
  [("v", .str (text "2")),
    ("ps", .str cfg.remark),
    ("add", .str n.address),
    ("port", .str (formatInt n.port)),
    ("id", .str n.uuid),
    ("aid", .str (text "0")),
    ("scy", .str (text "auto")),
    ("net", .str (shareTransportParams n).1),
    ("type", .str (if n.transport = .kcp then ifEmpty n.headerType (text "none") else text "none")),
    ("host", .str (ifEmpty n.host n.sni)),
    ("path", .str (if n.transport = .grpc then ifEmpty n.serviceName (text "GunService")
      else ifEmpty n.path (ch '/' :: cfg.fragPath))),
    ("tls", .str (text "tls")),
    ("sni", .str (serverName n))]

def buildProxyLink (cfg : ProxyLinkConfig) : Link :=
  match cfg.node.protocol with
  | .vless => .uri (buildVlessLink cfg)
  | .vmess => .vmess (buildVmessLink cfg)
  | .trojan => .uri (buildTrojanLink cfg)
  | .shadowsocks => .uri (buildSSLink cfg)
  | .hysteria2 => .uri (buildHysteria2Link cfg)
  | .tuic => .uri (buildTuicLink cfg)
  | .other _ => .none

def clashProtocol : Protocol → Text
  | .shadowsocks => text "ss"
  | p => p.id

def clashNetwork : Transport → Text
  | .tcp | .raw | .other [] => text "tcp"
  | t => t.id

def clashNativeQuicProxy (n : NodeConfig) : Doc :=
  [("type", .str n.protocol.id),
    ("server", .str n.address),
    ("port", .int n.port),
    ("sni", .str (serverName n)),
    ("skip-cert-verify", .bool false),
    ("udp", .bool true)] ++
  match n.protocol with
  | .hysteria2 => [("password", .str n.password),("up", .int n.upMbps),("down", .int n.downMbps)]
  | .tuic =>
    [("uuid", .str n.uuid),
      ("password", .str n.password),
      ("congestion-controller", .str (ifEmpty n.congestionControl (text "bbr"))),
      ("udp-relay-mode", .str (ifEmpty n.udpRelayMode (text "native")))]
  | _ => []

def clashTransport (n : NodeConfig) : Doc :=
  let path := ifEmpty n.path (text "/sub")
  let host := ifEmpty n.host n.sni
  match n.transport with
  | .ws => [("ws-opts", .map [("path", .str path),("headers", .map [("Host", .str host)])])]
  | .grpc => [("grpc-opts", .map [("grpc-service-name", .str (ifEmpty n.serviceName (text "GunService")))])]
  | .h2 => [("h2-opts", .map [("host", .seq [host]),("path", .str path)])]
  | .http => [("http-opts", .map [("path", .seq [path]),("headers", .map [("Host", .seq [host])])])]
  | .kcp => [("kcp-opts", .map [("header-type", .str (ifEmpty n.headerType (text "none")))])]
  | .httpupgrade => [("httpupgrade-opts", .map [("host", .str host),("path", .str path)])]
  | .xhttp =>
    [("xhttp-opts", .map [("host", .str host),("path", .str path),("mode", .str (ifEmpty n.mode (text "auto")))])]
  | .quic => [("quic-opts", .map [("host", .str host)])]
  | .tcp | .raw | .meek | .other _ => []

def clashCredential (n : NodeConfig) : Doc :=
  match n.protocol with
  | .vless => ("uuid", .str n.uuid)::if n.flow=[] then [] else [("flow", .str n.flow)]
  | .vmess => [("uuid", .str n.uuid)]
  | .trojan => [("password", .str n.password)]
  | .shadowsocks => [("cipher", .str (shadowsocksMethod n)),("password", .str n.password)]
  | _ => []

def clashProxy (name : Text) (n : NodeConfig) : Doc :=
  ("name", .str name) ::
  if n.protocol.isNativeQuic then clashNativeQuicProxy n
  else
    [("type", .str (clashProtocol n.protocol)),("server", .str n.address),("port", .int n.port)] ++
    clashCredential n ++
    [("network", .str (clashNetwork n.transport)),
      ("tls", .bool true),
      ("server-name", .str (serverName n)),
      ("udp", .bool true)] ++
    clashTransport n

def omitEmpty (key : String) (s : Text) : Doc := if s=[] then [] else [(key, .str s)]

def omitZero (key : String) (n : Int) : Doc := if n=0 then [] else [(key, .int n)]

def singboxTransport (n : NodeConfig) : Option Doc :=
  let path := ifEmpty n.path (text "/sub")
  let host := ifEmpty n.host n.sni
  if n.protocol.isNativeQuic then none
  else match n.transport with
    | .ws => some [("type", .str (text "ws")),("path", .str path),("headers", .map [("Host", .str host)])]
    | .grpc => some [("type", .str (text "grpc")),("service_name", .str (ifEmpty n.serviceName (text "GunService")))]
    | .http | .h2 => some [("type", .str (text "http")),("path", .str path),("host", .seq [host])]
    | .httpupgrade => some [("type", .str (text "httpupgrade")),("path", .str path),("host", .str host)]
    | .xhttp =>
      some [("type", .str (text "xhttp")),("path", .str path),("host", .str host),
        ("mode", .str (ifEmpty n.mode (text "auto")))]
    | .quic => some [("type", .str (text "quic"))]
    | .kcp => some [("type", .str (text "kcp")),("header_type", .str (ifEmpty n.headerType (text "none")))]
    | .tcp | .raw | .meek | .other _ => none

def singboxTls (n : NodeConfig) : Doc :=
  [("enabled", .bool true),
    ("server_name", .str (serverName n)),
    ("alpn", .seq (
      if n.alpn≠[] then [n.alpn]
      else if n.protocol.isNativeQuic then [text "h3"]
      else [text "h2",text "http/1.1"]))] ++
  (if n.insecure then [("insecure", .bool true)] else []) ++
  if n.transport = .xhttp then [("utls", .map [("enabled", .bool true),("fingerprint", .str (text "chrome"))])] else []

def singboxOutbound (tag : Text) (n : NodeConfig) : Doc :=
  [("type", .str n.protocol.id),("tag", .str tag),("server", .str n.address),("server_port", .int n.port)] ++
  (if n.protocol∈[.vless,.vmess,.tuic] then omitEmpty "uuid" n.uuid else []) ++
  (if n.protocol∈[.trojan,.shadowsocks,.hysteria2,.tuic] then omitEmpty "password" n.password else []) ++
  (if n.protocol = .shadowsocks then omitEmpty "method" (shadowsocksMethod n) else []) ++
  (if n.protocol = .vless then omitEmpty "flow" n.flow else []) ++
  (if n.protocol = .hysteria2 then omitZero "up_mbps" n.upMbps++omitZero "down_mbps" n.downMbps else []) ++
  (if n.protocol = .tuic then
    omitEmpty "congestion_control" (ifEmpty n.congestionControl (text "bbr")) ++
      omitEmpty "udp_relay_mode" (ifEmpty n.udpRelayMode (text "native")) else []) ++
  ((singboxTransport n).map fun doc => [("transport", Value.map doc)]).getD [] ++
  [("tls", .map (singboxTls n))]

def entryName (i : Nat) (cfg : ProxyLinkConfig) : Text :=
  if cfg.remark=[] then text "Aether-X-" ++ decimal (i+1) else cfg.remark

inductive Body where
  | clash (proxies : List Doc) (group : List Text)
  | singbox (outbounds : List Doc)
  | base64 (links : List Link)

inductive Format where
  | clash
  | singbox
  | other (name : Text)

def buildBase64FromNodes (cfgs : List ProxyLinkConfig) : List Link :=
  (cfgs.map buildProxyLink).filter fun l => match l with
    | .none => false
    | _ => true

def buildClashFromNodes (cfgs : List ProxyLinkConfig) : List Doc × List Text :=
  (cfgs.mapIdx fun i cfg => clashProxy (entryName i cfg) cfg.node, cfgs.mapIdx entryName)

def buildSingboxFromNodes (cfgs : List ProxyLinkConfig) : List Doc :=
  cfgs.mapIdx fun i cfg => singboxOutbound (entryName i cfg) cfg.node

def buildSubscriptionBodyEx (cfgs : List ProxyLinkConfig) : Format → Body
  | .clash => .clash (buildClashFromNodes cfgs).1 (buildClashFromNodes cfgs).2
  | .singbox => .singbox (buildSingboxFromNodes cfgs)
  | .other _ => .base64 (buildBase64FromNodes cfgs)

end AetherX.ConfigBuilder
