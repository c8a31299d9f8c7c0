import AetherX.NetAddr

/-! The network context of a subscription request. The router's RealIP middleware puts an address
from the headers of the client in the place of the peer's before the resolver looks at it. -/
namespace AetherX.NetworkContext
open ByteText NetAddr

/- The case of texts in UTF-8, and their quoting in messages. -/
structure Strings where
  toLower : Text → Text
  toUpper : Text → Text
  quote : Text → Text

inductive Header where
  | userAgent
  | trueClientIp
  | xRealIp
  | xForwardedFor
  | isp
  | region
  | country
  deriving DecidableEq

/- The first value of each header, and nothing for one that is not there. -/
structure Request where
  remoteAddr : Text
  header : Header → Text

structure ClientContext where
  ip : Text
  country : Text
  isp : Text
  region : Text
  core : String
  platform : String
  transportPreference : String
  deriving DecidableEq

def toLower (s : Text) : Text := s.map fun c => if isUpper c then c+32 else c

def contains (s : Text) (substr : String) : Bool := s.tails.any fun rest => (text substr).isPrefixOf rest

def detectCore (ua : Text) : String :=
  if contains ua "sing-box" || contains ua "sfa" then "sing-box"
  else if contains ua "clash" || contains ua "mihomo" then "clash-meta"
  else if contains ua "nekobox" || contains ua "karing" then "nekobox"
  else if contains ua "shadowrocket" then "shadowrocket"
  else if contains ua "v2ray" || contains ua "hiddify" then "xray-core"
  else "sing-box"

def detectPlatform (ua : Text) : String :=
  if contains ua "android" then "android"
  else if contains ua "iphone" || contains ua "ipad" || contains ua "ios" then "ios"
  else if contains ua "windows" then "windows"
  else if contains ua "mac" || contains ua "darwin" then "macos"
  else "all"

def transportFor (core : String) : String :=
  if core = "sing-box" ∨ core = "nekobox" then "xhttp"
  else if core = "clash-meta" then "ws"
  else "grpc"

def detectClientContext (userAgent clientIp : Text) : ClientContext where
  ip := clientIp
  country := []
  isp := []
  region := []
  core := detectCore (toLower userAgent)
  platform := detectPlatform (toLower userAgent)
  transportPreference := transportFor (detectCore (toLower userAgent))

inductive ConfigError where
  | invalidCidr (value : Text)
  | noCidr
  deriving DecidableEq

def parseTrusted : List Text → Except ConfigError (List IpNet)
  | [] => .ok []
  | raw::cidrs =>
    let value := trimSpace raw
    if value=[] then parseTrusted cidrs
    else match parseCidr value with
      | none => .error (.invalidCidr value)
      | some network => (parseTrusted cidrs).map (network :: ·)

structure Resolver where
  trusted : List IpNet
  nonempty : trusted≠[]

def Resolver.new (cidrs : List Text) : Except ConfigError Resolver :=
  match parseTrusted cidrs with
  | .error err => .error err
  | .ok trusted => if h : trusted≠[] then .ok ⟨trusted,h⟩ else .error .noCidr

def isTrustedPeer (trusted : List IpNet) (remoteAddress : Text) : Bool :=
  match splitHostPort remoteAddress with
  | .error _ => false
  | .ok (host, _) => match parseIp host with
    | none => false
    | some peer => trusted.any fun network => network.contains peer

def isps : List String := ["MCI", "Irancell", "Rightel", "Shatel", "TCI", "Asiatech", "Resalat", "Other"]

def normalizeIsp (value : Text) : Text :=
  if trimSpace value∈isps.map text then trimSpace value else []

def normalizeRegion (strings : Strings) (value : Text) : Text :=
  let value := strings.toLower (trimSpace value)
  if value=[] ∨ 63 < value.length then []
  else if value.all fun c => isLower c || isDigit c || c=ch '-' then value
  else []

def normalizeCountry (strings : Strings) (value : Text) : Text :=
  let value := strings.toUpper (trimSpace value)
  if value.length≠2 then [] else if value.all isUpper then value else []

inductive Attribute where
  | isp
  | region
  | country
  deriving DecidableEq

def Attribute.header : Attribute → Header
  | .isp => .isp
  | .region => .region
  | .country => .country

def Attribute.normalize (strings : Strings) : Attribute → Text → Text
  | .isp => normalizeIsp
  | .region => normalizeRegion strings
  | .country => normalizeCountry strings

def ClientContext.get (context : ClientContext) : Attribute → Text
  | .isp => context.isp
  | .region => context.region
  | .country => context.country

/- A header that is not valid leaves what was there. -/
def orElse (value default : Text) : Text := if value≠[] then value else default

def resolve (strings : Strings) (trusted : List IpNet) (request : Request) : ClientContext :=
  let context := detectClientContext (request.header .userAgent) request.remoteAddr
  if isTrustedPeer trusted request.remoteAddr then
    { context with
      isp := orElse (normalizeIsp (request.header .isp)) context.isp
      region := orElse (normalizeRegion strings (request.header .region)) context.region
      country := orElse (normalizeCountry strings (request.header .country)) context.country }
  else context

/- The resolver is there only if trusted networks are configured. -/
structure Server where
  resolver : Option Resolver

def Server.trusted (s : Server) : List IpNet := (s.resolver.map Resolver.trusted).getD []

def Server.resolveClientContext (strings : Strings) (s : Server) (request : Request) : ClientContext :=
  match s.resolver with
  | some resolver => resolve strings resolver.trusted request
  | none => detectClientContext (request.header .userAgent) request.remoteAddr

def firstEntry (value : Text) : Text :=
  match cut (ch ',') value with
  | some (entry, _) => entry
  | none => value

def clientIp (header : Header → Text) : Text :=
  if header .trueClientIp≠[] then header .trueClientIp
  else if header .xRealIp≠[] then header .xRealIp
  else firstEntry (header .xForwardedFor)

def realIp (header : Header → Text) : Option Text :=
  if clientIp header≠[] ∧ parseIp (clientIp header)≠none then some (clientIp header) else none

/- The middleware of chi. -/
def throughRealIp (request : Request) : Request :=
  { request with remoteAddr := (realIp request.header).getD request.remoteAddr }

def Server.serve (strings : Strings) (s : Server) (request : Request) : ClientContext :=
  s.resolveClientContext strings (throughRealIp request)

/- A peer of a TCP connection; its address is printed so that it is read back. -/
structure Peer where
  addr : Text
  ip : Ip
  printed : parseIp addr=some ip
  zone : Text
  port : Nat

def Peer.host (peer : Peer) : Text := if peer.zone=[] then peer.addr else peer.addr++ch '%' :: peer.zone

def Peer.remoteAddr (peer : Peer) : Text := joinHostPort peer.host peer.port

def Peer.Trusted (peer : Peer) (trusted : List IpNet) : Prop :=
  ∃ network∈trusted, network.contains peer.ip=true

/- A valid value of the header has become the attribute. -/
def Takes (strings : Strings) (context : ClientContext) (header : Header → Text) (a : Attribute) : Prop :=
  a.normalize strings (header a.header)≠[] ∧ context.get a=a.normalize strings (header a.header)

section
theorem parseIp_zone {addr zone : Text} : parseIp (addr++ch '%' :: zone)=none := by
  cases h : parseIp (addr++ch '%' :: zone) with
  | none => rfl
  | some ip =>
    exact absurd (List.mem_append_right _ List.mem_cons_self) (not_mem_of_parseIp h (c := ch '%') (by decide))

theorem parseIp_nil : parseIp []=none := rfl

variable {trusted : List IpNet}

/-- An address from a header stands without a port, so that no network ever holds it. -/
theorem isTrustedPeer_of_parseIp {s : Text} {ip : Ip} (h : parseIp s=some ip) :
    isTrustedPeer trusted s=false := by
  obtain ⟨err,hsplit⟩ := splitHostPort_of_parseIp h
  rw [isTrustedPeer,hsplit]

theorem Peer.addr_head (peer : Peer) : peer.addr.head? ≠ some (ch '[') := fun hhead =>
  not_mem_of_parseIp peer.printed (c := ch '[') (by decide) (List.mem_of_mem_head? hhead)

theorem Peer.addr_ne_nil (peer : Peer) : peer.addr≠[] := by
  intro hempty
  have hprinted := peer.printed
  rw [hempty,parseIp_nil] at hprinted
  cases hprinted

/-- The peer's own address is trusted if its network is, and if it has no zone. -/
theorem isTrustedPeer_remoteAddr_iff (peer : Peer) :
    isTrustedPeer trusted peer.remoteAddr=true ↔ peer.zone=[] ∧ peer.Trusted trusted := by
  by_cases hzone : peer.zone=[]
  · have hhost : peer.host=peer.addr := by rw [Peer.host,if_pos hzone]
    have hopen : ch '[' ∉ peer.addr := not_mem_of_parseIp peer.printed (by decide)
    have hclose : ch ']' ∉ peer.addr := not_mem_of_parseIp peer.printed (by decide)
    rw [isTrustedPeer,Peer.remoteAddr,hhost,splitHostPort_joinHostPort hopen hclose]
    dsimp only
    rw [peer.printed]
    simp [hzone,Peer.Trusted]
  · refine iff_of_false ?_ fun h => hzone h.1
    have hhost : peer.host=peer.addr++ch '%' :: peer.zone := by rw [Peer.host,if_neg hzone]
    have hhead : peer.host.head? ≠ some (ch '[') := by
      rw [hhost,List.head?_append_of_ne_nil _ peer.addr_ne_nil]
      exact peer.addr_head
    rw [Bool.not_eq_true,isTrustedPeer]
    split
    · rfl
    · rename_i host port hsplit
      have heq := host_of_splitHostPort hhead (by rw [hhost]; simp) hsplit
      rw [heq,hhost,parseIp_zone]

theorem get_resolve (strings : Strings) (request : Request) (a : Attribute) :
    (resolve strings trusted request).get a =
      if isTrustedPeer trusted request.remoteAddr then a.normalize strings (request.header a.header) else [] := by
  rw [resolve]
  split_ifs
  · cases a <;> simp [ClientContext.get,orElse,detectClientContext,Attribute.normalize,Attribute.header]
  · cases a <;> rfl

theorem get_resolveClientContext (strings : Strings) (s : Server) (request : Request) (a : Attribute) :
    (s.resolveClientContext strings request).get a =
      if isTrustedPeer s.trusted request.remoteAddr then a.normalize strings (request.header a.header) else [] := by
  rw [Server.resolveClientContext,Server.trusted]
  cases s.resolver with
  | some resolver => exact get_resolve strings request a
  | none =>
    have hnone : isTrustedPeer ((none : Option Resolver).map Resolver.trusted |>.getD []) request.remoteAddr=false := by
      rw [isTrustedPeer]
      split
      · rfl
      · split <;> rfl
    rw [hnone]
    cases a <;> rfl

theorem isTrustedPeer_throughRealIp_iff (peer : Peer) (header : Header → Text) :
    isTrustedPeer trusted (throughRealIp ⟨peer.remoteAddr,header⟩).remoteAddr=true ↔
      realIp header=none ∧ peer.zone=[] ∧ peer.Trusted trusted := by
  rw [throughRealIp]
  dsimp only
  cases hreal : realIp header with
  | none => simp [isTrustedPeer_remoteAddr_iff]
  | some ip =>
    refine iff_of_false ?_ (by simp)
    rw [realIp] at hreal
    split_ifs at hreal with hparse
    cases hreal
    obtain ⟨addr,haddr⟩ := Option.ne_none_iff_exists'.mp hparse.2
    rw [Option.getD_some,isTrustedPeer_of_parseIp haddr]
    exact Bool.false_ne_true

/-- A header counts exactly if its value is valid, the peer's address is without a zone and in a trusted
network, and no other header has an address to put in its place. -/
theorem takes_iff (strings : Strings) (s : Server) (peer : Peer) (header : Header → Text) (a : Attribute) :
    Takes strings (s.serve strings ⟨peer.remoteAddr,header⟩) header a ↔
      (peer.Trusted s.trusted ∧ a.normalize strings (header a.header)≠[]) ∧
        peer.zone=[] ∧ realIp header=none := by
  have hget : (s.serve strings ⟨peer.remoteAddr,header⟩).get a =
      if isTrustedPeer s.trusted (throughRealIp ⟨peer.remoteAddr,header⟩).remoteAddr then
        a.normalize strings (header a.header) else [] :=
    get_resolveClientContext strings s (throughRealIp ⟨peer.remoteAddr,header⟩) a
  rw [Takes,hget]
  constructor
  · rintro ⟨hvalid,htakes⟩
    split_ifs at htakes with htrusted
    · obtain ⟨hreal,hzone,hpeer⟩ := (isTrustedPeer_throughRealIp_iff peer header).mp htrusted
      exact ⟨⟨hpeer,hvalid⟩,hzone,hreal⟩
    · exact absurd htakes.symm hvalid
  · rintro ⟨⟨hpeer,hvalid⟩,hzone,hreal⟩
    rw [if_pos ((isTrustedPeer_throughRealIp_iff peer header).mpr ⟨hreal,hzone,hpeer⟩)]
    exact ⟨hvalid,rfl⟩
end

def asciiStrings : Strings where
  toLower := toLower
  toUpper s := s.map fun c => if isLower c then c-32 else c
  quote s := ch '"' :: s++[ch '"']

def ingress : Server := ⟨some ⟨[.v4 0x0a000000#32 0xff000000#32],List.cons_ne_nil _ _⟩⟩

def linkLocal : Server := ⟨some ⟨[(Addr.v6 0xfe800000000000000000000000000000#128 []).network 10],List.cons_ne_nil _ _⟩⟩

def edge : Peer := ⟨text "10.0.0.5",0xffff0a000005#128,by decide,[],40000⟩

def neighbour : Peer := ⟨text "fe80::1",0xfe800000000000000000000000000001#128,by decide,text "eth0",40000⟩

/- A proxy that says where its client is, and of which provider it is a customer. -/
def forwarded : Header → Text
  | .xForwardedFor => text "203.0.113.7"
  | .isp => text "MCI"
  | _ => []

def labelled : Header → Text
  | .isp => text "MCI"
  | _ => []

theorem trusted_header_ignored :
    (¬ ∀ (peer : Peer) (header : Header → Text) (a : Attribute), peer.zone=[] →
      (Takes asciiStrings (ingress.serve asciiStrings ⟨peer.remoteAddr,header⟩) header a ↔
        peer.Trusted ingress.trusted ∧ a.normalize asciiStrings (header a.header)≠[])) ∧
    ¬ ∀ (peer : Peer) (header : Header → Text) (a : Attribute), realIp header=none →
      (Takes asciiStrings (linkLocal.serve asciiStrings ⟨peer.remoteAddr,header⟩) header a ↔
        peer.Trusted linkLocal.trusted ∧ a.normalize asciiStrings (header a.header)≠[]) := by
  constructor
  · intro h
    have htakes := (h edge forwarded .isp rfl).mpr ⟨⟨_,List.mem_cons_self,by decide⟩,by decide⟩
    exact absurd htakes.2 (by decide)
  · intro h
    have htakes := (h neighbour labelled .isp rfl).mpr ⟨⟨_,List.mem_cons_self,by decide⟩,by decide⟩
    exact absurd htakes.2 (by decide)

end AetherX.NetworkContext
