import AetherX.ConfigBuilder

/-! Whether a client that reads a share link as a URI finds the endpoint that was published. -/
namespace AetherX.ShareLink
open ByteText NetAddr Url ConfigBuilder

inductive Credential where
  | uuid (u : Text)
  | password (p : Text)
  | cipher (method password : Text)
  | account (uuid password : Text)
  deriving DecidableEq

structure Share where
  credential : Credential
  address : Text
  port : Int
  remark : Text
  deriving DecidableEq

/- Method and password stand in base64url behind ss, the two parts of an account are escaped each for
itself. -/
def readCredential (scheme userinfo : Text) : Option Credential :=
  if scheme=text "vless" then (unescape userinfo).map .uuid
  else if scheme=text "trojan" ∨ scheme=text "hysteria2" then (unescape userinfo).map .password
  else if scheme=text "ss" then do
    let raw ← unescape userinfo
    let bytes ← Base64.decode Token.urlSafe (raw.map asChar)
    (cut (ch ':') bytes).map fun (method, password) => .cipher method password
  else if scheme=text "tuic" then do
    let (uuid, password) ← cut (ch ':') userinfo
    let uuid ← unescape uuid
    let password ← unescape password
    some (.account uuid password)
  else none

def readUri (s : Text) : Option Share := do
  let uri ← parse s
  let userinfo ← uri.userinfo
  let credential ← readCredential uri.scheme userinfo
  let port ← uri.port
  let fragment ← uri.fragment
  let remark ← unescape fragment
  some ⟨credential,uri.host.text,port,remark⟩

def readLink : Link → Option Share
  | .uri s => readUri s
  | .none | .vmess _ => none

def credential (n : NodeConfig) : Option Credential :=
  match n.protocol with
  | .vless | .vmess => some (.uuid n.uuid)
  | .trojan | .hysteria2 => some (.password n.password)
  | .shadowsocks => some (.cipher (shadowsocksMethod n) n.password)
  | .tuic => some (.account n.uuid n.password)
  | .other _ => none

section
variable {cfg : ProxyLinkConfig}

theorem formatInt_of_nonneg {n : Int} (h : 0 ≤ n) : formatInt n=decimal n.toNat := by
  rw [formatInt,if_neg (by omega)]
  congr 1
  omega

theorem map_plus_eq_self_iff {s : Text} : s.map plus=s ↔ ch ' ' ∉ s := by
  induction s with
  | nil => simp
  | cons c s ih =>
    rw [List.map_cons,List.cons.injEq,ih,List.mem_cons,not_or]
    refine and_congr_left fun _ => ?_
    rw [plus]
    split_ifs with hblank
    · simp only [hblank,not_true_eq_false,iff_false]
      decide
    · simp [Ne.symm hblank]

/- The addresses that a URI carries as they are. -/
def Plainly (address : Text) : Prop := ch ':' ∉ address ∧ trimSpace address=address

variable {c : UInt8} {address : Text}

theorem not_ends_of_hostChar (h : hostChar c=true ∨ isGraphic c=false) : ¬ Ends c ∧ c≠ch '[' := by
  have hall : ∀ n<256, (hostChar (UInt8.ofNat n)=true ∨ isGraphic (UInt8.ofNat n)=false) →
      ¬ Ends (UInt8.ofNat n) ∧ UInt8.ofNat n≠ch '[' := by decide +kernel
  exact forall_byte (P := fun c => (hostChar c=true ∨ isGraphic c=false) → ¬ Ends c ∧ c≠ch '[') hall c h

theorem regName_of_hostChar (h : hostChar c=true) (hcolon : c≠ch ':') :
    regName c=true ∧ c≠ch '%' := by
  have hall : ∀ n<256, hostChar (UInt8.ofNat n)=true → UInt8.ofNat n≠ch ':' →
      regName (UInt8.ofNat n)=true ∧ UInt8.ofNat n≠ch '%' := by decide +kernel
  exact forall_byte (P := fun c => hostChar c=true → c≠ch ':' → regName c=true ∧ c≠ch '%') hall c h hcolon

theorem address_char (h : validPublishedHost address=true) (hc : c∈address) :
    ¬ Ends c ∧ c≠ch '[' := by
  refine not_ends_of_hostChar ?_
  obtain htrim | hspace := mem_trimSpace hc
  · exact .inl (hostChar_of_valid h htrim)
  · exact .inr hspace

theorem head_ne_of_valid (h : validPublishedHost address=true) :
    address.head? ≠ some (ch '[') := by
  intro hhead
  exact (address_char h (List.mem_of_head? hhead)).2 rfl

theorem parseHost_of_plainly (hvalid : validPublishedHost address=true) (h : Plainly address)
    (port : Nat) : parseHost (address++ch ':' :: decimal port)=some (.name address, some port) := by
  have hwell : wellFormed regName address=true := wellFormed_of_forall fun c hc => by
    refine regName_of_hostChar (hostChar_of_valid hvalid (by rwa [h.2])) ?_
    rintro rfl
    exact h.1 hc
  rw [parseHost_name h.1 (head_ne_of_valid hvalid),if_pos hwell]

/-- Of the accepted addresses a parser of URIs finds again those without colons and without white
space around them. -/
theorem plainly_of_parseHost (hvalid : validPublishedHost address=true) {port : Nat}
    {host : Host} {port' : Option Nat}
    (h : parseHost (address++ch ':' :: decimal port)=some (host, port'))
    (htext : host.text=address) : Plainly address := by
  have hhead := head_ne_of_valid hvalid
  have hcolon : ch ':' ∉ address := fun hcolon => parseHost_ne hcolon hhead h htext
  rw [parseHost_name hcolon hhead] at h
  split_ifs at h with hwell
  exact ⟨hcolon,trimSpace_of_graphic fun c hc => graphic_of_wellFormed hwell hc⟩

theorem unreserved_subset_queryChar (h : unreserved c=true) : queryChar c=true := by
  rw [queryChar,pchar,h]
  rfl

theorem parse_shareLink {scheme : String} {userinfo : Text} {params : Option Values}
    (haccepted : Accepted cfg.node) (hscheme : isScheme (text scheme)=true)
    (huserinfo : wellFormed userinfoChar userinfo=true) :
    parse (shareLink scheme userinfo cfg params) =
      (parseHost (cfg.node.address++ch ':' :: decimal cfg.node.port.toNat)).map fun (host, port) =>
        ⟨text scheme,some userinfo,host,port,[],params.map Values.encode,some (queryEscape cfg.remark)⟩ := by
  have hport := haccepted.port
  rw [shareLink,formatInt_of_nonneg (by omega)]
  refine parse_link hscheme huserinfo (fun c hc => ?_) ?_ ?_
  · obtain hc | hc := List.mem_append.mp hc
    · exact (address_char haccepted.address hc).1
    · obtain rfl | hc := List.mem_cons.mp hc
      · decide
      · have hdigit := isDigit_of_mem_decimal hc
        rintro (rfl | rfl | rfl) <;> exact absurd hdigit (by decide)
  · cases params with
    | none => rfl
    | some params =>
      exact wellFormed_encode (by decide) (by decide) (by decide) (fun _ => unreserved_subset_queryChar) params
  · exact wellFormed_queryEscape (by decide) (fun _ => unreserved_subset_queryChar) cfg.remark

/-- A link is read back if its credential is, its address stands plainly in it, and its remark has
no blank: the blank was escaped as in a form, where a fragment has a plus sign. -/
theorem readUri_shareLink_iff {scheme : String} {userinfo : Text} (params : Option Values) (cred : Credential)
    (haccepted : Accepted cfg.node) (hscheme : isScheme (text scheme)=true)
    (huserinfo : wellFormed userinfoChar userinfo=true) :
    readUri (shareLink scheme userinfo cfg params) =
        some ⟨cred,cfg.node.address,cfg.node.port,cfg.remark⟩ ↔
      readCredential (text scheme) userinfo=some cred ∧ Plainly cfg.node.address ∧ ch ' ' ∉ cfg.remark := by
  have hport := haccepted.port
  rw [← map_plus_eq_self_iff,readUri,parse_shareLink haccepted hscheme huserinfo]
  constructor
  · intro hread
    cases hparse : parseHost (cfg.node.address++ch ':' :: decimal cfg.node.port.toNat) with
    | none => simp [hparse] at hread
    | some found =>
      obtain ⟨host,port⟩ := found
      simp only [hparse,Option.map_some,Option.bind_eq_bind,Option.bind_some,unescape_queryEscape,
        Option.bind_eq_some_iff,Option.some.injEq,Share.mk.injEq] at hread
      obtain ⟨cred',hcred,port',-,rfl,haddress,-,hremark⟩ := hread
      exact ⟨hcred,plainly_of_parseHost haccepted.address hparse haddress,hremark⟩
  · rintro ⟨hcred,hplain,hremark⟩
    simp only [parseHost_of_plainly haccepted.address hplain,Option.map_some,Option.bind_eq_bind,Option.bind_some,
      hcred,unescape_queryEscape,hremark,Host.text]
    rw [Int.toNat_of_nonneg (by omega)]
end

section
variable {cfg : ProxyLinkConfig}

theorem unescape_of_not_mem {s : Text} (h : ch '%' ∉ s) : unescape s=some s := by
  induction s with
  | nil => rfl
  | cons c s ih =>
    obtain ⟨hc,hs⟩ := not_or.mp (List.mem_cons.not.mp h)
    rw [unescape_cons (Ne.symm hc),ih hs]
    rfl

theorem unescape_user (name : Text) : unescape (user name)=some name := unescape_escape (by decide) name

theorem wellFormed_user (name : Text) : wellFormed userinfoChar (user name)=true := by
  have hall : ∀ n<256, userinfoKept (UInt8.ofNat n)=true → userinfoChar (UInt8.ofNat n)=true := by
    decide +kernel
  exact wellFormed_escape (by decide)
    (forall_byte (P := fun c => userinfoKept c=true → userinfoChar c=true) hall) name

theorem colon_not_mem_user (name : Text) : ch ':' ∉ user name := by
  have hwell : wellFormed userinfoKept (user name)=true := wellFormed_escape (by decide) (fun _ hc => hc) name
  exact not_mem_of_wellFormed hwell (by decide) (by decide) (by decide)

theorem wellFormed_userPassword (name password : Text) :
    wellFormed userinfoChar (userPassword name password)=true := by
  rw [userPassword,wellFormed_append (wellFormed_user name),wellFormed_cons (by decide),wellFormed_user]
  rfl

theorem readCredential_uuid (uuid : Text) : readCredential (text "vless") (user uuid)=some (.uuid uuid) := by
  rw [readCredential,if_pos rfl,unescape_user]
  rfl

theorem readCredential_password {scheme : Text} (h : scheme=text "trojan" ∨ scheme=text "hysteria2")
    (password : Text) : readCredential scheme (user password)=some (.password password) := by
  have hvless : scheme≠text "vless" := by
    obtain rfl | rfl := h <;> decide
  rw [readCredential,if_neg hvless,if_pos h,unescape_user]
  rfl

theorem readCredential_account (uuid password : Text) :
    readCredential (text "tuic") (userPassword uuid password)=some (.account uuid password) := by
  rw [readCredential,if_neg (by decide),if_neg (by decide),if_neg (by decide),if_pos rfl,userPassword,
    cut_append (colon_not_mem_user uuid)]
  simp only [Option.bind_eq_bind,Option.bind_some,unescape_user]

theorem mem_shadowsocksUser {n : NodeConfig} {c : UInt8} (h : c∈shadowsocksUser n) :
    unreserved c=true := by
  obtain ⟨d,hd,rfl⟩ := List.mem_map.mp h
  have hall : (Token.urlSafe.chars.all fun d => unreserved (ch d))=true := by decide +kernel
  exact List.all_eq_true.mp hall d (Base64.encode_subset Token.urlSafe _ hd)

theorem wellFormed_shadowsocksUser (n : NodeConfig) : wellFormed userinfoChar (shadowsocksUser n)=true := by
  refine wellFormed_of_forall fun c hc => ?_
  have hkeep := mem_shadowsocksUser hc
  refine ⟨by rw [userinfoChar,hkeep]; rfl,?_⟩
  rintro rfl
  exact absurd hkeep (by decide)

/-- The password may have colons in it, the method may not. -/
theorem readCredential_cipher_iff (n : NodeConfig) :
    readCredential (text "ss") (shadowsocksUser n)=some (.cipher (shadowsocksMethod n) n.password) ↔
      ch ':' ∉ shadowsocksMethod n := by
  have hpercent : ch '%' ∉ shadowsocksUser n := fun hmem => absurd (mem_shadowsocksUser hmem) (by decide)
  have hchars : (shadowsocksUser n).map asChar =
      Base64.encode Token.urlSafe (shadowsocksMethod n++ch ':' :: n.password) := by
    have hall : (Token.urlSafe.chars.all fun d => asChar (ch d) == d)=true := by decide +kernel
    rw [shadowsocksUser,List.map_map]
    conv_rhs => rw [← List.map_id (Base64.encode _ _)]
    refine List.map_congr_left fun d hd => ?_
    exact beq_iff_eq.mp (List.all_eq_true.mp hall d (Base64.encode_subset Token.urlSafe _ hd))
  rw [readCredential,if_neg (by decide),if_neg (by decide),if_pos rfl,unescape_of_not_mem hpercent]
  simp only [Option.bind_eq_bind,Option.bind_some,hchars,Base64.decode_encode_bytes]
  constructor
  · intro hread
    obtain ⟨⟨method,password⟩,hcut,heq⟩ := Option.map_eq_some_iff.mp hread
    cases heq
    exact (eq_of_cut hcut).2
  · intro hcolon
    rw [cut_append hcolon]
    rfl
end

/- The protocols whose links are URIs. -/
def sharedAsUri : List Protocol := [.vless,.trojan,.shadowsocks,.hysteria2,.tuic]

/- The link is read, and what is read is the credential, the address and the port of the node and the
remark. -/
def RoundTrips (cfg : ProxyLinkConfig) : Prop :=
  ∃ cred∈credential cfg.node,
    readLink (buildProxyLink cfg)=some ⟨cred,cfg.node.address,cfg.node.port,cfg.remark⟩

instance (cfg : ProxyLinkConfig) : Decidable (RoundTrips cfg) := inferInstanceAs (Decidable (∃ cred∈_, _))

theorem roundTrips_shareLink_iff {cfg : ProxyLinkConfig} (haccepted : Accepted cfg.node) {scheme : String}
    {userinfo : Text} {params : Option Values} {cred : Credential} (hcred : credential cfg.node=some cred)
    (hlink : buildProxyLink cfg = .uri (shareLink scheme userinfo cfg params))
    (hscheme : isScheme (text scheme)=true) (huserinfo : wellFormed userinfoChar userinfo=true) :
    RoundTrips cfg ↔
      readCredential (text scheme) userinfo=some cred ∧ Plainly cfg.node.address ∧ ch ' ' ∉ cfg.remark := by
  have hiff := readUri_shareLink_iff params cred haccepted hscheme huserinfo
  rw [← hiff,RoundTrips,hcred,hlink]
  simp [readLink]

/-- A link round trips exactly if a URI can hold its address without brackets, its remark has no
blank, and a cipher can be told from the password behind it. -/
theorem roundTrips_iff (cfg : ProxyLinkConfig) (hvalid : validateNodeConfig cfg.node = .ok ())
    (hprotocol : cfg.node.protocol∈sharedAsUri) :
    RoundTrips cfg ↔
      (ch ':' ∉ cfg.node.address ∧ trimSpace cfg.node.address=cfg.node.address) ∧ ch ' ' ∉ cfg.remark ∧
        (cfg.node.protocol = .shadowsocks → ch ':' ∉ shadowsocksMethod cfg.node) := by
  have haccepted := accepted_of_ok hvalid
  simp only [sharedAsUri,List.mem_cons,List.not_mem_nil,or_false] at hprotocol
  obtain h | h | h | h | h := hprotocol
  · rw [roundTrips_shareLink_iff haccepted (by rw [credential,h]) (by rw [buildProxyLink,h,buildVlessLink])
      (by decide) (wellFormed_user _),readCredential_uuid]
    simp [h,Plainly]
  · rw [roundTrips_shareLink_iff haccepted (by rw [credential,h]) (by rw [buildProxyLink,h,buildTrojanLink])
      (by decide) (wellFormed_user _),readCredential_password (.inl rfl)]
    simp [h,Plainly]
  · rw [roundTrips_shareLink_iff haccepted (by rw [credential,h]) (by rw [buildProxyLink,h,buildSSLink])
      (by decide) (wellFormed_shadowsocksUser _),readCredential_cipher_iff]
    simp only [h,Plainly,true_implies]
    tauto
  · rw [roundTrips_shareLink_iff haccepted (by rw [credential,h]) (by rw [buildProxyLink,h,buildHysteria2Link])
      (by decide) (wellFormed_user _),readCredential_password (.inr rfl)]
    simp [h,Plainly]
  · rw [roundTrips_shareLink_iff haccepted (by rw [credential,h]) (by rw [buildProxyLink,h,buildTuicLink])
      (by decide) (wellFormed_userPassword _ _),readCredential_account]
    simp [h,Plainly]

def published (address : String) (remark : String) : ProxyLinkConfig where
  remark := text remark
  fragPath := text "sub"
  node := { id := text "node-1", address := text address, port := 443, protocol := .shadowsocks,
            password := text "p@ss:word", transport := .tcp }

theorem roundTrips_iff_named : RoundTrips (published "edge.aether.net" "edge/1") := by
  refine (roundTrips_iff (published "edge.aether.net" "edge/1") ?_ ?_).mpr ⟨⟨?_,?_⟩,?_,?_⟩ <;> decide +kernel

/-- Accepted nodes whose links lead elsewhere or nowhere: an IPv6 address, a remark with a blank in
it, a cipher with a colon. -/
theorem links_not_read_back :
    (¬ ∀ cfg : ProxyLinkConfig, validateNodeConfig cfg.node = .ok () → cfg.node.protocol∈sharedAsUri →
      ch ' ' ∉ cfg.remark → RoundTrips cfg) ∧
    (¬ ∀ cfg : ProxyLinkConfig, validateNodeConfig cfg.node = .ok () → cfg.node.protocol∈sharedAsUri →
      ch ':' ∉ cfg.node.address → RoundTrips cfg) ∧
    ¬ ∀ cfg : ProxyLinkConfig, validateNodeConfig cfg.node = .ok () → cfg.node.protocol∈sharedAsUri →
      ch ':' ∉ cfg.node.address → ch ' ' ∉ cfg.remark → RoundTrips cfg := by
  refine ⟨fun h => ?_,fun h => ?_,fun h => ?_⟩
  · have hread := h (published "2001:db8::1" "edge") (by decide +kernel) (by decide) (by decide)
    revert hread
    decide +kernel
  · have hread := h (published "edge.aether.net" "Aether-X node-1") (by decide +kernel) (by decide) (by decide)
    revert hread
    decide +kernel
  · have hread := h
      { published "edge.aether.net" "edge" with
        node := { (published "edge.aether.net" "edge").node with encryption := text "aes:gcm" } }
      (by decide +kernel) (by decide) (by decide) (by decide)
    revert hread
    decide +kernel

end AetherX.ShareLink
