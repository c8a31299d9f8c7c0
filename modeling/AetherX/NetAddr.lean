import Mathlib.Data.List.TakeWhile
import AetherX.ByteText

/-! Internet addresses as texts: the addresses that are read from them, the networks of a CIDR
prefix, and the splitting of a host from its port. An address has 16 bytes; one of four bytes stands
in the last four of them behind ::ffff. -/
namespace AetherX.NetAddr
open ByteText List

abbrev Ip := BitVec 128

def mapped : BitVec 96 := 0xffff#96

def Ip.ofV4 (a : BitVec 32) : Ip := mapped++a

def Ip.to4 (ip : Ip) : Option (BitVec 32) :=
  if ip.extractLsb' 32 96=mapped then some (ip.extractLsb' 0 32) else none

/- The four numbers of a dotted address; digits counts those of the number at hand. -/
def ipv4Fields (val digits : Nat) (fields : List Nat) : Text → Option (List Nat)
  | [] => if fields.length<3 then none else some (fields++[val])
  | c::s =>
    if isDigit c then
      if digits=1 ∧ val=0 then none
      else if val*10+(c.toNat - '0'.toNat) > 255 then none
      else ipv4Fields (val*10+(c.toNat - '0'.toNat)) (digits+1) fields s
    else if c=ch '.' then
      if digits=0 ∨ s=[] then none
      else if fields.length=3 then none
      else ipv4Fields 0 0 (fields++[val]) s
    else none

def parseIpv4Fields (s : Text) : Option (List Nat) := ipv4Fields 0 0 [] s

def hexNumber (digits : Text) : Nat := digits.foldl (fun acc c => acc*16+(hexValue c).getD 0) 0

/- What reading one group of sixteen bits leads to: the groups so far with the place of the ellipsis
   among them, and the text that is left. -/
inductive Step where
  | fail
  | done (groups : List Nat) (ellipsis : Option Nat)
  | more (groups : List Nat) (ellipsis : Option Nat) (rest : Text)

def afterColon (groups : List Nat) (ellipsis : Option Nat) : Text → Step
  | [] => .fail
  | c::rest =>
    if c=ch ':' then
      if ellipsis≠none then .fail
      else if rest=[] then .done groups (some groups.length)
      else .more groups (some groups.length) rest
    else .more groups ellipsis (c::rest)

/- A dotted address takes the place of the last two groups. -/
def dotted (groups : List Nat) (ellipsis : Option Nat) (s : Text) : Step :=
  if ellipsis=none ∧ groups.length≠6 then .fail
  else if 8 < groups.length+2 then .fail
  else match parseIpv4Fields s with
    | some [a,b,c,d] => .done (groups++[a*256+b,c*256+d]) ellipsis
    | _ => .fail

def ipv6Step (groups : List Nat) (ellipsis : Option Nat) (s : Text) : Step :=
  let digits := s.takeWhile isHex
  if digits=[] ∨ 4 < digits.length then .fail
  else match s.dropWhile isHex with
    | [] => .done (groups++[hexNumber digits]) ellipsis
    | c::rest =>
      if c=ch '.' then dotted groups ellipsis s
      else if c=ch ':' then afterColon (groups++[hexNumber digits]) ellipsis rest
      else .fail

def ipv6Groups : Nat → List Nat → Option Nat → Text → Option (List Nat × Option Nat × Text)
  | 0, groups, ellipsis, s => some (groups, ellipsis, s)
  | room+1, groups, ellipsis, s =>
    match ipv6Step groups ellipsis s with
    | .fail => none
    | .done groups ellipsis => some (groups, ellipsis, [])
    | .more groups ellipsis rest => ipv6Groups room groups ellipsis rest

def expand (groups : List Nat) : Option Nat → Option (List Nat)
  | none => if groups.length<8 then none else some groups
  | some ellipsis =>
    if groups.length<8 then
      some (groups.take ellipsis++List.replicate (8-groups.length) 0++groups.drop ellipsis)
    else none

def ofGroups (base : Nat) (groups : List Nat) : Nat := groups.foldl (fun acc g => acc*base+g) 0

inductive Addr where
  | v4 (a : BitVec 32)
  | v6 (a : Ip) (zone : Text)
  deriving DecidableEq

def parseIpv4 (s : Text) : Option Addr :=
  (parseIpv4Fields s).map fun fields => .v4 (BitVec.ofNat 32 (ofGroups 256 fields))

def dropEllipsis : Text → Option Text
  | c::d::rest => if c=ch ':' ∧ d=ch ':' then some rest else none
  | _ => none

def parseGroups (s : Text) : Option (List Nat × Option Nat × Text) :=
  match dropEllipsis s with
  | some [] => some ([], some 0, [])
  | some rest => ipv6Groups 8 [] (some 0) rest
  | none => ipv6Groups 8 [] none s

def parseIpv6Bare (s : Text) : Option Ip :=
  match parseGroups s with
  | some (groups, ellipsis, []) =>
    (expand groups ellipsis).map fun groups => BitVec.ofNat 128 (ofGroups 65536 groups)
  | _ => none

def parseIpv6 (s : Text) : Option Addr :=
  match cut (ch '%') s with
  | none => (parseIpv6Bare s).map fun a => .v6 a []
  | some (s, zone) => if zone=[] then none else (parseIpv6Bare s).map fun a => .v6 a zone

def parseAddr (s : Text) : Option Addr :=
  match s.find? fun c => c=ch '.' || c=ch ':' || c=ch '%' with
  | none => none
  | some c => if c=ch '.' then parseIpv4 s else if c=ch ':' then parseIpv6 s else none

def Addr.as16 : Addr → Ip
  | .v4 a => .ofV4 a
  | .v6 a _ => a

def Addr.bitLen : Addr → Nat
  | .v4 _ => 32
  | .v6 _ _ => 128

def Addr.zone : Addr → Text
  | .v4 _ => []
  | .v6 _ zone => zone

def parseIp (s : Text) : Option Ip :=
  match parseAddr s with
  | some addr => if addr.zone=[] then some addr.as16 else none
  | none => none

example : parseIp (text "192.0.2.1")=some 0xffffc0000201#128 := by decide
example : parseIp (text "2001:db8::1")=some 0x20010db8000000000000000000000001#128 := by decide
example : parseIp (text "fe80::1%eth0")=none := by decide
example : parseIp (text "::ffff:192.0.2.1")=some 0xffffc0000201#128 := by decide
example : parseIp (text "01.2.3.4")=none := by decide

section
def Plain (c : UInt8) : Prop := isHex c=true ∨ c=ch '.' ∨ c=ch ':'

instance (c : UInt8) : Decidable (Plain c) := inferInstanceAs (Decidable (_ ∨ _))

theorem isHex_of_isDigit {c : UInt8} (h : isDigit c=true) : isHex c=true := by
  rw [isHex,hexValue,if_pos h]
  rfl

theorem plain_of_ipv4Fields {val digits : Nat} {fields fields' : List Nat} {s : Text}
    (h : ipv4Fields val digits fields s=some fields') : ∀ c∈s, isDigit c=true ∨ c=ch '.' := by
  induction s generalizing val digits fields with
  | nil => simp
  | cons c s ih =>
    rw [ipv4Fields] at h
    split_ifs at h with hdigit _ _ hdot
    · exact forall_mem_cons.mpr ⟨.inl hdigit,ih h⟩
    · exact forall_mem_cons.mpr ⟨.inr hdot,ih h⟩

/- Nothing but the characters of an address, enough colons for the groups that were read, and two of
   them for an ellipsis. -/
structure GroupsFrom (groups : List Nat) (ellipsis : Option Nat) (s : Text) (groups' : List Nat)
    (ellipsis' : Option Nat) : Prop where
  plain : ∀ c∈s, Plain c
  groups : groups'.length ≤ groups.length+2+s.count (ch ':')
  ellipsis : ellipsis=none → ellipsis'≠none → 2 ≤ s.count (ch ':')

def Step.Reads (groups : List Nat) (ellipsis : Option Nat) (s : Text) : Step → Prop
  | .fail => True
  | .done groups' ellipsis' => GroupsFrom groups ellipsis s groups' ellipsis'
  | .more groups' ellipsis' rest => ∀ groups'' ellipsis'', GroupsFrom groups' ellipsis' rest groups'' ellipsis'' →
      GroupsFrom groups ellipsis s groups'' ellipsis''

variable {groups groups' : List Nat} {ellipsis ellipsis' : Option Nat} {s : Text}

theorem dotted_reads : (dotted groups ellipsis s).Reads groups ellipsis s := by
  rw [dotted]
  split
  · trivial
  · split
    · trivial
    · split
      · rename_i a b c d hfields
        refine ⟨fun c hc => ?_,by simp,fun hnone hsome => absurd hnone hsome⟩
        obtain hdigit | hdot := plain_of_ipv4Fields hfields c hc
        · exact .inl (isHex_of_isDigit hdigit)
        · exact .inr (.inl hdot)
      · trivial

theorem afterColon_reads (groups : List Nat) (ellipsis : Option Nat) {digits : Text} (rest : Text)
    (hdigits : ∀ c∈digits, Plain c) (g : Nat) :
    (afterColon (groups++[g]) ellipsis rest).Reads groups ellipsis (digits++ch ':' :: rest) := by
  have hplain : ∀ {t : Text}, (∀ c∈t, Plain c) → ∀ c∈digits++ch ':' :: t, Plain c := by
    intro t ht c hc
    obtain hc | hc := mem_append.mp hc
    · exact hdigits c hc
    · obtain rfl | hc := mem_cons.mp hc
      · exact .inr (.inr rfl)
      · exact ht c hc
  cases rest with
  | nil => trivial
  | cons c rest =>
    rw [afterColon]
    split
    · rename_i hc
      subst hc
      have hcount : (digits++ch ':' :: ch ':' :: rest).count (ch ':') =
          digits.count (ch ':')+rest.count (ch ':')+2 := by
        simp only [count_append,count_cons_self]
        omega
      split
      · trivial
      · split
        · rename_i hrest
          subst hrest
          refine ⟨hplain (by simp [Plain]),?_,fun _ _ => by omega⟩
          rw [hcount,length_append]
          simp
          omega
        · intro groups'' ellipsis'' h
          have hgroups := h.groups
          rw [length_append,length_singleton] at hgroups
          refine ⟨hplain (forall_mem_cons.mpr ⟨.inr (.inr rfl),h.plain⟩),?_,fun _ _ => ?_⟩
          · omega
          · omega
    · intro groups'' ellipsis'' h
      have hgroups := h.groups
      have hcount : (digits++ch ':' :: c::rest).count (ch ':') =
          digits.count (ch ':')+(c::rest).count (ch ':')+1 := by
        simp only [count_append,count_cons_self]
        omega
      rw [length_append,length_singleton] at hgroups
      refine ⟨hplain h.plain,by omega,fun hnone hsome => ?_⟩
      have := h.ellipsis hnone hsome
      omega

theorem ipv6Step_reads : (ipv6Step groups ellipsis s).Reads groups ellipsis s := by
  have hs : s.takeWhile isHex++s.dropWhile isHex=s := takeWhile_append_dropWhile
  have hdigits : ∀ c∈s.takeWhile isHex, Plain c := fun c hc => .inl (mem_takeWhile_imp hc)
  rw [ipv6Step]
  split
  · trivial
  · split
    · rename_i hrest
      rw [hrest,append_nil] at hs
      exact ⟨hs ▸ hdigits,by simp; omega,fun hnone hsome => absurd hnone hsome⟩
    · rename_i c rest hrest
      split
      · exact dotted_reads
      · split
        · rename_i hcolon
          rw [hrest,hcolon] at hs
          have hreads := afterColon_reads groups ellipsis rest hdigits (hexNumber (s.takeWhile isHex))
          rwa [hs] at hreads
        · trivial

theorem groupsFrom_ipv6Groups {room : Nat}
    (h : ipv6Groups room groups ellipsis s=some (groups', ellipsis', [])) :
    GroupsFrom groups ellipsis s groups' ellipsis' := by
  induction room generalizing groups ellipsis s with
  | zero =>
    cases h
    exact ⟨by simp,by simp,fun hnone hsome => absurd hnone hsome⟩
  | succ room ih =>
    have hstep : (ipv6Step groups ellipsis s).Reads groups ellipsis s := ipv6Step_reads
    rw [ipv6Groups] at h
    split at h
    · cases h
    · rename_i hdone
      rw [hdone] at hstep
      cases h
      exact hstep
    · rename_i hmore
      rw [hmore] at hstep
      exact hstep _ _ (ih h)

theorem plain_of_parseIpv4 {a : Addr} (h : parseIpv4 s=some a) : ∀ c∈s, isDigit c=true ∨ c=ch '.' := by
  obtain ⟨fields,hfields,-⟩ := Option.map_eq_some_iff.mp h
  exact plain_of_ipv4Fields hfields

theorem two_colons_of_expand (h : GroupsFrom [] none s groups ellipsis) {groups' : List Nat}
    (hexpand : expand groups ellipsis=some groups') : 2 ≤ s.count (ch ':') := by
  cases ellipsis with
  | some place => exact h.ellipsis rfl (Option.some_ne_none place)
  | none =>
    have hgroups := h.groups
    rw [length_nil] at hgroups
    rw [expand] at hexpand
    split_ifs at hexpand
    omega

theorem eq_of_dropEllipsis {rest : Text} (h : dropEllipsis s=some rest) : s=ch ':' :: ch ':' :: rest := by
  rw [dropEllipsis.eq_def] at h
  split at h
  · split_ifs at h with hcolons
    rw [hcolons.1,hcolons.2,Option.some.inj h]
  · cases h

theorem plain_of_parseIpv6Bare {a : Ip} (h : parseIpv6Bare s=some a) :
    (∀ c∈s, Plain c) ∧ 2 ≤ s.count (ch ':') := by
  rw [parseIpv6Bare] at h
  split at h
  · rename_i groups ellipsis hparsed
    obtain ⟨groups',hexpand,-⟩ := Option.map_eq_some_iff.mp h
    rw [parseGroups] at hparsed
    split at hparsed
    · rename_i hdrop
      rw [eq_of_dropEllipsis hdrop]
      exact ⟨by simp [Plain],by simp⟩
    · rename_i rest hdrop
      have hread := groupsFrom_ipv6Groups hparsed
      have hcolon : Plain (ch ':') := .inr (.inr rfl)
      rw [eq_of_dropEllipsis hdrop]
      refine ⟨forall_mem_cons.mpr ⟨hcolon,forall_mem_cons.mpr ⟨hcolon,hread.plain⟩⟩,?_⟩
      rw [count_cons_self,count_cons_self]
      omega
    · have hread := groupsFrom_ipv6Groups hparsed
      exact ⟨hread.plain,two_colons_of_expand hread hexpand⟩
  · cases h

/-- The text of an address is a dotted one without colons, or has at least two of them; there is
nothing in it but hexadecimal digits, dots and colons. -/
theorem chars_of_parseIp {ip : Ip} (h : parseIp s=some ip) :
    (∀ c∈s, Plain c) ∧ (ch ':' ∉ s ∨ 2 ≤ s.count (ch ':')) := by
  rw [parseIp] at h
  split at h
  · rename_i addr haddr
    split_ifs at h with hzone
    rw [parseAddr] at haddr
    split at haddr
    · cases haddr
    · split_ifs at haddr
      · have hchars := plain_of_parseIpv4 haddr
        refine ⟨fun c hc => ?_,.inl fun hcolon => ?_⟩
        · obtain hdigit | hdot := hchars c hc
          · exact .inl (isHex_of_isDigit hdigit)
          · exact .inr (.inl hdot)
        · exact absurd (hchars _ hcolon) (by decide)
      · rw [parseIpv6] at haddr
        split at haddr
        · obtain ⟨a,ha,-⟩ := Option.map_eq_some_iff.mp haddr
          obtain ⟨hplain,hcolons⟩ := plain_of_parseIpv6Bare ha
          exact ⟨hplain,.inr hcolons⟩
        · split_ifs at haddr with hempty
          obtain ⟨a,-,rfl⟩ := Option.map_eq_some_iff.mp haddr
          exact absurd hzone hempty
  · cases h

theorem not_mem_of_parseIp {ip : Ip} (h : parseIp s=some ip) {c : UInt8} (hc : ¬ Plain c) : c∉s :=
  fun hmem => hc ((chars_of_parseIp h).1 c hmem)
end

def cidrMask (ones width : Nat) : BitVec width := BitVec.allOnes width <<< (width-ones)

inductive IpNet where
  | v4 (number mask : BitVec 32)
  | v6 (number mask : Ip)
  deriving DecidableEq

def Addr.network (ones : Nat) : Addr → IpNet
  | .v4 a => .v4 (a &&& cidrMask ones 32) (cidrMask ones 32)
  | .v6 a _ => .v6 (a &&& cidrMask ones 128) (cidrMask ones 128)

def parseCidr (s : Text) : Option IpNet :=
  match cut (ch '/') s with
  | none => none
  | some (addr, mask) => match parseAddr addr, parseDecimal mask with
    | some addr, some ones => if addr.zone=[] ∧ ones ≤ addr.bitLen then some (addr.network ones) else none
    | _, _ => none

/- A network of mapped addresses is one of four bytes. -/
def IpNet.numberAndMask : IpNet → IpNet
  | .v4 number mask => .v4 number mask
  | .v6 number mask => match number.to4 with
    | some number => .v4 number (mask.extractLsb' 0 32)
    | none => .v6 number mask

def IpNet.contains (network : IpNet) (ip : Ip) : Bool :=
  match network.numberAndMask, ip.to4 with
  | .v4 number mask, some ip => number &&& mask=ip &&& mask
  | .v6 number mask, none => number &&& mask=ip &&& mask
  | _, _ => false

inductive AddrError where
  | missingPort
  | tooManyColons
  | missingBracket
  | unexpectedOpen
  | unexpectedClose
  deriving DecidableEq

/- The last checks, on what stands behind a bracketed host, or on all of an address. -/
def checkBrackets (opens closes host port : Text) : Except AddrError (Text × Text) :=
  if ch '[' ∈ opens then .error .unexpectedOpen
  else if ch ']' ∈ closes then .error .unexpectedClose
  else .ok (host, port)

def splitBracketed (rest before port : Text) : Except AddrError (Text × Text) :=
  match cut (ch ']') rest with
  | none => .error .missingBracket
  | some (host, after) =>
    if after=[] then .error .missingPort
    else if before=ch '[' :: host++[ch ']'] then checkBrackets rest after host port
    else if after.head? = some (ch ':') then .error .tooManyColons
    else .error .missingPort

def splitHostPort (s : Text) : Except AddrError (Text × Text) :=
  match cutLast (ch ':') s with
  | none => .error .missingPort
  | some (before, port) =>
    if s.head? = some (ch '[') then splitBracketed s.tail before port
    else if ch ':' ∈ before then .error .tooManyColons
    else checkBrackets s s before port

def joinHostPort (host : Text) (port : Nat) : Text :=
  if ch ':' ∈ host then ch '[' :: host++ch ']' :: ch ':' :: decimal port
  else host++ch ':' :: decimal port

/-- The text of an address alone has no port to split from it. -/
theorem splitHostPort_of_parseIp {s : Text} {ip : Ip} (h : parseIp s=some ip) :
    ∃ err, splitHostPort s = .error err := by
  obtain ⟨hplain,hcolons⟩ := chars_of_parseIp h
  rw [splitHostPort]
  cases hcut : cutLast (ch ':') s with
  | none => exact ⟨_,rfl⟩
  | some parts =>
    obtain ⟨before,port⟩ := parts
    obtain ⟨hs,hport⟩ := eq_of_cutLast hcut
    have hopen : s.head? ≠ some (ch '[') := fun hhead =>
      absurd (hplain _ (mem_of_mem_head? hhead)) (by decide)
    have hbefore : ch ':' ∈ before := by
      obtain hnone | htwo := hcolons
      · exact absurd (hs ▸ mem_append_right _ mem_cons_self) hnone
      · rw [hs,count_append,count_cons_self,count_eq_zero.mpr hport] at htwo
        exact count_pos_iff.mp (by omega)
    dsimp only
    rw [if_neg hopen,if_pos hbefore]
    exact ⟨_,rfl⟩

theorem not_mem_decimal {c : UInt8} (hc : isDigit c=false) (n : Nat) : c∉decimal n := by
  intro hmem
  rw [isDigit_of_mem_decimal hmem] at hc
  cases hc

/-- What was joined is split again, unless there are brackets in the host. -/
theorem splitHostPort_joinHostPort {host : Text} (hopen : ch '[' ∉ host) (hclose : ch ']' ∉ host) (port : Nat) :
    splitHostPort (joinHostPort host port) = .ok (host, decimal port) := by
  have hcolon : ch ':' ∉ decimal port := not_mem_decimal rfl port
  have hopen' : ch '[' ∉ decimal port := not_mem_decimal rfl port
  have hclose' : ch ']' ∉ decimal port := not_mem_decimal rfl port
  rw [joinHostPort]
  split_ifs with hhost
  · have hlast : ch '[' :: host++ch ']' :: ch ':' :: decimal port =
        (ch '[' :: host++[ch ']'])++ch ':' :: decimal port := by simp
    have hhead : (ch '[' :: host++ch ']' :: ch ':' :: decimal port).head? = some (ch '[') := rfl
    rw [splitHostPort,hlast,cutLast_append hcolon,← hlast]
    dsimp only
    rw [if_pos hhead,cons_append,tail_cons,splitBracketed,cut_append hclose]
    dsimp only
    rw [if_neg (cons_ne_nil _ _),if_pos rfl,checkBrackets,if_neg,if_neg]
    · exact mem_cons.not.mpr (not_or.mpr ⟨by decide,hclose'⟩)
    · simp [hopen,hopen']
      decide
  · have hs : ch '[' ∉ host++ch ':' :: decimal port := by
      simp [hopen,hopen']
      decide
    have hs' : ch ']' ∉ host++ch ':' :: decimal port := by
      simp [hclose,hclose']
      decide
    have hhead : (host++ch ':' :: decimal port).head? ≠ some (ch '[') :=
      fun hhead => hs (mem_of_mem_head? hhead)
    rw [splitHostPort,cutLast_append hcolon]
    dsimp only
    rw [if_neg hhead,if_neg hhost,checkBrackets,if_neg hs,if_neg hs']

theorem host_of_checkBrackets {opens closes host port host' port' : Text}
    (h : checkBrackets opens closes host port = .ok (host', port')) : host'=host := by
  rw [checkBrackets] at h
  split_ifs at h
  exact (Prod.mk.inj (Except.ok.inj h)).1.symm

/-- A host that can be split off a joined address is the host that was joined. -/
theorem host_of_splitHostPort {host host' port' : Text} {port : Nat} (hopen : host.head? ≠ some (ch '['))
    (hempty : host≠[]) (h : splitHostPort (joinHostPort host port) = .ok (host', port')) : host'=host := by
  have hcolon : ch ':' ∉ decimal port := not_mem_decimal rfl port
  rw [joinHostPort] at h
  split_ifs at h with hhost
  · have hlast : ch '[' :: host++ch ']' :: ch ':' :: decimal port =
        (ch '[' :: host++[ch ']'])++ch ':' :: decimal port := by simp
    have hhead : (ch '[' :: host++ch ']' :: ch ':' :: decimal port).head? = some (ch '[') := rfl
    rw [splitHostPort,hlast,cutLast_append hcolon,← hlast] at h
    dsimp only at h
    rw [if_pos hhead,splitBracketed] at h
    split at h
    · cases h
    · split_ifs at h with _ hbefore
      rw [host_of_checkBrackets h]
      exact (List.cons.inj (append_cancel_right hbefore)).2.symm
  · have hhead : (host++ch ':' :: decimal port).head? ≠ some (ch '[') := by
      rw [head?_append_of_ne_nil _ hempty]
      exact hopen
    rw [splitHostPort,cutLast_append hcolon] at h
    dsimp only at h
    rw [if_neg hhead,if_neg hhost] at h
    exact host_of_checkBrackets h

end AetherX.NetAddr
