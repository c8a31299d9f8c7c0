import AetherX.NetAddr

/-! URIs as texts: percent-encoding, the encoding of forms, and the parts that a parser after
RFC 3986 finds. -/
namespace AetherX.Url
open ByteText NetAddr List

def isAlpha (c : UInt8) : Bool := isLower c || isUpper c

def isAlnum (c : UInt8) : Bool := isAlpha c || isDigit c

def unreserved (c : UInt8) : Bool :=
  isAlnum c || c=ch '-' || c=ch '_' || c=ch '.' || c=ch '~'

def subDelim (c : UInt8) : Bool := c∈text "!$&'()*+,;="

def pchar (c : UInt8) : Bool := unreserved c || subDelim c || c=ch ':' || c=ch '@'

section
def hexDigit (n : Nat) : UInt8 := if n<10 then (n+48).toUInt8 else (n+55).toUInt8

def escapeByte (c : UInt8) : Text := [ch '%',hexDigit (c.toNat/16),hexDigit (c.toNat%16)]

def escape (keep : UInt8 → Bool) (s : Text) : Text := s.flatMap fun c => if keep c then [c] else escapeByte c

def unescape : Text → Option Text
  | [] => some []
  | c::s =>
    if c=ch '%' then
      match s with
      | a::b::s => match hexValue a, hexValue b with
        | some x, some y => (unescape s).map fun rest => UInt8.ofNat (x*16+y)::rest
        | _, _ => none
      | _ => none
    else (unescape s).map (c :: ·)

def wellFormed (allowed : UInt8 → Bool) : Text → Bool
  | [] => true
  | c::s =>
    if c=ch '%' then
      match s with
      | a::b::s => isHex a && isHex b && wellFormed allowed s
      | _ => false
    else allowed c && wellFormed allowed s

theorem hexValue_hexDigit {n : Nat} (h : n<16) : hexValue (hexDigit n)=some n := by
  have hall : ∀ n<16, hexValue (hexDigit n)=some n := by decide
  exact hall n h

theorem unescape_cons {c : UInt8} (h : c≠ch '%') (s : Text) : unescape (c::s)=(unescape s).map (c :: ·) := by
  rw [unescape.eq_def]
  dsimp only
  rw [if_neg h]

theorem unescape_escapeByte (c : UInt8) (s : Text) : unescape (escapeByte c++s)=(unescape s).map (c :: ·) := by
  have hc := c.toNat_lt
  have hbyte : UInt8.ofNat (c.toNat/16*16+c.toNat%16)=c := by
    rw [Nat.div_add_mod']
    exact UInt8.ofNat_toNat
  rw [escapeByte,cons_append,cons_append,cons_append,nil_append,unescape,if_pos rfl]
  rw [hexValue_hexDigit (by omega),hexValue_hexDigit (by omega)]
  simp only [hbyte]

variable {allowed : UInt8 → Bool}

theorem wellFormed_cons {c : UInt8} (h : c≠ch '%') (s : Text) :
    wellFormed allowed (c::s)=(allowed c && wellFormed allowed s) := by
  rw [wellFormed.eq_def]
  dsimp only
  rw [if_neg h]

theorem wellFormed_escapeByte (c : UInt8) (s : Text) :
    wellFormed allowed (escapeByte c++s)=wellFormed allowed s := by
  have hc := c.toNat_lt
  rw [escapeByte,cons_append,cons_append,cons_append,nil_append,wellFormed,if_pos rfl,
    isHex,isHex,hexValue_hexDigit (by omega),hexValue_hexDigit (by omega)]
  simp

variable {α : Type*} {f : α → Text} {l : List α} {s : Text}

/-- Piece by piece, what was encoded is decoded. -/
theorem unescape_flatMap {g : α → UInt8}
    (h : ∀ c rest, unescape (f c++rest)=(unescape rest).map (g c :: ·)) :
    unescape (l.flatMap f)=some (l.map g) := by
  induction l with
  | nil => rfl
  | cons c l ih => rw [flatMap_cons,h,ih,Option.map_some,map_cons]

theorem wellFormed_flatMap
    (h : ∀ c rest, wellFormed allowed (f c++rest)=wellFormed allowed rest) :
    wellFormed allowed (l.flatMap f)=true := by
  induction l with
  | nil => rfl
  | cons c l ih => rw [flatMap_cons,h,ih]

theorem wellFormed_append {a b : Text} (ha : wellFormed allowed a=true) :
    wellFormed allowed (a++b)=wellFormed allowed b := by
  fun_induction wellFormed allowed a with
  | case1 => rfl
  | case2 x y a ih =>
    rw [Bool.and_eq_true,Bool.and_eq_true] at ha
    rw [cons_append,cons_append,cons_append,wellFormed,if_pos rfl,ha.1.1,ha.1.2,ih ha.2]
    rfl
  | case3 => cases ha
  | case4 c a hc ih =>
    rw [Bool.and_eq_true] at ha
    rw [cons_append,wellFormed_cons hc,ha.1,ih ha.2,Bool.true_and]

theorem mem_of_wellFormed (h : wellFormed allowed s=true) {c : UInt8} (hc : c∈s) :
    allowed c=true ∨ c=ch '%' ∨ isHex c=true := by
  fun_induction wellFormed allowed s with
  | case1 => cases hc
  | case2 x y s ih =>
    rw [Bool.and_eq_true,Bool.and_eq_true] at h
    simp only [mem_cons] at hc
    obtain rfl | rfl | rfl | hc := hc
    · exact .inr (.inl rfl)
    · exact .inr (.inr h.1.1)
    · exact .inr (.inr h.1.2)
    · exact ih h.2 hc
  | case3 => cases h
  | case4 d s hd ih =>
    rw [Bool.and_eq_true] at h
    obtain rfl | hc := mem_cons.mp hc
    · exact .inl h.1
    · exact ih h.2 hc

theorem unescape_escape {keep : UInt8 → Bool} (h : keep (ch '%')=false) (s : Text) :
    unescape (escape keep s)=some s := by
  have hbyte : ∀ c rest, unescape ((if keep c then [c] else escapeByte c)++rest) =
      (unescape rest).map (c :: ·) := by
    intro c rest
    split_ifs with hkeep
    · refine unescape_cons ?_ rest
      rintro rfl
      rw [h] at hkeep
      cases hkeep
    · exact unescape_escapeByte c rest
  rw [escape,unescape_flatMap (g := id) hbyte,map_id]

theorem wellFormed_escape {keep : UInt8 → Bool} (h : keep (ch '%')=false)
    (hkeep : ∀ c, keep c=true → allowed c=true) (s : Text) : wellFormed allowed (escape keep s)=true := by
  refine wellFormed_flatMap fun c rest => ?_
  split_ifs with hc
  · have hne : c≠ch '%' := by
      rintro rfl
      rw [h] at hc
      cases hc
    rw [singleton_append,wellFormed_cons hne,hkeep c hc,Bool.true_and]
  · exact wellFormed_escapeByte c rest
end

section
def plus (c : UInt8) : UInt8 := if c=ch ' ' then ch '+' else c

def blank (c : UInt8) : UInt8 := if c=ch '+' then ch ' ' else c

def queryEscapeByte (c : UInt8) : Text :=
  if c=ch ' ' then [ch '+'] else if unreserved c then [c] else escapeByte c

def queryEscape (s : Text) : Text := s.flatMap queryEscapeByte

def queryUnescape (s : Text) : Option Text := unescape (s.map blank)

/-- An escaped text, read without regard to forms, has a plus sign for every blank. -/
theorem unescape_queryEscape (s : Text) : unescape (queryEscape s)=some (s.map plus) := by
  refine unescape_flatMap fun c rest => ?_
  rw [queryEscapeByte,plus]
  split_ifs with hblank hkeep
  · exact unescape_cons (by decide) rest
  · refine unescape_cons ?_ rest
    rintro rfl
    revert hkeep
    decide
  · exact unescape_escapeByte c rest

theorem blank_hexDigit {n : Nat} (h : n<16) : blank (hexDigit n)=hexDigit n := by
  have hall : ∀ n<16, blank (hexDigit n)=hexDigit n := by decide
  exact hall n h

theorem map_blank_queryEscapeByte (c : UInt8) :
    (queryEscapeByte c).map blank=if unreserved c || c=ch ' ' then [c] else escapeByte c := by
  have hc := c.toNat_lt
  rw [queryEscapeByte]
  by_cases hblank : c=ch ' '
  · subst hblank
    decide
  · rw [if_neg hblank]
    split_ifs with hkeep hor hor
    · have hplus : c≠ch '+' := by
        rintro rfl
        revert hkeep
        decide
      rw [map_singleton,blank,if_neg hplus]
    · simp [hkeep] at hor
    · simp [hkeep,hblank] at hor
    · rw [escapeByte,map_cons,map_cons,map_singleton,blank_hexDigit (by omega),
        blank_hexDigit (by omega)]
      rfl

theorem queryUnescape_queryEscape (s : Text) : queryUnescape (queryEscape s)=some s := by
  have hmap : (queryEscape s).map blank=escape (fun c => unreserved c || c=ch ' ') s := by
    rw [queryEscape,map_flatMap,escape]
    exact flatMap_congr fun c _ => map_blank_queryEscapeByte c
  rw [queryUnescape,hmap,unescape_escape (by decide)]

theorem wellFormed_queryEscape {allowed : UInt8 → Bool} (hplus : allowed (ch '+')=true)
    (hkeep : ∀ c, unreserved c=true → allowed c=true) (s : Text) :
    wellFormed allowed (queryEscape s)=true := by
  refine wellFormed_flatMap fun c rest => ?_
  rw [queryEscapeByte]
  split_ifs with hblank hc
  · rw [singleton_append,wellFormed_cons (by decide),hplus,Bool.true_and]
  · have hne : c≠ch '%' := by
      rintro rfl
      revert hc
      decide
    rw [singleton_append,wellFormed_cons hne,hkeep c hc,Bool.true_and]
  · exact wellFormed_escapeByte c rest

theorem not_mem_queryEscape {c : UInt8} (hplus : c≠ch '+') (hkeep : unreserved c=false)
    (hpercent : c≠ch '%') (hhex : isHex c=false) (s : Text) : c∉queryEscape s := by
  intro hmem
  have hwell : wellFormed (fun c => unreserved c || c=ch '+') (queryEscape s)=true :=
    wellFormed_queryEscape (by decide) (fun c hc => by rw [hc,Bool.true_or]) s
  obtain hc | hc | hc := mem_of_wellFormed hwell hmem
  · simp [hkeep,hplus] at hc
  · exact hpercent hc
  · rw [hhex] at hc
    cases hc

/- The values of a form in the order of their keys. -/
abbrev Values := List (Text × Text)

def Values.set (key value : Text) : Values → Values
  | [] => [(key, value)]
  | (k, v)::values =>
    if k=key then (key, value)::values
    else if key < k then (key, value)::(k, v)::values
    else (k, v)::Values.set key value values

def Values.get (values : Values) (key : Text) : Text := (values.lookup key).getD []

def encodePair (kv : Text × Text) : Text := queryEscape kv.1++ch '=' :: queryEscape kv.2

def Values.encode (values : Values) : Text := [ch '&'].intercalate (values.map encodePair)

def parsePair (s : Text) : Option (Text × Text) :=
  match cut (ch '=') s with
  | none => (queryUnescape s).map fun key => (key, [])
  | some (key, value) => match queryUnescape key, queryUnescape value with
    | some key, some value => some (key, value)
    | _, _ => none

def parseQuery (s : Text) : Option Values :=
  if s=[] then some [] else (s.splitOn (ch '&')).mapM parsePair

theorem lookup_cons_eq_ite (key k v : Text) (values : Values) :
    List.lookup key ((k, v)::values)=if key=k then some v else values.lookup key := by
  rw [lookup_cons]
  split_ifs with h
  · rw [beq_iff_eq.mpr h]
  · rw [beq_eq_false_iff_ne.mpr h]

theorem lookup_set (key value key' : Text) (values : Values) :
    (Values.set key value values).lookup key'=if key'=key then some value else values.lookup key' := by
  induction values with
  | nil => exact lookup_cons_eq_ite key' key value []
  | cons kv values ih =>
    obtain ⟨k,v⟩ := kv
    rw [Values.set]
    by_cases hkey : key'=key
    · rw [if_pos hkey]
      split_ifs with hk hlt
      · rw [lookup_cons_eq_ite,if_pos hkey]
      · rw [lookup_cons_eq_ite,if_pos hkey]
      · rw [lookup_cons_eq_ite,ih,if_pos hkey,if_neg (by rw [hkey]; exact Ne.symm hk)]
    · rw [if_neg hkey]
      split_ifs with hk hlt
      · rw [lookup_cons_eq_ite,lookup_cons_eq_ite,if_neg hkey,hk,if_neg hkey]
      · rw [lookup_cons_eq_ite,if_neg hkey]
      · rw [lookup_cons_eq_ite,lookup_cons_eq_ite,ih,if_neg hkey]

@[simp] theorem get_set (key value key' : Text) (values : Values) :
    (Values.set key value values).get key'=if key'=key then value else values.get key' := by
  rw [Values.get,lookup_set,Values.get]
  split_ifs <;> rfl

theorem parsePair_encodePair (kv : Text × Text) : parsePair (encodePair kv)=some kv := by
  have hkey : ch '=' ∉ queryEscape kv.1 := not_mem_queryEscape (by decide) (by decide) (by decide) (by decide) kv.1
  rw [parsePair,encodePair,cut_append hkey]
  dsimp only
  rw [queryUnescape_queryEscape,queryUnescape_queryEscape]

theorem and_not_mem_encodePair (kv : Text × Text) : ch '&' ∉ encodePair kv := by
  have hnot : ∀ s, ch '&' ∉ queryEscape s := not_mem_queryEscape (by decide) (by decide) (by decide) (by decide)
  simp [encodePair,hnot]
  decide

theorem encode_cons_cons (kv kv' : Text × Text) (values : Values) :
    Values.encode (kv::kv'::values)=encodePair kv++ch '&' :: Values.encode (kv'::values) := by
  rw [Values.encode,map_cons,map_cons,intercalate_cons_cons,append_assoc]
  rfl

theorem encode_singleton (kv : Text × Text) : Values.encode [kv]=encodePair kv := by
  rw [Values.encode,map_singleton,intercalate_singleton]

theorem encode_ne_nil {values : Values} (hne : values≠[]) : values.encode≠[] := by
  cases values with
  | nil => exact absurd rfl hne
  | cons kv values =>
    cases values with
    | nil => simp [encode_singleton,encodePair]
    | cons kv' values => simp [encode_cons_cons]

variable (values : Values)

theorem mapM_parsePair : (values.map encodePair).mapM parsePair=some values := by
  induction values with
  | nil => rfl
  | cons kv values ih =>
    rw [map_cons,mapM_cons,parsePair_encodePair,ih]
    rfl

theorem parseQuery_encode : parseQuery values.encode=some values := by
  by_cases hne : values=[]
  · rw [hne]
    rfl
  · have hparts : ∀ part∈values.map encodePair, ch '&' ∉ part := by
      intro part hpart
      obtain ⟨kv,-,rfl⟩ := mem_map.mp hpart
      exact and_not_mem_encodePair kv
    rw [parseQuery,if_neg (encode_ne_nil hne),Values.encode,
      splitOn_intercalate _ hparts (map_eq_nil_iff.not.mpr hne),mapM_parsePair]

theorem wellFormed_encode {allowed : UInt8 → Bool} (hplus : allowed (ch '+')=true) (hequals : allowed (ch '=')=true)
    (hand : allowed (ch '&')=true) (hkeep : ∀ c, unreserved c=true → allowed c=true) (values : Values) :
    wellFormed allowed values.encode=true := by
  have hpair : ∀ kv, wellFormed allowed (encodePair kv)=true := by
    intro kv
    have hescape := wellFormed_queryEscape hplus hkeep
    rw [encodePair,wellFormed_append (hescape kv.1),wellFormed_cons (by decide),hequals,hescape kv.2]
    rfl
  induction values with
  | nil => rfl
  | cons kv values ih =>
    cases values with
    | nil =>
      rw [encode_singleton]
      exact hpair kv
    | cons kv' values =>
      rw [encode_cons_cons,wellFormed_append (hpair kv),wellFormed_cons (by decide),hand,ih]
      rfl
end

section
inductive Host where
  | literal (s : Text)
  | name (s : Text)
  deriving DecidableEq

def Host.text : Host → Text
  | .literal s | .name s => s

structure Uri where
  scheme : Text
  userinfo : Option Text
  host : Host
  port : Option Nat
  path : Text
  query : Option Text
  fragment : Option Text
  deriving DecidableEq

def isScheme : Text → Bool
  | [] => false
  | c::s => isAlpha c && s.all fun c => isAlnum c || c=ch '+' || c=ch '-' || c=ch '.'

def regName (c : UInt8) : Bool := unreserved c || subDelim c

/- A port may be left empty. -/
def parsePort (s : Text) : Option (Option Nat) := if s=[] then some none else (parseDecimal s).map some

def parseHost (s : Text) : Option (Host × Option Nat) :=
  if s.head? = some (ch '[') then
    match cut (ch ']') s.tail with
    | none => none
    | some (literal, rest) =>
      if (parseIpv6Bare literal).isNone then none
      else if rest=[] then some (.literal literal, none)
      else if rest.head? = some (ch ':') then (parsePort rest.tail).map fun port => (.literal literal, port)
      else none
  else match cut (ch ':') s with
    | none => if wellFormed regName s then some (.name s, none) else none
    | some (name, port) => if wellFormed regName name then (parsePort port).map fun port => (.name name, port) else none

/- What stands before c, and behind it if it is there. -/
def before (c : UInt8) (s : Text) : Text × Option Text :=
  match cut c s with
  | none => (s, none)
  | some (a, b) => (a, some b)

def userinfoChar (c : UInt8) : Bool := unreserved c || subDelim c || c=ch ':'

def queryChar (c : UInt8) : Bool := pchar c || c=ch '/' || c=ch '?'

def pathChar (c : UInt8) : Bool := pchar c || c=ch '/'

def parseAuthority (s : Text) : Option (Option Text × Host × Option Nat) :=
  match cut (ch '@') s with
  | none => (parseHost s).map fun host => (none, host)
  | some (userinfo, host) =>
    if wellFormed userinfoChar userinfo then (parseHost host).map fun host => (some userinfo, host) else none

/- What stands behind the two slashes. -/
def parseHierarchy (scheme s : Text) : Option Uri :=
  let (rest, fragment) := before (ch '#') s
  let (rest, query) := before (ch '?') rest
  let (authority, path) := before (ch '/') rest
  if wellFormed queryChar (fragment.getD []) ∧ wellFormed queryChar (query.getD []) ∧
      wellFormed pathChar (path.getD []) then
    (parseAuthority authority).map fun (userinfo, host, port) =>
      ⟨scheme,userinfo,host,port,(path.map (ch '/' :: ·)).getD [],query,fragment⟩
  else none

def parse (s : Text) : Option Uri :=
  match cut (ch ':') s with
  | some (scheme, c::d::rest) =>
    if isScheme scheme ∧ c=ch '/' ∧ d=ch '/' then parseHierarchy scheme rest else none
  | _ => none

variable {c : UInt8}

theorem before_append {a : Text} (h : c∉a) (b : Text) : before c (a++c::b)=(a, some b) := by
  rw [before,cut_append h]

theorem before_of_not_mem {a : Text} (h : c∉a) : before c a=(a, none) := by
  rw [before,cut_eq_none_iff.mpr h]

def link (scheme userinfo host : Text) (query : Option Text) (fragment : Text) : Text :=
  scheme++text "://" ++ userinfo++ch '@' :: host++(query.map (ch '?' :: ·)).getD []++ch '#' :: fragment

/- The characters that end an authority. -/
def Ends (c : UInt8) : Prop := c=ch '#' ∨ c=ch '?' ∨ c=ch '/'

instance (c : UInt8) : Decidable (Ends c) := inferInstanceAs (Decidable (_ ∨ _))

theorem colon_not_mem_scheme {scheme : Text} (h : isScheme scheme=true) : ch ':' ∉ scheme := by
  cases scheme with
  | nil => exact not_mem_nil
  | cons c s =>
    rw [isScheme,Bool.and_eq_true,all_eq_true] at h
    intro hmem
    obtain rfl | hmem := mem_cons.mp hmem
    · exact absurd h.1 (by decide)
    · exact absurd (h.2 _ hmem) (by decide)

theorem not_mem_of_wellFormed {allowed : UInt8 → Bool} {s : Text}
    (h : wellFormed allowed s=true) (hallowed : allowed c=false) (hpercent : c≠ch '%')
    (hhex : isHex c=false) : c∉s := by
  intro hc
  obtain hc | hc | hc := mem_of_wellFormed h hc
  · rw [hallowed] at hc
    cases hc
  · exact hpercent hc
  · rw [hhex] at hc
    cases hc

/-- Of a link whose parts are well formed the parser finds the parts, as far as it can read the host. -/
theorem parse_link {scheme userinfo host fragment : Text} {query : Option Text} (hscheme : isScheme scheme=true)
    (huserinfo : wellFormed userinfoChar userinfo=true) (hhost : ∀ c∈host, ¬ Ends c)
    (hquery : wellFormed queryChar (query.getD [])=true) (hfragment : wellFormed queryChar fragment=true) :
    parse (link scheme userinfo host query fragment) =
      (parseHost host).map fun (host, port) => ⟨scheme,some userinfo,host,port,[],query,some fragment⟩ := by
  have hauthority : ∀ c, Ends c → c∉userinfo++ch '@' :: host := by
    intro c hc hmem
    have huser : c∉userinfo := by
      obtain rfl | rfl | rfl := hc <;>
        exact not_mem_of_wellFormed huserinfo (by decide) (by decide) (by decide)
    obtain hmem | hmem := mem_append.mp hmem
    · exact huser hmem
    · obtain rfl | hmem := mem_cons.mp hmem
      · exact absurd hc (by decide)
      · exact hhost c hmem hc
  have hlink : link scheme userinfo host query fragment=scheme++ch ':' :: ch '/' :: ch '/' ::
      ((userinfo++ch '@' :: host++(query.map (ch '?' :: ·)).getD [])++ch '#' :: fragment) := by
    simp [link,show text "://" = [ch ':',ch '/',ch '/'] from rfl]
  have hhash : ch '#' ∉ userinfo++ch '@' :: host++(query.map (ch '?' :: ·)).getD [] := by
    intro hmem
    obtain hmem | hmem := mem_append.mp hmem
    · exact hauthority _ (.inl rfl) hmem
    · cases query with
      | none => cases hmem
      | some q =>
        obtain heq | hmem := mem_cons.mp hmem
        · exact absurd heq (by decide)
        · exact not_mem_of_wellFormed hquery (by decide) (by decide) (by decide) hmem
  have hbefore : before (ch '?') (userinfo++ch '@' :: host++(query.map (ch '?' :: ·)).getD []) =
      (userinfo++ch '@' :: host, query) := by
    have hnot := hauthority (ch '?') (.inr (.inl rfl))
    cases query with
    | none =>
      rw [Option.map_none,Option.getD_none,append_nil]
      exact before_of_not_mem hnot
    | some q => exact before_append hnot q
  have hat : ch '@' ∉ userinfo := not_mem_of_wellFormed huserinfo (by decide) (by decide) (by decide)
  rw [parse,hlink,cut_append (colon_not_mem_scheme hscheme)]
  dsimp only
  rw [if_pos ⟨hscheme,rfl,rfl⟩,parseHierarchy,before_append hhash]
  dsimp only
  rw [hbefore]
  dsimp only
  rw [before_of_not_mem (hauthority (ch '/') (.inr (.inr rfl)))]
  dsimp only
  rw [if_pos ⟨hfragment,hquery,rfl⟩,parseAuthority,cut_append hat]
  dsimp only
  rw [if_pos huserinfo,Option.map_map]
  rfl

theorem parseHost_name {name : Text} (hcolon : ch ':' ∉ name) (hhead : name.head? ≠ some (ch '[')) (port : Nat) :
    parseHost (name++ch ':' :: decimal port) =
      if wellFormed regName name then some (.name name, some port) else none := by
  have hopen : (name++ch ':' :: decimal port).head? ≠ some (ch '[') := by
    cases name with
    | nil =>
      rw [nil_append,head?_cons]
      decide
    | cons c name => exact hhead
  have hport : parsePort (decimal port)=some (some port) := by
    rw [parsePort,if_neg (decimal_ne_nil port),parseDecimal_decimal]
    rfl
  rw [parseHost,if_neg hopen,cut_append hcolon]
  dsimp only
  rw [hport]
  rfl

/-- A host with a colon that stands without brackets is not found again. -/
theorem parseHost_ne {name rest : Text} (hcolon : ch ':' ∈ name) (hhead : name.head? ≠ some (ch '[')) {host : Host}
    {port : Option Nat} (h : parseHost (name++rest)=some (host, port)) : host.text≠name := by
  obtain ⟨a,b,rfl,ha⟩ : ∃ a b, name=a++ch ':' :: b ∧ ch ':' ∉ a := by
    cases hcut : cut (ch ':') name with
    | none => exact absurd hcolon (cut_eq_none_iff.mp hcut)
    | some parts =>
      obtain ⟨hname,hnot⟩ := eq_of_cut hcut
      exact ⟨parts.1,parts.2,hname,hnot⟩
  have hopen : (a++ch ':' :: (b++rest)).head? ≠ some (ch '[') := by
    cases a with
    | nil => exact hhead
    | cons c a => exact hhead
  rw [append_assoc,cons_append,parseHost,if_neg hopen,cut_append ha] at h
  dsimp only at h
  split_ifs at h
  obtain ⟨port',-,heq⟩ := Option.map_eq_some_iff.mp h
  cases heq
  intro heq
  simp [Host.text] at heq

theorem graphic_of_wellFormed {s : Text} (h : wellFormed regName s=true) (hc : c∈s) :
    isGraphic c=true := by
  have hall : ∀ n<256, (regName (UInt8.ofNat n)=true ∨ UInt8.ofNat n=ch '%' ∨ isHex (UInt8.ofNat n)=true) →
      isGraphic (UInt8.ofNat n)=true := by decide +kernel
  exact forall_byte (P := fun c => (regName c=true ∨ c=ch '%' ∨ isHex c=true) → isGraphic c=true) hall c
    (mem_of_wellFormed h hc)

theorem wellFormed_of_forall {allowed : UInt8 → Bool} {s : Text} (h : ∀ c∈s, allowed c=true ∧ c≠ch '%') :
    wellFormed allowed s=true := by
  induction s with
  | nil => rfl
  | cons c s ih =>
    obtain ⟨hc,hs⟩ := forall_mem_cons.mp h
    rw [wellFormed_cons hc.2,hc.1,ih hs]
    rfl
end

end AetherX.Url
