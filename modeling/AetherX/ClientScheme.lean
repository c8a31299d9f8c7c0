import Mathlib
import AetherX.Url
import AetherX.Base64

/-! Deep links of client applications: URI templates with three variables, validated and rendered. -/
namespace AetherX.ClientScheme
open ByteText Url List

def codePoint : Except UInt8 Char → Char
  | .ok c => c
  | .error _ => '�'

def percentEncode (b : UInt8) : Text := escapeByte b

/- A code point that is not kept is cut down to its last byte. -/
def encodeRune (c : Char) : Text :=
  if c.toNat<128 ∧ unreserved (ch c) then [ch c] else percentEncode (ch c)

def urlEncode (s : Text) : Text := ((runes s).map codePoint).flatMap encodeRune

theorem encodeRune_kept {c : Char} (h : c.toNat<128 ∧ unreserved (ch c)) : ch c≠ch '%' := by
  intro heq
  rw [heq] at h
  exact absurd h.2 (by decide)

theorem unescape_urlEncode (s : Text) :
    unescape (urlEncode s)=some ((runes s).map fun r => ch (codePoint r)) := by
  rw [urlEncode,unescape_flatMap (g := ch),map_map]
  · rfl
  intro c rest
  rw [encodeRune]
  split_ifs with hc
  · exact unescape_cons (encodeRune_kept hc) rest
  · exact unescape_escapeByte _ rest

theorem wellFormed_urlEncode (s : Text) : wellFormed unreserved (urlEncode s)=true := by
  refine wellFormed_flatMap fun c rest => ?_
  rw [encodeRune]
  split_ifs with hc
  · rw [singleton_append,wellFormed_cons (encodeRune_kept hc),hc.2,Bool.true_and]
  · exact wellFormed_escapeByte _ rest

def Narrow (b : UInt8) : Prop := b<128 ∨ b=0xFD

theorem narrow_iff_char {c : Char} :
    String.utf8EncodeChar c=[ch c] ↔ ∀ b∈String.utf8EncodeChar c, Narrow b := by
  refine ⟨fun h b hb => ?_,fun h => ?_⟩
  · have hsize := congrArg length h
    rw [String.length_utf8EncodeChar,length_singleton,Char.utf8Size_eq_one_iff] at hsize
    rw [h,mem_singleton] at hb
    refine .inl ?_
    rw [hb,UInt8.lt_iff_toNat_lt]
    have : c.val.toNat≤127 := hsize
    change c.toNat%256<128
    rw [Char.toNat]
    omega
  · by_cases hc : c.val≤127
    · exact String.utf8EncodeChar_eq_singleton (Char.utf8Size_eq_one_iff.mpr hc)
    · have hlast : UInt8.ofNat (c.val.toNat%64+128)∈String.utf8EncodeChar c := by
        have hv : ¬ c.val.toNat≤127 := hc
        rw [String.utf8EncodeChar,if_neg hv]
        split_ifs <;> simp
      have hb := h _ hlast
      rw [Narrow,UInt8.lt_iff_toNat_lt,← UInt8.toNat_inj,UInt8.toNat_ofNat'] at hb
      change _<128 ∨ _=253 at hb
      omega

/- One byte comes back for each rune, so each rune must be of one byte. -/
theorem map_eq_flatMap_iff {α β : Type*} {f : α → β} {g : α → List β} {l : List α} (hg : ∀ a, g a≠[]) :
    l.map f=l.flatMap g ↔ ∀ a∈l, g a=[f a] := by
  have hle : ∀ l : List α, l.length≤(l.flatMap g).length := by
    intro l
    induction l with
    | nil => exact Nat.le_refl 0
    | cons a l ih =>
      have ha := length_pos_iff.mpr (hg a)
      rw [flatMap_cons,length_append,length_cons]
      omega
  induction l with
  | nil => exact ⟨fun _ _ h => absurd h not_mem_nil,fun _ => rfl⟩
  | cons a l ih =>
    obtain ⟨b,w,hw⟩ := exists_cons_of_ne_nil (hg a)
    rw [map_cons,flatMap_cons,hw,cons_append,cons.injEq,forall_mem_cons,hw,cons.injEq]
    refine ⟨fun ⟨hb,h⟩ => ?_,fun ⟨⟨hb,hnil⟩,h⟩ => ?_⟩
    · have hlength := congrArg length h
      rw [length_map,length_append] at hlength
      have hnil : w=[] := eq_nil_of_length_eq_zero (by have := hle l; omega)
      rw [hnil,nil_append] at h
      exact ⟨⟨hb.symm,hnil⟩,ih.mp h⟩
    · rw [hnil,nil_append]
      exact ⟨hb.symm,ih.mpr h⟩

theorem map_codePoint_eq_iff (s : Text) : (runes s).map (fun r => ch (codePoint r))=s ↔ ∀ b∈s, Narrow b := by
  have hne : ∀ r, runeBytes r≠[] := by
    rintro (b | c)
    · exact cons_ne_nil _ _
    · exact String.utf8EncodeChar_ne_nil
  have hrune : ∀ r∈runes s, runeBytes r=[ch (codePoint r)] ↔ ∀ b∈runeBytes r, Narrow b := by
    rintro (b | c) hr
    · have hb := le_of_error_mem_runes hr
      have hchar : ch '�' = 0xFD := by decide
      rw [codePoint,hchar,runeBytes,forall_mem_singleton,singleton_inj,Narrow,or_iff_right (UInt8.not_lt.mpr hb)]
    · exact narrow_iff_char
  have hs := runes_flatMap s
  calc (runes s).map (fun r => ch (codePoint r))=s
      ↔ (runes s).map (fun r => ch (codePoint r))=(runes s).flatMap runeBytes := by rw [hs]
    _ ↔ ∀ r∈runes s, ∀ b∈runeBytes r, Narrow b := (map_eq_flatMap_iff hne).trans (forall₂_congr hrune)
    _ ↔ ∀ b∈s, Narrow b := by
      conv_rhs => rw [← hs]
      simp only [mem_flatMap]
      constructor
      · rintro h b ⟨r,hr,hb⟩
        exact h r hr b hb
      · intro h r hr b hb
        exact h b ⟨r,hr,hb⟩

def standard : Base64.Alphabet :=
  ⟨"ABCDEFGHIJKLMNOPQRSTUVWXYZabcdefghijklmnopqrstuvwxyz0123456789+/".toList,by decide +kernel,by decide +kernel⟩

def table (i : UInt8) : UInt8 := ch (standard.digit i.toNat)

/- The three bytes from i on, those past the end missing. -/
def group (b0 : UInt8) (b1 b2 : Option UInt8) : Text :=
  [table (b0 >>> 2),table ((b0 &&& 0x03) <<< 4 ||| b1.getD 0 >>> 4),
    if b1.isSome then table ((b1.getD 0 &&& 0x0F) <<< 2 ||| b2.getD 0 >>> 6) else ch '=',
    if b2.isSome then table (b2.getD 0 &&& 0x3F) else ch '=']

def base64Encode : Text → Text
  | [] => []
  | [b0] => group b0 none none
  | [b0,b1] => group b0 (some b1) none
  | b0::b1::b2::s => group b0 (some b1) (some b2)++base64Encode s

def base64Decode (s : Text) : Option Text :=
  let body := s.takeWhile (· ≠ ch '=')
  if s=body++replicate ((4-body.length%4)%4) (ch '=') then Base64.decode standard (body.map asChar)
  else none

theorem toNat_pieces (b : UInt8) : (b >>> 2).toNat=b.toNat/4 ∧ (b &&& 0x3F).toNat=b.toNat%64 ∧
    ((b &&& 0x03) <<< 4).toNat=b.toNat%4*16 ∧ (b >>> 4).toNat=b.toNat/16 ∧
    ((b &&& 0x0F) <<< 2).toNat=b.toNat%16*4 ∧ (b >>> 6).toNat=b.toNat/64 := by
  revert b
  exact forall_byte (by decide +kernel)

theorem table_or {x y : UInt8} {k : Nat} (hx : 2^k ∣ x.toNat) (hy : y.toNat<2^k) :
    table (x ||| y)=ch (standard.digit (x.toNat+y.toNat)) := by
  obtain ⟨q,hq⟩ := hx
  rw [table,UInt8.toNat_or,hq,Nat.mul_comm,← Nat.shiftLeft_eq,Nat.shiftLeft_add_eq_or_of_lt hy]

theorem table_middle (x y : UInt8) : table ((x &&& 0x03) <<< 4 ||| y >>> 4) =
    ch (standard.digit (x.toNat%4*16+y.toNat/16)) := by
  obtain ⟨-,-,hx,-⟩ := toNat_pieces x
  obtain ⟨-,-,-,hy,-⟩ := toNat_pieces y
  have hlt := y.toNat_lt
  rw [table_or (k := 4),hx,hy]
  · exact hx ▸ ⟨_,Nat.mul_comm _ _⟩
  · omega

theorem table_lower (x y : UInt8) : table ((x &&& 0x0F) <<< 2 ||| y >>> 6) =
    ch (standard.digit (x.toNat%16*4+y.toNat/64)) := by
  obtain ⟨-,-,-,-,hx,-⟩ := toNat_pieces x
  obtain ⟨-,-,-,-,-,hy⟩ := toNat_pieces y
  have hlt := y.toNat_lt
  rw [table_or (k := 2),hx,hy]
  · exact hx ▸ ⟨_,Nat.mul_comm _ _⟩
  · omega

theorem base64Encode_eq (s : Text) : base64Encode s=(Base64.encode standard s).map ch ++
    replicate ((4-(Base64.encode standard s).length%4)%4) (ch '=') := by
  fun_induction base64Encode s with
  | case1 => rfl
  | case2 b0 =>
    rw [group,table,(toNat_pieces b0).1,table_middle]
    rfl
  | case3 b0 b1 =>
    rw [group,table,(toNat_pieces b0).1]
    simp only [Option.getD_some,table_middle,table_lower]
    rfl
  | case4 b0 b1 b2 s ih =>
    have hgroup : group b0 (some b1) (some b2)=(Base64.encode standard [b0,b1,b2]).map ch := by
      rw [group,table,(toNat_pieces b0).1]
      simp only [Option.getD_some,table_middle,table_lower]
      rw [table,(toNat_pieces b2).2.1]
      rfl
    have hlength : (Base64.encode standard (b0::b1::b2::s)).length%4=(Base64.encode standard s).length%4 :=
      Nat.add_mod_right _ 4
    rw [hgroup,ih,hlength,← append_assoc,← map_append]
    rfl

theorem length_base64Encode (s : Text) : (base64Encode s).length=4*((s.length+2)/3) := by
  fun_induction base64Encode s with
  | case1 => rfl
  | case2 b0 => simp [group]
  | case3 b0 b1 => simp [group]
  | case4 b0 b1 b2 s ih =>
    rw [length_append,ih]
    change 4+_=4*((s.length+3+2)/3)
    omega

theorem mem_base64Encode {s : Text} {c : UInt8} (h : c∈base64Encode s) :
    c∈standard.chars.map ch ∨ c=ch '=' := by
  rw [base64Encode_eq,mem_append] at h
  exact h.imp (fun h => map_subset ch (Base64.encode_subset standard s) h) eq_of_mem_replicate

theorem takeWhile_base64Encode (s : Text) :
    (base64Encode s).takeWhile (· ≠ ch '=')=(Base64.encode standard s).map ch := by
  have hne : standard.chars.all (ch · ≠ ch '=')=true := by decide +kernel
  rw [base64Encode_eq,takeWhile_append_of_pos]
  · cases (4-(Base64.encode standard s).length%4)%4 <;> simp [replicate_succ]
  · intro c hc
    obtain ⟨d,hd,rfl⟩ := mem_map.mp hc
    exact all_eq_true.mp hne d (Base64.encode_subset standard s hd)

/-- The encoding of RFC 4648. -/
theorem base64_standard (s : Text) : (base64Encode s).length=4*((s.length+2)/3) ∧
    (∀ c∈base64Encode s, c∈standard.chars.map ch ∨ c=ch '=') ∧ base64Decode (base64Encode s)=some s := by
  have hback : standard.chars.all (fun c => asChar (ch c)=c)=true := by decide +kernel
  have hchars : ((Base64.encode standard s).map ch).map asChar=Base64.encode standard s := by
    rw [map_map]
    exact (map_congr_left fun c hc => of_decide_eq_true (all_eq_true.mp hback c (Base64.encode_subset standard s hc))).trans (map_id _)
  refine ⟨length_base64Encode s,fun c => mem_base64Encode,?_⟩
  rw [base64Decode]
  simp only [takeWhile_base64Encode,length_map,hchars]
  rw [if_pos (base64Encode_eq s),Base64.decode_encode_bytes]

def subUrlEncoded : Text := text "\x7b\x7bSUB_URL_ENCODED\x7d\x7d"

def subUrlBase64 : Text := text "\x7b\x7bSUB_URL_BASE64\x7d\x7d"

def remarkVariable : Text := text "\x7b\x7bREMARK\x7d\x7d"

def allowed : List Text := [subUrlEncoded,subUrlBase64,remarkVariable]

/- What strings.Replacer and strings.ReplaceAll find at a place: a character, or a key that stands there. -/
def token (keys : List Text) (c : UInt8) (s : Text) : (UInt8 ⊕ Text) × Nat :=
  match keys.find? (·.isPrefixOf (c::s)) with
  | some key => (.inr key, key.length-1)
  | none => (.inl c, 0)

def tokens (keys : List Text) (s : Text) : List (UInt8 ⊕ Text) := scan (token keys) 0 s

def piece (value : Text → Text) : UInt8 ⊕ Text → Text
  | .inl c => [c]
  | .inr key => value key

def replace (keys : List Text) (value : Text → Text) (s : Text) : Text := (tokens keys s).flatMap (piece value)

def values (subURL remark key : Text) : Text :=
  if key=subUrlEncoded then urlEncode subURL
  else if key=subUrlBase64 then base64Encode subURL
  else remark

def renderURI (template subURL remark : Text) : Text := replace allowed (values subURL remark) template

theorem tokens_append {front : Text} (h : ch '\x7b' ∉ front) (s : Text) :
    tokens allowed (front++s)=front.map .inl++tokens allowed s := by
  induction front with
  | nil => rfl
  | cons c front ih =>
    obtain ⟨hc,h⟩ := not_or.mp (mt mem_cons.mpr h)
    have hkeys : ∀ key∈allowed, key.head? = some (ch '\x7b') := by decide +kernel
    have hnone : allowed.find? (·.isPrefixOf (c::(front++s)))=none := by
      refine find?_eq_none.mpr fun key hkey hpre => ?_
      obtain ⟨rest,hrest⟩ := isPrefixOf_iff_prefix.mp hpre
      have hhead := hkeys key hkey
      cases key with
      | nil => cases hhead
      | cons k key =>
        rw [cons_append,cons.injEq] at hrest
        exact hc ((Option.some.inj hhead).symm.trans hrest.1)
    rw [cons_append,tokens,scan,token,hnone]
    exact congrArg (.inl c :: ·) (ih h)

theorem tokens_subUrlEncoded (s : Text) :
    tokens allowed (subUrlEncoded++s) = .inr subUrlEncoded::tokens allowed s := by
  have hfind : allowed.find? (·.isPrefixOf (subUrlEncoded++s))=some subUrlEncoded :=
    find?_cons_of_pos ( isPrefixOf_iff_prefix.mpr (prefix_append _ _))
  obtain ⟨c,w,hw⟩ : ∃ c w, subUrlEncoded=c::w := ⟨_,_,rfl⟩
  have hstep : token allowed c (w++s)=(.inr subUrlEncoded, w.length) := by
    rw [token,← cons_append,← hw,hfind]
    exact congrArg (Prod.mk _) (congrArg (·.length-1) hw)
  rw [tokens]
  nth_rewrite 1 [hw]
  rw [cons_append,scan,hstep,scan_append,tokens]

def delimits (c : UInt8) : Bool := c=ch '&' || c=ch '#'

/- The parameter that stands behind front, as a client reads it. -/
def parameter (front uri : Text) : Option Text := unescape ((uri.drop front.length).takeWhile (!delimits ·))

def isBrace (c : UInt8) : Bool := c=ch '\x7b' || c=ch '\x7d'

theorem mem_urlEncode {s : Text} {c : UInt8} (h : c∈urlEncode s) : delimits c=false ∧ isBrace c=false := by
  have hall : ∀ c, unreserved c=true ∨ c=ch '%' ∨ isHex c=true → delimits c=false ∧ isBrace c=false :=
    forall_byte (by decide +kernel)
  exact hall c (mem_of_wellFormed (wellFormed_urlEncode s) h)

theorem parameter_renderURI {front back : Text} (hfront : ch '\x7b' ∉ front)
    (hback : ∀ c∈back.head?, delimits c=true) (url remark : Text) :
    parameter front (renderURI (front++subUrlEncoded++back) url remark)=unescape (urlEncode url) := by
  have hrender : renderURI (front++subUrlEncoded++back) url remark =
      front++(urlEncode url++renderURI back url remark) := by
    rw [renderURI,replace,append_assoc,tokens_append hfront,tokens_subUrlEncoded,flatMap_append,flatMap_cons]
    congr 1
    rw [flatMap_map]
    exact flatMap_singleton' front
  have hkeep : ∀ c∈urlEncode url, (!delimits c)=true := fun c hc => by rw [(mem_urlEncode hc).1,Bool.not_false]
  have hrest : (renderURI back url remark).takeWhile (!delimits ·)=[] := by
    cases back with
    | nil => rfl
    | cons c back =>
      have hc := hback c rfl
      have hbrace : ch '\x7b' ∉ [c] := by
        rw [mem_singleton]
        rintro rfl
        exact absurd hc (by decide)
      rw [renderURI,replace,← singleton_append,tokens_append hbrace]
      exact takeWhile_cons_of_neg (by rw [hc]; decide)
  rw [parameter,hrender,drop_left,takeWhile_append_of_pos hkeep,hrest,append_nil]

/-- A subscription URL comes back from a deep link exactly if it is ASCII, the byte 0xFD aside. -/
theorem deep_link_lossless (url : Text) :
    (wellFormed unreserved (urlEncode url)=true ∧ unescape (urlEncode url)=some url ∧
      ∀ front back remark, ch '\x7b' ∉ front → (∀ c∈back.head?, delimits c=true) →
        parameter front (renderURI (front++subUrlEncoded++back) url remark)=some url) ↔
      ∀ b∈url, Narrow b := by
  have hcode : unescape (urlEncode url)=some url ↔ ∀ b∈url, Narrow b := by
    rw [unescape_urlEncode,Option.some_inj,map_codePoint_eq_iff]
  refine ⟨fun h => hcode.mp h.2.1,fun h => ⟨wellFormed_urlEncode url,hcode.mpr h,?_⟩⟩
  intro front back remark hfront hback
  rw [parameter_renderURI hfront hback,hcode.mpr h]

theorem deep_link_changes_url : unescape (urlEncode [0xC3,0xA9])=some [0xE9] := by decide +kernel

section
inductive SchemeError where
  | nameRequired
  | nameTooLong
  | unknownVariable
  | dangerousScheme
deriving DecidableEq

/- As far as strings.ToLower reaches ASCII. -/
def toLower (c : Char) : Char := if c = '\u0130' then 'i' else if c = '\u212a' then 'k' else c.toLower

def dangerous : List Text := [text "javascript:",text "data:"]

def lower (c : UInt8) : UInt8 := if isUpper c then c+32 else c

def doubled (c : Char) : Text := [ch c,ch c]

def validateScheme (name uri : Text) : Except SchemeError Unit :=
  if name=[] then .error .nameRequired
  else if 100 < name.length then .error .nameTooLong
  else
    let temp := allowed.foldl (fun temp a => replace [a] (fun _ => []) temp) uri
    if uri≠[] ∧ (doubled '\x7b' <:+: temp ∨ doubled '\x7d' <:+: temp) then .error .unknownVariable
    else if uri≠[] ∧ ∃ word∈dangerous, word.map asChar <+: (runes uri).map (toLower ∘ codePoint) then
      .error .dangerousScheme
    else .ok ()

/- One character behind the leading blanks, which must be the next of the word. -/
def eat (blank : UInt8 → Bool) (word rest : Text) (c : UInt8) : Option Text :=
  if rest=word ∧ blank c then some word
  else match rest with
  | [] => some []
  | w::rest => if lower c=w then some rest else none

variable {blank : UInt8 → Bool} {word : Text}

theorem eat_cons {w c : UInt8} {rest : Text} (h : ¬ (w::rest=word ∧ blank c)) (s : Text) :
    (c::s).foldlM (eat blank word) (w::rest)=some [] ↔
      lower c=w ∧ s.foldlM (eat blank word) rest=some [] := by
  rw [foldlM_cons,eat.eq_def,if_neg h]
  by_cases hc : lower c=w <;> simp [hc]

theorem foldlM_eat_started {rest : Text} (h : rest.length < word.length) (s : Text) :
    s.foldlM (eat blank word) rest=some [] ↔ rest <+: s.map lower := by
  induction s generalizing rest with
  | nil => exact Option.some_inj.trans prefix_nil.symm
  | cons c s ih =>
    have hne : ¬ (rest=word ∧ blank c) := fun hw => Nat.ne_of_lt h (congrArg length hw.1)
    cases rest with
    | nil =>
      rw [foldlM_cons,eat.eq_def,if_neg hne]
      exact (ih h).trans (iff_of_true nil_prefix nil_prefix)
    | cons w rest =>
      rw [eat_cons hne,map_cons,cons_prefix_cons,eq_comm]
      exact and_congr_right' (ih (Nat.lt_of_succ_lt h))

theorem foldlM_eat (hword : word≠[]) (s : Text) :
    s.foldlM (eat blank word) word=some [] ↔ word <+: (s.dropWhile blank).map lower := by
  induction s with
  | nil => exact Option.some_inj.trans prefix_nil.symm
  | cons c s ih =>
    by_cases hc : blank c
    · rw [foldlM_cons,eat.eq_def,if_pos ⟨rfl,hc⟩,dropWhile_cons_of_pos hc]
      exact ih
    · obtain ⟨w,rest,rfl⟩ := exists_cons_of_ne_nil hword
      rw [eat_cons fun h => hc h.2,dropWhile_cons_of_neg hc,map_cons,cons_prefix_cons,eq_comm,
        foldlM_eat_started (Nat.lt_succ_self _)]

variable {value : Text → Text} {c : UInt8}

theorem pair_infix_cons {α : Type*} {c x : α} {s : List α} :
    [c,c] <:+: x::s ↔ (x=c ∧ s.head? = some c) ∨ [c,c] <:+: s := by
  rw [infix_cons_iff]
  cases s with
  | nil => simp
  | cons y s => simp [cons_prefix_cons,eq_comm]

theorem pair_infix_append {α : Type*} {c : α} {v s : List α} (hv : c∉v) : [c,c] <:+: v++s ↔ [c,c] <:+: s := by
  induction v with
  | nil => rfl
  | cons x v ih =>
    obtain ⟨hx,hv⟩ := not_or.mp (mt mem_cons.mpr hv)
    rw [cons_append,pair_infix_cons,ih hv]
    exact or_iff_right fun h => hx h.1.symm

theorem pair_infix_iff (hvalue : ∀ key, c∉value key) (ts : List (UInt8 ⊕ Text)) :
    ((ts.flatMap (piece value)).head? = some c ↔ (ts.filter (piece value · ≠ [])).head? = some (.inl c)) ∧
    ([c,c] <:+: ts.flatMap (piece value) ↔ [.inl c,.inl c] <:+: ts.filter (piece value · ≠ [])) := by
  induction ts with
  | nil => simp
  | cons t ts ih =>
    obtain ⟨hhead,hpair⟩ := ih
    rw [flatMap_cons]
    cases t with
    | inl x =>
      rw [filter_cons_of_pos (by simp [piece]),pair_infix_cons,piece,singleton_append,pair_infix_cons,hhead,hpair]
      simp
    | inr key =>
      by_cases hkey : value key=[]
      · rw [filter_cons_of_neg (by simp [piece,hkey]),piece,hkey]
        exact ⟨hhead,hpair⟩
      · rw [filter_cons_of_pos (by simp [piece,hkey]),piece,pair_infix_append (hvalue key),pair_infix_cons,hpair]
        obtain ⟨x,v,hv⟩ := exists_cons_of_ne_nil hkey
        have hx : x≠c := fun h => hvalue key (by rw [hv,h]; exact mem_cons_self)
        simp [hv,hx]

theorem foldlM_flatMap {α β γ : Type} {f : γ → β → Option γ} {g : α → List β} (l : List α) (a : γ) :
    (l.flatMap g).foldlM f a=l.foldlM (fun a x => (g x).foldlM f a) a := by
  induction l generalizing a with
  | nil => rfl
  | cons x l ih => rw [flatMap_cons,foldlM_append,foldlM_cons,funext ih]

/- Past leading blanks, the characters of a template and the values of its variables spell the word. -/
def spells (blank : UInt8 → Bool) (value : Text → Text) (word : Text) (ts : List (UInt8 ⊕ Text)) : Prop :=
  ts.foldlM (fun rest t => (piece value t).foldlM (eat blank word) rest) word=some []

/- Two of the character stand side by side, or with nothing but empty values between them. -/
def meets (value : Text → Text) (c : Char) (ts : List (UInt8 ⊕ Text)) : Prop :=
  [.inl (ch c),.inl (ch c)] <:+: ts.filter (piece value · ≠ [])

def Safe (blank : UInt8 → Bool) (uri : Text) : Prop :=
  (∀ c∈['\x7b', '\x7d'], ¬ doubled c <:+: uri) ∧ ∀ word∈dangerous, ¬ word <+: (uri.dropWhile blank).map lower

instance (uri : Text) : Decidable (Safe blank uri) :=
  @instDecidableAnd _ _ (decidableBAll _ _) (decidableBAll _ _)

theorem values_isBrace {url remark : Text} (hremark : ∀ c∈remark, isBrace c=false) (key : Text) :
    ∀ c∈values url remark key, isBrace c=false := by
  intro c hc
  rw [values] at hc
  split_ifs at hc
  · exact (mem_urlEncode hc).2
  · have hall : ∀ c∈ch '=' :: standard.chars.map ch, isBrace c=false := by decide +kernel
    exact hall c (mem_cons.mpr (mem_base64Encode hc).symm)
  · exact hremark c hc

end
end AetherX.ClientScheme
