import Mathlib.Data.List.Basic

/-! Texts that are sequences of bytes: where a separator cuts them, numbers in them, and what a scan from the
left finds. -/
namespace AetherX.ByteText
open List

section
variable {α : Type*} [DecidableEq α] {c : α} {s a b : List α}

/- The parts before and after the first c. -/
def cut (c : α) : List α → Option (List α × List α)
  | [] => none
  | x::s => if x=c then some ([], s) else (cut c s).map fun parts => (x::parts.1, parts.2)

/- The parts before and after the last c. -/
def cutLast (c : α) (s : List α) : Option (List α × List α) :=
  (cut c s.reverse).map fun parts => (parts.2.reverse, parts.1.reverse)

theorem cut_append (h : c∉a) (b : List α) : cut c (a++c::b)=some (a, b) := by
  induction a with
  | nil => simp [cut]
  | cons x a ih =>
    obtain ⟨hx,ha⟩ := not_or.mp (mem_cons.not.mp h)
    rw [cons_append,cut,if_neg (Ne.symm hx),ih ha]
    rfl

theorem cut_eq_none_iff : cut c s=none ↔ c∉s := by
  induction s with
  | nil => simp [cut]
  | cons x s ih =>
    rw [cut,mem_cons]
    split_ifs with hx
    · simp [hx]
    · simp [ih,Ne.symm hx]

theorem eq_of_cut (h : cut c s=some (a, b)) : s=a++c::b ∧ c∉a := by
  induction s generalizing a with
  | nil => cases h
  | cons x s ih =>
    rw [cut] at h
    split_ifs at h with hx
    · cases h
      exact ⟨by rw [hx]; rfl,not_mem_nil⟩
    · obtain ⟨⟨a',b'⟩,hcut,heq⟩ := Option.map_eq_some_iff.mp h
      cases heq
      obtain ⟨rfl,ha'⟩ := ih hcut
      exact ⟨rfl,mem_cons.not.mpr (not_or.mpr ⟨Ne.symm hx,ha'⟩)⟩

theorem cutLast_append (h : c∉b) (a : List α) : cutLast c (a++c::b)=some (a, b) := by
  have hrev : (a++c::b).reverse=b.reverse++c::a.reverse := by simp
  rw [cutLast,hrev,cut_append (mem_reverse.not.mpr h)]
  simp

theorem eq_of_cutLast (h : cutLast c s=some (a, b)) : s=a++c::b ∧ c∉b := by
  obtain ⟨⟨b',a'⟩,hcut,heq⟩ := Option.map_eq_some_iff.mp h
  cases heq
  obtain ⟨hrev,hb⟩ := eq_of_cut hcut
  refine ⟨?_,mem_reverse.not.mpr hb⟩
  rw [← reverse_reverse s,hrev]
  simp
end

/-- An element of a joined list is the separator or in one of the parts. -/
theorem mem_intercalate {α : Type*} {c x : α} {parts : List (List α)} (h : x∈[c].intercalate parts) :
    x=c ∨ ∃ part∈parts, x∈part := by
  rw [List.intercalate,mem_flatten] at h
  obtain ⟨part,hpart,hx⟩ := h
  induction parts with
  | nil => cases hpart
  | cons p parts ih =>
    cases parts with
    | nil =>
      rw [intersperse_singleton,mem_singleton] at hpart
      exact .inr ⟨p,mem_cons_self,hpart ▸ hx⟩
    | cons q parts =>
      rw [intersperse_cons_cons] at hpart
      obtain rfl | hpart := mem_cons.mp hpart
      · exact .inr ⟨part,mem_cons_self,hx⟩
      · obtain rfl | hpart := mem_cons.mp hpart
        · exact .inl (mem_singleton.mp hx)
        · obtain hc | ⟨part',hmem,hx'⟩ := ih hpart
          · exact .inl hc
          · exact .inr ⟨part',mem_cons_of_mem _ hmem,hx'⟩

section
variable {α : Type*} {c : α}

theorem intercalate_append {front back : List (List α)} (hfront : front≠[]) (hback : back≠[]) :
    [c].intercalate (front++back)=[c].intercalate front++c::[c].intercalate back := by
  induction front with
  | nil => exact absurd rfl hfront
  | cons part front ih =>
    cases front with
    | nil => simp [intercalate_cons_of_ne_nil hback]
    | cons next front =>
      rw [cons_append,cons_append,intercalate_cons_cons,← cons_append,
        ih (cons_ne_nil _ _),intercalate_cons_cons]
      simp

variable [DecidableEq α] {s t : List α}

/-- The parts of a list are the last parts of another exactly if it is the other one, or stands at
its end after a separator. -/
theorem splitOn_isSuffix_iff : s.splitOn c <:+ t.splitOn c ↔ t=s ∨ (c::s) <:+ t := by
  constructor
  · rintro ⟨front,h⟩
    have hne : s.splitOn c≠[] := splitOnP_ne_nil _ _
    have hjoin := congrArg [c].intercalate h
    cases front with
    | nil =>
      rw [nil_append,intercalate_splitOn,intercalate_splitOn] at hjoin
      exact Or.inl hjoin.symm
    | cons part front =>
      rw [intercalate_append (cons_ne_nil _ _) hne,intercalate_splitOn,
        intercalate_splitOn] at hjoin
      exact Or.inr ⟨_,hjoin⟩
  · rintro (rfl | ⟨front,rfl⟩)
    · exact suffix_rfl
    · have hsep : (c == c)=true := beq_self_eq_true c
      exact ⟨front.splitOn c,(splitOnP_append_cons (p := (· == c)) front s hsep).symm⟩

/-- A function that keeps the separator, and takes nothing else to it, acts on the parts. -/
theorem splitOn_map {f : α → α} (hf : ∀ x, f x=c ↔ x=c) (s : List α) :
    (s.map f).splitOn c=(s.splitOn c).map (List.map f) := by
  induction s with
  | nil => rfl
  | cons x s ih =>
    simp only [List.splitOn] at ih ⊢
    rw [map_cons,splitOnP_cons_eq_if_modifyHead,splitOnP_cons_eq_if_modifyHead,ih]
    by_cases hx : x=c
    · simp [hx,(hf c).mpr rfl]
    · simp only [beq_iff_eq,hf,hx,if_false]
      cases List.splitOnP (· == c) s <;> rfl
end

abbrev Text := List UInt8

def ch (c : Char) : UInt8 := c.toNat.toUInt8

def asChar (b : UInt8) : Char := Char.ofNat b.toNat

def text (s : String) : Text := s.toList.map ch

def isDigit (b : UInt8) : Bool := ch '0' ≤ b && b ≤ ch '9'

def isLower (b : UInt8) : Bool := ch 'a' ≤ b && b ≤ ch 'z'

def isUpper (b : UInt8) : Bool := ch 'A' ≤ b && b ≤ ch 'Z'

def hexValue (b : UInt8) : Option Nat :=
  if isDigit b then some (b.toNat - '0'.toNat)
  else if ch 'a' ≤ b && b ≤ ch 'f' then some (b.toNat - 'a'.toNat+10)
  else if ch 'A' ≤ b && b ≤ ch 'F' then some (b.toNat - 'A'.toNat+10)
  else none

def isHex (b : UInt8) : Bool := (hexValue b).isSome

/-- What holds of the 256 bytes holds of every byte. -/
theorem forall_byte {P : UInt8 → Prop} (h : ∀ n<256, P (UInt8.ofNat n)) (b : UInt8) : P b := by
  have hb := h b.toNat b.toNat_lt
  rwa [UInt8.ofNat_toNat] at hb

theorem asChar_ch {c : Char} (h : c.toNat<256) : asChar (ch c)=c := by
  rw [asChar,ch]
  have : c.toNat.toUInt8.toNat=c.toNat := by
    simp [Nat.toUInt8,Nat.mod_eq_of_lt h]
  rw [this,Char.ofNat_toNat]

def decimal (n : Nat) : Text := (Nat.toDigits 10 n).map ch

def parseDecimal (s : Text) : Option Nat :=
  if s≠[] ∧ s.all isDigit then some (Nat.ofDigitChars 10 (s.map asChar) 0) else none

theorem isDigit_ch {c : Char} (h : c.isDigit=true) : c.toNat<256 ∧ isDigit (ch c)=true := by
  have hbounds : 48 ≤ c.toNat ∧ c.toNat≤57 := by simpa [Char.isDigit,UInt32.le_iff_toNat_le] using h
  refine ⟨by omega,?_⟩
  have hdigits : ∀ n<58, 48 ≤ n → isDigit n.toUInt8=true := by decide
  exact hdigits c.toNat (by omega) hbounds.1

theorem isDigit_of_mem_decimal {n : Nat} {b : UInt8} (h : b∈decimal n) : isDigit b=true := by
  obtain ⟨c,hc,rfl⟩ := mem_map.mp h
  exact (isDigit_ch (Nat.isDigit_of_mem_toDigits (by decide) (by decide) hc)).2

theorem decimal_ne_nil (n : Nat) : decimal n≠[] := by
  rw [decimal,Ne,map_eq_nil_iff,Nat.toDigits_eq_if (by decide)]
  split_ifs <;> simp

theorem parseDecimal_decimal (n : Nat) : parseDecimal (decimal n)=some n := by
  have hall : (decimal n).all isDigit=true := all_eq_true.mpr fun b hb => isDigit_of_mem_decimal hb
  have hchars : (decimal n).map asChar=Nat.toDigits 10 n := by
    rw [decimal,map_map]
    conv_rhs => rw [← map_id (Nat.toDigits 10 n)]
    refine map_congr_left fun c hc => ?_
    exact asChar_ch (isDigit_ch (Nat.isDigit_of_mem_toDigits (by decide) (by decide) hc)).1
  rw [parseDecimal,if_pos ⟨decimal_ne_nil n,hall⟩,hchars,Nat.ofDigitChars_toDigits (by decide) (by decide)]

section
/- The characters of white space in UTF-8. -/
def spaces : List Text :=
  [[9],[10],[11],[12],[13],[32],[0xc2,0x85],[0xc2,0xa0],[0xe1,0x9a,0x80],
    [0xe2,0x80,0x80],[0xe2,0x80,0x81],[0xe2,0x80,0x82],[0xe2,0x80,0x83],[0xe2,0x80,0x84],
    [0xe2,0x80,0x85],[0xe2,0x80,0x86],[0xe2,0x80,0x87],[0xe2,0x80,0x88],[0xe2,0x80,0x89],
    [0xe2,0x80,0x8a],[0xe2,0x80,0xa8],[0xe2,0x80,0xa9],[0xe2,0x80,0xaf],[0xe2,0x81,0x9f],
    [0xe3,0x80,0x80]]

def trimFront (words : List Text) : Nat → Text → Text
  | 0, s => s
  | n+1, s => match words.find? fun w => w.isPrefixOf s with
    | some w => trimFront words n (s.drop w.length)
    | none => s

def trimLeft (s : Text) : Text := trimFront spaces s.length s

def trimRight (s : Text) : Text := (trimFront (spaces.map List.reverse) s.length s.reverse).reverse

def trimSpace (s : Text) : Text := trimRight (trimLeft s)

def isGraphic (c : UInt8) : Bool := 0x21 ≤ c && c≤0x7e

variable {words : List Text} {n : Nat} {s : Text}

theorem trimFront_of_none (h : ∀ w∈words, ¬ w <+: s) : trimFront words n s=s := by
  cases n with
  | zero => rfl
  | succ n =>
    have hnone : words.find? (fun w => w.isPrefixOf s)=none :=
      find?_eq_none.mpr fun w hw => by simpa using h w hw
    rw [trimFront,hnone]

theorem trimFront_of_graphic (hwords : ∀ w∈words, ∃ c∈w, isGraphic c=false)
    (hs : ∀ c∈s, isGraphic c=true) : trimFront words n s=s := by
  refine trimFront_of_none fun w hw hstarts => ?_
  obtain ⟨c,hc,hgraphic⟩ := hwords w hw
  rw [hs c (hstarts.subset hc)] at hgraphic
  cases hgraphic

theorem trimSpace_of_graphic (hs : ∀ c∈s, isGraphic c=true) : trimSpace s=s := by
  have hleft : trimLeft s=s := trimFront_of_graphic (by decide) hs
  have hright : trimFront (spaces.map List.reverse) s.length s.reverse=s.reverse :=
    trimFront_of_graphic (by decide) fun c hc => hs c (mem_reverse.mp hc)
  rw [trimSpace,hleft,trimRight,hright,reverse_reverse]

theorem mem_trimFront (words : List Text) (n : Nat) {c : UInt8} (h : c∈s) :
    c∈trimFront words n s ∨ ∃ w∈words, c∈w := by
  induction n generalizing s with
  | zero => exact .inl h
  | succ n ih =>
    rw [trimFront]
    split
    · rename_i w hfind
      have hstarts : w <+: s := by simpa using find?_some hfind
      have hs : s=w++s.drop w.length := (prefix_iff_eq_append.mp hstarts).symm
      rw [hs] at h
      obtain hw | hrest := mem_append.mp h
      · exact .inr ⟨w,mem_of_find?_eq_some hfind,hw⟩
      · exact ih hrest
    · exact .inl h

/-- What is trimmed off is not printable. -/
theorem mem_trimSpace {c : UInt8} (h : c∈s) : c∈trimSpace s ∨ isGraphic c=false := by
  have hall : (spaces.all fun w => w.all fun c => !isGraphic c)=true := by decide
  have hspaces : ∀ w∈spaces, ∀ c∈w, isGraphic c=false := by
    intro w hw c hc
    have hword := all_eq_true.mp hall w hw
    rw [← Bool.not_eq_true']
    exact all_eq_true.mp hword c hc
  obtain hleft | ⟨w,hw,hc⟩ := mem_trimFront spaces s.length h
  · have hreverse := mem_reverse.mpr hleft
    obtain hright | ⟨w,hw,hc⟩ := mem_trimFront (spaces.map List.reverse) (trimLeft s).length hreverse
    · exact .inl (mem_reverse.mpr hright)
    · obtain ⟨v,hv,rfl⟩ := mem_map.mp hw
      exact .inr (hspaces v hv c (mem_reverse.mp hc))
  · exact .inr (hspaces w hw c hc)
end

section
variable {α β : Type*} {f : α → List α → β × Nat}

/- A step says how many of the elements behind its own belong to it. -/
def scan (f : α → List α → β × Nat) : Nat → List α → List β
  | _, [] => []
  | skip+1, _::s => scan f skip s
  | 0, a::s => (f a s).1::scan f (f a s).2 s

theorem scan_append (w s : List α) : scan f w.length (w++s)=scan f 0 s := by
  induction w with
  | nil => rfl
  | cons a w ih => exact ih

theorem exists_of_mem_scan {x : β} {n : Nat} {s : List α} (h : x∈scan f n s) : ∃ a s, (f a s).1=x := by
  induction s generalizing n with
  | nil => cases n <;> cases h
  | cons a s ih =>
    cases n with
    | succ n => exact ih h
    | zero =>
      obtain rfl | h := mem_cons.mp h
      · exact ⟨a,s,rfl⟩
      · exact ih h

/-- What a scan finds makes up the list if each step takes the word it found. -/
theorem scan_flatMap {word : β → List α}
    (h : ∀ a s, ∃ w rest, s=w++rest ∧ (f a s).2=w.length ∧ word (f a s).1=a::w) :
    ∀ s, (scan f 0 s).flatMap word=s
  | [] => rfl
  | a::s => by
    obtain ⟨w,rest,hs,hskip,hword⟩ := h a s
    have hrest := scan_flatMap h rest
    rw [scan,hskip,flatMap_cons,hword,hs,scan_append,hrest,cons_append]
  termination_by s => s.length
  decreasing_by
    rw [hs,length_cons,length_append]
    omega
end

/- A text as Go ranges over it: a byte that begins no character stands alone. -/
def rune (b : UInt8) (s : Text) : Except UInt8 Char × Nat :=
  match (b::s).toByteArray.utf8DecodeChar? 0 with
  | some c => (.ok c, c.utf8Size-1)
  | none => (.error b, 0)

def runes (s : Text) : List (Except UInt8 Char) := scan rune 0 s

def runeBytes : Except UInt8 Char → Text
  | .ok c => String.utf8EncodeChar c
  | .error b => [b]

theorem runes_flatMap (s : Text) : (runes s).flatMap runeBytes=s := by
  refine scan_flatMap (fun b s => ?_) s
  rw [rune]
  cases hdecode : (b::s).toByteArray.utf8DecodeChar? 0 with
  | none => exact ⟨[],s,rfl,rfl,rfl⟩
  | some c =>
    obtain ⟨l,hl⟩ := ByteArray.exists_of_utf8DecodeChar?_eq_some hdecode
    have hbytes := congrArg (·.data.toList) hl
    have hlength := String.length_utf8EncodeChar c
    obtain ⟨b',w,hw⟩ := exists_cons_of_ne_nil (String.utf8EncodeChar_ne_nil (c := c))
    simp only [ByteArray.data_append,data_toByteArray,Array.toList_append,hw,cons_append,cons.injEq] at hbytes
    obtain ⟨rfl,rfl⟩ := hbytes
    refine ⟨w,_,rfl,?_,hw⟩
    change c.utf8Size-1=w.length
    rw [← hlength,hw,length_cons,Nat.add_sub_cancel]

theorem le_of_error_mem_runes {b : UInt8} {s : Text} (h : .error b∈runes s) : 128 ≤ b := by
  obtain ⟨a,s,hstep⟩ := exists_of_mem_scan h
  rw [rune] at hstep
  split at hstep
  · cases hstep
  · rename_i hdecode
    cases hstep
    by_contra hb
    have hall : ∀ n<256, UInt8.ofNat n<128 → String.utf8EncodeChar (asChar (UInt8.ofNat n))=[UInt8.ofNat n] := by
      decide +kernel
    have hchar := forall_byte (P := fun b => b<128 → String.utf8EncodeChar (asChar b)=[b]) hall b
      (UInt8.not_le.mp hb)
    rw [← singleton_append,← hchar,toByteArray_append,ByteArray.utf8DecodeChar?_utf8EncodeChar_append] at hdecode
    cases hdecode

end AetherX.ByteText
