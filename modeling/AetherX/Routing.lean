import Mathlib.Data.List.Infix
import AetherX.ByteText
import AetherX.StableSort

/-! Which destinations go directly, through the tunnel, or nowhere: the first category in the order
of priorities that a request falls under decides. -/
namespace AetherX.Routing
open ByteText

inductive Action where
  | direct
  | proxy
  | block
  deriving DecidableEq

inductive DomainType where
  | full
  | suffix
  | keyword
  deriving DecidableEq

structure DomainRule where
  ty : DomainType
  value : Text
  deriving DecidableEq

inductive IpAddr where
  | v4 (addr : BitVec 32)
  | v6 (addr : BitVec 128)
  deriving DecidableEq

/- A network of addresses of w bits. -/
structure Net (w : Nat) where
  addr : BitVec w
  prefixLen : Fin (w+1)
  deriving DecidableEq

namespace Net
variable {w : Nat}

def hostmask (net : Net w) : BitVec w := BitVec.allOnes w >>> net.prefixLen.val

def network (net : Net w) : BitVec w := net.addr &&& ~~~net.hostmask

def broadcast (net : Net w) : BitVec w := net.addr ||| net.hostmask

def contains (net : Net w) (addr : BitVec w) : Bool := net.network ≤ addr && addr ≤ net.broadcast

end Net

inductive IpNet where
  | v4 (net : Net 32)
  | v6 (net : Net 128)
  deriving DecidableEq

def IpNet.contains : IpNet → IpAddr → Bool
  | .v4 net, .v4 addr => net.contains addr
  | .v6 net, .v6 addr => net.contains addr
  | _, _ => false

structure Category where
  action : Action
  priority : Int
  domains : List DomainRule
  cidrs : List IpNet
  deriving DecidableEq

structure RuleSet where
  defaultAction : Action
  categories : List Category

def RuleSet.sorted (rules : RuleSet) : RuleSet :=
  { rules with categories := StableSort.sortDesc Category.priority rules.categories }

def toAsciiLowercase (s : Text) : Text := s.map fun c => if isUpper c then c+32 else c

def domainMatches (domain : Text) (rules : List DomainRule) : Bool :=
  let dom := toAsciiLowercase domain
  rules.any fun r =>
    match r.ty with
    | .full => dom=toAsciiLowercase r.value
    | .suffix =>
      let v := toAsciiLowercase r.value
      dom=v || (ch '.' :: v) <:+ dom
    | .keyword => toAsciiLowercase r.value <:+: dom

def ipMatches (ip : IpAddr) (cidrs : List IpNet) : Bool := cidrs.any fun c => c.contains ip

structure Request where
  domain : Option Text
  ip : Option IpAddr

structure Engine where
  rules : RuleSet

def Category.covers (cat : Category) (req : Request) : Bool :=
  let domOk := req.domain.any fun d => domainMatches d cat.domains
  let ipOk := req.ip.any fun ip => ipMatches ip cat.cidrs
  domOk || ipOk

def Engine.decide (e : Engine) (req : Request) : Action :=
  match e.rules.categories.find? (·.covers req) with
  | some cat => cat.action
  | none => e.rules.defaultAction

/-- The decision is the action of the first category with the highest priority among those that
cover the request, and the default action where there is none. If no two categories share a
priority, the order they are declared in does not matter. -/
theorem decide_highest_priority (rules : RuleSet) (req : Request) :
    ((∃ cat, StableSort.IsBest Category.priority (·.covers req) rules.categories cat ∧
        (Engine.mk rules.sorted).decide req=cat.action) ∨
      (∀ cat∈rules.categories, cat.covers req=false) ∧
        (Engine.mk rules.sorted).decide req=rules.defaultAction) ∧
    ((rules.categories.map Category.priority).Nodup → ∀ declared, declared.Perm rules.categories →
      (Engine.mk (RuleSet.sorted { rules with categories := declared })).decide req =
        (Engine.mk rules.sorted).decide req) := by
  refine ⟨?_,fun hdistinct declared hperm => ?_⟩
  · have hfirst := @StableSort.find?_sortDesc _ _ _ Category.priority (·.covers req) rules.categories
    rcases hfirst with ⟨cat,hfind,hbest⟩ | ⟨hnone,hall⟩
    · refine Or.inl ⟨cat,hbest,?_⟩
      rw [Engine.decide,RuleSet.sorted]
      simp only [hfind]
    · refine Or.inr ⟨hall,?_⟩
      rw [Engine.decide,RuleSet.sorted]
      simp only [hnone]
  · have hsame : StableSort.sortDesc Category.priority rules.categories =
        StableSort.sortDesc Category.priority declared :=
      StableSort.sortDesc_eq_of_perm hperm.symm fun a ha b hb hab =>
        List.inj_on_of_nodup_map hdistinct ha hb hab
    rw [RuleSet.sorted,RuleSet.sorted,hsame]

/- Advertising is blocked even under a name that would otherwise be reached directly. -/
def ads : Category := ⟨.block,100,[⟨.keyword,text "doubleclick"⟩],[]⟩

def ir : Category := ⟨.direct,50,[⟨.suffix,text "ir"⟩],[.v4 ⟨0x05a00000,15⟩]⟩

def doubleclick : Request := ⟨some (text "stats.doubleclick.ir"),none⟩

theorem decide_highest_priority_declared_last :
    (Engine.mk (RuleSet.sorted ⟨.proxy,[ads,ir]⟩)).decide doubleclick = .block ∧
    (Engine.mk (RuleSet.sorted ⟨.proxy,[ir,ads]⟩)).decide doubleclick =
      (Engine.mk (RuleSet.sorted ⟨.proxy,[ads,ir]⟩)).decide doubleclick :=
  ⟨by decide +kernel,
    (decide_highest_priority ⟨.proxy,[ads,ir]⟩ doubleclick).2 (by decide) [ir,ads] (.swap ..)⟩

def labels (name : Text) : List Text := name.splitOn (ch '.')

/- Bytes that are equal but for the case of an ASCII letter. -/
def SameLetter (a b : UInt8) : Prop := a=b ∨ (isUpper a || isLower a)=true ∧ b=a ^^^ 0x20

instance : DecidableRel SameLetter := fun _ _ => inferInstanceAs (Decidable (_ ∨ _))

abbrev SameLetters : Text → Text → Prop := List.Forall₂ SameLetter

theorem lower_eq_dot_iff (c : UInt8) :
    (if isUpper c then c+32 else c)=ch '.' ↔ c=ch '.' := by
  revert c
  exact forall_byte (by decide +kernel)

theorem lower_flip (c : UInt8) (h : (isUpper c || isLower c)=true) :
    (if isUpper (c ^^^ 0x20) then (c ^^^ 0x20)+32 else c ^^^ 0x20) =
      if isUpper c then c+32 else c := by
  revert c
  exact forall_byte (by decide +kernel)

theorem SameLetters.lower_eq {s t : Text} (h : SameLetters s t) :
    toAsciiLowercase s=toAsciiLowercase t := by
  induction h with
  | nil => rfl
  | cons hletter _ ih =>
    rw [toAsciiLowercase,toAsciiLowercase] at ih ⊢
    rw [List.map_cons,List.map_cons,ih]
    rcases hletter with rfl | ⟨hletter,rfl⟩
    · rfl
    · rw [lower_flip _ hletter]

theorem labels_lower (name : Text) :
    labels (toAsciiLowercase name)=(labels name).map toAsciiLowercase :=
  splitOn_map lower_eq_dot_iff name

/-- A suffix rule compares whole labels, and the case of ASCII letters never matters. -/
theorem domain_matches_labels :
    (∀ domain value, domainMatches domain [⟨.suffix,value⟩]=true ↔
      (labels value).map toAsciiLowercase <:+ (labels domain).map toAsciiLowercase) ∧
    ∀ domain domain' rules rules', SameLetters domain domain' →
      List.Forall₂ (fun r r' : DomainRule => r.ty=r'.ty ∧ SameLetters r.value r'.value)
        rules rules' →
      domainMatches domain rules=domainMatches domain' rules' := by
  refine ⟨fun domain value => ?_,fun domain domain' rules rules' hdomain hrules => ?_⟩
  · rw [← labels_lower,← labels_lower,labels,labels,splitOn_isSuffix_iff]
    simp [domainMatches]
  · rw [domainMatches,domainMatches,hdomain.lower_eq]
    induction hrules with
    | nil => rfl
    | cons hrule _ ih =>
      rw [List.any_cons,List.any_cons,ih]
      simp only [hrule.1,hrule.2.lower_eq]

theorem domain_matches_labels_mixed_case :
    domainMatches (text "mail.google.com") [⟨.suffix,text "google.com"⟩]=true ∧
    domainMatches (text "evilgoogle.com") [⟨.suffix,text "google.com"⟩]=false ∧
    domainMatches (text "mail.google.com") [⟨.suffix,text "google.com"⟩] =
      domainMatches (text "MAIL.Google.com") [⟨.suffix,text "google.COM"⟩] :=
  ⟨by decide +kernel,by decide +kernel,
    domain_matches_labels.2 _ _ _ _ (by decide +kernel) (by decide +kernel)⟩

end AetherX.Routing
