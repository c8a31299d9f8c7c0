import Mathlib.Data.List.Infix
import Mathlib.Data.String.Basic
import AetherX.BigEndian

/-! Nested tunnels: every layer wraps what the layers inside it made into a frame with its role,
its name, its declared overhead and the length, followed by padding. -/
namespace AetherX.MultiTunnel
open BigEndian List

abbrev Bytes := List UInt8

inductive TunnelRole where
  | outer
  | inner
  deriving DecidableEq

structure TunnelLayer where
  name : String
  role : TunnelRole
  overheadBytes : UInt32
  deriving DecidableEq

def tagOuter : UInt8 := 0x4F
def tagInner : UInt8 := 0x49

def roleTag : TunnelRole → UInt8
  | .outer => tagOuter
  | .inner => tagInner

inductive CascadeError where
  | truncated
  | badRoleTag
  deriving DecidableEq

def TunnelLayer.nameBytes (layer : TunnelLayer) : Bytes := layer.name.toUTF8.data.toList

/- Name length and inner length are narrowed to one and to four bytes. -/
def frameLayer (layer : TunnelLayer) (inner : Bytes) : Bytes :=
  roleTag layer.role::UInt8.ofNat layer.nameBytes.length::(layer.nameBytes ++
    (toBytes 4 layer.overheadBytes.toNat++(toBytes 4 inner.length ++
      (inner++replicate layer.overheadBytes.toNat 0x00))))

def unframeLayer (buf : Bytes) : Except CascadeError Bytes :=
  if buf.length<10 then .error .truncated
  else
    let role := buf.getD 0 0
    if role≠tagOuter ∧ role≠tagInner then .error .badRoleTag
    else
      let nameLen := (buf.getD 1 0).toNat
      let header := 1+1+nameLen+4
      if buf.length < header+4 then .error .truncated
      else
        let overhead := readAt buf (2+nameLen) 4
        let len := readAt buf header 4
        let bodyStart := header+4
        if buf.length < bodyStart+len+overhead then .error .truncated
        else .ok ((buf.drop bodyStart).take len)

section
variable (layer : TunnelLayer) (inner : Bytes)

theorem length_frameLayer : (frameLayer layer inner).length =
    10+layer.nameBytes.length+inner.length+layer.overheadBytes.toNat := by
  simp [frameLayer]
  omega

theorem roleTag_valid (role : TunnelRole) :
    ¬ (roleTag role≠tagOuter ∧ roleTag role≠tagInner) := by
  cases role <;> simp [roleTag]

theorem readAt_overhead : readAt (frameLayer layer inner) (2+layer.nameBytes.length) 4 =
    layer.overheadBytes.toNat := by
  have hfirst : 2+layer.nameBytes.length =
      (roleTag layer.role::UInt8.ofNat layer.nameBytes.length::layer.nameBytes).length := by
    simp
    omega
  have hframe : frameLayer layer inner =
      (roleTag layer.role::UInt8.ofNat layer.nameBytes.length::layer.nameBytes) ++
        (toBytes 4 layer.overheadBytes.toNat++(toBytes 4 inner.length ++
          (inner++replicate layer.overheadBytes.toNat 0x00))) := rfl
  rw [hfirst,readAt_toBytes hframe]
  exact Nat.mod_eq_of_lt layer.overheadBytes.toNat_lt

theorem readAt_length (h : inner.length<2^32) :
    readAt (frameLayer layer inner) (1+1+layer.nameBytes.length+4) 4=inner.length := by
  have hfirst : 1+1+layer.nameBytes.length+4 =
      (roleTag layer.role::UInt8.ofNat layer.nameBytes.length ::
        (layer.nameBytes++toBytes 4 layer.overheadBytes.toNat)).length := by
    simp
    omega
  rw [hfirst,readAt_toBytes (by simp [frameLayer]; rfl)]
  exact Nat.mod_eq_of_lt h

theorem body_frameLayer :
    ((frameLayer layer inner).drop (1+1+layer.nameBytes.length+4+4)).take inner.length =
      inner := by
  have hframe : frameLayer layer inner=(roleTag layer.role ::
      UInt8.ofNat layer.nameBytes.length::(layer.nameBytes ++
        (toBytes 4 layer.overheadBytes.toNat++toBytes 4 inner.length))) ++
      (inner++replicate layer.overheadBytes.toNat 0x00) := by
    simp [frameLayer]
  rw [hframe,drop_left' (by simp; omega),take_left]

/-- A frame that arrives whole gives its content, and one that is cut short anywhere is
recognised as truncated. -/
theorem unframeLayer_take (hname : layer.nameBytes.length≤255) (hlen : inner.length<2^32)
    (k : Nat) : unframeLayer ((frameLayer layer inner).take k) =
      if k<(frameLayer layer inner).length then .error .truncated else .ok inner := by
  have hlength := length_frameLayer layer inner
  have htaken : ((frameLayer layer inner).take k).length =
      min k (frameLayer layer inner).length := length_take
  by_cases hk : k<10
  · rw [unframeLayer,if_pos (by omega),if_pos (by omega)]
  have hrole : ((frameLayer layer inner).take k).getD 0 0=roleTag layer.role := by
    obtain ⟨j,rfl⟩ : ∃ j, k=j+2 := ⟨k-2,by omega⟩
    rfl
  have hnameLen : (((frameLayer layer inner).take k).getD 1 0).toNat=layer.nameBytes.length := by
    obtain ⟨j,rfl⟩ : ∃ j, k=j+2 := ⟨k-2,by omega⟩
    exact UInt8.toNat_ofNat'.trans (Nat.mod_eq_of_lt (by omega))
  rw [unframeLayer,if_neg (by omega)]
  simp only [hrole,hnameLen,roleTag_valid,if_false]
  by_cases hheader : k<1+1+layer.nameBytes.length+4+4
  · rw [if_pos (by omega),if_pos (by omega)]
  rw [if_neg (by omega),readAt_take (by omega),readAt_take (by omega),readAt_overhead,
    readAt_length layer inner hlen]
  by_cases hwhole : k<(frameLayer layer inner).length
  · rw [if_pos (by omega),if_pos hwhole]
  · have hall : (frameLayer layer inner).take k=frameLayer layer inner :=
      take_of_length_le (Nat.le_of_not_lt hwhole)
    rw [if_neg (by omega),if_neg hwhole,hall,body_frameLayer]
end

structure TunnelCascade where
  layers : List TunnelLayer
  activeTransport : String
  hops : Nat

namespace TunnelCascade
def new (layers : List TunnelLayer) : TunnelCascade := ⟨layers, "primary",0⟩

def iranResilientDefault : TunnelCascade :=
  new [⟨"intranet-mtls",.outer,48⟩,⟨"xhttp",.outer,32⟩,⟨"amneziawg",.inner,64⟩,
    ⟨"shadowtls",.inner,24⟩]

/- Inner layers first, so that the first layer ends up outermost. -/
def encapsulate (c : TunnelCascade) (payload : Bytes) : Bytes :=
  c.layers.reverse.foldl (fun buf layer => frameLayer layer buf) payload

def decapsulate (c : TunnelCascade) (framed : Bytes) : Except CascadeError Bytes :=
  c.layers.foldlM (fun buf _ => unframeLayer buf) framed

end TunnelCascade

def wrap (layers : List TunnelLayer) (payload : Bytes) : Bytes := layers.foldr frameLayer payload

def unwrap (layers : List TunnelLayer) (framed : Bytes) : Except CascadeError Bytes :=
  layers.foldlM (fun buf _ => unframeLayer buf) framed

theorem encapsulate_eq_wrap (c : TunnelCascade) (payload : Bytes) :
    c.encapsulate payload=wrap c.layers payload := by
  rw [TunnelCascade.encapsulate,foldl_reverse]
  rfl

theorem length_wrap (layers : List TunnelLayer) (payload : Bytes) : (wrap layers payload).length =
    payload.length+(layers.map fun layer =>
      10+layer.nameBytes.length+layer.overheadBytes.toNat).sum := by
  induction layers with
  | nil => rfl
  | cons layer layers ih =>
    have hwrap : wrap (layer::layers) payload=frameLayer layer (wrap layers payload) := rfl
    rw [hwrap,length_frameLayer,ih,map_cons,sum_cons]
    omega

/- Every layer's name and the length of what it wraps fit their fields. -/
def Fits (layers : List TunnelLayer) (payload : Bytes) : Prop :=
  (∀ layer∈layers, layer.nameBytes.length≤255) ∧
    ∀ layer inside, layer::inside <:+ layers → (wrap inside payload).length<2^32

variable {layer : TunnelLayer} {layers : List TunnelLayer} {payload : Bytes}

theorem Fits.tail (h : Fits (layer::layers) payload) : Fits layers payload :=
  ⟨fun l hl => h.1 l (mem_cons_of_mem _ hl),
    fun l inside hsuffix => h.2 l inside (hsuffix.trans (suffix_cons layer layers))⟩

theorem Fits.unframe (h : Fits (layer::layers) payload) (k : Nat) :
    unframeLayer ((wrap (layer::layers) payload).take k) =
      if k<(wrap (layer::layers) payload).length then .error .truncated
      else .ok (wrap layers payload) :=
  unframeLayer_take layer (wrap layers payload) (h.1 layer mem_cons_self)
    (h.2 layer layers suffix_rfl) k

theorem unwrap_wrap (layers : List TunnelLayer) (payload : Bytes) (h : Fits layers payload) :
    unwrap layers (wrap layers payload) = .ok payload := by
  induction layers with
  | nil => rfl
  | cons layer layers ih =>
    have hunframe : unframeLayer (wrap (layer::layers) payload) = .ok (wrap layers payload) := by
      have hwhole := h.unframe (wrap (layer::layers) payload).length
      rwa [take_length,if_neg (Nat.lt_irrefl _)] at hwhole
    rw [unwrap,foldlM_cons,hunframe]
    exact ih h.tail

/-- A cut anywhere is noticed by the outermost layer. -/
theorem unwrap_take (h : Fits (layer::layers) payload) {k : Nat}
    (hk : k<(wrap (layer::layers) payload).length) :
    unwrap (layer::layers) ((wrap (layer::layers) payload).take k) = .error .truncated := by
  rw [unwrap,foldlM_cons,h.unframe,if_pos hk]
  rfl

/-- What was encapsulated comes back, and no strict prefix of it is accepted. -/
theorem decapsulate_encapsulate (c : TunnelCascade) (payload : Bytes)
    (hfits : Fits c.layers payload) :
    c.decapsulate (c.encapsulate payload) = .ok payload ∧
      (c.layers≠[] → ∀ cut, cut <+: c.encapsulate payload → cut≠c.encapsulate payload →
        c.decapsulate cut = .error .truncated) := by
  rw [encapsulate_eq_wrap]
  refine ⟨unwrap_wrap c.layers payload hfits,fun hne cut hprefix hstrict => ?_⟩
  rw [prefix_iff_eq_take] at hprefix
  have hshort : cut.length<(wrap c.layers payload).length := by
    by_contra hlong
    rw [take_of_length_le (Nat.le_of_not_lt hlong)] at hprefix
    exact hstrict hprefix
  obtain ⟨layer,layers,hlayers⟩ := exists_cons_of_ne_nil hne
  rw [hlayers] at hfits hshort hprefix
  rw [TunnelCascade.decapsulate,hlayers, hprefix]
  exact unwrap_take hfits hshort

theorem fits_of_lt (hnames : ∀ layer∈layers, layer.nameBytes.length≤255)
    (h : (wrap layers payload).length<2^32) : Fits layers payload := by
  refine ⟨hnames,fun layer inside hsuffix => ?_⟩
  obtain ⟨outside,rfl⟩ := hsuffix
  rw [length_wrap] at h ⊢
  rw [map_append,map_cons,sum_append,sum_cons] at h
  omega

theorem decapsulate_encapsulate_default :
    let c := TunnelCascade.iranResilientDefault
    c.decapsulate (c.encapsulate [1,2,3]) = .ok [1,2,3] ∧
      (c.layers≠[] → ∀ cut, cut <+: c.encapsulate [1,2,3] → cut≠c.encapsulate [1,2,3] →
        c.decapsulate cut = .error .truncated) :=
  decapsulate_encapsulate _ _ (fits_of_lt (by decide +kernel) (by decide +kernel))

end AetherX.MultiTunnel
