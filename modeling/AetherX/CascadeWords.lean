import AetherX.CheckedWord
import AetherX.Machine
import AetherX.MultiTunnel

/-! Decapsulating a cascade with the machine's words: the end of a frame is a sum of two 32-bit
numbers that the frame itself declares. -/
namespace AetherX.CascadeWords
open BigEndian CheckedWord
open CheckedInt (Build)
open Machine (bind_ok)
open MultiTunnel (Bytes TunnelLayer TunnelCascade CascadeError tagOuter tagInner)

variable {build : Build} {target : Target} {buf : Bytes}

def unframeLayer (build : Build) (target : Target) (buf : Bytes) :
    Except Panic (Except CascadeError Bytes) := do
  if buf.length<10 then return .error .truncated
  let role ← index buf 0
  if role≠tagOuter ∧ role≠tagInner then return .error .badRoleTag
  let nameLen := (← index buf 1).toNat
  let header ← add build target (← add build target (1+1) nameLen) 4
  if buf.length<(← add build target header 4) then return .error .truncated
  let overhead ← numberAt buf [← add build target 2 nameLen,← add build target 3 nameLen,
    ← add build target 4 nameLen,← add build target 5 nameLen]
  let len ← numberAt buf [header,← add build target header 1,← add build target header 2,
    ← add build target header 3]
  let bodyStart ← add build target header 4
  if buf.length<(← add build target (← add build target bodyStart len) overhead) then
    return .error .truncated
  return .ok (← slice buf bodyStart (← add build target bodyStart len))

def decapsulate (build : Build) (target : Target) :
    List TunnelLayer → Bytes → Except Panic (Except CascadeError Bytes)
  | [], buf => .ok (.ok buf)
  | _::layers, buf => do
    match ← unframeLayer build target buf with
    | .error e => .ok (.error e)
    | .ok inner => decapsulate build target layers inner

/- Where a frame with a whole header ends, as far as it says. -/
def declaredEnd (buf : Bytes) : Option Nat :=
  let nameLen := (buf.getD 1 0).toNat
  let header := 1+1+nameLen+4
  if buf.length<10 ∨ (buf.getD 0 0≠tagOuter ∧ buf.getD 0 0≠tagInner) ∨
      buf.length < header+4 then none
  else some (header+4+readAt buf header 4+readAt buf (2+nameLen) 4)

def Fits (target : Target) (buf : Bytes) : Prop := ∀ e∈declaredEnd buf, e<2^target.bits

/- Every frame that is unwrapped on the way to the payload ends at a position that is a word. -/
def Representable (target : Target) : List TunnelLayer → Bytes → Prop
  | [], _ => True
  | _::layers, buf => Fits target buf ∧
    ∀ inner, MultiTunnel.unframeLayer buf = .ok inner → Representable target layers inner

/-- Up to the end of the header nothing can go wrong. -/
theorem unframeLayer_eq {nameLen : Nat} (hname : nameLen=(buf.getD 1 0).toNat)
    (hten : ¬ buf.length<10) (hrole : ¬ (buf.getD 0 0≠tagOuter ∧ buf.getD 0 0≠tagInner))
    (hheader : ¬ buf.length<1+1+nameLen+4+4) :
    unframeLayer build target buf=(do
      if buf.length<(← add build target (← add build target (1+1+nameLen+4+4)
          (readAt buf (1+1+nameLen+4) 4)) (readAt buf (2+nameLen) 4)) then
        return .error .truncated
      return .ok (← slice buf (1+1+nameLen+4+4)
        (← add build target (1+1+nameLen+4+4) (readAt buf (1+1+nameLen+4) 4)))) := by
  have hbyte := (buf.getD 1 0).toNat_lt
  have hword := target.pow_ge
  have hoverhead : [2+nameLen,3+nameLen,4+nameLen,5+nameLen] =
      List.range' (2+nameLen) 4 := by
    simp [List.range'_succ]
    omega
  have hlen : [1+1+nameLen+4,1+1+nameLen+4+1,1+1+nameLen+4+2,
      1+1+nameLen+4+3]=List.range' (1+1+nameLen+4) 4 := rfl
  have hsum : ∀ a b, a+b≤1+1+nameLen+4+4 → add build target a b = .ok (a+b) :=
    fun a b h => add_of_lt (by omega)
  rw [unframeLayer,if_neg hten,index_of_lt 0 (by omega),bind_ok,if_neg hrole,
    index_of_lt 0 (by omega),bind_ok]
  simp (disch := omega) only [← hname,hsum,bind_ok,if_neg hheader,hoverhead,hlen,
    numberAt_range]

/-- A layer whose declared end is a word is unwrapped as with exact arithmetic, in every build. -/
theorem unframeLayer_of_fits (build : Build) (h : Fits target buf) :
    unframeLayer build target buf = .ok (MultiTunnel.unframeLayer buf) := by
  have hword := target.pow_ge
  have hbyte := (buf.getD 1 0).toNat_lt
  rw [MultiTunnel.unframeLayer]
  by_cases hten : buf.length<10
  · rw [unframeLayer,if_pos hten,if_pos hten]
    rfl
  rw [if_neg hten]
  by_cases hrole : buf.getD 0 0≠tagOuter ∧ buf.getD 0 0≠tagInner
  · rw [unframeLayer,if_neg hten,index_of_lt 0 (by omega),bind_ok,if_pos hrole,if_pos hrole]
    rfl
  rw [if_neg hrole]
  by_cases hheader : buf.length<1+1+(buf.getD 1 0).toNat+4+4
  · rw [if_pos hheader,unframeLayer,if_neg hten,index_of_lt 0 (by omega),bind_ok,
      if_neg hrole,index_of_lt 0 (by omega),bind_ok]
    simp (disch := omega) only [add_of_lt,bind_ok,if_pos hheader]
    rfl
  rw [if_neg hheader,unframeLayer_eq rfl hten hrole hheader]
  have hend := h _ (if_neg (by simp only [hten,hrole,hheader,or_self,not_false_eq_true]))
  generalize readAt buf (1+1+(buf.getD 1 0).toNat+4) 4=len at *
  generalize readAt buf (2+(buf.getD 1 0).toNat) 4 = overhead at *
  generalize 1+1+(buf.getD 1 0).toNat+4+4=bodyStart at *
  rw [add_of_lt (by omega),bind_ok,add_of_lt hend,bind_ok]
  by_cases hshort : buf.length < bodyStart+len+overhead
  · rw [if_pos hshort,if_pos hshort]
    rfl
  · rw [if_neg hshort,if_neg hshort,bind_ok,slice_of_le (by omega) (by omega),
      Nat.add_sub_cancel_left]
    rfl

/-- With overflow checks a declared end that is no word panics. -/
theorem unframeLayer_debug_of_not_fits (h : ¬ Fits target buf) :
    unframeLayer .debug target buf = .error .overflow := by
  rw [Fits,not_forall] at h
  obtain ⟨e,hnot⟩ := h
  rw [Classical.not_imp,declaredEnd,Option.mem_def,Option.ite_none_left_eq_some] at hnot
  obtain ⟨⟨hguard,hend⟩,hbig⟩ := hnot
  simp only [not_or] at hguard
  obtain ⟨hten,hrole,hheader⟩ := hguard
  rw [Option.some.injEq] at hend
  rw [unframeLayer_eq rfl hten hrole hheader]
  generalize readAt buf (1+1+(buf.getD 1 0).toNat+4) 4=len at *
  generalize readAt buf (2+(buf.getD 1 0).toNat) 4 = overhead at *
  generalize 1+1+(buf.getD 1 0).toNat+4+4=bodyStart at *
  by_cases hbody : bodyStart+len<2^target.bits
  · rw [add_of_lt hbody,bind_ok,add_debug_of_ge (by omega)]
    rfl
  · rw [add_debug_of_ge (by omega)]
    rfl

theorem decapsulate_of_representable (build : Build) (layers : List TunnelLayer) {buf : Bytes}
    (h : Representable target layers buf) :
    decapsulate build target layers buf = .ok (MultiTunnel.unwrap layers buf) := by
  induction layers generalizing buf with
  | nil => rfl
  | cons layer layers ih =>
    rw [decapsulate,unframeLayer_of_fits build h.1,bind_ok,MultiTunnel.unwrap,List.foldlM_cons]
    cases hunframe : MultiTunnel.unframeLayer buf with
    | error e => rfl
    | ok inner => exact ih (h.2 inner hunframe)

theorem decapsulate_debug_of_not_representable (layers : List TunnelLayer) {buf : Bytes}
    (h : ¬ Representable target layers buf) :
    decapsulate .debug target layers buf = .error .overflow := by
  induction layers generalizing buf with
  | nil => exact absurd trivial h
  | cons layer layers ih =>
    by_cases hfits : Fits target buf
    · rw [decapsulate,unframeLayer_of_fits .debug hfits,bind_ok]
      rw [Representable,not_and,not_forall] at h
      obtain ⟨inner,hinner⟩ := h hfits
      rw [Classical.not_imp] at hinner
      rw [hinner.1]
      exact ih hinner.2
    · rw [decapsulate,unframeLayer_debug_of_not_fits hfits]
      rfl

theorem fits_bits64 (buf : Bytes) : Fits .bits64 buf := by
  intro e he
  rw [declaredEnd,Option.mem_def,Option.ite_none_left_eq_some,Option.some.injEq] at he
  have hbyte := (buf.getD 1 0).toNat_lt
  have hlen := readAt_lt buf (1+1+(buf.getD 1 0).toNat+4) 4
  have hoverhead := readAt_lt buf (2+(buf.getD 1 0).toNat) 4
  have hend := he.2
  rw [Target.bits]
  omega

theorem representable_bits64 (layers : List TunnelLayer) (buf : Bytes) :
    Representable .bits64 layers buf := by
  induction layers generalizing buf with
  | nil => trivial
  | cons layer layers ih => exact ⟨fits_bits64 buf,fun inner _ => ih inner⟩

/-- On a 64-bit machine every byte string is decapsulated as with exact arithmetic. On a 32-bit
one no build panics exactly when no frame on the way declares an end of 2^32 or more. -/
theorem decapsulate_total_iff (c : TunnelCascade) (framed : Bytes) :
    (∀ build, decapsulate build .bits64 c.layers framed = .ok (c.decapsulate framed)) ∧
    ((∀ build, ∃ r, decapsulate build .bits32 c.layers framed = .ok r) ↔
      Representable .bits32 c.layers framed) := by
  refine ⟨fun build => ?_,fun hall => ?_,fun h build => ?_⟩
  · exact decapsulate_of_representable build c.layers (representable_bits64 c.layers framed)
  · by_contra h
    obtain ⟨r,hr⟩ := hall .debug
    rw [decapsulate_debug_of_not_representable c.layers h] at hr
    cases hr
  · exact ⟨_,decapsulate_of_representable build c.layers h⟩

/-- A header alone that declares a body of 2^32 - 1 bytes stops a 32-bit program in either
build: with overflow checks at the sum, without them at the slice that ends before it starts. -/
theorem declared_end_panics :
    (¬ ∀ (c : TunnelCascade) (framed : Bytes),
      ∃ r, decapsulate .debug .bits32 c.layers framed = .ok r) ∧
    ¬ ∀ (c : TunnelCascade) (framed : Bytes),
      ∃ r, decapsulate .release .bits32 c.layers framed = .ok r := by
  constructor
  · intro h
    obtain ⟨r,hr⟩ := h (.new [⟨"xhttp",.outer,32⟩])
      [0x4F,0,0,0,0,0,0xFF,0xFF,0xFF,0xFF]
    cases hr
  · intro h
    obtain ⟨r,hr⟩ := h (.new [⟨"xhttp",.outer,32⟩])
      [0x4F,0,0,0,0,0,0xFF,0xFF,0xFF,0xFF]
    cases hr

end AetherX.CascadeWords
