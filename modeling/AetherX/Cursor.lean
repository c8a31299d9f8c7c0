import Mathlib.Data.List.Basic

/-! What stands at a position of a byte string. -/
namespace AetherX.Cursor

def At (bytes : List UInt8) (pos : Nat) (part : List UInt8) : Prop := part <+: bytes.drop pos

variable {bytes x y : List UInt8} {pos : Nat}

theorem at_append (h : At bytes pos (x++y)) : At bytes pos x ∧ At bytes (pos+x.length) y := by
  obtain ⟨after,hafter⟩ := h
  refine ⟨⟨y++after,by rw [← hafter,List.append_assoc]⟩,after,?_⟩
  rw [← List.drop_drop,← hafter,List.append_assoc,List.drop_left]

theorem At.add_length_le (h : At bytes pos x) (hx : x≠[]) : pos+x.length ≤ bytes.length := by
  have hlength := List.IsPrefix.length_le h
  have hpos : 0 < x.length := List.length_pos_iff.mpr hx
  rw [List.length_drop] at hlength
  omega

theorem At.take_drop (h : At bytes pos x) : (bytes.drop pos).take x.length=x :=
  (List.prefix_iff_eq_take.mp h).symm

theorem At.getElem? {c : UInt8} (h : At bytes pos (c::x)) : bytes[pos]? = some c := by
  obtain ⟨after,hafter⟩ := h
  rw [← List.head?_drop,← hafter]
  rfl

theorem At.getElem?_add {i : Nat} (h : At bytes pos x) (hi : i < x.length) :
    bytes[pos+i]? = x[i]? := by
  obtain ⟨after,hafter⟩ := h
  rw [← List.getElem?_drop,← hafter,List.getElem?_append_left hi]

end AetherX.Cursor
