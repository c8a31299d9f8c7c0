import AetherX.BigEndian

/-! Numbers and bytes as bit strings, most significant bit first. -/
namespace AetherX.BitString
open BigEndian List

/- The lowest `w` bits of `n`. -/
def bits : Nat → Nat → List Bool
  | 0, _ => []
  | w+1, n => n.testBit w::bits w n

def ofBits (l : List Bool) : Nat := l.foldl (fun n b => 2*n+b.toNat) 0

@[simp] theorem length_bits (w n : Nat) : (bits w n).length=w := by
  induction w with
  | zero => rfl
  | succ w ih => rw [bits,length_cons,ih]

theorem getD_bits (w n i : Nat) :
    (bits w n).getD i false=(decide (i < w) && n.testBit (w-1-i)) := by
  induction w generalizing i with
  | zero => simp [bits]
  | succ w ih =>
    cases i with
    | zero => simp [bits]
    | succ i =>
      have hindex : w+1-1-(i+1)=w-1-i := by omega
      rw [bits,getD_cons_succ,ih,hindex]
      simp

theorem bits_add (v w n : Nat) : bits (v+w) n=bits v (n/2^w)++bits w n := by
  induction v with
  | zero => rw [Nat.zero_add,bits,nil_append]
  | succ v ih => rw [Nat.succ_add,bits,ih,bits,Nat.testBit_div_two_pow,cons_append]

theorem bits_mod {v w : Nat} (h : v ≤ w) (n : Nat) : bits v (n%2^w)=bits v n := by
  induction v with
  | zero => rfl
  | succ v ih =>
    have hlt : v < w := h
    rw [bits,ih (Nat.le_of_succ_le h),Nat.testBit_mod_two_pow,decide_eq_true hlt,
      Bool.true_and,bits]

theorem bits_xor (w m n : Nat) : bits w (m ^^^ n)=zipWith xor (bits w m) (bits w n) := by
  induction w with
  | zero => rfl
  | succ w ih => simp [bits,ih]

theorem bits_zero (w : Nat) : ∀ b∈bits w 0, b=false := by
  induction w with
  | zero => simp [bits]
  | succ w ih => rw [bits,forall_mem_cons]; exact ⟨Nat.zero_testBit w,ih⟩

theorem bits_mul_two_pow (v w n : Nat) :
    bits (v+w) (n*2^w)=bits v n++replicate w false := by
  have hlow : bits w (n*2^w)=replicate w false := by
    rw [← bits_mod (Nat.le_refl w),Nat.mul_mod_left]
    exact eq_replicate_iff.mpr ⟨length_bits w 0,bits_zero w⟩
  rw [bits_add,Nat.mul_div_cancel _ (Nat.two_pow_pos w),hlow]

theorem ofBits_concat (l : List Bool) (b : Bool) : ofBits (l++[b])=2*ofBits l+b.toNat := by
  simp [ofBits]

theorem ofBits_lt (l : List Bool) : ofBits l<2^l.length := by
  induction l using reverseRecOn with
  | nil => decide
  | append_singleton l b ih =>
    have hb : b.toNat<2 := Bool.toNat_lt b
    rw [ofBits_concat,length_append,length_singleton,Nat.pow_succ]
    omega

theorem ofBits_bits (w n : Nat) : ofBits (bits w n)=n%2^w := by
  induction w generalizing n with
  | zero => rw [Nat.pow_zero,Nat.mod_one]; rfl
  | succ w ih =>
    have hlow : bits 1 n=[n.testBit 0] := rfl
    have hpow : 2^(w+1)=2*2^w := Nat.pow_succ'
    rw [bits_add w 1 n,hlow,ofBits_concat,ih,Nat.toNat_testBit,Nat.pow_zero,Nat.div_one,
      Nat.pow_one,hpow,Nat.mod_mul,Nat.add_comm]

theorem bits_ofBits {w : Nat} {l : List Bool} (h : l.length=w) : bits w (ofBits l)=l := by
  induction l using reverseRecOn generalizing w with
  | nil => rw [← h]; rfl
  | append_singleton l b ih =>
    rw [length_append,length_singleton] at h
    have hhigh : (2*ofBits l+b.toNat)/2^1 = ofBits l := by
      have hb : b.toNat<2 := Bool.toNat_lt b
      omega
    have hlow : bits 1 (2*ofBits l+b.toNat)=[b] := by
      cases b <;> simp [bits]
    rw [ofBits_concat,← h,bits_add,hhigh,ih rfl,hlow]

theorem eq_zero_of_bits {w n : Nat} (hn : n<2^w) (h : ∀ b∈bits w n, b=false) : n=0 := by
  induction w with
  | zero => omega
  | succ w ih =>
    rw [bits,forall_mem_cons] at h
    have hlt : n<2^w := by
      by_contra hge
      have htop := Nat.testBit_of_two_pow_le_and_two_pow_add_one_gt (Nat.le_of_not_lt hge) hn
      rw [h.1] at htop
      cases htop
    exact ih hlt h.2

def stream (bytes : List UInt8) : List Bool := bytes.flatMap fun b => bits 8 b.toNat

theorem stream_cons (b : UInt8) (bytes : List UInt8) :
    stream (b::bytes)=bits 8 b.toNat++stream bytes := rfl

theorem stream_append (xs ys : List UInt8) : stream (xs++ys)=stream xs++stream ys :=
  flatMap_append

@[simp] theorem length_stream (bytes : List UInt8) : (stream bytes).length=8*bytes.length := by
  induction bytes with
  | nil => rfl
  | cons b bytes ih =>
    rw [stream_cons,length_append,length_bits,ih,length_cons]
    omega

/-- The bits of a byte string are those of the number that it spells. -/
theorem stream_eq_bits (bytes : List UInt8) :
    stream bytes=bits (8*bytes.length) (ofBytes bytes) := by
  induction bytes using reverseRecOn with
  | nil => rfl
  | append_singleton bytes b ih =>
    have hhigh : (256*ofBytes bytes+b.toNat)/2^8 = ofBytes bytes := by
      have hb := b.toNat_lt
      omega
    have hlow : (256*ofBytes bytes+b.toNat)%2^8=b.toNat := by
      have hb := b.toNat_lt
      omega
    rw [stream_append,ih,ofBytes_concat,length_append,length_singleton,Nat.mul_add,
      bits_add,hhigh,← bits_mod (Nat.le_refl (8*1)) (256*ofBytes bytes+b.toNat),hlow]
    rfl

theorem stream_xor {xs ys : List UInt8} (h : xs.length=ys.length) :
    stream (zipWith (· ^^^ ·) xs ys)=zipWith xor (stream xs) (stream ys) := by
  induction xs generalizing ys with
  | nil => rfl
  | cons x xs ih =>
    cases ys with
    | nil => cases h
    | cons y ys =>
      have hrest := ih (Nat.succ.inj h)
      rw [zipWith_cons_cons,stream_cons,stream_cons,stream_cons,hrest,UInt8.toNat_xor,
        bits_xor,zipWith_append (by simp)]

/- The whole bytes of a bit string, and the bits over. -/
def wholeBytes : List Bool → List UInt8 × List Bool
  | b₀::b₁::b₂::b₃::b₄::b₅::b₆::b₇::rest =>
    let (bytes, spare) := wholeBytes rest
    (UInt8.ofNat (ofBits [b₀,b₁,b₂,b₃,b₄,b₅,b₆,b₇])::bytes, spare)
  | spare => ([], spare)

theorem wholeBytes_of_lt {spare : List Bool} (h : spare.length<8) :
    wholeBytes spare=([], spare) := by
  rw [wholeBytes.eq_def]
  split
  · simp only [length_cons] at h
    omega
  · rfl

theorem wholeBytes_stream (bytes : List UInt8) {spare : List Bool} (h : spare.length<8) :
    wholeBytes (stream bytes++spare)=(bytes, spare) := by
  induction bytes with
  | nil => exact wholeBytes_of_lt h
  | cons b bytes ih =>
    have hbyte : UInt8.ofNat (ofBits (bits 8 b.toNat))=b := by
      rw [ofBits_bits,Nat.mod_eq_of_lt b.toNat_lt,UInt8.ofNat_toNat]
    have hstep : wholeBytes (bits 8 b.toNat++(stream bytes++spare)) =
        (UInt8.ofNat (ofBits (bits 8 b.toNat))::(wholeBytes (stream bytes++spare)).1,
          (wholeBytes (stream bytes++spare)).2) := rfl
    rw [stream_cons,append_assoc,hstep,ih,hbyte]

theorem true_mem_stream {bytes : List UInt8} (h : ∃ b∈bytes, b≠0) : true∈stream bytes := by
  obtain ⟨b,hb,hne⟩ := h
  by_contra hmem
  have hbits : ∀ x∈bits 8 b.toNat, x=false := by
    intro x hx
    cases x with
    | false => rfl
    | true => exact absurd (mem_flatMap.mpr ⟨b,hb,hx⟩) hmem
  exact hne (UInt8.toNat_inj.mp (eq_zero_of_bits b.toNat_lt hbits))

end AetherX.BitString
