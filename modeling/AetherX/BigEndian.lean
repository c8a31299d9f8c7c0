import Mathlib.Data.List.Induction
import Mathlib.Tactic.Ring

/-! Numbers as big-endian bytes of a fixed width. -/
namespace AetherX.BigEndian

/- The lowest `w` bytes of `n`, most significant first. -/
def toBytes : Nat → Nat → List UInt8
  | 0, _ => []
  | w+1, n => toBytes w (n/256)++[UInt8.ofNat n]

def ofBytes (bytes : List UInt8) : Nat := bytes.foldl (fun n b => 256*n+b.toNat) 0

@[simp] theorem length_toBytes (w n : Nat) : (toBytes w n).length=w := by
  induction w generalizing n with
  | zero => rfl
  | succ w ih => simp [toBytes,ih]

theorem ofBytes_concat (bytes : List UInt8) (b : UInt8) :
    ofBytes (bytes++[b])=256*ofBytes bytes+b.toNat := by
  simp [ofBytes]

theorem ofBytes_toBytes (w n : Nat) : ofBytes (toBytes w n)=n%256^w := by
  induction w generalizing n with
  | zero => simp [toBytes,ofBytes,Nat.mod_one]
  | succ w ih =>
    have hlast : (UInt8.ofNat n).toNat=n%256 := UInt8.toNat_ofNat'
    rw [toBytes,ofBytes_concat,hlast,ih,Nat.pow_succ',Nat.mod_mul,Nat.add_comm]

/- The number that the `w` bytes from position `first` on spell. -/
def readAt (bytes : List UInt8) (first w : Nat) : Nat := ofBytes ((bytes.drop first).take w)

theorem readAt_toBytes {bytes before after : List UInt8} {w n : Nat}
    (h : bytes=before++(toBytes w n++after)) : readAt bytes before.length w=n%256^w := by
  have htake : (bytes.drop before.length).take w=toBytes w n := by
    rw [h,List.drop_left,List.take_append_of_le_length (by simp),List.take_of_length_le (by simp)]
  rw [readAt,htake,ofBytes_toBytes]

theorem readAt_append (before bytes : List UInt8) (first w : Nat) :
    readAt (before++bytes) (before.length+first) w=readAt bytes first w := by
  rw [readAt,List.drop_append,List.drop_eq_nil_of_le (by omega),List.nil_append,
    Nat.add_sub_cancel_left,readAt]

theorem ofBytes_lt (bytes : List UInt8) : ofBytes bytes<256^bytes.length := by
  induction bytes using List.reverseRecOn with
  | nil => decide
  | append_singleton bytes b ih =>
    have hb := b.toNat_lt
    rw [ofBytes_concat,List.length_append,List.length_singleton,Nat.pow_succ]
    omega

theorem readAt_lt (bytes : List UInt8) (first w : Nat) : readAt bytes first w<256^w :=
  Nat.lt_of_lt_of_le (ofBytes_lt _) (Nat.pow_le_pow_right (by decide) (List.length_take_le _ _))

/- A number is read the same from a prefix that holds all its bytes. -/
theorem readAt_take {bytes : List UInt8} {first w k : Nat} (h : first+w ≤ k) :
    readAt (bytes.take k) first w=readAt bytes first w := by
  rw [readAt,readAt,List.drop_take,List.take_take,Nat.min_eq_left (by omega)]

end AetherX.BigEndian
