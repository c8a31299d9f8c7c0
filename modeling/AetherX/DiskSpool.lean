import Mathlib.Data.List.Basic

/-! A spool file of JSON lines: rows are appended one line each, and read back all at once. -/
namespace AetherX.DiskSpool
variable {R : Type*}

abbrev Bytes := List UInt8

def newline : UInt8 := 10

structure Codec (R : Type*) where
  marshal : R → Option Bytes
  unmarshal : Bytes → Option R

def splitFrom (line : Bytes) : Bytes → List Bytes
  | [] => if line=[] then [] else [line]
  | c::rest => if c=newline then line::splitFrom [] rest else splitFrom (line++[c]) rest

def splitLines (b : Bytes) : List Bytes := splitFrom [] b

namespace Codec
variable (codec : Codec R)

/- A row that the encoder refuses leaves nothing behind. -/
def encode (r : R) : Bytes :=
  match codec.marshal r with
  | some line => line++[newline]
  | none => []

def append (rows : List R) (file : Bytes) : Bytes := file++rows.flatMap codec.encode

def rows (file : Bytes) : List R :=
  ((splitLines file).filter fun line => !line.isEmpty).filterMap codec.unmarshal

def drainAll (file : Bytes) : List R × Bytes := (codec.rows file, [])

def RoundTrips (r : R) : Prop :=
  ∃ line, codec.marshal r=some line ∧ line≠[] ∧ newline∉line ∧ codec.unmarshal line=some r

end Codec

theorem splitFrom_line {line : Bytes} (h : newline∉line) (start rest : Bytes) :
    splitFrom start (line++newline::rest)=(start++line)::splitLines rest := by
  induction line generalizing start with
  | nil => simp [splitFrom,splitLines]
  | cons c line ih =>
    obtain ⟨hc,hline⟩ := not_or.mp (List.mem_cons.not.mp h)
    rw [List.cons_append,splitFrom,if_neg (Ne.symm hc),ih hline,List.append_assoc]
    rfl

variable {codec : Codec R}

theorem rows_flatMap_encode {rows : List R} (h : ∀ r∈rows, codec.RoundTrips r) :
    codec.rows (rows.flatMap codec.encode)=rows := by
  induction rows with
  | nil => rfl
  | cons r rows ih =>
    obtain ⟨line,hmarshal,hne,hline,hback⟩ := h r List.mem_cons_self
    have hrest := ih fun r hr => h r (List.mem_cons_of_mem _ hr)
    rw [Codec.rows] at hrest
    have hencode : codec.encode r=line++[newline] := by rw [Codec.encode,hmarshal]
    rw [List.flatMap_cons,hencode,List.append_assoc,List.singleton_append,Codec.rows,splitLines,
      splitFrom_line hline,List.nil_append,List.filter_cons_of_pos (by simpa using hne),
      List.filterMap_cons_some hback,hrest]

end AetherX.DiskSpool
