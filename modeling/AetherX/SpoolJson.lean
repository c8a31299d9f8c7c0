import AetherX.StoreAndForward
import Mathlib.Data.Nat.Digits.Defs

/-! The compact JSON texts of queue items and sealed records, read back exactly, with
a sealer that frames a plaintext without encrypting it. -/
namespace AetherX.SpoolJson
open StoreAndForward List

def ascii (s : String) : Bytes := s.toList.map fun c => UInt8.ofNat c.toNat

def comma : UInt8 := 44
def openBracket : UInt8 := 91
def closeBracket : UInt8 := 93

def isDigit (b : UInt8) : Bool := 48 ≤ b && b≤57

def jsonNat (n : Nat) : Bytes :=
  if n=0 then [48] else ((Nat.digits 10 n).reverse).map fun d => UInt8.ofNat (48+d)

def jsonBytes (xs : Bytes) : Bytes :=
  openBracket::[comma].intercalate (xs.map fun x => jsonNat x.toNat)++[closeBracket]

def natOf (digits : Bytes) : Nat := digits.foldl (fun n b => 10*n+(b.toNat-48)) 0

def expect (s bs : Bytes) : Option Bytes :=
  if s.isPrefixOf bs then some (bs.drop s.length) else none

def readNat (bs : Bytes) : Option (Nat × Bytes) :=
  let digits := bs.takeWhile isDigit
  if digits=[] then none else some (natOf digits, bs.drop digits.length)

def readByte (bs : Bytes) : Option UInt8 :=
  match readNat bs with
  | some (n, []) => if n<256 then some (UInt8.ofNat n) else none
  | _ => none

def readElements (content : Bytes) : Option Bytes :=
  if content=[] then some [] else (content.splitOn comma).mapM readByte

def readBytes (bs : Bytes) : Option (Bytes × Bytes) := do
  let bs ← expect [openBracket] bs
  let content := bs.takeWhile (· ≠ closeBracket)
  let rest ← expect [closeBracket] (bs.drop content.length)
  let xs ← readElements content
  some (xs, rest)

theorem expect_append (s bs : Bytes) : expect s (s++bs)=some bs := by
  simp [expect]

theorem isDigit_jsonNat (n : Nat) : ∀ b∈jsonNat n, isDigit b=true := by
  intro b hb
  rw [jsonNat] at hb
  split_ifs at hb with hn
  · rw [mem_singleton.mp hb]
    decide
  · simp only [mem_map,mem_reverse] at hb
    obtain ⟨d,hd,rfl⟩ := hb
    have hall : ∀ d<10, isDigit (UInt8.ofNat (48+d))=true := by decide
    exact hall d (Nat.digits_lt_base (by decide) hd)

theorem jsonNat_ne_nil (n : Nat) : jsonNat n≠[] := by
  rw [jsonNat]
  split_ifs with hn
  · simp
  · simp [Nat.digits_ne_nil_iff_ne_zero.mpr hn]

theorem natOf_jsonNat (n : Nat) : natOf (jsonNat n)=n := by
  rw [jsonNat,natOf]
  split_ifs with hn
  · simp [hn]
  · have hdigit : ∀ d<10, (UInt8.ofNat (48+d)).toNat-48=d := by decide
    have hvalue : ∀ ds : List Nat, (∀ d∈ds, d<10) →
        ds.foldr (fun d n => 10*n+((UInt8.ofNat (48+d)).toNat-48)) 0 =
          Nat.ofDigits 10 ds := by
      intro ds hds
      induction ds with
      | nil => rfl
      | cons d ds ih =>
        rw [foldr_cons,ih fun e he => hds e (mem_cons_of_mem _ he),
          hdigit d (hds d mem_cons_self),Nat.ofDigits_cons,Nat.add_comm]
    rw [foldl_map,foldl_reverse,
      hvalue _ fun d hd => Nat.digits_lt_base (by decide) hd,Nat.ofDigits_digits]

theorem readNat_append (n : Nat) (rest : Bytes) (hrest : ∀ b∈rest.head?, isDigit b=false) :
    readNat (jsonNat n++rest)=some (n, rest) := by
  have htake : (jsonNat n++rest).takeWhile isDigit=jsonNat n := by
    rw [takeWhile_append_of_pos (isDigit_jsonNat n)]
    cases rest with
    | nil => simp
    | cons b rest =>
      rw [takeWhile_cons_of_neg (by simp [hrest b rfl]),append_nil]
  simp only [readNat,htake,if_neg (jsonNat_ne_nil n),natOf_jsonNat]
  simp

theorem readByte_json (x : UInt8) : readByte (jsonNat x.toNat)=some x := by
  have hread := readNat_append x.toNat [] (by simp)
  rw [append_nil] at hread
  simp [readByte,hread,x.toNat_lt]

variable {b : UInt8}

theorem notMem_jsonNat (hb : isDigit b=false) (n : Nat) : b∉jsonNat n := by
  intro hmem
  rw [isDigit_jsonNat n b hmem] at hb
  cases hb

theorem mapM_readByte (xs : Bytes) :
    (xs.map fun x => jsonNat x.toNat).mapM readByte=some xs := by
  induction xs with
  | nil => rfl
  | cons x xs ih => rw [map_cons,mapM_cons,ih,readByte_json]; rfl

theorem mem_intercalate {ls : List Bytes} (hall : ∀ l∈ls, ∀ c∈l, isDigit c=true)
    (hb : b∈[comma].intercalate ls) : b=comma ∨ isDigit b=true := by
  induction ls with
  | nil => simp [List.intercalate] at hb
  | cons l ls ih =>
    cases ls with
    | nil =>
      rw [intercalate_singleton] at hb
      exact .inr (hall l mem_cons_self b hb)
    | cons l' ls =>
      rw [intercalate_cons_cons] at hb
      simp only [mem_append,mem_singleton] at hb
      cases hb with
      | inl h =>
        cases h with
        | inl hl => exact .inr (hall l mem_cons_self b hl)
        | inr hc => exact .inl hc
      | inr hr => exact ih (fun m hm => hall m (mem_cons_of_mem _ hm)) hr

/- The text between the brackets: digits and commas. -/
theorem mem_content {xs : Bytes} (hb : b∈[comma].intercalate (xs.map fun x => jsonNat x.toNat)) :
    b=comma ∨ isDigit b=true := by
  apply mem_intercalate _ hb
  intro l hl c hc
  obtain ⟨x,-,rfl⟩ := mem_map.mp hl
  exact isDigit_jsonNat _ c hc

theorem readElements_content (xs : Bytes) :
    readElements ([comma].intercalate (xs.map fun x => jsonNat x.toNat))=some xs := by
  cases xs with
  | nil => rfl
  | cons x xs =>
    have hne : [comma].intercalate ((x::xs).map fun x => jsonNat x.toNat)≠[] := by
      cases xs with
      | nil => simpa using jsonNat_ne_nil x.toNat
      | cons y xs => simp [intercalate_cons_cons]
    rw [readElements,if_neg hne,splitOn_intercalate,mapM_readByte]
    · intro l hl
      obtain ⟨y,-,rfl⟩ := mem_map.mp hl
      exact notMem_jsonNat (by decide) _
    · simp

theorem readBytes_append (xs rest : Bytes) : readBytes (jsonBytes xs++rest)=some (xs, rest) := by
  let content := [comma].intercalate (xs.map fun x => jsonNat x.toNat)
  have hopen : jsonBytes xs++rest=[openBracket]++(content++([closeBracket]++rest)) := by
    simp [jsonBytes,content]
  have hclose : ∀ b∈content, (decide (b≠closeBracket))=true := by
    intro b hb
    rw [decide_eq_true_eq]
    intro he
    subst he
    cases mem_content hb with
    | inl hc => exact absurd hc (by decide)
    | inr hd => exact absurd hd (by decide)
  have htake : (content++([closeBracket]++rest)).takeWhile
      (fun b => decide (b≠closeBracket))=content := by
    rw [takeWhile_append_of_pos hclose,singleton_append,
      takeWhile_cons_of_neg (by simp),append_nil]
  rw [readBytes,hopen,expect_append]
  simp only [Option.bind_eq_bind,Option.bind_some,htake,drop_left,expect_append,
    content,readElements_content]

/- A sealed record and a queue item, in the field order of their declarations. -/
def recordText (record : SealedSpoolRecord) : Bytes :=
  ascii "\x7b\"version\":" ++ (jsonNat record.version.toNat++(ascii ",\"nonce\":" ++
    (jsonBytes record.nonce++(ascii ",\"ciphertext\":" ++
      (jsonBytes record.ciphertext++ascii "\x7d")))))

def readRecord (bs : Bytes) : Option SealedSpoolRecord := do
  let bs ← expect (ascii "\x7b\"version\":") bs
  let (version, bs) ← readNat bs
  let bs ← expect (ascii ",\"nonce\":") bs
  let (nonce, bs) ← readBytes bs
  let bs ← expect (ascii ",\"ciphertext\":") bs
  let (ciphertext, bs) ← readBytes bs
  if version<256 ∧ bs=ascii "\x7d" then some ⟨UInt8.ofNat version,nonce,ciphertext⟩
  else none

def priorityText : Priority → Bytes
  | .control => ascii "\"Control\""
  | .bulk => ascii "\"Bulk\""

def readPriority (bs : Bytes) : Option (Priority × Bytes) :=
  match expect (ascii "\"Control\"") bs with
  | some rest => some (.control, rest)
  | none => (expect (ascii "\"Bulk\"") bs).map fun rest => (.bulk, rest)

def itemText (item : QueuedItem) : Bytes :=
  ascii "\x7b\"id\":" ++ (jsonNat item.id++(ascii ",\"priority\":" ++
    (priorityText item.priority++(ascii ",\"data\":" ++
      (jsonBytes item.data++ascii "\x7d")))))

def readItem (bs : Bytes) : Option QueuedItem := do
  let bs ← expect (ascii "\x7b\"id\":") bs
  let (id, bs) ← readNat bs
  let bs ← expect (ascii ",\"priority\":") bs
  let (priority, bs) ← readPriority bs
  let bs ← expect (ascii ",\"data\":") bs
  let (data, bs) ← readBytes bs
  if bs=ascii "\x7d" then some ⟨id,priority,data⟩ else none

variable (record : SealedSpoolRecord)

theorem readRecord_text : readRecord (recordText record)=some record := by
  have hdigit : ∀ b∈(ascii ",\"nonce\":" ++ (jsonBytes record.nonce++(ascii ",\"ciphertext\":" ++
      (jsonBytes record.ciphertext++ascii "\x7d")))).head?, isDigit b=false := by
    intro b hb
    cases hb
    decide
  simp only [readRecord,recordText,expect_append,readNat_append _ _ hdigit,readBytes_append,
    Option.bind_eq_bind,Option.bind_some]
  simp [record.version.toNat_lt]

theorem readPriority_append (priority : Priority) (rest : Bytes) :
    readPriority (priorityText priority++rest)=some (priority, rest) := by
  cases priority with
  | control => rw [readPriority,priorityText,expect_append]
  | bulk =>
    have hno : expect (ascii "\"Control\"") (priorityText .bulk++rest)=none := rfl
    rw [readPriority,hno,priorityText,expect_append]
    rfl

theorem readItem_text (item : QueuedItem) : readItem (itemText item)=some item := by
  have hdigit : ∀ b∈(ascii ",\"priority\":" ++ (priorityText item.priority++(ascii ",\"data\":" ++
      (jsonBytes item.data++ascii "\x7d")))).head?, isDigit b=false := by
    intro b hb
    cases hb
    decide
  simp only [readItem,itemText,expect_append,readNat_append _ _ hdigit,readBytes_append,
    readPriority_append,Option.bind_eq_bind,Option.bind_some,if_true]

theorem notMem_jsonBytes (hb : isDigit b=false ∧ b≠comma ∧ b≠openBracket ∧ b≠closeBracket)
    (xs : Bytes) : b∉jsonBytes xs := by
  obtain ⟨hdigit,hcomma,hopen,hclose⟩ := hb
  intro hmem
  simp only [jsonBytes,mem_append,mem_cons,not_mem_nil,or_false] at hmem
  cases hmem with
  | inl h =>
    cases h with
    | inl ho => exact hopen ho
    | inr hc =>
      cases mem_content hc with
      | inl he => exact hcomma he
      | inr hd => simp [hd] at hdigit
  | inr he => exact hclose he

theorem newline_notMem_recordText : (10 : UInt8)∉recordText record := by
  simp only [recordText,mem_append,not_or]
  exact ⟨by decide,notMem_jsonNat (by decide) _,by decide,notMem_jsonBytes (by decide) _,
    by decide,notMem_jsonBytes (by decide) _,by decide⟩

def openBrace : UInt8 := 123
def closeBrace : UInt8 := 125

section
variable {bs rest : Bytes}

theorem expect_eq_some {s : Bytes} (h : expect s bs=some rest) : bs=s++rest := by
  rw [expect] at h
  split_ifs at h with hp
  obtain ⟨t,rfl⟩ := isPrefixOf_iff_prefix.mp hp
  rw [drop_left] at h
  rw [Option.some.inj h]

theorem readNat_eq_some {n : Nat} (h : readNat bs=some (n, rest)) :
    ∃ digits, bs=digits++rest ∧ ∀ b∈digits, isDigit b=true := by
  simp only [readNat] at h
  split_ifs at h
  cases h
  have hsplit := prefix_iff_eq_append.mp (List.takeWhile_prefix isDigit (l := bs))
  exact ⟨bs.takeWhile isDigit,hsplit.symm,all_eq_true.mp all_takeWhile⟩

theorem isDigit_of_readByte {x : UInt8} (h : readByte bs=some x) :
    ∀ b∈bs, isDigit b=true := by
  rw [readByte] at h
  split at h
  next n hread =>
    obtain ⟨digits,rfl,hdigits⟩ := readNat_eq_some hread
    rwa [append_nil]
  next => cases h

theorem isDigit_of_mapM {ls : List Bytes} {xs : Bytes} (h : ls.mapM readByte=some xs) :
    ∀ l∈ls, ∀ b∈l, isDigit b=true := by
  induction ls generalizing xs with
  | nil => simp
  | cons l ls ih =>
    simp only [mapM_cons,Option.bind_eq_bind,Option.bind_eq_some_iff] at h
    obtain ⟨x,hx,ys,hys,-⟩ := h
    exact forall_mem_cons.mpr ⟨isDigit_of_readByte hx,ih hys⟩

theorem readBytes_eq_some {xs : Bytes} (h : readBytes bs=some (xs, rest)) :
    ∃ content, bs=[openBracket]++(content++([closeBracket]++rest)) ∧
      ∀ b∈content, b=comma ∨ isDigit b=true := by
  simp only [readBytes,Option.bind_eq_bind,Option.bind_eq_some_iff] at h
  obtain ⟨t,ht,u,hu,ys,hys,he⟩ := h
  cases he
  have hsplit := prefix_iff_eq_append.mp
    (List.takeWhile_prefix (fun b => decide (b≠closeBracket)) (l := t))
  refine ⟨t.takeWhile (fun b => decide (b≠closeBracket)),?_,?_⟩
  · rw [← expect_eq_some hu,hsplit]
    exact expect_eq_some ht
  · rw [readElements] at hys
    split_ifs at hys with hnil
    · rw [hnil]
      simp
    · intro b hb
      have hjoin : [comma].intercalate
          ((t.takeWhile (fun b => decide (b≠closeBracket))).splitOn comma) =
            t.takeWhile (fun b => decide (b≠closeBracket)) := intercalate_splitOn comma
      rw [← hjoin] at hb
      exact mem_intercalate (isDigit_of_mapM hys) hb

/-- A text that reads as a record has one opening brace, its first byte, and ends with a
closing brace. -/
theorem readRecord_shape {record : SealedSpoolRecord} (h : readRecord bs=some record) :
    openBrace∉bs.tail ∧ bs.getLast? = some closeBrace := by
  simp only [readRecord,Option.bind_eq_bind,Option.bind_eq_some_iff] at h
  obtain ⟨b₁,h₁,⟨version,b₂⟩,h₂,b₃,h₃,⟨nonce,b₄⟩,h₄,b₅,h₅,⟨ciphertext,b₆⟩,h₆,hlast⟩ := h
  split_ifs at hlast with hend
  obtain ⟨digits,hdigits,hall⟩ := readNat_eq_some h₂
  obtain ⟨c₁,hc₁,hall₁⟩ := readBytes_eq_some h₄
  obtain ⟨c₂,hc₂,hall₂⟩ := readBytes_eq_some h₆
  have hdigit : ¬ (openBrace=comma ∨ isDigit openBrace=true) := by decide
  have h0 : openBrace∉digits := fun hmem => hdigit (.inr (hall _ hmem))
  have h1 : openBrace∉c₁ := fun hmem => hdigit (hall₁ _ hmem)
  have h2 : openBrace∉c₂ := fun hmem => hdigit (hall₂ _ hmem)
  simp only at hdigits hc₁ hc₂ h₃ h₅ hend
  rw [expect_eq_some h₁,hdigits,expect_eq_some h₃,hc₁,expect_eq_some h₅,hc₂,hend.2]
  constructor
  · rw [tail_append_of_ne_nil (by decide)]
    simp only [mem_append,not_or]
    exact ⟨by decide,h0,by decide,by decide,h1,by decide,by decide,by decide,h2,
      by decide,by decide⟩
  · have hne : ascii "\x7d" ≠ [] := by decide
    simp only [← append_assoc]
    rw [getLast?_append_of_ne_nil _ hne]
    rfl
end

theorem recordText_head :
    ∃ body, recordText record = openBrace::body := ⟨_,rfl⟩

theorem recordText_close :
    ∃ body, recordText record=body++[closeBrace] ∧ closeBrace∉body := by
  refine ⟨ascii "\x7b\"version\":" ++ (jsonNat record.version.toNat++(ascii ",\"nonce\":" ++
    (jsonBytes record.nonce++(ascii ",\"ciphertext\":" ++ jsonBytes record.ciphertext)))),?_,?_⟩
  · simp only [recordText,append_assoc]
    rfl
  · simp only [mem_append,not_or]
    exact ⟨by decide,notMem_jsonNat (by decide) _,by decide,notMem_jsonBytes (by decide) _,
      by decide,notMem_jsonBytes (by decide) _⟩

/- The n-th call writes its number into a nonce of the right length. -/
def frame (n : Nat) (plaintext : Bytes) : Except SpoolSealError SealedSpoolRecord :=
  .ok ⟨1,List.replicate 12 (UInt8.ofNat n),plaintext⟩

def unframe (record : SealedSpoolRecord) : Except SpoolSealError Bytes :=
  if record.version≠1 ∨ record.nonce.length≠12 then .error .invalidRecord
  else .ok record.ciphertext

def jsonCodec : Codec where
  itemToVec item := some (itemText item)
  itemFromSlice := readItem
  recordToVec record := some (recordText record)
  recordFromSlice := readRecord
  sealRecord := frame
  unsealRecord := unframe

theorem jsonCodec_exact : jsonCodec.Exact where
  item item := ⟨_,rfl,readItem_text item⟩
  sealing n plaintext := ⟨_,rfl,by simp [jsonCodec,unframe]⟩
  record record := ⟨_,rfl,readRecord_text record,newline_notMem_recordText record⟩
  empty := rfl

end AetherX.SpoolJson
