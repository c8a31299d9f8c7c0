import Mathlib.Data.List.AList
import Mathlib.Data.List.DropRight
import AetherX.Supervisor

/-! The sessions of the control plane and the durable store that keeps them: a PostgreSQL
table, or a map in memory when the control plane is run without one. -/
namespace AetherX.SessionStore
open Supervisor (Instant)

structure Session where
  id : String
  userId : String
  subscriptionId : String
  nodeId : String
  protocol : String
  transport : String
  clientIp : String
  isp : String
  connId : String
  startedAt : Instant
  lastSeenAt : Instant
  bytesUp : Int
  bytesDown : Int
  active : Bool
  migratedCount : Int
  deriving DecidableEq

inductive StoreError where
  | sessionRequired
  | sessionNotFound (id : String)
  | notFound
  | recordNotFound
  deriving DecidableEq

inductive Backend where
  | postgres
  | memory
  deriving DecidableEq

/- What a read, and what an edit, of a row that is not there answers. -/
def Backend.noSession : Backend → String → StoreError
  | .postgres, _ => .recordNotFound
  | .memory, id => .sessionNotFound id

def Backend.noRow : Backend → StoreError
  | .postgres => .recordNotFound
  | .memory => .notFound

/- The identifier of a session is the key of its row. -/
structure Store where
  backend : Backend
  rows : AList fun _ : String => Session
  keyed : ∀ id s, rows.lookup id=some s → s.id=id ∧ id ≠ ""

namespace Store
def empty (backend : Backend) : Store := ⟨backend,∅,by simp⟩

def row (pg : Store) (id : String) : Option Session := pg.rows.lookup id

def sessions (pg : Store) : List Session := pg.rows.entries.map Sigma.snd

def put (pg : Store) (s : Session) (h : s.id ≠ "") : Store where
  backend := pg.backend
  rows := pg.rows.insert s.id s
  keyed id t hlookup := by
    by_cases hid : id=s.id
    · subst hid
      rw [AList.lookup_insert,Option.some.injEq] at hlookup
      exact ⟨by rw [← hlookup],h⟩
    · rw [AList.lookup_insert_ne hid] at hlookup
      exact pg.keyed id t hlookup

def remove (pg : Store) (id : String) : Store where
  backend := pg.backend
  rows := pg.rows.erase id
  keyed id' t hlookup := by
    by_cases hid : id'=id
    · rw [hid,AList.lookup_erase] at hlookup
      cases hlookup
    · rw [AList.lookup_erase_ne hid] at hlookup
      exact pg.keyed id' t hlookup

/- The upsert of the table leaves started_at as it was; the map replaces the whole session. -/
def stored (pg : Store) (s : Session) : Session :=
  match pg.backend, pg.row s.id with
  | .postgres, some old => { s with startedAt := old.startedAt }
  | _, _ => s

theorem stored_id (pg : Store) (s : Session) : (pg.stored s).id=s.id := by
  rw [stored]
  split <;> rfl

theorem stored_active (pg : Store) (s : Session) : (pg.stored s).active=s.active := by
  rw [stored]
  split <;> rfl

def saveSession (pg : Store) (s : Session) : Except StoreError Store :=
  if h : s.id = "" then .error .sessionRequired
  else .ok (pg.put (pg.stored s) (by rwa [stored_id]))

def getSession (pg : Store) (id : String) : Except StoreError Session :=
  match pg.row id with
  | some s => .ok s
  | none => .error (pg.backend.noSession id)

/- Deleting what is not there is an error of the table only. -/
def deleteSession (pg : Store) (id : String) : Except StoreError Store :=
  match pg.row id, pg.backend with
  | none, .postgres => .error .recordNotFound
  | _, _ => .ok (pg.remove id)

/- The query leaves the user out when none is named. -/
def listActiveByUser (pg : Store) (userId : String) : List Session :=
  pg.sessions.filter fun s => s.active &&
    match pg.backend with
    | .postgres => userId == "" || s.userId == userId
    | .memory => s.userId == userId

/- A row is edited in place, under its key. -/
def edit (pg : Store) (id : String) (f : Session → Session) (hf : ∀ s, (f s).id=s.id) :
    Except StoreError Store :=
  match h : pg.row id with
  | none => .error pg.backend.noRow
  | some s => .ok (pg.put (f s) (by rw [hf,(pg.keyed id s h).1]; exact (pg.keyed id s h).2))

def updateBytes (pg : Store) (id : String) (up down : Int) : Except StoreError Store :=
  pg.edit id (fun s => { s with bytesUp := up, bytesDown := down }) fun _ => rfl

def recordMigration (pg : Store) (id : String) (newNodeId : String) : Except StoreError Store :=
  pg.edit id (fun s => { s with nodeId := newNodeId, migratedCount := s.migratedCount+1 })
    fun _ => rfl

section
variable {pg pg' : Store} {s t : Session} {id k : String}

theorem id_of_row (h : pg.row id=some s) : s.id=id := (pg.keyed id s h).1

theorem ne_empty_of_row (h : pg.row id=some s) : id ≠ "" := (pg.keyed id s h).2

theorem row_put (h : s.id ≠ "") : (pg.put s h).row k=if k=s.id then some s else pg.row k := by
  split_ifs with hk
  · rw [hk]
    exact AList.lookup_insert _
  · exact AList.lookup_insert_ne hk

@[simp] theorem row_remove : (pg.remove id).row k=if k=id then none else pg.row k := by
  split_ifs with hk
  · rw [hk]
    exact AList.lookup_erase _ _
  · exact AList.lookup_erase_ne hk

theorem saveSession_of_ne (h : s.id ≠ "") :
    pg.saveSession s = .ok (pg.put (pg.stored s) (by rwa [stored_id])) := by
  rw [saveSession,dif_neg h]

theorem saveSession_ne_error (h : s.id ≠ "") (e : StoreError) : pg.saveSession s ≠ .error e := by
  rw [saveSession_of_ne h]
  exact nofun

theorem row_saveSession (h : pg.saveSession s = .ok pg') :
    pg'.row k=if k=s.id then some (pg.stored s) else pg.row k := by
  rw [saveSession] at h
  split_ifs at h
  obtain rfl := Except.ok.inj h
  rw [row_put,stored_id]

theorem getSession_eq_ok_iff : pg.getSession id = .ok s ↔ pg.row id=some s := by
  rw [getSession]
  cases pg.row id <;> simp

theorem deleteSession_of_row (h : pg.row id=some s) : pg.deleteSession id = .ok (pg.remove id) := by
  rw [deleteSession,h]

theorem row_deleteSession (h : pg.deleteSession id = .ok pg') :
    pg'.row k=if k=id then none else pg.row k := by
  rw [deleteSession] at h
  split at h
  · cases h
  · obtain rfl := Except.ok.inj h
    exact row_remove

section
variable {f : Session → Session} {hf : ∀ s, (f s).id=s.id}

/-- An edit succeeds exactly on a row that is there, and replaces it. -/
theorem edit_of_row (f : Session → Session) (hf : ∀ s, (f s).id=s.id)
    (h : pg.row id=some s) : ∃ pg', pg.edit id f hf = .ok pg' ∧ pg'.backend=pg.backend ∧
      ∀ k, pg'.row k=if k=id then some (f s) else pg.row k := by
  have hne : (f s).id ≠ "" := by
    rw [hf,id_of_row h]
    exact ne_empty_of_row h
  refine ⟨pg.put (f s) hne,?_,rfl,fun k => ?_⟩
  · rw [edit]
    split
    · rename_i hnone
      rw [h] at hnone
      cases hnone
    · rename_i t ht
      rw [h,Option.some.injEq] at ht
      subst ht
      rfl
  · rw [row_put,hf,id_of_row h]

theorem row_of_edit (h : pg.edit id f hf = .ok pg') : ∃ s, pg.row id=some s := by
  rw [edit] at h
  split at h
  · cases h
  · rename_i s hs
    exact ⟨s,hs⟩

theorem edit_of_no_row (h : pg.row id=none) : pg.edit id f hf = .error pg.backend.noRow := by
  rw [edit]
  split
  · rfl
  · rename_i s hs
    rw [h] at hs
    cases hs

theorem row_edit (h : pg.edit id f hf = .ok pg') :
    pg'.row k=if k=id then (pg.row id).map f else pg.row k := by
  obtain ⟨s,hs⟩ := row_of_edit h
  obtain ⟨pg₁,heq,-,hrow⟩ := edit_of_row f hf hs
  rw [heq] at h
  obtain rfl := Except.ok.inj h
  rw [hrow,hs,Option.map_some]
end

theorem recordMigration_ne_error (h : pg.row id=some s) (newNodeId : String) (e : StoreError) :
    pg.recordMigration id newNodeId ≠ .error e := by
  intro he
  obtain ⟨pg',hok,-⟩ := edit_of_row (fun s =>
    { s with nodeId := newNodeId, migratedCount := s.migratedCount+1 }) (fun _ => rfl) h
  cases hok.symm.trans he

theorem mem_sessions_iff : s∈pg.sessions ↔ pg.row s.id=some s := by
  rw [sessions,List.mem_map]
  constructor
  · rintro ⟨⟨key,t⟩,hmem,rfl⟩
    have hrow : pg.row key=some t := AList.mem_lookup_iff.mpr hmem
    rw [id_of_row hrow]
    exact hrow
  · intro hrow
    exact ⟨⟨s.id,s⟩,AList.mem_lookup_iff.mp hrow,rfl⟩

theorem nodup_ids (pg : Store) : (pg.sessions.map Session.id).Nodup := by
  have hkeys : pg.sessions.map Session.id=pg.rows.keys := by
    rw [sessions,List.map_map,AList.keys,List.keys]
    refine List.map_congr_left fun entry hentry => ?_
    exact id_of_row (AList.mem_lookup_iff.mpr hentry)
  rw [hkeys]
  exact pg.rows.nodupKeys
end

end Store

/- White space as Go's unicode.IsSpace has it. -/
def isSpace (c : Char) : Bool :=
  c∈['\t', '\n', '\x0b', '\x0c', '\r', ' ','\u0085','\u00a0','\u1680','\u2028','\u2029',
    '\u202f','\u205f','\u3000'] || ('\u2000' ≤ c && c ≤ '\u200a')

def trimSpace (s : String) : String :=
  String.ofList (((s.toList.dropWhile isSpace).reverse.dropWhile isSpace).reverse)

theorem trimSpace_pad {left right : String} (hleft : left.toList.all isSpace)
    (hright : right.toList.all isSpace) (s : String) : trimSpace (left++s++right)=trimSpace s := by
  have hgone : ∀ pad : List Char, pad.all isSpace → ∀ l : List Char,
      (pad++l).dropWhile isSpace=l.dropWhile isSpace := fun pad hpad l =>
    List.dropWhile_append_of_pos (List.all_eq_true.mp hpad)
  have hback : ∀ pad : List Char, pad.all isSpace → ∀ l : List Char,
      ((l++pad).dropWhile isSpace).reverse.dropWhile isSpace =
        (l.dropWhile isSpace).reverse.dropWhile isSpace := by
    intro pad hpad l
    rw [List.dropWhile_append]
    split_ifs with hblank
    · rw [List.isEmpty_iff.mp hblank,List.dropWhile_eq_nil_iff.mpr (List.all_eq_true.mp hpad)]
    · rw [List.reverse_append,hgone _ (by rwa [List.all_reverse])]
  rw [trimSpace,String.toList_append,String.toList_append,List.append_assoc,hgone _ hleft,
    hback _ hright,← trimSpace]

theorem ne_empty_of_trim {s : String} (h : trimSpace s ≠ "") : s ≠ "" := by
  rintro rfl
  exact h (by decide +kernel)

/- Besides the capital letters of ASCII two characters have a lower case within it: the dotted
   capital I and the Kelvin sign. The lower case of every other character stays outside. -/
def lowerChar (c : Char) : Char :=
  if c = '\u0130' then 'i' else if c = '\u212a' then 'k' else c.toLower

def toLower (s : String) : String := String.ofList (s.toList.map lowerChar)

def supportsNativeQUICMigration (protocol : String) : Bool :=
  toLower (trimSpace protocol)∈["hysteria2", "tuic", "tuic-v5"]

example : supportsNativeQUICMigration " TUIC-v5\n" = true ∧
    supportsNativeQUICMigration "vless" = false := by
  decide +kernel

end AetherX.SessionStore
