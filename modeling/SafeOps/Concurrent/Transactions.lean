import Mathlib.Data.List.Basic

/-! Transactions over one store. What a session writes is its own until it commits, every read sees what is
committed by then, and a session waits for the others that have written under the key it is to write under. -/

namespace SafeOps.Concurrent

/-- The committed store, and the writes that are not committed, each with its session, the first one first. -/
structure Transactional (T W : Type) where
  committed : T
  pending : List (Nat × W)

namespace Transactional

variable {T W K : Type} (apply : W → T → T) (key : W → K) (db : Transactional T W) {session other : Nat}

def writes (session : Nat) : List W := (db.pending.filter (·.1 = session)).map (·.2)

/-- What a session reads. -/
def view (session : Nat) : T := (db.writes session).foldl (fun store w => apply w store) db.committed

def write (session : Nat) (w : W) : Transactional T W := { db with pending := db.pending ++ [(session, w)] }

def rollback (session : Nat) : Transactional T W := { db with pending := db.pending.filter (·.1 ≠ session) }

def commit (session : Nat) : Transactional T W := { db.rollback session with committed := db.view apply session }

/-- No other session has written under the key. -/
def Clear (session : Nat) (w : W) : Prop := ∀ p ∈ db.pending, p.1 = session ∨ key p.2 ≠ key w

instance [DecidableEq K] (session : Nat) (w : W) : Decidable (db.Clear key session w) :=
  inferInstanceAs (Decidable (∀ p ∈ db.pending, p.1 = session ∨ key p.2 ≠ key w))

/-- One session at most has written. -/
def Exclusive : Prop := ∀ s s', db.writes s ≠ [] → db.writes s' ≠ [] → s = s'

variable {apply key db}

theorem mem_writes {w : W} : w ∈ db.writes session ↔ (session, w) ∈ db.pending := by
  simp [writes]

theorem view_of_writes_nil (h : db.writes session = []) : db.view apply session = db.committed := by
  rw [view, h, List.foldl_nil]

@[simp] theorem writes_write_self (w : W) : (db.write session w).writes session = db.writes session ++ [w] := by
  simp [writes, write]

theorem writes_write_of_ne (w : W) (h : other ≠ session) :
    (db.write session w).writes other = db.writes other := by
  simp [writes, write, h.symm]

@[simp] theorem writes_rollback_self : (db.rollback session).writes session = [] := by
  simp [writes, rollback]

theorem writes_rollback_of_ne (h : other ≠ session) : (db.rollback session).writes other = db.writes other := by
  simp only [writes, rollback, List.filter_filter]
  congr 1
  refine List.filter_congr fun p _ => ?_
  by_cases hp : p.1 = other
  · simp [hp, h]
  · simp [hp]

@[simp] theorem writes_commit (s : Nat) : (db.commit apply session).writes s = (db.rollback session).writes s := rfl

/-- Whoever finds a key clear that every writing session has written under is alone. -/
theorem Clear.alone {w : W} (h : db.Clear key session w)
    (locked : ∀ s, db.writes s ≠ [] → ∃ v ∈ db.writes s, key v = key w) (hs : db.writes other ≠ []) :
    other = session := by
  obtain ⟨v, hv, hkey⟩ := locked other hs
  exact (h _ (mem_writes.1 hv)).resolve_right (· hkey)

/-- A session that nobody has written beside may write. -/
theorem exclusive_write {w : W} (hs : ∀ s, db.writes s ≠ [] → s = session) :
    (db.write session w).Exclusive := by
  have only (s : Nat) (hw : (db.write session w).writes s ≠ []) : s = session := by
    by_contra hne
    rw [writes_write_of_ne w hne] at hw
    exact hne (hs s hw)
  exact fun s s' hs hs' => (only s hs).trans (only s' hs').symm

theorem Exclusive.rollback (h : db.Exclusive) : (db.rollback session).Exclusive := by
  have before (s : Nat) (hs : (db.rollback session).writes s ≠ []) : db.writes s ≠ [] := by
    by_cases hne : s = session
    · exact absurd (hne ▸ writes_rollback_self) hs
    · rwa [writes_rollback_of_ne hne] at hs
  exact fun s s' hs hs' => h s s' (before s hs) (before s' hs')

/-- A session that writes alone waits for nobody. -/
theorem Exclusive.clear (h : db.Exclusive) (hs : db.writes session ≠ []) (w : W) : db.Clear key session w := by
  intro p hp
  exact .inl (h p.1 session (List.ne_nil_of_mem (mem_writes.2 hp)) hs)

end Transactional
end SafeOps.Concurrent
