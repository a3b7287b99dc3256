import Mathlib.Data.List.Basic

/-! Leases: a resource held under a key since a recorded time. A lease older than its time to live may
be taken over, and only the holder's key gives it up. -/

namespace SafeOps.Concurrent

/-- The holder's key and the time recorded for it. -/
abbrev Lease (κ : Type) := Option (κ × Nat)

namespace Lease

variable {κ : Type} {ttl : Nat} {l l' : Lease κ}

/-- Whoever reads the time `now` may take the lease. -/
def Free (ttl : Nat) (l : Lease κ) (now : Nat) : Prop := ∀ h ∈ l, h.2 + ttl < now

inductive Event (κ : Type)
  | taken (key : κ) (now : Nat)
  | released (key : κ)

/-- The event gives the lease up. -/
def Event.Frees (l : Lease κ) : Event κ → Prop
  | taken _ _ => False
  | released key => ∃ h ∈ l, h.1 = key

/-- What an event makes of a lease. -/
inductive Moves (ttl : Nat) (l : Lease κ) : Event κ → Lease κ → Prop
  | taken {key : κ} {now : Nat} : l.Free ttl now → Moves ttl l (.taken key now) (some (key, now))
  | released {key : κ} : (∃ h ∈ l, h.1 = key) → Moves ttl l (.released key) none
  | stray {key : κ} : (∀ h ∈ l, h.1 ≠ key) → Moves ttl l (.released key) l

/-- A lease that is not given up is held by its holder or a later one. -/
theorem Moves.held {e : Event κ} (h : Moves ttl l e l') (he : ¬e.Frees l) {since : Nat}
    (held : ∃ h ∈ l, since ≤ h.2) : ∃ h ∈ l', since ≤ h.2 := by
  obtain ⟨holder, hl, hsince⟩ := held
  cases h with
  | @taken key now free =>
    have := free holder hl
    exact ⟨_, rfl, by dsimp only; omega⟩
  | released hk => exact absurd hk he
  | stray => exact ⟨holder, hl, hsince⟩

/-- Who takes over reads more than the time to live after everything recorded before. -/
theorem Free.apart {now since : Nat} (h : l.Free ttl now) (held : ∃ h ∈ l, since ≤ h.2) :
    since + ttl < now := by
  obtain ⟨holder, hl, hsince⟩ := held
  have := h holder hl
  omega

section Outstanding

variable [DecidableEq κ]

/-- The keys that have taken the lease and not released it since, the latest event first. -/
def outstanding : List (Event κ) → List (κ × Nat)
  | [] => []
  | .taken key now :: earlier => (key, now) :: outstanding earlier
  | .released key :: earlier => (outstanding earlier).filter (·.1 ≠ key)

/-- While nobody takes over from an outstanding holder, only the holder is outstanding. -/
theorem Moves.outstanding {e : Event κ} {events : List (Event κ)} (h : Moves ttl l e l')
    (hl : outstanding events = l.toList)
    (punctual : ∀ key now, e = .taken key now → ∀ h ∈ Lease.outstanding events, now ≤ h.2 + ttl) :
    Lease.outstanding (e :: events) = l'.toList := by
  cases h with
  | @taken key now free =>
    cases l with
    | none => simp [Lease.outstanding, hl]
    | some holder =>
      have expired := free holder rfl
      have fresh := punctual key now rfl holder (by simp [hl])
      omega
  | @released key hk =>
    obtain ⟨holder, hh, hkey⟩ := hk
    obtain rfl := Option.mem_def.1 hh
    simp [Lease.outstanding, hl, hkey]
  | @stray key hk =>
    cases l with
    | none => simp [Lease.outstanding, hl]
    | some holder => simp [Lease.outstanding, hl, hk holder rfl]

end Outstanding
end Lease
end SafeOps.Concurrent
