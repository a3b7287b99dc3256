import SafeOps.Observers.Holder
import SafeOps.Observers.Leases
import SafeOps.Guarantees.TerminalStatus

/-! One holder at a time: where no lease is taken over, the columns of an execution name the one call that holds
its lease. -/

namespace SafeOps
open Concurrent Program

variable {W : World} {ok : App W → Statement W → Prop} {c d : App W}

/-- The statement takes the lease of an execution over from somebody who has not given it back. -/
def takesOver (c : App W) : Statement W → Bool
  | ⟨_, .write (.claimStepping x _ _ _), claimed⟩ => (claimed : Bool) && (c.state.executions x).any (·.stepping)
  | _ => false

/-- Every lease that a call has is recorded, and nobody else has it. -/
structure LeasesHeld (c : App W) : Prop where
  recorded : ∀ i x claimId, (c.past holding .free i).lease = some (x, claimId) →
    ∃ row, c.state.executions x = some row ∧ row.stepping = true ∧ row.steppingClaimId = some claimId
  alone : ∀ i j x claimId claimId', (c.past holding .free i).lease = some (x, claimId) →
    (c.past holding .free j).lease = some (x, claimId') → i = j

section Step

variable {i : Nat} {call : Call} {o : Op W.Tables} {k : o.Reply → Db W CallResult} {r : o.Reply}
  {s : State W.Domain} {x claimId : Id}

/-- A lease that a call has after a statement it has had before, or has just claimed. -/
theorem lease_before {m : Tenure} (h : (holding.next m o r).lease = some (x, claimId)) :
    m.lease = some (x, claimId) ∧ (∀ y c, o ≠ .write (.releaseStepping y c)) ∨
      ∃ now ttl, o = .write (.claimStepping x claimId now ttl) ∧ HEq r true := by
  rcases o with q | w | n | _
  · refine .inl ⟨?_, nofun⟩
    cases q with
    | execution y =>
      cases m with
      | claimed =>
        simp only [holding] at h
        split at h
        · exact h
        · cases h
      | _ => exact h
    | _ => exact h
  · cases w with
    | claimStepping y c now ttl =>
      simp only [holding] at h
      split at h
      · rename_i hr
        obtain ⟨rfl, rfl⟩ := Prod.mk.inj (Option.some.inj h)
        exact .inr ⟨now, ttl, rfl, heq_of_eq hr⟩
      · exact .inl ⟨h, nofun⟩
    | releaseStepping => cases h
    | _ => exact .inl ⟨h, nofun⟩
  · exact .inl ⟨h, nofun⟩
  · exact .inl ⟨h, nofun⟩

/-- A lease that is recorded stays so, unless somebody takes it over or its holder gives it back. -/
theorem recorded_kept (heff : Effect d.state o r s) (hids : d.state.Allocated) (hover : takesOver d ⟨i, o, r⟩ = false)
    (hrelease : o ≠ .write (.releaseStepping x claimId)) {row : Execution}
    (hrow : d.state.executions x = some row) (hstepping : row.stepping = true)
    (hclaim : row.steppingClaimId = some claimId) :
    ∃ row', s.executions x = some row' ∧ row'.stepping = true ∧ row'.steppingClaimId = some claimId := by
  obtain ⟨row', hrow'⟩ : ∃ row', s.executions x = some row' := by
    rcases heff.executions x with he | ⟨row', _, _, hrow', _⟩
    · exact Option.ne_none_iff_exists'.1 fun hnone => by simp [he.1 hnone] at hrow
    · exact ⟨row', hrow'⟩
  refine ⟨row', hrow', ?_⟩
  rcases heff.leaseChange hrow' with ⟨row₀, hrow₀, hchange⟩ | ⟨rfl, rfl⟩
  · obtain rfl := Option.some.inj (hrow.symm.trans hrow₀)
    cases hchange with
    | kept _ hcols =>
      simp only [Execution.leaseColumns, Prod.mk.injEq] at hcols
      exact ⟨hcols.1.trans hstepping, hcols.2.1.trans hclaim⟩
    | claimed c now ttl =>
      simp [takesOver, hrow, hstepping] at hover
    | released c hc =>
      obtain rfl := Option.some.inj (hc.symm.trans hclaim)
      exact absurd rfl hrelease
    | stray c _ hsame => exact hsame ▸ ⟨hstepping, hclaim⟩
  · rw [hids _ (Nat.le_refl _)] at hrow
    cases hrow

end Step

theorem ReachableWithin.leasesHeld (h : ReachableWithin ok c) (hok : ∀ c e, ok c e → takesOver c e = false) :
    LeasesHeld c := by
  refine h.invariant ?_ (fun _ _ h => ⟨h.recorded, h.alone⟩) ?_ ?_
  · exact fun s hs => ⟨by simp [Tenure.lease], by simp [Tenure.lease]⟩
  · exact fun d change h => ⟨by simpa using h.recorded, by simpa using h.alone⟩
  · intro d i call o k r s hd hw _ hstep heff h
    have hover := hok _ _ hstep
    have hallowed : holding.ok (d.past holding .free i) o := (hd.monitored Call.code_holding).allowed hw
    -- a lease that is claimed now was nobody's
    have nobody {j : Nat} {x claimId claimId' : Id} {now ttl : Time}
        (hj : (d.past holding .free j).lease = some (x, claimId')) :
        ¬∃ h : o = .write (.claimStepping x claimId now ttl), HEq r true := by
      rintro ⟨rfl, hr⟩
      obtain rfl := eq_of_heq hr
      obtain ⟨row, hrow, hstepping, _⟩ := h.recorded j x claimId' hj
      simp [takesOver, hrow, hstepping] at hover
    refine ⟨fun j x claimId hj => ?_, fun j j' x claimId claimId' hj hj' => ?_⟩
    · rw [App.next_past] at hj
      have kept {l : Nat} (hl : (d.past holding .free l).lease = some (x, claimId))
          (hne : o ≠ .write (.releaseStepping x claimId)) :
          ∃ row, s.executions x = some row ∧ row.stepping = true ∧ row.steppingClaimId = some claimId := by
        obtain ⟨row, hrow, hstepping, hclaim⟩ := h.recorded l x claimId hl
        exact recorded_kept heff hd.allocated hover hne hrow hstepping hclaim
      split at hj
      · rcases lease_before hj with ⟨hold, hne⟩ | ⟨now, ttl, rfl, hr⟩
        · exact kept hold (hne x claimId)
        · obtain rfl := eq_of_heq hr
          cases heff with
          | claimStepping _ _ _ _ row hrow hfree =>
            exact ⟨{ row with stepping := true, steppingClaimId := some claimId, steppingClaimedAt := some now },
              by simp [hrow], rfl, rfl⟩
          | idle h => cases h
          | commit _ hc => cases hc
      · rename_i hij
        refine kept hj ?_
        rintro rfl
        have hm : d.past holding .free i = .held x claimId := hallowed
        exact hij (h.alone i j x claimId claimId (by rw [hm]; rfl) hj)
    · rw [App.next_past] at hj hj'
      split at hj <;> split at hj'
      · exact ‹i = j›.symm.trans ‹i = j'›
      · rename_i hij hij'
        rcases lease_before hj with ⟨hold, _⟩ | ⟨now, ttl, ho, hr⟩
        · exact (h.alone j j' x claimId claimId' hold hj')
        · exact (nobody hj' ⟨ho, hr⟩).elim
      · rename_i hij hij'
        rcases lease_before hj' with ⟨hold, _⟩ | ⟨now, ttl, ho, hr⟩
        · exact h.alone j j' x claimId claimId' hj hold
        · exact (nobody hj ⟨ho, hr⟩).elim
      · exact h.alone j j' x claimId claimId' hj hj'

end SafeOps
