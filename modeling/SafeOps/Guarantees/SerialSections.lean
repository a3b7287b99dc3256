import SafeOps.Bench
import SafeOps.Guarantees.LeaseHolders

/-! The critical sections of an execution, one after the other: the steps of an execution are the work of one
call at a time. -/

namespace SafeOps
open Concurrent Program

variable {W : World} {ok : App W → Statement W → Prop} {c d : App W}

/-- The statement enters a step of execution `x`, or records what became of one. -/
def advances (x : Id) (e : Statement W) : Bool :=
  match e.op with
  | .write (.insertStep y _) | .write (.saveStep y _) => y = x
  | .write (.commit _ t) | .write (.commitIf _ _ t) => t.executionId = x ∧ t.step.isSome
  | _ => false

/-- The statement claims the lease of `x`. -/
def claimsLease (x : Id) : Statement W → Bool
  | ⟨_, .write (.claimStepping y _ _ _), claimed⟩ => decide (y = x) && (claimed : Bool)
  | _ => false

/-- The statement gives the lease of `x` back. -/
def releasesLease (x : Id) (e : Statement W) : Bool :=
  match e.op with
  | .write (.releaseStepping y _) => y = x
  | _ => false

section Monitors

variable {x claimId : Id} {m : Tenure} {o : Op W.Tables} {r : o.Reply}

theorem advances_held {e : Statement W} (h : advances x e = true) (hok : holding.ok m e.op) :
    ∃ claimId, m = .held x claimId := by
  obtain ⟨i, o, r⟩ := e
  rcases o with _ | w | _ | _
  · cases h
  · cases w with
    | insertStep y _ | saveStep y _ =>
      obtain rfl : y = x := of_decide_eq_true h
      exact hok
    | commit _ t | commitIf _ _ t =>
      obtain ⟨rfl, hs⟩ : t.executionId = x ∧ t.step.isSome = true := of_decide_eq_true h
      exact hok (Option.isSome_iff_ne_none.1 hs)
    | _ => cases h
  · cases h
  · cases h

/-- A lease that is held is held on, or given back. -/
theorem held_next (hok : holding.ok (.held x claimId) o) :
    holding.next (.held x claimId) o r = .held x claimId ∨ o = .write (.releaseStepping x claimId) := by
  rcases o with q | w | n | _
  · cases q <;> exact .inl rfl
  · cases w with
    | claimStepping => cases (show Tenure.held x claimId = .free from hok)
    | releaseStepping y c =>
      obtain ⟨rfl, rfl⟩ := Tenure.held.inj hok
      exact .inr rfl
    | _ => exact .inl rfl
  · cases n <;> exact .inl rfl
  · exact .inl rfl

end Monitors

section Histories

variable {x : Id} {i j : Nat} {recent older : List (Statement W)}

/-- Every statement was one that the lease monitor allows. -/
def LeasesLawful (history : List (Statement W)) : Prop :=
  ∀ later e earlier, history = later ++ e :: earlier → holding.ok (holding.after .free e.thread earlier) e.op

theorem LeasesLawful.tail {e : Statement W} {h : List (Statement W)} (hl : LeasesLawful (e :: h)) :
    LeasesLawful h :=
  fun later e' earlier he => hl (e :: later) e' earlier (by rw [he, List.cons_append])

/-- Only its holder's release ends a lease that is held. -/
theorem held_until_released (hl : LeasesLawful (recent ++ older)) {claimId : Id}
    (hold : holding.after .free j older = .held x claimId) :
    holding.after .free j (recent ++ older) = .held x claimId ∨
      ∃ e ∈ recent, e.thread = j ∧ releasesLease x e = true := by
  induction recent with
  | nil => exact .inl hold
  | cons e recent ih =>
    rcases ih hl.tail with hheld | ⟨e', he', hrest⟩
    · by_cases hj : e.thread = j
      · subst hj
        have hok := hl [] e (recent ++ older) rfl
        rw [hheld] at hok
        rcases held_next (r := e.reply) hok with hnext | hrelease
        · rw [List.cons_append, Monitor.after_self, hheld]
          exact .inl hnext
        · exact .inr ⟨e, List.mem_cons_self, rfl, by simp [releasesLease, hrelease]⟩
      · rw [List.cons_append, Monitor.after_other hj]
        exact .inl hheld
    · exact .inr ⟨e', List.mem_cons_of_mem _ he', hrest⟩

/-- No two calls have one lease at a time. -/
def LeasesAlone (history : List (Statement W)) : Prop :=
  ∀ recent older, history = recent ++ older → ∀ i j x claimId claimId',
    (holding.after .free i older).lease = some (x, claimId) →
      (holding.after .free j older).lease = some (x, claimId') → i = j

theorem LeasesAlone.tail {e : Statement W} {h : List (Statement W)} (ha : LeasesAlone (e :: h)) :
    LeasesAlone h :=
  fun recent older he => ha (e :: recent) older (by rw [he, List.cons_append])

/-- Between two holders of a lease, the first has given it back, and the second then claimed it. -/
theorem handed_over (hl : LeasesLawful (recent ++ older)) (ha : LeasesAlone (recent ++ older)) (hij : i ≠ j)
    {claimId claimId' : Id} (hold : holding.after .free j older = .held x claimId)
    (hnew : (holding.after .free i (recent ++ older)).lease = some (x, claimId')) :
    ∃ later claimed between released, recent = later ++ claimed :: between ∧ released ∈ between ∧
      claimed.thread = i ∧ claimsLease x claimed = true ∧
      released.thread = j ∧ releasesLease x released = true := by
  induction recent with
  | nil => exact absurd (ha [] older rfl i j x claimId' claimId hnew (by rw [hold]; rfl)) hij
  | cons e recent ih =>
    have earlier (h : (holding.after .free i (recent ++ older)).lease = some (x, claimId')) :
        ∃ later claimed between released, e :: recent = later ++ claimed :: between ∧ released ∈ between ∧
          claimed.thread = i ∧ claimsLease x claimed = true ∧
          released.thread = j ∧ releasesLease x released = true := by
      obtain ⟨later, claimed, between, released, hrecent, hrest⟩ := ih hl.tail ha.tail h
      exact ⟨e :: later, claimed, between, released, by rw [hrecent, List.cons_append], hrest⟩
    by_cases hi : e.thread = i
    · subst hi
      rw [List.cons_append, Monitor.after_self] at hnew
      rcases lease_before hnew with ⟨h, _⟩ | ⟨now, ttl, ho, hr⟩
      · exact earlier h
      · rcases held_until_released hl.tail hold with hheld | ⟨released, hmem, hthread, hrelease⟩
        · -- the first holder would still have the lease that is claimed
          have both : (holding.after .free j (e :: (recent ++ older))).lease = some (x, claimId) := by
            rw [Monitor.after_other hij, hheld]
            rfl
          have mine : (holding.after .free e.thread (e :: (recent ++ older))).lease = some (x, claimId') := by
            rw [Monitor.after_self]
            exact hnew
          exact absurd (ha [] _ rfl e.thread j x claimId' claimId mine both) hij
        · refine ⟨[], e, recent, released, rfl, hmem, rfl, ?_, hthread, hrelease⟩
          obtain ⟨i, o, r⟩ := e
          obtain rfl : o = .write (.claimStepping x claimId' now ttl) := ho
          obtain rfl := eq_of_heq hr
          simp [claimsLease]
    · rw [List.cons_append, Monitor.after_other hi] at hnew
      exact earlier hnew

end Histories

theorem ReachableWithin.leasesLawful (h : ReachableWithin ok c) : LeasesLawful c.history :=
  fun _ _ _ hist => h.lawful Call.code_holding hist

theorem ReachableWithin.leasesAlone (h : ReachableWithin ok c) (hok : ∀ c e, ok c e → takesOver c e = false) :
    LeasesAlone c.history := by
  obtain ⟨c₀, h₀, hsteps⟩ := h
  obtain ⟨s, hs, rfl⟩ := h₀
  intro recent older hist i j x claimId claimId' hi hj
  obtain ⟨b, hb, _, rfl⟩ := hsteps.rewind hist
  exact (ReachableWithin.leasesHeld ⟨_, ⟨s, hs, rfl⟩, hb⟩ hok).alone i j x claimId claimId' hi hj

/-- Where no lease is taken over while it is held, the critical sections of an execution follow each other: a call
that enters or records a step of it after another call has done so claimed the lease only once that call had given
it back. -/
theorem sections_serial {c : App W} (h : ReachableWithin (fun c e => takesOver c e = false) c) {x : Id}
    {later mid earlier : List (Statement W)} {first second : Statement W}
    (hist : c.history = later ++ second :: (mid ++ first :: earlier)) (hfirst : advances x first = true)
    (hsecond : advances x second = true) (hne : second.thread ≠ first.thread) :
    ∃ after claimed between released, mid = after ++ claimed :: between ∧ released ∈ between ∧
      claimed.thread = second.thread ∧ claimsLease x claimed = true ∧
      released.thread = first.thread ∧ releasesLease x released = true := by
  have lawful := h.leasesLawful
  obtain ⟨claimId, held⟩ := advances_held hfirst (lawful (later ++ second :: mid) first earlier (by
    rw [hist, List.append_assoc, List.cons_append]))
  obtain ⟨claimId', held'⟩ := advances_held hsecond (lawful later second (mid ++ first :: earlier) hist)
  -- the first call still holds the lease when its statement has been answered
  have hold : holding.after .free first.thread (first :: earlier) = .held x claimId := by
    have allowed := lawful (later ++ second :: mid) first earlier (by
      rw [hist, List.append_assoc, List.cons_append])
    rw [Monitor.after_self]
    rw [held] at allowed ⊢
    exact (held_next allowed).resolve_right fun ho => by simp [advances, ho] at hfirst
  have tail (l : List (Statement W)) (e : Statement W) (es : List (Statement W))
      (he : mid ++ first :: earlier = l ++ e :: es) :
      c.history = (later ++ second :: l) ++ e :: es := by
    rw [hist, he, List.append_assoc, List.cons_append]
  have lawfulMid : LeasesLawful (mid ++ first :: earlier) := fun l e es he => lawful _ e es (tail l e es he)
  have aloneMid : LeasesAlone (mid ++ first :: earlier) := fun l es he =>
    h.leasesAlone (fun _ _ h => h) (later ++ second :: l) es (by rw [hist, he, List.append_assoc, List.cons_append])
  have hnew : (holding.after .free second.thread (mid ++ first :: earlier)).lease = some (x, claimId') := by
    rw [held']
    rfl
  exact handed_over lawfulMid aloneMid hne hold hnew

/-- An element with `p` comes before one with `q`. -/
def precedes {α : Type} (p q : α → Bool) : List α → Bool
  | [] => false
  | b :: rest => (p b && rest.any q) || precedes p q rest

theorem exists_split {α : Type} {p q : α → Bool} {l : List α} (h : precedes p q l = true) :
    ∃ later b mid a earlier, l = later ++ b :: (mid ++ a :: earlier) ∧ p b = true ∧ q a = true := by
  induction l with
  | nil => cases h
  | cons b rest ih =>
    rcases Bool.or_eq_true_iff.1 h with h | h
    · obtain ⟨hb, hrest⟩ := Bool.and_eq_true_iff.1 h
      obtain ⟨a, ha, hqa⟩ := List.any_eq_true.1 hrest
      obtain ⟨mid, earlier, rfl⟩ := List.append_of_mem ha
      exact ⟨[], b, mid, a, earlier, rfl, hb, hqa⟩
    · obtain ⟨later, b', mid, a, earlier, rfl, hb, ha⟩ := ih h
      exact ⟨b :: later, b', mid, a, earlier, by rw [List.cons_append], hb, ha⟩

theorem sections_serial_twice : ∃ claimed released : Statement Premises.bench.world,
    claimed.thread = 2 ∧ claimsLease 0 claimed = true ∧ released.thread = 1 ∧ releasesLease 0 released = true := by
  have reached : ReachableWithin (fun c e => takesOver c e = false)
      (afterDeploying .allow (deployMoves ++ arrival (.step 0) 2 60)) :=
    Allowed.reachable (State.unreleased_fresh .allow) (by decide +kernel)
  obtain ⟨later, second, mid, first, earlier, hist, hsecond, hfirst⟩ := exists_split
    (p := fun e => decide (e.thread = 2) && advances 0 e) (q := fun e => decide (e.thread = 1) && advances 0 e)
    (l := (afterDeploying .allow (deployMoves ++ arrival (.step 0) 2 60)).history) (by decide +kernel)
  obtain ⟨h2, hsecond⟩ : second.thread = 2 ∧ advances 0 second = true := by simpa using hsecond
  obtain ⟨h1, hfirst⟩ : first.thread = 1 ∧ advances 0 first = true := by simpa using hfirst
  obtain ⟨_, claimed, _, released, _, _, hi, hclaims, hj, hreleases⟩ :=
    sections_serial reached hist hfirst hsecond (by rw [h1, h2]; decide)
  exact ⟨claimed, released, hi.trans h2, hclaims, hj.trans h1, hreleases⟩

end SafeOps
