import SafeOps.Model.World

/-! `app/services/audit.py`: committing a chunk of rows under the next free audit sequence
numbers. -/

namespace SafeOps
open Concurrent

variable {W : World}

/-- What a row builder leaves to be committed. A guarded chunk has first updated the
execution's status conditionally; when the update matched no row, `lost` goes on. -/
inductive Rows (W : World)
  | plain (t : Txn)
  | guarded (g : StatusGuard) (won : Txn) (lost : Db W Txn)

def Rows.commit (attempt : Attempt) : Rows W → Db W CommitOutcome
  | plain t => write (.commit attempt t)
  | guarded g won lost => do
    let outcome : GuardedOutcome ← write (.commitIf attempt g won)
    match outcome with
    | .finished outcome => pure outcome
    | .guardLost => do
      let t ← lost
      write (.commit attempt t)

/-- One round of the loop in `commit_chunk`. A builder is told the number of its round: after
the first, a rollback has expired the rows it had loaded. -/
def commitRound (executionId : Id) (buildRows : Nat → Nat → Db W (Rows W)) (number : Nat) :
    Db W CommitOutcome := do
  let tail : AuditTail ← query (.auditSequence executionId)
  let rows ← buildRows number (tail.sequence + 1)
  rows.commit ⟨number, tail.startedAt⟩

/-- The remaining rounds. -/
def commitAttempts (executionId : Id) (buildRows : Nat → Nat → Db W (Rows W)) :
    List Nat → Db W Unit
  | [] => .raise .integrityError
  | number :: later => do
    let outcome ← commitRound executionId buildRows number
    match outcome with
    | .committed => pure ()
    | .violation => .raise .integrityError
    | .collision => commitAttempts executionId buildRows later

/-- `for attempt in range(5)`. -/
def commitRows (executionId : Id) (buildRows : Nat → Nat → Db W (Rows W)) : Db W Unit :=
  commitAttempts executionId buildRows [0, 1, 2, 3, 4]

/-- `commit_chunk` with a builder that only makes rows. -/
def commitChunk (executionId : Id) (buildRows : Nat → Txn) : Db W Unit :=
  commitRows executionId fun _ seq => pure (.plain (buildRows seq))

/-- `commit_chunk` raises: its fifth round has collided, or a primary key was taken. -/
def Attempt.givesUp (attempt : Attempt) (outcome : CommitOutcome) : Bool :=
  outcome = .violation || (outcome = .collision && attempt.number = 4)

theorem last_round {number : Nat} {later : List Nat} (h : number :: later <:+ [0, 1, 2, 3, 4]) :
    number = 4 ↔ later = [] := by
  simp only [List.suffix_cons_iff, List.cons.injEq, List.suffix_nil, reduceCtorEq, or_false] at h
  rcases h with ⟨rfl, rfl⟩ | ⟨rfl, rfl⟩ | ⟨rfl, rfl⟩ | ⟨rfl, rfl⟩ | ⟨rfl, rfl⟩ <;> simp

section Rules

variable {μ : Type} {M : Monitor W.statements μ} {X : Failure → μ → Prop} {m : μ}

/-- The loop rule: `I` holds before every round, with the rounds still to come. -/
theorem commitAttempts_obeys {x : Id} {build : Nat → Nat → Db W (Rows W)} {Q : Unit → μ → Prop}
    (I : List Nat → μ → Prop)
    (round : ∀ number later m, I (number :: later) m →
      (commitRound x build number).Obeys M (fun outcome m => match outcome with
        | .committed => Q () m
        | .violation => X .integrityError m
        | .collision => I later m) X m)
    (spent : ∀ m, I [] m → X .integrityError m) {attempts : List Nat} (hm : I attempts m) :
    (commitAttempts x build attempts).Obeys M Q X m := by
  induction attempts generalizing m with
  | nil => exact spent m hm
  | cons number later ih =>
    refine (Program.obeys_bind _ _).2 ((round number later m hm).mono (fun outcome m h => ?_)
      fun _ _ h => h)
    cases outcome with
    | committed => exact h
    | violation => exact h
    | collision => exact ih h

/-- A chunk whose rounds all keep `I`, the last one leaving `J`. -/
theorem commitRows_obeys {x : Id} {build : Nat → Nat → Db W (Rows W)} (I J : μ → Prop)
    (round : ∀ number m, I m →
      (commitRound x build number).Obeys M (fun outcome m => match outcome with
        | .committed => J m
        | .violation => X .integrityError m
        | .collision => I m) X m)
    (spent : ∀ m, I m → X .integrityError m) (hm : I m) :
    (commitRows x build).Obeys M (fun _ m => J m) X m :=
  commitAttempts_obeys (fun _ => I) (fun number _ => round number) spent hm

end Rules
end SafeOps
