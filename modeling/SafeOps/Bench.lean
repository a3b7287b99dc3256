import SafeOps.Inventory.Issued
import SafeOps.Tools.Registry

/-! Replaying single runs: a small installation, and what a replayed schedule proves about it. -/

namespace SafeOps
open Concurrent

variable {W : World}

/-- What a schedule of allowed statements reaches from a fresh database. -/
theorem Allowed.reachable {ok : App W → Statement W → Prop} {s : State W.Domain} (hs : s.Fresh)
    {moves : List (Move Call Change)} (h : Allowed W.system ok (Config.start s) moves) :
    ReachableWithin ok ((Config.start s : App W).replay W.system moves) :=
  ⟨_, ⟨s, hs, rfl⟩, h.steps .refl⟩

theorem replay_reachable {s : State W.Domain} (hs : s.Fresh) (moves : List (Move Call Change)) :
    Reachable ((Config.start s : App W).replay W.system moves) :=
  ⟨_, ⟨s, hs, rfl⟩, run_replay moves .refl⟩

/-- One tool that always succeeds, no risk detectors, and a planner that always completes. -/
def bench : World where
  Tables := ⟨Empty, fun _ => Unit⟩
  Domain := Unit
  serve o _ := nomatch o
  registry name := if name = "refund_payment" then some ⟨fun _ => none, fun _ => .ret .null⟩ else none
  nextAction _ _ _ := .decision (.complete "done")
  detectors := []
  financialRiskWeight _ := 0
  evaluateConditions _ _ := .ok true
  sha256 text := text
  reprFloat x := toString x.num ++ "e" ++ toString x.den
  roundFloat := id
  maxExecutionSteps := 25
  leaseTtl := 1000

/-- Every agent may use every tool, subject to one policy with the given action. -/
def Directory.bench (action : PolicyAction) : Directory where
  agents _ := some ⟨"support-agent", "SUPPORT"⟩
  tools name := some ⟨⟨0, name, .low⟩, rfl⟩
  permissions _ _ := some .conditional
  policies := [⟨0, "refund-policy", none, none, some 0, 0, true, action, .null⟩]
  mappings _ _ := true

def State.bench (action : PolicyAction) : State Unit where
  now := 0
  faults := {}
  directory := .bench action
  executions _ := none
  steps _ := []
  toolRequests _ := none
  approvals _ := none
  externalRequests _ _ := none
  audit _ := []
  nextId := 0
  domain := ()

theorem State.bench_fresh (action : PolicyAction) : (State.bench action).Fresh :=
  ⟨fun _ => rfl, fun _ => rfl, fun _ => rfl, fun _ => rfl, fun _ _ => rfl, fun _ => rfl⟩

/-- The installation after a schedule. -/
def afterMoves (action : PolicyAction) (moves : List (Move Call Change)) : App bench :=
  (Config.start (State.bench action)).replay bench.system moves

theorem afterMoves_reachable (action : PolicyAction) (moves : List (Move Call Change)) :
    Reachable (afterMoves action moves) :=
  replay_reachable (State.bench_fresh action) moves

/-- A call that a schedule has brought in, and that has come to raise an exception. -/
theorem raised_at {action : PolicyAction} {moves : List (Move Call Change)} {i : Nat} {call : Call}
    (hcall : (moves.filterMap Move.spawned)[i]? = some call)
    (hraises : ((afterMoves action moves).threads[i]?).any (·.program.raises) = true) :
    ∃ failure, (afterMoves action moves).threads[i]? = some ⟨call, .raise failure⟩ := by
  obtain ⟨⟨call', program⟩, ht, hraises⟩ := (Option.any_eq_true _ _).1 hraises
  obtain ⟨failure, rfl⟩ := Program.raises_eq_true.1 hraises
  have hcalls : (afterMoves action moves).threads.map (·.call) = moves.filterMap Move.spawned := replay_calls _ moves
  have hsame : some call' = some call := by
    have hleft : ((afterMoves action moves).threads.map (·.call))[i]? = some call' := by simp [ht]
    rw [← hleft, hcalls, hcall]
  obtain rfl := Option.some.inj hsame
  exact ⟨failure, ht⟩

/-- `call` arrives as thread `i`, which then runs for `n` statements. -/
def arrival (call : Call) (i n : Nat) : List (Move Call Change) :=
  .spawn call :: List.replicate n (.run i)

/-- Thread 0 starts execution 0. -/
def startMoves : List (Move Call Change) := arrival (.startExecution 0 "refund" none) 0 5

/-- Thread 1 asks the gateway for a refund. Where that needs approval, its first 26 statements lead to
tool request 1 and approval 3, and its 27th returns. -/
def gatewayMoves (n : Nat) : List (Move Call Change) :=
  arrival (.gateway ⟨0, 0, "refund_payment", .dict []⟩ none) 1 n

/-- An installation that deploys version 1.2.3 of whatever its objectives name. -/
def Premises.bench : Premises where
  text := ⟨id, id, fun _ => "", fun _ => none, fun _ => ""⟩
  patterns := ⟨fun _ => none, fun _ => none, fun _ => none, fun _ => some "1.2.3"⟩
  amount _ := none
  validationText _ _ := ""
  renderTime _ := ""
  clock n := n
  Others := ⟨Empty, fun _ => Unit⟩
  Rest := Unit
  serveOther o _ _ _ := nomatch o
  otherTools name := if name = "get_deployment" then some ⟨fun _ => none, fun _ => .ret .null⟩ else none
  detectors := []
  financialRiskWeight := SafeOps.bench.financialRiskWeight
  evaluateConditions := SafeOps.bench.evaluateConditions
  sha256 := SafeOps.bench.sha256
  reprFloat := SafeOps.bench.reprFloat
  roundFloat := SafeOps.bench.roundFloat
  maxExecutionSteps := SafeOps.bench.maxExecutionSteps
  leaseTtl := SafeOps.bench.leaseTtl

/-- One service, which has not been deployed yet. -/
def State.unreleased (action : PolicyAction) : State Premises.bench.Books :=
  { State.bench action with
    domain :=
      { ledger := ⟨0, [], []⟩
        releases := ⟨0, [⟨0, "checkout-service"⟩], [], 0⟩
        rest := ()
        served := 0 } }

theorem State.unreleased_fresh (action : PolicyAction) : (State.unreleased action).Fresh :=
  ⟨fun _ => rfl, fun _ => rfl, fun _ => rfl, fun _ => rfl, fun _ _ => rfl, fun _ => rfl⟩

/-- That installation after a schedule. -/
def afterDeploying (action : PolicyAction) (moves : List (Move Call Change)) : App Premises.bench.world :=
  (Config.start (State.unreleased action)).replay Premises.bench.world.system moves

/-- Thread 0 starts execution 0, thread 1 steps it once. -/
def deployMoves : List (Move Call Change) :=
  arrival (.startExecution 0 "deploy checkout-service" none) 0 5 ++ arrival (.step 0) 1 60

section Text

open Serial

/-- The digits and the sign of an integer. -/
theorem intText_ne_e (n : Int) : ∀ c ∈ intText n, c ≠ 'e' := by
  rintro c hc rfl
  exact absurd (intText_digits n 'e' hc) (by decide)

theorem bench_reprFloat (x : Rat) :
    (bench.reprFloat x).toList = intText x.num ++ 'e' :: Nat.toDigits 10 x.den := by
  simp [bench, intText, Nat.toString_eq_repr]

theorem bench_floatText : FloatText bench.reprFloat where
  injective x y h := by
    have h := congrArg String.toList h
    rw [bench_reprFloat, bench_reprFloat] at h
    have ends (n : Nat) : Ends (· ≠ 'e') ('e' :: Nat.toDigits 10 n) := ends_cons (by simp) _
    obtain ⟨hnum, hden⟩ := run_unique (intText_ne_e _) (intText_ne_e _) (ends _) (ends _) h
    exact Rat.ext (intText_injective hnum) (toDigits_inj (List.cons.inj hden).2)
  notInt x n h := by
    have he : 'e' ∈ (bench.reprFloat x).toList := by simp [bench_reprFloat]
    rw [h] at he
    exact intText_ne_e n 'e' he rfl
  numeric x c hc := by
    rw [bench_reprFloat] at hc
    rcases List.mem_append.1 hc with hc | hc
    · exact intText_numeric _ c hc
    · rcases List.mem_cons.1 hc with rfl | hc
      · exact .inr (by simp)
      · exact .inl (toDigits_digits hc)
  nonempty x h := by
    have h := congrArg String.toList h
    simp [bench_reprFloat] at h

end Text

end SafeOps
