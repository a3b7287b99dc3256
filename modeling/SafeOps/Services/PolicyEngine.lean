import SafeOps.Model.World

/-! `app/services/policy_engine.py`: the ranked, prioritised choice among enabled policies. -/

namespace SafeOps
open Concurrent

structure PolicyEvaluationResult where
  decision : PolicyAction
  reason : String
  matchedPolicy : Option String := none
  policyId : Option Id := none

namespace PolicyEngine

variable {W : World}

def blocked (reason : String) : PolicyEvaluationResult := ⟨.block, reason, none, none⟩

/-- The evaluator of a policy's conditions in an evaluation context. -/
abbrev Evaluator := Value → Value → Except ConditionFailure Bool

/-- The policies whose conditions hold, unless one of them raises first. -/
def matching (evaluateConditions : Evaluator) (context : Value) :
    List Policy → Except ConditionFailure (List Policy)
  | [] => .ok []
  | p :: policies => do
    let holds ← evaluateConditions p.conditions context
    let rest ← matching evaluateConditions context policies
    pure (if holds then p :: rest else rest)

/-- `sorted(top, key=policy_key)[0]`. -/
def firstByKey (first : Policy) (others : List Policy) : Policy :=
  others.foldl (fun best p => if p.policyKey < best.policyKey then p else best) first

/-- What `_resolve_rank` makes of the policies that match. -/
def resolveMatched : List Policy → Option PolicyEvaluationResult
  | [] => none
  | first :: others =>
    let topPriority := others.foldl (fun top p => max top p.priority) first.priority
    match (first :: others).filter (·.priority = topPriority) with
    | [] => none
    | chosen :: tied =>
      if tied.any (·.action ≠ chosen.action) then
        some (blocked ("POLICY_CONFLICT: multiple policies matched with equal priority " ++
          "and differing actions"))
      else
        let p := firstByKey chosen tied
        some ⟨p.action, s!"Matched policy '{p.policyKey}'", some p.policyKey, some p.id⟩

/-- `_resolve_rank`, which only expects a `PolicyConditionError`. -/
def resolveRank (evaluateConditions : Evaluator) (policies : List Policy) (context : Value) :
    Except ConditionFailure (Option PolicyEvaluationResult) :=
  match matching evaluateConditions context policies with
  | .error .policyConditionError =>
    .ok (some (blocked "POLICY_EVALUATION_ERROR: invalid policy condition"))
  | .error .other => .error .other
  | .ok matched => .ok (resolveMatched matched)

def evaluationContext (agentId : Id) (agent : Agent) (tool : Tool) (arguments : Value)
    (executionId : Id) : Value :=
  .dict [("arguments", arguments),
    ("agent", .dict [("id", .id agentId), ("type", .str agent.type), ("name", .str agent.name)]),
    ("tool", .dict [("id", .id tool.id), ("name", .str tool.name)]),
    ("execution", .dict [("id", .id executionId)])]

/-- The loop over the ranks; a rank without a match falls through. -/
def resolveRanks (evaluateConditions : Evaluator) (context : Value) :
    List (List Policy) → Except ConditionFailure PolicyEvaluationResult
  | [] => .ok (blocked "NO_MATCHING_POLICY: no policy is configured for this agent/tool")
  | rank :: broader => do
    let result ← resolveRank evaluateConditions rank context
    match result with
    | some result => pure result
    | none => resolveRanks evaluateConditions context broader

/-- The three ranks, most specific first. -/
def ranks (agentId : Id) (agent : Agent) (candidates : List Policy) : List (List Policy) :=
  [candidates.filter fun p => p.agentId = some agentId,
    candidates.filter fun p => p.agentId = none ∧ p.agentType = some agent.type,
    candidates.filter fun p => p.agentId = none ∧ p.agentType = none]

def evaluate (agentId : Id) (agent : Agent) (tool : Tool) (arguments : Value) (executionId : Id) :
    Db W PolicyEvaluationResult := do
  let candidates : List Policy ← query (.policies tool.id)
  let faults : Faults ← query .faults
  if faults.policyEvaluation then .raise .other
  else
    match resolveRanks W.evaluateConditions
        (evaluationContext agentId agent tool arguments executionId)
        (ranks agentId agent candidates) with
    | .ok result => pure result
    | .error _ => .raise .other

end PolicyEngine
end SafeOps
