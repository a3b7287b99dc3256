import SafeOps.Model.World

/-! `app/core/seed.py`: the policies a fresh installation starts with. -/

namespace SafeOps

/-- An entry of `SEED_POLICIES`. -/
structure SeedPolicy where
  policyKey : String
  agentType : String
  toolName : String
  priority : Int
  action : PolicyAction
  conditions : Value

/-- A condition on the amount of a refund. -/
def amountCondition (operator : String) (value : Int) : Value :=
  .dict [("field", .str "arguments.amount"), ("operator", .str operator), ("value", .int value)]

/-- `SEED_POLICIES`. -/
def seedPolicies : List SeedPolicy :=
  [{ policyKey := "SUPPORT_REFUND_AUTONOMOUS"
     agentType := "support"
     toolName := "refund_payment"
     priority := 100
     action := .allow
     conditions := .dict [("all", .list [amountCondition "lte" 100])] },
   { policyKey := "SUPPORT_REFUND_APPROVAL"
     agentType := "support"
     toolName := "refund_payment"
     priority := 100
     action := .requireApproval
     conditions := .dict [("all", .list [amountCondition "gt" 100, amountCondition "lte" 1000])] },
   { policyKey := "SUPPORT_REFUND_BLOCK"
     agentType := "support"
     toolName := "refund_payment"
     priority := 100
     action := .block
     conditions := .dict [("all", .list [amountCondition "gt" 1000])] },
   { policyKey := "DEVOPS_STAGING_DEPLOY"
     agentType := "devops"
     toolName := "deploy_staging"
     priority := 100
     action := .allow
     conditions := .dict [] },
   { policyKey := "DEVOPS_PRODUCTION_DEPLOY"
     agentType := "devops"
     toolName := "deploy_production"
     priority := 100
     action := .requireApproval
     conditions := .dict [] }]

/-- The row `seed` adds for an entry, with the defaults of the columns it leaves out. -/
def SeedPolicy.row (data : SeedPolicy) (id toolId : Id) : Policy where
  id := id
  policyKey := data.policyKey
  agentType := some data.agentType
  agentId := none
  toolId := some toolId
  priority := data.priority
  enabled := true
  action := data.action
  conditions := data.conditions

/-- The policies are those that `seed` has added for the tool, in whatever order. -/
def Seeded (toolName : String) (toolId : Id) (policies : List Policy) : Prop :=
  ∃ idOf : String → Id, ∀ p, p ∈ policies ↔
    ∃ data ∈ seedPolicies, data.toolName = toolName ∧ p = data.row (idOf data.policyKey) toolId

end SafeOps
