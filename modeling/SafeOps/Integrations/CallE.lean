import SafeOps.Integrations.Strands

/-! `integrations/calle/agent.py`: what becomes of the result of a phone call. -/

namespace SafeOps
namespace CallE

/-- `d.get(key) or default`. -/
def orDefault (entries : List (String × Value)) (key : String) (default : Value) : Value :=
  ((entries.lookup key).filter Value.truthy).getD default

/-- `call_result.get("structured_result") or {}`. -/
def structuredResult (callResult : List (String × Value)) : Value :=
  orDefault callResult "structured_result" (.dict [])

/-- The customer's own words. -/
def transcript (structured : List (String × Value)) : Value := orDefault structured "customer_statement" (.str "")

def wantsRefund (structured : List (String × Value)) : Bool := (structured.lookup "wants_refund").any Value.truthy

def sources (structured : List (String × Value)) : Option (List Client.Source) :=
  if (transcript structured).truthy then some [⟨"voice_call_transcript", transcript structured⟩] else none

/-- The arguments of the refund; `nonce` is the `uuid4` of its idempotency key. -/
def refundArguments (paymentId nonce : String) (structured : List (String × Value)) : Value :=
  .dict [("payment_id", .str paymentId), ("amount", orDefault structured "confirmed_amount" (.str "750.00")),
    ("reason", .str "Refund confirmed by customer via CALL-E voice call"),
    ("idempotency_key", .str ("calle-refund-" ++ nonce))]

/-- The body that is posted under a fresh `uuid4`. -/
def post (safeopsAgentId externalRequestId paymentId nonce : String) (structured : List (String × Value)) : Value :=
  Client.submitAction externalRequestId safeopsAgentId "refund_payment"
    (some (refundArguments paymentId nonce structured)) none (some "CALL-E voice-confirmed refund")
    (sources structured) none "GENERIC"

/-- What `submit_call_outcome_to_safeops` returns: no action, the client's answer, or an exception. -/
inductive Outcome
  | noAction
  | answered (answer : Strands.Answer)
  | raised

/-- `submit_call_outcome_to_safeops`: what it posts, and what it returns. `Answered` says what may be answered to a
body. -/
inductive Handled (Answered : Value → Strands.Answer → Prop) (safeopsAgentId paymentId : String)
    (callResult : List (String × Value)) : Option (Value × Strands.Answer) → Outcome → Prop
  | unstructured : (∀ structured, structuredResult callResult ≠ .dict structured) →
      Handled Answered safeopsAgentId paymentId callResult none .raised
  | unconfirmed {structured : List (String × Value)} : structuredResult callResult = .dict structured →
      wantsRefund structured = false → Handled Answered safeopsAgentId paymentId callResult none .noAction
  | submitted {structured : List (String × Value)} {externalRequestId nonce : String} {answer : Strands.Answer} :
      structuredResult callResult = .dict structured → wantsRefund structured = true →
      Answered (post safeopsAgentId externalRequestId paymentId nonce structured) answer →
      Handled Answered safeopsAgentId paymentId callResult
        (some (post safeopsAgentId externalRequestId paymentId nonce structured, answer)) (.answered answer)

end CallE
end SafeOps
