import Mathlib.Logic.Basic

/-! Sequential programs that talk to a shared machine one request at a time.
A program is the tree of its requests, branching on every reply it may receive. -/

namespace SafeOps.Concurrent

/-- The requests a machine offers, each with the type of its reply. -/
structure Signature where
  Op : Type
  Reply : Op → Type

/-- A program over `S` that may return a value of `α` or raise an exception of `ε`. -/
inductive Program (S : Signature) (ε α : Type) : Type
  | ret (value : α)
  | raise (error : ε)
  | request (op : S.Op) (next : S.Reply op → Program S ε α)

namespace Program

variable {S T : Signature} {ε ε' α β : Type}

def bind : Program S ε α → (α → Program S ε β) → Program S ε β
  | ret a, f => f a
  | raise e, _ => raise e
  | request o k, f => request o fun r => (k r).bind f

/-- `try p except handler`. -/
def tryCatch : Program S ε α → (ε → Program S ε' α) → Program S ε' α
  | ret a, _ => ret a
  | raise e, h => h e
  | request o k, h => request o fun r => (k r).tryCatch h

/-- `try p finally last`. -/
def tryFinally : Program S ε α → Program S ε Unit → Program S ε α
  | ret a, last => last.bind fun _ => ret a
  | raise e, last => last.bind fun _ => raise e
  | request o k, last => request o fun r => (k r).tryFinally last

/-- Runs a program of a sub-signature, naming each of its requests by one of `S`. -/
def embed (name : T.Op → S.Op) (reply : ∀ o, S.Reply (name o) → T.Reply o) :
    Program T ε α → Program S ε α
  | ret a => ret a
  | raise e => raise e
  | request o k => request (name o) fun r => (k (reply o r)).embed name reply

def call (o : S.Op) : Program S ε (S.Reply o) := request o ret

/-- The program has a request to make. -/
def waiting : Program S ε α → Bool
  | request _ _ => true
  | _ => false

theorem waiting_eq_false (p : Program S ε α) : p.waiting = false ↔ ∀ o k, p ≠ request o k := by
  cases p <;> simp [waiting]

/-- The program has ended with an exception. -/
def raises : Program S ε α → Bool
  | raise _ => true
  | _ => false

theorem raises_eq_true {p : Program S ε α} : p.raises = true ↔ ∃ e, p = raise e := by
  cases p <;> simp [raises]

instance : Monad (Program S ε) where
  pure := ret
  bind := bind

@[simp] theorem pure_eq (a : α) : (pure a : Program S ε α) = ret a := rfl
@[simp] theorem bind_eq (p : Program S ε α) (f : α → Program S ε β) : p >>= f = p.bind f := rfl

end Program
end SafeOps.Concurrent
