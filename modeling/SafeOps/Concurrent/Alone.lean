import SafeOps.Concurrent.Program

/-! Running a program to its end with the machine to itself. -/

namespace SafeOps.Concurrent.Program

variable {S : Signature} {ε α β σ : Type} (exec : (o : S.Op) → σ → S.Reply o × σ)

/-- How the program ends, and the state it leaves behind. -/
def alone : Program S ε α → σ → Except ε α × σ
  | ret a, s => (.ok a, s)
  | raise e, s => (.error e, s)
  | request o k, s => (k (exec o s).1).alone (exec o s).2

end SafeOps.Concurrent.Program
