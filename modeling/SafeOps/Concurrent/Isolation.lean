import SafeOps.Concurrent.Alone
import SafeOps.Concurrent.Pool

/-! Total correctness of a program that nobody interferes with, and what it says about the pool: a call may always be
run to its end without interruption. -/

namespace SafeOps.Concurrent
namespace Program

variable {S : Signature} {ε ε' α β σ : Type} {exec : (o : S.Op) → σ → S.Reply o × σ} {s : σ} {Q : α → σ → Prop}

/-- Run alone from `s`, the program returns, with a result and in a state that satisfy `Q`. -/
def Ends (exec : (o : S.Op) → σ → S.Reply o × σ) (p : Program S ε α) (s : σ) (Q : α → σ → Prop) : Prop :=
  ∃ a s', p.alone exec s = (.ok a, s') ∧ Q a s'

theorem Ends.ret {a : α} (h : Q a s) : (ret a : Program S ε α).Ends exec s Q := ⟨a, s, rfl, h⟩

theorem Ends.mono {R : α → σ → Prop} {p : Program S ε α} (h : p.Ends exec s R) (hQ : ∀ a s', R a s' → Q a s') :
    p.Ends exec s Q := by
  obtain ⟨a, s', heq, hR⟩ := h
  exact ⟨a, s', heq, hQ a s' hR⟩

/-- The rule of sequencing. -/
theorem Ends.bind {R : β → σ → Prop} {p : Program S ε β} {f : β → Program S ε α} (hp : p.Ends exec s R)
    (hf : ∀ b s', R b s' → (f b).Ends exec s' Q) : (p.bind f).Ends exec s Q := by
  induction p generalizing s with
  | ret b =>
    obtain ⟨b', s', heq, hR⟩ := hp
    cases heq
    exact hf b s hR
  | raise e =>
    obtain ⟨b', s', heq, _⟩ := hp
    cases heq
  | request o k ih => exact ih _ hp

/-- One statement, and the rest. -/
theorem Ends.call_bind {o : S.Op} {f : S.Reply o → Program S ε α}
    (h : (f (exec o s).1).Ends exec (exec o s).2 Q) : ((call o).bind f).Ends exec s Q := h

/-- One statement whose answer and whose effect are known, and the rest. -/
theorem Ends.answered {o : S.Op} {f : S.Reply o → Program S ε α} {r : S.Reply o} {s' : σ} (ho : exec o s = (r, s'))
    (h : (f r).Ends exec s' Q) : ((call o).bind f).Ends exec s Q := by
  refine .call_bind ?_
  rwa [ho]

/-- The rule of exception handling, for a program of which no more is known than what its statements preserve. -/
theorem Ends.tryCatch {K : S.Op → Prop} {I : σ → Prop} {p : Program S ε' α} {h : ε' → Program S ε α}
    (hp : p.Uses K) (keeps : ∀ o s, K o → I s → I (exec o s).2) (hI : I s) (hret : ∀ a s', I s' → Q a s')
    (hh : ∀ e s', I s' → (h e).Ends exec s' Q) : (p.tryCatch h).Ends exec s Q := by
  induction p generalizing s with
  | ret a => exact ⟨a, s, rfl, hret a s hI⟩
  | raise e => exact hh e s hI
  | request o k ih => exact ih _ (hp.2 _) (keeps o s hp.1 hI)

end Program

open Program

variable {S : Signature} {ε α σ κ η : Type} {sys : System S ε α σ κ η} {c d : Config S ε α σ κ} {call : κ} {a : α}

/-- `call` arrives in `c` and runs to its end without interruption: it returns `a`, and `d` is what it leaves. -/
def Config.Uninterrupted (sys : System S ε α σ κ η) (c : Config S ε α σ κ) (call : κ) (a : α)
    (d : Config S ε α σ κ) : Prop :=
  ∃ n, d = c.replay sys (.spawn call :: List.replicate n (.run c.threads.length)) ∧
    d.Returned c.threads.length call a

theorem Config.Uninterrupted.calls (h : c.Uninterrupted sys call a d) :
    d.threads.map (·.call) = c.threads.map (·.call) ++ [call] := by
  obtain ⟨n, rfl, -⟩ := h
  rw [replay_calls, List.filterMap_cons, Move.spawned, List.filterMap_replicate]
  rfl

theorem Config.Uninterrupted.run (h : c.Uninterrupted sys call a d) : Run sys c d := by
  obtain ⟨n, rfl, -⟩ := h
  exact run_replay _ .refl

theorem Config.Uninterrupted.returned (h : c.Uninterrupted sys call a d) : d.Returned c.threads.length call a := by
  obtain ⟨n, -, hreturned⟩ := h
  exact hreturned

/-- The pool holds no other calls than before and this one. -/
theorem Config.Uninterrupted.within {K : κ → Prop} (h : c.Uninterrupted sys call a d)
    (hc : ∀ t ∈ c.threads, K t.call) (hcall : K call) : ∀ t ∈ d.threads, K t.call := by
  intro t ht
  have hmem : t.call ∈ d.threads.map (·.call) := List.mem_map_of_mem ht
  rw [h.calls, List.mem_append, List.mem_map, List.mem_singleton] at hmem
  rcases hmem with ⟨t', ht', heq⟩ | heq
  · exact heq ▸ hc t' ht'
  · exact heq ▸ hcall

/-- A thread whose program ends by itself may run to that end. -/
theorem Program.Ends.replay {p : Program S ε α} {i : Nat} {Q : α → σ → Prop}
    (hw : c.threads[i]? = some ⟨call, p⟩) (h : p.Ends sys.exec c.state Q) :
    ∃ n a, (c.replay sys (List.replicate n (.run i))).Returned i call a ∧
      Q a (c.replay sys (List.replicate n (.run i))).state := by
  induction p generalizing c with
  | ret a =>
    obtain ⟨a', s', heq, hQ⟩ := h
    cases heq
    exact ⟨0, a, hw, hQ⟩
  | raise e =>
    obtain ⟨_, _, heq, _⟩ := h
    cases heq
  | request o k ih =>
    have hlt := (List.getElem?_eq_some_iff.1 hw).1
    have hmove : c.move sys (.run i) = c.answer sys i call o k := by simp only [Config.move, hw]
    obtain ⟨n, a, hret, hQ⟩ := ih _ (c := c.answer sys i call o k) (List.getElem?_set_self hlt) h
    refine ⟨n + 1, a, ?_⟩
    rw [List.replicate_succ, Config.replay, List.foldl_cons, hmove]
    exact ⟨hret, hQ⟩

/-- A call whose program ends by itself may be made, and run to its end, at any time. -/
theorem Program.Ends.uninterrupted {Q : α → σ → Prop} (sys : System S ε α σ κ η) (c : Config S ε α σ κ)
    (h : (sys.code call).Ends sys.exec c.state Q) :
    ∃ a d, c.Uninterrupted sys call a d ∧ Q a d.state := by
  have hw : (c.spawn sys call).threads[c.threads.length]? = some ⟨call, sys.code call⟩ := List.getElem?_concat_length
  obtain ⟨n, a, hret, hQ⟩ := h.replay hw
  exact ⟨a, _, ⟨n, rfl, hret⟩, hQ⟩

end SafeOps.Concurrent
