import SafeOps.Concurrent.Pool

/-! Programs that make a bounded number of requests, whatever they are answered. -/

namespace SafeOps.Concurrent

variable {S : Signature} {ε ε' α β : Type}

namespace Program

/-- The program makes at most so many requests, and returns a value with `Q` if it returns one. -/
def Within (Q : α → Prop) : Nat → Program S ε α → Prop
  | _, ret a => Q a
  | _, raise _ => True
  | 0, request _ _ => False
  | n + 1, request _ k => ∀ r, (k r).Within Q n

variable {Q : α → Prop} {R : β → Prop} {n m : Nat}

@[simp] theorem within_ret (a : α) : (ret a : Program S ε α).Within Q n ↔ Q a := by cases n <;> rfl

@[simp] theorem within_raise (e : ε) : (raise e : Program S ε α).Within Q n := by cases n <;> trivial

theorem within_request {o : S.Op} {k : S.Reply o → Program S ε α} :
    (request o k).Within Q n ↔ ∃ m, n = m + 1 ∧ ∀ r, (k r).Within Q m := by
  cases n <;> simp [Within]

theorem Within.mono {p : Program S ε α} (h : p.Within Q n) (hnm : n ≤ m) : p.Within Q m := by
  induction p generalizing n m with
  | ret a => exact (within_ret a).2 ((within_ret a).1 h)
  | raise e => exact within_raise e
  | request o k ih =>
    obtain ⟨n, rfl, hk⟩ := within_request.1 h
    obtain ⟨m, rfl⟩ : ∃ m', m = m' + 1 := ⟨m - 1, by omega⟩
    exact fun r => ih r (hk r) (by omega)

theorem Within.bind {p : Program S ε α} {f : α → Program S ε β} (h : p.Within Q n)
    (hf : ∀ a, Q a → (f a).Within R m) : (p.bind f).Within R (n + m) := by
  induction p generalizing n with
  | ret a => exact (hf a ((within_ret a).1 h)).mono (Nat.le_add_left _ _)
  | raise e => exact within_raise e
  | request o k ih =>
    obtain ⟨n, rfl, hk⟩ := within_request.1 h
    rw [Nat.add_right_comm]
    exact fun r => ih r (hk r)

theorem Within.tryCatch {p : Program S ε α} {f : ε → Program S ε' α} (h : p.Within Q n)
    (hf : ∀ e, (f e).Within Q m) : (p.tryCatch f).Within Q (n + m) := by
  induction p generalizing n with
  | ret a => exact (within_ret a).2 ((within_ret a).1 h)
  | raise e => exact (hf e).mono (Nat.le_add_left _ _)
  | request o k ih =>
    obtain ⟨n, rfl, hk⟩ := within_request.1 h
    rw [Nat.add_right_comm]
    exact fun r => ih r (hk r)

end Program

variable {σ κ η : Type} {sys : System S ε α σ κ η} {ok : Config S ε α σ κ → Entry S → Prop} {s : σ}
  {c : Config S ε α σ κ} {Q : α → Prop} {n : Nat}

/-- What a call has requested and what its program may still request are within the bound. -/
def Config.Within (Q : α → Prop) (n : Nat) (c : Config S ε α σ κ) : Prop :=
  c.Numbered ∧ ∀ i (t : Thread S ε α κ), c.threads[i]? = some t →
    ∃ m, t.program.Within Q m ∧ c.history.countP (·.thread = i) + m ≤ n

theorem Config.Within.spawn (hc : c.Within Q n) {call : κ} (hcode : (sys.code call).Within Q n) :
    (c.spawn sys call).Within Q n := by
  obtain ⟨hnumbered, hbounded⟩ := hc
  refine ⟨fun e he => ?_, fun i t ht => ?_⟩
  · have := hnumbered e he
    simp only [Config.spawn, List.length_append, List.length_singleton]
    omega
  · rw [Config.spawn, List.getElem?_append] at ht
    split at ht
    · exact hbounded i t ht
    · obtain rfl : t = ⟨call, sys.code call⟩ := List.mem_singleton.1 (List.mem_of_getElem? ht)
      have hnone : c.history.countP (·.thread = i) = 0 := by
        refine List.countP_eq_zero.2 fun e he => ?_
        have := hnumbered e he
        simp only [decide_eq_true_eq]
        omega
      refine ⟨n, hcode, ?_⟩
      change c.history.countP (·.thread = i) + n ≤ n
      omega

theorem Config.Within.answer (hc : c.Within Q n) {i : Nat} {call : κ} {o : S.Op} {k : S.Reply o → Program S ε α}
    (hw : c.threads[i]? = some ⟨call, .request o k⟩) : (c.answer sys i call o k).Within Q n := by
  obtain ⟨hnumbered, hbounded⟩ := hc
  have hi := (List.getElem?_eq_some_iff.1 hw).1
  refine ⟨fun e he => ?_, fun j t ht => ?_⟩
  · rw [Config.answer, List.length_set]
    rcases List.mem_cons.1 he with rfl | he
    · exact hi
    · exact hnumbered e he
  · simp only [Config.answer, Config.entry, List.getElem?_set, List.countP_cons, decide_eq_true_eq] at ht ⊢
    split at ht
    · rename_i hij
      subst hij
      obtain rfl : t = ⟨call, k (sys.exec o c.state).1⟩ := by simpa [hi] using ht.symm
      obtain ⟨m, hm, hle⟩ := hbounded i _ hw
      obtain ⟨m, rfl, hk⟩ := Program.within_request.1 hm
      exact ⟨m, hk _, by rw [if_pos rfl]; omega⟩
    · rename_i hij
      rw [if_neg hij]
      exact hbounded j t ht

/-- No interleaving makes a call exceed its bound. -/
theorem Steps.within (hcode : ∀ call, (sys.code call).Within Q n) (h : Steps sys ok (Config.start s) c) (i : Nat) :
    c.history.countP (·.thread = i) ≤ n := by
  obtain ⟨hnumbered, hbounded⟩ : c.Within Q n :=
    h.invariant ⟨by simp [Config.Numbered, Config.start], by simp [Config.start]⟩
      (fun _ call hd => hd.spawn (hcode call)) (fun _ _ hd => hd) fun _ _ _ _ _ _ hw _ hd => hd.answer hw
  cases ht : c.threads[i]? with
  | some t =>
    obtain ⟨m, -, hle⟩ := hbounded i t ht
    omega
  | none =>
    rw [List.countP_eq_zero.2 fun e he => ?_]
    · exact Nat.zero_le _
    · have := hnumbered e he
      have := List.getElem?_eq_none_iff.1 ht
      simp only [decide_eq_true_eq]
      omega

end SafeOps.Concurrent
