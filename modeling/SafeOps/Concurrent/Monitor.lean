import SafeOps.Concurrent.Program

/-! Monitors: what a program's requests must respect whatever replies it receives.
Obedience is decided along the program's own branches, never along a schedule. -/

namespace SafeOps.Concurrent

variable {S T : Signature} {ε ε' α β μ : Type}

/-- A monitor follows one program: `ok` says what it may request now, `next` how the
monitor's state moves on with the reply. -/
structure Monitor (S : Signature) (μ : Type) where
  next : μ → (o : S.Op) → S.Reply o → μ
  ok : μ → S.Op → Prop

/-- The monitor, where it binds under the condition `H` only. -/
def Monitor.under (M : Monitor S μ) (H : Prop) : Monitor S μ where
  next := M.next
  ok m o := H → M.ok m o

/-- The monitor's state after the requests `steps`, each with the state it was answered in. -/
def Monitor.along {σ : Type} (M : Monitor S μ) (exec : (o : S.Op) → σ → S.Reply o × σ) (m : μ)
    (steps : List (S.Op × σ)) : μ :=
  steps.foldl (fun m step => M.next m step.1 (exec step.1 step.2).1) m

section Along

variable {σ : Type} (M : Monitor S μ) (exec : (o : S.Op) → σ → S.Reply o × σ) (m : μ)

@[simp] theorem Monitor.along_nil : M.along exec m [] = m := rfl

@[simp] theorem Monitor.along_cons (step : S.Op × σ) (steps : List (S.Op × σ)) :
    M.along exec m (step :: steps) =
      M.along exec (M.next m step.1 (exec step.1 step.2).1) steps := rfl

end Along

namespace Program

/-- `p.Obeys M Q X m`: started in monitor state `m`, every request of `p` is allowed, and it
returns a value with `Q` or raises an exception with `X`. -/
def Obeys (M : Monitor S μ) (Q : α → μ → Prop) (X : ε → μ → Prop) : Program S ε α → μ → Prop
  | ret a, m => Q a m
  | raise e, m => X e m
  | request o k, m => M.ok m o ∧ ∀ r, (k r).Obeys M Q X (M.next m o r)

/-- Every request of the program lies in the class `K`. -/
def Uses (K : S.Op → Prop) : Program S ε α → Prop
  | ret _ => True
  | raise _ => True
  | request o k => K o ∧ ∀ r, (k r).Uses K

variable {M : Monitor S μ} {Q : α → μ → Prop} {X : ε → μ → Prop} {m : μ}

@[simp] theorem obeys_ret (a : α) : (ret a : Program S ε α).Obeys M Q X m ↔ Q a m := .rfl

@[simp] theorem obeys_raise (e : ε) : (raise e : Program S ε α).Obeys M Q X m ↔ X e m := .rfl

@[simp] theorem obeys_request (o : S.Op) (k : S.Reply o → Program S ε α) :
    (request o k).Obeys M Q X m ↔ M.ok m o ∧ ∀ r, (k r).Obeys M Q X (M.next m o r) := .rfl

@[simp] theorem obeys_call (o : S.Op) (Q : S.Reply o → μ → Prop) :
    (call o : Program S ε (S.Reply o)).Obeys M Q X m ↔ M.ok m o ∧ ∀ r, Q r (M.next m o r) := .rfl

@[simp] theorem obeys_bind (p : Program S ε α) (f : α → Program S ε β) {Q : β → μ → Prop} :
    (p.bind f).Obeys M Q X m ↔ p.Obeys M (fun a m => (f a).Obeys M Q X m) X m := by
  induction p generalizing m with
  | ret a => rfl
  | raise e => rfl
  | request o k ih => exact and_congr_right fun _ => forall_congr' fun r => ih r

@[simp] theorem obeys_tryCatch (p : Program S ε α) (h : ε → Program S ε' α) {X : ε' → μ → Prop} :
    (p.tryCatch h).Obeys M Q X m ↔ p.Obeys M Q (fun e m => (h e).Obeys M Q X m) m := by
  induction p generalizing m with
  | ret a => rfl
  | raise e => rfl
  | request o k ih => exact and_congr_right fun _ => forall_congr' fun r => ih r

@[simp] theorem obeys_tryFinally (p : Program S ε α) (last : Program S ε Unit) :
    (p.tryFinally last).Obeys M Q X m ↔
      p.Obeys M (fun a m => last.Obeys M (fun _ m => Q a m) X m)
        (fun e m => last.Obeys M (fun _ m => X e m) X m) m := by
  induction p generalizing m with
  | ret a => simp only [tryFinally, obeys_bind, obeys_ret]
  | raise e => simp only [tryFinally, obeys_bind, obeys_raise]
  | request o k ih => exact and_congr_right fun _ => forall_congr' fun r => ih r

theorem Obeys.mono {Q' : α → μ → Prop} {X' : ε → μ → Prop} {p : Program S ε α}
    (h : p.Obeys M Q X m) (hQ : ∀ a m, Q a m → Q' a m) (hX : ∀ e m, X e m → X' e m) :
    p.Obeys M Q' X' m := by
  induction p generalizing m with
  | ret a => exact hQ a m h
  | raise e => exact hX e m h
  | request o k ih => exact ⟨h.1, fun r => ih r (h.2 r)⟩

section Sequencing

variable {R : β → μ → Prop} {Y : ε' → μ → Prop}

theorem Obeys.call_bind {o : S.Op} {f : S.Reply o → Program S ε α} (ok : M.ok m o)
    (rest : ∀ r, (f r).Obeys M Q X (M.next m o r)) : ((call o).bind f).Obeys M Q X m :=
  ⟨ok, rest⟩

/-- The rule of sequencing. -/
theorem Obeys.bind {p : Program S ε β} {f : β → Program S ε α} {Y : ε → μ → Prop}
    (hp : p.Obeys M R Y m) (hX : ∀ e m, Y e m → X e m)
    (hf : ∀ b m, R b m → (f b).Obeys M Q X m) : (p.bind f).Obeys M Q X m :=
  (obeys_bind p f).2 (hp.mono hf hX)

/-- The rule of exception handling. -/
theorem Obeys.tryCatch {p : Program S ε' β} {h : ε' → Program S ε β} {Q : β → μ → Prop}
    (hp : p.Obeys M R Y m) (hR : ∀ b m, R b m → Q b m)
    (hh : ∀ e m, Y e m → (h e).Obeys M Q X m) : (p.tryCatch h).Obeys M Q X m :=
  (obeys_tryCatch p h).2 (hp.mono hR hh)

end Sequencing

variable {K : S.Op → Prop}

@[simp] theorem uses_ret (a : α) : (ret a : Program S ε α).Uses K := trivial

@[simp] theorem uses_raise (e : ε) : (raise e : Program S ε α).Uses K := trivial

@[simp] theorem uses_request (o : S.Op) (k : S.Reply o → Program S ε α) :
    (request o k).Uses K ↔ K o ∧ ∀ r, (k r).Uses K := .rfl

@[simp] theorem uses_call (o : S.Op) : (call o : Program S ε (S.Reply o)).Uses K ↔ K o :=
  and_iff_left fun _ => trivial

theorem Uses.bind {p : Program S ε α} {f : α → Program S ε β} (hp : p.Uses K)
    (hf : ∀ a, (f a).Uses K) : (p.bind f).Uses K := by
  induction p with
  | ret a => exact hf a
  | raise e => trivial
  | request o k ih => exact ⟨hp.1, fun r => ih r (hp.2 r)⟩

theorem Uses.tryCatch {p : Program S ε α} {h : ε → Program S ε' α} (hp : p.Uses K)
    (hh : ∀ e, (h e).Uses K) : (p.tryCatch h).Uses K := by
  induction p with
  | ret a => trivial
  | raise e => exact hh e
  | request o k ih => exact ⟨hp.1, fun r => ih r (hp.2 r)⟩

theorem Uses.tryFinally {p : Program S ε α} {last : Program S ε Unit} (hp : p.Uses K)
    (hl : last.Uses K) : (p.tryFinally last).Uses K := by
  induction p with
  | ret a => exact hl.bind fun _ => trivial
  | raise e => exact hl.bind fun _ => trivial
  | request o k ih => exact ⟨hp.1, fun r => ih r (hp.2 r)⟩

theorem Uses.mono {K' : S.Op → Prop} {p : Program S ε α} (h : p.Uses K)
    (hK : ∀ o, K o → K' o) : p.Uses K' := by
  induction p with
  | ret a => trivial
  | raise e => trivial
  | request o k ih => exact ⟨hK o h.1, fun r => ih r (h.2 r)⟩

theorem Uses.and {K' : S.Op → Prop} {p : Program S ε α} (h : p.Uses K) (h' : p.Uses K') :
    p.Uses fun o => K o ∧ K' o := by
  induction p with
  | ret a => trivial
  | raise e => trivial
  | request o k ih => exact ⟨⟨h.1, h'.1⟩, fun r => ih r (h.2 r) (h'.2 r)⟩

theorem embed_uses (name : T.Op → S.Op) (reply : ∀ o, S.Reply (name o) → T.Reply o)
    (hK : ∀ o, K (name o)) (p : Program T ε α) : (p.embed name reply).Uses K := by
  induction p with
  | ret a => trivial
  | raise e => trivial
  | request o k ih => exact ⟨hK o, fun r => ih _⟩

/-- The program may come to make the request. -/
inductive Requests : Program S ε α → S.Op → Prop
  | now (o : S.Op) (k : S.Reply o → Program S ε α) : Requests (request o k) o
  | later {o o' : S.Op} {k : S.Reply o → Program S ε α} (r : S.Reply o) :
      (k r).Requests o' → Requests (request o k) o'

theorem uses_requests (p : Program S ε α) : p.Uses p.Requests := by
  induction p with
  | ret a => trivial
  | raise e => trivial
  | request o k ih => exact ⟨.now o k, fun r => (ih r).mono fun _ => .later r⟩

theorem Uses.of_requests {p : Program S ε α} (h : p.Uses K) {o : S.Op} (ho : p.Requests o) : K o := by
  induction ho with
  | now o k => exact h.1
  | later r _ ih => exact ih (h.2 r)

/-- Run in a larger signature, a program makes its own requests under their names. -/
theorem embed_requests (name : T.Op → S.Op) (reply : ∀ o, S.Reply (name o) → T.Reply o)
    (p : Program T ε α) : (p.embed name reply).Uses fun o' => ∃ o, o' = name o ∧ p.Requests o := by
  induction p with
  | ret a => trivial
  | raise e => trivial
  | request o k ih =>
    exact ⟨⟨o, rfl, .now o k⟩, fun r => (ih _).mono fun _ ⟨o', he, ho⟩ => ⟨o', he, .later _ ho⟩⟩

/-- A program confined to requests that are allowed under `I` and preserve it keeps `I`. -/
theorem Uses.keeps {p : Program S ε α} (h : p.Uses K) {I : μ → Prop}
    (hok : ∀ m o, K o → I m → M.ok m o) (hnext : ∀ m o r, K o → I m → I (M.next m o r))
    (hm : I m) : p.Obeys M (fun _ m => I m) (fun _ m => I m) m := by
  induction p generalizing m with
  | ret a => exact hm
  | raise e => exact hm
  | request o k ih => exact ⟨hok m o h.1 hm, fun r => ih r (h.2 r) (hnext m o r h.1 hm)⟩

theorem Obeys.under {H : Prop} {p : Program S ε α} (h : H → p.Obeys M Q X m) :
    p.Obeys (M.under H) (fun a m => H → Q a m) (fun e m => H → X e m) m := by
  induction p generalizing m with
  | ret a => exact h
  | raise e => exact h
  | request o k ih => exact ⟨fun hH => (h hH).1, fun r => ih r fun hH => (h hH).2 r⟩

section Traces

variable {σ : Type} (exec : (o : S.Op) → σ → S.Reply o × σ)

/-- The traces of a program on a machine whose state others may change between its requests:
each request with the state it was answered in, and how the program ends. -/
inductive Trace : Program S ε α → List (S.Op × σ) → Except ε α → Prop
  | ret (a : α) : Trace (ret a) [] (.ok a)
  | raise (e : ε) : Trace (raise e) [] (.error e)
  | request {o : S.Op} {k : S.Reply o → Program S ε α} {steps : List (S.Op × σ)}
      {ending : Except ε α} (s : σ) : Trace (k (exec o s).1) steps ending →
      Trace (request o k) ((o, s) :: steps) ending

/-- The requests of a program that finds the machine in the same state throughout, and its end. -/
def solo (s : σ) : Program S ε α → List (S.Op × σ) × Except ε α
  | ret a => ([], .ok a)
  | raise e => ([], .error e)
  | request o k =>
    let rest := (k (exec o s).1).solo s
    ((o, s) :: rest.1, rest.2)

theorem solo_trace (s : σ) (p : Program S ε α) : Trace exec p (p.solo exec s).1 (p.solo exec s).2 := by
  induction p with
  | ret a => exact .ret a
  | raise e => exact .raise e
  | request o k ih => exact .request s (ih _)

theorem solo_states (s : σ) (p : Program S ε α) : ∀ step ∈ (p.solo exec s).1, step.2 = s := by
  induction p with
  | ret | raise => exact List.forall_mem_nil _
  | request o k ih => exact List.forall_mem_cons.2 ⟨rfl, ih _⟩

/-- The postcondition `Q` of a value returned, `X` of an exception raised. -/
def Post (Q : α → μ → Prop) (X : ε → μ → Prop) : Except ε α → μ → Prop
  | .ok a => Q a
  | .error e => X e

/-- However an obedient program ends, its postcondition holds. -/
theorem Obeys.trace {exec : (o : S.Op) → σ → S.Reply o × σ} {p : Program S ε α}
    {steps : List (S.Op × σ)} {ending : Except ε α} (h : p.Obeys M Q X m)
    (he : Trace exec p steps ending) : Post Q X ending (M.along exec m steps) := by
  induction he generalizing m with
  | ret a => exact h
  | raise e => exact h
  | request s _ ih => exact ih (h.2 _)

/-- Every request of an obedient program was allowed when it was made. -/
theorem Obeys.trace_ok {exec : (o : S.Op) → σ → S.Reply o × σ} {p : Program S ε α}
    {steps : List (S.Op × σ)} {ending : Except ε α} (h : p.Obeys M Q X m)
    (he : Trace exec p steps ending) {step : S.Op × σ} (hs : step ∈ steps) : ∃ m, M.ok m step.1 := by
  induction he generalizing m with
  | ret a => cases hs
  | raise e => cases hs
  | request s _ ih =>
    rcases List.mem_cons.1 hs with rfl | hs
    · exact ⟨m, h.1⟩
    · exact ih (h.2 _) hs

end Traces

/-- Every request lies in `K` and every value returned satisfies `P`. -/
def Yields (K : S.Op → Prop) (P : α → Prop) : Program S ε α → Prop
  | ret a => P a
  | raise _ => True
  | request o k => K o ∧ ∀ r, (k r).Yields K P

@[simp] theorem yields_ret {P : α → Prop} (a : α) : (ret a : Program S ε α).Yields K P ↔ P a := .rfl

@[simp] theorem yields_raise {P : α → Prop} (e : ε) : (raise e : Program S ε α).Yields K P := trivial

@[simp] theorem yields_call {o : S.Op} {P : S.Reply o → Prop} :
    (call o : Program S ε (S.Reply o)).Yields K P ↔ K o ∧ ∀ r, P r := .rfl

theorem Yields.mono {P P' : α → Prop} {K' : S.Op → Prop} {p : Program S ε α} (h : p.Yields K P)
    (hK : ∀ o, K o → K' o) (hP : ∀ a, P a → P' a) : p.Yields K' P' := by
  induction p with
  | ret a => exact hP a h
  | raise e => trivial
  | request o k ih => exact ⟨hK o h.1, fun r => ih r (h.2 r)⟩

theorem Yields.uses {P : α → Prop} {p : Program S ε α} {f : α → Program S ε β}
    (h : p.Yields K P) (hf : ∀ a, P a → (f a).Uses K) : (p.bind f).Uses K := by
  induction p with
  | ret a => exact hf a h
  | raise e => trivial
  | request o k ih => exact ⟨h.1, fun r => ih r (h.2 r)⟩

theorem Yields.bind {P : α → Prop} {P' : β → Prop} {p : Program S ε α} {f : α → Program S ε β}
    (hp : p.Yields K P) (hf : ∀ a, P a → (f a).Yields K P') : (p.bind f).Yields K P' := by
  induction p with
  | ret a => exact hf a hp
  | raise e => trivial
  | request o k ih => exact ⟨hp.1, fun r => ih r (hp.2 r)⟩

theorem yields_any (p : Program S ε α) : p.Yields (fun _ => True) fun _ => True := by
  induction p with
  | ret a => trivial
  | raise e => trivial
  | request o k ih => exact ⟨trivial, ih⟩

/-- What runs at the end does not change what is returned. -/
theorem Yields.tryFinally {P : α → Prop} {p : Program S ε α} (h : p.Yields (fun _ => True) P)
    (last : Program S ε Unit) : (p.tryFinally last).Yields (fun _ => True) P := by
  induction p with
  | ret a => exact (yields_any last).bind fun _ _ => h
  | raise e => exact (yields_any last).bind fun _ _ => trivial
  | request o k ih => exact ⟨trivial, fun r => ih r (h.2 r)⟩

theorem Uses.yields {P : α → Prop} {p : Program S ε α} (h : p.Uses K) (hp : p.Yields (fun _ => True) P) :
    p.Yields K P := by
  induction p with
  | ret a => exact hp
  | raise e => trivial
  | request o k ih => exact ⟨h.1, fun r => ih r (h.2 r) (hp.2 r)⟩

/-- A postcondition that does not depend on the monitor. -/
theorem Obeys.yields {P : α → Prop} {p : Program S ε α} (h : p.Obeys M Q X m) (hQ : ∀ a m, Q a m → P a) :
    p.Yields (fun _ => True) P := by
  induction p generalizing m with
  | ret a => exact hQ a m h
  | raise e => trivial
  | request o k ih => exact ⟨trivial, fun r => ih r (h.2 r)⟩

/-- The value returned by a program confined to requests that keep `I` is one of those it yields. -/
theorem Yields.keeps {P : α → Prop} {p : Program S ε α} (h : p.Yields K P) {I : μ → Prop}
    (hok : ∀ m o, K o → I m → M.ok m o) (hnext : ∀ m o r, K o → I m → I (M.next m o r))
    (hm : I m) : p.Obeys M (fun a m => P a ∧ I m) (fun _ m => I m) m := by
  induction p generalizing m with
  | ret a => exact ⟨h, hm⟩
  | raise e => exact hm
  | request o k ih => exact ⟨hok m o h.1 hm, fun r => ih r (h.2 r) (hnext m o r h.1 hm)⟩

/-- Programs put together from the atoms `A` by sequencing and exception handling. -/
inductive Composed (A : ∀ {ε α : Type}, Program S ε α → Prop) :
    ∀ {ε α : Type}, Program S ε α → Prop
  | atom {δ γ : Type} {p : Program S δ γ} : A p → Composed A p
  | ret {δ γ : Type} (a : γ) : Composed A (ret a : Program S δ γ)
  | raise {δ γ : Type} (e : δ) : Composed A (raise e : Program S δ γ)
  | bind {δ γ γ' : Type} {p : Program S δ γ} {f : γ → Program S δ γ'} :
      Composed A p → (∀ a, Composed A (f a)) → Composed A (p.bind f)
  | tryCatch {δ δ' γ : Type} {p : Program S δ γ} {h : δ → Program S δ' γ} :
      Composed A p → (∀ e, Composed A (h e)) → Composed A (p.tryCatch h)
  | tryFinally {δ γ : Type} {p : Program S δ γ} {last : Program S δ Unit} :
      Composed A p → Composed A last → Composed A (p.tryFinally last)

variable {A A' : ∀ {ε α : Type}, Program S ε α → Prop}

/-- What every atom preserves, every program composed of atoms preserves. -/
theorem Composed.keeps {I : μ → Prop} {p : Program S ε α} (h : Composed A p)
    (atoms : ∀ {ε α : Type} {p : Program S ε α}, A p → ∀ {m}, I m →
      p.Obeys M (fun _ m => I m) (fun _ m => I m) m)
    (hm : I m) : p.Obeys M (fun _ m => I m) (fun _ m => I m) m := by
  induction h generalizing m with
  | atom ha => exact atoms ha hm
  | ret a => exact hm
  | raise e => exact hm
  | bind _ _ ihp ihf => exact (obeys_bind _ _).2 ((ihp hm).mono (fun a _ h => ihf a h) fun _ _ h => h)
  | tryCatch _ _ ihp ihh =>
    exact (obeys_tryCatch _ _).2 ((ihp hm).mono (fun _ _ h => h) fun e _ h => ihh e h)
  | tryFinally _ _ ihp ihl =>
    exact (obeys_tryFinally _ _).2 ((ihp hm).mono (fun _ _ h => ihl h) fun _ _ h => ihl h)

theorem Composed.uses {p : Program S ε α} (h : Composed A p)
    (atoms : ∀ {ε α : Type} {p : Program S ε α}, A p → p.Uses K) : p.Uses K := by
  induction h with
  | atom ha => exact atoms ha
  | ret a => trivial
  | raise e => trivial
  | bind _ _ ihp ihf => exact ihp.bind ihf
  | tryCatch _ _ ihp ihh => exact ihp.tryCatch ihh
  | tryFinally _ _ ihp ihl => exact ihp.tryFinally ihl

/-- Atoms may be taken apart in turn. -/
theorem Composed.expand {p : Program S ε α} (h : Composed A p)
    (hA : ∀ {ε α : Type} {p : Program S ε α}, A p → Composed A' p) : Composed A' p := by
  induction h with
  | atom ha => exact hA ha
  | ret a => exact .ret a
  | raise e => exact .raise e
  | bind _ _ ihp ihf => exact .bind ihp ihf
  | tryCatch _ _ ihp ihh => exact .tryCatch ihp ihh
  | tryFinally _ _ ihp ihl => exact .tryFinally ihp ihl

theorem Composed.mono {p : Program S ε α} (h : Composed A p)
    (hA : ∀ {ε α : Type} {p : Program S ε α}, A p → A' p) : Composed A' p :=
  h.expand fun ha => .atom (hA ha)

end Program
end SafeOps.Concurrent
