import SafeOps.Concurrent.Monitor
import Mathlib.Data.List.Basic

/-! Any number of programs sharing one machine, interleaved at every request.
Runs may be confined to steps with a given property. -/

namespace SafeOps.Concurrent

/-- Calls `κ` run as programs over a machine with states `σ`; `η` are the changes that may
reach the machine from outside. -/
structure System (S : Signature) (ε α σ κ η : Type) where
  exec : (o : S.Op) → σ → S.Reply o × σ
  code : κ → Program S ε α
  disturb : η → σ → σ

/-- One call in flight (or finished), with what remains of its program. -/
structure Thread (S : Signature) (ε α κ : Type) where
  call : κ
  program : Program S ε α

/-- One answered request, as the log of a run records it. -/
structure Entry (S : Signature) where
  thread : Nat
  op : S.Op
  reply : S.Reply op

/-- A configuration of the pool. The history lists the answered requests, newest first. -/
structure Config (S : Signature) (ε α σ κ : Type) where
  state : σ
  threads : List (Thread S ε α κ)
  history : List (Entry S)

inductive Move (κ η : Type)
  | spawn (call : κ)
  | run (thread : Nat)
  | disturb (change : η)

variable {S : Signature} {ε α σ κ η μ : Type}

/-- The call that a move brings in. -/
def Move.spawned : Move κ η → Option κ
  | .spawn call => some call
  | _ => none

namespace Config

def start (s : σ) : Config S ε α σ κ := ⟨s, [], []⟩

def spawn (sys : System S ε α σ κ η) (c : Config S ε α σ κ) (call : κ) : Config S ε α σ κ :=
  { c with threads := c.threads ++ [⟨call, sys.code call⟩] }

def disturb (sys : System S ε α σ κ η) (c : Config S ε α σ κ) (change : η) : Config S ε α σ κ :=
  { c with state := sys.disturb change c.state }

/-- The log entry that answering `o` for thread `i` adds. -/
def entry (sys : System S ε α σ κ η) (c : Config S ε α σ κ) (i : Nat) (o : S.Op) : Entry S :=
  ⟨i, o, (sys.exec o c.state).1⟩

/-- Thread `i`, running `call` and waiting on `o`, receives the machine's answer. -/
def answer (sys : System S ε α σ κ η) (c : Config S ε α σ κ) (i : Nat) (call : κ) (o : S.Op)
    (k : S.Reply o → Program S ε α) : Config S ε α σ κ where
  state := (sys.exec o c.state).2
  threads := c.threads.set i ⟨call, k (sys.exec o c.state).1⟩
  history := c.entry sys i o :: c.history

def move (sys : System S ε α σ κ η) (c : Config S ε α σ κ) : Move κ η → Config S ε α σ κ
  | .spawn call => c.spawn sys call
  | .disturb change => c.disturb sys change
  | .run i =>
    match c.threads[i]? with
    | some ⟨call, .request o k⟩ => c.answer sys i call o k
    | _ => c

/-- The request a move answers, if it answers one. -/
def answered (sys : System S ε α σ κ η) (c : Config S ε α σ κ) : Move κ η → Option (Entry S)
  | .run i =>
    match c.threads[i]? with
    | some ⟨_, .request o _⟩ => some (c.entry sys i o)
    | _ => none
  | _ => none

def replay (sys : System S ε α σ κ η) (c : Config S ε α σ κ) (moves : List (Move κ η)) :
    Config S ε α σ κ :=
  moves.foldl (move sys) c

/-- Call `call`, run as thread `i`, has returned `a`. -/
def Returned (c : Config S ε α σ κ) (i : Nat) (call : κ) (a : α) : Prop :=
  c.threads[i]? = some ⟨call, .ret a⟩

/-- No call is in flight. -/
def Quiescent (c : Config S ε α σ κ) : Prop :=
  ∀ t ∈ c.threads, ∀ o k, t.program ≠ .request o k

instance (c : Config S ε α σ κ) : Decidable c.Quiescent :=
  decidable_of_iff (∀ t ∈ c.threads, t.program.waiting = false) <|
    forall₂_congr fun t _ => t.program.waiting_eq_false

end Config

open Config

/-- Runs from `c` in which every answered request satisfies `ok` in the configuration it is
answered in. -/
inductive Steps (sys : System S ε α σ κ η) (ok : Config S ε α σ κ → Entry S → Prop)
    (c : Config S ε α σ κ) : Config S ε α σ κ → Prop
  | refl : Steps sys ok c c
  | spawn {d} (h : Steps sys ok c d) (call : κ) : Steps sys ok c (d.spawn sys call)
  | disturb {d} (h : Steps sys ok c d) (change : η) : Steps sys ok c (d.disturb sys change)
  | answer {d} (h : Steps sys ok c d) (i call o k)
      (waiting : d.threads[i]? = some ⟨call, .request o k⟩) (allowed : ok d (d.entry sys i o)) :
      Steps sys ok c (d.answer sys i call o k)

/-- Runs without any condition on their steps. -/
abbrev Run (sys : System S ε α σ κ η) := Steps sys fun _ _ => True

variable {sys : System S ε α σ κ η} {ok ok' : Config S ε α σ κ → Entry S → Prop}
  {c d : Config S ε α σ κ}

theorem Steps.mono (h : Steps sys ok c d) (hok : ∀ c e, ok c e → ok' c e) :
    Steps sys ok' c d := by
  induction h with
  | refl => exact .refl
  | spawn _ call ih => exact .spawn ih call
  | disturb _ change ih => exact .disturb ih change
  | answer _ i call o k hw ha ih => exact .answer ih i call o k hw (hok _ _ ha)

theorem Steps.run (h : Steps sys ok c d) : Run sys c d := h.mono fun _ _ _ => trivial

theorem Steps.trans {b : Config S ε α σ κ} (hb : Steps sys ok b c) (h : Steps sys ok c d) :
    Steps sys ok b d := by
  induction h with
  | refl => exact hb
  | spawn _ call ih => exact .spawn ih call
  | disturb _ change ih => exact .disturb ih change
  | answer _ i call o k hw ha ih => exact .answer ih i call o k hw ha

theorem Steps.move (h : Steps sys ok c d) (m : Move κ η)
    (allowed : ∀ e ∈ d.answered sys m, ok d e) : Steps sys ok c (d.move sys m) := by
  cases m with
  | spawn call => exact .spawn h call
  | disturb change => exact .disturb h change
  | run i =>
    simp only [Config.move]
    split
    · rename_i call o k hw
      exact .answer h i call o k hw (allowed _ (by simp [Config.answered, hw]))
    · exact h

theorem run_replay (moves : List (Move κ η)) (h : Run sys c d) : Run sys c (d.replay sys moves) := by
  induction moves generalizing d with
  | nil => exact h
  | cons m ms ih => exact ih (h.move m fun _ _ => trivial)

/-- A schedule leaves no other calls in the pool than those it has brought in. -/
theorem replay_calls (c : Config S ε α σ κ) (moves : List (Move κ η)) :
    (c.replay sys moves).threads.map (·.call) = c.threads.map (·.call) ++ moves.filterMap Move.spawned := by
  induction moves generalizing c with
  | nil => simp [Config.replay]
  | cons m moves ih =>
    change ((c.move sys m).replay sys moves).threads.map (·.call) = _
    rw [ih]
    cases m with
    | spawn call => simp [Config.move, Config.spawn, Move.spawned]
    | disturb change => rfl
    | run i =>
      simp only [Config.move]
      split
      · rename_i call o k hw
        have same : (c.answer sys i call o k).threads.map (·.call) = c.threads.map (·.call) := by
          refine List.ext_getElem? fun j => ?_
          by_cases hij : i = j
          · subst hij
            obtain ⟨hi, ht⟩ := List.getElem?_eq_some_iff.1 hw
            simp [Config.answer, hi, ht]
          · simp [Config.answer, List.getElem?_set_ne hij]
        rw [same]
        rfl
      · rfl

/-- The requests a schedule answers all satisfy `ok`. -/
def Allowed (sys : System S ε α σ κ η) (ok : Config S ε α σ κ → Entry S → Prop)
    (c : Config S ε α σ κ) : List (Move κ η) → Prop
  | [] => True
  | m :: moves => (∀ e ∈ c.answered sys m, ok c e) ∧ Allowed sys ok (c.move sys m) moves

instance Allowed.decidable [∀ c e, Decidable (ok c e)] :
    ∀ (c : Config S ε α σ κ) (moves : List (Move κ η)), Decidable (Allowed sys ok c moves)
  | _, [] => .isTrue trivial
  | c, m :: moves =>
    have : Decidable (Allowed sys ok (c.move sys m) moves) := decidable _ _
    inferInstanceAs (Decidable (_ ∧ _))

theorem Allowed.steps (hd : Steps sys ok c d) {moves : List (Move κ η)} (h : Allowed sys ok d moves) :
    Steps sys ok c (d.replay sys moves) := by
  induction moves generalizing d with
  | nil => exact hd
  | cons m moves ih => exact ih (hd.move m h.1) h.2

/-- The invariant rule: what every kind of step preserves holds after every run. -/
theorem Steps.invariant {I : Config S ε α σ κ → Prop} (h : Steps sys ok c d) (start : I c)
    (spawn : ∀ d call, I d → I (d.spawn sys call))
    (disturb : ∀ d change, I d → I (d.disturb sys change))
    (answer : ∀ d i call o k, Steps sys ok c d → d.threads[i]? = some ⟨call, .request o k⟩ →
      ok d (d.entry sys i o) → I d → I (d.answer sys i call o k)) : I d := by
  induction h with
  | refl => exact start
  | spawn _ call ih => exact spawn _ call ih
  | disturb _ change ih => exact disturb _ change ih
  | answer h i call o k hw ha ih => exact answer _ i call o k h hw ha ih

/-- Every answered request was answered in a configuration on the way, its thread then waiting for it. -/
theorem Steps.answered {s : σ} (h : Steps sys ok (Config.start s) d) : ∀ e ∈ d.history,
    ∃ b t k, Steps sys ok (Config.start s) b ∧ Steps sys ok b d ∧ d.threads[e.thread]? = some t ∧
      b.threads[e.thread]? = some ⟨t.call, .request e.op k⟩ ∧ e.reply = (sys.exec e.op b.state).1 := by
  induction h with
  | refl => simp [Config.start]
  | @spawn d h call ih =>
    intro e he
    obtain ⟨b, t, k, hb, hbd, ht, hw, hr⟩ := ih e he
    refine ⟨b, t, k, hb, .spawn hbd call, ?_, hw, hr⟩
    simp only [Config.spawn]
    rw [List.getElem?_append_left (List.getElem?_eq_some_iff.1 ht).1, ht]
  | disturb h change ih =>
    intro e he
    obtain ⟨b, t, k, hb, hbd, ht, hw, hr⟩ := ih e he
    exact ⟨b, t, k, hb, .disturb hbd change, ht, hw, hr⟩
  | @answer d h i call o k hw ha ih =>
    intro e he
    have hi := (List.getElem?_eq_some_iff.1 hw).1
    rcases List.mem_cons.1 he with rfl | he
    · exact ⟨d, ⟨call, k (sys.exec o d.state).1⟩, k, h, .answer .refl i call o k hw ha,
        by simp [Config.answer, Config.entry, hi], hw, rfl⟩
    · obtain ⟨b, t, k', hb, hbd, ht, hw', hr⟩ := ih e he
      by_cases hei : i = e.thread
      · obtain rfl := Option.some.inj (ht.symm.trans (hei ▸ hw))
        exact ⟨b, ⟨call, k (sys.exec o d.state).1⟩, k', hb, .answer hbd i call o k hw ha,
          by simp [Config.answer, ← hei, hi], hw', hr⟩
      · exact ⟨b, t, k', hb, .answer hbd i call o k hw ha,
          by simpa [Config.answer, List.getElem?_set_ne hei] using ht, hw', hr⟩

/-- A run can be taken back to any point of its history. -/
theorem Steps.rewind {s : σ} (h : Steps sys ok (Config.start s) d) {recent older : List (Entry S)}
    (hist : d.history = recent ++ older) :
    ∃ b, Steps sys ok (Config.start s) b ∧ Steps sys ok b d ∧ b.history = older := by
  induction h generalizing recent with
  | refl =>
    obtain rfl := (List.append_eq_nil_iff.1 hist.symm).2
    exact ⟨_, .refl, .refl, rfl⟩
  | spawn h call ih =>
    obtain ⟨b, hb, hbd, rfl⟩ := ih hist
    exact ⟨b, hb, .spawn hbd call, rfl⟩
  | disturb h change ih =>
    obtain ⟨b, hb, hbd, rfl⟩ := ih hist
    exact ⟨b, hb, .disturb hbd change, rfl⟩
  | answer h i call o k hw ha ih =>
    cases recent with
    | nil => exact ⟨_, .answer h i call o k hw ha, .refl, hist⟩
    | cons e recent =>
      obtain ⟨b, hb, hbd, rfl⟩ := ih (List.cons.inj hist).2
      exact ⟨b, hb, .answer hbd i call o k hw ha, rfl⟩

section Confined

variable {K : κ → S.Op → Prop} (hcode : ∀ call, (sys.code call).Uses (K call))
include hcode

/-- What no program may request, no thread is waiting for. -/
theorem Steps.confined (h : Steps sys ok c d) (hc : ∀ t ∈ c.threads, t.program.Uses (K t.call)) :
    ∀ t ∈ d.threads, t.program.Uses (K t.call) := by
  refine h.invariant (I := fun d => ∀ t ∈ d.threads, t.program.Uses (K t.call)) hc ?_
    (fun _ _ h => h) ?_
  · intro d call hd t ht
    rcases List.mem_append.1 ht with ht | ht
    · exact hd t ht
    · rw [List.mem_singleton] at ht
      exact ht ▸ hcode call
  · intro d i call o k _ hw _ hd t ht
    rcases List.mem_or_eq_of_mem_set ht with ht | rfl
    · exact hd t ht
    · exact (hd _ (List.mem_of_getElem? hw)).2 _

/-- Every answered request is one that the call of its thread may issue. -/
theorem Steps.attributed (h : Steps sys ok c d) (hc : ∀ t ∈ c.threads, t.program.Uses (K t.call))
    (hist : ∀ e ∈ c.history, ∃ t, c.threads[e.thread]? = some t ∧ K t.call e.op) :
    ∀ e ∈ d.history, ∃ t, d.threads[e.thread]? = some t ∧ K t.call e.op := by
  refine h.invariant
    (I := fun d => ∀ e ∈ d.history, ∃ t, d.threads[e.thread]? = some t ∧ K t.call e.op) hist ?_
    (fun _ _ h => h) ?_
  · intro d call hd e he
    obtain ⟨t, ht, hK⟩ := hd e he
    refine ⟨t, ?_, hK⟩
    simp only [Config.spawn]
    rw [List.getElem?_append_left (List.getElem?_eq_some_iff.1 ht).1, ht]
  · intro d i call o k hd hw _ hI e he
    have hi := (List.getElem?_eq_some_iff.1 hw).1
    rcases List.mem_cons.1 he with rfl | he
    · exact ⟨⟨call, k (sys.exec o d.state).1⟩, by simp [Config.answer, Config.entry, hi],
        (hd.confined hcode hc _ (List.mem_of_getElem? hw)).1⟩
    · obtain ⟨t, ht, hK⟩ := hI e he
      by_cases hei : i = e.thread
      · obtain rfl := Option.some.inj (ht.symm.trans (hei ▸ hw))
        exact ⟨⟨call, k (sys.exec o d.state).1⟩, by simp [Config.answer, ← hei, hi], hK⟩
      · exact ⟨t, by simpa [Config.answer, List.getElem?_set_ne hei] using ht, hK⟩

end Confined

/-- The state of a monitor that has followed thread `i` through a history. -/
def Monitor.after (M : Monitor S μ) (m : μ) (i : Nat) : List (Entry S) → μ
  | [] => m
  | e :: older => if e.thread = i then M.next (M.after m i older) e.op e.reply else M.after m i older

@[simp] theorem Monitor.after_nil (M : Monitor S μ) (m : μ) (i : Nat) : M.after m i [] = m := rfl

@[simp] theorem Monitor.after_self (M : Monitor S μ) (m : μ) (e : Entry S) (h : List (Entry S)) :
    M.after m e.thread (e :: h) = M.next (M.after m e.thread h) e.op e.reply :=
  if_pos rfl

theorem Monitor.after_other {M : Monitor S μ} {m : μ} {e : Entry S} {i : Nat} {h : List (Entry S)}
    (hi : e.thread ≠ i) : M.after m i (e :: h) = M.after m i h :=
  if_neg hi

theorem Monitor.after_unseen {M : Monitor S μ} {m : μ} {i : Nat} {h : List (Entry S)}
    (hi : ∀ e ∈ h, e.thread ≠ i) : M.after m i h = m := by
  induction h with
  | nil => rfl
  | cons e h ih =>
    rw [M.after_other (hi e (by simp))]
    exact ih fun e he => hi e (by simp [he])

theorem Monitor.after_append {M : Monitor S μ} {m : μ} {i : Nat} {later h : List (Entry S)}
    (hi : ∀ e ∈ later, e.thread ≠ i) : M.after m i (later ++ h) = M.after m i h := by
  induction later with
  | nil => rfl
  | cons e later ih =>
    rw [List.cons_append, M.after_other (hi e (by simp))]
    exact ih fun e he => hi e (by simp [he])

/-- What a monitor has recorded, some entry has shown it. -/
theorem Monitor.after_recorded {β : Type} {M : Monitor S μ} {m : μ} {i : Nat} {h : List (Entry S)}
    {f : μ → Option β} {g : Entry S → Option β}
    (next : ∀ m (e : Entry S), f (M.next m e.op e.reply) = f m ∨
      f (M.next m e.op e.reply) = g e)
    (start : f m = none) {b : β} (hb : f (M.after m i h) = some b) :
    ∃ e ∈ h, e.thread = i ∧ g e = some b := by
  induction h with
  | nil => cases start.symm.trans hb
  | cons e h ih =>
    by_cases hi : e.thread = i
    · subst hi
      rw [Monitor.after_self] at hb
      rcases next (M.after m e.thread h) e with heq | heq
      · obtain ⟨e', he', hi', hshown⟩ := ih (heq ▸ hb)
        exact ⟨e', List.mem_cons_of_mem _ he', hi', hshown⟩
      · exact ⟨e, List.mem_cons_self, rfl, heq ▸ hb⟩
    · rw [Monitor.after_other hi] at hb
      obtain ⟨e', he', hi', hshown⟩ := ih hb
      exact ⟨e', List.mem_cons_of_mem _ he', hi', hshown⟩

/-- What a monitor that starts in `m` has seen of thread `i`. -/
def Config.past (c : Config S ε α σ κ) (M : Monitor S μ) (m : μ) (i : Nat) : μ :=
  M.after m i c.history

@[simp] theorem Config.past_start (s : σ) (M : Monitor S μ) (m : μ) (i : Nat) :
    (Config.start s : Config S ε α σ κ).past M m i = m := rfl

@[simp] theorem Config.past_spawn (call : κ) (M : Monitor S μ) (m : μ) (i : Nat) :
    (c.spawn sys call).past M m i = c.past M m i := rfl

@[simp] theorem Config.past_disturb (change : η) (M : Monitor S μ) (m : μ) (i : Nat) :
    (c.disturb sys change).past M m i = c.past M m i := rfl

@[simp] theorem Config.past_under (c : Config S ε α σ κ) (M : Monitor S μ) (H : Prop) (m : μ) (i : Nat) :
    c.past (M.under H) m i = c.past M m i := by
  unfold Config.past
  induction c.history with
  | nil => rfl
  | cons e older ih =>
    simp only [Monitor.after, ih]
    rfl

@[simp] theorem Config.past_answer (i : Nat) (call : κ) (o : S.Op) (k : S.Reply o → Program S ε α)
    (M : Monitor S μ) (m : μ) (j : Nat) : (c.answer sys i call o k).past M m j =
      if i = j then M.next (c.past M m j) o (sys.exec o c.state).1 else c.past M m j := rfl

/-- Every entry of the history belongs to a spawned thread. -/
def Config.Numbered (c : Config S ε α σ κ) : Prop := ∀ e ∈ c.history, e.thread < c.threads.length

section MonitoredBy

variable (M : κ → Monitor S μ) (m : κ → μ) (Q : κ → α → μ → Prop) (X : κ → ε → μ → Prop)

/-- Every thread's remaining program obeys the monitor of its call from where its past has taken it. -/
def Config.MonitoredBy (c : Config S ε α σ κ) : Prop :=
  c.Numbered ∧ ∀ i (t : Thread S ε α κ), c.threads[i]? = some t →
    t.program.Obeys (M t.call) (Q t.call) (X t.call) (c.past (M t.call) (m t.call) i)

variable {M m Q X}

theorem Config.monitoredBy_start (s : σ) : (Config.start s : Config S ε α σ κ).MonitoredBy M m Q X :=
  ⟨by simp [Config.Numbered, Config.start], by simp [Config.start]⟩

theorem Config.MonitoredBy.spawn (hc : c.MonitoredBy M m Q X) (call : κ)
    (hcode : (sys.code call).Obeys (M call) (Q call) (X call) (m call)) :
    (c.spawn sys call).MonitoredBy M m Q X := by
  refine ⟨fun e he => ?_, fun i t ht => ?_⟩
  · simp only [Config.spawn, List.length_append, List.length_singleton]
    exact Nat.lt_succ_of_lt (hc.1 e he)
  · simp only [Config.spawn, List.getElem?_append] at ht
    split at ht
    · exact hc.2 i t ht
    · rename_i hi
      obtain ⟨hz, rfl⟩ : i = c.threads.length ∧ t = ⟨call, sys.code call⟩ := by
        rw [List.getElem?_singleton] at ht
        split at ht
        · exact ⟨by omega, (Option.some.inj ht).symm⟩
        · cases ht
      have unseen : c.past (M call) (m call) i = m call :=
        Monitor.after_unseen fun e he => by have := hc.1 e he; omega
      change (sys.code call).Obeys (M call) (Q call) (X call) (c.past (M call) (m call) i)
      rwa [unseen]

theorem Config.MonitoredBy.answer (hc : c.MonitoredBy M m Q X) {i call o k}
    (hw : c.threads[i]? = some ⟨call, .request o k⟩) :
    (c.answer sys i call o k).MonitoredBy M m Q X := by
  have hi := (List.getElem?_eq_some_iff.1 hw).1
  refine ⟨fun e he => ?_, fun j t ht => ?_⟩
  · simp only [Config.answer, List.length_set]
    rcases List.mem_cons.1 he with rfl | he
    · exact hi
    · exact hc.1 e he
  · simp only [Config.answer, List.getElem?_set] at ht
    rw [Config.past_answer]
    split at ht
    · rename_i hij
      subst hij
      obtain rfl : t = ⟨call, k (sys.exec o c.state).1⟩ := by simpa [hi] using ht.symm
      rw [if_pos rfl]
      exact (hc.2 i _ hw).2 (sys.exec o c.state).1
    · rename_i hij
      rw [if_neg hij]
      exact hc.2 j t ht

/-- Programs that obey the monitors of their calls on their own obey them in every interleaving. -/
theorem Steps.monitoredBy (h : Steps sys ok c d) (hc : c.MonitoredBy M m Q X)
    (hcode : ∀ call, (sys.code call).Obeys (M call) (Q call) (X call) (m call)) :
    d.MonitoredBy M m Q X := by
  refine h.invariant hc ?_ (fun _ _ h => h) ?_
  · intro d call hd
    exact hd.spawn call (hcode call)
  · intro d i call o k _ hw _ hd
    exact hd.answer hw

/-- In a monitored configuration a waiting request is one the monitor of its call allows. -/
theorem Config.MonitoredBy.allowed (hc : c.MonitoredBy M m Q X) {i call o k}
    (hw : c.threads[i]? = some ⟨call, .request o k⟩) : (M call).ok (c.past (M call) (m call) i) o :=
  (hc.2 i _ hw).1

/-- Every request in the history was one that the monitor of its call allowed at that moment. -/
theorem Steps.lawfulBy {s : σ} (h : Steps sys ok (Config.start s) d)
    (hcode : ∀ call, (sys.code call).Obeys (M call) (Q call) (X call) (m call)) {e : Entry S}
    {later earlier : List (Entry S)} (hist : d.history = later ++ e :: earlier) :
    ∃ t, d.threads[e.thread]? = some t ∧
      (M t.call).ok ((M t.call).after (m t.call) e.thread earlier) e.op := by
  revert later
  refine h.invariant (I := fun d => ∀ {later}, d.history = later ++ e :: earlier →
    ∃ t, d.threads[e.thread]? = some t ∧ (M t.call).ok ((M t.call).after (m t.call) e.thread earlier) e.op)
    (by simp [Config.start]) ?_ (fun _ _ h => h) ?_
  · intro d call hI later hist
    obtain ⟨t, ht, hok⟩ := hI hist
    refine ⟨t, ?_, hok⟩
    simp only [Config.spawn]
    rw [List.getElem?_append_left (List.getElem?_eq_some_iff.1 ht).1, ht]
  · intro d i call o k hd hw _ hI later hist
    have hi := (List.getElem?_eq_some_iff.1 hw).1
    cases later with
    | nil =>
      obtain ⟨rfl, rfl⟩ := List.cons.inj hist
      exact ⟨⟨call, k (sys.exec o d.state).1⟩, by simp [Config.answer, Config.entry, hi],
        (hd.monitoredBy (Config.monitoredBy_start s) hcode).allowed hw⟩
    | cons _ later =>
      obtain ⟨t, ht, hok⟩ := hI (List.cons.inj hist).2
      by_cases hei : i = e.thread
      · obtain rfl := Option.some.inj (ht.symm.trans (hei ▸ hw))
        exact ⟨⟨call, k (sys.exec o d.state).1⟩, by simp [Config.answer, ← hei, hi], hok⟩
      · exact ⟨t, by simpa [Config.answer, List.getElem?_set_ne hei] using ht, hok⟩

end MonitoredBy

section Monitored

variable (M : Monitor S μ) (m : μ) (Q : κ → α → μ → Prop) (X : κ → ε → μ → Prop)

/-- Every thread's remaining program obeys the monitor from where its past has taken it. -/
def Config.Monitored (c : Config S ε α σ κ) : Prop :=
  c.Numbered ∧ ∀ i (t : Thread S ε α κ), c.threads[i]? = some t →
    t.program.Obeys M (Q t.call) (X t.call) (c.past M m i)

variable {M m Q X}

theorem Config.monitored_start (s : σ) : (Config.start s : Config S ε α σ κ).Monitored M m Q X :=
  Config.monitoredBy_start (M := fun _ => M) (m := fun _ => m) s

/-- Programs that obey a monitor on their own obey it in every interleaving. -/
theorem Steps.monitored (h : Steps sys ok c d) (hc : c.Monitored M m Q X)
    (hcode : ∀ call, (sys.code call).Obeys M (Q call) (X call) m) : d.Monitored M m Q X :=
  Steps.monitoredBy (M := fun _ => M) (m := fun _ => m) h hc hcode

/-- Every request in the history was one the monitor allowed its thread at that moment. -/
theorem Steps.lawful {s : σ} (h : Steps sys ok (Config.start s) d)
    (hcode : ∀ call, (sys.code call).Obeys M (Q call) (X call) m) {e : Entry S}
    {later earlier : List (Entry S)} (hist : d.history = later ++ e :: earlier) :
    M.ok (M.after m e.thread earlier) e.op := by
  revert later
  refine h.invariant (I := fun d => ∀ {later}, d.history = later ++ e :: earlier →
    M.ok (M.after m e.thread earlier) e.op) (by simp [Config.start]) (fun _ _ h => h) (fun _ _ h => h) ?_
  intro d i call o k hd hw _ hI later hist
  cases later with
  | nil =>
    obtain ⟨rfl, rfl⟩ := List.cons.inj hist
    exact ((hd.monitored (Config.monitored_start s) hcode).2 i _ hw).1
  | cons _ later => exact hI (List.cons.inj hist).2

/-- In a monitored configuration a waiting request is one the monitor allows. -/
theorem Config.Monitored.allowed (hc : c.Monitored M m Q X) {i call o k}
    (hw : c.threads[i]? = some ⟨call, .request o k⟩) : M.ok (c.past M m i) o :=
  (hc.2 i _ hw).1

/-- What a call returns satisfies its postcondition. -/
theorem Config.Monitored.returned (hc : c.Monitored M m Q X) {i call a}
    (hr : c.Returned i call a) : Q call a (c.past M m i) :=
  hc.2 i _ hr

end Monitored

section Rows

variable {s : σ} {ρ : Type} {R : σ → List ρ} {F : Entry S → ρ → Prop} {T : Entry S → σ → Prop}

/-- Every row was there from the start, or a request of the run has filed it. -/
theorem Steps.provenance (h : Steps sys ok (Config.start s) c)
    (disturb : ∀ change s, R (sys.disturb change s) ⊆ R s)
    (filed : ∀ i o s, ∀ r ∈ R (sys.exec o s).2, r ∈ R s ∨ F ⟨i, o, (sys.exec o s).1⟩ r) :
    ∀ r ∈ R c.state, r ∈ R s ∨ ∃ e ∈ c.history, F e r := by
  refine h.invariant (I := fun c => ∀ r ∈ R c.state, r ∈ R s ∨ ∃ e ∈ c.history, F e r)
    (fun r hr => .inl hr) (fun _ _ h => h) (fun d change h r hr => h r (disturb change d.state hr)) ?_
  intro d i call o k _ _ _ hI r hr
  rcases filed i o d.state r hr with hr | hfiles
  · rcases hI r hr with hstart | ⟨e, he, hfiles⟩
    · exact .inl hstart
    · exact .inr ⟨e, List.mem_cons_of_mem _ he, hfiles⟩
  · exact .inr ⟨_, List.mem_cons_self, hfiles⟩

/-- What every answer says of the state it leaves, and no later request takes back, is still true. -/
theorem Steps.witnessed (h : Steps sys ok (Config.start s) c)
    (disturb : ∀ e change s, T e s → T e (sys.disturb change s))
    (now : ∀ i o s, T ⟨i, o, (sys.exec o s).1⟩ (sys.exec o s).2)
    (kept : ∀ e o s, T e s → T e (sys.exec o s).2) : ∀ e ∈ c.history, T e c.state := by
  refine h.invariant (I := fun c => ∀ e ∈ c.history, T e c.state) (by simp [Config.start]) (fun _ _ h => h)
    (fun d change h e he => disturb e change d.state (h e he)) ?_
  intro d i call o k _ _ _ hI e he
  rcases List.mem_cons.1 he with rfl | he
  · exact now i o d.state
  · exact kept e o d.state (hI e he)

end Rows

section Keys

variable {ι : Type} {s : σ} {key : Entry S → Option ι} {I : σ → List ι}

/-- A unique index: where every key that a request puts into the index was not in it before, and none is
ever taken out, no two requests of a run put in the same. -/
theorem Steps.keys_nodup (h : Steps sys ok (Config.start s) c)
    (disturb : ∀ change s, I s ⊆ I (sys.disturb change s))
    (kept : ∀ o s, I s ⊆ I (sys.exec o s).2)
    (fresh : ∀ i o s k, key ⟨i, o, (sys.exec o s).1⟩ = some k → k ∉ I s ∧ k ∈ I (sys.exec o s).2) :
    (c.history.filterMap key).Nodup := by
  refine (h.invariant
    (I := fun c : Config S ε α σ κ =>
      (c.history.filterMap key).Nodup ∧ c.history.filterMap key ⊆ I c.state)
    (by simp [Config.start]) (fun _ _ h => h)
    (fun d change h => ⟨h.1, List.Subset.trans h.2 (disturb change d.state)⟩) ?_).1
  rintro d i call o k _ _ _ ⟨hnodup, hsub⟩
  have older : d.history.filterMap key ⊆ I (sys.exec o d.state).2 := List.Subset.trans hsub (kept o d.state)
  simp only [Config.answer, Config.entry, List.filterMap_cons]
  split
  · exact ⟨hnodup, older⟩
  · rename_i k hk
    obtain ⟨hnew, hin⟩ := fresh i o d.state k hk
    exact ⟨List.nodup_cons.2 ⟨fun hmem => hnew (hsub hmem), hnodup⟩, List.cons_subset.2 ⟨hin, older⟩⟩

end Keys

end SafeOps.Concurrent
