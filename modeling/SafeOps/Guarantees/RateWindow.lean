import SafeOps.Concurrent.SlidingWindow
import SafeOps.Core.RateLimit
import Mathlib.Data.Rat.Floor
import Mathlib.Tactic.GCongr

/-! The rate limiter is a sliding window over the readings of a key in the order in which their calls take
the lock. It keeps to its limit as long as no call comes with a reading from before the others' evictions. -/

namespace SafeOps.RateLimit
open Concurrent

section Window

variable {round : Rat → Rat} {settings : Settings}

/-- What the loop drops: a reading whose difference exceeds the window. -/
def expired (round : Rat → Rat) (settings : Settings) (now first : Rat) : Bool :=
  settings.windowSeconds < difference round now first

theorem expire_eq (now : Rat) (window : List Rat) : expire round settings.windowSeconds now window =
    SlidingWindow.fresh (expired round settings) now window := by
  induction window with
  | nil => rfl
  | cons first window ih =>
    rw [expire, SlidingWindow.fresh, List.dropWhile_cons]
    simp only [expired, decide_eq_true_eq]
    split
    · exact ih
    · rfl

/-- The critical section is one decision of the sliding window. -/
theorem answer_locked (key : String) (now : Rat) (limiter : Limiter) :
    answer round settings (.locked key now) limiter =
      (SlidingWindow.admits (expired round settings) settings.maxRequests now (limiter.buckets key),
        { limiter with buckets := Function.update limiter.buckets key <|
            SlidingWindow.next (expired round settings) settings.maxRequests now (limiter.buckets key) }) := by
  simp only [answer, expire_eq]
  rfl

theorem attempts_locked (key : String) (i : Nat) (key' : String) (now : Rat) (accepted : Bool)
    (history : List (Entry signature)) : attempts key (⟨i, .locked key' now, accepted⟩ :: history) =
      if key' = key then (now, accepted) :: attempts key history else attempts key history := by
  rw [attempts, List.filterMap_cons, attempt]
  split <;> split <;> simp_all [attempts]

/-- Every key has its own sliding window over its own readings. -/
structure Windowed (round : Rat → Rat) (settings : Settings) (c : App) : Prop where
  buckets : ∀ key, c.state.buckets key =
    SlidingWindow.queue (expired round settings) settings.maxRequests (readings key c.history)
  attempts : ∀ key, attempts key c.history =
    SlidingWindow.decisions (expired round settings) settings.maxRequests (readings key c.history)

theorem Windowed.answer {c : App} (h : Windowed round settings c) (i : Nat) (call : Call) (o : Op)
    (k : o.Reply → Program signature Refusal Unit) :
    Windowed round settings (c.answer (system round settings) i call o k) := by
  cases o with
  | monotonic => exact ⟨h.buckets, h.attempts⟩
  | locked key' now =>
    have hreply : ((system round settings).exec (.locked key' now) c.state) = _ :=
      answer_locked key' now c.state
    have hhistory : (c.answer (system round settings) i call (.locked key' now) k).history =
        ⟨i, .locked key' now, SlidingWindow.admits (expired round settings) settings.maxRequests now
          (c.state.buckets key')⟩ :: c.history := by
      rw [Config.answer, Config.entry, hreply]
    have hstate : (c.answer (system round settings) i call (.locked key' now) k).state.buckets =
        Function.update c.state.buckets key' (SlidingWindow.next (expired round settings)
          settings.maxRequests now (c.state.buckets key')) := by
      rw [Config.answer, hreply]
    constructor <;> intro key
    · rw [hhistory, hstate, readings, attempts_locked]
      by_cases hkey : key' = key
      · subst hkey
        rw [if_pos rfl, Function.update_self, h.buckets]
        rfl
      · rw [if_neg hkey, Function.update_of_ne (Ne.symm hkey)]
        exact h.buckets key
    · rw [hhistory, readings, attempts_locked]
      by_cases hkey : key' = key
      · subst hkey
        rw [if_pos rfl, h.buckets, List.map_cons, SlidingWindow.decisions]
        exact congrArg _ (h.attempts key')
      · rw [if_neg hkey]
        exact h.attempts key

theorem windowed {ok : App → Entry signature → Prop} {clock : Rat} {c : App}
    (h : Steps (system round settings) ok (start clock) c) : Windowed round settings c :=
  h.invariant ⟨fun _ => rfl, fun _ => rfl⟩ (fun _ _ h => ⟨h.buckets, h.attempts⟩)
    (fun _ _ h => ⟨h.buckets, h.attempts⟩) fun _ i call o k _ _ _ h => h.answer i call o k

theorem Windowed.accepted {c : App} (h : Windowed round settings c) (key : String) : accepted key c.history =
    SlidingWindow.admitted (expired round settings) settings.maxRequests (readings key c.history) := by
  rw [RateLimit.accepted, h.attempts, SlidingWindow.admitted_eq_decisions]

end Window

/-- The key and the reading with which a call takes the lock. -/
def Op.locking : Op → Option (String × Rat)
  | monotonic => none
  | locked key now => some (key, now)

/-- The readings of accepted calls of a key that its window holds no more. -/
def dropped (key : String) (c : App) : List Rat := (accepted key c.history).drop (c.state.buckets key).length

/-- One reading lies more than the window before the other. -/
def Past (settings : Settings) (now s : Rat) : Prop := settings.windowSeconds < now - s

instance (settings : Settings) (now s : Rat) : Decidable (Past settings now s) :=
  inferInstanceAs (Decidable (settings.windowSeconds < now - s))

/-- A call that takes the lock finds only readings dropped that are older than its own window. -/
def Complete (settings : Settings) (c : App) (e : Entry signature) : Prop :=
  ∀ call ∈ e.op.locking, ∀ s ∈ dropped call.1 c, Past settings call.2 s

instance (settings : Settings) (c : App) (e : Entry signature) : Decidable (Complete settings c e) :=
  inferInstanceAs (Decidable (∀ call ∈ e.op.locking, ∀ s ∈ dropped call.1 c, Past settings call.2 s))

/-- The limit holds in every interval, keys do not influence each other, and calls that take the lock in
the order of their readings are refused by a full window only, as far as their differences can tell. -/
structure WindowLaw (round : Rat → Rat) (settings : Settings) (c : App) : Prop where
  bounded : ∀ key (a : Rat),
    (accepted key c.history).countP (fun r => a ≤ r ∧ r ≤ a + settings.windowSeconds) ≤ settings.maxRequests
  independent : ∀ key clock (d : App), Run (system round settings) (start clock) d →
    readings key d.history = readings key c.history → attempts key d.history = attempts key c.history
  refused : ∀ key now (later earlier : List (Rat × Bool)),
    attempts key c.history = later ++ (now, false) :: earlier →
    (readings key c.history).Pairwise (· ≥ ·) → settings.maxRequests ≤
      ((earlier.filter (·.2)).map (·.1)).countP fun r =>
        difference round now r ≤ settings.windowSeconds ∧ r ≤ now

section Rounding

variable {round : Rat → Rat} {settings : Settings}

theorem difference_mono (monotone : Monotone round) {now now' s s' : Rat} (hnow : now ≤ now') (hs : s' ≤ s) :
    difference round now s ≤ difference round now' s' :=
  monotone (sub_le_sub hnow hs)

/-- Rounding never makes a reading look older than the window that is not. -/
theorem past_of_expired (monotone : Monotone round) (exact : round settings.windowSeconds = settings.windowSeconds)
    (now s : Rat) (h : expired round settings now s = true) : Past settings now s := by
  by_contra hnot
  have hround : difference round now s ≤ round settings.windowSeconds := monotone (not_lt.1 hnot)
  rw [exact] at hround
  exact absurd (of_decide_eq_true h) (not_lt.2 hround)

theorem expired_later (monotone : Monotone round) (now later s : Rat) (hle : now ≤ later)
    (h : expired round settings now s = true) : expired round settings later s = true :=
  decide_eq_true ((of_decide_eq_true h).trans_le (difference_mono monotone hle le_rfl))

theorem expired_earlier (monotone : Monotone round) (now s later : Rat) (hle : s ≤ later)
    (h : expired round settings now later = true) : expired round settings now s = true :=
  decide_eq_true ((of_decide_eq_true h).trans_le (difference_mono monotone le_rfl hle))

/-- Of two readings in a closed interval of the window's length, neither is past for the other. -/
theorem not_past_within {a now s : Rat} (hnow : now ≤ a + settings.windowSeconds) (hs : a ≤ s) :
    ¬Past settings now s := by
  rw [Past, not_lt, sub_le_iff_le_add']
  exact hnow.trans (add_le_add_left hs _)

end Rounding

section Law

variable {round : Rat → Rat} {settings : Settings} {clock : Rat} {c : App}

/-- Where every call finds what it needs, the decisions of every key do. -/
theorem lapsed (h : Steps (system round settings) (Complete settings) (start clock) c) (key : String) :
    SlidingWindow.Lapsed (expired round settings) settings.maxRequests (Past settings) (readings key c.history) := by
  refine h.invariant (I := fun d : App => SlidingWindow.Lapsed (expired round settings) settings.maxRequests
    (Past settings) (readings key d.history)) trivial (fun _ _ h => h) (fun _ _ h => h) ?_
  intro d i call o k hd _ hcomplete ih
  cases o with
  | monotonic => exact ih
  | locked key' now =>
    simp only [Config.answer, Config.entry, readings, attempts_locked]
    by_cases hkey : key' = key
    · subst hkey
      rw [if_pos rfl, List.map_cons]
      refine ⟨fun s hs => hcomplete (key', now) rfl s ?_, ih⟩
      rwa [dropped, (windowed hd).accepted, (windowed hd).buckets]
    · rw [if_neg hkey]
      exact ih

theorem independent (h : Run (system round settings) (start clock) c) (key : String) {clock' : Rat} {d : App}
    (h' : Run (system round settings) (start clock') d) (heq : readings key d.history = readings key c.history) :
    attempts key d.history = attempts key c.history := by
  rw [(windowed h').attempts, (windowed h).attempts, heq]

theorem refused (monotone : Monotone round) (h : Run (system round settings) (start clock) c) {key : String}
    {now : Rat} {later earlier : List (Rat × Bool)}
    (hrefused : attempts key c.history = later ++ (now, false) :: earlier)
    (hordered : (readings key c.history).Pairwise (· ≥ ·)) : settings.maxRequests ≤
      ((earlier.filter (·.2)).map (·.1)).countP fun r =>
        difference round now r ≤ settings.windowSeconds ∧ r ≤ now := by
  rw [(windowed h).attempts] at hrefused
  obtain ⟨rest, before, hreadings, rfl, hadmits⟩ := SlidingWindow.decisions_split hrefused
  rw [hreadings] at hordered
  have hfull := SlidingWindow.full_of_refused (expired_earlier monotone)
    (List.pairwise_append.1 hordered).2.1 hadmits.symm
  rw [SlidingWindow.admitted_eq_decisions] at hfull
  refine hfull.trans_eq (congrFun (congrArg _ (funext fun r => ?_)) _)
  simp only [expired, Bool.decide_and, ← decide_not, not_lt]

theorem bounded_of_lapsed (monotone : Monotone round) (exact : round settings.windowSeconds = settings.windowSeconds)
    (h : Run (system round settings) (start clock) c) {key : String}
    (hlapsed : SlidingWindow.Lapsed (expired round settings) settings.maxRequests (Past settings)
      (readings key c.history)) (a : Rat) :
    (accepted key c.history).countP (fun r => a ≤ r ∧ r ≤ a + settings.windowSeconds) ≤ settings.maxRequests := by
  rw [(windowed h).accepted]
  refine SlidingWindow.countP_admitted_le (past_of_expired monotone exact) ?_ hlapsed
  intro now s hnow hs
  exact not_past_within (of_decide_eq_true hnow).2 (of_decide_eq_true hs).1

/-- Where the calls of a key take the lock in the order of their readings, its limit holds. -/
theorem bounded_of_ordered (monotone : Monotone round)
    (exact : round settings.windowSeconds = settings.windowSeconds)
    (h : Run (system round settings) (start clock) c) {key : String}
    (hordered : (readings key c.history).Pairwise (· ≥ ·)) (a : Rat) :
    (accepted key c.history).countP (fun r => a ≤ r ∧ r ≤ a + settings.windowSeconds) ≤ settings.maxRequests :=
  bounded_of_lapsed monotone exact h (SlidingWindow.lapsed_of_ordered (past_of_expired monotone exact)
    (expired_later monotone) hordered) a

/-- The limiter keeps its window law in every run in which no call takes the lock after a reading of its own
window has been dropped. -/
theorem window_law (monotone : Monotone round) (exact : round settings.windowSeconds = settings.windowSeconds)
    (h : Steps (system round settings) (Complete settings) (start clock) c) : WindowLaw round settings c where
  bounded key a := bounded_of_lapsed monotone exact h.run (lapsed h key) a
  independent key _ _ hd heq := independent h.run key hd heq
  refused _ _ _ _ := refused monotone h.run

end Law

/-- Rounding to a multiple of `2 ^ -49`, as the floats between 8 and 16 are. -/
def roundBetween (x : Rat) : Rat := ⌊x * 2 ^ 49 + 1 / 2⌋ / 2 ^ 49

theorem roundBetween_monotone : Monotone roundBetween := by
  intro x y hxy
  have hfloor : ⌊x * 2 ^ 49 + 1 / 2⌋ ≤ ⌊y * 2 ^ 49 + 1 / 2⌋ := by
    apply Int.floor_mono
    gcongr
  have hcast : (⌊x * 2 ^ 49 + 1 / 2⌋ : Rat) ≤ ⌊y * 2 ^ 49 + 1 / 2⌋ := Int.cast_le.2 hfloor
  unfold roundBetween
  gcongr

/-- Two calls of an operator are accepted at once. A third reads the clock before a fourth, and takes the
lock after it. -/
def overtakenMoves : List (Move Call Rat) :=
  let call : Call := ⟨"approval_resolve", "7"⟩
  [.spawn call, .run 0, .run 0, .spawn call, .run 1, .run 1, .disturb 10, .spawn call, .run 2,
    .disturb 11, .spawn call, .run 3, .run 3, .run 2]

/-- The fourth call drops the first two readings, and the third is accepted within ten seconds of them. -/
theorem window_law_overtaken : ¬∀ settings clock c, Run (system roundBetween settings) (start clock) c →
    WindowLaw roundBetween settings c := by
  intro hlaw
  have bounded := (hlaw ⟨2, 10⟩ 0 _ (run_replay overtakenMoves .refl)).bounded "approval_resolve:7" 0
  exact absurd bounded (by decide +kernel)

/-- The floats that are written 0.3, 10.3 and 10.4. -/
def instants : Rat × Rat × Rat :=
  (5404319552844595 / 2 ^ 54, 2899192260119757 / 2 ^ 48, 5854679515581645 / 2 ^ 49)

/-- Three calls, each of which takes the lock before the next one reads the clock. -/
def punctualMoves : List (Move Call Rat) :=
  let call : Call := ⟨"approval_resolve", "7"⟩
  [.spawn call, .run 0, .run 0, .disturb instants.2.1, .spawn call, .run 1, .run 1, .disturb instants.2.2, .spawn call,
    .run 2, .run 2]

/-- The second call is refused: its difference from the first is rounded to ten seconds. The third finds room. -/
theorem window_law_punctual :
    WindowLaw roundBetween ⟨1, 10⟩ ((start instants.1).replay (system roundBetween ⟨1, 10⟩) punctualMoves) ∧
      (attempts "approval_resolve:7" ((start instants.1).replay (system roundBetween ⟨1, 10⟩) punctualMoves).history).map
        (·.2) = [true, false, true] :=
  ⟨window_law roundBetween_monotone (by decide +kernel) (Allowed.steps .refl (by decide +kernel)), by decide +kernel⟩

end SafeOps.RateLimit
