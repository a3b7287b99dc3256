import Mathlib.Order.Lattice
import Mathlib.Data.List.TakeWhile

/-! Admission by a sliding window: a queue of the latest admitted readings, from whose head the readings
that are old for the present one are dropped before each decision. Nothing is assumed about the order of
the readings. Lists of readings have the latest decision first, the queue has the oldest reading first. -/

namespace SafeOps.Concurrent.SlidingWindow

section Definitions

variable {T : Type} (old : T → T → Bool) (limit : Nat)

/-- The head of the queue that is old for the reading. -/
def stale (now : T) (queue : List T) : List T := queue.takeWhile (old now)

/-- The queue without its stale head. -/
def fresh (now : T) (queue : List T) : List T := queue.dropWhile (old now)

def admits (now : T) (queue : List T) : Bool := (fresh old now queue).length < limit

def next (now : T) (queue : List T) : List T :=
  if admits old limit now queue then fresh old now queue ++ [now] else fresh old now queue

/-- The queue after the decisions on some readings. -/
def queue : List T → List T
  | [] => []
  | now :: earlier => next old limit now (queue earlier)

def admitted : List T → List T
  | [] => []
  | now :: earlier =>
    if admits old limit now (queue old limit earlier) then now :: admitted earlier else admitted earlier

/-- The decision on every reading. -/
def decisions : List T → List (T × Bool)
  | [] => []
  | now :: earlier => (now, admits old limit now (queue old limit earlier)) :: decisions earlier

/-- The admitted readings that have left the queue. -/
def dropped (readings : List T) : List T :=
  (admitted old limit readings).drop (queue old limit readings).length

/-- Whatever has left the queue before a decision is past for it. -/
def Lapsed (past : T → T → Prop) : List T → Prop
  | [] => True
  | now :: earlier => (∀ s ∈ dropped old limit earlier, past now s) ∧ Lapsed past earlier

end Definitions

section Queue

variable {T : Type} {old : T → T → Bool} {limit : Nat}

theorem admitted_eq_decisions (readings : List T) :
    admitted old limit readings = ((decisions old limit readings).filter (·.2)).map (·.1) := by
  induction readings with
  | nil => rfl
  | cons now earlier ih =>
    rw [admitted, decisions, List.filter_cons, ih]
    split <;> rfl

/-- A decision is made on the readings before it. -/
theorem decisions_split {readings : List T} {now : T} {accepted : Bool}
    {later earlier : List (T × Bool)}
    (h : decisions old limit readings = later ++ (now, accepted) :: earlier) :
    ∃ rest before, readings = rest ++ now :: before ∧ earlier = decisions old limit before ∧
      accepted = admits old limit now (queue old limit before) := by
  induction readings generalizing later with
  | nil => simp [decisions] at h
  | cons r readings ih =>
    rw [decisions] at h
    cases later with
    | nil =>
      obtain ⟨hhead, htail⟩ := List.cons.inj h
      obtain ⟨rfl, rfl⟩ := Prod.mk.inj hhead
      exact ⟨[], readings, rfl, htail.symm, rfl⟩
    | cons first later =>
      obtain ⟨rest, before, rfl, hearlier, haccepted⟩ := ih (List.cons.inj h).2
      exact ⟨r :: rest, before, rfl, hearlier, haccepted⟩

theorem stale_append_fresh (now : T) (q : List T) : stale old now q ++ fresh old now q = q :=
  List.takeWhile_append_dropWhile

theorem old_of_stale {now s : T} {q : List T} (hs : s ∈ stale old now q) : old now s = true :=
  List.mem_takeWhile_imp hs

theorem head_of_fresh {now head : T} {q rest : List T} (h : fresh old now q = head :: rest) :
    old now head = false := by
  have hhead := List.head?_dropWhile_not (old now) q
  rw [fresh] at h
  simpa [h] using hhead

theorem fresh_suffix (now : T) (q : List T) : fresh old now q <:+ q := List.dropWhile_suffix _

theorem length_queue_le (readings : List T) : (queue old limit readings).length ≤ limit := by
  induction readings with
  | nil => exact Nat.zero_le _
  | cons now earlier ih =>
    simp only [queue, next, admits, decide_eq_true_eq]
    split
    · rw [List.length_append, List.length_singleton]
      assumption
    · exact (fresh_suffix now _).length_le.trans ih

/-- The queue holds the latest of the admitted readings. -/
theorem queue_latest (readings : List T) :
    (queue old limit readings).reverse <+: admitted old limit readings := by
  induction readings with
  | nil => exact List.prefix_rfl
  | cons now earlier ih =>
    have hfresh : (fresh old now (queue old limit earlier)).reverse <+: admitted old limit earlier :=
      (List.reverse_prefix.2 (fresh_suffix now _)).trans ih
    simp only [queue, next, admitted]
    split
    · rw [List.reverse_append, List.reverse_singleton, List.singleton_append]
      exact List.cons_prefix_cons.2 ⟨rfl, hfresh⟩
    · exact hfresh

theorem admitted_eq (readings : List T) : admitted old limit readings =
    (queue old limit readings).reverse ++ dropped old limit readings := by
  obtain ⟨rest, hrest⟩ : (queue old limit readings).reverse <+: admitted old limit readings :=
    queue_latest readings
  rw [dropped, ← hrest, ← List.length_reverse, List.drop_left]

/-- A decision drops the stale head of the queue. -/
theorem dropped_cons (now : T) (earlier : List T) : dropped old limit (now :: earlier) =
    (stale old now (queue old limit earlier)).reverse ++ dropped old limit earlier := by
  have before : admitted old limit earlier = (fresh old now (queue old limit earlier)).reverse ++
      ((stale old now (queue old limit earlier)).reverse ++ dropped old limit earlier) := by
    rw [← List.append_assoc, ← List.reverse_append, stale_append_fresh, ← admitted_eq]
  have after : admitted old limit (now :: earlier) = _ := admitted_eq (now :: earlier)
  simp only [queue, next, admitted] at after
  split at after
  · rw [before, List.reverse_append, List.reverse_singleton, List.singleton_append, List.cons_append] at after
    exact (List.append_cancel_left (List.cons.inj after).2).symm
  · rw [before] at after
    exact (List.append_cancel_left after).symm

theorem admitted_sublist (readings : List T) : (admitted old limit readings).Sublist readings := by
  induction readings with
  | nil => exact .slnil
  | cons now earlier ih =>
    rw [admitted]
    split
    · exact ih.cons_cons now
    · exact ih.cons now

/-- Each reading that has left the queue was old for some decision. -/
theorem dropped_for {readings : List T} :
    ∀ s ∈ dropped old limit readings, ∃ now ∈ readings, old now s = true := by
  induction readings with
  | nil => simp [dropped, admitted]
  | cons now earlier ih =>
    intro s hs
    rw [dropped_cons] at hs
    rcases List.mem_append.1 hs with hs | hs
    · exact ⟨now, List.mem_cons_self, old_of_stale (List.mem_reverse.1 hs)⟩
    · obtain ⟨r, hr, hold⟩ := ih s hs
      exact ⟨r, List.mem_cons_of_mem _ hr, hold⟩

/-- Among readings none of which is past for another, no more are admitted than the limit. -/
theorem countP_admitted_le {past : T → T → Prop} (hpast : ∀ now s, old now s = true → past now s) {p : T → Bool}
    (hp : ∀ now s, p now = true → p s = true → ¬past now s) {readings : List T}
    (h : Lapsed old limit past readings) : (admitted old limit readings).countP p ≤ limit := by
  induction readings with
  | nil => exact Nat.zero_le _
  | cons now earlier ih =>
    have ih := ih h.2
    by_cases hadmits : admits old limit now (queue old limit earlier) = true
    · by_cases hnow : p now = true
      · -- whatever has left the queue is past for this reading, so it is not counted
        have hdropped : (dropped old limit (now :: earlier)).countP p = 0 := by
          rw [List.countP_eq_zero]
          intro s hs hcounted
          rw [dropped_cons] at hs
          rcases List.mem_append.1 hs with hs | hs
          · exact hp now s hnow hcounted (hpast now s (old_of_stale (List.mem_reverse.1 hs)))
          · exact hp now s hnow hcounted (h.1 s hs)
        have hqueue : (queue old limit (now :: earlier)).reverse.countP p ≤ limit :=
          List.countP_le_length.trans (List.length_reverse.trans_le (length_queue_le _))
        rw [admitted_eq, List.countP_append, hdropped]
        exact hqueue
      · rw [admitted, if_pos hadmits, List.countP_cons_of_neg hnow]
        exact ih
    · rw [admitted, if_neg hadmits]
      exact ih

end Queue

section Ordered

variable {T : Type} [LinearOrder T] {old : T → T → Bool} {limit : Nat}

/-- Decisions in the order of the readings find nothing missing. -/
theorem lapsed_of_ordered {past : T → T → Prop} (hpast : ∀ now s, old now s = true → past now s)
    (hold : ∀ now later s, now ≤ later → old now s = true → old later s = true) {readings : List T}
    (h : readings.Pairwise (· ≥ ·)) : Lapsed old limit past readings := by
  induction readings with
  | nil => trivial
  | cons now earlier ih =>
    obtain ⟨hnow, hearlier⟩ := List.pairwise_cons.1 h
    refine ⟨fun s hs => ?_, ih hearlier⟩
    obtain ⟨r, hr, hrs⟩ := dropped_for s hs
    exact hpast now s (hold r now s (hnow r hr) hrs)

/-- In the order of the readings, a reading is only turned away by as many admitted ones that are not old for it. -/
theorem full_of_refused (hold : ∀ now s later, s ≤ later → old now later = true → old now s = true) {now : T}
    {earlier : List T} (h : (now :: earlier).Pairwise (· ≥ ·))
    (hrefused : admits old limit now (queue old limit earlier) = false) :
    limit ≤ (admitted old limit earlier).countP fun r => !old now r && decide (r ≤ now) := by
  obtain ⟨hnow, hearlier⟩ := List.pairwise_cons.1 h
  have hfresh : (fresh old now (queue old limit earlier)).reverse <+: admitted old limit earlier :=
    (List.reverse_prefix.2 (fresh_suffix now _)).trans (queue_latest earlier)
  have hsublist := hfresh.sublist.trans (admitted_sublist earlier)
  have hlast : ∀ r ∈ fresh old now (queue old limit earlier), old now r = false ∧ r ≤ now := by
    have hordered := List.pairwise_reverse.1 (hearlier.sublist hsublist)
    intro r hr
    refine ⟨?_, hnow r (hsublist.subset (List.mem_reverse.2 hr))⟩
    cases hq : fresh old now (queue old limit earlier) with
    | nil => rw [hq] at hr; cases hr
    | cons head rest =>
      rw [hq] at hr hordered
      have hhead := head_of_fresh hq
      rcases List.mem_cons.1 hr with rfl | hr
      · exact hhead
      · refine Bool.eq_false_iff.2 fun hrold => ?_
        exact absurd (hold now head r ((List.pairwise_cons.1 hordered).1 r hr) hrold) (Bool.eq_false_iff.1 hhead)
  calc limit ≤ (fresh old now (queue old limit earlier)).length := by
        simpa [admits] using hrefused
    _ = (fresh old now (queue old limit earlier)).reverse.countP fun r => !old now r && decide (r ≤ now) := by
        rw [List.countP_eq_length.2, List.length_reverse]
        intro r hr
        obtain ⟨hfreshr, hle⟩ := hlast r (List.mem_reverse.1 hr)
        rw [hfreshr, decide_eq_true hle]
        rfl
    _ ≤ (admitted old limit earlier).countP fun r => !old now r && decide (r ≤ now) := hfresh.sublist.countP_le

end Ordered

end SafeOps.Concurrent.SlidingWindow
