import SafeOps.Inventory.Events

/-! What a call knows of the steps of executions, and what it may record about them: each is announced in the
log before anything becomes of it, and what becomes of it is written together with the event that says so. -/

namespace SafeOps
open Concurrent Program

variable {W : World} {ε α : Type}

namespace AuditEvent

/-- The sequence number of the step that the event is about. -/
def stepSequence (e : AuditEvent) : Option Int :=
  if e.eventType ∈ stepEvents then
    match e.metadata.lookup "step_sequence" with
    | some (.int n) => some n
    | _ => none
  else none

/-- The status that the event says the execution was to be given. -/
def attemptedStatus (e : AuditEvent) : Option String :=
  match e.metadata.lookup "attempted_status" with
  | some (.str status) => some status
  | _ => none

/-- The event tells that its step has reached the status. -/
def records (e : AuditEvent) : StepStatus → Bool
  | .pending => false
  | .completed => e.eventType = .executionStepCompleted
  | .waitingApproval => e.eventType = .executionWaitingApproval
  | .blocked => e.eventType = .executionBlocked ||
    e.eventType = .executionStatusAlreadyTerminal && e.attemptedStatus = some ExecutionStatus.blocked.value
  | .failed => e.eventType = .executionFailed ||
    e.eventType = .executionStatusAlreadyTerminal && e.attemptedStatus = some ExecutionStatus.failed.value

end AuditEvent

/-- The chunk announces a step. -/
def Txn.announces (t : Txn) : Bool := t.audit.any (·.eventType = .executionStepStarted)

/-- The steps a call has to do with, each with its execution: tool-call steps that have been announced, final
steps it has claimed, and the tool-call step it has claimed and not announced yet. -/
structure Recorder where
  announced : List (Id × Nat) := []
  final : List (Id × Nat) := []
  fresh : Option (Id × Nat) := none

namespace Recorder

def claim (m : Recorder) (x : Id) (row : ExecutionStep) : Recorder :=
  match row.stepType with
  | .toolCall => { m with fresh := some (x, row.sequence) }
  | .final => { m with final := (x, row.sequence) :: m.final }

def announce (m : Recorder) : Recorder :=
  { m with announced := m.fresh.toList ++ m.announced, fresh := none }

/-- What a chunk may say and write about steps. -/
inductive Records (m : Recorder) (t : Txn) : Prop
  | silent : t.Stepless → Records m t
  | announcement (n : Nat) (e : AuditEvent) : t.step = none → t.audit = [e] →
      e.eventType = .executionStepStarted → e.stepSequence = some n → m.fresh = some (t.executionId, n) →
      Records m t
  | outcome (u : StepUpdate) (e : AuditEvent) : t.step = some u → t.audit = [e] →
      e.stepSequence = some u.sequence → e.records u.status = true →
      (t.executionId, u.sequence) ∈ m.announced → Records m t
  | ending (u : StepUpdate) (e : AuditEvent) : t.step = some u → t.audit = [e] → u.status ≠ .waitingApproval →
      e.eventType ≠ .executionStepStarted → (∀ n, e.stepSequence = some n → n = u.sequence) →
      (t.executionId, u.sequence) ∈ m.final → Records m t

end Recorder

/-- Follows what a call records about steps. A call that saves a step without a word in the log, or gives up
announcing one, is followed no further. -/
def recording : Monitor W.statements (Option Recorder) where
  next m o := match o with
    | .query (.pendingApprovalStep x) => fun (step : Option ExecutionStep) =>
      m.map fun m => { m with announced := step.toList.map (x, ·.sequence) ++ m.announced }
    | .write (.insertStep x row) => fun (inserted : Bool) => if inserted then m.map (·.claim x row) else m
    | .write (.saveStep _ _) => fun _ => none
    | .write (.commit attempt t) => fun (outcome : CommitOutcome) =>
      if t.announces then
        if outcome = .committed then m.map (·.announce)
        else if attempt.givesUp outcome then none
        else m
      else m
    | _ => fun _ => m
  ok m o := ∀ rec, m = some rec → match o with
    | .write (.insertStep _ _) => rec.fresh = none
    | .write (.commit _ t) => rec.Records t
    | .write (.commitIf _ _ t) => rec.Records t ∧ t.announces = false
    | _ => True

/-- If the call is still followed, what it knows has `P`. -/
def Ready (P : Recorder → Prop) {α : Type} (_ : α) (m : Option Recorder) : Prop := ∀ rec, m = some rec → P rec

/-- The call knows what `rec` says. -/
def Knows (rec : Recorder) {α : Type} (_ : α) (m : Option Recorder) : Prop := m = some rec

/-- No step waits to be announced. -/
abbrev Calm {α : Type} : α → Option Recorder → Prop := Ready fun rec => rec.fresh = none

/-- What a call may request without learning about steps. -/
def Permits (rec : Recorder) : Op W.Tables → Prop
  | .write (.insertStep _ _) | .write (.saveStep _ _) | .query (.pendingApprovalStep _) => False
  | .write (.commit _ t) | .write (.commitIf _ _ t) => rec.Records t ∧ t.announces = false
  | _ => True

section Rules

variable {rec : Recorder} {Q : α → Option Recorder → Prop} {X : ε → Option Recorder → Prop}

/-- A call that is followed no further may do anything. -/
theorem unfollowed (hQ : ∀ a, Q a none) (hX : ∀ e, X e none) (p : Program W.statements ε α) :
    p.Obeys recording Q X none := by
  have off (o : Op W.Tables) (r : o.Reply) : recording.next none o r = none := by
    rcases o with q | w | _ | _
    · cases q <;> rfl
    · cases w <;> simp [recording]
    · rfl
    · rfl
  induction p with
  | ret a => exact hQ a
  | raise e => exact hX e
  | request o k ih => exact ⟨nofun, fun r => by rw [off]; exact ih r⟩

theorem Txn.Stepless.announces {t : Txn} (h : t.Stepless) : t.announces = false := by
  refine List.any_eq_false.2 fun e he hs => h.audit e he ?_
  simp [stepEvents, of_decide_eq_true hs]

theorem Stepless.permits {o : Op W.Tables} (h : Stepless o) : Permits rec o := by
  rcases o with q | w | _ | _
  · cases q <;> trivial
  · cases w with
    | commit | commitIf => exact ⟨.silent h, Txn.Stepless.announces h⟩
    | insertStep | saveStep => exact h.elim
    | _ => trivial
  · trivial
  · trivial

theorem Permits.ok {o : Op W.Tables} (h : Permits rec o) : recording.ok (some rec) o := by
  rintro _ ⟨⟩
  rcases o with q | w | _ | _
  · trivial
  · cases w with
    | commit => exact h.1
    | commitIf => exact h
    | insertStep => exact h.elim
    | _ => trivial
  · trivial
  · trivial

theorem Permits.next {o : Op W.Tables} (h : Permits rec o) (r : o.Reply) :
    recording.next (some rec) o r = some rec := by
  rcases o with q | w | _ | _
  · cases q <;> first | rfl | exact h.elim
  · cases w with
    | commit => simp [recording, h.2]
    | insertStep | saveStep => exact h.elim
    | _ => rfl
  · rfl
  · rfl

theorem Uses.permitted {p : Program W.statements ε α} (h : p.Uses (Permits rec)) :
    p.Obeys recording (Knows rec) (Knows rec) (some rec) :=
  h.keeps (I := (· = some rec)) (fun _ _ ho hm => hm ▸ ho.ok) (fun _ _ r ho hm => hm ▸ ho.next r) rfl

theorem Knows.calm {γ : Type} {a : γ} {m : Option Recorder} (h : Knows rec a m) (hf : rec.fresh = none) :
    Calm a m := by
  rintro _ rfl
  exact Option.some.inj h ▸ hf

/-- A part of a call that learns nothing about steps, and the rest of the call. -/
theorem Uses.permitted_bind {β : Type} {p : Program W.statements ε β} {k : β → Program W.statements ε α}
    (h : p.Uses (Permits rec)) (hX : ∀ e, X e (some rec)) (rest : ∀ b, (k b).Obeys recording Q X (some rec)) :
    (p.bind k).Obeys recording Q X (some rec) :=
  .bind (Uses.permitted h) (fun e _ hm => hm ▸ hX e) fun b _ hm => hm ▸ rest b

end Rules

/-- A chunk that does not announce a step. -/
theorem commitChunk_permits {rec : Recorder} {x : Id} {build : Nat → Txn}
    (h : ∀ seq, rec.Records (build seq) ∧ (build seq).announces = false) :
    (commitChunk x build : Db W Unit).Uses (Permits rec) :=
  commitChunk_uses trivial fun seq _ => h seq

/-- The chunk that announces the step a call has claimed. -/
theorem announcement_recording {rec : Recorder} {x : Id} {n : Nat} {build : Nat → Txn}
    (hf : rec.fresh = some (x, n)) (h : ∀ seq, ∃ e, build seq = { executionId := x, audit := [e] } ∧
      e.eventType = .executionStepStarted ∧ e.stepSequence = some n) :
    (commitChunk x build : Db W Unit).Obeys recording (Knows rec.announce) (fun _ m => m = none) (some rec) := by
  refine commitAttempts_obeys (fun attempts m => attempts <:+ [0, 1, 2, 3, 4] ∧
    m = if attempts = [] then none else some rec) ?_ (fun m h => h.2) ⟨List.suffix_refl _, rfl⟩
  rintro number later m ⟨hsuffix, rfl⟩
  have rest : later <:+ [0, 1, 2, 3, 4] := (List.suffix_cons number later).trans hsuffix
  have hlast := last_round hsuffix
  refine .call_bind (by simp [recording]) fun (tail : AuditTail) => ?_
  obtain ⟨e, hbuild, he, hn⟩ := h (tail.sequence + 1)
  refine .call_bind ?_ fun (outcome : CommitOutcome) => ?_
  · rintro _ ⟨⟩
    rw [hbuild]
    exact .announcement n e rfl rfl he hn hf
  · have announces : (build (tail.sequence + 1)).announces = true := by simp [hbuild, Txn.announces, he]
    cases outcome with
    | committed => simp [recording, announces, Knows]
    | violation => simp [recording, announces, Attempt.givesUp]
    | collision =>
      refine ⟨rest, ?_⟩
      simp [recording, announces, Attempt.givesUp, hlast]

namespace AgentRuntime

variable {rec : Recorder} {x : Id}

theorem stepMetadata_sequence (seq n : Nat) {type : AuditEventType} (rest : List (String × Value))
    (ht : type ∈ stepEvents) : (event seq type (stepMetadata n rest)).stepSequence = some (n : Int) := by
  simp [AuditEvent.stepSequence, event, stepMetadata, ht]

/-- What becomes of an announced step is recorded by the event that goes with it. -/
theorem finalize_permits {n : Nat} (hn : (x, n) ∈ rec.announced) (status : StepStatus) (output : StepOutput)
    {type : AuditEventType} (rest : List (String × Value)) (toolRequestId : Option Id)
    (hr : ∀ seq metadata, (event seq type metadata).records status = true) (ht : type ∈ stepEvents)
    (hs : type ≠ .executionStepStarted) :
    (finalize x n status output type (stepMetadata n rest) toolRequestId : Db W Unit).Uses (Permits rec) := by
  refine .bind ⟨trivial, fun _ => trivial⟩ fun completedAt => commitChunk_permits fun seq => ⟨?_, ?_⟩
  · exact .outcome _ _ rfl rfl (stepMetadata_sequence seq n rest ht) (hr _ _) hn
  · simp [Txn.announces, Finalization.rows, event, hs]

/-- The event that tells of a terminal status found instead. -/
theorem attempted_records {status : StepStatus} {terminal : ExecutionStatus}
    (h : status = .blocked ∧ terminal = .blocked ∨ status = .failed ∧ terminal = .failed) {e : AuditEvent}
    (ht : e.eventType = .executionStatusAlreadyTerminal) (ha : e.attemptedStatus = some terminal.value) :
    e.records status = true := by
  rcases h with ⟨rfl, rfl⟩ | ⟨rfl, rfl⟩ <;> simp [AuditEvent.records, ht, ha]

theorem finalizeTerminal_permits {n : Nat} {status : StepStatus} {output : StepOutput} {type : AuditEventType}
    {metadata : List (String × Value)} {terminal : ExecutionStatus} {toolRequestId : Option Id}
    (ht : type ≠ .executionStepStarted)
    (rows : ∀ completedAt seq, rec.Records (Finalization.rows
      ⟨x, ⟨n, status, output, completedAt, toolRequestId⟩, type, metadata⟩ seq))
    (already : ∀ completedAt actual seq, rec.Records (Finalization.alreadyTerminalRows
      ⟨x, ⟨n, status, output, completedAt, toolRequestId⟩, type, metadata⟩ terminal actual seq)) :
    (finalizeTerminal x n status output type metadata terminal toolRequestId : Db W Unit).Uses (Permits rec) := by
  refine .bind ⟨trivial, fun _ => trivial⟩ fun completedAt => commitRounds_use trivial fun number seq attempt => ?_
  refine .bind ((uses_call _).2 ⟨rows completedAt seq, by simp [Txn.announces, Finalization.rows, event, ht]⟩)
    fun outcome => ?_
  cases outcome with
  | finished outcome => trivial
  | guardLost =>
    refine Yields.uses (P := fun t => ∃ actual, t = Finalization.alreadyTerminalRows
      ⟨x, ⟨n, status, output, completedAt, toolRequestId⟩, type, metadata⟩ terminal actual seq)
      ⟨trivial, fun execution => ?_⟩ ?_
    · cases (show Option Execution from execution) with
      | none => trivial
      | some row => exact ⟨row.status, rfl⟩
    · rintro _ ⟨actual, rfl⟩
      exact (uses_call _).2 ⟨already completedAt actual seq, rfl⟩

/-- What ends an announced step, and the execution with it. -/
theorem finalizeTerminal_announced {n : Nat} (hn : (x, n) ∈ rec.announced) {status : StepStatus}
    {output : StepOutput} {type : AuditEventType} {rest : List (String × Value)} {terminal : ExecutionStatus}
    {toolRequestId : Option Id} (hr : ∀ seq metadata, (event seq type metadata).records status = true)
    (ht : type ∈ stepEvents) (hs : type ≠ .executionStepStarted)
    (hp : status = .blocked ∧ terminal = .blocked ∨ status = .failed ∧ terminal = .failed)
    (ha : rest.lookup "attempted_status" = none) :
    (finalizeTerminal x n status output type (stepMetadata n rest) terminal toolRequestId : Db W Unit).Uses
      (Permits rec) := by
  refine finalizeTerminal_permits hs (fun completedAt seq => ?_) fun completedAt actual seq => ?_
  · exact .outcome _ _ rfl rfl (stepMetadata_sequence seq n rest ht) (hr _ _) hn
  · refine .outcome _ _ rfl rfl (stepMetadata_sequence seq n _ (by decide)) (attempted_records hp rfl ?_) hn
    simp [AuditEvent.attemptedStatus, event, stepMetadata, List.lookup_cons, List.lookup_append, ha]

theorem currentStatus_permits : (currentStatus x : Db W (Option ExecutionStatus)).Uses (Permits rec) :=
  .bind ⟨trivial, fun _ => trivial⟩ fun _ => trivial

theorem recordResult_permits {step : ExecutionStep} (hn : (x, step.sequence) ∈ rec.announced) (action : ToolAction)
    (result : GatewayResult) (toolRequestId : Option Id) :
    (recordResult x action step result toolRequestId : Db W RuntimeResult).Uses (Permits rec) := by
  have status (f : Option ExecutionStatus → RuntimeResult) :
      ((currentStatus x).bind fun s => .ret (f s) : Db W RuntimeResult).Uses (Permits rec) :=
    .bind currentStatus_permits fun _ => trivial
  unfold recordResult
  simp only
  split
  · exact .bind (finalize_permits hn _ _ _ _ (fun _ _ => rfl) (by decide) (by decide)) fun _ => status _
  · exact .bind (finalize_permits hn _ _ _ _ (fun _ _ => rfl) (by decide) (by decide)) fun _ => status _
  · exact .bind (finalizeTerminal_announced hn (fun _ _ => rfl) (by decide) (by decide) (.inl ⟨rfl, rfl⟩) rfl)
      fun _ => status _
  · exact .bind (finalizeTerminal_announced hn (fun _ _ => rfl) (by decide) (by decide) (.inr ⟨rfl, rfl⟩) rfl)
      fun _ => status _

/-- The program keeps no step to itself. -/
abbrev Records {ε α : Type} (p : Program W.statements ε α) (rec : Recorder) : Prop :=
  p.Obeys recording Calm Calm (some rec)

theorem records_of_uses {ε α : Type} {p : Program W.statements ε α} (hf : rec.fresh = none)
    (h : p.Uses (Permits rec)) : Records p rec :=
  (Uses.permitted h).mono (fun _ _ h => h.calm hf) fun _ _ h => h.calm hf

/-- A part of a call that learns nothing about steps, and the rest of the call. -/
theorem records_bind {ε α β : Type} {p : Program W.statements ε β} {k : β → Program W.statements ε α}
    (hf : rec.fresh = none) (h : p.Uses (Permits rec)) (rest : ∀ b, Records (k b) rec) : Records (p.bind k) rec :=
  Uses.permitted_bind h (fun _ => Knows.calm (a := ()) rfl hf) rest

theorem execute_permits (call : GatewayCall) (context : Option Value) :
    (ToolGateway.execute call context : Db W GatewayResult).Uses (Permits rec) :=
  (ToolGateway.execute_stepless call context).mono fun _ h => h.permits

theorem runToolCallStep_records {step : ExecutionStep} (hn : (x, step.sequence) ∈ rec.announced)
    (hf : rec.fresh = none) (agentId : Id) (action : ToolAction) (retries : Nat) :
    Records (runToolCallStep x agentId action retries step : Db W RuntimeResult) rec := by
  cases retries with
  | zero =>
    exact records_bind hf (execute_permits _ _) fun _ => records_bind hf ⟨trivial, fun _ => trivial⟩ fun _ =>
      records_of_uses hf (recordResult_permits hn action _ _)
  | succ retries =>
    refine records_bind hf (execute_permits _ _) fun result =>
      records_bind hf ⟨trivial, fun _ => trivial⟩ fun toolRequestId => ?_
    split
    · -- the step is saved without an event, and the call is followed no further
      refine ⟨fun _ _ => trivial, fun now => ⟨fun _ _ => trivial, fun _ => ?_⟩⟩
      exact unfollowed (fun _ => nofun) (fun _ => nofun) _
    · exact records_of_uses hf (recordResult_permits hn action _ _)

/-- A step is claimed, and what follows knows it. -/
theorem claimStep_records {β : Type} (hf : rec.fresh = none) (type : StepType) (input : StepInput)
    {k : Option ExecutionStep → Db W β} (lost : Records (k none) rec)
    (claimed : ∀ step : ExecutionStep, step.stepType = type → Records (k (some step)) (rec.claim x step)) :
    Records ((claimStep x type input).bind k : Db W β) rec := by
  refine ⟨fun _ _ => trivial, fun (last : Nat) => ⟨fun _ h => Option.some.inj h ▸ hf, fun (inserted : Bool) => ?_⟩⟩
  cases inserted with
  | false => exact lost
  | true => exact claimed _ rfl

/-- What ends the execution with a final step of its own. -/
theorem finalizeTerminal_final {n : Nat} (hn : (x, n) ∈ rec.final) {status : StepStatus} {output : StepOutput}
    {type : AuditEventType} {metadata : List (String × Value)} {terminal : ExecutionStatus}
    (hw : status ≠ .waitingApproval) (hs : type ≠ .executionStepStarted)
    (hm : metadata.lookup "step_sequence" = none ∨ metadata.lookup "step_sequence" = some (.int n)) :
    (finalizeTerminal x n status output type metadata terminal : Db W Unit).Uses (Permits rec) := by
  have about (seq : Nat) (type : AuditEventType) {metadata' : List (String × Value)}
      (hm' : metadata'.lookup "step_sequence" = metadata.lookup "step_sequence") :
      ∀ k, (event seq type metadata').stepSequence = some k → k = n := by
    intro k hk
    simp only [AuditEvent.stepSequence, event, hm'] at hk
    split at hk
    · rcases hm with hm | hm <;> rw [hm] at hk <;> cases hk
      rfl
    · cases hk
  refine finalizeTerminal_permits hs (fun completedAt seq => ?_) fun completedAt actual seq => ?_
  · exact .ending _ _ rfl rfl hw hs (about seq type rfl) hn
  · refine .ending _ _ rfl rfl hw (by simp [event]) (about seq _ ?_) hn
    rcases hm with hm | hm <;> simp [List.lookup_append, List.lookup_cons, hm]

theorem finalStep_records (hf : rec.fresh = none) (decision reason : String) (code : Option String)
    {status : StepStatus} {type : AuditEventType} {metadata : Nat → List (String × Value)}
    {terminal : ExecutionStatus} (result : RuntimeStatus) (hw : status ≠ .waitingApproval)
    (hs : type ≠ .executionStepStarted) (hm : ∀ n, (metadata n).lookup "step_sequence" = none ∨
      (metadata n).lookup "step_sequence" = some (.int n)) :
    Records (finalStep x decision reason code status type metadata terminal result : Db W RuntimeResult) rec := by
  refine claimStep_records hf _ _ ?_ fun step htype => ?_
  · exact records_of_uses hf (.bind currentStatus_permits fun _ => trivial)
  · have claimed : rec.claim x step = { rec with final := (x, step.sequence) :: rec.final } := by
      simp [Recorder.claim, htype]
    rw [claimed]
    exact records_of_uses hf (.bind (finalizeTerminal_final List.mem_cons_self hw hs (hm _)) fun _ =>
      .bind currentStatus_permits fun _ => trivial)

theorem failMaxStepsExceeded_records (hf : rec.fresh = none) (history : List ExecutionStep)
    {k : Option RuntimeResult → Db W RuntimeResult} (ended : ∀ result m, Calm () m → (k (some result)).Obeys recording Calm Calm m)
    (rest : Records (k none) rec) : Records ((failMaxStepsExceeded x history).bind k : Db W RuntimeResult) rec := by
  unfold failMaxStepsExceeded
  split
  · exact rest
  · refine .bind (R := fun result m => Calm () m ∧ result.isSome) (.bind (finalStep_records hf _ _ _ _ (by decide)
      (by decide) fun n => .inr (by simp [stepMetadata])) (fun _ _ h => h) fun result m hm => ⟨hm, rfl⟩)
      (fun _ _ h => h) ?_
    rintro (_ | result) m ⟨hm, hr⟩
    · cases hr
    · exact ended result m hm

theorem toolCallStep_records (hf : rec.fresh = none) (agentId : Id) (action : ToolAction) :
    Records (toolCallStep x agentId action : Db W RuntimeResult) rec := by
  refine claimStep_records hf _ _ ?_ fun step htype => ?_
  · exact records_of_uses hf (.bind currentStatus_permits fun _ => trivial)
  · have claimed : rec.claim x step = { rec with fresh := some (x, step.sequence) } := by
      simp [Recorder.claim, htype]
    rw [claimed]
    refine .bind (announcement_recording rfl fun seq => ⟨_, rfl, rfl, stepMetadata_sequence seq _ _ (by decide)⟩)
      (fun _ _ hm => by rw [hm]; exact nofun) ?_
    rintro _ _ rfl
    exact runToolCallStep_records (List.mem_append_left _ (List.mem_singleton.2 rfl)) rfl agentId action 1

theorem advance_records (hf : rec.fresh = none) (execution : Execution) :
    Records (advance x execution : Db W RuntimeResult) rec := by
  refine records_bind hf ⟨trivial, fun _ => trivial⟩ fun history =>
    failMaxStepsExceeded_records hf _ (fun _ _ hm => hm) ?_
  simp only
  split
  · exact finalStep_records hf _ _ _ _ (by decide) (by decide) fun _ => .inl rfl
  · exact finalStep_records hf _ _ _ _ (by decide) (by decide) fun _ => .inl rfl
  · exact toolCallStep_records hf _ _

theorem submitWithin_records (hf : rec.fresh = none) (action : ToolAction) (execution : Execution) :
    Records (submitWithin x action execution : Db W RuntimeResult) rec :=
  records_bind hf ⟨trivial, fun _ => trivial⟩ fun _ =>
    failMaxStepsExceeded_records hf _ (fun _ _ hm => hm) (toolCallStep_records hf _ _)

theorem approvalNamed_permits (a : Option Id) : (approvalNamed a : Db W _).Uses (Permits rec) := by
  cases a with
  | none => trivial
  | some a => exact ⟨trivial, fun _ => trivial⟩

theorem resolvePendingStep_permits {step : ExecutionStep} (hn : (x, step.sequence) ∈ rec.announced) :
    (resolvePendingStep x step : Db W ResolvedApprovalOutcome).Uses (Permits rec) := by
  refine .bind (approvalNamed_permits _) fun approval => ?_
  split
  · trivial
  · split
    · trivial
    · exact .bind ⟨trivial, fun _ => trivial⟩ fun _ => .bind (finalizeTerminal_announced hn (fun _ _ => rfl)
        (by decide) (by decide) (.inl ⟨rfl, rfl⟩) rfl) fun _ => trivial
    · exact .bind ⟨trivial, fun _ => trivial⟩ fun _ => .bind (finalizeTerminal_announced hn (fun _ _ => rfl)
        (by decide) (by decide) (.inr ⟨rfl, rfl⟩) rfl) fun _ => trivial
    · refine .bind ⟨trivial, fun _ => trivial⟩ fun toolRequest => ?_
      simp only
      split
      · exact .bind (finalize_permits hn _ _ _ _ (fun _ _ => rfl) (by decide) (by decide)) fun _ => trivial
      · exact .bind (finalizeTerminal_announced hn (fun _ _ => rfl) (by decide) (by decide) (.inr ⟨rfl, rfl⟩) rfl)
          fun _ => trivial
    · exact .bind ⟨trivial, fun _ => trivial⟩ fun _ => trivial

theorem settlePendingStep_permits {step : ExecutionStep} (hn : (x, step.sequence) ∈ rec.announced) :
    (settlePendingStep x step : Db W ResolvedApprovalOutcome).Uses (Permits rec) := by
  refine .bind (resolvePendingStep_permits hn) fun outcome => ?_
  split
  · trivial
  · refine .bind (Uses.mono (commitChunk_stepless fun _ => ⟨rfl, ?_⟩) fun _ h => h.permits) fun _ => trivial
    simp [eventRows, event, stepEvents]

theorem settledResult_permits (execution : Execution) (step : ExecutionStep) (outcome : ResolvedApprovalOutcome) :
    (settledResult x execution step outcome : Db W RuntimeResult).Uses (Permits rec) := by
  unfold settledResult
  simp only
  split
  · trivial
  · exact .bind currentStatus_permits fun _ => trivial

/-- A step that is found in `WAITING_APPROVAL` has been announced. -/
theorem pendingApprovalStep_records {β : Type} {k : Option ExecutionStep → Db W β} (none : Records (k none) rec)
    (some : ∀ (step : ExecutionStep) rec', rec'.fresh = rec.fresh → (x, step.sequence) ∈ rec'.announced →
      Records (k (some step)) rec') :
    Records ((query (.pendingApprovalStep x) : Db W (Option ExecutionStep)).bind k : Db W β) rec := by
  refine ⟨fun _ _ => trivial, fun (step : Option ExecutionStep) => ?_⟩
  cases step with
  | none => exact none
  | some step => exact some step _ rfl (List.mem_append_left _ (by simp))

theorem resumePending_records (hf : rec.fresh = none) (execution : Execution) :
    Records (resumePending x execution : Db W RuntimeResult) rec := by
  refine pendingApprovalStep_records (Knows.calm (a := ()) rfl hf) fun step rec' hfresh hn => ?_
  have hf' := hfresh.trans hf
  refine records_bind hf' (settlePendingStep_permits hn) fun outcome => ?_
  split
  · refine records_bind hf' ⟨trivial, fun _ => trivial⟩ fun execution => ?_
    cases (show Option Execution from execution) with
    | none => exact Knows.calm (a := ()) rfl hf'
    | some execution => exact advance_records hf' execution
  · exact records_of_uses hf' (settledResult_permits _ _ _)

theorem reconcilePending_records (hf : rec.fresh = none) (execution : Execution) :
    Records (reconcilePending x execution : Db W RuntimeResult) rec := by
  refine pendingApprovalStep_records (Knows.calm (a := ()) rfl hf) fun step rec' hfresh hn => ?_
  have hf' := hfresh.trans hf
  exact records_bind hf' (settlePendingStep_permits hn) fun outcome =>
    records_of_uses hf' (settledResult_permits _ _ _)

end AgentRuntime

section Calls

variable {p : Program W.statements ε α} {m : Option Recorder}

/-- What holds of a followed call is enough. -/
theorem calm_cases (hm : Calm () m) (h : ∀ rec : Recorder, rec.fresh = none → p.Obeys recording Calm Calm (some rec)) :
    p.Obeys recording Calm Calm m := by
  cases m with
  | none => exact unfollowed (fun _ => nofun) (fun _ => nofun) p
  | some rec => exact h rec (hm rec rfl)

theorem Stepless.calm (h : p.Uses Stepless) (hm : Calm () m) : p.Obeys recording Calm Calm m :=
  calm_cases hm fun _ hf => AgentRuntime.records_of_uses hf (h.mono fun _ h => h.permits)

theorem Critical.calm {x : Id} (h : Critical x p) (hm : Calm () m) : p.Obeys recording Calm Calm m := by
  refine calm_cases hm fun rec hf => ?_
  cases h with
  | advance execution => exact AgentRuntime.advance_records hf execution
  | submit action execution => exact AgentRuntime.submitWithin_records hf action execution
  | resume execution => exact AgentRuntime.resumePending_records hf execution
  | reconcile execution => exact AgentRuntime.reconcilePending_records hf execution

theorem LeasePart.calm (h : LeasePart p) (hm : Calm () m) : p.Obeys recording Calm Calm m := by
  cases h with
  | query q =>
    refine calm_cases hm fun rec hf => ⟨fun _ _ => trivial, fun r => ?_⟩
    cases q with
    | pendingApprovalStep y => exact fun _ h => Option.some.inj h ▸ hf
    | _ => exact Knows.calm (a := ()) rfl hf
  | critical x conflict body h =>
    have claim : (AgentRuntime.claimStepping x : Db W (Option Id × Execution)).Uses Stepless := by
      refine .bind ⟨trivial, fun _ => trivial⟩ fun _ => .bind ⟨trivial, fun _ => trivial⟩ fun _ =>
        .bind ⟨trivial, fun _ => trivial⟩ fun _ => .bind ⟨trivial, fun _ => trivial⟩ fun execution => ?_
      split <;> trivial
    refine .bind (Stepless.calm claim hm) (fun _ _ h => h) ?_
    rintro ⟨_ | claimId, execution⟩ m hm
    · exact hm
    · have release (m : Option Recorder) (hm : Calm () m) :
          (AgentRuntime.releaseStepping x claimId : Db W Unit).Obeys recording Calm Calm m :=
        Stepless.calm ⟨trivial, fun _ => trivial⟩ hm
      exact (obeys_tryFinally _ _).2 ((Composed.keeps (h execution) (I := Calm ()) (fun {_ _ _} h {_} hm => h.calm hm) hm).mono
        (fun _ m hm => release m hm) fun _ m hm => release m hm)

theorem AmendPart.calm (h : AmendPart p) (hm : Calm () m) : p.Obeys recording Calm Calm m := by
  cases h with
  | leasing h => exact h.calm hm
  | update row columns => exact Stepless.calm ⟨trivial, fun _ => trivial⟩ hm
  | audit x type metadata ht =>
    refine Stepless.calm (commitChunk_stepless fun seq => ⟨rfl, ?_⟩) hm
    rcases ht with rfl | rfl <;> simp [stepEvents]

theorem CallPart.calm (h : CallPart p) (hm : Calm () m) : p.Obeys recording Calm Calm m := by
  cases h with
  | service h =>
    cases h with
    | amend h => exact h.calm hm
    | insert row => exact Stepless.calm ⟨trivial, fun _ => trivial⟩ hm
    | start agentId objective context =>
      exact Stepless.calm (AgentRuntime.startExecution_stepless agentId objective context) hm
  | gateway call context => exact Stepless.calm (ToolGateway.execute_stepless call context) hm
  | resolve a operator approve reason => exact Stepless.calm (ApprovalEngine.resolve_stepless a operator approve reason) hm
  | cancel x => exact Stepless.calm (AgentRuntime.cancel_stepless x) hm

end Calls

/-- Every call announces the steps it takes, and records what becomes of them. -/
theorem Call.code_recording (call : Call) :
    (call.code : Db W CallResult).Obeys recording Calm Calm (some {}) :=
  Composed.keeps call.code_parts (I := Calm ()) (fun {_ _ _} h {_} hm => h.calm hm)
    fun _ h => Option.some.inj h ▸ rfl

end SafeOps
