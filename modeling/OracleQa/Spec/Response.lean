import OracleQa.Spec.Outcome

/-! What the operator can read off the response to a manual evaluation: a 200 is a settlement that
was confirmed, nothing else is, and a request that is turned away has left no trace. -/

namespace OracleQa.Response
open Interaction Pipeline Server Worker
open Settlement (History)
open Outcome (Settled Cause Unconfirmed unconfirmed_of_cut)

abbrev TimedEv := Event TCall TReply

def history (tr : List TimedEv) : History := tr.filterMap Prog.raced

def isCounter : Call → Bool
  | .countSettled _ => true
  | .countError _ => true
  | _ => false

def counted (tr : List TimedEv) : List Call :=
  (tr.map fun ev => ev.call.base).filter isCounter

inductive Inquires : TCall → Prop
  | clock : Inquires (.await .instantNow)
  | rate (now window limit : Nat) : Inquires (.await (.admitRequest now window limit))
  | read (key : Pubkey) : Inquires (.await (.getAccount key))

inductive Aside : TCall → Prop
  | inquires {c : TCall} (h : Inquires c) : Aside c
  | sql (q : Stmt) : Aside (.await (.sql q))

section
variable (crates : Crates) (cfg : OracleConfig) (headers : Headers) (paymentPubkey : String)

/-- The request was let in, and named a payment that was then read as this job. -/
def Requested (tr : List TimedEv) (job : EvaluationJob) : Prop :=
  checkToken crates cfg headers = .ok () ∧ ∃ key reply,
    crates.pubkeyFromStr paymentPubkey = some key ∧
    (⟨.await (.getAccount key), some reply⟩ : TimedEv) ∈ tr ∧
    Chain.jobOfReply crates cfg.oraclePubkey key reply = .ok (some job)

/-- How a response is to be read. -/
inductive Truthful (tr : List TimedEv) : ManualEvaluateResponse → Prop
  | settled {job : EvaluationJob} {o : PipelineOutcome}
      (hrequested : Requested crates cfg headers paymentPubkey tr job)
      (hsettled : Settled crates cfg job (history tr) o)
      (hcounted : counted tr = [.countSettled o.result.approved]) :
      Truthful tr ⟨200, o.result.approved, o.signature, o.result.checks, none⟩
  | failed {job : EvaluationJob} {msg : String}
      (hrequested : Requested crates cfg headers paymentPubkey tr job)
      (hunconfirmed : Unconfirmed (history tr))
      (hcause : (∃ e, msg = OracleError.toString e ∧ Cause crates cfg job (history tr) e) ∨
        msg = "Pipeline timed out after " ++ toString cfg.evaluationTimeoutMs ++ "ms" ∧
          ∃ before c, history tr = before ++ [⟨c, none⟩])
      (hcounted : counted tr = [.countError false]) : Truthful tr (refusal 500 msg)
  | refused {status : Nat} {msg : String} (hstatus : status ∈ [400, 401, 404, 429, 500, 503])
      (hidle : ∀ ev ∈ tr, Inquires ev.call) : Truthful tr (refusal status msg)

end

variable {crates : Crates} {cfg : OracleConfig} {headers : Headers} {paymentPubkey : String}
  {job : EvaluationJob} {tr tr' : List TimedEv}

theorem history_append : history (tr ++ tr') = history tr ++ history tr' := List.filterMap_append

theorem counted_append : counted (tr ++ tr') = counted tr ++ counted tr' := by
  unfold counted
  rw [List.map_append, List.filter_append]

theorem aside_quiet (h : ∀ ev ∈ tr, Aside ev.call) : history tr = [] ∧ counted tr = [] := by
  constructor
  · refine List.filterMap_eq_nil_iff.mpr fun ev hev => ?_
    have haside := h ev hev
    obtain ⟨c, r⟩ := ev
    rcases haside with ⟨⟨⟩⟩ | q <;> rfl
  · refine List.filter_eq_nil_iff.mpr fun c hc => ?_
    obtain ⟨ev, hev, rfl⟩ := List.mem_map.mp hc
    have haside := h ev hev
    obtain ⟨c, r⟩ := ev
    rcases haside with ⟨⟨⟩⟩ | q <;> exact Bool.false_ne_true

theorem recordStatus_aside (status : JobStatus) (lastError : Option String)
    (event : LifecycleEvent) (payload : EventPayload) :
    (Db.recordStatus crates job status lastError event payload).lift.Calls Aside := by
  refine ⟨.sql _, fun r _ => ?_⟩
  cases r with
  | error e => trivial
  | ok u => exact ⟨.sql _, fun _ _ => trivial⟩

theorem recordSettled_aside (result : EvaluationResult) (signature : Option String)
    (hash : Bytes32) : (Db.recordSettled crates job result signature hash).lift.Calls Aside := by
  refine ⟨.sql _, fun r _ => ?_⟩
  cases r with
  | error e => trivial
  | ok u =>
    refine ⟨.sql _, fun r _ => ?_⟩
    cases r with
    | error e => trivial
    | ok u => exact ⟨.sql _, fun _ _ => trivial⟩

/-! ## The parts of the handler -/

def Free (c : TCall) (_ : TReply c) : Prop := True

theorem count_runs {c : Call} (hc : isCounter c = true) {u : c.Reply}
    (h : Prog.Runs Free (await c) tr u) : history tr = [] ∧ counted tr = [c] := by
  obtain ⟨r, tr', -, hret, rfl⟩ := Prog.runs_call.mp h
  obtain ⟨rfl, -⟩ := Prog.runs_ret.mp hret
  refine ⟨rfl, ?_⟩
  rw [counted, List.map_singleton]
  exact List.filter_cons_of_pos hc

theorem record_runs {α : Type} {p : TaskCode α} (hp : p.Calls Aside) {c : Call}
    (hc : isCounter c = true) {u : c.Reply} (h : Prog.Runs Free (p >>= fun _ => await c) tr u) :
    history tr = [] ∧ counted tr = [c] := by
  obtain ⟨tr₁, a, tr₂, hrun, hcount, rfl⟩ := Prog.runs_bind.mp h
  obtain ⟨hhistory₁, hcounted₁⟩ := aside_quiet (hrun.calls hp)
  obtain ⟨hhistory₂, hcounted₂⟩ := count_runs hc hcount
  rw [history_append, counted_append, hhistory₁, hcounted₁, hhistory₂, hcounted₂]
  exact ⟨rfl, rfl⟩

theorem recordManualFailure_runs {msg : String} {u : Unit}
    (h : Prog.Runs Free (recordManualFailure crates cfg job msg) tr u) :
    history tr = [] ∧ counted tr = [.countError false] := by
  unfold recordManualFailure at h
  split at h
  · exact record_runs (recordStatus_aside _ _ _ _) rfl h
  · exact count_runs rfl h

theorem recordManualSettled_runs {o : PipelineOutcome} {u : Unit}
    (h : Prog.Runs Free (recordManualSettled crates cfg job o) tr u) :
    history tr = [] ∧ counted tr = [.countSettled o.result.approved] := by
  unfold recordManualSettled at h
  split at h
  · exact record_runs (recordSettled_aside _ _ _) rfl h
  · exact count_runs rfl h

def Ended (cfg : OracleConfig) (tr : List TimedEv) (response : ManualEvaluateResponse) :
    RunResult → Prop
  | some (.ok o) => counted tr = [.countSettled o.result.approved] ∧
      response = ⟨200, o.result.approved, o.signature, o.result.checks, none⟩
  | some (.error e) => counted tr = [.countError false] ∧ response = refusal 500 e.toString
  | none => counted tr = [.countError false] ∧ response = refusal 500
      ("Pipeline timed out after " ++ toString cfg.evaluationTimeoutMs ++ "ms")

theorem finishManual_runs {result : RunResult} {response : ManualEvaluateResponse}
    (h : Prog.Runs Free (finishManual crates cfg job result) tr response) :
    history tr = [] ∧ Ended cfg tr response result := by
  rcases result with _ | e | o
  all_goals
    obtain ⟨tr₁, u, tr₂, hrecord, hret, rfl⟩ := Prog.runs_bind.mp h
    obtain ⟨rfl, rfl⟩ := Prog.runs_ret.mp hret
    rw [List.append_nil]
  · obtain ⟨hhistory, hcounted⟩ := recordManualFailure_runs hrecord
    exact ⟨hhistory, hcounted, rfl⟩
  · obtain ⟨hhistory, hcounted⟩ := recordManualFailure_runs hrecord
    exact ⟨hhistory, hcounted, rfl⟩
  · obtain ⟨hhistory, hcounted⟩ := recordManualSettled_runs hrecord
    exact ⟨hhistory, hcounted, rfl⟩

theorem counted_timeout {result : RunResult}
    (h : Prog.Runs Free (timedPipeline crates cfg job) tr result) : counted tr = [] := by
  have hcalls : (timedPipeline crates cfg job).Calls fun c => isCounter c.base = false := by
    refine Prog.calls_timeout runPipeline_calls fun c hc => ?_
    cases c <;> first | rfl | cases hc
  refine List.filter_eq_nil_iff.mpr fun c hc => ?_
  obtain ⟨ev, hev, rfl⟩ := List.mem_map.mp hc
  exact Bool.not_eq_true _ ▸ h.calls hcalls ev hev

theorem evaluateManually_runs {response : ManualEvaluateResponse}
    (h : Prog.Runs Free (evaluateManually crates cfg job (timedPipeline crates cfg job)) tr
      response) :
    ∃ run result, Prog.Runs Free (timedPipeline crates cfg job) run result ∧
      history tr = history run ∧ Ended cfg tr response result := by
  have hrun : ∀ {tr}, Prog.Runs Free (timedPipeline crates cfg job >>= finishManual crates cfg job)
      tr response → ∃ run result, Prog.Runs Free (timedPipeline crates cfg job) run result ∧
        history tr = history run ∧ Ended cfg tr response result := by
    intro tr h
    obtain ⟨run, result, ended, hrun, hfinish, rfl⟩ := Prog.runs_bind.mp h
    obtain ⟨hhistory, hended⟩ := finishManual_runs hfinish
    have hcounted : counted (run ++ ended) = counted ended := by
      rw [counted_append, counted_timeout hrun, List.nil_append]
    refine ⟨run, result, hrun, ?_, ?_⟩
    · rw [history_append, hhistory, List.append_nil]
    · rcases result with _ | e | o <;> exact ⟨hcounted.trans hended.1, hended.2⟩
  unfold evaluateManually at h
  split at h
  · obtain ⟨queued, u, rest, hqueued, hrest, rfl⟩ := Prog.runs_bind.mp h
    obtain ⟨hhistory, hcounted⟩ := aside_quiet (hqueued.calls (recordStatus_aside _ _ _ _))
    obtain ⟨run, result, hrun, hhistory', hended⟩ := hrun hrest
    have hcounted' : counted (queued ++ rest) = counted rest := by
      rw [counted_append, hcounted, List.nil_append]
    refine ⟨run, result, hrun, ?_, ?_⟩
    · rw [history_append, hhistory, List.nil_append, hhistory']
    · rcases result with _ | e | o <;> exact ⟨hcounted'.trans hended.1, hended.2⟩
  · exact hrun h

theorem checkToken_status {status : Nat} {msg : String}
    (h : checkToken crates cfg headers = .error (status, msg)) : status ∈ [401, 503] := by
  unfold checkToken at h
  split at h
  · cases h
    decide
  split at h
  · cases h
  split at h
  · cases h
    decide
  split at h
  · cases h
    decide
  · cases h

theorem authorize_runs {r : Except (Nat × String) Unit}
    (h : Prog.Runs Free (authorizeManualEvaluate crates cfg headers).lift tr r) :
    (∀ ev ∈ tr, Inquires ev.call) ∧ (r = .ok () → checkToken crates cfg headers = .ok ()) ∧
      ∀ status msg, r = .error (status, msg) → status ∈ [401, 429, 503] := by
  unfold authorizeManualEvaluate at h
  split at h
  · next e he =>
    obtain ⟨rfl, rfl⟩ := Prog.runs_ret.mp h
    refine ⟨List.forall_mem_nil _, fun h => (by cases h), ?_⟩
    rintro status msg ⟨⟩
    have hstatus := checkToken_status he
    simp only [List.mem_cons, List.not_mem_nil, or_false] at hstatus ⊢
    exact hstatus.imp_right Or.inr
  · next hcheck =>
    obtain ⟨now, tr₁, -, h₁, rfl⟩ := Prog.runs_call.mp h
    obtain ⟨admitted, tr₂, -, h₂, rfl⟩ := Prog.runs_call.mp h₁
    cases admitted with
    | true =>
      obtain ⟨rfl, rfl⟩ := Prog.runs_ret.mp h₂
      refine ⟨?_, fun _ => hcheck, fun _ _ h => (by cases h)⟩
      simp [Inquires.clock, Inquires.rate]
    | false =>
      obtain ⟨rfl, rfl⟩ := Prog.runs_ret.mp h₂
      refine ⟨?_, fun h => (by cases h), ?_⟩
      · simp [Inquires.clock, Inquires.rate]
      · rintro status msg ⟨⟩
        decide

/-! ## The handler -/

theorem inquires_quiet (h : ∀ ev ∈ tr, Inquires ev.call) : history tr = [] ∧ counted tr = [] :=
  aside_quiet fun ev hev => .inquires (h ev hev)

theorem evaluated_truthful {response : ManualEvaluateResponse} {before rest : List TimedEv}
    (hbefore : ∀ ev ∈ before, Inquires ev.call)
    (hrequested : Requested crates cfg headers paymentPubkey before job)
    (h : Prog.Runs Free (evaluateManually crates cfg job (timedPipeline crates cfg job)) rest
      response) : Truthful crates cfg headers paymentPubkey (before ++ rest) response := by
  obtain ⟨run, result, hrun, hhistory, hended⟩ := evaluateManually_runs h
  obtain ⟨hhistory₀, hcounted₀⟩ := inquires_quiet hbefore
  have hhistory' : history (before ++ rest) = history run := by
    rw [history_append, hhistory₀, List.nil_append, hhistory]
  have hcounted' : counted (before ++ rest) = counted rest := by
    rw [counted_append, hcounted₀, List.nil_append]
  have hrequested' : Requested crates cfg headers paymentPubkey (before ++ rest) job := by
    obtain ⟨hcheck, key, reply, hkey, hmem, hread⟩ := hrequested
    exact ⟨hcheck, key, reply, hkey, List.mem_append_left rest hmem, hread⟩
  rcases result with _ | e | o
  · obtain ⟨hcounted, rfl⟩ := hended
    obtain ⟨seen, c, hcut, htrace⟩ := hrun.of_timeout_none
    have hcut' : history (before ++ rest) = seen ++ [⟨c, none⟩] := hhistory'.trans hcut
    rw [hcut] at htrace
    refine .failed hrequested' ?_ (Or.inr ⟨rfl, seen, c, hcut'⟩) (hcounted'.trans hcounted)
    rw [hcut']
    exact unconfirmed_of_cut htrace
  · obtain ⟨hcounted, rfl⟩ := hended
    obtain ⟨hcause, hunconfirmed⟩ := Outcome.failed_of_runs
      (hrun.of_timeout_some fun _ _ _ => trivial)
    rw [← history, ← hhistory'] at hcause hunconfirmed
    exact .failed hrequested' hunconfirmed (Or.inl ⟨e, rfl, hcause⟩) (hcounted'.trans hcounted)
  · obtain ⟨hcounted, rfl⟩ := hended
    have hsettled := Outcome.settled_of_runs (hrun.of_timeout_some fun _ _ _ => trivial)
    rw [← history, ← hhistory'] at hsettled
    exact .settled hrequested' hsettled (hcounted'.trans hcounted)

/-- Whatever the request, and whatever the replies to the calls of its handler. -/
theorem response_truthful (crates : Crates) (cfg : OracleConfig) (headers : Headers)
    (paymentPubkey : String) (tr : List TimedEv) (response : ManualEvaluateResponse)
    (h : Prog.Runs Free (manualEvaluate crates cfg headers paymentPubkey) tr response) :
    Truthful crates cfg headers paymentPubkey tr response := by
  obtain ⟨asked, r, rest, hasked, h, rfl⟩ := Prog.runs_bind.mp h
  obtain ⟨hinquires, hcheck, hstatus⟩ := authorize_runs hasked
  cases r with
  | error e =>
    obtain ⟨status, msg⟩ := e
    obtain ⟨rfl, rfl⟩ := Prog.runs_ret.mp h
    rw [List.append_nil]
    refine .refused ?_ hinquires
    have hmem := hstatus status msg rfl
    simp only [List.mem_cons, List.not_mem_nil, or_false] at hmem ⊢
    omega
  | ok u =>
    dsimp only at h
    split at h
    · obtain ⟨rfl, rfl⟩ := Prog.runs_ret.mp h
      rw [List.append_nil]
      exact .refused (by decide) hinquires
    · next key hkey =>
      obtain ⟨read, found, tail, hget, htail, rfl⟩ := Prog.runs_bind.mp h
      obtain ⟨reply, rest, -, hret, rfl⟩ := Prog.runs_call.mp hget
      obtain ⟨rfl, hread⟩ := Prog.runs_ret.mp hret
      have hbefore : ∀ ev ∈ asked ++ [⟨.await (.getAccount key), some reply⟩],
          Inquires ev.call := by
        intro ev hev
        rcases List.mem_append.mp hev with hev | hev
        · exact hinquires ev hev
        · rw [List.mem_singleton.mp hev]
          exact .read key
      rw [List.singleton_append, List.append_cons]
      rcases found with e | _ | job
      · obtain ⟨rfl, rfl⟩ := Prog.runs_ret.mp htail
        rw [List.append_nil]
        exact .refused (by decide) hbefore
      · obtain ⟨rfl, rfl⟩ := Prog.runs_ret.mp htail
        rw [List.append_nil]
        exact .refused (by decide) hbefore
      · have hmem : (⟨.await (.getAccount key), some reply⟩ : TimedEv) ∈
            asked ++ [⟨.await (.getAccount key), some reply⟩] :=
          List.mem_append_right asked (List.mem_singleton_self _)
        exact evaluated_truthful hbefore ⟨hcheck rfl, key, reply, hkey, hmem, hread⟩ htail

def inTime : (c : TCall) → TReply c
  | .await c => c.toyReply
  | .race c => some c.toyReply

theorem response_truthful_toy :
    let p := manualEvaluate .toy .toy ⟨none, none⟩ ""
    (p.eval inTime).status = 200 ∧
      Truthful .toy .toy ⟨none, none⟩ "" (p.transcript inTime) (p.eval inTime) :=
  ⟨by decide +kernel, response_truthful _ _ _ _ _ _ (Prog.runs_transcript (fun _ => trivial) _)⟩

end OracleQa.Response
