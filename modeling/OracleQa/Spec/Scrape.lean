import OracleQa.Spec.Accounting
import OracleQa.Spec.Subscription

/-! `/metrics` as a scraper sees it: every response reads back, its totals fit together, and no
counter falls from one response of a process to the next. -/

namespace OracleQa.Scrape
open Interaction Server Text

def metric (name help : String) (kind : MetricKind) (value : Nat)
    (h : Named name.toList help.toList) : Metric :=
  ⟨name.toList, help.toList, kind, value, h⟩

def metricList (stats : OracleStats) (h : HealthSnapshot) (uptime : Nat) : List Metric := [
  metric "oracle_qa_uptime_seconds" "Process uptime in seconds" .counter uptime
    ⟨by simp, by simp, by simp⟩,
  metric "oracle_qa_total_evaluated" "Total evaluations completed" .counter stats.totalEvaluated
    ⟨by simp, by simp, by simp⟩,
  metric "oracle_qa_total_approved" "Total evaluations approved" .counter stats.totalApproved
    ⟨by simp, by simp, by simp⟩,
  metric "oracle_qa_total_rejected" "Total evaluations rejected" .counter stats.totalRejected
    ⟨by simp, by simp, by simp⟩,
  metric "oracle_qa_total_errors" "Total pipeline errors" .counter stats.totalErrors
    ⟨by simp, by simp, by simp⟩,
  metric "oracle_qa_total_dead_letter" "Total jobs moved to dead_letter" .counter
    stats.totalDeadLetter ⟨by simp, by simp, by simp⟩,
  metric "oracle_qa_total_evidence_fetch_failures"
    "Total evidence registry fetch failures (post-retry)" .counter
    stats.totalEvidenceFetchFailures ⟨by simp, by simp, by simp⟩,
  metric "oracle_qa_queue_depth" "Current job channel queue depth" .gauge h.runtime.queueDepth
    ⟨by simp, by simp, by simp⟩,
  metric "oracle_qa_websocket_connected" "1 when the chain WebSocket subscription is active" .gauge
    (if h.monitor.websocketConnected then 1 else 0) ⟨by simp, by simp, by simp⟩,
  metric "oracle_qa_deliveries_observed"
    "Monotonic count of delivery events accepted into the pipeline" .counter
    h.runtime.deliveriesObserved ⟨by simp, by simp, by simp⟩,
  metric "oracle_qa_last_seen_slot" "Highest Solana slot observed by the chain monitor" .gauge
    h.runtime.lastSeenSlot ⟨by simp, by simp, by simp⟩]

def kindWord : MetricKind → String
  | .counter => "counter"
  | .gauge => "gauge"

theorem render_metric {name help : String} {k : MetricKind} {value : Nat}
    {h : Named name.toList help.toList} : Metric.render [metric name help k value h] =
      (exposition name help (kindWord k) value).toList := by
  have hkind : (kindWord k).toList = k.text := by cases k <;> rfl
  have hspace : " ".toList = [' '] := by simp
  have htype : "\n# TYPE ".toList = '\n' :: "# TYPE ".toList := by simp
  have hline : "\n".toList = ['\n'] := by simp
  rw [Metric.render_one]
  unfold exposition
  simp only [String.toList_append, List.append_assoc]
  rw [hspace, htype, hline, hkind]
  simp only [metric, List.cons_append, List.nil_append]

theorem metricsBody_render (stats : OracleStats) (h : HealthSnapshot) (uptime : Nat) :
    (metricsBody stats h uptime).toList = Metric.render (metricList stats h uptime) := by
  simp only [metricList, Metric.render_cons, render_metric, kindWord, metricsBody,
    String.toList_append, List.append_assoc]

/-! ## Counters -/

structure Grows (a b : OracleStats) : Prop where
  evaluated : a.totalEvaluated ≤ b.totalEvaluated
  approved : a.totalApproved ≤ b.totalApproved
  rejected : a.totalRejected ≤ b.totalRejected
  errors : a.totalErrors ≤ b.totalErrors
  deadLetter : a.totalDeadLetter ≤ b.totalDeadLetter
  evidence : a.totalEvidenceFetchFailures ≤ b.totalEvidenceFetchFailures

theorem Grows.refl (a : OracleStats) : Grows a a :=
  ⟨le_rfl, le_rfl, le_rfl, le_rfl, le_rfl, le_rfl⟩

theorem Grows.trans {a b c : OracleStats} (h : Grows a b) (h' : Grows b c) : Grows a c :=
  ⟨h.evaluated.trans h'.evaluated, h.approved.trans h'.approved, h.rejected.trans h'.rejected,
    h.errors.trans h'.errors, h.deadLetter.trans h'.deadLetter, h.evidence.trans h'.evidence⟩

def WorldGrows (w w' : World) : Prop :=
  Grows w.stats w'.stats ∧ w.health.deliveriesObserved ≤ w'.health.deliveriesObserved

structure Bounded (n : Nat) (w : World) : Prop where
  evaluated : w.stats.totalEvaluated ≤ n
  approved : w.stats.totalApproved ≤ n
  rejected : w.stats.totalRejected ≤ n
  errors : w.stats.totalErrors ≤ n
  deadLetter : w.stats.totalDeadLetter ≤ n
  evidence : w.stats.totalEvidenceFetchFailures ≤ n
  deliveries : w.health.deliveriesObserved ≤ n

inductive Counted (w w' : World) : Prop
  | none (hstats : w'.stats = w.stats)
      (hhealth : w'.health.deliveriesObserved = w.health.deliveriesObserved)
  | delivery (h : w' = w.observeDelivery)
  | settled (approved : Bool) (h : w' = w.countSettled approved)
  | error (deadLetter : Bool) (h : w' = w.countError deadLetter)
  | evidence (h : w' = w.countEvidenceFailure)

variable {crates : Crates} {cfg : OracleConfig}

theorem Counted.grows {w w' : World} (h : Counted w w') : WorldGrows w w' := by
  cases h with
  | none hstats hhealth => exact ⟨hstats ▸ Grows.refl _, hhealth.ge⟩
  | delivery h =>
    subst h
    exact ⟨.refl _, Nat.le_succ _⟩
  | settled approved h =>
    subst h
    exact ⟨⟨Nat.le_succ _, Nat.le_add_right .., Nat.le_add_right .., le_rfl, le_rfl, le_rfl⟩,
      le_rfl⟩
  | error deadLetter h =>
    subst h
    exact ⟨⟨le_rfl, le_rfl, le_rfl, Nat.le_succ _, Nat.le_add_right .., le_rfl⟩, le_rfl⟩
  | evidence h =>
    subst h
    exact ⟨⟨le_rfl, le_rfl, le_rfl, le_rfl, le_rfl, Nat.le_succ _⟩, le_rfl⟩

theorem Counted.bounded {w w' : World} {n : Nat} (h : Counted w w') (hw : Bounded n w) :
    Bounded (n + 1) w' := by
  have hone : ∀ {m : Nat} (b : Bool), m ≤ n → m + (if b then 1 else 0) ≤ n + 1 :=
    fun b hm => Nat.add_le_add hm (by cases b <;> decide)
  have hnot : ∀ {m : Nat} (b : Bool), m ≤ n → m + (if b then 0 else 1) ≤ n + 1 :=
    fun b hm => Nat.add_le_add hm (by cases b <;> decide)
  have hle : ∀ {m : Nat}, m ≤ n → m ≤ n + 1 := Nat.le_succ_of_le
  obtain ⟨h₁, h₂, h₃, h₄, h₅, h₆, h₇⟩ := hw
  cases h with
  | none hstats hhealth =>
    exact ⟨hle (hstats ▸ h₁), hle (hstats ▸ h₂), hle (hstats ▸ h₃), hle (hstats ▸ h₄),
      hle (hstats ▸ h₅), hle (hstats ▸ h₆), hle (hhealth ▸ h₇)⟩
  | delivery h =>
    subst h
    exact ⟨hle h₁, hle h₂, hle h₃, hle h₄, hle h₅, hle h₆, Nat.succ_le_succ h₇⟩
  | settled approved h =>
    subst h
    exact ⟨Nat.succ_le_succ h₁, hone approved h₂, hnot approved h₃, hle h₄, hle h₅, hle h₆, hle h₇⟩
  | error deadLetter h =>
    subst h
    exact ⟨hle h₁, hle h₂, hle h₃, Nat.succ_le_succ h₄, hone deadLetter h₅, hle h₆, hle h₇⟩
  | evidence h =>
    subst h
    exact ⟨hle h₁, hle h₂, hle h₃, hle h₄, hle h₅, Nat.succ_le_succ h₆, hle h₇⟩

theorem perform_counted {w w' : World} {c : Call} {choice : c.Choice} {r : c.Reply}
    (h : w.perform cfg c choice = some (r, w')) : Counted w w' := by
  have hraise : ∀ slot, Counted w (w.raiseLastSeenSlot slot) := by
    intro slot
    unfold World.raiseLastSeenSlot
    split <;> exact .none rfl rfl
  cases c with
  | sendAndConfirm tx =>
    obtain ⟨chain, rfl, -⟩ := World.performSend_frame h
    exact .none rfl rfl
  | sendJob job =>
    obtain ⟨-, hsent⟩ := Option.ite_none_right_eq_some.mp h
    obtain ⟨-, rfl⟩ := Prod.mk.inj (Option.some.inj hsent)
    exact .none rfl rfl
  | sql q =>
    obtain rfl := congrArg Prod.snd (Option.some.inj h)
    cases choice <;> exact .none (by simp [World.performSql, World.execStmt_snd])
      (by simp [World.performSql, World.execStmt_snd])
  | admitRequest now window limit =>
    obtain rfl := congrArg Prod.snd (Option.some.inj h)
    unfold World.admitRequest
    dsimp only
    split <;> exact .none rfl rfl
  | observeSlot slot =>
    obtain rfl := congrArg Prod.snd (Option.some.inj h)
    exact hraise slot
  | raiseLastSeenSlot slot =>
    obtain rfl := congrArg Prod.snd (Option.some.inj h)
    exact hraise slot
  | observeDelivery => exact .delivery (congrArg Prod.snd (Option.some.inj h)).symm
  | countSettled approved => exact .settled approved (congrArg Prod.snd (Option.some.inj h)).symm
  | countError deadLetter => exact .error deadLetter (congrArg Prod.snd (Option.some.inj h)).symm
  | countEvidenceFailure => exact .evidence (congrArg Prod.snd (Option.some.inj h)).symm
  | _ =>
    obtain rfl := congrArg Prod.snd (Option.some.inj h)
    exact .none rfl rfl

theorem performTimed_counted {w w' : World} {c : TCall} {choice : Timed.Choice c} {r : TReply c}
    (h : w.performTimed cfg c choice = some (r, w')) : Counted w w' := by
  cases c with
  | await c => exact perform_counted h
  | race c =>
    cases choice with
    | finished choice =>
      obtain ⟨p, hp, hr⟩ := Option.map_eq_some_iff.mp h
      obtain ⟨-, rfl⟩ := Prod.mk.inj hr
      exact perform_counted hp
    | droppedBefore =>
      obtain ⟨-, rfl⟩ := Prod.mk.inj (Option.some.inj h)
      exact .none rfl rfl
    | droppedAfter choice =>
      obtain ⟨p, hp, hr⟩ := Option.map_eq_some_iff.mp h
      obtain ⟨-, rfl⟩ := Prod.mk.inj hr
      exact perform_counted hp

theorem next_counted {s s' : System} {a : Act} (h : s.next crates cfg a = some s')
    (ha : a ≠ .crash) : Counted s.world s'.world := by
  cases System.next_move h with
  | call hcode hw => exact performTimed_counted hw
  | crash => exact absurd rfl ha
  | spawn hentry hexecuted => exact .none rfl rfl
  | execLate hq => exact .none rfl rfl
  | land htx hnone => exact .none rfl rfl
  | resolve hnone => exact .none rfl rfl

/-- The `u64` counters take `2 ^ 64` steps to wrap around or to saturate. -/
theorem counters_bounded {as : List Act} {s : System}
    (h : runActs (System.next crates cfg) as .init = some s) : Bounded as.length s.world := by
  have hall : ∀ (as : List Act) (n : Nat) {s s' : System}, Bounded n s.world →
      runActs (System.next crates cfg) as s = some s' → Bounded (n + as.length) s'.world := by
    intro as
    induction as with
    | nil =>
      intro n s s' hs hrun
      obtain rfl := Option.some.inj hrun
      exact hs
    | cons a as ih =>
      intro n s s' hs hrun
      obtain ⟨s₁, hnext, hrest⟩ := Option.bind_eq_some_iff.mp hrun
      have hs₁ : Bounded (n + 1) s₁.world := by
        by_cases ha : a = .crash
        · subst ha
          obtain rfl := Option.some.inj hnext
          exact ⟨Nat.zero_le _, Nat.zero_le _, Nat.zero_le _, Nat.zero_le _, Nat.zero_le _,
            Nat.zero_le _, Nat.zero_le _⟩
        · exact (next_counted hnext ha).bounded hs
      have hs' := ih (n + 1) hs₁ hrest
      rwa [Nat.add_right_comm, Nat.add_assoc] at hs'
  have hinit : Bounded 0 System.init.world :=
    ⟨le_rfl, le_rfl, le_rfl, le_rfl, le_rfl, le_rfl, le_rfl⟩
  have hbounded := hall as 0 hinit h
  rwa [Nat.zero_add] at hbounded

/-! ## A request for `/metrics` -/

inductive Scraping (stats : StatsSnapshot → Prop) (runtime : HealthSnapshot → Prop)
    (uptime : Nat → Prop) : Handler Response → Prop
  | start : Scraping stats runtime uptime metrics
  | stats {s : StatsSnapshot} (hs : stats s) : Scraping stats runtime uptime
      (probe .readHealth >>= fun h => probe .elapsedSecs >>= fun u =>
        pure ⟨200, .text (metricsBody s.stats h u)⟩)
  | runtime {s : StatsSnapshot} {h : HealthSnapshot} (hs : stats s) (hh : runtime h) :
      Scraping stats runtime uptime
        (probe .elapsedSecs >>= fun u => pure ⟨200, .text (metricsBody s.stats h u)⟩)
  | done {s : StatsSnapshot} {h : HealthSnapshot} {u : Nat} (hs : stats s) (hh : runtime h)
      (hu : uptime u) : Scraping stats runtime uptime (.ret ⟨200, .text (metricsBody s.stats h u)⟩)

section
variable {stats stats' : StatsSnapshot → Prop} {runtime runtime' : HealthSnapshot → Prop}
  {uptime uptime' : Nat → Prop} {code : Handler Response} {l l' : Live}

theorem Scraping.mono (h : Scraping stats runtime uptime code) (hstats : ∀ s, stats s → stats' s)
    (hruntime : ∀ h, runtime h → runtime' h) (huptime : ∀ u, uptime u → uptime' u) :
    Scraping stats' runtime' uptime' code := by
  cases h with
  | start => exact .start
  | stats hs => exact .stats (hstats _ hs)
  | runtime hs hh => exact .runtime (hstats _ hs) (hruntime _ hh)
  | done hs hh hu => exact .done (hstats _ hs) (hruntime _ hh) (huptime _ hu)

theorem Scraping.answered {p : Probe} {k : p.Reply → Handler Response}
    (h : Scraping stats runtime uptime (.call p k)) (r : Except String Nat)
    (hstats : stats ⟨l.sys.world.stats, l.lastEvaluationAt⟩)
    (hruntime : runtime ⟨l.monitor, l.sys.world.health⟩) (huptime : uptime l.uptime) :
    Scraping stats runtime uptime (k (l.reply r p)) := by
  generalize hcode : Prog.call p k = code at h
  cases h with
  | start =>
    obtain ⟨rfl, hk⟩ := Prog.call.inj hcode
    obtain rfl := eq_of_heq hk
    exact .stats hstats
  | stats hs =>
    obtain ⟨rfl, hk⟩ := Prog.call.inj hcode
    obtain rfl := eq_of_heq hk
    exact .runtime hs hruntime
  | runtime hs hh =>
    obtain ⟨rfl, hk⟩ := Prog.call.inj hcode
    obtain rfl := eq_of_heq hk
    exact .done hs hh huptime
  | done hs hh hu => cases hcode

theorem Scraping.body {resp : Response} (h : Scraping stats runtime uptime (.ret resp)) :
    ∃ s h u, stats s ∧ runtime h ∧ uptime u ∧ resp = ⟨200, .text (metricsBody s.stats h u)⟩ := by
  generalize hcode : Prog.ret resp = code at h
  cases h with
  | done hs hh hu => exact ⟨_, _, _, hs, hh, hu, Prog.ret.inj hcode⟩
  | _ => cases hcode

/-- The totals fit together. -/
def Fits (s : OracleStats) : Prop :=
  s.totalApproved + s.totalRejected = s.totalEvaluated ∧ s.totalDeadLetter ≤ s.totalErrors

theorem fits_of_reach (hl : Reach (Live.next crates cfg) (fun _ _ => True) (.fresh .init) l) :
    Fits l.sys.world.stats ∧ l.sys.world.health.queueDepth ≤ cfg.jobChannelCapacity := by
  obtain ⟨t, ht, hreach⟩ := Accounting.tally_of_reach (Subscription.sys_reached hl)
  obtain ⟨n, hn⟩ := Accounting.books_of_reach hreach
  rw [← ht]
  exact ⟨⟨hn.verdicts, hn.dead⟩, hn.depth⟩

def Past (cfg : OracleConfig) (l : Live) : Handler Response → Prop :=
  Scraping (fun s => Fits s.stats ∧ Grows s.stats l.sys.world.stats)
    (fun h => h.runtime.queueDepth ≤ cfg.jobChannelCapacity ∧
      h.runtime.deliveriesObserved ≤ l.sys.world.health.deliveriesObserved)
    fun u => u ≤ l.uptime

def Since (l : Live) : Handler Response → Prop :=
  Scraping (fun s => Grows l.sys.world.stats s.stats)
    (fun h => l.sys.world.health.deliveriesObserved ≤ h.runtime.deliveriesObserved)
    fun u => l.uptime ≤ u

def renews : LiveAct → Bool
  | .system .crash _ => true
  | .system .start _ => true
  | _ => false

theorem live_grows {a : LiveAct} (h : l.next crates cfg a = some l') (ha : renews a = false) :
    WorldGrows l.sys.world l'.sys.world ∧ l.uptime ≤ l'.uptime := by
  by_cases hsystem : ∃ b now, a = .system b now
  · obtain ⟨b, now, rfl⟩ := hsystem
    obtain ⟨-, hnext, heq⟩ := Live.next_system h
    have hcrash : b ≠ .crash := by
      rintro rfl
      cases ha
    refine ⟨(next_counted hnext hcrash).grows, ?_⟩
    rw [heq]
    unfold Live.follow
    split
    · exact absurd rfl hcrash
    · cases ha
    · split <;> exact le_rfl
  · have hturned := Live.next_turned h fun b now h => hsystem ⟨b, now, h⟩
    rw [Subscription.turned_sys hturned]
    refine ⟨(Counted.none rfl rfl).grows, ?_⟩
    cases hturned with
    | same huptime requests => exact huptime
    | _ => exact le_rfl

theorem requests_renewed {a : LiveAct} (h : l.next crates cfg a = some l') (ha : renews a = true)
    (n : Nat) : l'.requests n = none := by
  cases a with
  | system b now =>
    obtain ⟨-, -, heq⟩ := Live.next_system h
    rw [heq]
    cases b <;> first | rfl | cases ha
  | _ => cases ha

theorem past_next {a : LiveAct}
    (hl : Reach (Live.next crates cfg) (fun _ _ => True) (.fresh .init) l)
    (hpast : ∀ n q, l.requests n = some q → q.endpoint = .metrics → Past cfg l q.code)
    (h : l.next crates cfg a = some l') :
    ∀ n q, l'.requests n = some q → q.endpoint = .metrics → Past cfg l' q.code := by
  intro n q' hq' hmetrics
  by_cases hrenews : renews a = true
  · rw [requests_renewed h hrenews n] at hq'
    cases hq'
  obtain ⟨hgrows, huptime⟩ := live_grows h (Bool.eq_false_of_not_eq_true hrenews)
  have hmono : ∀ code, Past cfg l code → Past cfg l' code := fun code hcode =>
    hcode.mono (fun s hs => ⟨hs.1, hs.2.trans hgrows.1⟩) (fun h hh => ⟨hh.1, hh.2.trans hgrows.2⟩)
      fun u hu => hu.trans huptime
  rcases Live.requests_next h hq' with hold | ⟨e, rfl⟩ | ⟨q, p, k, r, hq, hcode, -, rfl⟩
  · exact hmono _ (hpast n q' hold hmetrics)
  · obtain rfl : e = .metrics := hmetrics
    exact .start
  · obtain ⟨-, hk, he⟩ := Subscription.answered_slotOk q none
    rw [hk]
    have hbefore := hpast n q hq (he.symm.trans hmetrics)
    rw [hcode] at hbefore
    obtain ⟨hfits, hdepth⟩ := fits_of_reach hl
    exact hmono _ (hbefore.answered r ⟨hfits, .refl _⟩ ⟨hdepth, le_rfl⟩ le_rfl)

theorem past_of_reach (hl : Reach (Live.next crates cfg) (fun _ _ => True) (.fresh .init) l) :
    ∀ n q, l.requests n = some q → q.endpoint = .metrics → Past cfg l q.code := by
  induction hl with
  | first => exact fun _ _ h => by cases h
  | next hl _ hnext ih => exact past_next hl ih hnext

end

/-! ## Responses -/

def samples (ms : List Metric) : List (String × Nat) :=
  ms.map fun m => (String.ofList m.name, m.value)

def sampled (stats : OracleStats) (h : HealthSnapshot) (uptime : Nat) : List (String × Nat) := [
  ("oracle_qa_uptime_seconds", uptime),
  ("oracle_qa_total_evaluated", stats.totalEvaluated),
  ("oracle_qa_total_approved", stats.totalApproved),
  ("oracle_qa_total_rejected", stats.totalRejected),
  ("oracle_qa_total_errors", stats.totalErrors),
  ("oracle_qa_total_dead_letter", stats.totalDeadLetter),
  ("oracle_qa_total_evidence_fetch_failures", stats.totalEvidenceFetchFailures),
  ("oracle_qa_queue_depth", h.runtime.queueDepth),
  ("oracle_qa_websocket_connected", if h.monitor.websocketConnected then 1 else 0),
  ("oracle_qa_deliveries_observed", h.runtime.deliveriesObserved),
  ("oracle_qa_last_seen_slot", h.runtime.lastSeenSlot)]

theorem samples_metricList (stats : OracleStats) (h : HealthSnapshot) (u : Nat) :
    samples (metricList stats h u) = sampled stats h u := by
  simp only [samples, metricList, metric, sampled, List.map_cons, List.map_nil,
    String.ofList_toList]

theorem scrape_metricsBody (stats : OracleStats) (h : HealthSnapshot) (u : Nat) :
    Metric.scrape (metricsBody stats h u).toList = some (metricList stats h u) := by
  rw [metricsBody_render, Metric.scrape_render]

/-- A response of `/metrics` reads back as the eleven metrics, and they fit together, although they
are read under two locks one after the other. -/
theorem scrape_consistent (crates : Crates) (cfg : OracleConfig) (l : Live) (n : Nat) (q : Request)
    (resp : Response) (hl : Reach (Live.next crates cfg) (fun _ _ => True) (.fresh .init) l)
    (hq : l.requests n = some q) (hmetrics : q.endpoint = .metrics) (hcode : q.code = .ret resp) :
    ∃ body ms stats h uptime, resp = ⟨200, .text body⟩ ∧ Metric.scrape body.toList = some ms ∧
      samples ms = sampled stats h uptime ∧
      stats.totalApproved + stats.totalRejected = stats.totalEvaluated ∧
      stats.totalDeadLetter ≤ stats.totalErrors ∧
      h.runtime.queueDepth ≤ cfg.jobChannelCapacity := by
  have hpast := past_of_reach hl n q hq hmetrics
  rw [hcode] at hpast
  obtain ⟨s, h, u, hs, hh, -, rfl⟩ := hpast.body
  exact ⟨_, _, s.stats, h, u, rfl, scrape_metricsBody .., samples_metricList .., hs.1.1, hs.1.2,
    hh.1⟩

def scraped (n : Nat) : List LiveAct :=
  [.get n .metrics, .answer n (.ok 0), .answer n (.ok 0), .answer n (.ok 0)]

theorem scraped_run {l : Live} {n : Nat} (hup : l.sys.up = true) (hfree : l.requests n = none) :
    ∃ l' q, runActs (Live.next crates cfg) (scraped n) l = some l' ∧ l'.sys = l.sys ∧
      l'.requests n = some q ∧ q.endpoint = .metrics ∧
      q.code = .ret ⟨200, .text (metricsBody l.sys.world.stats ⟨l.monitor, l.sys.world.health⟩
        l.uptime)⟩ := by
  have hanswer : ∀ {l : Live} {q : Request} {p : Probe} {k : p.Reply → Handler Response}
      {r : Except String Nat} {as : List LiveAct}, l.requests n = some q → q.code = .call p k →
      runActs (Live.next crates cfg) (.answer n r :: as) l = runActs (Live.next crates cfg) as
        (l.putRequest n (some (q.answered p (l.reply r p) k))) := by
    intro l q p k r as hq hcode
    simp only [runActs, Live.next, hq, hcode, Option.bind_some]
  have hready : (l.sys.up && (l.requests n).isNone) = true := by
    rw [hup, hfree]
    rfl
  rw [scraped, runActs, Live.next, if_pos hready, Option.bind_some,
    hanswer (Live.putRequest_self ..) rfl, hanswer (Live.putRequest_self ..) rfl,
    hanswer (Live.putRequest_self ..) rfl]
  exact ⟨_, _, rfl, rfl, Live.putRequest_self .., rfl, rfl⟩

theorem sampled_stats {stats stats' : OracleStats} {h h' : HealthSnapshot} {u u' : Nat}
    (heq : sampled stats h u = sampled stats' h' u') : stats = stats' := by
  simp only [sampled, List.cons.injEq, Prod.mk.injEq, true_and] at heq
  obtain ⟨-, h₁, h₂, h₃, h₄, h₅, h₆, -⟩ := heq
  cases stats
  cases stats'
  simp_all

def untold : (c : TCall) → Timed.Choice c
  | .race (.getAccount _) => .finished (.error "connection refused")
  | c => Timed.toyChoice c

def evaluations : List LiveAct :=
  .system (.request 0 ⟨none, none⟩ "") "" ::
    List.replicate 17 (.system (.step (.handler 0) Timed.toyChoice) "") ++
  .system (.request 1 ⟨none, none⟩ "") "" ::
    List.replicate 9 (.system (.step (.handler 1) untold) "")

theorem counted_start : (runActs (Live.next .toy .toy) (.system .start "" :: evaluations)
    (.fresh .init)).map (fun l => (l.sys.up, (l.requests 0).isNone, l.sys.world.stats)) =
      some (true, true, ⟨1, 1, 0, 1, 0, 0⟩) := by
  decide +kernel

theorem scrape_consistent_counted : ∃ l l' q resp body ms stats h uptime,
    runActs (Live.next .toy .toy) (.system .start "" :: evaluations) (.fresh .init) = some l ∧
    runActs (Live.next .toy .toy) (scraped 0) l = some l' ∧ l'.requests 0 = some q ∧
    q.code = .ret resp ∧ resp = ⟨200, .text body⟩ ∧ Metric.scrape body.toList = some ms ∧
    samples ms = sampled stats h uptime ∧ stats.totalEvaluated = 1 ∧ stats.totalErrors = 1 ∧
    stats.totalApproved + stats.totalRejected = stats.totalEvaluated ∧
    stats.totalDeadLetter ≤ stats.totalErrors ∧
    h.runtime.queueDepth ≤ OracleConfig.toy.jobChannelCapacity := by
  obtain ⟨l, hrun, hl⟩ := Option.map_eq_some_iff.mp counted_start
  obtain ⟨hup, hrest⟩ := Prod.mk.inj hl
  obtain ⟨hfree, hstats⟩ := Prod.mk.inj hrest
  obtain ⟨l', q, hrun', -, hq, hmetrics, hcode⟩ :=
    @scraped_run .toy .toy _ _ hup (Option.isNone_iff_eq_none.mp hfree)
  have hl' : Reach (Live.next .toy .toy) (fun _ _ => True) (.fresh .init) l' :=
    (Reach.first.runActs (fun _ _ _ => trivial) hrun).runActs (fun _ _ _ => trivial) hrun'
  obtain ⟨body, ms, stats, h, u, hresp, hscrape, hsamples, hverdicts, hdead, hdepth⟩ :=
    scrape_consistent .toy .toy l' 0 q _ hl' hq hmetrics hcode
  obtain rfl := Body.text.inj (Response.mk.inj hresp).2
  have hcounted : stats = ⟨1, 1, 0, 1, 0, 0⟩ := by
    rw [scrape_metricsBody] at hscrape
    obtain rfl := Option.some.inj hscrape
    rw [samples_metricList, hstats] at hsamples
    exact (sampled_stats hsamples).symm
  exact ⟨l, l', q, _, _, ms, stats, h, u, hrun, hrun', hq, hcode, rfl, hscrape, hsamples,
    hcounted ▸ rfl, hcounted ▸ rfl, hverdicts, hdead, hdepth⟩

/-! ## One response after another -/

def Follows (m m' : Metric) : Prop :=
  m'.name = m.name ∧ m'.kind = m.kind ∧ (m.kind = .counter → m.value ≤ m'.value)

theorem follows_metricList {stats stats' : OracleStats} {h h' : HealthSnapshot} {u u' : Nat}
    (hstats : Grows stats stats')
    (hh : h.runtime.deliveriesObserved ≤ h'.runtime.deliveriesObserved) (hu : u ≤ u') :
    List.Forall₂ Follows (metricList stats h u) (metricList stats' h' u') := by
  have hcounter : ∀ {name help : String} {v v' : Nat} {hn hn' : Named name.toList help.toList},
      v ≤ v' → Follows (metric name help .counter v hn) (metric name help .counter v' hn') :=
    fun hv => ⟨rfl, rfl, fun _ => hv⟩
  have hgauge : ∀ {name help : String} {v v' : Nat} {hn hn' : Named name.toList help.toList},
      Follows (metric name help .gauge v hn) (metric name help .gauge v' hn') :=
    ⟨rfl, rfl, fun h => by cases h⟩
  exact .cons (hcounter hu) <| .cons (hcounter hstats.evaluated) <|
    .cons (hcounter hstats.approved) <| .cons (hcounter hstats.rejected) <|
    .cons (hcounter hstats.errors) <| .cons (hcounter hstats.deadLetter) <|
    .cons (hcounter hstats.evidence) <| .cons hgauge <| .cons hgauge <| .cons (hcounter hh) <|
    .cons hgauge .nil

section
variable {l₀ l l' : Live}

/-- Of a process since `l₀`: what has come in after it reads no less than there was then. -/
structure Later (l₀ : Live) (m : Nat) (l : Live) : Prop where
  grows : WorldGrows l₀.sys.world l.sys.world
  uptime : l₀.uptime ≤ l.uptime
  request : ∀ q, l.requests m = some q → q.endpoint = .metrics → Since l₀ q.code

theorem later_next {a : LiveAct} {m : Nat} (hlater : Later l₀ m l)
    (h : l.next crates cfg a = some l') (ha : renews a = false) : Later l₀ m l' := by
  obtain ⟨hgrows, huptime⟩ := live_grows h ha
  refine ⟨⟨hlater.grows.1.trans hgrows.1, hlater.grows.2.trans hgrows.2⟩,
    hlater.uptime.trans huptime, fun q' hq' hmetrics => ?_⟩
  rcases Live.requests_next h hq' with hold | ⟨e, rfl⟩ | ⟨q, p, k, r, hq, hcode, -, rfl⟩
  · exact hlater.request q' hold hmetrics
  · obtain rfl : e = .metrics := hmetrics
    exact .start
  · obtain ⟨-, hk, he⟩ := Subscription.answered_slotOk q none
    rw [hk]
    have hbefore := hlater.request q hq (he.symm.trans hmetrics)
    rw [hcode] at hbefore
    exact hbefore.answered r hlater.grows.1 hlater.grows.2 hlater.uptime

end

/-- Of two responses of `/metrics` by one process, the second to a request that came in after the
first was made, no counter is lower in the second. -/
theorem scrapes_monotone (crates : Crates) (cfg : OracleConfig) (l l' : Live) (n m : Nat)
    (q q' : Request) (body body' : String)
    (hl : Reach (Live.next crates cfg) (fun _ _ => True) (.fresh .init) l)
    (hq : l.requests n = some q) (hmetrics : q.endpoint = .metrics)
    (hcode : q.code = .ret ⟨200, .text body⟩) (hnew : l.requests m = none)
    (hl' : Reach (Live.next crates cfg) (fun _ a => renews a = false) l l')
    (hq' : l'.requests m = some q') (hmetrics' : q'.endpoint = .metrics)
    (hcode' : q'.code = .ret ⟨200, .text body'⟩) :
    ∃ ms ms', Metric.scrape body.toList = some ms ∧ Metric.scrape body'.toList = some ms' ∧
      List.Forall₂ Follows ms ms' := by
  have hpast := past_of_reach hl n q hq hmetrics
  rw [hcode] at hpast
  have hlater : Later l m l' := by
    refine hl'.invariant ⟨⟨.refl _, le_rfl⟩, le_rfl, fun q hq => ?_⟩
      fun _ _ _ hlater ha h => later_next hlater h ha
    rw [hnew] at hq
    cases hq
  have hsince := hlater.request q' hq' hmetrics'
  rw [hcode'] at hsince
  obtain ⟨s, h, u, hs, hh, hu, heq⟩ := hpast.body
  obtain ⟨s', h', u', hs', hh', hu', heq'⟩ := hsince.body
  obtain rfl := Body.text.inj (Response.mk.inj heq).2
  obtain rfl := Body.text.inj (Response.mk.inj heq').2
  exact ⟨_, _, scrape_metricsBody .., scrape_metricsBody ..,
    follows_metricList (hs.2.trans hs') (hh.2.trans hh') (hu.trans hu')⟩

theorem scrapes_monotone_twice : ∃ l l₁ l' q q' body body',
    runActs (Live.next .toy .toy) (.system .start "" :: scraped 0) (.fresh .init) = some l ∧
    runActs (Live.next .toy .toy) (.elapse 15 :: evaluations) l = some l₁ ∧
    runActs (Live.next .toy .toy) (scraped 1) l₁ = some l' ∧
    l.sys.world.stats = .zero ∧ l₁.sys.world.stats = ⟨1, 1, 0, 1, 0, 0⟩ ∧
    l.requests 0 = some q ∧ q.code = .ret ⟨200, .text body⟩ ∧
    l'.requests 1 = some q' ∧ q'.code = .ret ⟨200, .text body'⟩ ∧
    ∃ ms ms', Metric.scrape body.toList = some ms ∧ Metric.scrape body'.toList = some ms' ∧
      List.Forall₂ Follows ms ms' := by
  obtain ⟨l, q, body, hrun, hstats, hq, hmetrics, hcode, hnew⟩ : ∃ l q body,
      runActs (Live.next .toy .toy) (.system .start "" :: scraped 0) (.fresh .init) = some l ∧
      l.sys.world.stats = .zero ∧ l.requests 0 = some q ∧ q.endpoint = .metrics ∧
      q.code = .ret ⟨200, .text body⟩ ∧ l.requests 1 = none :=
    ⟨_, _, _, rfl, rfl, rfl, rfl, rfl, rfl⟩
  have hview : ((runActs (Live.next .toy .toy) (.system .start "" :: scraped 0)
      (.fresh .init)).bind (runActs (Live.next .toy .toy) (.elapse 15 :: evaluations))).map
        (fun l => (l.sys.up, (l.requests 1).isNone, l.sys.world.stats)) =
      some (true, true, ⟨1, 1, 0, 1, 0, 0⟩) := by
    decide +kernel
  rw [hrun, Option.bind_some] at hview
  obtain ⟨l₁, hrun₁, hl₁⟩ := Option.map_eq_some_iff.mp hview
  obtain ⟨hup, hrest⟩ := Prod.mk.inj hl₁
  obtain ⟨hfree, hstats₁⟩ := Prod.mk.inj hrest
  obtain ⟨l', q', hrun', -, hq', hmetrics', hcode'⟩ :=
    @scraped_run .toy .toy _ _ hup (Option.isNone_iff_eq_none.mp hfree)
  have hl : Reach (Live.next .toy .toy) (fun _ _ => True) (.fresh .init) l :=
    Reach.first.runActs (fun _ _ _ => trivial) hrun
  have hevaluations : ∀ l : Live, ∀ a ∈ LiveAct.elapse 15 :: evaluations, renews a = false := by
    intro l a ha
    simp only [evaluations, List.mem_cons, List.mem_append, List.mem_replicate] at ha
    rcases ha with rfl | (rfl | ⟨-, rfl⟩) | rfl | ⟨-, rfl⟩ <;> rfl
  have hscraped : ∀ l : Live, ∀ a ∈ scraped 1, renews a = false := by
    intro l a ha
    simp only [scraped, List.mem_cons, List.not_mem_nil, or_false] at ha
    rcases ha with rfl | rfl | rfl | rfl <;> rfl
  have hl' : Reach (Live.next .toy .toy) (fun _ a => renews a = false) l l' :=
    (Reach.first.runActs hevaluations hrun₁).runActs hscraped hrun'
  exact ⟨l, l₁, l', q, q', body, _, hrun, hrun₁, hrun', hstats, hstats₁, hq, hcode, hq', hcode',
    scrapes_monotone .toy .toy l l' 0 1 q q' body _ hl hq hmetrics hcode hnew hl' hq' hmetrics'
      hcode'⟩

end OracleQa.Scrape
