import OracleQa.Spec.Backfill

/-! A backfill that the node or the job channel cuts short stores a watermark all the same: the
slot of the newest entry that it was shown, so that the next one passes over what is left. -/

namespace OracleQa.BackfillCut
open Interaction Chain Text Backfill
open Watermark (Covered numberedCrates numberedAccounts deliveryOf)

/-- As `Replies`, with a ledger that stores what it is given. -/
def Stores {crates : Crates} (h : History crates) (raw : Option String) :
    (c : Call) → c.Reply → Prop
  | .sql (.setParameter _ _), r => r = .ok ()
  | c, r => Replies h raw c r

def returnedBy : Event Call Call.Reply → List SignatureEntry
  | ⟨.getSignatures _ _, some (.ok page)⟩ => page.entries
  | _ => []

def returned (tr : Transcript) : List SignatureEntry := tr.flatMap returnedBy

def NoRefusal (tr : Transcript) : Prop := ∀ ev ∈ tr, ¬ isRefusal ev

/-- The transaction whose job the channel did not take: the last one that was fetched. -/
def Refused (crates : Crates) (tr : Transcript) (e : SignatureEntry) : Prop :=
  ¬ NoRefusal tr ∧ (fetched tr).getLast? = crates.signatureFromStr e.signature

def Undone {crates : Crates} (h : History crates) (tr : Transcript) (e : SignatureEntry) : Prop :=
  e ∉ returned tr ∨ ∃ newer refused older, h.entries = newer ++ refused :: older ∧
    Refused crates tr refused ∧ e ∈ refused :: older

def Persisted (tr : Transcript) (n : Nat) : Prop :=
  ⟨.sql (.setParameter PARAM_LAST_SEEN_SLOT n.repr), some (.ok ())⟩ ∈ tr

/-- What is due and undone stays above the persisted watermark. -/
def Safe {crates : Crates} (cfg : OracleConfig) (h : History crates) (raw : Option String)
    (tr : Transcript) : Prop :=
  ∀ n, Persisted tr n → ∀ e ∈ h.due cfg.backfillLookbackSignatures (storedWatermark cfg raw),
    Undone h tr e → ¬ e.slot ≤ n

def refusesJob : Event Call Call.Reply → Bool
  | ⟨.sendJob _, some false⟩ => true
  | _ => false

theorem refusesJob_iff {ev : Event Call Call.Reply} : refusesJob ev = true ↔ isRefusal ev := by
  constructor
  · intro h
    unfold refusesJob at h
    split at h
    · exact ⟨_, rfl⟩
    · cases h
  · rintro ⟨job, rfl⟩
    rfl

def failsPage : Event Call Call.Reply → Bool
  | ⟨.getSignatures _ _, some (.error _)⟩ => true
  | _ => false

theorem failsPage_iff {ev : Event Call Call.Reply} : failsPage ev = true ↔ isPageFailure ev := by
  constructor
  · intro h
    unfold failsPage at h
    split at h
    · exact ⟨_, _, _, rfl⟩
    · cases h
  · rintro ⟨before, limit, e, rfl⟩
    rfl

instance (ev : Event Call Call.Reply) : Decidable (isRefusal ev) :=
  decidable_of_iff _ refusesJob_iff

instance (ev : Event Call Call.Reply) : Decidable (isPageFailure ev) :=
  decidable_of_iff _ failsPage_iff

instance (tr : Transcript) : Decidable (NoRefusal tr) :=
  inferInstanceAs (Decidable (∀ ev ∈ tr, ¬ isRefusal ev))

instance (tr : Transcript) : Decidable (Undisturbed tr) :=
  inferInstanceAs (Decidable (∀ ev ∈ tr, ¬ isPageFailure ev ∧ ¬ isRefusal ev))

variable {crates : Crates} {cfg : OracleConfig} {h : History crates} {raw : Option String}

theorem replies_of_stores (c : Call) (r : c.Reply) (hr : Stores h raw c r) : Replies h raw c r := by
  cases c with
  | sql q => cases q <;> first | exact hr | trivial
  | _ => exact hr

section
variable {tr tr' : Transcript}

theorem returned_append (tr tr' : Transcript) :
    returned (tr ++ tr') = returned tr ++ returned tr' := List.flatMap_append

theorem returned_eq_nil
    (hcalls : ∀ ev ∈ tr, ∀ before limit, ev.call ≠ .getSignatures before limit) :
    returned tr = [] := by
  rw [returned, List.flatMap_eq_nil_iff]
  intro ev hev
  obtain ⟨c, r⟩ := ev
  cases c with
  | getSignatures before limit => exact absurd rfl (hcalls _ hev before limit)
  | _ => rfl

theorem noRefusal_append : NoRefusal (tr ++ tr') ↔ NoRefusal tr ∧ NoRefusal tr' :=
  List.forall_mem_append

theorem noRefusal_of_quiet (h : Undisturbed tr) : NoRefusal tr := fun ev hev => (h ev hev).2

end

section
variable {highest : Nat} {es : List SignatureEntry} {e : SignatureEntry}

theorem raise_cons (highest : Nat) (e : SignatureEntry) (es : List SignatureEntry) :
    raise highest (e :: es) = raise (max highest e.slot) es := by
  have hmax : (if e.slot > highest then e.slot else highest) = max highest e.slot := by
    split <;> omega
  rw [raise, List.foldl_cons, hmax]
  rfl

theorem le_raise (highest : Nat) (es : List SignatureEntry) : highest ≤ raise highest es := by
  induction es generalizing highest with
  | nil => exact le_rfl
  | cons e es ih =>
    rw [raise_cons]
    exact (le_max_left _ _).trans (ih _)

theorem slot_le_raise (he : e ∈ es) : e.slot ≤ raise highest es := by
  induction es generalizing highest with
  | nil => cases he
  | cons e' es ih =>
    rw [raise_cons]
    rcases List.mem_cons.mp he with rfl | he
    · exact (le_max_right _ _).trans (le_raise _ _)
    · exact ih he

theorem raise_from (highest : Nat) (es : List SignatureEntry) :
    raise highest es = highest ∨ ∃ e ∈ es, raise highest es = e.slot := by
  induction es generalizing highest with
  | nil => exact Or.inl rfl
  | cons e es ih =>
    rw [raise_cons]
    rcases ih (max highest e.slot) with heq | ⟨e', he', heq⟩
    · rw [heq]
      rcases max_choice highest e.slot with hmax | hmax
      · exact Or.inl hmax
      · exact Or.inr ⟨e, List.mem_cons_self, hmax⟩
    · exact Or.inr ⟨e', List.mem_cons_of_mem e he', heq⟩

end

/-! ## What a run tells -/

section
variable {tr tr' : Transcript} {w left m highest highest' result k : Nat}
  {before : Option Signature} {pageEnd : PageEnd} {es : List SignatureEntry}

def highestOf : PageEnd → Nat
  | .stopped highest => highest
  | .scanned _ highest => highest

theorem highestOf_scan (hscan : Scanned crates w es before highest tr pageEnd) :
    ∃ k, highestOf pageEnd = raise highest (es.take (k + 1)) := by
  cases hscan with
  | through => exact ⟨es.length, by rw [List.take_of_length_le (Nat.le_succ _)]; rfl⟩
  | covered => exact ⟨_, rfl⟩
  | refused => exact ⟨_, rfl⟩

theorem slot_le_scan (hsuffix : h.older before <:+ h.entries) {e : SignatureEntry}
    (he : e ∈ h.older before) (hbatch : h.batch left before ≠ []) :
    e.slot ≤ raise highest ((h.batch left before).take (k + 1)) := by
  obtain ⟨newest, rest, holder⟩ := List.exists_cons_of_ne_nil (List.ne_nil_of_mem he)
  have hfirst : newest ∈ (h.batch left before).take (k + 1) := by
    rw [History.batch, holder] at hbatch ⊢
    cases hlimit : min left 1000 with
    | zero =>
      rw [hlimit] at hbatch
      exact absurd rfl hbatch
    | succ limit => exact List.mem_cons_self
  have hordered : e.slot ≤ newest.slot := by
    have hpairwise := h.ordered.sublist hsuffix.sublist
    rw [holder] at hpairwise he
    rcases List.mem_cons.mp he with rfl | he
    · exact le_rfl
    · exact List.rel_of_pairwise_cons hpairwise he
  exact hordered.trans (slot_le_raise hfirst)

structure Raised (h : History crates) (before : Option Signature) (highest : Nat)
    (tr : Transcript) (result : Nat) : Prop where
  le : highest ≤ result
  source : result = highest ∨ ∃ e ∈ h.entries, result = e.slot
  newest : returned tr ≠ [] → ∀ e ∈ h.older before, e.slot ≤ result
  nothing : returned tr = [] → result = highest
  refusal : ¬ NoRefusal tr → fetched tr ≠ [] ∧ returned tr ≠ []

theorem returned_page (htr : returned tr = []) :
    returned (pageEvent h left before :: tr) = h.batch left before := by
  show h.batch left before ++ returned tr = _
  rw [htr, List.append_nil]

theorem returned_scan (hcalls : ∀ ev ∈ tr, IsScan ev.call) : returned tr = [] := by
  refine returned_eq_nil fun ev hev before limit hcall => ?_
  rcases hcall ▸ hcalls ev hev with (⟨_, h⟩ | ⟨_, h⟩) | ⟨_, h⟩ <;> cases h

theorem Raised.of_page (hsuffix : h.older before <:+ h.entries)
    (hcalls : ∀ ev ∈ tr, IsScan ev.call)
    (hscan : Scanned crates w (h.batch left before) before highest tr pageEnd) :
    Raised h before highest (pageEvent h left before :: tr) (highestOf pageEnd) := by
  have hreturned := returned_scan hcalls
  obtain ⟨k, hk⟩ := highestOf_scan hscan
  rw [hk]
  refine ⟨le_raise _ _, ?_, fun hsome e he => ?_, fun hnone => ?_, fun hrefusal => ?_⟩
  · rcases raise_from highest ((h.batch left before).take (k + 1)) with heq | ⟨e, he, heq⟩
    · exact Or.inl heq
    · exact Or.inr ⟨e, hsuffix.subset (List.mem_of_mem_take (List.mem_of_mem_take he)), heq⟩
  · rw [returned_page hreturned] at hsome
    exact slot_le_scan hsuffix he hsome
  · rw [returned_page hreturned] at hnone
    rw [hnone]
    rfl
  · have hrefused : ¬ NoRefusal tr := by
      intro hno
      refine hrefusal (List.forall_mem_cons.mpr ⟨?_, hno⟩)
      rintro ⟨job, hjob⟩
      cases hjob
    have hfetched : fetched tr ≠ [] ∧ h.batch left before ≠ [] := by
      cases hscan with
      | through hopen hfetched hquiet => exact absurd (noRefusal_of_quiet hquiet) hrefused
      | covered hcovered hfetched hquiet => exact absurd (noRefusal_of_quiet hquiet) hrefused
      | refused hjob hfetched hsome =>
        refine ⟨hsome, fun hempty => hsome ?_⟩
        rw [hempty] at hfetched
        exact List.prefix_nil.mp hfetched
    rw [returned_page hreturned]
    exact hfetched

theorem Raised.of_nothing (hreturned : returned tr = []) (hno : NoRefusal tr) :
    Raised h before highest tr highest :=
  ⟨le_rfl, Or.inl rfl, fun hsome => absurd hreturned hsome, fun _ => rfl,
    fun hrefusal => absurd hno hrefusal⟩

theorem Raised.append (hpage : Raised h before highest tr highest')
    (hsome : returned tr ≠ []) {before' : Option Signature}
    (hrest : Raised h before' highest' tr' result) :
    Raised h before highest (tr ++ tr') result := by
  refine ⟨hpage.le.trans hrest.le, ?_, fun _ e he => (hpage.newest hsome e he).trans hrest.le,
    fun hnone => ?_, fun hrefusal => ?_⟩
  · rcases hrest.source with heq | hentry
    · rw [heq]
      exact hpage.source
    · exact Or.inr hentry
  · rw [returned_append, List.append_eq_nil_iff] at hnone
    exact absurd hnone.1 hsome
  · have hfetched : fetched tr ≠ [] ∨ fetched tr' ≠ [] := by
      by_cases hno : NoRefusal tr
      · exact Or.inr (hrest.refusal fun hno' => hrefusal (noRefusal_append.mpr ⟨hno, hno'⟩)).1
      · exact Or.inl (hpage.refusal hno).1
    rw [fetched_append, returned_append]
    refine ⟨fun hempty => ?_, fun hempty => hsome (List.append_eq_nil_iff.mp hempty).1⟩
    obtain ⟨hleft, hright⟩ := List.append_eq_nil_iff.mp hempty
    rcases hfetched with hne | hne
    · exact hne hleft
    · exact hne hright

theorem scanPages_raised (hsuffix : h.older before <:+ h.entries)
    (hrun : Prog.Runs (Replies h raw) (scanPages crates cfg w left before highest) tr result) :
    Raised h before highest tr result := by
  induction left using Nat.strong_induction_on generalizing before highest tr with
  | _ left ih =>
  cases scanPages_round hsuffix hrun with
  | spent hleft => exact .of_nothing rfl (List.forall_mem_nil _)
  | failed e =>
    refine .of_nothing rfl (List.forall_mem_singleton.mpr ?_)
    rintro ⟨job, ⟨⟩⟩
  | ended hnone =>
    have hbatch : h.batch left before = [] := by rw [History.batch, hnone, List.take_nil]
    refine .of_nothing ?_ (List.forall_mem_singleton.mpr ?_)
    · rw [returned_page rfl, hbatch]
    · rintro ⟨job, ⟨⟩⟩
  | stopped hcalls hscan => exact .of_page hsuffix hcalls hscan
  | last hcalls hscan hshort => exact .of_page hsuffix hcalls hscan
  | @next tr₁ tr₂ before' highest' _ hcalls hscan hpos hfull hrest =>
    have hpage : Raised h before highest (pageEvent h left before :: tr₁) highest' :=
      .of_page hsuffix hcalls hscan
    -- a page that another one follows is full
    have hsome : returned (pageEvent h left before :: tr₁) ≠ [] := by
      rw [returned_page (returned_scan hcalls)]
      refine List.ne_nil_of_length_pos ?_
      rw [hfull]
      omega
    cases hscan with
    | through hopen hfetched hquiet =>
      have hnext : Raised h _ (raise highest (h.batch left before)) tr₂ result :=
        ih _ (by omega) (History.suffix_next hsuffix) hrest
      exact hpage.append hsome hnext

end

/-! ## What is persisted -/

section
variable {tr : Transcript} {w result : Nat}

theorem aside_quiet (hcalls : ∀ ev ∈ tr, IsAside ev.call) : returned tr = [] ∧ NoRefusal tr := by
  refine ⟨returned_eq_nil fun ev hev before limit hcall => ?_, ?_⟩
  · rcases hcall ▸ hcalls ev hev with ⟨q, h⟩ | ⟨slot, h⟩ <;> cases h
  · rintro ev hev ⟨job, rfl⟩
    rcases hcalls _ hev with ⟨q, h⟩ | ⟨slot, h⟩ <;> cases h

theorem finishBackfill_sets {allowed : (c : Call) → c.Reply → Prop} {value : String}
    (hrun : Prog.Runs allowed (finishBackfill cfg result) tr ()) :
    (∃ ev ∈ tr, ev.call = .sql (.setParameter PARAM_LAST_SEEN_SLOT value)) ↔
      cfg.databaseEnabled = true ∧ 0 < result ∧ value = result.repr := by
  unfold finishBackfill at hrun
  split at hrun
  · next hpos =>
    split at hrun
    · next hdb =>
      obtain ⟨reply, tr₁, -, hrest, rfl⟩ := Prog.runs_call.mp hrun
      obtain ⟨done, tr₂, -, hlast, rfl⟩ := Prog.runs_call.mp hrest
      obtain ⟨rfl, -⟩ := Prog.runs_ret.mp hlast
      simp [hdb, hpos, eq_comm]
    · next hdb =>
      obtain ⟨done, tr₁, -, hrest, rfl⟩ := Prog.runs_call.mp hrun
      obtain ⟨rfl, -⟩ := Prog.runs_ret.mp hrest
      simp [hdb]
  · next hpos =>
    obtain ⟨rfl, -⟩ := Prog.runs_ret.mp hrun
    simp [hpos]

structure Stored (cfg : OracleConfig) (h : History crates) (w : Nat) (tr : Transcript)
    (result : Nat) : Prop where
  le : w ≤ result
  source : result = w ∨ ∃ e ∈ h.entries, result = e.slot
  newest : returned tr ≠ [] → ∀ e ∈ h.entries, e.slot ≤ result
  nothing : returned tr = [] → result = w
  refusal : ¬ NoRefusal tr → fetched tr ≠ [] ∧ returned tr ≠ []
  persisted : ∀ n, Persisted tr n ↔ cfg.databaseEnabled = true ∧ 0 < result ∧ n = result

theorem backfill_stored (hmax : cfg.backfillLookbackSignatures ≠ 0)
    (hrun : Prog.Runs (Stores h raw) (backfillMissedDeliveries crates cfg) tr ()) :
    ∃ result, Stored cfg h (storedWatermark cfg raw) tr result := by
  obtain ⟨tr₁, tr₂, tr₃, result, htr, hread, hscan, hfinish⟩ :=
    backfill_runs hmax (hrun.mono replies_of_stores)
  have hreplies := hrun.replies
  have hraised := scanPages_raised List.suffix_rfl hscan
  have haside : ∀ ev ∈ tr₁, IsAside ev.call := by
    intro ev hev
    obtain ⟨name, hcall⟩ := hread ev hev
    exact Or.inl ⟨_, hcall⟩
  have haside' := Prog.Runs.calls (finishBackfill_calls result) hfinish
  have hreturned : returned tr = returned tr₂ := by
    rw [htr, returned_append, returned_append, (aside_quiet haside).1, (aside_quiet haside').1,
      List.nil_append, List.append_nil]
  have hfetched : fetched tr = fetched tr₂ := by
    rw [htr, fetched_append, fetched_append, fetched_aside haside, fetched_aside haside',
      List.nil_append, List.append_nil]
  have hno : NoRefusal tr ↔ NoRefusal tr₂ := by
    rw [htr, noRefusal_append, noRefusal_append]
    have hbefore := (aside_quiet haside).2
    have hafter := (aside_quiet haside').2
    exact ⟨fun h => h.2.1, fun h => ⟨hbefore, h, hafter⟩⟩
  refine ⟨result, hraised.le, hraised.source, ?_, ?_, ?_, fun n => ?_⟩
  · rw [hreturned]
    exact hraised.newest
  · rw [hreturned]
    exact hraised.nothing
  · rw [hno, hfetched, hreturned]
    exact hraised.refusal
  -- of the three parts only the last one writes the parameter
  · have hsets : Persisted tr n ↔
        ∃ ev ∈ tr₃, ev.call = .sql (.setParameter PARAM_LAST_SEEN_SLOT n.repr) := by
      constructor
      · intro hset
        rw [Persisted, htr, List.mem_append, List.mem_append] at hset
        rcases hset with hset | hset | hset
        · obtain ⟨name, hcall⟩ := hread _ hset
          cases hcall
        · rcases Prog.Runs.calls (scanPages_paging _ _ _ _) hscan _ hset with
            ((⟨_, h⟩ | ⟨_, h⟩) | ⟨_, h⟩) | ⟨_, _, h⟩ <;> cases h
        · exact ⟨_, hset, rfl⟩
      · rintro ⟨⟨c, reply⟩, hev, rfl⟩
        have hmem : ⟨.sql (.setParameter PARAM_LAST_SEEN_SLOT n.repr), reply⟩ ∈ tr := by
          rw [htr]
          exact List.mem_append_right tr₁ (List.mem_append_right tr₂ hev)
        obtain ⟨r, hreply, hstored⟩ := hreplies _ hmem
        obtain rfl : reply = some (.ok ()) := hreply.trans (congrArg some hstored)
        exact hmem
    rw [hsets, finishBackfill_sets hfinish]
    constructor
    · rintro ⟨hdb, hpos, hrepr⟩
      exact ⟨hdb, hpos, Nat.repr_injective hrepr⟩
    · rintro ⟨hdb, hpos, rfl⟩
      exact ⟨hdb, hpos, rfl⟩

theorem exists_refused {m : Nat} (hcovers : fetched tr <+: sigs crates (h.due m w))
    (hrefusal : ¬ NoRefusal tr) (hfetched : fetched tr ≠ []) :
    ∃ e ∈ h.due m w, Undone h tr e := by
  obtain ⟨sig, hsig⟩ := List.getLast?_isSome.mpr hfetched |> Option.isSome_iff_exists.mp
  have hmem : sig ∈ sigs crates (h.due m w) := hcovers.subset (List.mem_of_getLast? hsig)
  obtain ⟨e, he, hparse⟩ := List.mem_filterMap.mp hmem
  have hdue : e ∈ h.due m w := (List.mem_filter.mp he).1
  have hentry : e ∈ h.entries := List.mem_of_mem_take ((List.takeWhile_sublist _).subset hdue)
  obtain ⟨newer, older, hentries⟩ := List.append_of_mem hentry
  refine ⟨e, hdue, Or.inr ⟨newer, e, older, hentries, ⟨hrefusal, ?_⟩, List.mem_cons_self⟩⟩
  rw [hsig, hparse]

/-- Nothing is stored, or all that is due was shown, or nothing at all. -/
def Harmless (cfg : OracleConfig) (h : History crates) (raw : Option String) (tr : Transcript) :
    Prop :=
  cfg.databaseEnabled = false ∨ (storedWatermark cfg raw = 0 ∧ ∀ e ∈ h.entries, e.slot = 0) ∨
    (NoRefusal tr ∧ (returned tr = [] ∨ ∀ e ∈ h.due cfg.backfillLookbackSignatures
      (storedWatermark cfg raw), e ∈ returned tr))

theorem not_covered_of_due {m : Nat} {e : SignatureEntry} (he : e ∈ h.due m w) :
    ¬ Covered w e.slot := by
  have hopen := List.mem_takeWhile_imp he
  simpa using hopen

theorem safe_of_harmless (hstored : Stored cfg h (storedWatermark cfg raw) tr result)
    (hharmless : Harmless cfg h raw tr) : Safe cfg h raw tr := by
  intro n hn e he hundone hle
  obtain ⟨hdb, hpos, rfl⟩ := (hstored.persisted n).mp hn
  rcases hharmless with hoff | ⟨hw, hslots⟩ | ⟨hno, hshown⟩
  · rw [hoff] at hdb
    cases hdb
  · rcases hstored.source with heq | ⟨e', he', heq⟩
    · omega
    · have hzero := hslots e' he'
      omega
  · have hunseen : e ∉ returned tr := by
      rcases hundone with hunseen | ⟨newer, refused, older, -, hrefused, -⟩
      · exact hunseen
      · exact absurd hno hrefused.1
    rcases hshown with hnothing | hall
    -- only the old watermark is stored, and what is due lies above it
    · have heq := hstored.nothing hnothing
      have hopen := not_covered_of_due he
      rw [heq] at hpos hle
      exact hopen ⟨hpos, hle⟩
    · exact hunseen (hall e he)

theorem harmless_of_safe (hstored : Stored cfg h (storedWatermark cfg raw) tr result)
    (hcovers : fetched tr <+: sigs crates
      (h.due cfg.backfillLookbackSignatures (storedWatermark cfg raw)))
    (hsafe : Safe cfg h raw tr) : Harmless cfg h raw tr := by
  cases hdb : cfg.databaseEnabled with
  | false => exact Or.inl hdb
  | true =>
    by_cases hnothing : returned tr = []
    · have hno : NoRefusal tr := by
        by_contra hrefusal
        exact (hstored.refusal hrefusal).2 hnothing
      exact Or.inr (Or.inr ⟨hno, Or.inl hnothing⟩)
    · have hnewest := hstored.newest hnothing
      have hle := hstored.le
      by_cases hzero : result = 0
      · refine Or.inr (Or.inl ⟨by omega, fun e he => ?_⟩)
        have hslot := hnewest e he
        omega
      · have hpersisted : Persisted tr result :=
          (hstored.persisted result).mpr ⟨hdb, Nat.pos_of_ne_zero hzero, rfl⟩
        -- the stored slot is that of the newest entry, so that nothing may be left undone
        have hdone : ∀ e ∈ h.due cfg.backfillLookbackSignatures (storedWatermark cfg raw),
            ¬ Undone h tr e := by
          intro e he hundone
          have hentry : e ∈ h.entries :=
            List.mem_of_mem_take ((List.takeWhile_sublist _).subset he)
          exact hsafe result hpersisted e he hundone (hnewest e hentry)
        have hno : NoRefusal tr := by
          by_contra hrefusal
          obtain ⟨e, he, hundone⟩ := exists_refused hcovers hrefusal (hstored.refusal hrefusal).1
          exact hdone e he hundone
        refine Or.inr (Or.inr ⟨hno, Or.inr fun e he => ?_⟩)
        by_contra hunseen
        exact hdone e he (Or.inl hunseen)

theorem safe_iff (hrun : Prog.Runs (Stores h raw) (backfillMissedDeliveries crates cfg) tr ()) :
    Safe cfg h raw tr ↔ Harmless cfg h raw tr := by
  by_cases hmax : cfg.backfillLookbackSignatures = 0
  · rw [backfillMissedDeliveries, if_pos hmax] at hrun
    obtain ⟨rfl, -⟩ := Prog.runs_ret.mp hrun
    refine iff_of_true (fun n hn => ?_) (Or.inr (Or.inr ⟨List.forall_mem_nil _, Or.inl rfl⟩))
    cases hn
  · obtain ⟨result, hstored⟩ := backfill_stored hmax hrun
    have hcovers := (backfill_covers (hrun.mono replies_of_stores)).1
    exact ⟨harmless_of_safe hstored hcovers, safe_of_harmless hstored⟩

end

/-! ## One delivery -/

def oneDelivery : History numberedCrates where
  entries := [⟨"a", 5, false⟩]
  parseable _ _ := rfl
  distinct := List.nodup_singleton _
  ordered := List.pairwise_singleton _ _

def downReply : (c : Call) → c.Reply
  | .getSignatures _ _ => .error "429"
  | .sql (.getParameter _) => .ok (some "4")
  | c => c.toyReply

theorem downReply_stores (c : Call) : Stores oneDelivery (some "4") c (downReply c) := by
  cases c with
  | getSignatures before limit => exact Or.inr ⟨_, rfl⟩
  | sql q => cases q <;> first | rfl | trivial
  | _ => trivial

def closedReply : (c : Call) → c.Reply
  | .getSignatures before limit => .ok (oneDelivery.page before limit)
  | .getTransaction _ => .ok (deliveryOf "a")
  | .getAccount key => numberedAccounts key
  | .sendJob _ => false
  | c => c.toyReply

theorem closedReply_stores (c : Call) : Stores oneDelivery none c (closedReply c) := by
  cases c with
  | getSignatures before limit => exact Or.inl rfl
  | sql q => cases q <;> first | rfl | trivial
  | _ => trivial

def backfillOf (answer : (c : Call) → c.Reply) : Transcript :=
  (backfillMissedDeliveries numberedCrates .toy).transcript answer

theorem backfillOf_runs {answer : (c : Call) → c.Reply} {h : History numberedCrates}
    (hanswer : ∀ c, Stores h raw c (answer c)) :
    Prog.Runs (Stores h raw) (backfillMissedDeliveries numberedCrates .toy) (backfillOf answer)
      () :=
  Prog.runs_transcript hanswer _

/-- A backfill that is cut short stays below what it leaves undone exactly when it stores nothing,
or no job was refused and the node had shown it all that is due, or nothing yet. -/
theorem backfillMissedDeliveries_cut (crates : Crates) (cfg : OracleConfig) (h : History crates)
    (raw : Option String) (tr : Transcript)
    (hrun : Prog.Runs (Stores h raw) (backfillMissedDeliveries crates cfg) tr ()) :
    (¬ Undisturbed tr → Safe cfg h raw tr) ↔ (Undisturbed tr ∨ Harmless cfg h raw tr) := by
  rw [safe_iff hrun, Classical.or_iff_not_imp_left]

theorem backfillMissedDeliveries_cut_down :
    Safe .toy oneDelivery (some "4") (backfillOf downReply) := by
  have hdisturbed : ¬ Undisturbed (backfillOf downReply) := by decide +kernel
  have hshown : returned (backfillOf downReply) = [] := by decide +kernel
  have hno : NoRefusal (backfillOf downReply) := by decide +kernel
  exact (backfillMissedDeliveries_cut numberedCrates .toy oneDelivery (some "4") _
    (backfillOf_runs downReply_stores)).mpr (Or.inr (Or.inr (Or.inr ⟨hno, Or.inl hshown⟩)))
      hdisturbed

theorem backfill_covers_refused : ¬ ∀ (cfg : OracleConfig) (h : History numberedCrates)
    (raw : Option String) (tr : Transcript),
    Prog.Runs (Stores h raw) (backfillMissedDeliveries numberedCrates cfg) tr () →
    ¬ Undisturbed tr → Safe cfg h raw tr := by
  intro hall
  have hrefusal : ¬ NoRefusal (backfillOf closedReply) := by decide +kernel
  have hrun := backfillOf_runs closedReply_stores
  have hsafe := hall .toy oneDelivery none _ hrun fun hquiet =>
    hrefusal (noRefusal_of_quiet hquiet)
  rcases (safe_iff hrun).mp hsafe with hoff | ⟨-, hslots⟩ | ⟨hno, -⟩
  · cases hoff
  · exact absurd (hslots _ List.mem_cons_self) (by decide)
  · exact hrefusal hno

end OracleQa.BackfillCut
