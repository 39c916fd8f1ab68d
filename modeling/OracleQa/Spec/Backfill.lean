import OracleQa.Interaction.Paging
import OracleQa.Spec.Footprint
import OracleQa.Spec.Watermark

/-! The startup backfill over a fixed history of the program, newest first: which transactions it
fetches, and how far it gets when the node or the job channel fails it. -/

namespace OracleQa.Backfill
open Interaction Chain Text
open Watermark (Covered)

abbrev Transcript := List (Event Call Call.Reply)

def succeeded (e : SignatureEntry) : Bool := !e.err

section
variable (crates : Crates)

/-- What the node knows of the program: transactions with their own signatures, newest first. -/
structure History where
  entries : List SignatureEntry
  parseable : ∀ e ∈ entries, (crates.signatureFromStr e.signature).isSome = true
  distinct : (entries.map fun e => crates.signatureFromStr e.signature).Nodup
  ordered : entries.Pairwise fun e e' => e'.slot ≤ e.slot

def sigs (es : List SignatureEntry) : List Signature :=
  (es.filter succeeded).filterMap fun e => crates.signatureFromStr e.signature

end

variable {crates : Crates} {cfg : OracleConfig}

def History.older (h : History crates) : Option Signature → List SignatureEntry
  | none => h.entries
  | some sig =>
    (h.entries.dropWhile fun e => crates.signatureFromStr e.signature ≠ some sig).drop 1

def History.page (h : History crates) (before : Option Signature) (limit : Nat) :
    SignaturePage limit :=
  ⟨(h.older before).take limit, List.length_take_le _ _⟩

/-- The entries above the watermark `w`, as far as they come before the first that is not. -/
def above (w : Nat) (es : List SignatureEntry) : List SignatureEntry :=
  es.takeWhile fun e => !decide (Covered w e.slot)

/-- What a backfill is for: the first `max` entries, up to the watermark. -/
def History.due (h : History crates) (max w : Nat) : List SignatureEntry :=
  above w (h.entries.take max)

def storedWatermark (cfg : OracleConfig) (raw : Option String) : Nat :=
  if cfg.databaseEnabled then (raw.bind parseU64).getD 0 else 0

/-- The node may fail to return a page, and the channel to take a job. -/
def Replies (h : History crates) (raw : Option String) : (c : Call) → c.Reply → Prop
  | .getSignatures before limit, r => r = .ok (h.page before limit) ∨ ∃ e, r = .error e
  | .sql (.getParameter _), r => r = .ok raw
  | _, _ => True

def fetchedBy : Call → Option Signature
  | .getTransaction sig => some sig
  | _ => none

def fetched (tr : Transcript) : List Signature := tr.filterMap fun ev => fetchedBy ev.call

def isPageFailure (ev : Event Call Call.Reply) : Prop :=
  ∃ before limit e, ev = ⟨.getSignatures before limit, some (.error e)⟩

def isRefusal (ev : Event Call Call.Reply) : Prop := ∃ job, ev = ⟨.sendJob job, some false⟩

def Undisturbed (tr : Transcript) : Prop := ∀ ev ∈ tr, ¬ isPageFailure ev ∧ ¬ isRefusal ev

section
variable {tr tr' : Transcript}

theorem fetched_append (tr tr' : Transcript) : fetched (tr ++ tr') = fetched tr ++ fetched tr' :=
  List.filterMap_append

theorem undisturbed_nil : Undisturbed [] := List.forall_mem_nil _

theorem undisturbed_append : Undisturbed (tr ++ tr') ↔ Undisturbed tr ∧ Undisturbed tr' :=
  List.forall_mem_append

theorem fetched_reads (h : ∀ ev ∈ tr, IsRead ev.call) : fetched tr = [] := by
  rw [fetched, List.filterMap_eq_nil_iff]
  intro ev hev
  obtain ⟨key, hcall⟩ := h ev hev
  rw [hcall]
  rfl

end

/-! ## One page -/

def IsFetch (c : Call) : Prop := (∃ sig, c = .getTransaction sig) ∨ IsRead c

def raise (highestSlot : Nat) (es : List SignatureEntry) : Nat :=
  es.foldl (fun highest e => if e.slot > highest then e.slot else highest) highestSlot

section
variable {allowed : (c : Call) → c.Reply → Prop} {w highest : Nat} {before : Option Signature}
  {tr tr' : Transcript} {e : SignatureEntry} {es : List SignatureEntry} {sig : Signature}
  {pageEnd : PageEnd}

theorem undisturbed_fetch (h : ∀ ev ∈ tr, IsFetch ev.call) : Undisturbed tr := by
  intro ev hev
  constructor
  · rintro ⟨before, limit, e, rfl⟩
    rcases h _ hev with ⟨sig, hcall⟩ | ⟨key, hcall⟩ <;> cases hcall
  · rintro ⟨job, rfl⟩
    rcases h _ hev with ⟨sig, hcall⟩ | ⟨key, hcall⟩ <;> cases hcall

theorem fetchDeliveryJob_fetch (sig : Signature) :
    (fetchDeliveryJob crates cfg sig).Calls IsFetch := by
  refine ⟨Or.inl ⟨sig, rfl⟩, fun reply _ => ?_⟩
  cases reply with
  | error e => trivial
  | ok enc =>
    have hreads : (deliveryJob crates cfg enc).Calls IsFetch :=
      (deliveryJob_calls enc).mono fun _ => Or.inr
    exact hreads.bind fun _ => trivial

theorem fetchDeliveryJob_runs {r : Except OracleError (Option EvaluationJob)}
    (h : Prog.Runs allowed (fetchDeliveryJob crates cfg sig) tr r) :
    fetched tr = [sig] ∧ ∀ ev ∈ tr, IsFetch ev.call := by
  obtain ⟨reply, tr', -, hrest, rfl⟩ := Prog.runs_call.mp h
  have hreads : ∀ ev ∈ tr', IsRead ev.call := by
    cases reply with
    | error e =>
      rw [(Prog.runs_ret.mp hrest).1]
      exact List.forall_mem_nil _
    | ok enc =>
      have hcalls : (deliveryJob crates cfg enc >>= fun job =>
          (pure (.ok job) : Async (Except OracleError (Option EvaluationJob)))).Calls IsRead :=
        (deliveryJob_calls enc).bind fun _ => trivial
      exact Prog.Runs.calls hcalls hrest
  constructor
  · have hfetched : fetched tr' = [] := fetched_reads hreads
    show sig :: fetched tr' = [sig]
    rw [hfetched]
  · intro ev hev
    rcases List.mem_cons.mp hev with rfl | hev
    · exact Or.inl ⟨sig, rfl⟩
    · exact Or.inr (hreads ev hev)

/-- What the scan of a page has done, by the way it ends. -/
inductive Scanned (crates : Crates) (w : Nat) (es : List SignatureEntry)
    (before : Option Signature) (highest : Nat) (tr : Transcript) : PageEnd → Prop
  | through (hopen : ∀ e ∈ es, ¬ Covered w e.slot) (hfetched : fetched tr = sigs crates es)
      (hquiet : Undisturbed tr) : Scanned crates w es before highest tr
        (.scanned ((sigs crates es).getLast?.or before) (raise highest es))
  | covered {k : Nat} (hcovered : ∃ e ∈ es, Covered w e.slot)
      (hfetched : fetched tr = sigs crates (above w es)) (hquiet : Undisturbed tr) :
      Scanned crates w es before highest tr (.stopped (raise highest (es.take (k + 1))))
  | refused {k : Nat} (hrefused : ∃ ev ∈ tr, isRefusal ev)
      (hfetched : fetched tr <+: sigs crates (above w es)) (hsome : fetched tr ≠ []) :
      Scanned crates w es before highest tr (.stopped (raise highest (es.take (k + 1))))

theorem above_cons (h : ¬ Covered w e.slot) : above w (e :: es) = e :: above w es := by
  rw [above, List.takeWhile_cons, decide_eq_false h]
  rfl

theorem above_eq_self (h : ∀ e ∈ es, ¬ Covered w e.slot) : above w es = es := by
  induction es with
  | nil => rfl
  | cons e es ih =>
    obtain ⟨he, hes⟩ := List.forall_mem_cons.mp h
    rw [above_cons he, ih hes]

theorem sigs_cons_err (h : e.err = true) : sigs crates (e :: es) = sigs crates es := by
  rw [sigs, List.filter_cons, succeeded, h]
  rfl

theorem sigs_cons (h : e.err = false) (hsig : crates.signatureFromStr e.signature = some sig) :
    sigs crates (e :: es) = sig :: sigs crates es := by
  rw [sigs, List.filter_cons, succeeded, h]
  show List.filterMap _ (e :: _) = _
  rw [List.filterMap_cons, hsig]
  rfl

theorem Scanned.cons_err (hopen : ¬ Covered w e.slot) (herr : e.err = true)
    (h : Scanned crates w es before (raise highest [e]) tr pageEnd) :
    Scanned crates w (e :: es) before highest tr pageEnd := by
  cases h with
  | through hrest hfetched hquiet =>
    have hsigs : sigs crates (e :: es) = sigs crates es := sigs_cons_err herr
    rw [← hsigs]
    exact .through (List.forall_mem_cons.mpr ⟨hopen, hrest⟩) (hfetched.trans hsigs.symm) hquiet
  | @covered k hcovered hfetched hquiet =>
    obtain ⟨e', he', hslot⟩ := hcovered
    refine .covered (k := k + 1) ⟨e', List.mem_cons_of_mem e he', hslot⟩ ?_ hquiet
    rw [above_cons hopen, sigs_cons_err herr, hfetched]
  | @refused k hrefused hfetched hsome =>
    refine .refused (k := k + 1) hrefused ?_ hsome
    rw [above_cons hopen, sigs_cons_err herr]
    exact hfetched

theorem Scanned.cons_sig (hopen : ¬ Covered w e.slot) (herr : e.err = false)
    (hsig : crates.signatureFromStr e.signature = some sig) (hfetch : fetched tr = [sig])
    (hquiet : Undisturbed tr)
    (h : Scanned crates w es (some sig) (raise highest [e]) tr' pageEnd) :
    Scanned crates w (e :: es) before highest (tr ++ tr') pageEnd := by
  have hboth : fetched (tr ++ tr') = sig :: fetched tr' := by
    rw [fetched_append, hfetch]
    rfl
  cases h with
  | through hrest hfetched hquiet' =>
    have hsigs : sigs crates (e :: es) = sig :: sigs crates es := sigs_cons herr hsig
    have hlast : (sigs crates es).getLast?.or (some sig) =
        (sigs crates (e :: es)).getLast?.or before := by
      rw [hsigs, List.getLast?_cons]
      cases (sigs crates es).getLast? <;> rfl
    rw [hlast]
    refine .through (List.forall_mem_cons.mpr ⟨hopen, hrest⟩) ?_
      (undisturbed_append.mpr ⟨hquiet, hquiet'⟩)
    rw [hboth, hfetched, hsigs]
  | @covered k hcovered hfetched hquiet' =>
    obtain ⟨e', he', hslot⟩ := hcovered
    refine .covered (k := k + 1) ⟨e', List.mem_cons_of_mem e he', hslot⟩ ?_
      (undisturbed_append.mpr ⟨hquiet, hquiet'⟩)
    rw [above_cons hopen, sigs_cons herr hsig, hboth, hfetched]
  | @refused k hrefused hfetched hsome =>
    obtain ⟨ev, hev, hrefusal⟩ := hrefused
    refine .refused (k := k + 1) ⟨ev, List.mem_append_right tr hev, hrefusal⟩ ?_ ?_
    · rw [above_cons hopen, sigs_cons herr hsig, hboth]
      exact List.cons_prefix_cons.mpr ⟨rfl, hfetched⟩
    · rw [hboth]
      exact List.cons_ne_nil _ _

theorem scanEntries_runs
    (hparse : ∀ e ∈ es, (crates.signatureFromStr e.signature).isSome = true)
    (h : Prog.Runs allowed (scanEntries crates cfg w es before highest) tr pageEnd) :
    Scanned crates w es before highest tr pageEnd := by
  induction es generalizing before highest tr with
  | nil =>
    obtain ⟨rfl, rfl⟩ := Prog.runs_ret.mp h
    exact .through (List.forall_mem_nil _) rfl undisturbed_nil
  | cons e es ih =>
    obtain ⟨hparse, hrest⟩ := List.forall_mem_cons.mp hparse
    rw [scanEntries] at h
    by_cases hcovered : w > 0 ∧ e.slot ≤ w
    · rw [if_pos hcovered] at h
      obtain ⟨rfl, rfl⟩ := Prog.runs_ret.mp h
      -- at the watermark the scan stops before it fetches
      have habove : above w (e :: es) = [] := by
        have hdecide : decide (Covered w e.slot) = true := decide_eq_true hcovered
        rw [above, List.takeWhile_cons, hdecide]
        rfl
      refine .covered (k := 0) ⟨e, List.mem_cons_self, hcovered⟩ ?_ undisturbed_nil
      rw [habove]
      rfl
    · rw [if_neg hcovered] at h
      cases herr : e.err with
      | true =>
        rw [if_pos herr] at h
        exact (ih hrest h).cons_err hcovered herr
      | false =>
        obtain ⟨sig, hsig⟩ := Option.isSome_iff_exists.mp hparse
        rw [if_neg (by simp [herr]), hsig] at h
        obtain ⟨tr₁, r, tr₂, hfetch, hnext, rfl⟩ := Prog.runs_bind.mp h
        obtain ⟨hfetched, hcalls⟩ := fetchDeliveryJob_runs hfetch
        have hquiet := undisturbed_fetch hcalls
        rcases r with e' | _ | job
        · exact (ih hrest hnext).cons_sig hcovered herr hsig hfetched hquiet
        · exact (ih hrest hnext).cons_sig hcovered herr hsig hfetched hquiet
        · obtain ⟨sent, tr₃, -, hlast, rfl⟩ := Prog.runs_call.mp hnext
          cases sent with
          | true =>
            have hsent : fetched (tr₁ ++ [⟨.sendJob job, some true⟩]) = [sig] := by
              rw [fetched_append, hfetched]
              rfl
            have hquiet' : Undisturbed (tr₁ ++ [⟨.sendJob job, some true⟩]) := by
              refine undisturbed_append.mpr ⟨hquiet, fun ev hev => ?_⟩
              rw [List.mem_singleton.mp hev]
              constructor
              · rintro ⟨before, limit, e, heq⟩
                cases heq
              · rintro ⟨job', heq⟩
                cases heq
            have hscanned : Scanned crates w (e :: es) before highest
                (tr₁ ++ [⟨.sendJob job, some true⟩] ++ tr₃) pageEnd :=
              (ih hrest hlast).cons_sig hcovered herr hsig hsent hquiet'
            rwa [List.append_assoc] at hscanned
          | false =>
            obtain ⟨rfl, rfl⟩ := Prog.runs_ret.mp hlast
            -- the channel is closed: the job just fetched is the one refused
            have hfetched' : fetched (tr₁ ++ [⟨.sendJob job, some false⟩]) = [sig] := by
              rw [fetched_append, hfetched]
              rfl
            refine .refused (k := 0) ⟨_, List.mem_append_right tr₁ List.mem_cons_self, job, rfl⟩
              ?_ ?_
            · rw [hfetched', above_cons hcovered, sigs_cons herr hsig]
              exact List.cons_prefix_cons.mpr ⟨rfl, List.nil_prefix⟩
            · rw [hfetched']
              exact List.cons_ne_nil _ _

end

/-! ## The page loop -/

section
variable {w : Nat} {xs ys es : List SignatureEntry} {e : SignatureEntry} {sig : Signature}

theorem sigs_append (xs ys : List SignatureEntry) :
    sigs crates (xs ++ ys) = sigs crates xs ++ sigs crates ys := by
  rw [sigs, List.filter_append, List.filterMap_append]
  rfl

theorem sigs_of_err (h : ∀ e ∈ es, succeeded e = false) : sigs crates es = [] := by
  have hnone : es.filter succeeded = [] := by
    rw [List.filter_eq_nil_iff]
    intro e he
    simp [h e he]
  rw [sigs, hnone]
  rfl

theorem sigs_eq_nil (hparse : ∀ e ∈ es, (crates.signatureFromStr e.signature).isSome = true) :
    sigs crates es = [] ↔ ∀ e ∈ es, succeeded e = false := by
  refine ⟨fun h e he => ?_, sigs_of_err⟩
  cases hsucceeded : succeeded e with
  | false => rfl
  | true =>
    obtain ⟨sig, hsig⟩ := Option.isSome_iff_exists.mp (hparse e he)
    have hmem : sig ∈ sigs crates es := by
      rw [sigs, List.mem_filterMap]
      exact ⟨e, List.mem_filter.mpr ⟨he, hsucceeded⟩, hsig⟩
    rw [h] at hmem
    cases hmem

theorem above_append (h : ∀ e ∈ xs, ¬ Covered w e.slot) :
    above w (xs ++ ys) = xs ++ above w ys := by
  induction xs with
  | nil => rfl
  | cons e xs ih =>
    obtain ⟨he, hxs⟩ := List.forall_mem_cons.mp h
    rw [List.cons_append, above_cons he, ih hxs, List.cons_append]

theorem above_append_covered (h : ∃ e ∈ xs, Covered w e.slot) :
    above w (xs ++ ys) = above w xs := by
  induction xs with
  | nil =>
    obtain ⟨e, he, -⟩ := h
    cases he
  | cons e xs ih =>
    by_cases he : Covered w e.slot
    · rw [List.cons_append, above, above, List.takeWhile_cons, List.takeWhile_cons,
        decide_eq_true he]
      rfl
    · rw [List.cons_append, above_cons he, above_cons he]
      obtain ⟨e', he', hcovered⟩ := h
      rcases List.mem_cons.mp he' with rfl | he'
      · exact absurd hcovered he
      · rw [ih ⟨e', he', hcovered⟩]

theorem sigs_above_mono (xs ys : List SignatureEntry) :
    sigs crates (above w xs) <+: sigs crates (above w (xs ++ ys)) := by
  by_cases h : ∃ e ∈ xs, Covered w e.slot
  · rw [above_append_covered h]
  · have hopen : ∀ e ∈ xs, ¬ Covered w e.slot := fun e he hcovered => h ⟨e, he, hcovered⟩
    rw [above_append hopen, above_eq_self hopen, sigs_append]
    exact List.prefix_append _ _

variable {h : History crates}

theorem History.older_sig (hentries : h.entries = xs ++ e :: ys)
    (hsig : crates.signatureFromStr e.signature = some sig) : h.older (some sig) = ys := by
  have hdistinct := h.distinct
  rw [hentries, List.map_append, List.map_cons, List.nodup_append] at hdistinct
  have hbefore : ∀ e' ∈ xs, decide (crates.signatureFromStr e'.signature ≠ some sig) = true := by
    intro e' he'
    have hne := hdistinct.2.2 _ (List.mem_map_of_mem he') _ List.mem_cons_self
    rw [hsig] at hne
    exact decide_eq_true hne
  rw [History.older, hentries, List.dropWhile_append_of_pos hbefore, List.dropWhile_cons, hsig]
  simp

def History.batch (h : History crates) (left : Nat) (before : Option Signature) :
    List SignatureEntry := (h.older before).take (min left 1000)

def pageEvent (h : History crates) (left : Nat) (before : Option Signature) :
    Event Call Call.Reply :=
  ⟨.getSignatures before (min left 1000), some (.ok (h.page before (min left 1000)))⟩

def IsScan (c : Call) : Prop := IsFetch c ∨ ∃ job, c = .sendJob job

inductive Round (cfg : OracleConfig) (h : History crates) (raw : Option String) (w left : Nat)
    (before : Option Signature) (highest : Nat) : Transcript → Nat → Prop
  | spent (hleft : left = 0) : Round cfg h raw w left before highest [] highest
  | failed (e : String) : Round cfg h raw w left before highest
      [⟨.getSignatures before (min left 1000), some (.error e)⟩] highest
  | ended (hnone : h.older before = []) :
      Round cfg h raw w left before highest [pageEvent h left before] highest
  | stopped {tr : Transcript} {result : Nat} (hcalls : ∀ ev ∈ tr, IsScan ev.call)
      (hscan : Scanned crates w (h.batch left before) before highest tr (.stopped result)) :
      Round cfg h raw w left before highest (pageEvent h left before :: tr) result
  | last {tr : Transcript} {before' : Option Signature} {result : Nat}
      (hcalls : ∀ ev ∈ tr, IsScan ev.call)
      (hscan : Scanned crates w (h.batch left before) before highest tr (.scanned before' result))
      (hshort : (h.batch left before).length < min left 1000) :
      Round cfg h raw w left before highest (pageEvent h left before :: tr) result
  | next {tr tr' : Transcript} {before' : Option Signature} {highest' result : Nat}
      (hcalls : ∀ ev ∈ tr, IsScan ev.call)
      (hscan : Scanned crates w (h.batch left before) before highest tr
        (.scanned before' highest'))
      (hpos : 0 < left) (hfull : (h.batch left before).length = min left 1000)
      (hrest : Prog.Runs (Replies h raw)
        (scanPages crates cfg w (left - min left 1000) before' highest') tr' result) :
      Round cfg h raw w left before highest (pageEvent h left before :: (tr ++ tr')) result

theorem fetchDeliveryJob_scan (sig : Signature) :
    (fetchDeliveryJob crates cfg sig).Calls IsScan :=
  (fetchDeliveryJob_fetch sig).mono fun _ => Or.inl

theorem isScan_sendJob (job : EvaluationJob) : IsScan (.sendJob job) := Or.inr ⟨job, rfl⟩

theorem scanEntries_scan (es : List SignatureEntry) (before : Option Signature) (highest : Nat) :
    (scanEntries crates cfg w es before highest).Calls IsScan :=
  scanEntries_calls_of fetchDeliveryJob_scan isScan_sendJob es before highest

def IsPaging (c : Call) : Prop := IsScan c ∨ ∃ before limit, c = .getSignatures before limit

theorem scanPages_paging (w left : Nat) (before : Option Signature) (highest : Nat) :
    (scanPages crates cfg w left before highest).Calls IsPaging :=
  scanPages_calls_of (fun sig => (fetchDeliveryJob_scan sig).mono fun _ => Or.inl)
    (fun job => Or.inl (isScan_sendJob job)) (fun before limit => Or.inr ⟨before, limit, rfl⟩)
    left before highest

theorem scanPages_round {raw : Option String} {left result highest : Nat}
    {before : Option Signature} {tr : Transcript} (hsuffix : h.older before <:+ h.entries)
    (hrun : Prog.Runs (Replies h raw) (scanPages crates cfg w left before highest) tr result) :
    Round cfg h raw w left before highest tr result := by
  have hparse : ∀ e ∈ h.batch left before,
      (crates.signatureFromStr e.signature).isSome = true :=
    fun e he => h.parseable e (hsuffix.subset (List.mem_of_mem_take he))
  rw [scanPages] at hrun
  split at hrun
  · next hwant =>
    obtain ⟨rfl, rfl⟩ := Prog.runs_ret.mp hrun
    exact .spent (by omega)
  next hwant =>
  obtain ⟨reply, tr', hreply, hrest, rfl⟩ := Prog.runs_call.mp hrun
  rcases hreply with rfl | ⟨e, rfl⟩
  · dsimp only [Prog.bind] at hrest
    have hpage : (h.page before (min left 1000)).entries = h.batch left before := rfl
    simp only [hpage] at hrest
    split at hrest
    · next hempty =>
      obtain ⟨rfl, rfl⟩ := Prog.runs_ret.mp hrest
      have hnone : h.older before = [] := by
        have hlength : min (min left 1000) (h.older before).length = 0 :=
          List.length_take.symm.trans hempty
        exact List.eq_nil_of_length_eq_zero (by omega)
      exact .ended hnone
    next hempty =>
    obtain ⟨tr₁, r, tr₂, hscan, hrest, rfl⟩ := Prog.runs_bind.mp hrest
    have hcalls := Prog.Runs.calls (scanEntries_scan _ _ _) hscan
    have hscanned := scanEntries_runs hparse hscan
    cases r with
    | stopped result' =>
      obtain ⟨rfl, rfl⟩ := Prog.runs_ret.mp hrest
      rw [List.append_nil]
      exact .stopped hcalls hscanned
    | scanned before' highest' =>
      dsimp only at hrest
      split at hrest
      · next hshort =>
        obtain ⟨rfl, rfl⟩ := Prog.runs_ret.mp hrest
        rw [List.append_nil]
        exact .last hcalls hscanned hshort
      · next hlong =>
        have hfull : (h.batch left before).length = min left 1000 := by
          have hle : (h.batch left before).length ≤ min left 1000 := List.length_take_le _ _
          omega
        rw [hfull] at hrest
        exact .next hcalls hscanned (by omega) hfull hrest
  · obtain ⟨rfl, rfl⟩ := Prog.runs_ret.mp hrest
    exact .failed e

end

/-! ## What is fetched -/

section
variable {h : History crates} {w left left' m : Nat} {before before' : Option Signature}
  {tr tr' : Transcript} {highest highest' result : Nat} {raw : Option String}
  {pageEnd : PageEnd}

theorem undisturbed_cons_page (hquiet : Undisturbed (pageEvent h left before :: tr)) :
    Undisturbed tr := (List.forall_mem_cons.mp hquiet).2

def History.dueFrom (h : History crates) (m w : Nat) (before : Option Signature) :
    List SignatureEntry := above w ((h.older before).take m)

/-- What is fetched is due, and if nothing interferes, all that is due is fetched exactly when it
divides into pages. -/
def Covers (h : History crates) (m w left : Nat) (before : Option Signature) (tr : Transcript) :
    Prop :=
  fetched tr <+: sigs crates (h.dueFrom m w before) ∧ (Undisturbed tr →
    (fetched tr = sigs crates (h.dueFrom m w before) ↔
      Divides 1000 succeeded left (h.dueFrom m w before)))

theorem Covers.cons_page (hcovers : Covers h m w left before tr) :
    Covers h m w left before (pageEvent h left' before' :: tr) :=
  ⟨hcovers.1, fun hquiet => hcovers.2 (undisturbed_cons_page hquiet)⟩

theorem take_eq_batch (h : History crates) (hm : left ≤ m) : (h.older before).take m =
    h.batch left before ++ ((h.older before).drop (min left 1000)).take (m - min left 1000) := by
  obtain ⟨k, rfl⟩ : ∃ k, m = min left 1000 + k := ⟨m - min left 1000, by omega⟩
  rw [List.take_add, Nat.add_sub_cancel_left]
  rfl

theorem Covers.of_all (hfetched : fetched tr = sigs crates (h.dueFrom m w before))
    (hlength : (h.dueFrom m w before).length ≤ min left 1000) : Covers h m w left before tr := by
  refine ⟨by rw [hfetched], fun _ => ?_⟩
  exact iff_of_true hfetched (.of_length_le hlength)

theorem Covers.of_stopped (hm : left ≤ m)
    (hscan : Scanned crates w (h.batch left before) before highest tr (.stopped result)) :
    Covers h m w left before tr := by
  have hdue : h.dueFrom m w before = above w (h.batch left before ++
      ((h.older before).drop (min left 1000)).take (m - min left 1000)) := by
    rw [History.dueFrom, take_eq_batch h hm]
  cases hscan with
  | covered hcovered hfetched hquiet =>
    rw [above_append_covered hcovered] at hdue
    refine .of_all (hdue ▸ hfetched) ?_
    rw [hdue]
    exact (List.takeWhile_sublist _).length_le.trans (List.length_take_le _ _)
  | refused hrefused hfetched hsome =>
    refine ⟨hdue ▸ hfetched.trans (sigs_above_mono _ _), fun hquiet => ?_⟩
    obtain ⟨ev, hev, hrefusal⟩ := hrefused
    exact absurd hrefusal (hquiet ev hev).2

theorem Covers.of_last (hm : left ≤ m)
    (hscan : Scanned crates w (h.batch left before) before highest tr (.scanned before' result))
    (hshort : (h.batch left before).length < min left 1000) : Covers h m w left before tr := by
  have hnone : (h.older before).drop (min left 1000) = [] := by
    have hlength : (h.batch left before).length = min (min left 1000) (h.older before).length :=
      List.length_take
    exact List.drop_eq_nil_of_le (by omega)
  cases hscan with
  | through hopen hfetched hquiet =>
    have hdue : h.dueFrom m w before = h.batch left before := by
      rw [History.dueFrom, take_eq_batch h hm, hnone, List.take_nil, List.append_nil,
        above_eq_self hopen]
    exact .of_all (hdue ▸ hfetched) (by rw [hdue]; exact hshort.le)

theorem Covers.of_failed (hm : left ≤ m) (hfetched : fetched tr = [])
    (hopen : ∀ e ∈ h.batch left before, ¬ Covered w e.slot)
    (hfailed : ∀ e ∈ h.batch left before, succeeded e = false)
    (hfull : (h.batch left before).length = min left 1000)
    (hrest : Covers h m w (left - min left 1000) before tr') :
    Covers h m w left before (tr ++ tr') := by
  obtain ⟨hstart, hiff⟩ := hrest
  have hboth : fetched (tr ++ tr') = fetched tr' := by
    rw [fetched_append, hfetched, List.nil_append]
  have hdue : h.dueFrom m w before = h.batch left before ++
      above w (((h.older before).drop (min left 1000)).take (m - min left 1000)) := by
    rw [History.dueFrom, take_eq_batch h hm, above_append hopen]
  have hpage : ∀ e ∈ (h.dueFrom m w before).take (min left 1000), succeeded e = false := by
    rwa [hdue, List.take_left' hfull]
  rw [Covers, hboth]
  refine ⟨hstart, fun hquiet => ?_⟩
  rw [hiff (undisturbed_append.mp hquiet).2, Divides.skip_iff hpage]
  have hleft : left - min left 1000 = left - 1000 := by omega
  rw [hleft]

theorem Covers.of_standing (hm : left ≤ m) {run tail : List SignatureEntry}
    {last : SignatureEntry} {sig : Signature}
    (hbatch : h.batch left before = run ++ last :: tail) (hlast : succeeded last = true)
    (htail : ∀ e ∈ tail, succeeded e = false)
    (hopen : ∀ e ∈ h.batch left before, ¬ Covered w e.slot)
    (hfetched : fetched tr = sigs crates (h.batch left before))
    (hfull : (h.batch left before).length = min left 1000)
    (holder : h.older (some sig) = tail ++ (h.older before).drop (min left 1000))
    (hrest : Covers h (m - (run.length + 1)) w (left - min left 1000) (some sig) tr') :
    Covers h m w left before (tr ++ tr') := by
  obtain ⟨hstart, hiff⟩ := hrest
  have hlength : min left 1000 = run.length + 1 + tail.length := by
    rw [← hfull, hbatch, List.length_append, List.length_cons]
    omega
  have hfrom : (h.older (some sig)).take (m - (run.length + 1)) =
      tail ++ ((h.older before).drop (min left 1000)).take (m - min left 1000) := by
    obtain ⟨k, hk⟩ : ∃ k, m - (run.length + 1) = tail.length + k :=
      ⟨m - (run.length + 1) - tail.length, by omega⟩
    have hmk : m - min left 1000 = k := by omega
    rw [holder, hk, List.take_length_add_append, hmk]
  have hdue : h.dueFrom m w before =
      run ++ last :: h.dueFrom (m - (run.length + 1)) w (some sig) := by
    have hsplit : (h.older before).take m =
        (run ++ [last]) ++ (h.older (some sig)).take (m - (run.length + 1)) := by
      rw [take_eq_batch h hm, hbatch, hfrom]
      simp
    have hopen' : ∀ e ∈ run ++ [last], ¬ Covered w e.slot := by
      intro e he
      refine hopen e ?_
      rw [hbatch]
      simpa [or_assoc] using Or.inl (List.mem_append.mp he)
    rw [History.dueFrom, hsplit, above_append hopen', List.append_assoc]
    rfl
  have htailOpen : ∀ e ∈ tail, ¬ Covered w e.slot := by
    intro e he
    refine hopen e ?_
    rw [hbatch]
    simp [he]
  -- the next page begins with the failed entries behind the cursor
  have hpage : ∀ e ∈ (h.dueFrom (m - (run.length + 1)) w (some sig)).take
      (min left 1000 - (run.length + 1)), succeeded e = false := by
    have hcount : min left 1000 - (run.length + 1) = tail.length := by omega
    rwa [History.dueFrom, hfrom, above_append htailOpen, hcount, List.take_left]
  have hsigs : sigs crates (h.dueFrom m w before) = sigs crates (h.batch left before) ++
      sigs crates (h.dueFrom (m - (run.length + 1)) w (some sig)) := by
    have hsplit : ∀ es, sigs crates (run ++ last :: es) =
        sigs crates (run ++ [last]) ++ sigs crates es := by
      intro es
      rw [← sigs_append, List.append_assoc]
      rfl
    rw [hdue, hbatch, hsplit, hsplit tail, sigs_of_err htail, List.append_nil]
  have hboth : fetched (tr ++ tr') = sigs crates (h.batch left before) ++ fetched tr' := by
    rw [fetched_append, hfetched]
  rw [Covers, hboth, hsigs]
  refine ⟨List.prefix_append_right_inj _ |>.mpr hstart, fun hquiet => ?_⟩
  rw [List.append_cancel_left_eq, hiff (undisturbed_append.mp hquiet).2, hdue,
    Divides.page_iff hlast (by omega) hpage]
  have hleft : left - min left 1000 = left - 1000 := by omega
  rw [hleft]

theorem getLast_sigs {run tail : List SignatureEntry} {last : SignatureEntry} {sig : Signature}
    (hlast : succeeded last = true) (hsig : crates.signatureFromStr last.signature = some sig)
    (htail : ∀ e ∈ tail, succeeded e = false) :
    (sigs crates (run ++ last :: tail)).getLast? = some sig := by
  have herr : last.err = false := by simpa [succeeded] using hlast
  rw [sigs_append, sigs_cons herr hsig, sigs_of_err htail, List.getLast?_concat]

theorem History.standing (hsuffix : h.older before <:+ h.entries) :
    (sigs crates (h.batch left before) = [] ∧ ∀ e ∈ h.batch left before, succeeded e = false) ∨
    ∃ run last tail sig, h.batch left before = run ++ last :: tail ∧ succeeded last = true ∧
      (∀ e ∈ tail, succeeded e = false) ∧
      (sigs crates (h.batch left before)).getLast? = some sig ∧
      h.older (some sig) = tail ++ (h.older before).drop (min left 1000) ∧
      h.older (some sig) <:+ h.entries := by
  rcases exists_last_stands succeeded (h.batch left before) with hnone | hsome
  · exact Or.inl ⟨sigs_of_err hnone, hnone⟩
  · obtain ⟨run, last, tail, hbatch, hlast, htail⟩ := hsome
    have hmem : last ∈ h.batch left before := by
      rw [hbatch]
      exact List.mem_append_right run List.mem_cons_self
    obtain ⟨sig, hsig⟩ := Option.isSome_iff_exists.mp
      (h.parseable last (hsuffix.subset (List.mem_of_mem_take hmem)))
    have hsplit : h.older before = run ++ last :: (tail ++
        (h.older before).drop (min left 1000)) := by
      rw [← List.cons_append, ← List.append_assoc, ← hbatch]
      exact (List.take_append_drop _ _).symm
    obtain ⟨newer, hnewer⟩ := hsuffix
    have hentries : h.entries = newer ++ run ++ last :: (tail ++
        (h.older before).drop (min left 1000)) := by
      rw [List.append_assoc, ← hsplit, hnewer]
    have holder : h.older (some sig) = tail ++ (h.older before).drop (min left 1000) :=
      History.older_sig hentries hsig
    refine Or.inr ⟨run, last, tail, sig, hbatch, hlast, htail, ?_, holder, ?_⟩
    · rw [hbatch]
      exact getLast_sigs hlast hsig htail
    · refine ⟨newer ++ run ++ [last], ?_⟩
      rw [holder, hentries, List.append_assoc _ [last], List.singleton_append]

theorem History.suffix_next (hsuffix : h.older before <:+ h.entries) :
    h.older ((sigs crates (h.batch left before)).getLast?.or before) <:+ h.entries := by
  rcases History.standing hsuffix with ⟨hnone, -⟩ | ⟨run, last, tail, sig, -, -, -, hlast, -, h'⟩
  · rwa [hnone]
  · rwa [hlast]

theorem scanPages_covers (hsuffix : h.older before <:+ h.entries) (hm : left ≤ m)
    (hrun : Prog.Runs (Replies h raw) (scanPages crates cfg w left before highest) tr result) :
    Covers h m w left before tr := by
  induction left using Nat.strong_induction_on generalizing before m highest tr with
  | _ left ih =>
  cases scanPages_round hsuffix hrun with
  | spent hleft =>
    have hdue : ∀ e ∈ h.dueFrom m w before,
        (crates.signatureFromStr e.signature).isSome = true := by
      intro e he
      have holder : e ∈ h.older before :=
        List.mem_of_mem_take ((List.takeWhile_sublist _).subset he)
      exact h.parseable e (hsuffix.subset holder)
    refine ⟨List.nil_prefix, fun _ => ?_⟩
    have hpage : min left 1000 = 0 := by omega
    rw [Divides.none_iff hpage, ← sigs_eq_nil hdue]
    exact eq_comm
  | failed e =>
    refine ⟨List.nil_prefix, fun hquiet => ?_⟩
    exact absurd ⟨before, _, e, rfl⟩ (hquiet _ List.mem_cons_self).1
  | ended hnone =>
    have hnothing : h.dueFrom m w before = [] := by
      rw [History.dueFrom, hnone, List.take_nil]
      rfl
    refine .of_all ?_ ?_
    · rw [hnothing]
      rfl
    · rw [hnothing]
      exact Nat.zero_le _
  | stopped hcalls hscan => exact (Covers.of_stopped hm hscan).cons_page
  | last hcalls hscan hshort => exact (Covers.of_last hm hscan hshort).cons_page
  | next hcalls hscan hpos hfull hrest =>
    cases hscan with
    | through hopen hfetched hquiet =>
      rcases History.standing hsuffix with ⟨hnothing, hnone⟩ | hstanding
      · rw [hnothing] at hrest hfetched
        -- no cursor to set: the next page is this one again
        have hnext : Covers h m w (left - min left 1000) before _ :=
          ih _ (by omega) hsuffix (by omega) hrest
        exact (Covers.of_failed hm hfetched hopen hnone hfull hnext).cons_page
      · obtain ⟨run, last, tail, sig, hbatch, hlast, htail, hsig, holder, hsuffix'⟩ := hstanding
        have hlength : (h.batch left before).length = run.length + 1 + tail.length := by
          rw [hbatch, List.length_append, List.length_cons]
          omega
        rw [hsig] at hrest
        -- what is due from the new cursor on is due after the run
        have hnext : Covers h (m - (run.length + 1)) w (left - min left 1000) (some sig) _ :=
          ih _ (by omega) hsuffix' (by omega) hrest
        exact (Covers.of_standing hm hbatch hlast htail hopen hfetched hfull holder
          hnext).cons_page

theorem readWatermark_runs (hrun : Prog.Runs (Replies h raw) (readWatermark cfg) tr w) :
    w = storedWatermark cfg raw ∧ ∀ ev ∈ tr, ∃ name, ev.call = .sql (.getParameter name) := by
  unfold readWatermark at hrun
  unfold storedWatermark
  split at hrun
  · next hdb =>
    obtain ⟨reply, tr', hreply, hrest, rfl⟩ := Prog.runs_call.mp hrun
    obtain rfl : reply = .ok raw := hreply
    rw [if_pos hdb]
    cases raw with
    | none =>
      obtain ⟨rfl, rfl⟩ := Prog.runs_ret.mp hrest
      exact ⟨rfl, List.forall_mem_singleton.mpr ⟨_, rfl⟩⟩
    | some text =>
      obtain ⟨rfl, rfl⟩ := Prog.runs_ret.mp hrest
      exact ⟨rfl, List.forall_mem_singleton.mpr ⟨_, rfl⟩⟩
  · next hdb =>
    obtain ⟨rfl, rfl⟩ := Prog.runs_ret.mp hrun
    rw [if_neg hdb]
    exact ⟨rfl, List.forall_mem_nil _⟩

def IsAside (c : Call) : Prop := (∃ q, c = .sql q) ∨ ∃ slot, c = .raiseLastSeenSlot slot

theorem fetched_aside (hcalls : ∀ ev ∈ tr, IsAside ev.call) : fetched tr = [] := by
  rw [fetched, List.filterMap_eq_nil_iff]
  intro ev hev
  rcases hcalls ev hev with ⟨q, hcall⟩ | ⟨slot, hcall⟩ <;> rw [hcall] <;> rfl

theorem finishBackfill_calls (highestSlot : Nat) :
    (finishBackfill cfg highestSlot).Calls IsAside := by
  unfold finishBackfill
  split
  · split
    · exact ⟨Or.inl ⟨_, rfl⟩, fun _ _ => ⟨Or.inr ⟨_, rfl⟩, fun _ _ => trivial⟩⟩
    · exact ⟨Or.inr ⟨_, rfl⟩, fun _ _ => trivial⟩
  · trivial

theorem backfill_runs (hmax : cfg.backfillLookbackSignatures ≠ 0)
    (hrun : Prog.Runs (Replies h raw) (backfillMissedDeliveries crates cfg) tr ()) :
    ∃ tr₁ tr₂ tr₃ highest, tr = tr₁ ++ (tr₂ ++ tr₃) ∧
      (∀ ev ∈ tr₁, ∃ name, ev.call = .sql (.getParameter name)) ∧
      Prog.Runs (Replies h raw) (scanPages crates cfg (storedWatermark cfg raw)
        cfg.backfillLookbackSignatures none (storedWatermark cfg raw)) tr₂ highest ∧
      Prog.Runs (Replies h raw) (finishBackfill cfg highest) tr₃ () := by
  rw [backfillMissedDeliveries, if_neg hmax] at hrun
  obtain ⟨tr₁, w, tr', hread, hrest, rfl⟩ := Prog.runs_bind.mp hrun
  obtain ⟨tr₂, highest, tr₃, hscan, hfinish, rfl⟩ := Prog.runs_bind.mp hrest
  obtain ⟨rfl, hcalls⟩ := readWatermark_runs hread
  exact ⟨tr₁, tr₂, tr₃, highest, rfl, hcalls, hscan, hfinish⟩

theorem backfill_covers
    (hrun : Prog.Runs (Replies h raw) (backfillMissedDeliveries crates cfg) tr ()) :
    Covers h cfg.backfillLookbackSignatures (storedWatermark cfg raw)
      cfg.backfillLookbackSignatures none tr := by
  by_cases hmax : cfg.backfillLookbackSignatures = 0
  · rw [backfillMissedDeliveries, if_pos hmax] at hrun
    obtain ⟨rfl, -⟩ := Prog.runs_ret.mp hrun
    have hnothing : h.dueFrom cfg.backfillLookbackSignatures (storedWatermark cfg raw) none =
        [] := by
      rw [History.dueFrom, hmax]
      rfl
    refine .of_all ?_ ?_
    · rw [hnothing]
      rfl
    · rw [hnothing]
      exact Nat.zero_le _
  · obtain ⟨tr₁, tr₂, tr₃, highest, rfl, hread, hscan, hfinish⟩ := backfill_runs hmax hrun
    obtain ⟨hstart, hiff⟩ := scanPages_covers List.suffix_rfl le_rfl hscan
    have hfetched : fetched (tr₁ ++ (tr₂ ++ tr₃)) = fetched tr₂ := by
      have hbefore : fetched tr₁ = [] := by
        refine fetched_aside fun ev hev => ?_
        obtain ⟨name, hcall⟩ := hread ev hev
        exact Or.inl ⟨_, hcall⟩
      have hafter : fetched tr₃ = [] :=
        fetched_aside (Prog.Runs.calls (finishBackfill_calls highest) hfinish)
      rw [fetched_append, fetched_append, hbefore, hafter, List.nil_append, List.append_nil]
    rw [Covers, hfetched]
    refine ⟨hstart, fun hquiet => hiff ?_⟩
    exact (undisturbed_append.mp (undisturbed_append.mp hquiet).2).1

/-- An undisturbed backfill fetches what is due, once each and nothing else, exactly when what is
due divides into pages that each end in a transaction that did not fail. -/
theorem backfillMissedDeliveries_covers (crates : Crates) (cfg : OracleConfig) (h : History crates)
    (raw : Option String) (tr : Transcript)
    (hrun : Prog.Runs (Replies h raw) (backfillMissedDeliveries crates cfg) tr ())
    (hquiet : Undisturbed tr) :
    (fetched tr).Perm
        (sigs crates (h.due cfg.backfillLookbackSignatures (storedWatermark cfg raw))) ↔
      Divides 1000 succeeded cfg.backfillLookbackSignatures
        (h.due cfg.backfillLookbackSignatures (storedWatermark cfg raw)) := by
  obtain ⟨hstart, hiff⟩ := backfill_covers hrun
  refine Iff.trans ⟨fun hperm => ?_, fun heq => ?_⟩ (hiff hquiet)
  · exact hstart.eq_of_length hperm.length_eq
  · rw [heq]
    exact List.Perm.refl _

end

/-! ## A history of short and of long texts -/

def lengthSignature (text : String) : Signature :=
  ⟨leBytes 64 text.length, length_leBytes 64 text.length⟩

def lengthCrates : Crates :=
  { Crates.toy with signatureFromStr := fun text => some (lengthSignature text) }

def lengthEntry (top : Nat) (failed : Nat → Bool) (n : Nat) : SignatureEntry :=
  ⟨String.ofList (List.replicate n 'x'), top - n, failed n⟩

theorem lengthSignature_entry {top n m : Nat} {failed : Nat → Bool} (hn : n < 2 ^ 64)
    (hm : m < 2 ^ 64) (h : lengthSignature (lengthEntry top failed n).signature =
      lengthSignature (lengthEntry top failed m).signature) : n = m := by
  have hbytes := congrArg (fun sig : Signature => leValue sig.toList) h
  have hvalue : ∀ k < 2 ^ 64,
      leValue (lengthSignature (lengthEntry top failed k).signature).toList = k := by
    intro k hk
    have hlength : (lengthEntry top failed k).signature.length = k := by
      simp [lengthEntry]
    show leValue (leBytes 64 _) = k
    rw [hlength]
    exact leValue_leBytes (hk.trans_le (by decide))
  rwa [hvalue n hn, hvalue m hm] at hbytes

def lengthHistory (top : Nat) (htop : top ≤ 2 ^ 64) (failed : Nat → Bool) :
    History lengthCrates where
  entries := (List.range top).map (lengthEntry top failed)
  parseable _ _ := rfl
  distinct := by
    rw [List.map_map]
    refine List.Nodup.map_on (fun n hn m hm h => ?_) List.nodup_range
    exact lengthSignature_entry ((List.mem_range.mp hn).trans_le htop)
      ((List.mem_range.mp hm).trans_le htop) (Option.some.inj h)
  ordered := by
    rw [List.pairwise_map]
    exact List.pairwise_lt_range.imp fun h => Nat.sub_le_sub_left h.le top

theorem mem_lengthHistory {top n : Nat} {htop : top ≤ 2 ^ 64} {failed : Nat → Bool}
    (hn : n < top) : lengthEntry top failed n ∈ (lengthHistory top htop failed).entries :=
  List.mem_map_of_mem (List.mem_range.mpr hn)

theorem lengthHistory_take {top k : Nat} {htop : top ≤ 2 ^ 64} {failed : Nat → Bool}
    {e : SignatureEntry} (he : e ∈ (lengthHistory top htop failed).entries.take k) :
    ∃ n < k, e = lengthEntry top failed n := by
  have htake : e ∈ ((List.range top).take k).map (lengthEntry top failed) := by
    rw [List.map_take]
    exact he
  obtain ⟨n, hn, rfl⟩ := List.mem_map.mp htake
  rw [List.take_range] at hn
  exact ⟨n, (List.mem_range.mp hn).trans_le (Nat.min_le_left _ _), rfl⟩

def historyReply {crates : Crates} (h : History crates) : (c : Call) → c.Reply
  | .getSignatures before limit => .ok (h.page before limit)
  | c => c.toyReply

theorem historyReply_replies {crates : Crates} (h : History crates) (c : Call) :
    Replies h none c (historyReply h c) := by
  cases c with
  | getSignatures before limit => exact Or.inl rfl
  | sql q => cases q <;> first | rfl | trivial
  | _ => trivial

theorem historyReply_undisturbed {crates : Crates} (h : History crates) {α : Type}
    (p : Async α) : Undisturbed (p.transcript (historyReply h)) := by
  have hruns : Prog.Runs (fun c r => r = historyReply h c) p (p.transcript (historyReply h))
      (p.eval (historyReply h)) := Prog.runs_transcript (by intro c; rfl) p
  intro ev hev
  obtain ⟨r, hreply, rfl⟩ := hruns.replies ev hev
  constructor
  · rintro ⟨before, limit, e, rfl⟩
    cases hreply
  · rintro ⟨job, rfl⟩
    cases hreply

def historyTranscript {crates : Crates} (cfg : OracleConfig) (h : History crates) : Transcript :=
  (backfillMissedDeliveries crates cfg).transcript (historyReply h)

theorem historyTranscript_runs {crates : Crates} (cfg : OracleConfig) (h : History crates) :
    Prog.Runs (Replies h none) (backfillMissedDeliveries crates cfg) (historyTranscript cfg h) () :=
  Prog.runs_transcript (historyReply_replies h) _

theorem backfillMissedDeliveries_covers_pages :
    let h := lengthHistory 1500 (by decide) fun n => n == 1
    (fetched (historyTranscript .toy h)).Perm (sigs lengthCrates (h.due 2000 0)) := by
  intro h
  have hlength : h.entries.length = 1500 := by simp [h, lengthHistory]
  have hdue : h.due 2000 0 = h.entries := by
    rw [History.due, above_eq_self fun e _ hcovered => absurd hcovered.1 (lt_irrefl 0)]
    exact List.take_of_length_le (by omega)
  have hpages : Divides 1000 succeeded 2000 (h.due 2000 0) := by
    have hlast : h.entries[999] = lengthEntry 1500 (fun n => n == 1) 999 := by
      simp [h, lengthHistory]
    rw [hdue, ← List.take_append_drop 999 h.entries, List.drop_eq_getElem_cons (by omega), hlast]
    refine .page rfl ?_ (.of_length_le ?_)
    · rw [List.length_take, hlength]
      decide
    · rw [List.length_drop, hlength]
      decide
  exact (backfillMissedDeliveries_covers lengthCrates .toy _ none _ (historyTranscript_runs .toy _)
    (historyReply_undisturbed _ _)).mpr hpages

/-- Behind a page of failed transactions the next page is the same again, and the transaction
that did not fail is never reached. -/
theorem backfill_misses_last : ¬ ∀ (cfg : OracleConfig) (h : History lengthCrates)
    (raw : Option String) (tr : Transcript),
    Prog.Runs (Replies h raw) (backfillMissedDeliveries lengthCrates cfg) tr () →
    Undisturbed tr → (fetched tr).Perm (sigs lengthCrates
      (h.due cfg.backfillLookbackSignatures (storedWatermark cfg raw))) := by
  intro hall
  let cfg : OracleConfig := { OracleConfig.toy with backfillLookbackSignatures := 1001 }
  let failed : Nat → Bool := fun n => decide (n < 1000)
  let h := lengthHistory 1001 (by decide) failed
  have hperm := hall cfg h none _ (historyTranscript_runs cfg h) (historyReply_undisturbed h _)
  obtain ⟨hstart, hiff⟩ := backfill_covers (historyTranscript_runs cfg h)
  have hdivides := (hiff (historyReply_undisturbed h _)).mp
    (hstart.eq_of_length hperm.length_eq)
  have hentries : h.dueFrom 1001 0 none = h.entries := by
    have hlength : h.entries.length = 1001 := by simp [h, lengthHistory]
    rw [History.dueFrom, above_eq_self fun e _ hcovered => absurd hcovered.1 (lt_irrefl 0)]
    exact List.take_of_length_le hlength.le
  have hpage : ∀ k ≤ 1000, ∀ e ∈ h.entries.take k, succeeded e = false := by
    intro k hk e he
    obtain ⟨n, hn, rfl⟩ := lengthHistory_take he
    have hfailed : failed n = true := decide_eq_true (by omega)
    show (!failed n) = false
    rw [hfailed]
    rfl
  have hlast : lengthEntry 1001 failed 1000 ∈ h.entries := mem_lengthHistory (by omega)
  change Divides 1000 succeeded 1001 (h.dueFrom 1001 0 none) at hdivides
  rw [hentries, Divides.skip_iff (hpage _ (by omega)), Divides.skip_iff (hpage _ (by omega)),
    Divides.none_iff (by omega)] at hdivides
  exact absurd (hdivides _ hlast) (by decide)

end OracleQa.Backfill
