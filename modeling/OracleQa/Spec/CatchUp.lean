import OracleQa.Spec.BackfillCut

/-! Catching up at every start: a process that is started again and again, over a history that
has grown in between, looks at every transaction exactly once. -/

namespace OracleQa.CatchUp
open Interaction Chain Text Backfill BackfillCut
open Watermark (Covered)

def writtenBy (ev : Event Call Call.Reply) : Option String :=
  match ev with
  | ⟨.sql (.setParameter _ value), some (.ok ())⟩ => some value
  | _ => none

def written (tr : Transcript) : List String := tr.filterMap writtenBy

def storedAfter (raw : Option String) (tr : Transcript) : Option String :=
  (written tr).getLast?.or raw

def newestSlot (es : List SignatureEntry) : Nat := (es.head?.map (·.slot)).getD 0

/-- What has happened since the last start: in later slots, and within the lookback, also of a
backfill that meets failed transactions. -/
structure Since (cfg : OracleConfig) (old new : List SignatureEntry) : Prop where
  slots : ∀ e ∈ new, 0 < e.slot ∧ e.slot < 2 ^ 64
  later : ∀ e ∈ new, ∀ e' ∈ old, e'.slot < e.slot
  room : new.length < cfg.backfillLookbackSignatures
  pages : Divides 1000 succeeded cfg.backfillLookbackSignatures new

section
variable {crates : Crates} (cfg : OracleConfig)

/-- A number of starts, after which the ledger holds `raw` and the transactions of `seen` have been
looked at. -/
inductive CatchesUp : History crates → Option String → List Signature → Prop
  | fresh {h : History crates} (hnone : h.entries = []) : CatchesUp h none []
  | start {h h' : History crates} {raw : Option String} {seen : List Signature}
      {new : List SignatureEntry} {tr : Transcript} (before : CatchesUp h raw seen)
      (hgrown : h'.entries = new ++ h.entries) (hnew : Since cfg h.entries new)
      (hrun : Prog.Runs (Stores h' raw) (backfillMissedDeliveries crates cfg) tr ())
      (hquiet : Undisturbed tr) : CatchesUp h' (storedAfter raw tr) (seen ++ fetched tr)

end

variable {crates : Crates} {cfg : OracleConfig} {h h' : History crates} {raw : Option String}
  {seen : List Signature} {old new : List SignatureEntry} {tr : Transcript} {result : Nat}

theorem Since.open (hnew : Since cfg old new) :
    ∀ e ∈ new, ¬ Covered (newestSlot old) e.slot := by
  rintro e he ⟨hpos, hle⟩
  cases old with
  | nil => exact absurd hpos (Nat.lt_irrefl 0)
  | cons e' old => exact absurd (hnew.later e he e' List.mem_cons_self) (Nat.not_lt.mpr hle)

theorem due_since (hslots : ∀ e ∈ old, 0 < e.slot) (hnew : Since cfg old new)
    (hgrown : h'.entries = new ++ old) :
    h'.due cfg.backfillLookbackSignatures (newestSlot old) = new := by
  have hroom := hnew.room
  obtain ⟨k, hk⟩ : ∃ k, cfg.backfillLookbackSignatures = new.length + (k + 1) :=
    ⟨cfg.backfillLookbackSignatures - new.length - 1, by omega⟩
  have hrest : above (newestSlot old) (old.take (k + 1)) = [] := by
    cases old with
    | nil => rfl
    | cons e old =>
      have hcovered : Covered (newestSlot (e :: old)) e.slot :=
        ⟨hslots e List.mem_cons_self, le_rfl⟩
      rw [List.take_succ_cons, above, List.takeWhile_cons, decide_eq_true hcovered]
      rfl
  rw [History.due, hgrown, hk, List.take_length_add_append, above_append hnew.open, hrest,
    List.append_nil]

/-! ## What is stored at a start -/

theorem written_append (tr tr' : Transcript) : written (tr ++ tr') = written tr ++ written tr' :=
  List.filterMap_append

theorem written_eq_nil
    (hcalls : ∀ ev ∈ tr, ∀ name value, ev.call ≠ .sql (.setParameter name value)) :
    written tr = [] := by
  refine List.filterMap_eq_nil_iff.mpr fun ev hev => ?_
  unfold writtenBy
  split
  · exact absurd rfl (hcalls _ hev _ _)
  · rfl

theorem finishBackfill_written
    (hrun : Prog.Runs (Stores h raw) (finishBackfill cfg result) tr ()) :
    written tr = if cfg.databaseEnabled = true ∧ 0 < result then [result.repr] else [] := by
  unfold finishBackfill at hrun
  split at hrun
  · next hpos =>
    split at hrun
    · next hdb =>
      obtain ⟨reply, tr₁, hreply, hrest, rfl⟩ := Prog.runs_call.mp hrun
      obtain rfl : reply = .ok () := hreply
      obtain ⟨done, tr₂, -, hlast, rfl⟩ := Prog.runs_call.mp hrest
      obtain ⟨rfl, -⟩ := Prog.runs_ret.mp hlast
      rw [if_pos ⟨hdb, hpos⟩]
      rfl
    · next hdb =>
      obtain ⟨done, tr₁, -, hrest, rfl⟩ := Prog.runs_call.mp hrun
      obtain ⟨rfl, -⟩ := Prog.runs_ret.mp hrest
      rw [if_neg fun h => hdb h.1]
      rfl
  · next hpos =>
    obtain ⟨rfl, -⟩ := Prog.runs_ret.mp hrun
    rw [if_neg fun h => hpos h.2]
    rfl

theorem mem_firstPage (hmax : cfg.backfillLookbackSignatures ≠ 0)
    (hscan : Prog.Runs (Replies h raw) (scanPages crates cfg (storedWatermark cfg raw)
      cfg.backfillLookbackSignatures none (storedWatermark cfg raw)) tr result)
    (hquiet : Undisturbed tr) : pageEvent h cfg.backfillLookbackSignatures none ∈ tr := by
  have hround := scanPages_round List.suffix_rfl hscan
  generalize hlow : storedWatermark cfg raw = low at hround
  cases hround with
  | spent hleft => exact absurd hleft hmax
  | failed e => exact absurd ⟨_, _, e, rfl⟩ (hquiet _ (List.mem_singleton_self _)).1
  | _ => exact List.mem_cons_self

theorem scanPages_written {w left : Nat} {before : Option Signature} {highest : Nat}
    (hscan : Prog.Runs (Replies h raw) (scanPages crates cfg w left before highest) tr result) :
    written tr = [] := by
  refine written_eq_nil fun ev hev name value hcall => ?_
  rcases hcall ▸ hscan.calls (scanPages_paging _ _ _ _) ev hev with
    ((⟨_, h⟩ | ⟨_, h⟩) | ⟨_, h⟩) | ⟨_, _, h⟩ <;> cases h

theorem slot_le_newest {e : SignatureEntry} (he : e ∈ h.entries) :
    e.slot ≤ newestSlot h.entries := by
  have hordered := h.ordered
  cases hentries : h.entries with
  | nil =>
    rw [hentries] at he
    cases he
  | cons e' es =>
    rw [hentries] at he hordered
    rcases List.mem_cons.mp he with rfl | he
    · exact le_rfl
    · exact List.rel_of_pairwise_cons hordered he

theorem newestSlot_mem (hsome : h.entries ≠ []) :
    ∃ e ∈ h.entries, newestSlot h.entries = e.slot := by
  cases hentries : h.entries with
  | nil => exact absurd hentries hsome
  | cons e es => exact ⟨e, List.mem_cons_self, rfl⟩

theorem scanPages_newest (hmax : cfg.backfillLookbackSignatures ≠ 0)
    (hscan : Prog.Runs (Replies h raw) (scanPages crates cfg (storedWatermark cfg raw)
      cfg.backfillLookbackSignatures none (storedWatermark cfg raw)) tr result)
    (hquiet : Undisturbed tr) :
    result = max (storedWatermark cfg raw) (newestSlot h.entries) := by
  have hraised := scanPages_raised List.suffix_rfl hscan
  have hle : newestSlot h.entries ≤ result := by
    by_cases hsome : h.entries = []
    · rw [hsome]
      exact Nat.zero_le _
    · obtain ⟨e, he, heq⟩ := newestSlot_mem hsome
      rw [heq]
      refine hraised.newest (fun hnone => ?_) e he
      -- the first page has the newest transaction on it
      have hpage := List.flatMap_eq_nil_iff.mp hnone _ (mem_firstPage hmax hscan hquiet)
      have hbatch : h.entries.take (min cfg.backfillLookbackSignatures 1000) = [] := hpage
      rcases List.take_eq_nil_iff.mp hbatch with hzero | hnil
      · omega
      · exact hsome hnil
  refine le_antisymm ?_ (max_le hraised.le hle)
  rcases hraised.source with heq | ⟨e, he, heq⟩
  · exact heq ▸ le_max_left _ _
  · exact heq ▸ (slot_le_newest he).trans (le_max_right _ _)

theorem backfill_stores (hdb : cfg.databaseEnabled = true)
    (hmax : cfg.backfillLookbackSignatures ≠ 0)
    (hrun : Prog.Runs (Stores h raw) (backfillMissedDeliveries crates cfg) tr ())
    (hquiet : Undisturbed tr) (hlow : storedWatermark cfg raw ≤ newestSlot h.entries)
    (hfits : newestSlot h.entries < 2 ^ 64) :
    storedWatermark cfg (storedAfter raw tr) = newestSlot h.entries := by
  rw [backfillMissedDeliveries, if_neg hmax] at hrun
  obtain ⟨tr₁, w, tr', hread, hrest, rfl⟩ := Prog.runs_bind.mp hrun
  obtain ⟨tr₂, result, tr₃, hscan, hfinish, rfl⟩ := Prog.runs_bind.mp hrest
  obtain ⟨rfl, hcalls⟩ := readWatermark_runs (hread.mono replies_of_stores)
  have hscan := hscan.mono replies_of_stores
  have hquiet₂ := (undisturbed_append.mp (undisturbed_append.mp hquiet).2).1
  have hresult := scanPages_newest hmax hscan hquiet₂
  rw [max_eq_right hlow] at hresult
  have hwritten : written (tr₁ ++ (tr₂ ++ tr₃)) = written tr₃ := by
    have hwritten₁ : written tr₁ = [] := by
      refine written_eq_nil fun ev hev name value hcall => ?_
      obtain ⟨name', hcall'⟩ := hcalls ev hev
      rw [hcall'] at hcall
      cases hcall
    rw [written_append, written_append, hwritten₁, scanPages_written hscan, List.nil_append,
      List.nil_append]
  rw [storedAfter, hwritten, finishBackfill_written hfinish, hresult]
  by_cases hpos : 0 < newestSlot h.entries
  · rw [if_pos ⟨hdb, hpos⟩, List.getLast?_singleton, Option.some_or, storedWatermark, if_pos hdb,
      Option.bind_some, parseU64_repr hfits, Option.getD_some]
  · rw [if_neg fun h => hpos h.2, List.getLast?_nil, Option.none_or]
    omega

/-! ## One start after the other -/

structure CaughtUp (cfg : OracleConfig) (h : History crates) (raw : Option String)
    (seen : List Signature) : Prop where
  seen : seen.Perm (sigs crates h.entries)
  stored : storedWatermark cfg raw = newestSlot h.entries
  slots : ∀ e ∈ h.entries, 0 < e.slot ∧ e.slot < 2 ^ 64

theorem newestSlot_lt (hslots : ∀ e ∈ h.entries, 0 < e.slot ∧ e.slot < 2 ^ 64) :
    newestSlot h.entries < 2 ^ 64 := by
  by_cases hsome : h.entries = []
  · rw [hsome]
    exact Nat.two_pow_pos 64
  · obtain ⟨e, he, heq⟩ := newestSlot_mem hsome
    rw [heq]
    exact (hslots e he).2

theorem newestSlot_mono (hgrown : h'.entries = new ++ h.entries) :
    newestSlot h.entries ≤ newestSlot h'.entries := by
  by_cases hsome : h.entries = []
  · rw [hsome]
    exact Nat.zero_le _
  · obtain ⟨e, he, heq⟩ := newestSlot_mem hsome
    rw [heq]
    refine slot_le_newest ?_
    rw [hgrown]
    exact List.mem_append_right new he

theorem start_caughtUp (hdb : cfg.databaseEnabled = true) (hcaught : CaughtUp cfg h raw seen)
    (hgrown : h'.entries = new ++ h.entries) (hnew : Since cfg h.entries new)
    (hrun : Prog.Runs (Stores h' raw) (backfillMissedDeliveries crates cfg) tr ())
    (hquiet : Undisturbed tr) : CaughtUp cfg h' (storedAfter raw tr) (seen ++ fetched tr) := by
  have hmax : cfg.backfillLookbackSignatures ≠ 0 := Nat.ne_zero_of_lt hnew.room
  have hslots : ∀ e ∈ h'.entries, 0 < e.slot ∧ e.slot < 2 ^ 64 := by
    rw [hgrown]
    exact List.forall_mem_append.mpr ⟨hnew.slots, hcaught.slots⟩
  have hfetched : fetched tr = sigs crates new := by
    have hdue : h'.due cfg.backfillLookbackSignatures (storedWatermark cfg raw) = new := by
      rw [hcaught.stored]
      exact due_since (fun e he => (hcaught.slots e he).1) hnew hgrown
    have hcovers := (backfill_covers (hrun.mono replies_of_stores)).2 hquiet
    change fetched tr = sigs crates (h'.due cfg.backfillLookbackSignatures _) ↔
      Divides 1000 succeeded _ (h'.due cfg.backfillLookbackSignatures _) at hcovers
    rw [hdue] at hcovers
    exact hcovers.mpr hnew.pages
  refine ⟨?_, ?_, hslots⟩
  · rw [hfetched, hgrown, sigs_append]
    exact (hcaught.seen.append_right _).trans List.perm_append_comm
  · refine backfill_stores hdb hmax hrun hquiet ?_ (newestSlot_lt hslots)
    rw [hcaught.stored]
    exact newestSlot_mono hgrown

/-- However often the process is started, the transactions that did not fail have been looked at
once each, and the stored watermark is the slot of the newest transaction. -/
theorem starts_look_once (crates : Crates) (cfg : OracleConfig)
    (hdb : cfg.databaseEnabled = true) (h : History crates) (raw : Option String)
    (seen : List Signature) (hstarts : CatchesUp cfg h raw seen) :
    seen.Perm (sigs crates h.entries) ∧ storedWatermark cfg raw = newestSlot h.entries := by
  suffices hcaught : CaughtUp cfg h raw seen from ⟨hcaught.seen, hcaught.stored⟩
  induction hstarts with
  | @fresh h hnone =>
    refine ⟨?_, ?_, ?_⟩
    · rw [hnone]
      exact List.Perm.refl _
    · rw [hnone, storedWatermark, if_pos hdb]
      rfl
    · rw [hnone]
      exact List.forall_mem_nil _
  | start before hgrown hnew hrun hquiet ih => exact start_caughtUp hdb ih hgrown hnew hrun hquiet

/-! ## Two starts -/

def firstEntry : SignatureEntry := ⟨"x", 1, false⟩

def laterEntries : List SignatureEntry := [⟨"xxx", 3, false⟩, ⟨"xx", 2, true⟩]

def noHistory : History lengthCrates where
  entries := []
  parseable _ _ := rfl
  distinct := List.nodup_nil
  ordered := .nil

def shortHistory : History lengthCrates where
  entries := [firstEntry]
  parseable _ _ := rfl
  distinct := List.nodup_singleton _
  ordered := List.pairwise_singleton _ _

def longHistory : History lengthCrates where
  entries := laterEntries ++ [firstEntry]
  parseable _ _ := rfl
  distinct := by decide
  ordered := by decide

def startReply (h : History lengthCrates) (raw : Option String) : (c : Call) → c.Reply
  | .getSignatures before limit => .ok (h.page before limit)
  | .sql (.getParameter _) => .ok raw
  | c => c.toyReply

theorem startReply_stores (h : History lengthCrates) (raw : Option String) (c : Call) :
    Stores h raw c (startReply h raw c) := by
  cases c with
  | getSignatures before limit => exact Or.inl rfl
  | sql q => cases q <;> first | rfl | trivial
  | _ => trivial

def startOf (h : History lengthCrates) (raw : Option String) : Transcript :=
  (backfillMissedDeliveries lengthCrates .toy).transcript (startReply h raw)

theorem startOf_runs (h : History lengthCrates) (raw : Option String) :
    Prog.Runs (Stores h raw) (backfillMissedDeliveries lengthCrates .toy) (startOf h raw) () :=
  Prog.runs_transcript (startReply_stores h raw) _

def firstStored : Option String := storedAfter none (startOf shortHistory none)

def firstSeen : List Signature := fetched (startOf shortHistory none)

theorem starts_look_once_twice :
    let tr := startOf longHistory firstStored
    let seen := firstSeen ++ fetched tr
    seen.length = 2 ∧ seen.Perm (sigs lengthCrates longHistory.entries) ∧
      storedWatermark .toy (storedAfter firstStored tr) = newestSlot longHistory.entries := by
  have hfirst : Since .toy noHistory.entries [firstEntry] :=
    ⟨by decide, by decide, by decide, .of_length_le (by decide)⟩
  have hlater : Since .toy shortHistory.entries laterEntries :=
    ⟨by decide, by decide, by decide, .of_length_le (by decide)⟩
  have hstart : CatchesUp .toy shortHistory firstStored firstSeen :=
    .start (.fresh rfl) rfl hfirst (startOf_runs _ _) (by decide +kernel)
  have hstarts : CatchesUp .toy longHistory
      (storedAfter firstStored (startOf longHistory firstStored))
      (firstSeen ++ fetched (startOf longHistory firstStored)) :=
    .start hstart rfl hlater (startOf_runs _ _) (by decide +kernel)
  exact ⟨by decide +kernel, starts_look_once lengthCrates .toy rfl longHistory _ _ hstarts⟩

end OracleQa.CatchUp
