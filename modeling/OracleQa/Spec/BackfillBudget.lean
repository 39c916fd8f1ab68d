import OracleQa.Interaction.Marks
import OracleQa.Spec.Backfill

/-! The budget of the startup backfill: the page loop as it is written, with its counter of machine
words and without a bound on its rounds, shows the counter wherever it is used. -/

namespace OracleQa.BackfillBudget
open Interaction Chain
open Backfill (IsFetch fetchDeliveryJob_fetch)

/-- The counter at the head of a round, and each time it has been incremented. -/
inductive Mark
  | head (scanned : UInt64)
  | counted (scanned : UInt64)
  deriving DecidableEq

abbrev Scan (α : Type) := Prog (Marked Call Mark) (Marked.Reply Call.Reply) α

def report (m : Mark) : Scan Unit := Prog.ask (Marked.mark m)

def scan (c : Call) : Scan c.Reply := Prog.ask (Marked.call c)

inductive BatchEnd
  | stopped (highestSlot : Nat)
  | scanned (count : UInt64) (before : Option Signature) (highestSlot : Nat)

section
variable (crates : Crates) (cfg : OracleConfig) (lastSeenSlot : Nat)

def scanBatch : List SignatureEntry → (scanned : UInt64) → (before : Option Signature) →
    (highestSlot : Nat) → Scan BatchEnd
  | [], scanned, before, highestSlot => return .scanned scanned before highestSlot
  | entry :: entries, scanned, before, highestSlot => do
    let scanned := scanned + 1
    report (.counted scanned)
    let highestSlot := if entry.slot > highestSlot then entry.slot else highestSlot
    if lastSeenSlot > 0 ∧ entry.slot ≤ lastSeenSlot then return .stopped highestSlot
    else if entry.err then scanBatch entries scanned before highestSlot
    else match crates.signatureFromStr entry.signature with
      | none => scanBatch entries scanned before highestSlot
      | some sig =>
        match ← (fetchDeliveryJob crates cfg sig).unmarked with
        | .ok (some job) =>
          if ← scan (.sendJob job) then scanBatch entries scanned (some sig) highestSlot
          else return .stopped highestSlot
        | _ => scanBatch entries scanned (some sig) highestSlot

def scanLoop (max : UInt64) : (fuel : Nat) → (scanned : UInt64) → (before : Option Signature) →
    (highestSlot : Nat) → Scan (Option Nat)
  | 0, _, _, _ => return none
  | fuel + 1, scanned, before, highestSlot => do
    report (.head scanned)
    let want := (min (max - scanned) 1000).toNat
    if want = 0 then return some highestSlot
    else match ← scan (.getSignatures before want) with
    | .error _ => return some highestSlot
    | .ok batch =>
      if batch.entries.length = 0 then return some highestSlot
      else match ← scanBatch crates cfg lastSeenSlot batch.entries scanned before highestSlot with
        | .stopped highestSlot => return some highestSlot
        | .scanned scanned before highestSlot =>
          if batch.entries.length < want then return some highestSlot
          else scanLoop max fuel scanned before highestSlot

end

/-- The counter has not passed the bound, and no increment has wrapped around. -/
def Mark.Within (max : UInt64) : Mark → Prop
  | head scanned => scanned ≤ max
  | counted scanned => 0 < scanned ∧ scanned ≤ max

def InBudget (max : UInt64) : Marked Call Mark → Prop
  | .mark m => m.Within max
  | .call (.getSignatures _ limit) => 1 ≤ limit ∧ limit ≤ 1000
  | .call _ => True

abbrev History := List (Event (Marked Call Mark) (Marked.Reply Call.Reply))

def isPage : Marked Call Mark → Bool
  | .call (.getSignatures _ _) => true
  | _ => false

def pages (h : History) : Nat := h.countP fun ev => isPage ev.call

def Allowed (max : UInt64) (h : History) (c : Marked Call Mark) : Prop :=
  InBudget max c ∧ (isPage c = true → pages h < max.toNat)

variable {crates : Crates} {cfg : OracleConfig} {lastSeenSlot : Nat} {max scanned : UInt64}
  {before : Option Signature} {highestSlot n : Nat} {hist : History}

theorem toNat_min (a b : UInt64) : (min a b).toNat = min a.toNat b.toNat := by
  show (if a ≤ b then a else b).toNat = _
  rw [Nat.min_def]
  simp only [UInt64.le_iff_toNat_le]
  split <;> rfl

theorem want_eq (h : scanned ≤ max) :
    (min (max - scanned) 1000).toNat = min (max.toNat - scanned.toNat) 1000 := by
  rw [toNat_min, UInt64.toNat_sub_of_le _ _ h]
  rfl

theorem toNat_add_length (max scanned : UInt64) (n : Nat) (h : scanned.toNat + n ≤ max.toNat) :
    (scanned + UInt64.ofNat n).toNat = scanned.toNat + n := by
  have hmax : max.toNat < 2 ^ 64 := max.toNat_lt
  have hlt : n < 2 ^ 64 := by omega
  have hn : (UInt64.ofNat n).toNat = n := UInt64.toNat_ofNat_of_lt' hlt
  rw [UInt64.toNat_add, hn]
  exact Nat.mod_eq_of_lt (by omega)

/-! ## The marks change nothing -/

def counted (count : UInt64) : PageEnd → BatchEnd
  | .stopped highestSlot => .stopped highestSlot
  | .scanned before highestSlot => .scanned count before highestSlot

theorem scanBatch_erase (entries : List SignatureEntry) (scanned : UInt64)
    (before : Option Signature) (highestSlot : Nat) :
    (scanBatch crates cfg lastSeenSlot entries scanned before highestSlot).erase =
      (scanEntries crates cfg lastSeenSlot entries before highestSlot >>= fun pageEnd =>
        .ret (counted (scanned + UInt64.ofNat entries.length) pageEnd)) := by
  induction entries generalizing scanned before highestSlot with
  | nil =>
    simp [scanBatch, scanEntries, counted]
  | cons entry entries ih =>
    have hcount : scanned + 1 + UInt64.ofNat entries.length =
        scanned + UInt64.ofNat (entry :: entries).length := by
      rw [List.length_cons, UInt64.ofNat_add, UInt64.add_assoc, UInt64.add_comm 1]
      rfl
    rw [scanBatch, scanEntries, report, Prog.ask_bind, Prog.erase_mark]
    dsimp only
    split
    · rfl
    split
    · rw [ih, hcount]
    cases crates.signatureFromStr entry.signature with
    | none =>
      dsimp only
      rw [ih, hcount]
    | some sig =>
      dsimp only
      rw [Prog.erase_bind, Prog.erase_unmarked, Prog.bind_assoc]
      refine congrArg (Bind.bind (fetchDeliveryJob crates cfg sig)) (funext fun r => ?_)
      rcases r with e | _ | job
      · exact (ih _ _ _).trans (by rw [hcount])
      · exact (ih _ _ _).trans (by rw [hcount])
      · refine congrArg (Prog.call (Call.sendJob job)) (funext fun sent => ?_)
        cases sent with
        | false => rfl
        | true =>
          refine (ih _ _ _).trans ?_
          rw [hcount]
          rfl

theorem scanLoop_erase {fuel : Nat} (hscanned : scanned ≤ max)
    (hfuel : max.toNat - scanned.toNat < fuel) :
    (scanLoop crates cfg lastSeenSlot max fuel scanned before highestSlot).erase =
      (scanPages crates cfg lastSeenSlot (max.toNat - scanned.toNat) before highestSlot >>=
        fun highestSlot => .ret (some highestSlot)) := by
  induction fuel generalizing scanned before highestSlot with
  | zero => omega
  | succ fuel ih =>
    rw [scanLoop, scanPages, report, Prog.ask_bind, Prog.erase_mark, want_eq hscanned]
    dsimp only
    split
    · rfl
    next hwant =>
    refine congrArg (Prog.call (Call.getSignatures before _)) (funext fun reply => ?_)
    cases reply with
    | error e => rfl
    | ok batch =>
      dsimp only [Prog.bind]
      split
      · rfl
      next hbatch =>
      have hlength := batch.length_le
      have hle : scanned.toNat ≤ max.toNat := UInt64.le_iff_toNat_le.mp hscanned
      have hcount := toNat_add_length max scanned batch.entries.length (by omega)
      rw [Prog.erase_bind, scanBatch_erase, Prog.bind_assoc]
      refine Eq.trans ?_ (Prog.bind_assoc _ _ _).symm
      refine congrArg (Bind.bind (scanEntries crates cfg lastSeenSlot _ _ _))
        (funext fun pageEnd => ?_)
      cases pageEnd with
      | stopped highestSlot => rfl
      | scanned before highestSlot =>
        rw [Prog.ret_bind]
        dsimp only [counted]
        split
        · rfl
        · have hscanned' : scanned + UInt64.ofNat batch.entries.length ≤ max := by
            rw [UInt64.le_iff_toNat_le, hcount]
            omega
          rw [ih hscanned' (by omega), hcount, Nat.sub_sub]

/-! ## Every call is within the budget -/

theorem record_pages {c : Marked Call Mark} {r : Marked.Reply Call.Reply c} {hist' : History}
    (h : Prog.record hist c r hist') : pages hist' = pages hist + if isPage c then 1 else 0 :=
  Prog.countP_record h

theorem record_pages_of_not {c : Marked Call Mark} {r : Marked.Reply Call.Reply c}
    {hist' : History} (h : Prog.record hist c r hist') (hc : isPage c = false) :
    pages hist' = pages hist := by
  rw [record_pages h, hc]
  rfl

theorem isFetch_inBudget (max : UInt64) {c : Call} (h : IsFetch c) :
    InBudget max (.call c) ∧ isPage (.call c) = false := by
  rcases h with ⟨sig, rfl⟩ | ⟨key, rfl⟩
  · exact ⟨trivial, rfl⟩
  · exact ⟨trivial, rfl⟩

theorem fetch_wp (sig : Signature) (hpages : pages hist = n) :
    (fetchDeliveryJob crates cfg sig).unmarked.Wp Prog.record (Allowed max)
      (fun _ hist' => pages hist' = n) hist := by
  refine (fetchDeliveryJob_fetch sig).unmarked.wp ?_ ?_ hpages
  · rintro hist' _ - ⟨c, rfl, hc⟩
    obtain ⟨hbudget, hpage⟩ := isFetch_inBudget max hc
    exact ⟨hbudget, fun h => by rw [hpage] at h; cases h⟩
  · rintro hist' _ r hist'' hn ⟨c, rfl, hc⟩ hrecord
    rw [record_pages_of_not hrecord (isFetch_inBudget max hc).2, hn]

theorem scanBatch_wp {entries : List SignatureEntry}
    (hroom : scanned.toNat + entries.length ≤ max.toNat) (hpages : pages hist = n) :
    (scanBatch crates cfg lastSeenSlot entries scanned before highestSlot).Wp Prog.record
      (Allowed max) (fun pageEnd hist' => pages hist' = n ∧ ∀ count before' highestSlot',
        pageEnd = .scanned count before' highestSlot' →
          count.toNat = scanned.toNat + entries.length) hist := by
  induction entries generalizing scanned before highestSlot hist with
  | nil =>
    refine ⟨hpages, fun count before' highestSlot' h => ?_⟩
    cases h
    rfl
  | cons entry entries ih =>
    rw [List.length_cons] at hroom ⊢
    have hnext : (scanned + 1).toNat = scanned.toNat + 1 :=
      toNat_add_length max scanned 1 (by omega)
    have hrest : ∀ (before : Option Signature) (highestSlot : Nat) (hist : History),
        pages hist = n →
        (scanBatch crates cfg lastSeenSlot entries (scanned + 1) before highestSlot).Wp Prog.record
          (Allowed max) (fun pageEnd hist' => pages hist' = n ∧ ∀ count before' highestSlot',
            pageEnd = .scanned count before' highestSlot' →
              count.toNat = scanned.toNat + (entries.length + 1)) hist := by
      intro before highestSlot hist hpages
      refine (ih (by omega) hpages).mono fun pageEnd hist' h => ⟨h.1, ?_⟩
      intro count before' highestSlot' hend
      rw [h.2 count before' highestSlot' hend, hnext]
      omega
    rw [scanBatch]
    refine Prog.Wp.ask_bind ⟨?_, fun h => by cases h⟩ fun _ hist₁ hrecord => ?_
    · refine ⟨UInt64.lt_iff_toNat_lt.mpr ?_, UInt64.le_iff_toNat_le.mpr ?_⟩
      · rw [hnext]
        exact Nat.succ_pos _
      · omega
    have hpages₁ : pages hist₁ = n := (record_pages_of_not hrecord rfl).trans hpages
    dsimp only
    split
    · exact ⟨hpages₁, fun _ _ _ h => by cases h⟩
    split
    · exact hrest _ _ _ hpages₁
    split
    · exact hrest _ _ _ hpages₁
    next sig _ =>
    refine (fetch_wp sig hpages₁).bind fun r hist₂ hpages₂ => ?_
    rcases r with e | _ | job
    · exact hrest _ _ _ hpages₂
    · exact hrest _ _ _ hpages₂
    · refine Prog.Wp.ask_bind ⟨trivial, fun h => by cases h⟩ fun sent hist₃ hrecord₃ => ?_
      have hpages₃ : pages hist₃ = n := (record_pages_of_not hrecord₃ rfl).trans hpages₂
      cases sent with
      | false => exact ⟨hpages₃, fun _ _ _ h => by cases h⟩
      | true => exact hrest _ _ _ hpages₃

/-- Every page but the last adds to the counter: there are no more pages than counted entries. -/
theorem scanLoop_wp {fuel : Nat} (hscanned : scanned ≤ max)
    (hpages : pages hist ≤ scanned.toNat) :
    (scanLoop crates cfg lastSeenSlot max fuel scanned before highestSlot).Wp Prog.record
      (Allowed max) (fun _ _ => True) hist := by
  induction fuel generalizing scanned before highestSlot hist with
  | zero => trivial
  | succ fuel ih =>
    have hle : scanned.toNat ≤ max.toNat := UInt64.le_iff_toNat_le.mp hscanned
    rw [scanLoop, want_eq hscanned]
    refine Prog.Wp.ask_bind ⟨hscanned, fun h => by cases h⟩ fun _ hist₁ hrecord => ?_
    have hpages₁ : pages hist₁ = pages hist := record_pages_of_not hrecord rfl
    dsimp only
    split
    · trivial
    next hwant =>
    refine Prog.Wp.ask_bind ⟨⟨by omega, by omega⟩, fun _ => by omega⟩ fun reply hist₂ hrecord₂ => ?_
    have hpages₂ : pages hist₂ = pages hist₁ + 1 := record_pages hrecord₂
    cases reply with
    | error e => trivial
    | ok batch =>
      dsimp only
      split
      · trivial
      next hbatch =>
      have hlength := batch.length_le
      refine (scanBatch_wp (by omega) hpages₂).bind fun pageEnd hist₃ h => ?_
      cases pageEnd with
      | stopped highestSlot => trivial
      | scanned count before highestSlot =>
        have hcount := h.2 _ _ _ rfl
        dsimp only
        split
        · trivial
        · refine ih (UInt64.le_iff_toNat_le.mpr ?_) ?_
          · omega
          · omega

/-- The counter never passes the bound, so its difference to the bound never wraps around; each page
request is for 1 to 1000 entries; there are at most `max` requests; and after that many rounds the
loop has ended. -/
theorem backfill_budget (crates : Crates) (cfg : OracleConfig) (lastSeenSlot : Nat) (max : UInt64)
    (fuel : Nat) :
    let loop := scanLoop crates cfg lastSeenSlot max fuel 0 none lastSeenSlot
    (∀ tr, loop.Trace tr → (∀ ev ∈ tr, InBudget max ev.call) ∧ pages tr ≤ max.toNat) ∧
      (max.toNat < fuel → loop.erase =
        (scanPages crates cfg lastSeenSlot max.toNat none lastSeenSlot >>=
          fun highestSlot => .ret (some highestSlot))) := by
  intro loop
  constructor
  · intro tr htrace
    have hwp : loop.Wp Prog.record (Allowed max) (fun _ _ => True) [] :=
      scanLoop_wp (UInt64.le_iff_toNat_le.mpr (Nat.zero_le _)) le_rfl
    constructor
    · intro ev hev
      obtain ⟨before, after, hsplit⟩ := List.append_of_mem hev
      exact (htrace.ok_of_wp hwp hsplit).1
    · exact htrace.countP_le_of_wp hwp fun _ _ h => h.2
  · intro hfuel
    exact scanLoop_erase (UInt64.le_iff_toNat_le.mpr (Nat.zero_le _)) hfuel

end OracleQa.BackfillBudget
