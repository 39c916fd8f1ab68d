import OracleQa.Spec.Agreement
import OracleQa.Spec.Integrity

/-! The ledger and the chain agree however many processes settle, and a recorded verdict can be
computed anew from the documents that its payment commits to. -/

namespace OracleQa.FleetAgreement
open Interaction Text Agreement Integrity

variable {crates : Crates} {cfg : OracleConfig} {s s' : System} {a : Act}

structure SharedAgrees (g : Shared) : Prop where
  landed : ∀ tx ∈ g.chain.landed, g.chain.resolution tx.ix.paymentUid = some tx.ix.resolution
  ledger : LedgerAgrees g.chain.resolution g.ledger
  unanswered : ∀ q ∈ g.unanswered, Backed g.chain.resolution q

theorem inv_of_shared (hg : SharedAgrees s.shared)
    (hs : ∀ t, Sound s.shared.chain.resolution (s.process.tasks t)) : Inv s :=
  ⟨hg.landed, hg.ledger, hg.unanswered, hs⟩

theorem grows_move (hs : Inv s) (h : s.Move crates cfg a s') :
    Grows s.world.chain.resolution s'.world.chain.resolution := by
  cases h with
  | call hcode hw => exact (frame_keeps (World.performTimed_frame hw) hs.landed).1
  | spawn hentry hexecuted => exact .refl _
  | execLate hq => exact .refl _
  | land htx hnone => exact land_grows hnone
  | resolve hnone => exact grows_update hnone
  | crash => exact .refl _

section Fleet
variable {I : Type} [DecidableEq I] {cfg : I → OracleConfig} {s : Oracles I}

theorem sharedAgrees_of_reached (hs : Oracles.Reached crates cfg s) : SharedAgrees s.shared := by
  have hfirst : SharedAgrees System.init.shared :=
    ⟨inv_init.landed, inv_init.ledger, inv_init.unanswered⟩
  refine (Oracles.invariant SharedAgrees
    (fun _ g p => ∀ t, Sound g.chain.resolution (p.tasks t))
    (fun g g' => Grows g.chain.resolution g'.chain.resolution) hfirst (fun _ => inv_init.tasks)
    ?_ (fun _ _ _ _ hp hgrows t => (hp t).grows hgrows) hs).1
  intro i s s' a hg hp hmove
  have hinv := inv_of_shared hg hp
  have hinv' := inv_next hinv hmove
  exact ⟨⟨hinv'.landed, hinv'.ledger, hinv'.unanswered⟩, hinv'.tasks, grows_move hinv hmove⟩

end Fleet

theorem resolution_eq {res : Resolution} {v : VerdictRow} {result : EvaluationResult}
    {hash : Bytes32} (hagrees : VerdictAgrees res v) (happroved : v.approved = result.approved)
    (hreason : v.resolutionReason = result.resolutionReason.toNat)
    (hhash : v.resolutionHash = hexEncode hash.toList) :
    res = ⟨if result.approved then 1 else 2, result.resolutionReason, hash⟩ := by
  obtain ⟨state, reason, hash'⟩ := res
  obtain ⟨hstate, hreason', hhash'⟩ := hagrees
  obtain rfl : reason = result.resolutionReason := UInt16.toNat_inj.mp (hreason'.trans hreason)
  obtain rfl : hash' = hash :=
    List.Vector.toList_injective (hexEncode_injective (hhash'.trans hhash))
  rw [← happroved, ← hstate]

variable {I : Type} [DecidableEq I]

/-- Whoever recorded a verdict, it is the resolution on chain, and the evaluator gives it on
documents with the hashes of a job for that payment. -/
theorem verdict_reproduced (crates : Crates) (cfg : I → OracleConfig) (s : Oracles I)
    (hs : Oracles.Reached crates cfg s) (key : String) (v : VerdictRow)
    (hv : s.shared.ledger.verdicts key = some v) :
    ∃ job result hash, uidHex job.paymentUid = key ∧
      Reproduces crates (modes cfg) job result hash ∧
      v.approved = result.approved ∧ v.checks = result.checks ∧
      v.resolutionReason = result.resolutionReason.toNat ∧
      v.resolutionHash = hexEncode hash.toList ∧
      s.shared.chain.resolution key =
        some ⟨if result.approved then 1 else 2, result.resolutionReason, hash⟩ := by
  obtain ⟨-, -, job, result, hash, hkey, hreproduces, happroved, hreason, hchecks, hhash⟩ :=
    (fits_of_reached hs).verdicts key v hv
  obtain ⟨res, hres, hagrees⟩ := (sharedAgrees_of_reached hs).ledger.verdict key v hv
  refine ⟨job, result, hash, hkey, hreproduces, happroved, hchecks, hreason, hhash, ?_⟩
  rw [hres, resolution_eq hagrees happroved hreason hhash]

theorem verdict_reproduced_two :
    ∃ s v, Oracles.run .toy (fun _ : Bool => .toy) twoEvaluations = some s ∧
      s.shared.ledger.verdicts (uidHex (byte32 1)) = some v ∧
      ∃ job result hash, uidHex job.paymentUid = uidHex (byte32 1) ∧
        Reproduces .toy (modes fun _ : Bool => .toy) job result hash ∧
        v.approved = result.approved ∧ v.checks = result.checks ∧
        v.resolutionReason = result.resolutionReason.toNat ∧
        v.resolutionHash = hexEncode hash.toList ∧
        s.shared.chain.resolution (uidHex (byte32 1)) =
          some ⟨if result.approved then 1 else 2, result.resolutionReason, hash⟩ := by
  have hrun : (Oracles.run .toy (fun _ : Bool => .toy) twoEvaluations).map
      (fun s => (s.shared.ledger.verdicts (uidHex (byte32 1))).isSome) = some true := by
    decide +kernel
  obtain ⟨s, hs, hverdict⟩ := Option.map_eq_some_iff.mp hrun
  obtain ⟨v, hv⟩ := Option.isSome_iff_exists.mp hverdict
  exact ⟨s, v, hs, hv, verdict_reproduced .toy (fun _ => .toy) s (Oracles.reached_of_run hs) _ v hv⟩

/-- Whoever settled a row, the chain holds the resolution whose hash the row bears. -/
theorem settled_resolved (crates : Crates) (cfg : I → OracleConfig) (s : Oracles I)
    (hs : Oracles.Reached crates cfg s) (key : String) (row : JobRow)
    (hrow : s.shared.ledger.jobs key = some row) (hsettled : row.status = .settled) :
    ∃ res, s.shared.chain.resolution key = some res ∧
      row.resolutionHash = some (hexEncode res.hash.toList) ∧
      row.settlementSignature.isSome = true := by
  have hfits := (fits_of_reached hs).rows key row hrow
  have hhashed := hfits.settled hsettled
  obtain ⟨hash, hhash⟩ := Option.isSome_iff_exists.mp hhashed
  obtain ⟨res, hres, rfl⟩ := (sharedAgrees_of_reached hs).ledger.hash key row hash hrow hhash
  exact ⟨res, hres, hhash, hfits.signature.trans hhashed⟩

theorem settled_resolved_two :
    ∃ s row, Oracles.run .toy (fun _ : Bool => .toy) twoEvaluations = some s ∧
      s.shared.ledger.jobs (uidHex (byte32 1)) = some row ∧ row.status = .settled ∧
      ∃ res, s.shared.chain.resolution (uidHex (byte32 1)) = some res ∧
        row.resolutionHash = some (hexEncode res.hash.toList) ∧
        row.settlementSignature.isSome = true := by
  have hrun : ((Oracles.run .toy (fun _ : Bool => .toy) twoEvaluations).bind
      fun s => (s.shared.ledger.jobs (uidHex (byte32 1))).map (·.status)) = some .settled := by
    decide +kernel
  obtain ⟨s, hs, hjob⟩ := Option.bind_eq_some_iff.mp hrun
  obtain ⟨row, hrow, hsettled⟩ := Option.map_eq_some_iff.mp hjob
  exact ⟨s, row, hs, hrow, hsettled,
    settled_resolved .toy (fun _ => .toy) s (Oracles.reached_of_run hs) _ row hrow hsettled⟩

end OracleQa.FleetAgreement
