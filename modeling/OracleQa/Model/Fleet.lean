import OracleQa.Interaction.Fleet
import OracleQa.Model.System

/-! Any number of processes of the oracle, each with a configuration of its own, that write to one
ledger and settle on one chain. -/

namespace OracleQa
open Interaction

structure Shared where
  ledger : Ledger
  unanswered : List Stmt
  chain : ChainState

structure Process where
  health : RuntimeHealth
  channel : List EvaluationJob
  stats : OracleStats
  processed : Finset Bytes32
  attempts : Bytes32 → Option UInt32
  manualRequests : List Nat
  tasks : TaskId → TaskCode Unit
  up : Bool

def System.shared (s : System) : Shared := ⟨s.world.ledger, s.world.unanswered, s.world.chain⟩

def System.process (s : System) : Process :=
  ⟨s.world.health, s.world.channel, s.world.stats, s.world.processed, s.world.attempts,
    s.world.manualRequests, s.tasks, s.up⟩

namespace Process

def within (p : Process) (g : Shared) : System :=
  ⟨⟨g.ledger, g.unanswered, g.chain, p.health, p.channel, p.stats, p.processed, p.attempts,
    p.manualRequests⟩, p.tasks, p.up⟩

def down : Process := System.init.process

def step (crates : Crates) (cfg : OracleConfig) (p : Shared × Process) (a : Act) :
    Option (Shared × Process) :=
  ((p.2.within p.1).next crates cfg a).map fun s => (s.shared, s.process)

@[simp] theorem within_shared (p : Process) (g : Shared) : (p.within g).shared = g := rfl

@[simp] theorem within_process (p : Process) (g : Shared) : (p.within g).process = p := rfl

end Process

@[simp] theorem System.process_within (s : System) : s.process.within s.shared = s := rfl

abbrev Oracles (I : Type) := Fleet I Shared Process

namespace Oracles
variable {I : Type} [DecidableEq I] {crates : Crates} {cfg : OracleConfig}

def init : Oracles I := ⟨System.init.shared, fun _ => .down⟩

def next (crates : Crates) (cfg : I → OracleConfig) : Oracles I → I × Act → Option (Oracles I) :=
  Fleet.next fun i => Process.step crates (cfg i)

/-- The states that the processes reach together, in whatever order they step. -/
abbrev Reached (crates : Crates) (cfg : I → OracleConfig) (s : Oracles I) : Prop :=
  Reach (next crates cfg) (fun _ _ => True) init s

theorem step_eq_some {g g' : Shared} {p p' : Process} {a : Act}
    (h : Process.step crates cfg (g, p) a = some (g', p')) :
    (p.within g).next crates cfg a = some (p'.within g') := by
  obtain ⟨s, hs, heq⟩ := Option.map_eq_some_iff.mp h
  obtain ⟨rfl, rfl⟩ := Prod.mk.inj heq
  exact hs

theorem step_of_next {s s' : System} {a : Act} (h : s.next crates cfg a = some s') :
    Process.step crates cfg (s.shared, s.process) a = some (s'.shared, s'.process) := by
  simp only [Process.step, System.process_within, h, Option.map_some]

theorem invariant {cfg : I → OracleConfig} {s : Oracles I} (Glob : Shared → Prop)
    (Inv : I → Shared → Process → Prop) (rely : Shared → Shared → Prop)
    (hglob : Glob System.init.shared) (hinv : ∀ i, Inv i System.init.shared .down)
    (hmove : ∀ i (s s' : System) a, Glob s.shared → Inv i s.shared s.process →
      s.Move crates (cfg i) a s' → Glob s'.shared ∧ Inv i s'.shared s'.process ∧
        rely s.shared s'.shared)
    (hstable : ∀ i g g' p, Inv i g p → rely g g' → Inv i g' p) (hs : Reached crates cfg s) :
    Glob s.shared ∧ ∀ i, Inv i s.shared (s.own i) :=
  Fleet.invariant Glob Inv rely hglob hinv
    (fun i g p a g' p' hg hp hstep => hmove i (p.within g) (p'.within g') a hg hp
      (System.next_move (step_eq_some hstep))) hstable hs

/-- One process alone reaches what the process of the single-process model reaches. -/
theorem reach_of_system {s : System}
    (hs : Reach (System.next crates cfg) (fun _ _ => True) .init s) :
    Reached crates (fun _ : Unit => cfg) ⟨s.shared, fun _ => s.process⟩ := by
  refine Fleet.reach_alone (fun _ _ => True) ?_
  induction hs with
  | first => exact .first
  | next hs hguard hnext ih => exact .next ih trivial (step_of_next hnext)

theorem system_of_reach {s : Oracles Unit} (hs : Reached crates (fun _ : Unit => cfg) s) :
    Reach (System.next crates cfg) (fun _ _ => True) .init ((s.own ()).within s.shared) := by
  have halone := Fleet.alone_of_reach (fun _ _ => True) hs
  generalize hp : (s.shared, s.own ()) = p at halone
  suffices h : Reach (System.next crates cfg) (fun _ _ => True) .init (p.2.within p.1) by
    rwa [← hp] at h
  clear hp
  induction halone with
  | first => exact .first
  | next hs hguard hnext ih => exact .next ih trivial (step_eq_some hnext)

def run (crates : Crates) (cfg : I → OracleConfig) (as : List (I × Act)) : Option (Oracles I) :=
  runActs (next crates cfg) as init

theorem reached_of_run {cfg : I → OracleConfig} {as : List (I × Act)} {s : Oracles I}
    (h : run crates cfg as = some s) : Reached crates cfg s :=
  Reach.first.runActs (fun _ _ _ => trivial) h

end Oracles
end OracleQa
