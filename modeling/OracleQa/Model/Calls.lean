import OracleQa.Interaction.Timeout
import OracleQa.Model.Ledger

/-! Everything the tasks of the process await: RPC, evidence registry, clocks, ledger and the
memory they share. A critical section under a lock without a further await inside is one call. -/

namespace OracleQa
open Interaction

/-- One entry of `getSignaturesForAddress`. -/
structure SignatureEntry where
  signature : String
  slot : Nat
  err : Bool
  deriving DecidableEq

structure SignaturePage (limit : Nat) where
  entries : List SignatureEntry
  length_le : entries.length ≤ limit

inductive UiInstruction
  | partiallyDecoded (programId : String) (accounts : List String) (data : String)
  | parsed
  | compiled (programIdIndex : UInt8) (accounts : List UInt8) (data : String)
  deriving DecidableEq

inductive UiMessage
  | parsed (accountKeys : List String) (instructions : List UiInstruction)
  | raw
  deriving DecidableEq

structure TransactionMeta where
  logMessages : Option (List String)
  innerInstructions : Option (List (List UiInstruction))
  deriving DecidableEq

/-- A `getTransaction` reply; `message` is `none` when it is not in the JSON encoding. -/
structure EncodedTransaction where
  message : Option UiMessage
  txMeta : Option TransactionMeta
  deriving DecidableEq

inductive DbError
  | pool (msg : String)
  | query (msg : String)
  | timeout
  deriving DecidableEq

inductive Call
  -- RPC node
  | getAccount (key : Pubkey)
  | getLatestBlockhash
  | sendAndConfirm (tx : Transaction)
  | getTransaction (sig : Signature)
  | getSignatures (before : Option Signature) (limit : Nat)
  -- evidence registry
  | httpSend (url : String) (authorization : Option String)
  | httpBytes (url : String)
  -- clocks
  | sleepMs (ms : UInt64)
  | utcNow
  | instantNow
  -- ledger
  | sql (q : Stmt)
  -- memory shared by the tasks
  | setQueueDepth
  | observeSlot (slot : Nat)
  | observeDelivery
  | lastSeenSlot
  | raiseLastSeenSlot (slot : Nat)
  | sendJob (job : EvaluationJob)
  | countEvidenceFailure
  | countSettled (approved : Bool)
  | countError (deadLetter : Bool)
  | processedInsert (uid : Bytes32)
  | processedRemove (uid : Bytes32)
  | attemptsIncrement (uid : Bytes32)
  | attemptsRemove (uid : Bytes32)
  | admitRequest (now window limit : Nat)

@[reducible] def Call.Reply : Call → Type
  | getAccount _ => Except String (Option Account)
  | getLatestBlockhash => Except String Bytes32
  | sendAndConfirm _ => Except String Signature
  | getTransaction _ => Except String EncodedTransaction
  | getSignatures _ limit => Except String (SignaturePage limit)
  | httpSend _ _ => Except String Nat
  | httpBytes _ => Except String Bytes
  | sleepMs _ => Unit
  | utcNow => Int
  | instantNow => Nat
  | sql q => Except DbError q.Result
  | setQueueDepth => Unit
  | observeSlot _ => Unit
  | observeDelivery => Unit
  | lastSeenSlot => Nat
  | raiseLastSeenSlot _ => Unit
  | sendJob _ => Bool
  | countEvidenceFailure => Unit
  | countSettled _ => Unit
  | countError _ => Unit
  | processedInsert _ => Bool
  | processedRemove _ => Unit
  | attemptsIncrement _ => UInt32
  | attemptsRemove _ => Unit
  | admitRequest _ _ _ => Bool

/-- Code that is awaited to its end or raced against a deadline by its caller. -/
abbrev Async (α : Type) := Prog Call Call.Reply α

abbrev TCall := Timed Call
abbrev TReply := Timed.Reply Call.Reply

/-- Code of a task, each call of which is either awaited or raced against a deadline. -/
abbrev TaskCode (α : Type) := Prog TCall TReply α

def ask (c : Call) : Async c.Reply := Prog.ask c

def Call.toyReply : (c : Call) → c.Reply
  | getAccount _ => .ok (some ⟨byte32 6, List.replicate 8 0⟩)
  | getLatestBlockhash => .ok (byte32 0)
  | sendAndConfirm _ => .ok (List.Vector.replicate 64 0)
  | getTransaction _ => .ok ⟨some (.parsed [] []), none⟩
  | getSignatures _ limit => .ok ⟨[], Nat.zero_le limit⟩
  | httpSend _ _ => .ok 200
  | httpBytes _ => .ok []
  | sleepMs _ => ()
  | utcNow => 0
  | instantNow => 0
  | sql q => match q with
    | .isTerminal _ => .ok false
    | .attemptCount _ => .ok 1
    | .getParameter _ => .ok none
    | .setParameter _ _ => .ok ()
    | .upsertJob _ => .ok ()
    | .upsertVerdict _ => .ok ()
    | .insertEvent _ => .ok ()
  | setQueueDepth => ()
  | observeSlot _ => ()
  | observeDelivery => ()
  | lastSeenSlot => 0
  | raiseLastSeenSlot _ => ()
  | sendJob _ => true
  | countEvidenceFailure => ()
  | countSettled _ => ()
  | countError _ => ()
  | processedInsert _ => true
  | processedRemove _ => ()
  | attemptsIncrement _ => 1
  | attemptsRemove _ => ()
  | admitRequest _ _ _ => true

end OracleQa
