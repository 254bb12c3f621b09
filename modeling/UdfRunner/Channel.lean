import UdfRunner.Lib.Proc
import UdfRunner.Messages

/-!
# What the objects of a running script share

The exception handler, `inp_force_finish` and the socket. The socket is of type `ZMQ_REQ`: every
request is followed by the receipt of its reply, so a conversation is a list of exchanges, and the
server may answer by everything it was sent so far (`past`).
-/

namespace UdfRunner
open Proc

/-- `SWIGVM_columntype_t`. -/
structure SwigColumntype where
  type : Datatype := .unsupported
  typeName : ByteString := str "UNSUPPORTED"
  len : Nat := 0
  prec : Nat := 0
  scale : Nat := 0
deriving DecidableEq, Repr

/-- `SWIGVM_params_t`, as `send_init` and `initSwigParams` fill it. -/
structure Params where
  connectionId : UInt64 := 0
  dbname : ByteString := []
  dbversion : ByteString := []
  scriptName : ByteString := []
  scriptSchema : ByteString := []
  currentUser : ByteString := []
  currentSchema : ByteString := []
  scopeUser : ByteString := []
  scriptCode : ByteString := []
  sessionId : Nat := 0
  statementId : Nat := 0
  nodeCount : Nat := 0
  nodeId : Nat := 0
  vmId : Nat := 0
  maximalMemoryLimit : Nat := 0
  inpNames : List ByteString := []
  inpTypes : List SwigColumntype := []
  inpIterType : Itertype := .multiple
  outNames : List ByteString := []
  outTypes : List SwigColumntype := []
  outIterType : Itertype := .multiple
  singleCallMode : Bool := false
deriving DecidableEq, Repr

/-- The parameters of a script's session, the database it talks to, and which emit requests protobuf
is able to serialize. -/
structure Session extends Params where
  server : Server
  serializes : TableData → Bool

namespace Session

def inputTypes (S : Session) : List Datatype := S.inpTypes.map (·.type)
def outputTypes (S : Session) : List Datatype := S.outTypes.map (·.type)

end Session

structure Channel where
  exch : ExceptionHandler := {}
  inpForceFinish : Bool := false
  past : List Request := []
  exchanges : List (VmRequest × Reply) := []
deriving DecidableEq, Repr

namespace Channel

def setException (msg : ByteString) : Proc Channel Exception Unit :=
  modify fun c => { c with exch := c.exch.setException msg }

def request (S : Session) (q : VmRequest) : Request := ⟨S.connectionId, .inl q⟩

def checkException : Proc Channel Exception (Option ByteString) := do
  let c ← get
  if c.exch.exthrowed then
    modify fun c => { c with exch.exthrowed := false }
    return some c.exch.exmsg
  else return none

/-- What the server answers to `q` now. -/
def answer (S : Session) (q : VmRequest) (c : Channel) : Reply := S.server (c.past ++ [request S q])

/-- The channel after the exchange of `q`. -/
def after (S : Session) (q : VmRequest) (c : Channel) : Channel :=
  { c with past := c.past ++ [request S q], exchanges := c.exchanges ++ [(q, c.answer S q)] }

/-- `socket_send` and the `socket_recv` that follows it. -/
def exchange (S : Session) (q : VmRequest) : Proc Channel Exception Reply := do
  let c ← get
  modify (after S q)
  return c.answer S q

variable {S : Session} {c : Channel} {q : VmRequest}

@[simp] theorem wp_setException {Q : Outcome Exception Unit → Channel → Prop} (msg : ByteString) :
    wp (setException msg) Q c ↔ Q (.ok ()) { c with exch := ⟨msg, true⟩ } := Iff.rfl

@[simp] theorem wp_exchange {Q : Outcome Exception Reply → Channel → Prop} :
    wp (exchange S q) Q c ↔ Q (.ok (c.answer S q)) (c.after S q) := Iff.rfl

end Channel

/-- The database accepts every `MT_EMIT`. -/
def AcceptsEmits (S : Session) : Prop :=
  ∀ past t, ∃ r, S.server (past ++ [Channel.request S (.emit t)]) = .message r ∧
    r.type = .mtEmit ∧ r.connectionId = S.connectionId

end UdfRunner
