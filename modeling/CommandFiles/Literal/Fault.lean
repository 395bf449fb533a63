/-!
# Faults of literals

Why a literal cannot be read. Names that nothing gives a meaning and syntax outside the supported
subset are faults of the whole literal. A soft fault stays inside the value it arises in, and a
broken optional chain inside the chain.
-/

namespace CommandFiles.Literal

/-- Syntax outside the supported subset. -/
structure Unsupported where
  node : String
  line : Nat
  deriving DecidableEq, Repr

/-- Why an expression has no value. -/
inductive Fault where
  | soft (reason : String)
  | unresolved (name : String) (line : Nat)
  | unsupported (what : Unsupported)
  | shortCircuit
  deriving DecidableEq, Repr

/-- Why a literal was not accepted: it contains syntax outside the supported subset, or it has no
value of the needed shape. The literal as it would be written goes with the second. -/
inductive Rejection where
  | unsupported (path : String) (what : Unsupported)
  | compile (path reason : String) (generated : Option String)
  deriving DecidableEq, Repr

/-- The file at fault. -/
def Rejection.path : Rejection → String
  | unsupported path _ => path
  | compile path _ _ => path

/-- The words of a rejection. -/
def Rejection.message : Rejection → String
  | unsupported path what =>
    s!"unsupported `{what.node}` in option literal of {path} (line {what.line})"
  | compile path reason _ =>
    s!"could not evaluate options in {path}, please make sure they follow conventions.\n " ++
      s!"Originating error: {reason}"

/-- The rejection that a fault which reaches the outside leads to. -/
def Fault.rejection (path : String) (generated : Option String) : Fault → Rejection
  | soft reason => .compile path reason generated
  | unresolved name line => .compile path s!"{name} is not defined (line {line})" generated
  | unsupported what => .unsupported path what
  | shortCircuit => .compile path "optional chain escaped its expression" generated

end CommandFiles.Literal
