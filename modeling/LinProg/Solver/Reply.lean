/-
# Replies of solvers

An operation on a solver has a result or a fault, leaves the solver in a next state,
and writes log lines. The state counts also after a fault.
-/
import LinProg.Fault

namespace LinProg

/-- Importance of a log line. -/
inductive LogLevel where
  | warning
  | info
  | debug
  | trace
  deriving DecidableEq

/-- Word at the start of a log line. -/
def LogLevel.text : LogLevel → String
  | .warning => "WARN"
  | .info => "INFO"
  | .debug => "DEBUG"
  | .trace => "TRACE"

/-- One line of a log. -/
structure LogLine where
  level : LogLevel
  message : String
  deriving DecidableEq

/-- The line as it is listed. -/
def LogLine.text (line : LogLine) : String :=
  s!"{line.level.text} {line.message}"

/-- What an operation leaves behind. -/
structure Reply (σ α : Type) where
  result : Except Fault α
  next : σ
  log : List LogLine

namespace Reply

variable {σ α β : Type}

/-- A result without log lines. -/
def succeed (next : σ) (value : α) : Reply σ α :=
  ⟨.ok value, next, []⟩

/-- A fault without log lines. -/
def fail (next : σ) (fault : Fault) : Reply σ α :=
  ⟨.error fault, next, []⟩

/-- A refusal by a solver without log lines. -/
def refuse (next : σ) (error : SolverError) : Reply σ α :=
  fail next (.solver error)

/-- Put log lines before those of a reply. -/
def logging (lines : List LogLine) (reply : Reply σ α) : Reply σ α :=
  { reply with log := lines ++ reply.log }

/-- Change the value of a result. -/
def map (change : α → β) (reply : Reply σ α) : Reply σ β :=
  ⟨reply.result.map change, reply.next, reply.log⟩

/-- Go on from the next state, unless there was a fault. -/
def andThen (reply : Reply σ α) (continuation : α → σ → Reply σ β) : Reply σ β :=
  match reply.result with
  | .ok value => (continuation value reply.next).logging reply.log
  | .error fault => ⟨.error fault, reply.next, reply.log⟩

end Reply

end LinProg
