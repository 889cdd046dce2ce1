import InstallerRegistry.Error

/-!
# Failures of a command

A failure says what could not be done, and below that why: each message is the cause of the one
before it. It is reported over several lines (`Failure.report`) or on one (`Failure.line`).
-/

namespace InstallerRegistry.Command

/-- **A failure**: the message on top, and its causes. -/
structure Failure where
  message : Text
  causes : List Text := []
deriving DecidableEq, Repr

namespace Failure

/-- The failure that an error is. -/
def ofError (e : RegistryError) : Failure :=
  ⟨e.message, e.cause?.toList⟩

/-- A failure as the cause of another. -/
def under (context : Text) (f : Failure) : Failure :=
  ⟨context, f.message :: f.causes⟩

/-- A text whose further lines are indented. -/
def hanging (margin t : Text) : Text :=
  Text.join ('\n' :: margin) (Text.splitOn '\n' t)

/-- The margin of a cause. -/
def margin : Text := "    ".toList

/-- The number of a cause, in the margin. -/
def numbered (n : Nat) : Text :=
  let digits := Text.ofNat n
  List.replicate (5 - digits.length) ' ' ++ digits ++ [':', ' ']

/-- The causes from the number `n` on. -/
def numberedCauses (n : Nat) : List Text → Text
  | [] => []
  | cause :: rest =>
    '\n' :: numbered n ++ hanging "       ".toList cause ++ numberedCauses (n + 1) rest

/-- The part of a report that gives the causes. Several are numbered. -/
def causesReport : List Text → Text
  | [] => []
  | [cause] => "\n\nCaused by:\n".toList ++ margin ++ hanging margin cause
  | causes => "\n\nCaused by:".toList ++ numberedCauses 0 causes

/-- A failure over several lines. -/
def report (f : Failure) : Text :=
  "Error: ".toList ++ f.message ++ causesReport f.causes ++ ['\n']

/-- A failure on one line. -/
def line (f : Failure) : Text :=
  Text.join [':', ' '] (f.message :: f.causes)

end Failure

end InstallerRegistry.Command
