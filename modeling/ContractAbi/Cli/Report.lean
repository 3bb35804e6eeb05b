/-!
# Reporting a failed run

A failed run prints `Error: ` and its message, then, when it wraps other failures, a blank line,
`Caused by:`, and each wrapped failure on its own line, outermost first. A single cause is
indented by four spaces; several are numbered from 0, the numbers right-aligned in five columns
and followed by `: `. A cause of several lines keeps its lines together, each further line
indented to where the first line's text began.
-/

namespace ContractAbi.Cli

/-- A failed run: its message and the failures it wraps, outermost first. -/
structure Fault where
  message : String
  causes : List String := []
  deriving Inhabited

def padLeft (width : Nat) (s : String) : String := "".pushn ' ' (width - s.length) ++ s

/-- One cause, numbered or not, with its further lines indented. -/
def causeText (number : Option Nat) (cause : String) : String :=
  let lead := match number with
    | some n => padLeft 5 (toString n) ++ ": "
    | none => "    "
  let further := match number with
    | some _ => "       "
    | none => "    "
  match cause.splitOn "\n" with
  | [] => lead
  | first :: rest => lead ++ first ++ String.join (rest.map fun l => "\n" ++ further ++ l)

/-- The text a failed run prints on standard error. -/
def Fault.render (f : Fault) : String :=
  let numbered := f.causes.length > 1
  let causes := (List.range f.causes.length).zip f.causes
  "Error: " ++ f.message ++
    (if f.causes.isEmpty then ""
     else "\n\nCaused by:" ++ String.join (causes.map fun (i, c) =>
       "\n" ++ causeText (if numbered then some i else none) c)) ++ "\n"

end ContractAbi.Cli
