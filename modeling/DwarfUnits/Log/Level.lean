/-! Severity levels of diagnostics. -/
namespace DwarfUnits.Log

/-- Severity, from the gravest to the most detailed. -/
inductive Level where
  | error
  | warn
  | info
  | debug
  | trace
  deriving DecidableEq

namespace Level

def detail : Level → Nat
  | error => 1
  | warn => 2
  | info => 3
  | debug => 4
  | trace => 5

/-- The level in upper case, as log lines show it. -/
def label : Level → String
  | error => "ERROR"
  | warn => "WARN"
  | info => "INFO"
  | debug => "DEBUG"
  | trace => "TRACE"

/-- A level by one of its names, in any case of letters. -/
def ofText? (text : String) : Option Level :=
  match String.ofList (text.toList.map Char.toLower) with
  | "error" | "err" => some error
  | "warn" | "warning" => some warn
  | "info" => some info
  | "debug" | "dbg" => some debug
  | "trace" => some trace
  | _ => none

def unknownMessage (text : String) : String :=
  "Unknown log level: " ++ text ++ ". Use 'error', 'warn', 'info', 'debug', or 'trace'"

end Level
end DwarfUnits.Log
