import Handoff.CommandLine.Arguments
import Handoff.Finding

/-!
# Reports

Findings of several files as lines for people, as JSON, or as messages of a workflow run.
-/

namespace Handoff

/-- A finding in a file. -/
structure FileFinding where
  file : String
  finding : Finding
deriving DecidableEq, Repr

namespace Report

def line (text : String) : String := text ++ "\n"

def prettyLine (f : FileFinding) : String :=
  line (f.file ++ ":" ++ toString f.finding.line ++ ":" ++ toString f.finding.column ++ ": " ++
    f.finding.checker.name ++ ": " ++ f.finding.message)

/-- A line for each finding and their number. -/
def pretty (findings : List FileFinding) : String :=
  String.join (findings.map prettyLine) ++ line (toString findings.length ++ " diagnostics")

/-- The characters of a workflow message: those that could end it are written in hexadecimal. -/
def escapeChar (c : Char) : List Char :=
  if c = '%' then "%25".toList
  else if c = '\r' then "%0D".toList
  else if c = '\n' then "%0A".toList
  else [c]

def escape (text : String) : String :=
  String.ofList (text.toList.flatMap escapeChar)

/-- The message that a workflow run shows beside a line of a file. -/
def workflowMessage (level : String) (f : FileFinding) : String :=
  line ("::" ++ level ++ " file=" ++ escape f.file ++ ",line=" ++ toString f.finding.line ++
    ",col=" ++ toString f.finding.column ++ ",title=" ++ f.finding.checker.name ++ "::" ++
    escape f.finding.message)

/-- A workflow message for each finding: an error where findings are denied, else a warning. -/
def github (denyWarnings : Bool) (findings : List FileFinding) : String :=
  String.join (findings.map (workflowMessage (if denyWarnings then "error" else "warning")))

/-- A digit of a control character's number in hexadecimal. -/
def hexDigit (n : Nat) : Char :=
  (Nat.toDigits 16 n).head?.getD '0'

/-- A character in a JSON string. -/
def jsonChar (c : Char) : List Char :=
  if c = '"' then ['\\', '"']
  else if c = '\\' then ['\\', '\\']
  else if c = '\n' then ['\\', 'n']
  else if c = '\r' then ['\\', 'r']
  else if c = '\t' then ['\\', 't']
  else if c = '\x08' then ['\\', 'b']
  else if c = '\x0c' then ['\\', 'f']
  else if c.toNat < 0x20 then "\\u00".toList ++ [hexDigit (c.toNat / 16), hexDigit (c.toNat % 16)]
  else [c]

def jsonString (text : String) : String :=
  "\"" ++ String.ofList (text.toList.flatMap jsonChar) ++ "\""

def jsonField (name value : String) : String :=
  "    " ++ jsonString name ++ ": " ++ value

def jsonObject (f : FileFinding) : String :=
  "  \x7b\n" ++ ",\n".intercalate [
    jsonField "file" (jsonString f.file),
    jsonField "row" (toString f.finding.line),
    jsonField "column" (toString f.finding.column),
    jsonField "checker" (jsonString f.finding.checker.name),
    jsonField "message" (jsonString f.finding.message)] ++ "\n  \x7d"

/-- Whether a finding may stand before another in JSON: by file, then as in any report. -/
def jsonPrecedes (a b : FileFinding) : Bool :=
  a.file < b.file || (a.file == b.file && a.finding.precedes b.finding)

/-- An indented array of objects. -/
def json (findings : List FileFinding) : String :=
  match sorted jsonPrecedes findings with
  | [] => line "[]"
  | found => line ("[\n" ++ ",\n".intercalate (found.map jsonObject) ++ "\n]")

end Report

/-- The report on findings in a format. -/
def Format.report (format : Format) (denyWarnings : Bool) (findings : List FileFinding) : String :=
  match format with
  | .pretty => Report.pretty findings
  | .json => Report.json findings
  | .github => Report.github denyWarnings findings

end Handoff
