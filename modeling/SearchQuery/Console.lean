import SearchQuery.Element.Text
import SearchQuery.Json
import SearchQuery.Log
import SearchQuery.Text.Quoted

/-!
# The console program

The program parses one query given as an argument, or every line of its input
as a query, and prints each one in a chosen format.  In a batch, a line that
fails is reported and the others go on; a line that is not text ends the batch.
What the libraries around the program do is a parameter: which records the log
lets through and how its lines look, how a failure is reported with its cause, how
structured data is printed, and the two directions of form encoding.
-/

namespace SearchQuery

namespace Console

inductive Format where
  | canonical
  | url
  | pretty
  | tree
  | json
  deriving DecidableEq, Repr

structure Request where
  format : Format := .canonical
  decode : Bool := false
  options : Options := {}

/-- A note of a run among its errors: a record that the log lets through, or a
message of the program itself. -/
inductive Note where
  | log (record : Record)
  | message (text : String)
  deriving DecidableEq, Repr

def Note.message? : Note -> Option String
  | log _ => none
  | message text => some text

structure Run where
  output : String := ""
  notes : List Note := []
  status : Nat := 0
  deriving DecidableEq, Repr

def Run.messages (run : Run) : List String :=
  run.notes.filterMap Note.message?

structure Outcome where
  output : String := ""
  errors : String := ""
  status : Nat := 0
  deriving DecidableEq, Repr

/-- What the program takes from the libraries around it. -/
structure Host where
  admits : Record -> Bool
  -- The line for a record behind a number of other notes. It may hold the time.
  line : Nat -> Record -> String
  -- A failure and its cause on one line.
  chained : String -> String -> String
  -- A failure, and its cause if there is one, on lines of their own.
  report : String -> Option String -> String
  json : Json -> String
  encode : List UInt8 -> List Char
  decode? : List Char -> Option (List Char)

/-!
# Printing
-/

def relationLead : Option Relation -> String
  | some r => r.keyword ++ " "
  | none => ""

def elementLines : Element -> Nat -> Option Relation -> List String :=
  Element.fold
    (fun t level r? => [Json.indent level ++ relationLead r? ++ (Element.term t).text])
    (fun items negated level r? =>
      (Json.indent level ++ relationLead r? ++
          String.ofList (negation negated) ++ "group") ::
        items.links.flatMap (fun l => l.2 (level + 1) l.1))

def treeLines (q : Query) : List String :=
  q.links.flatMap (fun l => elementLines l.2 0 l.1)

def unlines (lines : List String) : String :=
  String.join (lines.map (fun line => line ++ "\n"))

def Host.print (host : Host) (q : Query) : Format -> String
  | .canonical => unlines [q.text]
  | .url => unlines [q.formTextWith host.encode]
  | .pretty => unlines [q.pretty]
  | .tree => unlines (treeLines q)
  | .json => unlines [host.json q.toJson]

/-!
# One query
-/

def Request.settings (request : Request) : Settings where
  toOptions := request.options

def quoted (text : String) : String :=
  String.ofList (Text.quote text.toList)

namespace Host

variable (host : Host) (request : Request)

def parse (text : String) : Except ParseError Query :=
  if request.decode then Query.parseFormWith host.decode? request.settings text
  else Query.parse request.settings text

/-- What the parsing of a query logs.  An encoded query that is no text is refused
before it gets to the parser. -/
def records (text : String) : List Record :=
  if request.decode then
    match host.decode? (text.toList.map Text.plusToSpace) with
    | some decoded => Query.records request.settings decoded
    | none => []
  else Query.records request.settings text.toList

def logged (text : String) : List Note :=
  ((host.records request text).filter host.admits).map .log

def stop (what : String) (cause? : Option String) : Note :=
  .message ("Error: " ++ host.report what cause? ++ "\n")

def query (text : String) : Run :=
  match host.parse request text with
  | .ok q =>
      { output := host.print q request.format
        notes := host.logged request text }
  | .error e =>
      { notes := host.logged request text ++
          [host.stop ("failed to parse " ++ quoted text) (some e.text)]
        status := 1 }

end Host

/-!
# A batch of queries
-/

def dropReturn (line : List UInt8) : List UInt8 :=
  if line.getLast? = some 13 then line.dropLast else line

/-- The lines of an input.  A line feed ends a line; a last line without one
counts unless it is empty, and keeps a carriage return. -/
def splitLines (input : List UInt8) : List (List UInt8) :=
  go [] input
where
  go (read : List UInt8) : List UInt8 -> List (List UInt8)
    | [] => if read = [] then [] else [read.reverse]
    | b :: rest =>
        if b = 10 then dropReturn read.reverse :: go [] rest
        else go (b :: read) rest

namespace Host

variable (host : Host) (request : Request)

/-- Run the program on the lines of a batch, given the number of lines that have
failed before. -/
def batchFrom (failed : Nat) : List (List UInt8) -> Run
  | [] =>
      if failed = 0 then {}
      else
        { notes := [host.stop (toString failed ++ " queries failed to parse") none]
          status := 1 }
  | line :: rest =>
      match Text.ofUtf8? line with
      | none =>
          { notes := [host.stop "failed to read stdin"
              (some "stream did not contain valid UTF-8")]
            status := 1 }
      | some chars =>
          let text := String.ofList chars
          match host.parse request text with
          | .ok q =>
              let tail := batchFrom failed rest
              { tail with
                output := host.print q request.format ++ tail.output
                notes := host.logged request text ++ tail.notes }
          | .error e =>
              let tail := batchFrom (failed + 1) rest
              { tail with
                notes := host.logged request text ++
                  .message (host.chained ("failed to parse " ++ quoted text) e.text ++
                    "\n") :: tail.notes }

def batch (input : List UInt8) : Run :=
  host.batchFrom request 0 (splitLines input)

/-!
# Hosts
-/

def write (before : Nat) : Note -> String
  | .log record => host.line before record
  | .message text => text

def outcome (run : Run) : Outcome where
  output := run.output
  errors := String.join (run.notes.mapIdx host.write)
  status := run.status

end Host

def severityWord : Severity -> String
  | .trace => "TRACE"
  | .debug => "DEBUG"
  | .warn => "WARN"

def detailForm : Detail -> String
  | .text text => quoted text
  | .shown form => form
  | .flag value => toString value

def recordLine (record : Record) : String :=
  severityWord record.severity ++ " " ++ record.message ++
    String.join (record.details.map (fun d => " " ++ d.1 ++ "=" ++ detailForm d.2)) ++
    "\n"

def hang (text : String) : String :=
  String.ofList (text.toList.flatMap (fun c =>
    if c = '\n' then '\n' :: List.replicate 4 ' ' else [c]))

/-- The log shows warnings, and nothing is said about where a failure arose. -/
def Host.standard : Host where
  admits := fun record => record.severity == .warn
  line := fun _ record => recordLine record
  chained := fun what cause => what ++ ": " ++ cause
  report := fun what cause? =>
    match cause? with
    | none => what
    | some cause => what ++ "\n\nCaused by:\n    " ++ hang cause
  json := Json.pretty
  encode := Text.formEncode
  decode? := Text.percentDecode?

def Host.quiet : Host :=
  { Host.standard with admits := fun _ => false }

def runQuery (request : Request) (text : String) : Outcome :=
  Host.quiet.outcome (Host.quiet.query request text)

def runBatch (request : Request) (input : List UInt8) : Outcome :=
  Host.quiet.outcome (Host.quiet.batch request input)

end Console

end SearchQuery
