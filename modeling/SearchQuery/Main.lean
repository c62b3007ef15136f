import SearchQuery.Console

/-!
# The program

Reads the command line and the input, runs the program, and writes what it
leaves behind.
-/

namespace SearchQuery

namespace Console

def formatOfName? : String -> Option Format
  | "canonical" => some .canonical
  | "url" => some .url
  | "pretty" => some .pretty
  | "tree" => some .tree
  | "json" => some .json
  | _ => none

def readArguments (request : Request) (query? : Option String) :
    List String -> Option (Request × Option String)
  | [] => some (request, query?)
  | "--decode" :: rest => readArguments { request with decode := true } query? rest
  | "--no-fulltext" :: rest =>
      let options := { request.options with fulltextFallback := false }
      readArguments { request with options := options } query? rest
  | "--format" :: word :: rest => do
      let format ← formatOfName? word
      readArguments { request with format := format } query? rest
  | "--max-depth" :: word :: rest => do
      let options := { request.options with maxDepth := ← word.toNat? }
      readArguments { request with options := options } query? rest
  | ["--", word] => if query?.isSome then none else some (request, some word)
  | word :: rest =>
      if query?.isSome || word.startsWith "-" then none
      else readArguments request (some word) rest

partial def readToEnd (stream : IO.FS.Stream) (read : ByteArray) : IO ByteArray := do
  let more ← stream.read 65536
  if more.isEmpty then return read else readToEnd stream (read ++ more)

end Console

end SearchQuery

open SearchQuery.Console in
def main (words : List String) : IO UInt32 := do
  match readArguments {} none words with
  | none =>
      IO.eprint "error: the command line cannot be read\n"
      return 2
  | some (request, query?) =>
      let run ←
        match query? with
        | some query => pure (Host.standard.query request query)
        | none => do
            let input ← readToEnd (← IO.getStdin) .empty
            pure (Host.standard.batch request input.toList)
      let outcome := Host.standard.outcome run
      IO.print outcome.output
      IO.eprint outcome.errors
      return outcome.status.toUInt32
