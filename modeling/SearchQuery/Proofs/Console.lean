import SearchQuery.Console
import SearchQuery.Proofs.Log

/-!
# A batch and its queries one by one

A batch prints what its queries print when each of them is given as an argument,
in the same order, up to the first line that is not text.  A query that fails
leaves a message in the notes of the batch and has no effect on the others, and
only a batch that is read to its end counts them.  The log of a batch is that of
its queries, each in front of the message of its query.
-/

namespace SearchQuery

namespace Console

/-!
# Lines of an input
-/

def IsLine (line : List UInt8) : Prop :=
  10 ∉ line ∧ line.getLast? ≠ some 13

instance (line : List UInt8) : Decidable (IsLine line) :=
  inferInstanceAs (Decidable (_ ∧ _))

def terminated (lines : List (List UInt8)) : List UInt8 :=
  lines.flatMap (fun line => line ++ [10])

def lineOf (text : String) : List UInt8 :=
  Text.utf8 text.toList

theorem splitLines_go_append {line : List UInt8} (h : 10 ∉ line)
    (read rest : List UInt8) :
    splitLines.go read (line ++ rest) =
      splitLines.go (line.reverse ++ read) rest := by
  induction line generalizing read with
  | nil => rfl
  | cons b line ih =>
      rw [List.mem_cons, not_or] at h
      rw [List.cons_append, splitLines.go, if_neg (Ne.symm h.1), ih h.2,
        List.reverse_cons, List.append_assoc]
      rfl

theorem splitLines_append {line : List UInt8} (h : IsLine line)
    (rest : List UInt8) :
    splitLines (line ++ 10 :: rest) = line :: splitLines rest := by
  have hread : dropReturn line = line := if_neg h.2
  rw [splitLines, splitLines_go_append h.1, splitLines.go, if_pos rfl,
    List.append_nil, List.reverse_reverse, hread]
  rfl

theorem splitLines_terminated {lines : List (List UInt8)}
    (h : forall line, line ∈ lines -> IsLine line) :
    splitLines (terminated lines) = lines := by
  induction lines with
  | nil => rfl
  | cons line lines ih =>
      have hline := h line List.mem_cons_self
      have hlines := ih (fun l hl => h l (List.mem_cons_of_mem line hl))
      rw [terminated, List.flatMap_cons, List.append_assoc,
        List.singleton_append, splitLines_append hline]
      exact congrArg (List.cons line) hlines

/-!
# Hosts
-/

/-- How a host that records no stack reports a failure, with its cause if that is
on one line. -/
structure Host.Lawful (host : Host) : Prop where
  chained : forall what cause, host.chained what cause = what ++ ": " ++ cause
  report_none : forall what, host.report what none = what
  report_some : forall what cause, '\n' ∉ cause.toList ->
    host.report what (some cause) = what ++ "\n\nCaused by:\n    " ++ cause

theorem hang_of_notMem {text : String} (h : '\n' ∉ text.toList) :
    hang text = text := by
  have hid : forall chars : List Char, '\n' ∉ chars ->
      chars.flatMap (fun c =>
        if c = '\n' then '\n' :: List.replicate 4 ' ' else [c]) = chars := by
    intro chars hchars
    induction chars with
    | nil => rfl
    | cons c rest ih =>
        rw [List.mem_cons, not_or] at hchars
        rw [List.flatMap_cons, if_neg (Ne.symm hchars.1), ih hchars.2]
        rfl
  rw [hang, hid _ h, String.ofList_toList]

theorem Host.lawful_standard : Host.standard.Lawful where
  chained := fun _ _ => rfl
  report_none := fun _ => rfl
  report_some := fun what _ h =>
    congrArg (what ++ "\n\nCaused by:\n    " ++ ·) (hang_of_notMem h)

theorem Host.lawful_quiet : Host.quiet.Lawful where
  chained := Host.lawful_standard.chained
  report_none := Host.lawful_standard.report_none
  report_some := Host.lawful_standard.report_some

namespace Host

theorem mapIdx_eq_messages {write : Nat -> Note -> String} {notes : List Note}
    (hwrite : forall n text, write n (.message text) = text)
    (h : forall record, .log record ∉ notes) :
    notes.mapIdx write = notes.filterMap Note.message? := by
  induction notes generalizing write with
  | nil => rfl
  | cons note notes ih =>
      cases note with
      | log record => exact absurd List.mem_cons_self (h record)
      | message text =>
          have hrest := ih (fun n => hwrite (n + 1))
            (fun record hmem => h record (List.mem_cons_of_mem _ hmem))
          rw [List.mapIdx_cons, hwrite, hrest]
          rfl

theorem errors_of_no_log (host : Host) {run : Run}
    (h : forall record, .log record ∉ run.notes) :
    (host.outcome run).errors = String.join run.messages :=
  congrArg String.join (mapIdx_eq_messages (fun _ _ => rfl) h)

/-!
# Failing queries
-/

section Batch

variable (host : Host) (request : Request)

def complaint? (text : String) : Option String :=
  match host.parse request text with
  | .ok _ => none
  | .error e =>
      some ("failed to parse " ++ quoted text ++ ": " ++ e.text ++ "\n")

/-- What a query adds to the notes of a batch: its records that the log lets
through, and its message if it fails. -/
def share (text : String) : List Note :=
  ((host.records request text).filter host.admits).map .log ++
    (host.complaint? request text).toList.map .message

def failures (texts : List String) : Nat :=
  texts.countP (fun text => (host.query request text).status ≠ 0)

/-- What a batch says at its end: why it was cut short, or how many queries have
failed if any has. -/
def ending? (isCut : Bool) (failed : Nat) : Option String :=
  if isCut then
    some ("Error: failed to read stdin\n\nCaused by:\n" ++
      "    stream did not contain valid UTF-8\n")
  else if failed = 0 then none
  else some ("Error: " ++ toString failed ++ " queries failed to parse\n")

variable {host}

theorem batchFrom_nil (h : host.Lawful) (failed : Nat) :
    host.batchFrom request failed [] =
      { notes := (ending? false failed).toList.map .message
        status := if failed = 0 then 0 else 1 } := by
  rw [batchFrom, ending?]
  split
  · rfl
  · rw [stop, h.report_none]
    simp [String.append_assoc]

theorem batchFrom_of_not_text (h : host.Lawful) {line : List UInt8}
    (hline : forall text, line ≠ lineOf text) (failed : Nat)
    (rest : List (List UInt8)) :
    host.batchFrom request failed (line :: rest) =
      { notes := (ending? true failed).toList.map .message
        status := 1 } := by
  have hnone : Text.ofUtf8? line = none := by
    rw [Option.eq_none_iff_forall_ne_some]
    intro chars hchars
    apply hline (String.ofList chars)
    rw [lineOf, String.toList_ofList]
    exact Text.ofUtf8?_eq_some_iff.mp hchars
  rw [batchFrom, hnone, stop, h.report_some _ _ (by decide)]
  rfl

/-- One query of a batch: what it prints as an argument and its notes stand in
front of what the other lines leave behind, and its status is counted. -/
theorem batchFrom_text (h : host.Lawful) (failed : Nat) (text : String)
    (rest : List (List UInt8)) :
    host.batchFrom request failed (lineOf text :: rest) =
      { output := (host.query request text).output ++
          (host.batchFrom request
            (failed + (host.query request text).status) rest).output
        notes := host.share request text ++
          (host.batchFrom request
            (failed + (host.query request text).status) rest).notes
        status :=
          (host.batchFrom request
            (failed + (host.query request text).status) rest).status } := by
  rw [batchFrom, lineOf, Text.ofUtf8?_utf8]
  simp only [String.ofList_toList]
  cases hparse : host.parse request text with
  | ok q => simp [query, share, logged, complaint?, hparse]
  | error e => simp [query, share, logged, complaint?, hparse, h.chained]

theorem failures_cons (text : String) (texts : List String) :
    host.failures request (text :: texts) =
      (host.query request text).status + host.failures request texts := by
  have hstatus : (host.query request text).status = 0 ∨
      (host.query request text).status = 1 := by
    unfold query
    split
    · exact Or.inl rfl
    · exact Or.inr rfl
  rw [failures, failures, List.countP_cons]
  rcases hstatus with h | h
  · simp [h]
  · simp [h, Nat.add_comm]

theorem batchFrom_append (h : host.Lawful) (failed : Nat) (texts : List String)
    (rest : List (List UInt8)) :
    host.batchFrom request failed (texts.map lineOf ++ rest) =
      { output :=
          String.join (texts.map (fun text => (host.query request text).output)) ++
            (host.batchFrom request
              (failed + host.failures request texts) rest).output
        notes := texts.flatMap (host.share request) ++
          (host.batchFrom request (failed + host.failures request texts) rest).notes
        status :=
          (host.batchFrom request
            (failed + host.failures request texts) rest).status } := by
  -- A text that fails raises the count that the texts behind it start from.
  induction texts generalizing failed with
  | nil => simp [failures]
  | cons text texts ih =>
      rw [List.map_cons, List.cons_append, batchFrom_text request h, ih,
        failures_cons, List.map_cons, String.join_cons, Nat.add_assoc,
        String.append_assoc, List.flatMap_cons, List.append_assoc]

/-!
# Notes of a batch
-/

theorem messages_share (text : String) :
    (host.share request text).filterMap Note.message? =
      (host.complaint? request text).toList := by
  have hlog : forall records : List Record,
      (records.map Note.log).filterMap Note.message? = [] := by
    intro records
    rw [List.filterMap_map, List.filterMap_eq_nil_iff]
    exact fun _ _ => rfl
  rw [share, List.filterMap_append, hlog]
  cases host.complaint? request text <;> rfl

theorem messages_shares (texts ending : List String) :
    (texts.flatMap (host.share request) ++ ending.map Note.message).filterMap
        Note.message? =
      texts.filterMap (host.complaint? request) ++ ending := by
  have hending : (ending.map Note.message).filterMap Note.message? = ending := by
    rw [List.filterMap_map]
    exact List.filterMap_some
  rw [List.filterMap_append, List.filterMap_flatMap, hending]
  simp only [messages_share]
  rw [← List.filterMap_eq_flatMap_toList]

theorem log_notMem_shares (h : forall record, host.admits record = false)
    (texts ending : List String) (record : Record) :
    .log record ∉ texts.flatMap (host.share request) ++ ending.map Note.message := by
  have hnone : forall records : List Record, records.filter host.admits = [] := by
    intro records
    exact List.filter_eq_nil_iff.mpr (fun r _ => by simp [h r])
  simp [share, hnone]

/-- A log that lets warnings through shows one for each query that gets to the
parser and is refused there. -/
theorem logged_of_warnings
    (hadmits : forall record, host.admits record = (record.severity == .warn))
    {text : String} (hdecode : request.decode = true ->
      host.decode? (text.toList.map Text.plusToSpace) ≠ none) :
    host.logged request text =
      match host.parse request text with
      | .ok _ => []
      | .error e =>
          [.log ⟨.warn, "query could not be parsed",
            [("kind", .shown e.kind.label), ("fragment", .shown e.fragment)]⟩] := by
  have hparsed : forall (query : String) (chars : List Char),
      ((Query.records request.settings chars).filter host.admits).map Note.log =
        match (Query.read request.settings chars).mapError
          (ParseError.ofFault query) with
        | .ok _ => []
        | .error e =>
            [.log ⟨.warn, "query could not be parsed",
              [("kind", .shown e.kind.label),
                ("fragment", .shown e.fragment)]⟩] := by
    intro query chars
    rw [funext hadmits, Query.warnings_eq]
    cases Query.read request.settings chars with
    | ok q => rfl
    | error fault => rfl
  unfold logged records parse
  cases hmode : request.decode with
  | false => exact hparsed text text.toList
  | true =>
      cases hchars : host.decode? (text.toList.map Text.plusToSpace) with
      | none => exact absurd hchars (hdecode hmode)
      | some chars =>
          have hparse : Query.parseFormWith host.decode? request.settings text =
              (Query.read request.settings chars).mapError
                (ParseError.ofFault (String.ofList chars)) := by
            simp only [Query.parseFormWith, hchars, Query.parse,
              String.toList_ofList]
          rw [if_pos rfl, if_pos rfl, hparse]
          exact hparsed (String.ofList chars) chars

theorem batch_eq (h : host.Lawful) {texts : List String}
    {rest : List (List UInt8)}
    (hlines : forall line, line ∈ texts.map lineOf ++ rest -> IsLine line)
    (hrest : forall line, rest.head? = some line ->
      forall text, line ≠ lineOf text) :
    host.batch request (terminated (texts.map lineOf ++ rest)) =
      { output :=
          String.join (texts.map (fun text => (host.query request text).output))
        notes := texts.flatMap (host.share request) ++
          (ending? (rest ≠ []) (host.failures request texts)).toList.map .message
        status :=
          if rest = [] ∧ host.failures request texts = 0 then 0 else 1 } := by
  rw [batch, splitLines_terminated hlines, batchFrom_append request h, Nat.zero_add]
  cases rest with
  | nil =>
      rw [batchFrom_nil request h]
      simp
  | cons line rest =>
      rw [batchFrom_of_not_text request h (hrest line rfl)]
      simp

end Batch

end Host

end Console

end SearchQuery
