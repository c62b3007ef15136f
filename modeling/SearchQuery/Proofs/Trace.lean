import SearchQuery.Proofs.Level

/-!
# Traces

Reading with a log of the fragments that are handed on to be read as terms, at
every level and in the order of the text.  The log ends with the first fault, and
apart from it the reading is the same.
-/

namespace SearchQuery

structure Handed where
  text : List Char
  negated : Bool
  deriving DecidableEq, Repr

/-- A result with the fragments handed on for it. -/
structure Traced (α : Type) where
  handed : List Handed
  result : Except Fault α

namespace Traced

variable {α β γ : Type}

def map (f : α -> β) (x : Traced α) : Traced β where
  handed := x.handed
  result := x.result.map f

def bind (x : Traced α) (f : α -> Traced β) : Traced β :=
  match x.result with
  | .error fault => ⟨x.handed, .error fault⟩
  | .ok a => ⟨x.handed ++ (f a).handed, (f a).result⟩

theorem bind_of_ok {x : Traced α} {a : α} (h : x.result = .ok a)
    (f : α -> Traced β) :
    x.bind f = ⟨x.handed ++ (f a).handed, (f a).result⟩ := by
  rw [bind, h]

theorem bind_of_error {x : Traced α} {fault : Fault}
    (h : x.result = .error fault) (f : α -> Traced β) :
    x.bind f = ⟨x.handed, .error fault⟩ := by
  rw [bind, h]

theorem bind_assoc (x : Traced α) (f : α -> Traced β) (g : β -> Traced γ) :
    (x.bind f).bind g = x.bind (fun a => (f a).bind g) := by
  rcases x with ⟨handed, fault | a⟩
  · rfl
  · rcases hf : f a with ⟨later, fault | b⟩
    · simp only [bind, hf]
    · simp only [bind, hf, List.append_assoc]

theorem bind_map (x : Traced α) (f : α -> Traced β) (g : β -> γ) :
    (x.bind f).map g = x.bind (fun a => (f a).map g) := by
  rcases x with ⟨handed, fault | a⟩
  · rfl
  · rfl

theorem map_bind (x : Traced α) (f : α -> β) (g : β -> Traced γ) :
    (x.map f).bind g = x.bind (fun a => g (f a)) := by
  rcases x with ⟨handed, fault | a⟩
  · rfl
  · rfl

theorem map_map (x : Traced α) (f : α -> β) (g : β -> γ) :
    (x.map f).map g = x.map (fun a => g (f a)) := by
  rcases x with ⟨handed, fault | a⟩
  · rfl
  · rfl

end Traced

namespace Piece

def traceElement (term : List Char -> Bool -> Except Fault Element)
    (nested : List Char -> Traced Query) (p : Piece) :
    Traced (Option Element) :=
  match p.body with
  | .flat text => ⟨[⟨text, p.negated⟩], (term text p.negated).map some⟩
  | .bracketed inner =>
      (nested inner).map (fun q =>
        if q.isEmpty then none else some (.group q p.negated))

def traceJoints (term : List Char -> Bool -> Except Fault Element)
    (nested : List Char -> Traced Query) :
    List Piece -> Traced (List (Relation × Element))
  | [] => ⟨[], .ok []⟩
  | p :: rest =>
      (p.traceElement term nested).bind (fun e? =>
        (traceJoints term nested rest).map (fun js =>
          (e?.map (fun e => (p.relation, e))).toList ++ js))

section Trace

variable {term : List Char -> Bool -> Except Fault Element}
  {f g : List Char -> Traced Query}

theorem result_traceElement (p : Piece) :
    (p.traceElement term f).result =
      p.element? term (fun inner => (f inner).result) := by
  rcases p with ⟨r, negated, text | inner⟩
  · rfl
  · rfl

theorem result_traceJoints (pieces : List Piece) :
    (traceJoints term f pieces).result =
      joints term (fun inner => (f inner).result) pieces := by
  induction pieces with
  | nil => rfl
  | cons p rest ih =>
      rw [traceJoints, joints, ← result_traceElement p]
      cases h : (p.traceElement term f).result with
      | error fault => rw [Traced.bind_of_error h]
      | ok e? =>
          rw [Traced.bind_of_ok h, ← ih]
          cases hrest : (traceJoints term f rest).result with
          | error fault => simp [Traced.map, hrest, Except.map]
          | ok js => simp [Traced.map, hrest, Except.map]

theorem traceJoints_congr {pieces : List Piece}
    (h : forall p, p ∈ pieces -> forall inner, p.body = .bracketed inner ->
      f inner = g inner) :
    traceJoints term f pieces = traceJoints term g pieces := by
  induction pieces with
  | nil => rfl
  | cons p rest ih =>
      have hp : p.traceElement term f = p.traceElement term g := by
        unfold traceElement
        split
        · rfl
        next inner hbody => rw [h p List.mem_cons_self inner hbody]
      rw [traceJoints, traceJoints, hp,
        ih (fun q hq => h q (List.mem_cons_of_mem p hq))]

theorem traceJoints_append (front rest : List Piece) :
    traceJoints term f (front ++ rest) =
      (traceJoints term f front).bind (fun js =>
        (traceJoints term f rest).map (fun later => js ++ later)) := by
  induction front with
  | nil =>
      rw [List.nil_append, traceJoints, Traced.bind_of_ok rfl]
      rcases traceJoints term f rest with ⟨handed, fault | later⟩
      · rfl
      · rfl
  | cons p front ih =>
      rw [List.cons_append, traceJoints, ih, traceJoints, Traced.bind_assoc]
      simp only [Traced.bind_map, Traced.map_bind, Traced.map_map,
        List.append_assoc]

theorem handed_traceJoints_cons {p : Piece} {rest : List Piece}
    {e? : Option Element} (h : (p.traceElement term f).result = .ok e?) :
    (traceJoints term f (p :: rest)).handed =
      (p.traceElement term f).handed ++ (traceJoints term f rest).handed := by
  rw [traceJoints, Traced.bind_of_ok h]
  rfl

end Trace

end Piece

namespace Outline

def traceQuery (term : List Char -> Bool -> Except Fault Element)
    (nested : List Char -> Traced Query) (o : Outline) : Traced Query :=
  (Piece.traceJoints term nested o.pieces).bind (fun js =>
    ⟨[], match o.fault? with
      | some fault => .error fault
      | none => .ok (Chain.ofJoints js)⟩)

variable {term : List Char -> Bool -> Except Fault Element}
  {nested : List Char -> Traced Query}

theorem result_traceQuery (o : Outline) :
    (o.traceQuery term nested).result =
      o.toQuery term (fun inner => (nested inner).result) := by
  rw [traceQuery, toQuery, ← Piece.result_traceJoints]
  cases h : (Piece.traceJoints term nested o.pieces).result with
  | error fault => rw [Traced.bind_of_error h]
  | ok js => exact congrArg Traced.result (Traced.bind_of_ok h _)

theorem handed_traceQuery (o : Outline) :
    (o.traceQuery term nested).handed =
      (Piece.traceJoints term nested o.pieces).handed := by
  rw [traceQuery]
  cases h : (Piece.traceJoints term nested o.pieces).result with
  | error fault => rw [Traced.bind_of_error h]
  | ok js => rw [Traced.bind_of_ok h, List.append_nil]

end Outline

namespace Level

def traceWithin (settings : Settings) : Nat -> Level -> Traced Query
  | 0, _ => ⟨[], .ok .nil⟩
  | fuel + 1, l =>
      (Outline.ofLevel l).traceQuery (Fragment.read settings)
        (fun inner => traceWithin settings fuel (l.inner inner))

def trace (settings : Settings) (l : Level) : Traced Query :=
  traceWithin settings (l.text.length + 1) l

variable (settings : Settings)

theorem trace_eq (l : Level) :
    l.trace settings =
      (Outline.ofLevel l).traceQuery (Fragment.read settings)
        (fun inner => (l.inner inner).trace settings) := by
  apply within_length_eq (traceWithin settings)
    (fun l nested => (Outline.ofLevel l).traceQuery (Fragment.read settings) nested)
    (fun _ _ => rfl)
  intro l f g h
  rw [Outline.traceQuery, Outline.traceQuery, Piece.traceJoints_congr h]

/-- A trace has the result of the reading. -/
theorem result_trace (l : Level) :
    (l.trace settings).result = l.read settings := by
  induction l using Level.induction with
  | step l ih =>
      rw [trace_eq, read_eq, Outline.result_traceQuery]
      exact Outline.toQuery_congr ih

theorem handed_trace (l : Level) :
    (l.trace settings).handed =
      (Piece.traceJoints (Fragment.read settings)
        (fun inner => (l.inner inner).trace settings)
        (Outline.ofLevel l).pieces).handed := by
  rw [trace_eq, Outline.handed_traceQuery]

end Level

end SearchQuery
