import SearchQuery.Proofs.Trace

/-!
# Readings in lockstep

The same text is read twice, by different settings or within different limits.  The
two readings go on in lockstep: they hand on the same fragments, and what they come
to corresponds, over the fragments that it was made of.  They part only where the
first one stops at a fault of a certain kind.

For this it is enough that single fragments are read in lockstep and that the
outlines of each level are; the levels are followed here, once for all.
-/

namespace SearchQuery

/-!
# Chains that correspond
-/

inductive JointsAlike {α β : Type} (R : List Handed -> α -> β -> Prop) :
    List Handed -> List (Relation × α) -> List (Relation × β) -> Prop where
  | nil : JointsAlike R [] [] []
  | cons {handed later : List Handed} {r : Relation} {a : α} {b : β}
      {rest : List (Relation × α)} {rest' : List (Relation × β)} :
      R handed a b -> JointsAlike R later rest rest' ->
      JointsAlike R (handed ++ later) ((r, a) :: rest) ((r, b) :: rest')

inductive Chain.Alike {α β : Type} (R : List Handed -> α -> β -> Prop) :
    List Handed -> Chain α -> Chain β -> Prop where
  | nil : Chain.Alike R [] .nil .nil
  | cons {handed later : List Handed} {a : α} {b : β}
      {rest : List (Relation × α)} {rest' : List (Relation × β)} :
      R handed a b -> JointsAlike R later rest rest' ->
      Chain.Alike R (handed ++ later) (.cons a rest) (.cons b rest')

section Alike

variable {α β : Type} {R : List Handed -> α -> β -> Prop}
  {handed later : List Handed}

theorem JointsAlike.single {a : α} {b : β} (h : R handed a b) (r : Relation) :
    JointsAlike R handed [(r, a)] [(r, b)] := by
  rw [← List.append_nil handed]
  exact cons h nil

theorem JointsAlike.append {js js' : List (Relation × α)}
    {ks ks' : List (Relation × β)} (h : JointsAlike R handed js ks)
    (h' : JointsAlike R later js' ks') :
    JointsAlike R (handed ++ later) (js ++ js') (ks ++ ks') := by
  induction h with
  | nil => exact h'
  | cons hab _ ih =>
      rw [List.append_assoc]
      exact cons hab ih

theorem JointsAlike.ofJoints {js : List (Relation × α)}
    {ks : List (Relation × β)} (h : JointsAlike R handed js ks) :
    Chain.Alike R handed (Chain.ofJoints js) (Chain.ofJoints ks) := by
  cases h with
  | nil => exact Chain.Alike.nil
  | cons hab hrest => exact Chain.Alike.cons hab hrest

theorem JointsAlike.eq {js ks : List (Relation × α)}
    (h : JointsAlike (fun _ => Eq) handed js ks) : js = ks := by
  induction h with
  | nil => rfl
  | cons hab _ ih => rw [hab, ih]

theorem Chain.Alike.eq {c d : Chain α}
    (h : Chain.Alike (fun _ => Eq) handed c d) : c = d := by
  cases h with
  | nil => rfl
  | cons hab hrest => rw [hab, hrest.eq]

end Alike

/-!
# Results in lockstep
-/

namespace Traced

/-- Results in lockstep: the same fault, or results that correspond, after the same
fragments.  At a fault that counts as a stop the second result is left open. -/
inductive InStep {α β : Type} (stop : Fault -> Prop)
    (R : List Handed -> α -> β -> Prop) : Traced α -> Traced β -> Prop where
  | ok {handed : List Handed} {a : α} {b : β} : R handed a b ->
      InStep stop R ⟨handed, .ok a⟩ ⟨handed, .ok b⟩
  | error {handed : List Handed} {fault : Fault} :
      InStep stop R ⟨handed, .error fault⟩ ⟨handed, .error fault⟩
  | stopped {handed : List Handed} {fault : Fault} {y : Traced β} :
      stop fault -> InStep stop R ⟨handed, .error fault⟩ y

section InStep

variable {α β γ δ : Type} {stop : Fault -> Prop}
  {R : List Handed -> α -> β -> Prop} {S : List Handed -> γ -> δ -> Prop}
  {x : Traced α} {y : Traced β}

theorem InStep.map {f : α -> γ} {g : β -> δ} (h : InStep stop R x y)
    (hmap : forall handed a b, R handed a b -> S handed (f a) (g b)) :
    InStep stop S (x.map f) (y.map g) := by
  cases h with
  | ok hab => exact ok (hmap _ _ _ hab)
  | error => exact error
  | stopped hstop => exact stopped hstop

theorem InStep.bind {f : α -> Traced γ} {g : β -> Traced δ}
    (h : InStep stop R x y)
    (hbind : forall handed a b, R handed a b ->
      InStep stop (fun later => S (handed ++ later)) (f a) (g b)) :
    InStep stop S (x.bind f) (y.bind g) := by
  cases h with
  | @ok handed a b hab =>
      have hnext := hbind handed a b hab
      rw [bind_of_ok rfl, bind_of_ok rfl]
      generalize f a = x' at hnext ⊢
      generalize g b = y' at hnext ⊢
      cases hnext with
      | ok hcd => exact ok hcd
      | error => exact error
      | stopped hstop => exact stopped hstop
  | error => exact error
  | stopped hstop => exact stopped hstop

theorem InStep.result_eq {R : List Handed -> α -> α -> Prop} {x y : Traced α}
    (h : InStep stop R x y) (hR : forall handed a b, R handed a b -> a = b) :
    x.result = y.result ∨
      exists fault, x.result = .error fault ∧ stop fault := by
  cases h with
  | ok hab => exact Or.inl (congrArg Except.ok (hR _ _ _ hab))
  | error => exact Or.inl rfl
  | stopped hstop => exact Or.inr ⟨_, rfl, hstop⟩

end InStep

end Traced

/-!
# Levels in lockstep
-/

inductive Outline.InStep (stop : Fault -> Prop) : Outline -> Outline -> Prop where
  | same {o : Outline} : InStep stop o o
  | stopped {pieces later : List Piece} {fault : Fault} {fault? : Option Fault} :
      stop fault -> InStep stop ⟨pieces, some fault⟩ ⟨pieces ++ later, fault?⟩

theorem Outline.InStep.cons {stop : Fault -> Prop} {o o' : Outline}
    (h : o.InStep stop o') (p : Piece) : (o.cons p).InStep stop (o'.cons p) := by
  cases h with
  | same => exact same
  | @stopped pieces later fault fault? hstop =>
      have hcons : InStep stop ⟨p :: pieces, some fault⟩
          ⟨(p :: pieces) ++ later, fault?⟩ := stopped hstop
      exact hcons

theorem Outline.InStep.of_nil {stop : Fault -> Prop} {fault : Fault}
    (hstop : stop fault) (o : Outline) :
    Outline.InStep stop ⟨[], some fault⟩ o := by
  rcases o with ⟨pieces, fault?⟩
  have hnil : Outline.InStep stop ⟨[], some fault⟩ ⟨[] ++ pieces, fault?⟩ :=
    stopped hstop
  exact hnil

def Fragment.InStep (stop : Fault -> Prop)
    (R : List Handed -> Element -> Element -> Prop) (settings settings' : Settings) :
    Prop :=
  forall text negated,
    Traced.InStep stop R
      ⟨[⟨text, negated⟩], Fragment.read settings text negated⟩
      ⟨[⟨text, negated⟩], Fragment.read settings' text negated⟩

section Levels

variable {stop : Fault -> Prop} {R : List Handed -> Element -> Element -> Prop}
  {settings settings' : Settings} {f g : List Char -> Traced Query}
  (hterm : Fragment.InStep stop R settings settings')
  (hgroup : forall handed items items' negated,
    Chain.Alike R handed items items' ->
      R handed (.group items negated) (.group items' negated))

include hterm hgroup

theorem Piece.inStep_traceElement {p : Piece}
    (hnested : forall inner, p.body = .bracketed inner ->
      (f inner).InStep stop (Chain.Alike R) (g inner)) :
    (p.traceElement (Fragment.read settings) f).InStep stop
      (fun handed e? e'? => forall r, JointsAlike R handed
        (e?.map (fun e => (r, e))).toList (e'?.map (fun e => (r, e))).toList)
      (p.traceElement (Fragment.read settings') g) := by
  rcases p with ⟨relation, negated, text | inner⟩
  · apply Traced.InStep.map (hterm text negated)
    intro handed e e' he r
    exact JointsAlike.single he r
  · apply Traced.InStep.map (hnested inner rfl)
    intro handed q q' hq r
    -- Both groups are dropped or neither is.
    cases hq with
    | nil => exact JointsAlike.nil
    | cons hab hrest =>
        exact JointsAlike.single
          (hgroup _ _ _ negated (Chain.Alike.cons hab hrest)) r

theorem Piece.inStep_traceJoints {pieces : List Piece}
    (hnested : forall p, p ∈ pieces -> forall inner, p.body = .bracketed inner ->
      (f inner).InStep stop (Chain.Alike R) (g inner)) :
    (traceJoints (Fragment.read settings) f pieces).InStep stop (JointsAlike R)
      (traceJoints (Fragment.read settings') g pieces) := by
  induction pieces with
  | nil => exact Traced.InStep.ok JointsAlike.nil
  | cons p rest ih =>
      have hp := inStep_traceElement hterm hgroup (hnested p List.mem_cons_self)
      have hrest := ih (fun p' hp' => hnested p' (List.mem_cons_of_mem p hp'))
      rw [traceJoints, traceJoints]
      apply Traced.InStep.bind hp
      intro handed e? e'? he
      apply Traced.InStep.map hrest
      intro later js ks hjs
      exact (he p.relation).append hjs

theorem Outline.inStep_traceQuery {o o' : Outline} (h : o.InStep stop o')
    (hnested : forall p, p ∈ o.pieces ->
      forall inner, p.body = .bracketed inner ->
        (f inner).InStep stop (Chain.Alike R) (g inner)) :
    (o.traceQuery (Fragment.read settings) f).InStep stop (Chain.Alike R)
      (o'.traceQuery (Fragment.read settings') g) := by
  have hjoints := Piece.inStep_traceJoints hterm hgroup hnested
  cases h with
  | same =>
      apply Traced.InStep.bind hjoints
      intro handed js ks hjs
      cases o.fault? with
      | some fault => exact Traced.InStep.error
      | none =>
          apply Traced.InStep.ok
          rw [List.append_nil]
          exact hjs.ofJoints
  | stopped hstop =>
      rw [traceQuery, traceQuery, Piece.traceJoints_append, Traced.bind_assoc]
      apply Traced.InStep.bind hjoints
      intro handed js ks _
      exact Traced.InStep.stopped hstop

/-- Levels are read in lockstep if their outlines are in lockstep, and those of all
groups in them. -/
theorem Level.inStep_trace {S : Level -> Level -> Prop}
    (houtline : forall l l', S l l' ->
      (Outline.ofLevel l).InStep stop (Outline.ofLevel l'))
    (hinner : forall l l' inner, S l l' -> S (l.inner inner) (l'.inner inner))
    {l l' : Level} (h : S l l') :
    (l.trace settings).InStep stop (Chain.Alike R) (l'.trace settings') := by
  induction l using Level.induction generalizing l' with
  | step l ih =>
      rw [trace_eq, trace_eq]
      apply Outline.inStep_traceQuery hterm hgroup (houtline l l' h)
      intro p hp inner hbody
      exact ih p hp inner hbody (hinner l l' inner h)

theorem Level.inStep_trace_self (l : Level) :
    (l.trace settings).InStep stop (Chain.Alike R) (l.trace settings') := by
  apply inStep_trace hterm hgroup (S := Eq) _ _ rfl
  · intro l l' hl
    rw [hl]
    exact Outline.InStep.same
  · intro l l' inner hl
    rw [hl]

end Levels

/-!
# Readings that come to the same
-/

section Same

variable {stop : Fault -> Prop} {settings settings' : Settings}

theorem Fragment.inStep_of_eq_or (h : forall text negated,
    read settings text negated = read settings' text negated ∨
      exists fault, read settings text negated = .error fault ∧ stop fault) :
    Fragment.InStep stop (fun _ => Eq) settings settings' := by
  intro text negated
  rcases h text negated with heq | ⟨fault, herror, hstop⟩
  · rw [heq]
    cases read settings' text negated with
    | error fault => exact Traced.InStep.error
    | ok e => exact Traced.InStep.ok rfl
  · rw [herror]
    exact Traced.InStep.stopped hstop

theorem Element.group_eq_of_alike {handed : List Handed}
    {items items' : Chain Element} (negated : Bool)
    (h : Chain.Alike (fun _ => Eq) handed items items') :
    group items negated = group items' negated := by
  rw [h.eq]

theorem Level.read_eq_or_stopped {l l' : Level}
    (h : (l.trace settings).InStep stop (Chain.Alike (fun _ => Eq))
      (l'.trace settings')) :
    l.read settings = l'.read settings' ∨
      exists fault, l.read settings = .error fault ∧ stop fault := by
  rw [← result_trace, ← result_trace]
  apply h.result_eq
  intro handed q q' hq
  exact hq.eq

def Fault.IsOf (kind : ErrorKind) (fault : Fault) : Prop :=
  fault.cause.kind = kind

/-- What is said of two readings holds of the parses. -/
theorem Query.parse_eq_or_kind {text : String} {kind : ErrorKind}
    (h : read settings text.toList = read settings' text.toList ∨
      exists fault, read settings text.toList = .error fault ∧
        fault.IsOf kind) :
    parse settings text = parse settings' text ∨
      exists error, parse settings text = .error error ∧ error.kind = kind := by
  unfold parse
  rcases h with heq | ⟨fault, herror, hkind⟩
  · rw [heq]
    exact Or.inl rfl
  · rw [herror]
    exact Or.inr ⟨_, rfl, hkind⟩

end Same

end SearchQuery
