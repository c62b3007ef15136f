import SearchQuery.Proofs.Element.Leaves
import SearchQuery.Proofs.Outline.Inside

/-!
# Properties of what is read

What holds of the elements of flat fragments, and of groups of such elements,
holds of every element that a level is read as.  And what a level is read as
depends only on how its fragments are read, and the groups in it.
-/

namespace SearchQuery

theorem except_map_eq_ok_iff {ε α β : Type} {x : Except ε α} {f : α -> β} {b : β} :
    x.map f = .ok b <-> exists a, x = .ok a ∧ f a = b := by
  cases x with
  | error fault =>
      constructor
      · intro h
        cases h
      · intro hparts
        rcases hparts with ⟨a, h, _⟩
        cases h
  | ok a =>
      constructor
      · intro h
        cases h
        exact ⟨a, rfl, rfl⟩
      · intro hparts
        rcases hparts with ⟨a', h, rfl⟩
        cases h
        rfl

theorem except_map_eq_error_iff {ε α β : Type} {x : Except ε α} {f : α -> β}
    {fault : ε} : x.map f = .error fault <-> x = .error fault := by
  cases x with
  | error fault' => simp [Except.map]
  | ok a => simp [Except.map]

namespace Piece

variable {term : List Char -> Bool -> Except Fault Element}
  {nested : List Char -> Except Fault Query}

theorem joints_cons_eq_ok_iff {p : Piece} {rest : List Piece}
    {js : List (Relation × Element)} :
    joints term nested (p :: rest) = .ok js <->
      exists e? tail, p.element? term nested = .ok e? ∧
        joints term nested rest = .ok tail ∧
        js = (e?.map (fun e => (p.relation, e))).toList ++ tail := by
  rw [joints]
  cases p.element? term nested with
  | error fault => simp
  | ok e? =>
      cases joints term nested rest with
      | error fault => simp
      | ok tail => simp [eq_comm]

theorem joints_append_eq_ok_iff {front back : List Piece}
    {js : List (Relation × Element)} :
    joints term nested (front ++ back) = .ok js <->
      exists js₁ js₂, joints term nested front = .ok js₁ ∧
        joints term nested back = .ok js₂ ∧ js = js₁ ++ js₂ := by
  induction front generalizing js with
  | nil =>
      constructor
      · intro h
        exact ⟨[], js, rfl, h, rfl⟩
      · rintro ⟨js₁, js₂, hfront, hback, rfl⟩
        cases hfront
        exact hback
  | cons p front ih =>
      rw [List.cons_append, joints_cons_eq_ok_iff]
      constructor
      · rintro ⟨e?, tail, he, htail, rfl⟩
        rcases ih.mp htail with ⟨js₁, js₂, hfront, hback, rfl⟩
        refine ⟨_, js₂, joints_cons_eq_ok_iff.mpr ⟨e?, js₁, he, hfront, rfl⟩,
          hback, ?_⟩
        rw [List.append_assoc]
      · rintro ⟨js₁, js₂, hfront, hback, rfl⟩
        rcases joints_cons_eq_ok_iff.mp hfront with ⟨e?, tail, he, htail, rfl⟩
        refine ⟨e?, tail ++ js₂, he, ih.mpr ⟨tail, js₂, htail, hback, rfl⟩, ?_⟩
        rw [List.append_assoc]

theorem element?_flat {r : Relation} {n : Bool} {text : List Char}
    {e? : Option Element} :
    element? term nested ⟨r, n, .flat text⟩ = .ok e? <->
      exists e, term text n = .ok e ∧ e? = some e := by
  apply except_map_eq_ok_iff.trans
  simp only [eq_comm]

theorem element?_bracketed {r : Relation} {n : Bool} {inner : List Char}
    {e? : Option Element} :
    element? term nested ⟨r, n, .bracketed inner⟩ = .ok e? <->
      exists q, nested inner = .ok q ∧
        e? = if q.isEmpty then none else some (.group q n) := by
  apply except_map_eq_ok_iff.trans
  simp only [eq_comm]

theorem exists_of_joints_eq_error {pieces : List Piece} {fault : Fault}
    (h : joints term nested pieces = .error fault) :
    exists p, p ∈ pieces ∧ p.element? term nested = .error fault := by
  induction pieces with
  | nil => cases h
  | cons p rest ih =>
      rw [joints] at h
      split at h
      next fault' hp =>
        cases h
        exact ⟨p, List.mem_cons_self, hp⟩
      next =>
        split at h
        next fault' hrest =>
          cases h
          rcases ih hrest with ⟨p', hp', hfault⟩
          exact ⟨p', List.mem_cons_of_mem p hp', hfault⟩
        next => cases h

theorem forall_of_joints {P : Element -> Prop} {pieces : List Piece}
    {js : List (Relation × Element)}
    (h : joints term nested pieces = .ok js)
    (hpieces : forall p, p ∈ pieces -> forall e,
      p.element? term nested = .ok (some e) -> P e) :
    forall x, x ∈ js -> P x.2 := by
  induction pieces generalizing js with
  | nil =>
      cases h
      intro x hx
      cases hx
  | cons p rest ih =>
      rcases joints_cons_eq_ok_iff.mp h with ⟨e?, tail, he, htail, rfl⟩
      intro x hx
      rcases List.mem_append.mp hx with hx | hx
      · rw [Option.mem_toList] at hx
        rcases Option.map_eq_some_iff.mp hx with ⟨e, rfl, rfl⟩
        exact hpieces p List.mem_cons_self e he
      · apply ih htail _ x hx
        intro p' hp'
        exact hpieces p' (List.mem_cons_of_mem p hp')

end Piece

namespace Outline

theorem toQuery_eq_ok_iff
    {term : List Char -> Bool -> Except Fault Element}
    {nested : List Char -> Except Fault Query} {o : Outline} {q : Query} :
    o.toQuery term nested = .ok q <->
      exists js, Piece.joints term nested o.pieces = .ok js ∧
        o.fault? = none ∧ q = Chain.ofJoints js := by
  rw [toQuery]
  cases Piece.joints term nested o.pieces with
  | error fault => simp
  | ok js =>
      cases o.fault? with
      | some fault => simp
      | none => simp [eq_comm]

end Outline

namespace Level

variable {settings : Settings}

theorem read_eq_ok_iff {l : Level} {q : Query} :
    l.read settings = .ok q <->
      exists js, Piece.joints (Fragment.read settings)
          (fun inner => (l.inner inner).read settings)
          (Outline.ofLevel l).pieces = .ok js ∧
        (Outline.ofLevel l).fault? = none ∧ q = Chain.ofJoints js := by
  rw [read_eq, Outline.toQuery_eq_ok_iff]

theorem cases_of_read_eq_error {l : Level} {fault : Fault}
    (h : l.read settings = .error fault) :
    (exists p text, p ∈ (Outline.ofLevel l).pieces ∧ p.body = .flat text ∧
        Fragment.read settings text p.negated = .error fault) ∨
      (exists p inner, p ∈ (Outline.ofLevel l).pieces ∧
        p.body = .bracketed inner ∧
        (l.inner inner).read settings = .error fault) ∨
      (Outline.ofLevel l).fault? = some fault := by
  rw [read_eq, Outline.toQuery] at h
  split at h
  next fault' hjoints =>
    cases h
    rcases Piece.exists_of_joints_eq_error hjoints with
      ⟨⟨r, negated, body⟩, hp, hfault⟩
    cases body with
    | flat text =>
        exact Or.inl ⟨_, text, hp, rfl, except_map_eq_error_iff.mp hfault⟩
    | bracketed inner =>
        exact Or.inr (Or.inl
          ⟨_, inner, hp, rfl, except_map_eq_error_iff.mp hfault⟩)
  next =>
    split at h
    next fault' houtline =>
      cases h
      exact Or.inr (Or.inr houtline)
    next => cases h

/-- Induction over the levels of a text. -/
theorem induction {motive : Level -> Prop}
    (step : forall l, (forall p, p ∈ (Outline.ofLevel l).pieces ->
      forall inner, p.body = .bracketed inner -> motive (l.inner inner)) ->
        motive l) (l : Level) : motive l := by
  have hlength : forall n l, l.text.length < n -> motive l := by
    intro n
    induction n with
    | zero =>
        intro l hl
        exact absurd hl (Nat.not_lt_zero _)
    | succ n ih =>
        intro l hl
        apply step
        intro p hp inner hbody
        apply ih
        have hlt := Outline.length_inner_lt hp hbody
        show inner.length < n
        omega
  exact hlength (l.text.length + 1) l (Nat.lt_succ_self _)

/-- A property of elements that depends on the room for groups: flat fragments
have it in any room, and groups of elements that have it where there is room for
one group more.  It holds throughout what a level is read as, in its room. -/
theorem forall_within_of_read {P : Nat -> Element -> Prop}
    (hterm : forall room text negated e, Flat text ->
      Fragment.read settings text negated = .ok e -> P room e)
    (hgroup : forall room items negated, items ≠ .nil ->
      (forall e, e ∈ items.elements -> P room e) ->
        P (room + 1) (.group items negated))
    {l : Level} {q : Query} (h : l.read settings = .ok q) :
    forall e, e ∈ q.elements -> P (l.limit - l.depth) e := by
  induction l using Level.induction generalizing q with
  | step l ih =>
      rcases read_eq_ok_iff.mp h with ⟨js, hjs, _, rfl⟩
      have hall : forall x, x ∈ js -> P (l.limit - l.depth) x.2 := by
        apply Piece.forall_of_joints (P := P (l.limit - l.depth)) hjs
        intro p hp e he
        rcases p with ⟨r, negated, body⟩
        cases body with
        | flat text =>
            rcases Piece.element?_flat.mp he with ⟨e', hread, heq⟩
            cases heq
            exact hterm _ text negated e
              (Outline.flat_of_mem_ofLevel hp rfl) hread
        | bracketed inner =>
            rcases Piece.element?_bracketed.mp he with ⟨q, hread, heq⟩
            have hlt := (Outline.nestsWithin_of_mem_ofLevel hp rfl).1
            have hroom : l.limit - l.depth = l.roomInside + 1 := by
              unfold roomInside
              omega
            cases q with
            | nil => cases heq
            | cons first rest =>
                cases heq
                rw [hroom]
                apply hgroup _ _ _ (by simp)
                exact ih _ hp inner rfl hread
      intro e he
      rw [Chain.elements_ofJoints] at he
      rcases List.mem_map.mp he with ⟨x, hx, rfl⟩
      exact hall x hx

theorem forall_of_read {P : Element -> Prop}
    (hterm : forall text negated e, Flat text ->
      Fragment.read settings text negated = .ok e -> P e)
    (hgroup : forall items negated, items ≠ .nil ->
      (forall e, e ∈ items.elements -> P e) -> P (.group items negated))
    {l : Level} {q : Query} (h : l.read settings = .ok q) :
    forall e, e ∈ q.elements -> P e :=
  forall_within_of_read (P := fun _ => P) (fun _ => hterm) (fun _ => hgroup) h

end Level

/-!
# Other readings
-/

namespace Piece

variable {term : List Char -> Bool -> Except Fault Element}
  {f g : List Char -> Except Fault Query}

theorem joints_eq_ok_of {pieces : List Piece}
    {js : List (Relation × Element)}
    (h : forall p, p ∈ pieces -> forall e?, p.element? term f = .ok e? ->
      p.element? term g = .ok e?)
    (hjs : joints term f pieces = .ok js) :
    joints term g pieces = .ok js := by
  induction pieces generalizing js with
  | nil => exact hjs
  | cons p rest ih =>
      rcases joints_cons_eq_ok_iff.mp hjs with ⟨e?, tail, he, htail, rfl⟩
      apply joints_cons_eq_ok_iff.mpr
      refine ⟨e?, tail, h p List.mem_cons_self e? he, ?_, rfl⟩
      apply ih _ htail
      intro q hq
      exact h q (List.mem_cons_of_mem p hq)

end Piece

namespace Level

variable {settings : Settings}

theorem read_congr {settings' : Settings}
    (h : Fragment.read settings = Fragment.read settings') (l : Level) :
    l.read settings = l.read settings' := by
  induction l using Level.induction with
  | step l ih =>
      rw [read_eq, read_eq, h]
      exact Outline.toQuery_congr ih

end Level

namespace Query

theorem parse_eq_ok_iff {settings : Settings} {text : String} {q : Query} :
    parse settings text = .ok q <-> read settings text.toList = .ok q :=
  except_mapError_eq_ok_iff

theorem exists_of_parse_eq_error {settings : Settings} {text : String}
    {error : ParseError} (h : parse settings text = .error error) :
    exists fault, read settings text.toList = .error fault ∧
      error = ParseError.ofFault text fault := by
  unfold parse at h
  cases hread : read settings text.toList with
  | error fault =>
      rw [hread] at h
      cases h
      exact ⟨fault, rfl, rfl⟩
  | ok q =>
      rw [hread] at h
      cases h

end Query

end SearchQuery
