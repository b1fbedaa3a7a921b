import QueryLoom.Proofs.Grammar.Verbs
import QueryLoom.Proofs.Lexing.Tokens

/-!
Gaps around placeholders. Wherever the grammar has a placeholder, a blank or an open parenthesis
stands before it, and a blank, a comma or a closed parenthesis behind it, if anything does. So
whatever is written in its place touches nothing that it could be read together with.
-/

namespace QueryLoom

open SqlToken

namespace Sql

/-- Whether nothing follows, or something that ends every token. -/
def beginsBreak : Sql → Bool
  | [] => true
  | .text s :: _ => s.toList.head?.any isBreak
  | _ => false

/-- Whether every placeholder of a row stands between a gap and a break; `gap` tells whether there
is a gap before the row. -/
def spaced (gap : Bool) : Sql → Bool
  | [] => true
  | .param _ :: rest => gap && beginsBreak rest && spaced false rest
  | .text s :: rest => spaced (s.toList.getLast?.any isGap) rest
  | _ :: rest => spaced false rest

/-- A row of which the placeholders are spaced if a gap stands before it and a break behind it. -/
def Apart (sql : Sql) : Prop :=
  ∀ rest : Sql, rest.beginsBreak = true → spaced false rest = true →
    spaced true (sql ++ rest) = true

/-- A text with a gap at its end, before a row. -/
def Opens (s : String) : Prop := s.toList.getLast?.any isGap = true

/-- A text with a break at its front, after a row. -/
def Closes (s : String) : Prop := s.toList.head?.any isBreak = true

instance (s : String) : Decidable (Opens s) :=
  inferInstanceAs (Decidable (s.toList.getLast?.any isGap = true))

instance (s : String) : Decidable (Closes s) :=
  inferInstanceAs (Decidable (s.toList.head?.any isBreak = true))

variable {sql first rest : Sql} {s : String} {rows : List Sql}

theorem spaced_mono (h : spaced false sql = true) (gap : Bool) : spaced gap sql = true := by
  cases sql with
  | nil => rfl
  | cons p more =>
      cases p with
      | param name => simp [spaced] at h
      | _ => exact h

theorem spaced_of_params (hsql : sql.params = []) (h : spaced false rest = true) (gap : Bool) :
    spaced gap (sql ++ rest) = true := by
  induction sql generalizing gap with
  | nil => exact spaced_mono h gap
  | cons p more ih =>
      cases p with
      | param name => cases hsql
      | _ => exact ih hsql _

namespace Apart

/-- A row without placeholders. -/
theorem of_params (h : sql.params = []) : Apart sql :=
  fun _ _ hrest => spaced_of_params h hrest true

theorem param (name : String) : Apart [.param name] := by
  intro rest hbreak hrest
  simp [spaced, hbreak, hrest]

/-- A row behind a text. -/
theorem behind (h : Apart sql) (hs : Opens s) : Apart (.text s :: sql) := by
  intro rest hbreak hrest
  rw [List.cons_append, spaced, hs]
  exact h rest hbreak hrest

/-- A row before a text that another row follows. -/
theorem between (hfirst : Apart first) (hrest : Apart rest) (hcloses : Closes s)
    (hopens : Opens s) : Apart (first ++ .text s :: rest) := by
  intro more hbreak hmore
  rw [List.append_assoc, List.cons_append]
  refine hfirst _ hcloses ?_
  rw [spaced, hopens]
  exact hrest more hbreak hmore

/-- A row before a text that nothing has to be kept apart from. -/
theorem before (h : Apart sql) (hs : Closes s) : Apart (sql ++ [.text s]) := by
  intro rest _ hrest
  rw [List.append_assoc]
  exact h _ hs (spaced_mono hrest _)

/-- A row without placeholders before a text and another row. -/
theorem after (hfirst : first.params = []) (h : Apart rest) (hs : Opens s) :
    Apart (first ++ .text s :: rest) := by
  intro more hbreak hmore
  rw [List.append_assoc]
  refine spaced_of_params hfirst ?_ true
  rw [List.cons_append, spaced, hs]
  exact h more hbreak hmore

theorem join (hrows : ∀ row ∈ rows, Apart row) (hcloses : Closes s) (hopens : Opens s) :
    Apart (Sql.join s rows) := by
  induction rows with
  | nil => exact of_params rfl
  | cons row more ih =>
      obtain ⟨hrow, hmore⟩ := List.forall_mem_cons.mp hrows
      cases more with
      | nil => exact hrow
      | cons next others => exact hrow.between (ih hmore) hcloses hopens

theorem parenthesized (h : Apart sql) : Apart (Conditions.parenthesized sql) :=
  (h.before (by decide)).behind (by decide)

end Apart

end Sql

namespace Grammar

open Sql

variable {r : Rules} {P : Sql → Prop} {sql : Sql} {rows : List Sql}

/-! Rows without placeholders. -/

theorem Column.params (h : Column sql) : sql.params = [] := by
  cases h <;> rfl

theorem Table.params (h : Table sql) : sql.params = [] := by
  cases h <;> rfl

theorem Left.params (h : Left r sql) : sql.params = [] := by
  cases h with
  | column h => exact h.params
  | call h => rfl

theorem params_join (between : String) (h : ∀ row ∈ rows, Sql.params row = []) :
    (Sql.join between rows).params = [] := by
  rw [Sql.params_join, List.flatMap_eq_nil_iff]
  exact h

theorem Group.params (h : Group sql) : sql.params = [] := by
  cases h with
  | mk hrows hne => exact params_join _ fun row hrow => (hrows row hrow).params

theorem OrderItem.params (h : OrderItem r sql) : sql.params = [] := by
  cases h with
  | column h => exact h.params
  | directed h hdirection => simp [h.params]
  | field h hrows hne =>
      have hjoin := params_join ", " fun row hrow => by
        cases hrows row hrow
        rfl
      simp [h.params, hjoin]
  | ranked h hrows hne =>
      have hjoin := params_join " " fun row hrow => by
        cases hrows row hrow
        rfl
      simp [h.params, hjoin]
  | random => rfl

theorem Order.params (h : Order r sql) : sql.params = [] := by
  cases h with
  | mk hrows hne => exact params_join _ fun row hrow => (hrows row hrow).params

theorem Limit.params (h : Limit sql) : sql.params = [] := by
  cases h <;> rfl

theorem Join.params (h : Join sql) : sql.params = [] := by
  obtain ⟨direction, htable, hrelation⟩ := h
  cases hrelation with
  | names hrows hne =>
      have hjoin := params_join ", " fun row hrow => by
        cases hrows row hrow
        rfl
      simp [htable.params, hjoin]
  | equalities hrows hne =>
      have hjoin := params_join " AND " fun row hrow => by
        obtain ⟨hleft, hright⟩ := hrows row hrow
        simp [hleft.params, hright.params]
      simp [htable.params, hjoin]

theorem Item.params (h : Item sql) : sql.params = [] := by
  cases h with
  | everything => rfl
  | all table => rfl
  | column h => exact h.params
  | labelled h label => simp [h.params]

/-! Rows with placeholders. -/

theorem Placeholder.apart (h : Placeholder sql) : Apart sql := by
  cases h with
  | mk h => exact .param _

theorem spacers_operatorTexts : ∀ s ∈ operatorTexts, Closes s ∧ Opens s := by decide

/-- Wherever a predicate has a placeholder, it is kept apart from the rest. -/
theorem Predicate.apart (h : Predicate r sql) : Apart sql := by
  induction h with
  | null negated hleft => exact .of_params (by simp [hleft.params])
  | tested hleft hoperator hv =>
      exact .after hleft.params hv.apart (spacers_operatorTexts _ hoperator).2
  | members negated hleft hrows hne =>
      have hjoin : Apart (Sql.join ", " _) :=
        .join (fun row hrow => (hrows row hrow).apart) (by decide) (by decide)
      rw [List.append_assoc]
      refine .after hleft.params (hjoin.before (by decide)) ?_
      cases negated <;> decide
  | range negated hleft hlow hhigh =>
      refine .parenthesized (.after hleft.params
        (hlow.apart.between hhigh.apart (by decide) (by decide)) ?_)
      cases negated <;> decide
  | columns operator hleft hright => exact .of_params (by simp [hleft.params, hright.params])
  | group connective hrows hne ih =>
      refine .parenthesized (.join ih ?_ ?_)
      · cases connective <;> decide
      · cases connective <;> decide

theorem Conjunction.apart (h : Conjunction r sql) : Apart sql := by
  cases h with
  | mk hrows hne => exact .join (fun row hrow => (hrows row hrow).apart) (by decide) (by decide)

theorem Optional.apart {keyword : String} (h : Optional (Keyworded keyword P) rows)
    (hP : ∀ {sql}, P sql → Apart sql) (hkeyword : Opens keyword) : ∀ row ∈ rows, Apart row := by
  cases h with
  | absent => simp
  | present h =>
      cases h with
      | mk h => exact List.forall_mem_singleton.mpr ((hP h).behind hkeyword)

theorem Unlimited.apart (h : Unlimited r rows) : ∀ row ∈ rows, Apart row := by
  obtain ⟨hfilter, hgroup, hhaving, horder⟩ := h
  simp only [List.forall_mem_append]
  exact ⟨⟨⟨hfilter.apart Conjunction.apart (by decide),
    hgroup.apart (.of_params ·.params) (by decide)⟩,
    hhaving.apart Conjunction.apart (by decide)⟩, horder.apart (.of_params ·.params) (by decide)⟩

theorem Clauses.apart (h : Clauses r rows) : ∀ row ∈ rows, Apart row := by
  obtain ⟨hrows, hlimit⟩ := h
  rw [List.forall_mem_append]
  refine ⟨hrows.apart, ?_⟩
  cases hlimit with
  | absent => simp
  | present h => exact List.forall_mem_singleton.mpr (.of_params h.params)

theorem Closed.apart (h : Closed r P sql) (hP : ∀ {sql}, P sql → Apart sql) : Apart sql := by
  cases h with
  | plain h => exact hP h
  | clauses h hrows hne =>
      exact (hP h).between (.join hrows.apart (by decide) (by decide)) (by decide) (by decide)

theorem From.params (h : From P sql) (hP : ∀ {sql : Sql}, P sql → sql.params = []) :
    sql.params = [] := by
  cases h with
  | table hhead htable => simp [hP hhead, htable.params]
  | joined hhead htable hrows hne =>
      have hjoin := params_join " " fun row hrow => (hrows row hrow).params
      simp [hP hhead, htable.params, hjoin]

theorem SelectHead.params (h : SelectHead sql) : sql.params = [] := by
  cases h with
  | mk hrows hne =>
      have hjoin := params_join ", " fun row hrow => (hrows row hrow).params
      simp [hjoin]

theorem HasHead.params (h : HasHead sql) : sql.params = [] := by
  cases h
  rfl

theorem AggregateHead.params (h : AggregateHead sql) : sql.params = [] := by
  cases h with
  | mk f h =>
      cases h with
      | everything => rfl
      | column h => simp [h.params]

theorem Replaced.apart (h : Replaced sql) : Apart sql := by
  induction h with
  | column h => exact .of_params h.params
  | replace h hold hnew ih =>
      have hargs := (ih.between (hold.apart.between hnew.apart (s := ", ") (by decide) (by decide))
        (s := ", ") (by decide) (by decide)).before (s := ")") (by decide)
      simpa using hargs.behind (s := "REPLACE(") (by decide)

theorem Assignment.apart (h : Assignment sql) : Apart sql := by
  cases h with
  | value hcolumn hv => exact .after hcolumn.params hv.apart (by decide)
  | @arithmetic column v operator hcolumn hv =>
      have hopens : Opens (" " ++ operator.text ++ " ") := by
        cases operator <;> decide
      refine .after ?_ hv.apart hopens
      simp [hcolumn.params]
  | replaced hcolumn h => exact .after hcolumn.params h.apart (by decide)

theorem UpdateHead.apart (h : UpdateHead sql) : Apart sql := by
  cases h with
  | mk table hrows hne =>
      refine .after rfl (.join (fun row hrow => (hrows row hrow).apart) (by decide) (by decide)) ?_
      decide

theorem RowTuple.apart (h : RowTuple sql) : Apart sql := by
  cases h with
  | mk hrows hne =>
      exact .parenthesized
        (.join (fun row hrow => (hrows row hrow).apart) (by decide) (by decide))

/-- Wherever a statement has a placeholder, it is kept apart from the rest. -/
theorem Statement.apart {verb : Verb} (h : Grammar.Statement r verb sql) : Apart sql := by
  cases h with
  | selection hverb h => exact h.apart fun hfrom => .of_params (hfrom.params SelectHead.params)
  | has h =>
      have hquery := h.apart fun hfrom => .of_params (hfrom.params HasHead.params)
      exact (hquery.behind (by decide)).before (by decide)
  | aggregate h => exact h.apart fun hfrom => .of_params (hfrom.params AggregateHead.params)
  | update hverb h => exact h.apart UpdateHead.apart
  | delete h =>
      refine h.apart fun hhead => .of_params ?_
      cases hhead
      rfl
  | insert table hcolumns hne hrows hsome =>
      have hjoin := params_join ", " fun row hrow => (hcolumns row hrow).params
      refine .after (by simp [hjoin])
        (.join (fun row hrow => (hrows row hrow).apart) (by decide) (by decide)) ?_
      decide

/-- The statement with the limit of one behind it, if it has one. -/
theorem Outcome.apart {verb : Verb} {c : Compiled} (h : Outcome r verb c) : Apart c.sql := by
  cases h with
  | whole h hlimited =>
      rw [Compiled.sql, if_neg (by simp [hlimited])]
      exact h.apart
  | single hverb h hv hlimited =>
      rw [Compiled.sql, if_pos hlimited]
      have hquery := h.closed.apart fun hfrom => .of_params (hfrom.params SelectHead.params)
      exact hquery.before (by decide)

end Grammar

end QueryLoom
