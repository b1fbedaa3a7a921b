import QueryLoom.Proofs.Bindings.Collisions
import QueryLoom.Proofs.Faults.Statements

/-!
By which faults calls fail. A call with arguments of the declared kinds either compiles or fails by a
fault of compilation, but for three cases: a value that is stored as a JSON text may be one that JSON
has no form for; of two values under one name one may be a signalling decimal, which is not compared
with numbers; and a value may hold a whole number with too many digits to be written, in a statement or
in the message of a fault.
-/

namespace QueryLoom

open Compile Compile.FailsBy

/-! Bindings that cannot be compared. -/

/-- Values under one name can be compared. -/
def Comparable (bindings : List (String × Value)) : Prop :=
  bindings.Pairwise fun a b => a.1 = b.1 → a.2.equal? b.2 ≠ none

/-- What a fault of bindings is: one of compilation, or the one for two values that cannot be compared,
or the one for a value that its message would show and that has no text. -/
def Blames (bindings : List (String × Value)) (fault : Fault) : Prop :=
  fault.isCompilation = true ∨ fault = .invalidOperation ∧ ¬Comparable bindings ∨
    fault = .badValue ∧ ∃ b ∈ bindings, b.2.hasText = false

namespace Compile

open Supply (named)

variable {made : List (String × Value)} {name : String} {v : Value} {xs : List Supply}
  {s u : Parameters} {fault : Fault}

theorem not_comparable {w : Value} {bindings : List (String × Value)} (hw : (name, w) ∈ made)
    (h : w.equal? v = none) : ¬Comparable (made ++ (name, v) :: bindings) := by
  intro hcomparable
  obtain ⟨-, -, hcross⟩ := List.pairwise_append.mp hcomparable
  exact hcross (name, w) hw (name, v) List.mem_cons_self rfl h

/-- One binding fails by a fault of compilation, or finds a value that it cannot be compared with. -/
theorem fault_of_bindName (hs : ∀ name w, Assoc.get? name s.bound = some w → (name, w) ∈ made)
    (h : (ExceptT.run (bindName name v)).run s = (.error fault, u))
    (bindings : List (String × Value)) : Blames (made ++ (name, v) :: bindings) fault := by
  have hbound := bound_bindName s name v
  rw [h] at hbound
  cases hbound with
  | @unequal w hw hequal =>
      unfold Fault.showing
      split_ifs with hold hnew
      · exact .inl rfl
      · exact .inr (.inr ⟨rfl, (name, v), by simp, by simpa using hnew⟩)
      · have hmem : (name, w) ∈ made ++ (name, v) :: bindings :=
          List.mem_append_left _ (hs name w hw)
        exact .inr (.inr ⟨rfl, (name, w), hmem, by simpa using hold⟩)
  | incomparable hw hequal => exact .inr (.inl ⟨rfl, not_comparable (hs name _ hw) hequal⟩)

/-- What is bound after a binding was bound before, or is the value of the binding. -/
theorem mem_of_bindName (hs : ∀ name w, Assoc.get? name s.bound = some w → (name, w) ∈ made)
    (h : (ExceptT.run (bindName name v)).run s = (.ok (), u)) :
    u.stem = s.stem ∧ u.next = s.next ∧
      ∀ other w, Assoc.get? other u.bound = some w → (other, w) ∈ made ++ [(name, v)] := by
  have hbound := bound_bindName s name v
  rw [h] at hbound
  cases hbound with
  | written hfound =>
      refine ⟨rfl, rfl, fun other w hw => ?_⟩
      rw [Assoc.get?_insert] at hw
      split_ifs at hw with hname
      · cases hw
        simp [hname]
      · simp [hs other w hw]

/-- One binding, and what is supplied after it. -/
theorem fault_of_bind {bindings : List (String × Value)}
    (hs : ∀ name w, Assoc.get? name s.bound = some w → (name, w) ∈ made)
    (h : (ExceptT.run (do bindName name v; supply xs)).run s = (.error fault, u))
    (hrest : ∀ w : Parameters, w.stem = s.stem → w.next = s.next →
      (∀ other x, Assoc.get? other w.bound = some x → (other, x) ∈ made ++ [(name, v)]) →
      (ExceptT.run (supply xs)).run w = (.error fault, u) →
      Blames (made ++ [(name, v)] ++ bindings) fault) :
    Blames (made ++ (name, v) :: bindings) fault := by
  rw [ExceptT.run_bind, StateT.run_bind] at h
  rcases hfirst : (ExceptT.run (bindName name v)).run s with ⟨first | _, w⟩
  · rw [hfirst] at h
    cases h
    exact fault_of_bindName hs hfirst bindings
  · rw [hfirst] at h
    obtain ⟨hstem, hnext, hw⟩ := mem_of_bindName hs hfirst
    rw [List.append_cons]
    exact hrest w hstem hnext hw h

/-- The supply of bindings fails by a fault of compilation, or finds values that cannot be compared, or
one that has no text. -/
theorem fault_of_supply (hstem : s.stem = Parameters.defaultStem)
    (hs : ∀ name w, Assoc.get? name s.bound = some w → (name, w) ∈ made)
    (h : (ExceptT.run (supply xs)).run s = (.error fault, u)) :
    Blames (made ++ named s.next xs) fault := by
  induction xs generalizing made s with
  | nil => cases h
  | cons x rest ih =>
      cases x with
      | value v =>
          have hrun : (ExceptT.run (supply (.value v :: rest))).run s =
              (ExceptT.run (do bindName (Parameters.generated s.next) v; supply rest)).run
                { s with next := s.next + 1 } := by
            simp only [supply, ExceptT.run_bind, StateT.run_bind,
              Renumbering.run_addValue v hstem]
            rcases (ExceptT.run (bindName (Parameters.generated s.next) v)).run
              { s with next := s.next + 1 } with ⟨_ | _, _⟩ <;> rfl
          rw [hrun] at h
          refine fault_of_bind (s := { s with next := s.next + 1 }) hs h
            fun w hwstem hwnext hw hmore => ?_
          have hrest := ih (hwstem.trans hstem) hw hmore
          rwa [hwnext] at hrest
      | entry key v =>
          refine fault_of_bind hs h fun w hwstem hwnext hw hmore => ?_
          have hrest := ih (hwstem.trans hstem) hw hmore
          rwa [hwnext] at hrest

end Compile

/-! Calls of verbs. -/

variable {t : Target}

namespace Verb

open Statement

/-- The values of all parameters of a call; none if the arguments do not fit the parameters. -/
def boundValues (verb : Verb) (args : List Value) : List Value :=
  match Signature.bind ⟨verb.parameters, []⟩ args [] with
  | .ok values => values
  | .error _ => []

def isText : Value → Bool
  | .str _ => true
  | _ => false

/-- Whether a value may stand where conditions are expected. -/
def isWheres : Value → Bool
  | .null | .dict _ | .raw _ _ => true
  | _ => false

/-- Whether a value may stand where columns are expected. -/
def isColumns : Value → Bool
  | .null | .str _ | .list _ | .dict _ => true
  | _ => false

def isJoins : Value → Bool
  | .null | .dict _ => true
  | _ => false

/-- Whether a value may stand where rows are expected: it is one, or a list of them. -/
def isRows : Value → Bool
  | .dict _ => true
  | .list rows => rows.all Value.isDict
  | _ => false

/-- Whether the values of all parameters of a call are of the declared kinds. The function and the
column of an aggregate may be any values. -/
def declares : Verb → List Value → Bool
  | .select, [table, columns, wheres, join] | .get, [table, columns, wheres, join]
  | .rand, [table, columns, wheres, join] =>
      isText table && isColumns columns && isWheres wheres && isJoins join
  | .has, [table, wheres, join] => isText table && isWheres wheres && isJoins join
  | .aggregate, [_, table, _, wheres, join] => isText table && isWheres wheres && isJoins join
  | .insert, [table, rows] => isText table && isRows rows
  | .update, [table, data, wheres] => isText table && data.isDict && isWheres wheres
  | .delete, [table, wheres] => isText table && isWheres wheres
  | .replace, [table, columns, wheres] => isText table && columns.isDict && isWheres wheres
  | .raw, [statement] => statement.isRaw
  | _, _ => false

/-- The rows that a call writes, each under its data keys. -/
def writtenRows : Verb → List Value → List Value
  | .insert, [_, rows] => insertedRows rows
  | .update, [_, data, _] => [data]
  | _, _ => []

variable {verb : Verb} {values args : List Value} {next last : Nat}

theorem typed_randomOrder {wheres : Value} (h : isWheres wheres = true) (fault : Fault)
    (hfault : randomOrder t wheres = .error fault) : fault.isCompilation = true := by
  cases wheres with
  | null => cases hfault
  | dict entries => cases hfault
  | raw raw parameters =>
      cases hfault
      rfl
  | _ => cases h

/-- The faults that calls with some values may fail by beside those of compilation and those of the
supply of bindings: one for a value that cannot be written as JSON, or one for a value without a
text. -/
def Excused (verb : Verb) (values : List Value) (fault : Fault) : Prop :=
  Unwritable (verb.writtenRows values) fault ∨
    fault = .badValue ∧ ∃ v ∈ values, v.hasText = false

theorem covers_excused : ∀ v ∈ values, Covers (verb.Excused values) v := by
  intro v hv
  cases htext : v.hasText with
  | true => exact .inl htext
  | false => exact .inr (.inr ⟨rfl, v, hv, htext⟩)

/-- A verb with values of the declared kinds fails by a fault of compilation, by an excused one, or as
the supply of its bindings. -/
theorem fails_compileWith (h : verb.declares values = true) :
    FailsBy (verb.Excused values) (verb.compileWith t values) (verb.suppliesWith t values) := by
  have hcovers : ∀ v ∈ values, Covers (verb.Excused values) v := covers_excused
  unfold declares at h
  split at h <;> try simp only [List.forall_mem_cons] at hcovers
  · obtain ⟨htable, hcolumns, hwheres, hjoin, -⟩ := hcovers
    exact fails_select htable hcolumns hwheres hjoin
  · next table columns wheres join =>
      obtain ⟨htable, hcolumns, hwheres, hjoin, -⟩ := hcovers
      exact (fails_select htable hcolumns (covers_withoutLimit hwheres) hjoin).map _
  · obtain ⟨htable, hcolumns, hwheres, hjoin, -⟩ := hcovers
    simp only [Bool.and_eq_true] at h
    exact fails_rand htable hcolumns hwheres hjoin (typed_randomOrder h.1.2)
  · obtain ⟨htable, hwheres, hjoin, -⟩ := hcovers
    exact (fails_selectFrom _ htable hwheres hjoin).before (makes_selectFrom _ _ _ _) fun _ =>
      fails_finish _ _
  · obtain ⟨hfunction, htable, hcolumn, hwheres, hjoin, -⟩ := hcovers
    exact fails_aggregate hfunction htable hcolumn hwheres hjoin
  · next table rows =>
      obtain ⟨htable, hrows, -⟩ := hcovers
      rw [Bool.and_eq_true] at h
      refine fails_insert htable hrows ?_ fun _ => .inl
      cases rows with
      | dict row => exact .inl rfl
      | list rows => exact .inr ⟨rows, rfl⟩
      | _ => cases h.2
  · obtain ⟨htable, hdata, hwheres, -⟩ := hcovers
    exact fails_update htable hdata hwheres fun _ => .inl
  · exact fails_delete hcovers.1 hcovers.2.1
  · obtain ⟨htable, hcolumns, hwheres, -⟩ := hcovers
    exact fails_replace htable hcolumns hwheres
  · next statement =>
      cases statement with
      | raw raw parameters =>
          exact (FailsBy.splice hcovers.1).before (Conditions.makes_splice _ _ _) fun _ =>
            fails_finish _ _
      | _ => cases h
  · cases h

theorem fails_compile (h : verb.declares (verb.boundValues args) = true) :
    FailsBy (verb.Excused (verb.boundValues args)) (verb.compile t args) (verb.supplies t args) := by
  unfold compile supplies
  unfold boundValues at h ⊢
  cases hbind : Signature.bind ⟨verb.parameters, []⟩ args [] with
  | error fault =>
      rw [hbind] at h
      cases verb <;> cases h
  | ok values =>
      rw [hbind] at h
      exact fails_compileWith h

/-- For every target, every counter and every call of a verb with arguments of the declared kinds, over
all values: the call compiles or fails, and if it fails then by a fault of compilation, unless the rows
that it writes hold a value that is stored as a JSON text but cannot be written as one, whose fault is
then passed on, or two of its bindings give one name values that cannot be compared, or a whole number
among its values has too many digits to be written. -/
theorem compile_faults_typed (t : Target) (next : Nat)
    (h : verb.declares (verb.boundValues args) = true) :
    (∃ c, (run (verb.compile t args) next).1 = .ok c) ∨
      ∃ fault, (run (verb.compile t args) next).1 = .error fault ∧
        (fault.isCompilation = true ∨ Unwritable (verb.writtenRows (verb.boundValues args)) fault ∨
          fault = .invalidOperation ∧ ¬Comparable (verb.bindings t args next) ∨
          fault = .badValue ∧
            ((∃ v ∈ verb.boundValues args, v.hasText = false) ∨
              ∃ b ∈ verb.bindings t args next, b.2.hasText = false)) := by
  unfold run
  rcases hrun : (ExceptT.run (verb.compile t args)).run (Parameters.start next) with
    ⟨fault | c, u⟩
  · refine .inr ⟨fault, rfl, ?_⟩
    rcases fails_compile h _ fault u hrun with
      hcompilation | (hunwritable | ⟨hfault, hvalue⟩) | hsupply
    · exact .inl hcompilation
    · exact .inr (.inl hunwritable)
    · exact .inr (.inr (.inr ⟨hfault, .inl hvalue⟩))
    · have hstart : ∀ name w, Assoc.get? name (Parameters.start next).bound = some w →
          (name, w) ∈ ([] : List (String × Value)) := fun _ _ hw => nomatch hw
      rcases fault_of_supply rfl hstart hsupply with
        hcompilation | hincomparable | ⟨hfault, hbinding⟩
      · exact .inl hcompilation
      · exact .inr (.inr (.inl hincomparable))
      · exact .inr (.inr (.inr ⟨hfault, .inr hbinding⟩))
  · exact .inl ⟨c, rfl⟩

/-- A range with one end is refused by a fault of compilation. -/
theorem compile_faults_typed_of_range :
    ∃ fault, (run (Verb.delete.compile ⟨.sqlite, ""⟩
        [.str "users", .dict [(.str "age[<>]", .list [.int 18])]]) 0).1 = .error fault ∧
      fault.isCompilation = true := by
  generalize hargs : [Value.str "users", .dict [(.str "age[<>]", .list [.int 18])]] = args
  have hdeclared : Verb.delete.declares (Verb.delete.boundValues args) = true := by
    subst hargs
    rfl
  have hfails : (run (Verb.delete.compile ⟨.sqlite, ""⟩ args) 0).1.isOk = false := by
    subst hargs
    decide +kernel
  have htexts : ∀ v ∈ Verb.delete.boundValues args, v.hasText = true := by
    subst hargs
    exact List.all_eq_true.mp (by decide +kernel)
  have hbindings : ∀ b ∈ Verb.delete.bindings ⟨.sqlite, ""⟩ args 0, b.2.hasText = true := by
    subst hargs
    exact List.all_eq_true.mp (by decide +kernel)
  rcases compile_faults_typed ⟨.sqlite, ""⟩ 0 hdeclared with ⟨c, hok⟩ | ⟨fault, hfault, hcause⟩
  · rw [hok] at hfails
    cases hfails
  · refine ⟨fault, hfault, ?_⟩
    rcases hcause with hcompilation | ⟨row, key, v, hrow, -⟩ | ⟨-, hincomparable⟩ |
      ⟨-, ⟨v, hv, htext⟩ | ⟨b, hb, htext⟩⟩
    · exact hcompilation
    · subst hargs
      cases hrow
    · subst hargs
      exact absurd (List.pairwise_singleton _ _) hincomparable
    · rw [htexts v hv] at htext
      cases htext
    · rw [hbindings b hb] at htext
      cases htext

/-- A decimal in a mapping that is stored as a JSON text, a signalling decimal under a name that is
bound to a number, and a number with too many digits in the place of an order: none of these faults is
one of compilation. -/
theorem unwritable_values_fault_untyped :
    let unwritable : List Value :=
      [.str "t", .dict [(.str "a", .dict [(.str "price", .decimal (.finite false 15 (-1)))])]]
    let incomparable : List Value :=
      [.str "t", .str "*", .dict [(.str "a", .raw "x" [(.str "n", .int 1)]),
        (.str "b", .raw "y" [(.str "n", .decimal (.notANumber false true 0))])]]
    let long : List Value :=
      [.str "t", .str "*",
        .dict [(.str "ORDER", .list [.int (Nat.pow 10 Reading.digitLimit)])]]
    Verb.insert.declares (Verb.insert.boundValues unwritable) = true ∧
      (run (Verb.insert.compile ⟨.sqlite, ""⟩ unwritable) 0).1 = .error .wrongKind ∧
      Verb.select.declares (Verb.select.boundValues incomparable) = true ∧
      (run (Verb.select.compile ⟨.sqlite, ""⟩ incomparable) 0).1 = .error .invalidOperation ∧
      Verb.select.declares (Verb.select.boundValues long) = true ∧
      (run (Verb.select.compile ⟨.sqlite, ""⟩ long) 0).1 = .error .badValue ∧
      Fault.wrongKind.isCompilation = false ∧ Fault.invalidOperation.isCompilation = false ∧
      Fault.badValue.isCompilation = false := by
  have horder : ∀ i : Int, Value.isWritten i = false →
      (run (Verb.select.compile ⟨.sqlite, ""⟩
        [.str "t", .str "*", .dict [(.str "ORDER", .list [.int i])]]) 0).1 = .error .badValue := by
    intro i hi
    have hfault : (run (Verb.select.compile ⟨.sqlite, ""⟩
        [.str "t", .str "*", .dict [(.str "ORDER", .list [.int i])]]) 0).1 =
        .error (.showing (.int i)
          (.malformedCondition (.str "ORDER") (.badOrderEntry (.int i)) .orderBy)) := rfl
    rw [hfault, Fault.showing]
    exact congrArg Except.error (if_neg (Bool.eq_false_iff.mp hi))
  have hlong : Value.isWritten (Nat.pow 10 Reading.digitLimit) = false :=
    Value.not_isWritten_of_le (Nat.le_refl _) (Nat.le_of_eq (Int.natAbs_natCast _).symm)
  refine ⟨rfl, ?_, rfl, ?_, rfl, ?_, rfl, rfl, rfl⟩
  · rfl
  · rfl
  · exact horder _ hlong

end Verb

end QueryLoom
