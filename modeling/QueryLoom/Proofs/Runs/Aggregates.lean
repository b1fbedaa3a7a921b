import QueryLoom.Proofs.Numbers.Notation
import QueryLoom.Proofs.Numbers.Truncation
import QueryLoom.Proofs.Runs.FirstRow

/-!
Aggregates. The first cell of the first row becomes a number if it denotes one. Whole decimals and the
texts of whole numbers become the equal whole numbers, all other decimals and texts of numbers the nearest
doubles. What denotes no number stays as it is, and so do numbers of the language itself. Only an infinite
decimal, and one that is a signalling value, is refused.
-/

namespace QueryLoom

open Reading Binary64

/-- What an aggregated cell becomes. -/
inductive Value.CountsAs : Value → Value → Prop
  | wholeDecimal {negative : Bool} {coefficient : Nat} {exponent i : Int}
      (h : Decimal.value negative coefficient exponent = i) :
      CountsAs (.decimal (.finite negative coefficient exponent)) (.int i)
  | decimal {negative : Bool} {coefficient : Nat} {exponent : Int} {x : Binary64}
      (h : ∀ i : Int, Decimal.value negative coefficient exponent ≠ i)
      (hx : RoundsTo negative (coefficient * 10 ^ exponent) x) :
      CountsAs (.decimal (.finite negative coefficient exponent)) (.float x)
  | notANumber (negative : Bool) (payload : Nat) :
      CountsAs (.decimal (.notANumber negative false payload)) (.float .nan)
  | wholeText {v : Value} {plain : List Char} {negative : Bool} {count n : Nat}
      (hplain : v.plainText? = some plain) (htext : WholeText plain negative count n)
      (hlimit : count ≤ digitLimit) : CountsAs v (.int (signed negative n))
  | numberText {v : Value} {plain : List Char} {negative : Bool} {coefficient : Nat} {exponent : Int}
      {x : Binary64} (hplain : v.plainText? = some plain)
      (htext : NumberText plain negative coefficient exponent) (hwhole : ¬IsWholeText plain)
      (hx : RoundsTo negative (coefficient * 10 ^ exponent) x) : CountsAs v (.float x)
  | word {v : Value} {plain : List Char} {x : Binary64} (hplain : v.plainText? = some plain)
      (htext : WordText plain x) : CountsAs v (.float x)
  | same {v : Value} (hdecimal : ∀ d, v ≠ .decimal d)
      (h : ∀ plain x, v.plainText? = some plain → ¬FloatText plain x) : CountsAs v v

/-- Whether a value is a decimal that cannot be compared with its whole part. -/
def Value.IsRefused : Value → Prop
  | .decimal (.infinite _) | .decimal (.notANumber _ true _) => True
  | _ => False

namespace Database

variable {v : Value}

theorem toWhole_decimal (negative : Bool) (coefficient : Nat) (exponent : Int) :
    (Value.decimal (.finite negative coefficient exponent)).toWhole =
      .ok (truncation (Decimal.value negative coefficient exponent)) := by
  have hread : (Value.decimal (.finite negative coefficient exponent)).toWhole =
      ((Decimal.finite negative coefficient exponent).fraction?.map Fraction.truncate).elim
        (.error .badValue) .ok := rfl
  rw [hread, Decimal.truncate_fraction?, Option.elim_some]

/-- A finite decimal becomes the equal whole number, or the nearest double if there is none. -/
theorem counts_decimal (negative : Bool) (coefficient : Nat) (exponent : Int) :
    ∃ w, aggregateNumber (.decimal (.finite negative coefficient exponent)) = .ok w ∧
      Value.CountsAs (.decimal (.finite negative coefficient exponent)) w := by
  have hiff := Decimal.isWhole_iff negative coefficient exponent
  have hread : aggregateNumber (.decimal (.finite negative coefficient exponent)) =
      if (Decimal.finite negative coefficient exponent).isWhole then
        (Value.decimal (.finite negative coefficient exponent)).toWhole.map Value.int
      else .ok (.float (.ofDecimal negative coefficient exponent)) := rfl
  by_cases hwhole : (Decimal.finite negative coefficient exponent).isWhole = true
  · obtain ⟨i, hi⟩ := hiff.mp hwhole
    refine ⟨.int i, ?_, .wholeDecimal hi⟩
    rw [hread, if_pos hwhole, toWhole_decimal, hi, truncation_intCast]
    rfl
  · refine ⟨_, hread.trans (if_neg hwhole), .decimal (fun i hi => hwhole (hiff.mpr ⟨i, hi⟩)) ?_⟩
    exact roundsTo_ofDecimal negative coefficient exponent

theorem aggregateNumber_of_whole {i : Int} (hwritten : v.IsWritten) (h : v.toWhole = .ok i) :
    aggregateNumber v = .ok (.int i) := by
  obtain ⟨s, rfl⟩ | ⟨o, rfl⟩ := hwritten <;> simp only [aggregateNumber, h]

theorem aggregateNumber_of_float {x : Binary64} {fault : Fault} (hwritten : v.IsWritten)
    (hwhole : v.toWhole = .error fault) (h : v.toBinary64 = .ok x) :
    aggregateNumber v = .ok (.float x) := by
  obtain ⟨s, rfl⟩ | ⟨o, rfl⟩ := hwritten <;> simp only [aggregateNumber, hwhole, h]

theorem aggregateNumber_of_unread {fault fault' : Fault} (hwritten : v.IsWritten)
    (hwhole : v.toWhole = .error fault) (h : v.toBinary64 = .error fault') :
    aggregateNumber v = .ok v := by
  obtain ⟨s, rfl⟩ | ⟨o, rfl⟩ := hwritten <;> simp only [aggregateNumber, hwhole, h]

/-- What is written becomes a whole number if it is read as one, otherwise a double if it is read as
one, and otherwise it stays. -/
theorem counts_written (hwritten : v.IsWritten) :
    ∃ w, aggregateNumber v = .ok w ∧ Value.CountsAs v w := by
  have hdecimal : ∀ d, v ≠ .decimal d := by
    rintro d rfl
    obtain ⟨s, hs⟩ | ⟨o, ho⟩ := hwritten
    · cases hs
    · cases ho
  cases hwhole : v.toWhole with
  | ok i =>
      obtain ⟨plain, negative, count, n, hplain, htext, hlimit, rfl⟩ :=
        (Value.toWhole_eq_ok_iff hwritten).mp hwhole
      exact ⟨_, aggregateNumber_of_whole hwritten hwhole, .wholeText hplain htext hlimit⟩
  | error fault =>
      have hnot : ∀ plain, v.plainText? = some plain → ¬IsWholeText plain := by
        rintro plain hplain ⟨negative, count, n, htext, hlimit⟩
        rw [(Value.toWhole_eq_ok_iff hwritten).mpr ⟨_, _, _, _, hplain, htext, hlimit, rfl⟩] at hwhole
        cases hwhole
      cases hfloat : v.toBinary64 with
      | ok x =>
          have hread := aggregateNumber_of_float hwritten hwhole hfloat
          obtain ⟨plain, hplain, htext⟩ := (Value.toBinary64_eq_ok_iff hwritten).mp hfloat
          cases htext with
          | word h => exact ⟨_, hread, .word hplain h⟩
          | number h =>
              exact ⟨_, hread, .numberText hplain h (hnot plain hplain) (roundsTo_ofDecimal _ _ _)⟩
      | error fault' =>
          refine ⟨v, aggregateNumber_of_unread hwritten hwhole hfloat,
            .same hdecimal fun plain x hplain htext => ?_⟩
          rw [(Value.toBinary64_eq_ok_iff hwritten).mpr ⟨plain, hplain, htext⟩] at hfloat
          cases hfloat

/-- A cell that is not refused becomes what it counts as. -/
theorem exists_counts (h : ¬v.IsRefused) :
    ∃ w, aggregateNumber v = .ok w ∧ Value.CountsAs v w := by
  have hsame : (∀ d, v ≠ .decimal d) → v.plainText? = none → aggregateNumber v = .ok v →
      ∃ w, aggregateNumber v = .ok w ∧ Value.CountsAs v w := by
    intro hdecimal hplain hv
    refine ⟨v, hv, .same hdecimal fun plain x hsome => ?_⟩
    rw [hplain] at hsome
    cases hsome
  cases v with
  | decimal d =>
      cases d with
      | finite negative coefficient exponent => exact counts_decimal negative coefficient exponent
      | infinite negative => exact absurd trivial h
      | notANumber negative signalling payload =>
          cases signalling with
          | false => exact ⟨_, rfl, .notANumber negative payload⟩
          | true => exact absurd trivial h
  | str s => exact counts_written (.inl ⟨s, rfl⟩)
  | bytes o => exact counts_written (.inr ⟨o, rfl⟩)
  | _ => exact hsame nofun rfl rfl

variable {σ τ : Type}

/-- An aggregate whose statement is answered. Its first cell, or null if there is none, becomes what it
counts as, and the state is left as the execution of the statement leaves it. An infinite decimal and a
signalling one are refused. -/
theorem aggregate_counts_first_cell (db : Database σ τ) (function table column wheres join : Value)
    {s : DatabaseState σ τ} {c : Compiled} {n : Nat} {r : ExecutionResult}
    (hcompile : Statement.run (Statement.aggregate db.target function table column wheres join)
      s.next = (.ok c, n))
    (hanswer : db.Answers s c.text c.paramsDict r) :
    let ended := (ExceptT.run (db.aggregate function table column wheres join)).run s
    (∃ journal, (ExceptT.run (db.executeCompiled c)).run { s with next := n, journal } =
      (.ok (.result r), ended.2)) ∧
    (¬(firstValue r).IsRefused → ∃ w, ended.1 = .ok (.value w) ∧ Value.CountsAs (firstValue r) w) ∧
    (∀ negative, firstValue r = .decimal (.infinite negative) → ended.1 = .error .overflow) ∧
    ∀ negative payload, firstValue r = .decimal (.notANumber negative true payload) →
      ended.1 = .error .invalidOperation := by
  intro ended
  obtain ⟨journal, hcompiled⟩ := compile_run_ok hcompile
  obtain ⟨t, hexecuted⟩ := executeCompiled_run (s := { s with next := n, journal }) hanswer
  have hended : ended = ((aggregateNumber (firstValue r)).map Reply.value, t) := by
    simp only [ended, aggregate]
    rw [run_bind_ok hcompiled, run_bind_ok hexecuted, replyWith]
    cases aggregateNumber (firstValue r) <;> rfl
  rw [hended]
  refine ⟨⟨journal, hexecuted⟩, fun hrefused => ?_, fun negative hinfinite => ?_,
    fun negative payload hsignalling => ?_⟩
  · obtain ⟨w, hw, hcounts⟩ := exists_counts hrefused
    exact ⟨w, by rw [hw]; rfl, hcounts⟩
  · rw [hinfinite]
    rfl
  · rw [hsignalling]
    rfl

/-- A sum that a driver gives as a text. -/
theorem aggregate_counts_first_cell_of_text :
    let row : Row := [(.str "s", .str " 12 ")]
    let db : Database Unit Unit :=
      ⟨⟨"sqlite", "", false, 1000⟩, .sqlite, some (holdingOne row), Json.usualNesting⟩
    let s : DatabaseState Unit Unit := Database.start () ()
    let r : ExecutionResult := ⟨[row], .int 1, .null⟩
    ∃ c n, Statement.run (Statement.aggregate db.target (.str "SUM") (.str "t") (.str "x") .null .null)
        s.next = (.ok c, n) ∧ db.Answers s c.text c.paramsDict r ∧ ¬(firstValue r).IsRefused ∧
      ((ExceptT.run (db.aggregate (.str "SUM") (.str "t") (.str "x") .null .null)).run s).1 =
        .ok (.value (.int 12)) ∧ Value.CountsAs (.str " 12 ") (.int 12) := by
  intro row db s r
  obtain ⟨c, n, hcompile⟩ : ∃ c n, Statement.run
      (Statement.aggregate db.target (.str "SUM") (.str "t") (.str "x") .null .null) s.next =
        (.ok c, n) := ⟨_, _, rfl⟩
  have hanswer : db.Answers s c.text c.paramsDict r := ⟨rfl, holdingOne row, _, rfl, rfl⟩
  have hrefused : ¬(firstValue r).IsRefused := id
  obtain ⟨-, hcounts, -⟩ := aggregate_counts_first_cell db _ _ _ _ _ hcompile hanswer
  obtain ⟨w, hw, hcount⟩ := hcounts hrefused
  have hended : ((ExceptT.run (db.aggregate (.str "SUM") (.str "t") (.str "x") .null .null)).run s).1 =
      .ok (.value (.int 12)) := rfl
  obtain rfl := Reply.value.inj (Except.ok.inj (hw.symm.trans hended))
  exact ⟨c, n, hcompile, hanswer, hrefused, hended, hcount⟩

/-- A sum that is infinite is not given at all. -/
theorem infinite_sum_is_refused :
    let row : Row := [(.str "s", .decimal (.infinite false))]
    let db : Database Unit Unit :=
      ⟨⟨"sqlite", "", false, 1000⟩, .sqlite, some (holdingOne row), Json.usualNesting⟩
    let s : DatabaseState Unit Unit := Database.start () ()
    ((ExceptT.run (db.aggregate (.str "SUM") (.str "t") (.str "x") .null .null)).run s).1 =
      .error .overflow := by
  rfl

end Database

end QueryLoom
