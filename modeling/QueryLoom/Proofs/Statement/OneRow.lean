import QueryLoom.Proofs.Renumbering.Limits

/-!
The selection of one row next to a selection with a limit of one. The first is compiled without a limit
and gets its limit behind the whole statement, the second writes it as its last clause. From each state
they are refused with the same fault, or are the same statement.
-/

namespace QueryLoom

open Compile

namespace Compile

/-- A step next to itself, with what its results have in common. -/
theorem SideBySide.self {α : Type} {P : α → Prop} {m : Compile α}
    (h : ∀ s a u, m.Yields s a u → P a) : SideBySide (fun a b => a = b ∧ P a) m m := by
  intro s
  rcases hrun : (ExceptT.run m).run s with ⟨f | a, u⟩
  · exact ⟨_, _, u, rfl, rfl, .inl ⟨f, rfl, rfl⟩⟩
  · exact ⟨_, _, u, rfl, rfl, .inr ⟨a, a, rfl, rfl, rfl, h s a u ⟨hrun⟩⟩⟩

end Compile

namespace Tail

variable {t : Target} {entries : Dict}

/-- A clause that is present has a text. -/
theorem texts_whenTruthy {v : Value} {keyword : String} {body : Value → Compile Sql}
    {s u : Parameters} {rows : List Sql} (hkeyword : keyword ≠ "")
    (h : (whenTruthy v keyword body).Yields s rows u) : ∀ row ∈ rows, row.text ≠ "" := by
  unfold whenTruthy at h
  split_ifs at h
  · simp only [yields_bind, yields_pure] at h
    obtain ⟨sql, _, _, rfl, _⟩ := h
    exact List.forall_mem_singleton.mpr (Sql.text_ne_empty hkeyword sql)
  · rw [yields_pure] at h
    obtain ⟨rfl, _⟩ := h
    exact List.forall_mem_nil _

/-- The limit of one row, as it is put behind a statement. -/
def limitOne : Sql := [.text " ", .text "LIMIT 1"]

/-- The second tail is the first with a limit of one row behind it. -/
def LimitedToOne (tail limited : Sql) : Prop :=
  ∀ sql, Statement.append sql limited = Statement.append sql tail ++ limitOne

/-- A tail without its limit, next to the tail with a limit of one row. -/
theorem compile_limitedToOne (hlimit : Dict.getD entries limitKey = .int 1) :
    SideBySide LimitedToOne (compile t (Statement.withoutLimit (.dict entries)))
      (compile t (.dict entries)) := by
  have hclauses : ∀ key, key ≠ limitKey →
      Dict.getD (Assoc.erase (.str limitKey) entries) key = Dict.getD entries key := by
    intro key hkey
    rw [Dict.getD_erase, if_neg (Ne.symm hkey)]
  have hnone : Dict.getD (Assoc.erase (.str limitKey) entries) limitKey = .null := by
    rw [Dict.getD_erase, if_pos rfl]
  change SideBySide LimitedToOne (compile t (.dict (Assoc.erase (.str limitKey) entries))) _
  unfold compile
  dsimp only
  rw [conditionEntries_erase (by decide), hclauses groupKey (by decide),
    hclauses havingKey (by decide), hclauses orderKey (by decide), hnone, hlimit]
  refine (SideBySide.self fun _ _ _ => texts_whenTruthy (by decide)).bind fun filter _ hfilter => ?_
  obtain ⟨rfl, hfilter⟩ := hfilter
  refine (SideBySide.self fun _ _ _ => texts_whenTruthy (by decide)).bind fun group _ hgroup => ?_
  obtain ⟨rfl, hgroup⟩ := hgroup
  refine (SideBySide.self fun _ _ _ => texts_whenTruthy (by decide)).bind fun having _ hhaving => ?_
  obtain ⟨rfl, hhaving⟩ := hhaving
  refine (SideBySide.self fun _ _ _ => texts_whenTruthy (by decide)).bind fun order _ horder => ?_
  obtain ⟨rfl, horder⟩ := horder
  have htexts : ∀ row ∈ filter ++ group ++ having ++ order, row.text ≠ "" := by
    simp only [List.forall_mem_append]
    exact ⟨⟨⟨hfilter, hgroup⟩, hhaving⟩, horder⟩
  have hpure : SideBySide LimitedToOne
      (pure (Sql.join " " (filter ++ group ++ having ++ order ++ [])))
      (pure (Sql.join " " (filter ++ group ++ having ++ order ++ [[.text "LIMIT 1"]]))) := by
    refine .pure fun sql => ?_
    rw [List.append_nil]
    exact Statement.append_concat htexts (Sql.text_ne_empty (by decide) [])
  exact hpure

end Tail

/-- Two compiled statements with one text, the same parameters and the same shape of their rows. -/
structure Compiled.Same (c d : Compiled) : Prop where
  text : c.text = d.text
  params : c.params = d.params
  columns : c.columns = d.columns

namespace Statement

variable {t : Target} {table columns wheres join : Value}

theorem selectFrom_limitedToOne {head : Sql} {others : Value}
    (h : SideBySide Tail.LimitedToOne (Tail.compile t wheres) (Tail.compile t others)) :
    SideBySide (fun sql limited => limited = sql ++ Tail.limitOne)
      (selectFrom t head table wheres join) (selectFrom t head table others join) := by
  rw [selectFrom_eq, selectFrom_eq]
  refine .bind_same fun ref => .bind_same fun tableSql => .bind_same fun sql => ?_
  exact h.bind fun _ _ hlimited => .pure (hlimited sql)

/-- The text of a limit behind a statement. -/
theorem text_limitedToOne (sql : Sql) :
    Sql.text (sql ++ [.text " LIMIT 1"]) = Sql.text (sql ++ Tail.limitOne) := by
  apply String.toList_injective
  rw [Sql.text_append, Sql.text_append]
  rfl

theorem compile_withoutLimit (h : IsWheres wheres) :
    Tail.compile t (withoutLimit wheres) =
      Tail.compile t (withoutLimit (withLimit (.int 1) wheres)) := by
  rw [withoutLimit_withLimit]
  obtain rfl | ⟨entries, rfl⟩ := h
  · exact Tail.compile_nil.symm
  · rfl

/-- The selection of one row is the selection with its limit replaced by one. -/
theorem get_sideBySide (h : IsWheres wheres) :
    SideBySide Compiled.Same (get t table columns wheres join)
      (select t table columns (withLimit (.int 1) wheres) join) := by
  have htail : SideBySide Tail.LimitedToOne (Tail.compile t (withoutLimit wheres))
      (Tail.compile t (withLimit (.int 1) wheres)) := by
    rw [compile_withoutLimit h]
    exact Tail.compile_limitedToOne (limitOf_withLimit (.int 1) wheres)
  unfold get select
  simp only [bind_assoc]
  refine .bind_same fun tree => .bind_same fun projection => ?_
  refine (selectFrom_limitedToOne htail).bind fun sql _ hlimited => ?_
  subst hlimited
  intro s
  refine ⟨_, _, s, rfl, rfl, .inr ⟨_, _, rfl, rfl, ?_, rfl, rfl⟩⟩
  exact text_limitedToOne sql

end Statement

end QueryLoom
