import Mathlib.Tactic.Common
import QueryLoom.Result.Shape

/-!
How steps of mapping end. A step may add notes to the journal, but how it ends does not depend on the
notes that stand there already: mapping a row gives the same value or the same fault wherever the row
stands in a result.
-/

namespace QueryLoom

/-- The step ends in a value or a fault whatever the journal holds before it. -/
def Mapping.EndsIn {α : Type} (m : Mapping α) (r : Except Fault α) : Prop :=
  ∀ journal, ((ExceptT.run m).run journal).1 = r

namespace Mapping

variable {α β : Type} {m : Mapping α} {r : Except Fault α}

theorem EndsIn.run (h : m.EndsIn r) : (Shape.run m).1 = r := h []

theorem EndsIn.pure (a : α) : EndsIn (Pure.pure a : Mapping α) (.ok a) := fun _ => rfl

theorem EndsIn.throw (f : Fault) : EndsIn (MonadExcept.throw f : Mapping α) (.error f) :=
  fun _ => rfl

theorem EndsIn.bind {k : α → Mapping β} {l : α → Except Fault β} (h : m.EndsIn r)
    (hk : ∀ a, r = .ok a → (k a).EndsIn (l a)) : (m >>= k).EndsIn (r >>= l) := by
  intro journal
  have hm := h journal
  rw [ExceptT.run_bind, StateT.run_bind]
  rcases hrun : (ExceptT.run m).run journal with ⟨_ | a, after⟩
  · rw [hrun] at hm
    subst hm
    rfl
  · rw [hrun] at hm
    subst hm
    exact hk a rfl after

/-- Goes on from a step that succeeds. -/
theorem EndsIn.bind_ok {k : α → Mapping β} {a : α} {r : Except Fault β} (h : m.EndsIn (.ok a))
    (hk : (k a).EndsIn r) : (m >>= k).EndsIn r :=
  EndsIn.bind (l := fun _ => r) h fun b hb => by
    cases hb
    exact hk

/-- Stops at a step that fails. -/
theorem EndsIn.bind_error {k : α → Mapping β} {fault : Fault} (h : m.EndsIn (.error fault)) :
    (m >>= k).EndsIn (.error fault) :=
  EndsIn.bind (l := fun _ => .error fault) h fun a ha => by cases ha

theorem EndsIn.map {f : α → β} (h : m.EndsIn r) :
    EndsIn (do return f (← m)) (r.map f) := by
  have hbind := h.bind (k := fun a => Pure.pure (f a)) fun a _ => EndsIn.pure (f a)
  cases r <;> exact hbind

/-- What follows a step matters for the values that the step can end in. -/
theorem EndsIn.bind_congr {k l : α → Mapping β} (h : m.EndsIn r) (hk : ∀ a, r = .ok a → k a = l a) :
    m >>= k = m >>= l := by
  apply ExceptT.ext
  apply StateT.ext
  intro journal
  have hm := h journal
  rw [ExceptT.run_bind, ExceptT.run_bind, StateT.run_bind, StateT.run_bind]
  rcases hrun : (ExceptT.run m).run journal with ⟨_ | a, after⟩
  · rfl
  · rw [hrun] at hm
    change (ExceptT.run (k a)).run after = (ExceptT.run (l a)).run after
    rw [hk a hm.symm]

/-- Steps that are taken for each item of a list end as the items do, up to the first fault. -/
theorem endsIn_mapM {f : α → Mapping β} {g : α → Except Fault β} (h : ∀ a, (f a).EndsIn (g a))
    (items : List α) : (items.mapM f).EndsIn (items.mapM g) := by
  induction items with
  | nil => exact EndsIn.pure []
  | cons first rest ih =>
      rw [List.mapM_cons, List.mapM_cons]
      exact (h first).bind fun _ _ => ih.bind fun _ _ => EndsIn.pure _

/-- A step that ends in the same way whatever the journal holds before it. -/
def Decided (m : Mapping α) : Prop := m.EndsIn (Shape.run m).1

theorem EndsIn.decided (h : m.EndsIn r) : m.Decided := by
  rw [Decided, h.run]
  exact h

theorem Decided.bind {k : α → Mapping β} (h : m.Decided) (hk : ∀ a, (k a).Decided) :
    (m >>= k).Decided :=
  (EndsIn.bind h fun a _ => hk a).decided

theorem decided_pure (a : α) : Decided (Pure.pure a : Mapping α) := (EndsIn.pure a).decided

theorem decided_throw (f : Fault) : Decided (MonadExcept.throw f : Mapping α) :=
  (EndsIn.throw f).decided

theorem Decided.endsIn_ok {a : α} (hm : m.Decided) (h : (Shape.run m).1 = .ok a) : m.EndsIn (.ok a) := by
  rwa [Decided, h] at hm

theorem EndsIn.of_pure {a b : α} (h : EndsIn (Pure.pure a : Mapping α) (.ok b)) : b = a :=
  (Except.ok.inj (h [])).symm

/-- A sequence of steps that succeeds is a success of each. -/
theorem EndsIn.of_bind {k : α → Mapping β} {b : β} (hm : m.Decided) (hk : ∀ a, (k a).Decided)
    (h : (m >>= k).EndsIn (.ok b)) : ∃ a, m.EndsIn (.ok a) ∧ (k a).EndsIn (.ok b) := by
  cases hfirst : (Shape.run m).1 with
  | error fault =>
      rw [Decided, hfirst] at hm
      have hfault : (m >>= k).EndsIn (.error fault) := hm.bind_error
      exact absurd ((h []).symm.trans (hfault [])) (by simp)
  | ok a =>
      rw [Decided, hfirst] at hm
      have hends := hm.bind_ok (hk a)
      have hrun : (Shape.run (k a)).1 = .ok b := (hends []).symm.trans (h [])
      exact ⟨a, hm, (hk a).endsIn_ok hrun⟩

end Mapping

open Mapping

/-! Coercion. -/

variable {nesting : Nat}

namespace Coercion

theorem decided_report (note : Note) : Decided (report note) := fun _ => rfl

theorem decided_keep (v : Value) (type : ValueType) (column : String) :
    Decided (keep v type column) :=
  (decided_report _).bind fun _ => decided_pure v

theorem decided_toNumber (v : Value) (column : String) : Decided (toNumber v column) := by
  unfold toNumber
  split
  · exact decided_pure _
  · exact decided_throw _
  · exact decided_keep _ _ _

theorem decided_parsed (v : Value) (column : String) (parsed : Except Fault Value) :
    Decided (match parsed with
      | .ok result => (Pure.pure result : Mapping Value)
      | .error .tooDeep => throw .tooDeep
      | .error _ => do
          report ⟨.debug, .mapper, "Column '" ++ column ++
            "' holds invalid JSON; keeping the raw value"⟩
          return v) := by
  split
  · exact decided_pure _
  · exact decided_throw _
  · exact (decided_report _).bind fun _ => decided_pure v

theorem decided_toJson (v : Value) (column : String) : Decided (toJson nesting v column) := by
  unfold toJson
  cases v <;> exact (decided_pure _).bind (decided_parsed _ column)

theorem decided_coerce (type : ValueType) (column : String) (v : Value) :
    Decided (coerce nesting type column v) := by
  unfold coerce
  split
  · exact decided_pure _
  · exact decided_pure _
  · exact decided_pure _
  · split
    · exact decided_pure _
    · exact decided_keep _ _ _
  · exact decided_toNumber _ _
  · exact decided_toJson _ _
  · exact decided_toJson _ _

end Coercion

/-! Rows. -/

namespace Shape

theorem decided_readLabel (labels : ColumnLabels) (row : Row) (label : String) :
    Decided (readLabel nesting labels row label) :=
  Coercion.decided_coerce _ _ _

theorem decided_addNodes (nesting : Nat) (labels : ColumnLabels) (row : Dict) :
    (∀ (object : Dict) (n : ColumnNode), Decided (addNode nesting labels row object n)) ∧
      ∀ (object : Dict) (ns : List ColumnNode), Decided (addNodes nesting labels row object ns) := by
  apply addNode.mutual_induct
  · intro object key children ih
    exact ih.bind fun _ => decided_pure _
  · intro object ref sql parameters
    exact (decided_readLabel _ _ _).bind fun _ => decided_pure _
  · intro object ref hwildcard
    rw [addNode, if_pos hwildcard]
    exact decided_pure _
  · intro object ref hwildcard
    rw [addNode, if_neg hwildcard]
    exact (decided_readLabel _ _ _).bind fun _ => decided_pure _
  · intro object
    exact decided_pure object
  · intro object n rest ih ihrest
    exact ih.bind ihrest

theorem decided_mapRow (tree : ColumnTree) (row : Row) : Decided (mapRow nesting tree row) := by
  have hobject := (decided_addNodes nesting tree.labels row).2 []
  cases tree with
  | everything => exact decided_pure _
  | single ref => exact (hobject _).bind fun _ => decided_pure _
  | indexed key children => exact (hobject _).bind fun _ => decided_pure _
  | columns nodes => exact (hobject _).bind fun _ => decided_pure _

theorem decided_mapValue (tree : ColumnTree) (row : Row) : Decided (mapValue nesting tree row) := by
  unfold mapValue
  split
  · split
    · exact decided_readLabel _ _ _
    · exact decided_throw _
  · exact decided_throw _

theorem mapEach_eq (f : Row → Mapping Value) (rows : List Row) : mapEach f rows = rows.mapM f := by
  induction rows with
  | nil => rfl
  | cons row rest ih => rw [mapEach, List.mapM_cons, ih]

/-- Rows that are mapped one by one end as their mappings do, up to the first fault. -/
theorem endsIn_mapEach {f : Row → Mapping Value} (hf : ∀ row, Decided (f row)) (rows : List Row) :
    (mapEach f rows).EndsIn (rows.mapM fun row => (run (f row)).1) := by
  rw [mapEach_eq]
  exact endsIn_mapM hf rows

/-- Maps a row to an object together with the index value that it is found under. -/
def mapEntry (nesting : Nat) (tree : ColumnTree) (column : String) (row : Row) :
    Mapping (Value × Value) := do
  let object ← mapRow nesting tree row
  if (Dict.getD row column).isHashable then return (Dict.getD row column, object)
  else throw .wrongKind

/-- An object together with the index value that it is found under. -/
def indexEntry (nesting : Nat) (tree : ColumnTree) (column : String) (row : Row) :
    Except Fault (Value × Value) := do
  let object ← (run (mapRow nesting tree row)).1
  if (Dict.getD row column).isHashable then .ok (Dict.getD row column, object)
  else .error .wrongKind

theorem endsIn_mapEntry (tree : ColumnTree) (column : String) (row : Row) :
    (mapEntry nesting tree column row).EndsIn (indexEntry nesting tree column row) := by
  refine EndsIn.bind (decided_mapRow tree row) fun object _ => ?_
  split_ifs
  · exact EndsIn.pure _
  · exact EndsIn.throw _

/-- Indexed rows are written in order, each under its index value. -/
theorem mapIndexed_eq (tree : ColumnTree) (column : String) (found : Dict) (rows : List Row) :
    mapIndexed nesting tree column found rows =
      (do return Assoc.merge found (← rows.mapM (mapEntry nesting tree column))) := by
  induction rows generalizing found with
  | nil => rfl
  | cons row rest ih =>
      rw [mapIndexed, List.mapM_cons, mapEntry]
      simp only [bind_assoc]
      refine bind_congr fun object => ?_
      split_ifs
      · simp only [ih, pure_bind, Assoc.merge, List.foldl_cons]
      · rfl

/-- Indexed rows end as their entries do, which are written in order. -/
theorem endsIn_mapIndexed (tree : ColumnTree) (column : String) (found : Dict) (rows : List Row) :
    (mapIndexed nesting tree column found rows).EndsIn
      ((rows.mapM (indexEntry nesting tree column)).map (Assoc.merge found)) := by
  rw [mapIndexed_eq]
  exact (endsIn_mapM (endsIn_mapEntry tree column) rows).map

end Shape

end QueryLoom
