import Mathlib.Tactic.Common
import QueryLoom.Key.Condition

/-!
Formulas of the three-valued logic of SQL. Groups hold any number of members under one connective, as
conditions do; what the atoms are is left open.
-/

namespace QueryLoom

/-- The truth values of SQL: a comparison with null is unknown. -/
inductive Truth
  | no | unknown | yes
deriving DecidableEq, Repr

namespace Truth

def not : Truth → Truth
  | .no => .yes
  | .unknown => .unknown
  | .yes => .no

/-- False if either is false, and true if both are true. -/
def and : Truth → Truth → Truth
  | .no, _ | _, .no => .no
  | .yes, .yes => .yes
  | _, _ => .unknown

/-- True if either is true, and false if both are false. -/
def or : Truth → Truth → Truth
  | .yes, _ | _, .yes => .yes
  | .no, .no => .no
  | _, _ => .unknown

end Truth

namespace Connective

/-- Two truth values under a connective. -/
def apply : Connective → Truth → Truth → Truth
  | .and => Truth.and
  | .or => Truth.or

/-- The truth value that changes nothing under a connective. -/
def unit : Connective → Truth
  | .and => .yes
  | .or => .no

end Connective

/-- A formula over atoms. -/
inductive Formula (α : Type)
  | atom (a : α)
  | not (f : Formula α)
  | group (c : Connective) (members : List (Formula α))

namespace Formula

variable {α β : Type}

mutual

/-- The truth value for truth values of the atoms. -/
def eval (ρ : α → Truth) : Formula α → Truth
  | .atom a => ρ a
  | .not f => (eval ρ f).not
  | .group c members => evalAll ρ c members
termination_by structural f => f

/-- The truth value of formulas under a connective. -/
def evalAll (ρ : α → Truth) (c : Connective) : List (Formula α) → Truth
  | [] => c.unit
  | f :: rest => c.apply (eval ρ f) (evalAll ρ c rest)
termination_by structural fs => fs

end

mutual

/-- The formula with other atoms in the same places. -/
def map (g : α → β) : Formula α → Formula β
  | .atom a => .atom (g a)
  | .not f => .not (map g f)
  | .group c members => .group c (mapAll g members)
termination_by structural f => f

def mapAll (g : α → β) : List (Formula α) → List (Formula β)
  | [] => []
  | f :: rest => map g f :: mapAll g rest
termination_by structural fs => fs

end

mutual

/-- The atoms from left to right. -/
def atoms : Formula α → List α
  | .atom a => [a]
  | .not f => atoms f
  | .group _ members => atomsAll members
termination_by structural f => f

def atomsAll : List (Formula α) → List α
  | [] => []
  | f :: rest => atoms f ++ atomsAll rest
termination_by structural fs => fs

end

mutual

/-- Whether every group has a member. -/
def populated : Formula α → Bool
  | .atom _ => true
  | .not f => populated f
  | .group _ members => !members.isEmpty && populatedAll members
termination_by structural f => f

def populatedAll : List (Formula α) → Bool
  | [] => true
  | f :: rest => populated f && populatedAll rest
termination_by structural fs => fs

end

/-- Formulas under a connective; a single formula stands for itself. -/
def all (c : Connective) : List (Formula α) → Formula α
  | [f] => f
  | fs => .group c fs

theorem mapAll_eq (g : α → β) (fs : List (Formula α)) : mapAll g fs = fs.map (map g) := by
  induction fs with
  | nil => rfl
  | cons f rest ih => rw [mapAll, ih, List.map_cons]

theorem atomsAll_eq (fs : List (Formula α)) : atomsAll fs = fs.flatMap atoms := by
  induction fs with
  | nil => rfl
  | cons f rest ih => rw [atomsAll, ih, List.flatMap_cons]

theorem populatedAll_eq (fs : List (Formula α)) : populatedAll fs = fs.all populated := by
  induction fs with
  | nil => rfl
  | cons f rest ih => rw [populatedAll, ih, List.all_cons]

/-- A formula with other atoms has the truth value that the formula has for them. -/
theorem eval_map (g : α → β) (ρ : β → Truth) :
    (∀ f : Formula α, (f.map g).eval ρ = f.eval fun a => ρ (g a)) ∧
      ∀ fs : List (Formula α), ∀ c, evalAll ρ c (mapAll g fs) = evalAll (fun a => ρ (g a)) c fs := by
  apply map.mutual_induct
  · intro a
    rfl
  · intro f ih
    rw [map, eval, eval, ih]
  · intro c members ih
    exact ih c
  · intro c
    rfl
  · intro f rest ih ihrest c
    rw [mapAll, evalAll, evalAll, ih, ihrest]

theorem map_all (g : α → β) (c : Connective) (fs : List (Formula α)) :
    (all c fs).map g = all c (fs.map (map g)) := by
  match fs with
  | [] => rfl
  | [f] => rfl
  | f :: f' :: rest =>
      change group c (mapAll g (f :: f' :: rest)) = group c ((f :: f' :: rest).map (map g))
      rw [mapAll_eq]

theorem atoms_all (c : Connective) (fs : List (Formula α)) :
    (all c fs).atoms = fs.flatMap atoms := by
  match fs with
  | [] => rfl
  | [f] => simp [all]
  | f :: f' :: rest =>
      change atomsAll (f :: f' :: rest) = _
      rw [atomsAll_eq]

theorem populated_all {c : Connective} {fs : List (Formula α)} (hne : fs ≠ [])
    (h : ∀ f ∈ fs, f.populated = true) : (all c fs).populated = true := by
  unfold all
  split
  · exact h _ (by simp)
  · rw [populated, populatedAll_eq, Bool.and_eq_true, List.all_eq_true]
    refine ⟨?_, h⟩
    rwa [Bool.not_eq_true', List.isEmpty_eq_false_iff]

end Formula

end QueryLoom
