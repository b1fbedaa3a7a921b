import Mathlib.Data.List.Induction
import QueryLoom.Proofs.Bindings.Statements
import QueryLoom.Proofs.Renumbering.History
import QueryLoom.Proofs.Values.Equality

/-!
Names that are bound twice. The counter gives a name to every value, raw values bring names of their
own, and one may be the other, whichever comes first. The bindings of a call are consistent if no
name stands for unequal values. A call whose bindings are consistent keeps all of them; a call whose
bindings are not is refused for the name, if nothing else refuses it before.
-/

namespace QueryLoom

open Parameters (generated)

/-! Names for what is supplied. -/

namespace Supply

/-- The bindings for what is supplied, when the counter stands at a number. -/
def named (next : Nat) : List Supply → List (String × Value)
  | [] => []
  | .value v :: rest => (generated next, v) :: named (next + 1) rest
  | .entry key v :: rest => (Compile.parameterName key, v) :: named next rest

end Supply

/-- A value is the one that was bound, or equals it. -/
def Value.StandsFor (w v : Value) : Prop := w = v ∨ v.equal? w = some true

/-- No name is bound to unequal values. -/
def Consistent (bindings : List (String × Value)) : Prop :=
  bindings.Pairwise fun a b => a.1 = b.1 → a.2.equal? b.2 = some true

/-! Maps that were written entry by entry. -/

namespace Assoc

variable {ν : Type} {name other : String} {v w : ν} {entries made : List (String × ν)}

theorem get?_insert (name other : String) (v : ν) (entries : List (String × ν)) :
    get? other (insert name v entries) = if name = other then some v else get? other entries := by
  rw [(plain_string other).get?_insert]
  simp only [beq_iff_eq]

theorem merge_concat (made : List (String × ν)) (name : String) (v : ν) :
    merge [] (made ++ [(name, v)]) = insert name v (merge [] made) := by
  simp [merge]

/-- What is found under a name is what was written there last. -/
theorem last_of_get? (h : get? name (merge [] made) = some w) :
    ∃ before after, made = before ++ (name, w) :: after ∧ ∀ entry ∈ after, entry.1 ≠ name := by
  induction made using List.reverseRecOn with
  | nil => cases h
  | append_singleton made entry ih =>
      obtain ⟨k, x⟩ := entry
      rw [merge_concat, get?_insert] at h
      split_ifs at h with hk
      · cases h
        subst hk
        exact ⟨made, [], rfl, by simp⟩
      · obtain ⟨before, after, rfl, hafter⟩ := ih h
        refine ⟨before, after ++ [(k, x)], by simp, ?_⟩
        intro other hother
        rcases List.mem_append.mp hother with hold | hnew
        · exact hafter other hold
        · rw [List.mem_singleton.mp hnew]
          exact hk

end Assoc

/-! Consistent bindings. -/

section Consistency

variable {made : List (String × Value)} {name : String} {v w : Value}

/-- Of consistent bindings, each is stood for by what is found under its name. -/
theorem Consistent.standsFor (h : Consistent made) (hv : (name, v) ∈ made)
    (hw : Assoc.get? name (Assoc.merge [] made) = some w) : w.StandsFor v := by
  obtain ⟨before, after, rfl, hafter⟩ := Assoc.last_of_get? hw
  have hpairs := List.pairwise_append.mp h
  rcases List.mem_append.mp hv with hbefore | hrest
  · exact .inr (hpairs.2.2 _ hbefore _ List.mem_cons_self rfl)
  · rcases List.mem_cons.mp hrest with heq | hlater
    · cases heq
      exact .inl rfl
    · exact absurd rfl (hafter _ hlater)

/-- What stands for a value that holds no others is stood for by what equals it. -/
theorem Value.StandsFor.trans {x : Value} (hv : v.isFlat = true) (h : w.StandsFor v)
    (hequal : w.equal? x = some true) : x.StandsFor v := by
  rcases h with rfl | hw
  · exact .inr hequal
  · rw [equal?_of_isFlat hv] at hw
    rw [equal?_of_isFlat (isFlat_of_equalLeaf? hw).2] at hequal
    refine .inr ?_
    rw [equal?_of_isFlat hv]
    exact equalLeaf?_trans hw hequal

end Consistency

/-! Bindings that are made one after the other. -/

namespace Compile

open Supply (named)

variable {xs : List Supply} {s u : Parameters} {fault : Fault}

/-- How one binding ends: it is written, or what stands under the name does not equal it. -/
inductive Bound (s : Parameters) (name : String) (v : Value) :
    Except Fault Unit × Parameters → Prop
  | written (h : ∀ w, Assoc.get? name s.bound = some w → w.equal? v = some true) :
      Bound s name v (.ok (), { s with bound := Assoc.insert name v s.bound })
  | unequal {w : Value} (hw : Assoc.get? name s.bound = some w) (h : w.equal? v = some false) :
      Bound s name v (.error (.showing w (.showing v (.duplicateParameter name w v))), s)
  | incomparable {w : Value} (hw : Assoc.get? name s.bound = some w) (h : w.equal? v = none) :
      Bound s name v (.error .invalidOperation, s)

theorem bound_bindName (s : Parameters) (name : String) (v : Value) :
    Bound s name v ((ExceptT.run (bindName name v)).run s) := by
  rw [Renumbering.run_bindName]
  cases hget : Assoc.get? name s.bound with
  | none => exact .written (by simp [hget])
  | some w =>
      dsimp only
      rcases hequal : w.equal? v with _ | _ | _
      · exact .incomparable hget hequal
      · exact .unequal hget hequal
      · refine .written fun x hx => ?_
        rw [hget] at hx
        cases hx
        exact hequal

/-- A binding under any name leaves a value that stands for the one bound before. -/
theorem standsFor_bindName {name other : String} {v w x : Value} {y : Unit}
    (h : (bindName other x).Yields s y u) (hv : v.isFlat = true)
    (hget : Assoc.get? name s.bound = some w) (hw : w.StandsFor v) :
    ∃ w, Assoc.get? name u.bound = some w ∧ w.StandsFor v := by
  have hbound := bound_bindName s other x
  rw [h.run] at hbound
  cases hbound with
  | written hfound =>
      rw [Assoc.get?_insert]
      split_ifs with hname
      · subst hname
        exact ⟨x, rfl, hw.trans hv (hfound w hget)⟩
      · exact ⟨w, hget, hw⟩

theorem standsFor_supply {name : String} {v w : Value} {y : Unit} (h : (supply xs).Yields s y u)
    (hv : v.isFlat = true) (hget : Assoc.get? name s.bound = some w) (hw : w.StandsFor v) :
    ∃ w, Assoc.get? name u.bound = some w ∧ w.StandsFor v := by
  induction xs generalizing s w with
  | nil =>
      rw [supply, yields_pure] at h
      exact ⟨w, by rw [h.2]; exact hget, hw⟩
  | cons first rest ih =>
      cases first with
      | value x =>
          simp only [supply, addValue, yields_bind, yields_get, yields_set, yields_pure] at h
          obtain ⟨_, _, ⟨_, _, ⟨rfl, rfl⟩, _, _, rfl, _, _, hbind, rfl, rfl⟩, hrest⟩ := h
          obtain ⟨w', hget', hw'⟩ := standsFor_bindName hbind hv hget hw
          exact ih hrest hget' hw'
      | entry key x =>
          simp only [supply, yields_bind] at h
          obtain ⟨_, _, hbind, hrest⟩ := h
          obtain ⟨w', hget', hw'⟩ := standsFor_bindName hbind hv hget hw
          exact ih hrest hget' hw'

/-- A step that binds what its input asks for leaves a value that stands for the one bound before. -/
theorem Makes.standsFor {α : Type} {m : Compile α} {a : α} {name : String} {v w : Value}
    (h : Makes m xs) (hm : m.Yields s a u) (hv : v.isFlat = true)
    (hget : Assoc.get? name s.bound = some w) (hw : w.StandsFor v) :
    ∃ w, Assoc.get? name u.bound = some w ∧ w.StandsFor v :=
  standsFor_supply (h.yields hm) hv hget hw

/-- How bindings end that are made one after the other, in a state that holds consistent ones: all
are made, or one of them is not, and why. -/
inductive Supplied (made : List (String × Value)) (bindings : List (String × Value)) :
    Except Fault Unit × Parameters → Prop
  | made {u : Parameters} (hbound : u.bound = Assoc.merge [] (made ++ bindings))
      (h : Consistent (made ++ bindings)) : Supplied made bindings (.ok (), u)
  | unequal {u : Parameters} {name : String} {v w : Value} {done : List (String × Value)}
      (hdone : done ++ [(name, v)] <+: bindings)
      (hbound : u.bound = Assoc.merge [] (made ++ done)) (h : Consistent (made ++ done))
      (hw : Assoc.get? name u.bound = some w) (hequal : w.equal? v = some false) :
      Supplied made bindings
        (.error (.showing w (.showing v (.duplicateParameter name w v))), u)
  | incomparable {u : Parameters} {name : String} {v w : Value} {done : List (String × Value)}
      (hdone : done ++ [(name, v)] <+: bindings)
      (hbound : u.bound = Assoc.merge [] (made ++ done)) (h : Consistent (made ++ done))
      (hw : Assoc.get? name u.bound = some w) (hequal : w.equal? v = none) :
      Supplied made bindings (.error .invalidOperation, u)

variable {made bindings : List (String × Value)} {name : String} {v : Value}

/-- A binding that was made before the others. -/
theorem Supplied.cons {r : Except Fault Unit × Parameters}
    (h : Supplied (made ++ [(name, v)]) bindings r) : Supplied made ((name, v) :: bindings) r := by
  have hassoc : ∀ more : List (String × Value),
      made ++ [(name, v)] ++ more = made ++ (name, v) :: more := by simp
  cases h with
  | made hbound h =>
      rw [hassoc] at hbound h
      exact .made hbound h
  | unequal hdone hbound h hw hequal =>
      rw [hassoc] at hbound h
      exact .unequal ((List.prefix_cons_inj _).mpr hdone) hbound h hw hequal
  | incomparable hdone hbound h hw hequal =>
      rw [hassoc] at hbound h
      exact .incomparable ((List.prefix_cons_inj _).mpr hdone) hbound h hw hequal

end Compile

namespace Verb

open Compile

variable {t : Target} {verb : Verb} {args : List Value} {next : Nat}

/-- All that a call binds, with the names, when the counter stands at a number: each value that
takes a generated name, and each entry of the map of each raw value. -/
def bindings (t : Target) (verb : Verb) (args : List Value) (next : Nat) :
    List (String × Value) :=
  Supply.named next (verb.supplies t args)

/-- A call that compiles is finished with all that is bound. -/
theorem params_of_yields {c : Compiled} {s u : Parameters}
    (h : (verb.compile t args).Yields s c u) : c.params = u.bound := by
  simp only [compile, yields_bind] at h
  obtain ⟨values, w, _, hcompile⟩ := h
  exact Statement.finishes_compileWith verb values w c u hcompile

end Verb

end QueryLoom
