import Mathlib.Data.List.Forall2
import QueryLoom.Proofs.Meaning.Formula
import QueryLoom.Proofs.Meaning.Token

/-!
A parser of conditions with the precedence of SQL: NOT binds tighter than AND, and AND tighter than
OR; parentheses group. It is a machine that reads one token after the other and keeps the groups that
are open on a stack. Where an operand is expected, an opening parenthesis begins a group; any other
operand is an atom, which goes on up to the connective or the closing parenthesis behind it. Within an
atom parentheses are those of calls and lists, and the first AND behind BETWEEN belongs to it.
-/

namespace QueryLoom

/-- What a token is to the parser. -/
inductive Role
  | opening | closing | not | between | plain
  | joiner (c : Connective)
deriving DecidableEq, Repr

/-- Keywords count in any letter case. -/
def Token.role : Token → Role
  | .symbol c => if c = '(' then .opening else if c = ')' then .closing else .plain
  | .word cs =>
      let word := String.ofList (cs.map Char.toUpper)
      if word = "AND" then .joiner .and
      else if word = "OR" then .joiner .or
      else if word = "NOT" then .not
      else if word = "BETWEEN" then .between
      else .plain
  | _ => .plain

/-- A predicate as it stands in the text. -/
abbrev Atom := List Token

namespace Parsing

/-- How an atom goes on with a token: at which depth of parentheses, and whether the AND of a BETWEEN
is still to come. Nothing is given for a token that the atom does not go on with. -/
def inside : Nat → Bool → Role → Option (Nat × Bool)
  | depth + 1, between, .opening => some (depth + 2, between)
  | depth + 1, between, .closing => some (depth, between)
  | depth + 1, between, _ => some (depth + 1, between)
  | 0, between, .opening => some (1, between)
  | 0, true, .joiner .and => some (0, false)
  | 0, false, .between => some (0, true)
  | 0, between, .plain => some (0, between)
  | 0, between, .not => some (0, between)
  | 0, _, _ => none

/-- A formula behind NOT, or without it. -/
def negate (negated : Bool) (f : Formula Atom) : Formula Atom := if negated then .not f else f

/-- The operand that is being read. -/
inductive Slot
  /-- None so far, apart from NOT. -/
  | empty (negated : Bool)
  /-- The tokens of an atom. -/
  | atom (negated : Bool) (read : Atom) (depth : Nat) (between : Bool)
  /-- A group that was closed. -/
  | full (f : Formula Atom)

/-- The operand, if it is complete. -/
def Slot.formula? : Slot → Option (Formula Atom)
  | .atom negated read 0 false => some (negate negated (.atom read))
  | .full f => some f
  | _ => none

/-- What was read of a group: the disjuncts that are complete, and the members of the one that is
not. -/
structure Level where
  complete : List (Formula Atom)
  current : List (Formula Atom)

namespace Level

def start : Level := ⟨[], []⟩

/-- Goes on behind an operand and a connective. -/
def join (l : Level) : Connective → Formula Atom → Level
  | .and, f => ⟨l.complete, l.current ++ [f]⟩
  | .or, f => ⟨l.complete ++ [.all .and (l.current ++ [f])], []⟩

/-- The group whose last operand is given. -/
def close (l : Level) (f : Formula Atom) : Formula Atom :=
  .all .or (l.complete ++ [.all .and (l.current ++ [f])])

/-- The group whose last operands are given, joined by one connective. -/
def closeAll (l : Level) : Connective → List (Formula Atom) → Formula Atom
  | .and, fs => .all .or (l.complete ++ [.all .and (l.current ++ fs)])
  | .or, [] => .all .or l.complete
  | .or, f :: rest => .all .or (l.complete ++ .all .and (l.current ++ [f]) :: rest)

theorem closeAll_singleton (l : Level) (c : Connective) (f : Formula Atom) :
    l.closeAll c [f] = l.close f := by
  cases c <;> rfl

theorem closeAll_join (l : Level) (c : Connective) (f g : Formula Atom)
    (rest : List (Formula Atom)) :
    (l.join c f).closeAll c (g :: rest) = l.closeAll c (f :: g :: rest) := by
  cases c with
  | and => simp [join, closeAll]
  | or => simp [join, closeAll, Formula.all]

theorem closeAll_start (c : Connective) {fs : List (Formula Atom)} (hne : fs ≠ []) :
    start.closeAll c fs = .all c fs := by
  cases c with
  | and => rfl
  | or =>
      cases fs with
      | nil => exact absurd rfl hne
      | cons f rest => rfl

end Level

/-- The state of the parser. Outside the group that is being read, there are those it stands in, each
with the NOT before it. -/
structure State where
  slot : Slot
  level : Level
  outer : List (Bool × Level)

def start : State := ⟨.empty false, .start, []⟩

/-- The step on a token behind an operand. -/
def delimit (s : State) : Role → Option State
  | .joiner c =>
      match s.slot.formula? with
      | some f => some ⟨.empty false, s.level.join c f, s.outer⟩
      | none => none
  | .closing =>
      match s.slot.formula?, s.outer with
      | some f, (negated, level) :: outer =>
          some ⟨.full (negate negated (s.level.close f)), level, outer⟩
      | _, _ => none
  | _ => none

/-- The step on a token. -/
def step (s : State) (t : Token) : Option State :=
  match s.slot with
  | .empty negated =>
      match t.role with
      | .opening => some ⟨.empty false, .start, (negated, s.level) :: s.outer⟩
      | .not => some ⟨.empty (!negated), s.level, s.outer⟩
      | .plain => some ⟨.atom negated [t] 0 false, s.level, s.outer⟩
      | _ => none
  | .atom negated read depth between =>
      match inside depth between t.role with
      | some (depth, between) => some ⟨.atom negated (read ++ [t]) depth between, s.level, s.outer⟩
      | none => delimit s t.role
  | .full _ => delimit s t.role

def run (s : State) : List Token → Option State
  | [] => some s
  | t :: rest => (step s t).bind fun u => run u rest

/-- What was read, if no group is open and no operand is missing. -/
def finish (s : State) : Option (Formula Atom) :=
  match s.outer with
  | [] => s.slot.formula?.map s.level.close
  | _ => none

def parse (ts : List Token) : Option (Formula Atom) := (run start ts).bind finish

/-- Parses SQL text. -/
def parseText (backslash : Bool) (text : String) : Option (Formula Atom) :=
  parse (Token.ofLexemes (Lexer.lex backslash text.toList))

theorem run_append (s : State) (ts us : List Token) :
    run s (ts ++ us) = (run s ts).bind fun u => run u us := by
  induction ts generalizing s with
  | nil => rfl
  | cons t rest ih =>
      rw [List.cons_append, run, run]
      cases step s t with
      | none => rfl
      | some u => exact ih u

/-! Atoms. -/

/-- The depth and the state of BETWEEN after tokens that an atom goes on with. -/
def scan (depth : Nat) (between : Bool) : List Token → Option (Nat × Bool)
  | [] => some (depth, between)
  | t :: rest => (inside depth between t.role).bind fun (depth, between) => scan depth between rest

theorem scan_append {depth depth' : Nat} {between between' : Bool} {ts : List Token}
    (h : scan depth between ts = some (depth', between')) (us : List Token) :
    scan depth between (ts ++ us) = scan depth' between' us := by
  induction ts generalizing depth between with
  | nil =>
      cases h
      rfl
  | cons t rest ih =>
      rw [scan] at h
      rw [List.cons_append, scan]
      cases hinside : inside depth between t.role with
      | none => simp [hinside] at h
      | some next =>
          rw [hinside] at h
          exact ih h

theorem run_scan {depth depth' : Nat} {between between' : Bool} {ts : List Token}
    (h : scan depth between ts = some (depth', between')) (negated : Bool) (read : Atom)
    (level : Level) (outer : List (Bool × Level)) :
    run ⟨.atom negated read depth between, level, outer⟩ ts =
      some ⟨.atom negated (read ++ ts) depth' between', level, outer⟩ := by
  induction ts generalizing depth between read with
  | nil =>
      cases h
      simp [run]
  | cons t rest ih =>
      rw [scan] at h
      cases hinside : inside depth between t.role with
      | none => simp [hinside] at h
      | some next =>
          obtain ⟨depth₁, between₁⟩ := next
          rw [hinside] at h
          simp only [run, step, hinside, Option.bind_some]
          rw [ih h]
          simp

/-- Tokens that are read as one atom. -/
def IsAtom (ts : List Token) : Prop :=
  ∃ t rest, ts = t :: rest ∧ t.role = .plain ∧ scan 0 false rest = some (0, false)

theorem IsAtom.append {ts us : List Token} (h : IsAtom ts) (hus : scan 0 false us = some (0, false)) :
    IsAtom (ts ++ us) := by
  obtain ⟨t, rest, rfl, hplain, hscan⟩ := h
  refine ⟨t, rest ++ us, rfl, hplain, ?_⟩
  rw [scan_append hscan, hus]

/-- The tokens of an atom can also stand behind others in an atom. -/
theorem IsAtom.scan {ts : List Token} (h : IsAtom ts) : scan 0 false ts = some (0, false) := by
  obtain ⟨t, rest, rfl, hplain, hscan⟩ := h
  rw [Parsing.scan, hplain]
  exact hscan

/-! Operands. -/

/-- Tokens that are read as an operand wherever one is expected. -/
def Operand (ts : List Token) (f : Formula Atom) : Prop :=
  ∀ level outer, ∃ slot : Slot, slot.formula? = some f ∧
    run ⟨.empty false, level, outer⟩ ts = some ⟨slot, level, outer⟩

theorem IsAtom.operand {ts : List Token} (h : IsAtom ts) : Operand ts (.atom ts) := by
  obtain ⟨t, rest, rfl, hplain, hscan⟩ := h
  intro level outer
  refine ⟨.atom false (t :: rest) 0 false, rfl, ?_⟩
  simp only [run, step, hplain, Option.bind_some]
  exact run_scan hscan false [t] level outer

/-- Behind a complete operand, a connective or a closing parenthesis ends it. -/
theorem step_of_complete {slot : Slot} {f : Formula Atom} (h : slot.formula? = some f) {t : Token}
    (ht : t.role = .closing ∨ ∃ c, t.role = .joiner c) (level : Level) (outer : List (Bool × Level)) :
    step ⟨slot, level, outer⟩ t = delimit ⟨slot, level, outer⟩ t.role := by
  cases slot with
  | empty negated => cases h
  | full g => rfl
  | atom negated read depth between =>
      have hinside : inside depth between t.role = none := by
        cases depth with
        | succ depth => cases between <;> cases h
        | zero =>
            cases between with
            | true => cases h
            | false => rcases ht with ht | ⟨c, ht⟩ <;> rw [ht] <;> first | rfl | (cases c <;> rfl)
      simp only [step, hinside]

theorem step_joiner {slot : Slot} {f : Formula Atom} (h : slot.formula? = some f) {t : Token}
    {c : Connective} (ht : t.role = .joiner c) (level : Level) (outer : List (Bool × Level)) :
    step ⟨slot, level, outer⟩ t = some ⟨.empty false, level.join c f, outer⟩ := by
  rw [step_of_complete h (.inr ⟨c, ht⟩), ht]
  simp only [delimit, h]

theorem step_closing {slot : Slot} {f : Formula Atom} (h : slot.formula? = some f) {t : Token}
    (ht : t.role = .closing) (level upper : Level) (negated : Bool) (outer : List (Bool × Level)) :
    step ⟨slot, level, (negated, upper) :: outer⟩ t =
      some ⟨.full (negate negated (level.close f)), upper, outer⟩ := by
  rw [step_of_complete h (.inl ht), ht]
  simp only [delimit, h]

end Parsing

/-- The keyword of a connective. -/
def Connective.token (c : Connective) : Token := .word c.text.toList

theorem Connective.role_token (c : Connective) : c.token.role = .joiner c := by
  cases c <;> rfl

namespace Parsing

/-- Rows of tokens with a connective between each two. -/
def joined (c : Connective) : List (List Token) → List Token
  | [] => []
  | [row] => row
  | row :: rest => row ++ c.token :: joined c rest

/-- Operands under one connective are the last members of the group that is being read. -/
theorem run_joined {rows : List (List Token)} {fs : List (Formula Atom)}
    (h : List.Forall₂ Operand rows fs) (hne : fs ≠ []) (c : Connective) (level : Level)
    (outer : List (Bool × Level)) :
    ∃ (slot : Slot) (f : Formula Atom) (level' : Level), slot.formula? = some f ∧
      run ⟨.empty false, level, outer⟩ (joined c rows) = some ⟨slot, level', outer⟩ ∧
      level'.close f = level.closeAll c fs := by
  induction h generalizing level with
  | nil => exact absurd rfl hne
  | @cons row f rest fs hrow hrest ih =>
      obtain ⟨slot, hslot, hrun⟩ := hrow level outer
      cases hrest with
      | nil => exact ⟨slot, f, level, hslot, hrun, (level.closeAll_singleton c f).symm⟩
      | @cons next g more gs hnext hmore =>
          obtain ⟨slot', f', level', hslot', hrun', hclose⟩ := ih (by simp) (level.join c f)
          refine ⟨slot', f', level', hslot', ?_, ?_⟩
          · rw [joined, run_append, hrun, Option.bind_some, run,
              step_joiner hslot c.role_token, Option.bind_some]
            · exact hrun'
            · simp
          · rw [hclose, Level.closeAll_join]

/-- Operands under one connective between parentheses. -/
theorem operand_parenthesized {rows : List (List Token)} {fs : List (Formula Atom)}
    (h : List.Forall₂ Operand rows fs) (hne : fs ≠ []) (c : Connective) :
    Operand (.symbol '(' :: joined c rows ++ [.symbol ')']) (.all c fs) := by
  intro level outer
  obtain ⟨slot, f, level', hslot, hrun, hclose⟩ :=
    run_joined h hne c .start ((false, level) :: outer)
  refine ⟨.full (.all c fs), rfl, ?_⟩
  have hopen : step ⟨.empty false, level, outer⟩ (.symbol '(') =
      some ⟨.empty false, .start, (false, level) :: outer⟩ := rfl
  rw [List.cons_append, run, hopen, Option.bind_some, run_append, hrun, Option.bind_some, run,
    step_closing hslot rfl, Option.bind_some, run, hclose, Level.closeAll_start c hne]
  rfl

theorem parse_joined {rows : List (List Token)} {fs : List (Formula Atom)}
    (h : List.Forall₂ Operand rows fs) (hne : fs ≠ []) (c : Connective) :
    parse (joined c rows) = some (.all c fs) := by
  obtain ⟨slot, f, level', hslot, hrun, hclose⟩ := run_joined h hne c .start []
  rw [parse, start, hrun, Option.bind_some, finish, hslot, Option.map_some, hclose,
    Level.closeAll_start c hne]

theorem Operand.parse {ts : List Token} {f : Formula Atom} (h : Operand ts f) :
    parse ts = some f := by
  have hrows : List.Forall₂ Operand [ts] [f] := .cons h .nil
  exact parse_joined hrows (by simp) .and

/-! Groups are never empty. -/

/-- Groups with members only, among the operands that were read. -/
def Slot.Populated : Slot → Prop
  | .full f => f.populated = true
  | _ => True

structure Level.Populated (l : Level) : Prop where
  complete : ∀ f ∈ l.complete, f.populated = true
  current : ∀ f ∈ l.current, f.populated = true

structure State.Populated (s : State) : Prop where
  slot : s.slot.Populated
  level : s.level.Populated
  outer : ∀ entry ∈ s.outer, entry.2.Populated

theorem Level.populated_start : Level.start.Populated := by
  constructor <;> simp [Level.start]

theorem populated_negate {negated : Bool} {f : Formula Atom} (h : f.populated = true) :
    (negate negated f).populated = true := by
  cases negated <;> exact h

theorem Slot.Populated.formula {slot : Slot} (h : slot.Populated) {f : Formula Atom}
    (hf : slot.formula? = some f) : f.populated = true := by
  unfold Slot.formula? at hf
  split at hf
  · cases hf
    exact populated_negate rfl
  · cases hf
    exact h
  · cases hf

variable {l : Level} {f : Formula Atom}

theorem Level.Populated.disjunct (h : l.Populated) (hf : f.populated = true) :
    (Formula.all .and (l.current ++ [f])).populated = true := by
  refine Formula.populated_all (by simp) ?_
  rw [List.forall_mem_append, List.forall_mem_singleton]
  exact ⟨h.current, hf⟩

theorem Level.Populated.join (h : l.Populated) (hf : f.populated = true) (c : Connective) :
    (l.join c f).Populated := by
  cases c with
  | and =>
      refine ⟨h.complete, ?_⟩
      change ∀ g ∈ l.current ++ [f], g.populated = true
      rw [List.forall_mem_append, List.forall_mem_singleton]
      exact ⟨h.current, hf⟩
  | or =>
      refine ⟨?_, by simp [Level.join]⟩
      change ∀ g ∈ l.complete ++ [.all .and (l.current ++ [f])], g.populated = true
      rw [List.forall_mem_append, List.forall_mem_singleton]
      exact ⟨h.complete, h.disjunct hf⟩

theorem Level.Populated.close (h : l.Populated) (hf : f.populated = true) :
    (l.close f).populated = true := by
  refine Formula.populated_all (by simp) ?_
  rw [List.forall_mem_append, List.forall_mem_singleton]
  exact ⟨h.complete, h.disjunct hf⟩

theorem State.Populated.delimit {s u : State} {r : Role} (h : s.Populated)
    (hu : delimit s r = some u) : u.Populated := by
  unfold Parsing.delimit at hu
  split at hu
  · split at hu
    · rename_i hf
      cases hu
      exact ⟨trivial, h.level.join (h.slot.formula hf) _, h.outer⟩
    · cases hu
  · split at hu
    · rename_i hf houter
      cases hu
      have hentries := h.outer
      rw [houter, List.forall_mem_cons] at hentries
      exact ⟨populated_negate (h.level.close (h.slot.formula hf)), hentries.1, hentries.2⟩
    · cases hu
  · cases hu

/-- A step leaves only groups with members: one without them is not closed. -/
theorem State.Populated.step {s u : State} {t : Token} (h : s.Populated)
    (hu : step s t = some u) : u.Populated := by
  unfold Parsing.step at hu
  split at hu
  · split at hu
    · cases hu
      refine ⟨trivial, Level.populated_start, ?_⟩
      rw [List.forall_mem_cons]
      exact ⟨h.level, h.outer⟩
    · cases hu
      exact ⟨trivial, h.level, h.outer⟩
    · cases hu
      exact ⟨trivial, h.level, h.outer⟩
    · cases hu
  · split at hu
    · cases hu
      exact ⟨trivial, h.level, h.outer⟩
    · exact h.delimit hu
  · exact h.delimit hu

theorem State.Populated.run {s u : State} {ts : List Token} (h : s.Populated)
    (hu : run s ts = some u) : u.Populated := by
  induction ts generalizing s with
  | nil =>
      cases hu
      exact h
  | cons t rest ih =>
      rw [Parsing.run, Option.bind_eq_some_iff] at hu
      obtain ⟨next, hstep, hrun⟩ := hu
      exact ih (h.step hstep) hrun

/-- What is parsed has no empty group. -/
theorem populated_of_parse {ts : List Token} (h : parse ts = some f) : f.populated = true := by
  rw [Parsing.parse, Option.bind_eq_some_iff] at h
  obtain ⟨u, hrun, hfinish⟩ := h
  have hstart : start.Populated := ⟨trivial, Level.populated_start, by simp [start]⟩
  have hu := hstart.run hrun
  unfold finish at hfinish
  split at hfinish
  · rw [Option.map_eq_some_iff] at hfinish
    obtain ⟨g, hg, rfl⟩ := hfinish
    exact hu.level.close (hu.slot.formula hg)
  · cases hfinish

example : parseText false "a = 1 AND ()" = none := rfl

/-- AND binds tighter than OR, and the AND of a range joins nothing. -/
example : (parseText false "a = 1 OR b = 2 and c BETWEEN 3 AND 4").map (Formula.map List.length) =
    some (.group .or [.atom 3, .group .and [.atom 3, .atom 5]]) := rfl

end Parsing

end QueryLoom
