import QueryLoom.Proofs.Meaning.Atoms
import QueryLoom.Proofs.Prefixes.Keys

/-!
The calls of functions in condition keys. The check of a call looks at the name, at the last character
and at the number of parentheses that are open. Together these accept a name with arguments in
parentheses, and behind the parenthesis that closes them any balanced text that ends in a closing
parenthesis. The key is one call exactly if nothing follows, and then its text is one operand.
-/

namespace QueryLoom.Key

open Conditions Lexer Parsing Prefixed

variable {cs token name args tail : List Char}

/-- Texts whose parentheses are balanced. -/
inductive Balanced : List Char → Prop
  | nil : Balanced []
  | char {c : Char} {rest : List Char} (hopen : c ≠ '(') (hclose : c ≠ ')') (h : Balanced rest) :
      Balanced (c :: rest)
  | group {inner rest : List Char} (hinner : Balanced inner) (hrest : Balanced rest) :
      Balanced ('(' :: inner ++ ')' :: rest)

theorem group_append (inner after rest : List Char) :
    '(' :: inner ++ ')' :: after ++ rest = '(' :: (inner ++ ')' :: (after ++ rest)) := by
  simp

theorem Balanced.append {rest : List Char} (h : Balanced cs) (hrest : Balanced rest) :
    Balanced (cs ++ rest) := by
  induction h with
  | nil => exact hrest
  | char hopen hclose _ ih => exact .char hopen hclose ih
  | @group inner after hinner _ _ ih =>
      rw [group_append]
      exact .group hinner ih

theorem ne_parenthesis_of_isNameChar {c : Char} (h : isNameChar c = true) : c ≠ '(' ∧ c ≠ ')' := by
  constructor <;>
  · rintro rfl
    exact absurd h (by decide)

theorem balanced_of_isNamePart (h : IsNamePart cs) : Balanced cs := by
  induction cs with
  | nil => exact .nil
  | cons c rest ih =>
      obtain ⟨hopen, hclose⟩ := ne_parenthesis_of_isNameChar (h c List.mem_cons_self)
      exact .char hopen hclose (ih fun d hd => h d (List.mem_cons_of_mem c hd))

/-! The depth of parentheses. -/

theorem parenthesisDepth?_of_ne {c : Char} (hopen : c ≠ '(') (hclose : c ≠ ')') (depth : Nat)
    (rest : List Char) : parenthesisDepth? depth (c :: rest) = parenthesisDepth? depth rest := by
  rw [parenthesisDepth?]
  · simpa using hopen
  · simpa using hclose

/-- A balanced text leaves the depth as it is. -/
theorem parenthesisDepth?_append (h : Balanced cs) (depth : Nat) (rest : List Char) :
    parenthesisDepth? depth (cs ++ rest) = parenthesisDepth? depth rest := by
  induction h generalizing depth rest with
  | nil => rfl
  | char hopen hclose _ ih => rw [List.cons_append, parenthesisDepth?_of_ne hopen hclose, ih]
  | @group inner after _ _ ihinner ih =>
      rw [group_append, parenthesisDepth?, ihinner, parenthesisDepth?, ← ih depth rest]
      simp

/-- Texts that close the parentheses open before them: balanced texts with a closing parenthesis
between each two. -/
def Closes : Nat → List Char → Prop
  | 0, cs => Balanced cs
  | depth + 1, cs => ∃ inner rest, cs = inner ++ ')' :: rest ∧ Balanced inner ∧ Closes depth rest

theorem Closes.append {depth : Nat} (h : Balanced token) (hcs : Closes depth cs) :
    Closes depth (token ++ cs) := by
  cases depth with
  | zero => exact h.append hcs
  | succ depth =>
      obtain ⟨inner, rest, rfl, hinner, hrest⟩ := hcs
      exact ⟨token ++ inner, rest, by simp, h.append hinner, hrest⟩

/-- A text that leads to depth zero closes what is open. -/
theorem closes_of_parenthesisDepth? {depth : Nat} (h : parenthesisDepth? depth cs = some 0) :
    Closes depth cs := by
  induction cs generalizing depth with
  | nil =>
      obtain rfl := Option.some.inj h
      exact .nil
  | cons c rest ih =>
      by_cases hopen : c = '('
      · subst hopen
        obtain ⟨inner, after, rfl, hinner, hafter⟩ := ih h
        have hgroup : Balanced ('(' :: inner ++ [')']) := .group hinner .nil
        have hcloses := hafter.append hgroup
        rwa [List.append_assoc] at hcloses
      · by_cases hclose : c = ')'
        · subst hclose
          rw [parenthesisDepth?] at h
          cases depth with
          | zero => cases h
          | succ depth => exact ⟨[], rest, rfl, .nil, ih h⟩
        · rw [parenthesisDepth?_of_ne hopen hclose] at h
          exact (ih h).append (.char hopen hclose .nil)

/-! The check of a call. -/

/-- A text that is a name with arguments in parentheses, and what stands behind the parenthesis that
closes them. -/
structure Called (token name args tail : List Char) : Prop where
  text : token = name ++ '(' :: args ++ ')' :: tail
  named : name ≠ [] ∧ IsNamePart name
  balanced : Balanced args ∧ Balanced tail
  closed : tail ≠ [] → tail.getLast? = some ')'

/-- A text that is one call: its last character closes the parenthesis behind the name. -/
def IsCall (token : List Char) : Prop := ∃ name args, Called token name args []

theorem Called.takeWhile (h : Called token name args tail) :
    token.takeWhile (· != '(') = name ∧
      token.dropWhile (· != '(') = '(' :: args ++ ')' :: tail := by
  have hname : ∀ c ∈ name, (c != '(') = true := fun c hc =>
    bne_iff_ne.mpr (ne_parenthesis_of_isNameChar (h.named.2 c hc)).1
  rw [h.text, List.append_assoc, List.takeWhile_append_of_pos hname,
    List.dropWhile_append_of_pos hname]
  simp

/-- What the check accepts, exactly. -/
theorem checkCall_eq_ok : checkCall token = .ok () ↔ ∃ name args tail, Called token name args tail := by
  constructor
  · intro h
    unfold checkCall at h
    dsimp only at h
    split_ifs at h with hbad hdepth
    simp only [Bool.or_eq_true, not_or, Bool.not_eq_true', Bool.not_eq_false, List.all_eq_true,
      bne_iff_ne, ne_eq, not_not, List.isEmpty_iff] at hbad
    obtain ⟨⟨hne, hname⟩, hlast⟩ := hbad
    have htoken := (List.takeWhile_append_dropWhile (p := (· != '(')) (l := token)).symm
    generalize token.takeWhile (· != '(') = name at hne hname htoken
    cases hcall : token.dropWhile (· != '(') with
    | nil =>
        rw [hcall, List.append_nil] at htoken
        subst htoken
        have hclose := hname ')' (List.mem_of_getLast? hlast)
        exact absurd hclose (by decide)
    | cons c rest =>
        obtain rfl : c = '(' := by
          have hhead := List.head?_dropWhile_not (· != '(') token
          simpa [hcall] using hhead
        rw [hcall] at htoken
        subst htoken
        rw [parenthesisDepth?_append (balanced_of_isNamePart hname), parenthesisDepth?,
          beq_iff_eq] at hdepth
        obtain ⟨args, tail, rfl, hargs, htail⟩ := closes_of_parenthesisDepth? hdepth
        refine ⟨name, args, tail, by simp, ⟨hne, hname⟩, ⟨hargs, htail⟩, fun hsome => ?_⟩
        have hsplit : name ++ '(' :: (args ++ ')' :: tail) = name ++ '(' :: args ++ [')'] ++ tail := by
          simp
        rwa [hsplit, List.getLast?_append_of_ne_nil _ hsome] at hlast
  · rintro ⟨name, args, tail, h⟩
    have hlast : token.getLast? = some ')' := by
      rw [h.text, List.getLast?_append_cons]
      cases tail with
      | nil => rfl
      | cons c rest =>
          rw [List.getLast?_cons_cons]
          exact h.closed (List.cons_ne_nil c rest)
    have hdepth : parenthesisDepth? 0 token = some 0 := by
      rw [h.text, List.append_assoc, parenthesisDepth?_append (balanced_of_isNamePart h.named.2),
        List.cons_append, parenthesisDepth?, parenthesisDepth?_append h.balanced.1,
        parenthesisDepth?, ← List.append_nil tail]
      exact parenthesisDepth?_append h.balanced.2 0 []
    have hname : name.all isNameChar = true := List.all_eq_true.mpr h.named.2
    simp [checkCall, h.takeWhile.1, h.named.1, hname, hlast, hdepth]

/-! One call. -/

/-- The number of parentheses that open outside of all others. -/
def outerGroups : Nat → List Char → Nat
  | _, [] => 0
  | depth, c :: rest =>
      if c = '(' then (if depth = 0 then 1 else 0) + outerGroups (depth + 1) rest
      else if c = ')' then outerGroups (depth - 1) rest
      else outerGroups depth rest

/-- Inside of a group a balanced text opens none outside. -/
theorem outerGroups_inside (h : Balanced cs) (depth : Nat) (rest : List Char) :
    outerGroups (depth + 1) (cs ++ rest) = outerGroups (depth + 1) rest := by
  induction h generalizing depth rest with
  | nil => rfl
  | char hopen hclose _ ih => rw [List.cons_append, outerGroups, if_neg hopen, if_neg hclose, ih]
  | @group inner after _ _ ihinner ih =>
      rw [group_append, outerGroups, if_pos rfl, ihinner, outerGroups, ← ih depth rest]
      simp

theorem outerGroups_group {inner : List Char} (h : Balanced inner) (rest : List Char) :
    outerGroups 0 ('(' :: inner ++ ')' :: rest) = 1 + outerGroups 0 rest := by
  rw [List.cons_append, outerGroups, if_pos rfl, outerGroups_inside h, outerGroups]
  simp

theorem outerGroups_name (h : IsNamePart name) (rest : List Char) :
    outerGroups 0 (name ++ rest) = outerGroups 0 rest := by
  induction name with
  | nil => rfl
  | cons c name ih =>
      obtain ⟨hopen, hclose⟩ := ne_parenthesis_of_isNameChar (h c List.mem_cons_self)
      rw [List.cons_append, outerGroups, if_neg hopen, if_neg hclose]
      exact ih fun d hd => h d (List.mem_cons_of_mem c hd)

/-- Without a group a balanced text closes none. -/
theorem not_mem_of_outerGroups (h : Balanced cs) (hnone : outerGroups 0 cs = 0) : ')' ∉ cs := by
  induction h with
  | nil => exact List.not_mem_nil
  | char hopen hclose _ ih =>
      rw [outerGroups, if_neg hopen, if_neg hclose] at hnone
      simpa [Ne.symm hclose] using ih hnone
  | group hinner _ _ _ =>
      rw [outerGroups_group hinner] at hnone
      omega

theorem Called.outerGroups_eq (h : Called token name args tail) :
    outerGroups 0 token = 1 + outerGroups 0 tail := by
  rw [h.text, List.append_assoc, outerGroups_name h.named.2, outerGroups_group h.balanced.1]

/-- What the check accepts is one call exactly if it has one group. -/
theorem isCall_iff_outerGroups (h : Called token name args tail) :
    IsCall token ↔ outerGroups 0 token = 1 := by
  constructor
  · rintro ⟨name, args, hcall⟩
    rw [hcall.outerGroups_eq]
    rfl
  · intro hone
    rw [h.outerGroups_eq] at hone
    have hnone : tail = [] := by
      by_contra hsome
      exact not_mem_of_outerGroups h.balanced.2 (by omega) (List.mem_of_getLast? (h.closed hsome))
    subst hnone
    exact ⟨name, args, h⟩

theorem closesAtEnd_append (h : Balanced cs) (depth : Nat) (rest : List Char) :
    closesAtEnd (depth + 1) (cs ++ rest) = closesAtEnd (depth + 1) rest := by
  induction h generalizing depth rest with
  | nil => rfl
  | char hopen hclose _ ih => rw [List.cons_append, closesAtEnd, if_neg hopen, if_neg hclose, ih]
  | @group inner after _ _ ihinner ih =>
      rw [group_append, closesAtEnd, if_pos rfl, ihinner, closesAtEnd, ← ih depth rest]
      simp

/-- One call whose name is no keyword is read as one operand. -/
theorem isAtom_of_isCall {column : String} (h : IsCall column.toList)
    (hname : (Token.word (column.toList.takeWhile (· != '('))).role = .plain) :
    IsAtom (Token.ofText column) := by
  obtain ⟨name, args, hcall⟩ := h
  refine isAtom_call (checkCall_eq_ok.mpr ⟨name, args, [], hcall⟩) ?_
  rw [isSingleCall, hname, hcall.takeWhile.2, List.cons_append, closesAtEnd, if_pos rfl,
    closesAtEnd_append hcall.balanced.1]
  rfl

/-- For every text that is read as the key of a function: its token is an identifier, arguments with
balanced parentheses between parentheses, and behind these nothing or a balanced text that closes a
parenthesis at its end. It is one call exactly if one parenthesis opens outside of all others; then,
unless its name is a keyword of conditions, a parser reads it as one operand. -/
theorem function_keys_are_calls {key : String} {parsed : ConditionKey}
    (hkey : conditionKey key = .ok parsed) (hfunction : parsed.isFunction = true) :
    (∃ name args tail, Called parsed.column.toList name args tail) ∧
      (outerGroups 0 parsed.column.toList = 1 ↔ IsCall parsed.column.toList) ∧
      (outerGroups 0 parsed.column.toList = 1 →
        (Token.word (parsed.column.toList.takeWhile (· != '('))).role = .plain →
        IsAtom (Token.ofText parsed.column)) := by
  obtain ⟨name, args, tail, hcalled⟩ := checkCall_eq_ok.mp ((conditionKey_eq hkey).2 hfunction)
  have hone := isCall_iff_outerGroups hcalled
  exact ⟨⟨name, args, tail, hcalled⟩, hone.symm, fun hgroups => isAtom_of_isCall (hone.mpr hgroups)⟩

/-- A call within a call. -/
theorem function_keys_are_calls_of_nested :
    conditionKey "ABS(SUM(posts.id))[>]" = .ok ⟨"ABS(SUM(posts.id))", some .greater, true⟩ ∧
      IsCall "ABS(SUM(posts.id))".toList ∧ IsAtom (Token.ofText "ABS(SUM(posts.id))") := by
  have hkey : conditionKey "ABS(SUM(posts.id))[>]" =
      .ok ⟨"ABS(SUM(posts.id))", some .greater, true⟩ := by
    rfl
  have hone : outerGroups 0 "ABS(SUM(posts.id))".toList = 1 := by
    decide +kernel
  obtain ⟨-, hcall, hatom⟩ := function_keys_are_calls hkey rfl
  exact ⟨hkey, hcall.mp hone, hatom hone (by decide +kernel)⟩

/-- Two calls with a keyword between them are read as the key of one function. -/
theorem two_calls_are_read_as_one :
    conditionKey "A(x)OR(y)" = .ok ⟨"A(x)OR(y)", none, true⟩ ∧ ¬ IsCall "A(x)OR(y)".toList := by
  have hkey : conditionKey "A(x)OR(y)" = .ok ⟨"A(x)OR(y)", none, true⟩ := by
    rfl
  refine ⟨hkey, fun hcall => ?_⟩
  obtain ⟨name, args, tail, hcalled⟩ := checkCall_eq_ok.mp ((conditionKey_eq hkey).2 rfl)
  rw [isCall_iff_outerGroups hcalled] at hcall
  exact absurd hcall (by decide +kernel)

end QueryLoom.Key
