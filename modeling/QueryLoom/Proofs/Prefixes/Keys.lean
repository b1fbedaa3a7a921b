import Mathlib.Data.List.DropRight
import Mathlib.Tactic.Common
import QueryLoom.Proofs.Columns.Leaves
import QueryLoom.Proofs.Prefixes.Writing

/-!
Keys and references that a prefix was written into. What a grammar reads in a text it reads in the
text with the prefix too, with the prefix before the tables.
-/

namespace QueryLoom

open Key Prefixed

variable {p cs rest : List Char}

/-! Names and blanks. -/

/-- A text of characters that names are made of. -/
def IsNamePart (p : List Char) : Prop := ∀ c ∈ p, isNameChar c = true

theorem isBlank_of_isNameChar {c : Char} (h : isNameChar c = true) : Text.isBlank c = false := by
  have hrange : (48 ≤ c.toNat ∧ c.toNat ≤ 57) ∨ (65 ≤ c.toNat ∧ c.toNat ≤ 90) ∨
      c.toNat = 95 ∨ (97 ≤ c.toNat ∧ c.toNat ≤ 122) := by
    have halpha : c.isAlpha = (c.isUpper || c.isLower) := rfl
    have hupper : c.isUpper = decide (c.val ≥ 65 ∧ c.val ≤ 90) := rfl
    have hlower : c.isLower = (decide (c.val ≥ 97) && decide (c.val ≤ 122)) := rfl
    simp only [isNameChar, Char.isAlphanum, halpha, hupper, hlower, Char.isDigit, Bool.or_eq_true,
      Bool.and_eq_true, decide_eq_true_eq, beq_iff_eq, ge_iff_le, UInt32.le_iff_toNat_le] at h
    have hval : c.toNat = c.val.toNat := rfl
    rcases h with ((⟨hl, hu⟩ | ⟨hl, hu⟩) | ⟨hl, hu⟩) | rfl
    · exact .inr (.inl ⟨hl, hu⟩)
    · exact .inr (.inr (.inr ⟨hl, hu⟩))
    · exact .inl ⟨hl, hu⟩
    · exact .inr (.inr (.inl rfl))
  simp only [Text.isBlank, Bool.or_eq_false_iff, Bool.and_eq_false_iff, decide_eq_false_iff_not,
    beq_eq_false_iff_ne]
  omega

theorem IsNamePart.takeName (hp : IsNamePart p) (cs : List Char) :
    takeName (p ++ cs) = (String.ofList p ++ (takeName cs).1, (takeName cs).2) := by
  unfold Key.takeName
  rw [List.takeWhile_append_of_pos hp, List.dropWhile_append_of_pos hp, String.ofList_append]

theorem isEmpty_ofList (cs : List Char) : (String.ofList cs).isEmpty = cs.isEmpty := by
  cases cs with
  | nil => rfl
  | cons c cs => simp

theorem isEmpty_append {s : String} (front : String) (h : s.isEmpty = false) :
    (front ++ s).isEmpty = false := by
  have hne : s ≠ "" := by
    rintro rfl
    cases h
  simp [hne]

/-! Marks. -/

theorem qualifies_iff : qualifies cs = true ↔
    ∃ name rest, name ≠ [] ∧ IsNamePart name ∧ cs = name ++ '.' :: rest := by
  unfold qualifies
  simp only [Bool.and_eq_true, Bool.not_eq_true', List.isEmpty_eq_false_iff, beq_iff_eq]
  constructor
  · rintro ⟨hne, hdot⟩
    obtain ⟨rest, hrest⟩ := List.head?_eq_some_iff.mp hdot
    refine ⟨_, rest, hne, fun c hc => (List.mem_takeWhile_imp hc), ?_⟩
    rw [← hrest, List.takeWhile_append_dropWhile]
  · rintro ⟨name, rest, hne, hname, rfl⟩
    rw [List.takeWhile_append_of_pos hname, List.dropWhile_append_of_pos hname]
    exact ⟨by simp [hne], rfl⟩

theorem dot_mem_of_qualifies (h : qualifies cs = true) : '.' ∈ cs := by
  obtain ⟨name, rest, -, -, rfl⟩ := qualifies_iff.mp h
  simp

/-- A text with a qualifier has one with the prefix before it, too. -/
theorem IsNamePart.qualifies (hp : IsNamePart p) (h : qualifies cs = true) :
    Prefixed.qualifies (p ++ cs) = true := by
  obtain ⟨name, rest, hne, hname, rfl⟩ := qualifies_iff.mp h
  refine qualifies_iff.mpr ⟨p ++ name, rest, by simp [hne], ?_, by simp⟩
  exact List.forall_mem_append.mpr ⟨hp, hname⟩

/-- Blanks at the end of a text do not matter for its front. -/
theorem qualifies_append {blanks : List Char} (h : ∀ c ∈ blanks, Text.isBlank c = true) :
    qualifies (cs ++ blanks) = qualifies cs := by
  have hdot : '.' ∉ blanks := fun hmem => by cases h '.' hmem
  rw [Bool.eq_iff_iff, qualifies_iff, qualifies_iff]
  constructor
  · rintro ⟨name, rest, hne, hname, heq⟩
    rcases List.append_eq_append_iff.mp heq with ⟨more, hmore, hblanks⟩ | ⟨more, hmore, hblanks⟩
    · rw [hblanks] at hdot
      simp at hdot
    · cases more with
      | nil =>
          rw [List.nil_append] at hblanks
          rw [← hblanks] at hdot
          exact absurd List.mem_cons_self hdot
      | cons c more =>
          obtain ⟨rfl, -⟩ := List.cons.inj hblanks
          exact ⟨name, more, hne, hname, hmore⟩
  · rintro ⟨name, rest, hne, hname, rfl⟩
    exact ⟨name, rest ++ blanks, hne, hname, by simp⟩

theorem mark_append {blanks : List Char} (h : ∀ c ∈ blanks, Text.isBlank c = true) :
    mark p (cs ++ blanks) = mark p cs := by
  rw [mark, qualifies_append h, mark]

theorem isNamePart_mark (hp : IsNamePart p) (cs : List Char) : IsNamePart (mark p cs) := by
  unfold mark
  split_ifs
  · exact hp
  · exact nofun

/-! Blanks at the ends. -/

theorem skipBlanks_skipBlanks (cs : List Char) : skipBlanks (skipBlanks cs) = skipBlanks cs :=
  List.dropWhile_idempotent _ _

/-- Name characters stop blanks from being skipped. -/
theorem IsNamePart.skipBlanks (hp : IsNamePart p) (h : skipBlanks cs = cs) :
    Key.skipBlanks (p ++ cs) = p ++ cs := by
  cases p with
  | nil => exact h
  | cons c p =>
      have hc := isBlank_of_isNameChar (hp c List.mem_cons_self)
      exact List.dropWhile_cons_of_neg (by rw [hc]; exact Bool.false_ne_true)

/-- A text without the blanks at its end. -/
def trimEnd (cs : List Char) : List Char := cs.rdropWhile Text.isBlank

theorem trim_eq (cs : List Char) : Text.trim cs = trimEnd (skipBlanks cs) := rfl

theorem exists_trimEnd (cs : List Char) :
    ∃ blanks, cs = trimEnd cs ++ blanks ∧ ∀ c ∈ blanks, Text.isBlank c = true := by
  refine ⟨cs.rtakeWhile Text.isBlank, List.rdropWhile_append_rtakeWhile.symm, ?_⟩
  intro c hc
  exact List.mem_rtakeWhile_imp hc

theorem trimEnd_append {front : List Char} (h : trimEnd front = front) (cs : List Char) :
    trimEnd (front ++ cs) = front ++ trimEnd cs := by
  have hkept : front.reverse.dropWhile Text.isBlank = front.reverse := by
    rw [trimEnd, List.rdropWhile, List.reverse_eq_iff] at h
    exact h
  unfold trimEnd List.rdropWhile
  rw [List.reverse_append, List.dropWhile_append]
  split_ifs with hempty
  · rw [List.isEmpty_iff.mp hempty, hkept, List.reverse_reverse, List.reverse_nil, List.append_nil]
  · rw [List.reverse_append, List.reverse_reverse]

theorem trimEnd_append_cons {c : Char} (hc : Text.isBlank c = false) (front cs : List Char) :
    trimEnd (front ++ c :: cs) = front ++ c :: trimEnd cs := by
  have hfront : trimEnd (front ++ [c]) = front ++ [c] :=
    List.rdropWhile_concat_neg _ _ _ (by rw [hc]; exact Bool.false_ne_true)
  rw [List.append_cons, trimEnd_append hfront, ← List.append_cons]

theorem IsNamePart.trimEnd (hp : IsNamePart p) (cs : List Char) :
    QueryLoom.trimEnd (p ++ cs) = p ++ QueryLoom.trimEnd cs := by
  refine trimEnd_append (List.rdropWhile_eq_self_iff.mpr fun hne hlast => ?_) cs
  rw [isBlank_of_isNameChar (hp _ (List.getLast_mem hne))] at hlast
  cases hlast

theorem mark_trimEnd (cs : List Char) : mark p (trimEnd cs) = mark p cs := by
  obtain ⟨blanks, heq, hblanks⟩ := exists_trimEnd cs
  conv_rhs => rw [heq]
  exact (mark_append hblanks).symm

theorem skipBlanks_trim (cs : List Char) : skipBlanks (Text.trim cs) = Text.trim cs := by
  obtain ⟨blanks, heq, -⟩ := exists_trimEnd (skipBlanks cs)
  have hfront := skipBlanks_skipBlanks cs
  rw [trim_eq]
  cases htrim : trimEnd (skipBlanks cs) with
  | nil => rfl
  | cons c more =>
      rw [htrim] at heq
      rw [heq, skipBlanks, List.cons_append, List.dropWhile_eq_self_iff] at hfront
      exact List.dropWhile_cons_of_neg (hfront (Nat.succ_pos _))

theorem path_of_opened (h : skipBlanks cs = cs) : path p cs = mark p cs ++ cs := by
  have htaken : cs.takeWhile Text.isBlank = [] := by
    rw [List.takeWhile_eq_nil_iff]
    rwa [skipBlanks, List.dropWhile_eq_self_iff] at h
  rw [path, h, htaken, List.nil_append]

theorem skipBlanks_path (hp : IsNamePart p) (cs : List Char) :
    skipBlanks (path p cs) = mark p (skipBlanks cs) ++ skipBlanks cs := by
  rw [path, Key.skipBlanks, List.dropWhile_append_of_pos fun c hc => List.mem_takeWhile_imp hc]
  exact (isNamePart_mark hp (skipBlanks cs)).skipBlanks (skipBlanks_skipBlanks cs)

/-- What is read of a path without the blanks at its ends. -/
theorem trim_path (hp : IsNamePart p) (cs : List Char) :
    Text.trim (path p cs) = mark p (Text.trim cs) ++ Text.trim cs := by
  rw [trim_eq, skipBlanks_path hp, (isNamePart_mark hp (skipBlanks cs)).trimEnd, trim_eq,
    mark_trimEnd]

/-! What stands behind a character. -/

section Behind

variable {c : Char} {f : List Char → List Char} {front : List Char}

theorem behind_of_not_mem (h : c ∉ cs) : behind c f cs = cs := by
  have hdrop : cs.dropWhile (· != c) = [] := by
    rw [List.dropWhile_eq_nil_iff]
    intro d hd
    simpa using fun heq : d = c => h (heq ▸ hd)
  rw [behind, hdrop]

theorem behind_append_cons (h : c ∉ front) (cs : List Char) :
    behind c f (front ++ c :: cs) = front ++ c :: f cs := by
  have hfront : ∀ d ∈ front, (d != c) = true := by
    intro d hd
    simpa using fun heq : d = c => h (heq ▸ hd)
  rw [behind, List.dropWhile_append_of_pos hfront, List.takeWhile_append_of_pos hfront]
  simp

theorem behind_cons_self (cs : List Char) : behind c f (c :: cs) = c :: f cs :=
  behind_append_cons List.not_mem_nil cs

theorem behind_append (h : c ∉ front) (cs : List Char) :
    behind c f (front ++ cs) = front ++ behind c f cs := by
  by_cases hmem : c ∈ cs
  · obtain ⟨before, after, rfl, hbefore⟩ := List.eq_append_cons_of_mem hmem
    rw [← List.append_assoc, behind_append_cons (by simp [h, hbefore]),
      behind_append_cons hbefore, List.append_assoc]
  · rw [behind_of_not_mem (by simp [h, hmem]), behind_of_not_mem hmem]

theorem head?_behind (cs : List Char) : (behind c f cs).head? = cs.head? := by
  by_cases hmem : c ∈ cs
  · obtain ⟨before, after, rfl, hbefore⟩ := List.eq_append_cons_of_mem hmem
    rw [behind_append_cons hbefore]
    cases before <;> rfl
  · rw [behind_of_not_mem hmem]

theorem behind_cons_of_ne {d : Char} (h : d ≠ c) (cs : List Char) :
    behind c f (d :: cs) = d :: behind c f cs :=
  behind_append (fun hmem => h (List.mem_singleton.mp hmem).symm) cs

/-- What is taken from the front by a property that the character lacks is left as it is. -/
theorem dropWhile_behind {P : Char → Bool} (hc : P c = false) (cs : List Char) :
    (behind c f cs).dropWhile P = behind c f (cs.dropWhile P) ∧
      (behind c f cs).takeWhile P = cs.takeWhile P := by
  have htaken : ∀ d ∈ cs.takeWhile P, P d = true := fun d hd => List.mem_takeWhile_imp hd
  have hnot : c ∉ cs.takeWhile P := fun hmem => by
    rw [htaken c hmem] at hc
    cases hc
  have hsplit : behind c f cs = cs.takeWhile P ++ behind c f (cs.dropWhile P) := by
    rw [← behind_append hnot, List.takeWhile_append_dropWhile]
  have hhead := head?_behind (c := c) (f := f) (cs.dropWhile P)
  have hrest : (behind c f (cs.dropWhile P)).dropWhile P = behind c f (cs.dropWhile P) ∧
      (behind c f (cs.dropWhile P)).takeWhile P = [] := by
    cases hbehind : behind c f (cs.dropWhile P) with
    | nil => exact ⟨rfl, rfl⟩
    | cons d more =>
        rw [hbehind, List.head?_cons] at hhead
        have hd : ¬P d = true := by
          have hfirst := List.head?_dropWhile_not P cs
          rw [← hhead] at hfirst
          simpa using hfirst
        exact ⟨List.dropWhile_cons_of_neg hd, List.takeWhile_cons_of_neg hd⟩
  rw [hsplit, List.dropWhile_append_of_pos htaken, List.takeWhile_append_of_pos htaken, hrest.1,
    hrest.2, List.append_nil]
  exact ⟨rfl, rfl⟩

theorem trimEnd_behind (hc : Text.isBlank c = false) (hf : ∀ cs, trimEnd (f cs) = f (trimEnd cs))
    (cs : List Char) : trimEnd (behind c f cs) = behind c f (trimEnd cs) := by
  by_cases hmem : c ∈ cs
  · obtain ⟨before, after, rfl, hbefore⟩ := List.eq_append_cons_of_mem hmem
    rw [behind_append_cons hbefore, trimEnd_append_cons hc, trimEnd_append_cons hc,
      behind_append_cons hbefore, hf]
  · have hnot : c ∉ trimEnd cs := fun h => hmem ((List.rdropWhile_prefix _ _).subset h)
    rw [behind_of_not_mem hmem, behind_of_not_mem hnot]

theorem trim_behind (hc : Text.isBlank c = false) (hf : ∀ cs, trimEnd (f cs) = f (trimEnd cs))
    (cs : List Char) : Text.trim (behind c f cs) = behind c f (Text.trim cs) := by
  have hfront : skipBlanks (behind c f cs) = behind c f (skipBlanks cs) :=
    (dropWhile_behind hc cs).1
  rw [trim_eq, hfront, trimEnd_behind hc hf, trim_eq]

end Behind

/-! Paths. -/

theorem path_of_not_mem (h : '.' ∉ cs) : path p cs = cs := by
  have hnot : qualifies (skipBlanks cs) ≠ true := fun hq =>
    h ((List.dropWhile_sublist _).subset (dot_mem_of_qualifies hq))
  rw [path, mark, if_neg hnot, List.nil_append, skipBlanks, List.takeWhile_append_dropWhile]

theorem subset_path (cs : List Char) : cs ⊆ path p cs := by
  intro c hc
  rw [← List.takeWhile_append_dropWhile (p := Text.isBlank) (l := cs)] at hc
  rcases List.mem_append.mp hc with hblank | hbody
  · exact List.mem_append_left _ hblank
  · exact List.mem_append_right _ (List.mem_append_right _ hbody)

theorem mark_name {name : List Char} (hne : name ≠ []) (hname : IsNamePart name) :
    mark p (name ++ '.' :: rest) = p :=
  if_pos (qualifies_iff.mpr ⟨name, rest, hne, hname, rfl⟩)

theorem path_name {name : List Char} (hne : name ≠ []) (hname : IsNamePart name) :
    path p (name ++ '.' :: rest) = p ++ (name ++ '.' :: rest) := by
  rw [path_of_opened (hname.skipBlanks rfl), mark_name hne hname]

/-- A path with the prefix before its table. -/
def Key.Path.marked (p : List Char) (path : Path) : Path :=
  ⟨path.table.map (String.ofList p ++ ·), path.column⟩

/-- A name of at least one character. -/
def IsIdentifier (s : String) : Prop := s.toList ≠ [] ∧ IsNamePart s.toList

theorem text_marked {table : Option String} {column : String} (htable : ∀ t ∈ table, IsIdentifier t)
    (hcolumn : '.' ∉ column.toList) :
    (Path.marked p ⟨table, column⟩).text =
      String.ofList (path p (Path.text ⟨table, column⟩).toList) := by
  cases table with
  | none =>
      change column = String.ofList (path p column.toList)
      rw [path_of_not_mem hcolumn, String.ofList_toList]
  | some t =>
      obtain ⟨hne, hname⟩ := htable t rfl
      change String.ofList p ++ t ++ "." ++ column =
        String.ofList (path p (t ++ "." ++ column).toList)
      have htext : (t ++ "." ++ column).toList = t.toList ++ '.' :: column.toList := by
        simp
      rw [htext, path_name hne hname, ← htext]
      simp [String.append_assoc]

theorem isIdentifier_takeName (h : (takeName cs).1.isEmpty = false) :
    IsIdentifier (takeName cs).1 := by
  rw [takeName, isEmpty_ofList, List.isEmpty_eq_false_iff] at h
  rw [takeName, IsIdentifier, String.toList_ofList]
  exact ⟨h, fun c hc => List.mem_takeWhile_imp hc⟩

theorem IsIdentifier.no_dot {s : String} (h : IsIdentifier s) : '.' ∉ s.toList := fun hmem => by
  cases h.2 '.' hmem

theorem mark_of_takeName (hne : (takeName cs).1.isEmpty = false) :
    mark p cs = if (takeName cs).2.head? = some '.' then p else [] := by
  rw [takeName, isEmpty_ofList] at hne
  simp only [mark, qualifies, hne, takeName, Bool.not_false, Bool.true_and, beq_iff_eq]
  rfl

/-- A path is read with the prefix before its table, unless a dot is left behind it. -/
theorem takePath?_mark (hp : IsNamePart p) {path : Path} (h : takePath? cs = some (path, rest))
    (hrest : rest.head? ≠ some '.') :
    takePath? (mark p cs ++ cs) = some (path.marked p, rest) ∧
      (∀ t ∈ path.table, IsIdentifier t) ∧ IsIdentifier path.column := by
  have hread := h
  unfold takePath? at h
  dsimp only at h
  split_ifs at h with hempty
  have hne : (takeName cs).1.isEmpty = false := Bool.eq_false_iff.mpr hempty
  have hmark := mark_of_takeName (p := p) hne
  have hfirst := isIdentifier_takeName hne
  split at h
  · next more hmore =>
      split_ifs at h with hsecond
      · obtain ⟨-, rfl⟩ := Prod.mk.inj (Option.some.inj h)
        rw [hmore] at hrest
        exact absurd rfl hrest
      · obtain ⟨rfl, rfl⟩ := Prod.mk.inj (Option.some.inj h)
        rw [hmore, List.head?_cons, if_pos rfl] at hmark
        refine ⟨?_, by simpa using hfirst, isIdentifier_takeName (Bool.eq_false_iff.mpr hsecond)⟩
        unfold takePath?
        rw [hmark, hp.takeName]
        have hlonger := isEmpty_append (String.ofList p) hne
        simp only [hmore, hsecond, hlonger]
        rfl
  · next hdot =>
      obtain ⟨rfl, rfl⟩ := Prod.mk.inj (Option.some.inj h)
      rw [if_neg hrest] at hmark
      refine ⟨?_, nofun, hfirst⟩
      rw [hmark, List.nil_append]
      exact hread

/-! References to columns. -/

/-- A text that begins with a name begins with no wildcard. -/
theorem ne_star_of_takeName (hne : (takeName cs).1.isEmpty = false) (more : List Char) :
    cs ≠ '*' :: more := by
  rintro rfl
  cases hne

theorem takeColumnPath_wildcard {more : List Char} (hne : (takeName cs).1.isEmpty = false)
    (h : (takeName cs).2 = '.' :: '*' :: more) :
    takeColumnPath cs = .ok (⟨some (takeName cs).1, "*"⟩, more) := by
  unfold takeColumnPath
  split
  · exact absurd rfl (ne_star_of_takeName hne _)
  · simp only [h, hne, Bool.false_eq_true, if_false]

theorem takeColumnPath_qualified {more : List Char} (hne : (takeName cs).1.isEmpty = false)
    (h : (takeName cs).2 = '.' :: more) (hstar : ∀ rest, more ≠ '*' :: rest)
    (hsecond : (takeName more).1.isEmpty = false) :
    takeColumnPath cs = .ok (⟨some (takeName cs).1, (takeName more).1⟩, (takeName more).2) := by
  unfold takeColumnPath
  split
  · exact absurd rfl (ne_star_of_takeName hne _)
  · simp only [h, hne, hsecond, Bool.false_eq_true, if_false]

/-- The column at the front of a reference is read with the prefix before its table. -/
theorem takeColumnPath_mark (hp : IsNamePart p) {path : Path}
    (h : takeColumnPath cs = .ok (path, rest)) :
    takeColumnPath (mark p cs ++ cs) = .ok (path.marked p, rest) ∧
      ∀ t ∈ path.table, IsIdentifier t := by
  have hread := h
  unfold takeColumnPath at h
  split at h
  · obtain ⟨rfl, rfl⟩ := Prod.mk.inj (Except.ok.inj h)
    exact ⟨hread, nofun⟩
  · dsimp only at h
    split_ifs at h with hempty
    have hne : (takeName cs).1.isEmpty = false := Bool.eq_false_iff.mpr hempty
    have hmark := mark_of_takeName (p := p) hne
    have hfirst := isIdentifier_takeName hne
    have hlonger : (takeName (p ++ cs)).1.isEmpty = false := by
      rw [hp.takeName]
      exact isEmpty_append (String.ofList p) hne
    have hrest : (takeName (p ++ cs)).2 = (takeName cs).2 := by rw [hp.takeName]
    split at h
    · next more hmore =>
        obtain ⟨rfl, rfl⟩ := Prod.mk.inj (Except.ok.inj h)
        rw [hmore, List.head?_cons, if_pos rfl] at hmark
        refine ⟨?_, by simpa using hfirst⟩
        rw [hmark, takeColumnPath_wildcard hlonger (hrest.trans hmore), hp.takeName]
        rfl
    · next more hstarred hmore =>
        split_ifs at h with hsecond
        obtain ⟨rfl, rfl⟩ := Prod.mk.inj (Except.ok.inj h)
        rw [hmore, List.head?_cons, if_pos rfl] at hmark
        refine ⟨?_, by simpa using hfirst⟩
        rw [hmark, takeColumnPath_qualified hlonger (hrest.trans hmore) hstarred
          (Bool.eq_false_iff.mpr hsecond), hp.takeName]
        rfl
    · next hdot =>
        obtain ⟨rfl, rfl⟩ := Prod.mk.inj (Except.ok.inj h)
        have hhead : (takeName cs).2.head? ≠ some '.' := fun heq => by
          obtain ⟨more, hmore⟩ := List.head?_eq_some_iff.mp heq
          exact hdot more hmore
        rw [if_neg hhead] at hmark
        refine ⟨?_, nofun⟩
        rw [hmark, List.nil_append]
        exact hread

/-- A reference with the prefix before its table. -/
def ColumnRef.marked (p : List Char) (ref : ColumnRef) : ColumnRef :=
  { ref with table := ref.table.map (String.ofList p ++ ·) }

theorem columnRef_path (hp : IsNamePart p) {text : String} {ref : ColumnRef}
    (h : columnRef text = .ok ref) :
    columnRef (String.ofList (path p text.toList)) = .ok (ref.marked p) ∧
      ∀ t ∈ ref.table, IsIdentifier t := by
  rw [columnRef, orFault_eq_ok] at h
  simp only [readColumnRef, Except.bind_eq_ok] at h
  obtain ⟨⟨found, rest⟩, hpath, ⟨label, rest'⟩, hlabel, ⟨bracket, rest''⟩, hbracket, type, htype,
    _, hend, h⟩ := h
  obtain ⟨hmarked, htables⟩ := takeColumnPath_mark hp hpath
  dsimp only at hlabel hbracket htype hend h
  split_ifs at h with hwildcard
  obtain rfl := Except.ok.inj h
  refine ⟨?_, htables⟩
  rw [columnRef, orFault_eq_ok, String.toList_ofList, trim_path hp, readColumnRef]
  simp only [Except.bind_eq_ok]
  refine ⟨_, hmarked, _, hlabel, _, hbracket, _, htype, _, hend, ?_⟩
  exact if_neg hwildcard

/-- The key of an index. -/
theorem groupKey_column (hp : IsNamePart p) {key : Value} {name : String}
    (h : ColumnSpec.groupKey key = .ok name) :
    ColumnSpec.groupKey (column p key) = .ok (String.ofList (path p name.toList)) := by
  cases key with
  | str key =>
      unfold ColumnSpec.groupKey at h ⊢
      change (if (Text.trimmed key).isEmpty then ColumnSpec.malformed key .groupNeedsKey
        else .ok (Text.trimmed key)) = _ at h
      split_ifs at h with hempty
      · cases h
      obtain rfl := Except.ok.inj h
      have hne : (Text.trimmed key).isEmpty = false := Bool.eq_false_iff.mpr hempty
      have htrimmed : Text.trimmed (String.ofList (path p key.toList)) =
          String.ofList (path p (Text.trimmed key).toList) := by
        rw [Text.trimmed, Text.trimmed, String.toList_ofList, String.toList_ofList, trim_path hp,
          path_of_opened (skipBlanks_trim _)]
      have hlonger : (String.ofList (path p (Text.trimmed key).toList)).isEmpty = false := by
        rw [Text.trimmed, String.toList_ofList, path_of_opened (skipBlanks_trim _),
          String.ofList_append]
        exact isEmpty_append _ hne
      simp only [column, onText, htrimmed, hlonger]
      rfl
  | _ => cases h

/-! Tables. -/

/-- A table and its name with the prefix before both. -/
def TableRef.marked (p : List Char) (ref : TableRef) : TableRef :=
  ⟨String.ofList p ++ ref.table, ref.label.map (String.ofList p ++ ·)⟩

/-- The name in parentheses is read with the prefix before it. -/
theorem takeAlias_behind (hp : IsNamePart p) {label : Option String}
    (h : takeAlias cs = .ok (label, rest)) (hrest : '(' ∉ rest) :
    takeAlias (behind '(' (p ++ ·) cs) = .ok (label.map (String.ofList p ++ ·), rest) := by
  have hread := h
  unfold takeAlias at h
  split at h
  · next more =>
      dsimp only at h
      split at h
      · next after hafter =>
          split_ifs at h with hempty
          obtain ⟨rfl, rfl⟩ := Prod.mk.inj (Except.ok.inj h)
          have hne : (takeName more).1.isEmpty = false := Bool.eq_false_iff.mpr hempty
          have hlonger := isEmpty_append (String.ofList p) hne
          rw [behind_cons_self]
          unfold takeAlias
          simp only [hp.takeName, hafter, hlonger]
          rfl
      · cases h
  · obtain ⟨rfl, rfl⟩ := Prod.mk.inj (Except.ok.inj h)
    rw [behind_of_not_mem hrest]
    exact hread

/-- A name and what may be another name for it are read with the prefix before both. -/
theorem takeName_named (hp : IsNamePart p) (cs : List Char) :
    takeName (named p cs) = (String.ofList p ++ (takeName cs).1,
      behind '(' (p ++ ·) (takeName cs).2) := by
  obtain ⟨hdrop, htake⟩ := dropWhile_behind (c := '(') (f := (p ++ ·)) (P := isNameChar) rfl cs
  rw [named, hp.takeName, takeName, takeName, htake, hdrop]

theorem trimEnd_named (hp : IsNamePart p) (cs : List Char) :
    trimEnd (named p cs) = named p (trimEnd cs) := by
  rw [named, hp.trimEnd, trimEnd_behind rfl hp.trimEnd, named]

theorem skipBlanks_behind {c : Char} {f : List Char → List Char} (hc : Text.isBlank c = false)
    (cs : List Char) : skipBlanks (behind c f cs) = behind c f (skipBlanks cs) :=
  (dropWhile_behind hc cs).1

theorem trim_table (hp : IsNamePart p) (cs : List Char) :
    Text.trim (table p cs) = named p (Text.trim cs) := by
  have hbody : skipBlanks (behind '(' (p ++ ·) (skipBlanks cs)) =
      behind '(' (p ++ ·) (skipBlanks cs) := by
    rw [skipBlanks_behind rfl, skipBlanks_skipBlanks]
  have hfront : skipBlanks (table p cs) = named p (skipBlanks cs) := by
    rw [table, skipBlanks, List.dropWhile_append_of_pos fun c hc => List.mem_takeWhile_imp hc]
    exact hp.skipBlanks hbody
  rw [trim_eq, hfront, trimEnd_named hp, trim_eq]

theorem tableRef_table (hp : IsNamePart p) {text : String} {ref : TableRef}
    (h : tableRef text = .ok ref) :
    tableRef (String.ofList (table p text.toList)) = .ok (ref.marked p) := by
  unfold tableRef at h ⊢
  split at h
  · next found hfound =>
      obtain rfl := Except.ok.inj h
      have hmarked : readTableRef? (Text.trim (String.ofList (table p text.toList)).toList) =
          some (found.marked p) := by
        unfold readTableRef? at hfound ⊢
        rw [String.toList_ofList, trim_table hp, takeName_named hp]
        dsimp only at hfound ⊢
        split at hfound
        · cases hfound
        · next label rest halias =>
            split_ifs at hfound with hclosed
            simp only [Bool.or_eq_true, not_or, Bool.not_eq_true, Bool.not_eq_false'] at hclosed
            obtain ⟨hne, hblanks⟩ := hclosed
            have hno : '(' ∉ rest := fun hmem => by
              cases List.dropWhile_eq_nil_iff.mp (List.isEmpty_iff.mp hblanks) _ hmem
            have hlonger := isEmpty_append (String.ofList p) hne
            obtain rfl := Option.some.inj hfound
            rw [skipBlanks_behind rfl, takeAlias_behind hp halias hno]
            simp only [hlonger, hblanks]
            rfl
      rw [hmarked]
  · cases h

/-- A bracket is read as it is, and what stands behind it is rewritten. -/
theorem takeBracketed_behind {f : List Char → List Char} {tag : String}
    (h : takeBracketed cs = .ok (some tag, rest)) :
    takeBracketed (behind ']' f cs) = .ok (some tag, f rest) := by
  unfold takeBracketed at h
  split at h
  · next more =>
      split at h
      · next c after hafter =>
          obtain ⟨htag, rfl⟩ := Prod.mk.inj (Except.ok.inj h)
          obtain rfl := Option.some.inj htag
          have htaken : ∀ d ∈ more.takeWhile (· != ']'), (d != ']') = true := by
            intro d hd
            have hnot := List.mem_takeWhile_imp hd
            exact hnot
          rw [behind_cons_of_ne (by decide)]
          unfold takeBracketed behind
          simp only [hafter]
          rw [List.dropWhile_append_of_pos htaken, List.takeWhile_append_of_pos htaken]
          simp
      · cases h
  · cases h

theorem joinKey_joinKey (hp : IsNamePart p) {key : String} {parsed : JoinKey}
    (h : Key.joinKey key = .ok parsed) :
    Key.joinKey (String.ofList (Prefixed.joinKey p key.toList)) =
      .ok { parsed with target := parsed.target.marked p } := by
  rw [Key.joinKey, orFault_eq_ok] at h ⊢
  rw [String.toList_ofList, Prefixed.joinKey, trim_behind rfl (trimEnd_named hp)]
  unfold readJoinKey at h ⊢
  split at h
  · cases h
  · cases h
  · next tag rest hbracket =>
      rw [takeBracketed_behind hbracket]
      dsimp only
      split at h
      · cases h
      · next direction hdirection =>
          dsimp only at h
          split_ifs at h with hempty
          simp only [Except.bind_eq_ok] at h
          obtain ⟨⟨label, after⟩, halias, _, hend, h⟩ := h
          obtain rfl := Except.ok.inj h
          have hclosed : after = [] := by
            cases after with
            | nil => rfl
            | cons c more => cases hend
          subst hclosed
          have hlonger := isEmpty_append (String.ofList p) (Bool.eq_false_iff.mpr hempty)
          rw [takeName_named hp, hlonger, if_neg Bool.false_ne_true, skipBlanks_behind rfl,
            takeAlias_behind hp halias nofun]
          rfl

/-! Keys of data. -/

/-- What a bracket may follow, up to the end, does not begin with a dot. -/
theorem head?_ne_dot {suffix : Option String} {after : List Char}
    (h : takeBracketed (skipBlanks rest) = .ok (suffix, after))
    (hend : expectEnd after = .ok ()) : rest.head? ≠ some '.' := by
  intro hdot
  obtain ⟨more, rfl⟩ := List.head?_eq_some_iff.mp hdot
  have hread : takeBracketed (skipBlanks ('.' :: more)) = .ok (none, '.' :: more) := rfl
  rw [hread] at h
  obtain ⟨-, rfl⟩ := Prod.mk.inj (Except.ok.inj h)
  cases hend

theorem dataKey_column (hp : IsNamePart p) {key : Value} {parsed : DataKey}
    (h : dataKey key = .ok parsed) :
    dataKey (column p key) =
      .ok { parsed with column := String.ofList (path p parsed.column.toList) } := by
  cases key with
  | str key =>
      simp only [column, onText, dataKey, orFault_eq_ok] at h ⊢
      rw [String.toList_ofList, trim_path hp]
      unfold readDataKey at h
      split at h
      · cases h
      · next found rest hpath =>
          simp only [Except.bind_eq_ok] at h
          obtain ⟨⟨suffix, after⟩, hbracket, ⟨⟩, hend, mode, hmode, h⟩ := h
          obtain rfl := Except.ok.inj h
          obtain ⟨hmarked, htable, hcolumn⟩ := takePath?_mark hp hpath (head?_ne_dot hbracket hend)
          have htext := text_marked (p := p) htable hcolumn.no_dot
          rw [readDataKey, hmarked]
          simp only [Except.bind_eq_ok]
          refine ⟨_, hbracket, _, hend, _, hmode, ?_⟩
          rw [htext]
  | _ => cases h

/-! Keys of conditions. -/

theorem isConditionChar_of_isNameChar {c : Char} (h : isNameChar c = true) :
    isConditionChar c = true := by
  simp [isConditionChar, h]

theorem isBlank_of_isConditionChar {c : Char} (h : isConditionChar c = true) :
    Text.isBlank c = false := by
  simp only [isConditionChar, Bool.or_eq_true, beq_iff_eq] at h
  rcases h with (((h | rfl) | rfl) | rfl) | rfl
  · exact isBlank_of_isNameChar h
  · rfl
  · rfl
  · rfl
  · rfl

/-- The token of a key begins with a qualifier if the key does. -/
theorem mark_takeWhile (cs : List Char) : mark p (cs.takeWhile isConditionChar) = mark p cs := by
  have hsame : qualifies (cs.takeWhile isConditionChar) = qualifies cs := by
    rw [Bool.eq_iff_iff, qualifies_iff, qualifies_iff]
    constructor
    · rintro ⟨name, rest, hne, hname, heq⟩
      refine ⟨name, rest ++ cs.dropWhile isConditionChar, hne, hname, ?_⟩
      rw [← List.cons_append, ← List.append_assoc, ← heq, List.takeWhile_append_dropWhile]
    · rintro ⟨name, rest, hne, hname, rfl⟩
      refine ⟨name, rest.takeWhile isConditionChar, hne, hname, ?_⟩
      rw [List.takeWhile_append_of_pos fun c hc => isConditionChar_of_isNameChar (hname c hc)]
      rfl
  rw [mark, hsame, mark]

theorem skipBlanks_of_token (h : (cs.takeWhile isConditionChar).isEmpty = false) :
    skipBlanks cs = cs ∧
      skipBlanks (cs.takeWhile isConditionChar) = cs.takeWhile isConditionChar := by
  cases cs with
  | nil => cases h
  | cons c cs =>
      by_cases hc : isConditionChar c = true
      · have hblank : ¬Text.isBlank c = true := by
          rw [isBlank_of_isConditionChar hc]
          exact Bool.false_ne_true
        rw [List.takeWhile_cons_of_pos hc]
        exact ⟨List.dropWhile_cons_of_neg hblank, List.dropWhile_cons_of_neg hblank⟩
      · rw [List.takeWhile_cons_of_neg hc] at h
        cases h

theorem contains_append (hp : IsNamePart p) {c : Char} (hc : isNameChar c = false) :
    (p ++ cs).contains c = cs.contains c := by
  have hnot : p.contains c = false := by
    rw [List.contains_eq_mem, decide_eq_false_iff_not]
    intro hmem
    rw [hp c hmem] at hc
    cases hc
  rw [List.contains_append, hnot, Bool.false_or]

variable {call : List Char → List Char}

/-- The operator behind the token of a key. -/
def operatorBehind (rest : List Char) : Except Reason (Option ConditionOperator) :=
  match takeBracketed rest with
  | .error _ => .error .unterminatedOperator
  | .ok (none, after) => do
      expectEnd after
      .ok none
  | .ok (some op, after) =>
      match ConditionOperator.ofText? op with
      | none => .error (.unknownOperator op)
      | some operator => do
          expectEnd after
          .ok (some operator)

theorem readConditionKey_eq (hempty : (cs.takeWhile isConditionChar).isEmpty = false) :
    readConditionKey cs = (do
      let operator ← operatorBehind (cs.dropWhile isConditionChar)
      if holdsCall cs then checkCall (cs.takeWhile isConditionChar)
      .ok ⟨String.ofList (cs.takeWhile isConditionChar), operator, holdsCall cs⟩) := by
  unfold readConditionKey operatorBehind
  have hcall : ((cs.takeWhile isConditionChar).contains '(' ||
      (cs.takeWhile isConditionChar).contains ')') = holdsCall cs := rfl
  simp only [hempty, hcall, Bool.false_eq_true, if_false]
  rcases takeBracketed (cs.dropWhile isConditionChar) with reason | ⟨_ | op, after⟩
  · rfl
  · dsimp only
    cases expectEnd after <;> rfl
  · dsimp only
    cases ConditionOperator.ofText? op with
    | none => rfl
    | some operator => cases expectEnd after <;> rfl

theorem token_of_conditionKey {parsed : ConditionKey} (h : readConditionKey cs = .ok parsed) :
    (cs.takeWhile isConditionChar).isEmpty = false ∧
      parsed.column = String.ofList (cs.takeWhile isConditionChar) ∧
      parsed.isFunction = holdsCall cs := by
  have hempty : (cs.takeWhile isConditionChar).isEmpty = false := by
    rw [Bool.eq_false_iff]
    intro hempty
    unfold readConditionKey at h
    simp only [hempty, if_true] at h
    cases h
  rw [readConditionKey_eq hempty] at h
  simp only [Except.bind_eq_ok] at h
  obtain ⟨operator, -, h⟩ := h
  split_ifs at h
  · simp only [Except.bind_eq_ok] at h
    obtain ⟨-, -, h⟩ := h
    obtain rfl := Except.ok.inj h
    exact ⟨hempty, rfl, rfl⟩
  · obtain rfl := Except.ok.inj h
    exact ⟨hempty, rfl, rfl⟩

/-- The key of a column is read with the prefix before its table. -/
theorem conditionKey_path (hp : IsNamePart p) {key : String} {parsed : ConditionKey}
    (h : Key.conditionKey key = .ok parsed) (hfunction : parsed.isFunction = false) :
    Prefixed.conditionKey p call key.toList = path p key.toList ∧
      Key.conditionKey (String.ofList (path p key.toList)) =
        .ok { parsed with column := String.ofList (path p parsed.column.toList) } := by
  rw [Key.conditionKey, orFault_eq_ok] at h ⊢
  rw [String.toList_ofList]
  generalize key.toList = cs at h ⊢
  obtain ⟨hempty, hcolumn, hcall⟩ := token_of_conditionKey h
  rw [hfunction] at hcall
  have hfront := skipBlanks_of_token hempty
  have hmark := isNamePart_mark hp cs
  have htoken : (mark p cs ++ cs).takeWhile isConditionChar =
      mark p cs ++ cs.takeWhile isConditionChar :=
    List.takeWhile_append_of_pos fun c hc => isConditionChar_of_isNameChar (hmark c hc)
  have hrest : (mark p cs ++ cs).dropWhile isConditionChar = cs.dropWhile isConditionChar :=
    List.dropWhile_append_of_pos fun c hc => isConditionChar_of_isNameChar (hmark c hc)
  constructor
  · rw [Prefixed.conditionKey, ← hcall, if_neg Bool.false_ne_true]
  · have hlonger : ((mark p cs ++ cs).takeWhile isConditionChar).isEmpty = false := by
      rw [htoken]
      rw [List.isEmpty_eq_false_iff] at hempty ⊢
      exact List.append_ne_nil_of_right_ne_nil _ hempty
    have hsame : holdsCall (mark p cs ++ cs) = false := by
      rw [holdsCall, htoken, contains_append hmark rfl, contains_append hmark rfl, ← holdsCall,
        ← hcall]
    rw [readConditionKey_eq hempty, ← hcall] at h
    rw [path_of_opened hfront.1, readConditionKey_eq hlonger, hsame, htoken, hrest]
    simp only [Except.bind_eq_ok] at h ⊢
    obtain ⟨operator, hoperator, h⟩ := h
    obtain rfl := Except.ok.inj h
    refine ⟨operator, hoperator, ?_⟩
    rw [String.toList_ofList, path_of_opened hfront.2, mark_takeWhile]
    rfl

/-- The key of a call is left, if the call is written as it is. -/
theorem conditionKey_call {key : String} {parsed : ConditionKey}
    (h : Key.conditionKey key = .ok parsed) (hfunction : parsed.isFunction = true)
    (hcall : call parsed.column.toList = parsed.column.toList) :
    Prefixed.conditionKey p call key.toList = key.toList := by
  rw [Key.conditionKey, orFault_eq_ok] at h
  obtain ⟨-, hcolumn, hsame⟩ := token_of_conditionKey h
  rw [hcolumn, String.toList_ofList] at hcall
  rw [hfunction] at hsame
  rw [Prefixed.conditionKey, if_pos hsame.symm, hcall, List.takeWhile_append_dropWhile]

/-! Comparisons of columns. -/

theorem takeName_behind {c : Char} {f : List Char → List Char} (hc : isNameChar c = false)
    (cs : List Char) :
    takeName (behind c f cs) = ((takeName cs).1, behind c f (takeName cs).2) := by
  obtain ⟨hdrop, htake⟩ := dropWhile_behind (f := f) hc cs
  rw [takeName, htake, hdrop, takeName]

/-- A path is read before what is rewritten behind it. -/
theorem takePath?_behind {f : List Char → List Char} {found : Path}
    (h : takePath? cs = some (found, rest)) :
    takePath? (behind ']' f cs) = some (found, behind ']' f rest) := by
  unfold takePath? at h ⊢
  rw [takeName_behind rfl]
  dsimp only at h ⊢
  split_ifs at h ⊢ with hempty
  split at h
  · next more hmore =>
      have hbehind : behind ']' f ('.' :: more) = '.' :: behind ']' f more :=
        behind_cons_of_ne (by decide) more
      rw [hmore, hbehind]
      have hsecond := takeName_behind (c := ']') (f := f) rfl more
      simp only [hsecond]
      split_ifs at h ⊢
      · obtain ⟨rfl, rfl⟩ := Prod.mk.inj (Option.some.inj h)
        rw [hmore, hbehind]
      · obtain ⟨rfl, rfl⟩ := Prod.mk.inj (Option.some.inj h)
        rfl
  · next hdot =>
      obtain ⟨rfl, rfl⟩ := Prod.mk.inj (Option.some.inj h)
      split
      · next more hmore =>
          have hhead := head?_behind (c := ']') (f := f) (takeName cs).2
          rw [hmore, List.head?_cons] at hhead
          obtain ⟨more', hmore'⟩ := List.head?_eq_some_iff.mp hhead.symm
          exact absurd hmore' (hdot more')
      · rfl

theorem columnComparison_comparison (hp : IsNamePart p) {text : String}
    {found : ColumnComparison} (h : columnComparison? text = some found) :
    columnComparison? (String.ofList (comparison p text.toList)) =
      some ⟨String.ofList (path p found.left.toList), found.operator,
        String.ofList (path p found.right.toList)⟩ := by
  have hmarked : ∀ cs, trimEnd (mark p cs ++ cs) = mark p (trimEnd cs) ++ trimEnd cs := by
    intro cs
    rw [(isNamePart_mark hp cs).trimEnd, mark_trimEnd]
  unfold columnComparison? at h ⊢
  rw [String.toList_ofList, comparison, trim_path hp, trim_behind rfl hmarked]
  generalize Text.trim text.toList = cs at h ⊢
  simp only [Option.bind_eq_bind, Option.bind_eq_some_iff] at h ⊢
  obtain ⟨⟨left, rest⟩, hleft, h⟩ := h
  dsimp only at h
  split at h
  · next op after hbracket =>
      simp only [Option.bind_eq_some_iff] at h
      obtain ⟨⟨right, closed⟩, hright, h⟩ := h
      dsimp only at h
      split_ifs at h with hclosed
      obtain rfl := List.isEmpty_iff.mp hclosed
      simp only [Option.bind_eq_some_iff] at h
      obtain ⟨operator, hoperator, h⟩ := h
      obtain rfl := Option.some.inj h
      have hopen : (behind ']' (fun rest => mark p rest ++ rest) rest).head? ≠ some '.' := by
        rw [head?_behind]
        intro hdot
        obtain ⟨more, rfl⟩ := List.head?_eq_some_iff.mp hdot
        cases hbracket
      obtain ⟨hleft', hleftTable, hleftColumn⟩ := takePath?_mark hp (takePath?_behind hleft) hopen
      obtain ⟨hright', hrightTable, hrightColumn⟩ := takePath?_mark hp hright nofun
      refine ⟨_, hleft', ?_⟩
      dsimp only
      rw [takeBracketed_behind hbracket]
      dsimp only
      rw [hright', Option.bind_some]
      dsimp only
      rw [if_pos List.isEmpty_nil, hoperator, Option.bind_some,
        text_marked hleftTable hleftColumn.no_dot, text_marked hrightTable hrightColumn.no_dot]
  · cases h

/-! Identifiers. -/

theorem isName_iff {s : String} : isName s = true ↔ IsIdentifier s := by
  simp [isName, IsIdentifier, IsNamePart]

/-- The name of a table is quoted with the prefix, whether the prefix is configured or written. -/
theorem table_marked (hp : IsNamePart p) {name : String} {sql : Sql}
    (h : Identifier.table (String.ofList p) (.str name) = .ok sql) :
    Identifier.table "" (.str (String.ofList p ++ name)) = .ok sql := by
  simp only [Identifier.table, Identifier.check, Except.bind_eq_ok] at h ⊢
  obtain ⟨checked, hcheck, h⟩ := h
  split_ifs at hcheck with hname
  obtain rfl := Except.ok.inj hcheck
  obtain ⟨hne, hchars⟩ := isName_iff.mp hname
  have hlonger : isName (String.ofList p ++ name) = true := by
    rw [isName_iff, IsIdentifier, String.toList_append, String.toList_ofList]
    exact ⟨List.append_ne_nil_of_right_ne_nil _ hne, List.forall_mem_append.mpr ⟨hp, hchars⟩⟩
  refine ⟨_, if_pos hlonger, ?_⟩
  rw [String.empty_append]
  exact h

theorem isIdentifier_of_table {tablePrefix name : String} {sql : Sql}
    (h : Identifier.table tablePrefix (.str name) = .ok sql) : IsIdentifier name := by
  simp only [Identifier.table, Identifier.check, Except.bind_eq_ok] at h
  obtain ⟨checked, hcheck, -⟩ := h
  split_ifs at hcheck with hname
  exact isName_iff.mp hname

theorem tableRef_marked (hp : IsNamePart p) {ref : TableRef} {sql : Sql}
    (h : Identifier.tableRef (String.ofList p) ref = .ok sql) :
    Identifier.tableRef "" (ref.marked p) = .ok sql := by
  obtain ⟨table, label⟩ := ref
  simp only [Identifier.tableRef, Except.bind_eq_ok] at h ⊢
  obtain ⟨tableSql, htable, h⟩ := h
  refine ⟨tableSql, table_marked hp htable, ?_⟩
  cases label with
  | none => exact h
  | some label =>
      simp only [Except.bind_eq_ok] at h
      obtain ⟨labelSql, hlabel, h⟩ := h
      change (do
        let labelSql ← Identifier.table "" (.str (String.ofList p ++ label))
        return tableSql ++ Piece.text " AS " :: labelSql) = .ok sql
      rw [table_marked hp hlabel]
      exact h

theorem column_of_no_dot {s : String} (h : '.' ∉ s.toList) (tablePrefix : String) :
    Identifier.column tablePrefix (.str s) = Identifier.bare (.str s) := by
  have hdrop : s.toList.dropWhile (· != '.') = [] := by
    rw [List.dropWhile_eq_nil_iff]
    intro c hc
    simpa using fun heq : c = '.' => h (heq ▸ hc)
  unfold Identifier.column
  dsimp only
  rw [hdrop]

theorem column_of_dot {s : String} {front rest : List Char} (hs : s.toList = front ++ '.' :: rest)
    (hfront : '.' ∉ front) (tablePrefix : String) :
    Identifier.column tablePrefix (.str s) =
      if rest.contains '.' then .error (.invalidIdentifier s .column)
      else do
        let tableSql ← Identifier.table tablePrefix (.str (String.ofList front))
        let columnSql ← Identifier.bare (.str (String.ofList rest))
        return tableSql ++ .text "." :: columnSql := by
  have hkept : ∀ c ∈ front, (c != '.') = true := by
    intro c hc
    simpa using fun heq : c = '.' => hfront (heq ▸ hc)
  unfold Identifier.column
  dsimp only
  rw [hs, List.dropWhile_append_of_pos hkept, List.takeWhile_append_of_pos hkept]
  simp

/-- The name of a column is quoted with the prefix before its table, whether the prefix is configured
or written. -/
theorem column_marked (hp : IsNamePart p) {v : Value} {sql : Sql}
    (h : Identifier.column (String.ofList p) v = .ok sql) :
    Identifier.column "" (column p v) = .ok sql := by
  cases v with
  | str s =>
      change Identifier.column "" (.str (String.ofList (path p s.toList))) = _
      by_cases hdot : '.' ∈ s.toList
      · obtain ⟨front, rest, hs, hfront⟩ := List.eq_append_cons_of_mem hdot
        rw [column_of_dot hs hfront] at h
        split_ifs at h with hrest
        simp only [Except.bind_eq_ok] at h
        obtain ⟨tableSql, htable, columnSql, hcolumn, h⟩ := h
        have hname : IsIdentifier (String.ofList front) := isIdentifier_of_table htable
        rw [IsIdentifier, String.toList_ofList] at hname
        have hpath : path p s.toList = (p ++ front) ++ '.' :: rest := by
          rw [hs, path_name hname.1 hname.2, List.append_assoc]
        have hno : '.' ∉ p ++ front := fun hmem => by
          rcases List.mem_append.mp hmem with hmem | hmem
          · cases hp '.' hmem
          · exact hfront hmem
        rw [column_of_dot (by rw [String.toList_ofList, hpath]) hno, if_neg hrest,
          String.ofList_append, table_marked hp htable]
        simp only [Except.bind_eq_ok]
        exact ⟨tableSql, rfl, columnSql, hcolumn, h⟩
      · rw [path_of_not_mem hdot, String.ofList_toList, column_of_no_dot hdot]
        rw [column_of_no_dot hdot] at h
        exact h
  | _ => exact h

/-- The name of a table that stands alone. -/
theorem table_table (hp : IsNamePart p) {v : Value} {sql : Sql}
    (h : Identifier.table (String.ofList p) v = .ok sql) :
    Identifier.table "" (onText (table p) v) = .ok sql := by
  cases v with
  | str name =>
      obtain ⟨-, hname⟩ := isIdentifier_of_table h
      have hfront : skipBlanks name.toList = name.toList := by
        have hskip : skipBlanks (name.toList ++ []) = name.toList ++ [] := hname.skipBlanks rfl
        rwa [List.append_nil] at hskip
      have htaken : name.toList.takeWhile Text.isBlank = [] := by
        rw [List.takeWhile_eq_nil_iff]
        rwa [skipBlanks, List.dropWhile_eq_self_iff] at hfront
      have hno : '(' ∉ name.toList := fun hmem => by cases hname '(' hmem
      have htable : table p name.toList = p ++ name.toList := by
        rw [table, htaken, hfront, named, behind_of_not_mem hno, List.nil_append]
      change Identifier.table "" (.str (String.ofList (table p name.toList))) = _
      rw [htable, String.ofList_append, String.ofList_toList]
      exact table_marked hp h
  | _ => cases h

/-! The roles of keys. -/

/-- What follows the word at the front of a text. -/
theorem afterWord?_eq_some {w cs rest : List Char} (h : afterWord? w cs = some rest) :
    cs = w ++ rest := by
  induction w generalizing cs with
  | nil =>
      rw [afterWord?, Option.some.injEq] at h
      exact h
  | cons c w ih =>
      cases cs with
      | nil => cases h
      | cons d cs =>
          rw [afterWord?] at h
          split_ifs at h with hc
          rw [← beq_iff_eq.mp hc, ih h, List.cons_append]

/-- What is left of a qualified text after a word is neither empty nor begins with a blank. -/
theorem head_of_afterWord? {w : List Char} (hw : IsNamePart w) (hcs : qualifies cs = true)
    (h : afterWord? w cs = some rest) : ∃ c more, rest = c :: more ∧ Text.isBlank c = false := by
  obtain ⟨name, after, -, hname, rfl⟩ := qualifies_iff.mp hcs
  have hsplit := (afterWord?_eq_some h).symm
  rcases List.append_eq_append_iff.mp hsplit with ⟨more, rfl, rfl⟩ | ⟨more, rfl, hdot⟩
  · cases more with
    | nil => exact ⟨'.', after, rfl, rfl⟩
    | cons c more =>
        refine ⟨c, more ++ '.' :: after, rfl, isBlank_of_isNameChar (hname c ?_)⟩
        exact List.mem_append_right w List.mem_cons_self
  · cases more with
    | nil => exact ⟨'.', after, hdot.symm, rfl⟩
    | cons c more =>
        obtain ⟨rfl, -⟩ := List.cons.inj hdot
        cases hw '.' (List.mem_append_right name List.mem_cons_self)

/-- A key with a qualifier is no logical key. -/
theorem logicalKey?_of_qualifies {key : String} (h : qualifies key.toList = true) :
    logicalKey? key = none := by
  have hno : ∀ connective : Connective, ¬isLogicalKey connective key.toList = true := by
    intro connective
    have hw : IsNamePart connective.text.toList :=
      List.all_eq_true.mp (by cases connective <;> decide)
    unfold isLogicalKey
    cases hafter : afterWord? connective.text.toList key.toList with
    | none => exact Bool.false_ne_true
    | some rest =>
        obtain ⟨c, more, rfl, hc⟩ := head_of_afterWord? hw h hafter
        simp [hc]
  rw [logicalKey?, List.find?_eq_none]
  intro connective _
  exact hno connective

/-- A key that begins with a blank is no logical key. -/
theorem logicalKey?_of_blank {key : String} {c : Char} {more : List Char}
    (hkey : key.toList = c :: more) (hc : Text.isBlank c = true) : logicalKey? key = none := by
  rw [logicalKey?, List.find?_eq_none]
  intro connective _
  have hnone : afterWord? connective.text.toList key.toList = none := by
    have hletter : ∀ d more', d = 'A' ∨ d = 'O' → afterWord? (d :: more') (c :: more) = none := by
      intro d more' hd
      refine if_neg fun heq => ?_
      rw [← beq_iff_eq.mp heq] at hc
      rcases hd with rfl | rfl <;> cases hc
    rw [hkey]
    cases connective with
    | and => exact hletter 'A' _ (.inl rfl)
    | or => exact hletter 'O' _ (.inr rfl)
  simp [isLogicalKey, hnone]

/-- The prefix before a qualifier makes no logical key, and unmakes none. -/
theorem logicalKey?_path (hp : IsNamePart p) (key : String) :
    logicalKey? (String.ofList (path p key.toList)) = logicalKey? key := by
  by_cases hfront : skipBlanks key.toList = key.toList
  · rw [path_of_opened hfront, mark]
    split_ifs with hqualifies
    · have hlonger := hp.qualifies hqualifies
      rw [logicalKey?_of_qualifies hqualifies,
        logicalKey?_of_qualifies (by rw [String.toList_ofList]; exact hlonger)]
    · rw [List.nil_append, String.ofList_toList]
  · cases hkey : key.toList with
    | nil =>
        rw [hkey] at hfront
        exact absurd rfl hfront
    | cons c more =>
        have hc : Text.isBlank c = true := by
          by_contra hnot
          rw [hkey] at hfront
          exact hfront (List.dropWhile_cons_of_neg hnot)
        have hpath : ∃ more', path p (c :: more) = c :: more' := by
          rw [path, List.takeWhile_cons_of_pos hc, List.cons_append]
          exact ⟨_, rfl⟩
        obtain ⟨more', hmore'⟩ := hpath
        rw [hmore', logicalKey?_of_blank hkey hc,
          logicalKey?_of_blank String.toList_ofList hc]

/-! Keys stay apart. -/

/-- Different texts stay different with the prefix. -/
theorem path_injective (hp : IsNamePart p) {cs ds : List Char} (h : path p cs = path p ds) :
    cs = ds := by
  have hblanks : ∀ cs, (path p cs).takeWhile Text.isBlank = cs.takeWhile Text.isBlank := by
    intro cs
    have hsplit := List.takeWhile_append_dropWhile (p := Text.isBlank) (l := path p cs)
    rw [← skipBlanks, skipBlanks_path hp] at hsplit
    conv_rhs at hsplit => rw [path]
    exact List.append_cancel_right hsplit
  have hbody : mark p (skipBlanks cs) ++ skipBlanks cs =
      mark p (skipBlanks ds) ++ skipBlanks ds := by
    rw [← skipBlanks_path hp, ← skipBlanks_path hp, h]
  have hsame : skipBlanks cs = skipBlanks ds := by
    unfold mark at hbody
    split_ifs at hbody with hcs hds hds
    · exact List.append_cancel_left hbody
    · rw [List.nil_append] at hbody
      rw [← hbody] at hds
      exact absurd (hp.qualifies hcs) hds
    · rw [List.nil_append] at hbody
      rw [hbody] at hcs
      exact absurd (hp.qualifies hds) hcs
    · exact hbody
  have hfront := hblanks cs
  rw [h, hblanks ds] at hfront
  rw [← List.takeWhile_append_dropWhile (p := Text.isBlank) (l := cs), ← hfront]
  change ds.takeWhile Text.isBlank ++ skipBlanks cs = ds
  rw [hsame, skipBlanks, List.takeWhile_append_dropWhile]

/-- Columns with the prefix are equal as keys if they are equal without it. -/
theorem column_beq_column (hp : IsNamePart p) (v w : Value) :
    (column p v == column p w) = (v == w) := by
  cases v with
  | str s =>
      cases w with
      | str r =>
          change (Value.str (String.ofList (path p s.toList)) ==
            Value.str (String.ofList (path p r.toList))) = _
          rw [Value.str_beq_str, Value.str_beq_str, Bool.eq_iff_iff, beq_iff_eq, beq_iff_eq]
          constructor
          · intro h
            have hlists := path_injective hp (String.ofList_injective h)
            exact String.toList_injective hlists
          · rintro rfl
            rfl
      | _ => rfl
  | _ =>
      cases w with
      | str r => rfl
      | _ => rfl

/-- A star stands for no qualified column. -/
theorem path_beq_star (hp : IsNamePart p) (text : String) :
    (String.ofList (path p text.toList) == "*") = (text == "*") := by
  have hstar := column_beq_column hp (.str text) (.str "*")
  have hsame : column p (.str "*") = .str "*" := by
    change Value.str (String.ofList (path p "*".toList)) = .str "*"
    rw [path_of_not_mem (by decide), String.ofList_toList]
  rw [hsame, Value.str_beq_str] at hstar
  rw [← hstar, column, onText, Value.str_beq_str]

end QueryLoom
