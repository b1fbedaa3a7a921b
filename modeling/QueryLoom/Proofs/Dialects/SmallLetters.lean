import Mathlib.Tactic.Common
import QueryLoom.Proofs.Prefixes.Keys
import QueryLoom.Sql.Registry

/-!
The form in which names of dialects are compared. A small letter is no capital, and it is a blank only
if it was one before, so a text in small letters is its own, and a name in the form in which it is
compared keeps that form.
-/

namespace QueryLoom

namespace Text

/-! The table of capitals. -/

namespace CapitalRun

/-- Whether a code point is one of the run. -/
def Holds (run : CapitalRun) (n : Nat) : Prop :=
  run.1 ≤ n ∧ n ≤ run.2.1 ∧ (n - run.1) % run.2.2.1 = 0

instance (run : CapitalRun) (n : Nat) : Decidable (run.Holds n) :=
  inferInstanceAs (Decidable (_ ∧ _ ∧ _))

/-- The code point of the small letter of one of the run. -/
def small (run : CapitalRun) (n : Nat) : Nat := (n + run.2.2.2).toNat

/-- Whether its ends and its step tell that a run of small letters has none in common with a run of
capitals. -/
def apart (low high step : Nat) (other : CapitalRun) : Bool :=
  Nat.blt high other.1 || (Nat.blt other.2.1 low ||
    (Nat.beq other.2.2.1 2 && (Nat.beq step 2 || Nat.beq low high) &&
      Nat.beq ((low - other.1) % 2) 1))

/-- Whether the small letters of a run are characters. -/
def inRange (run : CapitalRun) : Bool :=
  decide (0 ≤ run.1 + run.2.2.2) &&
    (decide (run.2.1 + run.2.2.2 < 0xD800) ||
      decide (0xE000 ≤ run.1 + run.2.2.2) && decide (run.2.1 + run.2.2.2 < 0x110000))

variable {run other : CapitalRun} {n : Nat}

theorem not_holds_of_apart (hrun : run.Holds n)
    (h : apart (run.small run.1) (run.small run.2.1) run.2.2.1 other = true) :
    ¬ other.Holds (run.small n) := by
  rintro ⟨hfirst, hlast, hstep⟩
  obtain ⟨hleft, hright, hruns⟩ := hrun
  unfold small at *
  simp only [apart, Bool.or_eq_true, Bool.and_eq_true, Nat.blt_eq, Nat.beq_eq] at h
  rcases h with hbelow | habove | ⟨⟨htwo, hsame⟩, hodd⟩
  · omega
  · omega
  · rw [htwo] at hstep
    rcases hsame with htwo' | hone
    · rw [htwo'] at hruns
      omega
    · omega

theorem isValidChar_of_inRange (h : run.inRange = true) (hrun : run.Holds n) :
    (run.small n).isValidChar := by
  obtain ⟨hleft, hright, -⟩ := hrun
  simp only [inRange, Bool.or_eq_true, Bool.and_eq_true, decide_eq_true_eq] at h
  unfold Nat.isValidChar small
  omega

end CapitalRun

/-- All capitals, those of ASCII and the dotted capital I included. -/
def capitals : List CapitalRun := (0x41, 0x5A, 1, 32) :: (0x130, 0x130, 1, -199) :: capitalRuns

/-- The blanks, in runs. -/
def blankRuns : List CapitalRun :=
  [(9, 13, 1, 0), (28, 32, 1, 0), (0x85, 0x85, 1, 0), (0xA0, 0xA0, 1, 0), (0x1680, 0x1680, 1, 0),
   (0x2000, 0x200A, 1, 0), (0x2028, 0x2029, 1, 0), (0x202F, 0x202F, 1, 0), (0x205F, 0x205F, 1, 0),
   (0x3000, 0x3000, 1, 0)]

theorem capitals_apart : (capitals.all fun run => run.inRange &&
    (blankRuns ++ capitals).all
      (CapitalRun.apart (run.small run.1) (run.small run.2.1) run.2.2.1)) = true := by
  decide +kernel

theorem capitalRuns_beyond_ascii :
    (capitalRuns.all fun run => decide (128 ≤ run.1)) = true := by
  decide +kernel

theorem toLower_ascii : ∀ n < 128, (Char.ofNat n).toLower =
    if 0x41 ≤ n ∧ n ≤ 0x5A then Char.ofNat (n + 32) else Char.ofNat n := by
  decide

theorem holds_of_isBlank {c : Char} (h : isBlank c = true) : ∃ run ∈ blankRuns, run.Holds c.toNat := by
  simp only [isBlank, Bool.or_eq_true, Bool.and_eq_true, decide_eq_true_eq, beq_iff_eq] at h
  simp only [blankRuns, List.exists_mem_cons_iff, CapitalRun.Holds, Nat.mod_one, List.not_mem_nil,
    false_and, exists_false, and_true, or_false]
  omega

/-! One character. -/

def IsCapital (c : Char) : Prop := ∃ run ∈ capitals, run.Holds c.toNat

instance (c : Char) : Decidable (IsCapital c) :=
  inferInstanceAs (Decidable (∃ run ∈ capitals, run.Holds c.toNat))

theorem not_isCapital {c : Char} (hascii : ¬ (0x41 ≤ c.toNat ∧ c.toNat ≤ 0x5A))
    (hdotted : c.toNat ≠ 0x130) (hrest : ∀ run ∈ capitalRuns, ¬ run.Holds c.toNat) :
    ¬ IsCapital c := by
  simp only [IsCapital, capitals, List.exists_mem_cons_iff, CapitalRun.Holds, Nat.mod_one, and_true]
  rintro (hletter | hi | ⟨run, hrun, hholds⟩)
  · exact hascii hletter
  · omega
  · exact hrest run hrun hholds

/-- The small letter of a capital stands at the distance of a run it belongs to, with or without a dot
behind it. Any other character is its own small letter. -/
theorem smallLetter_cases (c : Char) :
    (¬ IsCapital c ∧ smallLetter c = [c]) ∨
      ∃ run ∈ capitals, run.Holds c.toNat ∧ ∃ dots, (∀ d ∈ dots, d = Char.ofNat 0x307) ∧
        smallLetter c = Char.ofNat (run.small c.toNat) :: dots := by
  unfold smallLetter
  dsimp only
  split_ifs with hascii hi
  · have hlower := toLower_ascii c.toNat hascii
    rw [Char.ofNat_toNat] at hlower
    split_ifs at hlower with hletter
    · refine .inr ⟨_, List.mem_cons_self, ⟨hletter.1, hletter.2, Nat.mod_one _⟩, [], nofun, ?_⟩
      rw [hlower]
      rfl
    · refine .inl ⟨not_isCapital hletter (by omega) fun run hrun hholds => ?_, by rw [hlower]⟩
      have hbeyond := List.all_eq_true.mp capitalRuns_beyond_ascii run hrun
      rw [decide_eq_true_eq] at hbeyond
      have hfirst := hholds.1
      omega
  · rw [beq_iff_eq] at hi
    refine .inr ⟨_, List.mem_cons_of_mem _ List.mem_cons_self, ?_, [Char.ofNat 0x307], by simp, ?_⟩
    · rw [hi]
      exact ⟨le_refl _, le_refl _, rfl⟩
    · rw [hi]
      rfl
  · rw [beq_iff_eq] at hi
    split
    · rename_i first last step distance hfound
      have hholds := List.find?_some hfound
      have hmem := List.mem_of_find?_eq_some hfound
      simp only [Bool.and_eq_true, decide_eq_true_eq, beq_iff_eq] at hholds
      exact .inr ⟨_, List.mem_cons_of_mem _ (List.mem_cons_of_mem _ hmem),
        ⟨hholds.1.1, hholds.1.2, hholds.2⟩, [], nofun, rfl⟩
    · rename_i hnone
      refine .inl ⟨not_isCapital (by omega) hi ?_, rfl⟩
      rintro run hrun ⟨hfirst, hlast, hstep⟩
      have hfails := List.find?_eq_none.mp hnone run hrun
      simp [hfirst, hlast, hstep] at hfails

theorem smallLetter_of_not_isCapital {c : Char} (h : ¬ IsCapital c) : smallLetter c = [c] := by
  rcases smallLetter_cases c with ⟨-, hsame⟩ | ⟨run, hrun, hholds, -⟩
  · exact hsame
  · exact absurd ⟨run, hrun, hholds⟩ h

/-- A small letter is no capital, and no blank unless it was one before. -/
theorem of_mem_smallLetter {c d : Char} (h : d ∈ smallLetter c) :
    ¬ IsCapital d ∧ (isBlank d = true → d = c) := by
  rcases smallLetter_cases c with ⟨hc, hsame⟩ | ⟨run, hrun, hholds, dots, hdots, hsmall⟩
  · rw [hsame, List.mem_singleton] at h
    subst h
    exact ⟨hc, fun _ => rfl⟩
  · rw [hsmall, List.mem_cons] at h
    rcases h with rfl | hdot
    · have hchecked := List.all_eq_true.mp capitals_apart run hrun
      rw [Bool.and_eq_true] at hchecked
      obtain ⟨hrange, hapart⟩ := hchecked
      have hvalid := CapitalRun.isValidChar_of_inRange hrange hholds
      have hcode : (Char.ofNat (run.small c.toNat)).toNat = run.small c.toNat := by
        rw [Char.ofNat, dif_pos hvalid]
        rfl
      have hother : ∀ other ∈ blankRuns ++ capitals,
          ¬ other.Holds (Char.ofNat (run.small c.toNat)).toNat := by
        intro other hmem
        rw [hcode]
        exact CapitalRun.not_holds_of_apart hholds (List.all_eq_true.mp hapart other hmem)
      refine ⟨?_, fun hblank => ?_⟩
      · rintro ⟨other, hmem, hcapital⟩
        exact hother other (List.mem_append_right _ hmem) hcapital
      · obtain ⟨other, hmem, hheld⟩ := holds_of_isBlank hblank
        exact absurd hheld (hother other (List.mem_append_left _ hmem))
    · rw [hdots d hdot]
      exact ⟨by decide +kernel, fun hblank => absurd hblank (by decide)⟩

/-! Texts. -/

variable {cs : List Char}

/-- What a character becomes in a text is not empty, holds no capital, and no blank unless it was
one. -/
theorem exists_small_cons (before : List Char) (c : Char) (rest : List Char) :
    ∃ small, smallLettersFrom before (c :: rest) = small ++ smallLettersFrom (c :: before) rest ∧
      small ≠ [] ∧ ∀ d ∈ small, ¬ IsCapital d ∧ (isBlank d = true → d = c) := by
  refine ⟨_, rfl, ?_, ?_⟩
  · split_ifs
    · exact List.cons_ne_nil _ _
    · exact List.cons_ne_nil _ _
    · rcases smallLetter_cases c with ⟨-, hsame⟩ | ⟨run, -, -, dots, -, hsmall⟩
      · rw [hsame]
        exact List.cons_ne_nil _ _
      · rw [hsmall]
        exact List.cons_ne_nil _ _
  · intro d hd
    split_ifs at hd with hsigma hfinal
    · rw [List.mem_singleton.mp hd]
      exact ⟨by decide +kernel, fun hblank => absurd hblank (by decide)⟩
    · rw [List.mem_singleton.mp hd]
      exact ⟨by decide +kernel, fun hblank => absurd hblank (by decide)⟩
    · exact of_mem_smallLetter hd

theorem not_isCapital_of_mem_smallLettersFrom {before : List Char} {d : Char}
    (h : d ∈ smallLettersFrom before cs) :
    ¬ IsCapital d := by
  induction cs generalizing before with
  | nil => cases h
  | cons c rest ih =>
      obtain ⟨small, heq, -, hsmall⟩ := exists_small_cons before c rest
      rw [heq, List.mem_append] at h
      rcases h with hc | hrest
      · exact (hsmall d hc).1
      · exact ih hrest

theorem smallLettersFrom_of_no_capital (before : List Char) (h : ∀ c ∈ cs, ¬ IsCapital c) :
    smallLettersFrom before cs = cs := by
  induction cs generalizing before with
  | nil => rfl
  | cons c rest ih =>
      rw [List.forall_mem_cons] at h
      have hsigma : ¬ (c.toNat == 0x3A3) = true := by
        rw [beq_iff_eq]
        intro heq
        have hc : c = Char.ofNat 0x3A3 := by rw [← heq, Char.ofNat_toNat]
        rw [hc] at h
        exact h.1 (by decide +kernel)
      rw [smallLettersFrom, if_neg hsigma, smallLetter_of_not_isCapital h.1, ih _ h.2]
      rfl

theorem skipBlanks_smallLettersFrom (before : List Char) (h : Key.skipBlanks cs = cs) :
    Key.skipBlanks (smallLettersFrom before cs) = smallLettersFrom before cs := by
  cases cs with
  | nil => rfl
  | cons c rest =>
      have hc : isBlank c = false := by
        rw [Key.skipBlanks, List.dropWhile_eq_self_iff] at h
        simpa using h (Nat.succ_pos _)
      obtain ⟨small, heq, hne, hsmall⟩ := exists_small_cons before c rest
      obtain ⟨d, more, rfl⟩ := List.exists_cons_of_ne_nil hne
      rw [heq]
      refine List.dropWhile_cons_of_neg fun hblank => ?_
      rw [(hsmall d List.mem_cons_self).2 hblank, hc] at hblank
      cases hblank

/-- A text in small letters ends in what its last character became. -/
theorem exists_small_concat (before cs : List Char) (c : Char) :
    ∃ front d, smallLettersFrom before (cs ++ [c]) = front ++ [d] ∧ (isBlank d = true → d = c) := by
  induction cs generalizing before with
  | nil =>
      obtain ⟨small, heq, hne, hsmall⟩ := exists_small_cons before c []
      refine ⟨small.dropLast, small.getLast hne, ?_, (hsmall _ (List.getLast_mem hne)).2⟩
      rw [List.nil_append, heq, smallLettersFrom, List.append_nil, List.dropLast_append_getLast]
  | cons x rest ih =>
      obtain ⟨small, heq, -, -⟩ := exists_small_cons before x (rest ++ [c])
      obtain ⟨front, d, hrest, hd⟩ := ih (x :: before)
      exact ⟨small ++ front, d, by rw [List.cons_append, heq, hrest, List.append_assoc], hd⟩

theorem trimEnd_smallLettersFrom (before : List Char) (h : trimEnd cs = cs) :
    trimEnd (smallLettersFrom before cs) = smallLettersFrom before cs := by
  rcases List.eq_nil_or_concat' cs with rfl | ⟨front, c, rfl⟩
  · rfl
  · have hc : isBlank c = false := by
      have hlast := List.rdropWhile_eq_self_iff.mp h (by simp)
      simpa using hlast
    obtain ⟨small, d, heq, hd⟩ := exists_small_concat before front c
    rw [heq]
    refine List.rdropWhile_concat_neg _ _ _ fun hblank => ?_
    rw [hd hblank, hc] at hblank
    cases hblank

end Text

/-! Names of dialects. -/

theorem trimEnd_trim (cs : List Char) : trimEnd (Text.trim cs) = Text.trim cs :=
  List.rdropWhile_idempotent _ _

namespace DialectTable

/-- A name in the form in which it is compared keeps that form. -/
theorem nameForm_nameForm (name : String) : nameForm (nameForm name) = nameForm name := by
  have htrimmed : Text.trim (Text.smallLettersFrom [] (Text.trim name.toList)) =
      Text.smallLettersFrom [] (Text.trim name.toList) := by
    have hfront := Text.skipBlanks_smallLettersFrom [] (skipBlanks_trim name.toList)
    have hend := Text.trimEnd_smallLettersFrom [] (trimEnd_trim name.toList)
    rw [trim_eq, hfront, hend]
  have hsmall : Text.smallLettersFrom [] (Text.smallLettersFrom [] (Text.trim name.toList)) =
      Text.smallLettersFrom [] (Text.trim name.toList) :=
    Text.smallLettersFrom_of_no_capital [] fun _ => Text.not_isCapital_of_mem_smallLettersFrom
  unfold nameForm Text.smallLetters Text.trimmed
  simp only [String.toList_ofList, htrimmed, hsmall]

end DialectTable

end QueryLoom
