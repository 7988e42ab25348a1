import Rpn.Proofs.Numerals

/-! Lexemes are maximal runs.

A lexeme leads a text if it is in its group and cannot be extended into what follows: a
run of blanks ends where no blank follows, and a run of word characters where no word
character follows. Every text is led by a lexeme, and `cut` takes off the one that leads,
so facts about lines are shown lexeme by lexeme (`text_induction`). This leaves `cut` no
choice: whatever takes a text apart into maximal runs and single parentheses gives the
lexemes that `cut` gives (`munches_iff`). Of blanks it matters only that they separate
(`filter_cut_append`). -/
namespace Rpn.Lexeme

def chars (l : Lexeme) : List Char := l.text.toList

theorem mk_chars (l : Lexeme) : ⟨l.group, String.ofList l.chars⟩ = l := by
  rw [chars, String.ofList_toList]

/-! ### Runs -/

/-- A run of a class of characters that neither what is before it nor what is after it goes
on with. -/
structure MaximalRun (p : Char → Bool) (before run after : List Char) : Prop where
  nonempty : run ≠ []
  chars : ∀ c ∈ run, p c = true
  left : ∀ c, before.getLast? = some c → p c = false
  right : ∀ c, after.head? = some c → p c = false

theorem span_run {p : Char → Bool} {run after : List Char} (hrun : ∀ c ∈ run, p c = true)
    (hafter : ∀ c, after.head? = some c → p c = false) :
    (run ++ after).takeWhile p = run ∧ (run ++ after).dropWhile p = after := by
  rw [List.takeWhile_append_of_pos hrun, List.dropWhile_append_of_pos hrun]
  cases after with
  | nil => simp
  | cons c s => simp [hafter c rfl]

theorem not_head?_dropWhile (p : Char → Bool) (s : List Char) :
    ∀ c, (s.dropWhile p).head? = some c → p c = false := by
  intro c h
  have hnot := List.head?_dropWhile_not p s
  rw [h] at hnot
  exact hnot

/-- The run that a text starts with. -/
theorem maximalRun_takeWhile {p : Char → Bool} {c : Char} (hc : p c = true) (s : List Char) :
    MaximalRun p [] (c :: s.takeWhile p) (s.dropWhile p) where
  nonempty := nofun
  chars := List.forall_mem_cons.mpr ⟨hc, List.all_eq_true.mp List.all_takeWhile⟩
  left := nofun
  right := not_head?_dropWhile p s

/-! ### Lexemes in a text -/

/-- A lexeme between two texts: it is in its group, and neither text goes on with it. -/
def Fits (l : Lexeme) (before after : List Char) : Prop :=
  match l.group with
  | .space => MaximalRun Text.isBlank before l.chars after
  | .marker => l.chars = ['('] ∨ l.chars = [')']
  | .number => MaximalRun isWordChar before l.chars after ∧ l.chars ∈ Numeral.numerals
  | .word => MaximalRun isWordChar before l.chars after ∧ l.chars ∉ Numeral.numerals

/-- The characters of the lexemes of a group. -/
def Group.has : Group → Char → Bool
  | space => Text.isBlank
  | marker => isParenthesis
  | number | word => isWordChar

theorem isParenthesis_iff {c : Char} : isParenthesis c = true ↔ c = '(' ∨ c = ')' := by
  simp [isParenthesis]

theorem not_isParenthesis_of_isBlank {c : Char} (h : Text.isBlank c = true) :
    isParenthesis c = false := by
  by_contra hparen
  rcases isParenthesis_iff.mp (by simpa using hparen) with rfl | rfl <;> revert h <;> decide

/-- The classes of characters are disjoint. -/
theorem Group.has_eq {g g' : Group} {c : Char} (h : g.has c = true) (h' : g'.has c = true) :
    g.has = g'.has ∧ (g = .marker ↔ g' = .marker) := by
  have hdisjoint := @not_isParenthesis_of_isBlank c
  cases g <;> cases g' <;> simp_all [has, isWordChar]

namespace Fits
variable {l : Lexeme} {before after : List Char}

theorem nonempty (h : l.Fits before after) : l.chars ≠ [] := by
  unfold Fits at h
  split at h
  · exact MaximalRun.nonempty h
  · rcases h with h | h <;> simp [h]
  · exact h.1.nonempty
  · exact h.1.nonempty

theorem has (h : l.Fits before after) : ∀ c ∈ l.chars, l.group.has c = true := by
  unfold Fits at h
  cases hg : l.group <;> simp only [hg] at h
  · exact h.1.chars
  · rcases h with h | h <;> simp [h, Group.has, isParenthesis]
  · exact h.1.chars
  · exact h.chars

theorem left (h : l.Fits before after) (hg : l.group ≠ .marker) :
    ∀ c, before.getLast? = some c → l.group.has c = false := by
  unfold Fits at h
  cases hl : l.group <;> simp only [hl] at h
  · exact h.1.left
  · exact absurd hl hg
  · exact h.1.left
  · exact h.left

theorem right (h : l.Fits before after) (hg : l.group ≠ .marker) :
    ∀ c, after.head? = some c → l.group.has c = false := by
  unfold Fits at h
  cases hl : l.group <;> simp only [hl] at h
  · exact h.1.right
  · exact absurd hl hg
  · exact h.1.right
  · exact h.right

/-- What fits at the front of a text fits wherever nothing before it goes on with it, and
its end is where nothing after it does. -/
theorem move (h : l.Fits before after) {before' after' : List Char}
    (hleft : l.group ≠ .marker → ∀ c, before'.getLast? = some c → l.group.has c = false)
    (hright : l.group ≠ .marker → ∀ c, after'.head? = some c → l.group.has c = false) :
    l.Fits before' after' := by
  unfold Fits at h ⊢
  cases hg : l.group <;> simp only [hg, ne_eq, reduceCtorEq, not_false_eq_true, true_implies,
    not_true_eq_false, false_implies] at h hleft hright ⊢
  · exact ⟨⟨h.1.nonempty, h.1.chars, hleft, hright⟩, h.2⟩
  · exact h
  · exact ⟨⟨h.1.nonempty, h.1.chars, hleft, hright⟩, h.2⟩
  · exact ⟨h.nonempty, h.chars, hleft, hright⟩

end Fits

theorem chars_ofRun (run : List Char) : (ofRun run).chars = run := String.toList_ofList

theorem fits_ofRun {run before after : List Char} (h : MaximalRun isWordChar before run after) :
    (ofRun run).Fits before after := by
  have hnumeral := Numeral.isNumeral_iff run
  by_cases hnum : Numeral.isNumeral run = true <;> simp_all [Fits, chars, ofRun]

/-- Every text is led by a lexeme. -/
theorem exists_fits (c : Char) (s : List Char) :
    ∃ l after, c :: s = chars l ++ after ∧ l.Fits [] after := by
  by_cases hblank : Text.isBlank c = true
  · refine ⟨⟨.space, String.ofList (c :: s.takeWhile Text.isBlank)⟩, s.dropWhile Text.isBlank, ?_⟩
    simpa [chars, Fits] using maximalRun_takeWhile hblank s
  by_cases hparen : isParenthesis c = true
  · refine ⟨⟨.marker, String.ofList [c]⟩, s, ?_⟩
    simpa [chars, Fits] using isParenthesis_iff.mp hparen
  · have hword : isWordChar c = true := by simp [isWordChar, hblank, hparen]
    refine ⟨ofRun (c :: s.takeWhile isWordChar), s.dropWhile isWordChar, ?_,
      fits_ofRun (maximalRun_takeWhile hword s)⟩
    rw [chars_ofRun, List.cons_append, List.takeWhile_append_dropWhile]

/-- A run of word characters is cut off whole. -/
theorem cut_of_run {run after : List Char} (h : MaximalRun isWordChar [] run after) :
    cut (run ++ after) = ofRun run :: cut after := by
  obtain ⟨c, r, rfl⟩ := List.exists_cons_of_ne_nil h.nonempty
  have hchars := List.forall_mem_cons.mp h.chars
  have hc : Text.isBlank c = false ∧ isParenthesis c = false := by
    simpa [isWordChar] using hchars.1
  obtain ⟨htake, hdrop⟩ := span_run hchars.2 h.right
  rw [List.cons_append, cut, hc.1, hc.2, htake, hdrop]
  rfl

/-- The lexeme that leads a text is cut off. -/
theorem cut_of_fits {l : Lexeme} {after : List Char} (h : l.Fits [] after) :
    cut (l.chars ++ after) = l :: cut after := by
  have hmk := l.mk_chars
  unfold Fits at h
  cases hg : l.group <;> simp only [hg] at h hmk
  case space =>
    obtain ⟨c, r, hl⟩ := List.exists_cons_of_ne_nil h.nonempty
    rw [hl] at h hmk ⊢
    have hchars := List.forall_mem_cons.mp h.chars
    obtain ⟨htake, hdrop⟩ := span_run hchars.2 h.right
    rw [List.cons_append, cut, if_pos hchars.1, htake, hdrop, hmk]
  case marker =>
    rcases h with h | h
    all_goals
      rw [h] at hmk ⊢
      rw [List.singleton_append, cut, if_neg (by decide), if_pos (by decide), hmk]
  case number =>
    rw [cut_of_run h.1, ofRun, if_pos ((Numeral.isNumeral_iff _).mpr h.2), hmk]
  case word =>
    rw [cut_of_run h.1, ofRun, if_neg (fun hn => h.2 ((Numeral.isNumeral_iff _).mp hn)), hmk]

/-- What holds of the empty text, and of a text led by a lexeme if it holds of the rest,
holds of every text. -/
theorem text_induction {P : List Char → Prop} (nil : P [])
    (lead : ∀ (l : Lexeme) after, l.Fits [] after → P after → P (l.chars ++ after))
    (s : List Char) : P s := by
  induction hn : s.length using Nat.strongRecOn generalizing s with
  | ind n ih =>
    cases s with
    | nil => exact nil
    | cons c s =>
      obtain ⟨l, after, heq, hfits⟩ := exists_fits c s
      have hpos := List.length_pos_iff.mpr hfits.nonempty
      rw [heq, List.length_append] at hn
      rw [heq]
      exact lead l after hfits (ih after.length (by omega) after rfl)

/-! ### Maximal munch -/

/-- The lexemes make up the text, and each is a maximal run of its class of characters or
a single parenthesis. -/
structure Munches (s : List Char) (ls : List Lexeme) : Prop where
  lossless : ls.flatMap chars = s
  fits : ∀ before l after, ls = before ++ l :: after →
    l.Fits (before.flatMap chars) (after.flatMap chars)

/-- Of two lexemes in a row the first has no character that the second could go on with. -/
theorem Fits.apart {l l' : Lexeme} {before before' after after' : List Char}
    (h : l.Fits before (l'.chars ++ after)) (h' : l'.Fits before' after')
    (hg : l'.group ≠ .marker) {c : Char} (hc : c ∈ l.chars) : l'.group.has c = false := by
  by_contra hcontra
  obtain ⟨hclass, hmarker⟩ := Group.has_eq (by simpa using hcontra) (h.has c hc)
  obtain ⟨d, r, hd⟩ := List.exists_cons_of_ne_nil h'.nonempty
  have hin : l'.group.has d = true := h'.has d (by simp [hd])
  have hout : l.group.has d = false := h.right (fun hm => hg (hmarker.mpr hm)) d (by simp [hd])
  rw [hclass, hout] at hin
  cases hin

theorem Munches.cons {l : Lexeme} {s : List Char} {ls : List Lexeme} (hl : l.Fits [] s)
    (h : Munches s ls) : Munches (l.chars ++ s) (l :: ls) where
  lossless := by rw [List.flatMap_cons, h.lossless]
  fits := by
    intro before l' after heq
    cases before with
    | nil =>
      obtain ⟨rfl, rfl⟩ := List.cons.inj heq
      rwa [h.lossless]
    | cons b before =>
      rw [List.cons_append] at heq
      obtain ⟨rfl, rfl⟩ := List.cons.inj heq
      have hl' := h.fits before l' after rfl
      refine hl'.move (fun hg c hc => ?_) hl'.right
      rw [List.flatMap_cons, List.getLast?_append] at hc
      cases hlast : (before.flatMap chars).getLast? with
      | some d =>
        rw [hlast] at hc
        exact hl'.left hg c (hlast.trans hc)
      | none =>
        -- nothing is between the two lexemes
        rw [hlast, Option.none_or] at hc
        rw [List.getLast?_eq_none_iff] at hlast
        rw [← h.lossless, List.flatMap_append, hlast, List.nil_append, List.flatMap_cons] at hl
        exact hl.apart hl' hg (List.mem_of_getLast? hc)

theorem Munches.tail {l : Lexeme} {s : List Char} {ls : List Lexeme} (h : Munches s (l :: ls)) :
    Munches (ls.flatMap chars) ls where
  lossless := rfl
  fits := by
    intro before l' after heq
    have hl' := h.fits (l :: before) l' after (by rw [heq, List.cons_append])
    refine hl'.move (fun hg c hc => hl'.left hg c ?_) hl'.right
    rw [List.flatMap_cons, List.getLast?_append, hc, Option.some_or]

theorem munches_cut (s : List Char) : Munches s (cut s) := by
  induction s using text_induction with
  | nil =>
    rw [cut]
    exact ⟨rfl, fun before l after h => absurd h (by simp)⟩
  | lead l after hl ih =>
    rw [cut_of_fits hl]
    exact ih.cons hl

/-- Taking a text apart into maximal runs and single parentheses leaves no choice. -/
theorem munches_iff {s : List Char} {ls : List Lexeme} : Munches s ls ↔ ls = cut s := by
  constructor
  · intro h
    induction ls generalizing s with
    | nil =>
      obtain rfl : [] = s := h.lossless
      rw [cut]
    | cons l ls ih =>
      have hl : l.Fits [] (ls.flatMap chars) := h.fits [] l ls rfl
      rw [← h.lossless, List.flatMap_cons, cut_of_fits hl, ← ih h.tail]
  · rintro rfl
    exact munches_cut s

/-! ### Blanks -/

/-- A blank in front makes no difference to the tokens. -/
theorem filter_cut_cons_blank {c : Char} (hc : Text.isBlank c = true) (s : List Char) :
    (cut (c :: s)).filter isToken = (cut s).filter isToken := by
  have hdrop : (cut s).filter isToken = (cut (s.dropWhile Text.isBlank)).filter isToken := by
    cases s with
    | nil => rfl
    | cons d s =>
      by_cases hd : Text.isBlank d = true
      · rw [List.dropWhile_cons_of_pos hd, cut, if_pos hd]
        rfl
      · rw [List.dropWhile_cons_of_neg hd]
  rw [hdrop, cut, if_pos hc]
  rfl

theorem filter_cut_blanks {w : List Char} (hw : ∀ c ∈ w, Text.isBlank c = true) (s : List Char) :
    (cut (w ++ s)).filter isToken = (cut s).filter isToken := by
  induction w with
  | nil => rfl
  | cons c w ih =>
    rw [List.forall_mem_cons] at hw
    rw [List.cons_append, filter_cut_cons_blank hw.1, ih hw.2]

/-- Blanks between two texts keep their tokens apart. -/
theorem filter_cut_append {c : Char} (hc : Text.isBlank c = true) (a b : List Char) :
    (cut (a ++ c :: b)).filter isToken = (cut a).filter isToken ++ (cut b).filter isToken := by
  induction a using text_induction with
  | nil =>
    rw [List.nil_append, filter_cut_cons_blank hc, cut]
    rfl
  | lead l after hl ih =>
    rw [cut_of_fits hl, List.append_assoc]
    by_cases hspace : l.group = .space
    · have hblanks : ∀ c ∈ l.chars, Text.isBlank c = true := by
        intro c hc
        simpa [hspace, Group.has] using hl.has c hc
      rw [filter_cut_blanks hblanks, ih]
      simp [isToken, hspace]
    · have hfits : l.Fits [] (after ++ c :: b) := by
        refine hl.move (fun _ _ h => absurd h (by simp)) fun hg d hd => ?_
        cases after with
        | cons e after => exact hl.right hg d hd
        | nil =>
          obtain rfl : c = d := by simpa using hd
          cases hl : l.group <;> simp_all [Group.has, isWordChar]
      rw [cut_of_fits hfits, List.filter_cons_of_pos (by simpa [isToken] using hspace), ih,
        List.filter_cons_of_pos (by simpa [isToken] using hspace), List.cons_append]

theorem filter_ofLine_append_blank {w : String} (hne : w ≠ "")
    (hw : ∀ c ∈ w.toList, Text.isBlank c = true) (a b : String) :
    (ofLine (a ++ w ++ b)).filter isToken =
      (ofLine a).filter isToken ++ (ofLine b).filter isToken := by
  have hchars : w.toList ≠ [] := fun h => hne (String.toList_eq_nil_iff.mp h)
  obtain ⟨c, r, hcr⟩ := List.exists_cons_of_ne_nil hchars
  rw [hcr, List.forall_mem_cons] at hw
  simp only [ofLine, String.toList_append, hcr, List.append_assoc, List.cons_append]
  rw [filter_cut_append hw.1, filter_cut_blanks hw.2]

theorem tokens_append_blank {w : String} (hne : w ≠ "")
    (hw : ∀ c ∈ w.toList, Text.isBlank c = true) (a b : String) :
    tokens (a ++ w ++ b) = tokens a ++ tokens b := by
  rw [tokens, filter_ofLine_append_blank hne hw, List.map_append]
  rfl

end Rpn.Lexeme
