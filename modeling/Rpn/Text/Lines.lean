/-! Lines of a text.

A line ends at a line feed, a carriage return, or the two together, and keeps a single
line feed for each of these. What follows the last end is a line too, if it is not
empty. Other characters that separate lines elsewhere do not end lines here. -/
namespace Rpn.Text

/-- The lines of a text, the first of which starts with `acc`, last character first. -/
def linesFrom (acc : List Char) : List Char → List (List Char)
  | [] => if acc = [] then [] else [acc.reverse]
  | '\r' :: '\n' :: s => ('\n' :: acc).reverse :: linesFrom [] s
  | '\r' :: s => ('\n' :: acc).reverse :: linesFrom [] s
  | '\n' :: s => ('\n' :: acc).reverse :: linesFrom [] s
  | c :: s => linesFrom (c :: acc) s

def lines (text : String) : List String := (linesFrom [] text.toList).map String.ofList

/-! ### Lines with their ends -/

/-- What ends a line. -/
def lineEnds : List String := ["\n", "\r", "\r\n"]

/-- No line ends in the text. -/
def IsLine (s : String) : Prop := '\n' ∉ s.toList ∧ '\r' ∉ s.toList

instance (s : String) : Decidable (IsLine s) :=
  inferInstanceAs (Decidable ('\n' ∉ s.toList ∧ '\r' ∉ s.toList))

theorem IsLine.append {s t : String} (hs : IsLine s) (ht : IsLine t) : IsLine (s ++ t) := by
  constructor <;> rw [String.toList_append, List.mem_append, not_or]
  · exact ⟨hs.1, ht.1⟩
  · exact ⟨hs.2, ht.2⟩

theorem linesFrom_append {l : List Char} (hfeed : '\n' ∉ l) (hreturn : '\r' ∉ l)
    (acc s : List Char) : linesFrom acc (l ++ s) = linesFrom (l.reverse ++ acc) s := by
  induction l generalizing acc with
  | nil => rfl
  | cons c l ih =>
    rw [List.mem_cons, not_or] at hfeed hreturn
    rw [List.cons_append, linesFrom, ih hfeed.2 hreturn.2, List.reverse_cons, List.append_assoc]
    · rfl
    · exact fun _ h => absurd h.symm hreturn.1
    · exact fun h => hreturn.1 h.symm
    · exact fun h => hfeed.1 h.symm

/-- A line feed after a carriage return would belong to it. -/
theorem linesFrom_lineEnd {e : String} (he : e ∈ lineEnds) (acc : List Char) {s : List Char}
    (hs : e = "\r" → s.head? ≠ some '\n') :
    linesFrom acc (e.toList ++ s) = ('\n' :: acc).reverse :: linesFrom [] s := by
  simp only [lineEnds, List.mem_cons, List.not_mem_nil, or_false] at he
  rcases he with rfl | rfl | rfl
  · rfl
  · show linesFrom acc ('\r' :: s) = _
    rw [linesFrom]
    rintro s' rfl
    exact hs rfl rfl
  · rfl

theorem head?_join_return {ls : List String} (hls : ∀ l ∈ ls, IsLine l) :
    (String.join (ls.map (· ++ "\r"))).toList.head? ≠ some '\n' := by
  cases ls with
  | nil => simp
  | cons l ls =>
    have hfeed := (hls l (List.mem_cons_self ..)).1
    rw [List.map_cons, String.join_cons, String.toList_append, String.toList_append]
    cases hl : l.toList with
    | nil => simp
    | cons c s =>
      rw [hl, List.mem_cons, not_or] at hfeed
      simpa using Ne.symm hfeed.1

/-- Lines come back from the text in which each of them is ended in the same way. -/
theorem lines_join {ls : List String} (hls : ∀ l ∈ ls, IsLine l) {e : String}
    (he : e ∈ lineEnds) : lines (String.join (ls.map (· ++ e))) = ls.map (· ++ "\n") := by
  unfold lines
  induction ls with
  | nil => rfl
  | cons l ls ih =>
    obtain ⟨hl, hrest⟩ := List.forall_mem_cons.mp hls
    have hnext : e = "\r" → (String.join (ls.map (· ++ e))).toList.head? ≠ some '\n' := by
      rintro rfl
      exact head?_join_return hrest
    rw [List.map_cons, String.join_cons, String.toList_append, String.toList_append,
      List.append_assoc, linesFrom_append hl.1 hl.2, linesFrom_lineEnd he _ hnext, List.map_cons,
      ih hrest, List.map_cons, List.append_nil, List.reverse_cons, List.reverse_reverse,
      String.ofList_append, String.ofList_toList]

end Rpn.Text
