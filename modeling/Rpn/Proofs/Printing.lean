import Rpn.Proofs.Lexemes
import Rpn.Proofs.Operators
import Rpn.Proofs.Rollback
import Rpn.Text.Lines

/-! The printed stack reads back as the stack.

Tokens come to the stack from lines, from stored bodies and from operators, which write
numbers. All of these are lexemes by themselves: a parenthesis, or a word without blanks
and parentheses in it (`IsToken`). Whatever is true of the tokens of a program and of the
texts of numbers stays true of all tokens on the stack and in stored bodies, through
recording, `store`, `map` and failures (`Holds`). So the stack after a line, printed with
spaces between its tokens, is one line, and cut into lexemes again it is the stack
(`printed_stack_reads_back`). -/
namespace Rpn

/-! ### Tokens -/

/-- A token of a line: a single parenthesis, or a word. -/
def IsToken (t : String) : Prop := t = "(" ∨ t = ")" ∨ IsWord t

theorem IsNumeric.isToken {t : String} (h : IsNumeric t) : IsToken t := .inr (.inr h.isWord)

namespace Lexeme

theorem Fits.isToken {l : Lexeme} {before after : List Char} (h : l.Fits before after)
    (hl : l.isToken = true) : IsToken l.text := by
  unfold Fits at h
  cases hg : l.group <;> simp only [hg] at h
  case number => exact .inr (.inr ⟨h.1.nonempty, h.1.chars⟩)
  case marker =>
    have htext := l.text.ofList_toList
    rw [← chars] at htext
    rcases h with h | h <;> rw [h] at htext
    · exact .inl htext.symm
    · exact .inr (.inl htext.symm)
  case word => exact .inr (.inr ⟨h.1.nonempty, h.1.chars⟩)
  case space => simp [Lexeme.isToken, hg] at hl

theorem isToken_of_mem_tokens {line t : String} (h : t ∈ tokens line) : IsToken t := by
  obtain ⟨l, hl, rfl⟩ := List.mem_map.mp h
  obtain ⟨hmem, htoken⟩ := List.mem_filter.mp hl
  obtain ⟨before, after, heq⟩ := List.append_of_mem hmem
  exact ((munches_cut line.toList).fits before l after heq).isToken htoken

theorem tokens_of_fits {l : Lexeme} (h : l.Fits [] []) (hl : l.isToken = true) :
    tokens l.text = [l.text] := by
  have hcut : ofLine l.text = [l] := by
    have hone := cut_of_fits h
    rw [List.append_nil, cut] at hone
    exact hone
  simp [tokens, hcut, hl]

/-- A token by itself is cut into itself. -/
theorem tokens_of_isToken {t : String} (h : IsToken t) : tokens t = [t] := by
  rcases h with rfl | rfl | h
  · exact tokens_of_fits (l := ⟨.marker, "("⟩) (.inl rfl) rfl
  · exact tokens_of_fits (l := ⟨.marker, ")"⟩) (.inr rfl) rfl
  · have hfits : (ofRun t.toList).Fits [] [] := fits_ofRun ⟨h.nonempty, h.chars, nofun, nofun⟩
    have htoken : (ofRun t.toList).isToken = true := by
      by_cases hnum : Numeral.isNumeral t.toList = true <;> simp [ofRun, isToken, hnum]
    have htext : (ofRun t.toList).text = t := t.ofList_toList
    rw [← htext]
    exact tokens_of_fits hfits htoken

/-- Tokens with spaces between them are cut into the tokens. -/
theorem tokens_intercalate {ts : List String} (h : ∀ t ∈ ts, IsToken t) :
    tokens (" ".intercalate ts) = ts := by
  induction ts with
  | nil => decide +kernel
  | cons t ts ih =>
    obtain ⟨ht, hts⟩ := List.forall_mem_cons.mp h
    by_cases hempty : ts = []
    · rw [hempty, String.intercalate_singleton]
      exact tokens_of_isToken ht
    · have hblank : ∀ c ∈ " ".toList, Text.isBlank c = true := List.all_eq_true.mp rfl
      rw [String.intercalate_cons_of_ne_nil hempty, tokens_append_blank (by decide) hblank,
        tokens_of_isToken ht, ih hts, List.singleton_append]

end Lexeme

theorem IsToken.isLine {t : String} (h : IsToken t) : Text.IsLine t := by
  rcases h with rfl | rfl | h
  · decide
  · decide
  · constructor
    · exact fun hfeed => absurd (h.chars _ hfeed) (by decide)
    · exact fun hreturn => absurd (h.chars _ hreturn) (by decide)

/-- Tokens with spaces between them are one line. -/
theorem isLine_intercalate {ts : List String} (h : ∀ t ∈ ts, IsToken t) :
    Text.IsLine (" ".intercalate ts) := by
  induction ts with
  | nil => decide
  | cons t ts ih =>
    obtain ⟨ht, hts⟩ := List.forall_mem_cons.mp h
    by_cases hempty : ts = []
    · rw [hempty, String.intercalate_singleton]
      exact ht.isLine
    · rw [String.intercalate_cons_of_ne_nil hempty]
      exact (ht.isLine.append (by decide)).append (ih hts)

/-! ### What every token has -/

namespace Machine

/-- All tokens on the stack and in stored bodies have `P`. -/
structure Holds (P : String → Prop) (st : State) : Prop where
  commands : st.1.commands.All fun _ body => ∀ t ∈ body, P t
  stack : ∀ t ∈ st.2, P t

/-- Evaluation that lets tokens with `P` make tokens with `P` only. -/
def Keeps (P : String → Prop) (eval : Evaluator) : Prop :=
  ∀ m s ts, Holds P (m, s) → (∀ t ∈ ts, P t) → Ends (Holds P) (fun _ => True) (eval (m, s) ts)

section Runs
variable {P : String → Prop} {nested : Evaluator} {m : Machine} {s : Stack}

theorem Holds.feed (h : Holds P (m, s)) {k : Markers} {t : String} (ht : P t) {m' : Machine}
    (hfeed : m.feed k t = .ok m') : Holds P (m', s) := by
  have hc := h.commands
  rcases feed_cases hfeed with ⟨_, rfl⟩ | ⟨name, body, _, hbody, rfl | rfl⟩
  · exact ⟨hc.insert nofun, h.stack⟩
  · exact ⟨hc, h.stack⟩
  · refine ⟨hc.insert ?_, h.stack⟩
    exact List.forall_mem_append.mpr ⟨hc name body hbody, List.forall_mem_singleton.mpr ht⟩

theorem Keeps.enter (h : Keeps P nested) (cfg : Config) (depth : Nat) (hst : Holds P (m, s))
    (t : String) (n : Nat) {body : List String} (hbody : ∀ u ∈ body, P u) :
    Ends (Holds P) (fun _ => True) (enter cfg depth nested (.located · t n) (m, s) body) := by
  unfold Machine.enter
  split
  · trivial
  · exact h m s body hst hbody

theorem Keeps.map (h : Keeps P nested) (cfg : Config) (depth : Nat) (hst : Holds P (m, s))
    (t : String) (n : Nat) {body : List String} (hbody : ∀ u ∈ body, P u) :
    Ends (Holds P) (fun _ => True)
      (mapTokens (Machine.enter cfg depth nested (.located · t n) · body) m [] s) := by
  refine (mapTokens_ends (M := fun m => m.commands.All fun _ body => ∀ t ∈ body, P t) (P := P) ?_
    s m [] hst.commands nofun hst.stack).mono (fun st hst => ⟨hst.1, hst.2⟩) (fun e he => he)
  -- the stack of a token by itself holds nothing else
  intro m' u hm' hu
  exact (h.enter cfg depth ⟨hm', List.forall_mem_singleton.mpr hu⟩ t n hbody).mono
    (fun st hst => ⟨hst.commands, hst.stack⟩) (fun e he => he)

theorem step_holds (hnum : ∀ t, IsNumeric t → P t) (cfg : Config) (depth : Nat)
    (h : Keeps P nested) (hst : Holds P (m, s)) {t : String} (ht : P t) :
    Ends (Holds P) (fun _ => True) (step cfg depth nested (m, s) t) := by
  cases ha : m.recorder.isArmed with
  | true =>
    rw [step_armed cfg depth nested ha]
    cases hfeed : m.feed cfg.markers t with
    | ok m' => exact hst.feed ht hfeed
    | error f => trivial
  | false =>
    rw [step_idle cfg depth nested ha]
    cases hmeaning : m.lookup t with
    | special f =>
      cases f with
      | define => exact ⟨hst.commands, hst.stack⟩
      | store =>
        rcases store_cases s with ⟨rest, value, name, rfl⟩ | herror
        · obtain ⟨hrest, hpair⟩ := List.forall_mem_append.mp hst.stack
          have hvalue : P value := hpair value (by simp)
          simp only [perform, store_append]
          exact ⟨hst.commands.insert (List.forall_mem_singleton.mpr hvalue), hrest⟩
        · simp only [perform, herror]
          trivial
      | map =>
        simp only [perform]
        cases hbody : m.commands[cfg.lambda]? with
        | none => trivial
        | some body => exact h.map cfg depth hst t s.length (hst.commands _ body hbody)
    | builtin b =>
      simp only [perform]
      cases hr : b.apply s with
      | error f => trivial
      | ok s' =>
        refine ⟨hst.commands, fun u hu => ?_⟩
        rcases Builtin.mem_of_apply (lookup_builtin hmeaning) hr u hu with hold | hwrites
        · exact hst.stack u hold
        · exact hnum u hwrites.isNumeric
    | user body =>
      have hbody := hst.commands t body (lookup_user hmeaning)
      exact h.enter cfg depth hst t s.length hbody
    | literal =>
      exact ⟨hst.commands,
        List.forall_mem_append.mpr ⟨hst.stack, List.forall_mem_singleton.mpr ht⟩⟩

theorem run_keeps (hnum : ∀ t, IsNumeric t → P t) (cfg : Config) (levels depth : Nat) :
    Keeps P (run cfg levels depth) := by
  apply run_induction
  · exact fun _ _ _ _ _ => trivial
  · intro depth nested h m s ts hst hts
    exact steps_ends ts (fun st hst t ht => step_holds hnum cfg depth h hst (hts t ht)) (m, s) hst

theorem Holds.afterFailure (h : Holds P (m, s)) (e : Failure) : Holds P (m.afterFailure e, s) := by
  refine ⟨?_, h.stack⟩
  unfold Machine.afterFailure abandon
  by_cases he : e.kind = .malformedDefinition
  · rw [if_pos he]
    cases m.recorder with
    | recording name => exact h.commands.erase name
    | _ => exact h.commands
  · rw [if_neg he]
    exact h.commands

end Runs

end Machine

/-! ### Lines of a calculator -/

namespace CommandLine

theorem ofLines_cons (l : String) (ls : List String) :
    ofLines (l :: ls) = l ++ "\n" ++ ofLines ls := by
  simp only [ofLines, List.map_cons, String.join_cons]

namespace Calculator

/-- The text of a stack, as it is printed. -/
def shown (s : Stack) : String := " ".intercalate s

/-- The stacks after those lines that do not fail. -/
def printed (c : Calculator) : List String → List Stack
  | [] => []
  | t :: ts =>
    match c.failure? t with
    | none => (c.execute t).1.stack :: (c.execute t).1.printed ts
    | some _ => (c.execute t).1.printed ts

/-- A line leaves what its evaluation leaves and prints the stack, or it fails. -/
theorem execute_cases (c : Calculator) (line : String) :
    (∃ m s, c.machine.evaluate c.cfg (Lexeme.tokens line) c.stack = ⟨m, .ok s⟩ ∧
      c.failure? line = none ∧ (c.execute line).1 = { c with machine := m, stack := s } ∧
      (c.execute line).2.out = shown s ++ "\n") ∨
    ∃ e, c.failure? line = some e ∧
      (c.execute line).1 = { c with machine := c.machine.afterFailure e } ∧
      (c.execute line).2.out = "" := by
  rw [execute, failure?, Machine.evaluate_eq_settle]
  cases Machine.run c.cfg c.cfg.ceiling 0 (c.machine, c.stack) (Lexeme.tokens line) with
  | ok st => exact .inl ⟨st.1, st.2, rfl, rfl, rfl, by simp [ofLines, shown, Machine.settle]⟩
  | error e => exact .inr ⟨e, rfl, rfl, rfl⟩

/-- All tokens on the stack and in stored bodies are tokens of lines. -/
def WellRead (c : Calculator) : Prop := Machine.Holds IsToken (c.machine, c.stack)

theorem WellRead.execute {c : Calculator} (h : c.WellRead) (line : String) :
    (c.execute line).1.WellRead := by
  rcases c.execute_cases line with ⟨m, s, heval, -, hc, -⟩ | ⟨e, -, hc, -⟩ <;> rw [hc]
  · have htokens : ∀ t ∈ Lexeme.tokens line, IsToken t := fun _ => Lexeme.isToken_of_mem_tokens
    have hends := Machine.run_keeps (fun _ => IsNumeric.isToken) c.cfg c.cfg.ceiling 0 _ _ _ h
      htokens
    rw [Machine.evaluate_eq_ok_iff.mp heval] at hends
    exact hends
  · exact h.afterFailure e

theorem WellRead.lines {c : Calculator} (h : c.WellRead) (ts : List String) :
    (Mode.execute.lines c ts).1.WellRead := by
  induction ts generalizing c with
  | nil => exact h
  | cons t ts ih => exact ih (h.execute t)

theorem WellRead.printed {c : Calculator} (h : c.WellRead) (ts : List String) :
    ∀ s ∈ c.printed ts, ∀ t ∈ s, IsToken t := by
  induction ts generalizing c with
  | nil => nofun
  | cons t ts ih =>
    have hrest := ih (h.execute t)
    rw [Calculator.printed]
    cases c.failure? t with
    | none => exact List.forall_mem_cons.mpr ⟨(h.execute t).stack, hrest⟩
    | some e => exact hrest

theorem lines_out (c : Calculator) (ts : List String) :
    (Mode.execute.lines c ts).2.out = ofLines ((c.printed ts).map shown) := by
  induction ts generalizing c with
  | nil => rfl
  | cons t ts ih =>
    show (c.execute t).2.out ++ (Mode.execute.lines (c.execute t).1 ts).2.out = _
    rw [ih, Calculator.printed]
    rcases c.execute_cases t with ⟨m, s, -, hf, hc, hout⟩ | ⟨e, hf, -, hout⟩ <;> rw [hf, hout]
    · rw [List.map_cons, ofLines_cons, hc]
    · exact String.empty_append

end Calculator

/-- **The printed stack reads back as the stack.** Whatever the lines, and also after lines
that failed, each token on the stack and in stored bodies is a parenthesis or a word, and
the text of the stack is cut into the tokens of the stack. What is printed is one line for
each line that does not fail: the text of the stack after it. -/
theorem printed_stack_reads_back (cfg : Config) (verbose : Bool) (lines : List String) :
    let start : Calculator := { cfg := cfg, verbose := verbose }
    let (c, output) := Mode.execute.lines start lines
    (∀ t ∈ c.stack, IsToken t) ∧
    (c.machine.commands.All fun _ body => ∀ t ∈ body, IsToken t) ∧
    Lexeme.tokens (Calculator.shown c.stack) = c.stack ∧
    output.out = ofLines ((start.printed lines).map Calculator.shown) ∧
    Text.lines output.out = (start.printed lines).map (Calculator.shown · ++ "\n") ∧
    ∀ s ∈ start.printed lines, Lexeme.tokens (Calculator.shown s) = s := by
  intro start
  have hstart : start.WellRead := ⟨Commands.all_empty, nofun⟩
  have hc := hstart.lines lines
  have hprinted := hstart.printed lines
  have hout := start.lines_out lines
  have hlines : ∀ l ∈ (start.printed lines).map Calculator.shown, Text.IsLine l := by
    intro l hl
    obtain ⟨s, hs, rfl⟩ := List.mem_map.mp hl
    exact isLine_intercalate (hprinted s hs)
  refine ⟨hc.stack, hc.commands, Lexeme.tokens_intercalate hc.stack, hout, ?_, ?_⟩
  · rw [hout, ofLines, Text.lines_join hlines (by decide), List.map_map]
    rfl
  · exact fun s hs => Lexeme.tokens_intercalate (hprinted s hs)

end CommandLine

end Rpn
