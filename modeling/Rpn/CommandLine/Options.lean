import Rpn.Machine.Basic
import Rpn.Numeral.Radix

/-! Command-line options.

Arguments are first told apart, each by itself: a switch with or without a value
attached, the separator `--`, something that looks like a switch and is none, or a value.
Then they are read from left to right, and a switch takes as many of the values after it
as its arity says. Long switches may be shortened while they stay unique, and short
switches without values may be joined. -/
namespace Rpn.CommandLine

/-! ### Switches -/

inductive Switch where
  | help
  | verbose
  | maxDepth
  | expression
  | prompt
  | rawGrammar
  | dump
  deriving DecidableEq, Repr

/-- How many values a switch takes. -/
inductive Arity where
  | none
  | one
  | optional
  /-- Everything up to a separator. -/
  | rest
  deriving DecidableEq, Repr

namespace Switch

def all : List Switch := [help, verbose, maxDepth, expression, prompt, rawGrammar, dump]

def arity : Switch → Arity
  | help | verbose | rawGrammar | dump => .none
  | maxDepth => .one
  | expression => .rest
  | prompt => .optional

def letter : Switch → Char
  | help => 'h'
  | verbose => 'v'
  | maxDepth => 'd'
  | expression => 'e'
  | prompt => 'p'
  | rawGrammar => 'G'
  | dump => 'D'

def long : Switch → String
  | help => "--help"
  | verbose => "--verbose"
  | maxDepth => "--max-depth"
  | expression => "--expression"
  | prompt => "--prompt"
  | rawGrammar => "--raw-grammar"
  | dump => "--dump"

/-- Both spellings, as messages show them. -/
def label (s : Switch) : String := String.ofList ['-', s.letter] ++ "/" ++ s.long

def ofLetter? (c : Char) : Option Switch := all.find? fun s => s.letter = c

def ofLong? (name : List Char) : Option Switch := all.find? fun s => s.long.toList = name

/-- The switches whose long spelling starts so. -/
def completions (start : List Char) : List Switch :=
  all.filter fun s => start.isPrefixOf s.long.toList

end Switch

/-! ### Misuse -/

/-- What is wrong with the arguments. -/
inductive Misuse where
  | ambiguous (argument : String) (candidates : List Switch)
  /-- A value attached to a switch that takes none. -/
  | ignoredValue (switch : Switch) (value : String)
  | missingValue (switch : Switch)
  | notAnInteger (switch : Switch) (value : String)
  /-- Two switches that exclude each other. -/
  | conflict (switch earlier : Switch)
  | unrecognized (arguments : List String)
  deriving DecidableEq, Repr

def Misuse.message : Misuse → String
  | ambiguous a ss =>
    "ambiguous option: " ++ a ++ " could match " ++ ", ".intercalate (ss.map Switch.long)
  | ignoredValue s v =>
    "argument " ++ s.label ++ ": ignored explicit argument " ++ Text.quoted v
  | missingValue s => "argument " ++ s.label ++ ": expected one argument"
  | notAnInteger s v => "argument " ++ s.label ++ ": invalid int value: " ++ Text.quoted v
  | conflict s e => "argument " ++ s.label ++ ": not allowed with argument " ++ e.label
  | unrecognized as => "unrecognized arguments: " ++ " ".intercalate as

/-! ### Arguments by themselves -/

/-- How a switch is written: one dash and a letter, or two dashes and a name. -/
inductive Spelling where
  | short
  | long
  deriving DecidableEq, Repr

/-- What an argument is by itself. -/
inductive Argument where
  | value
  | separator
  /-- Looks like a switch and is none. -/
  | unknown
  /-- A switch with the text attached to it, if any. An equals sign may stand between them. -/
  | switch (spelling : Spelling) (s : Switch) (attached : Option (List Char))
  deriving DecidableEq, Repr

namespace Argument

/-- The text before the first equals sign, and what follows it. -/
def splitEquals (s : List Char) : List Char × Option (List Char) :=
  match s.dropWhile (· ≠ '=') with
  | [] => (s, none)
  | _ :: text => (s.takeWhile (· ≠ '='), some text)

/-- A decimal digit of any script. -/
def isDigit (c : Char) : Bool := (Text.decimalDigit? c).isSome

/-- A minus sign and digits, with a point before the last digits or without. A line feed may
end it. -/
def isNegativeNumber : List Char → Bool
  | '-' :: s =>
    let s := if s.getLast? = some '\n' then s.dropLast else s
    match s.dropWhile isDigit with
    | [] => s ≠ []
    | '.' :: t => t ≠ [] && t.all isDigit
    | _ => false
  | _ => false

/-- An argument that starts with a dash and is neither a switch nor a start of one. -/
def leftover (s : List Char) : Argument :=
  if isNegativeNumber s || s.contains ' ' then .value else .unknown

/-- An argument that starts with two dashes. -/
def ofLong (s : List Char) : Except Misuse Argument :=
  let (name, attached) := splitEquals s
  match Switch.ofLong? name with
  | some sw => .ok (.switch .long sw attached)
  | none =>
    match Switch.completions name with
    | [] => .ok (leftover s)
    | [sw] => .ok (.switch .long sw attached)
    | sws => .error (.ambiguous (String.ofList s) sws)

/-- An argument that starts with one dash and has more characters `c :: s`. -/
def ofShort (c : Char) (s : List Char) : Argument :=
  match Switch.ofLetter? c with
  | some sw =>
    match s with
    | [] => .switch .short sw none
    | '=' :: text => .switch .short sw (some text)
    | text => .switch .short sw (some text)
  | none => leftover ('-' :: c :: s)

def classify (s : List Char) : Except Misuse Argument :=
  match s with
  | ['-', '-'] => .ok .separator
  | '-' :: '-' :: _ => ofLong s
  | '-' :: c :: t => .ok (ofShort c t)
  | _ => .ok .value

/-- Every argument with what it is. After the separator all are values. -/
def classifyAll : List String → Except Misuse (List (String × Argument))
  | [] => .ok []
  | a :: rest => do
    match ← classify a.toList with
    | .separator => return (a, .separator) :: rest.map (·, .value)
    | arg => return (a, arg) :: (← classifyAll rest)

end Argument

/-! ### Options -/

/-- What to do with the lines. -/
inductive Mode where
  | execute
  | dump
  /-- Nothing; the grammar is printed instead. -/
  | rawGrammar
  deriving DecidableEq, Repr

/-- The prompt if none is given. -/
def defaultPrompt : String := "> "

structure Options where
  verbose : Bool := false
  maxDepth : Int := ({} : Config).maxDepth
  /-- The lines given as arguments. -/
  expressions : Option (List String) := none
  prompt : Option String := none
  mode : Mode := .execute
  /-- Arguments that nothing has taken. -/
  extras : List String := []
  deriving DecidableEq, Repr

/-- Why reading of the arguments ends early. -/
inductive Stop where
  | help
  | misuse (m : Misuse)
  deriving DecidableEq, Repr

namespace Options

def skip (o : Options) (argument : String) : Options :=
  { o with extras := o.extras ++ [argument] }

/-- The effect of a switch with its values. Without a value the depth stays what it is. -/
def set (o : Options) (s : Switch) (values : List String) : Except Stop Options :=
  match s with
  | .help => .error .help
  | .verbose => .ok { o with verbose := true }
  | .maxDepth =>
    match values with
    | [] => .ok o
    | v :: _ =>
      match Radix.decimal.parse? v.toList with
      | some n => .ok { o with maxDepth := n }
      | none => .error (.misuse (.notAnInteger s v))
  | .expression =>
    if o.prompt.isSome then .error (.misuse (.conflict s .prompt))
    else .ok { o with expressions := some values }
  | .prompt =>
    if o.expressions.isSome then .error (.misuse (.conflict s .expression))
    else .ok { o with prompt := some (values.headD defaultPrompt) }
  | .rawGrammar =>
    if o.mode = .dump then .error (.misuse (.conflict s .dump))
    else .ok { o with mode := .rawGrammar }
  | .dump =>
    if o.mode = .rawGrammar then .error (.misuse (.conflict s .rawGrammar))
    else .ok { o with mode := .dump }

/-- What a switch takes from the arguments after it, and the rest of them. -/
def following (s : Switch) (args : List (String × Argument)) :
    Except Misuse (List String × List (String × Argument)) :=
  match s.arity with
  | .none => .ok ([], args)
  | .one =>
    match args with
    | (v, .value) :: args => .ok ([v], args)
    | _ => .error (.missingValue s)
  | .optional =>
    match args with
    | (v, .value) :: args => .ok ([v], args)
    | _ => .ok ([], args)
  | .rest =>
    let isTaken (a : String × Argument) : Bool := a.2 ≠ .separator
    .ok ((args.takeWhile isTaken).map (·.1), args.dropWhile isTaken)

/-- The values that an attached text gives. The separator gives none, except to a switch
that takes everything. -/
def attachedValues (s : Switch) (text : List Char) : List String :=
  if text = ['-', '-'] ∧ s.arity ≠ .rest then [] else [String.ofList text]

/-- The end of a group of joined switches. -/
inductive Tail where
  /-- A switch that takes its values from the arguments that follow. -/
  | bare (s : Switch)
  /-- A switch with the values attached to it. -/
  | given (s : Switch) (values : List String)
  deriving DecidableEq, Repr

/-- Short switch `s` with the text attached to it: the switches without values, then the
end. -/
def unjoin (s : Switch) (text : List Char) : Except Misuse (List Switch × Tail) :=
  if s.arity ≠ .none then .ok ([], .given s (attachedValues s text))
  else
    match text with
    | [] => .error (.ignoredValue s "")
    | c :: rest =>
      match Switch.ofLetter? c with
      | none => .error (.ignoredValue s (String.ofList (c :: rest)))
      | some s' =>
        if rest = [] then .ok ([s], .bare s')
        else (unjoin s' rest).map fun (ss, t) => (s :: ss, t)

/-- The switches of one argument. -/
def group (spelling : Spelling) (s : Switch) :
    Option (List Char) → Except Misuse (List Switch × Tail)
  | none => .ok ([], .bare s)
  | some text =>
    match spelling with
    | .short => unjoin s text
    | .long =>
      if s.arity = .none then .error (.ignoredValue s (String.ofList text))
      else .ok ([], .given s (attachedValues s text))

def setAll (o : Options) : List Switch → Except Stop Options
  | [] => .ok o
  | s :: ss => do setAll (← o.set s []) ss

def misuse {α : Type} (x : Except Misuse α) : Except Stop α := x.mapError .misuse

theorem length_following {s : Switch} {args : List (String × Argument)}
    {r : List String × List (String × Argument)} (h : following s args = .ok r) :
    r.2.length ≤ args.length := by
  unfold following at h
  split at h
  · cases h; exact Nat.le_refl _
  · split at h <;> cases h; simp
  · split at h <;> cases h <;> simp
  · cases h; exact (List.dropWhile_sublist _).length_le

/-- The arguments from left to right. -/
def read (o : Options) : List (String × Argument) → Except Stop Options
  | [] => .ok o
  | (_, .switch spelling s attached) :: args =>
    match group spelling s attached with
    | .error m => .error (.misuse m)
    | .ok (ss, .bare s) =>
      match _h : following s args with
      | .error m => .error (.misuse m)
      | .ok (values, rest) =>
        match (do (← o.setAll ss).set s values) with
        | .error e => .error e
        | .ok o => read o rest
    | .ok (ss, .given s values) =>
      match (do (← o.setAll ss).set s values) with
      | .error e => .error e
      | .ok o => read o args
  | (a, _) :: args => read (o.skip a) args
termination_by args => args.length
decreasing_by
  all_goals simp_wf
  have hr : rest.length ≤ args.length := length_following _h
  omega

/-- The options that the arguments give. -/
def ofArguments (args : List String) : Except Stop Options := do
  let o ← ({} : Options).read (← misuse (Argument.classifyAll args))
  if o.extras = [] then return o else throw (.misuse (.unrecognized o.extras))

end Options

end Rpn.CommandLine
