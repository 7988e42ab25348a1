import Rpn.Builtin
import Std.Data.ExtTreeMap

/-! Machines: the user's commands and the state of recording.

A token means, in this order, one of the three functions of the machine itself, an
operator of the catalogue, a user command, or itself. -/
namespace Rpn

/-- The user's commands: the body of each name. Equal contents are equal stores, and
enumeration is in the order of the names. -/
abbrev Commands := Std.ExtTreeMap String (List String)

/-- What is being recorded. -/
inductive Recorder where
  | idle
  /-- The next token is the name of a definition. -/
  | unnamed
  /-- Tokens go to the body of the name. -/
  | recording (name : String)
  deriving DecidableEq, Repr

namespace Recorder

def isArmed : Recorder → Bool
  | idle => false
  | _ => true

/-- The name under recording. -/
def name? : Recorder → Option String
  | recording name => some name
  | _ => none

end Recorder

/-- The tokens around a definition. -/
structure Markers where
  start : String := "("
  stop : String := ")"
  deriving DecidableEq, Repr

/-- What does not change while a machine runs. -/
structure Config where
  markers : Markers := {}
  /-- The name of the anonymous function. -/
  lambda : String := "_"
  /-- How deep user commands may nest. -/
  maxDepth : Int := 100
  /-- How many levels evaluation itself has room for, whatever `maxDepth` says. This is an
  assumption on the interpreter underneath: its own limit is on frames, about three for a
  level and some for the token at the bottom, so the levels that fit are not the same for
  all programs. The number only stands for a limit that is met sooner or later. -/
  ceiling : Nat := 1000
  deriving DecidableEq, Repr

structure Machine where
  commands : Commands := ∅
  recorder : Recorder := .idle

/-- The functions that need the machine. -/
inductive Special where
  /-- Start a definition. -/
  | define
  /-- Make a name push a value. -/
  | store
  /-- Run the anonymous function on every token. -/
  | map
  deriving DecidableEq, Repr

namespace Special

def catalogue : List (String × Special) := [("(", define), ("store", store), ("map", map)]

def named? (name : String) : Option Special := catalogue.lookup name

def names : List String := catalogue.map (·.1)

end Special

/-- What a token stands for. -/
inductive Meaning where
  | special (f : Special)
  | builtin (b : Builtin)
  | user (body : List String)
  | literal

namespace Machine

def lookup (m : Machine) (token : String) : Meaning :=
  match Special.named? token with
  | some f => .special f
  | none =>
    match Builtin.named? token with
    | some b => .builtin b
    | none =>
      match m.commands[token]? with
      | some body => .user body
      | none => .literal

end Machine

/-- The anonymous function is not listed among the user's commands. -/
def Config.isReserved (cfg : Config) (name : String) : Bool := name = cfg.lambda

namespace Machine

/-- The names of the user's commands, in order. -/
def userNames (cfg : Config) (m : Machine) : List String :=
  m.commands.keys.filter fun name => !cfg.isReserved name

/-- The names that are always known, in order. -/
def fixedNames : List String := (Builtin.names ++ Special.names).mergeSort (· ≤ ·)

/-- All names worth completing: the fixed ones, then the user's. -/
def words (cfg : Config) (m : Machine) : List String := fixedNames ++ m.userNames cfg

end Machine

end Rpn
