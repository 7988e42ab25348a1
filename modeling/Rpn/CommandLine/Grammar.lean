/-! The grammar of lexemes as it is printed: an annotated regular expression.

The parts are assembled line by line, with the indentation that they are shown with. -/
namespace Rpn.CommandLine.Grammar

def block (lines : List String) : String := "\n".intercalate lines

/-- A run of digits. -/
def integral : String := block [
  "",
  "                # DO NOT REPEAT ME! I REPEAT MYSELF INTERNALLY!",
  "                (?:",
  "                    # 1, 12, or the 1 in 1_200.",
  "                    \\d+",
  "                    (?:",
  "                        # Python's float() takes digit separators too",
  "                        _\\d+",
  "                    )*",
  "                )",
  "                "]

def exponent : String := block [
  "",
  "                (?:",
  "                    [eE]",
  "                    [+-]?",
  "                    " ++ integral,
  "                )",
  "                "]

def number : String := block [
  "",
  "              [+-]?",
  "              (?:",
  "                  (?:",
  "                      # 1, 12, 1_200, 1. (notice trailing dot), 1.3",
  "                      " ++ integral,
  "                      (?:",
  "                          \\.",
  "                          " ++ integral ++ "?",
  "                      )?",
  "                  )|(?:",
  "                      # .2",
  "                      \\.",
  "                      " ++ integral,
  "                  )",
  "              )",
  "              " ++ exponent ++ "?",
  "              # Not the start of a word, like 2x or 1st",
  "              (?=[\\s()]|$)",
  "              "]

/-- The expression of a lexeme of any group. -/
def text : String :=
  "(?<number>" ++ number ++ ")|(?<marker>(?:\\(|\\)))|(?<word>[^\\s()]+)|(?<space>\\s+)"

end Rpn.CommandLine.Grammar
