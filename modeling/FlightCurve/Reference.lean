import FlightCurve.Vocabulary

/-!
The quick reference of the expression language.
-/

namespace FlightCurve.Reference

/-- Lays names out in lines of at most `width` characters. A line is broken after a comma, and only
where the next name and its comma would not fit. -/
def wrapFrom (width : Int) (current : String) : List String → List String
  | [] => [current]
  | name :: rest =>
      let candidate := if current = "" then name else current ++ ", " ++ name
      if width < candidate.length + 1 ∧ current ≠ "" then
        (current ++ ",") :: wrapFrom width name rest
      else wrapFrom width candidate rest

def wrapNames (names : List String) (width : Int) : String :=
  String.intercalate "\n" (wrapFrom width "" names)

/-- The width of a line of names in the quick reference. -/
def nameWidth : Int := 50

def commaSeparated (names : List String) : String := String.intercalate ", " names

def lines : List String :=
  [ "Examples:",
    "x(t) = v                    x(t) = -2 * t",
    "y(t) = u^2                  y(t) = sin(3 * t)",
    "where u = 2 * t - 4         where",
    "      v = u + t * 0               <nothing>",
    "",
    "Operations:",
    "add (+), subtract (-), multiply (*), divide (/),",
    "floor divide (//), modulo (%), exponent (^)",
    "",
    "Constants: " ++ commaSeparated (constants.map (·.1)),
    "",
    "Unary functions (syntax: `sin a`):",
    wrapNames (UnaryFn.all.map (·.name)) nameWidth,
    "",
    "Binary functions (syntax: `min a b`): " ++ commaSeparated (BinaryFn.all.map (·.name)),
    "",
    "Precedence (highest to lowest):",
    "function call",
    "^",
    "* / // %",
    "+ -" ]

/-- The text of the quick reference. -/
def text : String := String.intercalate "\n" lines

/-- The quick reference with an empty line before it and a line feed after it. -/
def quickHelp : String := "\n" ++ text ++ "\n"

end FlightCurve.Reference
