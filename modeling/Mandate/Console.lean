import Mandate.Engine.Event

/-!
# The console

Every event is written as coloured text: its level, a sign, and what happened.  Colours are the
escape sequences of terminals, and every sequence is closed again.

Main definitions:

* `Style`, `Style.paint`: coloured text.
* `Event.text`, `Event.lines`: the text of an event, and its lines.
-/

namespace Mandate

/-- How text is shown on a terminal. -/
inductive Style
  | red
  | green
  | yellow
  | blue
  | cyan
  | grey
  | amber
  | white
  | bold
  deriving DecidableEq

namespace Style

/-- The number of the sequence that turns the style on; red, green, yellow, blue, cyan and grey are
the bright colours, and amber is the dark yellow. -/
def code : Style → Nat
  | red => 91
  | green => 92
  | yellow => 93
  | blue => 94
  | cyan => 96
  | grey => 90
  | amber => 33
  | white => 37
  | bold => 1

/-- The number of the sequence that turns the style off. -/
def reset : Style → Nat
  | bold => 0
  | _ => 39

/-- A sequence for terminals. -/
def escape (code : Nat) : String :=
  "\x1b[" ++ Decimal.natText code ++ "m"

/-- Text in a style. -/
def paint (style : Style) (text : String) : String :=
  escape style.code ++ text ++ escape style.reset

end Style

open Style

/-- The levels of events. -/
inductive Level
  | error
  | warning
  | info
  | debug
  deriving DecidableEq

/-- The word for a level, five characters wide. -/
def Level.label : Level → String
  | .error => bold.paint (red.paint "ERROR")
  | .warning => amber.paint " WARN"
  | .info => green.paint " INFO"
  | .debug => grey.paint "DEBUG"

/-- The level of an event. -/
def Event.level : Event → Level
  | .added _ _ _ | .replaced _ _ | .removed _ _ | .activation _ => .info
  | .propagated _ _ => .debug
  | .fetchFailed _ _ => .warning
  | .compileFailed _ _ => .error

/-- A text without the quotation marks at its ends. -/
def unquoted (s : String) : String :=
  let marks (cs : List Char) : List Char := cs.dropWhile (· == '"')
  String.ofList (marks (marks s.toList).reverse).reverse

/-- An identity on the console. -/
def ConstraintId.painted (id : ConstraintId) : String :=
  bold.paint (white.paint (unquoted id.text))

/-- A number on the console. -/
def paintedNumber (n : Nat) : String :=
  amber.paint (Decimal.natText n)

/-- A state on the console. -/
def ActivationState.painted (s : ActivationState) : String :=
  match s with
  | .active => bold.paint (green.paint s.word)
  | .inactive => red.paint s.word
  | .indeterminate => amber.paint s.word
  | .unknown => white.paint s.word

namespace Event

/-- What happened. -/
def body : Event → String
  | added id permission nodes =>
    green.paint "+" ++ " " ++ id.painted ++ " for " ++ cyan.paint (unquoted permission.text) ++
      " (" ++ paintedNumber nodes ++ " nodes)"
  | replaced id old =>
    yellow.paint "~" ++ " " ++ id.painted ++ " replaces " ++ grey.paint (unquoted old.text)
  | removed id nodes =>
    red.paint "-" ++ " " ++ id.painted ++ " (" ++ paintedNumber nodes ++ " nodes left)"
  | activation r =>
    grey.paint ("#" ++ Decimal.natText r.sequence) ++ " " ++ r.id.painted ++ " " ++
      r.source.painted ++ " " ++ blue.paint "->" ++ " " ++ r.target.painted
  | propagated recomputed changed =>
    grey.paint "~" ++ " recomputed " ++ paintedNumber recomputed ++ ", changed " ++
      paintedNumber changed
  | fetchFailed key error =>
    red.paint "!" ++ " fact " ++ cyan.paint (unquoted key.display) ++ " unavailable: " ++
      unquoted error.message
  | compileFailed id error =>
    bold.paint (red.paint "!") ++ " " ++ id.painted ++ " failed to compile: " ++
      red.paint (unquoted error.message)

/-- The text of an event. -/
def text (e : Event) : String :=
  e.level.label ++ " " ++ e.body

/-- The lines of an event: one, unless a name in it holds line breaks. -/
def lines (e : Event) : List String :=
  e.text.splitOn "\n"

end Event
end Mandate
