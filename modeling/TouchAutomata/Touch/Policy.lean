import TouchAutomata.Touch.Encoding
import TouchAutomata.Fault

/-!
# How strictly a touch is read

Under the lenient policy every text is a touch. Under the strict policy the core has to be one
of the letters `D`, `M`, `U` and then a number that 32 bits can hold; all other texts are
refused. What the strict policy accepts it reads as the lenient one does.
-/

set_option autoImplicit false

namespace TouchAutomata

/-- How a text that is no proper touch is treated. -/
inductive Policy where
  /-- It degrades to the action `other` without a number. -/
  | lenient
  /-- It is refused. -/
  | strict
  deriving DecidableEq, Repr, Inhabited

namespace Policy

/-- The name of a policy in settings. -/
def name : Policy → String
  | lenient => "lenient"
  | strict => "strict"

end Policy

namespace Touch

/-- Whether a core is a known letter and then one decimal digit or more. -/
def isStrictCore : List Char → Bool
  | c :: d :: ds => (c = 'D' || c = 'M' || c = 'U') && (d :: ds).all Char.isDigit
  | _ => false

/-- Why a core that is no letter and number is refused. -/
def shapeReason (core : String) : String :=
  "core " ++ Text.quoted core ++ " must be an action (D, M or U) followed by a numeric id"

/-- Why a core whose number is too large is refused. -/
def rangeReason (core : String) : String :=
  "id in core " ++ Text.quoted core ++ " does not fit in a 32-bit integer"

/-- Reads a touch under a policy. -/
def read (policy : Policy) (encoding : String) : Except Fault Touch :=
  let touch := ofEncoding encoding
  match policy with
  | .lenient => .ok touch
  | .strict =>
    if !isStrictCore touch.core.toList then
      .error (.malformedTouch encoding (shapeReason touch.core))
    else if touch.number = unnumbered then
      .error (.malformedTouch encoding (rangeReason touch.core))
    else .ok touch

end Touch

end TouchAutomata
