import TouchAutomata.Ordered.Set
import TouchAutomata.Text.Numeral

/-!
# Touches

A touch is one letter of the gesture alphabet: an action with a number, some attributes, and
the triggers it sets off. What counts as the letter is the label, that is the core followed by
the attributes; two touches that differ in their triggers alone label the same edge.
-/

set_option autoImplicit false

namespace TouchAutomata

/-- What a finger does. -/
inductive Action where
  | down
  | move
  | up
  | other
  deriving DecidableEq, Repr, Inhabited

namespace Action

/-- The action that a letter stands for. -/
def ofLetter : Char → Action
  | 'D' => down
  | 'M' => move
  | 'U' => up
  | _ => other

/-- The name shown for an action. -/
def name : Action → String
  | down => "Down"
  | move => "Move"
  | up => "Up"
  | other => "Other"

end Action

/-- The numbers of the triggers that a touch sets off. -/
abbrev Triggers := OrderedSet Int32

/-- One letter of the gesture alphabet. -/
structure Touch where
  /-- The letter of the action followed by the number. -/
  core : String
  attributes : List String := []
  triggers : Triggers := ∅
  deriving DecidableEq, Inhabited

namespace Touch

/-- The number of a touch whose core has none. -/
def unnumbered : Int32 := -1

/-- The core, and each attribute after a colon. -/
def label (t : Touch) : String :=
  t.core ++ String.join (t.attributes.map (":" ++ ·))

/-- Whether two touches are the same letter, whatever triggers they set off. -/
def alike (t u : Touch) : Bool := t.label = u.label

/-- Whether the core is too short for an action and a number. -/
def isDegenerate (t : Touch) : Bool :=
  match t.core.toList with
  | _ :: _ :: _ => false
  | _ => true

/-- The action of the first letter of a core that has something after it. -/
def action (t : Touch) : Action :=
  match t.core.toList with
  | c :: _ :: _ => .ofLetter c
  | _ => .other

/-- The number that follows the first letter of the core, if it is one and has 32 bits. -/
def number (t : Touch) : Int32 :=
  match t.core.toList with
  | _ :: c :: cs => ((Numeral.readInt (c :: cs)).bind Numeral.signed?).getD unnumbered
  | _ => unnumbered

/-- Writes another number behind the first letter of the core. -/
def renumber (t : Touch) (n : Int32) : Touch :=
  { t with core := String.ofList (t.core.toList.take 1) ++ Numeral.signedText n }

/-- Adds an attribute after the others, as it stands. -/
def addAttribute (t : Touch) (value : String) : Touch :=
  { t with attributes := t.attributes ++ [value] }

/-- Adds triggers to those there are. -/
def addTriggers (t : Touch) (ids : List Int32) : Touch :=
  { t with triggers := t.triggers.insertAll ids }

/-- Triggers are no part of the label. -/
@[simp] theorem label_addTriggers (t : Touch) (ids : List Int32) :
    (t.addTriggers ids).label = t.label := rfl

/-- Triggers are added to those that are there. -/
@[simp] theorem triggers_addTriggers (t : Touch) (ids : List Int32) :
    (t.addTriggers ids).triggers = t.triggers.insertAll ids := rfl

end Touch

end TouchAutomata
