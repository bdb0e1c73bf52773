import StepScript.Token.Basic

/-!
# Style sheets

A style sheet says which style each kind of token is shown in. Free text, commas and ends of lines
have no style.
-/

set_option autoImplicit false

namespace StepScript

/-- The styles of the kinds of tokens; a kind without a style is left plain. -/
structure StyleSheet where
  comment : Option Nat := some 0x05000001
  steps : Option Nat := some 0x05000002
  command : Option Nat := some 0x05000003
  image : Option Nat := some 0x05000004
  coordinate : Option Nat := some 0x05000005
  locator : Option Nat := some 0x05000006
  strategy : Option Nat := some 0x05000007
  direction : Option Nat := some 0x05000008
  state : Option Nat := some 0x05000009
  operator : Option Nat := some 0x0500000a
  number : Option Nat := some 0x0500000b
  bracket : Option Nat := some 0x0500000c

namespace StyleSheet

def standard : StyleSheet := {}

def style? (sheet : StyleSheet) : TokenKind → Option Nat
  | .comment => sheet.comment
  | .steps => sheet.steps
  | .command => sheet.command
  | .image => sheet.image
  | .coordinate => sheet.coordinate
  | .locator => sheet.locator
  | .strategy => sheet.strategy
  | .direction => sheet.direction
  | .state => sheet.state
  | .operator => sheet.operator
  | .number => sheet.number
  | .bracket => sheet.bracket
  | .comma | .text | .newline => none

end StyleSheet

end StepScript
