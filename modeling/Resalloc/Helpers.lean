import Mathlib.Algebra.Order.Field.Rat
import Mathlib.Data.List.Basic

/-!
# Shared helpers of client and server

The state names and the string formatting of {lit}`resalloc/helpers.py`, and the
few Python notions the server code leans on: truth values of optional strings
and integers, and the exceptions a server thread can die of.

Main definitions:

- Definitions {lit}`RState` and {lit}`TState`: the states of a resource and of a
  ticket.
- Definition {lit}`carefulStringFormat`: the resource name pattern filler.
-/

namespace Resalloc

/-- Clock readings and delays in seconds; a floating point reading is the
rational it denotes. -/
abbrev Time := ℚ

/-- Exceptions that can leave a database session or a thread. -/
inductive PyError
  | assertionError
  | attributeError
  | typeError
  | keyError
  | integrityError
  | serverAPIException
  | systemExit
deriving DecidableEq

/-- States of a resource. -/
inductive RState
  | starting
  | up
  | deleteRequest
  | deleting
  /-- Running the {lit}`cmd_release` worker. -/
  | releasing
  /-- A properly stopped instance, without any leftover allocated resources. -/
  | ended
deriving DecidableEq

/-- States of a ticket. -/
inductive TState
  /-- The source's {lit}`OPEN`: a ticket with or without assigned resource. -/
  | opened
  /-- Closed by the user. -/
  | closed
  /-- Killed by the resource manager or by an administrator. -/
  | failed
deriving DecidableEq

/-- Python truth value of an optional string. -/
def truthy : Option String → Bool
  | none => false
  | some s => s != ""

@[simp]
theorem truthy_none : truthy none = false :=
  rfl

theorem truthy_some (s : String) : truthy (some s) = true ↔ s ≠ "" := by
  simp [truthy]

/-- The values of {lit}`str(uuid.uuid1())`, which are never empty. -/
abbrev Uuid := { s : String // s ≠ "" }

/-- A piece of a format pattern: literal text or a simple named field. -/
inductive PatternPart
  | text (s : String)
  | field (key : String)
deriving DecidableEq

/-- Python's {lit}`pattern.format(**fill_dict)`; the error is the key that is
missing. -/
def formatPattern (pattern : List PatternPart) (fillDict : List (String × String)) :
    Except String String :=
  match pattern with
  | [] => .ok ""
  | .text s :: rest =>
      match formatPattern rest fillDict with
      | .ok tail => .ok (s ++ tail)
      | .error key => .error key
  | .field key :: rest =>
      match fillDict.lookup key with
      | none => .error key
      | some value =>
          match formatPattern rest fillDict with
          | .ok tail => .ok (value ++ tail)
          | .error missing => .error missing

/-- Fill a name pattern.  The handler of a missing key stores a filler, but the
loop is left unconditionally after its first round, so the result stays
{lean}`none`. -/
def carefulStringFormat (pattern : List PatternPart) (fillDict : List (String × String))
    (datetime : String) : Option String :=
  match formatPattern pattern (("datetime", datetime) :: fillDict) with
  | .ok result => some result
  | .error _ => none

/-- Python's {lit}`str(n).zfill(width)` for a natural number. -/
def zfill (n width : ℕ) : String :=
  String.ofList (List.replicate (width - (toString n).length) '0') ++ toString n

end Resalloc
