import Typeline.Text.Utf8

/-!
# Logging

Where messages of the library go, and which of them by their level. A path to a log file needs a
folder and a name.
-/

namespace Typeline

/-- The level of a message, from the gravest. -/
inductive LogLevel where
  /-- Something failed. -/
  | error
  /-- Something went wrong but was mended. -/
  | warn
  /-- Something worth knowing happened. -/
  | info
  /-- For finding mistakes. -/
  | debug
  /-- For following each step. -/
  | trace
  deriving DecidableEq, Repr

namespace LogLevel

/-- The place of a level, counted from the gravest. -/
def rank : LogLevel → Nat
  | .error => 1
  | .warn => 2
  | .info => 3
  | .debug => 4
  | .trace => 5

/-- The level with a name, in upper or lower case. -/
def ofName? (name : Text) : Option LogLevel :=
  match String.ofList (name.map Char.toUpper) with
  | "ERROR" => some .error
  | "WARN" => some .warn
  | "INFO" => some .info
  | "DEBUG" => some .debug
  | "TRACE" => some .trace
  | _ => none

end LogLevel

/-- Where messages go. -/
inductive LogTarget where
  /-- Nowhere. -/
  | nowhere
  /-- To a stream of the program. -/
  | display
  /-- To a file. -/
  | file (path : Text)
  /-- To a stream of the program and to a file. -/
  | displayAndFile (path : Text)
  deriving DecidableEq, Repr

/-- Why a path cannot hold a log file. -/
inductive LogPathError where
  /-- The path has no folder in which the file could be. -/
  | noFolder (path : Text)
  /-- The path ends in no name. -/
  | noName (path : Text)
  deriving DecidableEq, Repr

/-- The sentence that reports an unusable path. -/
def LogPathError.message : LogPathError → String
  | .noFolder path =>
    "Can't access current folder " ++ String.ofList path
      ++ ". It might not exist, or don't have required permissions."
  | .noName path =>
    "Can't access file name " ++ String.ofList path
      ++ ". It might not exist, or don't have required permissions."

namespace LogTarget

/-- The name of the log file if none is chosen. -/
def defaultName : Text := "line_editor_log.log".toList

/-- The parts of a path between its slashes. -/
def segments : Text → List Text
  | [] => [[]]
  | c :: rest =>
    match segments rest with
    | [] => [[c]]
    | part :: parts => if c = '/' then [] :: part :: parts else (c :: part) :: parts

/-- The parts of a path that mean something: neither empty ones nor single dots, except for a dot
at the start of a path that is not absolute. -/
def components (path : Text) : List Text :=
  match segments path with
  | [] => []
  | first :: rest =>
    let isMeant (part : Text) : Bool := part ≠ [] ∧ part ≠ ['.']
    (if first.isEmpty then [] else [first]) ++ rest.filter isMeant

/-- Check that a path can hold a log file. -/
def checkPath (path : Text) : Except LogPathError Unit :=
  match (components path).getLast? with
  | none => .error (.noFolder path)
  | some name =>
    if name = ['.'] ∨ name = ['.', '.'] then .error (.noName path) else .ok ()

/-- The path of the log file of a target. -/
def path? : LogTarget → Option Text
  | .file path | .displayAndFile path => some path
  | _ => none

/-- The number of layers through which messages pass: one that chooses by level and one for each
place they go to. Without any place there is none. -/
def layers (target : LogTarget) : Except LogPathError (Option Nat) :=
  match target with
  | .nowhere => .ok none
  | .display => .ok (some 2)
  | .file path => (checkPath path).map fun _ => some 2
  | .displayAndFile path => (checkPath path).map fun _ => some 3

/-- Whether a level passes a filter; without a level the filter lets nothing pass. -/
def passes (filter : Option LogLevel) (level : LogLevel) : Bool :=
  filter.any fun most => level.rank ≤ most.rank

end LogTarget

end Typeline
