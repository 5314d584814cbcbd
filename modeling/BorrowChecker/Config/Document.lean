import BorrowChecker.Config.Basic
import BorrowChecker.Config.Token

/-!
# Settings documents

A document gives each setting at most once. The value of a setting is a name: a text, or a table whose only key is
the name, with nothing in it. Such a table can be written in a line, as a dotted key, or under a header:

* `mode = "fail-fast"`;
* `mode.fail-fast = []`, or the name as the only key of a table in braces;
* a line `fail-fast = []` under the header `[mode]`;
* the header `[mode.fail-fast]`, which may stand beside the header `[mode]`.

Anything else makes the document malformed: another setting, another name, or a setting given twice.
-/

namespace BorrowChecker

/-- Why no settings could be read. -/
inductive ConfigError where
  /-- The file cannot be read as text. -/
  | unreadable (path : String)
  | malformed
deriving DecidableEq, Repr

/-- The headline of an error. A reason may stand after it, such as where a malformed document stops being one; reading
does not look for reasons, so none is given here. -/
def ConfigError.message : ConfigError → String
  | .unreadable path => "failed to read checker config " ++ path
  | .malformed => "invalid checker config"

namespace Config

/-! ## Lines -/

/-- What a line gives a key. -/
inductive Item where
  | text (s : String)
  | empty
  /-- A table with a single key that has nothing in it. -/
  | choice (name : String)
deriving DecidableEq, Repr

inductive Line where
  | blank
  | header (path : List String)
  | entry (path : List String) (item : Item)
deriving DecidableEq, Repr

/-- The key that a token can be. -/
def key? : Token → Option String
  | .word s | .text s => some s
  | _ => none

/-- The dotted key at the start of a line, and the rest of the line. -/
def path? : List Token → Option (List String × List Token)
  | [] => none
  | t :: .dot :: ts =>
    match key? t, path? ts with
    | some k, some (ks, rest) => some (k :: ks, rest)
    | _, _ => none
  | t :: ts => (key? t).map ([·], ts)

def item? : List Token → Option Item
  | [.text s] | [.block s] => some (.text s)
  | [.empty] => some .empty
  | [.openBrace, t, .equals, .empty, .closeBrace] => (key? t).map .choice
  | _ => none

def line? : List Token → Option Line
  | [] => some .blank
  | .openBracket :: ts =>
    match path? ts with
    | some (path, [.closeBracket]) => some (.header path)
    | _ => none
  | ts =>
    match path? ts with
    | some (path, .equals :: ts) => (item? ts).map (.entry path)
    | _ => none

/-! ## Settings -/

/-- How a document speaks of a setting. -/
inductive Mention where
  /-- Its whole value in one line. -/
  | value (name : String)
  /-- A header that opens its table. -/
  | header
  /-- A key of its table, given under the header or by a header of its own. -/
  | member (name : String)
deriving DecidableEq, Repr

/-- What entries are about. -/
inductive Section where
  | top
  | setting (name : String)
  /-- The table of a name, which has no entries. -/
  | name
deriving DecidableEq, Repr

/-- What a line says, by setting, and what the lines after it are about. -/
def mention? (about : Section) : Line → Option (List (String × Mention) × Section)
  | .blank => some ([], about)
  | .header [setting] => some ([(setting, .header)], .setting setting)
  | .header [setting, name] => some ([(setting, .member name)], .name)
  | .header _ => none
  | .entry path item =>
    match about, path, item with
    | .top, [setting], .text name => some ([(setting, .value name)], .top)
    | .top, [setting], .choice name => some ([(setting, .value name)], .top)
    | .top, [setting, name], .empty => some ([(setting, .value name)], .top)
    | .setting setting, [name], .empty => some ([(setting, .member name)], about)
    | _, _, _ => none

/-- All mentions of settings, in order. -/
def mentions? (about : Section) : List Line → Option (List (String × Mention))
  | [] => some []
  | line :: lines => do
    let (found, about) ← mention? about line
    return found ++ (← mentions? about lines)

/-- The name that the mentions of one setting give, none if it is not mentioned. -/
def choice? : List Mention → Option (Option String)
  | [] => some none
  | [.value name] | [.member name] | [.header, .member name] | [.member name, .header] => some (some name)
  | _ => none

/-- The value of a setting by the mentions of it, or the default. -/
def setting? {α : Type} [Inhabited α] (ofIdentifier? : String → Option α) (setting : String)
    (mentions : List (String × Mention)) : Option α := do
  match ← choice? ((mentions.filter (·.1 == setting)).map (·.2)) with
  | none => return default
  | some name => ofIdentifier? name

/-! ## Documents -/

/-- The lines of a document. A byte order mark at the start is not part of it. -/
def lines? (text : String) : Option (List Line) := do
  let cs := match text.toList with
    | '\ufeff' :: cs => cs
    | cs => cs
  let tokens ← Token.scan? cs
  (Token.lines (Token.joinEmpty tokens)).mapM line?

/-- The settings that a document gives. -/
def parse? (text : String) : Option Config := do
  let mentions ← mentions? .top (← lines? text)
  guard (mentions.all fun (setting, _) => setting == "mode" || setting == "reborrow-nesting")
  let mode ← setting? Mode.ofIdentifier? "mode" mentions
  let nesting ← setting? Nesting.ofIdentifier? "reborrow-nesting" mentions
  return { mode, nesting }

/-- The settings in a file with the given contents, which are absent if the file cannot be opened. -/
def load (path : String) (contents : Option ByteArray) : Except ConfigError Config :=
  match contents.bind String.fromUTF8? with
  | none => .error (.unreadable path)
  | some text =>
    match parse? text with
    | none => .error .malformed
    | some config => .ok config

end Config

end BorrowChecker
