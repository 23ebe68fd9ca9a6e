/-!
# TOML values and tables

A TOML document is a table that is put together line by line: keys, dotted keys and headers each add
to what is there, and what a table may still take depends on how it came about. The operations here
are the three ways to add: a value under a key, a table, and one more table of a repeated header.
-/

namespace Componentry

/-- How a table came about. -/
inductive TableOrigin where
  /-- Written between braces, and complete. -/
  | inline
  /-- Opened by its own header. -/
  | header
  /-- On the way to a table with a header. -/
  | implied
  /-- Made by a dotted key. -/
  | dotted
deriving DecidableEq, Repr

inductive Toml where
  | string (value : String)
  | integer (value : Int)
  /-- A floating-point number, as written. -/
  | float (text : String)
  | boolean (value : Bool)
  /-- A date, a time or both, as written. -/
  | date (text : String)
  | array (items : List Toml)
  | table (origin : TableOrigin) (fields : List (String × Toml))
  /-- The tables of a repeated header. -/
  | tables (items : List Toml)
deriving Inhabited, Repr

namespace Toml

/-- Changes the value of a key, or gives it one. -/
def alter (key : String) (change : Option Toml → Option Toml) :
    List (String × Toml) → Option (List (String × Toml))
  | [] => (change none).map fun value => [(key, value)]
  | (name, value) :: rest =>
    if name = key then (change (some value)).map fun value => (name, value) :: rest
    else (alter key change rest).map ((name, value) :: ·)

/-- A rule for following keys: which tables may be entered, and how a missing one is made. -/
structure Route where
  enters : TableOrigin → Bool
  creates : TableOrigin

/-- Headers lead through every table that is not complete. -/
def Route.header : Route := ⟨(· ≠ .inline), .implied⟩

/-- Dotted keys lead only through tables without a header. -/
def Route.dotted : Route := ⟨fun origin => origin = .implied || origin = .dotted, .dotted⟩

/-- Changes the table to which keys lead. A repeated header stands for its last table. -/
def within (route : Route) (change : Toml → Option Toml) : List String → Toml → Option Toml
  | [], reached => change reached
  | key :: keys, .table origin fields =>
    let enter : Option Toml → Option Toml
      | none => within route change keys (.table route.creates [])
      | some (.table inner entries) =>
        if route.enters inner then within route change keys (.table inner entries) else none
      | some (.tables items) => do
        let last ← items.getLast?
        return .tables (items.dropLast ++ [← within route change keys last])
      | some _ => none
    (alter key enter fields).map (.table origin)
  | _, _ => none

/-- Gives a new key of a table its value. Behind a dotted key the table has to be one that dotted
keys made. -/
def assignKey (isDotted : Bool) (key : String) (value : Toml) : Toml → Option Toml
  | .table origin fields =>
    if (origin == .dotted) = isDotted then
      (alter key (fun | none => some value | some _ => none) fields).map (.table origin)
    else none
  | _ => none

/-- Gives a new dotted key of a table its value. -/
def assign (path : List String) (key : String) (value : Toml) (root : Toml) : Option Toml :=
  within .dotted (assignKey (!path.isEmpty) key value) path root

/-- Opens the table of a header. A table can be opened once, and not if dotted keys made it. -/
def openTable (path : List String) (key : String) (root : Toml) : Option Toml :=
  within .header (fun
    | .table origin fields => (alter key start fields).map (.table origin)
    | _ => none) path root
where
  /-- The table that a header opens in place of what is there. -/
  start : Option Toml → Option Toml
    | none => some (.table .header [])
    | some (.table .implied fields) => some (.table .header fields)
    | some _ => none

/-- Opens one more table of a repeated header. -/
def openItem (path : List String) (key : String) (root : Toml) : Option Toml :=
  within .header (fun
    | .table origin fields => (alter key start fields).map (.table origin)
    | _ => none) path root
where
  /-- The tables of the header with a new one at the end. -/
  start : Option Toml → Option Toml
    | none => some (.tables [.table .header []])
    | some (.tables items) => some (.tables (items ++ [.table .header []]))
    | some _ => none

/-! ## Taking values apart -/

def asString? : Toml → Option String
  | .string value => some value
  | _ => none

/-- The items of an array, or the tables of a repeated header. -/
def asArray? : Toml → Option (List Toml)
  | .array items => some items
  | .tables items => some items
  | _ => none

def asTable? : Toml → Option (List (String × Toml))
  | .table _ fields => some fields
  | _ => none

/-- Whether a value is an array or a table with nothing in it. -/
def isVacant : Toml → Bool
  | .array items => items.isEmpty
  | .tables items => items.isEmpty
  | .table _ fields => fields.isEmpty
  | _ => false

/-- The name of a choice without content: a string, or the one key of an empty table. -/
def asChoice? : Toml → Option String
  | .string name => some name
  | .table _ [(name, value)] => if value.isVacant then some name else none
  | _ => none

/-- A list of values of one shape. -/
def listOf? (decode : Toml → Option α) (value : Toml) : Option (List α) := do
  (← value.asArray?).mapM decode

end Toml

end Componentry
