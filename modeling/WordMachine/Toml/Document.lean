import WordMachine.Toml.Reader

/-!
Tables of a TOML file. The statements are applied in their order; a key can be defined once, except
that a table which was only implied by a longer key can still be defined, and that an array gives
way to a later value.
-/

namespace WordMachine.Toml

/-- What a key holds. -/
inductive Node where
  | text (value : Bytes)
  | integer (value : Int)
  | scalar
  | array
  | table (members : List (Bytes × Node))
  /-- An array of tables, the latest first. -/
  | tables (elements : List (List (Bytes × Node)))
  deriving Inhabited

abbrev Table := List (Bytes × Node)

namespace Table

def find? (table : Table) (name : Bytes) : Option Node :=
  (List.find? (fun (found, _) => found == name) table).map (·.2)

/-- Defines a member; an old one keeps its place. -/
def set (table : Table) (name : Bytes) (node : Node) : Table :=
  if (table.find? name).isSome then
    table.map fun (found, old) => if found == name then (found, node) else (found, old)
  else table ++ [(name, node)]

def update (change : Table → Option Table) : Key → Table → Option Table
  | [], table => change table
  | name :: rest, table =>
    match table.find? name with
    | some (.table inner) =>
      (update change rest inner).map fun inner => table.set name (.table inner)
    | some (.tables (latest :: others)) =>
      (update change rest latest).map fun latest => table.set name (.tables (latest :: others))
    | _ => none

def lookup? : Key → Table → Option Table
  | [], table => some table
  | name :: rest, table =>
    match table.find? name with
    | some (.table inner) => lookup? rest inner
    | some (.tables (latest :: _)) => lookup? rest latest
    | _ => none

end Table

/-- A document while its statements are applied. -/
structure Draft where
  root : Table := []
  /-- Tables implied by longer keys and not defined yet. -/
  implied : List Key := []
  /-- Keys whose latest value is an array. -/
  arrays : List Key := []
  keys : List Key := []
  deriving Inhabited

namespace Draft

def isImplied (draft : Draft) (key : Key) : Bool :=
  draft.implied.contains key

def imply (draft : Draft) (key : Key) : Draft :=
  { draft with implied := key :: draft.implied }

def confirm (draft : Draft) (key : Key) : Draft :=
  { draft with implied := draft.implied.filter (· != key) }

def note (draft : Draft) (key : Key) : Draft :=
  { draft with keys := key :: draft.keys }

/-- Records whether a name of the context holds an array. The empty name stands for the context
itself. -/
def mark (draft : Draft) (context : Key) (name : Bytes) (isArray : Bool) : Draft :=
  let key :=
    if !name.isEmpty then context ++ [name] else if context.isEmpty then [name] else context
  let others := draft.arrays.filter (· != key)
  { draft with arrays := if isArray then key :: others else others }

def define (draft : Draft) (context : Key) (name : Bytes) (node : Node) : Option Draft := do
  let table ← draft.root.lookup? context
  let key := context ++ [name]
  let put (draft : Draft) : Option Draft := do
    let root ← draft.root.update (fun table => some (table.set name node)) context
    some { draft with root }
  if (table.find? name).isNone then put draft
  else if draft.arrays.contains key then put (draft.confirm key)
  else if draft.isImplied key then some (draft.confirm key)
  else none

def implyAbove (draft : Draft) : Key → Key → Option Draft
  | _, [] => some draft
  | _, [_] => some draft
  | context, name :: rest => do
    let table ← draft.root.lookup? context
    let key := context ++ [name]
    match table.find? name with
    | none =>
      let root ← draft.root.update (fun table => some (table.set name (.table []))) context
      implyAbove { draft.imply key with root } key rest
    | some (.table _) => implyAbove draft key rest
    | some (.tables _) => implyAbove draft key rest
    | some _ => none

def openTable (draft : Draft) (key : Key) (inArray : Bool) : Option Draft := do
  let draft ← draft.implyAbove [] key
  let context := key.dropLast
  let name ← key.getLast?
  if inArray then do
    let table ← draft.root.lookup? context
    let elements ← match table.find? name with
      | none => some []
      | some (.tables elements) => some elements
      | some _ => none
    let root ← draft.root.update
      (fun table => some (table.set name (.tables ([] :: elements)))) context
    some { draft with root }
  else draft.define context name (.table [])

/-- Opens the tables that a dotted key implies, and gives the key of the innermost. -/
def openDotted (draft : Draft) : Key → List Bytes → Option (Draft × Key)
  | context, [] => some (draft, context)
  | context, name :: rest => do
    let key := context ++ [name]
    let draft ← (draft.imply key).openTable key false
    draft.openDotted key rest

mutual

/-- Evaluates a value that stands for a name of the context. Tables on one line define their keys
on the way. -/
def evaluate (draft : Draft) (context : Key) (name : Bytes) (inArray : Bool) :
    Literal → Option (Draft × Node)
  | .text value => some (draft, .text value)
  | .integer value => some (draft, .integer value)
  | .float _ => some (draft, .scalar)
  | .boolean _ => some (draft, .scalar)
  | .moment _ => some (draft, .scalar)
  | .array items => do
    let draft ← evaluateItems (draft.mark context name true) context name items
    some (draft, .array)
  | .table pairs => do
    let key := context ++ [name]
    let draft ← (draft.imply key).openTable key inArray
    let (draft, members) ← evaluatePairs draft key pairs
    some (draft, .table members)

def evaluateItems (draft : Draft) (context : Key) (name : Bytes) : List Literal → Option Draft
  | [] => some draft
  | item :: rest => do
    let (draft, _) ← evaluate draft context name true item
    evaluateItems draft context name rest

def evaluatePairs (draft : Draft) (context : Key) :
    List (Key × Literal) → Option (Draft × Table)
  | [] => some (draft, [])
  | (key, item) :: rest => do
    let name ← key.getLast?
    let (draft, inner) ← draft.openDotted context key.dropLast
    let (draft, node) ← evaluate (draft.note (inner ++ [name])) inner name false item
    let draft ← draft.define inner name node
    let isArray : Bool := match node with
      | .array => true
      | _ => false
    let (draft, members) ← evaluatePairs (draft.mark inner name isArray) context rest
    some (draft, Table.set members name node)

end

/-- Applies a statement under the header read last, and gives the header that then holds. -/
def apply (draft : Draft) (header : Key) : Statement → Option (Draft × Key)
  | .table key => do
    let draft ← draft.openTable key false
    some ((draft.mark key ByteArray.empty false).note key, key)
  | .tableOfArray key => do
    let draft ← draft.openTable key true
    some ((draft.mark key ByteArray.empty false).note key, key)
  | .pair key item => do
    let (draft, _) ← evaluatePairs draft header [(key, item)]
    some (draft, header)

def applyAll (draft : Draft) (header : Key) : List Statement → Option Draft
  | [] => some draft
  | statement :: rest => do
    let (draft, header) ← draft.apply header statement
    draft.applyAll header rest

end Draft

/-- A document: its tables, and all its keys in the order of their definitions. -/
structure Document where
  root : Table
  keys : List Key
  deriving Inhabited

namespace Document

/-- The document of a file; none if the file is not TOML or defines a key twice. -/
def parse (file : Bytes) : Option Document := do
  let draft ← ({} : Draft).applyAll [] (← Toml.parse file)
  some ⟨draft.root, draft.keys.reverse⟩

end Document

end WordMachine.Toml
