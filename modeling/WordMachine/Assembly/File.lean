import WordMachine.Assembly.Basic
import WordMachine.MessagePack.Record
import WordMachine.Text.Quoted

/-!
Assembly files: one MessagePack record with a signature, a version and the parts of an assembly.
-/

namespace WordMachine.Assembly

open MessagePack

/-- What an assembly file holds. Absent code or an absent list is written differently from an empty
one but means the same. -/
structure File where
  magic : Bytes := ByteArray.empty
  schema : UInt16 := 0
  code : Option Bytes := none
  literals : Option (List Bytes) := none
  entries : Option (List UInt32) := none

/-- Why bytes are not an assembly file. -/
inductive FileError where
  | malformed (reason : Bytes)
  | wrongMagic (magic : Bytes)
  | wrongSchema (schema : UInt16)
  deriving DecidableEq

def schemaVersion : UInt16 := 1

def magic : Bytes := "novasm"

def FileError.message : FileError → Bytes
  | .malformed reason => "decode assembly: " ++ reason
  | .wrongMagic magic => "not an assembly file (magic " ++ Text.quote magic ++ ")"
  | .wrongSchema schema =>
    "assembly schema mismatch: file has " ++ Bytes.ofNat schema.toNat ++ ", expected " ++
      Bytes.ofNat schemaVersion.toNat

namespace File

def read : Meaning File := readRecord ["magic", "schema", "code", "lits", "entry"] fun field => do
  let magic ← Meaning.text (field "magic")
  let schema ← Meaning.u16 (field "schema")
  let code ← Meaning.data (field "code")
  let literals ← Meaning.texts (field "lits")
  let entries ← Meaning.list Meaning.u32 (field "entry")
  return { magic, schema, code, literals, entries }

def toValue (file : File) : Value :=
  record
    [("magic", .str file.magic), ("schema", .u16 file.schema), ("code", binary file.code),
      ("lits", list Value.str file.literals), ("entry", list Value.u32 file.entries)]

def toBytes (file : File) : Bytes :=
  file.toValue.toBytes

end File

def toFile (assembly : Assembly) : File where
  magic := magic
  schema := schemaVersion
  code := some assembly.code
  literals := some assembly.literals.toList
  entries := some assembly.entries.toList

def save (assembly : Assembly) : Bytes :=
  assembly.toFile.toBytes

/-- Reads a saved assembly; bytes after the record do not matter. -/
def load (data : Bytes) : Except FileError Assembly :=
  match (Value.ofBytes? data).bind (fun value => File.read [value]) with
  | none => .error (.malformed (complaint data))
  | some file =>
    if file.magic != magic then .error (.wrongMagic file.magic)
    else if file.schema != schemaVersion then .error (.wrongSchema file.schema)
    else .ok {
      code := file.code.getD ByteArray.empty
      literals := (file.literals.getD []).toArray
      entries := (file.entries.getD []).toArray }

end WordMachine.Assembly
