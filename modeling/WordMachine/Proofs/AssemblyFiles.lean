import WordMachine.Assembly.File
import WordMachine.Proofs.RestoredPrograms

/-!
Assembly files read back. A saved assembly is loaded as the same assembly whatever bytes it is made
of, whether its empty parts are written as empty or as absent, and whatever follows the file.
-/

namespace WordMachine

namespace MessagePack

theorem data_binary (data : Option Bytes) : Meaning.data [binary data] = some data := by
  cases data <;> simp [Meaning.data, binary, Value.toData?, Value.toText?]

theorem mapM_toText? (texts : List Bytes) :
    (texts.map Value.str).mapM Value.toText? = some texts := by
  induction texts with
  | nil => rfl
  | cons text texts ih =>
    rw [List.map_cons, List.mapM_cons, ih]
    rfl

theorem texts_list (texts : Option (List Bytes)) :
    Meaning.texts [list Value.str texts] = some texts := by
  cases texts with
  | none => rfl
  | some texts =>
    simp only [Meaning.texts, list, List.foldlM_cons, List.foldlM_nil, mapM_toText?]
    rfl

theorem isCanonical_binary (data : Option Bytes) : (binary data).isCanonical = true := by
  cases data <;> simp [binary, Value.isCanonical]

theorem isShort_binary {data : Option Bytes}
    (few : (data.getD ByteArray.empty).size < 4294967296) : (binary data).isShort = true := by
  cases data with
  | none => rw [binary, Value.isShort] <;> simp
  | some data => exact decide_eq_true few

end MessagePack

namespace Assembly

open MessagePack

variable {file : File}

/-! ## Files -/

/-- Whether every length in a file fits in its header. -/
structure File.IsShort (file : File) : Prop where
  magic : file.magic.size < 4294967296
  code : (file.code.getD ByteArray.empty).size < 4294967296
  literals : (file.literals.getD []).length < 4294967296 ∧
    ∀ literal ∈ file.literals.getD [], literal.size < 4294967296
  entries : (file.entries.getD []).length < 4294967296

theorem File.isCanonical_toValue (file : File) : file.toValue.isCanonical = true := by
  simp [File.toValue, Value.isCanonical, isCanonical_binary]

theorem File.isShort_toValue (short : file.IsShort) : file.toValue.isShort = true := by
  have literals : (list Value.str file.literals).isShort = true :=
    isShort_list short.literals.1 fun literal member =>
      decide_eq_true (short.literals.2 literal member)
  have entries := Program.isShort_numbers short.entries
  simp +decide [File.toValue, isShort_record, Value.isShort, short.magic,
    isShort_binary short.code, literals, entries]

theorem File.read_toValue (file : File) : File.read [file.toValue] = some file := by
  have entries := list_read file.entries fun entry _ => Meaning.u32_single entry
  rw [File.read, File.toValue, readRecord_record]
  simp [data_binary, texts_list, entries]

/-- Loading the bytes of a file decides on its signature and its version, in this order, and takes
its absent parts as empty. -/
theorem load_toBytes (short : file.IsShort) (rest : Bytes) :
    load (file.toBytes ++ rest) =
      if file.magic != magic then .error (.wrongMagic file.magic)
      else if file.schema != schemaVersion then .error (.wrongSchema file.schema)
      else .ok {
        code := file.code.getD ByteArray.empty
        literals := (file.literals.getD []).toArray
        entries := (file.entries.getD []).toArray } := by
  have found := Value.ofBytes?_append file.isCanonical_toValue (File.isShort_toValue short) rest
  rw [load, File.toBytes, found, Option.bind_some, File.read_toValue]

/-! ## Assemblies -/

/-- Whether every length in an assembly fits in a file. -/
structure IsShort (assembly : Assembly) : Prop where
  code : assembly.code.size < 4294967296
  literals : assembly.literals.size < 4294967296
  texts : ∀ literal ∈ assembly.literals, literal.size < 4294967296
  entries : assembly.entries.size < 4294967296

/-- A signed file of the current version with the parts of an assembly; an empty part may be
absent. -/
structure File.Holds (file : File) (assembly : Assembly) : Prop where
  magic : file.magic = Assembly.magic
  schema : file.schema = schemaVersion
  code : file.code.getD ByteArray.empty = assembly.code
  literals : (file.literals.getD []).toArray = assembly.literals
  entries : (file.entries.getD []).toArray = assembly.entries

theorem holds_toFile (assembly : Assembly) : assembly.toFile.Holds assembly where
  magic := rfl
  schema := rfl
  code := rfl
  literals := assembly.literals.toArray_toList
  entries := assembly.entries.toArray_toList

theorem File.Holds.isShort {assembly : Assembly} (holds : file.Holds assembly)
    (short : assembly.IsShort) : file.IsShort where
  magic := by rw [holds.magic]; decide
  code := by rw [holds.code]; exact short.code
  literals := by
    have few := short.literals
    have texts := short.texts
    rw [← holds.literals] at few texts
    exact ⟨few, fun literal member => texts literal (List.mem_toArray.2 member)⟩
  entries := by
    have few := short.entries
    rwa [← holds.entries] at few

theorem File.Holds.load {assembly : Assembly} (holds : file.Holds assembly)
    (short : assembly.IsShort) (rest : Bytes) :
    Assembly.load (file.toBytes ++ rest) = .ok assembly := by
  have signed : ¬(file.magic != Assembly.magic) = true := by simp [holds.magic]
  have current : ¬(file.schema != schemaVersion) = true := by simp [holds.schema]
  rw [load_toBytes (holds.isShort short) rest, if_neg signed, if_neg current, holds.code,
    holds.literals, holds.entries]

/-- A saved assembly is loaded as itself, whatever follows it; so is every other file that holds the
assembly, with any of its empty parts absent. -/
theorem load_save_append {assembly : Assembly} (short : assembly.IsShort) (rest : Bytes) :
    load (assembly.save ++ rest) = .ok assembly ∧
      ∀ file : File, file.Holds assembly → load (file.toBytes ++ rest) = .ok assembly :=
  ⟨assembly.holds_toFile.load short rest, fun _ holds => holds.load short rest⟩

/-- An assembly without code and entries whose literals are the empty text and a text that is not
UTF-8. -/
def bareLiterals : Assembly where
  code := ByteArray.empty
  literals := #[ByteArray.empty, Bytes.ofList [0xff, 0xc0]]
  entries := #[]

/-- The file of that assembly with its empty parts absent. -/
def bareFile : File where
  magic := magic
  schema := schemaVersion
  code := none
  literals := some bareLiterals.literals.toList
  entries := none

theorem load_save_append_bareLiterals :
    (bareLiterals.IsShort ∧ bareFile.Holds bareLiterals) ∧
      bareLiterals.save ≠ bareFile.toBytes ∧
      load (bareLiterals.save ++ "more") = .ok bareLiterals ∧
      load (bareFile.toBytes ++ "more") = .ok bareLiterals := by
  have short : bareLiterals.IsShort :=
    ⟨by decide, by decide, by simp +decide, by decide⟩
  have holds : bareFile.Holds bareLiterals := ⟨rfl, rfl, rfl, rfl, rfl⟩
  obtain ⟨saved, others⟩ := load_save_append short "more"
  exact ⟨⟨short, holds⟩, by decide, saved, others bareFile holds⟩

end Assembly

end WordMachine
