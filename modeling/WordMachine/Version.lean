import WordMachine.Assembly.File
import WordMachine.Text.Paint

/-!
The version of the tools, as one line and as a block.
-/

namespace WordMachine

structure Version where
  number : Bytes := "0.1.0-dev"
  commit : Bytes := ByteArray.empty
  date : Bytes := ByteArray.empty

namespace Version

def line (version : Version) : Bytes :=
  if version.commit.isEmpty then version.number
  else version.number ++ " (" ++ Bytes.take version.commit 12 ++ ")"

def toolName : Bytes := "novus"

def namePaint : Paint := ⟨"36;1", "0;22"⟩

def corePaint : Paint := ⟨"33;1", "0;22"⟩

def labelPaint : Paint := ⟨"90", "0"⟩

/-- One line of the block; nothing without a value. -/
def row (color : Bool) (label value : Bytes) : Bytes :=
  if value.isEmpty then ByteArray.empty
  else "  " ++ labelPaint.apply color (Bytes.padRight label 8 32) ++ " " ++ value ++ "\n"

/-- What stands before the first dash of a number, and the rest; nothing is left of a dash that
ends it. -/
def splitNumber (number : Bytes) : Bytes × Bytes :=
  match Bytes.indexOf? number 45 0 with
  | none => (number, ByteArray.empty)
  | some position =>
    let rest := Bytes.drop number position
    (Bytes.take number position, if rest.size = 1 then ByteArray.empty else rest)

def banner (version : Version) (color : Bool) : Bytes :=
  let (core, rest) := splitNumber version.number
  namePaint.apply color toolName ++ " " ++ corePaint.apply color core ++ rest ++ "\n" ++
    row color "commit" version.commit ++ row color "built" version.date ++
    row color "schema" (Bytes.ofNat Assembly.schemaVersion.toNat)

def member (name value : Bytes) : Bytes :=
  if value.isEmpty then ByteArray.empty
  else "  \"" ++ name ++ "\": " ++ Text.jsonString value ++ ",\n"

def record (version : Version) : Bytes :=
  "\x7b\n" ++ member "tool" toolName ++ "  \"version\": " ++ Text.jsonString version.number ++
    ",\n" ++ member "git_commit" version.commit ++ member "build_date" version.date ++
    "  \"assembly_schema\": " ++ Bytes.ofNat Assembly.schemaVersion.toNat ++ "\n\x7d\n"

end Version

end WordMachine
