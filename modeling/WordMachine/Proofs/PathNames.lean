import WordMachine.Proofs.ByteStrings
import WordMachine.Build.Source

/-!
The last name of a path and what stands before it. Where a build writes an assembly differs from
where it reads the program in these two only, so what both paths name is compared through them.
-/

namespace WordMachine

namespace Bytes

variable {byte : UInt8}

/-! ## Searching and splitting -/

theorem getElem?_eq (text : Bytes) (position : Nat) : text[position]? = text.toList[position]? := by
  by_cases bound : position < text.size
  · have inside : position < text.toList.length := bound
    rw [getElem?_pos text position bound, List.getElem?_eq_getElem inside]
    rfl
  · have outside : text.toList.length ≤ position := Nat.le_of_not_lt bound
    rw [getElem?_neg text position bound, List.getElem?_eq_none outside]

theorem toList_injective {left right : Bytes} (same : left.toList = right.toList) :
    left = right := by
  rw [← ofList_toList left, same, ofList_toList]

theorem ofNat_injective : Function.Injective ofNat := by
  intro left right same
  unfold ofNat at same
  rw [String.toUTF8_eq_toByteArray, String.toUTF8_eq_toByteArray, String.toByteArray_inj] at same
  exact Nat.repr_injective same

theorem toList_utf8Encode (letters : List Char) :
    toList letters.utf8Encode = letters.flatMap String.utf8EncodeChar := by
  simp [toList, List.utf8Encode]

theorem toList_ofNat (number : Nat) :
    (ofNat number).toList = (Nat.toDigits 10 number).flatMap String.utf8EncodeChar := by
  unfold ofNat
  rw [Nat.repr_eq_ofList_toDigits, String.toUTF8_eq_toByteArray, String.toByteArray_ofList]
  exact toList_utf8Encode _

theorem size_ofNat_pos (number : Nat) : 0 < (ofNat number).size := by
  rw [← length_toList, List.length_pos_iff, toList_ofNat]
  obtain ⟨digit, digits, some⟩ := List.exists_cons_of_length_pos
    (Nat.length_toDigits_pos (b := 10) (n := number))
  rw [some, List.flatMap_cons]
  exact List.append_ne_nil_of_left_ne_nil String.utf8EncodeChar_ne_nil _

theorem isDigit_ofNat {number : Nat} (present : byte ∈ (ofNat number).toList) :
    48 ≤ byte ∧ byte ≤ 57 := by
  rw [toList_ofNat, List.mem_flatMap] at present
  obtain ⟨letter, digit, among⟩ := present
  have isDigit := Nat.isDigit_of_mem_toDigits (by decide) (by decide) digit
  have bounds : 48 ≤ letter.val ∧ letter.val ≤ 57 := by
    simpa [Char.isDigit] using isDigit
  have lower := UInt32.le_iff_toNat_le.1 bounds.1
  have upper := UInt32.le_iff_toNat_le.1 bounds.2
  change 48 ≤ letter.val.toNat at lower
  change letter.val.toNat ≤ 57 at upper
  have size : letter.utf8Size = 1 := by
    unfold Char.utf8Size
    have small : letter.val ≤ 0x7f := UInt32.le_iff_toNat_le.2 (Nat.le_trans upper (by decide))
    simp [small]
  rw [String.utf8EncodeChar_eq_singleton size, List.mem_singleton] at among
  subst among
  rw [UInt8.le_iff_toNat_le, UInt8.le_iff_toNat_le, UInt32.toNat_toUInt8]
  change 48 ≤ letter.val.toNat % 256 ∧ letter.val.toNat % 256 ≤ 57
  omega
theorem append_left_cancel {start left right : Bytes} (same : start ++ left = start ++ right) :
    left = right := by
  have lists := congrArg toList same
  rw [toList_append, toList_append] at lists
  exact toList_injective (List.append_cancel_left lists)

theorem toList_take (text : Bytes) (count : Nat) :
    (take text count).toList = text.toList.take count := by
  simp [take, toList]

theorem toList_drop (text : Bytes) (count : Nat) :
    (drop text count).toList = text.toList.drop count := by
  simp [drop, toList]

theorem lastIndexOf?_eq_none {text : Bytes} (absent : byte ∉ text.toList) :
    lastIndexOf? text byte = none := by
  have steps : ∀ count, lastIndexOf?.go text byte count = none := by
    intro count
    induction count with
    | zero => rfl
    | succ position ih =>
      unfold lastIndexOf?.go
      rw [if_neg, ih]
      rw [getElem?_eq]
      intro found
      exact absent (List.mem_of_getElem? (eq_of_beq found))
  exact steps text.size

theorem lastIndexOf?_eq_some {text : Bytes} {before after : List UInt8}
    (split : text.toList = before ++ byte :: after) (absent : byte ∉ after) :
    lastIndexOf? text byte = some before.length := by
  have steps : ∀ count,
      lastIndexOf?.go text byte (before.length + 1 + count) = some before.length := by
    intro count
    induction count with
    | zero =>
      unfold lastIndexOf?.go
      rw [if_pos]
      rw [getElem?_eq, split]
      simp
    | succ count ih =>
      change lastIndexOf?.go text byte (before.length + 1 + count + 1) = _
      unfold lastIndexOf?.go
      rw [if_neg, ih]
      rw [getElem?_eq, split, List.getElem?_append_right (by omega)]
      intro found
      rw [show before.length + 1 + count - before.length = count + 1 by omega,
        List.getElem?_cons_succ] at found
      exact absent (List.mem_of_getElem? (eq_of_beq found))
  have size : text.size = before.length + 1 + after.length := by
    rw [← length_toList, split, List.length_append, List.length_cons]
    omega
  unfold lastIndexOf?
  rw [size]
  exact steps after.length

theorem splitList_append (byte : UInt8) (current before after : List UInt8) :
    splitList byte current (before ++ byte :: after) =
      splitList byte current before ++ splitList byte [] after := by
  induction before generalizing current with
  | nil => simp [splitList]
  | cons head before ih =>
    simp only [List.cons_append, splitList]
    split
    · rw [ih, List.cons_append]
    · exact ih _

theorem splitList_of_absent {text : List UInt8} (absent : byte ∉ text) (current : List UInt8) :
    splitList byte current text = [current.reverse ++ text] := by
  induction text generalizing current with
  | nil => simp [splitList]
  | cons head text ih =>
    rw [List.mem_cons, not_or] at absent
    have other : ¬ (head == byte) = true := fun same => absent.1 (eq_of_beq same).symm
    rw [splitList, if_neg other, ih absent.2]
    simp

end Bytes

namespace Path

variable {stem directory : Bytes}

/-! ## The last name -/

/-- A path is a last name behind what stands before it. -/
structure Names (path before name : Bytes) : Prop where
  whole : path = before ++ name
  plain : (47 : UInt8) ∉ name.toList
  above : before.toList = [] ∨ ∃ directory, before.toList = directory ++ [47]

theorem exists_names (path : Bytes) : ∃ before name, Names path before name := by
  by_cases slash : (47 : UInt8) ∈ path.toList
  · obtain ⟨after, before, split, absent⟩ :=
      List.eq_append_cons_of_mem (List.mem_reverse.2 slash)
    have whole : path.toList = (before.reverse ++ [47]) ++ after.reverse := by
      rw [← List.reverse_reverse path.toList, split]
      simp
    refine ⟨Bytes.ofList (before.reverse ++ [47]), Bytes.ofList after.reverse, ?_, ?_, .inr ?_⟩
    · exact Bytes.toList_injective (by rw [whole, Bytes.toList_append]; rfl)
    · simpa using absent
    · exact ⟨before.reverse, rfl⟩
  · exact ⟨ByteArray.empty, path, Bytes.toList_injective (by simp [Bytes.toList]), slash, .inl rfl⟩

variable {path before name : Bytes}

theorem Names.lastPart_eq (names : Names path before name) : lastPart path = name := by
  obtain ⟨rfl, plain, above⟩ := names
  unfold lastPart
  rcases above with none | ⟨directory, some⟩
  · have whole : (before ++ name).toList = name.toList := by
      rw [Bytes.toList_append, none, List.nil_append]
    rw [Bytes.lastIndexOf?_eq_none (whole ▸ plain)]
    exact Bytes.toList_injective whole
  · have whole : (before ++ name).toList = directory ++ 47 :: name.toList := by
      rw [Bytes.toList_append, some]
      simp
    rw [Bytes.lastIndexOf?_eq_some whole plain]
    refine Bytes.toList_injective ?_
    simp only [Bytes.toList_drop, whole]
    simp

/-- The parts of a path without the last one depend only on what stands before the last name. -/
def partsAbove (before : Bytes) : List Bytes :=
  (Bytes.split before 47).dropLast

theorem Names.split_eq (names : Names path before name) :
    Bytes.split path 47 = partsAbove before ++ [name] := by
  obtain ⟨rfl, plain, above⟩ := names
  unfold partsAbove Bytes.split
  rw [Bytes.toList_append]
  rcases above with none | ⟨directory, some⟩
  · rw [none, List.nil_append, Bytes.splitList_of_absent plain]
    simp [Bytes.splitList]
  · rw [some, List.append_assoc, List.singleton_append, Bytes.splitList_append,
      Bytes.splitList_of_absent plain, Bytes.splitList_append]
    simp [Bytes.splitList]

/-! ## The extension -/

theorem Names.exists_stem (names : Names path before name) :
    ∃ stem, name = stem ++ extension path := by
  unfold extension
  rw [names.lastPart_eq]
  dsimp only
  split
  · next position _ =>
    refine ⟨Bytes.take name position, Bytes.toList_injective ?_⟩
    rw [Bytes.toList_append, Bytes.toList_take, Bytes.toList_drop, List.take_append_drop]
  · exact ⟨name, Bytes.toList_injective (by simp [Bytes.toList])⟩

theorem Names.extension_eq {ending : Bytes} {rest : List UInt8}
    (names : Names path before (stem ++ ending)) (dot : ending.toList = 46 :: rest)
    (last : (46 : UInt8) ∉ rest) : extension path = ending := by
  have whole : (stem ++ ending).toList = stem.toList ++ 46 :: rest := by
    rw [Bytes.toList_append, dot]
  unfold extension
  rw [names.lastPart_eq]
  dsimp only
  rw [Bytes.lastIndexOf?_eq_some whole last]
  refine Bytes.toList_injective ?_
  simp only [Bytes.toList_drop, whole, List.drop_left, dot]

/-! ## Names in a directory -/

theorem toList_slash : Bytes.toList "/" = [47] := by
  decide

theorem toList_below (directory name : Bytes) :
    (directory ++ "/" ++ name).toList = directory.toList ++ 47 :: name.toList := by
  rw [Bytes.toList_append, Bytes.toList_append, toList_slash, List.append_assoc]
  rfl

/-- What stands before a name in the shortest path to it in a directory. -/
def directoryPrefix (directory : Bytes) : Bytes :=
  let absolute := isAbsolute directory
  let parts := ((Bytes.split directory 47).foldl (pushPart absolute) []).reverse
  (if absolute then "/".toUTF8 else ByteArray.empty) ++
    (if parts.isEmpty then ByteArray.empty else Bytes.join "/" parts ++ "/")

theorem join_concat (parts : List Bytes) (name : Bytes) :
    Bytes.join "/" (parts ++ [name]) =
      (if parts.isEmpty then ByteArray.empty else Bytes.join "/" parts ++ "/") ++ name := by
  cases parts with
  | nil => exact Bytes.toList_injective (by simp [Bytes.join, Bytes.toList])
  | cons first rest => simp [Bytes.join, List.foldl_append]

/-- A name that can be that of a file. -/
structure IsPlain (name : Bytes) : Prop where
  noSlash : (47 : UInt8) ∉ name.toList
  present : name.isEmpty = false
  notHere : name ≠ ".".toUTF8
  notAbove : name ≠ "..".toUTF8

theorem pushPart_plain {name : Bytes} (plain : IsPlain name) (absolute : Bool)
    (parts : List Bytes) : pushPart absolute parts name = name :: parts := by
  have notHere : (name == ".".toUTF8) = false := beq_eq_false_iff_ne.2 plain.notHere
  have notAbove : (name == "..".toUTF8) = false := beq_eq_false_iff_ne.2 plain.notAbove
  unfold pushPart
  rw [plain.present, notHere, notAbove]
  rfl

theorem isEmpty_eq_false {text : Bytes} : text.isEmpty = false ↔ text.toList ≠ [] := by
  unfold ByteArray.isEmpty
  rw [← Bytes.length_toList, beq_eq_false_iff_ne]
  exact List.length_eq_zero_iff.not

theorem clean_below {name : Bytes} (present : directory.isEmpty = false) (plain : IsPlain name) :
    clean (directory ++ "/" ++ name) = directoryPrefix directory ++ name := by
  have split : Bytes.split (directory ++ "/" ++ name) 47 = Bytes.split directory 47 ++ [name] := by
    unfold Bytes.split
    rw [toList_below, Bytes.splitList_append, Bytes.splitList_of_absent plain.noSlash]
    simp
  have absolute : isAbsolute (directory ++ "/" ++ name) = isAbsolute directory := by
    have positive : 0 < directory.toList.length :=
      List.length_pos_iff.2 (isEmpty_eq_false.1 present)
    unfold isAbsolute
    rw [Bytes.getElem?_eq, Bytes.getElem?_eq, toList_below, List.getElem?_append_left positive]
  have relative : ∀ parts : List Bytes, (Bytes.join "/" (parts ++ [name])).isEmpty = false := by
    intro parts
    rw [join_concat, isEmpty_eq_false, Bytes.toList_append]
    exact List.append_ne_nil_of_right_ne_nil _ (isEmpty_eq_false.1 plain.present)
  unfold clean directoryPrefix
  dsimp only
  rw [absolute, split, List.foldl_append, List.foldl_cons, List.foldl_nil, pushPart_plain plain,
    List.reverse_cons, relative]
  cases isAbsolute directory with
  | true =>
    rw [join_concat]
    exact Bytes.toList_injective (by simp only [Bytes.toList_append, if_true, List.append_assoc])
  | false =>
    rw [join_concat]
    refine Bytes.toList_injective ?_
    simp [Bytes.toList]

theorem join_directory {name : Bytes} (present : directory.isEmpty = false) (plain : IsPlain name) :
    join [directory, name] = directoryPrefix directory ++ name := by
  unfold join
  rw [List.filter_cons_of_pos (by simp [present]),
    List.filter_cons_of_pos (by simp [plain.present])]
  exact clean_below present plain

theorem names_directoryPrefix {name : Bytes} (plain : IsPlain name) :
    Names (directoryPrefix directory ++ name) (directoryPrefix directory) name := by
  refine ⟨rfl, plain.noSlash, ?_⟩
  unfold directoryPrefix
  simp only [Bytes.toList_append]
  split <;> split
  · exact .inr ⟨[], by rw [toList_slash]; rfl⟩
  · rw [Bytes.toList_append, toList_slash, ← List.append_assoc]
    exact .inr ⟨_, rfl⟩
  · exact .inl rfl
  · rw [Bytes.toList_append, toList_slash, ← List.append_assoc]
    exact .inr ⟨_, rfl⟩

/-! ## Where an assembly is written -/

theorem toList_assemblyExtension : Bytes.toList Build.assemblyExtension = [46, 110, 118, 97] := by
  decide

theorem isPlain_assembly (noSlash : (47 : UInt8) ∉ stem.toList) :
    IsPlain (stem ++ Build.assemblyExtension) := by
  have whole : (stem ++ Build.assemblyExtension).toList = stem.toList ++ [46, 110, 118, 97] := by
    rw [Bytes.toList_append, toList_assemblyExtension]
  have long : 4 ≤ (stem ++ Build.assemblyExtension).toList.length := by
    rw [whole, List.length_append]
    exact Nat.le_add_left 4 _
  refine ⟨?_, ?_, ?_, ?_⟩
  · rw [whole, List.mem_append, not_or]
    exact ⟨noSlash, by decide⟩
  · rw [isEmpty_eq_false]
    intro none
    rw [none] at long
    exact absurd long (by decide)
  · intro same
    rw [same] at long
    exact absurd long (by decide)
  · intro same
    rw [same] at long
    exact absurd long (by decide)

/-- What stands before the name of an assembly: what stands before that of its program, or the
directory for assemblies. -/
def outputPrefix (before directory : Bytes) : Bytes :=
  if directory.isEmpty then before else directoryPrefix directory

theorem Names.no_final_slashes (names : Names path before name) (plain : IsPlain name) :
    path.toList.reverse.dropWhile (· == 47) = path.toList.reverse := by
  obtain ⟨front, last, split⟩ : ∃ front last, name.toList = front ++ [last] :=
    ⟨_, _, (List.dropLast_append_getLast (isEmpty_eq_false.1 plain.present)).symm⟩
  have noSlash : ¬ (last == 47) = true := by
    intro same
    refine plain.noSlash ?_
    rw [split, ← eq_of_beq same]
    exact List.mem_append_right _ List.mem_cons_self
  rw [names.whole, Bytes.toList_append, split, ← List.append_assoc, List.reverse_append,
    List.reverse_singleton, List.singleton_append]
  exact List.dropWhile_cons_of_neg noSlash

theorem Names.base_eq (names : Names path before name) (plain : IsPlain name) :
    base path = name := by
  have present : path.isEmpty = false := by
    rw [isEmpty_eq_false, names.whole, Bytes.toList_append]
    exact List.append_ne_nil_of_right_ne_nil _ (isEmpty_eq_false.1 plain.present)
  unfold base
  rw [present, names.no_final_slashes plain, List.reverse_reverse, Bytes.ofList_toList,
    names.lastPart_eq]
  dsimp only
  rw [plain.present]
  rfl

theorem Names.noSlash_stem {ending : Bytes} (names : Names path before (stem ++ ending)) :
    (47 : UInt8) ∉ stem.toList := by
  have plain := names.plain
  rw [Bytes.toList_append, List.mem_append, not_or] at plain
  exact plain.1

theorem outputPath_eq {file : Bytes} (names : Names file before (stem ++ extension file)) :
    Build.outputPath file directory =
      outputPrefix before directory ++ (stem ++ Build.assemblyExtension) := by
  have target : Bytes.take file (file.size - (extension file).size) ++ Build.assemblyExtension =
      before ++ (stem ++ Build.assemblyExtension) := by
    have whole : file.toList = (before.toList ++ stem.toList) ++ (extension file).toList := by
      conv_lhs => rw [names.whole]
      simp only [Bytes.toList_append, List.append_assoc]
    refine Bytes.toList_injective ?_
    have sizes : file.size - (extension file).size = (before.toList ++ stem.toList).length := by
      rw [← Bytes.length_toList file, whole, List.length_append, Bytes.length_toList,
        Nat.add_sub_cancel]
    rw [Bytes.toList_append, Bytes.toList_take, sizes, whole, List.take_left']
    · simp only [Bytes.toList_append, List.append_assoc]
    · rfl
  have plain := isPlain_assembly names.noSlash_stem
  unfold Build.outputPath outputPrefix
  dsimp only
  rw [target]
  split
  · rfl
  · next directoryGiven =>
    have targetNames : Names (before ++ (stem ++ Build.assemblyExtension)) before
        (stem ++ Build.assemblyExtension) := ⟨rfl, plain.noSlash, names.above⟩
    rw [targetNames.base_eq plain, join_directory (Bool.eq_false_iff.2 directoryGiven) plain]

theorem names_outputPath {file : Bytes} (names : Names file before (stem ++ extension file)) :
    Names (Build.outputPath file directory) (outputPrefix before directory)
      (stem ++ Build.assemblyExtension) := by
  have plain := isPlain_assembly names.noSlash_stem
  rw [outputPath_eq names]
  unfold outputPrefix
  split
  · exact ⟨rfl, plain.noSlash, names.above⟩
  · exact names_directoryPrefix plain

end Path

end WordMachine
