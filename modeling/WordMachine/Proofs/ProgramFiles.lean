import WordMachine.Proofs.MessagePackValues
import WordMachine.Proofs.WholeExpressions

/-!
Program files read back. What a program's tables, bodies and statements are written as is read as
the same again, up to float literals: a negative zero comes back positive and a signalling NaN
quiet.
-/

namespace WordMachine

namespace MessagePack

variable {α : Type}

/-! ## Places -/

/-- The values that a written record gives a field. -/
def given (fields : List (String × Value)) (name : String) : List Value :=
  fields.filterMap fun (found, value) => if found = name then some value else none

@[simp]
theorem given_nil (name : String) : given [] name = [] := rfl

@[simp]
theorem given_cons (found : String) (value : Value) (fields : List (String × Value))
    (name : String) :
    given ((found, value) :: fields) name =
      (if found = name then [value] else []) ++ given fields name := by
  by_cases same : found = name <;> simp [given, same]

@[simp]
theorem given_append (left right : List (String × Value)) (name : String) :
    given (left ++ right) name = given left name ++ given right name :=
  List.filterMap_append

theorem mapEntries_record (fields : List (String × Value)) :
    mapEntries (fields.map fun (name, value) => (.str name.toUTF8, value)) =
      some (fields.map fun (name, value) => (name.toUTF8, value)) := by
  induction fields with
  | nil => rfl
  | cons field fields ih =>
    rw [mapEntries] at ih
    rw [mapEntries, List.map_cons, List.mapM_cons, ih]
    rfl

theorem fieldValues_map (fields : List (String × Value)) (name : String) :
    fieldValues (fields.map fun (name, value) => (name.toUTF8, value)) name =
      given fields name := by
  have same : ∀ found : String, (found.toUTF8 == name.toUTF8) = decide (found = name) := by
    intro found
    rw [Bool.eq_iff_iff, beq_iff_eq, decide_eq_true_eq]
    exact String.toByteArray_inj
  simp only [fieldValues, given, List.filterMap_map]
  refine List.filterMap_congr fun field _ => ?_
  simp only [Function.comp_apply, same, decide_eq_true_eq]

theorem readRecord_record (names : List String) (build : (String → List Value) → Option α)
    (fields : List (String × Value)) :
    readRecord names build [record fields] = build (given fields) := by
  have places : fieldValues (fields.map fun (name, value) => (name.toUTF8, value)) =
      given fields := funext (fieldValues_map fields)
  simp only [readRecord, record, entryGroups, mapEntries_record, Option.pure_def,
    Option.bind_eq_bind, Option.bind_some, intoFirst, List.append_nil, List.mapM_cons,
    List.mapM_nil, places]
  cases build (given fields) <;> rfl

/-! ## Numbers and texts -/

namespace Meaning

@[simp]
theorem last_single {α : Type} (read : Value → Option α) (zero : α) (value : Value) :
    last read zero [value] = read value := by
  simp only [last, List.mapM_cons, List.mapM_nil]
  cases read value <;> rfl

@[simp]
theorem u8_single (value : UInt8) : u8 [.u8 value] = some value := by
  change some value.toUInt64.toUInt8 = some value
  simp

@[simp]
theorem u16_single (value : UInt16) : u16 [.u16 value] = some value := by
  change some value.toUInt64.toUInt16 = some value
  simp

@[simp]
theorem u32_single (value : UInt32) : u32 [.u32 value] = some value := by
  change some value.toUInt64.toUInt32 = some value
  simp

@[simp]
theorem i32_single (value : Int32) : i32 [.i32 value] = some value := by
  have kept : value.toInt64.toUInt64.toUInt32.toInt32 = value := by
    apply Int32.toBitVec_inj.1
    change (value.toBitVec.signExtend 64).setWidth 32 = value.toBitVec
    ext position inside
    rw [BitVec.getElem_setWidth, BitVec.getLsbD_signExtend]
    simp [inside, Nat.lt_trans inside]
  exact congrArg some kept

@[simp]
theorem i64_single (value : Int64) : i64 [.i64 value] = some value := by
  change some value.toUInt64.toInt64 = some value
  simp

@[simp]
theorem text_single (value : Bytes) : text [.str value] = some value := rfl

end Meaning

/-! ## Lists -/

section

variable {α β : Type} {read : Meaning β} {write : α → Value} {settle : α → β}

theorem places_single (items : List α)
    (each : ∀ item ∈ items, read [write item] = some (settle item)) :
    (places items.length [items.map write]).mapM read = some (items.map settle) := by
  induction items with
  | nil => rfl
  | cons item items ih =>
    have others := ih
      fun other member => each other (List.mem_cons_of_mem _ member)
    simp only [List.length_cons, places, List.map_cons, List.filterMap_cons, List.head?_cons,
      List.filterMap_nil, List.map_nil, List.tail_cons, List.mapM_cons,
      each item List.mem_cons_self, others]
    rfl

theorem list_read_map (items : Option (List α))
    (each : ∀ item ∈ items.getD [], read [write item] = some (settle item)) :
    Meaning.list read [list write items] = some (items.map (List.map settle)) := by
  cases items with
  | none => rfl
  | some items =>
    have found := places_single items each
    have length : items.length = (items.map settle).length := by rw [List.length_map]
    simp only [Meaning.list, list, arrayGroups, Option.pure_def, Option.bind_eq_bind,
      Option.bind_some, intoFirst, List.append_nil, List.mapM_cons, List.mapM_nil, readArrays,
      List.getLast?_singleton, List.map_cons, List.map_nil, List.foldl_cons, List.foldl_nil,
      List.length_map, Nat.zero_max, found, Option.map_some]
    rw [length, List.take_length]

end

theorem list_read {read : Meaning α} {write : α → Value} (items : Option (List α))
    (each : ∀ item ∈ items.getD [], read [write item] = some item) :
    Meaning.list read [list write items] = some items := by
  have found := @list_read_map α α read write id items each
  simpa using found

/-! ## Form -/

theorem areCanonical_iff {items : List Value} :
    Value.areCanonical items = true ↔ ∀ item ∈ items, item.isCanonical = true := by
  induction items with
  | nil => simp [Value.areCanonical]
  | cons item items ih => simp [Value.areCanonical, ih]

@[simp]
theorem isCanonical_record (fields : List (String × Value)) :
    (record fields).isCanonical = fields.all fun field => field.2.isCanonical := by
  rw [record, Value.isCanonical]
  induction fields with
  | nil => rfl
  | cons field fields ih =>
    rw [List.map_cons, Value.haveCanonical, ih, List.all_cons]
    rfl

@[simp]
theorem isCanonical_list (write : α → Value) (items : Option (List α)) :
    (list write items).isCanonical = (items.getD []).all fun item => (write item).isCanonical := by
  cases items with
  | none => rfl
  | some items =>
    rw [list, Value.isCanonical, Bool.eq_iff_iff, areCanonical_iff, List.all_eq_true]
    simp

theorem length_lt_of_mem_array {items : List Value} {item : Value} (member : item ∈ items) :
    item.render.length < (Value.array items).render.length := by
  have header := length_arrayHeader_pos items.length
  have inside : item.render.length ≤ (Value.renderItems items).length := by
    clear header
    induction items with
    | nil => cases member
    | cons first items ih =>
      rw [Value.renderItems, List.length_append]
      rcases List.mem_cons.1 member with rfl | member
      · omega
      · have later := ih member
        omega
  rw [Value.render, List.length_append]
  omega

theorem length_lt_of_mem_map {entries : List (Value × Value)} {key value : Value}
    (member : (key, value) ∈ entries) :
    value.render.length < (Value.map entries).render.length := by
  have header := length_mapHeader_pos entries.length
  have inside : value.render.length ≤ (Value.renderEntries entries).length := by
    clear header
    induction entries with
    | nil => cases member
    | cons first entries ih =>
      obtain ⟨firstKey, firstValue⟩ := first
      rw [Value.renderEntries, List.length_append, List.length_append]
      rcases List.mem_cons.1 member with same | member
      · cases same
        omega
      · have later := ih member
        omega
  rw [Value.render, List.length_append]
  omega

theorem length_lt_of_mem_record {fields : List (String × Value)} (name : String) {value : Value}
    (member : (name, value) ∈ fields) : value.render.length < (record fields).render.length :=
  length_lt_of_mem_map (List.mem_map.2 ⟨(name, value), member, rfl⟩)

end MessagePack

namespace Program

open MessagePack

variable {node kid : Node} {nodes : List Node}

/-! ## Nodes -/

/-- What a float literal comes back as. A negative zero is left out like a zero, and a signalling
NaN becomes quiet. -/
def settledSingle (bits : UInt32) : UInt32 :=
  if isZeroSingle bits then 0 else quietSingle bits

mutual

def Node.settled : Node → Node
  | { form, type, func, slot, number, float, text, kids, alternatives } =>
    { form, type, func, slot, number, float := settledSingle float, text
      kids := Node.allSettled kids, alternatives := Node.allSettled alternatives }

def Node.allSettled : List Node → List Node
  | [] => []
  | node :: nodes => node.settled :: Node.allSettled nodes

end

theorem allSettled_eq_map (nodes : List Node) : Node.allSettled nodes = nodes.map Node.settled := by
  induction nodes with
  | nil => rw [Node.allSettled, List.map_nil]
  | cons node nodes ih =>
    rw [Node.allSettled, List.map_cons, ih]

theorem toValues_eq_map (nodes : List Node) : Node.toValues nodes = nodes.map Node.toValue := by
  induction nodes with
  | nil => rw [Node.toValues, List.map_nil]
  | cons node nodes ih =>
    rw [Node.toValues, List.map_cons, ih]

@[simp]
theorem given_partIf (present : Bool) (found : String) (value : Value) (name : String) :
    given (partIf present found value) name =
      if found = name then if present then [value] else [] else [] := by
  cases present <;> simp [partIf]

@[simp]
theorem u32_part (value : UInt32) :
    Meaning.u32 (if (value != 0) = true then [.u32 value] else []) = some value := by
  by_cases zero : value = 0
  · subst zero
    rfl
  · simp [zero]

@[simp]
theorem i64_part (value : Int64) :
    Meaning.i64 (if (value != 0) = true then [.i64 value] else []) = some value := by
  by_cases zero : value = 0
  · subst zero
    rfl
  · simp [zero]

@[simp]
theorem text_part (value : Bytes) :
    Meaning.text (if (!value.isEmpty) = true then [.str value] else []) = some value := by
  by_cases empty : value.isEmpty = true
  · have none : value = ByteArray.empty := by
      refine ByteArray.size_eq_zero_iff.1 ?_
      simpa [ByteArray.isEmpty] using empty
    subst none
    rfl
  · simp [empty]

theorem quietSingle_quietSingle (bits : UInt32) :
    quietSingle (quietSingle bits) = quietSingle bits := by
  have quiet : ∀ other : UInt32, other ||| 0x400000 = other → quietSingle other = other := by
    intro other same
    unfold quietSingle
    split
    · exact same
    · rfl
  by_cases changed : quietSingle bits = bits
  · rw [changed, changed]
  · refine quiet _ ?_
    unfold quietSingle at changed ⊢
    split at changed
    · next isNan =>
      rw [if_pos isNan, UInt32.or_assoc, UInt32.or_self]
    · exact absurd rfl changed

theorem single_part (bits : UInt32) :
    Meaning.single (if (!isZeroSingle bits) = true then [.f32 (quietSingle bits)] else []) =
      some (settledSingle bits) := by
  cases zero : isZeroSingle bits with
  | true =>
    rw [settledSingle, zero]
    rfl
  | false => simp [settledSingle, zero, Meaning.single, Value.toSingle?, quietSingle_quietSingle]

theorem presentList_part {read : Meaning Node}
    (each : ∀ node ∈ nodes, read [node.toValue] = some node.settled) :
    presentList read (if (!nodes.isEmpty) = true then [.array (Node.toValues nodes)] else []) =
      some (Node.allSettled nodes) := by
  cases nodes with
  | nil => rfl
  | cons node nodes =>
    have found := list_read_map (some (node :: nodes)) each
    rw [toValues_eq_map, allSettled_eq_map]
    simp only [List.isEmpty_cons, Bool.not_false, if_true, presentList]
    rw [list] at found
    rw [found]
    rfl

def Node.fields (node : Node) : List (String × Value) :=
  [("k", .u8 node.form)] ++ partIf (node.type != 0) "t" (.u32 node.type) ++
    partIf (node.func != 0) "f" (.u32 node.func) ++ partIf (node.slot != 0) "c" (.u32 node.slot) ++
    partIf (node.number != 0) "i" (.i64 node.number) ++
    partIf (!isZeroSingle node.float) "x" (.f32 (quietSingle node.float)) ++
    partIf (!node.text.isEmpty) "s" (.str node.text) ++
    partIf (!node.kids.isEmpty) "a" (.array (Node.toValues node.kids)) ++
    partIf (!node.alternatives.isEmpty) "b" (.array (Node.toValues node.alternatives))

theorem Node.toValue_eq (node : Node) : node.toValue = record node.fields := by
  cases node
  rw [Node.toValue]
  rfl

/-- A node within another is written in fewer bytes. -/
theorem length_lt_of_part (name : String)
    (part : (name, .array (Node.toValues nodes)) ∈ node.fields) (member : kid ∈ nodes) :
    kid.toValue.render.length < node.toValue.render.length := by
  have listed : kid.toValue ∈ Node.toValues nodes := by
    rw [toValues_eq_map]
    exact List.mem_map_of_mem member
  calc kid.toValue.render.length
      < (Value.array (Node.toValues nodes)).render.length := length_lt_of_mem_array listed
    _ < node.toValue.render.length := by
        rw [Node.toValue_eq]
        exact length_lt_of_mem_record name part

theorem mem_partIf_of_mem (name : String) (member : kid ∈ nodes) :
    (name, .array (Node.toValues nodes)) ∈
      partIf (!nodes.isEmpty) name (.array (Node.toValues nodes)) := by
  have filled : nodes.isEmpty = false := List.isEmpty_eq_false_iff_exists_mem.2 ⟨kid, member⟩
  simp [partIf, filled]

theorem length_lt_of_kid (member : kid ∈ node.kids) :
    kid.toValue.render.length < node.toValue.render.length := by
  have part := mem_partIf_of_mem "a" member
  refine length_lt_of_part "a" ?_ member
  simp only [Node.fields, List.mem_append]
  exact Or.inl (Or.inr part)

theorem length_lt_of_alternative (member : kid ∈ node.alternatives) :
    kid.toValue.render.length < node.toValue.render.length := by
  have part := mem_partIf_of_mem "b" member
  refine length_lt_of_part "b" ?_ member
  simp only [Node.fields, List.mem_append]
  exact Or.inr part

theorem Node.read_of_parts {depth : Nat}
    (kids : ∀ kid ∈ node.kids, Node.read depth [kid.toValue] = some kid.settled)
    (alternatives : ∀ kid ∈ node.alternatives, Node.read depth [kid.toValue] = some kid.settled) :
    Node.read (depth + 1) [node.toValue] = some node.settled := by
  have kidsRead := presentList_part kids
  have alternativesRead := presentList_part alternatives
  rw [Node.toValue_eq, Node.read, readRecord_record]
  simp only [Node.fields, given_append, given_cons, given_nil, given_partIf, String.reduceEq,
    if_true, if_false, List.append_nil, List.nil_append, Meaning.u8_single, u32_part, i64_part,
    text_part, single_part, kidsRead, alternativesRead, Option.bind_eq_bind,
    Option.bind_some, Option.pure_def]
  cases node
  rw [Node.settled]

theorem Node.read_toValue {depth : Nat} (deep : node.toValue.render.length ≤ depth) :
    Node.read depth [node.toValue] = some node.settled := by
  induction depth generalizing node with
  | zero => exact absurd deep (Nat.not_le.2 node.toValue.render_pos)
  | succ depth ih =>
    refine Node.read_of_parts (fun kid member => ?_) fun kid member => ?_
    · have shorter := length_lt_of_kid member
      exact ih (by omega)
    · have shorter := length_lt_of_alternative member
      exact ih (by omega)

theorem eq_of_mem_partIf {present : Bool} {name : String} {value : Value} {field : String × Value}
    (member : field ∈ partIf present name value) : field = (name, value) := by
  unfold partIf at member
  split at member
  · exact List.mem_singleton.1 member
  · cases member

mutual

theorem Node.isCanonical_toValue : (node : Node) → node.toValue.isCanonical = true
  | { form, type, func, slot, number, float, text, kids, alternatives } => by
    have kidsCanonical := Node.areCanonical_toValues kids
    have alternativesCanonical := Node.areCanonical_toValues alternatives
    rw [Node.toValue_eq, isCanonical_record, List.all_eq_true]
    intro field member
    simp only [Node.fields, List.mem_append, List.mem_singleton, or_assoc] at member
    rcases member with rfl | member | member | member | member | member | member | member | member
    · rfl
    all_goals
      rw [eq_of_mem_partIf member]
      simp only [Value.isCanonical, kidsCanonical, alternativesCanonical]

theorem Node.areCanonical_toValues :
    (nodes : List Node) → Value.areCanonical (Node.toValues nodes) = true
  | [] => by rw [Node.toValues, Value.areCanonical]
  | node :: nodes => by
    rw [Node.toValues, Value.areCanonical, Node.isCanonical_toValue node,
      Node.areCanonical_toValues nodes]
    rfl

end

/-! ## Expressions -/

end Program

mutual

/-- An expression as it comes back. -/
def Expr.settled : Expr → Expr
  | .missing => .missing
  | .assign into value => .assign into value.settled
  | .choose conditions branches => .choose (allSettled conditions) (allSettled branches)
  | .call func arguments mode result => .call func (allSettled arguments) mode result
  | .callDynamic target arguments fork result =>
    .callDynamic target.settled (allSettled arguments) fork result
  | .callSelf arguments result => .callSelf (allSettled arguments) result
  | .closure func bound delegate => .closure func (allSettled bound) delegate
  | .field operand position type => .field operand.settled position type
  | .group items => .group (allSettled items)
  | .unionCheck operand target => .unionCheck operand.settled target
  | .unionGet operand target into => .unionGet operand.settled target into
  | .float bits => .float (Program.settledSingle bits)
  | .slot id type => .slot id type
  | .fail type => .fail type
  | .bool value => .bool value
  | .int value => .int value
  | .long value => .long value
  | .string value => .string value
  | .char value => .char value
  | .function func delegate => .function func delegate
  | .enumeration type value => .enumeration type value

def Expr.allSettled : List Expr → List Expr
  | [] => []
  | item :: items => item.settled :: allSettled items

end

theorem Expr.length_allSettled (items : List Expr) :
    (Expr.allSettled items).length = items.length := by
  induction items with
  | nil => rw [Expr.allSettled]
  | cons item items ih =>
    rw [Expr.allSettled, List.length_cons, List.length_cons, ih]

namespace Program

open MessagePack

theorem Node.toExprs_single {node : Node} {expr : Expr}
    (read : node.settled.toExpr = .ok expr.settled) :
    Node.toExprs (Node.allSettled [node]) = .ok [expr.settled] := by
  rw [Node.allSettled, Node.allSettled, Node.toExprs, read, Node.toExprs]
  rfl

mutual

/-- What a whole expression is stored as comes back as that expression. -/
theorem Node.toExpr_ofExpr :
    (expr : Expr) → expr.isWhole = true →
      ∃ node, Node.ofExpr expr = .ok node ∧ node.settled.toExpr = .ok expr.settled
  | .missing, whole => by simp [Expr.isWhole] at whole
  | .assign slot value, whole => by
    rw [Expr.isWhole] at whole
    obtain ⟨node, written, read⟩ := Node.toExpr_ofExpr value whole
    refine ⟨{ form := 1, slot, kids := [node] }, by rw [Node.ofExpr, written]; rfl, ?_⟩
    rw [Node.settled, Node.toExpr, Node.toExprs_single read, Expr.settled]
    rfl
  | .choose conditions branches, whole => by
    simp only [Expr.isWhole, Bool.and_eq_true, beq_iff_eq] at whole
    obtain ⟨kids, written, read⟩ := Node.toExprs_ofExprs conditions whole.2.1
    obtain ⟨alternatives, writtenToo, readToo⟩ := Node.toExprs_ofExprs branches whole.2.2
    refine ⟨{ form := 2, kids, alternatives }, by rw [Node.ofExpr, written, writtenToo]; rfl, ?_⟩
    rw [Node.settled, Node.toExpr, read, Expr.settled]
    change (Node.toExprs (Node.allSettled alternatives) >>= _) = _
    rw [readToo]
    change (if ((Expr.allSettled branches).length != (Expr.allSettled conditions).length + 1) =
      true then _ else _) = _
    rw [if_neg (by simp [Expr.length_allSettled, whole.1])]
    rfl
  | .call func arguments mode result, whole => by
    rw [Expr.isWhole] at whole
    obtain ⟨kids, written, read⟩ := Node.toExprs_ofExprs arguments whole
    refine ⟨{ form := 3, func, type := result, number := mode.toUInt64.toInt64, kids },
      by rw [Node.ofExpr, written]; rfl, ?_⟩
    rw [Node.settled, Node.toExpr, read, Expr.settled]
    change Except.ok (Expr.call func _ mode.toUInt64.toInt64.toUInt64.toUInt8 result) = _
    simp
  | .callDynamic target arguments fork result, whole => by
    simp only [Expr.isWhole, Bool.and_eq_true] at whole
    obtain ⟨node, written, read⟩ := Node.toExpr_ofExpr target whole.1
    obtain ⟨alternatives, writtenToo, readToo⟩ := Node.toExprs_ofExprs arguments whole.2
    refine ⟨{ form := 4, type := result, number := if fork then 1 else 0, kids := [node]
              alternatives }, by rw [Node.ofExpr, written, writtenToo]; rfl, ?_⟩
    rw [Node.settled, Node.toExpr, Node.toExprs_single read, Expr.settled]
    change (Node.toExprs (Node.allSettled alternatives) >>= _) = _
    rw [readToo]
    cases fork <;> rfl
  | .callSelf arguments result, whole => by
    rw [Expr.isWhole] at whole
    obtain ⟨kids, written, read⟩ := Node.toExprs_ofExprs arguments whole
    refine ⟨{ form := 5, type := result, kids }, by rw [Node.ofExpr, written]; rfl, ?_⟩
    rw [Node.settled, Node.toExpr, read, Expr.settled]
    rfl
  | .closure func bound delegate, whole => by
    rw [Expr.isWhole] at whole
    obtain ⟨kids, written, read⟩ := Node.toExprs_ofExprs bound whole
    refine ⟨{ form := 6, func, type := delegate, kids }, by rw [Node.ofExpr, written]; rfl, ?_⟩
    rw [Node.settled, Node.toExpr, read, Expr.settled]
    rfl
  | .field operand position type, whole => by
    rw [Expr.isWhole] at whole
    obtain ⟨node, written, read⟩ := Node.toExpr_ofExpr operand whole
    refine ⟨{ form := 8, type, number := position, kids := [node] },
      by rw [Node.ofExpr, written]; rfl, ?_⟩
    rw [Node.settled, Node.toExpr, Node.toExprs_single read, Expr.settled]
    rfl
  | .group items, whole => by
    simp only [Expr.isWhole, Bool.and_eq_true, Bool.not_eq_true'] at whole
    obtain ⟨kids, written, read⟩ := Node.toExprs_ofExprs items whole.2
    refine ⟨{ form := 9, kids }, by rw [Node.ofExpr, written]; rfl, ?_⟩
    have filled : (Expr.allSettled items).isEmpty = false := by
      cases items with
      | nil => exact whole.1
      | cons item items => rw [Expr.allSettled]; rfl
    rw [Node.settled, Node.toExpr, read, Expr.settled]
    change (if (Expr.allSettled items).isEmpty = true then _ else _) = _
    rw [if_neg (by simp [filled])]
    rfl
  | .unionCheck operand target, whole => by
    rw [Expr.isWhole] at whole
    obtain ⟨node, written, read⟩ := Node.toExpr_ofExpr operand whole
    refine ⟨{ form := 10, type := target, kids := [node] },
      by rw [Node.ofExpr, written]; rfl, ?_⟩
    rw [Node.settled, Node.toExpr, Node.toExprs_single read, Expr.settled]
    rfl
  | .unionGet operand target slot, whole => by
    rw [Expr.isWhole] at whole
    obtain ⟨node, written, read⟩ := Node.toExpr_ofExpr operand whole
    refine ⟨{ form := 11, type := target, slot, kids := [node] },
      by rw [Node.ofExpr, written]; rfl, ?_⟩
    rw [Node.settled, Node.toExpr, Node.toExprs_single read, Expr.settled]
    rfl
  | .int value, _ => by
    refine ⟨_, by rw [Node.ofExpr], ?_⟩
    rw [Node.settled, Node.toExpr, Node.allSettled, Node.toExprs, Expr.settled]
    change Except.ok (Expr.int value.toInt64.toInt32) = _
    simp
  | .char value, _ => by
    refine ⟨_, by rw [Node.ofExpr], ?_⟩
    rw [Node.settled, Node.toExpr, Node.allSettled, Node.toExprs, Expr.settled]
    change Except.ok (Expr.char value.toUInt64.toInt64.toUInt64.toUInt8) = _
    simp
  | .enumeration type value, _ => by
    refine ⟨_, by rw [Node.ofExpr], ?_⟩
    rw [Node.settled, Node.toExpr, Node.allSettled, Node.toExprs, Expr.settled]
    change Except.ok (Expr.enumeration type value.toInt64.toInt32) = _
    simp
  | .bool value, _ => by
    refine ⟨_, by rw [Node.ofExpr], ?_⟩
    rw [Node.settled, Node.toExpr, Node.allSettled, Node.toExprs, Expr.settled]
    cases value <;> rfl
  | .float bits, _ => by
    refine ⟨_, by rw [Node.ofExpr], ?_⟩
    rw [Node.settled, Node.toExpr, Node.allSettled, Node.toExprs, Expr.settled]
    rfl
  | .slot slot type, _ => by
    refine ⟨_, by rw [Node.ofExpr], ?_⟩
    rw [Node.settled, Node.toExpr, Node.allSettled, Node.toExprs, Expr.settled]
    rfl
  | .fail type, _ => by
    refine ⟨_, by rw [Node.ofExpr], ?_⟩
    rw [Node.settled, Node.toExpr, Node.allSettled, Node.toExprs, Expr.settled]
    rfl
  | .long value, _ => by
    refine ⟨_, by rw [Node.ofExpr], ?_⟩
    rw [Node.settled, Node.toExpr, Node.allSettled, Node.toExprs, Expr.settled]
    rfl
  | .string value, _ => by
    refine ⟨_, by rw [Node.ofExpr], ?_⟩
    rw [Node.settled, Node.toExpr, Node.allSettled, Node.toExprs, Expr.settled]
    rfl
  | .function func delegate, _ => by
    refine ⟨_, by rw [Node.ofExpr], ?_⟩
    rw [Node.settled, Node.toExpr, Node.allSettled, Node.toExprs, Expr.settled]
    rfl

theorem Node.toExprs_ofExprs :
    (items : List Expr) → Expr.areWhole items = true →
      ∃ nodes, Node.ofExprs items = .ok nodes ∧
        Node.toExprs (Node.allSettled nodes) = .ok (Expr.allSettled items)
  | [], _ => ⟨[], by rw [Node.ofExprs], by rw [Node.allSettled, Node.toExprs, Expr.allSettled]⟩
  | item :: items, whole => by
    rw [Expr.areWhole, Bool.and_eq_true] at whole
    obtain ⟨node, written, read⟩ := Node.toExpr_ofExpr item whole.1
    obtain ⟨nodes, writtenAll, readAll⟩ := Node.toExprs_ofExprs items whole.2
    refine ⟨node :: nodes, ?_, ?_⟩
    · rw [Node.ofExprs, written, writtenAll]
      rfl
    · rw [Node.allSettled, Node.toExprs, read, readAll, Expr.allSettled]
      rfl

end

/-! ## Tables -/

section

variable {body : StoredBody} {file : Contents} {depth : Nat}

attribute [local simp] readRecord_record

theorem TypeDecl.read_toValue (decl : TypeDecl) :
    TypeDecl.read [TypeDecl.toValue decl] = some decl := by
  simp [TypeDecl.read, TypeDecl.toValue]

theorem FieldDecl.read_toValue (decl : FieldDecl) :
    FieldDecl.read [FieldDecl.toValue decl] = some decl := by
  simp [FieldDecl.read, FieldDecl.toValue]

theorem StructDef.read_toValue (decl : StructDef) :
    StructDef.read [StructDef.toValue decl] = some decl := by
  have fields := list_read decl.fields fun field _ => FieldDecl.read_toValue field
  simp [StructDef.read, StructDef.toValue, fields]

theorem UnionDef.read_toValue (decl : UnionDef) :
    UnionDef.read [UnionDef.toValue decl] = some decl := by
  have members := list_read decl.members fun member _ => Meaning.u32_single member
  simp [UnionDef.read, UnionDef.toValue, members]

theorem EnumEntry.read_toValue (decl : EnumEntry) :
    EnumEntry.read [EnumEntry.toValue decl] = some decl := by
  simp [EnumEntry.read, EnumEntry.toValue]

theorem EnumDef.read_toValue (decl : EnumDef) :
    EnumDef.read [EnumDef.toValue decl] = some decl := by
  have entries := list_read decl.entries fun entry _ => EnumEntry.read_toValue entry
  simp [EnumDef.read, EnumDef.toValue, entries]

theorem DelegateDef.read_toValue (decl : DelegateDef) :
    DelegateDef.read [DelegateDef.toValue decl] = some decl := by
  have input := list_read decl.input fun type _ => Meaning.u32_single type
  simp [DelegateDef.read, DelegateDef.toValue, input]

theorem FutureDef.read_toValue (decl : FutureDef) :
    FutureDef.read [FutureDef.toValue decl] = some decl := by
  simp [FutureDef.read, FutureDef.toValue]

theorem LazyDef.read_toValue (decl : LazyDef) :
    LazyDef.read [LazyDef.toValue decl] = some decl := by
  simp [LazyDef.read, LazyDef.toValue]

theorem FuncDecl.read_toValue (decl : FuncDecl) :
    FuncDecl.read [FuncDecl.toValue decl] = some decl := by
  have input := list_read decl.input fun type _ => Meaning.u32_single type
  simp [FuncDecl.read, FuncDecl.toValue, input]

theorem SlotDecl.read_toValue (decl : SlotDecl) :
    SlotDecl.read [SlotDecl.toValue decl] = some decl := by
  simp [SlotDecl.read, SlotDecl.toValue]

theorem SlotTable.read_toValue (table : SlotTable) :
    SlotTable.read [SlotTable.toValue table] = some table := by
  have decls := list_read (if table.isEmpty then none else some table)
    fun decl _ => SlotDecl.read_toValue decl
  have filled : (if table.isEmpty then none else some table).getD [] = table := by
    cases table <;> rfl
  rw [SlotTable.read, SlotTable.toValue, readRecord_record]
  simp only [given_cons, given_nil, if_true, List.append_nil, presentList, listIfAny, decls,
    Option.map_some, filled]

def StoredBody.defValue (body : StoredBody) : Value :=
  record [("id", .u32 body.id), ("consts", SlotTable.toValue body.slots),
    ("body", body.node.toValue)]

def StoredBody.statementValue (body : StoredBody) : Value :=
  record [("consts", SlotTable.toValue body.slots), ("expr", body.node.toValue)]

/-- A body or statement as it comes back. -/
def StoredBody.settled (body : StoredBody) : StoredBody :=
  { body with node := body.node.settled }

theorem StoredBody.readDef_defValue (deep : body.node.toValue.render.length ≤ depth) :
    StoredBody.readDef depth [body.defValue] = some body.settled := by
  simp [StoredBody.readDef, StoredBody.defValue, SlotTable.read_toValue, Node.read_toValue deep,
    StoredBody.settled]

theorem StoredBody.readStatement_statementValue (unnumbered : body.id = 0)
    (deep : body.node.toValue.render.length ≤ depth) :
    StoredBody.readStatement depth [body.statementValue] = some body.settled := by
  obtain ⟨id, slots, node⟩ := body
  cases unnumbered
  simp [StoredBody.readStatement, StoredBody.statementValue, SlotTable.read_toValue,
    Node.read_toValue deep, StoredBody.settled]

def Contents.fields (file : Contents) : List (String × Value) :=
  [("magic", .str file.magic), ("schema", .u16 file.schema),
    ("types", list TypeDecl.toValue file.types),
    ("structs", list StructDef.toValue file.structs),
    ("unions", list UnionDef.toValue file.unions),
    ("enums", list EnumDef.toValue file.enums),
    ("delegates", list DelegateDef.toValue file.delegates),
    ("futures", list FutureDef.toValue file.futures),
    ("lazies", list LazyDef.toValue file.lazies),
    ("funcs", list FuncDecl.toValue file.funcs),
    ("defs", list StoredBody.defValue file.defs),
    ("execs", list StoredBody.statementValue file.statements)]

theorem Contents.toValue_eq (file : Contents) : file.toValue = record file.fields := rfl

theorem length_lt_of_mem_list {α : Type} {write : α → Value} {items : Option (List α)} {item : α}
    (member : item ∈ items.getD []) :
    (write item).render.length < (list write items).render.length := by
  cases items with
  | none => cases member
  | some items => exact length_lt_of_mem_array (List.mem_map_of_mem member)

theorem Contents.length_lt_of_def (member : body ∈ file.defs.getD []) :
    body.node.toValue.render.length < file.toValue.render.length :=
  calc body.node.toValue.render.length
      < body.defValue.render.length := length_lt_of_mem_record "body" (by simp)
    _ < (list StoredBody.defValue file.defs).render.length := length_lt_of_mem_list member
    _ < file.toValue.render.length := by
        rw [Contents.toValue_eq]
        exact length_lt_of_mem_record "defs" (by simp [Contents.fields])

theorem Contents.length_lt_of_statement (member : body ∈ file.statements.getD []) :
    body.node.toValue.render.length < file.toValue.render.length :=
  calc body.node.toValue.render.length
      < body.statementValue.render.length := length_lt_of_mem_record "expr" (by simp)
    _ < (list StoredBody.statementValue file.statements).render.length :=
        length_lt_of_mem_list member
    _ < file.toValue.render.length := by
        rw [Contents.toValue_eq]
        exact length_lt_of_mem_record "execs" (by simp [Contents.fields])

def Contents.settled (file : Contents) : Contents :=
  { file with
    defs := file.defs.map (List.map StoredBody.settled)
    statements := file.statements.map (List.map StoredBody.settled) }

theorem Contents.read_toValue (unnumbered : ∀ body ∈ file.statements.getD [], body.id = 0)
    (deep : file.toValue.render.length ≤ depth) :
    Contents.read depth [file.toValue] = some file.settled := by
  have types := list_read file.types fun decl _ => TypeDecl.read_toValue decl
  have structs := list_read file.structs fun decl _ => StructDef.read_toValue decl
  have unions := list_read file.unions fun decl _ => UnionDef.read_toValue decl
  have enums := list_read file.enums fun decl _ => EnumDef.read_toValue decl
  have delegates := list_read file.delegates fun decl _ => DelegateDef.read_toValue decl
  have futures := list_read file.futures fun decl _ => FutureDef.read_toValue decl
  have lazies := list_read file.lazies fun decl _ => LazyDef.read_toValue decl
  have funcs := list_read file.funcs fun decl _ => FuncDecl.read_toValue decl
  have defs : Meaning.list (StoredBody.readDef depth) [list StoredBody.defValue file.defs] =
      some (file.defs.map (List.map StoredBody.settled)) :=
    list_read_map file.defs fun body member => StoredBody.readDef_defValue
      (Nat.le_trans (Nat.le_of_lt (Contents.length_lt_of_def member)) deep)
  have statements : Meaning.list (StoredBody.readStatement depth)
      [list StoredBody.statementValue file.statements] =
        some (file.statements.map (List.map StoredBody.settled)) :=
    list_read_map file.statements fun body member =>
      StoredBody.readStatement_statementValue (unnumbered body member)
        (Nat.le_trans (Nat.le_of_lt (Contents.length_lt_of_statement member)) deep)
  rw [Contents.toValue_eq, Contents.read, readRecord_record]
  simp only [Contents.fields, given_cons, given_nil, String.reduceEq, if_true, if_false,
    List.append_nil, List.nil_append, Meaning.text_single, Meaning.u16_single, types, structs,
    unions, enums, delegates, futures, lazies, funcs, defs, statements, Option.bind_eq_bind,
    Option.bind_some, Option.pure_def]
  rfl

theorem Contents.isCanonical_toValue (file : Contents) : file.toValue.isCanonical = true := by
  simp [Contents.toValue_eq, Contents.fields, Value.isCanonical, TypeDecl.toValue,
    StructDef.toValue, FieldDecl.toValue, UnionDef.toValue, EnumDef.toValue, EnumEntry.toValue,
    DelegateDef.toValue, FutureDef.toValue, LazyDef.toValue, FuncDecl.toValue,
    StoredBody.defValue, StoredBody.statementValue, SlotTable.toValue, listIfAny,
    SlotDecl.toValue, Node.isCanonical_toValue]

theorem Contents.read_toBytes (unnumbered : ∀ body ∈ file.statements.getD [], body.id = 0)
    (short : file.toValue.isShort = true) :
    ((Value.ofBytes? file.toValue.toBytes).bind fun value =>
      Contents.read (file.toValue.toBytes.size + 1) [value]) = some file.settled := by
  rw [Value.ofBytes?_toBytes file.isCanonical_toValue short, Option.bind_some]
  refine Contents.read_toValue unnumbered ?_
  exact Nat.le_succ _

end

end Program

end WordMachine
