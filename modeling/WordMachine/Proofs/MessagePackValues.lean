import WordMachine.MessagePack.Record
import WordMachine.Proofs.ByteStrings

/-!
MessagePack values as bytes. Reading what was written gives the value back and leaves the bytes
after it, as long as every length fits in a header.
-/

namespace WordMachine.MessagePack

variable {value : Nat}

/-! ## Numbers and payloads -/

@[simp]
theorem length_bigEndian (count value : Nat) : (bigEndian count value).length = count := by
  induction count with
  | zero => rfl
  | succ count ih => rw [bigEndian, List.length_cons, ih]

theorem foldl_bigEndian (count value start : Nat) :
    (bigEndian count value).foldl (fun total byte => total * 256 + byte.toNat) start =
      start * 256 ^ count + value % 256 ^ count := by
  induction count generalizing start with
  | zero => simp [bigEndian, Nat.mod_one]
  | succ count ih =>
    have byte : ((value / Nat.pow 256 count).toUInt8).toNat = value / 256 ^ count % 256 := by
      simp
    rw [bigEndian, List.foldl_cons, ih, byte, Nat.pow_succ, Nat.mod_mul]
    ring

theorem ofBigEndian_bigEndian {count : Nat} (fits : value < 256 ^ count) :
    ofBigEndian (bigEndian count value) = value := by
  rw [ofBigEndian, foldl_bigEndian, Nat.mod_eq_of_lt fits, Nat.zero_mul, Nat.zero_add]

theorem takeBytes_append (front rest : List UInt8) :
    takeBytes front.length (front ++ rest) = some (front, rest) := by
  simp [takeBytes]

theorem takeNumber_append {count : Nat} (fits : value < 256 ^ count) (rest : List UInt8) :
    takeNumber count (bigEndian count value ++ rest) = some (value, rest) := by
  have taken := takeBytes_append (bigEndian count value) rest
  rw [length_bigEndian] at taken
  simp only [takeNumber, taken, Option.map_some, ofBigEndian_bigEndian fits]

theorem map_takeNumber (count : Nat) (fits : value < 256 ^ count) (make : Nat → Value)
    (rest : List UInt8) :
    (takeNumber count).map make (bigEndian count value ++ rest) = some (make value, rest) := by
  rw [Reader.map, takeNumber_append fits]
  rfl

theorem takeText_append (text : Bytes) (rest : List UInt8) :
    takeText text.size (Bytes.toList text ++ rest) = some (text, rest) := by
  have taken := takeBytes_append (Bytes.toList text) rest
  rw [Bytes.length_toList] at taken
  rw [takeText, taken]
  rfl

theorem takeSized_append {width : Nat} {text : Bytes} (fits : text.size < 256 ^ width)
    (rest : List UInt8) :
    takeSized width (bigEndian width text.size ++ (Bytes.toList text ++ rest)) =
      some (text, rest) := by
  simp only [takeSized, takeNumber_append fits, Option.bind_eq_bind, Option.bind_some]
  exact takeText_append text rest

/-! ## Headers -/

section

variable {size : Nat} (depth : Nat) (rest : List UInt8)

/-- A value whose size stands in its code. -/
theorem parse_sized {code : UInt8} (outside : (code < 0x80 || 0xe0 ≤ code) = false)
    (sized : code < 0xc0) :
    parse (depth + 1) (code :: rest) =
      if code < 0x90 then (takeMany (takePair (parse depth)) (code &&& 0x0f).toNat).map .map rest
      else if code < 0xa0 then (takeMany (parse depth) (code &&& 0x0f).toNat).map .array rest
      else (takeText (code &&& 0x1f).toNat).map .str rest := by
  unfold parse
  rw [outside, if_neg Bool.false_ne_true, if_pos sized]

theorem parse_fixMap (few : size < 16) :
    parse (depth + 1) ((0x80 + size).toUInt8 :: rest) =
      (takeMany (takePair (parse depth)) size).map .map rest := by
  have codes : ∀ size < 16, let code := (0x80 + size).toUInt8
      (code < 0x80 || 0xe0 ≤ code) = false ∧ code < 0xc0 ∧ code < 0x90 ∧
        (code &&& 0x0f).toNat = size := by
    decide
  obtain ⟨outside, sized, range, low⟩ := codes size few
  rw [parse_sized depth rest outside sized, if_pos range, low]

theorem parse_fixArray (few : size < 16) :
    parse (depth + 1) ((0x90 + size).toUInt8 :: rest) =
      (takeMany (parse depth) size).map .array rest := by
  have codes : ∀ size < 16, let code := (0x90 + size).toUInt8
      (code < 0x80 || 0xe0 ≤ code) = false ∧ code < 0xc0 ∧ ¬code < 0x90 ∧ code < 0xa0 ∧
        (code &&& 0x0f).toNat = size := by
    decide
  obtain ⟨outside, sized, above, range, low⟩ := codes size few
  rw [parse_sized depth rest outside sized, if_neg above, if_pos range, low]

theorem parse_fixText (few : size < 32) :
    parse (depth + 1) ((0xa0 + size).toUInt8 :: rest) = (takeText size).map .str rest := by
  have codes : ∀ size < 32, let code := (0xa0 + size).toUInt8
      (code < 0x80 || 0xe0 ≤ code) = false ∧ code < 0xc0 ∧ ¬code < 0x90 ∧ ¬code < 0xa0 ∧
        (code &&& 0x1f).toNat = size := by
    decide
  obtain ⟨outside, sized, above, beyond, low⟩ := codes size few
  rw [parse_sized depth rest outside sized, if_neg above, if_neg beyond, low]

theorem parse_mapHeader (fits : size < 4294967296) :
    parse (depth + 1) (mapHeader size ++ rest) =
      (takeMany (takePair (parse depth)) size).map .map rest := by
  unfold mapHeader
  split
  · next few => exact parse_fixMap depth rest few
  · split
    · next few =>
      change (takeNumber 2 (bigEndian 2 size ++ rest)).bind _ = _
      rw [takeNumber_append few]
      rfl
    · change (takeNumber 4 (bigEndian 4 size ++ rest)).bind _ = _
      rw [takeNumber_append fits]
      rfl

theorem parse_arrayHeader (fits : size < 4294967296) :
    parse (depth + 1) (arrayHeader size ++ rest) =
      (takeMany (parse depth) size).map .array rest := by
  unfold arrayHeader
  split
  · next few => exact parse_fixArray depth rest few
  · split
    · next few =>
      change (takeNumber 2 (bigEndian 2 size ++ rest)).bind _ = _
      rw [takeNumber_append few]
      rfl
    · change (takeNumber 4 (bigEndian 4 size ++ rest)).bind _ = _
      rw [takeNumber_append fits]
      rfl

end

theorem parse_text (depth : Nat) {text : Bytes} (fits : text.size < 4294967296)
    (rest : List UInt8) :
    parse (depth + 1) (strHeader text.size ++ (Bytes.toList text ++ rest)) =
      some (.str text, rest) := by
  have sized : ∀ width, text.size < 256 ^ width →
      (takeSized width).map Value.str (bigEndian width text.size ++ (Bytes.toList text ++ rest)) =
        some (.str text, rest) := by
    intro width fits
    rw [Reader.map, takeSized_append fits]
    rfl
  unfold strHeader
  split
  · next few =>
    rw [List.singleton_append, parse_fixText depth _ few, Reader.map, takeText_append]
    rfl
  · split
    · next few => exact sized 1 few
    · split
      · next few => exact sized 2 few
      · exact sized 4 fits

theorem parse_binary (depth : Nat) {data : Bytes} (fits : data.size < 4294967296)
    (rest : List UInt8) :
    parse (depth + 1) (binHeader data.size ++ (Bytes.toList data ++ rest)) =
      some (.bin data, rest) := by
  have sized : ∀ width, data.size < 256 ^ width →
      (takeSized width).map Value.bin (bigEndian width data.size ++ (Bytes.toList data ++ rest)) =
        some (.bin data, rest) := by
    intro width fits
    rw [Reader.map, takeSized_append fits]
    rfl
  unfold binHeader
  split
  · next few => exact sized 1 few
  · split
    · next few => exact sized 2 few
    · exact sized 4 fits

theorem parse_extension (depth : Nat) (kind : UInt8) {data : Bytes} (fits : data.size < 4294967296)
    (rest : List UInt8) :
    parse (depth + 1) (extHeader data.size ++ (kind :: Bytes.toList data ++ rest)) =
      some (.ext kind data, rest) := by
  have sized : ∀ width, data.size < 256 ^ width →
      ((takeNumber width (bigEndian width data.size ++ (kind :: Bytes.toList data ++ rest))).bind
        fun taken => takeExt taken.1 taken.2) = some (.ext kind data, rest) := by
    intro width fits
    rw [takeNumber_append fits]
    simp only [Option.bind_some, takeExt, Reader.map, List.cons_append, takeText_append,
      Option.map_some]
  unfold extHeader
  split
  · next few => exact sized 1 few
  · split
    · next few => exact sized 2 few
    · exact sized 4 fits

/-! ## Values -/

mutual

/-- Whether no number of a value is in the form of a single byte, which is read but never
written. -/
def Value.isCanonical : Value → Bool
  | .fixint _ => false
  | .array items => areCanonical items
  | .map entries => haveCanonical entries
  | _ => true

def Value.areCanonical : List Value → Bool
  | [] => true
  | item :: items => item.isCanonical && areCanonical items

def Value.haveCanonical : List (Value × Value) → Bool
  | [] => true
  | (key, value) :: entries => key.isCanonical && (value.isCanonical && haveCanonical entries)

end

mutual

/-- Whether every length in a value fits in its header. -/
def Value.isShort : Value → Bool
  | .str text => text.size < 4294967296
  | .bin data => data.size < 4294967296
  | .ext _ data => data.size < 4294967296
  | .array items => items.length < 4294967296 && areShort items
  | .map entries => entries.length < 4294967296 && haveShort entries
  | _ => true

def Value.areShort : List Value → Bool
  | [] => true
  | item :: items => item.isShort && areShort items

def Value.haveShort : List (Value × Value) → Bool
  | [] => true
  | (key, value) :: entries => key.isShort && (value.isShort && haveShort entries)

end

attribute [local simp] Value.render Value.renderItems Value.renderEntries

theorem Value.render_pos (value : Value) : 0 < value.render.length := by
  cases value with
  | str text => simp only [render, strHeader]; grind
  | bin data => simp only [render, binHeader]; grind
  | array items => simp only [render, arrayHeader]; grind
  | map entries => simp only [render, mapHeader]; grind
  | ext kind data => simp only [render, List.length_append, List.length_cons]; omega
  | _ => simp

theorem Value.length_renderItems (items : List Value) :
    items.length ≤ (renderItems items).length := by
  induction items with
  | nil => exact Nat.zero_le _
  | cons item items ih =>
    have first := item.render_pos
    rw [renderItems, List.length_append, List.length_cons]
    omega

theorem Value.length_renderEntries (entries : List (Value × Value)) :
    entries.length ≤ (renderEntries entries).length := by
  induction entries with
  | nil => exact Nat.zero_le _
  | cons entry entries ih =>
    obtain ⟨key, value⟩ := entry
    have first := key.render_pos
    rw [renderEntries, List.length_append, List.length_append, List.length_cons]
    omega

theorem length_arrayHeader_pos (size : Nat) : 0 < (arrayHeader size).length := by
  unfold arrayHeader
  grind

theorem length_mapHeader_pos (size : Nat) : 0 < (mapHeader size).length := by
  unfold mapHeader
  grind

mutual

theorem Value.isShort_of_length :
    (value : Value) → value.render.length < 4294967296 → value.isShort = true
  | .str text, few => by
    rw [render, List.length_append, Bytes.length_toList] at few
    exact decide_eq_true (by omega)
  | .bin data, few => by
    rw [render, List.length_append, Bytes.length_toList] at few
    exact decide_eq_true (by omega)
  | .ext kind data, few => by
    rw [render, List.length_append, List.length_cons, Bytes.length_toList] at few
    exact decide_eq_true (by omega)
  | .array items, few => by
    have counted := length_renderItems items
    rw [render, List.length_append] at few
    rw [isShort, areShort_of_length items (by omega), Bool.and_true]
    exact decide_eq_true (by omega)
  | .map entries, few => by
    have counted := length_renderEntries entries
    rw [render, List.length_append] at few
    rw [isShort, haveShort_of_length entries (by omega), Bool.and_true]
    exact decide_eq_true (by omega)
  | .nil, _ | .bool _, _ | .fixint _, _ | .u8 _, _ | .u16 _, _ | .u32 _, _ | .u64 _, _
  | .i8 _, _ | .i16 _, _ | .i32 _, _ | .i64 _, _ | .f32 _, _ | .f64 _, _ => by simp [isShort]

theorem Value.areShort_of_length :
    (items : List Value) → (renderItems items).length < 4294967296 → areShort items = true
  | [], _ => by rw [areShort]
  | item :: items, few => by
    rw [renderItems, List.length_append] at few
    rw [areShort, isShort_of_length item (by omega), areShort_of_length items (by omega)]
    rfl

theorem Value.haveShort_of_length :
    (entries : List (Value × Value)) → (renderEntries entries).length < 4294967296 →
      haveShort entries = true
  | [], _ => by rw [haveShort]
  | (key, value) :: entries, few => by
    rw [renderEntries, List.length_append, List.length_append] at few
    rw [haveShort, isShort_of_length key (by omega), isShort_of_length value (by omega),
      haveShort_of_length entries (by omega)]
    rfl

end

mutual

theorem parse_render :
    (value : Value) → (depth : Nat) → (rest : List UInt8) →
      value.isCanonical = true → value.render.length ≤ depth → value.isShort = true →
      parse depth (value.render ++ rest) = some (value, rest)
  | value, 0, _, _, deep, _ => absurd deep (Nat.not_le.2 value.render_pos)
  | .nil, depth + 1, rest, _, _, _ => rfl
  | .bool true, depth + 1, rest, _, _, _ => rfl
  | .bool false, depth + 1, rest, _, _, _ => rfl
  | .fixint value, depth + 1, rest, canonical, _, _ => by simp [Value.isCanonical] at canonical
  | .u8 value, depth + 1, rest, _, _, _ => by
    rw [Value.render]
    refine (map_takeNumber 1 value.toNat_lt (fun number => .u8 number.toUInt8) rest).trans ?_
    simp
  | .u16 value, depth + 1, rest, _, _, _ => by
    rw [Value.render]
    refine (map_takeNumber 2 value.toNat_lt (fun number => .u16 number.toUInt16) rest).trans ?_
    simp
  | .u32 value, depth + 1, rest, _, _, _ => by
    rw [Value.render]
    refine (map_takeNumber 4 value.toNat_lt (fun number => .u32 number.toUInt32) rest).trans ?_
    simp
  | .u64 value, depth + 1, rest, _, _, _ => by
    rw [Value.render]
    refine (map_takeNumber 8 value.toNat_lt (fun number => .u64 number.toUInt64) rest).trans ?_
    simp
  | .i8 value, depth + 1, rest, _, _, _ => by
    rw [Value.render]
    refine (map_takeNumber 1 value.toUInt8.toNat_lt (fun number => .i8 number.toUInt8.toInt8)
      rest).trans ?_
    simp
  | .i16 value, depth + 1, rest, _, _, _ => by
    rw [Value.render]
    refine (map_takeNumber 2 value.toUInt16.toNat_lt (fun number => .i16 number.toUInt16.toInt16)
      rest).trans ?_
    simp
  | .i32 value, depth + 1, rest, _, _, _ => by
    rw [Value.render]
    refine (map_takeNumber 4 value.toUInt32.toNat_lt (fun number => .i32 number.toUInt32.toInt32)
      rest).trans ?_
    simp
  | .i64 value, depth + 1, rest, _, _, _ => by
    rw [Value.render]
    refine (map_takeNumber 8 value.toUInt64.toNat_lt (fun number => .i64 number.toUInt64.toInt64)
      rest).trans ?_
    simp
  | .f32 bits, depth + 1, rest, _, _, _ => by
    rw [Value.render]
    refine (map_takeNumber 4 bits.toNat_lt (fun number => .f32 number.toUInt32) rest).trans ?_
    simp
  | .f64 bits, depth + 1, rest, _, _, _ => by
    rw [Value.render]
    refine (map_takeNumber 8 bits.toNat_lt (fun number => .f64 number.toUInt64) rest).trans ?_
    simp
  | .str text, depth + 1, rest, _, _, short => by
    rw [Value.render, List.append_assoc]
    exact parse_text depth (of_decide_eq_true short) rest
  | .bin data, depth + 1, rest, _, _, short => by
    rw [Value.render, List.append_assoc]
    exact parse_binary depth (of_decide_eq_true short) rest
  | .ext kind data, depth + 1, rest, _, _, short => by
    rw [Value.render, List.append_assoc]
    exact parse_extension depth kind (of_decide_eq_true short) rest
  | .array items, depth + 1, rest, canonical, deep, short => by
    have header := length_arrayHeader_pos items.length
    rw [Value.isCanonical] at canonical
    rw [Value.isShort, Bool.and_eq_true] at short
    rw [Value.render, List.length_append] at deep
    rw [Value.render, List.append_assoc, parse_arrayHeader depth _ (of_decide_eq_true short.1),
      Reader.map, takeMany_renderItems items depth rest canonical (by omega) short.2]
    rfl
  | .map entries, depth + 1, rest, canonical, deep, short => by
    have header := length_mapHeader_pos entries.length
    rw [Value.isCanonical] at canonical
    rw [Value.isShort, Bool.and_eq_true] at short
    rw [Value.render, List.length_append] at deep
    rw [Value.render, List.append_assoc, parse_mapHeader depth _ (of_decide_eq_true short.1),
      Reader.map, takeMany_renderEntries entries depth rest canonical (by omega) short.2]
    rfl

theorem takeMany_renderItems :
    (items : List Value) → (depth : Nat) → (rest : List UInt8) →
      Value.areCanonical items = true → (Value.renderItems items).length ≤ depth →
      Value.areShort items = true →
        takeMany (parse depth) items.length (Value.renderItems items ++ rest) = some (items, rest)
  | [], depth, rest, _, _, _ => rfl
  | item :: items, depth, rest, canonical, deep, short => by
    rw [Value.areCanonical, Bool.and_eq_true] at canonical
    rw [Value.areShort, Bool.and_eq_true] at short
    rw [Value.renderItems, List.length_append] at deep
    have first := parse_render item depth (Value.renderItems items ++ rest) canonical.1
      (by omega) short.1
    have others := takeMany_renderItems items depth rest canonical.2 (by omega) short.2
    simp only [Value.renderItems, List.length_cons, takeMany, List.append_assoc, first, others,
      Option.bind_eq_bind, Option.bind_some]
    rfl

theorem takeMany_renderEntries :
    (entries : List (Value × Value)) → (depth : Nat) → (rest : List UInt8) →
      Value.haveCanonical entries = true →
      (Value.renderEntries entries).length ≤ depth →
      Value.haveShort entries = true →
        takeMany (takePair (parse depth)) entries.length (Value.renderEntries entries ++ rest) =
          some (entries, rest)
  | [], depth, rest, _, _, _ => rfl
  | (key, value) :: entries, depth, rest, canonical, deep, short => by
    rw [Value.haveCanonical, Bool.and_eq_true, Bool.and_eq_true] at canonical
    rw [Value.haveShort, Bool.and_eq_true, Bool.and_eq_true] at short
    rw [Value.renderEntries, List.length_append, List.length_append] at deep
    have first := parse_render key depth (value.render ++ (Value.renderEntries entries ++ rest))
      canonical.1 (by omega) short.1
    have second := parse_render value depth (Value.renderEntries entries ++ rest) canonical.2.1
      (by omega) short.2.1
    have others := takeMany_renderEntries entries depth rest canonical.2.2 (by omega) short.2.2
    simp only [Value.renderEntries, List.length_cons, takeMany, takePair, List.append_assoc,
      first, second, others, Option.bind_eq_bind, Option.bind_some, Option.pure_def]

end

/-- The value that bytes were made of is found at their start, whatever follows. -/
theorem Value.ofBytes?_append {value : Value} (canonical : value.isCanonical = true)
    (short : value.isShort = true) (rest : Bytes) :
    Value.ofBytes? (value.toBytes ++ rest) = some value := by
  have written : Bytes.toList (value.toBytes ++ rest) = value.render ++ Bytes.toList rest := by
    rw [Bytes.toList_append, Value.toBytes, Bytes.toList_ofList]
  have enough : value.render.length ≤ (value.toBytes ++ rest).size + 1 := by
    rw [← Bytes.length_toList, written, List.length_append]
    omega
  rw [Value.ofBytes?, written, parse_render value _ _ canonical enough short]
  rfl

theorem Value.ofBytes?_toBytes {value : Value} (canonical : value.isCanonical = true)
    (short : value.isShort = true) : Value.ofBytes? value.toBytes = some value := by
  have read := ofBytes?_append canonical short ByteArray.empty
  rwa [ByteArray.append_empty] at read

end WordMachine.MessagePack
