import DlsSdk.Json.RoundTrip

/-!
# `Json.Lookup` — the indexers of `json5pp::value`

`at` and `operator[]`, by index and by key: what is not there is the default, or null.

* `parse_at` — in the object that a text is read as, a key has the value of its last member;
* `stringify_path` — a chain of indexers finds in a value that has been written and read back what it finds in the
  value, read back.
-/

namespace DlsSdk

/-- `value::at(index, default_value)` -/
def Value.atIndex (v : Value) (index : Int32) (defaultValue : Value) : Value :=
  match v with
  | .array elems =>
      if 0 ≤ index.toInt ∧ index.toInt < elems.length then elems.getD index.toInt.toNat defaultValue
      else defaultValue
  | _ => defaultValue

/-- `value::at(key, default_value)` -/
def Value.atKey (v : Value) (key : String) (defaultValue : Value) : Value :=
  match v with
  | .object pairs => (pairs.lookup key).getD defaultValue
  | _ => defaultValue

/-- The argument of `operator[]`. -/
inductive Indexer where
  | index (i : Int32)
  | key (k : String)
  deriving DecidableEq, Repr

/-- `operator[]` -/
def Value.subscript (v : Value) : Indexer → Value
  | .index i => v.atIndex i .null
  | .key k => v.atKey k .null

/-- `v[i1][i2]...` -/
def Value.path (v : Value) (is : List Indexer) : Value := is.foldl Value.subscript v

namespace Json

variable {numeral : Float → Numeral} {L : Layout}

/-! ## Keys -/

/-- **Duplicate keys.** A text of an object is read as one in which every key has the value of its last member, and
    the other keys have the default. -/
theorem parse_at {w t w' : List Char} {ms : List (String × Value)} (hw : Ws w) (ht : Text true (.members ms) t)
    (hw' : Ws w') :
    ∃ v, parse (.ofList (w ++ '{' :: (t ++ '}' :: w'))) = .ok v ∧
      ∀ key defaultValue, v.atKey key defaultValue = (ms.reverse.lookup key).getD defaultValue := by
  refine ⟨.object (entered ms []), JsonText.parse ?_, fun key defaultValue => ?_⟩
  · refine ⟨w, _, w', hw, .object ht (mapOf_entered ms), hw', ?_⟩
    rw [String.toList_ofList]
    simp only [List.cons_append, List.append_assoc, List.nil_append]
  · rw [Value.atKey, (mapOf_entered ms).last]

/-- The members of `{"a":1,"a":null}`. -/
theorem text_twice : Text true (.members [(.ofList ['a'], .integer 1), (.ofList ['a'], .null)])
    ['"', 'a', '"', ':', '1', ',', '"', 'a', '"', ':', 'n', 'u', 'l', 'l'] := by
  have ha : StringText ['a'] ['a'] := .char (by decide) (by decide) (by decide) .nil
  have hone : Text true (.value (integerNumeral 1).value) (integerNumeral 1).text :=
    .number _ (integerNumeral_valid 1) fun _ => integerNumeral_fits 1
  rw [integerNumeral_value] at hone
  exact .members ws_nil ha ws_nil ws_nil hone ws_nil (.member ws_nil ha ws_nil ws_nil .null ws_nil)

theorem parse_at_twice : ∃ v,
    parse (.ofList ([] ++ '{' :: (['"', 'a', '"', ':', '1', ',', '"', 'a', '"', ':', 'n', 'u', 'l', 'l'] ++
      '}' :: [' ']))) = .ok v ∧
    ∀ key defaultValue, v.atKey key defaultValue =
      ([(.ofList ['a'], .integer 1), (.ofList ['a'], Value.null)].reverse.lookup key).getD defaultValue :=
  parse_at ws_nil text_twice (ws_nil.cons (by decide))

/-! ## Paths -/

theorem readBackItems_eq (items : List Value) : readBackItems numeral items = items.map (readBack numeral) := by
  induction items with
  | nil => rfl
  | cons v items ih => rw [readBackItems, ih, List.map_cons]

theorem lookup_readBackPairs (pairs : List (String × Value)) (k : String) :
    (readBackPairs numeral pairs).lookup k = (pairs.lookup k).map (readBack numeral) := by
  induction pairs with
  | nil => rfl
  | cons p pairs ih =>
      obtain ⟨key, v⟩ := p
      rw [readBackPairs, List.lookup_cons, List.lookup_cons, ih]
      cases k == key <;> rfl

/-- There is nothing in a number. -/
theorem number_subscript (n : Numeral) (i : Indexer) : n.value.subscript i = .null := by
  unfold Numeral.value
  split
  · cases i <;> rfl
  · cases i <;> rfl

theorem subscript_readBack (v : Value) (i : Indexer) :
    (readBack numeral v).subscript i = readBack numeral (v.subscript i) := by
  cases v with
  | null | boolean | integer | string => cases i <;> rfl
  | number x =>
      have hnull : readBack numeral ((Value.number x).subscript i) = .null := by cases i <;> rfl
      rw [hnull, readBack]
      split
      · cases i <;> rfl
      · split
        · cases i <;> rfl
        · exact number_subscript _ i
  | array elems =>
      cases i with
      | key k => rfl
      | index i =>
          show Value.atIndex (.array (readBackItems numeral elems)) i .null =
            readBack numeral (Value.atIndex (.array elems) i .null)
          unfold Value.atIndex
          dsimp only
          rw [readBackItems_eq, List.length_map]
          split
          · rw [List.getD_eq_getElem?_getD, List.getD_eq_getElem?_getD, List.getElem?_map]
            cases elems[i.toInt.toNat]? <;> rfl
          · rfl
  | object pairs =>
      cases i with
      | index i => rfl
      | key k =>
          show Value.atKey (.object (readBackPairs numeral pairs)) k .null =
            readBack numeral (Value.atKey (.object pairs) k .null)
          unfold Value.atKey
          dsimp only
          rw [lookup_readBackPairs]
          cases pairs.lookup k <;> rfl

theorem path_readBack (v : Value) (is : List Indexer) :
    (readBack numeral v).path is = readBack numeral (v.path is) := by
  induction is generalizing v with
  | nil => rfl
  | cons i is ih =>
      rw [Value.path, List.foldl_cons, subscript_readBack]
      exact ih (v.subscript i)

/-- **Paths.** A chain of indexers finds, in what is read of a value that was written, what it finds in the value,
    as it is read back. -/
theorem stringify_path (hL : L.Ecma) (hn : Writes numeral) {v : Value} (ho : Ordered v) :
    ∃ v', parse (stringify numeral L v) = .ok v' ∧ ∀ is, v'.path is = readBack numeral (v.path is) :=
  ⟨readBack numeral v, (jsonText_stringify hL hn ho).parse, path_readBack v⟩

theorem stringify_path_nested : ∃ v',
    parse (stringify numeralHalves { indent := 2 } (.array [.object [("a", .number 1.5)], .null])) = .ok v' ∧
      ∀ is, v'.path is =
        readBack numeralHalves ((Value.array [.object [("a", .number 1.5)], .null]).path is) :=
  stringify_path (v := .array [.object [("a", .number 1.5)], .null]) ⟨rfl, rfl⟩ writes_halves
    ⟨⟨List.pairwise_singleton _ _, trivial, trivial⟩, trivial, trivial⟩

end Json

end DlsSdk
